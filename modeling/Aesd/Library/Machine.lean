import Aesd.Library.Exec

/-!
# Runs of a machine

A machine takes a step for every input and answers with an output; a step may fault. The rules below
turn what is known of one step into what is known of a run: an invariant, a simulation by an
abstract machine that cannot fault, and the purging of inputs that leave no trace.
-/

namespace Machine

open Exec

variable {ε σ ι ο τ : Type} {step : ι → Exec ε σ ο}

/-- Take a step for every input, in order. -/
def run (step : ι → Exec ε σ ο) : List ι → Exec ε σ (List ο)
  | [] => pure []
  | i :: is => do
    let o ← step i
    let os ← run step is
    pure (o :: os)

/-- The states that some run reaches from `s₀`. -/
def Reachable (step : ι → Exec ε σ ο) (s₀ s : σ) : Prop :=
  ∃ is os, run step is s₀ = .ok (os, s)

@[simp] lemma run_nil (s : σ) : run step [] s = .ok ([], s) := rfl

lemma run_cons {i : ι} {is : List ι} {s s' s'' : σ} {o : ο} {os : List ο}
    (h : step i s = .ok (o, s')) (hs : run step is s' = .ok (os, s'')) :
    run step (i :: is) s = .ok (o :: os, s'') := by
  rw [run, bind_ok h, bind_ok hs]
  rfl

lemma of_run_cons {i : ι} {is : List ι} {s t : σ} {os : List ο}
    (h : run step (i :: is) s = .ok (os, t)) :
    ∃ o os' s', os = o :: os' ∧ step i s = .ok (o, s') ∧ run step is s' = .ok (os', t) := by
  obtain ⟨o, s', hstep, h⟩ := of_bind_ok h
  obtain ⟨os', s'', hrun, h⟩ := of_bind_ok h
  cases h
  exact ⟨o, os', s', rfl, hstep, hrun⟩

lemma run_append {is is' : List ι} {s s' s'' : σ} {os os' : List ο}
    (h : run step is s = .ok (os, s')) (h' : run step is' s' = .ok (os', s'')) :
    run step (is ++ is') s = .ok (os ++ os', s'') := by
  induction is generalizing s os with
  | nil =>
    cases h
    exact h'
  | cons i is ih =>
    obtain ⟨o, os₁, s₁, rfl, hstep, hrun⟩ := of_run_cons h
    exact run_cons hstep (ih hrun)

lemma Reachable.refl (s : σ) : Reachable step s s := ⟨[], [], rfl⟩

lemma Reachable.next {i : ι} {s₀ s s' : σ} {o : ο} (h : Reachable step s₀ s)
    (hs : step i s = .ok (o, s')) : Reachable step s₀ s' := by
  obtain ⟨is, os, hrun⟩ := h
  exact ⟨is ++ [i], os ++ [o], run_append hrun (run_cons hs (run_nil s'))⟩

/-! ### Invariants -/

/-- A run whose steps keep an invariant does not fault, and ends with the invariant. -/
lemma run_invariant {I : σ → Prop}
    (hstep : ∀ i s, I s → Returns (step i) s fun _ s' => I s') (is : List ι) {s : σ} (hs : I s) :
    Returns (run step is) s fun _ s' => I s' := by
  induction is generalizing s with
  | nil => exact ⟨[], s, rfl, hs⟩
  | cons i is ih =>
    obtain ⟨o, s', hi, hs'⟩ := hstep i s hs
    obtain ⟨os, s'', his, hs''⟩ := ih hs'
    exact ⟨o :: os, s'', run_cons hi his, hs''⟩

lemma Reachable.invariant {I : σ → Prop}
    (hstep : ∀ i s, I s → Returns (step i) s fun _ s' => I s') {s₀ s : σ} (h₀ : I s₀)
    (h : Reachable step s₀ s) : I s := by
  obtain ⟨is, os, hrun⟩ := h
  exact (run_invariant hstep is h₀).post hrun

/-! ### Simulation by an abstract machine -/

/-- A run of an abstract machine, which is total. -/
def runSpec (spec : ι → τ → ο × τ) : List ι → τ → List ο × τ
  | [], t => ([], t)
  | i :: is, t =>
    let (os, t') := runSpec spec is (spec i t).2
    ((spec i t).1 :: os, t')

lemma runSpec_concat (spec : ι → τ → ο × τ) (is : List ι) (i : ι) (t : τ) :
    runSpec spec (is ++ [i]) t = ((runSpec spec is t).1 ++ [(spec i (runSpec spec is t).2).1],
      (spec i (runSpec spec is t).2).2) := by
  induction is generalizing t with
  | nil => rfl
  | cons j is ih =>
    rw [List.cons_append, runSpec, ih]
    rfl

/-- If every step answers as the abstract machine does, so does every run. -/
lemma run_simulates {R : σ → τ → Prop} {spec : ι → τ → ο × τ}
    (hstep : ∀ i s t, R s t →
      Returns (step i) s fun o s' => o = (spec i t).1 ∧ R s' (spec i t).2)
    (is : List ι) {s : σ} {t : τ} (h : R s t) :
    Returns (run step is) s fun os s' =>
      os = (runSpec spec is t).1 ∧ R s' (runSpec spec is t).2 := by
  induction is generalizing s t with
  | nil => exact ⟨[], s, rfl, rfl, h⟩
  | cons i is ih =>
    obtain ⟨o, s', hi, rfl, hR⟩ := hstep i s t h
    obtain ⟨os, s'', his, rfl, hR'⟩ := ih hR
    exact ⟨_, s'', run_cons hi his, rfl, hR'⟩

/-! ### Runs with a condition on every step -/

/-- `P` holds of every step of a run: of the state before it, its input, its output, and the state
after it. -/
def Along (step : ι → Exec ε σ ο) (P : σ → ι → ο → σ → Prop) : List ι → σ → Prop
  | [], _ => True
  | i :: is, s => ∀ o s', step i s = .ok (o, s') → P s i o s' ∧ Along step P is s'

/-- Every input of a run satisfies `A` in the state that it meets. -/
def Meets (step : ι → Exec ε σ ο) (A : σ → ι → Prop) : List ι → σ → Prop
  | [], _ => True
  | i :: is, s => A s i ∧ ∀ o s', step i s = .ok (o, s') → Meets step A is s'

/-- What holds of the result of a step is decided by taking the step. -/
@[reducible]
def decidableOk {x : Except ε (ο × σ)} {Q : ο → σ → Prop} (dec : ∀ o s', Decidable (Q o s')) :
    Decidable (∀ o s', x = .ok (o, s') → Q o s') :=
  match x with
  | .ok (o, s') =>
    @decidable_of_iff _ (Q o s') ⟨fun h _ _ heq => by cases heq; exact h, fun h => h o s' rfl⟩
      (dec o s')
  | .error _ => .isTrue fun _ _ heq => by cases heq

/-- Whether `P` holds of every step of a run is decided by running it. -/
instance Along.decidable {P : σ → ι → ο → σ → Prop} [∀ s i o s', Decidable (P s i o s')] :
    ∀ (is : List ι) (s : σ), Decidable (Along step P is s)
  | [], _ => .isTrue trivial
  | i :: is, s =>
    decidableOk fun o s' =>
      have := Along.decidable (P := P) is s'
      inferInstanceAs (Decidable (P s i o s' ∧ Along step P is s'))

/-- Whether the inputs of a run satisfy `A` is decided by running it. -/
instance Meets.decidable {A : σ → ι → Prop} [∀ s i, Decidable (A s i)] :
    ∀ (is : List ι) (s : σ), Decidable (Meets step A is s)
  | [], _ => .isTrue trivial
  | i :: is, s =>
    have : Decidable (∀ o s', step i s = .ok (o, s') → Meets step A is s') :=
      decidableOk fun _ s' => Meets.decidable is s'
    inferInstanceAs (Decidable (A s i ∧ _))

/-- A step has one result only. -/
lemma meets_cons {A : σ → ι → Prop} {i : ι} {is : List ι} {s s' : σ} {o : ο}
    (h : step i s = .ok (o, s')) :
    Meets step A (i :: is) s ↔ A s i ∧ Meets step A is s' := by
  refine and_congr_right fun _ => ⟨fun hall => hall o s' h, ?_⟩
  intro htail o₁ s₁ h₁
  rw [h] at h₁
  cases h₁
  exact htail

/-- A condition on the inputs of a run, input by input. -/
lemma meets_iff {A : σ → ι → Prop} {is : List ι} {s : σ} :
    Meets step A is s ↔ ∀ pre i post os s', is = pre ++ i :: post →
      run step pre s = .ok (os, s') → A s' i := by
  induction is generalizing s with
  | nil =>
    refine iff_of_true trivial ?_
    intro pre i post os s' heq
    exact absurd heq.symm (by simp)
  | cons i is ih =>
    constructor
    · rintro ⟨hA, htail⟩ pre j post os s' heq hrun
      cases pre with
      | nil =>
        cases heq
        cases hrun
        exact hA
      | cons i' pre =>
        cases heq
        obtain ⟨o, os', s₁, rfl, hi, hrun⟩ := of_run_cons hrun
        exact ih.mp (htail o s₁ hi) pre j post os' s' rfl hrun
    · intro hall
      refine ⟨hall [] i is [] s rfl rfl, ?_⟩
      intro o s₁ hi
      refine ih.mpr ?_
      rintro pre j post os s' rfl hrun
      exact hall (i :: pre) j post (o :: os) s' rfl (run_cons hi hrun)

/-- An invariant of the state and of the inputs so far, over inputs that satisfy `A`. -/
lemma run_meets {β : Type} {A : σ → ι → Prop} {I : β → σ → Prop} {f : β → ι → β}
    (hstep : ∀ i s b, I b s → A s i → Returns (step i) s fun _ s' => I (f b i) s')
    (is : List ι) {s : σ} {b : β} (h : I b s) (hA : Meets step A is s) :
    Returns (run step is) s fun _ s' => I (is.foldl f b) s' := by
  induction is generalizing s b with
  | nil => exact ⟨[], s, rfl, h⟩
  | cons i is ih =>
    obtain ⟨o, s', hi, hI⟩ := hstep i s b h hA.1
    obtain ⟨os, s'', his, hI'⟩ := ih hI (hA.2 o s' hi)
    exact ⟨o :: os, s'', run_cons hi his, hI'⟩

/-- A good state stays good as long as the inputs satisfy `B`, and the first input that does not
makes it bad for good: the run ends in a good state exactly if all inputs satisfied `B`. -/
lemma run_meets_iff {β : Type} {A B : σ → ι → Prop} (good bad : β → σ → Prop) {f : β → ι → β}
    (hgood : ∀ i s b, good b s → A s i → Returns (step i) s fun _ s' =>
      B s i ∧ good (f b i) s' ∨ ¬ B s i ∧ bad (f b i) s')
    (hbad : ∀ i s b, bad b s → A s i → Returns (step i) s fun _ s' => bad (f b i) s')
    (is : List ι) {s : σ} {b : β} (h : good b s) (hA : Meets step A is s) :
    Returns (run step is) s fun _ s' =>
      Meets step B is s ∧ good (is.foldl f b) s' ∨ ¬ Meets step B is s ∧ bad (is.foldl f b) s' := by
  induction is generalizing s b with
  | nil => exact ⟨[], s, rfl, .inl ⟨trivial, h⟩⟩
  | cons i is ih =>
    obtain ⟨o, s', hi, ⟨hB, hI⟩ | ⟨hB, hI⟩⟩ := hgood i s b h hA.1
    · obtain ⟨os, s'', his, hend⟩ := ih hI (hA.2 o s' hi)
      refine ⟨o :: os, s'', run_cons hi his, hend.imp ?_ ?_⟩
      · rintro ⟨hmeets, hI'⟩
        exact ⟨(meets_cons hi).mpr ⟨hB, hmeets⟩, hI'⟩
      · rintro ⟨hmeets, hI'⟩
        exact ⟨fun hcons => hmeets ((meets_cons hi).mp hcons).2, hI'⟩
    · obtain ⟨os, s'', his, hI'⟩ := run_meets hbad is hI (hA.2 o s' hi)
      exact ⟨o :: os, s'', run_cons hi his, .inr ⟨fun hcons => hB hcons.1, hI'⟩⟩

/-- An invariant of the state and of what was collected from the outputs so far. -/
lemma run_collect {β : Type} {P : σ → ι → ο → σ → Prop} {I : β → σ → Prop} {f : β → ο → β}
    (hstep : ∀ i s b, I b s → Returns (step i) s fun o s' => P s i o s' → I (f b o) s')
    (is : List ι) {s : σ} {b : β} (h : I b s) (hP : Along step P is s) :
    Returns (run step is) s fun os s' => I (os.foldl f b) s' := by
  induction is generalizing s b with
  | nil => exact ⟨[], s, rfl, h⟩
  | cons i is ih =>
    obtain ⟨o, s', hi, hI⟩ := hstep i s b h
    obtain ⟨hPi, htail⟩ := hP o s' hi
    obtain ⟨os, s'', his, hI'⟩ := ih (hI hPi) htail
    exact ⟨o :: os, s'', run_cons hi his, hI'⟩

/-! ### Laws of every state on the way -/

section always

variable {A B : σ → ι → Prop} {G L : σ → Prop}

lemma Along.of_forall {P : σ → ι → ο → σ → Prop} (h : ∀ s i o s', P s i o s') (is : List ι)
    (s : σ) : Along step P is s := by
  induction is generalizing s with
  | nil => trivial
  | cons i is ih => exact fun o s' _ => ⟨h s i o s', ih s'⟩

lemma Along.left {P : σ → ι → ο → σ → Prop} {is is' : List ι} {s : σ}
    (h : Along step P (is ++ is') s) : Along step P is s := by
  induction is generalizing s with
  | nil => trivial
  | cons i is ih =>
    intro o s' hstep
    obtain ⟨hP, htail⟩ := h o s' hstep
    exact ⟨hP, ih htail⟩

/-- Inputs that satisfy `B` lead from good states to good ones. -/
lemma Along.good
    (hstep : ∀ i s o s', G s → A s i → step i s = .ok (o, s') → B s i ∧ G s' ∨ ¬ B s i ∧ ¬ L s')
    {is : List ι} {s s' : σ} {os : List ο} (hB : Along step (fun s i _ _ => B s i) is s)
    (hA : Along step (fun s i _ _ => A s i) is s) (h : G s) (hrun : run step is s = .ok (os, s')) :
    G s' := by
  induction is generalizing s os with
  | nil =>
    cases hrun
    exact h
  | cons i is ih =>
    obtain ⟨o, os', s₁, rfl, hi, hrun⟩ := of_run_cons hrun
    obtain ⟨hBi, hB⟩ := hB o s₁ hi
    obtain ⟨hAi, hA⟩ := hA o s₁ hi
    rcases hstep i s o s₁ h hAi hi with ⟨-, h₁⟩ | ⟨hnot, -⟩
    · exact ih hB hA h₁ hrun
    · exact absurd hBi hnot

/-- Good states obey the law, and the first input that does not satisfy `B` breaks it at once: the
law holds in every state of a run exactly if all its inputs satisfied `B`. -/
lemma always_iff (hlaw : ∀ s, G s → L s)
    (hstep : ∀ i s o s', G s → A s i → step i s = .ok (o, s') → B s i ∧ G s' ∨ ¬ B s i ∧ ¬ L s')
    (is : List ι) {s : σ} (h : G s) (hA : Along step (fun s i _ _ => A s i) is s) :
    (∀ is' os s', is' <+: is → run step is' s = .ok (os, s') → L s') ↔
      Along step (fun s i _ _ => B s i) is s := by
  constructor
  · intro hall
    induction is generalizing s with
    | nil => trivial
    | cons i is ih =>
      intro o s₁ hi
      obtain ⟨hAi, hA⟩ := hA o s₁ hi
      rcases hstep i s o s₁ h hAi hi with ⟨hBi, h₁⟩ | ⟨-, hbroken⟩
      · refine ⟨hBi, ih h₁ hA ?_⟩
        intro is' os s' hp hrun
        exact hall (i :: is') (o :: os) s' (List.cons_prefix_cons.mpr ⟨rfl, hp⟩) (run_cons hi hrun)
      · have hfirst : [i] <+: i :: is := ⟨is, rfl⟩
        exact absurd (hall [i] [o] s₁ hfirst (run_cons hi (run_nil s₁))) hbroken
  · rintro hB is' os s' ⟨is'', rfl⟩ hrun
    exact hlaw s' (Along.good hstep hB.left hA.left h hrun)

/-- A law of every state on the way, seen from the state behind the first step. -/
lemma forall_prefix_cons {i : ι} {is : List ι} {s s₁ : σ} {o : ο} (hi : step i s = .ok (o, s₁)) :
    (∀ is', is' <+: i :: is → Returns (run step is') s fun _ s' => L s') ↔
      L s ∧ ∀ is', is' <+: is → Returns (run step is') s₁ fun _ s' => L s' := by
  constructor
  · intro hall
    constructor
    · obtain ⟨os, s', hrun, hL⟩ := hall [] List.nil_prefix
      cases hrun
      exact hL
    · intro is' hp
      obtain ⟨os, s', hrun, hL⟩ := hall (i :: is') (List.cons_prefix_cons.mpr ⟨rfl, hp⟩)
      obtain ⟨o', os', s₁', rfl, hi', hrun'⟩ := of_run_cons hrun
      rw [hi] at hi'
      cases hi'
      exact ⟨os', s', hrun', hL⟩
  · rintro ⟨hL, hall⟩ is' hp
    cases is' with
    | nil => exact ⟨[], s, rfl, hL⟩
    | cons i' is' =>
      obtain ⟨rfl, htail⟩ := List.cons_prefix_cons.mp hp
      obtain ⟨os, s', hrun, hL'⟩ := hall is' htail
      exact ⟨o :: os, s', run_cons hi hrun, hL'⟩

/-- The same where an input that does not satisfy `B` may also make the step fault. -/
lemma always_returns_iff (hlaw : ∀ s, G s → L s)
    (hgood : ∀ i s, G s → A s i → B s i → Returns (step i) s fun _ s' => G s')
    (hbad : ∀ i s, G s → A s i → ¬ B s i → ¬ Returns (step i) s fun _ s' => L s')
    (is : List ι) {s : σ} (h : G s) (hA : Meets step A is s) :
    (∀ is', is' <+: is → Returns (run step is') s fun _ s' => L s') ↔ Meets step B is s := by
  induction is generalizing s with
  | nil =>
    refine iff_of_true ?_ trivial
    intro is' hp
    rw [List.prefix_nil.mp hp]
    exact ⟨[], s, rfl, hlaw s h⟩
  | cons i is ih =>
    by_cases hB : B s i
    · obtain ⟨o, s₁, hi, h₁⟩ := hgood i s h hA.1 hB
      rw [meets_cons hi, and_iff_right hB, ← ih h₁ (hA.2 o s₁ hi), forall_prefix_cons hi,
        and_iff_right (hlaw s h)]
    · refine iff_of_false ?_ (fun hmeets => hB hmeets.1)
      intro hall
      obtain ⟨os, s', hrun, hL⟩ := hall [i] ⟨is, rfl⟩
      obtain ⟨o, os', s₁, rfl, hi, hrun'⟩ := of_run_cons hrun
      cases hrun'
      exact hbad i s h hA.1 hB ⟨o, s', hi, hL⟩

end always

/-- The outputs of a run that belong to inputs satisfying `p`. -/
def outputsOf (p : ι → Bool) : List ι → List ο → List ο
  | i :: is, o :: os => if p i then o :: outputsOf p is os else outputsOf p is os
  | _, _ => []

/-- Inputs that keep the state related to what it was can be removed from a run: the outputs of the
other inputs stay the same. -/
lemma run_purge {R : σ → σ → Prop} {p : ι → Bool} {P : σ → ι → ο → σ → Prop}
    (hidden : ∀ i s t, R s t → p i = false →
      Returns (step i) s fun o s' => P s i o s' → R s' t)
    (visible : ∀ i s t, R s t → p i = true →
      Returns (step i) s fun o s' => Returns (step i) t fun o' t' => o = o' ∧ R s' t')
    (is : List ι) {s t : σ} (h : R s t) (hP : Along step P is s) :
    Returns (run step is) s fun os s' =>
      Returns (run step (is.filter p)) t fun os' t' => outputsOf p is os = os' ∧ R s' t' := by
  induction is generalizing s t with
  | nil => exact ⟨[], s, rfl, [], t, rfl, rfl, h⟩
  | cons i is ih =>
    cases hp : p i with
    | false =>
      obtain ⟨o, s', hstep, hR⟩ := hidden i s t h hp
      obtain ⟨hPi, htail⟩ := hP o s' hstep
      obtain ⟨os, s'', hrun, os', t', hrun', hos, hR'⟩ := ih (hR hPi) htail
      refine ⟨o :: os, s'', run_cons hstep hrun, os', t', ?_, ?_, hR'⟩
      · rwa [List.filter_cons_of_neg (by simp [hp])]
      · simpa [outputsOf, hp] using hos
    | true =>
      obtain ⟨o, s', hstep, o', t', hstep', rfl, hR⟩ := visible i s t h hp
      obtain ⟨-, htail⟩ := hP o s' hstep
      obtain ⟨os, s'', hrun, os', t'', hrun', hos, hR'⟩ := ih hR htail
      refine ⟨o :: os, s'', run_cons hstep hrun, o :: os', t'', ?_, ?_, hR'⟩
      · rw [List.filter_cons_of_pos hp]
        exact run_cons hstep' hrun'
      · simp [outputsOf, hp, hos]

end Machine
