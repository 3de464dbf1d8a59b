import Aesd.Library.Machine

/-!
# Ghost state

A program may carry a component in its state that it never reads, to record what it does. The record
can be erased: without it the program returns the same values and reaches the same states. What the
record says is shown by invariants of the larger state.
-/

namespace Exec

variable {ε σ γ τ α β : Type}

/-- Run a program next to the record. -/
def lift (m : Exec ε σ α) : Exec ε (σ × γ) α := fun t =>
  match m t.1 with
  | .ok (a, s) => .ok (a, (s, t.2))
  | .error e => .error e

/-- Update the record. -/
def ghost (f : σ → γ → γ) : Exec ε (σ × γ) Unit := fun t => .ok ((), (t.1, f t.1 t.2))

lemma lift_ok {m : Exec ε σ α} {t : σ × γ} {a : α} {s : σ} (h : m t.1 = .ok (a, s)) :
    (lift m : Exec ε (σ × γ) α) t = .ok (a, (s, t.2)) := by
  simp only [lift, h]

/-- Inversion of a step that does not touch the record. -/
lemma of_lift_ok {m : Exec ε σ α} {t t' : σ × γ} {a : α}
    (h : (lift m : Exec ε (σ × γ) α) t = .ok (a, t')) : m t.1 = .ok (a, t'.1) ∧ t'.2 = t.2 := by
  rw [lift] at h
  cases hm : m t.1 with
  | error e =>
    rw [hm] at h
    cases h
  | ok p =>
    rw [hm] at h
    cases h
    exact ⟨rfl, rfl⟩

/-! ### Projection -/

section Projects

variable {π : τ → σ}

/-- Seen through `π`, `m'` does what `m` does. -/
def Projects (π : τ → σ) (m' : Exec ε τ α) (m : Exec ε σ α) : Prop :=
  ∀ t, (m' t).map (fun p => (p.1, π p.2)) = m (π t)

lemma Projects.pure (a : α) : Projects π (pure a : Exec ε τ α) (Pure.pure a) := fun _ => rfl

lemma Projects.fault (e : ε) : Projects π (fault e : Exec ε τ α) (Exec.fault e) := fun _ => rfl

lemma Projects.bind {m' : Exec ε τ α} {m : Exec ε σ α} {f' : α → Exec ε τ β}
    {f : α → Exec ε σ β} (h : Projects π m' m) (hf : ∀ a, Projects π (f' a) (f a)) :
    Projects π (m' >>= f') (m >>= f) := by
  intro t
  have ht := h t
  rw [bind_apply, bind_apply, ← ht]
  cases m' t with
  | error e => rfl
  | ok p => exact hf p.1 p.2

lemma Projects.ite {p : Prop} [Decidable p] {m₁' m₂' : Exec ε τ α} {m₁ m₂ : Exec ε σ α}
    (h₁ : Projects π m₁' m₁) (h₂ : Projects π m₂' m₂) :
    Projects π (if p then m₁' else m₂') (if p then m₁ else m₂) := by
  split_ifs
  · exact h₁
  · exact h₂

/-- What is known of the program that is seen holds of the other one. -/
lemma Projects.returns {m' : Exec ε τ α} {m : Exec ε σ α} (h : Projects π m' m) {t : τ}
    {Q : α → σ → Prop} (hm : Returns m (π t) Q) :
    Returns m' t fun a t' => m (π t) = .ok (a, π t') ∧ Q a (π t') := by
  obtain ⟨a, s, hs, hQ⟩ := hm
  have ht := h t
  rw [hs] at ht
  obtain ⟨⟨b, t'⟩, hm', hpair⟩ := exists_of_map_ok ht
  obtain ⟨rfl, rfl⟩ := Prod.mk.inj hpair
  exact ⟨b, t', hm', hs, hQ⟩

lemma Projects.of_ok {m' : Exec ε τ α} {m : Exec ε σ α} (h : Projects π m' m) {t t' : τ} {a : α}
    (hm' : m' t = .ok (a, t')) : m (π t) = .ok (a, π t') := by
  have ht := h t
  rw [hm'] at ht
  exact ht.symm

end Projects

/-! ### Erasure -/

/-- Without the record, `m'` does what `m` does. -/
def Erases (m' : Exec ε (σ × γ) α) (m : Exec ε σ α) : Prop :=
  ∀ t, (m' t).map (fun p => (p.1, p.2.1)) = m t.1

lemma Erases.projects {m' : Exec ε (σ × γ) α} {m : Exec ε σ α} (h : Erases m' m) :
    Projects Prod.fst m' m := h

lemma Erases.pure (a : α) : Erases (pure a : Exec ε (σ × γ) α) (Pure.pure a) := fun _ => rfl

lemma Erases.fault (e : ε) : Erases (fault e : Exec ε (σ × γ) α) (Exec.fault e) := fun _ => rfl

lemma Erases.lift (m : Exec ε σ α) : Erases (Exec.lift m : Exec ε (σ × γ) α) m := by
  intro t
  rw [Exec.lift]
  cases m t.1 with
  | error e => rfl
  | ok p => rfl

lemma Erases.ghost (f : σ → γ → γ) :
    Erases (Exec.ghost f : Exec ε (σ × γ) Unit) (Pure.pure ()) := fun _ => rfl

lemma Erases.bind {m' : Exec ε (σ × γ) α} {m : Exec ε σ α} {f' : α → Exec ε (σ × γ) β}
    {f : α → Exec ε σ β} (h : Erases m' m) (hf : ∀ a, Erases (f' a) (f a)) :
    Erases (m' >>= f') (m >>= f) := h.projects.bind hf

lemma Erases.ite {p : Prop} [Decidable p] {m₁' m₂' : Exec ε (σ × γ) α} {m₁ m₂ : Exec ε σ α}
    (h₁ : Erases m₁' m₁) (h₂ : Erases m₂' m₂) :
    Erases (if p then m₁' else m₂') (if p then m₁ else m₂) := h₁.projects.ite h₂

/-- Recording before or after a step is erased with the record. -/
lemma Erases.ghost_bind {m' : Exec ε (σ × γ) α} {m : Exec ε σ α} (f : σ → γ → γ)
    (h : Erases m' m) : Erases (Exec.ghost f >>= fun _ => m') m := fun t => h (t.1, f t.1 t.2)

lemma bind_pure_eq (m : Exec ε σ α) : (m >>= fun a => Pure.pure a) = m := by
  funext s
  rw [bind_apply]
  cases m s with
  | error e => rfl
  | ok p => rfl

/-- What is known of the erased program holds of the recording one. -/
lemma Erases.returns {m' : Exec ε (σ × γ) α} {m : Exec ε σ α} (h : Erases m' m) {t : σ × γ}
    {Q : α → σ → Prop} (hm : Returns m t.1 Q) :
    Returns m' t fun a t' => m t.1 = .ok (a, t'.1) ∧ Q a t'.1 := h.projects.returns hm

lemma Erases.of_ok {m' : Exec ε (σ × γ) α} {m : Exec ε σ α} (h : Erases m' m) {t t' : σ × γ}
    {a : α} (hm' : m' t = .ok (a, t')) : m t.1 = .ok (a, t'.1) := h.projects.of_ok hm'

lemma Erases.exists_ok {m' : Exec ε (σ × γ) α} {m : Exec ε σ α} (h : Erases m' m) {t : σ × γ}
    {a : α} {s : σ} (hm : m t.1 = .ok (a, s)) : ∃ g, m' t = .ok (a, (s, g)) := by
  obtain ⟨_, t', hm', hs, -⟩ := h.returns (Q := fun _ _ => True) ⟨a, s, hm, trivial⟩
  rw [hm] at hs
  cases hs
  exact ⟨t'.2, hm'⟩

lemma Erases.run {ι : Type} {step' : ι → Exec ε (σ × γ) α} {step : ι → Exec ε σ α}
    (h : ∀ i, Erases (step' i) (step i)) (is : List ι) :
    Erases (Machine.run step' is) (Machine.run step is) := by
  induction is with
  | nil => exact .pure []
  | cons i is ih => exact (h i).bind fun a => ih.bind fun as => .pure (a :: as)

/-! ### Invariants of programs that may fault -/

/-- If the program returns from a state with the invariant, it returns to one. -/
def Keeps (I : τ → Prop) (m : Exec ε τ α) : Prop := ∀ t a t', I t → m t = .ok (a, t') → I t'

variable {I : τ → Prop}

lemma Keeps.pure (a : α) : Keeps I (Pure.pure a : Exec ε τ α) := by
  intro t b t' h heq
  cases heq
  exact h

lemma Keeps.fault (e : ε) : Keeps I (Exec.fault e : Exec ε τ α) := by
  intro t a t' _ heq
  cases heq

lemma Keeps.read (f : τ → α) : Keeps I (Exec.read f : Exec ε τ α) := by
  intro t a t' h heq
  cases heq
  exact h

lemma Keeps.update {f : τ → τ} (hf : ∀ t, I t → I (f t)) :
    Keeps I (Exec.update f : Exec ε τ Unit) := by
  intro t a t' h heq
  cases heq
  exact hf t h

lemma Keeps.bind {m : Exec ε τ α} {f : α → Exec ε τ β} (hm : Keeps I m)
    (hf : ∀ a, Keeps I (f a)) : Keeps I (m >>= f) := by
  intro t b t'' h heq
  obtain ⟨a, t', hm', hf'⟩ := of_bind_ok heq
  exact hf a t' b t'' (hm t a t' h hm') hf'

lemma Keeps.ite {p : Prop} [Decidable p] {m₁ m₂ : Exec ε τ α} (h₁ : Keeps I m₁)
    (h₂ : Keeps I m₂) : Keeps I (if p then m₁ else m₂) := by
  split_ifs
  · exact h₁
  · exact h₂

/-- A step that does not touch the record keeps an invariant if it does so for every record. -/
lemma Keeps.lift {I : σ × γ → Prop} {m : Exec ε σ α} (h : ∀ g, Keeps (fun s => I (s, g)) m) :
    Keeps I (Exec.lift m) := by
  intro t a t' ht heq
  obtain ⟨hm, hrecord⟩ := of_lift_ok heq
  have hI := h t.2 t.1 a t'.1 ht hm
  rw [← hrecord] at hI
  exact hI

lemma Keeps.run {ι : Type} {step : ι → Exec ε τ α} (h : ∀ i, Keeps I (step i)) (is : List ι) :
    Keeps I (Machine.run step is) := by
  induction is with
  | nil => exact .pure []
  | cons i is ih => exact (h i).bind fun a => ih.bind fun as => .pure (a :: as)

end Exec
