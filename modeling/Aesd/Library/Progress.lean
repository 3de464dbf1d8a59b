import Aesd.Library.Threads
import Mathlib.Data.DFinsupp.WellFounded
import Mathlib.SetTheory.Cardinal.Order

/-!
# Threads that never get stuck

Threads that lock their mutexes in one order cannot wait for each other in a circle. So from every
state of a run the threads can go on until all of them have ended.
-/

namespace Threads

open Exec

variable {ε σ M T α : Type} {c c' : Config ε σ M T α} {t : T}

/-- What is left of a program after one step. -/
inductive Prog.Next : Prog ε σ M α → Prog ε σ M α → Prop
  | act (next : σ → σ) (k : σ → Prog ε σ M α) (s : σ) : Next (k s) (.act next k)
  | lock (mutex : M) (k : Prog ε σ M α) : Next k (.lock mutex k)
  | unlock (mutex : M) (k : Prog ε σ M α) : Next k (.unlock mutex k)

/-- Every program ends. -/
lemma Prog.next_wellFounded : WellFounded (Prog.Next (ε := ε) (σ := σ) (M := M) (α := α)) := by
  refine ⟨fun p => ?_⟩
  induction p with
  | ret a => exact ⟨_, fun q hq => by cases hq⟩
  | fault e => exact ⟨_, fun q hq => by cases hq⟩
  | act next k ih =>
    refine ⟨_, fun q hq => ?_⟩
    cases hq
    exact ih _
  | lock mutex k ih =>
    refine ⟨_, fun q hq => ?_⟩
    cases hq
    exact ih
  | unlock mutex k ih =>
    refine ⟨_, fun q hq => ?_⟩
    cases hq
    exact ih

namespace Config

/-- The thread has ended. -/
def Ended (c : Config ε σ M T α) (t : T) : Prop := ∃ a, c.thread t = .ret a

instance (c : Config ε σ M T α) (t : T) : Decidable (c.Ended t) :=
  match h : c.thread t with
  | .ret a => .isTrue ⟨a, h⟩
  | .fault _ | .act _ _ | .lock _ _ | .unlock _ _ =>
    .isFalse fun ⟨_, ha⟩ => by rw [h] at ha; cases ha

/-- The thread waits for a mutex that is locked. -/
def Waits (c : Config ε σ M T α) (t : T) (mutex : M) : Prop :=
  ∃ k, c.thread t = .lock mutex k ∧ c.owner mutex ≠ none

variable [DecidableEq M] {P : Protocol σ M T} {Q : T → List M → α → σ → Prop} 

/-- The thread has a step to take. -/
def Ready (c : Config ε σ M T α) (t : T) : Prop := ¬ c.Ended t ∧ ∀ mutex, ¬ c.Waits t mutex

/-- Whoever is waited for does not wait, or waits for a mutex further on. -/
lemma Safe.exists_ready [Finite M] (h : c.Safe P Q)
    (hQ : ∀ t held a, Q t held a c.shared → held = []) (ht : ¬ c.Ended t) :
    ∃ u, c.Ready u ∧ (u = t ∨ ∃ mutex, c.owner mutex = some u) := by
  obtain ⟨held, h⟩ := h
  obtain ⟨bound, hbound⟩ : ∃ bound, ∀ mutex, P.rank mutex ≤ bound := by
    have hfinite := Set.finite_range P.rank
    obtain ⟨bound, hb⟩ := hfinite.bddAbove
    exact ⟨bound, fun mutex => hb (Set.mem_range_self mutex)⟩
  by_cases hready : ∀ mutex, ¬ c.Waits t mutex
  · exact ⟨t, ⟨ht, hready⟩, .inl rfl⟩
  obtain ⟨mutex, hwaits⟩ := not_forall_not.mp hready
  -- by induction on the number of ranks above that of the mutex
  obtain ⟨n, hn⟩ : ∃ n, bound - P.rank mutex = n := ⟨_, rfl⟩
  induction n using Nat.strong_induction_on generalizing t mutex with
  | _ n ih =>
    obtain ⟨k, hk, howner⟩ := hwaits
    obtain ⟨u, hu⟩ := Option.ne_none_iff_exists'.mp howner
    have hmem := (h.owner mutex u).mp hu
    have hrunning : ¬ c.Ended u := by
      rintro ⟨a, ha⟩
      have hok := h.thread u
      rw [ha] at hok
      have hnil := hQ u _ a (hok _ (Protocol.Rely.refl _))
      rw [hnil] at hmem
      cases hmem
    by_cases hready : ∀ mutex, ¬ c.Waits u mutex
    · exact ⟨u, ⟨hrunning, hready⟩, .inr ⟨mutex, hu⟩⟩
    obtain ⟨mutex', hwaits'⟩ := not_forall_not.mp hready
    have hrank : P.rank mutex < P.rank mutex' := by
      obtain ⟨k', hk', -⟩ := hwaits'
      have hok := h.thread u
      rw [hk'] at hok
      exact hok.1 mutex hmem
    have hle := hbound mutex'
    obtain ⟨v, hv, hor⟩ :=
      ih (bound - P.rank mutex') (by omega) hrunning hready mutex' hwaits' rfl
    refine ⟨v, hv, .inr ?_⟩
    rcases hor with rfl | howns
    · exact ⟨mutex, hu⟩
    · exact howns

/-- Every thread gets a turn again and again. -/
def Fair (schedule : ℕ → T) : Prop := ∀ t n, ∃ m, n ≤ m ∧ schedule m = t

lemma Fair.tail {schedule : ℕ → T} (h : Fair schedule) : Fair fun n => schedule (n + 1) := by
  intro t n
  obtain ⟨m, hm, rfl⟩ := h t (n + 1)
  exact ⟨m - 1, by omega, congrArg schedule (Nat.sub_add_cancel (by omega))⟩

/-- There is a fair schedule of any threads that can be counted. -/
lemma exists_fair (T : Type) [Countable T] [Nonempty T] : ∃ schedule : ℕ → T, Fair schedule := by
  obtain ⟨f, hf⟩ := exists_surjective_nat T
  refine ⟨fun k => f k.unpair.1, fun t n => ?_⟩
  obtain ⟨m, rfl⟩ := hf t
  exact ⟨Nat.pair m n, Nat.right_le_pair m n, by simp only [Nat.unpair_pair]⟩

variable [DecidableEq T] (notLocked : ε)

/-- A thread that is ready takes a step, which leaves less of its program. -/
lemma Safe.step_next (h : c.Safe P Q) (ht : c.Ready t) :
    Returns (Config.step notLocked t) c fun _ c' => c'.Safe P Q ∧
      ∃ k, k.Next (c.thread t) ∧ c'.thread = Function.update c.thread t k := by
  obtain ⟨⟨⟩, c', hstep, hsafe⟩ : Returns (Config.step notLocked t) c fun _ c' => c'.Safe P Q :=
    h.step t
  refine ⟨(), c', hstep, hsafe, ?_⟩
  rw [Config.step] at hstep
  cases hthread : c.thread t with
  | ret a => exact absurd ⟨a, hthread⟩ ht.1
  | fault e =>
    rw [hthread] at hstep
    cases hstep
  | act next k =>
    rw [hthread] at hstep
    cases hstep
    exact ⟨_, .act next k c.shared, rfl⟩
  | lock mutex k =>
    rw [hthread] at hstep
    have hfree : c.owner mutex = none := by
      by_contra hne
      exact ht.2 mutex ⟨k, hthread, hne⟩
    simp only [if_pos hfree] at hstep
    cases hstep
    exact ⟨k, .lock mutex k, rfl⟩
  | unlock mutex k =>
    simp only [hthread] at hstep
    split_ifs at hstep
    cases hstep
    exact ⟨k, .unlock mutex k, rfl⟩

/-- A thread that has ended or waits leaves the configuration as it was. -/
lemma step_of_not_ready (h : ¬ c.Ready t) : Config.step notLocked t c = .ok ((), c) := by
  rw [Ready, not_and_or, not_not, not_forall_not] at h
  rcases h with ⟨a, ha⟩ | ⟨mutex, k, hk, howner⟩
  · simp only [Config.step, ha]
  · simp only [Config.step, hk, if_neg howner]

/-- A thread that is ready leaves less of all the programs. -/
lemma Safe.step_lt (h : c.Safe P Q) (ht : c.Ready t) :
    ∃ c₁, Config.step notLocked t c = .ok ((), c₁) ∧ c₁.Safe P Q ∧
      Pi.Lex (WellOrderingRel (α := T)) (fun {_} => Prog.Next) c₁.thread c.thread := by
  obtain ⟨⟨⟩, c₁, hstep, hsafe, k, hk, hthread⟩ := h.step_next notLocked ht
  refine ⟨c₁, hstep, hsafe, t, fun u hu => ?_, ?_⟩
  · rw [hthread]
    refine Function.update_of_ne ?_ _ _
    rintro rfl
    exact irrefl u hu
  · rw [hthread, Function.update_self]
    exact hk

/-! ### Turns -/

variable {ι : Type} {stop : σ → Bool}

/-- A turn of `i`: a step of the thread that the turn goes to. -/
def turnStep (stop : σ → Bool) (turn : ι → Config ε σ M T α → T) (i : ι) :
    Exec ε (Config ε σ M T α) Unit := fun c => Config.stepUntil stop notLocked (turn i c) c

omit [DecidableEq M] [DecidableEq T] in
lemma run_range_succ {step : ι → Exec ε (Config ε σ M T α) Unit} {schedule : ℕ → ι} {n : ℕ}
    {c₁ : Config ε σ M T α} {os : List Unit} (hstep : step (schedule 0) c = .ok ((), c₁))
    (hrun : Machine.run step ((List.range n).map fun n => schedule (n + 1)) c₁ = .ok (os, c')) :
    Machine.run step ((List.range (n + 1)).map schedule) c = .ok (() :: os, c') := by
  rw [List.range_succ_eq_map, List.map_cons, List.map_map]
  exact Machine.run_cons hstep hrun

/-- Suppose that, as long as a thread has not ended, some turn goes to a thread that is ready. Then
under a fair schedule all safe threads end, or they are stopped. -/
theorem Safe.finishes_turns [Finite T] (turn : ι → Config ε σ M T α → T)
    {I : Config ε σ M T α → Prop} (h : c.Safe P Q) (hc : I c)
    (hready : ∀ c : Config ε σ M T α, c.Safe P Q → I c → stop c.shared = false →
      (∃ t, ¬ c.Ended t) → ∃ i, c.Ready (turn i c))
    (hI : ∀ i c c', c.Safe P Q → I c → stop c.shared = false →
      Config.step notLocked (turn i c) c = .ok ((), c') → I c')
    {schedule : ℕ → ι} (hfair : Fair schedule) :
    ∃ n, Returns (Machine.run (turnStep notLocked stop turn) ((List.range n).map schedule)) c
      fun _ c' => stop c'.shared = true ∨ ∀ t, c'.Ended t := by
  have hwf : WellFounded (Pi.Lex (WellOrderingRel (α := T))
      (fun {_} => Prog.Next (ε := ε) (σ := σ) (M := M) (α := α))) :=
    Pi.Lex.wellFounded _ fun _ => Prog.next_wellFounded
  -- by induction on what is left of all the programs
  obtain ⟨programs, hprograms⟩ : ∃ programs, c.thread = programs := ⟨_, rfl⟩
  induction programs using hwf.induction generalizing c schedule with
  | _ programs ih =>
    by_cases hstop : stop c.shared = true
    · exact ⟨0, [], c, rfl, .inl hstop⟩
    by_cases hall : ∀ t, c.Ended t
    · exact ⟨0, [], c, rfl, .inr hall⟩
    obtain ⟨i, hi⟩ := hready c h hc (Bool.not_eq_true _ ▸ hstop) (not_forall.mp hall)
    have hturn : ∀ i c₁, Config.step notLocked (turn i c) c = .ok ((), c₁) →
        turnStep notLocked stop turn i c = .ok ((), c₁) := fun i c₁ h => (if_neg hstop).trans h
    have hgoOn : ∀ {schedule : ℕ → ι}, c.Ready (turn (schedule 0) c) → Fair schedule →
        ∃ n, Returns (Machine.run (turnStep notLocked stop turn) ((List.range n).map schedule)) c
          fun _ c' => stop c'.shared = true ∨ ∀ t, c'.Ended t := by
      intro schedule hready hfair
      obtain ⟨c₁, hstep, hsafe, hlt⟩ := h.step_lt notLocked hready
      have hc₁ := hI _ c c₁ h hc (Bool.not_eq_true _ ▸ hstop) hstep
      obtain ⟨n, os, c', hrun, hend⟩ := ih c₁.thread (hprograms ▸ hlt) hsafe hc₁ hfair.tail rfl
      exact ⟨n + 1, () :: os, c', run_range_succ (hturn _ c₁ hstep) hrun, hend⟩
    obtain ⟨m, -, hm⟩ := hfair i 0
    -- and on the number of turns until that of a thread that is ready
    induction m generalizing schedule with
    | zero =>
      subst hm
      exact hgoOn hi hfair
    | succ m ihm =>
      by_cases hready : c.Ready (turn (schedule 0) c)
      · exact hgoOn hready hfair
      · obtain ⟨n, os, c', hrun, hend⟩ := ihm hfair.tail hm
        have hstep := step_of_not_ready notLocked hready
        exact ⟨n + 1, () :: os, c', run_range_succ (hturn _ c hstep) hrun, hend⟩

/-- Under a fair schedule safe threads end or are stopped. -/
theorem Safe.finishesUntil [Finite M] [Finite T] (h : c.Safe P Q)
    (hQ : ∀ t held a s, Q t held a s → held = [] ∨ stop s = true) {schedule : ℕ → T}
    (hfair : Fair schedule) :
    ∃ n, Returns (Machine.run (Config.stepUntil stop notLocked) ((List.range n).map schedule)) c
      fun _ c' => stop c'.shared = true ∨ ∀ t, c'.Ended t := by
  refine h.finishes_turns notLocked (fun t _ => t) (I := fun _ => True) trivial ?_
    (fun _ _ _ _ _ _ _ => trivial) hfair
  rintro c hsafe - hstop ⟨t, ht⟩
  have hnil : ∀ t held a, Q t held a c.shared → held = [] := by
    intro t held a ha
    apply (hQ t held a _ ha).resolve_right
    rw [hstop]
    exact Bool.false_ne_true
  obtain ⟨u, hu, -⟩ := hsafe.exists_ready hnil ht
  exact ⟨u, hu⟩

/-- Under a fair schedule all safe threads come to their ends. -/
theorem Safe.finishes [Finite M] [Finite T] (h : c.Safe P Q)
    (hQ : ∀ t held a s, Q t held a s → held = []) {schedule : ℕ → T} (hfair : Fair schedule) :
    ∃ n, Returns (Machine.run (Config.step notLocked) ((List.range n).map schedule)) c
      fun _ c' => c'.Safe P Q ∧ ∀ t, c'.Ended t := by
  have hfinishes : ∃ n, Returns (Machine.run (Config.stepUntil (fun _ => false) notLocked)
      ((List.range n).map schedule)) c fun _ c' => false = true ∨ ∀ t, c'.Ended t :=
    h.finishesUntil notLocked (fun t held a s ha => .inl (hQ t held a s ha)) hfair
  obtain ⟨n, os, c', hrun, hend⟩ := hfinishes
  have hrun' : Machine.run (Config.step notLocked) ((List.range n).map schedule) c
      = .ok (os, c') := hrun
  have hsafe : Returns (Machine.run (Config.step notLocked) ((List.range n).map schedule)) c
      fun _ c' => c'.Safe P Q ∧ True :=
    h.run (I := fun _ => True) trivial (fun _ _ _ _ _ _ => trivial) _
  exact ⟨n, os, c', hrun', (hsafe.post hrun').1, hend.resolve_left Bool.false_ne_true⟩

end Config

end Threads
