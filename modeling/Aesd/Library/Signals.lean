import Aesd.Library.Progress

/-!
# Threads that are interrupted by a signal

The handler of a signal runs on the thread to which the signal is delivered. The thread goes on when
the handler has ended, and until then the signal is blocked on it. To the others the handler is one
more thread, and so no run faults. But if a thread is interrupted while it holds the mutex that the
handler wants, the two wait for each other.
-/

namespace Threads

open Exec

variable {ε σ M T ι α : Type}

/-- A thread takes a step, or a signal is delivered to it. -/
inductive Event (T ι : Type) where
  | step (t : T)
  | signal (t : T) (info : ι)
  deriving DecidableEq, Repr

namespace Config

/-! ### Interrupted threads -/

@[simp] lemma goOn_thread_self [DecidableEq T] (c : Config ε σ M T α) (t : T) (k : Prog ε σ M α) :
    (c.goOn t k).thread t = k :=
  Function.update_self _ _ _

lemma goOn_thread_of_ne [DecidableEq T] {c : Config ε σ M T α} {t u : T} (h : u ≠ t)
    {k : Prog ε σ M α} : (c.goOn t k).thread u = c.thread u :=
  Function.update_of_ne h _ _

/-- What runs on thread `t`: its own program is that of `.inl t`, the handler that of `.inr t`. -/
def top (t : T) (c : Config ε σ M (T ⊕ T) α) : T ⊕ T :=
  if c.Ended (.inr t) then .inl t else .inr t

variable [DecidableEq T]

/-- A signal is delivered to thread `t`, unless its handler is running there. -/
def interrupt (handler : T → ι → Prog ε σ M α) (t : T) (info : ι)
    (c : Config ε σ M (T ⊕ T) α) : Config ε σ M (T ⊕ T) α :=
  if c.Ended (.inr t) then c.goOn (.inr t) (handler t info) else c

variable [DecidableEq M]

/-- A step of what runs on the thread, or a signal. Nothing happens when all threads have been
stopped. -/
def event (stop : σ → Bool) (notLocked : ε) (handler : T → ι → Prog ε σ M α) :
    Event T ι → Exec ε (Config ε σ M (T ⊕ T) α) Unit
  | .step t => turnStep notLocked stop top t
  | .signal t info => fun c =>
    .ok ((), if stop c.shared then c else c.interrupt handler t info)

variable {P : Protocol σ M (T ⊕ T)} {Q : T ⊕ T → List M → α → σ → Prop} {stop : σ → Bool}
  {I : σ → Prop} {notLocked : ε} {handler : T → ι → Prog ε σ M α} {c c' : Config ε σ M (T ⊕ T) α}
  {t : T} {info : ι} {mutex : M}

/-! ### No run faults -/

/-- What the handlers and the agreement of the threads have to do with each other: a handler may run
wherever the threads may have left the state, and what runs to its end ends without a mutex. -/
structure Interruptible (P : Protocol σ M (T ⊕ T)) (Q : T ⊕ T → List M → α → σ → Prop)
    (stop : σ → Bool) (I : σ → Prop) (handler : T → ι → Prog ε σ M α) : Prop where
  keeps : ∀ u held s s', P.guar u held s s' → I s → I s'
  handler : ∀ t info s, I s → (handler t info).Ok P (.inr t) (Q (.inr t)) [] s
  ends : ∀ u held a s, Q u held a s → held = [] ∨ stop s = true

/-- A handler begins without a mutex. -/
lemma Safe.interrupt (h : c.Safe P Q) (hP : Interruptible P Q stop I handler) (hI : I c.shared)
    (hstop : stop c.shared = false) (t : T) (info : ι) : (c.interrupt handler t info).Safe P Q := by
  rw [Config.interrupt]
  split_ifs with hended
  · obtain ⟨held, h⟩ := h
    obtain ⟨a, ha⟩ := hended
    have hnil : held (.inr t) = [] := by
      have hok := h.thread (.inr t)
      rw [ha] at hok
      apply (hP.ends _ _ a _ (hok _ (Protocol.Rely.refl _))).resolve_right
      rw [hstop]
      exact Bool.false_ne_true
    refine ⟨held, h.owner, h.nodup, fun u => ?_, h.res⟩
    by_cases hu : u = .inr t
    · subst hu
      rw [goOn_thread_self, hnil]
      exact hP.handler t info _ hI
    · rw [goOn_thread_of_ne hu]
      exact h.thread u
  · exact h

variable (notLocked) in
/-- An event keeps the threads safe, and what every step keeps. -/
lemma Safe.event (h : c.Safe P Q) (hP : Interruptible P Q stop I handler) (hI : I c.shared)
    (e : Event T ι) :
    Returns (Config.event stop notLocked handler e) c fun _ c' => c'.Safe P Q ∧ I c'.shared := by
  cases e with
  | step t =>
    have hkeep : Returns (Machine.run (Config.stepUntil stop notLocked) [c.top t]) c
        fun _ c' => c'.Safe P Q ∧ I c'.shared := h.runUntil hI hP.keeps _
    obtain ⟨os, c', hrun, hend⟩ := hkeep
    obtain ⟨⟨⟩, os', c'', -, hstep, hrest⟩ := Machine.of_run_cons hrun
    cases hrest
    exact ⟨(), c', hstep, hend⟩
  | signal t info =>
    refine ⟨(), _, rfl, ?_⟩
    split_ifs with hstop
    · exact ⟨h, hI⟩
    · refine ⟨h.interrupt hP hI (Bool.not_eq_true _ ▸ hstop) t info, ?_⟩
      rw [Config.interrupt]
      split_ifs <;> exact hI

/-- No run of threads that are interrupted faults. -/
theorem Safe.events (h : c.Safe P Q) (hP : Interruptible P Q stop I handler) (hI : I c.shared)
    (events : List (Event T ι)) :
    Returns (Machine.run (Config.event stop notLocked handler) events) c
      fun _ c' => c'.Safe P Q ∧ I c'.shared :=
  Machine.run_invariant (I := fun c' : Config ε σ M (T ⊕ T) α => c'.Safe P Q ∧ I c'.shared)
    (fun e _ h => h.1.event notLocked hP h.2 e) events ⟨h, hI⟩

/-! ### Threads that are interrupted without a mutex -/

/-- A thread that has been interrupted holds no mutex. -/
def Unburdened (c : Config ε σ M (T ⊕ T) α) : Prop :=
  ∀ t, ¬ c.Ended (.inr t) → ∀ mutex, c.owner mutex ≠ some (.inl t)

/-- The event is no signal to a thread that holds a mutex. -/
def Spares (stop : σ → Bool) (c : Config ε σ M (T ⊕ T) α) : Event T ι → Prop
  | .step _ => True
  | .signal t _ => stop c.shared = false → ∀ mutex, c.owner mutex ≠ some (.inl t)

/-- What runs on a thread does not end if it has not ended. -/
lemma ended_of_step {u v : T ⊕ T} (h : Config.step notLocked u c = .ok ((), c'))
    (hv : c.Ended v) : c'.Ended v := by
  by_cases hu : v = u
  · subst hu
    obtain ⟨a, ha⟩ := hv
    rw [Config.step, ha] at h
    cases h
    exact ⟨a, ha⟩
  · rwa [Ended, (of_step h hu).1]

lemma Unburdened.step (h : c.Unburdened)
    (hstep : Config.step notLocked (c.top t) c = .ok ((), c')) : c'.Unburdened := by
  intro u hu mutex howner
  have hrunning : ¬ c.Ended (.inr u) := fun hended => hu (ended_of_step hstep hended)
  apply h u hrunning mutex
  rwa [← (of_step hstep ?_).2 mutex]
  -- the step is not one of the program of `u`
  rw [top]
  split_ifs with hended
  · rintro ⟨⟩
    exact hrunning hended
  · exact Sum.inl_ne_inr

omit [DecidableEq M] in
lemma Unburdened.interrupt (h : c.Unburdened) (ht : ∀ mutex, c.owner mutex ≠ some (.inl t)) :
    (c.interrupt handler t info).Unburdened := by
  rw [Config.interrupt]
  split_ifs
  · intro u hu mutex
    by_cases hut : u = t
    · rw [hut]
      exact ht mutex
    · apply h u
      rwa [Ended, goOn_thread_of_ne (by simpa using hut)] at hu
  · exact h

lemma Unburdened.event (h : c.Unburdened) {e : Event T ι} (he : c.Spares stop e)
    (hevent : Config.event stop notLocked handler e c = .ok ((), c')) : c'.Unburdened := by
  cases e with
  | step t =>
    change stepUntil stop notLocked (c.top t) c = _ at hevent
    rw [stepUntil] at hevent
    split_ifs at hevent
    · cases hevent
      exact h
    · exact h.step hevent
  | signal t info =>
    cases hevent
    split_ifs with hstop
    · exact h
    · exact h.interrupt (he (Bool.not_eq_true _ ▸ hstop))

omit [DecidableEq T] in
/-- Some thread that has a step to take gets a turn. -/
lemma Safe.exists_turn [Finite M] (h : c.Safe P Q) (hc : c.Unburdened)
    (hQ : ∀ u held a, Q u held a c.shared → held = []) {u : T ⊕ T} (hu : ¬ c.Ended u) :
    ∃ t, c.Ready (c.top t) := by
  obtain ⟨t, ht⟩ : ∃ t, ¬ c.Ended (c.top t) := by
    rcases u with t | t
    · refine ⟨t, ?_⟩
      rw [top]
      split_ifs with hended
      · exact hu
      · exact hended
    · refine ⟨t, ?_⟩
      rwa [top, if_neg hu]
  obtain ⟨v, hv, hor⟩ := h.exists_ready hQ ht
  rcases hor with rfl | ⟨mutex, howner⟩
  · exact ⟨t, hv⟩
  · -- whoever has a mutex has not been interrupted
    rcases v with u | u
    · refine ⟨u, ?_⟩
      have hended : c.Ended (.inr u) := by
        by_contra hrunning
        exact hc u hrunning mutex howner
      rwa [top, if_pos hended]
    · refine ⟨u, ?_⟩
      rwa [top, if_neg hv.1]

/-- Turns without any signal. -/
lemma run_map_step (ts : List T) :
    Machine.run (Config.event stop notLocked handler) (ts.map Event.step)
      = Machine.run (turnStep notLocked stop top) ts := by
  induction ts with
  | nil => rfl
  | cons t ts ih => rw [List.map_cons, Machine.run, Machine.run, ih, Config.event]

/-- If no thread was interrupted with a mutex, then under a fair schedule all of them end. -/
theorem Unburdened.finishes [Finite M] [Finite T] (hc : c.Unburdened) (h : c.Safe P Q)
    (hQ : ∀ u held a s, Q u held a s → held = [] ∨ stop s = true) {schedule : ℕ → T}
    (hfair : Fair schedule) :
    ∃ n, Returns (Machine.run (Config.event stop notLocked handler)
      (((List.range n).map schedule).map .step)) c
      fun _ c' => stop c'.shared = true ∨ ∀ u, c'.Ended u := by
  simp only [run_map_step]
  refine h.finishes_turns notLocked top hc ?_ (fun t _ _ _ hc _ hstep => hc.step hstep) hfair
  rintro c hsafe hc hstop ⟨u, hu⟩
  apply hsafe.exists_turn hc _ hu
  intro u held a ha
  apply (hQ u held a _ ha).resolve_right
  rw [hstop]
  exact Bool.false_ne_true

/-! ### A thread that is interrupted with the mutex of the handler -/

/-- The thread has the mutex that the handler waits for, which has interrupted it. -/
def Wedged (c : Config ε σ M (T ⊕ T) α) (t : T) (mutex : M) : Prop :=
  c.owner mutex = some (.inl t) ∧ ∃ k, c.thread (.inr t) = .lock mutex k

section

omit [DecidableEq M]

omit [DecidableEq T] in
lemma Wedged.not_ended (h : c.Wedged t mutex) : ¬ c.Ended (.inr t) := by
  obtain ⟨-, k, hk⟩ := h
  rintro ⟨a, ha⟩
  rw [hk] at ha
  cases ha

lemma Wedged.of_interrupt (hended : c.Ended (.inr t)) (howner : c.owner mutex = some (.inl t))
    (hhandler : ∃ k, handler t info = .lock mutex k) :
    (c.interrupt handler t info).Wedged t mutex := by
  obtain ⟨k, hk⟩ := hhandler
  rw [Config.interrupt, if_pos hended]
  exact ⟨howner, k, by rw [goOn_thread_self, hk]⟩

omit [DecidableEq T] in
/-- The thread itself does not go on. -/
lemma Wedged.top_ne (h : c.Wedged t mutex) (u : T) : c.top u ≠ .inl t := by
  rw [top]
  split_ifs with hended
  · rintro ⟨⟩
    exact h.not_ended hended
  · exact Sum.inr_ne_inl

end

/-- Whatever happens, they go on to wait. -/
lemma Wedged.event (h : c.Wedged t mutex) {e : Event T ι}
    (hevent : Config.event stop notLocked handler e c = .ok ((), c')) : c'.Wedged t mutex := by
  have hrunning := h.not_ended
  have htop := h.top_ne
  obtain ⟨howner, k, hk⟩ := h
  cases e with
  | step u =>
    change stepUntil stop notLocked (c.top u) c = _ at hevent
    rw [stepUntil] at hevent
    split_ifs at hevent
    · cases hevent
      exact ⟨howner, k, hk⟩
    · by_cases hhandler : c.top u = .inr t
      · -- it is the turn of the handler, which waits
        have hwaits : ¬ c.Ready (.inr t) := by
          intro hready
          apply hready.2 mutex
          exact ⟨k, hk, by simp [howner]⟩
        rw [hhandler, step_of_not_ready notLocked hwaits] at hevent
        cases hevent
        exact ⟨howner, k, hk⟩
      · constructor
        · exact ((of_step hevent (htop u).symm).2 mutex).mpr howner
        · rw [(of_step hevent (Ne.symm hhandler)).1]
          exact ⟨k, hk⟩
  | signal u info =>
    cases hevent
    split_ifs
    · exact ⟨howner, k, hk⟩
    · rw [Config.interrupt]
      split_ifs with hended
      · refine ⟨howner, k, ?_⟩
        rw [goOn_thread_of_ne, hk]
        rintro ⟨⟩
        exact hrunning hended
      · exact ⟨howner, k, hk⟩

/-- Nothing changes any more but what may be done without the mutex. -/
lemma Wedged.next {J : σ → Prop} (hw : c.Wedged t mutex) (h : c.Safe P Q)
    (hP : Interruptible P Q stop I handler) (hI : I c.shared) (hJ : J c.shared)
    (hkeeps : ∀ u held s s', mutex ∉ held → P.guar u held s s' → J s → J s') (e : Event T ι) :
    Returns (Config.event stop notLocked handler e) c fun _ c' =>
      (c'.Safe P Q ∧ I c'.shared) ∧ c'.Wedged t mutex ∧ J c'.shared := by
  obtain ⟨⟨⟩, c', hevent, hc'⟩ := h.event notLocked hP hI e
  refine ⟨(), c', hevent, hc', hw.event hevent, ?_⟩
  cases e with
  | step u =>
    have hkeep : Returns (stepUntil stop notLocked (c.top u)) c
        fun _ c' => c'.Safe P Q ∧ J c'.shared := by
      refine h.stepUntil hJ fun held s s' howner hguar => ?_
      apply hkeeps (c.top u) held s s' _ hguar
      intro hmem
      have htop := howner mutex hmem
      rw [hw.1] at htop
      exact hw.top_ne u (Option.some.inj htop).symm
    exact (hkeep.post hevent).2
  | signal u info =>
    cases hevent
    split_ifs
    · exact hJ
    · rw [Config.interrupt]
      split_ifs <;> exact hJ

theorem Wedged.events {J : σ → Prop} (hw : c.Wedged t mutex) (h : c.Safe P Q)
    (hP : Interruptible P Q stop I handler) (hI : I c.shared) (hJ : J c.shared)
    (hkeeps : ∀ u held s s', mutex ∉ held → P.guar u held s s' → J s → J s')
    (events : List (Event T ι)) :
    Returns (Machine.run (Config.event stop notLocked handler) events) c
      fun _ c' => c'.Wedged t mutex ∧ J c'.shared := by
  have hstep : ∀ e (c : Config ε σ M (T ⊕ T) α),
      (c.Safe P Q ∧ I c.shared) ∧ c.Wedged t mutex ∧ J c.shared →
      Returns (Config.event stop notLocked handler e) c fun _ c' =>
        (c'.Safe P Q ∧ I c'.shared) ∧ c'.Wedged t mutex ∧ J c'.shared :=
    fun e c h => h.2.1.next h.1.1 hP h.1.2 h.2.2 hkeeps e
  exact (Machine.run_invariant hstep events ⟨⟨h, hI⟩, hw, hJ⟩).mono fun _ _ h => h.2

/-! ### Every run -/

/-- If there is one mutex, which the handler locks first and without which nobody stops the threads:
a signal to the thread that holds the mutex wedges it, and nothing else does. -/
theorem Safe.unburdened_or_wedged [Subsingleton M] (h : c.Safe P Q)
    (hP : Interruptible P Q stop I handler) (hI : I c.shared) (hc : c.Unburdened)
    (hhandler : ∀ t info, ∃ k, handler t info = .lock mutex k)
    (hstop : ∀ u held s s', mutex ∉ held → P.guar u held s s' → stop s = false → stop s' = false)
    (events : List (Event T ι)) :
    Returns (Machine.run (Config.event stop notLocked handler) events) c fun _ c' =>
      Machine.Meets (Config.event stop notLocked handler) (Spares stop) events c ∧
        (c'.Safe P Q ∧ I c'.shared) ∧ c'.Unburdened ∨
      ¬ Machine.Meets (Config.event stop notLocked handler) (Spares stop) events c ∧
        (c'.Safe P Q ∧ I c'.shared) ∧ ∃ t, c'.Wedged t mutex ∧ stop c'.shared = false := by
  refine Machine.run_meets_iff (A := fun _ _ => True) (B := Spares stop)
    (fun (_ : Unit) (c : Config ε σ M (T ⊕ T) α) => (c.Safe P Q ∧ I c.shared) ∧ c.Unburdened)
    (fun _ c => (c.Safe P Q ∧ I c.shared) ∧ ∃ t, c.Wedged t mutex ∧ stop c.shared = false)
    (f := fun b _ => b) (b := ())
    ?_ ?_ events ⟨⟨h, hI⟩, hc⟩ ?_
  · rintro e c - ⟨⟨h, hI⟩, hc⟩ -
    obtain ⟨⟨⟩, c', hevent, hc'⟩ := h.event notLocked hP hI e
    refine ⟨(), c', hevent, ?_⟩
    by_cases hspares : c.Spares stop e
    · exact .inl ⟨hspares, hc', hc.event hspares hevent⟩
    · refine .inr ⟨hspares, hc', ?_⟩
      cases e with
      | step u => exact absurd trivial hspares
      | signal t info =>
        obtain ⟨hrunning, mutex', howner⟩ :
            stop c.shared = false ∧ ∃ mutex', c.owner mutex' = some (.inl t) := by
          simpa [Spares] using hspares
        obtain rfl := Subsingleton.elim mutex' mutex
        have hended : c.Ended (.inr t) := by
          by_contra hhandling
          exact hc t hhandling mutex' howner
        cases hevent
        rw [hrunning, if_neg Bool.false_ne_true]
        refine ⟨t, .of_interrupt hended howner (hhandler t info), ?_⟩
        rwa [Config.interrupt, if_pos hended]
  · rintro e c - ⟨⟨h, hI⟩, t, hw, hrunning⟩ -
    refine (hw.next h hP hI hrunning hstop e).mono ?_
    rintro _ c' ⟨hc', hw', hrunning'⟩
    exact ⟨hc', t, hw', hrunning'⟩
  · exact Machine.meets_iff.mpr fun _ _ _ _ _ _ _ => trivial

end Config

end Threads
