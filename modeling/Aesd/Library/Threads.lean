import Aesd.Library.Machine

/-!
# Threads that lock mutexes

A thread runs a program that takes one step at a time: it accesses the state that all threads share,
or locks or unlocks a mutex. The threads take their steps in any order, and a thread that wants a
locked mutex waits.

What a thread may do depends on the mutexes it holds. `Prog.Ok` is a logic for one thread, in which
the steps of the others come in between as far as they are allowed; a thread that holds the mutex of
what it works on may be followed as if it were alone. If every thread is `Ok`, no run of all of them
faults, and none of them gets stuck.
-/

namespace Threads

open Exec

/-- A program of a thread. An access updates the state, and goes on with what it has found there. -/
inductive Prog (ε σ M α : Type) : Type
  | ret (a : α)
  | fault (e : ε)
  | act (next : σ → σ) (k : σ → Prog ε σ M α)
  | lock (mutex : M) (k : Prog ε σ M α)
  | unlock (mutex : M) (k : Prog ε σ M α)

namespace Prog

variable {ε σ M α β : Type}

def bind : Prog ε σ M α → (α → Prog ε σ M β) → Prog ε σ M β
  | ret a, f => f a
  | fault e, _ => fault e
  | act next k, f => act next fun s => (k s).bind f
  | lock mutex k, f => lock mutex (k.bind f)
  | unlock mutex k, f => unlock mutex (k.bind f)

instance : Monad (Prog ε σ M) where
  pure := ret
  bind := bind

/-- One access to the state. -/
def step (m : Exec ε σ α) : Prog ε σ M α :=
  act (fun s => match m s with
      | .ok (_, s') => s'
      | .error _ => s)
    fun s => match m s with
      | .ok (a, _) => ret a
      | .error e => fault e

def acquire (mutex : M) : Prog ε σ M Unit := lock mutex (ret ())

def release (mutex : M) : Prog ε σ M Unit := unlock mutex (ret ())

lemma bind_eq (p : Prog ε σ M α) (f : α → Prog ε σ M β) : (p >>= f) = p.bind f := rfl

lemma bind_assoc_eq {γ : Type} (p : Prog ε σ M α) (f : α → Prog ε σ M β) (g : β → Prog ε σ M γ) :
    p >>= f >>= g = p >>= fun a => f a >>= g := by
  simp only [bind_eq]
  induction p with
  | ret a => rfl
  | fault e => rfl
  | act next k ih =>
    simp only [bind]
    exact congrArg (act next) (funext ih)
  | lock mutex k ih => simp only [bind, ih]
  | unlock mutex k ih => simp only [bind, ih]

/-! ### A thread that is alone -/

/-- What the program does if nobody else takes a step and every mutex is free. -/
def alone : Prog ε σ M α → Exec ε σ α
  | ret a => Pure.pure a
  | fault e => Exec.fault e
  | act next k => fun s => (k s).alone (next s)
  | lock _ k => k.alone
  | unlock _ k => k.alone

lemma alone_bind (p : Prog ε σ M α) (f : α → Prog ε σ M β) :
    (p >>= f).alone = p.alone >>= fun a => (f a).alone := by
  rw [bind_eq]
  induction p with
  | ret a => rfl
  | fault e => rfl
  | act next k ih =>
    funext s
    exact congrFun (ih s) (next s)
  | lock mutex k ih => exact ih
  | unlock mutex k ih => exact ih

lemma alone_step (m : Exec ε σ α) : (step m : Prog ε σ M α).alone = m := by
  funext s
  simp only [step, alone]
  cases hm : m s with
  | error e => rfl
  | ok p => rfl

end Prog

/-! ### All threads -/

/-- The state that the threads share, who has locked which mutex, and what is left of the programs
of the threads. -/
structure Config (ε σ M T α : Type) where
  shared : σ
  owner : M → Option T
  thread : T → Prog ε σ M α

namespace Config

variable {ε σ M T α : Type} [DecidableEq M] [DecidableEq T]

/-- What is left of the program of thread `t` after a step. -/
def goOn (c : Config ε σ M T α) (t : T) (k : Prog ε σ M α) : Config ε σ M T α :=
  { c with thread := Function.update c.thread t k }

/-- A step of thread `t`. It does nothing if its program has ended, or if it waits for a mutex that
is locked. -/
def step (notLocked : ε) (t : T) : Exec ε (Config ε σ M T α) Unit := fun c =>
  match c.thread t with
  | .ret _ => .ok ((), c)
  | .fault e => .error e
  | .act next k => .ok ((), { c.goOn t (k c.shared) with shared := next c.shared })
  | .lock mutex k =>
    if c.owner mutex = none then
      .ok ((), { c.goOn t k with owner := Function.update c.owner mutex (some t) })
    else .ok ((), c)
  | .unlock mutex k =>
    if c.owner mutex = some t then
      .ok ((), { c.goOn t k with owner := Function.update c.owner mutex none })
    else .error notLocked

/-- A step of one thread leaves the programs and the mutexes of the others alone. -/
lemma of_step {notLocked : ε} {t : T} {c c' : Config ε σ M T α}
    (h : Config.step notLocked t c = .ok ((), c')) {u : T} (hu : u ≠ t) :
    c'.thread u = c.thread u ∧ ∀ mutex, c'.owner mutex = some u ↔ c.owner mutex = some u := by
  have hne : ¬ some t = some u := fun heq => hu (Option.some.inj heq).symm
  rw [step] at h
  cases hthread : c.thread t with
  | ret a | fault e =>
    rw [hthread] at h
    cases h
    try exact ⟨rfl, fun _ => Iff.rfl⟩
  | act next k =>
    rw [hthread] at h
    cases h
    exact ⟨Function.update_of_ne hu _ _, fun _ => Iff.rfl⟩
  | lock mutex k | unlock mutex k =>
    simp only [hthread] at h
    split_ifs at h with howner <;> cases h
    · refine ⟨Function.update_of_ne hu _ _, fun x => ?_⟩
      by_cases hx : x = mutex
      · subst hx
        simp [howner, hne]
      · simp [Function.update_of_ne hx]
    try exact ⟨rfl, fun _ => Iff.rfl⟩

/-- The threads before their first steps. -/
def start (s : σ) (thread : T → Prog ε σ M α) : Config ε σ M T α := ⟨s, fun _ => none, thread⟩

end Config

/-! ### What the threads may do -/

/-- An agreement of the threads: what a thread that holds some mutexes may do to the state in one
step, what holds of the state while a mutex is free, and the order in which mutexes are locked. -/
structure Protocol (σ M T : Type) where
  guar : T → List M → σ → σ → Prop
  res : M → σ → Prop
  rank : M → ℕ
  res_stable : ∀ {t held mutex s s'}, guar t held s s' → mutex ∉ held → res mutex s → res mutex s'

namespace Protocol

variable {σ M T : Type} (P : Protocol σ M T)

/-- What a thread that holds some mutexes may find that the others have done since its last step. -/
def Rely (t : T) (held : List M) : σ → σ → Prop :=
  Relation.ReflTransGen fun s s' => ∃ u held', u ≠ t ∧ held'.Disjoint held ∧ P.guar u held' s s'

variable {P} {t : T} {held : List M} {s s' s'' : σ}

lemma Rely.refl (s : σ) : P.Rely t held s s := Relation.ReflTransGen.refl

lemma Rely.trans (h : P.Rely t held s s') (h' : P.Rely t held s' s'') : P.Rely t held s s'' :=
  Relation.ReflTransGen.trans h h'

/-- What every allowed step keeps is still there. -/
lemma Rely.invariant {I : σ → Prop} (h : P.Rely t held s s')
    (hI : ∀ u held' s s', u ≠ t → held'.Disjoint held → P.guar u held' s s' → I s → I s')
    (hs : I s) : I s' := by
  induction h with
  | refl => exact hs
  | tail _ hstep ih =>
    obtain ⟨u, held', hu, hdisjoint, hguar⟩ := hstep
    exact hI u held' _ _ hu hdisjoint hguar ih

end Protocol

/-! ### The logic of one thread -/

section Ok

variable {ε σ M T α β : Type} [DecidableEq M] (P : Protocol σ M T) (t : T)

/-- Whatever the others do in between, the thread takes only steps that it may take, locks mutexes
in their order, unlocks only what it holds, and ends with `Q`. -/
def Prog.Ok (Q : List M → α → σ → Prop) : List M → Prog ε σ M α → σ → Prop
  | held, .ret a, s => ∀ s', P.Rely t held s s' → Q held a s'
  | _, .fault _, _ => False
  | held, .act next k, s => ∀ s', P.Rely t held s s' →
      P.guar t held s' (next s') ∧ (k s').Ok Q held (next s')
  | held, .lock mutex k, s => (∀ x ∈ held, P.rank x < P.rank mutex) ∧
      ∀ s', P.Rely t held s s' → P.res mutex s' → k.Ok Q (mutex :: held) s'
  | held, .unlock mutex k, s => mutex ∈ held ∧
      ∀ s', P.Rely t held s s' → P.res mutex s' ∧ k.Ok Q (held.erase mutex) s'

variable {P t} {Q : List M → α → σ → Prop} {held : List M} {p : Prog ε σ M α} {s s' : σ}

namespace Prog.Ok

/-- The others may go on before the thread does. -/
lemma rely (h : p.Ok P t Q held s) (hs : P.Rely t held s s') : p.Ok P t Q held s' := by
  cases p with
  | ret a => exact fun s'' hs' => h s'' (hs.trans hs')
  | fault e => exact h
  | act next k => exact fun s'' hs' => h s'' (hs.trans hs')
  | lock mutex k => exact ⟨h.1, fun s'' hs' => h.2 s'' (hs.trans hs')⟩
  | unlock mutex k => exact ⟨h.1, fun s'' hs' => h.2 s'' (hs.trans hs')⟩

lemma bind {Q' : List M → β → σ → Prop} {f : α → Prog ε σ M β} (h : p.Ok P t Q held s)
    (hf : ∀ held' a s', Q held' a s' → (f a).Ok P t Q' held' s') :
    (p >>= f).Ok P t Q' held s := by
  rw [bind_eq]
  induction p generalizing held s with
  | ret a => exact hf held a s (h s (Protocol.Rely.refl s))
  | fault e => exact h.elim
  | act next k ih => exact fun s' hs => ⟨(h s' hs).1, ih s' (h s' hs).2⟩
  | lock mutex k ih => exact ⟨h.1, fun s' hs hres => ih (h.2 s' hs hres)⟩
  | unlock mutex k ih => exact ⟨h.1, fun s' hs => ⟨(h.2 s' hs).1, ih (h.2 s' hs).2⟩⟩

lemma mono {Q' : List M → α → σ → Prop} (h : p.Ok P t Q held s)
    (hQ : ∀ held' a s', Q held' a s' → Q' held' a s') : p.Ok P t Q' held s := by
  induction p generalizing held s with
  | ret a => exact fun s' hs => hQ held a s' (h s' hs)
  | fault e => exact h
  | act next k ih => exact fun s' hs => ⟨(h s' hs).1, ih s' (h s' hs).2⟩
  | lock mutex k ih => exact ⟨h.1, fun s' hs hres => ih (h.2 s' hs hres)⟩
  | unlock mutex k ih => exact ⟨h.1, fun s' hs => ⟨(h.2 s' hs).1, ih (h.2 s' hs).2⟩⟩

/-- An access that returns wherever the others may have left the state. -/
lemma step {m : Exec ε σ α} (h : ∀ s', P.Rely t held s s' → Returns m s' fun a s'' =>
      P.guar t held s' s'' ∧ ∀ u, P.Rely t held s'' u → Q held a u) :
    (Prog.step m).Ok P t Q held s := by
  intro s' hs
  obtain ⟨a, s'', hm, hguar, hend⟩ := h s' hs
  simp only [hm]
  exact ⟨hguar, hend⟩

/-- An access before the rest of the program. -/
lemma step_bind {m : Exec ε σ α} {f : α → Prog ε σ M β} {Q' : List M → β → σ → Prop}
    (h : ∀ s', P.Rely t held s s' → Returns m s' fun a s'' =>
      P.guar t held s' s'' ∧ (f a).Ok P t Q' held s'') :
    (Prog.step m >>= f).Ok P t Q' held s := by
  intro s' hs
  obtain ⟨a, s'', hm, hguar, hok⟩ := h s' hs
  simp only [hm]
  exact ⟨hguar, hok⟩

end Prog.Ok

/-! ### A thread that may be followed as if it were alone -/

/-- The thread may be followed as if it were alone, as long as it holds the mutex `keep`. Its steps
do the same to every state that is `R` to the one that is followed. -/
def Prog.OkAlone (P : Protocol σ M T) (t : T) (R : σ → σ → Prop) (keep : M)
    (Q : List M → α → σ → Prop) : List M → Prog ε σ M α → σ → Prop
  | held, .ret a, s => Q held a s
  | _, .fault _, _ => False
  | held, .act next k, s =>
    (∀ u, R s u → k u = k s ∧ R (next s) (next u) ∧ P.guar t held u (next u)) ∧
      (k s).OkAlone P t R keep Q held (next s)
  | held, .lock mutex k, s =>
    (∀ x ∈ held, P.rank x < P.rank mutex) ∧
      ∀ u, R s u → P.res mutex u → k.OkAlone P t R keep Q (mutex :: held) s
  | held, .unlock mutex k, s =>
    mutex ∈ held ∧ mutex ≠ keep ∧ (∀ u, R s u → P.res mutex u) ∧
      k.OkAlone P t R keep Q (held.erase mutex) s

namespace Prog.OkAlone

variable {R : σ → σ → Prop} {keep : M} {u : σ}

/-- What the others do while the thread holds `keep` makes no difference. -/
lemma ok (h : p.OkAlone P t R keep Q held s) (hkeep : keep ∈ held)
    (hrely : ∀ held s u u', keep ∈ held → R s u → P.Rely t held u u' → R s u') (hR : R s u) :
    p.Ok P t (fun held' a u' => keep ∈ held' ∧ ∃ s', R s' u' ∧ Q held' a s') held u := by
  induction p generalizing held s u with
  | ret a => exact fun u' hu => ⟨hkeep, s, hrely held s u u' hkeep hR hu, h⟩
  | fault e => exact h
  | act next k ih =>
    intro u' hu
    obtain ⟨hk, hnext, hguar⟩ := h.1 u' (hrely held s u u' hkeep hR hu)
    rw [hk]
    exact ⟨hguar, ih s h.2 hkeep hnext⟩
  | lock mutex k ih =>
    refine ⟨h.1, fun u' hu hres => ?_⟩
    have hR' := hrely held s u u' hkeep hR hu
    exact ih (h.2 u' hR' hres) (List.mem_cons_of_mem _ hkeep) hR'
  | unlock mutex k ih =>
    obtain ⟨hmem, hne, hres, hk⟩ := h
    refine ⟨hmem, fun u' hu => ?_⟩
    have hR' := hrely held s u u' hkeep hR hu
    exact ⟨hres u' hR', ih hk ((List.mem_erase_of_ne hne.symm).mpr hkeep) hR'⟩

lemma bind {Q' : List M → β → σ → Prop} {f : α → Prog ε σ M β}
    (h : p.OkAlone P t R keep Q held s)
    (hf : ∀ held' a s', Q held' a s' → (f a).OkAlone P t R keep Q' held' s') :
    (p >>= f).OkAlone P t R keep Q' held s := by
  rw [bind_eq]
  induction p generalizing held s with
  | ret a => exact hf held a s h
  | fault e => exact h.elim
  | act next k ih =>
    refine ⟨fun u hR => ?_, ih s h.2⟩
    obtain ⟨hk, hnext, hguar⟩ := h.1 u hR
    exact ⟨congrArg (Prog.bind · f) hk, hnext, hguar⟩
  | lock mutex k ih => exact ⟨h.1, fun u hR hres => ih (h.2 u hR hres)⟩
  | unlock mutex k ih =>
    obtain ⟨hmem, hne, hres, hk⟩ := h
    exact ⟨hmem, hne, hres, ih hk⟩

lemma mono {Q' : List M → α → σ → Prop} (h : p.OkAlone P t R keep Q held s)
    (hQ : ∀ held' a s', Q held' a s' → Q' held' a s') : p.OkAlone P t R keep Q' held s := by
  induction p generalizing held s with
  | ret a => exact hQ held a s h
  | fault e => exact h
  | act next k ih => exact ⟨h.1, ih s h.2⟩
  | lock mutex k ih => exact ⟨h.1, fun u hR hres => ih (h.2 u hR hres)⟩
  | unlock mutex k ih =>
    obtain ⟨hmem, hne, hres, hk⟩ := h
    exact ⟨hmem, hne, hres, ih hk⟩

end Prog.OkAlone

end Ok

/-! ### Every run of all threads -/

section Safe

variable {ε σ M T α : Type} [DecidableEq M] {P : Protocol σ M T}
  {Q : T → List M → α → σ → Prop} {c : Config ε σ M T α} {notLocked : ε}

/-- Every thread is `Ok` with the mutexes that it holds, and what holds of the state while a mutex
is free holds for every free mutex. -/
structure Config.SafeWith (P : Protocol σ M T) (Q : T → List M → α → σ → Prop)
    (held : T → List M) (c : Config ε σ M T α) : Prop where
  owner : ∀ mutex t, c.owner mutex = some t ↔ mutex ∈ held t
  nodup : ∀ t, (held t).Nodup
  thread : ∀ t, (c.thread t).Ok P t (Q t) (held t) c.shared
  res : ∀ mutex, c.owner mutex = none → P.res mutex c.shared

def Config.Safe (P : Protocol σ M T) (Q : T → List M → α → σ → Prop) (c : Config ε σ M T α) :
    Prop := ∃ held, c.SafeWith P Q held

lemma Config.start_safe {s : σ} {thread : T → Prog ε σ M α} (hres : ∀ mutex, P.res mutex s)
    (hthread : ∀ t, (thread t).Ok P t (Q t) [] s) : (Config.start s thread).Safe P Q := by
  refine ⟨fun _ => [], ?_, fun _ => List.nodup_nil, hthread, fun mutex _ => hres mutex⟩
  intro mutex t
  exact iff_of_false (Option.some_ne_none t).symm List.not_mem_nil

namespace Config.SafeWith

variable {held : T → List M} {t : T}

/-- No mutex is held by two threads. -/
lemma disjoint (h : c.SafeWith P Q held) {u : T} (hne : u ≠ t) :
    (held u).Disjoint (held t) := by
  intro mutex hu ht
  have howner := (h.owner mutex u).mpr hu
  rw [(h.owner mutex t).mpr ht] at howner
  exact hne (Option.some.inj howner).symm

/-- What a thread does is what the others rely on. -/
lemma rely (h : c.SafeWith P Q held) {u : T} (hne : u ≠ t) {s' : σ}
    (hguar : P.guar t (held t) c.shared s') : P.Rely u (held u) c.shared s' :=
  Relation.ReflTransGen.single ⟨t, held t, hne.symm, h.disjoint hne.symm, hguar⟩

lemma not_mem_of_free (h : c.SafeWith P Q held) {mutex : M} (hfree : c.owner mutex = none) (u : T) :
    mutex ∉ held u := by
  intro hmem
  rw [(h.owner mutex u).mpr hmem] at hfree
  cases hfree

/-- Thread `t` goes on, with other mutexes. -/
lemma goOn [DecidableEq T] (h : c.SafeWith P Q held) {s' : σ} {owner' : M → Option T}
    {k : Prog ε σ M α} {held' : List M} (hmine : ∀ x, owner' x = some t ↔ x ∈ held')
    (hothers : ∀ x u, u ≠ t → (owner' x = some u ↔ c.owner x = some u)) (hnodup : held'.Nodup)
    (hk : k.Ok P t (Q t) held' s') (hrely : ∀ u, u ≠ t → P.Rely u (held u) c.shared s')
    (hres : ∀ x, owner' x = none → P.res x s') :
    SafeWith P Q (Function.update held t held')
      ⟨s', owner', Function.update c.thread t k⟩ where
  owner x u := by
    by_cases hu : u = t
    · subst hu
      rw [Function.update_self]
      exact hmine x
    · rw [Function.update_of_ne hu]
      exact (hothers x u hu).trans (h.owner x u)
  nodup u := by
    by_cases hu : u = t
    · subst hu
      rw [Function.update_self]
      exact hnodup
    · rw [Function.update_of_ne hu]
      exact h.nodup u
  thread u := by
    by_cases hu : u = t
    · subst hu
      simpa only [Function.update_self] using hk
    · simp only [Function.update_of_ne hu]
      exact (h.thread u).rely (hrely u hu)
  res := hres

end Config.SafeWith

/-- A safe thread does not wait for a mutex that it holds. -/
lemma Config.Safe.owner_ne_of_lock (h : c.Safe P Q) {t : T} {mutex : M} {k : Prog ε σ M α}
    (ht : c.thread t = .lock mutex k) : c.owner mutex ≠ some t := by
  obtain ⟨held, h⟩ := h
  have hok := h.thread t
  rw [ht] at hok
  intro howner
  exact lt_irrefl _ (hok.1 mutex ((h.owner mutex t).mp howner))

variable [DecidableEq T]

/-- A step of a safe configuration does not fault, and leads to a safe one. -/
lemma Config.Safe.step (h : c.Safe P Q) (t : T) :
    Returns (Config.step notLocked t) c fun _ c' => c'.Safe P Q := by
  obtain ⟨held, h⟩ := h
  have ht := h.thread t
  rw [Returns]
  simp only [Config.step]
  cases hthread : c.thread t with
  | ret a => exact ⟨(), c, rfl, held, h⟩
  | fault e =>
    rw [hthread] at ht
    exact ht.elim
  | act next k =>
    rw [hthread] at ht
    obtain ⟨hguar, hk⟩ := ht c.shared (Protocol.Rely.refl _)
    refine ⟨(), _, rfl, _, h.goOn (fun x => h.owner x t) (fun _ _ _ => Iff.rfl) (h.nodup t) hk
      (fun u hu => h.rely hu hguar) fun x hfree => ?_⟩
    exact P.res_stable hguar (h.not_mem_of_free hfree t) (h.res x hfree)
  | lock mutex k =>
    rw [hthread] at ht
    by_cases hfree : c.owner mutex = none
    · have hk := ht.2 c.shared (Protocol.Rely.refl _) (h.res mutex hfree)
      have hnot := h.not_mem_of_free hfree
      simp only [if_pos hfree]
      refine ⟨(), _, rfl, _, h.goOn (fun x => ?_) (fun x u hu => ?_)
        (List.nodup_cons.mpr ⟨hnot t, h.nodup t⟩) hk (fun u _ => Protocol.Rely.refl _)
        fun x hx => ?_⟩
      · by_cases hx : x = mutex
        · subst hx
          exact iff_of_true (Function.update_self _ _ _) List.mem_cons_self
        · rw [Function.update_of_ne hx, List.mem_cons, or_iff_right hx]
          exact h.owner x t
      · by_cases hx : x = mutex
        · subst hx
          rw [Function.update_self, hfree]
          exact iff_of_false (fun heq => hu (Option.some.inj heq).symm) (Option.some_ne_none u).symm
        · rw [Function.update_of_ne hx]
      · by_cases hxm : x = mutex
        · subst hxm
          rw [Function.update_self] at hx
          cases hx
        · rw [Function.update_of_ne hxm] at hx
          exact h.res x hx
    · simp only [if_neg hfree]
      exact ⟨(), c, rfl, held, h⟩
  | unlock mutex k =>
    rw [hthread] at ht
    obtain ⟨hmem, hk⟩ := ht
    obtain ⟨hres, hk⟩ := hk c.shared (Protocol.Rely.refl _)
    have howner := (h.owner mutex t).mpr hmem
    simp only [if_pos howner]
    refine ⟨(), _, rfl, _, h.goOn (fun x => ?_) (fun x u hu => ?_) ((h.nodup t).erase mutex) hk
      (fun u _ => Protocol.Rely.refl _) fun x hx => ?_⟩
    · rw [(h.nodup t).mem_erase_iff]
      by_cases hx : x = mutex
      · subst hx
        rw [Function.update_self]
        exact iff_of_false (Option.some_ne_none t).symm fun hand => hand.1 rfl
      · rw [Function.update_of_ne hx, and_iff_right hx]
        exact h.owner x t
    · by_cases hx : x = mutex
      · subst hx
        rw [Function.update_self, howner]
        exact iff_of_false (Option.some_ne_none u).symm fun heq => hu (Option.some.inj heq).symm
      · rw [Function.update_of_ne hx]
    · by_cases hxm : x = mutex
      · subst hxm
        exact hres
      · rw [Function.update_of_ne hxm] at hx
        exact h.res x hx

/-- A step of a safe configuration is one that its thread may take. -/
lemma Config.Safe.guar_of_step (h : c.Safe P Q) {t : T} {c' : Config ε σ M T α}
    (hstep : Config.step notLocked t c = .ok ((), c')) :
    c'.shared = c.shared ∨
      ∃ held, (∀ mutex ∈ held, c.owner mutex = some t) ∧ P.guar t held c.shared c'.shared := by
  obtain ⟨held, h⟩ := h
  have ht := h.thread t
  rw [Config.step] at hstep
  cases hthread : c.thread t with
  | ret a | fault e =>
    rw [hthread] at hstep
    cases hstep
    try exact .inl rfl
  | act next k =>
    rw [hthread] at hstep ht
    cases hstep
    exact .inr ⟨held t, fun mutex => (h.owner mutex t).mpr, (ht c.shared (Protocol.Rely.refl _)).1⟩
  | lock mutex k | unlock mutex k =>
    simp only [hthread] at hstep
    split_ifs at hstep <;>
    · cases hstep
      exact .inl rfl

variable {I : σ → Prop}

/-- What the thread keeps with the mutexes that it has holds after its step. -/
lemma Config.Safe.step_keeps (h : c.Safe P Q) (hc : I c.shared) {t : T}
    (hI : ∀ held s s', (∀ mutex ∈ held, c.owner mutex = some t) → P.guar t held s s' →
      I s → I s') :
    Returns (Config.step notLocked t) c fun _ c' => c'.Safe P Q ∧ I c'.shared := by
  obtain ⟨⟨⟩, c', hstep, h'⟩ :
      Returns (Config.step notLocked t) c fun _ c' => c'.Safe P Q := h.step t
  refine ⟨(), c', hstep, h', ?_⟩
  rcases h.guar_of_step hstep with heq | ⟨held, howner, hguar⟩
  · rwa [heq]
  · exact hI held _ _ howner hguar hc

/-- No run of safe threads faults, and what every step that may be taken keeps holds along it. -/
lemma Config.Safe.run (h : c.Safe P Q) (hc : I c.shared)
    (hI : ∀ t held s s', P.guar t held s s' → I s → I s') (schedule : List T) :
    Returns (Machine.run (Config.step notLocked) schedule) c
      fun _ c' => c'.Safe P Q ∧ I c'.shared :=
  Machine.run_invariant (I := fun c' : Config ε σ M T α => c'.Safe P Q ∧ I c'.shared)
    (fun t _ h => h.1.step_keeps h.2 fun held _ _ _ => hI t held _ _) schedule ⟨h, hc⟩

/-! ### Threads that may be stopped -/

/-- A step of thread `t`, unless all threads have been stopped. -/
def Config.stepUntil (stop : σ → Bool) (notLocked : ε) (t : T) :
    Exec ε (Config ε σ M T α) Unit := fun c =>
  if stop c.shared then .ok ((), c) else Config.step notLocked t c

variable {stop : σ → Bool}

lemma Config.Safe.stepUntil (h : c.Safe P Q) (hc : I c.shared) {t : T}
    (hI : ∀ held s s', (∀ mutex ∈ held, c.owner mutex = some t) → P.guar t held s s' →
      I s → I s') :
    Returns (Config.stepUntil stop notLocked t) c fun _ c' => c'.Safe P Q ∧ I c'.shared := by
  rw [Returns, Config.stepUntil]
  split_ifs
  · exact ⟨(), c, rfl, h, hc⟩
  · exact h.step_keeps hc hI

lemma Config.Safe.runUntil (h : c.Safe P Q) (hc : I c.shared)
    (hI : ∀ t held s s', P.guar t held s s' → I s → I s') (schedule : List T) :
    Returns (Machine.run (Config.stepUntil stop notLocked) schedule) c
      fun _ c' => c'.Safe P Q ∧ I c'.shared :=
  Machine.run_invariant (I := fun c' : Config ε σ M T α => c'.Safe P Q ∧ I c'.shared)
    (fun t _ h => h.1.stepUntil h.2 fun held _ _ _ => hI t held _ _) schedule ⟨h, hc⟩

end Safe

end Threads
