import Aesd.Server.ConnectionList.Refinement

/-!
# The mutex of the list

Every call unlocks the mutex that it has locked, but one: `CloseConnection` on an empty list. The
next call waits for it forever, and destroying the list destroys a locked mutex.
-/

namespace Aesd

open Exec ConnectionList

/-- A call on a list that was initialised, and not destroyed since. -/
def ListCall.Initialised (m : ListMemory) (_ : ListCall) : Prop := m.list.mutex ≠ .destroyed

/-- A call that closes finds the list not empty. -/
def ListCall.FindsItems (m : ListMemory) : ListCall → Prop
  | .close _ => m.list.head ≠ none
  | _ => True

instance (m : ListMemory) : ∀ call : ListCall, Decidable (call.FindsItems m)
  | .close _ => inferInstanceAs (Decidable (m.list.head ≠ none))
  | .add _ _ | .destroy => .isTrue trivial

instance (m : ListMemory) (call : ListCall) : Decidable (call.Initialised m) :=
  inferInstanceAs (Decidable (m.list.mutex ≠ .destroyed))

/-- The mutex is released, or destroyed when it was released. -/
def ListMemory.Unlocked (m : ListMemory) : Prop := m.list.mutex ≠ .locked

/-- The list holds some sequence, and its mutex is not locked. -/
structure ListMemory.Balanced (m : ListMemory) : Prop where
  holds : ∃ c, m.Holds c
  unlocked : m.Unlocked

variable {m : ListMemory}

lemma ListMemory.Balanced.released (h : m.Balanced) (hinit : m.list.mutex ≠ .destroyed) :
    m.list.mutex = .released := by
  have hunlocked := h.unlocked
  rw [ListMemory.Unlocked] at hunlocked
  cases hm : m.list.mutex with
  | released => rfl
  | locked => exact absurd hm hunlocked
  | destroyed => exact absurd hm hinit

lemma listStep_balanced (h : m.Balanced) {call : ListCall} (hinit : call.Initialised m)
    (hfinds : call.FindsItems m) :
    Returns (listStep pthreadMutex call) m fun _ m' => m'.Balanced := by
  obtain ⟨c, hc⟩ := h.holds
  have hreleased := h.released hinit
  have hmutex := pthreadMutex_alternates
  cases call with
  | add connectionFD thread =>
    obtain ⟨p, m', hadd, -, hc', hm'⟩ :=
      addConnection_spec hmutex hc hreleased connectionFD thread
    exact .step hadd ⟨_, m', rfl, ⟨_, hc'⟩, by rw [ListMemory.Unlocked, hm']; decide⟩
  | close connectionFD =>
    have hne : c.items ≠ [] := hc.chain.start_eq_none_iff.not.mp hfinds
    obtain ⟨status, m', hclose, -, hc', hm'⟩ :=
      closeConnection_spec hmutex hc hreleased connectionFD
    rw [if_neg hne] at hm'
    exact .step hclose ⟨_, m', rfl, ⟨_, hc'⟩, by rw [ListMemory.Unlocked, hm']; decide⟩
  | destroy =>
    obtain ⟨_, m', hdestroy, hc', hm'⟩ :=
      destroyConnectionList_spec hmutex hc hreleased pthreadMutex_destroy
    exact .step hdestroy ⟨_, m', rfl, ⟨_, hc'⟩, by rw [ListMemory.Unlocked, hm']; decide⟩

/-- `CloseConnection` on an empty list keeps the mutex. -/
lemma listStep_keeps_mutex (h : m.Balanced) {call : ListCall} (hinit : call.Initialised m)
    (hfinds : ¬ call.FindsItems m) :
    ¬ Returns (listStep pthreadMutex call) m fun _ m' => m'.Unlocked := by
  obtain ⟨c, hc⟩ := h.holds
  obtain ⟨connectionFD, rfl⟩ : ∃ connectionFD, call = .close connectionFD := by
    cases call with
    | close connectionFD => exact ⟨connectionFD, rfl⟩
    | add connectionFD thread => exact absurd trivial hfinds
    | destroy => exact absurd trivial hfinds
  have hhead : m.list.head = none := not_not.mp hfinds
  obtain ⟨status, m', hclose, -, -, hm'⟩ :=
    closeConnection_spec pthreadMutex_alternates hc (h.released hinit) connectionFD
  rw [if_pos (hc.chain.start_eq_none_iff.mp hhead)] at hm'
  rintro ⟨ret, m'', hstep, hunlocked⟩
  have hstep' : listStep pthreadMutex (.close connectionFD) m = .ok (.status status, m') := by
    rw [listStep, bind_ok hclose]
    rfl
  rw [hstep'] at hstep
  cases hstep
  exact hunlocked hm'

/-- In every run of calls on an initialised list: every call returns, no one leaves the mutex
locked, and no locked mutex is destroyed, exactly if no call closes a connection when the list is
empty. -/
theorem mutex_released_iff (calls : List ListCall)
    (hinit : Machine.Meets (listStep pthreadMutex) ListCall.Initialised calls .init) :
    (∀ pre, pre <+: calls → Returns (Machine.run (listStep pthreadMutex) pre) .init fun _ m =>
      m.Unlocked) ↔
    Machine.Meets (listStep pthreadMutex) ListCall.FindsItems calls .init := by
  refine Machine.always_returns_iff (G := ListMemory.Balanced) (fun m h => h.unlocked) ?_ ?_ calls
    ⟨⟨_, ListMemory.Holds.init⟩, nofun⟩ hinit
  · intro call m h hcall hfinds
    exact listStep_balanced h hcall hfinds
  · intro call m h hcall hfinds
    exact listStep_keeps_mutex h hcall hfinds

/-- A connection that is added and closed leaves the mutex unlocked after every call. A second
request to close it does not. -/
theorem mutex_released_iff_addAndClose :
    (∀ pre, pre <+: [.add 5 140, .close 5] →
      Returns (Machine.run (listStep pthreadMutex) pre) .init fun _ m => m.Unlocked) ∧
    ¬ ∀ pre, pre <+: [.add 5 140, .close 5, .close 5] →
      Returns (Machine.run (listStep pthreadMutex) pre) .init fun _ m => m.Unlocked :=
  ⟨(mutex_released_iff [.add 5 140, .close 5] (by decide +kernel)).mpr (by decide +kernel),
    (mutex_released_iff [.add 5 140, .close 5, .close 5] (by decide +kernel)).not.mpr
      (by decide +kernel)⟩

/-- A request to close a connection of an empty list: the call returns 1 and keeps the mutex, a
connection cannot be added any more, and the list is destroyed with its mutex locked. -/
theorem mutex_kept_locked :
    ∃ m, Machine.run (listStep pthreadMutex) [.close 5] .init = .ok ([.status 1], m) ∧
      m.list = ⟨.locked, none⟩ ∧
      listStep pthreadMutex (.add 6 0) m = .error .blocked ∧
      listStep pthreadMutex .destroy m = .error .lockedMutex :=
  ⟨⟨⟨.locked, none⟩, fun _ => none, 0, [], []⟩, rfl, rfl, rfl, rfl⟩

end Aesd
