import Aesd.Server.ConnectionList.Refinement
import Aesd.Server.ConnectionReceiver

/-!
# The list of the receiver

The loop of the receiver is modelled over a plain list of connections, and `connectionlist.c` by its
pointers. The two are the same list: turn by turn both go on, or neither does, and what the pointers
hold is what the plain list says.
-/

namespace Aesd

open Exec Chain

/-! ### The loop over the list in memory -/

namespace ConnectionList

/-- `connection->m_thread = thread`, through the pointer that `AddConnection` has returned. -/
def setThread (connection : ItemPtr) (thread : ThreadId) : ListM Unit := do
  let x ← item connection
  update fun m => { m with
    items := Function.update m.items connection
      (some { x with value := { x.value with thread } }) }

/-- What a turn of the loop of `ConnectionReceiverThread` does to the list, unless it leaves the
loop. -/
def turn : ReceiverEvent → ListM Unit
  | .nothing => pure ()
  | .message message => do
    let _ ← closeConnection pthreadMutex message
    pure ()
  | .accept connectionFD create =>
    if connectionFD = -1 then pure ()
    else do
      let connection ← addConnection pthreadMutex connectionFD 0
      setThread connection create.retVal

/-- The turns up to the message that leaves the loop. -/
def turns : List ReceiverEvent → ListM Unit
  | [] => pure ()
  | e :: events =>
    if e = .message 0 then pure ()
    else do
      turn e
      turns events

end ConnectionList

/-! ### The two lists -/

/-- An item of the plain list, as an item in memory. -/
def ConnectionListItem.entry (item : ConnectionListItem) : ItemPtr × ConnectionList.Connection :=
  (item.ptr, ⟨item.connectionFD, item.thread⟩)

/-- The plain list says what the pointers hold, and its mutex is that of the list in memory. No
handler was joined more often than there were joins of its id. -/
structure Receiver.Mirrors (r : Receiver) (m : ListMemory) : Prop where
  holds : m.Holds ⟨r.list.map ConnectionListItem.entry, r.allocated, m.joined, m.freed⟩
  mutex : m.list.mutex = if r.mutexLocked then .locked else .released
  joins_le : ∀ t ∈ r.handlers, t.joins ≤ m.joined.count t.id

variable {r r' : Receiver} {m m' : ListMemory} {c : Connections} {connectionFD : ℤ}
  {p : ItemPtr}

lemma ListMemory.Holds.entries (h : m.Holds c) {list : List ConnectionListItem} {allocated : ℕ}
    (hitems : c.items = list.map ConnectionListItem.entry) (hallocated : c.allocated = allocated) :
    m.Holds ⟨list.map ConnectionListItem.entry, allocated, m.joined, m.freed⟩ := by
  obtain ⟨items, n, joined, freed⟩ := c
  obtain rfl : items = _ := hitems
  obtain rfl : n = allocated := hallocated
  exact { h with joined := rfl, freed := rfl }

lemma Receiver.Mirrors.start : Receiver.start.Mirrors .init where
  holds := ListMemory.Holds.init
  mutex := rfl
  joins_le _ h := absurd h List.not_mem_nil

/-- Both return, and leave the same list and corresponding values, or neither returns. -/
def Receiver.Agree {α β : Type} (Q : α → β → Prop) :
    Except Fault (α × Receiver) → Except ListFault (β × ListMemory) → Prop
  | .ok (a, r), .ok (b, m) => Q a b ∧ r.Mirrors m
  | .error _, .error _ => True
  | _, _ => False

lemma Receiver.Agree.bind {α α' β β' : Type} {Q : α → β → Prop} {R : α' → β' → Prop}
    {p : ReceiverM α} {q : ListM β} {f : α → ReceiverM α'} {g : β → ListM β'}
    (h : Receiver.Agree Q (p r) (q m))
    (hf : ∀ a b r' m', p r = .ok (a, r') → Q a b → r'.Mirrors m' →
      Receiver.Agree R (f a r') (g b m')) :
    Receiver.Agree R ((p >>= f) r) ((q >>= g) m) := by
  rw [bind_apply, bind_apply]
  cases hp : p r with
  | error e =>
    rw [hp] at h
    cases hq : q m with
    | error e' => exact trivial
    | ok y =>
      rw [hq] at h
      exact h.elim
  | ok x =>
    rw [hp] at h
    cases hq : q m with
    | error e' =>
      rw [hq] at h
      exact h.elim
    | ok y =>
      rw [hq] at h
      exact hf _ _ _ _ hp h.1 h.2

/-- A value that only the plain list's side builds. -/
lemma Receiver.Agree.map_left {α α' β : Type} {p : ReceiverM α} {f : α → α'}
    {y : Except ListFault (β × ListMemory)} (h : Receiver.Agree (fun _ _ => True) (p r) y) :
    Receiver.Agree (fun _ _ => True) ((p >>= fun a => pure (f a)) r) y := by
  rw [bind_apply]
  cases hp : p r with
  | error e =>
    rw [hp] at h
    cases y <;> exact h
  | ok x =>
    rw [hp] at h
    cases y <;> exact h

/-! ### The calls -/

/-- A locked mutex keeps both from going on. -/
lemma lock_of_locked (h : r.Mirrors m) (hlocked : r.mutexLocked = true) :
    lockList r = .error .selfDeadlock ∧
      ConnectionList.pthreadMutex.lock m = .error .blocked := by
  have hmutex := h.mutex
  rw [if_pos hlocked] at hmutex
  refine ⟨if_pos hlocked, ?_⟩
  simp only [ConnectionList.pthreadMutex, read_bind_apply, hmutex]
  rfl

/-- `AddConnection` on a list that is not locked. -/
lemma addConnection_of_unlocked (hlocked : r.mutexLocked = false) (connectionFD : ℤ)
    (thread : ThreadId) :
    addConnection connectionFD thread r = .ok (r.allocated, { r with
      list := r.list ++ [⟨r.allocated, connectionFD, thread⟩]
      allocated := r.allocated + 1 }) := by
  obtain ⟨list, _, allocated, handlers, closing⟩ := r
  obtain rfl := hlocked
  rfl

lemma findConnection_append {before after : List ConnectionListItem} {next : ConnectionListItem}
    (hbefore : ∀ item ∈ before, item.connectionFD ≠ connectionFD)
    (hnext : next.connectionFD = connectionFD) :
    findConnection connectionFD (before ++ next :: after) = some (next, before ++ after) := by
  induction before with
  | nil => exact if_pos hnext
  | cons item before ih =>
    rw [List.forall_mem_cons] at hbefore
    rw [List.cons_append, findConnection, if_neg hbefore.1, ih hbefore.2]
    rfl

lemma findConnection_of_forall_ne {list : List ConnectionListItem}
    (h : ∀ item ∈ list, item.connectionFD ≠ connectionFD) :
    findConnection connectionFD list = none := by
  induction list with
  | nil => rfl
  | cons item list ih =>
    rw [List.forall_mem_cons] at h
    rw [findConnection, if_neg h.1, ih h.2]
    rfl

/-- `CloseConnection` when it finds an item. -/
lemma closeConnection_of_found {next : ConnectionListItem} {items : List ConnectionListItem}
    (hlocked : r.mutexLocked = false)
    (hfind : findConnection connectionFD r.list = some (next, items)) :
    closeConnection connectionFD r = .ok (0, { r with
      list := items
      handlers := joinHandler next.thread r.handlers }) := by
  obtain ⟨list, _, allocated, handlers, closing⟩ := r
  obtain rfl := hlocked
  have hne : list ≠ [] := by
    rintro rfl
    cases hfind
  have hlock : lockList ⟨list, false, allocated, handlers, closing⟩
      = .ok ((), ⟨list, true, allocated, handlers, closing⟩) := rfl
  rw [closeConnection, bind_ok hlock, read_bind_apply]
  dsimp only at hfind ⊢
  rw [if_neg hne, hfind]
  rfl

/-- `CloseConnection` when it finds none. The mutex stays locked exactly if the list is empty. -/
lemma closeConnection_of_not_found (hlocked : r.mutexLocked = false)
    (hfind : findConnection connectionFD r.list = none) :
    closeConnection connectionFD r = .ok (if r.list = [] then 1 else -1,
      { r with mutexLocked := decide (r.list = []) }) := by
  obtain ⟨list, _, allocated, handlers, closing⟩ := r
  obtain rfl := hlocked
  have hlock : lockList ⟨list, false, allocated, handlers, closing⟩
      = .ok ((), ⟨list, true, allocated, handlers, closing⟩) := rfl
  rw [closeConnection, bind_ok hlock, read_bind_apply]
  dsimp only at hfind ⊢
  by_cases hempty : list = []
  · simp only [hempty]
    rfl
  · rw [if_neg hempty, if_neg hempty, hfind, decide_eq_false hempty]
    rfl

/-- A join counts at most once for every handler. -/
lemma joinHandler_joins_le {ts : List Handler} {joined : List ThreadId} (thread : ThreadId)
    (h : ∀ t ∈ ts, t.joins ≤ joined.count t.id) :
    ∀ t ∈ joinHandler thread ts, t.joins ≤ (joined ++ [thread]).count t.id := by
  induction ts with
  | nil => exact fun _ ht => absurd ht List.not_mem_nil
  | cons t ts ih =>
    rw [List.forall_mem_cons] at h
    have hle : ∀ t' : Handler, t'.joins ≤ joined.count t'.id →
        t'.joins ≤ (joined ++ [thread]).count t'.id := by
      intro t' ht'
      rw [List.count_append]
      omega
    rw [joinHandler]
    split_ifs with hid
    · refine List.forall_mem_cons.mpr ⟨?_, fun t' ht' => hle t' (h.2 t' ht')⟩
      rw [List.count_append, hid, List.count_singleton_self]
      exact Nat.succ_le_succ (hid ▸ h.1)
    · exact List.forall_mem_cons.mpr ⟨hle t h.1, ih h.2⟩

lemma closeConnection_agree (h : r.Mirrors m) (connectionFD : ℤ) :
    Receiver.Agree (fun status status' => status = status') (closeConnection connectionFD r)
      (ConnectionList.closeConnection ConnectionList.pthreadMutex connectionFD m) := by
  cases hlocked : r.mutexLocked with
  | true =>
    obtain ⟨hlock, hlock'⟩ := lock_of_locked h hlocked
    rw [closeConnection, ConnectionList.closeConnection, bind_apply, bind_apply, hlock, hlock']
    exact trivial
  | false =>
    have hmutex := h.mutex
    rw [if_neg (by simp [hlocked])] at hmutex
    obtain ⟨status, m', hclose, rfl, hholds, hmutex'⟩ := ConnectionList.closeConnection_spec
      pthreadMutex_alternates h.holds hmutex connectionFD
    rw [hclose]
    rcases Connections.close_cases connectionFD
        ⟨r.list.map ConnectionListItem.entry, r.allocated, m.joined, m.freed⟩ with
      ⟨before, x, after, hitems, hbefore, hx, hstatus, hclosed⟩ | ⟨hnone, hstatus, hclosed⟩
    · -- an item is found
      obtain ⟨list₁, list₂, hlist, rfl, hmap⟩ := List.map_eq_append_iff.mp hitems
      obtain ⟨next, list₃, rfl, rfl, rfl⟩ := List.map_eq_cons_iff.mp hmap
      have hfind : findConnection connectionFD r.list = some (next, list₁ ++ list₃) := by
        rw [hlist]
        exact findConnection_append (fun item hitem => hbefore _ (List.mem_map_of_mem hitem)) hx
      rw [closeConnection_of_found hlocked hfind]
      rw [hclosed] at hholds
      refine ⟨hstatus.symm, hholds.entries (List.map_append ..).symm rfl, ?_, ?_⟩
      · rw [hmutex', hitems, if_neg (by simp), hlocked]
        rfl
      · rw [hholds.joined]
        exact joinHandler_joins_le _ h.joins_le
    · have hfind : findConnection connectionFD r.list = none :=
        findConnection_of_forall_ne fun item hitem => hnone _ (List.mem_map_of_mem hitem)
      rw [closeConnection_of_not_found hlocked hfind]
      rw [hclosed] at hholds
      refine ⟨?_, hholds.entries rfl rfl, ?_, ?_⟩
      · rw [hstatus]
        simp
      · rw [hmutex']
        simp
      · rw [hholds.joined]
        exact h.joins_le

/-- Closing the connections of all items, from the first on. -/
lemma closeConnections_of_list {items : List ConnectionListItem} (hlocked : r.mutexLocked = false)
    (hlist : r.list = items) :
    closeConnections items r = .ok ((), { r with
      list := []
      handlers := items.foldl (fun ts item => joinHandler item.thread ts) r.handlers }) := by
  induction items generalizing r with
  | nil =>
    rw [closeConnections, List.foldl_nil, pure_apply, ← hlist]
  | cons next items ih =>
    have hfind : findConnection next.connectionFD r.list = some (next, items) := by
      rw [hlist, findConnection, if_pos rfl]
    rw [closeConnections, bind_ok (closeConnection_of_found hlocked hfind)]
    exact ih hlocked rfl

lemma foldl_joinHandler_joins_le (items : List ConnectionListItem) {ts : List Handler}
    {joined : List ThreadId} (h : ∀ t ∈ ts, t.joins ≤ joined.count t.id) :
    ∀ t ∈ items.foldl (fun ts item => joinHandler item.thread ts) ts,
      t.joins ≤ (joined ++ items.map ConnectionListItem.thread).count t.id := by
  induction items generalizing ts joined with
  | nil => simpa using h
  | cons item items ih =>
    have hrest := ih (joinHandler_joins_le item.thread h)
    rwa [List.append_assoc] at hrest

/-- Destroying the list empties both, and joins the threads that the items name. -/
lemma destroyConnectionList_agree (h : r.Mirrors m) (hlocked : r.mutexLocked = false) :
    Returns destroyConnectionList r fun _ r' =>
      Returns (ConnectionList.destroyConnectionList ConnectionList.pthreadMutex) m fun _ m' =>
        r'.list = [] ∧ (∀ p, m'.items p = none) ∧
        m'.joined = m.joined ++ r.list.map ConnectionListItem.thread ∧
        ∀ t ∈ r'.handlers, t.joins ≤ m'.joined.count t.id := by
  have hmutex := h.mutex
  rw [if_neg (by simp [hlocked])] at hmutex
  refine ⟨(), _, closeConnections_of_list hlocked rfl, ?_⟩
  refine (ConnectionList.destroyConnectionList_spec pthreadMutex_alternates h.holds hmutex
    pthreadMutex_destroy).mono ?_
  rintro _ m' ⟨hholds, -⟩
  have hjoined : m'.joined = m.joined ++ r.list.map ConnectionListItem.thread := by
    rw [hholds.joined, Connections.destroy, List.map_map]
    rfl
  refine ⟨rfl, fun p => hholds.eq_none p List.not_mem_nil, hjoined, ?_⟩
  rw [hjoined]
  exact foldl_joinHandler_joins_le r.list h.joins_le

/-! ### Whole runs -/

/-- An assignment to the item that comes last. -/
lemma setThread_last {items : List (ItemPtr × ConnectionList.Connection)} {p : ItemPtr}
    {v : ConnectionList.Connection} (h : m.Holds c) (hitems : c.items = items ++ [(p, v)])
    (thread : ThreadId) :
    Returns (ConnectionList.setThread p thread) m fun _ m' =>
      m'.Holds { c with items := items ++ [(p, { v with thread })] } ∧
        m'.list = m.list ∧ m'.joined = m.joined := by
  have hchain := h.chain
  rw [hitems] at hchain
  have hnodup := hchain.nodup
  rw [ptrs_append, ptrs_cons, ptrs_nil, List.nodup_append] at hnodup
  have hp : p ∉ ptrs items := fun hmem => hnodup.2.2 p hmem p List.mem_cons_self rfl
  have hptrs : ptrs (items ++ [(p, { v with thread })]) = ptrs c.items := by
    rw [hitems, ptrs_append, ptrs_append]
    rfl
  obtain ⟨link, hleft, hlast⟩ := hchain.of_append
  obtain ⟨rfl, next, hmem, hend⟩ := hlast.of_cons
  obtain rfl := hend.of_nil
  refine ⟨(), _, bind_ok (ConnectionList.item_of_some hmem), ?_, rfl, rfl⟩
  refine ⟨?_, ?_, ?_, h.allocated, h.joined, h.freed⟩
  · exact (hleft.update_of_notMem hp _).append (.cons (Function.update_self ..) (.nil none))
  · rw [hptrs]
    exact h.lt_allocated
  · intro q hq
    rw [hptrs] at hq
    have hne : q ≠ p := by
      rintro rfl
      exact hq (hitems ▸ by simp)
    exact (Function.update_of_ne hne _ _).trans (h.eq_none q hq)

/-- The same assignment to the plain list. -/
lemma setThread_eq {items : List ConnectionListItem}
    (hlist : r.list = items ++ [⟨p, connectionFD, 0⟩]) (hp : ∀ item ∈ items, item.ptr ≠ p)
    (thread : ThreadId) :
    setThread p thread r = .ok ((), { r with list := items ++ [⟨p, connectionFD, thread⟩] }) := by
  have hmap : items.map (fun item => if item.ptr = p then { item with thread } else item)
      = items := by
    conv_rhs => rw [← List.map_id items]
    exact List.map_congr_left fun item hitem => if_neg (hp item hitem)
  rw [setThread, update_apply, hlist, List.map_append, hmap]
  simp

/-- The turn that accepts a connection. -/
lemma accept_agree (h : r.Mirrors m) (connectionFD : ℤ) (create : PthreadCreate) :
    Receiver.Agree (fun _ _ => True)
      ((do
        let connection ← addConnection connectionFD 0
        let thread ← pthreadCreate create connection
        setThread connection thread) r)
      ((do
        let connection ← ConnectionList.addConnection ConnectionList.pthreadMutex connectionFD 0
        ConnectionList.setThread connection create.retVal) m) := by
  cases hlocked : r.mutexLocked with
  | true =>
    obtain ⟨hlock, hlock'⟩ := lock_of_locked h hlocked
    rw [addConnection, ConnectionList.addConnection]
    simp only [bind_apply, hlock, hlock']
    exact trivial
  | false =>
    have hmutex := h.mutex
    rw [if_neg (by simp [hlocked])] at hmutex
    obtain ⟨_, m₁, hadd, rfl, hholds, hmutex₁⟩ := ConnectionList.addConnection_spec
      pthreadMutex_alternates h.holds hmutex connectionFD 0
    obtain ⟨_, m₂, hset, hholds₂, hlist₂, hjoined₂⟩ := setThread_last hholds rfl create.retVal
    have hfresh : ∀ item ∈ r.list, item.ptr ≠ r.allocated := by
      intro item hitem heq
      have hlt := h.holds.lt_allocated item.ptr
        (List.mem_map.mpr ⟨item.entry, List.mem_map_of_mem hitem, rfl⟩)
      exact absurd hlt (heq ▸ lt_irrefl _)
    rw [bind_ok (addConnection_of_unlocked hlocked connectionFD 0), bind_ok hadd, hset]
    rw [pthreadCreate, bind_assoc_eq, update_bind_apply, pure_bind_apply,
      setThread_eq rfl hfresh]
    refine ⟨trivial, hholds₂.entries ?_ rfl, ?_, ?_⟩
    · dsimp only
      rw [List.map_append]
      rfl
    · rw [hlist₂, hmutex₁, hlocked]
      rfl
    · intro t ht
      rw [hjoined₂, hholds.joined]
      rcases List.mem_append.mp ht with ht | ht
      · cases create with
        | started newThread =>
          obtain rfl := List.mem_singleton.mp ht
          exact Nat.zero_le _
        | failed error => cases ht
      · exact h.joins_le t ht

/-- A turn that does not leave the loop, while the loop runs. -/
lemma receiverStep_agree (h : r.Mirrors m) (hrunning : r.closing = false) {e : ReceiverEvent}
    (he : e ≠ .message 0) :
    Receiver.Agree (fun _ _ => True) (receiverStep e r) (ConnectionList.turn e m) := by
  unfold receiverStep
  rw [read_bind_apply, id, if_neg (by simp [hrunning])]
  cases e with
  | nothing => exact ⟨trivial, h⟩
  | message message =>
    have hne : message ≠ 0 := by
      rintro rfl
      exact he rfl
    dsimp only
    rw [if_neg hne]
    exact (closeConnection_agree h message).bind fun _ _ _ _ _ _ h' => ⟨trivial, h'⟩
  | accept connectionFD create =>
    dsimp only
    rw [ConnectionList.turn]
    split_ifs with hfd
    · exact ⟨trivial, h⟩
    · exact accept_agree h connectionFD create

/-- Such a turn does not leave the loop. -/
lemma closing_of_receiverStep (hrunning : r.closing = false) {e : ReceiverEvent}
    (he : e ≠ .message 0) {a : Unit} (hstep : receiverStep e r = .ok (a, r')) :
    r'.closing = false := by
  unfold receiverStep at hstep
  rw [read_bind_apply, id, if_neg (by simp [hrunning])] at hstep
  cases e with
  | nothing =>
    cases hstep
    exact hrunning
  | message message =>
    have hne : message ≠ 0 := by
      rintro rfl
      exact he rfl
    dsimp only at hstep
    rw [if_neg hne] at hstep
    obtain ⟨_, r₁, hclose, hstep⟩ := of_bind_ok hstep
    cases hstep
    rcases of_closeConnection hclose with ⟨_, _, -, rfl⟩ | ⟨-, _, rfl⟩
    · exact hrunning
    · exact hrunning
  | accept connectionFD create =>
    dsimp only at hstep
    split_ifs at hstep with hfd
    · cases hstep
      exact hrunning
    · obtain ⟨_, r₁, hadd, hstep⟩ := of_bind_ok hstep
      obtain ⟨rfl, rfl⟩ := of_addConnection hadd
      cases hstep
      exact hrunning

/-- After the loop was left nothing happens any more. -/
lemma run_of_closing (hclosing : r.closing = true) (events : List ReceiverEvent) :
    Returns (Machine.run receiverStep events) r fun _ r' => r' = r := by
  refine Machine.run_invariant (I := fun r' => r' = r) ?_ events rfl
  rintro e r' rfl
  refine ⟨(), r', ?_, rfl⟩
  unfold receiverStep
  rw [read_bind_apply, id, if_pos hclosing]
  rfl

/-- From lists that correspond, as many turns as there are. -/
lemma turns_agree (events : List ReceiverEvent) (h : r.Mirrors m) (hrunning : r.closing = false) :
    Receiver.Agree (fun _ _ => True) (Machine.run receiverStep events r)
      (ConnectionList.turns events m) := by
  induction events generalizing r m with
  | nil => exact ⟨trivial, h⟩
  | cons e events ih =>
    rw [ConnectionList.turns, Machine.run]
    by_cases he : e = .message 0
    · obtain rfl := he
      have hstep : receiverStep (.message 0) r = .ok ((), { r with closing := true }) := by
        unfold receiverStep
        rw [read_bind_apply, id, if_neg (by simp [hrunning])]
        rfl
      obtain ⟨os, _, hrun, rfl⟩ := run_of_closing (r := { r with closing := true }) rfl events
      rw [if_pos rfl, bind_ok hstep, bind_ok hrun]
      exact ⟨trivial, { h with }⟩
    · rw [if_neg he]
      refine (receiverStep_agree h hrunning he).bind ?_
      intro _ _ r' m' hstep _ h'
      exact (ih h' (closing_of_receiverStep hrunning he hstep)).map_left

/-- Whatever the receiver gets to do: its loop goes on over the list in memory exactly as long as it
does over the plain list, and leaves a list that holds what the plain list says. If the mutex is not
locked then, destroying the list empties both and joins the threads that its items name. -/
theorem receiver_list_in_memory (events : List ReceiverEvent) :
    Receiver.Agree (fun _ _ => True) (Machine.run receiverStep events .start)
      (ConnectionList.turns events .init) ∧
    ∀ rets r m, Machine.run receiverStep events .start = .ok (rets, r) →
      ConnectionList.turns events .init = .ok ((), m) → r.mutexLocked = false →
      Returns destroyConnectionList r fun _ r' =>
        Returns (ConnectionList.destroyConnectionList ConnectionList.pthreadMutex) m fun _ m' =>
          r'.list = [] ∧ (∀ p, m'.items p = none) ∧
          m'.joined = m.joined ++ r.list.map ConnectionListItem.thread ∧
          ∀ t ∈ r'.handlers, t.joins ≤ m'.joined.count t.id := by
  have hagree := turns_agree events .start rfl
  refine ⟨hagree, fun rets r m hrun hturns hlocked => ?_⟩
  rw [hrun, hturns] at hagree
  exact destroyConnectionList_agree hagree.2 hlocked

end Aesd
