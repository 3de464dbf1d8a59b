import Aesd.Driver.Basic
import Aesd.Library.Ghost
import Aesd.Server.ConnectionList.Basic

/-!
# Accepting connections

`ConnectionReceiverThread` and its list of connections. Every item of the list names the thread that
`CloseConnection` joins; what is stored there is what `pthread_create` returns, and not the thread
that it made.
-/

namespace Aesd

open Exec

structure ConnectionListItem where
  ptr : ItemPtr
  connectionFD : ℤ
  thread : ThreadId
  deriving DecidableEq, Repr

/-- A handler that was started: its id, the item that it was started for, and how often it was
joined. -/
structure Handler where
  id : ThreadId
  param : ItemPtr
  joins : ℕ
  deriving DecidableEq, Repr

/-- The list from its head on, its mutex, the allocations so far, the handlers, the last one first,
and whether the loop was left by `break`. -/
structure Receiver where
  list : List ConnectionListItem
  mutexLocked : Bool
  allocated : ℕ
  handlers : List Handler
  closing : Bool
  deriving DecidableEq, Repr

abbrev ReceiverM := Exec Fault Receiver

/-- How `pthread_create` ends: it stores the id of a new thread and returns 0, or it returns an
error number. -/
inductive PthreadCreate where
  | started (newThread : ThreadId)
  | failed (error : { n : ℕ // 0 < n })
  deriving DecidableEq, Repr

/-- What `epoll_wait` finds: nothing that the loop looks at, a message, with the value that
`message` has once it was received, or the end of an `accept`. -/
inductive ReceiverEvent where
  | nothing
  | message (message : ℤ)
  | accept (connectionFD : ℤ) (create : PthreadCreate)
  deriving DecidableEq, Repr

/-! ### Threads -/

def PthreadCreate.retVal : PthreadCreate → ℕ
  | .started _ => 0
  | .failed error => error

def PthreadCreate.newHandlers (param : ItemPtr) : PthreadCreate → List Handler
  | .started newThread => [⟨newThread, param, 0⟩]
  | .failed _ => []

/-- `pthread_create` of a handler for an item. -/
def pthreadCreate (create : PthreadCreate) (param : ItemPtr) : ReceiverM ℕ := do
  update fun r => { r with handlers := create.newHandlers param ++ r.handlers }
  pure create.retVal

/-- The last handler with this id is joined once more, if there is one. -/
def joinHandler (thread : ThreadId) : List Handler → List Handler
  | [] => []
  | t :: ts => if t.id = thread then { t with joins := t.joins + 1 } :: ts
    else t :: joinHandler thread ts

/-- `pthread_join`, whose result nobody looks at. -/
def pthreadJoin (thread : ThreadId) : ReceiverM Unit :=
  update fun r => { r with handlers := joinHandler thread r.handlers }

/-! ### The list -/

/-- `pthread_mutex_lock` of the mutex of the list, which only this thread uses. -/
def lockList : ReceiverM Unit := fun r =>
  if r.mutexLocked then .error .selfDeadlock else .ok ((), { r with mutexLocked := true })

def unlockList : ReceiverM Unit := update fun r => { r with mutexLocked := false }

/-- `FindConnection_nolock`: the first item for a descriptor, and the list without it. -/
def findConnection (connectionFD : ℤ) :
    List ConnectionListItem → Option (ConnectionListItem × List ConnectionListItem)
  | [] => none
  | next :: items =>
    if next.connectionFD = connectionFD then some (next, items)
    else (findConnection connectionFD items).map fun found => (found.1, next :: found.2)

/-- `AddConnection` appends a new item to the list. -/
def addConnection (connectionFD : ℤ) (thread : ThreadId) : ReceiverM ItemPtr := do
  lockList
  let newItemPtr ← read fun r => r.allocated
  update fun r => { r with
    list := r.list ++ [⟨newItemPtr, connectionFD, thread⟩]
    allocated := r.allocated + 1 }
  unlockList
  pure newItemPtr

/-- `CloseConnection`. If the list is empty it returns with the mutex locked. -/
def closeConnection (connectionFD : ℤ) : ReceiverM ℤ := do
  lockList
  let list ← read fun r => r.list
  if list = [] then pure 1
  else
    match findConnection connectionFD list with
    | some (next, items) => do
      update fun r => { r with list := items }
      pthreadJoin next.thread
      unlockList
      pure 0
    | none => do
      unlockList
      pure (-1)

def closeConnections : List ConnectionListItem → ReceiverM Unit
  | [] => pure ()
  | next :: items => do
    let _ ← closeConnection next.connectionFD
    closeConnections items

/-- `DestroyConnectionList` closes the connection of every item. -/
def destroyConnectionList : ReceiverM Unit := do
  let list ← read fun r => r.list
  closeConnections list

/-! ### The loop -/

/-- `connection->m_thread = thread` -/
def setThread (connection : ItemPtr) (thread : ThreadId) : ReceiverM Unit :=
  update fun r => { r with
    list := r.list.map fun item => if item.ptr = connection then { item with thread } else item }

/-- One turn of the loop of `ConnectionReceiverThread`. -/
def receiverStep (e : ReceiverEvent) : ReceiverM Unit := do
  let r ← read id
  if r.closing then pure ()
  else
    match e with
    | .nothing => pure ()
    | .message message =>
      if message = 0 then update fun r => { r with closing := true }
      else do
        let _ ← closeConnection message
        pure ()
    | .accept connectionFD create =>
      if connectionFD = -1 then pure ()
      else do
        let connection ← addConnection connectionFD 0
        let thread ← pthreadCreate create connection
        setThread connection thread

/-- The thread behind `InitConnectionList`. -/
def Receiver.start : Receiver := ⟨[], false, 0, [], false⟩

/-- Every item names the handler that was started for it. -/
def Receiver.Tracked (r : Receiver) : Prop :=
  ∀ item ∈ r.list, ∀ t ∈ r.handlers, t.param = item.ptr → item.thread = t.id

/-- The id of the handler that is started in this turn, if one is. -/
def ReceiverEvent.started (r : Receiver) : ReceiverEvent → Option ThreadId
  | .accept connectionFD (.started newThread) =>
    if r.closing ∨ connectionFD = -1 then none else some newThread
  | _ => none

/-- A thread that was not joined yet keeps its id for itself. -/
def ReceiverEvent.Unique (r : Receiver) (e : ReceiverEvent) : Prop :=
  ∀ newThread ∈ e.started r, ∀ t ∈ r.handlers, t.id = newThread → 0 < t.joins

/-- No handler is started, or one whose id is what `pthread_create` returns. -/
def ReceiverEvent.StartsZero (r : Receiver) (e : ReceiverEvent) : Prop :=
  ∀ newThread ∈ e.started r, newThread = 0

instance (r : Receiver) (e : ReceiverEvent) : Decidable (e.Unique r) :=
  inferInstanceAs (Decidable (∀ newThread ∈ e.started r, ∀ t ∈ r.handlers, _ → _))

instance (r : Receiver) (e : ReceiverEvent) : Decidable (e.StartsZero r) :=
  inferInstanceAs (Decidable (∀ newThread ∈ e.started r, newThread = 0))

/-! ### The invariant -/

def Receiver.ptrs (r : Receiver) : List ItemPtr := r.list.map ConnectionListItem.ptr

/-- All handlers have the id 0. One at most was not joined yet; it is the last, and its item is the
only one that names the thread 0. -/
structure Receiver.Zeros (r : Receiver) (live : Option Handler) (joined : List Handler) : Prop where
  handlers : r.handlers = live.toList ++ joined
  of_joined : ∀ t ∈ joined, t.id = 0 ∧ t.joins = 1 ∧ t.param < r.allocated ∧ t.param ∉ r.ptrs
  of_live : ∀ t ∈ live, t.id = 0 ∧ t.joins = 0 ∧ t.param ∈ r.ptrs
  thread_eq_zero : ∀ item ∈ r.list, item.thread = 0 ↔ ∃ t ∈ live, t.param = item.ptr
  nodup : r.ptrs.Nodup
  lt : ∀ p ∈ r.ptrs, p < r.allocated

variable {r r' : Receiver} {live : Option Handler} {joined : List Handler}

lemma joinHandler_of_notMem {thread : ThreadId} {ts : List Handler} (h : ∀ t ∈ ts, t.id ≠ thread) :
    joinHandler thread ts = ts := by
  induction ts with
  | nil => rfl
  | cons t ts ih =>
    rw [joinHandler, if_neg (h t List.mem_cons_self),
      ih fun t' ht' => h t' (List.mem_cons_of_mem t ht')]

lemma findConnection_perm {connectionFD : ℤ} {list items : List ConnectionListItem}
    {next : ConnectionListItem} (h : findConnection connectionFD list = some (next, items)) :
    list.Perm (next :: items) := by
  induction list generalizing items with
  | nil => cases h
  | cons item list ih =>
    rw [findConnection] at h
    split_ifs at h with hfd
    · cases h
      exact List.Perm.refl _
    · obtain ⟨⟨found, rest⟩, hfound, heq⟩ := Option.map_eq_some_iff.mp h
      cases heq
      exact ((ih hfound).cons item).trans (List.Perm.swap _ _ _)

namespace Receiver.Zeros

lemma start : Receiver.start.Zeros none [] where
  handlers := rfl
  of_joined _ h := absurd h List.not_mem_nil
  of_live _ h := absurd h (Option.not_mem_none _)
  thread_eq_zero _ h := absurd h List.not_mem_nil
  nodup := List.nodup_nil
  lt _ h := absurd h List.not_mem_nil

lemma id_eq_zero (h : r.Zeros live joined) {t : Handler} (ht : t ∈ r.handlers) : t.id = 0 := by
  rw [h.handlers, List.mem_append, Option.mem_toList] at ht
  rcases ht with ht | ht
  · exact (h.of_live t ht).1
  · exact (h.of_joined t ht).1

lemma tracked (h : r.Zeros live joined) : r.Tracked := by
  intro item hitem t ht hparam
  rw [h.handlers, List.mem_append, Option.mem_toList] at ht
  rcases ht with ht | ht
  · rw [(h.of_live t ht).1]
    exact (h.thread_eq_zero item hitem).mpr ⟨t, ht, hparam⟩
  · refine absurd ?_ (h.of_joined t ht).2.2.2
    rw [hparam]
    exact List.mem_map_of_mem hitem

/-- Another order of the items. -/
lemma perm (h : r.Zeros live joined) {list : List ConnectionListItem} (hp : r.list.Perm list)
    (locked : Bool) :
    Receiver.Zeros { r with list, mutexLocked := locked } live joined := by
  have hptrs : r.ptrs.Perm (list.map ConnectionListItem.ptr) := hp.map _
  exact {
    handlers := h.handlers
    of_joined := by
      intro t ht
      obtain ⟨hid, hjoins, hlt, hparam⟩ := h.of_joined t ht
      exact ⟨hid, hjoins, hlt, fun hmem => hparam (hptrs.mem_iff.mpr hmem)⟩
    of_live := by
      intro t ht
      obtain ⟨hid, hjoins, hparam⟩ := h.of_live t ht
      exact ⟨hid, hjoins, hptrs.mem_iff.mp hparam⟩
    thread_eq_zero := fun item hitem => h.thread_eq_zero item (hp.mem_iff.mpr hitem)
    nodup := hptrs.nodup_iff.mp h.nodup
    lt := fun p hmem => h.lt p (hptrs.mem_iff.mpr hmem) }

section tail

variable {next : ConnectionListItem} {items : List ConnectionListItem}

lemma ptrs_cons (hlist : r.list = next :: items) :
    r.ptrs = next.ptr :: items.map ConnectionListItem.ptr := by
  rw [Receiver.ptrs, hlist, List.map_cons]

lemma joined_tail (h : r.Zeros live joined) (hlist : r.list = next :: items) :
    ∀ t ∈ joined, t.id = 0 ∧ t.joins = 1 ∧ t.param < r.allocated ∧
      t.param ∉ items.map ConnectionListItem.ptr := by
  intro t ht
  obtain ⟨hid, hjoins, hlt, hparam⟩ := h.of_joined t ht
  rw [ptrs_cons hlist, List.mem_cons, not_or] at hparam
  exact ⟨hid, hjoins, hlt, hparam.2⟩

/-- The ptrs of the other items. -/
lemma nodup_tail (h : r.Zeros live joined) (hlist : r.list = next :: items) :
    next.ptr ∉ items.map ConnectionListItem.ptr ∧ (items.map ConnectionListItem.ptr).Nodup ∧
      ∀ p ∈ items.map ConnectionListItem.ptr, p < r.allocated := by
  have hnodup := h.nodup
  have hlt := h.lt
  rw [ptrs_cons hlist] at hnodup hlt
  obtain ⟨hnext, hnodup⟩ := List.nodup_cons.mp hnodup
  exact ⟨hnext, hnodup, fun p hp => hlt p (List.mem_cons_of_mem _ hp)⟩

/-- The item that names the thread 0 is that of the handler that is left to be joined. -/
lemma tail_of_eq_zero (h : r.Zeros live joined) (hlist : r.list = next :: items)
    (hthread : next.thread = 0) :
    ∃ joined', Receiver.Zeros
      { r with list := items, handlers := joinHandler next.thread r.handlers } none joined' := by
  obtain ⟨hnext, hnodup, hlt⟩ := h.nodup_tail hlist
  have hmem : next ∈ r.list := hlist ▸ List.mem_cons_self
  obtain ⟨t, ht, hparam⟩ := (h.thread_eq_zero next hmem).mp hthread
  obtain ⟨hid, hjoins, -⟩ := h.of_live t ht
  obtain rfl : live = some t := ht
  refine ⟨{ t with joins := t.joins + 1 } :: joined, ?_, ?_, ?_, ?_, hnodup, hlt⟩
  · change joinHandler next.thread r.handlers = _
    rw [h.handlers, hthread, Option.toList_some, List.singleton_append, joinHandler, if_pos hid]
    rfl
  · intro t' ht'
    rcases List.mem_cons.mp ht' with rfl | ht'
    · refine ⟨hid, by rw [hjoins], ?_, ?_⟩
      · change t.param < r.allocated
        rw [hparam]
        exact h.lt _ (List.mem_map_of_mem hmem)
      · change t.param ∉ _
        rw [hparam]
        exact hnext
    · exact h.joined_tail hlist t' ht'
  · intro t' ht'
    cases ht'
  · intro item hitem
    refine iff_of_false ?_ ?_
    · intro hitem₀
      obtain ⟨t', ht', hparam'⟩ :=
        (h.thread_eq_zero item (hlist ▸ List.mem_cons_of_mem _ hitem)).mp hitem₀
      cases ht'
      rw [hparam] at hparam'
      rw [hparam'] at hnext
      exact hnext (List.mem_map_of_mem hitem)
    · rintro ⟨t', ht', -⟩
      cases ht'

/-- Another number names no handler. -/
lemma tail_of_ne_zero (h : r.Zeros live joined) (hlist : r.list = next :: items)
    (hthread : next.thread ≠ 0) :
    Receiver.Zeros { r with list := items, handlers := joinHandler next.thread r.handlers }
      live joined := by
  obtain ⟨-, hnodup, hlt⟩ := h.nodup_tail hlist
  have hsame : joinHandler next.thread r.handlers = r.handlers :=
    joinHandler_of_notMem fun t ht => (h.id_eq_zero ht).trans_ne (Ne.symm hthread)
  refine ⟨hsame.trans h.handlers, h.joined_tail hlist, ?_, ?_, hnodup, hlt⟩
  · intro t ht
    obtain ⟨hid, hjoins, hparam⟩ := h.of_live t ht
    refine ⟨hid, hjoins, ?_⟩
    rw [ptrs_cons hlist, List.mem_cons] at hparam
    refine hparam.resolve_left ?_
    intro heq
    exact hthread ((h.thread_eq_zero next (hlist ▸ List.mem_cons_self)).mpr ⟨t, ht, heq⟩)
  · intro item hitem
    exact h.thread_eq_zero item (hlist ▸ List.mem_cons_of_mem _ hitem)

/-- Unlinking the first item and joining its thread. -/
lemma tail (h : r.Zeros live joined) (hlist : r.list = next :: items) :
    ∃ live' joined', Receiver.Zeros
      { r with list := items, handlers := joinHandler next.thread r.handlers } live' joined' := by
  by_cases hthread : next.thread = 0
  · obtain ⟨joined', hzero⟩ := h.tail_of_eq_zero hlist hthread
    exact ⟨none, joined', hzero⟩
  · exact ⟨live, joined, h.tail_of_ne_zero hlist hthread⟩

end tail

section add

lemma allocated_notMem (h : r.Zeros live joined) : r.allocated ∉ r.ptrs := by
  intro hmem
  exact lt_irrefl _ (h.lt _ hmem)

lemma joined_add (h : r.Zeros live joined) :
    ∀ t ∈ joined, t.id = 0 ∧ t.joins = 1 ∧ t.param < r.allocated + 1 ∧
      t.param ∉ r.ptrs ++ [r.allocated] := by
  intro t ht
  obtain ⟨hid, hjoins, hlt, hparam⟩ := h.of_joined t ht
  refine ⟨hid, hjoins, Nat.lt_succ_of_lt hlt, ?_⟩
  rw [List.mem_append, List.mem_singleton, not_or]
  exact ⟨hparam, hlt.ne⟩

lemma nodup_add (h : r.Zeros live joined) :
    (r.ptrs ++ [r.allocated]).Nodup ∧ ∀ p ∈ r.ptrs ++ [r.allocated], p < r.allocated + 1 := by
  constructor
  · rw [List.nodup_append_comm]
    exact List.nodup_cons.mpr ⟨h.allocated_notMem, h.nodup⟩
  · intro p hp
    rw [List.mem_append, List.mem_singleton] at hp
    rcases hp with hp | rfl
    · exact Nat.lt_succ_of_lt (h.lt p hp)
    · exact Nat.lt_succ_self _

lemma ptrs_add (items : List ConnectionListItem) (p : ItemPtr) (fd : ℤ) (thread : ThreadId) :
    List.map ConnectionListItem.ptr (items ++ [⟨p, fd, thread⟩])
      = items.map ConnectionListItem.ptr ++ [p] :=
  List.map_append ..

/-- A new item without a handler. Error numbers are not 0. -/
lemma add_failed (h : r.Zeros live joined) (connectionFD : ℤ) (error : { n : ℕ // 0 < n }) :
    Receiver.Zeros { r with
      list := r.list ++ [⟨r.allocated, connectionFD, error⟩]
      allocated := r.allocated + 1 } live joined := by
  have hjoined := h.joined_add
  have hnodup := h.nodup_add
  rw [Receiver.ptrs, ← ptrs_add _ _ connectionFD error] at hjoined hnodup
  refine ⟨h.handlers, hjoined, ?_, ?_, hnodup.1, hnodup.2⟩
  · intro t ht
    obtain ⟨hid, hjoins, hparam⟩ := h.of_live t ht
    refine ⟨hid, hjoins, ?_⟩
    rw [Receiver.ptrs, ptrs_add]
    exact List.mem_append_left _ hparam
  · intro item hitem
    rcases List.mem_append.mp hitem with hitem | hitem
    · exact h.thread_eq_zero item hitem
    · rw [List.mem_singleton.mp hitem]
      refine iff_of_false error.2.ne' ?_
      rintro ⟨t, ht, hparam⟩
      have hmem := (h.of_live t ht).2.2
      rw [hparam] at hmem
      exact h.allocated_notMem hmem

/-- The last handler has been joined if its id is given away again. -/
lemma live_eq_none (h : r.Zeros live joined) (hunique : ∀ t ∈ r.handlers, t.id = 0 → 0 < t.joins) :
    live = none := by
  rw [Option.eq_none_iff_forall_not_mem]
  intro t ht
  obtain ⟨hid, hjoins, -⟩ := h.of_live t ht
  have hmem : t ∈ r.handlers := by
    rw [h.handlers]
    exact List.mem_append_left _ (Option.mem_toList.mpr ht)
  have hpos := hunique t hmem hid
  omega

/-- A new item with a handler whose id is 0. -/
lemma add_started (h : r.Zeros none joined) (connectionFD : ℤ) :
    Receiver.Zeros { r with
      list := r.list ++ [⟨r.allocated, connectionFD, 0⟩]
      allocated := r.allocated + 1
      handlers := ⟨0, r.allocated, 0⟩ :: r.handlers } (some ⟨0, r.allocated, 0⟩) joined := by
  have hjoined := h.joined_add
  have hnodup := h.nodup_add
  rw [Receiver.ptrs, ← ptrs_add _ _ connectionFD 0] at hjoined hnodup
  refine ⟨congrArg _ h.handlers, hjoined, ?_, ?_, hnodup.1, hnodup.2⟩
  · intro t ht
    cases ht
    refine ⟨rfl, rfl, ?_⟩
    rw [Receiver.ptrs, ptrs_add]
    exact List.mem_append_right _ List.mem_cons_self
  · intro item hitem
    rcases List.mem_append.mp hitem with hitem | hitem
    · refine iff_of_false ?_ ?_
      · intro hthread
        obtain ⟨t, ht, -⟩ := (h.thread_eq_zero item hitem).mp hthread
        cases ht
      · rintro ⟨t, ht, hparam⟩
        cases ht
        exact (h.lt item.ptr (List.mem_map_of_mem hitem)).ne hparam.symm
    · rw [List.mem_singleton.mp hitem]
      exact iff_of_true rfl ⟨_, rfl, rfl⟩

/-- A new item, whose handler was started with the id 0 or not at all. -/
lemma add (h : r.Zeros live joined) {create : PthreadCreate} (connectionFD : ℤ)
    (hzero : ∀ newThread, create = .started newThread → newThread = 0)
    (hunique : ∀ newThread, create = .started newThread →
      ∀ t ∈ r.handlers, t.id = newThread → 0 < t.joins) :
    ∃ live', Receiver.Zeros { r with
      list := r.list ++ [⟨r.allocated, connectionFD, create.retVal⟩]
      allocated := r.allocated + 1
      handlers := create.newHandlers r.allocated ++ r.handlers } live' joined := by
  cases create with
  | failed error => exact ⟨live, h.add_failed connectionFD error⟩
  | started newThread =>
    obtain rfl := hzero newThread rfl
    obtain rfl := h.live_eq_none (hunique 0 rfl)
    exact ⟨_, h.add_started connectionFD⟩

end add

end Receiver.Zeros

/-! ### The functions -/

lemma of_lockList {a : Unit} (h : lockList r = .ok (a, r')) :
    r.mutexLocked = false ∧ r' = { r with mutexLocked := true } := by
  rw [lockList] at h
  split_ifs at h with hlocked
  cases h
  exact ⟨by simpa using hlocked, rfl⟩

lemma of_addConnection {connectionFD : ℤ} {thread : ThreadId} {p : ItemPtr}
    (h : addConnection connectionFD thread r = .ok (p, r')) :
    p = r.allocated ∧ r' = { r with
      list := r.list ++ [⟨r.allocated, connectionFD, thread⟩]
      allocated := r.allocated + 1 } := by
  obtain ⟨_, r₁, hlock, h⟩ := of_bind_ok h
  obtain ⟨hlocked, rfl⟩ := of_lockList hlock
  cases h
  obtain ⟨list, locked, allocated, handlers, closing⟩ := r
  cases hlocked
  exact ⟨rfl, rfl⟩

/-- `CloseConnection` unlinks the item that it finds, or changes at most the mutex. -/
lemma of_closeConnection {connectionFD a : ℤ} (h : closeConnection connectionFD r = .ok (a, r')) :
    (∃ next items, findConnection connectionFD r.list = some (next, items) ∧
      r' = { r with list := items, handlers := joinHandler next.thread r.handlers }) ∨
    (findConnection connectionFD r.list = none ∧
      ∃ locked, r' = { r with mutexLocked := locked }) := by
  obtain ⟨_, r₁, hlock, h⟩ := of_bind_ok h
  obtain ⟨hlocked, rfl⟩ := of_lockList hlock
  rw [read_bind_apply] at h
  obtain ⟨list, locked, allocated, handlers, closing⟩ := r
  cases hlocked
  dsimp only at h ⊢
  split_ifs at h with hempty
  · cases h
    rw [hempty]
    exact .inr ⟨rfl, _, rfl⟩
  · cases hfind : findConnection connectionFD list with
    | some found =>
      obtain ⟨next, items⟩ := found
      rw [hfind] at h
      cases h
      exact .inl ⟨next, items, rfl, rfl⟩
    | none =>
      rw [hfind] at h
      cases h
      exact .inr ⟨rfl, _, rfl⟩

/-- What the invariant says of any handlers. -/
def Receiver.AllZero (r : Receiver) : Prop := ∃ live joined, r.Zeros live joined

lemma closeConnection_allZero {connectionFD a : ℤ} (hzero : r.AllZero)
    (h : closeConnection connectionFD r = .ok (a, r')) : r'.AllZero := by
  obtain ⟨live, joined, hzero⟩ := hzero
  rcases of_closeConnection h with ⟨next, items, hfind, rfl⟩ | ⟨-, locked, rfl⟩
  · exact (hzero.perm (findConnection_perm hfind) r.mutexLocked).tail rfl
  · exact ⟨live, joined, hzero.perm (List.Perm.refl _) locked⟩

/-- Closing the connection of each item, from the first on, closes all of them. -/
lemma closeConnections_allZero {items : List ConnectionListItem} {a : Unit} (hzero : r.AllZero)
    (hlist : r.list = items) (h : closeConnections items r = .ok (a, r')) :
    r'.AllZero ∧ r'.list = [] := by
  induction items generalizing r with
  | nil =>
    cases h
    exact ⟨hzero, hlist⟩
  | cons next items ih =>
    obtain ⟨_, r₁, hclose, h⟩ := of_bind_ok h
    refine ih (closeConnection_allZero hzero hclose) ?_ h
    have hfirst : findConnection next.connectionFD r.list = some (next, items) := by
      rw [hlist, findConnection, if_pos rfl]
    rcases of_closeConnection hclose with ⟨next', items', hfind, rfl⟩ | ⟨hfind, -⟩
    · rw [hfirst] at hfind
      cases hfind
      rfl
    · rw [hfirst] at hfind
      cases hfind

lemma Receiver.AllZero.destroy (hzero : r.AllZero) {a : Unit}
    (h : destroyConnectionList r = .ok (a, r')) : ∀ t ∈ r'.handlers, t.joins = 1 := by
  obtain ⟨⟨live, joined, hzero'⟩, hlist⟩ := closeConnections_allZero hzero rfl h
  intro t ht
  rw [hzero'.handlers, List.mem_append, Option.mem_toList] at ht
  rcases ht with ht | ht
  · obtain ⟨-, -, hparam⟩ := hzero'.of_live t ht
    rw [Receiver.ptrs, hlist] at hparam
    exact absurd hparam List.not_mem_nil
  · exact (hzero'.of_joined t ht).2.1

/-- The new item gets the return value of `pthread_create`. -/
lemma of_accept {connectionFD : ℤ} {create : PthreadCreate} {a : Unit}
    (hlt : ∀ p ∈ r.ptrs, p < r.allocated)
    (h : (do
      let connection ← addConnection connectionFD 0
      let thread ← pthreadCreate create connection
      setThread connection thread : ReceiverM Unit) r = .ok (a, r')) :
    r' = { r with
      list := r.list ++ [⟨r.allocated, connectionFD, create.retVal⟩]
      allocated := r.allocated + 1
      handlers := create.newHandlers r.allocated ++ r.handlers } := by
  obtain ⟨connection, r₁, hadd, h⟩ := of_bind_ok h
  obtain ⟨rfl, rfl⟩ := of_addConnection hadd
  obtain ⟨thread, r₂, hcreate, h⟩ := of_bind_ok h
  cases hcreate
  cases h
  have hold : r.list.map (fun item =>
      if item.ptr = r.allocated then { item with thread := create.retVal } else item) = r.list := by
    conv_rhs => rw [← List.map_id r.list]
    refine List.map_congr_left ?_
    intro item hitem
    exact if_neg (hlt item.ptr (List.mem_map_of_mem hitem)).ne
  simp only [List.map_append, hold, List.map_singleton, if_true]

/-- Inversion of a turn: it starts no handler and closes at most a connection, or adds an item. -/
lemma of_receiverStep {e : ReceiverEvent} {a : Unit} (hlt : ∀ p ∈ r.ptrs, p < r.allocated)
    (h : receiverStep e r = .ok (a, r')) :
    (e.started r = none ∧ (r' = r ∨ r' = { r with closing := true } ∨
      ∃ connectionFD b, closeConnection connectionFD r = .ok (b, r'))) ∨
    ∃ (connectionFD : ℤ) (create : PthreadCreate),
      (∀ newThread, create = .started newThread ↔ newThread ∈ e.started r) ∧
      r' = { r with
        list := r.list ++ [⟨r.allocated, connectionFD, create.retVal⟩]
        allocated := r.allocated + 1
        handlers := create.newHandlers r.allocated ++ r.handlers } := by
  unfold receiverStep at h
  rw [read_bind_apply, id] at h
  split_ifs at h with hclosing
  · cases h
    refine .inl ⟨?_, .inl rfl⟩
    rcases e with _ | _ | ⟨_, _ | _⟩
    · rfl
    · rfl
    · exact if_pos (.inl hclosing)
    · rfl
  cases e with
  | nothing =>
    cases h
    exact .inl ⟨rfl, .inl rfl⟩
  | message message =>
    dsimp only at h
    split_ifs at h with hmessage
    · cases h
      exact .inl ⟨rfl, .inr (.inl rfl)⟩
    · obtain ⟨b, r₁, hclose, h⟩ := of_bind_ok h
      cases h
      exact .inl ⟨rfl, .inr (.inr ⟨message, b, hclose⟩)⟩
  | accept connectionFD create =>
    dsimp only at h
    split_ifs at h with hfd
    · cases h
      refine .inl ⟨?_, .inl rfl⟩
      cases create with
      | started newThread => exact if_pos (.inr hfd)
      | failed error => rfl
    · refine .inr ⟨connectionFD, create, ?_, of_accept hlt h⟩
      intro newThread
      cases create with
      | started newThread' =>
        have hstarted : ReceiverEvent.started r (.accept connectionFD (.started newThread'))
            = some newThread' := if_neg (not_or.mpr ⟨hclosing, hfd⟩)
        rw [hstarted, Option.mem_some, PthreadCreate.started.injEq]
      | failed error => exact iff_of_false (by simp) (Option.not_mem_none _)

/-! ### Every run -/

/-- A turn that starts a handler with another id than 0 leaves an item that does not name it. -/
lemma Receiver.AllZero.step (hzero : r.AllZero) {e : ReceiverEvent} (hunique : e.Unique r)
    {a : Unit} (hstep : receiverStep e r = .ok (a, r')) :
    e.StartsZero r ∧ r'.AllZero ∨ ¬ e.StartsZero r ∧ ¬ r'.Tracked := by
  obtain ⟨live, joined, h⟩ := id hzero
  rcases of_receiverStep h.lt hstep with ⟨hnone, hr'⟩ | ⟨connectionFD, create, hcreate, rfl⟩
  · refine .inl ⟨?_, ?_⟩
    · intro newThread hmem
      rw [hnone] at hmem
      cases hmem
    · rcases hr' with rfl | rfl | ⟨connectionFD, b, hclose⟩
      · exact hzero
      · exact ⟨live, joined, { h with }⟩
      · exact closeConnection_allZero hzero hclose
  · by_cases hstarts : e.StartsZero r
    · obtain ⟨live', hadd⟩ := h.add connectionFD
        (fun newThread heq => hstarts newThread ((hcreate newThread).mp heq))
        (fun newThread heq => hunique newThread ((hcreate newThread).mp heq))
      exact .inl ⟨hstarts, live', joined, hadd⟩
    · refine .inr ⟨hstarts, ?_⟩
      intro htracked
      apply hstarts
      intro newThread hmem
      obtain rfl := (hcreate newThread).mpr hmem
      -- the item names what `pthread_create` returned
      have hitem := htracked ⟨r.allocated, connectionFD, 0⟩
        (List.mem_append_right _ List.mem_cons_self) ⟨newThread, r.allocated, 0⟩
        List.mem_cons_self rfl
      exact hitem.symm

/-- In every run: at the top of the loop every item always names the handler that was started for
it, and every handler is joined once when the list is destroyed then, exactly if no handler is
started whose id is not the 0 that `pthread_create` returns. -/
theorem handlers_tracked_iff (events : List ReceiverEvent)
    (hunique : Machine.Along receiverStep (fun r e _ _ => e.Unique r) events Receiver.start) :
    (∀ pre rets r, pre <+: events → Machine.run receiverStep pre Receiver.start = .ok (rets, r) →
      r.Tracked ∧ ∀ a r', destroyConnectionList r = .ok (a, r') → ∀ t ∈ r'.handlers, t.joins = 1) ↔
    Machine.Along receiverStep (fun r e _ _ => e.StartsZero r) events Receiver.start := by
  refine Machine.always_iff (G := Receiver.AllZero) (A := fun r e => e.Unique r)
    (B := fun r e => e.StartsZero r) ?_ ?_ events ⟨none, [], Receiver.Zeros.start⟩ hunique
  · intro r hzero
    obtain ⟨live, joined, h⟩ := id hzero
    exact ⟨h.tracked, fun a r' hdestroy => hzero.destroy hdestroy⟩
  · intro e r a r' hzero hunique hstep
    refine (hzero.step hunique hstep).imp_right ?_
    rintro ⟨hstarts, huntracked⟩
    exact ⟨hstarts, fun hlaw => huntracked hlaw.1⟩

/-- A connection for which no handler is started and one whose handler gets the id 0 are tracked. A
handler that gets the id 140 is not. -/
theorem handlers_tracked_iff_twoIds :
    (∀ pre rets r, pre <+: [.accept 5 (.failed ⟨11, by decide⟩), .accept 6 (.started 0)] →
      Machine.run receiverStep pre Receiver.start = .ok (rets, r) →
      r.Tracked ∧ ∀ a r', destroyConnectionList r = .ok (a, r') → ∀ t ∈ r'.handlers, t.joins = 1) ∧
    ¬ ∀ pre rets r, pre <+: [.accept 5 (.started 140)] →
      Machine.run receiverStep pre Receiver.start = .ok (rets, r) →
      r.Tracked ∧ ∀ a r', destroyConnectionList r = .ok (a, r') →
        ∀ t ∈ r'.handlers, t.joins = 1 := by
  constructor
  · exact (handlers_tracked_iff [.accept 5 (.failed ⟨11, by decide⟩), .accept 6 (.started 0)]
      (by decide +kernel)).mpr (by decide +kernel)
  · exact (handlers_tracked_iff [.accept 5 (.started 140)] (by decide +kernel)).not.mpr
      (by decide +kernel)

/-- The item of the handler that gets the id 140 names the thread 0, and the handler is never
joined. -/
theorem handler_not_tracked :
    ∃ r r', Machine.run receiverStep [.accept 5 (.started 140)] Receiver.start = .ok ([()], r) ∧
      r.list = [⟨0, 5, 0⟩] ∧ r.handlers = [⟨140, 0, 0⟩] ∧ ¬ r.Tracked ∧
      destroyConnectionList r = .ok ((), r') ∧ r'.handlers = [⟨140, 0, 0⟩] := by
  refine ⟨⟨[⟨0, 5, 0⟩], false, 1, [⟨140, 0, 0⟩], false⟩, ⟨[], false, 1, [⟨140, 0, 0⟩], false⟩,
    by decide, rfl, rfl, ?_, by decide, rfl⟩
  intro htracked
  have hitem := htracked ⟨0, 5, 0⟩ List.mem_cons_self ⟨140, 0, 0⟩ List.mem_cons_self rfl
  cases hitem

end Aesd
