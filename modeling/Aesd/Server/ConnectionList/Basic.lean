import Aesd.Library.Chain
import Aesd.Library.Exec

/-!
# The list of connections

`connectionlist.c`, pointer by pointer. What is done with the mutex of the list is a parameter of
the functions: what they do to the items, and how they leave the mutex, are two questions.
-/

namespace Aesd

open Exec

/-- `pthread_t` -/
abbrev ThreadId := ℕ

/-- An item of the list, by the number of its allocation. -/
abbrev ItemPtr := ℕ

/-- `struct Connection` -/
structure ConnectionList.Connection where
  connectionFD : ℤ
  thread : ThreadId
  deriving DecidableEq, Repr

inductive MutexState where
  | released
  | locked
  | destroyed
  deriving DecidableEq, Repr

/-- `struct ConnectionList` -/
structure ConnectionList where
  mutex : MutexState
  head : Option ItemPtr
  deriving DecidableEq, Repr

/-- What the functions of the list must not do: use an item after it was freed, wait for a mutex
that they have locked themselves, use a destroyed mutex, or destroy a locked one. -/
inductive ListFault where
  | useAfterFree
  | doubleFree
  | blocked
  | notLocked
  | destroyedMutex
  | lockedMutex
  | outOfFuel
  deriving DecidableEq, Repr

/-- The list, all items, the number of allocations, and what was joined and freed so far. An item is
`struct ConnectionListItem`. -/
structure ListMemory where
  list : ConnectionList
  items : ItemPtr → Option (Chain.Node ItemPtr ConnectionList.Connection)
  allocated : ℕ
  joined : List ThreadId
  freed : List ItemPtr

abbrev ListM := Exec ListFault ListMemory

/-- The calls on `m_mutex`. -/
structure MutexCalls where
  lock : ListM Unit
  unlock : ListM Unit
  destroy : ListM Unit

namespace ConnectionList

/-! ### The mutex -/

def setMutex (s : MutexState) : ListM Unit := update fun m => { m with list.mutex := s }

/-- A mutex that is neither recursive nor robust. Only one thread uses it. -/
def pthreadMutex : MutexCalls where
  lock := do
    match ← read fun m => m.list.mutex with
    | .released => setMutex .locked
    | .locked => fault .blocked
    | .destroyed => fault .destroyedMutex
  unlock := do
    match ← read fun m => m.list.mutex with
    | .released => fault .notLocked
    | .locked => setMutex .released
    | .destroyed => fault .destroyedMutex
  destroy := do
    match ← read fun m => m.list.mutex with
    | .released => setMutex .destroyed
    | .locked => fault .lockedMutex
    | .destroyed => fault .destroyedMutex

/-- The functions without their mutex. -/
def noMutex : MutexCalls := ⟨pure (), pure (), pure ()⟩

/-! ### Items -/

/-- The item behind a pointer. -/
def item (p : ItemPtr) : ListM (Chain.Node ItemPtr ConnectionList.Connection) := fun m =>
  match m.items p with
  | some x => .ok (x, m)
  | none => .error .useAfterFree

/-- `malloc`, which succeeds, and the assignments to the fields of the new item. -/
def newItem (connection : ConnectionList.Connection) : ListM ItemPtr := do
  let p ← read fun m => m.allocated
  update fun m => { m with
    items := Function.update m.items p (some ⟨connection, none⟩)
    allocated := m.allocated + 1 }
  pure p

/-- `p->m_nextConnectionPtr = next` -/
def setNext (p : ItemPtr) (next : Option ItemPtr) : ListM Unit := do
  let x ← item p
  update fun m => { m with items := Function.update m.items p (some { x with next }) }

/-- `pthread_join`, which returns. -/
def joinThread (thread : ThreadId) : ListM Unit :=
  update fun m => { m with joined := m.joined ++ [thread] }

/-- `free` -/
def freeItem (p : ItemPtr) : ListM Unit := do
  match ← read fun m => m.items p with
  | some _ => update fun m => { m with
      items := Function.update m.items p none
      freed := m.freed ++ [p] }
  | none => fault .doubleFree

/-! ### The functions -/

/-- The loop of `FindConnection_nolock`: the first item for a descriptor, and the one before it. -/
def findLoop (connectionFD : ℤ) :
    ℕ → Option ItemPtr → Option ItemPtr → ListM (Option (ItemPtr × Option ItemPtr))
  | 0, _, _ => fault .outOfFuel
  | _ + 1, none, _ => pure none
  | fuel + 1, some next, prev => do
    let x ← item next
    if x.value.connectionFD = connectionFD then pure (some (next, prev))
    else findLoop connectionFD fuel x.next (some next)

/-- `FindConnection_nolock` -/
def findConnectionNolock (connectionFD : ℤ) : ListM (Option (ItemPtr × Option ItemPtr)) := do
  let m ← read id
  findLoop connectionFD (m.allocated + 1) m.list.head none

/-- The loop of `FindEnd_nolock`. -/
def endLoop : ℕ → ItemPtr → ListM ItemPtr
  | 0, _ => fault .outOfFuel
  | fuel + 1, next => do
    let x ← item next
    match x.next with
    | none => pure next
    | some p => endLoop fuel p

/-- `FindEnd_nolock` -/
def findEndNolock : ListM (Option ItemPtr) := do
  let m ← read id
  match m.list.head with
  | none => pure none
  | some next => do
    let p ← endLoop (m.allocated + 1) next
    pure (some p)

/-- The part of `AddConnection` that hangs the new item behind the last one. -/
def linkItem (newItemPtr : ItemPtr) : Option ItemPtr → ListM Unit
  | none => update fun m => { m with list.head := some newItemPtr }
  | some p => setNext p (some newItemPtr)

/-- `AddConnection` -/
def addConnection (mutex : MutexCalls) (connectionFD : ℤ) (thread : ThreadId) : ListM ItemPtr := do
  mutex.lock
  let newItemPtr ← newItem ⟨connectionFD, thread⟩
  let p ← findEndNolock
  linkItem newItemPtr p
  mutex.unlock
  pure newItemPtr

/-- The part of `CloseConnection` that takes an item out of the list. -/
def unlinkItem (next : ItemPtr) : Option ItemPtr → ListM Unit
  | none => do
    let x ← item next
    update fun m => { m with list.head := x.next }
  | some prev => do
    let x ← item next
    setNext prev x.next

/-- What `CloseConnection` does with the item that it finds. -/
def closeFound : Option (ItemPtr × Option ItemPtr) → ListM ℤ
  | some (next, prev) => do
    unlinkItem next prev
    let x ← item next
    joinThread x.value.thread
    freeItem next
    pure 0
  | none => pure (-1)

/-- `CloseConnection`. If the list is empty it returns without unlocking the mutex. -/
def closeConnection (mutex : MutexCalls) (connectionFD : ℤ) : ListM ℤ := do
  mutex.lock
  let head ← read fun m => m.list.head
  if head = none then pure 1
  else do
    let found ← findConnectionNolock connectionFD
    let status ← closeFound found
    mutex.unlock
    pure status

/-- The loop of `DestroyConnectionList`. -/
def destroyLoop (mutex : MutexCalls) : ℕ → Option ItemPtr → ListM Unit
  | 0, _ => fault .outOfFuel
  | _ + 1, none => pure ()
  | fuel + 1, some tofree => do
    let x ← item tofree
    let _ ← closeConnection mutex x.value.connectionFD
    destroyLoop mutex fuel x.next

/-- `DestroyConnectionList` -/
def destroyConnectionList (mutex : MutexCalls) : ListM Unit := do
  let m ← read id
  destroyLoop mutex (m.allocated + 1) m.list.head
  mutex.destroy

end ConnectionList

/-! ### Calls -/

inductive ListCall where
  | add (connectionFD : ℤ) (thread : ThreadId)
  | close (connectionFD : ℤ)
  | destroy
  deriving DecidableEq, Repr

inductive ListReturn where
  | connection (p : ItemPtr)
  | status (n : ℤ)
  | nothing
  deriving DecidableEq, Repr

def listStep (mutex : MutexCalls) : ListCall → ListM ListReturn
  | .add connectionFD thread => do
    let p ← ConnectionList.addConnection mutex connectionFD thread
    pure (.connection p)
  | .close connectionFD => do
    let status ← ConnectionList.closeConnection mutex connectionFD
    pure (.status status)
  | .destroy => do
    ConnectionList.destroyConnectionList mutex
    pure .nothing

/-- The list after `InitConnectionList`. -/
def ListMemory.init : ListMemory := ⟨⟨.released, none⟩, fun _ => none, 0, [], []⟩

end Aesd
