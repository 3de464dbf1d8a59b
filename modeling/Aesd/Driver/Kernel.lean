import Aesd.Driver.CircularBuffer.Basic
import Aesd.Library.Exec

/-!
# The kernel around the driver

The state that the driver works on, and the kernel calls it makes: allocation, the two mutexes, and
copies between kernel and user space. What the kernel decides -- a signal during a wait for a lock,
an allocation that fails, a user page that faults, the old contents of fresh memory -- is read from
`Outcomes`, one element for each call.
-/

namespace Aesd

open Exec

/-- The kernel constant `KMALLOC_MAX_SIZE`. Ten such buffers are far from filling the address
space. -/
structure KernelConfig where
  kmallocMaxSize : ℕ
  pos : 0 < kmallocMaxSize
  fits : 10 * kmallocMaxSize < 2 ^ 63

/-- The largest allocation on most machines: 4 MiB. -/
def KernelConfig.usual : KernelConfig := ⟨2 ^ 22, by decide, by decide⟩

/-- A live allocation of `size` bytes. -/
structure Block where
  size : ℕ
  bytes : ℕ → Byte

/-- Every allocation ever made, by number; `none` once it is freed. -/
abbrev Heap := List (Option Block)

/-- What the kernel decides, call by call. An exhausted list means success. -/
structure Outcomes where
  interrupted : List Bool := []
  allocFails : List Bool := []
  notCopied : List ℕ := []
  copyFails : List Bool := []
  garbage : Ptr → ℕ → Byte := fun _ _ => 0

inductive DevMutex where
  | entryMutex
  | buffMutex
  deriving DecidableEq, Repr

/-- `struct aesd_entry_stage` -/
structure EntryStage where
  buffPtr : Option Ptr
  size : ℕ
  endIdx : ℕ
  deriving DecidableEq, Repr

/-- `struct aesd_dev`, less its `cdev` and its mutexes. -/
structure Device where
  entry : EntryStage
  buff : CircularBuffer
  lseekPos : ℤ

structure Kernel where
  dev : Device
  heap : Heap
  held : List DevMutex
  outcomes : Outcomes

abbrev KernelM := Exec Fault Kernel

/-- The allocation behind a pointer, while it is live. -/
def Heap.block (heap : Heap) (p : Ptr) : Option Block := heap[p]?.join

/-! ### Kernel calls -/

/-- `mutex_lock_interruptible`: true if the wait was interrupted. A task that waits for a mutex it
holds would wait forever. -/
def mutexLockInterruptible (m : DevMutex) : KernelM Bool := fun k =>
  let interrupted := k.outcomes.interrupted.headD false
  let k := { k with outcomes.interrupted := k.outcomes.interrupted.tail }
  if interrupted then .ok (true, k)
  else if m ∈ k.held then .error .selfDeadlock
  else .ok (false, { k with held := m :: k.held })

/-- `mutex_unlock` -/
def mutexUnlock (m : DevMutex) : KernelM Unit := fun k =>
  if m ∈ k.held then .ok ((), { k with held := k.held.erase m })
  else .error .notLocked

lemma mutexLockInterruptible_of_interrupted {k : Kernel} (m : DevMutex)
    (hi : k.outcomes.interrupted.headD false = true) :
    mutexLockInterruptible m k
      = .ok (true, { k with outcomes.interrupted := k.outcomes.interrupted.tail }) := by
  simp only [mutexLockInterruptible, hi, if_true]

lemma mutexLockInterruptible_of_free {k : Kernel} {m : DevMutex}
    (hi : k.outcomes.interrupted.headD false = false) (hm : m ∉ k.held) :
    mutexLockInterruptible m k
      = .ok (false, { k with
          outcomes.interrupted := k.outcomes.interrupted.tail
          held := m :: k.held }) := by
  simp only [mutexLockInterruptible, hi, hm, Bool.false_eq_true, if_false]

/-- Unlocking the mutex that was locked last. -/
lemma mutexUnlock_of_held {k : Kernel} {m : DevMutex} (held : List DevMutex)
    (hm : k.held = m :: held) : mutexUnlock m k = .ok ((), { k with held := held }) := by
  simp [mutexUnlock, hm]

/-- `kmalloc` -/
def kmalloc (size : ℕ) : KernelM (Option Ptr) := fun k =>
  let fails := k.outcomes.allocFails.headD false
  let k := { k with outcomes.allocFails := k.outcomes.allocFails.tail }
  if fails then .ok (none, k)
  else
    let p := k.heap.length
    .ok (some p, { k with heap := k.heap ++ [some ⟨size, k.outcomes.garbage p⟩] })

/-- `kfree` -/
def kfree : Option Ptr → KernelM Unit
  | none => pure ()
  | some p => fun k =>
    match k.heap.block p with
    | some _ => .ok ((), { k with heap := k.heap.set p none })
    | none => .error .doubleFree

/-- The assignment `ptr[i] = c`. -/
def storeByte (ptr : Option Ptr) (i : ℕ) (c : Byte) : KernelM Unit := fun k =>
  match ptr with
  | none => .error .nullDereference
  | some p =>
    match k.heap.block p with
    | none => .error .useAfterFree
    | some block =>
      if i < block.size then
        .ok ((), { k with
          heap := k.heap.set p (some { block with bytes := Function.update block.bytes i c }) })
      else .error .outOfBounds

/-- The value `buf[i]` of a user buffer. -/
def loadUser (buf : List Byte) (i : ℕ) : KernelM Byte :=
  match buf[i]? with
  | some c => pure c
  | none => fault .userFault

/-- `copy_to_user(buf, ptr + offset, n)`: the number of bytes not copied, and the bytes copied. -/
def copyToUser (ptr : Option Ptr) (offset n : ℕ) : KernelM (ℕ × List Byte) := fun k =>
  let notCopied := min (k.outcomes.notCopied.headD 0) n
  let k := { k with outcomes.notCopied := k.outcomes.notCopied.tail }
  match ptr with
  | none => .error .nullDereference
  | some p =>
    match k.heap.block p with
    | none => .error .useAfterFree
    | some block =>
      if offset + n ≤ block.size then
        .ok ((notCopied, (List.range (n - notCopied)).map fun i => block.bytes (offset + i)), k)
      else .error .outOfBounds

/-- `copy_from_user`: the value at a user address, unless the copy fails. -/
def copyFromUser {α : Type} (value : α) : KernelM (Option α) := fun k =>
  let fails := k.outcomes.copyFails.headD false
  .ok (if fails then none else some value,
    { k with outcomes.copyFails := k.outcomes.copyFails.tail })

lemma copyFromUser_of_fails {α : Type} {k : Kernel} (value : α)
    (hf : k.outcomes.copyFails.headD false = true) :
    copyFromUser value k
      = .ok (none, { k with outcomes.copyFails := k.outcomes.copyFails.tail }) := by
  simp only [copyFromUser, hf, if_true]

lemma copyFromUser_of_succeeds {α : Type} {k : Kernel} (value : α)
    (hf : k.outcomes.copyFails.headD false = false) :
    copyFromUser value k
      = .ok (some value, { k with outcomes.copyFails := k.outcomes.copyFails.tail }) := by
  simp only [copyFromUser, hf, Bool.false_eq_true, if_false]

end Aesd
