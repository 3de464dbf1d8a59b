import Aesd.Driver.Device.Basic
import Aesd.Driver.Device.Invariant
import Aesd.Library.Threads

/-!
# The char device under several tasks

The file operations of `main.c` as programs of tasks that run at the same time. Every statement that
touches the device or memory is one access, and a task that wants a locked mutex waits. The stage
pointer is set in the same access as its allocation: nobody else knows the new buffer.

Next to the state of the driver there is a record of the lines that were flushed, of the writes that
were served, in the order in which their tasks held the entry mutex, and of the calls that returned.
-/

namespace Aesd.Concurrent

open Exec Threads

variable {T : Type} [DecidableEq T]

/-- A call of a file operation of the driver, with the arguments that the kernel passes on. -/
inductive DriverOp where
  | open
  | release
  | read (count : ℕ) (fPos : ℤ)
  | write (data : List Byte)
  | llseek (off whence : ℤ)
  | ioctl (cmd : UInt32) (arg : AesdSeekto)
  deriving DecidableEq, Repr

/-- A call, and what the kernel decides for it. -/
structure DriverCall where
  op : DriverOp
  outcomes : Outcomes

/-- What a call returns, and the bytes of a read. -/
structure Reply where
  retVal : ℤ
  data : List Byte
  deriving DecidableEq, Repr

/-- A write that had the entry mutex, with what the kernel decided for it. -/
structure ServedWrite (T : Type) where
  task : T
  data : List Byte
  outcomes : Outcomes
  retVal : ℤ

/-- A call that has returned, with the lines that had been flushed when it was made and when it
returned. -/
structure MadeCall (T : Type) where
  task : T
  call : DriverCall
  reply : Reply
  before : List (List Byte)
  after : List (List Byte)

/-- What all tasks share, and what the kernel decides for each of them. -/
structure Shared (T : Type) where
  dev : Device
  heap : Heap
  outcomes : T → Outcomes
  added : List (List Byte)
  served : List (ServedWrite T)
  made : List (MadeCall T)

namespace Shared

/-- The kernel as task `t` sees it. -/
def kernel (s : Shared T) (t : T) (held : List DevMutex) : Kernel :=
  ⟨s.dev, s.heap, held, s.outcomes t⟩

/-- Task `t` leaves the kernel behind. -/
def put (s : Shared T) (t : T) (k : Kernel) : Shared T :=
  { s with dev := k.dev, heap := k.heap, outcomes := Function.update s.outcomes t k.outcomes }

end Shared

abbrev TaskM (T : Type) := Prog Fault (Shared T) DevMutex

/-- A part of the driver that locks nothing, run by task `t` on the state that all share. -/
def onKernel {α : Type} (t : T) (m : KernelM α) : Exec Fault (Shared T) α := fun s =>
  match m (s.kernel t []) with
  | .ok (a, k) => .ok (a, s.put t k)
  | .error e => .error e

/-- One access of task `t`. -/
def access {α : Type} (t : T) (m : KernelM α) : TaskM T α := Prog.step (onKernel t m)

/-- Update the record. -/
def record (f : Shared T → Shared T) : TaskM T Unit := Prog.step (update f)

/-- Whether the next wait of the task is interrupted. -/
def takeInterrupted : KernelM Bool := fun k =>
  .ok (k.outcomes.interrupted.headD false,
    { k with outcomes.interrupted := k.outcomes.interrupted.tail })

/-- `mutex_lock_interruptible` -/
def mutexLockInterruptible (t : T) (m : DevMutex) : TaskM T Bool := do
  if ← access t takeInterrupted then pure true
  else
    Prog.acquire m
    pure false

/-! ### Write -/

/-- The `for` loop of `StorePartial`, an assignment at a time. -/
def storeBytes (t : T) (buf : List Byte) : ℕ → ℕ → TaskM T Unit
  | _, 0 => pure ()
  | i, n + 1 => do
    access t do
      let entry ← read fun k => k.dev.entry
      let c ← loadUser buf i
      storeByte entry.buffPtr (entry.endIdx + i) c
    storeBytes t buf (i + 1) n

/-- The stage pointer is tested, and set when there is none. -/
def allocateStage (cfg : KernelConfig) (t : T) : TaskM T Bool := do
  let entry ← access t (read fun k => k.dev.entry)
  if entry.buffPtr = none then
    access t do
      match ← kmalloc cfg.kmallocMaxSize with
      | none => pure false
      | some newBuff => do
        update fun k => { k with dev.entry.buffPtr := some newBuff }
        pure true
  else pure true

def fillStage (t : T) (buf : List Byte) (count : ℕ) : TaskM T ℤ := do
  let entry ← access t (read fun k => k.dev.entry)
  if addSize entry.endIdx count > entry.size then pure (-ENOMEM)
  else
    storeBytes t buf 0 count
    access t (update fun k => { k with dev.entry.endIdx := addSize k.dev.entry.endIdx count })
    pure 0

/-- `StorePartial` -/
def storePartial (cfg : KernelConfig) (t : T) (buf : List Byte) (count : ℕ) : TaskM T ℤ :=
  if count = 0 then pure 0
  else do
    if ← allocateStage cfg t then fillStage t buf count
    else pure (-ENOMEM)

/-- The part of `FlushPartial` that moves the stage to the ring. -/
def moveStage (t : T) (entry : EntryStage) : TaskM T Unit := do
  record fun s => { s with
    added := s.added ++ [s.heap.entryBytes ⟨entry.buffPtr, entry.endIdx⟩] }
  let freePtr ← access t (addEntry ⟨entry.buffPtr, entry.endIdx⟩)
  access t (kfree freePtr)
  access t (update fun k => { k with dev.entry.buffPtr := none })
  access t (update fun k => { k with dev.entry.endIdx := 0 })

/-- `FlushPartial`. Its early return for a missing partial keeps the buffer mutex. -/
def flushPartial (t : T) : TaskM T ℤ := do
  if ← mutexLockInterruptible t .buffMutex then pure (-ENOMEM)
  else
    let entry ← access t (read fun k => k.dev.entry)
    if entry.buffPtr = none then pure (-ENOMEM)
    else
      moveStage t entry
      Prog.release .buffMutex
      pure 0

/-- The `while` loop of `aesd_write`. -/
def writeLoop (cfg : KernelConfig) (t : T) (buf : List Byte) (count : ℕ) :
    ℕ → ℕ → ℕ → TaskM T (Option ℕ)
  | 0, _, _ => .fault .outOfFuel
  | fuel + 1, inputBaseIdx, inputIdx =>
    if inputBaseIdx + inputIdx < count then do
      let c ← access t (loadUser buf (inputBaseIdx + inputIdx))
      let inputIdx := inputIdx + 1
      if c = newline then
        let stored ← storePartial cfg t (buf.drop inputBaseIdx) inputIdx
        if stored ≠ 0 then pure none
        else
          let _ ← flushPartial t
          writeLoop cfg t buf count fuel (inputBaseIdx + inputIdx) 0
      else writeLoop cfg t buf count fuel inputBaseIdx inputIdx
    else pure (some inputBaseIdx)

/-- The part of `aesd_write` between the lock and the unlock of the entry mutex. -/
def writeLocked (cfg : KernelConfig) (t : T) (buf : List Byte) (count : ℕ) : TaskM T ℤ := do
  let entry ← access t (read fun k => k.dev.entry)
  if count > entry.size ∨ addSize entry.endIdx count > entry.size then pure (-ENOMEM)
  else
    match ← writeLoop cfg t buf count (count + 1) 0 0 with
    | none => pure (-ENOMEM)
    | some inputBaseIdx =>
      if inputBaseIdx < count then
        let _ ← storePartial cfg t (buf.drop inputBaseIdx) (subSize count inputBaseIdx)
        pure (toLoff count)
      else pure (toLoff count)

/-- `aesd_write`, for which the kernel decides `outcomes`. -/
def aesdWrite (cfg : KernelConfig) (t : T) (outcomes : Outcomes) (buf : List Byte) (count : ℕ) :
    TaskM T ℤ := do
  access t (update fun k => { k with dev.entry.size := cfg.kmallocMaxSize })
  if ← mutexLockInterruptible t .entryMutex then pure (-ERESTARTSYS)
  else
    let retval ← writeLocked cfg t buf count
    record fun s => { s with served := s.served ++ [⟨t, buf, outcomes, retval⟩] }
    Prog.release .entryMutex
    pure retval

/-! ### Read -/

/-- The part of `aesd_read` between the lock and the unlock of the buffer mutex. -/
def readLocked (t : T) (count : ℕ) (fPos : ℤ) : TaskM T ReadResult := do
  let dev ← access t (read Kernel.dev)
  match dev.buff.findEntryOffsetForFpos (actualPos dev fPos) 0 with
  | (none, _) => pure ⟨0, fPos, [], none⟩
  | (some entryPtr, entryOffset) => do
    let entrySize := subSize (dev.buff.entry entryPtr).size entryOffset
    let sizeToRead := if entrySize < count then entrySize else count
    let (notCopied, data) ←
      access t (copyToUser (dev.buff.entry entryPtr).buffptr entryOffset sizeToRead)
    let retVal := toLoff (subSize sizeToRead notCopied)
    pure ⟨retVal, toLoff (fPos + retVal), data, some (entryPtr, entryOffset, sizeToRead)⟩

/-- `aesd_read` -/
def aesdRead (t : T) (count : ℕ) (fPos : ℤ) : TaskM T ReadResult := do
  if ← mutexLockInterruptible t .buffMutex then pure ⟨-ERESTARTSYS, fPos, [], none⟩
  else
    let result ← readLocked t count fPos
    Prog.release .buffMutex
    pure result

/-! ### Seek -/

/-- The `switch` of `aesd_llseek`. `aesd_release` takes no lock, so it may set the position back
between the two accesses, and that is lost. -/
def movePosition (t : T) (off whence : ℤ) : TaskM T Unit := do
  if whence = SEEK_SET ∨ whence = SEEK_CUR ∨ whence = SEEK_END then
    let dev ← access t (read Kernel.dev)
    access t (update fun k => { k with dev.lseekPos := seekPos dev off whence })
  else pure ()

/-- `aesd_llseek` -/
def aesdLlseek (t : T) (off whence : ℤ) : TaskM T ℤ := do
  if ← mutexLockInterruptible t .buffMutex then pure (-ERESTARTSYS)
  else
    movePosition t off whence
    let retVal ← access t (read fun k => k.dev.lseekPos)
    Prog.release .buffMutex
    pure retVal

/-- The part of `aesd_ioctl` between the lock and the unlock of the buffer mutex. -/
def seekLocked (t : T) (st : AesdSeekto) : TaskM T ℤ := do
  let dev ← access t (read Kernel.dev)
  let basePos := dev.buff.findFposForVirtualEntryOffset st.writeCmd.toNat
  if basePos < 0 then pure (-EINVAL)
  else
    let entry := dev.buff.entry (dev.buff.findEntryAtPosition st.writeCmd.toNat)
    if entry.size < st.writeCmdOffset.toNat then pure (-EINVAL)
    else
      access t (update fun k =>
        { k with dev.lseekPos := (basePos + st.writeCmdOffset.toNat) % 2 ^ 32 })
      pure 0

/-- `aesd_ioctl` -/
def aesdIoctl (t : T) (cmd : UInt32) (arg : AesdSeekto) : TaskM T ℤ :=
  if iocType cmd ≠ aesdIocMagic ∨ iocNr cmd > aesdcharIocMaxnr then pure (-ENOTTY)
  else if cmd = aesdcharIocseekto then do
    match ← access t (copyFromUser arg) with
    | none => pure (-EFAULT)
    | some st =>
      if ← mutexLockInterruptible t .buffMutex then pure (-ERESTARTSYS)
      else
        let retVal ← seekLocked t st
        Prog.release .buffMutex
        pure retVal
  else pure (-ENOTTY)

/-- `aesd_release`. It takes no lock. -/
def aesdRelease (t : T) : TaskM T ℤ := do
  access t (update fun k => { k with dev.lseekPos := 0 })
  pure 0

/-! ### The programs of the tasks -/

def driverOp (cfg : KernelConfig) (t : T) (c : DriverCall) : TaskM T Reply :=
  match c.op with
  | .open => pure ⟨0, []⟩
  | .release => do
    let ret ← aesdRelease t
    pure ⟨ret, []⟩
  | .read count fPos => do
    let r ← aesdRead t count (toLoff fPos)
    pure ⟨r.retVal, r.data⟩
  | .write data => do
    let ret ← aesdWrite cfg t c.outcomes data data.length
    pure ⟨ret, []⟩
  | .llseek off whence => do
    let ret ← aesdLlseek t (toLoff off) whence
    pure ⟨ret, []⟩
  | .ioctl cmd arg => do
    let ret ← aesdIoctl t cmd arg
    pure ⟨ret, []⟩

/-- Task `t` makes a call. The record says what had been flushed at its start and at its end. -/
def makeCall (cfg : KernelConfig) (t : T) (c : DriverCall) : TaskM T Reply := do
  let before ← Prog.step (read Shared.added)
  access t (update fun k => { k with outcomes := c.outcomes })
  let r ← driverOp cfg t c
  record fun s => { s with made := s.made ++ [⟨t, c, r, before, s.added⟩] }
  pure r

/-- A task that makes one call after the other. -/
def task (cfg : KernelConfig) (t : T) : List DriverCall → TaskM T (List Reply)
  | [] => pure []
  | c :: cs => do
    let r ← makeCall cfg t c
    let rs ← task cfg t cs
    pure (r :: rs)

/-- The device after the module was loaded. -/
def Shared.init : Shared T :=
  ⟨Kernel.init.dev, Kernel.init.heap, fun _ => {}, [], [], []⟩

/-- The tasks before their first calls. -/
def start (cfg : KernelConfig) (calls : T → List DriverCall) :
    Config Fault (Shared T) DevMutex T (List Reply) :=
  .start .init fun t => task cfg t (calls t)

end Aesd.Concurrent
