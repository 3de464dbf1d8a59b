import Aesd.Driver.Device.Calls
import Aesd.Driver.Device.Writes
import Aesd.Library.Ghost

/-!
# The driver with a record

The functions of the driver that touch the buffers of its lines, which also record every allocation,
every release and every entry at the moment it is added to the ring, every byte that is stored,
every copy to the user, and what they find where they check. Without the record they are the
functions of the driver.
-/

namespace Aesd

open Exec

/-- What is done with the line buffers: an allocation, a release, and an entry that is added to the
ring; the check of `StorePartial` for enough room, a store into a buffer of some size, the check of
`FlushPartial` for a partial, and a copy from an entry, with the entries that are live then. -/
inductive Event where
  | allocated (p : Ptr)
  | freed (p : Ptr)
  | added (bytes : List Byte)
  | check (endIdx count size : ℕ)
  | store (blockSize : Option ℕ) (index : ℕ)
  | flush (buffPtr : Option Ptr)
  | copy (live : List BufferEntry) (entry : BufferEntry) (offset size : ℕ)
  deriving DecidableEq, Repr

/-- What was recorded so far, oldest first. -/
abbrev Record := List Event

abbrev RecordedM := Exec Fault (Kernel × Record)

/-- A call on the driver, on a file at any position. -/
structure DriverCall where
  op : FileOp
  fPos : ℤ
  outcomes : Outcomes

/-- The function of the driver that a call ends up in. -/
def driverOp (cfg : KernelConfig) (c : DriverCall) : KernelM ℤ :=
  match c.op with
  | .open => aesdOpen
  | .release => aesdRelease
  | .read count => do
    let r ← aesdRead count (toLoff c.fPos)
    pure r.retVal
  | .write data => aesdWrite cfg data data.length
  | .llseek off whence => aesdLlseek (toLoff off) whence
  | .ioctl cmd arg => aesdIoctl cmd arg

/-- A call with its outcomes. -/
def driverCall (cfg : KernelConfig) (c : DriverCall) : KernelM ℤ := do
  update fun k => k.given c.outcomes
  driverOp cfg c

namespace Recorded

def record (f : Kernel → Event) : RecordedM Unit := ghost fun k events => events ++ [f k]

def kmalloc (size : ℕ) : RecordedM (Option Ptr) := do
  match ← lift (Aesd.kmalloc size) with
  | none => pure none
  | some p => do
    record fun _ => .allocated p
    pure (some p)

def kfree : Option Ptr → RecordedM Unit
  | none => pure ()
  | some p => do
    lift (Aesd.kfree (some p))
    record fun _ => .freed p

def addEntry (newEntry : BufferEntry) : RecordedM (Option Ptr) := do
  record fun k => .added (k.heap.entryBytes newEntry)
  lift (Aesd.addEntry newEntry)

def allocateStage (cfg : KernelConfig) : RecordedM Bool := do
  let entry ← lift (read fun k => k.dev.entry)
  if entry.buffPtr = none then
    match ← kmalloc cfg.kmallocMaxSize with
    | none => pure false
    | some newBuff => do
      lift (update fun k => { k with dev.entry.buffPtr := some newBuff })
      pure true
  else pure true

def storeBytes (buf : List Byte) : ℕ → ℕ → RecordedM Unit
  | _, 0 => pure ()
  | i, n + 1 => do
    let entry ← lift (read fun k => k.dev.entry)
    let c ← lift (loadUser buf i)
    record fun k =>
      .store ((entry.buffPtr.bind k.heap.block).map Block.size) (entry.endIdx + i)
    lift (storeByte entry.buffPtr (entry.endIdx + i) c)
    storeBytes buf (i + 1) n

def fillStage (buf : List Byte) (count : ℕ) : RecordedM ℤ := do
  let entry ← lift (read fun k => k.dev.entry)
  record fun _ => .check entry.endIdx count entry.size
  if addSize entry.endIdx count > entry.size then pure (-ENOMEM)
  else
    storeBytes buf 0 count
    lift (update fun k => { k with dev.entry.endIdx := addSize k.dev.entry.endIdx count })
    pure 0

def storePartial (cfg : KernelConfig) (buf : List Byte) (count : ℕ) : RecordedM ℤ :=
  if count = 0 then pure 0
  else do
    if ← allocateStage cfg then fillStage buf count
    else pure (-ENOMEM)

def flushPartial : RecordedM ℤ := do
  if ← lift (mutexLockInterruptible .buffMutex) then pure (-ENOMEM)
  else
    let entry ← lift (read fun k => k.dev.entry)
    record fun _ => .flush entry.buffPtr
    if entry.buffPtr = none then pure (-ENOMEM)
    else
      let freePtr ← addEntry ⟨entry.buffPtr, entry.endIdx⟩
      kfree freePtr
      lift (update fun k => { k with dev.entry.buffPtr := none, dev.entry.endIdx := 0 })
      lift (mutexUnlock .buffMutex)
      pure 0

def writeLoop (cfg : KernelConfig) (buf : List Byte) (count : ℕ) :
    ℕ → ℕ → ℕ → RecordedM (Option ℕ)
  | 0, _, _ => fault .outOfFuel
  | fuel + 1, inputBaseIdx, inputIdx =>
    if inputBaseIdx + inputIdx < count then do
      let c ← lift (loadUser buf (inputBaseIdx + inputIdx))
      let inputIdx := inputIdx + 1
      if c = newline then
        let stored ← storePartial cfg (buf.drop inputBaseIdx) inputIdx
        if stored ≠ 0 then pure none
        else
          let _ ← flushPartial
          writeLoop cfg buf count fuel (inputBaseIdx + inputIdx) 0
      else writeLoop cfg buf count fuel inputBaseIdx inputIdx
    else pure (some inputBaseIdx)

def writeLocked (cfg : KernelConfig) (buf : List Byte) (count : ℕ) : RecordedM ℤ := do
  let entry ← lift (read fun k => k.dev.entry)
  if count > entry.size ∨ addSize entry.endIdx count > entry.size then pure (-ENOMEM)
  else
    match ← writeLoop cfg buf count (count + 1) 0 0 with
    | none => pure (-ENOMEM)
    | some inputBaseIdx =>
      if inputBaseIdx < count then
        let _ ← storePartial cfg (buf.drop inputBaseIdx) (subSize count inputBaseIdx)
        pure (toLoff count)
      else pure (toLoff count)

def aesdWrite (cfg : KernelConfig) (buf : List Byte) (count : ℕ) : RecordedM ℤ := do
  lift (update fun k => { k with dev.entry.size := cfg.kmallocMaxSize })
  if ← lift (mutexLockInterruptible .entryMutex) then pure (-ERESTARTSYS)
  else
    let retval ← writeLocked cfg buf count
    lift (mutexUnlock .entryMutex)
    pure retval

def userWrite (cfg : KernelConfig) (data : List Byte) : RecordedM ℤ :=
  aesdWrite cfg data data.length

def readLocked (count : ℕ) (fPos : ℤ) : RecordedM ReadResult := do
  let dev ← lift (read Kernel.dev)
  match dev.buff.findEntryOffsetForFpos (actualPos dev fPos) 0 with
  | (none, _) => pure ⟨0, fPos, [], none⟩
  | (some entryPtr, entryOffset) => do
    let entrySize := subSize (dev.buff.entry entryPtr).size entryOffset
    let sizeToRead := if entrySize < count then entrySize else count
    record fun k => .copy k.dev.buff.live (dev.buff.entry entryPtr) entryOffset sizeToRead
    let (notCopied, data) ←
      lift (copyToUser (dev.buff.entry entryPtr).buffptr entryOffset sizeToRead)
    let retVal := toLoff (subSize sizeToRead notCopied)
    pure ⟨retVal, toLoff (fPos + retVal), data, some (entryPtr, entryOffset, sizeToRead)⟩

def aesdRead (count : ℕ) (fPos : ℤ) : RecordedM ReadResult := do
  if ← lift (mutexLockInterruptible .buffMutex) then pure ⟨-ERESTARTSYS, fPos, [], none⟩
  else
    let result ← readLocked count fPos
    lift (mutexUnlock .buffMutex)
    pure result

def driverOp (cfg : KernelConfig) (c : DriverCall) : RecordedM ℤ :=
  match c.op with
  | .open => lift aesdOpen
  | .release => lift aesdRelease
  | .read count => do
    let r ← aesdRead count (toLoff c.fPos)
    pure r.retVal
  | .write data => aesdWrite cfg data data.length
  | .llseek off whence => lift (aesdLlseek (toLoff off) whence)
  | .ioctl cmd arg => lift (aesdIoctl cmd arg)

def driverCall (cfg : KernelConfig) (c : DriverCall) : RecordedM ℤ := do
  lift (update fun k => k.given c.outcomes)
  driverOp cfg c

def freeEntries : List (Fin maxWriteOperations) → RecordedM Unit
  | [] => pure ()
  | i :: is => do
    let e ← lift (read fun k => k.dev.buff.entry i)
    kfree e.buffptr
    freeEntries is

def aesdCleanupModule : RecordedM Unit := do
  freeEntries (List.finRange maxWriteOperations)
  let entry ← lift (read fun k => k.dev.entry)
  kfree entry.buffPtr

/-! ### Erasing the record -/

variable {cfg : KernelConfig} {buf : List Byte}

lemma erases_kmalloc (size : ℕ) : Erases (kmalloc size) (Aesd.kmalloc size) := by
  rw [← bind_pure_eq (Aesd.kmalloc size)]
  refine (Erases.lift _).bind ?_
  intro p
  cases p with
  | none => exact .pure none
  | some p => exact .ghost_bind _ (.pure (some p))

lemma erases_kfree (p : Option Ptr) : Erases (kfree p) (Aesd.kfree p) := by
  cases p with
  | none => exact .pure ()
  | some p =>
    rw [← bind_pure_eq (Aesd.kfree (some p))]
    exact (Erases.lift _).bind fun _ => .ghost _

lemma erases_addEntry (e : BufferEntry) : Erases (addEntry e) (Aesd.addEntry e) :=
  .ghost_bind _ (.lift _)

lemma erases_allocateStage : Erases (allocateStage cfg) (Aesd.allocateStage cfg) := by
  refine (Erases.lift _).bind ?_
  intro entry
  refine .ite ?_ (.pure true)
  refine (erases_kmalloc _).bind ?_
  intro newBuff
  cases newBuff with
  | none => exact .pure false
  | some p => exact (Erases.lift _).bind fun _ => .pure true

lemma erases_storeBytes (i n : ℕ) : Erases (storeBytes buf i n) (Aesd.storeBytes buf i n) := by
  induction n generalizing i with
  | zero => exact .pure ()
  | succ n ih =>
    refine (Erases.lift _).bind fun entry => ?_
    refine (Erases.lift _).bind fun c => ?_
    exact .ghost_bind _ ((Erases.lift _).bind fun _ => ih (i + 1))

lemma erases_fillStage (count : ℕ) : Erases (fillStage buf count) (Aesd.fillStage buf count) := by
  refine (Erases.lift _).bind fun entry => .ghost_bind _ (.ite (.pure _) ?_)
  exact (erases_storeBytes 0 count).bind fun _ => (Erases.lift _).bind fun _ => .pure 0

lemma erases_storePartial (count : ℕ) :
    Erases (storePartial cfg buf count) (Aesd.storePartial cfg buf count) := by
  refine .ite (.pure 0) ?_
  refine erases_allocateStage.bind ?_
  intro ok
  exact .ite (erases_fillStage count) (.pure _)

lemma erases_flushPartial : Erases flushPartial Aesd.flushPartial := by
  refine (Erases.lift _).bind ?_
  intro interrupted
  refine .ite (.pure _) ?_
  refine (Erases.lift _).bind ?_
  intro entry
  refine .ghost_bind _ (.ite (.pure _) ?_)
  refine (erases_addEntry _).bind ?_
  intro freePtr
  exact (erases_kfree freePtr).bind fun _ => (Erases.lift _).bind fun _ =>
    (Erases.lift _).bind fun _ => .pure 0

lemma erases_writeLoop (count fuel base idx : ℕ) :
    Erases (writeLoop cfg buf count fuel base idx)
      (Aesd.writeLoop cfg buf count fuel base idx) := by
  induction fuel generalizing base idx with
  | zero => exact .fault _
  | succ fuel ih =>
    refine .ite ?_ (.pure _)
    refine (Erases.lift _).bind ?_
    intro c
    refine .ite ?_ (ih _ _)
    refine (erases_storePartial _).bind ?_
    intro stored
    refine .ite (.pure none) ?_
    exact erases_flushPartial.bind fun _ => ih _ _

lemma erases_writeLocked (count : ℕ) :
    Erases (writeLocked cfg buf count) (Aesd.writeLocked cfg buf count) := by
  refine (Erases.lift _).bind ?_
  intro entry
  refine .ite (.pure _) ?_
  refine (erases_writeLoop _ _ _ _).bind ?_
  intro r
  cases r with
  | none => exact .pure _
  | some base => exact .ite ((erases_storePartial _).bind fun _ => .pure _) (.pure _)

lemma erases_aesdWrite (count : ℕ) :
    Erases (aesdWrite cfg buf count) (Aesd.aesdWrite cfg buf count) := by
  refine (Erases.lift _).bind ?_
  intro _
  refine (Erases.lift _).bind ?_
  intro interrupted
  refine .ite (.pure _) ?_
  refine (erases_writeLocked _).bind ?_
  intro retval
  exact (Erases.lift _).bind fun _ => .pure retval

/-- Without its record, a recorded write is a write. -/
theorem erases_userWrite (data : List Byte) :
    Erases (userWrite cfg data) (Aesd.userWrite cfg data) := erases_aesdWrite _

lemma erases_readLocked (count : ℕ) (fPos : ℤ) :
    Erases (readLocked count fPos) (Aesd.readLocked count fPos) := by
  refine (Erases.lift _).bind fun dev => ?_
  cases dev.buff.findEntryOffsetForFpos (actualPos dev fPos) 0 with
  | mk entryPtr entryOffset =>
    cases entryPtr with
    | none => exact .pure _
    | some entryPtr => exact .ghost_bind _ ((Erases.lift _).bind fun copied => .pure _)

lemma erases_aesdRead (count : ℕ) (fPos : ℤ) :
    Erases (aesdRead count fPos) (Aesd.aesdRead count fPos) := by
  refine (Erases.lift _).bind fun interrupted => .ite (.pure _) ?_
  exact (erases_readLocked count fPos).bind fun result =>
    (Erases.lift _).bind fun _ => .pure result

/-- Without its record, a recorded call is a call on the driver. -/
theorem erases_driverCall (c : DriverCall) :
    Erases (driverCall cfg c) (Aesd.driverCall cfg c) := by
  refine (Erases.lift _).bind fun _ => ?_
  rw [driverOp, Aesd.driverOp]
  cases c.op with
  | read count => exact (erases_aesdRead count _).bind fun r => .pure r.retVal
  | write data => exact erases_aesdWrite _
  | _ => exact .lift _

lemma erases_freeEntries (is : List (Fin maxWriteOperations)) :
    Erases (freeEntries is) (Aesd.freeEntries is) := by
  induction is with
  | nil => exact .pure ()
  | cons i is ih => exact (Erases.lift _).bind fun e => (erases_kfree e.buffptr).bind fun _ => ih

theorem erases_aesdCleanupModule : Erases aesdCleanupModule Aesd.aesdCleanupModule :=
  (erases_freeEntries _).bind fun _ => (Erases.lift _).bind fun entry => erases_kfree entry.buffPtr

/-! ### Invariants of the record -/

variable {I : Kernel × Record → Prop}

lemma keeps_kmalloc {size : ℕ} (halloc : Keeps I (lift (Aesd.kmalloc size)))
    (hrecord : ∀ p, Keeps I (record fun _ => .allocated p)) : Keeps I (kmalloc size) := by
  refine halloc.bind ?_
  intro p
  cases p with
  | none => exact .pure none
  | some p => exact (hrecord p).bind fun _ => .pure (some p)

lemma keeps_kfree (hfree : ∀ p, Keeps I (lift (Aesd.kfree p)))
    (hrecord : ∀ p, Keeps I (record fun _ => .freed p)) (p : Option Ptr) : Keeps I (kfree p) := by
  cases p with
  | none => exact .pure ()
  | some p => exact (hfree (some p)).bind fun _ => hrecord p

/-- What the steps of `StorePartial` keep, it keeps. -/
lemma keeps_fillStage {count : ℕ}
    (hcheck : ∀ endIdx count size, Keeps I (record fun _ => .check endIdx count size))
    (hstore : ∀ (buffPtr : Option Ptr) (index : ℕ),
      Keeps I (record fun k => .store ((buffPtr.bind k.heap.block).map Block.size) index))
    (hbyte : ∀ buffPtr index c, Keeps I (lift (storeByte buffPtr index c)))
    (hidx : Keeps I (lift (update fun k =>
      { k with dev.entry.endIdx := addSize k.dev.entry.endIdx count }) : RecordedM Unit)) :
    Keeps I (fillStage buf count) := by
  have hload : ∀ i, Keeps I (lift (loadUser buf i)) := by
    intro i
    refine .lift fun _ => ?_
    rw [loadUser]
    split
    · exact .pure _
    · exact .fault _
  have hbytes : ∀ i n, Keeps I (storeBytes buf i n) := by
    intro i n
    induction n generalizing i with
    | zero => exact .pure ()
    | succ n ih =>
      refine (Keeps.lift fun _ => .read _).bind fun entry => (hload i).bind fun c => ?_
      exact (hstore _ _).bind fun _ => (hbyte _ _ _).bind fun _ => ih (i + 1)
  refine (Keeps.lift fun _ => .read _).bind fun entry => (hcheck _ _ _).bind fun _ => ?_
  exact .ite (.pure _) ((hbytes 0 count).bind fun _ => hidx.bind fun _ => .pure 0)

lemma keeps_allocateStage (hkmalloc : Keeps I (kmalloc cfg.kmallocMaxSize))
    (hset : ∀ p, Keeps I (lift (update fun k => { k with dev.entry.buffPtr := some p }) :
      RecordedM Unit)) :
    Keeps I (allocateStage cfg) := by
  refine (Keeps.lift fun _ => .read _).bind fun entry => .ite ?_ (.pure true)
  refine hkmalloc.bind ?_
  intro newBuff
  cases newBuff with
  | none => exact .pure false
  | some p => exact (hset p).bind fun _ => .pure true

lemma keeps_storePartial {count : ℕ} (hstage : Keeps I (allocateStage cfg))
    (hfill : Keeps I (fillStage buf count)) : Keeps I (storePartial cfg buf count) := by
  refine .ite (.pure 0) (hstage.bind ?_)
  intro ok
  exact .ite hfill (.pure _)

end Recorded

end Aesd
