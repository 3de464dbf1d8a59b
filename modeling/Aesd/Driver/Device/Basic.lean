import Aesd.Driver.Kernel

/-!
# The char device

The file operations of `main.c`. A call that takes the position of the file by reference returns the
new position.
-/

namespace Aesd

open Exec

/-! ### Write -/

/-- The `for` loop of `StorePartial`, from index `i` on, for `n` more bytes. -/
def storeBytes (buf : List Byte) : ℕ → ℕ → KernelM Unit
  | _, 0 => pure ()
  | i, n + 1 => do
    let entry ← read fun k => k.dev.entry
    let c ← loadUser buf i
    storeByte entry.buffPtr (entry.endIdx + i) c
    storeBytes buf (i + 1) n

/-- The part of `StorePartial` that allocates the stage: false if there is no memory. -/
def allocateStage (cfg : KernelConfig) : KernelM Bool := do
  let entry ← read fun k => k.dev.entry
  if entry.buffPtr = none then
    match ← kmalloc cfg.kmallocMaxSize with
    | none => pure false
    | some newBuff => do
      update fun k => { k with dev.entry.buffPtr := some newBuff }
      pure true
  else pure true

/-- The part of `StorePartial` that fills the stage, unless the whole thing would be too large. -/
def fillStage (buf : List Byte) (count : ℕ) : KernelM ℤ := do
  let entry ← read fun k => k.dev.entry
  if addSize entry.endIdx count > entry.size then pure (-ENOMEM)
  else
    storeBytes buf 0 count
    update fun k => { k with dev.entry.endIdx := addSize k.dev.entry.endIdx count }
    pure 0

/-- `StorePartial` -/
def storePartial (cfg : KernelConfig) (buf : List Byte) (count : ℕ) : KernelM ℤ :=
  if count = 0 then pure 0
  else do
    if ← allocateStage cfg then fillStage buf count
    else pure (-ENOMEM)

/-- `aesd_circular_buffer_add_entry` on the buffer of the device. -/
def addEntry (newEntry : BufferEntry) : KernelM (Option Ptr) := fun k =>
  match CircularBuffer.addEntry newEntry k.dev.buff with
  | .ok (freePtr, buff) => .ok (freePtr, { k with dev.buff := buff })
  | .error e => .error e

/-- `FlushPartial`. Its early return for a missing partial keeps the buffer mutex. -/
def flushPartial : KernelM ℤ := do
  if ← mutexLockInterruptible .buffMutex then pure (-ENOMEM)
  else
    let entry ← read fun k => k.dev.entry
    if entry.buffPtr = none then pure (-ENOMEM)
    else
      let freePtr ← addEntry ⟨entry.buffPtr, entry.endIdx⟩
      kfree freePtr
      update fun k => { k with dev.entry.buffPtr := none, dev.entry.endIdx := 0 }
      mutexUnlock .buffMutex
      pure 0

/-- The `while` loop of `aesd_write`: `none` if a line could not be stored, or else the start of the
unterminated rest. The result of `FlushPartial` is ignored. -/
def writeLoop (cfg : KernelConfig) (buf : List Byte) (count : ℕ) : ℕ → ℕ → ℕ → KernelM (Option ℕ)
  | 0, _, _ => fault .outOfFuel
  | fuel + 1, inputBaseIdx, inputIdx =>
    if inputBaseIdx + inputIdx < count then do
      let c ← loadUser buf (inputBaseIdx + inputIdx)
      let inputIdx := inputIdx + 1
      if c = newline then
        let stored ← storePartial cfg (buf.drop inputBaseIdx) inputIdx
        if stored ≠ 0 then pure none
        else
          let _ ← flushPartial
          writeLoop cfg buf count fuel (inputBaseIdx + inputIdx) 0
      else writeLoop cfg buf count fuel inputBaseIdx inputIdx
    else pure (some inputBaseIdx)

/-- The part of `aesd_write` between the lock and the unlock of the entry mutex. -/
def writeLocked (cfg : KernelConfig) (buf : List Byte) (count : ℕ) : KernelM ℤ := do
  let entry ← read fun k => k.dev.entry
  if count > entry.size ∨ addSize entry.endIdx count > entry.size then pure (-ENOMEM)
  else
    match ← writeLoop cfg buf count (count + 1) 0 0 with
    | none => pure (-ENOMEM)
    | some inputBaseIdx =>
      if inputBaseIdx < count then
        -- the result of storing the rest is ignored
        let _ ← storePartial cfg (buf.drop inputBaseIdx) (subSize count inputBaseIdx)
        pure (toLoff count)
      else pure (toLoff count)

/-- `aesd_write`. It neither reads nor moves the position of the file. -/
def aesdWrite (cfg : KernelConfig) (buf : List Byte) (count : ℕ) : KernelM ℤ := do
  update fun k => { k with dev.entry.size := cfg.kmallocMaxSize }
  if ← mutexLockInterruptible .entryMutex then pure (-ERESTARTSYS)
  else
    let retval ← writeLocked cfg buf count
    mutexUnlock .entryMutex
    pure retval

/-! ### Read -/

/-- What `aesd_read` leaves behind: its return value, the position of the file, the bytes that
reached the user, and the entry, offset and size it passed to `copy_to_user`. -/
structure ReadResult where
  retVal : ℤ
  fPos : ℤ
  data : List Byte
  source : Option (Fin maxWriteOperations × ℕ × ℕ)
  deriving DecidableEq, Repr

/-- The position at which `aesd_read` reads. -/
def actualPos (dev : Device) (fPos : ℤ) : ℕ := addSize (toSize fPos) (toSize dev.lseekPos)

/-- The part of `aesd_read` between the lock and the unlock of the buffer mutex. -/
def readLocked (count : ℕ) (fPos : ℤ) : KernelM ReadResult := do
  let dev ← read Kernel.dev
  match dev.buff.findEntryOffsetForFpos (actualPos dev fPos) 0 with
  | (none, _) => pure ⟨0, fPos, [], none⟩
  | (some entryPtr, entryOffset) => do
    let entrySize := subSize (dev.buff.entry entryPtr).size entryOffset
    let sizeToRead := if entrySize < count then entrySize else count
    let (notCopied, data) ← copyToUser (dev.buff.entry entryPtr).buffptr entryOffset sizeToRead
    let retVal := toLoff (subSize sizeToRead notCopied)
    pure ⟨retVal, toLoff (fPos + retVal), data, some (entryPtr, entryOffset, sizeToRead)⟩

/-- `aesd_read` -/
def aesdRead (count : ℕ) (fPos : ℤ) : KernelM ReadResult := do
  if ← mutexLockInterruptible .buffMutex then pure ⟨-ERESTARTSYS, fPos, [], none⟩
  else
    let result ← readLocked count fPos
    mutexUnlock .buffMutex
    pure result

/-! ### Seek -/

def SEEK_SET : ℤ := 0
def SEEK_CUR : ℤ := 1
def SEEK_END : ℤ := 2

/-- The `switch` of `aesd_llseek`. The offset of `SEEK_END` is ignored, and any other `whence` keeps
the position. -/
def seekPos (dev : Device) (off whence : ℤ) : ℤ :=
  if whence = SEEK_SET then off
  else if whence = SEEK_CUR then toLoff (dev.lseekPos + off)
  else if whence = SEEK_END then toLoff dev.buff.getSize
  else dev.lseekPos

/-- `aesd_llseek` -/
def aesdLlseek (off whence : ℤ) : KernelM ℤ := do
  if ← mutexLockInterruptible .buffMutex then pure (-ERESTARTSYS)
  else
    update fun k => { k with dev.lseekPos := seekPos k.dev off whence }
    let retVal ← read fun k => k.dev.lseekPos
    mutexUnlock .buffMutex
    pure retVal

/-- `struct aesd_seekto` -/
structure AesdSeekto where
  writeCmd : UInt32
  writeCmdOffset : UInt32
  deriving DecidableEq, Repr

def aesdIocMagic : UInt32 := 0x16
def aesdcharIocMaxnr : UInt32 := 1

def iocType (cmd : UInt32) : UInt32 := (cmd >>> 8) &&& 0xff
def iocNr (cmd : UInt32) : UInt32 := cmd &&& 0xff

/-- `_IOWR(AESD_IOC_MAGIC, 1, struct aesd_seekto)`: direction, size, type and number. -/
def aesdcharIocseekto : UInt32 :=
  ((3 : UInt32) <<< 30) ||| ((8 : UInt32) <<< 16) ||| (aesdIocMagic <<< 8) ||| 1

/-- The part of `aesd_ioctl` between the lock and the unlock of the buffer mutex. The sum of the
`int` position and the `uint32_t` offset is a `uint32_t`. -/
def seekLocked (st : AesdSeekto) : KernelM ℤ := do
  let dev ← read Kernel.dev
  let basePos := dev.buff.findFposForVirtualEntryOffset st.writeCmd.toNat
  if basePos < 0 then pure (-EINVAL)
  else
    let entry := dev.buff.entry (dev.buff.findEntryAtPosition st.writeCmd.toNat)
    if entry.size < st.writeCmdOffset.toNat then pure (-EINVAL)
    else
      update fun k => { k with dev.lseekPos := (basePos + st.writeCmdOffset.toNat) % 2 ^ 32 }
      pure 0

/-- `aesd_ioctl`, with the `struct aesd_seekto` at the user address `arg`. -/
def aesdIoctl (cmd : UInt32) (arg : AesdSeekto) : KernelM ℤ :=
  if iocType cmd ≠ aesdIocMagic ∨ iocNr cmd > aesdcharIocMaxnr then pure (-ENOTTY)
  else if cmd = aesdcharIocseekto then do
    match ← copyFromUser arg with
    | none => pure (-EFAULT)
    | some st =>
      if ← mutexLockInterruptible .buffMutex then pure (-ERESTARTSYS)
      else
        let retVal ← seekLocked st
        mutexUnlock .buffMutex
        pure retVal
  else pure (-ENOTTY)

/-! ### Open, release, load and unload -/

/-- `aesd_open` -/
def aesdOpen : KernelM ℤ := pure 0

/-- `aesd_release`. It takes no lock. -/
def aesdRelease : KernelM ℤ := do
  update fun k => { k with dev.lseekPos := 0 }
  pure 0

/-- The state after `aesd_init_module`, which clears the device. -/
def Kernel.init : Kernel :=
  ⟨⟨⟨none, 0, 0⟩, .init, 0⟩, [], [], {}⟩

/-- The loop over all slots of the ring in `aesd_cleanup_module`. -/
def freeEntries : List (Fin maxWriteOperations) → KernelM Unit
  | [] => pure ()
  | i :: is => do
    let e ← read fun k => k.dev.buff.entry i
    kfree e.buffptr
    freeEntries is

/-- `aesd_cleanup_module` -/
def aesdCleanupModule : KernelM Unit := do
  freeEntries (List.finRange maxWriteOperations)
  let entry ← read fun k => k.dev.entry
  kfree entry.buffPtr

end Aesd
