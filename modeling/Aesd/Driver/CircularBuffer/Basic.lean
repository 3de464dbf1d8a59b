import Aesd.Driver.Basic
import Aesd.Library.Exec

/-!
# The circular buffer

`aesd-circular-buffer.c`: the ring of the last ten write commands. A pointer to an entry of the ring
is the number of its slot.
-/

namespace Aesd

/-- `AESDCHAR_MAX_WRITE_OPERATIONS_SUPPORTED` -/
abbrev maxWriteOperations : ℕ := 10

instance : NeZero maxWriteOperations := ⟨by decide⟩

structure BufferEntry where
  buffptr : Option Ptr
  size : ℕ
  deriving DecidableEq, Repr

/-- An entry after `memset` to zero. -/
def BufferEntry.zero : BufferEntry := ⟨none, 0⟩

structure CircularBuffer where
  entry : Fin maxWriteOperations → BufferEntry
  inOffs : ℕ
  outOffs : ℕ
  full : Bool

namespace CircularBuffer

/-- `aesd_circular_buffer_init` -/
def init : CircularBuffer := ⟨fun _ => .zero, 0, 0, false⟩

/-- The virtual offset is a `uint8_t`: a longer argument is cut to its low byte. -/
def getEntryAtVirtualOffset (buffer : CircularBuffer) (voffset : ℕ) : Fin maxWriteOperations :=
  Fin.ofNat _ (addSize buffer.outOffs (voffset % 2 ^ 8))

/-- The local constant `numEntries` of the functions below. -/
def numEntries (buffer : CircularBuffer) : ℕ :=
  if buffer.full then maxWriteOperations else buffer.inOffs

/-- The loop `retVal += get_entry_at_virtual_offset(buffer, pos)->size` over `pos < n`. -/
def sumSizes (buffer : CircularBuffer) (n : ℕ) : ℕ :=
  (List.range n).foldl
    (fun retVal pos => addSize retVal (buffer.entry (buffer.getEntryAtVirtualOffset pos)).size) 0

/-- `aesd_circular_buffer_get_size` -/
def getSize (buffer : CircularBuffer) : ℕ := buffer.sumSizes buffer.numEntries

/-- `aesd_circular_buffer_find_fpos_for_virtual_entry_offset` -/
def findFposForVirtualEntryOffset (buffer : CircularBuffer) (entryOffset : ℕ) : ℤ :=
  if entryOffset > buffer.numEntries then -1
  else toInt (buffer.sumSizes entryOffset)

/-- `aesd_circular_buffer_find_entry_at_position` -/
def findEntryAtPosition (buffer : CircularBuffer) (pos : ℕ) : Fin maxWriteOperations :=
  buffer.getEntryAtVirtualOffset pos

/-- The `while` loop of the position lookup: the slots passed, and the sum of their sizes. The guard
on `entryOffset` fails once the fuel, ten at the start, is spent. -/
def passEntries (buffer : CircularBuffer) (charOffset : ℕ) : ℕ → ℕ → ℕ → ℕ × ℕ
  | 0, entryOffset, totalPassed => (entryOffset, totalPassed)
  | fuel + 1, entryOffset, totalPassed =>
    if totalPassed ≤ charOffset ∧ entryOffset < maxWriteOperations then
      passEntries buffer charOffset fuel (entryOffset + 1)
        (addSize totalPassed (buffer.entry (buffer.getEntryAtVirtualOffset entryOffset)).size)
    else (entryOffset, totalPassed)

/-- `aesd_circular_buffer_find_entry_offset_for_fpos`, with the value of `*entry_offset_byte_rtn`
after the call. -/
def findEntryOffsetForFpos (buffer : CircularBuffer) (charOffset entryOffsetByteRtn : ℕ) :
    Option (Fin maxWriteOperations) × ℕ :=
  if buffer.inOffs = buffer.outOffs ∧ !buffer.full then (none, entryOffsetByteRtn)
  else
    let (entryOffset, totalPassed) := buffer.passEntries charOffset maxWriteOperations 0 0
    if totalPassed ≤ charOffset then (none, entryOffsetByteRtn)
    else
      let entry := buffer.getEntryAtVirtualOffset (entryOffset - 1)
      let totalPassed := subSize totalPassed (buffer.entry entry).size
      (some entry, subSize charOffset totalPassed)

/-- `aesd_circular_buffer_add_entry`. Both offsets are a `uint8_t`. -/
def addEntry (newEntry : BufferEntry) : Exec Fault CircularBuffer (Option Ptr) := fun buffer =>
  if h : buffer.inOffs < maxWriteOperations then
    let retVal := (buffer.entry ⟨buffer.inOffs, h⟩).buffptr
    let entry := Function.update buffer.entry ⟨buffer.inOffs, h⟩ newEntry
    let inOffs := (buffer.inOffs + 1) % 2 ^ 8
    let inOffs := if inOffs = maxWriteOperations then 0 else inOffs
    if buffer.full then
      .ok (retVal, { entry, inOffs, outOffs := inOffs, full := true })
    else
      .ok (retVal, { entry, inOffs, outOffs := buffer.outOffs, full := inOffs = buffer.outOffs })
  else .error .outOfBounds

end CircularBuffer

end Aesd
