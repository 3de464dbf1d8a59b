import Aesd.Driver.CircularBuffer.Lookup
import Aesd.Driver.Device.Basic
import Aesd.Driver.Memory
import Aesd.Library.StagedLog

/-!
# What the device stores

The logical state of the device -- its stored lines, and the bytes on the stage -- and the invariant
that the driver keeps between two of its functions: the ring is well formed, and the live
allocations are exactly the buffers of its entries and of the stage.
-/

namespace Aesd

/-- The bytes of an entry. -/
def Heap.entryBytes (heap : Heap) (e : BufferEntry) : List Byte :=
  match e.buffptr with
  | some p => heap.bytesAt p e.size
  | none => []

/-- The buffers that the device holds: that of the stage, then those of the live entries. -/
def Device.ptrs (dev : Device) : List Ptr :=
  dev.entry.buffPtr.toList ++ dev.buff.live.filterMap BufferEntry.buffptr

namespace Kernel

/-- The live entries read from `out_offs`, each as its bytes. -/
def lines (k : Kernel) : List (List Byte) := k.dev.buff.live.map k.heap.entryBytes

/-- The first `endIdx` bytes of the stage, if it is allocated. -/
def stage (k : Kernel) : Option (List Byte) :=
  k.dev.entry.buffPtr.map fun p => k.heap.bytesAt p k.dev.entry.endIdx

/-- The logical content of the device: all live entries, concatenated from the oldest. -/
def content (k : Kernel) : List Byte := k.lines.flatten

/-- The device as a staged log, with the outcomes that writes depend on. -/
def log (k : Kernel) : StagedLog Byte :=
  ⟨k.lines, k.stage, k.outcomes.allocFails, k.outcomes.interrupted⟩

structure Inv (cfg : KernelConfig) (k : Kernel) : Prop where
  wf : k.dev.buff.Wf
  owns : k.heap.Owns cfg.kmallocMaxSize k.dev.ptrs
  entries : ∀ e ∈ k.dev.buff.live, ∃ p, e.buffptr = some p ∧ e.size ≤ cfg.kmallocMaxSize
  endIdx_le : k.dev.entry.endIdx ≤ cfg.kmallocMaxSize
  endIdx_eq : k.dev.entry.buffPtr = none → k.dev.entry.endIdx = 0
  lseekPos_bounds : -2 ^ 63 ≤ k.dev.lseekPos ∧ k.dev.lseekPos < 2 ^ 63

/-- Two states that differ at most in what a write may change. -/
structure SameOutsideLog (k k' : Kernel) : Prop where
  held : k'.held = k.held
  lseekPos : k'.dev.lseekPos = k.dev.lseekPos
  size : k'.dev.entry.size = k.dev.entry.size
  notCopied : k'.outcomes.notCopied = k.outcomes.notCopied
  copyFails : k'.outcomes.copyFails = k.outcomes.copyFails

lemma SameOutsideLog.refl (k : Kernel) : SameOutsideLog k k := ⟨rfl, rfl, rfl, rfl, rfl⟩

lemma SameOutsideLog.trans {k k' k'' : Kernel} (h : SameOutsideLog k k')
    (h' : SameOutsideLog k' k'') : SameOutsideLog k k'' where
  held := h'.held.trans h.held
  lseekPos := h'.lseekPos.trans h.lseekPos
  size := h'.size.trans h.size
  notCopied := h'.notCopied.trans h.notCopied
  copyFails := h'.copyFails.trans h.copyFails

variable {cfg : KernelConfig} {k k' : Kernel}

lemma init_inv : Kernel.init.Inv cfg where
  wf := CircularBuffer.init_wf
  owns := by
    refine ⟨List.nodup_nil, fun _ h => absurd h List.not_mem_nil, ?_⟩
    intro p b h
    simp [Heap.block, init] at h
  entries _ h := absurd h List.not_mem_nil
  endIdx_le := Nat.zero_le _
  endIdx_eq _ := rfl
  lseekPos_bounds := ⟨by simp [init], by simp [init]⟩

lemma entryBytes_congr {heap heap' : Heap} {e : BufferEntry}
    (h : ∀ p, e.buffptr = some p → heap'.block p = heap.block p) :
    heap'.entryBytes e = heap.entryBytes e := by
  unfold Heap.entryBytes
  cases hp : e.buffptr with
  | none => rfl
  | some p => exact Heap.bytesAt_congr (h p hp)

/-- The stored lines stay when the ring and the buffers of its entries do. -/
lemma lines_congr (hbuff : k'.dev.buff = k.dev.buff)
    (h : ∀ e ∈ k.dev.buff.live, ∀ p, e.buffptr = some p → k'.heap.block p = k.heap.block p) :
    k'.lines = k.lines := by
  unfold lines
  rw [hbuff]
  exact List.map_congr_left fun e he => entryBytes_congr (h e he)

lemma stage_eq_none_iff : k.stage = none ↔ k.dev.entry.buffPtr = none := by
  simp [stage]

@[simp] lemma length_lines : k.lines.length = k.dev.buff.numEntries := by
  simp [lines]

namespace Inv

lemma length_lines_le (h : k.Inv cfg) : k.lines.length ≤ maxWriteOperations := by
  rw [length_lines]
  exact h.wf.numEntries_le

lemma mem_ptrs {e : BufferEntry} {p : Ptr} (he : e ∈ k.dev.buff.live)
    (hp : e.buffptr = some p) : p ∈ k.dev.ptrs :=
  List.mem_append_right _ (List.mem_filterMap.mpr ⟨e, he, hp⟩)

/-- The buffer of the stage is not that of an entry. -/
lemma ne_stage (h : k.Inv cfg) {e : BufferEntry} {p q : Ptr} (he : e ∈ k.dev.buff.live)
    (hp : e.buffptr = some p) (hq : k.dev.entry.buffPtr = some q) : p ≠ q := by
  rintro rfl
  have hnodup := h.owns.nodup
  rw [Device.ptrs, hq, Option.toList_some, List.singleton_append, List.nodup_cons] at hnodup
  exact hnodup.1 (List.mem_filterMap.mpr ⟨e, he, hp⟩)

lemma exists_block_stage (h : k.Inv cfg) {p : Ptr} (hp : k.dev.entry.buffPtr = some p) :
    ∃ b, k.heap.block p = some b ∧ b.size = cfg.kmallocMaxSize :=
  h.owns.live p (by simp [Device.ptrs, hp])

lemma length_staged (h : k.Inv cfg) : k.log.staged.length = k.dev.entry.endIdx := by
  cases hp : k.dev.entry.buffPtr with
  | none => simp [StagedLog.staged, log, stage, hp, h.endIdx_eq hp]
  | some p =>
    obtain ⟨b, hb, -⟩ := h.exists_block_stage hp
    simp [StagedLog.staged, log, stage, hp, Heap.bytesAt_of_block hb]

/-- Every entry is backed by a live buffer that holds all of it. -/
lemma exists_block (h : k.Inv cfg) {e : BufferEntry} (he : e ∈ k.dev.buff.live) :
    ∃ p b, e.buffptr = some p ∧ k.heap.block p = some b ∧ e.size ≤ b.size ∧
      k.heap.entryBytes e = (List.range e.size).map b.bytes := by
  obtain ⟨p, hp, hsize⟩ := h.entries e he
  obtain ⟨b, hb, hbsize⟩ := h.owns.live p (mem_ptrs he hp)
  refine ⟨p, b, hp, hb, hbsize ▸ hsize, ?_⟩
  simp only [Heap.entryBytes, hp, Heap.bytesAt_of_block hb]

lemma length_entryBytes (h : k.Inv cfg) {e : BufferEntry} (he : e ∈ k.dev.buff.live) :
    (k.heap.entryBytes e).length = e.size := by
  obtain ⟨p, b, -, -, -, hbytes⟩ := h.exists_block he
  simp [hbytes]

/-- The sizes in the ring are the lengths of the lines. -/
lemma map_length_lines (h : k.Inv cfg) : k.lines.map List.length = k.dev.buff.sizes := by
  rw [lines, List.map_map, CircularBuffer.sizes]
  exact List.map_congr_left fun e he => h.length_entryBytes he

lemma length_content (h : k.Inv cfg) : k.content.length = k.dev.buff.sizes.sum := by
  rw [content, List.length_flatten, h.map_length_lines]

/-- Ten entries at most, each of `KMALLOC_MAX_SIZE` bytes at most. -/
lemma sum_sizes_le (h : k.Inv cfg) : k.dev.buff.sizes.sum ≤ 10 * cfg.kmallocMaxSize := by
  have hle : ∀ n ∈ k.dev.buff.sizes, n ≤ cfg.kmallocMaxSize := by
    intro n hn
    obtain ⟨e, he, rfl⟩ := List.mem_map.mp hn
    obtain ⟨_, _, hsize⟩ := h.entries e he
    exact hsize
  calc k.dev.buff.sizes.sum
      ≤ k.dev.buff.sizes.length * cfg.kmallocMaxSize := by
        simpa using List.sum_le_card_nsmul _ _ hle
    _ ≤ 10 * cfg.kmallocMaxSize :=
        Nat.mul_le_mul_right _ (by rw [CircularBuffer.length_sizes]; exact h.wf.numEntries_le)

lemma sum_sizes_lt (h : k.Inv cfg) : k.dev.buff.sizes.sum < 2 ^ 63 :=
  h.sum_sizes_le.trans_lt cfg.fits

end Inv

end Kernel

end Aesd
