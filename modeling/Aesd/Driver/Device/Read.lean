import Aesd.Driver.Device.Invariant

/-!
# Reading

A read returns the rest of the entry that holds its position, as far as the count and the copy to
user space go, and leaves the device alone.
-/

namespace Aesd

open Exec Kernel

namespace Kernel

/-- The bytes that an uninterrupted read at `fPos` brings to the user. -/
def delivery (k : Kernel) (count : ℕ) (fPos : ℤ) : List Byte :=
  let asked := (pieceFrom k.lines (actualPos k.dev fPos)).take count
  asked.take (asked.length - k.outcomes.notCopied.headD 0)

/-- The entry, the offset and the size that an uninterrupted read at `fPos` copies from. -/
def source (k : Kernel) (count : ℕ) (fPos : ℤ) : Option (Fin maxWriteOperations × ℕ × ℕ) :=
  (locate k.dev.buff.sizes (actualPos k.dev fPos)).map fun q =>
    (k.dev.buff.slot q.1, q.2, min (k.dev.buff.sizes.getD q.1 0 - q.2) count)

/-- What a read at `fPos` leaves behind. -/
def readResult (k : Kernel) (count : ℕ) (fPos : ℤ) : ReadResult :=
  if k.outcomes.interrupted.headD false then ⟨-ERESTARTSYS, fPos, [], none⟩
  else
    let data := k.delivery count fPos
    ⟨data.length, toLoff (fPos + data.length), data, k.source count fPos⟩

end Kernel

variable {cfg : KernelConfig} {k : Kernel}

lemma delivery_of_copied (h : k.outcomes.notCopied.headD 0 = 0) (count : ℕ) (fPos : ℤ) :
    k.delivery count fPos = (pieceFrom k.lines (actualPos k.dev fPos)).take count := by
  rw [delivery, h, Nat.sub_zero, List.take_length]

lemma take_drop_map_range {α : Type*} (f : ℕ → α) {n o m : ℕ} (h : o + m ≤ n) :
    (((List.range n).map f).drop o).take m = (List.range m).map fun i => f (o + i) := by
  apply List.ext_getElem
  · simp
    omega
  · intro i h₁ h₂
    simp

lemma copyToUser_of_block {p : Ptr} {b : Block} {offset n : ℕ} (hb : k.heap.block p = some b)
    (hle : offset + n ≤ b.size) :
    copyToUser (some p) offset n k = .ok
      ((min (k.outcomes.notCopied.headD 0) n,
        (List.range (n - min (k.outcomes.notCopied.headD 0) n)).map fun i => b.bytes (offset + i)),
      { k with outcomes.notCopied := k.outcomes.notCopied.tail }) := by
  simp only [copyToUser, hb, if_pos hle]

/-- The body of `aesd_read`. -/
lemma readLocked_spec (h : k.Inv cfg) (count : ℕ) {fPos : ℤ}
    (hf : -2 ^ 63 ≤ fPos ∧ fPos < 2 ^ 63) :
    Returns (readLocked count fPos) k fun r k' =>
      k'.dev = k.dev ∧ k'.heap = k.heap ∧ k'.held = k.held ∧
      r = ⟨(k.delivery count fPos).length, toLoff (fPos + (k.delivery count fPos).length),
        k.delivery count fPos, k.source count fPos⟩ := by
  have hsum := h.sum_sizes_lt
  have hfind := h.wf.findEntryOffsetForFpos_eq (by omega) (p := actualPos k.dev fPos)
    (Nat.mod_lt _ (by decide)) 0
  have hmap := h.map_length_lines
  rw [readLocked]
  refine .step (read_apply _ k) ?_
  rw [hfind]
  cases hloc : locate k.dev.buff.sizes (actualPos k.dev fPos) with
  | none =>
    -- the position is behind the contents
    have hnil : k.delivery count fPos = [] := by
      simp [delivery, pieceFrom, hmap, hloc]
    refine ⟨⟨0, fPos, [], none⟩, k, rfl, rfl, rfl, rfl, ?_⟩
    simp [hnil, source, hloc, toLoff_of_bounds hf.1 hf.2]
  | some q =>
    obtain ⟨i, o⟩ := q
    rw [← hmap] at hloc
    obtain ⟨hi, ho, -⟩ := drop_flatten_of_locate hloc
    have hlive : i < k.dev.buff.live.length := by simpa [lines] using hi
    have hentry : k.dev.buff.live[i] = k.dev.buff.entry (k.dev.buff.slot i) :=
      CircularBuffer.getElem_live hlive
    obtain ⟨p, b, hp, hb, hsize, hbytes⟩ := h.exists_block (List.getElem_mem hlive)
    have hline : k.lines[i] = (List.range k.dev.buff.live[i].size).map b.bytes := by
      simp only [lines, List.getElem_map, hbytes]
    rw [hentry] at hp hsize hline
    have hlt : o < (k.dev.buff.entry (k.dev.buff.slot i)).size := by
      simpa [hline] using ho
    obtain ⟨-, -, hmax⟩ := h.entries _ (List.getElem_mem hlive)
    rw [hentry] at hmax
    have hfits := cfg.fits
    have hentrySize : subSize (k.dev.buff.entry (k.dev.buff.slot i)).size o
        = (k.dev.buff.entry (k.dev.buff.slot i)).size - o := subSize_eq hlt.le (by omega)
    -- `size` bytes are asked for, and `size - k.outcomes.notCopied.headD 0` of them arrive
    obtain ⟨size, hsizeToRead⟩ : ∃ size, size =
      min ((k.dev.buff.entry (k.dev.buff.slot i)).size - o) count := ⟨_, rfl⟩
    have hroom : o + size ≤ b.size := by omega
    have hif : (if (k.dev.buff.entry (k.dev.buff.slot i)).size - o < count then
        (k.dev.buff.entry (k.dev.buff.slot i)).size - o else count) = size := by
      split_ifs <;> omega
    have hdata : k.delivery count fPos =
        (List.range (size - min (k.outcomes.notCopied.headD 0) size)).map
          fun j => b.bytes (o + j) := by
      have hsub : size - min (k.outcomes.notCopied.headD 0) size
          = size - k.outcomes.notCopied.headD 0 := by omega
      have hasked : ((k.lines.getD i []).drop o).take count = (k.lines[i].drop o).take size := by
        rw [List.getD_eq_getElem _ _ hi, hsizeToRead, hline]
        simp [List.take_eq_take_iff, min_comm]
      have hasked_length : ((k.lines[i].drop o).take size).length = size := by
        rw [List.length_take, List.length_drop, hline, List.length_map, List.length_range]
        omega
      rw [delivery, pieceFrom_of_locate hloc, hasked, hasked_length, hsub, List.take_take, hline,
        min_eq_left (Nat.sub_le _ _)]
      exact take_drop_map_range _ (by omega)
    have hlen : (k.delivery count fPos).length
        = size - min (k.outcomes.notCopied.headD 0) size := by simp [hdata]
    have hret : toLoff (subSize size (min (k.outcomes.notCopied.headD 0) size))
        = (k.delivery count fPos).length := by
      rw [hlen, subSize_eq (by omega) (by omega)]
      exact toLoff_of_bounds (by omega) (by omega)
    have hsource : k.source count fPos = some (k.dev.buff.slot i, o, size) := by
      rw [hmap] at hloc
      have hi' : i < k.dev.buff.sizes.length := by simpa using hlive
      rw [source, hloc, Option.map_some, List.getD_eq_getElem _ _ hi', CircularBuffer.getElem_sizes,
        hsizeToRead]
    change Returns (copyToUser (k.dev.buff.entry (k.dev.buff.slot i)).buffptr o
      (if subSize (k.dev.buff.entry (k.dev.buff.slot i)).size o < count then
        subSize (k.dev.buff.entry (k.dev.buff.slot i)).size o else count) >>= _) k _
    rw [hentrySize, hif, hp]
    refine .step (copyToUser_of_block hb hroom) ⟨_, _, rfl, rfl, rfl, rfl, ?_⟩
    rw [hret, hsource, hdata]

/-- `aesd_read` returns `readResult`, and all that changes are the outcomes it has used up. -/
theorem aesdRead_spec (h : k.Inv cfg) (hfree : .buffMutex ∉ k.held) (count : ℕ) {fPos : ℤ}
    (hf : -2 ^ 63 ≤ fPos ∧ fPos < 2 ^ 63) :
    Returns (aesdRead count fPos) k fun r k' =>
      k'.dev = k.dev ∧ k'.heap = k.heap ∧ k'.held = k.held ∧ r = k.readResult count fPos := by
  rw [aesdRead]
  cases hi : k.outcomes.interrupted.headD false with
  | true =>
    refine .step (mutexLockInterruptible_of_interrupted _ hi) ⟨_, _, rfl, rfl, rfl, rfl, ?_⟩
    rw [readResult, if_pos hi]
  | false =>
    refine .step (mutexLockInterruptible_of_free hi hfree) ?_
    obtain ⟨r, k₁, hk₁, hdev, hheap, hheld, hr⟩ := readLocked_spec (k := { k with
      outcomes.interrupted := k.outcomes.interrupted.tail
      held := .buffMutex :: k.held }) { h with } count hf
    refine .step hk₁ (.step (mutexUnlock_of_held _ hheld) ⟨r, _, rfl, hdev, hheap, rfl, ?_⟩)
    rw [hr, readResult, if_neg (by rw [hi]; simp)]
    rfl

end Aesd
