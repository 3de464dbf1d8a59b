import Aesd.Driver.CircularBuffer.Properties

/-!
# Positions in the circular buffer

The three walks over the ring in terms of the sizes of its live entries: the total size, the
position at which an entry starts, and the entry that holds a position.
-/

namespace Aesd.CircularBuffer

/-- The sizes of the live entries, oldest first. -/
def sizes (b : CircularBuffer) : List ℕ := b.live.map BufferEntry.size

/-- The summed sizes of the `n` slots from the oldest entry on. -/
def prefixSize (b : CircularBuffer) (n : ℕ) : ℕ :=
  ((window b.entry b.outOffs n).map BufferEntry.size).sum

variable {b : CircularBuffer}

@[simp] lemma length_sizes : b.sizes.length = b.numEntries := by simp [sizes]

lemma getElem_sizes {i : ℕ} (h : i < b.sizes.length) :
    b.sizes[i] = (b.entry (b.slot i)).size := by
  simp [sizes]

@[simp] lemma prefixSize_zero : b.prefixSize 0 = 0 := rfl

lemma prefixSize_succ (n : ℕ) :
    b.prefixSize (n + 1) = b.prefixSize n + (b.entry (b.slot n)).size := by
  simp [prefixSize, window, List.range_succ, slot]

lemma prefixSize_mono {m n : ℕ} (h : m ≤ n) : b.prefixSize m ≤ b.prefixSize n := by
  induction h with
  | refl => exact le_rfl
  | step _ ih => exact ih.trans (by rw [prefixSize_succ]; exact Nat.le_add_right _ _)

lemma prefixSize_eq_take {n : ℕ} (h : n ≤ b.numEntries) :
    b.prefixSize n = (b.sizes.take n).sum := by
  have htake : window b.entry b.outOffs n = b.live.take n := by
    simp [window, live, ← List.map_take, List.take_range, Nat.min_eq_left h]
  rw [prefixSize, sizes, htake, List.map_take]

/-- A slot behind the live entries is zeroed. -/
lemma Wf.entry_slot_eq_zero (h : b.Wf) {i : ℕ} (hi : b.numEntries ≤ i)
    (hlt : i < maxWriteOperations) : b.entry (b.slot i) = .zero := by
  cases hf : b.full with
  | true =>
    rw [h.full_iff.mp hf] at hi
    omega
  | false =>
    rw [numEntries, hf, if_neg (by simp)] at hi
    have hslot : (b.slot i : ℕ) = i := by
      simp [slot, h.outOffs_eq hf, Nat.mod_eq_of_lt hlt]
    exact h.zeroed hf (b.slot i) (by omega)

/-- It adds nothing to a sum of sizes. -/
lemma Wf.size_slot_eq_zero (h : b.Wf) {i : ℕ} (hi : b.numEntries ≤ i)
    (hlt : i < maxWriteOperations) : (b.entry (b.slot i)).size = 0 := by
  rw [h.entry_slot_eq_zero hi hlt]
  rfl

/-- The lookup of a slot wraps: past the last of the ten it is back at the oldest entry. -/
lemma Wf.size_slot (h : b.Wf) (n : ℕ) :
    (b.entry (b.slot n)).size = b.sizes.getD (n % maxWriteOperations) 0 := by
  have hslot : b.slot n = b.slot (n % maxWriteOperations) :=
    Fin.ext (by simp [slot])
  have hlt : n % maxWriteOperations < maxWriteOperations := Nat.mod_lt _ (by decide)
  rw [hslot]
  by_cases hn : n % maxWriteOperations < b.numEntries
  · rw [List.getD_eq_getElem _ _ (by simpa using hn), getElem_sizes]
  · rw [List.getD_eq_default _ _ (by simpa using hn), h.size_slot_eq_zero (not_lt.mp hn) hlt]

lemma Wf.prefixSize_of_le (h : b.Wf) {n : ℕ} (hn : b.numEntries ≤ n)
    (hle : n ≤ maxWriteOperations) : b.prefixSize n = b.sizes.sum := by
  induction n, hn using Nat.le_induction with
  | base => rw [prefixSize_eq_take le_rfl, ← length_sizes, List.take_length]
  | succ n hn ih => rw [prefixSize_succ, ih (by omega), h.size_slot_eq_zero hn (by omega)]; rfl

lemma Wf.prefixSize_le (h : b.Wf) {n : ℕ} (hn : n ≤ maxWriteOperations) :
    b.prefixSize n ≤ b.sizes.sum := by
  rw [← h.prefixSize_of_le h.numEntries_le le_rfl]
  exact prefixSize_mono hn

lemma Wf.getEntryAtVirtualOffset_eq (h : b.Wf) {n : ℕ} (hn : n < 2 ^ 8) :
    b.getEntryAtVirtualOffset n = b.slot n := by
  have hout : b.outOffs < 10 := h.outOffs_lt
  rw [getEntryAtVirtualOffset, Nat.mod_eq_of_lt hn, addSize_eq (by omega), slot]

/-! ### The size of the contents, and the start of an entry -/

lemma Wf.sumSizes_eq (h : b.Wf) (hsum : b.sizes.sum < 2 ^ 64) {n : ℕ}
    (hn : n ≤ maxWriteOperations) : b.sumSizes n = b.prefixSize n := by
  induction n with
  | zero => rfl
  | succ n ih =>
    have hn' : n < 10 := hn
    have hle := h.prefixSize_le hn
    rw [prefixSize_succ] at hle
    have hfold : b.sumSizes (n + 1) = addSize (b.sumSizes n)
        (b.entry (b.getEntryAtVirtualOffset n)).size := by
      simp [sumSizes, List.range_succ]
    rw [hfold, ih (by omega), h.getEntryAtVirtualOffset_eq (by omega), addSize_eq (by omega),
      prefixSize_succ]

/-- `getSize` is the number of stored bytes. -/
lemma Wf.getSize_eq (h : b.Wf) (hsum : b.sizes.sum < 2 ^ 64) : b.getSize = b.sizes.sum := by
  rw [getSize, h.sumSizes_eq hsum h.numEntries_le, h.prefixSize_of_le le_rfl h.numEntries_le]

lemma findFpos_of_gt {n : ℕ} (hn : b.numEntries < n) :
    b.findFposForVirtualEntryOffset n = -1 := if_pos hn

/-- The position at which an entry starts. The bound is that of the `int` it is returned in. -/
lemma Wf.findFpos_of_le (h : b.Wf) (hsum : b.sizes.sum < 2 ^ 31) {n : ℕ}
    (hn : n ≤ b.numEntries) :
    b.findFposForVirtualEntryOffset n = (b.sizes.take n).sum := by
  have hle := h.prefixSize_le (hn.trans h.numEntries_le)
  rw [findFposForVirtualEntryOffset, if_neg (by omega),
    h.sumSizes_eq (by omega) (hn.trans h.numEntries_le), ← prefixSize_eq_take hn]
  exact toInt_of_bounds (by omega) (by omega)

/-! ### The entry at a position -/

/-- The walk stops behind the first slot that reaches past the position, if there is one. -/
lemma Wf.passEntries_spec (h : b.Wf) (hsum : b.sizes.sum < 2 ^ 64) {p fuel n : ℕ}
    (hfuel : fuel + n = maxWriteOperations) (hn : n = 0 ∨ b.prefixSize (n - 1) ≤ p) :
    ∃ m ≤ maxWriteOperations, b.passEntries p fuel n (b.prefixSize n) = (m, b.prefixSize m) ∧
      (m = 0 ∨ b.prefixSize (m - 1) ≤ p) ∧ (p < b.prefixSize m ∨ m = maxWriteOperations) := by
  induction fuel generalizing n with
  | zero => exact ⟨n, by omega, rfl, hn, Or.inr (by omega)⟩
  | succ fuel ih =>
    rw [passEntries]
    split_ifs with hguard
    · have hlt : n < 10 := hguard.2
      have hle := h.prefixSize_le (show n + 1 ≤ maxWriteOperations by omega)
      rw [prefixSize_succ] at hle
      rw [h.getEntryAtVirtualOffset_eq (by omega), addSize_eq (by omega), ← prefixSize_succ]
      exact ih (by omega) (Or.inr hguard.1)
    · have hlt : n < maxWriteOperations := by omega
      exact ⟨n, hlt.le, rfl, hn, Or.inl (by omega)⟩

/-- The lookup finds what `locate` finds in the sizes of the live entries. When the position is past
the contents, the out-parameter keeps its value. -/
lemma Wf.findEntryOffsetForFpos_eq (h : b.Wf) (hsum : b.sizes.sum < 2 ^ 64) {p : ℕ}
    (hp : p < 2 ^ 64) (rtn : ℕ) :
    b.findEntryOffsetForFpos p rtn =
      match locate b.sizes p with
      | some (i, o) => (some (b.slot i), o)
      | none => (none, rtn) := by
  rw [findEntryOffsetForFpos]
  split_ifs with hempty
  · -- the empty ring
    have hf : b.full = false := by simpa using hempty.2
    have hnil : b.sizes = [] := by
      rw [← List.length_eq_zero_iff, length_sizes, numEntries, hf, if_neg (by simp), hempty.1,
        h.outOffs_eq hf]
    rw [hnil]
    rfl
  · obtain ⟨m, hm, hpass, hbefore, hafter⟩ :=
      h.passEntries_spec hsum (p := p) (show maxWriteOperations + 0 = _ from rfl) (Or.inl rfl)
    rw [prefixSize_zero] at hpass
    simp only [hpass]
    split_ifs with hle
    · -- the walk passed all ten slots
      have hm' : m = maxWriteOperations := by omega
      rw [hm', h.prefixSize_of_le h.numEntries_le le_rfl, ← locate_eq_none_iff] at hle
      rw [hle]
    · -- the walk overshot by one entry
      obtain ⟨i, rfl⟩ : ∃ i, m = i + 1 := by
        cases m with
        | zero => simp at hle
        | succ i => exact ⟨i, rfl⟩
      have hi : i < 10 := hm
      have hstart : b.prefixSize i ≤ p := by simpa using hbefore
      have hsize := prefixSize_succ (b := b) i
      have htotal := h.prefixSize_le hm
      have hlive : i < b.numEntries := by
        by_contra hge
        rw [h.size_slot_eq_zero (by omega) hm] at hsize
        omega
      have hlocate : locate b.sizes p = some (i, p - b.prefixSize i) := by
        refine locate_eq_some_iff.mpr ⟨by simpa using hlive, ?_, ?_⟩
        · rw [getElem_sizes]
          omega
        · rw [← prefixSize_eq_take hlive.le]
          omega
      rw [hlocate]
      have hback : subSize (b.prefixSize (i + 1)) (b.entry (b.slot i)).size = b.prefixSize i := by
        rw [subSize_eq (by omega) (by omega)]
        omega
      simp only [Nat.add_sub_cancel]
      rw [h.getEntryAtVirtualOffset_eq (by omega), hback, subSize_eq hstart hp]

end Aesd.CircularBuffer
