import Aesd.Driver.CircularBuffer.Basic
import Aesd.Library.LineLog
import Aesd.Library.Locate
import Aesd.Library.Machine
import Aesd.Library.Window

/-!
# The circular buffer is a bounded queue

The representation invariant `Wf`, the logical contents `live`, and what each operation does in
terms of them. `addEntry` is a push into a queue of ten elements; the two lookups are the two ways
between a position in the concatenated entries and an entry with an offset.
-/

namespace Aesd.CircularBuffer

/-- The invariant of the ring. A ring that is not full starts at slot zero, and its unused slots
are still zeroed. -/
structure Wf (b : CircularBuffer) : Prop where
  inOffs_lt : b.inOffs < maxWriteOperations
  outOffs_lt : b.outOffs < maxWriteOperations
  inOffs_eq : b.full = true → b.inOffs = b.outOffs
  outOffs_eq : b.full = false → b.outOffs = 0
  zeroed : b.full = false → ∀ i : Fin maxWriteOperations, b.inOffs ≤ i → b.entry i = .zero

/-- The entries of the ring, oldest first. -/
def live (b : CircularBuffer) : List BufferEntry := window b.entry b.outOffs b.numEntries

/-- The slot of the `i`-th oldest entry. -/
def slot (b : CircularBuffer) (i : ℕ) : Fin maxWriteOperations := Fin.ofNat _ (b.outOffs + i)

variable {b : CircularBuffer}

@[simp] lemma length_live : b.live.length = b.numEntries := length_window

@[simp] lemma getElem_live {i : ℕ} (h : i < b.live.length) : b.live[i] = b.entry (b.slot i) :=
  getElem_window h

lemma slot_injOn {i j : ℕ} (hi : i < maxWriteOperations) (hj : j < maxWriteOperations)
    (h : b.slot i = b.slot j) : i = j := by
  have hmod : (b.outOffs + i) % 10 = (b.outOffs + j) % 10 := congrArg Fin.val h
  simp only [maxWriteOperations] at hi hj
  omega

lemma Wf.numEntries_le (h : b.Wf) : b.numEntries ≤ maxWriteOperations := by
  unfold numEntries
  split_ifs
  · exact le_rfl
  · exact h.inOffs_lt.le

lemma Wf.full_iff (h : b.Wf) : b.full = true ↔ b.numEntries = maxWriteOperations := by
  have := h.inOffs_lt
  cases hf : b.full with
  | true => simp [numEntries, hf]
  | false => simp [numEntries, hf]; omega

lemma init_wf : init.Wf :=
  ⟨by decide, by decide, by simp [init], by simp [init], fun _ _ _ => rfl⟩

@[simp] lemma live_init : init.live = [] := rfl

/-! ### Adding an entry -/

/-- The entry that the next `addEntry` overwrites, when the ring is full. -/
def oldest (b : CircularBuffer) : Option BufferEntry :=
  if b.full then b.live.head? else none

lemma live_eq_cons_of_full (hf : b.full = true) :
    b.live = b.entry (b.slot 0) :: b.live.tail := by
  cases hl : b.live with
  | nil =>
    have hlen := length_live (b := b)
    rw [hl, numEntries, if_pos hf] at hlen
    simp at hlen
  | cons e rest =>
    have h0 := getElem_live (b := b) (i := 0) (by simp [hl])
    simp only [hl, List.getElem_cons_zero] at h0
    rw [h0, List.tail_cons]

lemma succ_mod {k : ℕ} (h : k < maxWriteOperations) :
    (k + 1) % maxWriteOperations = if k + 1 = maxWriteOperations then 0 else k + 1 := by
  simp only [maxWriteOperations] at h ⊢
  split_ifs <;> omega

/-- `addEntry` with the wrap of `in_offs` as a remainder. -/
lemma addEntry_eq (hin : b.inOffs < maxWriteOperations) (e : BufferEntry) :
    addEntry e b = .ok ((b.entry ⟨b.inOffs, hin⟩).buffptr,
      { entry := Function.update b.entry ⟨b.inOffs, hin⟩ e
        inOffs := (b.inOffs + 1) % maxWriteOperations
        outOffs := if b.full then (b.inOffs + 1) % maxWriteOperations else b.outOffs
        full := b.full || (b.inOffs + 1) % maxWriteOperations = b.outOffs }) := by
  have hmod : (b.inOffs + 1) % 2 ^ 8 = b.inOffs + 1 := by
    simp only [maxWriteOperations] at hin
    omega
  simp only [addEntry, dif_pos hin, hmod, succ_mod hin]
  cases b.full <;> rfl

/-- `addEntry` on a ring that is not full: the returned pointer is that of a zeroed slot. -/
lemma addEntry_of_not_full (h : b.Wf) (hf : b.full = false) (e : BufferEntry) :
    ∃ b', addEntry e b = .ok (none, b') ∧ b'.Wf ∧ b'.live = b.live ++ [e] := by
  have hmax : maxWriteOperations = 10 := rfl
  have hin := h.inOffs_lt
  have hout := h.outOffs_eq hf
  have hslot : (⟨b.inOffs, hin⟩ : Fin maxWriteOperations) = Fin.ofNat _ (b.outOffs + b.inOffs) :=
    Fin.ext (by simp [hout, Nat.mod_eq_of_lt hin])
  have hzero : (b.entry ⟨b.inOffs, hin⟩).buffptr = none := by
    rw [h.zeroed hf _ le_rfl]
    rfl
  have hlive : b.live ++ [e] =
      window (Function.update b.entry ⟨b.inOffs, hin⟩ e) 0 (b.inOffs + 1) := by
    have : window (Function.update b.entry (Fin.ofNat _ (b.outOffs + b.inOffs)) e) b.outOffs
        (b.inOffs + 1) = window b.entry b.outOffs b.inOffs ++ [e] := window_update_fresh hin
    rw [← hslot, hout] at this
    rw [this, live, numEntries, hf, hout]
    rfl
  refine ⟨_, by rw [addEntry_eq hin, hzero], ?_, ?_⟩
  · refine ⟨Nat.mod_lt _ (by decide), ?_, ?_, ?_, ?_⟩
    · simp only [hf, Bool.false_eq_true, if_false, hout]
      omega
    · simp [hf, hout]
    · simp [hf, hout]
    · intro hf' i hi
      simp only [hf, hout, Bool.false_or, decide_eq_false_iff_not, succ_mod hin] at hf' hi
      have hlt : b.inOffs < i := by
        split_ifs at hf' hi
        · exact absurd rfl hf'
        · omega
      have hne : i ≠ ⟨b.inOffs, hin⟩ := by
        rintro rfl
        exact lt_irrefl _ hlt
      exact (Function.update_of_ne hne _ _).trans (h.zeroed hf i hlt.le)
  · rw [hlive]
    by_cases hlast : b.inOffs + 1 = maxWriteOperations
    · simp [live, numEntries, hf, hout, hlast]
    · simp only [live, numEntries, hf, hout, succ_mod hin, if_neg hlast]
      simp

/-- `addEntry` on a full ring: the oldest entry is evicted, and its pointer returned. -/
lemma addEntry_of_full (h : b.Wf) (hf : b.full = true) (e : BufferEntry) :
    ∃ b', addEntry e b = .ok ((b.entry (b.slot 0)).buffptr, b') ∧ b'.Wf ∧ b'.full = true ∧
      b'.live = b.live.tail ++ [e] := by
  have hin := h.inOffs_lt
  have hout := h.inOffs_eq hf
  have hslot : (⟨b.inOffs, hin⟩ : Fin maxWriteOperations) = Fin.ofNat _ b.outOffs :=
    Fin.ext (by simp [← hout, Nat.mod_eq_of_lt hin])
  refine ⟨_, by rw [addEntry_eq hin, hslot]; rfl, ?_, by simp [hf], ?_⟩
  · exact ⟨Nat.mod_lt _ (by decide), by simp only [hf, if_true]; exact Nat.mod_lt _ (by decide),
      by simp [hf], by simp [hf], by simp [hf]⟩
  · simp only [live, numEntries, hf, if_true, Bool.true_or, window_mod, hout]
    exact window_update_oldest

/-- `addEntry` pushes into a queue that keeps its last ten elements, and returns the pointer of the
element that falls out. -/
lemma addEntry_spec (h : b.Wf) (e : BufferEntry) :
    ∃ b', addEntry e b = .ok (b.oldest.bind BufferEntry.buffptr, b') ∧ b'.Wf ∧
      b'.live = pushLast maxWriteOperations b.live e := by
  cases hf : b.full with
  | false =>
    obtain ⟨b', hb', hwf, hlive⟩ := addEntry_of_not_full h hf e
    have hlt : b.live.length < maxWriteOperations := by
      rw [length_live, numEntries, hf, if_neg (by simp)]
      exact h.inOffs_lt
    exact ⟨b', by simp [hb', oldest, hf], hwf, by rw [hlive, pushLast_of_lt hlt]⟩
  | true =>
    obtain ⟨b', hb', hwf, -, hlive⟩ := addEntry_of_full h hf e
    have hlen : b.live.length = maxWriteOperations := by
      rw [length_live]
      exact h.full_iff.mp hf
    refine ⟨b', ?_, hwf, by rw [hlive, pushLast_of_eq (by decide) hlen]⟩
    rw [hb', oldest, if_pos hf, live_eq_cons_of_full hf]
    rfl

/-- A run of `addEntry` keeps the invariant and ends with the last ten entries of the queue and the
run. -/
lemma run_addEntry (h : b.Wf) (es : List BufferEntry) :
    Exec.Returns (Machine.run addEntry es) b fun _ b' =>
      b'.Wf ∧ b'.live = (b.live ++ es).rtake maxWriteOperations := by
  have hlen : b.live.length ≤ maxWriteOperations := by
    rw [length_live]
    exact h.numEntries_le
  rw [← foldl_pushLast b.live es hlen]
  clear hlen
  induction es generalizing b with
  | nil => exact ⟨[], b, rfl, h, rfl⟩
  | cons e es ih =>
    obtain ⟨b', hb', hwf, hlive⟩ := addEntry_spec h e
    obtain ⟨rets, b'', hrun, hwf', hlive'⟩ := ih hwf
    exact ⟨_, b'', Machine.run_cons hb' hrun, hwf', by rw [hlive', hlive, List.foldl_cons]⟩

/-- The ring refines a bounded queue: after any sequence of calls it is well formed and holds the
last ten entries, and the next call returns the pointer of the entry that it evicts. -/
theorem addEntry_refines_queue (es : List BufferEntry) (e : BufferEntry) :
    Exec.Returns (Machine.run addEntry es) init fun _ b =>
      b.Wf ∧ b.live = es.rtake maxWriteOperations ∧
      Exec.Returns (addEntry e) b fun ret b' =>
        b'.Wf ∧ b'.live = (es ++ [e]).rtake maxWriteOperations ∧
        (b.full = false → ret = none ∧ b'.live = b.live ++ [e]) ∧
        (b.full = true → ∃ oldest rest, b.live = oldest :: rest ∧ ret = oldest.buffptr ∧
          b'.live = rest ++ [e]) := by
  refine (run_addEntry init_wf es).mono ?_
  rintro - b ⟨hwf, hlive⟩
  rw [live_init, List.nil_append] at hlive
  obtain ⟨b', hb', hwf', hlive'⟩ := addEntry_spec hwf e
  refine ⟨hwf, hlive, _, b', hb', hwf', ?_, fun hf => ?_, fun hf => ?_⟩
  · rw [hlive', pushLast, hlive, rtake_rtake_append]
  · obtain ⟨b'', hb'', -, hlive''⟩ := addEntry_of_not_full hwf hf e
    obtain ⟨hret, rfl⟩ := Prod.mk.inj (Except.ok.inj (hb'.symm.trans hb''))
    exact ⟨hret, hlive''⟩
  · obtain ⟨b'', hb'', -, -, hlive''⟩ := addEntry_of_full hwf hf e
    obtain ⟨hret, rfl⟩ := Prod.mk.inj (Except.ok.inj (hb'.symm.trans hb''))
    exact ⟨_, _, live_eq_cons_of_full hf, hret, hlive''⟩

end Aesd.CircularBuffer
