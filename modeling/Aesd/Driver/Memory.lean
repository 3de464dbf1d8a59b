import Aesd.Driver.Kernel

/-!
# Ownership of allocations

`heap.Owns size ps`: the live allocations are exactly the pointers of `ps`, each of them once, and
all have the same size. Allocation, release and stores move this from one list of owners to the
next; what is stored behind the other pointers stays.
-/

namespace Aesd

namespace Heap

variable {heap : Heap} {p q : Ptr} {b : Block} {size n : ℕ} {ps : List Ptr}

/-- The first `n` bytes behind a pointer. -/
def bytesAt (heap : Heap) (p : Ptr) (n : ℕ) : List Byte :=
  match heap.block p with
  | some b => (List.range n).map b.bytes
  | none => []

lemma bytesAt_of_block (h : heap.block p = some b) :
    heap.bytesAt p n = (List.range n).map b.bytes := by
  simp only [bytesAt, h]

lemma bytesAt_congr {heap' : Heap} (h : heap'.block p = heap.block p) :
    heap'.bytesAt p n = heap.bytesAt p n := by
  simp only [bytesAt, h]

lemma lt_length_of_block (h : heap.block p = some b) : p < heap.length := by
  by_contra hge
  rw [block, List.getElem?_eq_none (not_lt.mp hge)] at h
  cases h

lemma block_length : heap.block heap.length = none := by
  simp [block]

lemma block_append_length (x : Option Block) : block (heap ++ [x]) heap.length = x := by
  simp [block]

lemma block_append_of_ne (x : Option Block) (h : p ≠ heap.length) :
    block (heap ++ [x]) p = heap.block p := by
  rcases Nat.lt_or_gt_of_ne h with hlt | hgt
  · rw [block, block, List.getElem?_append_left hlt]
  · rw [block, block, List.getElem?_eq_none (by simpa using hgt), List.getElem?_eq_none hgt.le]

lemma block_set_self (x : Option Block) (h : p < heap.length) :
    block (heap.set p x) p = x := by
  simp [block, h]

lemma block_set_of_ne (x : Option Block) (h : q ≠ p) :
    block (heap.set p x) q = heap.block q := by
  rw [block, block, List.getElem?_set_ne (Ne.symm h)]

/-- The live allocations are exactly those of `ps`, each owned once, all of the given size. -/
structure Owns (heap : Heap) (size : ℕ) (ps : List Ptr) : Prop where
  nodup : ps.Nodup
  live : ∀ p ∈ ps, ∃ b, heap.block p = some b ∧ b.size = size
  complete : ∀ p b, heap.block p = some b → p ∈ ps

lemma Owns.perm {qs : List Ptr} (h : heap.Owns size ps) (hp : ps.Perm qs) :
    heap.Owns size qs where
  nodup := hp.nodup_iff.mp h.nodup
  live p hmem := h.live p (hp.mem_iff.mpr hmem)
  complete p b hb := hp.mem_iff.mp (h.complete p b hb)

lemma Owns.length_notMem (h : heap.Owns size ps) : heap.length ∉ ps := by
  intro hmem
  obtain ⟨b, hb, -⟩ := h.live _ hmem
  rw [block_length] at hb
  cases hb

/-- A fresh allocation belongs to nobody yet. -/
lemma Owns.alloc (h : heap.Owns size ps) (g : ℕ → Byte) :
    Owns (heap ++ [some ⟨size, g⟩]) size (heap.length :: ps) where
  nodup := List.nodup_cons.mpr ⟨h.length_notMem, h.nodup⟩
  live p hmem := by
    rcases List.mem_cons.mp hmem with rfl | hmem
    · exact ⟨_, block_append_length _, rfl⟩
    · have hne : p ≠ heap.length := fun heq => h.length_notMem (heq ▸ hmem)
      rw [block_append_of_ne _ hne]
      exact h.live p hmem
  complete p b hb := by
    by_cases heq : p = heap.length
    · exact heq ▸ List.mem_cons_self
    · rw [block_append_of_ne _ heq] at hb
      exact List.mem_cons_of_mem _ (h.complete p b hb)

/-- The owner of an allocation may release it. -/
lemma Owns.free (h : heap.Owns size (p :: ps)) : Owns (heap.set p none) size ps where
  nodup := (List.nodup_cons.mp h.nodup).2
  live q hmem := by
    have hne : q ≠ p := fun heq => (List.nodup_cons.mp h.nodup).1 (heq ▸ hmem)
    rw [block_set_of_ne _ hne]
    exact h.live q (List.mem_cons_of_mem _ hmem)
  complete q b hb := by
    obtain ⟨b', hb', -⟩ := h.live p List.mem_cons_self
    have hne : q ≠ p := by
      rintro rfl
      rw [block_set_self _ (lt_length_of_block hb')] at hb
      cases hb
    rw [block_set_of_ne _ hne] at hb
    exact (List.mem_cons.mp (h.complete q b hb)).resolve_left hne

/-- A store changes the bytes of an allocation and nothing else. -/
lemma Owns.store (h : heap.Owns size ps) (hb : heap.block p = some b) (g : ℕ → Byte) :
    Owns (heap.set p (some { b with bytes := g })) size ps where
  nodup := h.nodup
  live q hmem := by
    by_cases heq : q = p
    · subst heq
      obtain ⟨b', hb', hsize⟩ := h.live q hmem
      rw [hb] at hb'
      cases hb'
      exact ⟨_, block_set_self _ (lt_length_of_block hb), hsize⟩
    · rw [block_set_of_ne _ heq]
      exact h.live q hmem
  complete q b' hb' := by
    by_cases heq : q = p
    · subst heq
      exact h.complete q b hb
    · rw [block_set_of_ne _ heq] at hb'
      exact h.complete q b' hb'

end Heap

end Aesd
