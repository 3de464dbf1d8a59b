import Mathlib.Data.List.Basic

/-!
# Writing at an offset

A file that is written at the offset of whoever writes, and the bytes that each of several writers
has written so far. A write appends exactly if its offset is the end of the file; and a writer whose
offset counts its own bytes is at the end exactly if nobody else has written.
-/

namespace File

variable {α ω : Type*}

/-- The contents after a write at an offset. A gap before the offset is filled; a write of nothing
changes nothing. -/
def writeAt (fill : α) (contents : List α) (offset : ℕ) (bytes : List α) : List α :=
  if bytes.isEmpty then contents
  else contents.take offset ++ List.replicate (offset - contents.length) fill ++ bytes ++
    contents.drop (offset + bytes.length)

lemma length_writeAt (fill : α) (contents : List α) (offset : ℕ) {bytes : List α}
    (h : bytes ≠ []) :
    (writeAt fill contents offset bytes).length = max contents.length (offset + bytes.length) := by
  rw [writeAt, if_neg (by simpa using h)]
  simp only [List.length_append, List.length_take, List.length_replicate, List.length_drop]
  omega

/-- Writing at the end is appending. -/
lemma writeAt_length (fill : α) (contents bytes : List α) :
    writeAt fill contents contents.length bytes = contents ++ bytes := by
  rw [writeAt]
  split_ifs with h
  · rw [List.isEmpty_iff.mp h, List.append_nil]
  · rw [List.take_length, Nat.sub_self, List.replicate_zero, List.append_nil,
      List.drop_eq_nil_of_le (Nat.le_add_right _ _), List.append_nil]

/-- No other write is. -/
lemma writeAt_eq_append_iff {fill : α} {contents : List α} {offset : ℕ} {bytes : List α}
    (h : bytes ≠ []) :
    writeAt fill contents offset bytes = contents ++ bytes ↔ offset = contents.length := by
  constructor
  · intro heq
    have hpos := List.length_pos_of_ne_nil h
    have hlen := congrArg List.length heq
    rw [length_writeAt fill contents offset h, List.length_append] at hlen
    omega
  · rintro rfl
    exact writeAt_length fill contents bytes

/-! ### Several writers -/

/-- All that was written, in order. -/
def all (written : List (ω × List α)) : List α := (written.map Prod.snd).flatten

lemma all_cons (x : ω × List α) (written : List (ω × List α)) :
    all (x :: written) = x.2 ++ all written := rfl

lemma all_append (written written' : List (ω × List α)) :
    all (written ++ written') = all written ++ all written' := by
  rw [all, List.map_append, List.flatten_append]
  rfl

lemma all_singleton (x : ω × List α) : all [x] = x.2 := List.append_nil x.2

lemma all_eq_nil_iff {written : List (ω × List α)} (h : ∀ x ∈ written, x.2 ≠ []) :
    all written = [] ↔ written = [] := by
  cases written with
  | nil => exact iff_of_true rfl rfl
  | cons x written =>
    refine iff_of_false ?_ (List.cons_ne_nil _ _)
    rw [all_cons]
    intro hnil
    exact h x List.mem_cons_self (List.append_eq_nil_iff.mp hnil).1

variable [DecidableEq ω]

/-- What one of the writers has written. -/
def writtenBy (w : ω) (written : List (ω × List α)) : List α :=
  all (written.filter fun x => x.1 = w)

lemma writtenBy_append (w : ω) (written : List (ω × List α)) (x : ω × List α) :
    writtenBy w (written ++ [x])
      = if x.1 = w then writtenBy w written ++ x.2 else writtenBy w written := by
  rw [writtenBy, List.filter_append, all_append]
  split_ifs with h
  · rw [List.filter_cons_of_pos (by simpa using h), List.filter_nil, all_singleton]
    rfl
  · rw [List.filter_cons_of_neg (by simpa using h), List.filter_nil]
    exact List.append_nil _

lemma length_writtenBy_le (w : ω) (written : List (ω × List α)) :
    (writtenBy w written).length ≤ (all written).length := by
  induction written with
  | nil => exact Nat.le_refl _
  | cons x written ih =>
    rw [writtenBy] at ih ⊢
    rw [List.filter_cons, all_cons, List.length_append]
    split_ifs
    · rw [all_cons, List.length_append]
      exact Nat.add_le_add_left ih _
    · exact Nat.le_trans ih (Nat.le_add_left _ _)

/-- A writer has written as much as there is only if nobody else has written. -/
lemma length_writtenBy_eq_iff {w : ω} {written : List (ω × List α)}
    (h : ∀ x ∈ written, x.2 ≠ []) :
    (writtenBy w written).length = (all written).length ↔ ∀ x ∈ written, x.1 = w := by
  induction written with
  | nil => exact iff_of_true rfl fun _ hx => absurd hx List.not_mem_nil
  | cons x written ih =>
    have hpos := List.length_pos_of_ne_nil (h x List.mem_cons_self)
    have hle := length_writtenBy_le w written
    have hrest := ih fun y hy => h y (List.mem_cons_of_mem x hy)
    rw [writtenBy] at hle hrest ⊢
    rw [List.filter_cons, List.forall_mem_cons, all_cons, List.length_append]
    by_cases hx : x.1 = w
    · rw [if_pos (by simpa using hx), all_cons, List.length_append, Nat.add_left_cancel_iff, hrest]
      exact (and_iff_right hx).symm
    · rw [if_neg (by simpa using hx)]
      refine iff_of_false ?_ fun hall => hx hall.1
      omega

end File
