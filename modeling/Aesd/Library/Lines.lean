import Mathlib.Tactic
import Mathlib.Data.List.DropRight

/-!
# Lines of a stream

A stream of symbols is cut at a delimiter `d`. `lines d s` are the complete lines of `s`, each with
its delimiter, and `rest d s` is the unterminated tail. The laws say how both behave when the
stream grows, whatever the places where it was cut.
-/

namespace Delimited

variable {α : Type*} [DecidableEq α]

/-- The complete lines of a stream, each ending with its only delimiter. -/
def lines (d : α) : List α → List (List α)
  | [] => []
  | c :: cs =>
    if c = d then [c] :: lines d cs
    else
      match lines d cs with
      | [] => []
      | l :: ls => (c :: l) :: ls

/-- What follows the last delimiter of a stream. -/
def rest (d : α) : List α → List α
  | [] => []
  | c :: cs => if d ∈ c :: cs then rest d cs else c :: cs

@[simp] lemma lines_nil (d : α) : lines d [] = [] := rfl

@[simp] lemma rest_nil (d : α) : rest d [] = [] := rfl

lemma lines_cons_delim (d : α) (s : List α) : lines d (d :: s) = [d] :: lines d s := by
  simp [lines]

lemma rest_cons_delim (d : α) (s : List α) : rest d (d :: s) = rest d s := by
  simp [rest]

lemma lines_of_notMem {d : α} {t : List α} (h : d ∉ t) : lines d t = [] := by
  induction t with
  | nil => rfl
  | cons c cs ih =>
    rw [List.mem_cons, not_or] at h
    simp only [lines, if_neg (Ne.symm h.1), ih h.2]

lemma rest_of_notMem {d : α} {t : List α} (h : d ∉ t) : rest d t = t := by
  cases t with
  | nil => rfl
  | cons c cs => simp only [rest, if_neg h]

/-- The first line of a stream ends at its first delimiter. -/
lemma lines_append_delim {d : α} {t : List α} (h : d ∉ t) (s : List α) :
    lines d (t ++ d :: s) = (t ++ [d]) :: lines d s := by
  induction t with
  | nil => exact lines_cons_delim d s
  | cons c cs ih =>
    rw [List.mem_cons, not_or] at h
    simp only [List.cons_append, lines, if_neg (Ne.symm h.1), ih h.2]

lemma rest_append_delim {d : α} (t s : List α) : rest d (t ++ d :: s) = rest d s := by
  induction t with
  | nil => exact rest_cons_delim d s
  | cons c cs ih =>
    have hmem : d ∈ c :: (cs ++ d :: s) := by simp
    simp only [List.cons_append, rest, if_pos hmem, ih]

/-- Induction on a stream, one line at a time. -/
@[elab_as_elim]
lemma line_induction {d : α} {P : List α → Prop} (tail : ∀ t, d ∉ t → P t)
    (line : ∀ t s, d ∉ t → P s → P (t ++ d :: s)) (s : List α) : P s := by
  induction hn : s.length using Nat.strong_induction_on generalizing s with
  | _ n ih =>
    by_cases h : d ∈ s
    · obtain ⟨t, s', rfl, ht⟩ := List.eq_append_cons_of_mem h
      refine line t s' ht (ih s'.length ?_ s' rfl)
      rw [← hn]
      simp
      omega
    · exact tail s h

lemma notMem_rest (d : α) (s : List α) : d ∉ rest d s := by
  induction s using line_induction (d := d) with
  | tail t ht => rwa [rest_of_notMem ht]
  | line t s _ ih => rwa [rest_append_delim]

/-- Nothing of the stream is lost: the lines and the tail are the stream. -/
lemma flatten_lines_append_rest (d : α) (s : List α) : (lines d s).flatten ++ rest d s = s := by
  induction s using line_induction (d := d) with
  | tail t ht => simp [lines_of_notMem ht, rest_of_notMem ht]
  | line t s ht ih =>
    rw [lines_append_delim ht, rest_append_delim]
    calc ((t ++ [d]) :: lines d s).flatten ++ rest d s
        = t ++ d :: ((lines d s).flatten ++ rest d s) := by simp
      _ = t ++ d :: s := by rw [ih]

/-- The lines of a longer stream: a tail left by the first part is completed by the second. -/
lemma lines_append (d : α) (s s' : List α) :
    lines d (s ++ s') = lines d s ++ lines d (rest d s ++ s') := by
  induction s using line_induction (d := d) with
  | tail t ht => simp [lines_of_notMem ht, rest_of_notMem ht]
  | line t s ht ih =>
    rw [lines_append_delim ht, rest_append_delim, List.append_assoc, List.cons_append,
      lines_append_delim ht, ih, List.cons_append]

lemma rest_append (d : α) (s s' : List α) : rest d (s ++ s') = rest d (rest d s ++ s') := by
  induction s using line_induction (d := d) with
  | tail t ht => rw [rest_of_notMem ht]
  | line t s ht ih =>
    rw [rest_append_delim, List.append_assoc, List.cons_append, rest_append_delim, ih]

lemma length_rest_le (d : α) (s : List α) : (rest d s).length ≤ s.length := by
  have h := congrArg List.length (flatten_lines_append_rest d s)
  rw [List.length_append] at h
  omega

/-- Inversion: a first line ends at the first delimiter of the stream. -/
lemma of_lines_eq_cons {d : α} {s l : List α} {ls : List (List α)} (h : lines d s = l :: ls) :
    ∃ t s', d ∉ t ∧ s = t ++ d :: s' ∧ l = t ++ [d] := by
  cases s using line_induction (d := d) with
  | tail t ht => simp [lines_of_notMem ht] at h
  | line t s ht _ =>
    rw [lines_append_delim ht, List.cons.injEq] at h
    exact ⟨t, s, ht, rfl, h.1.symm⟩

lemma exists_of_mem_lines {d : α} {s l : List α} (h : l ∈ lines d s) :
    ∃ t, d ∉ t ∧ l = t ++ [d] := by
  induction s using line_induction (d := d) with
  | tail t ht => simp [lines_of_notMem ht] at h
  | line t s ht ih =>
    rw [lines_append_delim ht, List.mem_cons] at h
    rcases h with rfl | h
    · exact ⟨t, ht, rfl⟩
    · exact ih h

end Delimited
