import Mathlib.Data.List.GetD
import Mathlib.Tactic

/-!
# Positions in a concatenation

A position in the concatenation of a list of pieces is a piece and an offset inside it.
`locate sizes p` finds them from the sizes of the pieces alone.
-/

/-- The piece that holds position `p` of the concatenation, and the offset of `p` in it. -/
def locate : List ℕ → ℕ → Option (ℕ × ℕ)
  | [], _ => none
  | n :: ns, p =>
    if p < n then some (0, p) else (locate ns (p - n)).map fun q => (q.1 + 1, q.2)

lemma locate_eq_some_iff {ns : List ℕ} {p i o : ℕ} :
    locate ns p = some (i, o) ↔
      ∃ h : i < ns.length, o < ns[i] ∧ p = (ns.take i).sum + o := by
  induction ns generalizing p i with
  | nil => simp [locate]
  | cons n ns ih =>
    rw [locate]
    split_ifs with hp
    · constructor
      · rintro ⟨rfl, rfl⟩
        exact ⟨by simp, by simpa using hp, by simp⟩
      · rintro ⟨hi, ho, hpo⟩
        cases i with
        | zero => simp at hpo; simp [hpo]
        | succ i => simp at hpo; omega
    · rw [Option.map_eq_some_iff]
      constructor
      · rintro ⟨⟨j, o'⟩, hq, hij⟩
        obtain ⟨rfl, rfl⟩ := Prod.mk.inj hij
        obtain ⟨hj, ho, hpo⟩ := ih.mp hq
        exact ⟨by simpa using hj, by simpa using ho, by simp; omega⟩
      · rintro ⟨hi, ho, hpo⟩
        cases i with
        | zero => simp at ho hpo; omega
        | succ i =>
          simp only [List.take_succ_cons, List.sum_cons] at hpo
          exact ⟨(i, o), ih.mpr ⟨by simpa using hi, by simpa using ho, by omega⟩, rfl⟩

lemma locate_eq_none_iff {ns : List ℕ} {p : ℕ} : locate ns p = none ↔ ns.sum ≤ p := by
  induction ns generalizing p with
  | nil => simp [locate]
  | cons n ns ih =>
    rw [locate]
    split_ifs with hp
    · simp; omega
    · rw [Option.map_eq_none_iff, ih, List.sum_cons]
      omega

section flatten

variable {α : Type*} {pieces : List (List α)} {p i o : ℕ}

lemma flatten_eq_take_append (pieces : List (List α)) (hi : i < pieces.length) :
    pieces.flatten
      = (pieces.take i).flatten ++ (pieces[i] ++ (pieces.drop (i + 1)).flatten) := by
  conv_lhs => rw [← List.take_append_drop i pieces]
  rw [List.flatten_append, List.drop_eq_getElem_cons hi, List.flatten_cons]

/-- The concatenation from a position on is the rest of its piece and then the later pieces. -/
lemma drop_flatten_of_locate (h : locate (pieces.map List.length) p = some (i, o)) :
    ∃ hi : i < pieces.length, o < pieces[i].length ∧
      pieces.flatten.drop p = pieces[i].drop o ++ (pieces.drop (i + 1)).flatten := by
  obtain ⟨hi, ho, hp⟩ := locate_eq_some_iff.mp h
  rw [List.length_map] at hi
  rw [List.getElem_map] at ho
  refine ⟨hi, ho, ?_⟩
  have hsum : ((pieces.map List.length).take i).sum = (pieces.take i).flatten.length := by
    rw [← List.map_take, List.length_flatten]
  rw [hp, hsum, flatten_eq_take_append pieces hi, List.drop_append,
    List.drop_of_length_le (by omega), List.nil_append, Nat.add_sub_cancel_left,
    List.drop_append_of_le_length (by omega)]

/-- The rest of the piece that holds a position: what can be read there at once. -/
def pieceFrom (pieces : List (List α)) (p : ℕ) : List α :=
  match locate (pieces.map List.length) p with
  | some (i, o) => (pieces.getD i []).drop o
  | none => []

lemma pieceFrom_of_locate (h : locate (pieces.map List.length) p = some (i, o)) :
    pieceFrom pieces p = (pieces.getD i []).drop o := by
  simp only [pieceFrom, h]

lemma pieceFrom_isPrefix (pieces : List (List α)) (p : ℕ) :
    pieceFrom pieces p <+: pieces.flatten.drop p := by
  cases h : locate (pieces.map List.length) p with
  | none => simp [pieceFrom, h]
  | some q =>
    obtain ⟨hi, -, hdrop⟩ := drop_flatten_of_locate h
    rw [hdrop, pieceFrom_of_locate h, List.getD_eq_getElem _ _ hi]
    exact List.prefix_append _ _

/-- Nothing can be read from the end on, and only there. -/
lemma pieceFrom_eq_nil_iff : pieceFrom pieces p = [] ↔ pieces.flatten.length ≤ p := by
  rw [List.length_flatten, ← locate_eq_none_iff]
  cases h : locate (pieces.map List.length) p with
  | none => simp [pieceFrom, h]
  | some q =>
    obtain ⟨hi, ho, -⟩ := drop_flatten_of_locate h
    rw [pieceFrom_of_locate h, List.getD_eq_getElem _ _ hi, List.drop_eq_nil_iff]
    simp only [reduceCtorEq, iff_false, not_le]
    exact ho

end flatten
