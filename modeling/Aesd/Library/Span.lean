import Mathlib.Tactic

/-!
# Maximal runs

What a scanner takes is the longest run of symbols of a class: all of them are in the class, and the
symbol behind them, if there is one, is not. These two facts determine the run.
-/

variable {α : Type*} {p : α → Bool} {l l' r r' : List α}

/-- The list does not start with a symbol of the class. -/
def Stops (p : α → Bool) (r : List α) : Prop := ∀ a ∈ r.head?, p a = false

lemma stops_nil (p : α → Bool) : Stops p [] := by
  intro a ha
  cases ha

lemma stops_cons {a : α} : Stops p (a :: r) ↔ p a = false := by
  constructor
  · intro h
    exact h a rfl
  · rintro h b ⟨⟩
    exact h

lemma stops_append (hl : l ≠ []) : Stops p (l ++ r) ↔ Stops p l := by
  rw [Stops, Stops, List.head?_append_of_ne_nil l hl]

lemma stops_dropWhile (p : α → Bool) (l : List α) : Stops p (l.dropWhile p) := by
  induction l with
  | nil => exact stops_nil p
  | cons a l ih =>
    cases ha : p a with
    | true =>
      rw [List.dropWhile_cons_of_pos ha]
      exact ih
    | false =>
      rw [List.dropWhile_cons_of_neg (by simp [ha])]
      exact stops_cons.mpr ha

lemma Stops.takeWhile (h : Stops p r) (q : α → Bool) : Stops p (r.takeWhile q) := by
  cases r with
  | nil => exact h
  | cons a r =>
    rw [List.takeWhile_cons]
    split_ifs
    · exact stops_cons.mpr (stops_cons.mp h)
    · exact stops_nil p

lemma takeWhile_append_of_stops (hl : ∀ a ∈ l, p a = true) (hr : Stops p r) :
    (l ++ r).takeWhile p = l := by
  rw [List.takeWhile_append_of_pos hl]
  cases r with
  | nil => simp
  | cons a r => simp [stops_cons.mp hr]

lemma dropWhile_append_of_stops (hl : ∀ a ∈ l, p a = true) (hr : Stops p r) :
    (l ++ r).dropWhile p = r := by
  rw [List.dropWhile_append_of_pos hl]
  cases r with
  | nil => rfl
  | cons a r => simp [stops_cons.mp hr]

/-- There is only one way to cut a list behind a maximal run. -/
lemma append_inj_of_stops (hl : ∀ a ∈ l, p a = true) (hr : Stops p r)
    (hl' : ∀ a ∈ l', p a = true) (hr' : Stops p r') (h : l ++ r = l' ++ r') :
    l = l' ∧ r = r' := by
  constructor
  · rw [← takeWhile_append_of_stops hl hr, h, takeWhile_append_of_stops hl' hr']
  · rw [← dropWhile_append_of_stops hl hr, h, dropWhile_append_of_stops hl' hr']

/-- The first delimiter of a list is either in its first part or behind it. -/
lemma append_delim_eq_append {d : α} (h : l ++ d :: r = l' ++ r') :
    (∃ m, l = l' ++ m ∧ r' = m ++ d :: r) ∨ ∃ m, l' = l ++ d :: m := by
  rcases List.append_eq_append_iff.mp h with ⟨m, hl', hr'⟩ | ⟨m, hl, hr'⟩
  · cases m with
    | nil =>
      left
      refine ⟨[], ?_, hr'.symm⟩
      rw [hl', List.append_nil, List.append_nil]
    | cons c m =>
      right
      obtain ⟨rfl, -⟩ := List.cons.inj hr'
      exact ⟨m, hl'⟩
  · left
    exact ⟨m, hl, hr'⟩
