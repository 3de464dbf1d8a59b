import Mathlib.Tactic

/-!
# Windows of a ring

A ring of `n` slots read from slot `out` on, wrapping past the last slot. The two ways to add an
element are filling the first free slot and overwriting the oldest one.
-/

section window

variable {α : Type*} {n : ℕ} [NeZero n]

/-- The `len` slots of a ring that follow `out`, in order. -/
def window (slot : Fin n → α) (out len : ℕ) : List α :=
  (List.range len).map fun i => slot (Fin.ofNat n (out + i))

variable {slot : Fin n → α} {out len i : ℕ} {a : α}

@[simp] lemma length_window : (window slot out len).length = len := by simp [window]

@[simp] lemma getElem_window (h : i < (window slot out len).length) :
    (window slot out len)[i] = slot (Fin.ofNat n (out + i)) := by simp [window]

lemma window_mod : window slot (out % n) len = window slot out len :=
  List.map_congr_left fun i _ => congrArg slot (Fin.ext (Nat.mod_add_mod out n i))

/-- Two offsets of a window shorter than the ring are two slots. -/
lemma ofNat_add_ne (out : ℕ) {i j : ℕ} (hij : i < j) (hj : j < n) :
    Fin.ofNat n (out + i) ≠ Fin.ofNat n (out + j) := by
  intro h
  have hmod : (out + i) % n = (out + j) % n := congrArg Fin.val h
  have hi : i % n = j % n := Nat.ModEq.add_left_cancel' out hmod
  rw [Nat.mod_eq_of_lt (by omega), Nat.mod_eq_of_lt hj] at hi
  omega

/-- Filling the first free slot of a ring that has one. -/
lemma window_update_fresh (h : len < n) :
    window (Function.update slot (Fin.ofNat n (out + len)) a) out (len + 1)
      = window slot out len ++ [a] := by
  apply List.ext_getElem
  · simp
  · intro i hi _
    rw [getElem_window, List.getElem_append]
    split_ifs with hlt
    · rw [length_window] at hlt
      rw [Function.update_of_ne (ofNat_add_ne _ hlt h), getElem_window]
    · simp only [length_window] at hlt hi
      obtain rfl : i = len := by omega
      simp

/-- Overwriting the oldest slot of a full ring. -/
lemma window_update_oldest :
    window (Function.update slot (Fin.ofNat n out) a) (out + 1) n
      = (window slot out n).tail ++ [a] := by
  have hn : 0 < n := Nat.pos_of_ne_zero (NeZero.ne n)
  apply List.ext_getElem
  · simp
    omega
  · intro i hi _
    rw [getElem_window, List.getElem_append]
    rw [length_window] at hi
    split_ifs with hlt
    · simp only [List.length_tail, length_window] at hlt
      have hne : Fin.ofNat n (out + 1 + i) ≠ Fin.ofNat n out := by
        simpa [Nat.add_assoc, Nat.add_comm 1 i] using
          (ofNat_add_ne out (Nat.succ_pos i) (by omega : i + 1 < n)).symm
      rw [Function.update_of_ne hne, List.getElem_tail, getElem_window, Nat.add_assoc,
        Nat.add_comm 1 i]
    · simp only [List.length_tail, length_window] at hlt
      obtain rfl : i = n - 1 := by omega
      have hlast : out + 1 + (n - 1) = out + n := by omega
      have hwrap : Fin.ofNat n (out + n) = Fin.ofNat n out :=
        Fin.ext (Nat.add_mod_right out n)
      rw [hlast, hwrap]
      simp only [Function.update_self, List.length_tail, length_window, Nat.sub_self,
        List.getElem_cons_zero]

end window
