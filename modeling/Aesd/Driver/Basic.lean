import Mathlib.Tactic

/-!
# Machine types, errors and faults

Bytes, the arithmetic of `size_t`, `int` and `loff_t`, the error codes of the driver, and the ways
in which C code can go wrong.
-/

namespace Aesd

abbrev Byte := UInt8

def newline : Byte := 10

/-- An allocation of `kmalloc`, by its number. Two allocations never share one. -/
abbrev Ptr := ℕ

/-- What must not happen: undefined behaviour, or a task that waits for itself forever. -/
inductive Fault where
  | nullDereference
  | useAfterFree
  | doubleFree
  | outOfBounds
  | userFault
  | selfDeadlock
  | notLocked
  | outOfFuel
  deriving DecidableEq, Repr

/-- `size_t` addition, modulo `2 ^ 64`. -/
def addSize (a b : ℕ) : ℕ := (a + b) % 2 ^ 64

/-- `size_t` subtraction, modulo `2 ^ 64`. -/
def subSize (a b : ℕ) : ℕ := (a + 2 ^ 64 - b % 2 ^ 64) % 2 ^ 64

/-- A value converted to `size_t`. -/
def toSize (x : ℤ) : ℕ := (x % 2 ^ 64).toNat

/-- A value converted to `loff_t`, a signed 64-bit integer. -/
def toLoff (x : ℤ) : ℤ := Int.bmod x (2 ^ 64)

/-- A value converted to `int`, a signed 32-bit integer. -/
def toInt (x : ℤ) : ℤ := Int.bmod x (2 ^ 32)

lemma addSize_eq {a b : ℕ} (h : a + b < 2 ^ 64) : addSize a b = a + b := Nat.mod_eq_of_lt h

lemma subSize_eq {a b : ℕ} (h : b ≤ a) (ha : a < 2 ^ 64) : subSize a b = a - b := by
  unfold subSize
  omega

lemma toSize_lt (x : ℤ) : toSize x < 2 ^ 64 := by
  unfold toSize
  omega

lemma toSize_of_nonneg {x : ℤ} (h : 0 ≤ x) (hx : x < 2 ^ 64) : toSize x = x.toNat := by
  unfold toSize
  omega

lemma toLoff_of_bounds {x : ℤ} (h : -2 ^ 63 ≤ x) (hx : x < 2 ^ 63) : toLoff x = x := by
  unfold toLoff
  rw [Int.bmod_def]
  omega

lemma toInt_of_bounds {x : ℤ} (h : -2 ^ 31 ≤ x) (hx : x < 2 ^ 31) : toInt x = x := by
  unfold toInt
  rw [Int.bmod_def]
  omega

@[simp] lemma toLoff_mod (x : ℤ) : toLoff x % 2 ^ 64 = x % 2 ^ 64 := by
  unfold toLoff
  rw [Int.bmod_def]
  omega

lemma toLoff_bounds (x : ℤ) : -2 ^ 63 ≤ toLoff x ∧ toLoff x < 2 ^ 63 := by
  unfold toLoff
  rw [Int.bmod_def]
  omega

/-! ### Error codes -/

def ENOMEM : ℤ := 12
def EFAULT : ℤ := 14
def EINVAL : ℤ := 22
def ENOTTY : ℤ := 25
def ERESTARTSYS : ℤ := 512

end Aesd
