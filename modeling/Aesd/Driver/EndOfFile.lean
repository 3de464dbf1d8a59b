import Aesd.Driver.LlseekLaw

/-!
# The end of the file

A reader takes a return of 0 for the end of the file. The driver also returns 0 when nothing of what
it has found could be copied, and it takes a position before the start of the file for one modulo
`2 ^ 64`.
-/

namespace Aesd

open Exec Kernel

namespace Kernel

/-- The position of a read, as an integer. -/
def position (k : Kernel) (fPos : ℤ) : ℤ := fPos + k.dev.lseekPos

/-- `sizeToRead`: the rest of the line at the position, as far as `count` goes. -/
def sizeToRead (k : Kernel) (count : ℕ) (fPos : ℤ) : ℕ :=
  min count (pieceFrom k.lines (actualPos k.dev fPos)).length

/-- There are bytes to copy, and `copy_to_user` copies none of them. -/
def CopyFaults (k : Kernel) (count : ℕ) (fPos : ℤ) : Prop :=
  0 < k.sizeToRead count fPos ∧ k.sizeToRead count fPos ≤ k.outcomes.notCopied.headD 0

/-- A read returns 0 only if it was asked for nothing or its position is at or past the end, and it
reports a copy that faults and a position before the start by an error, with the position of the
file as it was. -/
structure Truthful (k : Kernel) (count : ℕ) (fPos : ℤ) (r : ReadResult) : Prop where
  endOfFile : r.retVal = 0 → count = 0 ∨ k.content.length ≤ k.position fPos
  faulting : k.CopyFaults count fPos → r.retVal < 0 ∧ r.fPos = fPos
  negative : k.position fPos < 0 → r.retVal < 0 ∧ r.fPos = fPos

variable {k : Kernel} {count : ℕ} {fPos : ℤ}

lemma length_delivery (k : Kernel) (count : ℕ) (fPos : ℤ) :
    (k.delivery count fPos).length = k.sizeToRead count fPos - k.outcomes.notCopied.headD 0 := by
  rw [delivery, List.length_take, List.length_take, sizeToRead]
  exact min_eq_left (Nat.sub_le _ _)

/-- From the start of the file on, nothing is to be read at its end only. -/
lemma sizeToRead_eq_zero_iff (hpos : 0 ≤ k.position fPos) (hlt : k.position fPos < 2 ^ 64) :
    k.sizeToRead count fPos = 0 ↔ count = 0 ∨ k.content.length ≤ k.position fPos := by
  have hactual : (actualPos k.dev fPos : ℤ) = k.position fPos := by
    rw [actualPos_eq]
    exact Int.emod_eq_of_lt hpos hlt
  rw [sizeToRead, Nat.min_eq_zero_iff, List.length_eq_zero_iff, pieceFrom_eq_nil_iff, ← hactual,
    Nat.cast_le]
  rfl

/-- A read that gets the lock returns the number of bytes it delivers. -/
lemma readResult_retVal (count : ℕ) (fPos : ℤ)
    (hlock : k.outcomes.interrupted.headD false = false) :
    (k.readResult count fPos).retVal
      = ((k.sizeToRead count fPos - k.outcomes.notCopied.headD 0 : ℕ) : ℤ) := by
  rw [readResult, hlock, if_neg Bool.false_ne_true, ← length_delivery]

/-- It never returns an error. -/
lemma truthful_iff (hlock : k.outcomes.interrupted.headD false = false)
    (hlt : k.position fPos < 2 ^ 64) :
    k.Truthful count fPos (k.readResult count fPos) ↔
      0 ≤ k.position fPos ∧ ¬ k.CopyFaults count fPos := by
  have hretVal := readResult_retVal count fPos hlock
  have hret : 0 ≤ (k.readResult count fPos).retVal := by
    rw [hretVal]
    exact Int.natCast_nonneg _
  constructor
  · intro h
    constructor
    · by_contra hneg
      have herror := (h.negative (not_le.mp hneg)).1
      exact absurd herror hret.not_gt
    · intro hfaults
      have herror := (h.faulting hfaults).1
      exact absurd herror hret.not_gt
  · rintro ⟨hpos, hnone⟩
    refine ⟨?_, fun hfaults => absurd hfaults hnone, fun hneg => absurd hneg hpos.not_gt⟩
    intro hzero
    rw [hretVal, Int.natCast_eq_zero] at hzero
    refine (sizeToRead_eq_zero_iff hpos hlt).mp ?_
    by_contra hsize
    exact hnone ⟨Nat.pos_of_ne_zero hsize, Nat.le_of_sub_eq_zero hzero⟩

end Kernel

/-- A read on a reachable device that was moved to any position. -/
lemma aesdRead_given {cfg : KernelConfig} {s : System} (hs : System.Reachable cfg s)
    {fPos lseekPos : ℤ} (hf : -2 ^ 63 ≤ fPos ∧ fPos < 2 ^ 63)
    (hl : -2 ^ 63 ≤ lseekPos ∧ lseekPos < 2 ^ 63) (o : Outcomes) (count : ℕ) :
    Returns (aesdRead count fPos) ((s.kernel.given o).seekTo lseekPos) fun r _ =>
      r = ((s.kernel.given o).seekTo lseekPos).readResult count fPos := by
  have hinv : ((s.kernel.given o).seekTo lseekPos).Inv cfg :=
    { hs.inv.kernel with lseekPos_bounds := hl }
  have hfree : DevMutex.buffMutex ∉ ((s.kernel.given o).seekTo lseekPos).held := by
    rw [Kernel.seekTo, Kernel.given, hs.inv.held]
    exact List.not_mem_nil
  exact (aesdRead_spec hinv hfree count hf).mono fun _ _ h => h.2.2.2

/-- In every state of the device, with any position of the file and of the device: a read that gets
the lock reports the end of the file truthfully exactly if its position is not before the start, and
some of the bytes that it finds, if there are any, can be copied. -/
theorem read_truthful_iff {cfg : KernelConfig} {s : System} (hs : System.Reachable cfg s)
    {fPos lseekPos : ℤ} (hf : -2 ^ 63 ≤ fPos ∧ fPos < 2 ^ 63)
    (hl : -2 ^ 63 ≤ lseekPos ∧ lseekPos < 2 ^ 63) (o : Outcomes)
    (ho : o.interrupted.headD false = false) (count : ℕ) :
    Returns (aesdRead count fPos) ((s.kernel.given o).seekTo lseekPos) fun r _ =>
      ((s.kernel.given o).seekTo lseekPos).Truthful count fPos r ↔
        0 ≤ fPos + lseekPos ∧
          ¬ ((s.kernel.given o).seekTo lseekPos).CopyFaults count fPos := by
  refine (aesdRead_given hs hf hl o count).mono ?_
  rintro r - rfl
  refine truthful_iff ho ?_
  rw [Kernel.position, Kernel.seekTo_lseekPos]
  omega

/-- A read of the rest of a line. -/
theorem read_truthful_iff_restOfLine :
    ∃ s, System.Reachable .usual s ∧ s.kernel.lines = [[97, 98, 10]] ∧
      Returns (aesdRead 2 1) ((s.kernel.given {}).seekTo 0) fun r _ =>
        ((s.kernel.given {}).seekTo 0).Truthful 2 1 r := by
  obtain ⟨rs, s, hrun, -, hlines⟩ := readOnce_run
  have hs : System.Reachable .usual s := ⟨_, _, hrun⟩
  refine ⟨s, hs, hlines, ?_⟩
  have hf : -2 ^ 63 ≤ (1 : ℤ) ∧ (1 : ℤ) < 2 ^ 63 := by decide
  have hl : -2 ^ 63 ≤ (0 : ℤ) ∧ (0 : ℤ) < 2 ^ 63 := by decide
  refine (read_truthful_iff hs hf hl {} rfl 2).mono ?_
  rintro r k hiff
  refine hiff.mpr ⟨by decide, ?_⟩
  rintro ⟨hpos, hle⟩
  exact absurd hle hpos.not_ge

/-- The device holds `ab\n`. A read at `b` whose copy faults returns 0, and so does a read at the
position before the start. -/
theorem read_not_truthful :
    ∃ s, System.Reachable .usual s ∧ s.kernel.content = [97, 98, 10] ∧
      (Returns (aesdRead 2 1) ((s.kernel.given { notCopied := [2] }).seekTo 0) fun r _ =>
        r.retVal = 0 ∧ ¬ ((s.kernel.given { notCopied := [2] }).seekTo 0).Truthful 2 1 r) ∧
      Returns (aesdRead 2 (-1)) ((s.kernel.given {}).seekTo 0) fun r _ =>
        r.retVal = 0 ∧ ¬ ((s.kernel.given {}).seekTo 0).Truthful 2 (-1) r := by
  obtain ⟨rs, s, hrun, -, hlines⟩ := readOnce_run
  have hs : System.Reachable .usual s := ⟨_, _, hrun⟩
  have hcontent : s.kernel.content = [97, 98, 10] := by
    rw [Kernel.content, hlines]
    rfl
  have hlength : (pieceFrom s.kernel.lines 1).length = 2 := by
    rw [hlines]
    decide
  refine ⟨s, hs, hcontent, ?_, ?_⟩
  · -- the copy faults
    have hsize : ((s.kernel.given { notCopied := [2] }).seekTo 0).sizeToRead 2 1 = 2 := by
      change min 2 (pieceFrom s.kernel.lines 1).length = 2
      rw [hlength, min_self]
    refine (aesdRead_given hs (by decide) (by decide) _ 2).mono ?_
    rintro r - rfl
    have hzero : (((s.kernel.given { notCopied := [2] }).seekTo 0).readResult 2 1).retVal = 0 := by
      rw [readResult_retVal _ _ rfl, hsize]
      rfl
    refine ⟨hzero, ?_⟩
    intro htruthful
    have hneg := (htruthful.faulting ⟨by rw [hsize]; decide, hsize.le⟩).1
    exact hneg.ne hzero
  · -- the position is before the start
    have hsize : ((s.kernel.given {}).seekTo 0).sizeToRead 2 (-1) = 0 := by
      change min 2 (pieceFrom s.kernel.lines (2 ^ 64 - 1)).length = 0
      rw [hlines]
      decide
    refine (aesdRead_given hs (by decide) (by decide) _ 2).mono ?_
    rintro r - rfl
    have hzero : (((s.kernel.given {}).seekTo 0).readResult 2 (-1)).retVal = 0 := by
      rw [readResult_retVal _ _ rfl, hsize]
      rfl
    have hposition : ((s.kernel.given {}).seekTo 0).position (-1) = -1 := rfl
    refine ⟨hzero, ?_⟩
    intro htruthful
    have hneg := (htruthful.negative (by rw [hposition]; decide)).1
    exact hneg.ne hzero

end Aesd
