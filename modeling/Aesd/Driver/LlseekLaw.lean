import Aesd.Driver.SeekLaw

/-!
# Seeks

A seek asks for a position that is computed from the current one or from the size of the contents.
The driver keeps the position of a file in two parts, of which a seek sets one and reads move the
other, so that what it returns and where the next read starts may both differ from what was asked
for.
-/

namespace Aesd

open Exec

variable {cfg : KernelConfig} {s : System} {dev dev' : Device} {p off whence retVal : ℤ}

/-- The position that a seek asks for, on a file at position `p`; none for an unknown `whence`. -/
def Device.llseekTarget (dev : Device) (p off whence : ℤ) : Option ℤ :=
  if whence = SEEK_SET then some off
  else if whence = SEEK_CUR then some (p + dev.lseekPos + off)
  else if whence = SEEK_END then some (dev.buff.getSize + off)
  else none

/-- A seek that asks for no position, or for one before the start. -/
def Device.Refuses (dev : Device) (p off whence : ℤ) : Prop :=
  ∀ target, dev.llseekTarget p off whence = some target → target < 0

/-- A seek returns the position it was asked for, and the next read starts there; a seek that asks
for none, or for one before the start, returns an error and leaves the position as it was. -/
def LlseekLaw (dev : Device) (p off whence retVal : ℤ) (dev' : Device) : Prop :=
  (∀ target, dev.llseekTarget p off whence = some target → 0 ≤ target →
    retVal = target ∧ (actualPos dev' p : ℤ) = target) ∧
  (dev.Refuses p off whence → retVal < 0 ∧ dev'.lseekPos = dev.lseekPos)

/-- The seeks that obey the law, of those that get the lock. Nothing may have been read from the
file since it was opened, and `SEEK_END` must ask for the end itself. An error is only returned
where the position that is set happens to be negative and the one that was set before. -/
def Device.SeeksRight (dev : Device) (p off whence : ℤ) : Prop :=
  if whence = SEEK_SET then
    if 0 ≤ off then p = 0 else off = dev.lseekPos
  else if whence = SEEK_CUR then
    if 0 ≤ p + dev.lseekPos + off then p = 0 ∧ dev.lseekPos + off < 2 ^ 63
    else off = 0 ∧ dev.lseekPos < 0
  else if whence = SEEK_END then p = 0 ∧ off = 0
  else dev.lseekPos < 0

/-! ### The law, case by case -/

lemma llseekLaw_of_nonneg {target : ℤ} (h : dev.llseekTarget p off whence = some target)
    (hpos : 0 ≤ target) :
    LlseekLaw dev p off whence retVal dev' ↔
      retVal = target ∧ (actualPos dev' p : ℤ) = target := by
  constructor
  · intro hlaw
    exact hlaw.1 target h hpos
  · intro hright
    refine ⟨?_, ?_⟩
    · intro target' h' _
      rw [h] at h'
      cases h'
      exact hright
    · intro hrefuses
      have hneg := hrefuses target h
      omega

lemma llseekLaw_of_refuses (h : dev.Refuses p off whence) :
    LlseekLaw dev p off whence retVal dev' ↔ retVal < 0 ∧ dev'.lseekPos = dev.lseekPos := by
  constructor
  · intro hlaw
    exact hlaw.2 h
  · intro hright
    refine ⟨?_, fun _ => hright⟩
    intro target h' hpos
    have hneg := h target h'
    omega

lemma refuses_of_neg {target : ℤ} (h : dev.llseekTarget p off whence = some target)
    (hneg : target < 0) : dev.Refuses p off whence := by
  intro target' h'
  rw [h] at h'
  cases h'
  exact hneg

/-- The position at which a read starts, without the detour through `size_t`. -/
lemma actualPos_eq (dev : Device) (p : ℤ) :
    (actualPos dev p : ℤ) = (p + dev.lseekPos) % 2 ^ 64 := by
  unfold actualPos addSize toSize
  omega

/-- A position that is moved stays where it was only if it is moved by nothing. -/
lemma toLoff_add_eq_iff {l : ℤ} (hl : -2 ^ 63 ≤ l ∧ l < 2 ^ 63)
    (hoff : -2 ^ 63 ≤ off ∧ off < 2 ^ 63) : toLoff (l + off) = l ↔ off = 0 := by
  unfold toLoff
  rw [Int.bmod_def]
  omega

section whence

variable {k : Kernel}

lemma llseekLaw_seekSet (hp : -2 ^ 63 ≤ p ∧ p < 2 ^ 63) (hoff : off < 2 ^ 63) :
    LlseekLaw k.dev p off SEEK_SET off (k.seekTo off).dev ↔
      if 0 ≤ off then p = 0 else off = k.dev.lseekPos := by
  have htarget : k.dev.llseekTarget p off SEEK_SET = some off := rfl
  split_ifs with hpos
  · rw [llseekLaw_of_nonneg htarget hpos, actualPos_eq, Kernel.seekTo_lseekPos]
    omega
  · rw [llseekLaw_of_refuses (refuses_of_neg htarget (by omega)), Kernel.seekTo_lseekPos]
    omega

lemma llseekLaw_seekCur (hp : -2 ^ 63 ≤ p ∧ p < 2 ^ 63)
    (hoff : -2 ^ 63 ≤ off ∧ off < 2 ^ 63)
    (hl : -2 ^ 63 ≤ k.dev.lseekPos ∧ k.dev.lseekPos < 2 ^ 63) :
    LlseekLaw k.dev p off SEEK_CUR (toLoff (k.dev.lseekPos + off))
        (k.seekTo (toLoff (k.dev.lseekPos + off))).dev ↔
      if 0 ≤ p + k.dev.lseekPos + off then p = 0 ∧ k.dev.lseekPos + off < 2 ^ 63
      else off = 0 ∧ k.dev.lseekPos < 0 := by
  have htarget : k.dev.llseekTarget p off SEEK_CUR = some (p + k.dev.lseekPos + off) := rfl
  split_ifs with hpos
  · rw [llseekLaw_of_nonneg htarget hpos, actualPos_eq, Kernel.seekTo_lseekPos]
    unfold toLoff
    rw [Int.bmod_def]
    omega
  · rw [llseekLaw_of_refuses (refuses_of_neg htarget (by omega)), Kernel.seekTo_lseekPos,
      toLoff_add_eq_iff hl hoff]
    constructor
    · rintro ⟨hneg, rfl⟩
      rw [add_zero, toLoff_of_bounds hl.1 hl.2] at hneg
      exact ⟨rfl, hneg⟩
    · rintro ⟨rfl, hneg⟩
      rw [add_zero, toLoff_of_bounds hl.1 hl.2]
      exact ⟨hneg, rfl⟩

lemma llseekLaw_seekEnd (hp : -2 ^ 63 ≤ p ∧ p < 2 ^ 63)
    (hsize : k.dev.buff.getSize < 2 ^ 63) :
    LlseekLaw k.dev p off SEEK_END (toLoff k.dev.buff.getSize)
        (k.seekTo (toLoff k.dev.buff.getSize)).dev ↔
      p = 0 ∧ off = 0 := by
  have htarget : k.dev.llseekTarget p off SEEK_END = some (k.dev.buff.getSize + off) := rfl
  rw [toLoff_of_bounds (by omega) (by omega)]
  rcases le_or_gt 0 ((k.dev.buff.getSize : ℤ) + off) with hpos | hneg
  · rw [llseekLaw_of_nonneg htarget hpos, actualPos_eq, Kernel.seekTo_lseekPos]
    omega
  · rw [llseekLaw_of_refuses (refuses_of_neg htarget hneg)]
    omega

end whence

/-- The law for a seek that gets the lock. -/
lemma llseekLaw_seekPos_iff {k : Kernel} (h : k.Inv cfg) (hp : -2 ^ 63 ≤ p ∧ p < 2 ^ 63)
    (hoff : -2 ^ 63 ≤ off ∧ off < 2 ^ 63) (whence : ℤ) :
    LlseekLaw k.dev p off whence (seekPos k.dev off whence)
        (k.seekTo (seekPos k.dev off whence)).dev ↔
      k.dev.SeeksRight p off whence := by
  rw [Device.SeeksRight, seekPos]
  by_cases hset : whence = SEEK_SET
  · rw [if_pos hset, if_pos hset, hset]
    exact llseekLaw_seekSet hp hoff.2
  rw [if_neg hset, if_neg hset]
  by_cases hcur : whence = SEEK_CUR
  · rw [if_pos hcur, if_pos hcur, hcur]
    exact llseekLaw_seekCur hp hoff h.lseekPos_bounds
  rw [if_neg hcur, if_neg hcur]
  by_cases hend : whence = SEEK_END
  · rw [if_pos hend, if_pos hend, hend]
    have hsum := h.sum_sizes_lt
    refine llseekLaw_seekEnd hp ?_
    rw [h.wf.getSize_eq (by omega)]
    exact hsum
  · have hrefuses : k.dev.Refuses p off whence := by
      intro target htarget
      rw [Device.llseekTarget, if_neg hset, if_neg hcur, if_neg hend] at htarget
      cases htarget
    rw [if_neg hend, if_neg hend, llseekLaw_of_refuses hrefuses, Kernel.seekTo_lseekPos]
    exact and_iff_left rfl

/-- In every reachable state, for a file at any position: a seek whose wait for the lock is
interrupted obeys the law if it had to be refused, and one that gets the lock if it is one of those
above. -/
theorem aesdLlseek_law_iff (hs : System.Reachable cfg s) (hp : -2 ^ 63 ≤ p ∧ p < 2 ^ 63)
    (hoff : -2 ^ 63 ≤ off ∧ off < 2 ^ 63) (whence : ℤ) (o : Outcomes) :
    Returns (withOutcomes o (aesdLlseek off whence)) s fun r s' =>
      LlseekLaw s.kernel.dev p off whence r s'.kernel.dev ↔
        if o.interrupted.headD false then s.kernel.dev.Refuses p off whence
        else s.kernel.dev.SeeksRight p off whence := by
  have h := hs.inv
  refine ⟨_, _, withOutcomes_aesdLlseek h o off whence, ?_⟩
  rw [Kernel.llseekResult]
  change LlseekLaw _ _ _ _ (Prod.fst (if o.interrupted.headD false then _ else _))
    (s.kernel.seekTo (Prod.snd (if o.interrupted.headD false then _ else _))).dev ↔ _
  split_ifs with hint
  · by_cases hrefuses : s.kernel.dev.Refuses p off whence
    · rw [llseekLaw_of_refuses hrefuses]
      exact iff_of_true ⟨by simp [ERESTARTSYS], rfl⟩ hrefuses
    · refine iff_of_false ?_ hrefuses
      rw [Device.Refuses] at hrefuses
      push Not at hrefuses
      obtain ⟨target, htarget, hpos⟩ := hrefuses
      rw [llseekLaw_of_nonneg htarget hpos, ERESTARTSYS]
      omega
  · exact llseekLaw_seekPos_iff h.kernel hp hoff whence

/-- File `0` stores the line `ab\n` and moves behind its first byte. -/
def seekOnce : List Call :=
  [⟨0, .open, {}⟩, ⟨0, .write [97, 98, 10], {}⟩, ⟨0, .llseek 1 SEEK_SET, {}⟩]

lemma seekOnce_run :
    ∃ s, System.Reachable .usual s ∧ s.fPos 0 = some 0 ∧ s.kernel.dev.lseekPos = 1 ∧
      s.kernel.lines = [[97, 98, 10]] := by
  have h : Except.map (fun q => (q.2.fPos 0, q.2.kernel.dev.lseekPos, q.2.kernel.lines))
      (Machine.run (sysCall .usual) seekOnce .init) = .ok (some 0, 1, [[97, 98, 10]]) := by
    decide +kernel
  obtain ⟨⟨rs, s⟩, hrun, hs⟩ := exists_of_map_ok h
  obtain ⟨hf, hs⟩ := Prod.mk.inj hs
  obtain ⟨hpos, hlines⟩ := Prod.mk.inj hs
  exact ⟨s, ⟨_, _, hrun⟩, hf, hpos, hlines⟩

/-- From there a seek by one byte obeys the law and returns `2`, and a seek back by two bytes does
not obey it: it moves the file before the start. -/
theorem aesdLlseek_law_iff_seekOnce :
    ∃ s, System.Reachable .usual s ∧ s.fPos 0 = some 0 ∧ s.kernel.dev.lseekPos = 1 ∧
      s.kernel.lines = [[97, 98, 10]] ∧
      (Returns (withOutcomes {} (aesdLlseek 1 SEEK_CUR)) s fun r s' =>
        LlseekLaw s.kernel.dev 0 1 SEEK_CUR r s'.kernel.dev ∧ r = 2) ∧
      Returns (withOutcomes {} (aesdLlseek (-2) SEEK_CUR)) s fun r s' =>
        ¬ LlseekLaw s.kernel.dev 0 (-2) SEEK_CUR r s'.kernel.dev := by
  obtain ⟨s, hs, hf, hpos, hlines⟩ := seekOnce_run
  have hzero : -2 ^ 63 ≤ (0 : ℤ) ∧ (0 : ℤ) < 2 ^ 63 := by decide
  have hone : -2 ^ 63 ≤ (1 : ℤ) ∧ (1 : ℤ) < 2 ^ 63 := by decide
  have htwo : -2 ^ 63 ≤ (-2 : ℤ) ∧ (-2 : ℤ) < 2 ^ 63 := by decide
  refine ⟨s, hs, hf, hpos, hlines, ?_, ?_⟩
  · refine (aesdLlseek_law_iff hs hzero hone SEEK_CUR {}).mono fun r s' h => ?_
    have hlaw := h.mpr (by simp [Device.SeeksRight, SEEK_CUR, SEEK_SET, hpos])
    exact ⟨hlaw, (hlaw.1 2 (by simp [Device.llseekTarget, SEEK_CUR, SEEK_SET, hpos])
      (by decide)).1⟩
  · refine (aesdLlseek_law_iff hs hzero htwo SEEK_CUR {}).mono fun r s' h => ?_
    rw [h]
    simp [Device.SeeksRight, SEEK_CUR, SEEK_SET, hpos]

/-- After the first byte of `ab\n` was read, a seek to the start returns `0`, and the next read
starts at `b`. A seek to one before the end returns the end. -/
theorem aesdLlseek_breaks_law :
    ∃ s, System.Reachable .usual s ∧ s.fPos 0 = some 1 ∧
      (∃ s', withOutcomes {} (aesdLlseek 0 SEEK_SET) s = .ok (0, s') ∧
        actualPos s'.kernel.dev 1 = 1 ∧
        ¬ LlseekLaw s.kernel.dev 1 0 SEEK_SET 0 s'.kernel.dev) ∧
      ∃ s', withOutcomes {} (aesdLlseek (-1) SEEK_END) s = .ok (3, s') ∧
        ¬ LlseekLaw s.kernel.dev 1 (-1) SEEK_END 3 s'.kernel.dev := by
  obtain ⟨rs, s, hrun, hf, hlines⟩ := readOnce_run
  have hs : System.Reachable .usual s := ⟨_, _, hrun⟩
  have h := hs.inv
  have hsize : s.kernel.dev.buff.getSize = 3 := by
    have hsum := h.kernel.sum_sizes_lt
    rw [h.kernel.wf.getSize_eq (by omega), ← h.kernel.map_length_lines, hlines]
    rfl
  have hset := withOutcomes_aesdLlseek h {} 0 SEEK_SET
  have hend := withOutcomes_aesdLlseek h {} (-1) SEEK_END
  have hret : ((s.kernel.given {}).llseekResult (-1) SEEK_END).1 = 3 := by
    simp only [Kernel.llseekResult, Kernel.given, List.headD_nil, Bool.false_eq_true, if_false,
      seekPos, if_neg (show ¬ SEEK_END = SEEK_SET by decide),
      if_neg (show ¬ SEEK_END = SEEK_CUR by decide), if_true, hsize]
    exact toLoff_of_bounds (by decide) (by decide)
  rw [hret] at hend
  refine ⟨s, hs, hf, ⟨_, hset, rfl, ?_⟩, _, hend, ?_⟩
  · intro hlaw
    obtain ⟨-, hpos⟩ := hlaw.1 0 rfl le_rfl
    cases hpos
  · intro hlaw
    obtain ⟨heq, -⟩ := hlaw.1 (s.kernel.dev.buff.getSize + -1) rfl (by omega)
    omega

end Aesd
