import Aesd.Driver.Device.Calls

/-!
# Writes that fail

`aesd_write` commits line by line, and each line needs an allocation of its own. A call that runs
out of memory behind its first committed line returns an error and leaves that line in the ring.
-/

namespace Aesd

open Exec

variable {cfg : KernelConfig} {s : System} {c : Call} {p : ℤ} {data : List Byte}

/-- The write runs out of memory behind its first committed line. -/
def Call.TearsWrite (cfg : KernelConfig) (c : Call) (s : System) (data : List Byte) : Prop :=
  (s.kernel.logGiven c.outcomes).Torn maxWriteOperations cfg.kmallocMaxSize newline data

/-- A failing write leaves the ring and the stage as they were, exactly if it is not torn. -/
theorem aesdWrite_atomic_iff (hs : System.Reachable cfg s) (hf : s.fPos c.file = some p)
    (hop : c.op = .write data) :
    Returns (sysCall cfg c) s fun r s' =>
      (r.retVal < 0 →
        s'.kernel.lines = s.kernel.lines ∧ s'.kernel.log.staged = s.kernel.log.staged ∧
        s'.kernel.dev.entry.endIdx = s.kernel.dev.entry.endIdx) ↔
      ¬ c.TearsWrite cfg s data := by
  have h := hs.inv
  obtain ⟨k', hinv, -, -, -, hlines, hstage, hcall⟩ := sysCall_write h hf hop
  refine ⟨_, _, hcall, ?_⟩
  have hlen : (s.kernel.logGiven c.outcomes).lines.length ≤ maxWriteOperations :=
    h.kernel.length_lines_le
  have hstaged : k'.log.staged = ((s.kernel.logGiven c.outcomes).submit maxWriteOperations
      cfg.kmallocMaxSize newline data).2.staged := by
    rw [StagedLog.staged, StagedLog.staged, ← hstage]
    rfl
  dsimp only
  rw [Call.TearsWrite, ← StagedLog.submit_unchanged_iff hlen, writeRet_neg_iff,
    ← hinv.length_staged, ← h.kernel.length_staged, hlines, hstaged]
  refine imp_congr_right fun _ => ⟨fun hsame => ⟨hsame.1, hsame.2.1⟩, ?_⟩
  rintro ⟨hl, hst⟩
  exact ⟨hl, hst, congrArg List.length hst⟩

/-- A write of `a\nb\n` whose allocation for the second line fails. -/
def tornWrite : Call := ⟨0, .write [97, 10, 98, 10], { allocFails := [false, true] }⟩

theorem aesdWrite_atomic_iff_tornWrite :
    (Returns (sysCall .usual tornWrite) .opened fun r s' =>
      (r.retVal < 0 →
        s'.kernel.lines = System.opened.kernel.lines ∧
        s'.kernel.log.staged = System.opened.kernel.log.staged ∧
        s'.kernel.dev.entry.endIdx = System.opened.kernel.dev.entry.endIdx) ↔
      ¬ tornWrite.TearsWrite .usual .opened [97, 10, 98, 10]) ∧
    tornWrite.TearsWrite .usual .opened [97, 10, 98, 10] :=
  ⟨aesdWrite_atomic_iff (System.opened_reachable _) rfl rfl,
    rfl, by decide, 1, by decide, rfl, by decide +kernel⟩

/-- The call returns `-ENOMEM` and leaves the line `a\n` in the ring. -/
theorem aesdWrite_not_atomic :
    System.Reachable .usual .opened ∧ System.opened.kernel.lines = [] ∧
    ∃ r s', sysCall .usual tornWrite .opened = .ok (r, s') ∧ r.retVal = -ENOMEM ∧
      s'.kernel.lines = [[97, 10]] := by
  have h : Except.map (fun q => (q.1.retVal, q.2.kernel.lines)) (sysCall .usual tornWrite .opened)
      = .ok (-ENOMEM, [[97, 10]]) := by decide +kernel
  obtain ⟨⟨r, s'⟩, hcall, hrs⟩ := exists_of_map_ok h
  exact ⟨System.opened_reachable _, rfl, r, s', hcall, congrArg Prod.fst hrs,
    congrArg Prod.snd hrs⟩

end Aesd
