import Aesd.Server.Sessions.Runs

/-!
# What the server stores

While nothing fails, the device stores the last ten of the lines that the connections have written,
in the order in which their threads had `FileMutex`.
-/

namespace Aesd.Sessions

open Exec Threads Threaded

variable {n : ℕ} {cfg : KernelConfig} {w : Workload n} {i : Fin n}

/-! ### Plain segments -/

/-- The segments that were written, in their order. All others are seek commands. -/
def written (carried : List (Carried n)) : List (List Byte) :=
  (carried.filter fun c => (findSeek c.segment.segmentPtr).isNone).map (·.segment.bytes)

/-- The segment is one line and fits into the stage, and nothing fails for it. -/
structure Carried.Plain (cfg : KernelConfig) (c : Carried n) : Prop where
  size : c.segment.bytes.length = c.segment.segmentLen
  quiet : true ∉ c.outcomes.allocFails ∧ true ∉ c.outcomes.interrupted
  line : ∃ line, newline ∉ line ∧ c.segment.bytes = line ++ [newline]
  small : c.segment.bytes.length ≤ bufferSize
  fits : c.segment.bytes.length ≤ cfg.kmallocMaxSize

lemma toSize_toInt {k : ℕ} (h : k ≤ bufferSize) : toSize (toInt k) = k := by
  have hk : k ≤ 400 := h
  rw [toInt, toSize, Int.bmod_def, if_pos (by omega)]
  omega

/-- A plain segment that is no seek command becomes a line of the device. -/
lemma Carried.Plain.submit {c : Carried n} (h : c.Plain cfg) {lines : List (List Byte)}
    {stage : Option (List Byte)} (hlines : lines.length ≤ maxWriteOperations)
    (hstage : stage.getD [] = []) :
    ∃ stage', stage'.getD [] = [] ∧
      c.submit cfg (lines, stage)
        = (true, (lines ++ written [c]).rtake maxWriteOperations, stage') := by
  simp only [Carried.submit, written, List.filter_singleton]
  cases hseek : findSeek c.segment.segmentPtr with
  | some seek => exact ⟨stage, hstage, by simp [rtake_eq_self hlines]⟩
  | none =>
    obtain ⟨line, hline, hbytes⟩ := h.line
    set t : StagedLog Byte := ⟨lines, stage, c.outcomes.allocFails, c.outcomes.interrupted⟩ with ht
    have hstaged : t.staged = [] := hstage
    have hempty : newline ∉ t.staged := by
      rw [hstaged]
      exact List.not_mem_nil
    have hquiet : t.Quiet := h.quiet
    obtain ⟨t', -, hsubmit⟩ := StagedLog.submit_of_quiet hquiet cfg.kmallocMaxSize hlines hempty
      c.segment.bytes
    rw [hstaged, List.length_nil, Nat.zero_add, if_neg (Nat.not_lt.mpr h.fits)] at hsubmit
    obtain ⟨hsubmit, hlog⟩ := hsubmit
    have hlines' := congrArg LineLog.lines hlog
    have hstage' := congrArg LineLog.stage hlog
    change t'.lines = (lines ++ Delimited.lines newline (t.staged ++ c.segment.bytes)).rtake _
      at hlines'
    change t'.stage.getD [] = Delimited.rest newline (t.staged ++ c.segment.bytes) at hstage'
    rw [hstaged, List.nil_append, hbytes, Delimited.lines_append_delim hline] at hlines'
    rw [hstaged, List.nil_append, hbytes, Delimited.rest_append_delim] at hstage'
    have hall : toSize (toInt (writeRet c.segment.bytes.length .written))
        = c.segment.segmentLen := by
      rw [writeRet, ← h.size]
      exact toSize_toInt h.small
    refine ⟨t'.stage, hstage', ?_⟩
    rw [if_neg (by simp), hsubmit]
    simp only [hall, decide_true]
    rw [hlines', ← hbytes]
    rfl

/-- The lines that plain segments leave. -/
lemma runSpec_submit {carried : List (Carried n)} (h : ∀ c ∈ carried, c.Plain cfg)
    {lines : List (List Byte)} {stage : Option (List Byte)}
    (hlines : lines.length ≤ maxWriteOperations) (hstage : stage.getD [] = []) :
    ∃ stage', stage'.getD [] = [] ∧
      Machine.runSpec (Carried.submit cfg) carried (lines, stage)
        = (carried.map fun _ => true, (lines ++ written carried).rtake maxWriteOperations,
          stage') := by
  induction carried generalizing lines stage with
  | nil => exact ⟨stage, hstage, by simp [Machine.runSpec, written, rtake_eq_self hlines]⟩
  | cons c carried ih =>
    obtain ⟨stage₁, hstage₁, hsubmit⟩ := (h c List.mem_cons_self).submit hlines hstage
    have hlines₁ : ((lines ++ written [c]).rtake maxWriteOperations).length
        ≤ maxWriteOperations := by
      rw [length_rtake]
      exact min_le_left _ _
    obtain ⟨stage₂, hstage₂, hrest⟩ :=
      ih (fun c' hc' => h c' (List.mem_cons_of_mem _ hc')) hlines₁ hstage₁
    refine ⟨stage₂, hstage₂, ?_⟩
    have hwritten : written (c :: carried) = written [c] ++ written carried := by
      simp only [written, ← List.map_append, ← List.filter_append, List.singleton_append]
    rw [Machine.runSpec, hsubmit, hrest, rtake_rtake_append, hwritten, List.append_assoc]
    rfl

/-! ### The content -/

lemma mem_carriedBy {s : Shared n} {c : Carried n} (h : c ∈ s.carried) :
    c.segment.bytes ∈ s.carriedBy c.connection :=
  List.mem_map_of_mem (List.mem_filter.mpr ⟨h, by simp⟩)

/-- While nothing fails, every segment that was carried out is a plain one. -/
lemma Shared.Inv.plain {s : Shared n} (h : s.Inv cfg w) (hquiet : w.Quiet)
    (hroom : bufferSize ≤ cfg.kmallocMaxSize) {c : Carried n} (hc : c ∈ s.carried) :
    c.Plain cfg := by
  have hsound := h.sound c hc
  have hmem := (h.plan c.connection).subset (mem_carriedBy hc)
  obtain ⟨hline, hsmall⟩ := mem_plan (w.awaits _) (w.segs_eq _).1 hmem
  exact ⟨hsound.size, hsound.quiet hquiet, hline, hsmall, hsmall.trans hroom⟩

end Aesd.Sessions
