import Aesd.Driver.Device.Write
import Aesd.Library.Machine

/-!
# The content law

When nothing fails, the driver is a line log of ten lines whose stage is bounded: what it stores
depends on the written data alone, and not on the calls that it came in.
-/

namespace Aesd

open Exec Kernel

/-- The purpose of `aesd_write`: it writes to a log of ten lines unless the stage could overflow. -/
def lineLogWrite (cap : ℕ) (data : List Byte) (t : LineLog Byte) : ℤ × LineLog Byte :=
  if cap < t.stage.length + data.length then (-ENOMEM, t)
  else (data.length, t.write maxWriteOperations newline data)

/-- The device stores what the log does, and nothing is about to fail. -/
structure Kernel.Stores (cfg : KernelConfig) (k : Kernel) (t : LineLog Byte) : Prop where
  inv : k.Inv cfg
  held : k.held = []
  quiet : k.log.Quiet
  log_eq : k.log.toLineLog = t
  newline_notMem : newline ∉ t.stage

variable {cfg : KernelConfig} {k : Kernel} {t : LineLog Byte}

lemma init_stores {o : Outcomes} (hfails : true ∉ o.allocFails)
    (hint : true ∉ o.interrupted) :
    Stores cfg { Kernel.init with outcomes := o } LineLog.empty where
  inv := { Kernel.init_inv with }
  held := rfl
  quiet := ⟨hfails, hint⟩
  log_eq := rfl
  newline_notMem := List.not_mem_nil

/-- A write does to the device what it does to the log. -/
lemma aesdWrite_stores (h : k.Stores cfg t) (data : List Byte) :
    Returns (aesdWrite cfg data data.length) k fun r k' =>
      r = (lineLogWrite cfg.kmallocMaxSize data t).1 ∧
      k'.Stores cfg (lineLogWrite cfg.kmallocMaxSize data t).2 := by
  obtain ⟨r, k', hk', hinv, hheld, -, hr, hlog⟩ := aesdWrite_spec h.inv h.held data
  obtain rfl := h.log_eq
  obtain ⟨t', hquiet, hsubmit⟩ := StagedLog.submit_of_quiet h.quiet cfg.kmallocMaxSize
    h.inv.length_lines_le h.newline_notMem data
  refine ⟨r, k', hk', ?_⟩
  rw [lineLogWrite]
  change r = Prod.fst (if cfg.kmallocMaxSize < k.log.staged.length + data.length then _ else _) ∧
    k'.Stores cfg (Prod.snd (if cfg.kmallocMaxSize < k.log.staged.length + data.length then _
      else _))
  split_ifs at hsubmit ⊢ with hroom
  · obtain ⟨hsubmit, hlineLog⟩ := hsubmit
    rw [hsubmit] at hr hlog
    exact ⟨hr, hinv, hheld, hlog ▸ hquiet, by rw [hlog, hlineLog], h.newline_notMem⟩
  · obtain ⟨hsubmit, hlineLog⟩ := hsubmit
    rw [hsubmit] at hr hlog
    exact ⟨hr, hinv, hheld, hlog ▸ hquiet, by rw [hlog, hlineLog], Delimited.notMem_rest _ _⟩

/-- A run of the log that refused nothing has written everything. -/
lemma runSpec_lineLogWrite {cap : ℕ} {writes : List (List Byte)} {t : LineLog Byte}
    (h : (Machine.runSpec (lineLogWrite cap) writes t).1
      = writes.map fun data => (data.length : ℤ)) :
    (Machine.runSpec (lineLogWrite cap) writes t).2
      = writes.foldl (LineLog.write maxWriteOperations newline) t := by
  induction writes generalizing t with
  | nil => rfl
  | cons data writes ih =>
    simp only [Machine.runSpec, List.map_cons, List.cons.injEq] at h
    obtain ⟨hret, hrets⟩ := h
    have hstep : (lineLogWrite cap data t).2 = t.write maxWriteOperations newline data := by
      rw [lineLogWrite] at hret ⊢
      split_ifs at hret ⊢
      · simp only [ENOMEM] at hret
        omega
      · rfl
    rw [Machine.runSpec, List.foldl_cons, ← hstep]
    exact ih hrets

/-- What a fresh device stores after a run of writes that were all admitted. -/
lemma run_aesdWrite (writes : List (List Byte)) {o : Outcomes} (hfails : true ∉ o.allocFails)
    (hint : true ∉ o.interrupted) :
    Returns (Machine.run (fun data => aesdWrite cfg data data.length) writes)
      { Kernel.init with outcomes := o } fun rets k =>
        rets = writes.map (fun data => (data.length : ℤ)) →
          k.lines = (Delimited.lines newline writes.flatten).rtake maxWriteOperations ∧
          k.log.staged = Delimited.rest newline writes.flatten ∧
          k.dev.entry.endIdx = (Delimited.rest newline writes.flatten).length := by
  have hrun := Machine.run_simulates (R := fun k t => k.Stores cfg t)
    (fun data k t h => aesdWrite_stores (k := k) h data) writes (init_stores hfails hint)
  refine hrun.mono ?_
  rintro rets k ⟨hrets, hstores⟩ hcounts
  rw [hrets] at hcounts
  rw [runSpec_lineLogWrite hcounts, LineLog.foldl_write] at hstores
  have hlines := congrArg LineLog.lines hstores.log_eq
  have hstage := congrArg LineLog.stage hstores.log_eq
  exact ⟨hlines, hstage, by rw [← hstores.inv.length_staged]; exact congrArg _ hstage⟩

/-- The calls that a stream of data came in leave no trace. When every write of a run on a fresh
device is admitted, and no lock and no allocation fails, the ring holds the last ten lines of the
stream and the stage its unterminated tail; any other way to split the stream ends the same. -/
theorem content_law (cfg : KernelConfig) (writes : List (List Byte)) (o : Outcomes)
    (hfails : true ∉ o.allocFails) (hint : true ∉ o.interrupted) :
    Returns (Machine.run (fun data => aesdWrite cfg data data.length) writes)
      { Kernel.init with outcomes := o } fun rets k =>
        rets = writes.map (fun data => (data.length : ℤ)) →
          k.lines = (Delimited.lines newline writes.flatten).rtake maxWriteOperations ∧
          k.log.staged = Delimited.rest newline writes.flatten ∧
          k.dev.entry.endIdx = (Delimited.rest newline writes.flatten).length ∧
          ∀ (writes' : List (List Byte)) (o' : Outcomes), writes'.flatten = writes.flatten →
            true ∉ o'.allocFails → true ∉ o'.interrupted →
            Returns (Machine.run (fun data => aesdWrite cfg data data.length) writes')
              { Kernel.init with outcomes := o' } fun rets' k' =>
                rets' = writes'.map (fun data => (data.length : ℤ)) →
                  k'.lines = k.lines ∧ k'.log.staged = k.log.staged ∧
                  k'.dev.entry.endIdx = k.dev.entry.endIdx := by
  refine (run_aesdWrite writes hfails hint).mono fun rets k h hcounts => ?_
  obtain ⟨hlines, hstaged, hidx⟩ := h hcounts
  refine ⟨hlines, hstaged, hidx, fun writes' o' hflatten hfails' hint' => ?_⟩
  refine (run_aesdWrite writes' hfails' hint').mono fun rets' k' h' hcounts' => ?_
  obtain ⟨hlines', hstaged', hidx'⟩ := h' hcounts'
  rw [hflatten] at hlines' hstaged' hidx'
  exact ⟨hlines'.trans hlines.symm, hstaged'.trans hstaged.symm, hidx'.trans hidx.symm⟩

/-- The data `a`, `\nb` in two calls. -/
theorem content_law_two_writes :
    ∃ rets k, Machine.run (fun data => aesdWrite .usual data data.length) [[97], [10, 98]]
        Kernel.init = .ok (rets, k) ∧
      rets = [1, 2] ∧ k.lines = [[97, 10]] ∧ k.log.staged = [98] := by
  obtain ⟨rets, k, hrun, hpost⟩ := content_law .usual [[97], [10, 98]] {} (by simp) (by simp)
  have hrets : Except.map Prod.fst (Machine.run (fun data => aesdWrite .usual data data.length)
      [[97], [10, 98]] Kernel.init) = .ok [1, 2] := by decide +kernel
  have hcounts : rets = [1, 2] := by
    rw [show Kernel.init = { Kernel.init with outcomes := {} } from rfl, hrun] at hrets
    exact Except.ok.inj hrets
  obtain ⟨hlines, hstaged, -, -⟩ := hpost hcounts
  exact ⟨rets, k, hrun, hcounts, hlines, hstaged⟩

end Aesd
