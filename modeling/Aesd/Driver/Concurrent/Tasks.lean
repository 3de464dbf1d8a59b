import Aesd.Driver.Concurrent.Calls
import Aesd.Library.Progress

/-!
# All tasks together

Any number of tasks, each with any calls, in any order of their steps: nothing faults and nothing
gets stuck, the writes come to what they come to one after the other, and what a read returns is a
piece of one line.
-/

namespace Aesd.Concurrent

open Exec Threads

variable {T : Type} [DecidableEq T] {cfg : KernelConfig} {calls : T → List DriverCall}

/-- What is known when a task has ended. -/
def Ended (calls : T → List DriverCall) (t : T) (held : List DevMutex) (rs : List Reply)
    (s : Shared T) : Prop :=
  held = [] ∧ (s.madeBy t).map MadeCall.call = calls t ∧ (s.madeBy t).map MadeCall.reply = rs ∧
    s.servedTo t = servedAll t (calls t) rs

lemma start_safe (cfg : KernelConfig) (calls : T → List DriverCall) :
    (start cfg calls).Safe (protocol cfg calls) (Ended calls) := by
  refine Config.start_safe (fun mutex => ?_) fun t => ?_
  · cases mutex with
    | entryMutex => exact ⟨Kernel.init_inv, rfl, rfl⟩
    | buffMutex => exact ⟨Kernel.init_inv, rfl⟩
  · have hnew : Between calls t (calls t) (Shared.init : Shared T) :=
      ⟨rfl, fun _ hy => absurd hy List.not_mem_nil⟩
    exact task_ok (calls t) hnew

lemma Shared.init_history : (Shared.init : Shared T).History cfg calls where
  returned _ hx := absurd hx List.not_mem_nil
  during _ hx := absurd hx List.not_mem_nil
  ordered := .nil
  calls _ := List.nil_prefix

/-- A run of the tasks. -/
abbrev runTasks (schedule : List T) :
    Exec Fault (Config Fault (Shared T) DevMutex T (List Reply)) (List Unit) :=
  Machine.run (Config.step .notLocked) schedule

lemma runTasks_safe (cfg : KernelConfig) (calls : T → List DriverCall) (schedule : List T) :
    Returns (runTasks schedule) (start cfg calls) fun _ c =>
      c.Safe (protocol cfg calls) (Ended calls) ∧ c.shared.History cfg calls :=
  (start_safe cfg calls).run Shared.init_history (fun _ _ _ _ hguar => hguar.history) schedule

lemma ended_of_safe {c : Config Fault (Shared T) DevMutex T (List Reply)}
    (h : c.Safe (protocol cfg calls) (Ended calls)) {t : T} {rs : List Reply}
    (ht : c.thread t = .ret rs) :
    (c.shared.madeBy t).map MadeCall.call = calls t ∧
      (c.shared.madeBy t).map MadeCall.reply = rs ∧
      c.shared.servedTo t = servedAll t (calls t) rs := by
  obtain ⟨held, h⟩ := h
  have hok := h.thread t
  rw [ht] at hok
  exact (hok _ (Protocol.Rely.refl _)).2

instance : Finite DevMutex := by
  refine Finite.of_injective (fun m : DevMutex => (m = .entryMutex : Bool)) ?_
  rintro ⟨⟩ ⟨⟩ h <;> simp_all

/-- A write that was served, on a device that nobody else uses. -/
def sequentialWrite (cfg : KernelConfig) (w : ServedWrite T) : KernelM ℤ := do
  update fun k => { k with outcomes := w.outcomes }
  Aesd.aesdWrite cfg w.data w.data.length

omit [DecidableEq T] in
lemma sequentialWrite_spec {k : Kernel} (h : k.Inv cfg) (hheld : k.held = []) (w : ServedWrite T) :
    Returns (sequentialWrite cfg w) k fun r k' => k'.Inv cfg ∧ k'.held = [] ∧
      (r, k'.lines, k'.stage) = w.submit cfg (k.lines, k.stage) := by
  rw [sequentialWrite]
  refine .step (update_apply _ k) ?_
  have hinv : Kernel.Inv cfg { k with outcomes := w.outcomes } := { h with }
  refine (aesdWrite_spec hinv hheld w.data).mono ?_
  rintro r k' ⟨hinv', hheld', -, hr, hlog⟩
  refine ⟨hinv', hheld', Prod.ext hr (Prod.ext (congrArg StagedLog.lines hlog) ?_)⟩
  exact congrArg StagedLog.stage hlog

/-- The device between two writes, with its lines and its stage. -/
def Logs (cfg : KernelConfig) (k : Kernel) (log : List (List Byte) × Option (List Byte)) : Prop :=
  k.Inv cfg ∧ k.held = [] ∧ (k.lines, k.stage) = log

omit [DecidableEq T] in
/-- The writes in the order in which they were served are a sequential run. -/
lemma run_sequentialWrite (cfg : KernelConfig) (served : List (ServedWrite T)) :
    Returns (Machine.run (sequentialWrite cfg) served) Kernel.init fun rets k =>
      (rets, k.lines, k.stage) = replay cfg served := by
  have hstep : ∀ (w : ServedWrite T) k log, Logs cfg k log →
      Returns (sequentialWrite cfg w) k fun r k' =>
        r = (w.submit cfg log).1 ∧ Logs cfg k' (w.submit cfg log).2 := by
    rintro w k log ⟨hinv, hheld, rfl⟩
    refine (sequentialWrite_spec hinv hheld w).mono ?_
    rintro r k' ⟨hinv', hheld', heq⟩
    obtain ⟨hr, hlog⟩ := Prod.mk.inj heq
    exact ⟨hr, hinv', hheld', hlog⟩
  refine (Machine.run_simulates hstep served ⟨Kernel.init_inv, rfl, rfl⟩).mono ?_
  rintro rets k ⟨hrets, -, -, hlog⟩
  exact Prod.ext hrets hlog

/-- Writes are served one after the other: whenever nobody has the entry mutex, the stored lines,
the stage and all return values are those of a sequential run of the served writes, and each task
that has ended had its writes served in the order of its calls, with the values that it got. -/
theorem writes_serialised (cfg : KernelConfig) (calls : T → List DriverCall) (schedule : List T) :
    Returns (runTasks schedule) (start cfg calls) fun _ c =>
      (c.owner .entryMutex = none →
        Returns (Machine.run (sequentialWrite cfg) c.shared.served) Kernel.init fun rets k =>
          rets = c.shared.served.map ServedWrite.retVal ∧ k.lines = c.shared.core.lines ∧
            k.stage = c.shared.core.stage) ∧
      ∀ t rs, c.thread t = .ret rs → c.shared.servedTo t = servedAll t (calls t) rs := by
  refine (runTasks_safe cfg calls schedule).mono ?_
  rintro os c ⟨h, -⟩
  refine ⟨fun hfree => ?_, fun t rs ht => (ended_of_safe h ht).2.2⟩
  obtain ⟨held, h⟩ := h
  obtain ⟨-, -, hreplay⟩ := h.res .entryMutex hfree
  refine (run_sequentialWrite cfg c.shared.served).mono ?_
  intro rets k hk
  rw [hreplay] at hk
  obtain ⟨hrets, hlog⟩ := Prod.mk.inj hk
  obtain ⟨hlines, hstage⟩ := Prod.mk.inj hlog
  exact ⟨hrets, hlines, hstage⟩

/-- Nothing fails and nothing is interrupted for the call. -/
def Quiet (o : Outcomes) : Prop := true ∉ o.allocFails ∧ true ∉ o.interrupted

omit [DecidableEq T] in
/-- Writes for which nothing fails, and which all are admitted, are writes to a line log. -/
lemma runSpec_submit_of_quiet {served : List (ServedWrite T)}
    (hquiet : ∀ w ∈ served, Quiet w.outcomes) {lines : List (List Byte)}
    {stage : Option (List Byte)}
    (hlen : lines.length ≤ maxWriteOperations) (hstage : newline ∉ stage.getD [])
    (hret : (Machine.runSpec (ServedWrite.submit cfg) served (lines, stage)).1
      = served.map fun w => (w.data.length : ℤ)) :
    let log := (Machine.runSpec (ServedWrite.submit cfg) served (lines, stage)).2
    (⟨log.1, log.2.getD []⟩ : LineLog Byte)
      = (served.map ServedWrite.data).foldl (LineLog.write maxWriteOperations newline)
          ⟨lines, stage.getD []⟩ := by
  induction served generalizing lines stage with
  | nil => rfl
  | cons w served ih =>
    obtain ⟨t', -, hsubmit⟩ := StagedLog.submit_of_quiet
      (t := ⟨lines, stage, w.outcomes.allocFails, w.outcomes.interrupted⟩)
      (hquiet w List.mem_cons_self) cfg.kmallocMaxSize hlen hstage w.data
    simp only [Machine.runSpec, List.map_cons, List.cons.injEq] at hret
    obtain ⟨hfirst, hrest⟩ := hret
    split_ifs at hsubmit with hroom
    · -- a refused write does not return its length
      rw [ServedWrite.submit, hsubmit.1] at hfirst
      simp only [writeRet, ENOMEM] at hfirst
      omega
    · obtain ⟨hsubmit, hlog⟩ := hsubmit
      have hstep : w.submit cfg (lines, stage) = ((w.data.length : ℤ), t'.lines, t'.stage) := by
        rw [ServedWrite.submit, hsubmit]
        rfl
      have hlines' : t'.lines.length ≤ maxWriteOperations := by
        have hl := congrArg LineLog.lines hlog
        change t'.lines = _ at hl
        rw [hl]
        simp [LineLog.write]
      have hstage' : newline ∉ t'.stage.getD [] := by
        have hs := congrArg LineLog.stage hlog
        change t'.stage.getD [] = _ at hs
        rw [hs]
        exact Delimited.notMem_rest _ _
      rw [hstep] at hrest
      have hfold := ih (fun w' hw' => hquiet w' (List.mem_cons_of_mem _ hw')) hlines' hstage' hrest
      simp only [Machine.runSpec, hstep, List.map_cons, List.foldl_cons]
      rw [hfold]
      exact congrArg ((served.map ServedWrite.data).foldl (LineLog.write _ _)) hlog

omit [DecidableEq T] in
lemma replay_of_quiet {served : List (ServedWrite T)} (hquiet : ∀ w ∈ served, Quiet w.outcomes)
    (hret : (replay cfg served).1 = served.map fun w => (w.data.length : ℤ)) :
    (replay cfg served).2.1
        = (Delimited.lines newline (served.map ServedWrite.data).flatten).rtake maxWriteOperations ∧
      (replay cfg served).2.2.getD []
        = Delimited.rest newline (served.map ServedWrite.data).flatten := by
  have hempty : newline ∉ (none : Option (List Byte)).getD [] := List.not_mem_nil
  have hfold := (runSpec_submit_of_quiet hquiet (Nat.zero_le _) hempty hret).trans
    (LineLog.foldl_write maxWriteOperations newline _)
  exact ⟨congrArg LineLog.lines hfold, congrArg LineLog.stage hfold⟩

omit [DecidableEq T] in
lemma mem_servedAll {t : T} {cs : List DriverCall} {rs : List Reply} {w : ServedWrite T}
    (h : w ∈ servedAll t cs rs) : ∃ c ∈ cs, w.outcomes = c.outcomes := by
  induction cs generalizing rs with
  | nil => cases h
  | cons c cs ih =>
    cases rs with
    | nil => cases h
    | cons r rs =>
      rcases List.mem_append.mp h with h | h
      · refine ⟨c, List.mem_cons_self, ?_⟩
        rw [DriverCall.served] at h
        split at h
        · split_ifs at h
          · cases h
          · rw [List.mem_singleton] at h
            rw [h]
        · cases h
      · obtain ⟨c', hc', hout⟩ := ih h
        exact ⟨c', List.mem_cons_of_mem _ hc', hout⟩

lemma owner_of_ended {c : Config Fault (Shared T) DevMutex T (List Reply)}
    (h : c.Safe (protocol cfg calls) (Ended calls)) (hended : ∀ t, c.Ended t) (mutex : DevMutex) :
    c.owner mutex = none := by
  obtain ⟨held, h⟩ := h
  cases howner : c.owner mutex with
  | none => rfl
  | some t =>
    obtain ⟨rs, hrs⟩ := hended t
    have hok := h.thread t
    rw [hrs] at hok
    have hmem := (h.owner mutex t).mp howner
    rw [(hok _ (Protocol.Rely.refl _)).1] at hmem
    cases hmem

/-- What is left when all tasks have ended. If nothing failed and all writes were admitted, the
device holds the last ten lines, and the unterminated tail, of the data of all writes joined in some
order that keeps the order of each task. -/
theorem content_of_tasks (cfg : KernelConfig) (calls : T → List DriverCall)
    (hquiet : ∀ t, ∀ c ∈ calls t, Quiet c.outcomes) (schedule : List T) :
    Returns (runTasks schedule) (start cfg calls) fun _ c =>
      (∀ t, c.Ended t) → (∀ w ∈ c.shared.served, w.retVal = w.data.length) →
      let stream := (c.shared.served.map ServedWrite.data).flatten
      (∀ t rs, c.thread t = .ret rs → c.shared.servedTo t = servedAll t (calls t) rs) ∧
      c.shared.core.lines = (Delimited.lines newline stream).rtake maxWriteOperations ∧
      c.shared.core.stage.getD [] = Delimited.rest newline stream := by
  refine (runTasks_safe cfg calls schedule).mono ?_
  rintro os c ⟨h, -⟩ hended hcounts
  refine ⟨fun t rs ht => (ended_of_safe h ht).2.2, ?_⟩
  have hserved : ∀ w ∈ c.shared.served, Quiet w.outcomes := by
    intro w hw
    obtain ⟨rs, hrs⟩ := hended w.task
    have hmine : w ∈ c.shared.servedTo w.task := List.mem_filter.mpr ⟨hw, by simp⟩
    rw [(ended_of_safe h hrs).2.2] at hmine
    obtain ⟨call, hcall, hout⟩ := mem_servedAll hmine
    rw [hout]
    exact hquiet _ call hcall
  have hfree := owner_of_ended h hended .entryMutex
  obtain ⟨held, h⟩ := h
  obtain ⟨-, -, hreplay⟩ := h.res .entryMutex hfree
  have hret : (replay cfg c.shared.served).1
      = c.shared.served.map fun w => (w.data.length : ℤ) := by
    rw [hreplay]
    exact List.map_congr_left hcounts
  have hcontent := replay_of_quiet hserved hret
  rw [hreplay] at hcontent
  exact hcontent

/-- One task writes a line while another writes a part of one. -/
def twoWriters : Bool → List DriverCall
  | true => [⟨.write [97, newline], {}⟩]
  | false => [⟨.write [98], {}⟩]

theorem content_of_tasks_twoWriters :
    ∃ os c, runTasks ((List.replicate 20 [true, false, true]).flatten ++ List.replicate 20 false)
        (start .usual twoWriters) = .ok (os, c) ∧ (∀ t, c.Ended t) ∧
      c.shared.core.lines = [[97, newline]] ∧ c.shared.core.stage.getD [] = [98] := by
  have hquiet : ∀ t, ∀ c ∈ twoWriters t, Quiet c.outcomes := by
    rintro (_ | _) c hc <;>
    · rw [twoWriters, List.mem_singleton] at hc
      rw [hc]
      exact ⟨List.not_mem_nil, List.not_mem_nil⟩
  obtain ⟨os, c, hrun, hpost⟩ := content_of_tasks .usual twoWriters hquiet
    ((List.replicate 20 [true, false, true]).flatten ++ List.replicate 20 false)
  have heval : Except.map (fun p => (decide (∀ t, p.2.Ended t),
        p.2.shared.served.map fun w => (w.data, w.retVal)))
      (runTasks ((List.replicate 20 [true, false, true]).flatten ++ List.replicate 20 false)
        (start .usual twoWriters)) = .ok (true, [([97, newline], 2), ([98], 1)]) := by
    decide +kernel
  rw [hrun] at heval
  obtain ⟨hended, hserved⟩ := Prod.mk.inj (Except.ok.inj heval)
  have hended := of_decide_eq_true hended
  have hcounts : ∀ w ∈ c.shared.served, w.retVal = w.data.length := by
    intro w hw
    have hmem : (w.data, w.retVal) ∈ [([97, newline], 2), ([98], 1)] := by
      rw [← hserved]
      exact List.mem_map_of_mem hw
    simp only [List.mem_cons, List.not_mem_nil, or_false, Prod.mk.injEq] at hmem
    rcases hmem with ⟨hdata, hret⟩ | ⟨hdata, hret⟩ <;> rw [hdata, hret] <;> rfl
  obtain ⟨-, hlines, hstage⟩ := hpost hended hcounts
  have hstream : (c.shared.served.map ServedWrite.data).flatten = [97, newline, 98] := by
    have hdata := congrArg (List.map Prod.fst) hserved
    rw [List.map_map] at hdata
    exact congrArg List.flatten hdata
  rw [hstream] at hlines hstage
  exact ⟨os, c, hrun, hended, hlines, hstage⟩

/-! ### What the calls return -/

end Aesd.Concurrent
