import Aesd.Driver.Concurrent.Basic
import Aesd.Driver.Device.Write

/-!
# What the record says

The writes that were served are those of a staged log, one after the other. Every call that returned
is answered by the lines that were flushed at a moment between its start and its end.
-/

namespace Aesd.Concurrent

open Exec Threads

variable {T : Type} {cfg : KernelConfig} {calls : T → List DriverCall}

namespace Shared

/-- The kernel, less what belongs to one task. -/
def core (s : Shared T) : Kernel := ⟨s.dev, s.heap, [], {}⟩

@[simp] lemma kernel_dev (s : Shared T) (t : T) (held : List DevMutex) :
    (s.kernel t held).dev = s.dev := rfl

lemma kernel_inv {s : Shared T} {t : T} {held : List DevMutex} :
    (s.kernel t held).Inv cfg ↔ s.core.Inv cfg :=
  ⟨fun h => { h with }, fun h => { h with }⟩

lemma inv_kernel {s : Shared T} (h : s.core.Inv cfg) (t : T) (held : List DevMutex) :
    (s.kernel t held).Inv cfg := kernel_inv.mpr h

/-- The writes of one task that were served. -/
def servedTo [DecidableEq T] (s : Shared T) (t : T) : List (ServedWrite T) :=
  s.served.filter (·.task = t)

/-- The calls of one task that have returned. -/
def madeBy [DecidableEq T] (s : Shared T) (t : T) : List (MadeCall T) :=
  s.made.filter (·.task = t)

end Shared

/-! ### The writes -/

/-- What a write does to the stored lines and the stage, and what it returns. -/
def ServedWrite.submit (cfg : KernelConfig) (w : ServedWrite T)
    (log : List (List Byte) × Option (List Byte)) : ℤ × List (List Byte) × Option (List Byte) :=
  let r := StagedLog.submit maxWriteOperations cfg.kmallocMaxSize newline w.data
    ⟨log.1, log.2, w.outcomes.allocFails, w.outcomes.interrupted⟩
  (writeRet w.data.length r.1, r.2.lines, r.2.stage)

/-- The values that the writes return in their order, and the lines and the stage they leave. -/
def replay (cfg : KernelConfig) (served : List (ServedWrite T)) :
    List ℤ × List (List Byte) × Option (List Byte) :=
  Machine.runSpec (ServedWrite.submit cfg) served ([], none)

lemma replay_concat {served : List (ServedWrite T)} {w : ServedWrite T}
    {log log' : List (List Byte) × Option (List Byte)}
    (h : replay cfg served = (served.map ServedWrite.retVal, log))
    (hw : w.submit cfg log = (w.retVal, log')) :
    replay cfg (served ++ [w]) = ((served ++ [w]).map ServedWrite.retVal, log') := by
  rw [replay] at h ⊢
  rw [Machine.runSpec_concat, h, hw, List.map_append, List.map_singleton]

/-! ### What a call answers -/

/-- Where a seek leaves the position of a device that stores `lines`. A file that is released sets
it back to the start. -/
def SeekedTo (lines : List (List Byte)) (off whence pos : ℤ) : Prop :=
  pos = 0 ∨ if whence = SEEK_SET then pos = toLoff off
    else whence = SEEK_END → pos = lines.flatten.length

/-- What the calls answer on a device that stores the last ten of the lines `now`: a read copies a
piece of one line, a seek to the end returns the length of all of them, and a seek command is
accepted up to one line and up to one byte behind the last. A write has stored them, from the last
ten of the lines `start`. -/
def DriverCall.Answers (cfg : KernelConfig) (c : DriverCall) (start now : List (List Byte))
    (r : Reply) : Prop :=
  let lines := now.rtake maxWriteOperations
  match c.op with
  | .open => r = ⟨0, []⟩
  | .release => r = ⟨0, []⟩
  | .read count _ => ∃ pos, let asked := (pieceFrom lines pos).take count
      r.data = asked.take (asked.length - c.outcomes.notCopied.headD 0) ∧ r.retVal = r.data.length
  | .write data => r.data = [] ∧ ∃ stage stage',
      ServedWrite.submit cfg ⟨(), data, c.outcomes, r.retVal⟩
        (start.rtake maxWriteOperations, stage) = (r.retVal, lines, stage')
  | .llseek off whence => r.data = [] ∧ SeekedTo lines off whence r.retVal
  | .ioctl cmd arg => r.data = [] ∧ if cmd ≠ aesdcharIocseekto then r.retVal = -ENOTTY
      else if c.outcomes.copyFails.headD false then r.retVal = -EFAULT
      else 10 * cfg.kmallocMaxSize < 2 ^ 31 → r.retVal =
        if arg.writeCmd.toNat ≤ lines.length ∧ arg.writeCmdOffset.toNat ≤
          (lines.getD (arg.writeCmd.toNat % maxWriteOperations) []).length then 0 else -EINVAL

/-- Whether the call waits for a mutex. -/
def DriverCall.locks (c : DriverCall) : Bool :=
  match c.op with
  | .open => false
  | .release => false
  | .ioctl cmd _ => cmd = aesdcharIocseekto && !c.outcomes.copyFails.headD false
  | _ => true

/-- An interrupted call returns an error. Any other is answered by the lines `now`, which were
flushed between `before` and `after`. -/
def DriverCall.Returned (cfg : KernelConfig) (c : DriverCall) (r : Reply)
    (before after : List (List Byte)) : Prop :=
  if c.locks && c.outcomes.interrupted.headD false then r = ⟨-ERESTARTSYS, []⟩
  else ∃ start now, before <+: start ∧ start <+: now ∧ now <+: after ∧ c.Answers cfg start now r

lemma DriverCall.Returned.mono {c : DriverCall} {r : Reply}
    {before before' after after' : List (List Byte)} (h : c.Returned cfg r before after)
    (hbefore : before' <+: before) (hafter : after <+: after') :
    c.Returned cfg r before' after' := by
  unfold DriverCall.Returned at h ⊢
  split_ifs at h ⊢ with hi
  · exact h
  · obtain ⟨start, now, hstart, hnow, hend, hanswers⟩ := h
    exact ⟨start, now, hbefore.trans hstart, hnow, hend.trans hafter, hanswers⟩

/-! ### The calls that returned -/

variable [DecidableEq T]

lemma Shared.madeBy_concat (s : Shared T) (x : MadeCall T) (t : T) :
    Shared.madeBy { s with made := s.made ++ [x] } t
      = s.madeBy t ++ if x.task = t then [x] else [] := by
  rw [Shared.madeBy, Shared.madeBy, List.filter_append]
  by_cases ht : x.task = t <;> simp [ht]

/-- The record of the calls: each is answered by the lines of a moment of its own, a call that a
task makes later starts later, and they are the first of the calls that the task has to make. -/
structure Shared.History (cfg : KernelConfig) (calls : T → List DriverCall) (s : Shared T) :
    Prop where
  returned : ∀ x ∈ s.made, x.call.Returned cfg x.reply x.before x.after
  during : ∀ x ∈ s.made, x.before <+: x.after ∧ x.after <+: s.added
  ordered : s.made.Pairwise fun x y =>
    x.after <+: y.after ∧ (x.task = y.task → x.after <+: y.before)
  calls : ∀ t, (s.madeBy t).map MadeCall.call <+: calls t

namespace Shared.History

variable {s s' : Shared T}

/-- Nothing was recorded. -/
lemma of_made_eq (h : s.History cfg calls) (hmade : s'.made = s.made)
    (hadded : s.added <+: s'.added) : s'.History cfg calls where
  returned x hx := h.returned x (hmade ▸ hx)
  during x hx := (h.during x (hmade ▸ hx)).imp_right fun hafter => hafter.trans hadded
  ordered := hmade ▸ h.ordered
  calls t := by
    rw [Shared.madeBy, hmade]
    exact h.calls t

/-- The next call of a task has returned. -/
lemma concat (h : s.History cfg calls) {x : MadeCall T}
    (hreturned : x.call.Returned cfg x.reply x.before x.after) (hbefore : x.before <+: x.after)
    (hafter : x.after = s.added) (hordered : ∀ y ∈ s.madeBy x.task, y.after <+: x.before)
    (hcalls : (s.madeBy x.task).map MadeCall.call ++ [x.call] <+: calls x.task) :
    History cfg calls { s with made := s.made ++ [x] } where
  returned y hy := by
    rcases List.mem_append.mp hy with hy | hy
    · exact h.returned y hy
    · rw [List.mem_singleton.mp hy]
      exact hreturned
  during y hy := by
    rcases List.mem_append.mp hy with hy | hy
    · exact h.during y hy
    · rw [List.mem_singleton.mp hy]
      exact ⟨hbefore, hafter ▸ List.prefix_refl _⟩
  ordered := by
    refine List.pairwise_append.mpr ⟨h.ordered, List.pairwise_singleton _ _, ?_⟩
    intro y hy z hz
    rw [List.mem_singleton.mp hz]
    refine ⟨hafter ▸ (h.during y hy).2, fun htask => hordered y ?_⟩
    exact List.mem_filter.mpr ⟨hy, by simpa using htask⟩
  calls t := by
    rw [madeBy_concat]
    split_ifs with ht
    · rw [List.map_append, ← ht]
      exact hcalls
    · rw [List.append_nil]
      exact h.calls t

end Shared.History

end Aesd.Concurrent
