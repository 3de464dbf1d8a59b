import Aesd.Server.Sessions.Handler

/-!
# A thread by itself

The calls of a thread on the device, as long as it is alone, are those of the sequential
`ConnectionHandlerThread`.
-/

namespace Aesd.Sessions

open Exec Threads Threaded

variable {n : ℕ} {cfg : KernelConfig} {i : Fin n}

lemma nextCall_projects {α : Type} (m : Outcomes → Exec Fault System α) :
    Projects Shared.server (nextCall m : Exec Fault (Shared n) α) (Aesd.nextCall m) := by
  intro s
  simp only [nextCall, Aesd.nextCall, Shared.server]
  cases m (s.outcomes.headD {}) s.system with
  | error e => rfl
  | ok p => rfl

lemma replyLoop_projects (fuel : ℕ) :
    Projects Shared.server (replyLoop cfg i fuel).alone (Aesd.replyLoop cfg i fuel) := by
  induction fuel with
  | zero => exact Projects.fault _
  | succ fuel ih =>
    rw [replyLoop, Aesd.replyLoop, Prog.alone_bind, Prog.alone_step]
    refine (nextCall_projects _).bind fun r => ?_
    split_ifs
    · rw [Prog.alone_bind]
      exact ih.bind fun reply => Projects.pure _
    · exact Projects.pure _

/-- The reply is recorded, and the mutex is unlocked. -/
lemma recordReply_projects (x : Served) :
    Projects Shared.server (Prog.alone (do
      Prog.step (update fun s => { s with replied := s.replied ++ [(i, x)] })
      Prog.release .fileMutex
      pure true : HandlerM n Bool)) (do
      update fun t => { t with served := t.served ++ [x] }
      pure true) := by
  intro s
  rw [Prog.alone_bind, Prog.alone_step]
  change Except.ok _ = _
  simp [Shared.server]

lemma handleSegment_projects (seg : Segment) :
    Projects Shared.server (handleSegment cfg i seg).alone (Aesd.handleSegment cfg i seg) := by
  intro s
  have hcall := nextCall_projects (n := n) (segmentCommand cfg i seg) s
  rw [Aesd.handleSegment, bind_apply, ← hcall, handleSegment]
  change Except.map _ ((Prog.step (carryOut cfg i seg) >>= _ : HandlerM n Bool).alone s) = _
  rw [Prog.alone_bind, Prog.alone_step]
  cases hcommand : nextCall (segmentCommand cfg i seg) s with
  | error e =>
    have hcarry : carryOut cfg i seg s = .error e := by
      rw [carryOut, read_bind_apply, bind_apply, hcommand]
    rw [bind_apply, hcarry]
    rfl
  | ok p =>
    obtain ⟨command, s₁⟩ := p
    set s₂ : Shared n := { s₁ with
      carried := s₁.carried ++ [⟨i, seg, s.outcomes.headD {}, command⟩] } with hs₂
    have hcarry : carryOut cfg i seg s = .ok ((command, s₂.server), s₂) := by
      rw [carryOut, read_bind_apply, bind_ok hcommand]
      rfl
    rw [bind_ok hcarry]
    dsimp only
    simp only [Except.map]
    by_cases hfailed : command = .failed
    · rw [if_pos hfailed, if_pos hfailed]
      rfl
    · rw [if_neg hfailed, if_neg hfailed, Prog.alone_bind]
      exact (replyLoop_projects _).bind (fun reply => recordReply_projects
        ⟨⟨seg.bytes, command, s₂.system, reply⟩, s₂.outcomes⟩) s₂

lemma fileCall_projects (op : FileOp) :
    Projects Shared.server (fileCall cfg i op : HandlerM n Unit).alone (do
      let _ ← Aesd.nextCall fun o => sysCall cfg ⟨i, op, o⟩
      pure ()) := by
  rw [fileCall, Prog.alone_bind, Prog.alone_step]
  exact (nextCall_projects _).bind fun _ => Projects.pure _

lemma deviceCalls_projects (cfg : KernelConfig) (i : Fin n) :
    (deviceCalls cfg i).Projects Shared.server (deviceFile cfg i) where
  openFile := fileCall_projects .open
  handle := handleSegment_projects
  closeFile := fileCall_projects .release

/-- A thread of the server that is alone does what the sequential `ConnectionHandlerThread` does on
the char device. -/
theorem deviceThread_alone (cfg : KernelConfig) (i : Fin n) (rs : List Recv)
    (t : HandlerThread Unit) (s : Shared n) :
    ((Threaded.connectionHandlerThread (deviceCalls cfg i) rs t).alone s).map
        (sequential Shared.server)
      = (Machine.run (Aesd.connectionHandlerStep (deviceFile cfg i)) rs
          (withShared t s.server)).map Prod.snd :=
  connectionHandlerThread_alone (deviceCalls_projects cfg i) rs t s

end Aesd.Sessions
