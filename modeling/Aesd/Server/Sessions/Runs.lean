import Aesd.Library.Progress
import Aesd.Server.Sessions.Sequential

/-!
# Runs of the server

Any number of connections, whatever their clients send and however the network cuts it, in any order
of the steps of their threads.
-/

namespace Aesd.Sessions

open Exec Threads Threaded

variable {n : ℕ} {cfg : KernelConfig} {w : Workload n} {i : Fin n}

lemma start_inv (w : Workload n) :
    Shared.Inv cfg w ⟨.init, w.outcomes, [], [], false⟩ where
  system := System.init_inv cfg
  lseekPos := ⟨le_rfl, (by decide : (0 : ℤ) < 2 ^ 32)⟩
  outcomes := List.suffix_refl _
  carried := rfl
  sound c hc := absurd hc List.not_mem_nil
  plan i := List.nil_prefix
  length_replied := le_rfl
  replied k x hx := by cases hx
  exited hexited := by cases hexited

lemma start_safe (w : Workload n) : (w.start cfg).Safe (protocol cfg w) (Ended cfg w) := by
  refine Config.start_safe (fun mutex => rfl) fun i => ?_
  have hknows : Knows cfg w i none (List.map Segment.bytes []) ⟨.init, w.outcomes, [], [], false⟩ :=
    ⟨start_inv w, rfl, rfl⟩
  exact (deviceCalls_ok cfg w i).connectionHandlerThread hknows (w.awaits i) (w.segs_eq i).1
    (List.nil_append _)

lemma runServer_inv (cfg : KernelConfig) (w : Workload n) (schedule : List (Fin n)) :
    Returns (runServer schedule) (w.start cfg) fun _ c =>
      c.Safe (protocol cfg w) (Ended cfg w) ∧ c.shared.Inv cfg w :=
  (start_safe w).runUntil (start_inv w) (fun _ _ _ _ hguar hs => hguar.inv hs) schedule

/-- What a thread that has ended leaves behind. -/
lemma ended_of_safe {c : Config Fault (Shared n) ServerMutex (Fin n) (HandlerThread Unit)}
    (h : c.Safe (protocol cfg w) (Ended cfg w)) {t : HandlerThread Unit}
    (ht : c.thread i = .ret t) :
    c.shared.system.fPos i = none ∧ c.shared.carriedBy i = w.plan i ∨ c.shared.exited = true := by
  obtain ⟨held, h⟩ := h
  have hok := h.thread i
  rw [ht] at hok
  rcases hok _ (Protocol.Rely.refl _) with ⟨-, hknows⟩ | hexited
  · exact .inl ⟨hknows.fPos, hknows.done⟩
  · exact .inr hexited

/-- No order of the steps faults in the driver. At every moment the ring is well formed, the device
owns exactly what was not freed, and every connection has carried out the first of the segments that
the sequential thread hands on when it receives the same. When its thread has ended it has carried
out all of them, and has closed its file, unless a handler has exited the process; and no handler
does that but after a segment that was not written as a whole. -/
theorem server_safe (cfg : KernelConfig) (w : Workload n) (schedule : List (Fin n)) :
    Returns (runServer schedule) (w.start cfg) fun _ c =>
      c.shared.system.Inv cfg ∧
      (∀ i, Returns (Machine.run (Aesd.connectionHandlerStep recordSegments) (w.input i))
        (.start (w.buffer i) (w.beyond i) (w.residual i) []) fun _ t =>
          c.shared.carriedBy i <+: t.shared ∧
          (c.Ended i → c.shared.exited = false →
            c.shared.carriedBy i = t.shared ∧ c.shared.system.fPos i = none)) ∧
      (c.shared.exited = true → ∃ c' ∈ c.shared.carried, c'.command = .failed) := by
  refine (runServer_inv cfg w schedule).mono ?_
  rintro os c ⟨hsafe, hinv⟩
  refine ⟨hinv.system, fun i => ?_, fun hexited => ?_⟩
  · refine (w.segs_eq i).2.mono ?_
    rintro os' t ht
    rw [ht]
    refine ⟨hinv.plan i, ?_⟩
    rintro ⟨t', ht'⟩ hrunning
    rcases ended_of_safe hsafe ht' with ⟨hclosed, hall⟩ | hexited
    · exact ⟨hall, hclosed⟩
    · rw [hrunning] at hexited
      cases hexited
  · obtain ⟨c', hc', hok⟩ := hinv.exited hexited
    exact ⟨c', hc', by simpa [Carried.ok] using hok⟩

/-- One client sends a line and closes its connection, another one sends a line and waits. -/
def twoClients : Workload 2 where
  buffer _ := List.replicate bufferSize 0
  beyond _ := []
  residual _ := List.replicate bufferSize 0
  input i := if i = 0 then [.data [97, 98, newline], .closed] else [.data [99, newline]]
  outcomes := []
  length_buffer _ := List.length_replicate
  fits i := by
    fin_cases i
    · exact ⟨by decide, fun _ _ _ => ⟨Nat.zero_le _, fun _ _ _ => trivial⟩⟩
    · exact ⟨by decide, fun _ _ _ => trivial⟩

/-- A segment in a server with one connection, and whether the process goes on after it. -/
def sequentialSegment (cfg : KernelConfig) (c : Carried n) : Exec Fault System Bool := do
  let command ← segmentCommand cfg 0 c.segment c.outcomes
  pure (command ≠ .failed)

/-- The segments that were carried out came to what they come to in a server with one connection, in
the order in which their threads had `FileMutex`: the same lines are stored, the same is left on the
stage, and the same ones were not written as a whole. -/
theorem segments_serialised (cfg : KernelConfig) (w : Workload n) (schedule : List (Fin n)) :
    Returns (runServer schedule) (w.start cfg) fun _ c =>
      Returns (Machine.run (sequentialSegment cfg) c.shared.carried) .opened fun oks s =>
        oks = c.shared.carried.map Carried.ok ∧
        s.kernel.lines = c.shared.system.kernel.lines ∧
        s.kernel.stage = c.shared.system.kernel.stage := by
  have hstep : ∀ (c : Carried n) (s : System) log,
      (s.Inv cfg ∧ (∃ p, s.fPos 0 = some p) ∧
        (0 ≤ s.kernel.dev.lseekPos ∧ s.kernel.dev.lseekPos < 2 ^ 32) ∧
        (s.kernel.lines, s.kernel.stage) = log) →
      Returns (sequentialSegment cfg c) s fun ok s' => ok = (c.submit cfg log).1 ∧
        s'.Inv cfg ∧ (∃ p, s'.fPos 0 = some p) ∧
        (0 ≤ s'.kernel.dev.lseekPos ∧ s'.kernel.dev.lseekPos < 2 ^ 32) ∧
        (s'.kernel.lines, s'.kernel.stage) = (c.submit cfg log).2 := by
    rintro c s _ ⟨hs, ⟨p, hp⟩, hpos, rfl⟩
    obtain ⟨command, s', hcommand, hs', hfPos, hpos', hsubmit⟩ := segmentCommand_submit hs hp hpos c
    refine .step hcommand ⟨_, s', rfl, ?_⟩
    rw [hsubmit]
    exact ⟨rfl, hs', ⟨p, by rw [hfPos, hp]⟩, hpos', rfl⟩
  refine (runServer_inv cfg w schedule).mono ?_
  rintro os c ⟨-, hinv⟩
  have hrun := Machine.run_simulates hstep c.shared.carried (s := System.opened) (t := ([], none))
    ⟨(System.opened_reachable cfg).inv, ⟨0, rfl⟩, ⟨le_rfl, (by decide : (0 : ℤ) < 2 ^ 32)⟩, rfl⟩
  refine hrun.mono ?_
  rintro oks s ⟨hoks, -, -, -, hlog⟩
  have hreplay := hinv.carried
  rw [replay] at hreplay
  rw [hreplay] at hoks hlog
  exact ⟨hoks, congrArg Prod.fst hlog, congrArg Prod.snd hlog⟩

/-! ### The replies -/

end Aesd.Sessions
