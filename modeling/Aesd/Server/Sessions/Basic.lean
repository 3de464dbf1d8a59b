import Aesd.Server.Reply
import Aesd.Server.Threaded.Sequential

/-!
# The server with all its connections

Every connection has a thread of its own that runs `ConnectionHandlerThread`, with whatever the
client and the network do to it. A system call is one access to what the threads share: of the calls
outside `FileMutex`, `open` touches nothing but the new file, and `close` only sets the position of
the device. Everything else that a thread works on is its own.

`Handlers` is about the same connections, but from any reachable system on, with chunks of one line
each, with `recv` and `open` as one step, and with events in any order that the phases of a handler
allow. Here the threads run their programs, on the device as it was loaded, and lines come in
pieces.

Every `send` is taken to return, and to raise no signal. Left out are what `sscanf` and `syslog`
read behind the buffer, the `fail` after `getpeername`, and the end of the main thread.

Next to the system there is a record of the segments that were carried out, in their order, and of
the replies that were finished.
-/

namespace Aesd.Sessions

open Exec Threads Threaded

variable {n : ℕ}

/-- A segment that a connection has carried out, and what the kernel decided for it. -/
structure Carried (n : ℕ) where
  connection : Fin n
  segment : Segment
  outcomes : Outcomes
  command : Commanded

/-- What all threads share. The outcomes are those of all calls to come, whoever makes them. -/
structure Shared (n : ℕ) where
  system : System
  outcomes : List Outcomes
  carried : List (Carried n)
  replied : List (Fin n × Served)
  exited : Bool

abbrev HandlerM (n : ℕ) := Prog Fault (Shared n) ServerMutex

/-- Make a system call with the outcomes that come next. -/
def nextCall {α : Type} (m : Outcomes → Exec Fault System α) : Exec Fault (Shared n) α := fun s =>
  match m (s.outcomes.headD {}) s.system with
  | .ok (a, system) => .ok (a, { s with system, outcomes := s.outcomes.tail })
  | .error e => .error e

/-- The shared state as one connection sees it. -/
def Shared.server (s : Shared n) : Server := ⟨s.system, s.outcomes, s.replied.map Prod.snd⟩

/-! ### One segment -/

/-- The `ioctl` or the `write`, and the state that it leaves for the reply. -/
def carryOut (cfg : KernelConfig) (i : Fin n) (seg : Segment) :
    Exec Fault (Shared n) (Commanded × Server) := do
  let o ← read fun s => s.outcomes.headD {}
  let command ← nextCall (segmentCommand cfg i seg)
  update fun s => { s with carried := s.carried ++ [⟨i, seg, o, command⟩] }
  let t ← read Shared.server
  pure (command, t)

/-- The loop that sends what it reads until a read returns nothing. -/
def replyLoop (cfg : KernelConfig) (i : Fin n) : ℕ → HandlerM n (List Byte)
  | 0 => .fault .outOfFuel
  | fuel + 1 => do
    let r ← Prog.step (nextCall (readReply cfg i))
    if 0 < r.retVal then
      let reply ← replyLoop cfg i fuel
      pure (r.delivered ++ reply)
    else pure []

/-- What `ProcessBuffer` does at the end of a segment. `fail` exits the process, with `FileMutex`
locked. A `send` returns at once and is not looked at. -/
def handleSegment (cfg : KernelConfig) (i : Fin n) (seg : Segment) : HandlerM n Bool := do
  Prog.acquire .fileMutex
  let (command, t) ← Prog.step (carryOut cfg i seg)
  if command = .failed then
    Prog.step (update fun s => { s with exited := true })
    pure false
  else
    let reply ← replyLoop cfg i (t.system.kernel.content.length + 1)
    Prog.step (update fun s => { s with
      replied := s.replied ++ [(i, ⟨⟨seg.bytes, command, t.system, reply⟩, t.outcomes⟩)] })
    Prog.release .fileMutex
    pure true

/-- `open`, or `close`, of the device. -/
def fileCall (cfg : KernelConfig) (i : Fin n) (op : FileOp) : HandlerM n Unit := do
  let _ ← Prog.step (nextCall fun o => sysCall cfg ⟨i, op, o⟩)
  pure ()

/-- What the thread of a connection does with the device. -/
def deviceCalls (cfg : KernelConfig) (i : Fin n) : ThreadCalls (Shared n) ServerMutex where
  openFile := fileCall cfg i .open
  handle := handleSegment cfg i
  closeFile := fileCall cfg i .release

/-! ### All threads -/

/-- What the clients, the network and the kernel do to the server, with the outcomes of all system
calls. -/
structure Workload (n : ℕ) extends Clients n where
  outcomes : List Outcomes

/-- The server when all connections were accepted. -/
def Workload.start (cfg : KernelConfig) (w : Workload n) :
    Config Fault (Shared n) ServerMutex (Fin n) (HandlerThread Unit) :=
  .start ⟨.init, w.outcomes, [], [], false⟩ fun i =>
    Threaded.connectionHandlerThread (deviceCalls cfg i) (w.input i) (w.thread i)

/-- A run of the server. When the process has exited, no thread takes a step any more. -/
abbrev runServer (schedule : List (Fin n)) :
    Exec Fault (Config Fault (Shared n) ServerMutex (Fin n) (HandlerThread Unit)) (List Unit) :=
  Machine.run (Config.stepUntil Shared.exited .notLocked) schedule

end Aesd.Sessions
