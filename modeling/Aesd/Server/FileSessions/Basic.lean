import Aesd.Library.Signals
import Aesd.Server.FileMode
import Aesd.Server.Threaded.Sequential

/-!
# The server on a regular file, with its timer

With `USE_AESD_CHAR_DEVICE` at 0, the handler threads write to a file, and every ten seconds the
timer sends a signal to the process. `TimeStamper` runs on whichever thread the signal is delivered
to, and locks `FileMutex` there like a handler does.

Every open file has an offset of its own. A reply is sent from a mapping of the file, and `open`
cuts the file to nothing without a look at who is sending; it never cuts it to anything else.

`FileServer` is the same file with less around it: its writers take their steps in any order that
their phases allow, its calls on the file do not fail, its chunks hold complete lines, and a run of
the signal handler is a writer of its own, which no thread has to wait for. Here the threads run
their programs, calls fail, lines come in pieces, and the signal handler keeps its thread waiting.

Every `send` is taken to return, and to raise no signal. Left out are what `sscanf` and `syslog`
read behind the buffer, the `fail` after `getpeername`, and the end of the main thread.
-/

namespace Aesd.FileSessions

open Exec Threads Threaded

variable {n : ℕ}

/-- The threads of the process. -/
inductive ServerThread (n : ℕ) where
  | main
  | receiver
  | handler (i : Fin n)
  deriving DecidableEq, Repr

/-- Who opens the file and writes to it: the program of a thread, or `TimeStamper` on a thread. -/
abbrev Frame (n : ℕ) := ServerThread n ⊕ ServerThread n

/-- What the kernel decides for a call on the file: whether an `open` fails, and how many of the
bytes a `write` or a `send` leaves out. -/
structure FileOutcome where
  openFails : Bool := false
  notWritten : ℕ := 0
  notSent : ℕ := 0
  deriving DecidableEq, Repr

/-- A segment that a connection has carried out, and whether its thread goes on after it. -/
structure Carried (n : ℕ) where
  connection : Fin n
  segment : Segment
  ok : Bool

/-- A reply: what `fstat` found in the file, and what `send` took of it. -/
structure FileReply (n : ℕ) where
  connection : Fin n
  content : List Byte
  delivered : List Byte

/-- What all threads share, and a record of what they did. `fileFD` holds the offset of the file
that a frame has open. -/
structure Shared (n : ℕ) where
  data : List Byte
  fileFD : Frame n → Option ℕ
  outcomes : List FileOutcome
  carried : List (Carried n)
  written : List (Frame n × List Byte)
  replied : List (FileReply n)
  exited : Bool

abbrev FileM (n : ℕ) := Prog Fault (Shared n) ServerMutex

/-! ### The calls on the file -/

/-- The outcome of the next call. -/
def nextOutcome : Exec Fault (Shared n) FileOutcome := do
  let o ← read fun s => s.outcomes.headD {}
  update fun s => { s with outcomes := s.outcomes.tail }
  pure o

/-- `open` with `O_RDWR | O_CREAT | O_TRUNC`. If it fails, the descriptor is -1. -/
def openFile (f : Frame n) : Exec Fault (Shared n) Unit := do
  let o ← nextOutcome
  if o.openFails then update fun s => { s with fileFD := Function.update s.fileFD f none }
  else update fun s => { s with data := [], fileFD := Function.update s.fileFD f (some 0) }

/-- `write`, at the offset of the file, which it moves. -/
def writeFile (f : Frame n) (bytes : List Byte) : Exec Fault (Shared n) ℤ := do
  let o ← nextOutcome
  match ← read fun s => s.fileFD f with
  | none => pure (-1)
  | some offset => do
    let done := bytes.take (bytes.length - o.notWritten)
    update fun s => { s with
      data := File.writeAt 0 s.data offset done
      fileFD := Function.update s.fileFD f (some (offset + done.length))
      written := s.written ++ [(f, done)] }
    pure done.length

def closeFile (f : Frame n) : Exec Fault (Shared n) Unit :=
  update fun s => { s with fileFD := Function.update s.fileFD f none }

/-- `fstat` and `mmap`: the content whose size `st_size` is. -/
def mapFile (f : Frame n) : Exec Fault (Shared n) (Option (List Byte)) :=
  read fun s => (s.fileFD f).map fun _ => s.data

/-- `send` of the mapping, as far as the file still reaches. It returns at once. -/
def sendMap (i : Fin n) : Option (List Byte) → Exec Fault (Shared n) Unit
  | none => pure ()
  | some content => do
    let o ← nextOutcome
    update fun s => { s with
      replied := s.replied ++
        [⟨i, content, (s.data.take content.length).take (content.length - o.notSent)⟩] }

/-! ### The programs -/

/-- The end of a segment, up to the reply: whether `write` has written it. A command goes to
`ioctl`, which fails on a regular file and is not looked at. -/
def carryOut (i : Fin n) (seg : Segment) : Exec Fault (Shared n) Bool := do
  let ok ← if (findSeek seg.segmentPtr).isSome then pure true
    else do
      let written ← writeFile (.inl (.handler i)) seg.bytes
      pure (decide (written = seg.segmentLen))
  update fun s => { s with carried := s.carried ++ [⟨i, seg, ok⟩] }
  pure ok

/-- What `ProcessBuffer` does at the end of a segment. `fail` exits the process, with `FileMutex`
locked. -/
def handleSegment (i : Fin n) (seg : Segment) : FileM n Bool := do
  Prog.acquire .fileMutex
  if ← Prog.step (carryOut i seg) then
    let content ← Prog.step (mapFile (.inl (.handler i)))
    Prog.step (sendMap i content)
    Prog.release .fileMutex
    pure true
  else
    Prog.step (update fun s => { s with exited := true })
    pure false

/-- What the thread of a connection does with the file. -/
def fileCalls (i : Fin n) : ThreadCalls (Shared n) ServerMutex where
  openFile := Prog.step (openFile (.inl (.handler i)))
  handle := handleSegment i
  closeFile := Prog.step (closeFile (.inl (.handler i)))

/-- `TimeStamper` on thread `t`, with the time as `strftime` prints it. -/
def timeStamper (t : ServerThread n) (time : List Byte) : FileM n Unit := do
  Prog.acquire .fileMutex
  Prog.step (openFile (.inr t))
  let _ ← Prog.step (writeFile (.inr t) (FileServer.timeStringBase ++ time))
  Prog.step (closeFile (.inr t))
  Prog.release .fileMutex

/-! ### All threads -/

/-- What the clients, the network and the kernel do to the server, with the outcomes of all calls on
the file. A `recv` that a signal interrupts is one that fails. -/
structure Workload (n : ℕ) extends Clients n where
  outcomes : List FileOutcome

/-- What runs at the start. The main thread and the receiver have nothing to do with the file, and
no signal has been delivered yet. -/
def Workload.program (w : Workload n) : Frame n → FileM n Unit
  | .inl (.handler i) => do
    let _ ← Threaded.connectionHandlerThread (fileCalls i) (w.input i) (w.thread i)
    pure ()
  | _ => pure ()

/-- The server when all connections were accepted. -/
def Workload.start (w : Workload n) : Config Fault (Shared n) ServerMutex (Frame n) Unit :=
  .start ⟨[], fun _ => none, w.outcomes, [], [], [], false⟩ w.program

/-- A step of a thread, or a signal of the timer at the time that `strftime` prints. -/
abbrev ServerEvent (n : ℕ) := Threads.Event (ServerThread n) (List Byte)

/-- A step of the server, or a signal of the timer. When the process has exited nothing happens any
more. -/
abbrev fileEvent : ServerEvent n →
    Exec Fault (Config Fault (Shared n) ServerMutex (Frame n) Unit) Unit :=
  Config.event Shared.exited .notLocked timeStamper

/-- A run of the server. -/
abbrev runFileServer (events : List (ServerEvent n)) :
    Exec Fault (Config Fault (Shared n) ServerMutex (Frame n) Unit) (List Unit) :=
  Machine.run fileEvent events

end Aesd.FileSessions
