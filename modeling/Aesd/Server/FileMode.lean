import Aesd.Library.Machine
import Aesd.Library.WriteAt
import Aesd.Server.ProcessBuffer

/-!
# The server on a regular file

With `USE_AESD_CHAR_DEVICE` at 0, any number of handlers and the signal handler of the timer write
to one file. Each of them opens it for itself, truncates it, and writes at an offset of its own;
what is written, and not where, is under `FileMutex`. The calls on the file do not fail, and a run
of the signal handler is a writer like the handlers. `FileSessions` has the programs of the threads,
calls that fail, and the thread that a signal interrupts.
-/

namespace Aesd

open Exec Delimited

/-- A thread of control that writes: a handler, or a run of the signal handler. -/
abbrev Writer := ℕ

/-- Where a writer is; `fileFD` is the offset of the file that it has opened. A handler is waiting
for a chunk; behind `open`, with the segments that are left; behind the lock; or behind the write,
until it has sent its reply, which changes nothing here, and unlocks. `TimeStamper` is behind the
lock, behind `open`, behind `write` or behind `close`. -/
inductive FilePhase where
  | waiting
  | opened (fileFD : ℕ) (segs : List Segment)
  | locked (fileFD : ℕ) (seg : Segment) (segs : List Segment)
  | handled (fileFD : ℕ) (segs : List Segment)
  | stamping
  | stampOpened (fileFD : ℕ) (timeString : List Byte)
  | stampWritten (fileFD : ℕ)
  | stampClosed

/-- The file, the lock, the writers, and what each of them has written, in the order of the critical
sections. -/
structure FileServer where
  data : List Byte
  fileMutex : Option Writer
  phase : Writer → FilePhase
  written : List (Writer × List Byte)

/-- The next step of a writer: `receive` takes a chunk and what lies in the memory behind it, and
`stampOpen` the time as `strftime` prints it. -/
inductive FileStep where
  | receive (chunk beyond : List Byte)
  | lock
  | command
  | unlock
  | close
  | stampLock
  | stampOpen (time : List Byte)
  | stampWrite
  | stampClose
  | stampUnlock
  deriving DecidableEq, Repr

structure FileEvent where
  writer : Writer
  step : FileStep
  deriving DecidableEq, Repr

namespace FileServer

def goOn (s : FileServer) (w : Writer) (phase : FilePhase) : FileServer :=
  { s with phase := Function.update s.phase w phase }

/-- `open` with `O_RDWR | O_CREAT | O_TRUNC`. The offset of the new file is 0. -/
def openFile (s : FileServer) (w : Writer) (phase : ℕ → FilePhase) : FileServer :=
  { s.goOn w (phase 0) with data := [] }

/-- `write`, which succeeds: at the offset of the file, which it moves. -/
def writeFile (s : FileServer) (w : Writer) (fileFD : ℕ) (bytes : List Byte)
    (phase : ℕ → FilePhase) : FileServer :=
  { s.goOn w (phase (fileFD + bytes.length)) with
    data := File.writeAt 0 s.data fileFD bytes
    written := s.written ++ [(w, bytes)] }

/-- `pthread_mutex_lock`, which waits while another writer holds `FileMutex`. -/
def lock (s : FileServer) (w : Writer) (phase : FilePhase) : FileServer :=
  if s.fileMutex = none then { s.goOn w phase with fileMutex := some w } else s

def unlock (s : FileServer) (w : Writer) (phase : FilePhase) : FileServer :=
  { s.goOn w phase with fileMutex := none }

/-- `timestamp:` -/
def timeStringBase : List Byte := [116, 105, 109, 101, 115, 116, 97, 109, 112, 58]

/-- One step of one writer. A chunk holds complete lines. A line that `FindSeek` takes for a command
goes to `ioctl`, which fails on a regular file and is not looked at. A step that is not the next one
of its writer does nothing. -/
def next (s : FileServer) (e : FileEvent) : FileServer :=
  match e.step, s.phase e.writer with
  | .receive chunk beyond, .waiting =>
    if chunk ≠ [] ∧ rest newline chunk = [] then
      s.openFile e.writer fun fileFD =>
        .opened fileFD (segments (chunk ++ beyond) chunk.length 0 0)
    else s
  | .lock, .opened fileFD (seg :: segs) => s.lock e.writer (.locked fileFD seg segs)
  | .command, .locked fileFD seg segs =>
    if (findSeek seg.segmentPtr).isSome then s.goOn e.writer (.handled fileFD segs)
    else s.writeFile e.writer fileFD seg.bytes fun fileFD => .handled fileFD segs
  | .unlock, .handled fileFD segs => s.unlock e.writer (.opened fileFD segs)
  | .close, .opened _ [] => s.goOn e.writer .waiting
  | .stampLock, .waiting => s.lock e.writer .stamping
  | .stampOpen time, .stamping =>
    s.openFile e.writer fun fileFD => .stampOpened fileFD (timeStringBase ++ time)
  | .stampWrite, .stampOpened fileFD timeString =>
    s.writeFile e.writer fileFD timeString .stampWritten
  | .stampClose, .stampWritten _ => s.goOn e.writer .stampClosed
  | .stampUnlock, .stampClosed => s.unlock e.writer .waiting
  | _, _ => s

/-- The server after `main` has opened the file once and closed it. -/
def start : FileServer := ⟨[], none, fun _ => .waiting, []⟩

end FileServer

def fileStep (e : FileEvent) : Exec Fault FileServer Unit := update fun s => s.next e

/-- What a step must not do: open the file when something has been written to it, or write when
another writer has. -/
def FileEvent.Accumulates (s : FileServer) (e : FileEvent) : Prop :=
  match e.step, s.phase e.writer with
  | .receive chunk _, .waiting => chunk ≠ [] ∧ rest newline chunk = [] → s.written = []
  | .command, .locked _ seg _ =>
    ¬ (findSeek seg.segmentPtr).isSome → ∀ x ∈ s.written, x.1 = e.writer
  | .stampOpen _, .stamping => s.written = []
  | .stampWrite, .stampOpened _ _ => ∀ x ∈ s.written, x.1 = e.writer
  | _, _ => True

/-! ### The offsets -/

/-- The offset of the file that a writer has open. -/
def FilePhase.offset : FilePhase → Option ℕ
  | .opened fileFD _ => some fileFD
  | .locked fileFD _ _ => some fileFD
  | .handled fileFD _ => some fileFD
  | .stampOpened fileFD _ => some fileFD
  | .stampWritten fileFD => some fileFD
  | _ => none

/-- What a writer will still write. -/
def FilePhase.toWrite : FilePhase → List (List Byte)
  | .opened _ segs => segs.map Segment.bytes
  | .locked _ seg segs => (seg :: segs).map Segment.bytes
  | .handled _ segs => segs.map Segment.bytes
  | .stampOpened _ timeString => [timeString]
  | _ => []

/-- The offset counts what the writer has written, and it will not write nothing. -/
structure FilePhase.Counts (written : List (Writer × List Byte)) (w : Writer) (phase : FilePhase) :
    Prop where
  offset : ∀ n ∈ phase.offset, n = (File.writtenBy w written).length
  toWrite : ∀ bytes ∈ phase.toWrite, bytes ≠ []

/-- The file holds what was written, and every offset counts what its writer has written. -/
structure FileServer.Counts (s : FileServer) : Prop where
  data : s.data = File.all s.written
  phase : ∀ w, (s.phase w).Counts s.written w
  written : ∀ x ∈ s.written, x.2 ≠ []

namespace FileServer.Counts

variable {s : FileServer} {w : Writer}

lemma start : FileServer.start.Counts where
  data := rfl
  phase _ := ⟨fun _ h => absurd h (Option.not_mem_none _), fun _ h => absurd h List.not_mem_nil⟩
  written _ h := absurd h List.not_mem_nil

/-- A writer that goes on without opening and writing. -/
lemma goOn (h : s.Counts) {phase : FilePhase} (hoffset : ∀ n ∈ phase.offset, n ∈ (s.phase w).offset)
    (htoWrite : phase.toWrite ⊆ (s.phase w).toWrite) (m : Option Writer) :
    FileServer.Counts { s.goOn w phase with fileMutex := m } where
  data := h.data
  phase := by
    refine (Function.forall_update_iff s.phase fun v phase => phase.Counts s.written v).mpr ⟨?_, ?_⟩
    · exact ⟨fun n hn => (h.phase w).offset n (hoffset n hn),
        fun bytes hbytes => (h.phase w).toWrite bytes (htoWrite hbytes)⟩
    · intro v _
      exact h.phase v
  written := h.written

/-- Opening the file keeps what is in it only if there is nothing. -/
lemma openFile (h : s.Counts) {phase : ℕ → FilePhase} (hoffset : (phase 0).offset = some 0)
    (htoWrite : ∀ bytes ∈ (phase 0).toWrite, bytes ≠ []) :
    s.written = [] ∧ (s.openFile w phase).Counts ∨
    ¬ s.written = [] ∧ (s.openFile w phase).data ≠ File.all (s.openFile w phase).written := by
  by_cases hempty : s.written = []
  · refine .inl ⟨hempty, ?_, ?_, h.written⟩
    · change [] = File.all s.written
      rw [hempty]
      rfl
    · refine (Function.forall_update_iff s.phase fun v phase => phase.Counts s.written v).mpr
        ⟨⟨?_, htoWrite⟩, fun v _ => h.phase v⟩
      intro n hn
      rw [hoffset] at hn
      cases hn
      rw [hempty]
      rfl
  · refine .inr ⟨hempty, ?_⟩
    intro hnil
    exact hempty ((File.all_eq_nil_iff h.written).mp hnil.symm)

/-- A write appends only if nobody else has written. -/
lemma writeFile (h : s.Counts) {fileFD : ℕ} {bytes : List Byte} {phase : ℕ → FilePhase}
    (hopen : (s.phase w).offset = some fileFD) (hbytes : bytes ∈ (s.phase w).toWrite)
    (hoffset : (phase (fileFD + bytes.length)).offset = some (fileFD + bytes.length))
    (htoWrite : (phase (fileFD + bytes.length)).toWrite ⊆ (s.phase w).toWrite) :
    (∀ x ∈ s.written, x.1 = w) ∧ (s.writeFile w fileFD bytes phase).Counts ∨
    ¬ (∀ x ∈ s.written, x.1 = w) ∧ (s.writeFile w fileFD bytes phase).data
      ≠ File.all (s.writeFile w fileFD bytes phase).written := by
  have hne := (h.phase w).toWrite bytes hbytes
  have hmine := (h.phase w).offset fileFD hopen
  have hall : File.all (s.written ++ [(w, bytes)]) = s.data ++ bytes := by
    rw [File.all_append, File.all_singleton, h.data]
  have hiff : File.writeAt 0 s.data fileFD bytes = File.all (s.written ++ [(w, bytes)]) ↔
      ∀ x ∈ s.written, x.1 = w := by
    rw [hall, File.writeAt_eq_append_iff hne, hmine, h.data, File.length_writtenBy_eq_iff h.written]
  by_cases halone : ∀ x ∈ s.written, x.1 = w
  · refine .inl ⟨halone, hiff.mpr halone, ?_, ?_⟩
    · refine (Function.forall_update_iff s.phase
        fun v phase => phase.Counts (s.written ++ [(w, bytes)]) v).mpr ⟨⟨?_, ?_⟩, ?_⟩
      · intro n hn
        rw [hoffset] at hn
        cases hn
        rw [File.writtenBy_append, if_pos rfl, List.length_append, ← hmine]
      · intro bytes' hbytes'
        exact (h.phase w).toWrite bytes' (htoWrite hbytes')
      · intro v hv
        refine ⟨fun n hn => ?_, (h.phase v).toWrite⟩
        rw [File.writtenBy_append, if_neg (Ne.symm hv)]
        exact (h.phase v).offset n hn
    · intro x hx
      rcases List.mem_append.mp hx with hx | hx
      · exact h.written x hx
      · rw [List.mem_singleton.mp hx]
        exact hne
  · exact .inr ⟨halone, fun heq => halone (hiff.mp heq)⟩

end FileServer.Counts

/-! ### Every run -/

/-- The segments of a chunk are not empty. -/
lemma bytes_ne_nil_of_mem_segments {chunk beyond : List Byte} {seg : Segment}
    (h : seg ∈ segments (chunk ++ beyond) chunk.length 0 0) : seg.bytes ≠ [] := by
  obtain ⟨line, hline⟩ := exists_line_of_mem_segments (by simp) h
  rw [hline]
  exact List.append_ne_nil_of_right_ne_nil _ (List.cons_ne_nil _ _)

/-- What a step of the writer `w` does, and what it takes for it to accumulate. -/
inductive FileServer.Does (s : FileServer) (w : Writer) (accumulates : Prop) :
    FileServer → Prop where
  | opens {phase : ℕ → FilePhase} (h : accumulates ↔ s.written = [])
      (hoffset : (phase 0).offset = some 0) (htoWrite : ∀ bytes ∈ (phase 0).toWrite, bytes ≠ []) :
      Does s w accumulates (s.openFile w phase)
  | writes {fileFD : ℕ} {bytes : List Byte} {phase : ℕ → FilePhase}
      (h : accumulates ↔ ∀ x ∈ s.written, x.1 = w)
      (hopen : (s.phase w).offset = some fileFD) (hbytes : bytes ∈ (s.phase w).toWrite)
      (hoffset : (phase (fileFD + bytes.length)).offset = some (fileFD + bytes.length))
      (htoWrite : (phase (fileFD + bytes.length)).toWrite ⊆ (s.phase w).toWrite) :
      Does s w accumulates (s.writeFile w fileFD bytes phase)
  | goesOn {phase : FilePhase} {m : Option Writer} (h : accumulates)
      (hoffset : ∀ n ∈ phase.offset, n ∈ (s.phase w).offset)
      (htoWrite : phase.toWrite ⊆ (s.phase w).toWrite) :
      Does s w accumulates { s.goOn w phase with fileMutex := m }
  | nothing (h : accumulates) : Does s w accumulates s

lemma FileServer.Does.lock {s : FileServer} {w : Writer} {accumulates : Prop} (h : accumulates)
    {phase : FilePhase} (hoffset : ∀ n ∈ phase.offset, n ∈ (s.phase w).offset)
    (htoWrite : phase.toWrite ⊆ (s.phase w).toWrite) : s.Does w accumulates (s.lock w phase) := by
  rw [FileServer.lock]
  split_ifs
  · exact .goesOn h hoffset htoWrite
  · exact .nothing h

/-- Inversion of a step. -/
lemma FileServer.next_does (s : FileServer) (w : Writer) (step : FileStep) :
    s.Does w (FileEvent.Accumulates s ⟨w, step⟩) (s.next ⟨w, step⟩) := by
  cases step with
  | receive chunk beyond =>
    cases hphase : s.phase w <;> simp only [FileServer.next, FileEvent.Accumulates, hphase]
    case waiting =>
      split_ifs with hchunk
      · refine .opens (forall_prop_of_true hchunk) rfl ?_
        intro bytes hbytes
        obtain ⟨seg, hseg, rfl⟩ := List.mem_map.mp hbytes
        exact bytes_ne_nil_of_mem_segments hseg
      · exact .nothing fun h => absurd h hchunk
    all_goals exact .nothing trivial
  | lock =>
    cases hphase : s.phase w <;> simp only [FileServer.next, FileEvent.Accumulates, hphase]
    case opened fileFD segs =>
      cases segs with
      | nil => exact .nothing trivial
      | cons seg segs =>
        refine .lock trivial ?_ ?_
        · rw [hphase]
          exact fun _ hn => hn
        · rw [hphase]
          exact List.Subset.refl _
    all_goals exact .nothing trivial
  | command =>
    cases hphase : s.phase w <;> simp only [FileServer.next, FileEvent.Accumulates, hphase]
    case locked fileFD seg segs =>
      have hopen : (s.phase w).offset = some fileFD := by
        rw [hphase]
        rfl
      have hrest : segs.map Segment.bytes ⊆ (s.phase w).toWrite := by
        rw [hphase]
        exact List.subset_cons_self _ _
      split_ifs with hseek
      · refine .goesOn (m := s.fileMutex) (fun h => absurd hseek h) ?_ hrest
        rw [hopen]
        exact fun _ hn => hn
      · refine .writes (forall_prop_of_true hseek) hopen ?_ rfl hrest
        rw [hphase]
        exact List.mem_cons_self
    all_goals exact .nothing trivial
  | unlock =>
    cases hphase : s.phase w <;> simp only [FileServer.next, FileEvent.Accumulates, hphase]
    case handled fileFD segs =>
      refine .goesOn trivial ?_ ?_
      · rw [hphase]
        exact fun _ hn => hn
      · rw [hphase]
        exact List.Subset.refl _
    all_goals exact .nothing trivial
  | close =>
    cases hphase : s.phase w <;> simp only [FileServer.next, FileEvent.Accumulates, hphase]
    case opened fileFD segs =>
      cases segs with
      | nil =>
        exact .goesOn (m := s.fileMutex) trivial (fun _ hn => by cases hn) (List.nil_subset _)
      | cons seg segs => exact .nothing trivial
    all_goals exact .nothing trivial
  | stampLock =>
    cases hphase : s.phase w <;> simp only [FileServer.next, FileEvent.Accumulates, hphase]
    case waiting => exact .lock trivial (fun _ hn => by cases hn) (List.nil_subset _)
    all_goals exact .nothing trivial
  | stampOpen time =>
    cases hphase : s.phase w <;> simp only [FileServer.next, FileEvent.Accumulates, hphase]
    case stamping =>
      refine .opens Iff.rfl rfl ?_
      intro bytes hbytes
      rw [List.mem_singleton.mp hbytes]
      exact List.cons_ne_nil _ _
    all_goals exact .nothing trivial
  | stampWrite =>
    cases hphase : s.phase w <;> simp only [FileServer.next, FileEvent.Accumulates, hphase]
    case stampOpened fileFD timeString =>
      refine .writes Iff.rfl ?_ ?_ rfl (List.nil_subset _)
      · rw [hphase]
        rfl
      · rw [hphase]
        exact List.mem_cons_self
    all_goals exact .nothing trivial
  | stampClose =>
    cases hphase : s.phase w <;> simp only [FileServer.next, FileEvent.Accumulates, hphase]
    case stampWritten fileFD =>
      exact .goesOn (m := s.fileMutex) trivial (fun _ hn => by cases hn) (List.nil_subset _)
    all_goals exact .nothing trivial
  | stampUnlock =>
    cases hphase : s.phase w <;> simp only [FileServer.next, FileEvent.Accumulates, hphase]
    case stampClosed => exact .goesOn trivial (fun _ hn => by cases hn) (List.nil_subset _)
    all_goals exact .nothing trivial

/-- A step that accumulates keeps the offsets right, and one that does not spoils the file. -/
lemma FileServer.Counts.next {s : FileServer} (h : s.Counts) (e : FileEvent) :
    e.Accumulates s ∧ (s.next e).Counts ∨
    ¬ e.Accumulates s ∧ (s.next e).data ≠ File.all (s.next e).written := by
  have hdoes := s.next_does e.writer e.step
  generalize s.next e = s' at hdoes ⊢
  cases hdoes with
  | opens hiff hoffset htoWrite =>
    rw [hiff]
    exact h.openFile hoffset htoWrite
  | writes hiff hopen hbytes hoffset htoWrite =>
    rw [hiff]
    exact h.writeFile hopen hbytes hoffset htoWrite
  | goesOn haccumulates hoffset htoWrite => exact .inl ⟨haccumulates, h.goOn hoffset htoWrite _⟩
  | nothing haccumulates => exact .inl ⟨haccumulates, h⟩

lemma run_fileStep (events : List FileEvent) (s : FileServer) :
    Returns (Machine.run fileStep events) s fun _ _ => True :=
  Machine.run_invariant (fun e s _ => ⟨(), s.next e, rfl, trivial⟩) events trivial

/-- In every run of any number of handlers and timestamps: the file always holds all that was
written since the start, in order, exactly if it is only ever opened before the first write, and all
writes are made by one writer. -/
theorem fileMode_accumulates_iff (events : List FileEvent) :
    (∀ pre, pre <+: events → Returns (Machine.run fileStep pre) FileServer.start fun _ s =>
      s.data = (s.written.map Prod.snd).flatten) ↔
    Machine.Along fileStep (fun s e _ _ => e.Accumulates s) events FileServer.start := by
  have hstep : ∀ e s o s', s.Counts → True → fileStep e s = .ok (o, s') →
      e.Accumulates s ∧ s'.Counts ∨ ¬ e.Accumulates s ∧ ¬ s'.data = File.all s'.written := by
    intro e s o s' h _ hstep
    cases hstep
    exact h.next e
  have hiff := Machine.always_iff (fun s h => h.data) hstep events FileServer.Counts.start
    (Machine.Along.of_forall (fun _ _ _ _ => trivial) _ _)
  rw [← hiff]
  constructor
  · intro hall pre os s hp hrun
    exact (hall pre hp).post hrun
  · intro hall pre hp
    obtain ⟨os, s, hrun, -⟩ := run_fileStep pre FileServer.start
    exact ⟨os, s, hrun, hall pre os s hp hrun⟩

/-- A second chunk truncates the file. -/
theorem fileMode_truncates :
    ∃ s, Machine.run fileStep
        [⟨0, .receive [97, 10] []⟩, ⟨0, .lock⟩, ⟨0, .command⟩, ⟨0, .unlock⟩, ⟨0, .close⟩,
          ⟨0, .receive [98, 10] []⟩, ⟨0, .lock⟩, ⟨0, .command⟩] FileServer.start
        = .ok (List.replicate 8 (), s) ∧
      s.written.map Prod.snd = [[97, 10], [98, 10]] ∧ s.data = [98, 10] := by
  refine ⟨_, rfl, ?_, ?_⟩
  · decide
  · decide

end Aesd
