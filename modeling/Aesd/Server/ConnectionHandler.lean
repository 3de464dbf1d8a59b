import Aesd.Library.Machine
import Aesd.Server.ProcessBuffer

/-!
# Receiving

`ConnectionHandlerThread`, from one `recv` to the next. The calls on the file are a parameter: what
is handed on to them, and what they do, are two questions.
-/

namespace Aesd

open Exec

/-- The size of `buffer` and of `residual`. -/
abbrev bufferSize : ℕ := 400

/-- How a `recv` ends: with bytes, with a timeout -- and then the thread looks at `closeRequested`
--, at the end of the stream, or with another error. -/
inductive Recv where
  | data (bytes : List Byte)
  | timeout (closeRequested : Bool)
  | closed
  | failed
  deriving DecidableEq, Repr

inductive ThreadStatus where
  | running
  | finished
  | exited
  deriving DecidableEq, Repr

/-- The local variables of `ConnectionHandlerThread`, the memory `beyond` its buffer, and the state
`σ` that its calls work on. -/
structure HandlerThread (σ : Type) where
  buffer : List Byte
  beyond : List Byte
  residual : List Byte
  residualSize : ℕ
  lastCall : Bool
  status : ThreadStatus
  shared : σ

/-- The calls on the file: opening it, handling a segment, and closing it. -/
structure FileCalls (σ : Type) where
  openFile : Exec Fault σ Unit
  handle : Segment → Exec Fault σ Bool
  closeFile : Exec Fault σ Unit

section

variable {σ : Type}

/-- Run a program on the shared state. -/
def onShared {α : Type} (m : Exec Fault σ α) : Exec Fault (HandlerThread σ) α := fun t =>
  match m t.shared with
  | .ok (a, shared) => .ok (a, { t with shared })
  | .error e => .error e

lemma onShared_of_ok {α : Type} {m : Exec Fault σ α} {t : HandlerThread σ} {a : α} {shared : σ}
    (h : m t.shared = .ok (a, shared)) : onShared m t = .ok (a, { t with shared }) := by
  simp only [onShared, h]

lemma of_onShared {α : Type} {m : Exec Fault σ α} {t t' : HandlerThread σ} {a : α}
    (h : onShared m t = .ok (a, t')) : ∃ shared, t' = { t with shared } ∧
      m t.shared = .ok (a, shared) := by
  rw [onShared] at h
  cases hm : m t.shared with
  | error e =>
    rw [hm] at h
    cases h
  | ok p =>
    rw [hm] at h
    cases h
    exact ⟨p.2, rfl, rfl⟩

/-- The copy that the thread makes of what is left over. It copies from the start of its buffer. -/
def HandlerThread.copyResidual (t : HandlerThread σ) : HandlerThread σ :=
  if t.residualSize > 0 then
    { t with residual := t.buffer.take t.residualSize ++ t.residual.drop t.residualSize }
  else t

/-- The end of the loop if the server is about to close. -/
def HandlerThread.breakOnLastCall (t : HandlerThread σ) : HandlerThread σ :=
  if t.lastCall then { t with status := .finished } else t

lemma exists_copyResidual (t : HandlerThread σ) :
    ∃ residual, t.copyResidual = { t with residual } := by
  rw [HandlerThread.copyResidual]
  split_ifs
  · exact ⟨_, rfl⟩
  · exact ⟨t.residual, rfl⟩

/-- What the thread does with the `writtenLen` bytes that were received into its buffer. A segment
that ends the process ends the thread before the file is closed. -/
def handleReceived (file : FileCalls σ) (writtenLen : ℕ) : Exec Fault (HandlerThread σ) Unit := do
  let t ← read id
  onShared file.openFile
  match ← onShared
    (processBuffer file.handle (t.buffer ++ t.beyond) (writtenLen + t.residualSize)
      t.residual) with
  | none => update fun t => { t with status := .exited }
  | some (residual, residualSize) => do
    update fun t => { t with residual, residualSize }
    onShared file.closeFile
    update fun t => t.copyResidual.breakOnLastCall

/-- One turn of the `while` loop of `ConnectionHandlerThread`. -/
def connectionHandlerStep (file : FileCalls σ) (recv : Recv) :
    Exec Fault (HandlerThread σ) Unit := do
  let t ← read id
  if t.status = .running then
    match recv with
    | .data bytes =>
      if bytes = [] then update fun t => { t with status := .finished }
      else
        update fun t => { t with buffer := bytes ++ t.buffer.drop bytes.length }
        handleReceived file bytes.length
    | .timeout closeRequested =>
      update fun t => { t with lastCall := t.lastCall || closeRequested }
    | .closed => update fun t => { t with status := .finished }
    | .failed => update fun t => { t with status := .finished }
  else pure ()

/-- The thread at the start of its loop; the contents of its memory are arbitrary. -/
def HandlerThread.start (buffer beyond residual : List Byte) (shared : σ) : HandlerThread σ :=
  ⟨buffer, beyond, residual, 0, false, .running, shared⟩

/-- The size that the next `recv` asks for. -/
def HandlerThread.recvSize (t : HandlerThread σ) : ℕ := bufferSize - t.residualSize

/-- The part of the buffer that is processed after `bytes` were received. -/
def HandlerThread.processed (t : HandlerThread σ) (bytes : List Byte) : List Byte :=
  (bytes ++ t.buffer.drop bytes.length).take (bytes.length + t.residualSize)

/-- The bytes that a `recv` brings. -/
def Recv.bytes : Recv → List Byte
  | .data bytes => bytes
  | _ => []

/-- A call that brings something. -/
lemma exists_data {r : Recv} (h : r.bytes ≠ []) : ∃ bytes, r = .data bytes := by
  cases r with
  | data bytes => exact ⟨bytes, rfl⟩
  | _ => exact absurd rfl h

/-- The stream that was received. -/
def received (rs : List Recv) : List Byte := rs.flatMap Recv.bytes

/-! ### Calls that bring nothing -/

section

variable {t : HandlerThread σ} {r : Recv}

/-- A timeout changes nothing but `lastCall`. -/
lemma connectionHandlerStep_timeout (file : FileCalls σ) (b : Bool) (hrun : t.status = .running) :
    connectionHandlerStep file (.timeout b) t
      = .ok ((), { t with lastCall := t.lastCall || b }) := by
  rw [connectionHandlerStep, read_bind_apply, id, if_pos hrun, update_apply]

/-- A call that brings nothing and has not timed out ends the loop. -/
lemma connectionHandlerStep_ended (file : FileCalls σ) (hrun : t.status = .running)
    (hnil : r.bytes = []) (hr : ∀ b, r ≠ .timeout b) :
    connectionHandlerStep file r t = .ok ((), { t with status := .finished }) := by
  cases r with
  | timeout b => exact absurd rfl (hr b)
  | closed => rw [connectionHandlerStep, read_bind_apply, id, if_pos hrun, update_apply]
  | failed => rw [connectionHandlerStep, read_bind_apply, id, if_pos hrun, update_apply]
  | data bytes =>
    obtain rfl : bytes = [] := hnil
    rw [connectionHandlerStep, read_bind_apply, id, if_pos hrun, if_pos rfl, update_apply]

end

/-! ### One chunk -/

section

open Delimited

variable {t : HandlerThread σ} {bytes : List Byte}

lemma length_processed (hbuffer : t.buffer.length = bufferSize)
    (hsize : t.residualSize ≤ bufferSize) (hlen : bytes.length ≤ t.recvSize) :
    (t.processed bytes).length = bytes.length + t.residualSize := by
  rw [HandlerThread.recvSize] at hlen
  rw [HandlerThread.processed, List.length_take, List.length_append, List.length_drop]
  omega

/-- The thread after a chunk that it processed to its end. -/
structure HandlerThread.After (t : HandlerThread σ) (bytes : List Byte) (t' : HandlerThread σ) :
    Prop where
  status : t'.status = if t.lastCall then .finished else .running
  lastCall : t'.lastCall = t.lastCall
  length_buffer : t'.buffer.length = bufferSize
  residualSize_eq : t'.residualSize = (rest newline (t.processed bytes)).length

/-- The end of the loop, after the tail was counted. -/
lemma after_breakOnLastCall {t₁ : HandlerThread σ} (hstatus : t₁.status = .running)
    (hlast : t₁.lastCall = t.lastCall) (hbuffer : t₁.buffer.length = bufferSize)
    (hsize : t₁.residualSize = (rest newline (t.processed bytes)).length) :
    t.After bytes t₁.copyResidual.breakOnLastCall := by
  obtain ⟨residual, hcopy⟩ := exists_copyResidual t₁
  rw [hcopy, HandlerThread.breakOnLastCall]
  dsimp only
  rw [hlast]
  split_ifs with hif
  · exact ⟨(if_pos hif).symm, rfl, hbuffer, hsize⟩
  · exact ⟨hstatus.trans (if_neg hif).symm, rfl, hbuffer, hsize⟩

/-- A chunk: the file is opened, the lines of what is processed are handed on, and the file is
closed, unless the process ends. `Q`, `R` and `S` hold of the shared state in between. -/
lemma connectionHandlerStep_data (file : FileCalls σ) (hrun : t.status = .running)
    (hbuffer : t.buffer.length = bufferSize) (hsize : t.residualSize ≤ bufferSize)
    (hne : bytes ≠ []) (hlen : bytes.length ≤ t.recvSize) {Q S : σ → Prop} {R : Bool → σ → Prop}
    (hopen : Returns file.openFile t.shared fun _ s => Q s)
    (hhandle : ∀ s segs, Q s → segs.map Segment.bytes = lines newline (t.processed bytes) →
      Returns (handleAll file.handle segs) s R)
    (hclose : ∀ s, R true s → Returns file.closeFile s fun _ s' => S s') :
    Returns (connectionHandlerStep file (.data bytes)) t fun _ t' =>
      (t'.status = .exited ∧ R false t'.shared) ∨ (t.After bytes t' ∧ S t'.shared) := by
  rw [HandlerThread.recvSize] at hlen
  have hlength : (bytes ++ t.buffer.drop bytes.length).length = bufferSize := by
    rw [List.length_append, List.length_drop]
    omega
  have htake : (bytes ++ t.buffer.drop bytes.length ++ t.beyond).take
      (bytes.length + t.residualSize) = t.processed bytes :=
    List.take_append_of_le_length (by omega)
  obtain ⟨⟨⟩, s₁, hopened, hQ⟩ := hopen
  have hle : bytes.length + t.residualSize
      ≤ (bytes ++ t.buffer.drop bytes.length ++ t.beyond).length := by
    rw [List.length_append]
    omega
  obtain ⟨r, s₂, hprocess, hr⟩ := processBuffer_returns hle t.residual
    (fun segs hsegs => hhandle s₁ segs hQ (htake ▸ hsegs))
  rw [htake] at hr
  set t₁ : HandlerThread σ :=
    { t with buffer := bytes ++ t.buffer.drop bytes.length, shared := s₁ } with ht₁
  refine .step (read_apply _ t) ?_
  rw [id, if_pos hrun]
  simp only [if_neg hne]
  refine .step (update_apply _ t) (.step (read_apply _ _) (.step (onShared_of_ok hopened)
    (.step (onShared_of_ok (t := t₁) hprocess) ?_)))
  rcases hr with ⟨rfl, hR⟩ | ⟨residual', rfl, hR⟩
  · exact ⟨(), { t₁ with shared := s₂, status := .exited }, rfl, .inl ⟨rfl, hR⟩⟩
  · obtain ⟨⟨⟩, s₃, hclosed, hS⟩ := hclose s₂ hR
    set t₂ : HandlerThread σ := { t₁ with
      residual := residual'
      residualSize := (rest newline (t.processed bytes)).length
      shared := s₃ } with ht₂
    refine .step (update_apply _ _) (.step (onShared_of_ok hclosed)
      ⟨(), t₂.copyResidual.breakOnLastCall, rfl, .inr ⟨?_, ?_⟩⟩)
    · exact after_breakOnLastCall hrun rfl hlength rfl
    · obtain ⟨residual'', hcopy⟩ := exists_copyResidual t₂
      rw [hcopy, HandlerThread.breakOnLastCall]
      split_ifs <;> exact hS

/-- Inversion of a chunk: the process has ended, at a newline, or the chunk was processed to its
end. -/
lemma of_connectionHandlerStep_data {file : FileCalls σ} {t' : HandlerThread σ} {a : Unit}
    (hrun : t.status = .running) (hbuffer : t.buffer.length = bufferSize)
    (hsize : t.residualSize ≤ bufferSize) (hne : bytes ≠ []) (hlen : bytes.length ≤ t.recvSize)
    (h : connectionHandlerStep file (.data bytes) t = .ok (a, t')) :
    (t'.status = .exited ∧ newline ∈ t.processed bytes) ∨ t.After bytes t' := by
  rw [HandlerThread.recvSize] at hlen
  have hlength : (bytes ++ t.buffer.drop bytes.length).length = bufferSize := by
    rw [List.length_append, List.length_drop]
    omega
  have htake : (bytes ++ t.buffer.drop bytes.length ++ t.beyond).take
      (bytes.length + t.residualSize) = t.processed bytes :=
    List.take_append_of_le_length (by omega)
  have hle : bytes.length + t.residualSize
      ≤ (bytes ++ t.buffer.drop bytes.length ++ t.beyond).length := by
    rw [List.length_append]
    omega
  rw [connectionHandlerStep, read_bind_apply, id, if_pos hrun] at h
  rw [if_neg hne, update_bind_apply, handleReceived, read_bind_apply, id] at h
  obtain ⟨_, t₁, hopen, h₁⟩ := of_bind_ok h
  obtain ⟨s₁, rfl, -⟩ := of_onShared hopen
  obtain ⟨r, t₂, hprocess, h₂⟩ := of_bind_ok h₁
  obtain ⟨s₂, rfl, hsegments⟩ := of_onShared hprocess
  rcases of_processBuffer hle hsegments with ⟨rfl, hmem⟩ | ⟨residual', rfl⟩
  · cases h₂
    rw [htake] at hmem
    exact .inl ⟨rfl, hmem⟩
  · rw [htake] at h₂
    obtain ⟨_, t₃, hkeep, h₃⟩ := of_bind_ok h₂
    cases hkeep
    obtain ⟨_, t₄, hclose, h₄⟩ := of_bind_ok h₃
    obtain ⟨s₃, rfl, -⟩ := of_onShared hclose
    cases h₄
    exact .inr (after_breakOnLastCall hrun rfl hlength rfl)

end

end

end Aesd
