import Aesd.Library.Threads
import Aesd.Server.Reassembly

/-!
# The program of a handler thread

`ConnectionHandlerThread` as the program of one thread among others. Of its system calls only those
on the file touch what the threads share; they are a parameter. All else the thread works on is its
own, so what it will hand on to them is settled by what it receives.
-/

namespace Aesd.Threaded

open Exec Threads

variable {σ M : Type}

/-- `FileMutex` -/
inductive ServerMutex where
  | fileMutex
  deriving DecidableEq, Repr

instance : Subsingleton ServerMutex := by
  constructor
  rintro ⟨⟩ ⟨⟩
  rfl

/-- What a thread does with the file: opening it, the end of a segment, and closing it. A segment
that ends the process ends the thread. -/
structure ThreadCalls (σ M : Type) where
  openFile : Prog Fault σ M Unit
  handle : Segment → Prog Fault σ M Bool
  closeFile : Prog Fault σ M Unit

/-! ### One chunk -/

/-- The `for` loop of `ProcessBuffer`. -/
def segmentLoop (handle : Segment → Prog Fault σ M Bool) (bufferPtr : List Byte) :
    ℕ → ℕ → ℕ → Prog Fault σ M (Option (ℕ × ℕ))
  | 0, start, segmentLen => pure (some (start, segmentLen))
  | m + 1, start, segmentLen =>
    match bufferPtr[start + segmentLen]? with
    | none => .fault .outOfBounds
    | some c =>
      let segmentLen := segmentLen + 1
      if c = newline then do
        if ← handle ⟨bufferPtr.drop start, segmentLen⟩ then
          segmentLoop handle bufferPtr m (start + segmentLen) 0
        else pure none
      else segmentLoop handle bufferPtr m start segmentLen

/-- What `ProcessBuffer` leaves in the residual buffer and in `*residualSize`. -/
def keepRest (bufferPtr residual : List Byte) (start segmentLen : ℕ) : List Byte × ℕ :=
  if segmentLen ≠ 0 then
    ((bufferPtr.drop start).take segmentLen ++ residual.drop segmentLen, segmentLen)
  else (residual, segmentLen)

/-- `ProcessBuffer` -/
def processBuffer (handle : Segment → Prog Fault σ M Bool) (bufferPtr : List Byte)
    (bufferLen : ℕ) (residual : List Byte) : Prog Fault σ M (Option (List Byte × ℕ)) := do
  match ← segmentLoop handle bufferPtr bufferLen 0 0 with
  | none => pure none
  | some (start, segmentLen) => pure (some (keepRest bufferPtr residual start segmentLen))

/-! ### One thread -/

/-- `recv` writes the bytes to the start of the buffer. -/
def receiveTo (t : HandlerThread Unit) (bytes : List Byte) : HandlerThread Unit :=
  { t with buffer := bytes ++ t.buffer.drop bytes.length }

/-- The end of a turn of the loop, after `ProcessBuffer`. -/
def endTurn (t : HandlerThread Unit) (rest : List Byte × ℕ) : HandlerThread Unit :=
  HandlerThread.breakOnLastCall
    (HandlerThread.copyResidual { t with residual := rest.1, residualSize := rest.2 })

/-- What the thread does with the bytes that it has received. `FindSeek` may read on behind the
buffer, in `beyond`, without a fault; what `syslog` reads there is left out. -/
def handleReceived (calls : ThreadCalls σ M) (t : HandlerThread Unit) (writtenLen : ℕ) :
    Prog Fault σ M (HandlerThread Unit) := do
  calls.openFile
  match ← processBuffer calls.handle (t.buffer ++ t.beyond) (writtenLen + t.residualSize)
    t.residual with
  | none => pure { t with status := .exited }
  | some rest =>
    calls.closeFile
    pure (endTurn t rest)

/-- One turn of the `while` loop of `ConnectionHandlerThread`. -/
def connectionHandlerStep (calls : ThreadCalls σ M) (t : HandlerThread Unit) :
    Recv → Prog Fault σ M (HandlerThread Unit)
  | .data bytes =>
    if bytes = [] then pure { t with status := .finished }
    else handleReceived calls (receiveTo t bytes) bytes.length
  | .timeout closeRequested => pure { t with lastCall := t.lastCall || closeRequested }
  | .closed => pure { t with status := .finished }
  | .failed => pure { t with status := .finished }

/-- `ConnectionHandlerThread`, as far as it comes with what it receives. -/
def connectionHandlerThread (calls : ThreadCalls σ M) :
    List Recv → HandlerThread Unit → Prog Fault σ M (HandlerThread Unit)
  | [], t => pure t
  | r :: rs, t =>
    if t.status = .running then do
      let t ← connectionHandlerStep calls t r
      connectionHandlerThread calls rs t
    else pure t

/-! ### What the thread hands on -/

/-- The segments of the chunk that a thread processes. -/
def chunkSegments (t : HandlerThread Unit) (writtenLen : ℕ) : List Segment :=
  segments (t.buffer ++ t.beyond) (writtenLen + t.residualSize) 0 0

/-- The thread after the chunk was processed. -/
def afterChunk (t : HandlerThread Unit) (writtenLen : ℕ) : HandlerThread Unit :=
  let (start, segmentLen) := unfinished (t.buffer ++ t.beyond) (writtenLen + t.residualSize) 0 0
  endTurn t (keepRest (t.buffer ++ t.beyond) t.residual start segmentLen)

/-- The segments that come of one `recv`, and the thread after it. -/
def turn (t : HandlerThread Unit) : Recv → List Segment × HandlerThread Unit
  | .data bytes =>
    if bytes = [] then ([], { t with status := .finished })
    else (chunkSegments (receiveTo t bytes) bytes.length,
      afterChunk (receiveTo t bytes) bytes.length)
  | .timeout closeRequested => ([], { t with lastCall := t.lastCall || closeRequested })
  | .closed => ([], { t with status := .finished })
  | .failed => ([], { t with status := .finished })

/-- The segments that a thread cuts out of what it receives. -/
def plan : HandlerThread Unit → List Recv → List Segment
  | _, [] => []
  | t, r :: rs => if t.status = .running then (turn t r).1 ++ plan (turn t r).2 rs else []

variable {t : HandlerThread Unit} {r : Recv} {rs : List Recv} {bytes : List Byte}

@[simp] lemma endTurn_buffer (t : HandlerThread Unit) (rest : List Byte × ℕ) :
    (endTurn t rest).buffer = t.buffer := by
  simp only [endTurn, HandlerThread.breakOnLastCall, HandlerThread.copyResidual]
  split_ifs <;> rfl

@[simp] lemma endTurn_residualSize (t : HandlerThread Unit) (rest : List Byte × ℕ) :
    (endTurn t rest).residualSize = rest.2 := by
  simp only [endTurn, HandlerThread.breakOnLastCall, HandlerThread.copyResidual]
  split_ifs <;> rfl

@[simp] lemma keepRest_snd (bufferPtr residual : List Byte) (start segmentLen : ℕ) :
    (keepRest bufferPtr residual start segmentLen).2 = segmentLen := by
  rw [keepRest]
  split_ifs <;> rfl

/-- What a `recv` of `recvSize` bytes guarantees. -/
def Recv.Fits {σ : Type} (t : HandlerThread σ) (r : Recv) : Prop := r.bytes.length ≤ t.recvSize

instance {σ : Type} (t : HandlerThread σ) (r : Recv) : Decidable (Recv.Fits t r) :=
  inferInstanceAs (Decidable (_ ≤ _))

/-- The buffer of the thread is as large as it was declared, and what it has left over fits in. -/
def Awaits (t : HandlerThread Unit) : Prop :=
  t.buffer.length = bufferSize ∧ t.residualSize ≤ bufferSize

/-- No `recv` brings more than it was asked for. -/
def Fitting : HandlerThread Unit → List Recv → Prop
  | _, [] => True
  | t, r :: rs => t.status = .running → Recv.Fits t r ∧ Fitting (turn t r).2 rs

lemma length_receiveTo (h : Awaits t) (hfits : Recv.Fits t (.data bytes)) :
    (receiveTo t bytes).buffer.length = bufferSize ∧
      bytes.length + t.residualSize ≤ bufferSize := by
  obtain ⟨hbuffer, hsize⟩ := h
  rw [Recv.Fits, Recv.bytes, HandlerThread.recvSize] at hfits
  rw [receiveTo, List.length_append, List.length_drop]
  omega

/-- What is processed lies in the memory of the thread. -/
lemma length_chunk (h : Awaits t) (hfits : Recv.Fits t (.data bytes)) :
    bytes.length + t.residualSize ≤ ((receiveTo t bytes).buffer ++ t.beyond).length := by
  obtain ⟨hlength, hle⟩ := length_receiveTo h hfits
  rw [List.length_append, hlength]
  exact hle.trans (Nat.le_add_right _ _)

lemma unfinished_le {bufferPtr : List Byte} {bufferLen : ℕ} (h : bufferLen ≤ bufferPtr.length) :
    (unfinished bufferPtr bufferLen 0 0).2 ≤ bufferLen := by
  obtain ⟨-, -, hlen⟩ := segments_spec
    (by omega : 0 + 0 + bufferLen ≤ bufferPtr.length) (by simp)
  have hle := Delimited.length_rest_le newline ((bufferPtr.drop 0).take (0 + bufferLen))
  rw [List.length_take] at hle
  omega

lemma Awaits.turn (h : Awaits t) (hfits : Recv.Fits t r) : Awaits (turn t r).2 := by
  cases r with
  | timeout closeRequested | closed | failed => exact h
  | data bytes =>
    rw [Threaded.turn]
    split_ifs
    · exact h
    · obtain ⟨hlength, hle⟩ := length_receiveTo h hfits
      rw [Awaits, afterChunk, endTurn_buffer, endTurn_residualSize, keepRest_snd]
      exact ⟨hlength, (unfinished_le (length_chunk h hfits)).trans hle⟩

/-! ### What a thread may rely on -/

section

variable {T : Type} [DecidableEq M] {P : Protocol σ M T} {i : T} {segs : List Segment}
  {closed opened : List Segment → σ → Prop} {gone : σ → Prop} {calls : ThreadCalls σ M}
  {done : List Segment} {s : σ}

/-- The calls of a thread that is to hand on `segs`, as far as the others let it. When it has handed
on some of them, the state is `closed` or `opened` between its calls; and it is `gone` for good when
the process has exited. -/
structure ThreadCalls.Ok (calls : ThreadCalls σ M) (P : Protocol σ M T) (i : T)
    (segs : List Segment) (closed opened : List Segment → σ → Prop) (gone : σ → Prop) : Prop where
  openFile : ∀ done s, closed done s → calls.openFile.Ok P i
    (fun held _ u => held = [] ∧ opened done u) [] s
  handle : ∀ done seg s, opened done s → seg.bytes.length = seg.segmentLen →
    done ++ [seg] <+: segs → (calls.handle seg).Ok P i
      (fun held ok u => if ok then held = [] ∧ opened (done ++ [seg]) u else gone u) [] s
  closeFile : ∀ done s, opened done s → calls.closeFile.Ok P i
    (fun held _ u => held = [] ∧ closed done u) [] s
  closed_rely : ∀ done s u, closed done s → P.Rely i [] s u → closed done u
  opened_rely : ∀ done s u, opened done s → P.Rely i [] s u → opened done u
  gone_rely : ∀ held s u, gone s → P.Rely i held s u → gone u

namespace ThreadCalls.Ok

/-- The thread hands on the segments of its buffer. -/
lemma segmentLoop (h : calls.Ok P i segs closed opened gone) (hs : opened done s)
    {m start len : ℕ} {bufferPtr : List Byte} (hlen : start + len + m ≤ bufferPtr.length)
    (hsegs : done ++ segments bufferPtr m start len <+: segs) :
    (segmentLoop calls.handle bufferPtr m start len).Ok P i
      (fun held r u => match r with
        | none => gone u
        | some rest => held = [] ∧ opened (done ++ segments bufferPtr m start len) u ∧
            rest = unfinished bufferPtr m start len) [] s := by
  induction m generalizing start len done s with
  | zero =>
    intro u hu
    rw [segments, List.append_nil]
    exact ⟨rfl, h.opened_rely _ _ _ hs hu, rfl⟩
  | succ m ih =>
    have hlt : start + len < bufferPtr.length := by omega
    have hbyte := List.getElem?_eq_getElem hlt
    rw [Threaded.segmentLoop, hbyte]
    rw [segments, hbyte] at hsegs
    rw [segments, unfinished, hbyte]
    dsimp only
    by_cases hc : bufferPtr[start + len] = newline
    · -- the end of a segment
      simp only [hc, if_true] at hsegs ⊢
      rw [← List.singleton_append, ← List.append_assoc] at hsegs ⊢
      have hsize : (Segment.bytes ⟨bufferPtr.drop start, len + 1⟩).length = len + 1 := by
        rw [Segment.bytes, List.length_take, List.length_drop]
        exact min_eq_left (by dsimp only; omega)
      have hfirst := (List.prefix_append _ _).trans hsegs
      refine (h.handle done _ s hs hsize hfirst).bind fun held ok u hu => ?_
      cases ok with
      | true =>
        obtain ⟨rfl, hopened⟩ := hu
        exact ih hopened (by omega) hsegs
      | false => exact fun v hv => h.gone_rely _ _ _ hu hv
    · have hne : ¬ some bufferPtr[start + len] = some newline := fun heq =>
        hc (Option.some.inj heq)
      rw [if_neg hne] at hsegs
      rw [if_neg hc, if_neg hne, if_neg hne]
      exact ih hs (by omega) hsegs

/-- A turn of the loop that the thread comes to the end of, or the process has exited. -/
def Turned (closed : List Segment → σ → Prop) (gone : σ → Prop) (done : List Segment)
    (t' : HandlerThread Unit) (held : List M) (t : HandlerThread Unit) (u : σ) : Prop :=
  held = [] ∧ closed done u ∧ t = t' ∨ gone u ∧ t.status = .exited

lemma handleReceived (h : calls.Ok P i segs closed opened gone) (hs : closed done s)
    {writtenLen : ℕ} (hlen : writtenLen + t.residualSize ≤ (t.buffer ++ t.beyond).length)
    (hsegs : done ++ chunkSegments t writtenLen <+: segs) :
    (handleReceived calls t writtenLen).Ok P i
      (Turned closed gone (done ++ chunkSegments t writtenLen) (afterChunk t writtenLen)) [] s := by
  rw [Threaded.handleReceived]
  refine (h.openFile done s hs).bind fun held _ s₁ hs₁ => ?_
  obtain ⟨rfl, hopened⟩ := hs₁
  rw [processBuffer, Prog.bind_assoc_eq]
  have hloop := h.segmentLoop hopened
    (by omega : 0 + 0 + (writtenLen + t.residualSize) ≤ (t.buffer ++ t.beyond).length) hsegs
  refine hloop.bind fun held rest s₂ hs₂ => ?_
  cases rest with
  | none => exact fun v hv => .inr ⟨h.gone_rely _ _ _ hs₂ hv, rfl⟩
  | some rest =>
    obtain ⟨rfl, hopened₂, rfl⟩ := hs₂
    change (calls.closeFile >>= _).Ok _ _ _ _ _
    refine (h.closeFile _ s₂ hopened₂).bind fun held _ s₃ hs₃ => ?_
    obtain ⟨rfl, hclosed⟩ := hs₃
    exact fun v hv => .inl ⟨rfl, h.closed_rely _ _ _ hclosed hv, rfl⟩

lemma connectionHandlerStep (h : calls.Ok P i segs closed opened gone) (hs : closed done s)
    (ht : Awaits t) (hfits : Recv.Fits t r) (hsegs : done ++ (turn t r).1 <+: segs) :
    (connectionHandlerStep calls t r).Ok P i
      (Turned closed gone (done ++ (turn t r).1) (turn t r).2) [] s := by
  have hquiet : ∀ u, P.Rely i [] s u → closed (done ++ []) u := by
    intro u hu
    rw [List.append_nil]
    exact h.closed_rely _ _ _ hs hu
  cases r with
  | timeout closeRequested | closed | failed => exact fun u hu => .inl ⟨rfl, hquiet u hu, rfl⟩
  | data bytes =>
    rw [Threaded.connectionHandlerStep]
    rw [turn] at hsegs ⊢
    split_ifs at hsegs ⊢
    · exact fun u hu => .inl ⟨rfl, hquiet u hu, rfl⟩
    · exact h.handleReceived hs (length_chunk ht hfits) hsegs

/-- A thread whose calls may be relied on comes to its end with all its segments handed on, or the
process has exited. -/
theorem connectionHandlerThread (h : calls.Ok P i segs closed opened gone) (hs : closed done s)
    (ht : Awaits t) (hfits : Fitting t rs) (hsegs : done ++ plan t rs = segs) :
    (connectionHandlerThread calls rs t).Ok P i
      (fun held _ u => held = [] ∧ closed segs u ∨ gone u) [] s := by
  induction rs generalizing t done s with
  | nil =>
    intro u hu
    rw [plan, List.append_nil] at hsegs
    exact .inl ⟨rfl, hsegs ▸ h.closed_rely _ _ _ hs hu⟩
  | cons r rs ih =>
    rw [Threaded.connectionHandlerThread]
    rw [plan] at hsegs
    split_ifs at hsegs ⊢ with hrun
    · obtain ⟨hfits₁, hfits₂⟩ := hfits hrun
      rw [← List.append_assoc] at hsegs
      have hstep := h.connectionHandlerStep hs ht hfits₁ ⟨_, hsegs⟩
      refine hstep.bind fun held t' u hu => ?_
      rcases hu with ⟨rfl, hclosed, rfl⟩ | ⟨hgone, hstatus⟩
      · exact ih hclosed (ht.turn hfits₁) hfits₂ hsegs
      · -- the thread takes no more turns
        have hend : Threaded.connectionHandlerThread calls rs t' = Prog.ret t' := by
          cases rs with
          | nil => rfl
          | cons r rs => exact if_neg (by simp [hstatus])
        rw [hend]
        exact fun v hv => .inr (h.gone_rely _ _ _ hgone hv)
    · intro u hu
      rw [List.append_nil] at hsegs
      exact .inl ⟨rfl, hsegs ▸ h.closed_rely _ _ _ hs hu⟩

end ThreadCalls.Ok

end

end Aesd.Threaded
