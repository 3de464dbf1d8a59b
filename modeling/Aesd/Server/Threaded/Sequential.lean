import Aesd.Server.FullResidual
import Aesd.Server.Threaded.Program

/-!
# A handler thread by itself

A thread that is alone does what the sequential `ConnectionHandlerThread` does, if its calls on the
file do; and the segments that it is to hand on are those that the sequential one hands on.
-/

namespace Aesd.Threaded

open Exec Threads

variable {σ τ M : Type}

/-- The thread with a state that its calls work on. -/
def withShared (t : HandlerThread Unit) (shared : σ) : HandlerThread σ :=
  ⟨t.buffer, t.beyond, t.residual, t.residualSize, t.lastCall, t.status, shared⟩

section

variable (t : HandlerThread Unit) (shared : σ)

lemma endTurn_withShared (rest : List Byte × ℕ) :
    HandlerThread.breakOnLastCall (HandlerThread.copyResidual
      { withShared t shared with residual := rest.1, residualSize := rest.2 })
      = withShared (endTurn t rest) shared := by
  simp only [endTurn, HandlerThread.breakOnLastCall, HandlerThread.copyResidual, withShared]
  split_ifs <;> rfl

lemma onShared_withShared {α : Type} {m : Exec Fault σ α} {a : α} {shared' : σ}
    (h : m shared = .ok (a, shared')) :
    onShared m (withShared t shared) = .ok (a, withShared t shared') :=
  onShared_of_ok (t := withShared t shared) h

end

/-! ### What the thread is to hand on -/

variable {t : HandlerThread Unit} {r : Recv} {rs : List Recv}

lemma processBuffer_recordSegments {bufferPtr : List Byte} {bufferLen : ℕ}
    (h : bufferLen ≤ bufferPtr.length) (residual : List Byte) (log : List (List Byte)) :
    Aesd.processBuffer recordSegments.handle bufferPtr bufferLen residual log
      = .ok (some (keepRest bufferPtr residual (unfinished bufferPtr bufferLen 0 0).1
          (unfinished bufferPtr bufferLen 0 0).2),
        log ++ (segments bufferPtr bufferLen 0 0).map Segment.bytes) := by
  rw [processBuffer_eq _ h, bind_ok (handleAll_recordSegments _ log), if_pos rfl, keepRest]
  dsimp only
  split_ifs <;> rfl

/-- A turn of the sequential thread that only records its segments. -/
lemma connectionHandlerStep_recordSegments (ht : Awaits t) (hfits : Recv.Fits t r)
    (hrun : t.status = .running) (log : List (List Byte)) :
    Aesd.connectionHandlerStep recordSegments r (withShared t log)
      = .ok ((), withShared (turn t r).2 (log ++ (turn t r).1.map Segment.bytes)) := by
  have hrun' : (withShared t log).status = .running := hrun
  cases r with
  | timeout closeRequested | closed | failed =>
    rw [Aesd.connectionHandlerStep, read_bind_apply, id, if_pos hrun', turn, List.map_nil,
      List.append_nil]
    rfl
  | data bytes =>
    rw [Aesd.connectionHandlerStep, read_bind_apply, id, if_pos hrun', turn]
    split_ifs
    · rw [List.map_nil, List.append_nil]
      rfl
    · have hprocess := processBuffer_recordSegments (length_chunk ht hfits) t.residual log
      rw [update_bind_apply, Aesd.handleReceived, read_bind_apply]
      have hopen : onShared recordSegments.openFile (withShared (receiveTo t bytes) log)
        = .ok ((), withShared (receiveTo t bytes) log) := rfl
      refine (bind_ok hopen).trans ?_
      refine (bind_ok (onShared_withShared (receiveTo t bytes) log hprocess)).trans ?_
      exact congrArg (fun t' => Except.ok ((), t')) (endTurn_withShared (receiveTo t bytes) _ _)

/-- A thread that does not run stays as it is. -/
lemma run_stopped (file : FileCalls σ) (rs : List Recv) {t : HandlerThread σ}
    (h : t.status ≠ .running) :
    Returns (Machine.run (Aesd.connectionHandlerStep file) rs) t fun _ t' => t' = t := by
  refine Machine.run_invariant (I := fun t' => t' = t) ?_ rs rfl
  rintro r _ rfl
  exact ⟨(), _, connectionHandlerStep_of_stopped file r h, rfl⟩

/-- The plan of a thread is what the sequential one hands on. -/
lemma run_recordSegments (ht : Awaits t) (log : List (List Byte))
    (hrs : Machine.Meets (Aesd.connectionHandlerStep recordSegments) Recv.Fits rs
      (withShared t log)) :
    Fitting t rs ∧ Returns (Machine.run (Aesd.connectionHandlerStep recordSegments) rs)
      (withShared t log) fun _ t' => t'.shared = log ++ (plan t rs).map Segment.bytes := by
  induction rs generalizing t log with
  | nil => exact ⟨trivial, [], _, rfl, (List.append_nil log).symm⟩
  | cons r rs ih =>
    obtain ⟨hfits, hrest⟩ := hrs
    rw [plan, Fitting]
    split_ifs with hrun
    · have hstep := connectionHandlerStep_recordSegments ht hfits hrun log
      obtain ⟨hfitting, os, t', hall, hlog⟩ := ih (ht.turn hfits) _ (hrest _ _ hstep)
      rw [List.append_assoc, ← List.map_append] at hlog
      exact ⟨fun _ => ⟨hfits, hfitting⟩, () :: os, t', Machine.run_cons hstep hall, hlog⟩
    · refine ⟨fun hrun' => absurd hrun' hrun, ?_⟩
      rw [List.map_nil, List.append_nil]
      refine (run_stopped recordSegments (r :: rs) hrun).mono ?_
      rintro _ _ rfl
      rfl

/-! ### The clients -/

/-- What the clients and the network do to the server: how the memory of each thread looks when it
starts, and what it receives. -/
structure Clients (n : ℕ) where
  buffer : Fin n → List Byte
  beyond : Fin n → List Byte
  residual : Fin n → List Byte
  input : Fin n → List Recv
  length_buffer : ∀ i, (buffer i).length = bufferSize
  fits : ∀ i, Machine.Meets (Aesd.connectionHandlerStep recordSegments) Recv.Fits (input i)
    (.start (buffer i) (beyond i) (residual i) [])

namespace Clients

variable {n : ℕ} (w : Clients n) (i : Fin n)

/-- The thread of a connection at the start of its loop. -/
def thread : HandlerThread Unit := .start (w.buffer i) (w.beyond i) (w.residual i) ()

/-- The segments that a connection hands on. -/
def segs : List Segment := plan (w.thread i) (w.input i)

lemma awaits : Awaits (w.thread i) := ⟨w.length_buffer i, Nat.zero_le _⟩

/-- What a thread is to hand on is what the sequential one hands on. -/
lemma segs_eq :
    Fitting (w.thread i) (w.input i) ∧
      Returns (Machine.run (Aesd.connectionHandlerStep recordSegments) (w.input i))
        (.start (w.buffer i) (w.beyond i) (w.residual i) [])
        fun _ t => t.shared = (w.segs i).map Segment.bytes :=
  run_recordSegments (w.awaits i) [] (w.fits i)

end Clients

/-! ### The segments of a stream -/

lemma length_le_of_mem_lines {l s : List Byte} (h : l ∈ Delimited.lines newline s) :
    l.length ≤ s.length := by
  have hall := congrArg List.length (Delimited.flatten_lines_append_rest newline s)
  have hle := (List.sublist_flatten_of_mem h).length_le
  rw [List.length_append] at hall
  omega

/-- A segment is one line, and no longer than the buffer. -/
lemma mem_plan (ht : Awaits t) (hrs : Fitting t rs) {l : List Byte}
    (hl : l ∈ (plan t rs).map Segment.bytes) :
    (∃ line, newline ∉ line ∧ l = line ++ [newline]) ∧ l.length ≤ bufferSize := by
  induction rs generalizing t with
  | nil => cases hl
  | cons r rs ih =>
    rw [plan] at hl
    split_ifs at hl with hrun
    · obtain ⟨hfits, hrest⟩ := hrs hrun
      rw [List.map_append] at hl
      rcases List.mem_append.mp hl with hl | hl
      · cases r with
        | timeout closeRequested | closed | failed => cases hl
        | data bytes =>
          rw [turn] at hl
          split_ifs at hl
          · cases hl
          · obtain ⟨-, hle⟩ := length_receiveTo ht hfits
            have hbuffer : 0 + 0 + (bytes.length + t.residualSize)
                ≤ ((receiveTo t bytes).buffer ++ t.beyond).length := by
              have hchunk := length_chunk ht hfits
              omega
            obtain ⟨hsegments, -, -⟩ := segments_spec hbuffer (by simp)
            change l ∈ List.map _ (segments ((receiveTo t bytes).buffer ++ t.beyond)
              (bytes.length + t.residualSize) 0 0) at hl
            rw [hsegments] at hl
            refine ⟨Delimited.exists_of_mem_lines hl, (length_le_of_mem_lines hl).trans ?_⟩
            rw [List.length_take]
            omega
      · exact ih (ht.turn hfits) hrest hl
    · cases hl

variable {n : ℕ}

/-- No line is cut by the end of a chunk, and at the end the client may close the connection. -/
def Clients.Whole (w : Clients n) (i : Fin n) : Prop :=
  ∃ chunks last, w.input i = chunks ++ last ∧ (last = [] ∨ last = [.closed]) ∧
    Machine.Meets (Aesd.connectionHandlerStep recordSegments)
      (fun t r => r.Delivers t ∧ r.Whole t) chunks
      (.start (w.buffer i) (w.beyond i) (w.residual i) [])

/-- If no line is cut, the segments are the lines of the stream. -/
lemma Clients.Whole.segs_eq {w : Clients n} {i : Fin n} (h : w.Whole i) :
    (w.segs i).map Segment.bytes = Delimited.lines newline (received (w.input i)) := by
  obtain ⟨chunks, last, hinput, hlast, hchunks⟩ := h
  have hstart : InStep (.start (w.buffer i) (w.beyond i) (w.residual i) []) [] :=
    ⟨⟨rfl, rfl, w.length_buffer i, Nat.zero_le _⟩, rfl, rfl⟩
  have hstep : ∀ (r : Recv) t stream, InStep t stream → r.Delivers t ∧ r.Whole t →
      Returns (Aesd.connectionHandlerStep recordSegments r) t fun _ t' =>
        InStep t' (stream ++ r.bytes) := by
    rintro r t stream ht ⟨hdelivers, hwhole⟩
    refine (ht.step hdelivers).mono ?_
    rintro _ t' (⟨-, hinStep⟩ | ⟨hcut, -⟩)
    · exact hinStep
    · exact absurd hwhole hcut
  obtain ⟨os, t, hrun, hinStep⟩ :=
    Machine.run_meets (I := fun stream t => InStep t stream) hstep chunks hstart hchunks
  obtain ⟨os', t', hall, hplan⟩ := (w.segs_eq i).2
  rw [foldl_received, List.nil_append] at hinStep
  have hend : t'.shared = t.shared ∧ received (w.input i) = received chunks := by
    rw [hinput] at hall ⊢
    rcases hlast with rfl | rfl
    · rw [List.append_nil] at hall ⊢
      rw [hrun] at hall
      cases hall
      exact ⟨rfl, rfl⟩
    · have hclosed := connectionHandlerStep_ended recordSegments (r := .closed) hinStep.running rfl
        nofun
      rw [Machine.run_append hrun (Machine.run_cons hclosed (Machine.run_nil _))] at hall
      cases hall
      exact ⟨rfl, by simp [received, Recv.bytes]⟩
  rw [← hplan, hend.1, hend.2, hinStep.handedOn]

/-! ### What the thread does if it is alone -/

/-- The calls of a thread that is alone are calls of the sequential thread, on a part of the
state. -/
structure ThreadCalls.Projects (f : σ → τ) (calls : ThreadCalls σ M) (file : FileCalls τ) :
    Prop where
  openFile : Exec.Projects f calls.openFile.alone file.openFile
  handle : ∀ seg, Exec.Projects f (calls.handle seg).alone (file.handle seg)
  closeFile : Exec.Projects f calls.closeFile.alone file.closeFile

variable {f : σ → τ} {calls : ThreadCalls σ M} {file : FileCalls τ}

lemma segmentLoop_projects {handle : Segment → Prog Fault σ M Bool}
    {handle' : Segment → Exec Fault τ Bool}
    (h : ∀ seg, Exec.Projects f (handle seg).alone (handle' seg)) (bufferPtr : List Byte)
    (m start len : ℕ) :
    Exec.Projects f (segmentLoop handle bufferPtr m start len).alone
      (Aesd.segmentLoop handle' bufferPtr m start len) := by
  induction m generalizing start len with
  | zero => exact Projects.pure _
  | succ m ih =>
    rw [segmentLoop, Aesd.segmentLoop, loadByte]
    cases bufferPtr[start + len]? with
    | none => exact Projects.fault _
    | some c =>
      simp only [pure_bind_eq]
      split_ifs
      · rw [Prog.alone_bind]
        refine (h _).bind fun ok => ?_
        cases ok with
        | true => exact ih _ _
        | false => exact Projects.pure _
      · exact ih _ _

lemma processBuffer_projects {handle : Segment → Prog Fault σ M Bool}
    {handle' : Segment → Exec Fault τ Bool}
    (h : ∀ seg, Exec.Projects f (handle seg).alone (handle' seg)) (bufferPtr : List Byte)
    (bufferLen : ℕ) (residual : List Byte) :
    Exec.Projects f (processBuffer handle bufferPtr bufferLen residual).alone
      (Aesd.processBuffer handle' bufferPtr bufferLen residual) := by
  rw [processBuffer, Aesd.processBuffer, Prog.alone_bind]
  refine (segmentLoop_projects h bufferPtr bufferLen 0 0).bind fun r => ?_
  cases r with
  | none => exact Projects.pure _
  | some rest =>
    dsimp only
    rw [keepRest]
    split_ifs <;> exact Projects.pure _

/-- The sequential thread that a thread among the others looks like. -/
def sequential (f : σ → τ) (p : HandlerThread Unit × σ) : HandlerThread τ := withShared p.1 (f p.2)

/-- A call of the sequential thread is one of the thread that is alone. -/
lemma onShared_bind {α : Type} {m' : Exec Fault σ α} {m : Exec Fault τ α}
    (h : Exec.Projects f m' m) {t : HandlerThread Unit}
    {k' : α → Exec Fault σ (HandlerThread Unit)} {k : α → Exec Fault (HandlerThread τ) Unit}
    (hk : ∀ a s, (k' a s).map (sequential f) = (k a (withShared t (f s))).map Prod.snd) (s : σ) :
    ((m' >>= k') s).map (sequential f)
      = ((onShared m >>= k) (withShared t (f s))).map Prod.snd := by
  have hs := h s
  cases hm : m' s with
  | error e =>
    rw [hm] at hs
    have hshared : onShared m (withShared t (f s)) = .error e := by
      simp only [onShared, withShared, ← hs, Except.map]
    rw [bind_apply, bind_apply, hm, hshared]
    rfl
  | ok p =>
    rw [bind_ok hm, bind_ok (onShared_withShared t (f s) (h.of_ok hm))]
    exact hk p.1 p.2

lemma handleReceived_alone (h : calls.Projects f file) (t : HandlerThread Unit)
    (writtenLen : ℕ) (s : σ) :
    ((handleReceived calls t writtenLen).alone s).map (sequential f)
      = (Aesd.handleReceived file writtenLen (withShared t (f s))).map Prod.snd := by
  rw [handleReceived, Prog.alone_bind, Aesd.handleReceived, read_bind_apply]
  refine onShared_bind h.openFile (fun _ s₁ => ?_) s
  rw [Prog.alone_bind]
  refine onShared_bind (processBuffer_projects h.handle _ _ _) (fun r s₂ => ?_) s₁
  cases r with
  | none => rfl
  | some rest =>
    dsimp only
    rw [Prog.alone_bind, update_bind_apply]
    refine (onShared_bind (t := { t with residual := rest.1, residualSize := rest.2 })
      h.closeFile (fun _ s₃ => ?_) s₂).trans rfl
    rw [update_apply]
    exact congrArg Except.ok (endTurn_withShared t (f s₃) rest).symm

lemma connectionHandlerStep_alone (h : calls.Projects f file) (hrun : t.status = .running)
    (r : Recv) (s : σ) :
    ((connectionHandlerStep calls t r).alone s).map (sequential f)
      = (Aesd.connectionHandlerStep file r (withShared t (f s))).map Prod.snd := by
  have hrun' : (withShared t (f s)).status = .running := hrun
  cases r with
  | timeout closeRequested | closed | failed =>
    rw [Aesd.connectionHandlerStep, read_bind_apply, id, if_pos hrun']
    rfl
  | data bytes =>
    rw [Aesd.connectionHandlerStep, read_bind_apply, id, if_pos hrun', connectionHandlerStep]
    split_ifs
    · rfl
    · exact handleReceived_alone h (receiveTo t bytes) bytes.length s

/-- A thread that is alone does what the sequential `ConnectionHandlerThread` does. -/
theorem connectionHandlerThread_alone (h : calls.Projects f file) (rs : List Recv)
    (t : HandlerThread Unit) (s : σ) :
    ((connectionHandlerThread calls rs t).alone s).map (sequential f)
      = (Machine.run (Aesd.connectionHandlerStep file) rs (withShared t (f s))).map Prod.snd := by
  induction rs generalizing t s with
  | nil => rfl
  | cons r rs ih =>
    rw [connectionHandlerThread]
    split_ifs with hrun
    · have hstep := connectionHandlerStep_alone h hrun r s
      rw [Prog.alone_bind]
      cases hm : (connectionHandlerStep calls t r).alone s with
      | error e =>
        rw [hm] at hstep
        cases hseq : Aesd.connectionHandlerStep file r (withShared t (f s)) with
        | error e' =>
          rw [hseq] at hstep
          rw [bind_apply, hm, Machine.run, bind_apply, hseq]
          exact hstep
        | ok p =>
          rw [hseq] at hstep
          cases hstep
      | ok p =>
        rw [hm] at hstep
        obtain ⟨⟨a, t'⟩, hseq, ht'⟩ := exists_of_map_ok hstep.symm
        rw [bind_ok hm, ih, Machine.run, bind_ok hseq, bind_apply]
        obtain rfl : t' = withShared p.1 (f p.2) := ht'
        cases Machine.run (Aesd.connectionHandlerStep file) rs (withShared p.1 (f p.2)) with
        | error e => rfl
        | ok p => rfl
    · obtain ⟨os, t', hseq, rfl⟩ := run_stopped file (r :: rs) (t := withShared t (f s)) hrun
      rw [hseq]
      rfl

end Aesd.Threaded
