import Aesd.Server.Reassembly

/-!
# A full residual

The next `recv` asks for what the residual leaves of the buffer. When a buffer of bytes has come
without a newline it asks for nothing, gets nothing, and the thread takes this for the end of the
stream.
-/

namespace Aesd

open Exec Delimited

section

variable {σ : Type}

/-- The value that the `recv` returns. -/
def Recv.retVal : Recv → ℤ
  | .data bytes => bytes.length
  | .timeout _ => -1
  | .closed => 0
  | .failed => -1

/-- What a `recv` of `recvSize` bytes guarantees: it delivers no more than it was asked for, and
while the peer is there it delivers nothing only if it was asked for nothing. -/
def Recv.Possible (t : HandlerThread σ) : Recv → Prop
  | .data bytes => bytes.length ≤ t.recvSize ∧ (bytes = [] → t.recvSize = 0)
  | _ => True

/-- When the thread calls `recv` it asks for at least one byte, and so a return of 0 means that the
peer has closed the connection. -/
def HandlerThread.AsksForBytes (t : HandlerThread σ) : Prop :=
  t.status = .running →
    t.residualSize < bufferSize ∧ 0 < t.recvSize ∧
      ∀ r : Recv, r.Possible t → r.retVal = 0 → r = .closed

/-- The thread is about to stop, or a chunk does not fill the buffer up, or what is processed has a
newline. -/
def Recv.LeavesRoom (t : HandlerThread σ) : Recv → Prop
  | .data bytes => t.status = .running → t.lastCall = false →
      bytes.length + t.residualSize < bufferSize ∨ newline ∈ t.processed bytes
  | _ => True

/-- While the thread runs, the residual leaves room in the buffer. -/
def HandlerThread.Roomy (t : HandlerThread σ) : Prop :=
  t.status = .running → t.buffer.length = bufferSize ∧ t.residualSize < bufferSize

variable {t t' : HandlerThread σ} {file : FileCalls σ} {r : Recv} {bytes : List Byte} {a : Unit}

lemma HandlerThread.Roomy.asksForBytes (h : t.Roomy) : t.AsksForBytes := by
  intro hrunning
  obtain ⟨-, hroom⟩ := h hrunning
  have hpos : 0 < t.recvSize := Nat.sub_pos_of_lt hroom
  refine ⟨hroom, hpos, ?_⟩
  intro r hr hzero
  cases r with
  | closed => rfl
  | timeout closeRequested => cases hzero
  | failed => cases hzero
  | data bytes =>
    have hnil : bytes = [] := List.eq_nil_of_length_eq_zero (Int.natCast_eq_zero.mp hzero)
    exact absurd (hr.2 hnil) hpos.ne'

/-- A thread that does not run stays as it is. -/
lemma connectionHandlerStep_of_stopped (file : FileCalls σ) (r : Recv) (h : t.status ≠ .running) :
    connectionHandlerStep file r t = .ok ((), t) := by
  cases r <;> exact (read_bind_apply ..).trans (by rw [id, if_neg h, pure_apply])

/-- After a timeout the thread goes on as it was, and after the end of the stream, or an error, it
stops. -/
lemma of_connectionHandlerStep_quiet (hrun : t.status = .running) (hr : r.bytes = [])
    (h : connectionHandlerStep file r t = .ok (a, t')) :
    t'.buffer = t.buffer ∧ t'.residualSize = t.residualSize ∨ t'.status = .finished := by
  by_cases htimeout : ∃ b, r = .timeout b
  · obtain ⟨b, rfl⟩ := htimeout
    rw [connectionHandlerStep_timeout file b hrun] at h
    cases h
    exact .inl ⟨rfl, rfl⟩
  · rw [connectionHandlerStep_ended file hrun hr (not_exists.mp htimeout)] at h
    cases h
    exact .inr rfl

/-- A tail is shorter than what it is the tail of, if there was a line. -/
lemma length_rest_lt {s : List Byte} (h : newline ∈ s) : (rest newline s).length < s.length := by
  obtain ⟨u, v, rfl⟩ := List.append_of_mem h
  have hle := length_rest_le newline v
  rw [rest_append_delim, List.length_append, List.length_cons]
  omega

/-- A chunk leaves room, or the residual has become as large as the buffer. -/
lemma HandlerThread.Roomy.data (h : t.Roomy) (hrun : t.status = .running) (hne : bytes ≠ [])
    (hlen : bytes.length ≤ t.recvSize)
    (hstep : connectionHandlerStep file (.data bytes) t = .ok (a, t')) :
    (Recv.data bytes).LeavesRoom t ∧ t'.Roomy ∨
      ¬ (Recv.data bytes).LeavesRoom t ∧ ¬ t'.AsksForBytes := by
  obtain ⟨hbuffer, hsize⟩ := h hrun
  have hlength := length_processed hbuffer hsize.le hlen
  rcases of_connectionHandlerStep_data hrun hbuffer hsize.le hne hlen hstep
    with ⟨hexited, hmem⟩ | hafter
  · refine .inl ⟨fun _ _ => .inr hmem, ?_⟩
    intro hrunning
    rw [hexited] at hrunning
    cases hrunning
  · have hstatus := hafter.status
    by_cases hlast : t.lastCall = true
    · rw [if_pos hlast] at hstatus
      refine .inl ⟨fun _ hnot => absurd (hlast.symm.trans hnot) nofun, ?_⟩
      intro hrunning
      rw [hstatus] at hrunning
      cases hrunning
    rw [if_neg hlast] at hstatus
    by_cases hmem : newline ∈ t.processed bytes
    · have hlt := length_rest_lt hmem
      refine .inl ⟨fun _ _ => .inr hmem, fun _ => ⟨hafter.length_buffer, ?_⟩⟩
      rw [HandlerThread.recvSize] at hlen
      rw [hafter.residualSize_eq]
      omega
    · have hresidual : t'.residualSize = bytes.length + t.residualSize := by
        rw [hafter.residualSize_eq, rest_of_notMem hmem, hlength]
      by_cases hroom : bytes.length + t.residualSize < bufferSize
      · exact .inl ⟨fun _ _ => .inl hroom, fun _ => ⟨hafter.length_buffer, hresidual ▸ hroom⟩⟩
      · refine .inr ⟨?_, ?_⟩
        · intro hleaves
          exact (hleaves hrun (by simpa using hlast)).elim hroom hmem
        · intro hasks
          exact hroom (hresidual ▸ (hasks hstatus).1)

/-- A thread that has stopped leaves the room it has. -/
lemma leavesRoom_of_stopped (r : Recv) (h : t.status ≠ .running) : r.LeavesRoom t := by
  cases r with
  | data bytes => exact fun hrunning => absurd hrunning h
  | _ => trivial

/-- A call that brings nothing leaves the room there is. -/
lemma leavesRoom_of_nil (hsize : t.residualSize < bufferSize) (h : r.bytes = []) :
    r.LeavesRoom t := by
  cases r with
  | data bytes =>
    obtain rfl : bytes = [] := h
    intro _ _
    rw [List.length_nil, Nat.zero_add]
    exact .inl hsize
  | _ => trivial

/-- One turn: it leaves room, or the residual has become as large as the buffer. -/
lemma HandlerThread.Roomy.step (h : t.Roomy) (hr : t.status = .running → r.Possible t)
    (hstep : connectionHandlerStep file r t = .ok (a, t')) :
    r.LeavesRoom t ∧ t'.Roomy ∨ ¬ r.LeavesRoom t ∧ ¬ t'.AsksForBytes := by
  by_cases hrun : t.status = .running
  · obtain ⟨hbuffer, hsize⟩ := h hrun
    by_cases hnil : r.bytes = []
    · refine .inl ⟨leavesRoom_of_nil hsize hnil, ?_⟩
      intro hrunning
      rcases of_connectionHandlerStep_quiet hrun hnil hstep with ⟨hbuffer', hsize'⟩ | hfinished
      · rw [hbuffer', hsize']
        exact ⟨hbuffer, hsize⟩
      · rw [hfinished] at hrunning
        cases hrunning
    · obtain ⟨bytes, rfl⟩ := exists_data hnil
      exact h.data hrun hnil (hr hrun).1 hstep
  · rw [connectionHandlerStep_of_stopped file r hrun] at hstep
    cases hstep
    exact .inl ⟨leavesRoom_of_stopped r hrun, h⟩

/-- Whatever the calls on the file do, and however the client's bytes are cut into chunks: in every
state that the thread reaches it asks for at least one byte, exactly if in no turn a chunk fills the
buffer up with bytes that end no line. -/
theorem asks_for_bytes_iff (file : FileCalls σ) (buffer beyond residual : List Byte) (shared : σ)
    (rs : List Recv) (hbuffer : buffer.length = bufferSize)
    (hrs : Machine.Along (connectionHandlerStep file)
      (fun t r _ _ => t.status = .running → r.Possible t) rs
      (.start buffer beyond residual shared)) :
    (∀ rs' os t, rs' <+: rs →
      Machine.run (connectionHandlerStep file) rs' (.start buffer beyond residual shared)
        = .ok (os, t) → t.AsksForBytes) ↔
      Machine.Along (connectionHandlerStep file) (fun t r _ _ => r.LeavesRoom t) rs
        (.start buffer beyond residual shared) := by
  refine Machine.always_iff (G := HandlerThread.Roomy)
    (A := fun t r => t.status = .running → r.Possible t) (fun t h => h.asksForBytes)
    (fun r t _ t' h hr hstep => h.step hr hstep) rs ?_ hrs
  exact fun _ => ⟨hbuffer, Nat.zero_lt_succ 399⟩

end

/-! ### Lines as long as the buffer -/

lemma newline_notMem_replicate (n : ℕ) : newline ∉ List.replicate n (97 : Byte) := by
  intro hmem
  exact absurd (List.eq_of_mem_replicate hmem) (by decide)

lemma zeroedThread_processed (bytes : List Byte) : zeroedThread.processed bytes = bytes :=
  List.take_left

lemma possible_replicate {n : ℕ} (hpos : 0 < n) (hle : n ≤ bufferSize) :
    (Recv.data (List.replicate n 97)).Possible zeroedThread :=
  ⟨List.length_replicate.le.trans hle,
    fun hnil => absurd ((List.replicate_eq_nil_iff _).mp hnil) hpos.ne'⟩

lemma leavesRoom_replicate_iff (n : ℕ) :
    (Recv.data (List.replicate n 97)).LeavesRoom zeroedThread ↔ n < bufferSize := by
  rw [Recv.LeavesRoom, zeroedThread_processed, List.length_replicate]
  constructor
  · intro hleaves
    exact (hleaves rfl rfl).resolve_right (newline_notMem_replicate n)
  · exact fun hlt _ _ => .inl hlt

/-- The first `n` bytes of a line are left over. -/
lemma zeroedThread_data {n : ℕ} (hpos : 0 < n) (hle : n ≤ bufferSize) :
    Returns (connectionHandlerStep recordSegments (.data (List.replicate n 97))) zeroedThread
      fun _ t => t.status = .running ∧ t.residualSize = n := by
  have hwaiting : Waiting zeroedThread := ⟨rfl, rfl, List.length_replicate, Nat.zero_le _⟩
  have hpossible := possible_replicate hpos hle
  have hne : List.replicate n (97 : Byte) ≠ [] := by
    rw [Ne, List.replicate_eq_nil_iff]
    omega
  refine (hwaiting.data hne hpossible.1).mono ?_
  rintro - t ⟨hwaiting', hsize, -⟩
  rw [zeroedThread_processed, rest_of_notMem (newline_notMem_replicate n),
    List.length_replicate] at hsize
  exact ⟨hwaiting'.running, hsize⟩

/-- 399 bytes of a line leave room for its newline, and 400 bytes leave none. -/
theorem asks_for_bytes_iff_nearlyFull :
    (∀ rs' os t, rs' <+: [.data (List.replicate 399 97), .data [newline]] →
      Machine.run (connectionHandlerStep recordSegments) rs' zeroedThread = .ok (os, t) →
        t.AsksForBytes) ∧
    ¬ ∀ rs' os t, rs' <+: [.data (List.replicate 400 97)] →
      Machine.run (connectionHandlerStep recordSegments) rs' zeroedThread = .ok (os, t) →
        t.AsksForBytes := by
  constructor
  · refine (asks_for_bytes_iff recordSegments _ [] _ []
      [.data (List.replicate 399 97), .data [newline]] List.length_replicate ?_).mpr ?_
    · intro _ t hstep
      obtain ⟨-, hsize⟩ := (zeroedThread_data (by decide) (by decide)).post hstep
      refine ⟨fun _ => possible_replicate (by decide) (by decide), ?_⟩
      intro _ _ _
      refine ⟨fun _ => ⟨?_, nofun⟩, trivial⟩
      rw [HandlerThread.recvSize, hsize]
      decide
    · intro _ t _
      refine ⟨(leavesRoom_replicate_iff 399).mpr (by decide), fun _ _ _ => ⟨fun _ _ => ?_, trivial⟩⟩
      refine .inr (List.mem_of_getElem? (i := 0) ?_)
      rw [getElem?_processed Nat.one_pos]
      rfl
  · refine (asks_for_bytes_iff recordSegments _ [] _ [] [.data (List.replicate 400 97)]
      List.length_replicate ?_).not.mpr ?_
    · exact fun _ _ _ => ⟨fun _ => possible_replicate (by decide) (by decide), trivial⟩
    · obtain ⟨_, t, hstep, -⟩ := zeroedThread_data (n := 400) (by decide) (by decide)
      intro hroom
      exact absurd ((leavesRoom_replicate_iff 400).mp (hroom _ t hstep).1) (by decide)

/-- The client sends 400 bytes of a line, and the thread asks for none of the rest of it: the `recv`
returns 0, and the thread stops, although the peer has not closed the connection. -/
theorem asks_for_nothing :
    (Recv.data (List.replicate 400 97)).Possible zeroedThread ∧
    Returns (Machine.run (connectionHandlerStep recordSegments) [.data (List.replicate 400 97)])
      zeroedThread fun _ t =>
        t.status = .running ∧ t.residualSize = bufferSize ∧ t.recvSize = 0 ∧
          (Recv.data []).Possible t ∧ (Recv.data []).retVal = 0 ∧ ¬ t.AsksForBytes ∧
          Returns (connectionHandlerStep recordSegments (.data [])) t fun _ t' =>
            t'.status = .finished := by
  obtain ⟨_, t, hstep, hrunning, hsize⟩ := zeroedThread_data (n := 400) (by decide) (by decide)
  have hrecv : t.recvSize = 0 := by rw [HandlerThread.recvSize, hsize, bufferSize]
  have hrun := Machine.run_cons hstep (Machine.run_nil t)
  refine ⟨possible_replicate (by decide) (by decide), _, t, hrun, hrunning, hsize, hrecv,
    ⟨Nat.zero_le _, fun _ => hrecv⟩, rfl, ?_, ?_⟩
  · intro hasks
    exact absurd (hasks hrunning).1 (by rw [hsize, bufferSize]; decide)
  · exact ⟨(), _, connectionHandlerStep_ended _ hrunning rfl (by simp), rfl⟩

end Aesd
