import Aesd.Server.ConnectionHandler

/-!
# Reassembling the lines of a stream

The unfinished segment at the end of a chunk is copied aside and counted, but the next chunk is
received over it: what is processed then is the new chunk with as many stale bytes behind it as were
left over. So the lines of a stream are handed on exactly if no line is cut by the end of a chunk.
-/

namespace Aesd

open Exec

section

variable {σ : Type}

/-- What the client and the network may do: deliver some bytes, as many as were asked for at most,
or keep the thread waiting. -/
def Recv.Delivers (t : HandlerThread σ) : Recv → Prop
  | .data bytes => bytes ≠ [] ∧ bytes.length ≤ t.recvSize
  | .timeout closeRequested => closeRequested = false
  | _ => False

/-- Nothing was left over before the chunk, or nothing in what is processed now ends a line. -/
def Recv.Whole (t : HandlerThread σ) : Recv → Prop
  | .data bytes => t.residualSize = 0 ∨ newline ∉ t.processed bytes
  | _ => True

instance (t : HandlerThread σ) : ∀ r : Recv, Decidable (r.Delivers t)
  | .data bytes => inferInstanceAs (Decidable (bytes ≠ [] ∧ bytes.length ≤ t.recvSize))
  | .timeout closeRequested => inferInstanceAs (Decidable (closeRequested = false))
  | .closed | .failed => .isFalse id

instance (t : HandlerThread σ) : ∀ r : Recv, Decidable (r.Whole t)
  | .data bytes => inferInstanceAs (Decidable (t.residualSize = 0 ∨ newline ∉ t.processed bytes))
  | .timeout _ | .closed | .failed => .isTrue trivial

end

/-! ### The lines that are handed on -/

/-- Calls that only record which segments they are given. -/
def recordSegments : FileCalls (List (List Byte)) where
  openFile := pure ()
  handle seg := do
    update fun log => log ++ [seg.bytes]
    pure true
  closeFile := pure ()

lemma handleAll_recordSegments (segs : List Segment) (log : List (List Byte)) :
    handleAll recordSegments.handle segs log = .ok (true, log ++ segs.map Segment.bytes) := by
  induction segs generalizing log with
  | nil => simp [handleAll]
  | cons seg segs ih =>
    have hseg : recordSegments.handle seg log = .ok (true, log ++ [seg.bytes]) := rfl
    rw [handleAll, bind_ok hseg, if_pos rfl, ih]
    simp

open Delimited

/-- The thread waits for the next chunk. -/
structure Waiting (t : HandlerThread (List (List Byte))) : Prop where
  running : t.status = .running
  lastCall : t.lastCall = false
  length_buffer : t.buffer.length = bufferSize
  residualSize_le : t.residualSize ≤ bufferSize

section

variable {t : HandlerThread (List (List Byte))} {stream bytes : List Byte}

/-- A received byte is where it was received to. -/
lemma getElem?_processed {i : ℕ} (hi : i < bytes.length) :
    (t.processed bytes)[i]? = bytes[i]? := by
  rw [HandlerThread.processed, List.getElem?_take_of_lt (by omega), List.getElem?_append_left hi]

lemma Waiting.length_processed (h : Waiting t) (hlen : bytes.length ≤ t.recvSize) :
    (t.processed bytes).length = bytes.length + t.residualSize :=
  Aesd.length_processed h.length_buffer h.residualSize_le hlen

/-- One chunk: the lines of what is processed are handed on, and its tail is counted. -/
lemma Waiting.data (h : Waiting t) (hne : bytes ≠ []) (hlen : bytes.length ≤ t.recvSize) :
    Returns (connectionHandlerStep recordSegments (.data bytes)) t fun _ t' =>
      Waiting t' ∧ t'.residualSize = (rest newline (t.processed bytes)).length ∧
        t'.shared = t.shared ++ lines newline (t.processed bytes) := by
  refine (connectionHandlerStep_data recordSegments h.running h.length_buffer
    h.residualSize_le hne hlen
    (Q := fun log => log = t.shared)
    (R := fun ok log => ok = true ∧ log = t.shared ++ lines newline (t.processed bytes))
    (S := fun log => log = t.shared ++ lines newline (t.processed bytes)) ⟨(), t.shared, rfl, rfl⟩
    ?_ ?_).mono ?_
  · rintro _ segs rfl hsegs
    exact ⟨true, _, handleAll_recordSegments segs t.shared, rfl, by rw [hsegs]⟩
  · rintro _ ⟨-, rfl⟩
    exact ⟨(), _, rfl, rfl⟩
  · rintro - t' (⟨-, hexit, -⟩ | ⟨hafter, hshared⟩)
    · cases hexit
    · have hrest := length_rest_le newline (t.processed bytes)
      have hprocessed := h.length_processed hlen
      have hsize := h.residualSize_le
      rw [HandlerThread.recvSize] at hlen
      refine ⟨⟨?_, hafter.lastCall.trans h.lastCall, hafter.length_buffer, ?_⟩,
        hafter.residualSize_eq, hshared⟩
      · rw [hafter.status, h.lastCall, if_neg (by simp)]
      · rw [hafter.residualSize_eq]
        omega

/-- A timeout while nobody closes the server. -/
lemma Waiting.timeout (h : Waiting t) :
    connectionHandlerStep recordSegments (.timeout false) t = .ok ((), t) := by
  rw [connectionHandlerStep_timeout recordSegments false h.running, Bool.or_false]

/-! ### Whole streams -/

/-- Everything that was received so far was handed on line by line, but for a tail of `residualSize`
bytes. -/
structure InStep (t : HandlerThread (List (List Byte))) (stream : List Byte) : Prop
    extends Waiting t where
  residualSize_eq : t.residualSize = (rest newline stream).length
  handedOn : t.shared = lines newline stream

/-- Something was handed on that is no line of the stream, however it goes on. -/
structure Astray (t : HandlerThread (List (List Byte))) (stream : List Byte) : Prop
    extends Waiting t where
  handedOn : ∃ log, log <+: t.shared ∧ ∀ more, ¬ log <+: lines newline (stream ++ more)

lemma Astray.ne (h : Astray t stream) : t.shared ≠ lines newline stream := by
  obtain ⟨log, hlog, hmore⟩ := h.handedOn
  intro heq
  have := hmore []
  rw [List.append_nil, ← heq] at this
  exact this hlog

/-- A chunk that arrives when nothing is left over, or that ends no line. -/
lemma InStep.data (h : InStep t stream) (hne : bytes ≠ []) (hlen : bytes.length ≤ t.recvSize)
    (hwhole : t.residualSize = 0 ∨ newline ∉ t.processed bytes) :
    Returns (connectionHandlerStep recordSegments (.data bytes)) t fun _ t' =>
      InStep t' (stream ++ bytes) := by
  have hlength := h.length_processed hlen
  refine (h.toWaiting.data hne hlen).mono ?_
  rintro - t' ⟨hwaiting, hsize, hshared⟩
  rw [h.handedOn] at hshared
  rcases hwhole with hzero | hnone
  · -- nothing is left over
    have hprocessed : t.processed bytes = bytes := by
      rw [HandlerThread.processed, hzero, Nat.add_zero, List.take_left]
    have hnil : rest newline stream = [] :=
      List.eq_nil_of_length_eq_zero (h.residualSize_eq.symm.trans hzero)
    refine ⟨hwaiting, ?_, ?_⟩
    · rw [hsize, hprocessed, rest_append, hnil, List.nil_append]
    · rw [hshared, hprocessed, lines_append, hnil, List.nil_append]
  · -- nothing ends a line
    have hbytes : newline ∉ bytes := by
      intro hmem
      obtain ⟨i, hi, hget⟩ := List.getElem_of_mem hmem
      refine hnone (List.mem_of_getElem? (i := i) ?_)
      rw [getElem?_processed hi, List.getElem?_eq_getElem hi, hget]
    have hjoined : newline ∉ rest newline stream ++ bytes := by
      simp [notMem_rest, hbytes]
    refine ⟨hwaiting, ?_, ?_⟩
    · rw [hsize, rest_of_notMem hnone, hlength, rest_append, rest_of_notMem hjoined,
        List.length_append, ← h.residualSize_eq, Nat.add_comm]
    · rw [hshared, lines_of_notMem hnone, lines_append, lines_of_notMem hjoined]

/-- A line of the stream that ends in a chunk has the tail before it, and so it ends later in what
is processed than the first newline there. -/
lemma InStep.newline_mem (h : InStep t stream) (hlen : bytes.length ≤ t.recvSize)
    (htail : t.residualSize ≠ 0) {u v s more : List Byte}
    (hcut : t.processed bytes = u ++ newline :: v)
    (hstream : rest newline stream ++ (bytes ++ more) = u ++ newline :: s) : newline ∈ u := by
  have hlength := h.length_processed hlen
  have hsize := h.residualSize_eq
  rw [hcut, List.length_append, List.length_cons] at hlength
  have hget : (rest newline stream ++ (bytes ++ more))[u.length]? = some newline := by
    rw [hstream, List.getElem?_append_right le_rfl, Nat.sub_self]
    rfl
  rcases Nat.lt_or_ge u.length t.residualSize with hlt | hge
  · -- the tail has no newline
    rw [List.getElem?_append_left (by omega)] at hget
    exact absurd (List.mem_of_getElem? hget) (notMem_rest newline stream)
  · rw [List.getElem?_append_right (by omega), ← hsize,
      List.getElem?_append_left (by omega), ← getElem?_processed (t := t) (by omega), hcut,
      List.getElem?_append_left (by omega)] at hget
    exact List.mem_of_getElem? hget

/-- A chunk that arrives behind a tail and ends a line: the line is handed on without the tail, and
so it ends too early. -/
lemma InStep.astray (h : InStep t stream) (hne : bytes ≠ []) (hlen : bytes.length ≤ t.recvSize)
    (htail : t.residualSize ≠ 0) (hmem : newline ∈ t.processed bytes) :
    Returns (connectionHandlerStep recordSegments (.data bytes)) t fun _ t' =>
      Astray t' (stream ++ bytes) := by
  obtain ⟨u, v, hcut, hu⟩ := List.eq_append_cons_of_mem hmem
  refine (h.toWaiting.data hne hlen).mono ?_
  rintro - t' ⟨hwaiting, -, hshared⟩
  refine ⟨hwaiting, ?_⟩
  rw [h.handedOn, hcut, lines_append_delim hu] at hshared
  refine ⟨lines newline stream ++ [u ++ [newline]], ?_, fun more hpre => hu ?_⟩
  · rw [hshared]
    exact (List.prefix_append_right_inj _).mpr ⟨lines newline v, rfl⟩
  rw [List.append_assoc, lines_append, List.prefix_append_right_inj] at hpre
  obtain ⟨ls, hls⟩ := hpre
  obtain ⟨u', s, _, hstream, heq⟩ := of_lines_eq_cons (hls.symm.trans (List.singleton_append ..))
  obtain rfl : u = u' := List.append_cancel_right heq
  exact h.newline_mem hlen htail hcut hstream

/-- What was handed on is never taken back. -/
lemma Astray.data (h : Astray t stream) (hne : bytes ≠ []) (hlen : bytes.length ≤ t.recvSize) :
    Returns (connectionHandlerStep recordSegments (.data bytes)) t fun _ t' =>
      Astray t' (stream ++ bytes) := by
  obtain ⟨log, hlog, hmore⟩ := h.handedOn
  refine (h.toWaiting.data hne hlen).mono ?_
  rintro - t' ⟨hwaiting, -, hshared⟩
  refine ⟨hwaiting, log, ?_, fun more => ?_⟩
  · rw [hshared]
    exact hlog.trans (List.prefix_append _ _)
  · rw [List.append_assoc]
    exact hmore (bytes ++ more)

end

lemma Astray.step {t : HandlerThread (List (List Byte))} {stream : List Byte} {r : Recv}
    (h : Astray t stream) (hr : r.Delivers t) :
    Returns (connectionHandlerStep recordSegments r) t fun _ t' =>
      Astray t' (stream ++ r.bytes) := by
  cases r with
  | data bytes => exact h.data hr.1 hr.2
  | timeout closeRequested =>
    obtain rfl : closeRequested = false := hr
    exact ⟨(), t, h.timeout, by simpa [Recv.bytes] using h⟩
  | closed => exact hr.elim
  | failed => exact hr.elim

lemma InStep.step {t : HandlerThread (List (List Byte))} {stream : List Byte} {r : Recv}
    (h : InStep t stream) (hr : r.Delivers t) :
    Returns (connectionHandlerStep recordSegments r) t fun _ t' =>
      r.Whole t ∧ InStep t' (stream ++ r.bytes) ∨ ¬ r.Whole t ∧ Astray t' (stream ++ r.bytes) := by
  cases r with
  | data bytes =>
    by_cases hwhole : t.residualSize = 0 ∨ newline ∉ t.processed bytes
    · exact (h.data hr.1 hr.2 hwhole).mono fun _ t' h' => .inl ⟨hwhole, h'⟩
    · have hcut := hwhole
      rw [not_or, not_not] at hcut
      exact (h.astray hr.1 hr.2 hcut.1 hcut.2).mono fun _ t' h' => .inr ⟨hwhole, h'⟩
  | timeout closeRequested =>
    obtain rfl : closeRequested = false := hr
    exact ⟨(), t, h.timeout, .inl ⟨trivial, by simpa [Recv.bytes] using h⟩⟩
  | closed => exact hr.elim
  | failed => exact hr.elim

lemma foldl_received (stream : List Byte) (rs : List Recv) :
    rs.foldl (fun stream r => stream ++ r.bytes) stream = stream ++ received rs := by
  induction rs generalizing stream with
  | nil => simp [received]
  | cons r rs ih =>
    rw [List.foldl_cons, ih, received, received, List.flatMap_cons, List.append_assoc]

/-- However a stream is cut into chunks, and whatever the buffers hold before: what is handed on are
the lines of the stream if and only if no chunk with a newline among the processed bytes arrives
behind a line that the chunk before it left unfinished. -/
theorem reassembly_iff (buffer beyond residual : List Byte) (rs : List Recv)
    (hbuffer : buffer.length = bufferSize)
    (hrs : Machine.Meets (connectionHandlerStep recordSegments) Recv.Delivers rs
      (.start buffer beyond residual [])) :
    Returns (Machine.run (connectionHandlerStep recordSegments) rs)
      (.start buffer beyond residual []) fun _ t =>
        t.shared = lines newline (received rs) ↔
          Machine.Meets (connectionHandlerStep recordSegments) Recv.Whole rs
            (.start buffer beyond residual []) := by
  have hstart : InStep (.start buffer beyond residual []) [] :=
    ⟨⟨rfl, rfl, hbuffer, Nat.zero_le _⟩, rfl, rfl⟩
  have hrun := Machine.run_meets_iff (fun stream t => InStep t stream)
    (fun stream t => Astray t stream) (fun r t stream h hr => h.step hr)
    (fun r t stream h hr => h.step hr) rs hstart hrs
  simp only [foldl_received, List.nil_append] at hrun
  refine hrun.mono fun _ t hend => ?_
  rcases hend with ⟨hwhole, h⟩ | ⟨hcut, h⟩
  · exact iff_of_true h.handedOn hwhole
  · exact iff_of_false h.ne hcut

/-- A thread whose buffers hold zeros. -/
def zeroedThread : HandlerThread (List (List Byte)) :=
  .start (List.replicate bufferSize 0) [] (List.replicate bufferSize 0) []

/-- Three chunks: the first ends with a line, and the third arrives behind a byte of the next line
and ends none. -/
def wholeChunks : List Recv :=
  [.data [97, newline], .data [98, 99, newline, 100], .timeout false, .data [101]]

theorem reassembly_iff_wholeChunks :
    Returns (Machine.run (connectionHandlerStep recordSegments) wholeChunks) zeroedThread
      fun _ t => t.shared = [[97, newline], [98, 99, newline]] := by
  refine (reassembly_iff _ [] _ wholeChunks List.length_replicate
    (by decide +kernel)).mono fun _ t hiff => ?_
  exact hiff.mpr (by decide +kernel)

/-- A line in two chunks: its first byte is lost. -/
theorem reassembly_loses_byte :
    Machine.Meets (connectionHandlerStep recordSegments) Recv.Delivers
        [.data [97], .data [98, newline]] zeroedThread ∧
      lines newline (received [.data [97], .data [98, newline]]) = [[97, 98, newline]] ∧
      Returns (Machine.run (connectionHandlerStep recordSegments)
        [.data [97], .data [98, newline]]) zeroedThread fun _ t =>
          t.shared = [[98, newline]] := by
  refine ⟨by decide +kernel, by decide, ?_⟩
  have hrun : (Machine.run (connectionHandlerStep recordSegments)
      [.data [97], .data [98, newline]] zeroedThread).map (fun p => p.2.shared)
      = .ok [[98, newline]] := by decide +kernel
  obtain ⟨⟨os, t⟩, hrun, hshared⟩ := exists_of_map_ok hrun
  exact ⟨os, t, hrun, hshared⟩

end Aesd
