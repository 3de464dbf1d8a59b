import Aesd.Driver.Device.Basic
import Aesd.Library.Ghost
import Aesd.Library.Lines

/-!
# Cutting the receive buffer into segments

`FindSeek` and `ProcessBuffer` of `connectionHandlerThread.c`. What is done with a segment is a
parameter of the loop that cuts the buffer: it gets the memory from the start of the segment on,
which does not end with the segment, and the length of the segment.
-/

namespace Aesd

open Exec

/-! ### `FindSeek` -/

/-- `isspace` -/
def isSpace (c : Byte) : Bool := c = 32 || 9 ≤ c && c ≤ 13

/-- `isdigit` -/
def isDigit (c : Byte) : Bool := 48 ≤ c && c ≤ 57

/-- `strtoul` on a sign and digits. A number too large for an `unsigned long` becomes the largest
one. -/
def strtoul (negative : Bool) (digits : List Byte) : ℕ :=
  let n := digits.foldl (fun n c => 10 * n + (c.toNat - 48)) 0
  if 2 ^ 64 ≤ n then 2 ^ 64 - 1 else if negative then (2 ^ 64 - n) % 2 ^ 64 else n

/-- The conversion `%u` of `sscanf`, with the rest of the string. It skips white space, accepts a
sign, and stores the low 32 bits. -/
def scanUInt32 (s : List Byte) : Option (UInt32 × List Byte) :=
  let s := s.dropWhile isSpace
  let (negative, s) :=
    match s with
    | 45 :: s => (true, s)
    | 43 :: s => (false, s)
    | s => (false, s)
  let digits := s.takeWhile isDigit
  if digits = [] then none
  else some (UInt32.ofNat (strtoul negative digits), s.dropWhile isDigit)

/-- `AESD_SOCKET_IOC_STRING ":"` -/
def aesdSocketIocString : List Byte :=
  [65, 69, 83, 68, 67, 72, 65, 82, 95, 73, 79, 67, 83, 69, 69, 75, 84, 79, 58]

/-- `FindSeek` on the memory from `bufferPtr` on. The string ends at the first NUL, wherever the
segment ends; the newline at the end of the format matches anything. -/
def findSeek (bufferPtr : List Byte) : Option AesdSeekto :=
  let s := bufferPtr.takeWhile (· ≠ 0)
  if aesdSocketIocString.isPrefixOf s then
    match scanUInt32 (s.drop aesdSocketIocString.length) with
    | some (writeCmd, 44 :: s) =>
      match scanUInt32 s with
      | some (writeCmdOffset, _) => some ⟨writeCmd, writeCmdOffset⟩
      | none => none
    | _ => none
  else none

example : findSeek (aesdSocketIocString ++ [49, 44, 50, 10]) = some ⟨1, 2⟩ := by decide

/-! ### `ProcessBuffer` -/

/-- A segment: the memory from its start on, and its length. -/
structure Segment where
  segmentPtr : List Byte
  segmentLen : ℕ
  deriving DecidableEq, Repr

/-- The bytes of a segment. -/
def Segment.bytes (seg : Segment) : List Byte := seg.segmentPtr.take seg.segmentLen

section

variable {σ : Type}

/-- The value `buf[i]` of a local array. -/
def loadByte (buf : List Byte) (i : ℕ) : Exec Fault σ Byte :=
  match buf[i]? with
  | some c => pure c
  | none => fault .outOfBounds

/-- The `for` loop of `ProcessBuffer` over `n` more bytes, with the first `len` bytes of the current
segment at `start` behind it. It ends with the start and the length of the unfinished segment, or
with none if handling a segment ended the process. -/
def segmentLoop (handle : Segment → Exec Fault σ Bool) (bufferPtr : List Byte) :
    ℕ → ℕ → ℕ → Exec Fault σ (Option (ℕ × ℕ))
  | 0, start, segmentLen => pure (some (start, segmentLen))
  | n + 1, start, segmentLen => do
    let c ← loadByte bufferPtr (start + segmentLen)
    let segmentLen := segmentLen + 1
    if c = newline then
      if ← handle ⟨bufferPtr.drop start, segmentLen⟩ then
        segmentLoop handle bufferPtr n (start + segmentLen) 0
      else pure none
    else segmentLoop handle bufferPtr n start segmentLen

/-- `ProcessBuffer`: the new contents of the residual buffer and of `*residualSize`. -/
def processBuffer (handle : Segment → Exec Fault σ Bool) (bufferPtr : List Byte) (bufferLen : ℕ)
    (residual : List Byte) : Exec Fault σ (Option (List Byte × ℕ)) := do
  match ← segmentLoop handle bufferPtr bufferLen 0 0 with
  | none => pure none
  | some (start, segmentLen) =>
    if segmentLen ≠ 0 then
      pure (some ((bufferPtr.drop start).take segmentLen ++ residual.drop segmentLen, segmentLen))
    else pure (some (residual, segmentLen))

/-! ### The segments of a buffer -/

/-- The segments that the loop cuts out. -/
def segments (bufferPtr : List Byte) : ℕ → ℕ → ℕ → List Segment
  | 0, _, _ => []
  | n + 1, start, segmentLen =>
    if bufferPtr[start + segmentLen]? = some newline then
      ⟨bufferPtr.drop start, segmentLen + 1⟩ :: segments bufferPtr n (start + (segmentLen + 1)) 0
    else segments bufferPtr n start (segmentLen + 1)

/-- Where the loop ends: the start and the length of the unfinished segment. -/
def unfinished (bufferPtr : List Byte) : ℕ → ℕ → ℕ → ℕ × ℕ
  | 0, start, segmentLen => (start, segmentLen)
  | n + 1, start, segmentLen =>
    if bufferPtr[start + segmentLen]? = some newline then
      unfinished bufferPtr n (start + (segmentLen + 1)) 0
    else unfinished bufferPtr n start (segmentLen + 1)

/-- Handle segment after segment, until the process ends. -/
def handleAll (handle : Segment → Exec Fault σ Bool) : List Segment → Exec Fault σ Bool
  | [] => pure true
  | seg :: segs => do
    if ← handle seg then handleAll handle segs else pure false

/-- The loop cuts first and handles then: how it cuts does not depend on what handling does. -/
lemma segmentLoop_eq (handle : Segment → Exec Fault σ Bool) {bufferPtr : List Byte}
    {n start len : ℕ} (h : start + len + n ≤ bufferPtr.length) :
    segmentLoop handle bufferPtr n start len =
      handleAll handle (segments bufferPtr n start len) >>= fun ok =>
        if ok then pure (some (unfinished bufferPtr n start len)) else pure none := by
  induction n generalizing start len with
  | zero => rfl
  | succ n ih =>
    have hlt : start + len < bufferPtr.length := by omega
    rw [segmentLoop, segments, unfinished, loadByte, List.getElem?_eq_getElem hlt]
    by_cases hc : bufferPtr[start + len] = newline
    · simp only [pure_bind_eq, hc, if_true, handleAll, bind_assoc_eq]
      congr 1
      funext ok
      cases ok with
      | true => exact ih (by omega)
      | false => rfl
    · simp only [pure_bind_eq, hc, if_false, Option.some.injEq]
      exact ih (by omega)

/-- `ProcessBuffer` handles the segments of the buffer and then keeps what is unfinished. -/
lemma processBuffer_eq (handle : Segment → Exec Fault σ Bool) {bufferPtr : List Byte}
    {bufferLen : ℕ} (h : bufferLen ≤ bufferPtr.length) (residual : List Byte) :
    processBuffer handle bufferPtr bufferLen residual =
      handleAll handle (segments bufferPtr bufferLen 0 0) >>= fun ok =>
        if ok then
          let (start, segmentLen) := unfinished bufferPtr bufferLen 0 0
          if segmentLen ≠ 0 then
            pure (some ((bufferPtr.drop start).take segmentLen ++ residual.drop segmentLen,
              segmentLen))
          else pure (some (residual, segmentLen))
        else pure none := by
  rw [processBuffer, segmentLoop_eq handle (by omega), bind_assoc_eq]
  congr 1
  funext ok
  cases ok <;> rfl

open Delimited in
/-- The segments are the lines of the processed bytes, and what is left is their tail. -/
lemma segments_spec {bufferPtr : List Byte} {n start len : ℕ}
    (h : start + len + n ≤ bufferPtr.length)
    (hscan : newline ∉ (bufferPtr.drop start).take len) :
    (segments bufferPtr n start len).map Segment.bytes
        = lines newline ((bufferPtr.drop start).take (len + n)) ∧
      (bufferPtr.drop (unfinished bufferPtr n start len).1).take
          (unfinished bufferPtr n start len).2
        = rest newline ((bufferPtr.drop start).take (len + n)) ∧
      (unfinished bufferPtr n start len).2
        = (rest newline ((bufferPtr.drop start).take (len + n))).length := by
  induction n generalizing start len with
  | zero =>
    rw [Nat.add_zero, lines_of_notMem hscan, rest_of_notMem hscan]
    refine ⟨rfl, rfl, ?_⟩
    rw [List.length_take, List.length_drop, unfinished]
    omega
  | succ n ih =>
    have hlt : start + len < bufferPtr.length := by omega
    have hlen : len < (bufferPtr.drop start).length := by
      rw [List.length_drop]
      omega
    have hget : (bufferPtr.drop start)[len] = bufferPtr[start + len] := List.getElem_drop ..
    rw [segments, unfinished, List.getElem?_eq_getElem hlt]
    by_cases hc : bufferPtr[start + len] = newline
    · -- the end of a segment
      rw [if_pos (congrArg some hc), if_pos (congrArg some hc)]
      have hcut : (bufferPtr.drop start).take (len + (n + 1))
          = (bufferPtr.drop start).take len
            ++ newline :: (bufferPtr.drop (start + (len + 1))).take (0 + n) := by
        rw [Nat.zero_add, List.take_add, List.drop_eq_getElem_cons hlen, List.take_succ_cons, hget,
          hc, List.drop_drop]
      have hbytes : Segment.bytes ⟨bufferPtr.drop start, len + 1⟩
          = (bufferPtr.drop start).take len ++ [newline] := by
        rw [Segment.bytes, List.take_add_one, List.getElem?_eq_getElem hlen, hget, hc]
        rfl
      obtain ⟨hsegs, hrest, hlast⟩ := ih
        (by omega : start + (len + 1) + 0 + n ≤ bufferPtr.length) (by simp)
      rw [hcut, lines_append_delim hscan, rest_append_delim, List.map_cons, hbytes, hsegs]
      exact ⟨rfl, hrest, hlast⟩
    · rw [if_neg (by simpa using hc), if_neg (by simpa using hc), Nat.add_comm n, ← Nat.add_assoc]
      refine ih (by omega) ?_
      rw [List.take_add_one, List.getElem?_eq_getElem hlen, hget]
      simp [hscan, Ne.symm hc]

/-- A segment is a line. -/
lemma exists_line_of_mem_segments {bufferPtr : List Byte} {bufferLen : ℕ}
    (h : bufferLen ≤ bufferPtr.length) {seg : Segment}
    (hseg : seg ∈ segments bufferPtr bufferLen 0 0) :
    ∃ line, seg.bytes = line ++ [newline] := by
  obtain ⟨hsegs, -, -⟩ := segments_spec
    (by omega : 0 + 0 + bufferLen ≤ bufferPtr.length) (by simp)
  have hmem : seg.bytes ∈ (segments bufferPtr bufferLen 0 0).map Segment.bytes :=
    List.mem_map_of_mem hseg
  rw [hsegs] at hmem
  obtain ⟨line, -, hline⟩ := Delimited.exists_of_mem_lines hmem
  exact ⟨line, hline⟩

/-- The end of `ProcessBuffer`: the unfinished segment is copied to the residual buffer. -/
lemma keepRest_eq {bufferPtr : List Byte} (residual : List Byte) {start segmentLen : ℕ}
    (hlen : ((bufferPtr.drop start).take segmentLen).length = segmentLen) (s : σ) :
    ∃ residual', residual'.take segmentLen = (bufferPtr.drop start).take segmentLen ∧
      (if segmentLen ≠ 0 then
        (pure (some ((bufferPtr.drop start).take segmentLen ++ residual.drop segmentLen,
          segmentLen)) : Exec Fault σ (Option (List Byte × ℕ)))
      else pure (some (residual, segmentLen))) s = .ok (some (residual', segmentLen), s) := by
  by_cases hzero : segmentLen = 0
  · rw [if_neg (not_not.mpr hzero), hzero]
    exact ⟨residual, rfl, rfl⟩
  · rw [if_pos hzero]
    exact ⟨_, List.take_left' hlen, rfl⟩

open Delimited in
/-- What `ProcessBuffer` does after it has handled the segments. -/
lemma processBuffer_end {handle : Segment → Exec Fault σ Bool} {bufferPtr : List Byte}
    {bufferLen : ℕ} (h : bufferLen ≤ bufferPtr.length) (residual : List Byte) {s s' : σ} {ok : Bool}
    (hall : handleAll handle (segments bufferPtr bufferLen 0 0) s = .ok (ok, s')) :
    (ok = false ∧ processBuffer handle bufferPtr bufferLen residual s = .ok (none, s')) ∨
    (ok = true ∧ ∃ residual', residual'.take (rest newline (bufferPtr.take bufferLen)).length
        = rest newline (bufferPtr.take bufferLen) ∧
      processBuffer handle bufferPtr bufferLen residual s
        = .ok (some (residual', (rest newline (bufferPtr.take bufferLen)).length), s')) := by
  obtain ⟨-, hrest, hlen⟩ := segments_spec
    (by omega : 0 + 0 + bufferLen ≤ bufferPtr.length) (by simp)
  rw [List.drop_zero, Nat.zero_add] at hrest hlen
  rw [processBuffer_eq _ h, bind_ok hall]
  generalize unfinished bufferPtr bufferLen 0 0 = tail at hrest hlen ⊢
  obtain ⟨start, segmentLen⟩ := tail
  cases ok with
  | false => exact .inl ⟨rfl, rfl⟩
  | true =>
    dsimp only at hrest hlen
    obtain ⟨residual', htake, hkeep⟩ := keepRest_eq residual (by rw [hrest, hlen]) s'
    rw [hrest] at htake
    rw [← hlen]
    exact .inr ⟨rfl, residual', htake, hkeep⟩

open Delimited in
/-- `ProcessBuffer` hands on the lines of what it is given and counts the tail, unless handling a
segment ended the process. -/
lemma processBuffer_returns {handle : Segment → Exec Fault σ Bool} {bufferPtr : List Byte}
    {bufferLen : ℕ} (h : bufferLen ≤ bufferPtr.length) (residual : List Byte) {s : σ}
    {R : Bool → σ → Prop}
    (hhandle : ∀ segs : List Segment,
      segs.map Segment.bytes = lines newline (bufferPtr.take bufferLen) →
      Returns (handleAll handle segs) s R) :
    Returns (processBuffer handle bufferPtr bufferLen residual) s fun r s' =>
      (r = none ∧ R false s') ∨
      ∃ residual', r = some (residual', (rest newline (bufferPtr.take bufferLen)).length) ∧
        R true s' := by
  obtain ⟨hsegs, -, -⟩ := segments_spec
    (by omega : 0 + 0 + bufferLen ≤ bufferPtr.length) (by simp)
  rw [List.drop_zero, Nat.zero_add] at hsegs
  obtain ⟨ok, s', hok, hR⟩ := hhandle _ hsegs
  rcases processBuffer_end h residual hok with ⟨rfl, hnone⟩ | ⟨rfl, residual', -, hsome⟩
  · exact ⟨none, s', hnone, .inl ⟨rfl, hR⟩⟩
  · exact ⟨_, s', hsome, .inr ⟨residual', rfl, hR⟩⟩

open Delimited in
/-- Inversion: if `ProcessBuffer` returned, it has counted the tail, or handling a segment ended the
process. -/
lemma of_processBuffer {handle : Segment → Exec Fault σ Bool} {bufferPtr : List Byte}
    {bufferLen : ℕ} (h : bufferLen ≤ bufferPtr.length) {residual : List Byte} {s s' : σ}
    {r : Option (List Byte × ℕ)}
    (hok : processBuffer handle bufferPtr bufferLen residual s = .ok (r, s')) :
    (r = none ∧ newline ∈ bufferPtr.take bufferLen) ∨
    ∃ residual', r = some (residual', (rest newline (bufferPtr.take bufferLen)).length) := by
  have hok' := hok
  rw [processBuffer_eq _ h] at hok'
  obtain ⟨ok, s₁, hall, -⟩ := of_bind_ok hok'
  rcases processBuffer_end h residual hall with ⟨rfl, hnone⟩ | ⟨rfl, residual', -, hsome⟩
  · rw [hnone] at hok
    cases hok
    refine .inl ⟨rfl, ?_⟩
    by_contra hmem
    -- without a newline there is nothing to handle
    obtain ⟨hsegs, -, -⟩ := segments_spec
      (by omega : 0 + 0 + bufferLen ≤ bufferPtr.length) (by simp)
    rw [List.drop_zero, Nat.zero_add, lines_of_notMem hmem, List.map_eq_nil_iff] at hsegs
    rw [hsegs] at hall
    cases hall
  · rw [hsome] at hok
    cases hok
    exact .inr ⟨residual', rfl⟩

/-! ### What is submitted and what is kept -/

/-- Handle a segment, and record its bytes. -/
def recording (handle : Segment → Exec Fault σ Bool) (seg : Segment) :
    Exec Fault (σ × List (List Byte)) Bool := do
  ghost fun _ submitted => submitted ++ [seg.bytes]
  lift (handle seg)

/-- While no segment ends the process, all of them are handled in their order. -/
lemma handleAll_recording {handle : Segment → Exec Fault σ Bool} {I : σ → Prop}
    (hhandle : ∀ seg s, I s → Returns (handle seg) s fun ok s' => ok = true ∧ I s')
    (segs : List Segment) {s : σ} (hs : I s) (submitted : List (List Byte)) :
    ∃ s', handleAll (recording handle) segs (s, submitted)
      = .ok (true, (s', submitted ++ segs.map Segment.bytes)) := by
  induction segs generalizing s submitted with
  | nil => exact ⟨s, by rw [List.map_nil, List.append_nil]; rfl⟩
  | cons seg segs ih =>
    obtain ⟨ok, s₁, hseg, rfl, hs₁⟩ := hhandle seg s hs
    have hrecord : recording handle seg (s, submitted)
        = .ok (true, (s₁, submitted ++ [seg.bytes])) := lift_ok hseg
    obtain ⟨s', hall⟩ := ih hs₁ (submitted ++ [seg.bytes])
    refine ⟨s', ?_⟩
    rw [handleAll, bind_ok hrecord, if_pos rfl, hall, List.append_assoc]
    rfl

open Delimited in
/-- While no segment ends the process: what is submitted are segments that end at their only
newline, what is kept has no newline, and together they are the buffer. -/
theorem processBuffer_splits (handle : Segment → Exec Fault σ Bool) (I : σ → Prop)
    (hhandle : ∀ seg s, I s → Returns (handle seg) s fun ok s' => ok = true ∧ I s')
    (bufferPtr : List Byte) (bufferLen : ℕ) (hlen : bufferLen ≤ bufferPtr.length)
    (residual : List Byte) (s : σ) (hs : I s) :
    Returns (processBuffer (recording handle) bufferPtr bufferLen residual) (s, []) fun r t =>
      ∃ residual' residualSize, r = some (residual', residualSize) ∧
        (∀ seg ∈ t.2, ∃ line, newline ∉ line ∧ seg = line ++ [newline]) ∧
        newline ∉ residual'.take residualSize ∧
        (residual'.take residualSize).length = residualSize ∧
        t.2.flatten ++ residual'.take residualSize = bufferPtr.take bufferLen ∧
        residualSize ≤ bufferLen ∧
        ((bufferPtr.take bufferLen).getLast? = some newline ∨ bufferLen = 0 →
          residualSize = 0) := by
  obtain ⟨s', hall⟩ := handleAll_recording hhandle (segments bufferPtr bufferLen 0 0) hs []
  obtain ⟨hsegs, -, -⟩ := segments_spec
    (by omega : 0 + 0 + bufferLen ≤ bufferPtr.length) (by simp)
  rw [List.drop_zero, Nat.zero_add] at hsegs
  rw [List.nil_append, hsegs] at hall
  have hrest := length_rest_le newline (bufferPtr.take bufferLen)
  rw [List.length_take, min_eq_left hlen] at hrest
  rcases processBuffer_end hlen residual hall with ⟨hfalse, -⟩ | ⟨-, residual', htake, hsome⟩
  · cases hfalse
  · refine ⟨_, _, hsome, residual', _, rfl, ?_, ?_, ?_, ?_, hrest, ?_⟩
    · intro seg hseg
      exact exists_of_mem_lines hseg
    · rw [htake]
      exact notMem_rest newline _
    · rw [htake]
    · rw [htake]
      exact flatten_lines_append_rest newline _
    · rintro (hlast | hzero)
      · obtain ⟨front, hfront⟩ := List.getLast?_eq_some_iff.mp hlast
        rw [hfront, rest_append_delim]
        rfl
      · rw [hzero] at hrest ⊢
        exact Nat.le_zero.mp hrest

/-- A line and two bytes of the next one. -/
theorem processBuffer_splits_lineAndTail :
    Returns (processBuffer (recording fun _ => (pure true : Exec Fault Unit Bool))
      [97, newline, 98, 99] 4 []) ((), []) fun r t =>
        ∃ residual' residualSize, r = some (residual', residualSize) ∧
          (∀ seg ∈ t.2, ∃ line, newline ∉ line ∧ seg = line ++ [newline]) ∧
          newline ∉ residual'.take residualSize ∧
          (residual'.take residualSize).length = residualSize ∧
          t.2.flatten ++ residual'.take residualSize = [97, newline, 98, 99] ∧
          residualSize ≤ 4 ∧
          (([97, newline, 98, 99] : List Byte).getLast? = some newline ∨ 4 = 0 →
            residualSize = 0) :=
  processBuffer_splits (fun _ => pure true) (fun _ => True)
    (fun _ s _ => ⟨true, s, rfl, rfl, trivial⟩) [97, newline, 98, 99] 4 (by decide) [] () trivial

end

end Aesd
