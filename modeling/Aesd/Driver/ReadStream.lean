import Aesd.Driver.Device.Calls

/-!
# Reading on

What a file delivers, read after read, is the content of the device from the position of the device
on, however short the reads are and whatever is appended meanwhile.
-/

namespace Aesd

open Exec

variable {cfg : KernelConfig} {s : System} {c : Call} {f : FileId}

/-- The entries that an admitted write moves to the ring. -/
def Call.newLines (c : Call) (s : System) (data : List Byte) : List (List Byte) :=
  StagedLog.committed s.kernel.log.staged (Delimited.lines newline data)
    c.outcomes.interrupted.tail

/-- A read on file `f`, or an admitted write that evicts no entry. -/
def StreamStep (f : FileId) (s : System) (c : Call) (r : CallResult) : Prop :=
  (c.file = f ∧ ∃ count, c.op = .read count) ∨
  ∃ data, c.op = .write data ∧ r.retVal = data.length ∧
    s.kernel.lines.length + (c.newLines s data).length ≤ maxWriteOperations

instance (f : FileId) (s : System) (c : Call) (r : CallResult) : Decidable (StreamStep f s c r) :=
  match hop : c.op with
  | .read count => decidable_of_iff (c.file = f) (by simp [StreamStep, hop])
  | .write data =>
    decidable_of_iff (r.retVal = data.length ∧
        s.kernel.lines.length + (c.newLines s data).length ≤ maxWriteOperations)
      (by simp [StreamStep, hop])
  | .open | .release | .llseek _ _ | .ioctl _ _ => .isFalse (by simp [StreamStep, hop])

/-- `d` was delivered on file `f`, with the device at position `q`. -/
structure Delivered (cfg : KernelConfig) (f : FileId) (q : ℕ) (d : List Byte) (s : System) :
    Prop where
  inv : s.Inv cfg
  lseekPos : s.kernel.dev.lseekPos = q
  fPos : s.fPos f = some (d.length : ℤ)
  isPrefix : d <+: s.kernel.content.drop q

/-! ### One step -/

/-- An admitted write that evicts nothing appends its entries to the ring. -/
lemma sysCall_write_appends (h : s.Inv cfg) {data : List Byte} (hop : c.op = .write data) :
    Returns (sysCall cfg c) s fun r s' =>
      r.data = [] ∧ s'.fPos = s.fPos ∧ s'.Inv cfg ∧
      s'.kernel.dev.lseekPos = s.kernel.dev.lseekPos ∧
      (r.retVal = data.length →
        s.kernel.lines.length + (c.newLines s data).length ≤ maxWriteOperations →
        s'.kernel.lines = s.kernel.lines ++ c.newLines s data) := by
  cases hf : s.fPos c.file with
  | none =>
    refine ⟨_, s, sysCall_of_closed hf (by simp [hop]), rfl, rfl, h, rfl, fun hret => ?_⟩
    simp only [EBADF] at hret
    omega
  | some p =>
    obtain ⟨k', hinv, hheld, hout, hpos, hlines, -, hcall⟩ := sysCall_write h hf hop
    refine ⟨_, _, hcall, rfl, rfl, ⟨hinv, hheld, hout, h.fPos_bounds⟩, hpos, fun hret hroom => ?_⟩
    have hwritten : ((s.kernel.logGiven c.outcomes).submit maxWriteOperations cfg.kmallocMaxSize
        newline data).1 = .written := by
      cases hv : ((s.kernel.logGiven c.outcomes).submit maxWriteOperations cfg.kmallocMaxSize
          newline data).1 with
      | written => rfl
      | interrupted | refused | failed =>
        rw [hv] at hret
        simp only [writeRet, ERESTARTSYS, ENOMEM] at hret
        omega
    have hlen : (s.kernel.logGiven c.outcomes).lines.length ≤ maxWriteOperations :=
      h.kernel.length_lines_le
    rw [hlines, StagedLog.submit_of_written hlen hwritten]
    exact rtake_eq_self (by rw [List.length_append]; exact hroom)

/-- What was delivered and what can be read at the position behind it is a prefix again. -/
lemma Delivered.append {q : ℕ} {d x : List Byte} (h : Delivered cfg f q d s)
    (hx : x <+: pieceFrom s.kernel.lines (q + d.length)) :
    d ++ x <+: s.kernel.content.drop q := by
  obtain ⟨rest, hrest⟩ := h.isPrefix
  have hdrop : s.kernel.content.drop (q + d.length) = rest := by
    rw [← List.drop_drop, ← hrest, List.drop_left]
  have hx' : x <+: rest := by
    rw [← hdrop]
    exact hx.trans (pieceFrom_isPrefix _ _)
  rw [← hrest]
  exact (List.prefix_append_right_inj d).mpr hx'

lemma Delivered.length_lt {q : ℕ} {d : List Byte} (h : d <+: s.kernel.content.drop q)
    (hinv : s.Inv cfg) : d.length < 2 ^ 63 := by
  have hle := h.length_le
  have hsum := hinv.kernel.sum_sizes_lt
  rw [← hinv.kernel.length_content] at hsum
  rw [List.length_drop] at hle
  omega

/-- The next read starts where the last one has ended. -/
lemma Delivered.actualPos_eq {q : ℕ} {d : List Byte} (h : Delivered cfg f q d s)
    (hq : q < 2 ^ 63) : actualPos s.kernel.dev d.length = q + d.length := by
  have hlt := Delivered.length_lt h.isPrefix h.inv
  rw [actualPos, h.lseekPos, toSize_of_nonneg (by omega) (by omega),
    toSize_of_nonneg (by omega) (by omega), addSize_eq (by omega)]
  omega

/-- What a read on a file at position `d.length` delivers. -/
lemma readResult_delivered {q : ℕ} {d : List Byte} (h : Delivered cfg f q d s) (hq : q < 2 ^ 63)
    (c : Call) (count : ℕ) :
    ∃ x, CallResult.delivered ⟨(c.readResult s count d.length).retVal,
        (c.readResult s count d.length).data⟩ = x ∧
      x <+: pieceFrom s.kernel.lines (q + d.length) ∧
      (c.readResult s count d.length).fPos = (d ++ x).length ∧
      (c.outcomes.interrupted.headD false = false → c.outcomes.notCopied.headD 0 = 0 →
        (c.readResult s count d.length).retVal = x.length ∧
        x = (pieceFrom s.kernel.lines (q + d.length)).take count) := by
  have hpos := h.actualPos_eq hq
  cases hint : c.outcomes.interrupted.headD false with
  | true =>
    have hread : c.readResult s count d.length = ⟨-ERESTARTSYS, d.length, [], none⟩ := if_pos hint
    rw [hread]
    exact ⟨[], rfl, List.nil_prefix, by simp, by simp⟩
  | false =>
    have hread : c.readResult s count d.length
        = ⟨((s.kernel.given c.outcomes).delivery count d.length).length,
          toLoff (d.length + ((s.kernel.given c.outcomes).delivery count d.length).length),
          (s.kernel.given c.outcomes).delivery count d.length,
          (s.kernel.given c.outcomes).source count d.length⟩ :=
      if_neg (show ¬ c.outcomes.interrupted.headD false = true by rw [hint]; simp)
    have hx : (s.kernel.given c.outcomes).delivery count d.length
        <+: pieceFrom s.kernel.lines (q + d.length) := by
      rw [← hpos]
      exact (List.take_prefix _ _).trans (List.take_prefix _ _)
    have hlen := Delivered.length_lt (h.append hx) h.inv
    rw [hread]
    refine ⟨_, ?_, hx, ?_, fun _ hcopied => ⟨rfl, ?_⟩⟩
    · simp only [CallResult.delivered, Int.toNat_natCast, List.take_length]
    · rw [List.length_append] at hlen ⊢
      rw [toLoff_of_bounds (by omega) (by omega)]
      exact (Nat.cast_add _ _).symm
    · rw [← hpos]
      exact delivery_of_copied (k := s.kernel.given c.outcomes) hcopied count d.length

/-- A read delivers what comes next. -/
lemma delivered_read {q : ℕ} {d : List Byte} (h : Delivered cfg f q d s) (hq : q < 2 ^ 63)
    (hfile : c.file = f) {count : ℕ} (hop : c.op = .read count) :
    Returns (sysCall cfg c) s fun r s' =>
      s'.kernel = s.kernel ∧ Delivered cfg f q (d ++ r.delivered) s' ∧
      (c.outcomes.interrupted.headD false = false → c.outcomes.notCopied.headD 0 = 0 →
        r.retVal = r.delivered.length ∧
        r.delivered = (pieceFrom s.kernel.lines (q + d.length)).take count) := by
  have hf : s.fPos c.file = some (d.length : ℤ) := hfile ▸ h.fPos
  obtain ⟨x, hx, hpre, hfPos, hquiet⟩ := readResult_delivered h hq c count
  have hcall := sysCall_read h.inv hf hop
  refine ⟨_, _, hcall, rfl, ⟨(sysCall_inv h.inv c).post hcall, h.lseekPos, ?_, ?_⟩, ?_⟩
  · subst hfile
    rw [hx, ← hfPos]
    exact Function.update_self _ _ _
  · rw [hx]
    exact h.append hpre
  · rw [hx]
    exact hquiet

/-- An admitted write that evicts nothing leaves what was delivered as it is. -/
lemma delivered_write {q : ℕ} {d data : List Byte} (h : Delivered cfg f q d s)
    (hop : c.op = .write data) :
    Returns (sysCall cfg c) s fun r s' =>
      r.retVal = data.length →
        s.kernel.lines.length + (c.newLines s data).length ≤ maxWriteOperations →
        Delivered cfg f q (d ++ r.delivered) s' := by
  refine (sysCall_write_appends h.inv hop).mono ?_
  rintro r s' ⟨hdata, hfPos, hinv, hpos, hlines⟩ hret hroom
  have hnil : r.delivered = [] := by rw [CallResult.delivered, hdata, List.take_nil]
  rw [hnil, List.append_nil]
  refine ⟨hinv, hpos.trans h.lseekPos, hfPos ▸ h.fPos, h.isPrefix.trans ?_⟩
  have hcontent : s.kernel.content <+: s'.kernel.content := by
    rw [Kernel.content, Kernel.content, hlines hret hroom, List.flatten_append]
    exact List.prefix_append _ _
  exact hcontent.drop q

/-! ### Runs -/

lemma foldl_delivered (rs : List CallResult) (d : List Byte) :
    rs.foldl (fun d r => d ++ r.delivered) d = d ++ (rs.map CallResult.delivered).flatten := by
  induction rs generalizing d with
  | nil => simp
  | cons r rs ih => simp [ih]

/-- A run of reads and appending writes delivers a prefix of the content. -/
lemma run_delivered {q : ℕ} (hq : q < 2 ^ 63) {d : List Byte} (h : Delivered cfg f q d s)
    (cs : List Call)
    (hcs : Machine.Along (sysCall cfg) (fun s c r _ => StreamStep f s c r) cs s) :
    Returns (Machine.run (sysCall cfg) cs) s fun rs s' =>
      Delivered cfg f q (d ++ (rs.map CallResult.delivered).flatten) s' := by
  have hrun := Machine.run_collect (f := fun d r => d ++ CallResult.delivered r)
    (I := Delivered cfg f q) (P := fun s c r _ => StreamStep f s c r) ?_ cs h hcs
  · refine hrun.mono fun rs s' hI => ?_
    rwa [foldl_delivered] at hI
  · intro c s d hI
    obtain ⟨r, s', hcall, hinv⟩ := sysCall_inv hI.inv c
    refine ⟨r, s', hcall, fun hstep => ?_⟩
    rcases hstep with ⟨hfile, count, hop⟩ | ⟨data, hop, hret, hroom⟩
    · exact ((delivered_read hI hq hfile hop).post hcall).2.1
    · exact (delivered_write hI hop).post hcall hret hroom

/-- A read on file `f` that asks for something, and that nothing keeps from getting it. -/
def Call.QuietRead (c : Call) (f : FileId) : Prop :=
  c.file = f ∧ (∃ count, 0 < count ∧ c.op = .read count) ∧
    c.outcomes.interrupted.headD false = false ∧ c.outcomes.notCopied.headD 0 = 0

/-- At the end of the content a read returns zero, and all of it was delivered. -/
lemma quietRead_at_end {q : ℕ} {d : List Byte} (h : Delivered cfg f q d s) (hq : q < 2 ^ 63)
    (hend : s.kernel.content.length ≤ q + d.length) (hc : c.QuietRead f) :
    Returns (sysCall cfg c) s fun r _ =>
      r.retVal = 0 ∧ d ++ r.delivered = s.kernel.content.drop q := by
  obtain ⟨hfile, ⟨count, -, hop⟩, hint, hcopied⟩ := hc
  refine (delivered_read h hq hfile hop).mono ?_
  rintro r s' ⟨-, -, hquiet⟩
  obtain ⟨hret, hx⟩ := hquiet hint hcopied
  rw [pieceFrom_eq_nil_iff.mpr hend, List.take_nil] at hx
  rw [hret, hx, List.append_nil]
  refine ⟨rfl, h.isPrefix.eq_of_length_le ?_⟩
  rw [List.length_drop]
  omega

/-- Before the end of the content a read returns more than zero. -/
lemma quietRead_before_end {q : ℕ} {d : List Byte} (h : Delivered cfg f q d s) (hq : q < 2 ^ 63)
    (hend : q + d.length < s.kernel.content.length) (hc : c.QuietRead f) :
    Returns (sysCall cfg c) s fun r s' =>
      s'.kernel = s.kernel ∧ Delivered cfg f q (d ++ r.delivered) s' ∧ 0 < r.retVal ∧
      0 < r.delivered.length := by
  obtain ⟨hfile, ⟨count, hcount, hop⟩, hint, hcopied⟩ := hc
  refine (delivered_read h hq hfile hop).mono ?_
  rintro r s' ⟨hkernel, hdelivered, hquiet⟩
  obtain ⟨hret, hx⟩ := hquiet hint hcopied
  have hne : pieceFrom s.kernel.lines (q + d.length) ≠ [] := by
    rw [Ne, pieceFrom_eq_nil_iff]
    exact not_le.mpr hend
  have hpos : 0 < r.delivered.length := by
    rw [hx, List.length_take]
    exact lt_min hcount (List.length_pos_of_ne_nil hne)
  exact ⟨hkernel, hdelivered, by omega, hpos⟩

/-- Reading on until a read returns zero delivers everything. The reads that return more than zero
are at most as many as there are bytes left. -/
lemma run_to_end {q : ℕ} (hq : q < 2 ^ 63) {d : List Byte} (h : Delivered cfg f q d s) {left : ℕ}
    (hleft : s.kernel.content.length ≤ q + d.length + left) {calls : ℕ → Call}
    (hcalls : ∀ i, (calls i).QuietRead f) :
    ∃ n ≤ left, Returns (Machine.run (sysCall cfg) ((List.range (n + 1)).map calls)) s fun rs _ =>
      ∃ rs₀ r, rs = rs₀ ++ [r] ∧ (∀ r' ∈ rs₀, 0 < r'.retVal) ∧ r.retVal = 0 ∧
        d ++ (rs.map CallResult.delivered).flatten = s.kernel.content.drop q := by
  induction left generalizing s d calls with
  | zero =>
    obtain ⟨r, s', hcall, hret, hall⟩ := quietRead_at_end h hq hleft (hcalls 0)
    exact ⟨0, le_rfl, [r], s', Machine.run_cons hcall (Machine.run_nil s'), [], r, rfl, by simp,
      hret, by simpa using hall⟩
  | succ left ih =>
    by_cases hend : s.kernel.content.length ≤ q + d.length
    · obtain ⟨r, s', hcall, hret, hall⟩ := quietRead_at_end h hq hend (hcalls 0)
      exact ⟨0, Nat.zero_le _, [r], s', Machine.run_cons hcall (Machine.run_nil s'), [], r, rfl,
        by simp, hret, by simpa using hall⟩
    · obtain ⟨r, s', hcall, hkernel, hdelivered, hret, hlen⟩ :=
        quietRead_before_end h hq (not_le.mp hend) (hcalls 0)
      obtain ⟨n, hn, rs, s'', hrun, rs₀, r₀, rfl, hpos, hzero, hall⟩ :=
        ih hdelivered (by rw [hkernel, List.length_append]; omega) fun i => hcalls (i + 1)
      refine ⟨n + 1, by omega, r :: (rs₀ ++ [r₀]), s'', ?_, r :: rs₀, r₀, rfl, ?_, hzero, ?_⟩
      · rw [List.range_succ_eq_map, List.map_cons, List.map_map]
        exact Machine.run_cons hcall hrun
      · intro r' hr'
        rcases List.mem_cons.mp hr' with rfl | hr'
        · exact hret
        · exact hpos r' hr'
      · rw [← hkernel, ← hall, List.map_cons, List.flatten_cons, List.append_assoc]

/-- Reads on a file, however short and however interrupted, between admitted writes that evict
nothing, deliver the content from the position of the device on, byte by byte, and the position of
the file counts them. Without writes, reading until a read returns zero delivers all of it. -/
theorem read_stream (hs : System.Reachable cfg s) (hpos : 0 ≤ s.kernel.dev.lseekPos)
    (hf : s.fPos f = some 0) :
    (∀ cs, Machine.Along (sysCall cfg) (fun s c r _ => StreamStep f s c r) cs s →
      Returns (Machine.run (sysCall cfg) cs) s fun rs s' =>
        (rs.map CallResult.delivered).flatten
          <+: s'.kernel.content.drop s.kernel.dev.lseekPos.toNat ∧
        s'.fPos f = some ((rs.map CallResult.delivered).flatten.length : ℤ)) ∧
    ∀ calls : ℕ → Call, (∀ i, (calls i).QuietRead f) →
      ∃ n ≤ s.kernel.content.length,
        Returns (Machine.run (sysCall cfg) ((List.range (n + 1)).map calls)) s fun rs _ =>
          ∃ rs₀ r, rs = rs₀ ++ [r] ∧ (∀ r' ∈ rs₀, 0 < r'.retVal) ∧ r.retVal = 0 ∧
            (rs.map CallResult.delivered).flatten
              = s.kernel.content.drop s.kernel.dev.lseekPos.toNat := by
  have hinv := hs.inv
  have hbounds := hinv.kernel.lseekPos_bounds
  have hq : s.kernel.dev.lseekPos.toNat < 2 ^ 63 := by omega
  have hstart : Delivered cfg f s.kernel.dev.lseekPos.toNat [] s :=
    ⟨hinv, (Int.toNat_of_nonneg hpos).symm, hf, List.nil_prefix⟩
  refine ⟨fun cs hcs => ?_, fun calls hcalls => ?_⟩
  · exact (run_delivered hq hstart cs hcs).mono fun rs s' h => ⟨h.isPrefix, h.fPos⟩
  · exact run_to_end hq hstart (by omega) hcalls

/-- File `0` stores `ab\n` and reads; all but one byte cannot be copied. It stores `c\n`, and reads
twice more. -/
def readBetweenWrites : List Call :=
  [⟨0, .write [97, 98, 10], {}⟩, ⟨0, .read 3, { notCopied := [2] }⟩, ⟨0, .write [99, 10], {}⟩,
    ⟨0, .read 3, {}⟩, ⟨0, .read 1, {}⟩]

/-- The reads deliver a prefix of `ab\nc\n`. Where only `ab\n` is stored, reads of two bytes
deliver all of it. -/
theorem read_stream_line :
    (Returns (Machine.run (sysCall .usual) readBetweenWrites) .opened fun rs s' =>
      (rs.map CallResult.delivered).flatten <+: s'.kernel.content.drop 0 ∧
        s'.fPos 0 = some ((rs.map CallResult.delivered).flatten.length : ℤ)) ∧
    ∃ s, System.Reachable .usual s ∧ s.kernel.lines = [[97, 98, 10]] ∧
      ∃ n ≤ 3, Returns (Machine.run (sysCall .usual)
        ((List.range (n + 1)).map fun _ => ⟨0, .read 2, {}⟩)) s fun rs _ =>
          (rs.map CallResult.delivered).flatten = [97, 98, 10] := by
  constructor
  · obtain ⟨hdelivers, -⟩ := read_stream (System.opened_reachable .usual) le_rfl
      (show System.opened.fPos 0 = some 0 from rfl)
    exact hdelivers readBetweenWrites (by decide +kernel)
  · have h : Except.map (fun q => (q.2.fPos 0, q.2.kernel.dev.lseekPos, q.2.kernel.lines))
        (Machine.run (sysCall .usual) [⟨0, .open, {}⟩, ⟨0, .write [97, 98, 10], {}⟩] .init)
        = .ok (some 0, 0, [[97, 98, 10]]) := by decide +kernel
    obtain ⟨⟨_, s⟩, hrun, hs⟩ := exists_of_map_ok h
    obtain ⟨hf, hs⟩ := Prod.mk.inj hs
    obtain ⟨hpos, hlines⟩ := Prod.mk.inj hs
    obtain ⟨-, hreads⟩ := read_stream ⟨_, _, hrun⟩ (by rw [hpos]) hf
    obtain ⟨n, hn, hdelivered⟩ := hreads (fun _ => ⟨0, .read 2, {}⟩)
      fun _ => ⟨rfl, ⟨2, by decide, rfl⟩, rfl, rfl⟩
    rw [Kernel.content, hlines] at hn hdelivered
    rw [hpos] at hdelivered
    refine ⟨s, ⟨_, _, hrun⟩, hlines, n, hn, hdelivered.mono ?_⟩
    rintro _ _ ⟨_, _, _, _, _, hall⟩
    exact hall

end Aesd
