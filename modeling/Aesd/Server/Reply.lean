import Aesd.Server.Command
import Aesd.Server.ConnectionHandler

/-!
# The replies of one connection

A connection opens the file once for every chunk. The reply to a line starts where the reads of the
lines before it have left the file, moved by the position of the device: it is the whole content
only if both together are zero.
-/

namespace Aesd

open Exec Delimited

/-- A segment that was carried out, and the outcomes of the calls from its reply on. -/
structure Served extends Exchange where
  outcomes : List Outcomes

/-- The system as one connection uses it: the outcomes of its calls to come -- when the list is
exhausted, all of them succeed --, and what it has done so far. -/
structure Server where
  system : System
  outcomes : List Outcomes
  served : List Served

/-- Make a call with the outcomes that come next. -/
def nextCall {α : Type} (m : Outcomes → Exec Fault System α) : Exec Fault Server α := fun t =>
  match m (t.outcomes.headD {}) t.system with
  | .ok (a, system) => .ok (a, { t with system, outcomes := t.outcomes.tail })
  | .error e => .error e

/-- The loop that sends what it reads until a read returns nothing. -/
def replyLoop (cfg : KernelConfig) (fileFD : FileId) : ℕ → Exec Fault Server (List Byte)
  | 0 => fault .outOfFuel
  | fuel + 1 => do
    let r ← nextCall (readReply cfg fileFD)
    if 0 < r.retVal then
      let reply ← replyLoop cfg fileFD fuel
      pure (r.delivered ++ reply)
    else pure []

/-- What `ProcessBuffer` does at the end of a segment. It keeps a record of it. -/
def handleSegment (cfg : KernelConfig) (fileFD : FileId) (seg : Segment) :
    Exec Fault Server Bool := do
  let command ← nextCall (segmentCommand cfg fileFD seg)
  if command = .failed then pure false
  else
    let t ← read id
    let reply ← replyLoop cfg fileFD (t.system.kernel.content.length + 1)
    update fun t' => { t' with
      served := t'.served ++ [⟨⟨seg.bytes, command, t.system, reply⟩, t.outcomes⟩] }
    pure true

/-- The calls on the char device. -/
def deviceFile (cfg : KernelConfig) (fileFD : FileId) : FileCalls Server where
  openFile := do
    let _ ← nextCall fun o => sysCall cfg ⟨fileFD, .open, o⟩
    pure ()
  handle := handleSegment cfg fileFD
  closeFile := do
    let _ ← nextCall fun o => sysCall cfg ⟨fileFD, .release, o⟩
    pure ()

/-- No read from position `p` on is interrupted, or fails to copy a byte, up to the end. -/
def Undisturbed (lines : List (List Byte)) : List Outcomes → ℕ → Prop
  | [], _ => True
  | o :: os, p => lines.flatten.length ≤ p ∨
    (o.brings lines p ≠ [] ∧ Undisturbed lines os (p + (o.brings lines p).length))

/-- The reply starts at the first byte of the content and is read to its end, or there is no
content. -/
def Served.FromStart (x : Served) (fd : FileId) : Prop :=
  (x.system.At fd 0 ∧ Undisturbed x.system.kernel.lines x.outcomes 0) ∨
    x.system.kernel.content = []

variable {cfg : KernelConfig} {fd : FileId}

lemma nextCall_returns {α : Type} {m : Outcomes → Exec Fault System α} {t : Server}
    {Q : α → System → Prop} (h : Returns (m (t.outcomes.headD {})) t.system Q) :
    Returns (nextCall m) t fun a t' =>
      Q a t'.system ∧ t'.outcomes = t.outcomes.tail ∧ t'.served = t.served := by
  obtain ⟨a, s', hm, hQ⟩ := h
  exact ⟨a, { t with system := s', outcomes := t.outcomes.tail }, by simp only [nextCall, hm], hQ,
    rfl, rfl⟩

/-! ### One reply -/

lemma undisturbed_iff (lines : List (List Byte)) (os : List Outcomes) (p : ℕ) :
    Undisturbed lines os p ↔ lines.flatten.length ≤ p ∨
      ((os.headD {}).brings lines p ≠ [] ∧
        Undisturbed lines os.tail (p + ((os.headD {}).brings lines p).length)) := by
  cases os with
  | cons o os => rfl
  | nil =>
    have hquiet := (brings_quiet_eq_nil_iff (o := {}) rfl rfl lines p).not
    simp only [List.headD_nil, List.tail_nil, Undisturbed, hquiet, and_true, true_iff]
    exact em _

/-- The loop sends what follows position `a`, all of it exactly if nothing disturbs its reads. -/
lemma replyLoop_spec {t : Server} {a : ℕ} (h : t.system.Inv cfg) (hat : t.system.At fd a)
    {fuel : ℕ} (hpos : 0 < fuel) (hfuel : t.system.kernel.content.length < a + fuel) :
    Returns (replyLoop cfg fd fuel) t fun reply t' =>
      t'.system.Inv cfg ∧ (∃ a', t'.system.At fd a') ∧ t'.served = t.served ∧
      reply <+: t.system.kernel.content.drop a ∧
      (reply = t.system.kernel.content.drop a ↔
        Undisturbed t.system.kernel.lines t.outcomes a) := by
  induction fuel generalizing t a with
  | zero => omega
  | succ fuel ih =>
    obtain ⟨r, t₁, hread, ⟨⟨hkernel, hdelivered, hret, hat₁, -⟩, hinv₁⟩, hout, hserved⟩ :=
      nextCall_returns (m := readReply cfg fd) (t := t)
        (Q := fun r s' => (s'.kernel = t.system.kernel ∧
          r.delivered = (t.outcomes.headD {}).brings t.system.kernel.lines a ∧
          (0 < r.retVal ↔ r.delivered ≠ []) ∧ s'.At fd (a + r.delivered.length) ∧
          ∀ f, f ≠ fd → s'.fPos f = t.system.fPos f) ∧ s'.Inv cfg)
        (by
          obtain ⟨r, s', hcall, hspec⟩ := sysCall_read_at h hat (t.outcomes.headD {})
          exact ⟨r, s', hcall, hspec, (sysCall_inv h _).post hcall⟩)
    have happend := brings_append_drop (t.outcomes.headD {}) t.system.kernel.lines a
    rw [← hdelivered] at happend
    have hiff := undisturbed_iff t.system.kernel.lines t.outcomes a
    rw [← hdelivered] at hiff
    rw [replyLoop]
    refine .step hread ?_
    by_cases hnil : r.delivered = []
    · -- the last read
      rw [if_neg (by rw [hret]; exact not_not.mpr hnil)]
      refine ⟨[], t₁, rfl, hinv₁, ⟨_, hat₁⟩, hserved, List.nil_prefix, ?_⟩
      rw [hiff, eq_comm, Kernel.content, List.drop_eq_nil_iff]
      simp [hnil]
    · rw [if_pos (hret.mpr hnil)]
      have hlen := congrArg List.length happend
      rw [List.length_append, List.length_drop, List.length_drop, ← Kernel.content] at hlen
      have hone := List.length_pos_of_ne_nil hnil
      obtain ⟨reply, t₂, hloop, hinv₂, hat₂, hserved₂, hpre, hall⟩ :=
        ih hinv₁ hat₁ (by omega) (by rw [hkernel]; omega)
      rw [hkernel] at hpre hall
      refine .step hloop ⟨_, t₂, rfl, hinv₂, hat₂, hserved₂.trans hserved, ?_, ?_⟩
      · rw [Kernel.content, ← happend]
        exact (List.prefix_append_right_inj _).mpr hpre
      · have hmore : ¬ t.system.kernel.lines.flatten.length ≤ a := by
          rw [← Kernel.content]
          omega
        rw [Kernel.content, ← happend, List.append_cancel_left_eq, ← Kernel.content, hall, hiff,
          hout]
        simp only [hmore, hnil, false_or, ne_eq, not_false_eq_true, true_and]

/-- The whole content is sent exactly if the reply starts at its first byte. -/
lemma eq_content_iff {x : Served} {a : ℕ} (hat : x.system.At fd a)
    (hpre : x.reply <+: x.system.kernel.content.drop a)
    (hall : x.reply = x.system.kernel.content.drop a ↔
      Undisturbed x.system.kernel.lines x.outcomes a) :
    x.reply = x.system.kernel.content ↔ x.FromStart fd := by
  rw [Served.FromStart]
  by_cases hempty : x.system.kernel.content = []
  · rw [hempty, List.drop_nil, List.prefix_nil] at hpre
    simp [hpre, hempty]
  · have hlen := hpre.length_le
    have hpos := List.length_pos_of_ne_nil hempty
    rw [List.length_drop] at hlen
    constructor
    · intro hreply
      rw [hreply] at hlen
      obtain rfl : a = 0 := by omega
      exact .inl ⟨hat, hall.mp hreply⟩
    · rintro (⟨⟨p, hp, hzero⟩, hundisturbed⟩ | hnil)
      · obtain ⟨q, hq, rfl⟩ := hat
        obtain rfl : p = q := Option.some.inj (hp.symm.trans hq)
        rw [hzero] at hall
        exact hall.mpr hundisturbed
      · exact absurd hnil hempty

/-! ### The segments of a chunk -/

/-- A segment leaves a record, unless the process exits. -/
lemma handleSegment_spec {t : Server} {a : ℕ} (h : t.system.Inv cfg) (hat : t.system.At fd a)
    (seg : Segment) :
    Returns (handleSegment cfg fd seg) t fun ok t' =>
      t'.system.Inv cfg ∧ (∃ a', t'.system.At fd a') ∧
      ((ok = false ∧ t'.served = t.served) ∨
        (ok = true ∧ ∃ x : Served, t'.served = t.served ++ [x] ∧ x.segment = seg.bytes ∧
          (x.reply = x.system.kernel.content ↔ x.FromStart fd))) := by
  obtain ⟨p, hp, -⟩ := hat
  obtain ⟨command, t₁, hcommand, ⟨hinv₁, hfPos⟩, -, hserved⟩ :=
    nextCall_returns (t := t) (segmentCommand_inv h hp seg (t.outcomes.headD {}))
  have hat₁ : t₁.system.At fd (actualPos t₁.system.kernel.dev p) := ⟨p, by rw [hfPos, hp], rfl⟩
  rw [handleSegment]
  refine .step hcommand ?_
  by_cases hfailed : command = .failed
  · rw [if_pos hfailed]
    exact ⟨false, t₁, rfl, hinv₁, ⟨_, hat₁⟩, .inl ⟨rfl, hserved⟩⟩
  · rw [if_neg hfailed]
    obtain ⟨reply, t₂, hloop, hinv₂, hat₂, hserved₂, hpre, hall⟩ :=
      replyLoop_spec hinv₁ hat₁ (Nat.succ_pos _)
        (by omega : t₁.system.kernel.content.length < _ + (t₁.system.kernel.content.length + 1))
    refine .step (read_apply _ t₁) (.step hloop (.step (update_apply _ t₂)
      ⟨true, _, rfl, hinv₂, hat₂, .inr ⟨rfl, ⟨⟨seg.bytes, command, t₁.system, reply⟩,
        t₁.outcomes⟩, ?_, rfl, eq_content_iff hat₁ hpre hall⟩⟩))
    rw [hserved₂, hserved]
    rfl

/-- What the records of a chunk say, after all of its lines or up to the exit of the process. -/
structure Answers (fd : FileId) (ls : List (List Byte)) (served : List Served) (ok : Bool) :
    Prop where
  segments_prefix : served.map (fun x => x.segment) <+: ls
  segments_eq : ok = true → served.map (fun x => x.segment) = ls
  reply_iff : ∀ x ∈ served, x.reply = x.system.kernel.content ↔ x.FromStart fd

lemma handleAll_spec {t : Server} {a : ℕ} (h : t.system.Inv cfg) (hat : t.system.At fd a)
    (segs : List Segment) :
    Returns (handleAll (handleSegment cfg fd) segs) t fun ok t' =>
      t'.system.Inv cfg ∧ (∃ a', t'.system.At fd a') ∧
      ∃ served, t'.served = t.served ++ served ∧
        Answers fd (segs.map Segment.bytes) served ok := by
  induction segs generalizing t a with
  | nil => exact ⟨true, t, rfl, h, ⟨a, hat⟩, [], (List.append_nil _).symm, List.prefix_rfl,
      fun _ => rfl, by simp⟩
  | cons seg segs ih =>
    obtain ⟨ok, t₁, hseg, hinv₁, ⟨a₁, hat₁⟩, hend⟩ := handleSegment_spec h hat seg
    rw [handleAll]
    refine .step hseg ?_
    rcases hend with ⟨rfl, hserved⟩ | ⟨rfl, x, hserved, hx, hiff⟩
    · exact ⟨false, t₁, rfl, hinv₁, ⟨a₁, hat₁⟩, [], hserved.trans (List.append_nil _).symm,
        List.nil_prefix, fun htrue => absurd htrue Bool.false_ne_true, by simp⟩
    · rw [if_pos rfl]
      refine (ih hinv₁ hat₁).mono ?_
      rintro ok t' ⟨hinv, hat', served, hserved', hanswers⟩
      refine ⟨hinv, hat', x :: served, ?_, ?_, fun hok => ?_, ?_⟩
      · rw [hserved', hserved, List.append_assoc, List.singleton_append]
      · rw [List.map_cons, List.map_cons, hx]
        exact (List.prefix_cons_inj _).mpr hanswers.segments_prefix
      · rw [List.map_cons, List.map_cons, hx, hanswers.segments_eq hok]
      · exact List.forall_mem_cons.mpr ⟨hiff, hanswers.reply_iff⟩

/-- A chunk on a device with any content: its lines are carried out in order, and the reply to a
line that was written is the whole content if and only if the file is at position zero when it
begins and nothing disturbs its reads, or there is no content. -/
theorem reply_whole_iff {t : HandlerThread Server} (hs : System.Reachable cfg t.shared.system)
    (hclosed : t.shared.system.fPos fd = none) (hrun : t.status = .running)
    (hbuffer : t.buffer.length = bufferSize) (hsize : t.residualSize ≤ bufferSize)
    {bytes : List Byte} (hne : bytes ≠ []) (hlen : bytes.length ≤ t.recvSize) :
    Returns (connectionHandlerStep (deviceFile cfg fd) (.data bytes)) t fun _ t' =>
      ∃ served, t'.shared.served = t.shared.served ++ served ∧
        served.map (fun x => x.segment) <+: lines newline (t.processed bytes) ∧
        (t'.status ≠ .exited →
          served.map (fun x => x.segment) = lines newline (t.processed bytes)) ∧
        ∀ x ∈ served, x.command = .written →
          (x.reply = x.system.kernel.content ↔ x.FromStart fd) := by
  have hstep := connectionHandlerStep_data (deviceFile cfg fd) hrun hbuffer hsize hne hlen
    (Q := fun u => u.system.Inv cfg ∧ (∃ a, u.system.At fd a) ∧ u.served = t.shared.served)
    (R := fun ok u => u.system.Inv cfg ∧ ∃ served, u.served = t.shared.served ++ served ∧
      Answers fd (lines newline (t.processed bytes)) served ok)
    (S := fun u => ∃ served, u.served = t.shared.served ++ served ∧
      Answers fd (lines newline (t.processed bytes)) served true) ?_ ?_ ?_
  · refine hstep.mono fun _ t' hend => ?_
    rcases hend with ⟨hexit, -, served, hserved, hanswers⟩ | ⟨-, served, hserved, hanswers⟩
    · exact ⟨served, hserved, hanswers.segments_prefix, fun hne => absurd hexit hne,
        fun x hx _ => hanswers.reply_iff x hx⟩
    · exact ⟨served, hserved, hanswers.segments_prefix, fun _ => hanswers.segments_eq rfl,
        fun x hx _ => hanswers.reply_iff x hx⟩
  · -- the file is opened
    have hopen := sysCall_open (c := ⟨fd, .open, t.shared.outcomes.headD {}⟩) hs.inv hclosed rfl
    obtain ⟨r, u, hcall, ⟨hinv, hat⟩, -, hserved⟩ :=
      nextCall_returns (m := fun o => sysCall cfg ⟨fd, .open, o⟩) (t := t.shared)
        (Q := fun _ s' => s'.Inv cfg ∧ ∃ a, s'.At fd a)
        ⟨_, _, hopen, (sysCall_inv hs.inv _).post hopen, _, 0, Function.update_self _ _ _, rfl⟩
    exact .step hcall ⟨(), u, rfl, hinv, hat, hserved⟩
  · -- its lines are handed on
    rintro u segs ⟨hinv, ⟨a, hat⟩, hserved⟩ hsegs
    refine (handleAll_spec hinv hat segs).mono ?_
    rintro ok u' ⟨hinv', -, served, hserved', hanswers⟩
    refine ⟨hinv', served, ?_, ?_⟩
    · rw [hserved', hserved]
    · rwa [hsegs] at hanswers
  · -- and it is closed
    rintro u ⟨hinv, served, hserved, hanswers⟩
    obtain ⟨r, u', hcall, -, -, hserved'⟩ :=
      nextCall_returns (m := fun o => sysCall cfg ⟨fd, .release, o⟩) (t := u)
        (Q := fun _ _ => True) ((sysCall_inv hinv _).mono fun _ _ _ => trivial)
    exact .step hcall ⟨(), u', rfl, served, hserved'.trans hserved, hanswers⟩

/-- A thread whose buffers hold zeros, on a fresh device. -/
def freshThread : HandlerThread Server :=
  .start (List.replicate bufferSize 0) [] (List.replicate bufferSize 0) ⟨.init, [], []⟩

/-- The reply to the only line of a chunk. -/
theorem reply_whole_iff_oneLine :
    Returns (connectionHandlerStep (deviceFile .usual 0) (.data [97, newline])) freshThread
      fun _ t => ∃ x, t.shared.served = [x] ∧ x.command = .written ∧
        x.reply = x.system.kernel.content := by
  have h : Except.map (fun q => q.2.shared.served.map fun x => (x.command, x.system.fPos 0,
      x.system.kernel.dev.lseekPos, x.outcomes.length))
      (connectionHandlerStep (deviceFile .usual 0) (.data [97, newline]) freshThread)
      = .ok [(.written, some 0, 0, 0)] := by decide +kernel
  obtain ⟨⟨_, t⟩, hstep, hs⟩ := exists_of_map_ok h
  have hreachable : System.Reachable .usual freshThread.shared.system := Machine.Reachable.refl _
  have hreply : Returns (connectionHandlerStep (deviceFile .usual 0) (.data [97, newline]))
      freshThread _ := reply_whole_iff hreachable rfl rfl List.length_replicate (Nat.zero_le _)
    (by decide) (by decide)
  obtain ⟨served, hserved, -, -, hiff⟩ := hreply.post hstep
  obtain rfl : t.shared.served = served := hserved
  obtain ⟨x, hx, hrecord⟩ := List.map_eq_singleton_iff.mp hs
  simp only [Prod.mk.injEq, List.length_eq_zero_iff] at hrecord
  obtain ⟨hcommand, hfPos, hseek, hout⟩ := hrecord
  refine ⟨_, t, hstep, x, hx, hcommand, (hiff x (by rw [hx]; exact List.mem_singleton_self x)
    hcommand).mpr (.inl ⟨⟨0, hfPos, by rw [actualPos, hseek]; rfl⟩, ?_⟩)⟩
  rw [hout]
  trivial

/-- The reply to the second line of a chunk leaves the first line out. -/
theorem reply_not_whole :
    Returns (connectionHandlerStep (deviceFile .usual 0) (.data [97, newline, 98, newline]))
      freshThread fun _ t => t.shared.served.map (fun x =>
        (x.segment, x.command, x.reply, x.system.kernel.content)) =
        [([97, newline], .written, [97, newline], [97, newline]),
          ([98, newline], .written, [98, newline], [97, newline, 98, newline])] := by
  have h : Except.map (fun q => q.2.shared.served.map fun x =>
      (x.segment, x.command, x.reply, x.system.kernel.content))
      (connectionHandlerStep (deviceFile .usual 0) (.data [97, newline, 98, newline]) freshThread)
      = .ok [([97, newline], .written, [97, newline], [97, newline]),
          ([98, newline], .written, [98, newline], [97, newline, 98, newline])] := by
    decide +kernel
  obtain ⟨⟨_, t⟩, hstep, hs⟩ := exists_of_map_ok h
  exact ⟨_, t, hstep, hs⟩

end Aesd
