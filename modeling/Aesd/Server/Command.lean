import Aesd.Driver.SeekLaw
import Aesd.Server.ProcessBuffer

/-!
# Carrying out a segment

What `ProcessBuffer` does with one segment, in the build for the char device: a seek command goes to
`ioctl`, anything else is written, and then the file is read until nothing more comes. Everything
that was read is sent. `send`, `fsync` and `syslog` have no effect on the device, and their results
are not looked at.
-/

namespace Aesd

open Exec

/-- How the first part of a segment ended: with the value of the `ioctl`, with everything written,
or with less, and then the process exits. -/
inductive Commanded where
  | seek (arg : AesdSeekto) (retVal : ℤ)
  | written
  | failed
  deriving DecidableEq, Repr

/-- The `ioctl` or the `write` of a segment. `written` is an `int`, compared to a `size_t`. -/
def segmentCommand (cfg : KernelConfig) (fileFD : FileId) (seg : Segment) (o : Outcomes) :
    Exec Fault System Commanded :=
  match findSeek seg.segmentPtr with
  | some seek => do
    let r ← sysCall cfg ⟨fileFD, .ioctl aesdcharIocseekto seek, o⟩
    pure (.seek seek r.retVal)
  | none => do
    let r ← sysCall cfg ⟨fileFD, .write seg.bytes, o⟩
    pure (if toSize (toInt r.retVal) ≠ seg.segmentLen then .failed else .written)

/-- The size of `buf`. -/
abbrev replyBufferSize : ℕ := 4096

/-- One `read` of the reply. -/
def readReply (cfg : KernelConfig) (fileFD : FileId) (o : Outcomes) :
    Exec Fault System CallResult :=
  sysCall cfg ⟨fileFD, .read replyBufferSize, o⟩

/-- A segment that was carried out: the system when its reply began, and the bytes sent. -/
structure Exchange where
  segment : List Byte
  command : Commanded
  system : System
  reply : List Byte

/-! ### Reading from a position -/

/-- What a read with these outcomes brings from position `p` of the stored lines. -/
def Outcomes.brings (o : Outcomes) (lines : List (List Byte)) (p : ℕ) : List Byte :=
  if o.interrupted.headD false then []
  else
    let asked := (pieceFrom lines p).take replyBufferSize
    asked.take (asked.length - o.notCopied.headD 0)

/-- File `fd` is open, and its next read starts at position `a` of the content. -/
def System.At (s : System) (fd : FileId) (a : ℕ) : Prop :=
  ∃ p, s.fPos fd = some p ∧ actualPos s.kernel.dev p = a

section

variable {cfg : KernelConfig} {s : System} {fd : FileId} {a : ℕ}

lemma brings_prefix_piece (o : Outcomes) (lines : List (List Byte)) (p : ℕ) :
    o.brings lines p <+: pieceFrom lines p := by
  rw [Outcomes.brings]
  split_ifs
  · exact List.nil_prefix
  · exact (List.take_prefix _ _).trans (List.take_prefix _ _)

/-- What comes after the bytes that a read brings. -/
lemma brings_append_drop (o : Outcomes) (lines : List (List Byte)) (p : ℕ) :
    o.brings lines p ++ lines.flatten.drop (p + (o.brings lines p).length)
      = lines.flatten.drop p := by
  obtain ⟨rest, hrest⟩ := (brings_prefix_piece o lines p).trans (pieceFrom_isPrefix lines p)
  rw [← List.drop_drop, ← hrest, List.drop_left]

/-- A read with nothing in its way brings something unless the content has ended. -/
lemma brings_quiet_eq_nil_iff {o : Outcomes} (hint : o.interrupted.headD false = false)
    (hcopied : o.notCopied.headD 0 = 0) (lines : List (List Byte)) (p : ℕ) :
    o.brings lines p = [] ↔ lines.flatten.length ≤ p := by
  have hbrings : o.brings lines p = (pieceFrom lines p).take replyBufferSize := by
    rw [Outcomes.brings, if_neg (by rw [hint]; simp), hcopied]
    exact List.take_length
  rw [hbrings, List.take_eq_nil_iff, ← pieceFrom_eq_nil_iff]
  simp

lemma actualPos_lt (dev : Device) (p : ℤ) : actualPos dev p < 2 ^ 64 :=
  Nat.mod_lt _ (by decide)

lemma actualPos_add (dev : Device) (p : ℤ) {n : ℕ} (h : actualPos dev p + n < 2 ^ 64) :
    actualPos dev (toLoff (p + n)) = actualPos dev p + n := by
  have hmod := toLoff_mod (p + n)
  simp only [actualPos, addSize, toSize] at h ⊢
  rw [hmod]
  omega

/-- A read on a file at position `a`. -/
lemma sysCall_read_at (h : s.Inv cfg) (hat : s.At fd a) (o : Outcomes) :
    Returns (readReply cfg fd o) s fun r s' =>
      s'.kernel = s.kernel ∧ r.delivered = o.brings s.kernel.lines a ∧
      (0 < r.retVal ↔ r.delivered ≠ []) ∧ s'.At fd (a + r.delivered.length) ∧
      ∀ f, f ≠ fd → s'.fPos f = s.fPos f := by
  obtain ⟨p, hf, rfl⟩ := hat
  have hcall := sysCall_read (c := ⟨fd, .read replyBufferSize, o⟩) h hf rfl
  refine ⟨_, _, hcall, rfl, ?_⟩
  have hother : ∀ (q : ℤ) f, f ≠ fd → Function.update s.fPos fd (some q) f = s.fPos f :=
    fun q f hne => Function.update_of_ne hne _ _
  cases hint : o.interrupted.headD false with
  | true =>
    have hread : Call.readResult ⟨fd, .read replyBufferSize, o⟩ s replyBufferSize p
        = ⟨-ERESTARTSYS, p, [], none⟩ := if_pos hint
    have hnil : o.brings s.kernel.lines (actualPos s.kernel.dev p) = [] := if_pos hint
    rw [hread, hnil]
    exact ⟨rfl, by simp [CallResult.delivered, ERESTARTSYS],
      ⟨p, Function.update_self _ _ _, rfl⟩, hother p⟩
  | false =>
    have hint' : ¬ o.interrupted.headD false = true := by rw [hint]; simp
    set data := o.brings s.kernel.lines (actualPos s.kernel.dev p) with hdata
    have hdelivery : (s.kernel.given o).delivery replyBufferSize p = data := by
      rw [hdata, Outcomes.brings, if_neg hint']
      rfl
    have hread : Call.readResult ⟨fd, .read replyBufferSize, o⟩ s replyBufferSize p
        = ⟨data.length, toLoff (p + data.length), data,
          (s.kernel.given o).source replyBufferSize p⟩ := by
      rw [← hdelivery]
      exact if_neg hint'
    have hle : actualPos s.kernel.dev p + data.length < 2 ^ 64 := by
      have hlen := congrArg List.length
        (brings_append_drop o s.kernel.lines (actualPos s.kernel.dev p))
      have hsum := h.kernel.sum_sizes_lt
      rw [← h.kernel.length_content, Kernel.content] at hsum
      have hlt := actualPos_lt s.kernel.dev p
      rw [List.length_append, List.length_drop, List.length_drop, ← hdata] at hlen
      omega
    rw [hread]
    have htake : CallResult.delivered ⟨(data.length : ℤ), data⟩ = data := by
      rw [CallResult.delivered, Int.toNat_natCast, List.take_length]
    dsimp only
    rw [htake]
    refine ⟨rfl, ?_, ⟨_, Function.update_self _ _ _, actualPos_add _ _ hle⟩, hother _⟩
    rw [Nat.cast_pos]
    exact List.length_pos_iff

/-! ### The command -/

/-- A command moves no file, and keeps the invariant. -/
lemma segmentCommand_inv (h : s.Inv cfg) {p : ℤ} (hf : s.fPos fd = some p) (seg : Segment)
    (o : Outcomes) :
    Returns (segmentCommand cfg fd seg o) s fun _ s' => s'.Inv cfg ∧ s'.fPos = s.fPos := by
  rw [segmentCommand]
  cases hseek : findSeek seg.segmentPtr with
  | some seek =>
    have hcall := sysCall_ioctl (c := ⟨fd, .ioctl aesdcharIocseekto seek, o⟩) h hf rfl
    exact .step hcall ⟨_, _, rfl, (sysCall_inv h _).post hcall, rfl⟩
  | none =>
    obtain ⟨k', hinv, hheld, hout, -, -, -, hcall⟩ :=
      sysCall_write (c := ⟨fd, .write seg.bytes, o⟩) h hf rfl
    exact .step hcall ⟨_, _, rfl, ⟨hinv, hheld, hout, h.fPos_bounds⟩, rfl⟩

/-- An accepted seek command moves the device to the position that it names. -/
lemma segmentCommand_accepted (h : s.Inv cfg) (hsmall : 10 * cfg.kmallocMaxSize < 2 ^ 31) {p : ℤ}
    (hf : s.fPos fd = some p) (seg : Segment) (o : Outcomes) :
    Returns (segmentCommand cfg fd seg o) s fun command s' =>
      ∀ arg, command = .seek arg 0 →
        s'.kernel.dev.lseekPos = arg.position s'.kernel.lines := by
  rw [segmentCommand]
  cases hseek : findSeek seg.segmentPtr with
  | none =>
    obtain ⟨r, s', hcall, -⟩ := sysCall_inv h ⟨fd, .write seg.bytes, o⟩
    refine .step hcall ⟨_, s', rfl, fun arg hcommand => ?_⟩
    split_ifs at hcommand
  | some seek =>
    refine .step (sysCall_ioctl h hf rfl) ⟨_, _, rfl, fun arg hcommand => ?_⟩
    simp only [Commanded.seek.injEq] at hcommand
    obtain ⟨rfl, hret⟩ := hcommand
    set c : Call := ⟨fd, .ioctl aesdcharIocseekto seek, o⟩ with hc
    change (c.ioctlResult s aesdcharIocseekto seek).2 = seek.position s.kernel.lines
    by_cases hperforms : c.PerformsSeek aesdcharIocseekto
    · rw [ioctlResult_of_performsSeek h hsmall hperforms] at hret ⊢
      split_ifs at hret ⊢ with haccept
      · rfl
      · exact absurd hret (by simp [EINVAL])
    · have hneg := (ioctlResult_of_not_performsSeek s seek hperforms).1
      omega

end

end Aesd
