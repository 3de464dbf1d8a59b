import Aesd.Driver.Device.Calls

/-!
# Seek commands

A seek command names a line and an offset in it. The driver accepts one line and one byte too many,
and adds the position that it sets to that of the file.
-/

namespace Aesd

open Exec

variable {cfg : KernelConfig} {s : System} {c : Call} {p : ℤ} {cmd : UInt32} {arg : AesdSeekto}

/-- The line and the byte that a seek command names are stored. -/
def AesdSeekto.Stored (arg : AesdSeekto) (lines : List (List Byte)) : Prop :=
  arg.writeCmd.toNat < lines.length ∧
    arg.writeCmdOffset.toNat < (lines.getD arg.writeCmd.toNat []).length

/-- The position that a seek command names. -/
def AesdSeekto.position (arg : AesdSeekto) (lines : List (List Byte)) : ℕ :=
  (lines.take arg.writeCmd.toNat).flatten.length + arg.writeCmdOffset.toNat

/-- The call gets as far as the lookup: it is a seek command, its argument can be copied, and its
wait for the lock is not interrupted. -/
def Call.PerformsSeek (c : Call) (cmd : UInt32) : Prop :=
  cmd = aesdcharIocseekto ∧ c.outcomes.copyFails.headD false = false ∧
    c.outcomes.interrupted.headD false = false

/-- A seek command is accepted exactly if it names a stored byte, and moves the device there; any
other command returns an error and changes nothing. -/
def SeekLaw (c : Call) (cmd : UInt32) (arg : AesdSeekto) (s : System) (r : CallResult)
    (s' : System) : Prop :=
  (r.retVal = 0 ↔ c.PerformsSeek cmd ∧ arg.Stored s.kernel.lines) ∧
  (r.retVal = 0 → s'.kernel.dev.lseekPos = arg.position s.kernel.lines) ∧
  (r.retVal ≠ 0 → r.retVal < 0 ∧ s' = s)

/-- The seek commands just past what is stored: the line behind the last, up to the size of the
entry that the lookup reaches there, and the offset just behind a line. -/
def AesdSeekto.PastEnd (arg : AesdSeekto) (k : Kernel) : Prop :=
  (arg.writeCmd.toNat = k.lines.length ∧
    arg.writeCmdOffset.toNat ≤ k.seekLimit arg.writeCmd.toNat) ∨
  (arg.writeCmd.toNat < k.lines.length ∧
    arg.writeCmdOffset.toNat = (k.lines.getD arg.writeCmd.toNat []).length)

/-- What the driver accepts is what is stored and what lies just past it. -/
lemma accepted_iff {k : Kernel} (h : k.Inv cfg) (arg : AesdSeekto) :
    (arg.writeCmd.toNat ≤ k.lines.length ∧
        arg.writeCmdOffset.toNat ≤ k.seekLimit arg.writeCmd.toNat) ↔
      arg.Stored k.lines ∨ arg.PastEnd k := by
  rw [AesdSeekto.Stored, AesdSeekto.PastEnd]
  by_cases hlt : arg.writeCmd.toNat < k.lines.length
  · rw [k.seekLimit_of_lt h hlt, List.getD_eq_getElem _ _ hlt]
    omega
  · omega

lemma not_stored_of_pastEnd {k : Kernel} (h : arg.PastEnd k) : ¬ arg.Stored k.lines := by
  rw [AesdSeekto.Stored]
  rcases h with ⟨hcmd, -⟩ | ⟨-, hoff⟩ <;> omega

/-- The three ways in which a command does not get as far as the lookup. -/
lemma ioctlResult_of_not_performsSeek (s : System) (arg : AesdSeekto)
    (h : ¬ c.PerformsSeek cmd) :
    (c.ioctlResult s cmd arg).1 < 0 ∧ (c.ioctlResult s cmd arg).2 = s.kernel.dev.lseekPos := by
  rw [Call.ioctlResult, Kernel.ioctlResult]
  split_ifs with hcmd hcopy hint
  · exact ⟨by simp [ENOTTY], rfl⟩
  · exact ⟨by simp [EFAULT], rfl⟩
  · exact ⟨by simp [ERESTARTSYS], rfl⟩
  · exact absurd ⟨not_not.mp hcmd, eq_false_of_ne_true hcopy, eq_false_of_ne_true hint⟩ h

lemma ioctlResult_of_performsSeek (h : s.Inv cfg) (hsmall : 10 * cfg.kmallocMaxSize < 2 ^ 31)
    (hseek : c.PerformsSeek cmd) :
    c.ioctlResult s cmd arg =
      if arg.writeCmd.toNat ≤ s.kernel.lines.length ∧
          arg.writeCmdOffset.toNat ≤ s.kernel.seekLimit arg.writeCmd.toNat then
        (0, (arg.position s.kernel.lines : ℤ))
      else (-EINVAL, s.kernel.dev.lseekPos) := by
  obtain ⟨hcmd, hcopy, hint⟩ := hseek
  have htarget : (s.kernel.given c.outcomes).dev.seekTarget arg = _ :=
    h.kernel.seekTarget_eq hsmall arg
  have hcopy' : ¬ (s.kernel.given c.outcomes).outcomes.copyFails.headD false = true := by
    rw [Kernel.given, hcopy]
    simp
  have hint' : ¬ (s.kernel.given c.outcomes).outcomes.interrupted.headD false = true := by
    rw [Kernel.given, hint]
    simp
  rw [Call.ioctlResult, Kernel.ioctlResult, if_neg (not_not.mpr hcmd), if_neg hcopy', if_neg hint',
    htarget]
  split_ifs <;> rfl

/-- `AESDCHAR_IOCSEEKTO` obeys the law unless it names the place just past what is stored. -/
theorem aesdIoctl_seekLaw_iff (hs : System.Reachable cfg s)
    (hsmall : 10 * cfg.kmallocMaxSize < 2 ^ 31) (hf : s.fPos c.file = some p)
    (hop : c.op = .ioctl cmd arg) :
    Returns (sysCall cfg c) s fun r s' =>
      SeekLaw c cmd arg s r s' ↔ ¬ (c.PerformsSeek cmd ∧ arg.PastEnd s.kernel) := by
  have h := hs.inv
  refine ⟨_, _, sysCall_ioctl h hf hop, ?_⟩
  dsimp only
  by_cases hseek : c.PerformsSeek cmd
  · rw [SeekLaw, ioctlResult_of_performsSeek h hsmall hseek]
    have haccept := accepted_iff h.kernel arg
    by_cases hpast : arg.PastEnd s.kernel
    · -- accepted, although nothing is stored there
      have hstored := not_stored_of_pastEnd hpast
      rw [if_pos (haccept.mpr (Or.inr hpast))]
      exact iff_of_false (fun hlaw => hstored (hlaw.1.mp rfl).2) (not_not.mpr ⟨hseek, hpast⟩)
    refine iff_of_true ?_ (fun hboth => hpast hboth.2)
    by_cases hstored : arg.Stored s.kernel.lines
    · rw [if_pos (haccept.mpr (Or.inl hstored))]
      exact ⟨iff_of_true rfl ⟨hseek, hstored⟩, fun _ => rfl, fun hne => absurd rfl hne⟩
    · rw [if_neg (haccept.not.mpr (not_or.mpr ⟨hstored, hpast⟩))]
      exact ⟨iff_of_false (by simp [EINVAL]) (fun hboth => hstored hboth.2),
        fun hzero => absurd hzero (by simp [EINVAL]), fun _ => ⟨by simp [EINVAL], rfl⟩⟩
  · obtain ⟨hneg, hpos⟩ := ioctlResult_of_not_performsSeek s arg hseek
    refine iff_of_true ⟨?_, ?_, fun _ => ⟨hneg, ?_⟩⟩ (fun hboth => hseek hboth.1)
    · exact iff_of_false (by simpa using hneg.ne) (fun hboth => hseek hboth.1)
    · exact fun hzero => absurd hzero (by simpa using hneg.ne)
    · rw [hpos]
      rfl

/-- A seek command on the empty device. -/
def seekNothing : Call := ⟨0, .ioctl aesdcharIocseekto ⟨0, 0⟩, {}⟩

theorem aesdIoctl_seekLaw_iff_seekNothing :
    (Returns (sysCall .usual seekNothing) .opened fun r s' =>
      SeekLaw seekNothing aesdcharIocseekto ⟨0, 0⟩ .opened r s' ↔
        ¬ (seekNothing.PerformsSeek aesdcharIocseekto ∧
          AesdSeekto.PastEnd ⟨0, 0⟩ System.opened.kernel)) ∧
    AesdSeekto.PastEnd ⟨0, 0⟩ System.opened.kernel :=
  ⟨aesdIoctl_seekLaw_iff (System.opened_reachable _) (by decide) rfl rfl, Or.inl ⟨rfl, by decide⟩⟩

/-- The empty device accepts the seek to its line `0`. -/
theorem aesdIoctl_accepts_past_end :
    System.Reachable .usual .opened ∧ ¬ AesdSeekto.Stored ⟨0, 0⟩ System.opened.kernel.lines ∧
    ∃ r s', sysCall .usual seekNothing .opened = .ok (r, s') ∧ r.retVal = 0 := by
  have h : Except.map (fun q => q.1.retVal) (sysCall .usual seekNothing .opened) = .ok 0 := by
    decide +kernel
  obtain ⟨⟨r, s'⟩, hcall, hr⟩ := exists_of_map_ok h
  exact ⟨System.opened_reachable _, fun hstored => absurd hstored.1 (by decide), r, s', hcall, hr⟩

/-! ### Reading after a seek -/

/-- The read takes its first byte at the byte that the seek command named. -/
def AesdSeekto.FirstRead (arg : AesdSeekto) (k : Kernel) (count : ℕ) (r : ReadResult) : Prop :=
  (∃ size, r.source = some (k.dev.buff.slot arg.writeCmd.toNat, arg.writeCmdOffset.toNat, size)) ∧
  r.data = ((k.lines.getD arg.writeCmd.toNat []).drop arg.writeCmdOffset.toNat).take count ∧
  r.data ≠ []

/-- The position named by a command that names a stored byte is that of the byte. -/
lemma locate_position {k : Kernel} (h : arg.Stored k.lines) :
    locate (k.lines.map List.length) (arg.position k.lines)
      = some (arg.writeCmd.toNat, arg.writeCmdOffset.toNat) := by
  obtain ⟨hcmd, hoff⟩ := h
  rw [List.getD_eq_getElem _ _ hcmd] at hoff
  refine locate_eq_some_iff.mpr ⟨by simpa using hcmd, by simpa using hoff, ?_⟩
  rw [AesdSeekto.position, ← List.map_take, List.length_flatten]

lemma position_lt {k : Kernel} (hstored : arg.Stored k.lines) :
    arg.position k.lines < k.content.length := by
  have hne : locate (k.lines.map List.length) (arg.position k.lines) ≠ none := by
    rw [locate_position hstored]
    simp
  rw [Ne, locate_eq_none_iff] at hne
  rw [Kernel.content, List.length_flatten]
  omega

/-- A read at a file position is a read at the sought byte only if the file position is zero. -/
lemma actualPos_seekTo_eq_iff {k : Kernel} {q : ℕ} (hq : q < 2 ^ 63)
    (hp : -2 ^ 63 ≤ p ∧ p < 2 ^ 63) : actualPos (k.seekTo q).dev p = q ↔ p = 0 := by
  simp only [actualPos, Kernel.seekTo_lseekPos, addSize, toSize]
  omega

/-- The first read after a move of the device to the named byte. -/
lemma firstRead_iff {k : Kernel} (h : k.Inv cfg) (hstored : arg.Stored k.lines) {count : ℕ}
    (hcount : 0 < count) {o : Outcomes} (hint : o.interrupted.headD false = false)
    (hcopied : o.notCopied.headD 0 = 0) (hp : -2 ^ 63 ≤ p ∧ p < 2 ^ 63) :
    arg.FirstRead k count
      (((k.seekTo (arg.position k.lines)).given o).readResult count p) ↔ p = 0 := by
  have hlt : arg.position k.lines < 2 ^ 63 := by
    have hsum := h.sum_sizes_lt
    rw [← h.length_content] at hsum
    exact (position_lt hstored).trans hsum
  have hlocate := locate_position hstored
  have hread : ((k.seekTo (arg.position k.lines)).given o).readResult count p = _ :=
    if_neg (show ¬ o.interrupted.headD false = true by rw [hint]; simp)
  rw [← actualPos_seekTo_eq_iff (k := k) hlt hp, hread]
  constructor
  · rintro ⟨⟨size, hsource⟩, -⟩
    obtain ⟨⟨i, off⟩, hloc, heq⟩ := Option.map_eq_some_iff.mp hsource
    simp only [Prod.mk.injEq] at heq
    obtain ⟨hslot, rfl, -⟩ := heq
    have hcmd := hstored.1.trans_le h.length_lines_le
    have hloc' : locate (k.lines.map List.length)
        (actualPos (k.seekTo (arg.position k.lines)).dev p)
        = some (i, arg.writeCmdOffset.toNat) := by
      rw [h.map_length_lines]
      exact hloc
    obtain ⟨hi, -, hpos⟩ := locate_eq_some_iff.mp hloc'
    rw [List.length_map] at hi
    have hslot' : k.dev.buff.slot i = k.dev.buff.slot arg.writeCmd.toNat := hslot
    obtain rfl := CircularBuffer.slot_injOn (hi.trans_le h.length_lines_le) hcmd hslot'
    rw [hpos, AesdSeekto.position, ← List.map_take, List.length_flatten]
  · intro hpos
    have hdata : ((k.seekTo (arg.position k.lines)).given o).delivery count p
        = ((k.lines.getD arg.writeCmd.toNat []).drop arg.writeCmdOffset.toNat).take count := by
      have hdelivery := delivery_of_copied
        (k := (k.seekTo (arg.position k.lines)).given o) hcopied count p
      have hpiece : pieceFrom k.lines (actualPos (k.seekTo (arg.position k.lines)).dev p)
          = (k.lines.getD arg.writeCmd.toNat []).drop arg.writeCmdOffset.toNat := by
        rw [hpos, pieceFrom_of_locate hlocate]
      rw [← hpiece]
      exact hdelivery
    refine ⟨⟨min (k.dev.buff.sizes.getD arg.writeCmd.toNat 0 - arg.writeCmdOffset.toNat) count,
      ?_⟩, hdata, ?_⟩
    · rw [h.map_length_lines] at hlocate
      change Option.map _ (locate k.dev.buff.sizes
        (actualPos (k.seekTo (arg.position k.lines)).dev p)) = _
      rw [hpos, hlocate]
      rfl
    · dsimp only
      have hoff := hstored.2
      rw [hdata, Ne, List.take_eq_nil_iff, List.drop_eq_nil_iff]
      omega

/-- After a seek command, the next read on the same file starts at the byte that the command named
if and only if the position of the file is zero. -/
theorem seek_then_read_iff (hs : System.Reachable cfg s)
    (hsmall : 10 * cfg.kmallocMaxSize < 2 ^ 31) (hf : s.fPos c.file = some p)
    (hop : c.op = .ioctl cmd arg) (hstored : arg.Stored s.kernel.lines) {count : ℕ}
    (hcount : 0 < count) {o : Outcomes} (hint : o.interrupted.headD false = false)
    (hcopied : o.notCopied.headD 0 = 0) :
    Returns (sysCall cfg c) s fun r s' =>
      r.retVal = 0 →
        s'.fPos c.file = some p ∧
        Returns (withOutcomes o (aesdRead count p)) s' fun r' _ =>
          arg.FirstRead s.kernel count r' ↔ p = 0 := by
  have h := hs.inv
  refine ⟨_, _, sysCall_ioctl h hf hop, fun hret => ⟨hf, ?_⟩⟩
  by_cases hseek : c.PerformsSeek cmd
  · rw [ioctlResult_of_performsSeek h hsmall hseek,
      if_pos ((accepted_iff h.kernel arg).mpr (Or.inl hstored))]
    have hlt := position_lt hstored
    have hsum := h.kernel.sum_sizes_lt
    rw [← h.kernel.length_content] at hsum
    have hinv := h.seekTo (q := arg.position s.kernel.lines) (by omega)
    exact ⟨_, _, withOutcomes_aesdRead hinv o count (h.fPos_bounds _ _ hf),
      firstRead_iff h.kernel hstored hcount hint hcopied (h.fPos_bounds _ _ hf)⟩
  · have hneg := (ioctlResult_of_not_performsSeek s arg hseek).1
    dsimp only at hret
    omega

/-- Store the line `ab\n` and read its first byte. -/
def readOnce : List Call :=
  [⟨0, .open, {}⟩, ⟨0, .write [97, 98, 10], {}⟩, ⟨0, .read 1, {}⟩]

/-- Seek to the first byte of the first line. -/
def seekFirst : Call := ⟨0, .ioctl aesdcharIocseekto ⟨0, 0⟩, {}⟩

lemma readOnce_run :
    ∃ rs s, Machine.run (sysCall .usual) readOnce .init = .ok (rs, s) ∧ s.fPos 0 = some 1 ∧
      s.kernel.lines = [[97, 98, 10]] := by
  have h : Except.map (fun q => (q.2.fPos 0, q.2.kernel.lines))
      (Machine.run (sysCall .usual) readOnce .init) = .ok (some 1, [[97, 98, 10]]) := by
    decide +kernel
  obtain ⟨⟨rs, s⟩, hrun, hs⟩ := exists_of_map_ok h
  exact ⟨rs, s, hrun, congrArg Prod.fst hs, congrArg Prod.snd hs⟩

theorem seek_then_read_iff_readOnce :
    ∃ s, System.Reachable .usual s ∧
      Returns (sysCall .usual seekFirst) s fun r s' =>
        r.retVal = 0 →
          s'.fPos 0 = some 1 ∧
          Returns (withOutcomes {} (aesdRead 1 1)) s' fun r' _ =>
            AesdSeekto.FirstRead ⟨0, 0⟩ s.kernel 1 r' ↔ (1 : ℤ) = 0 := by
  obtain ⟨rs, s, hrun, hf, hlines⟩ := readOnce_run
  have hstored : AesdSeekto.Stored ⟨0, 0⟩ s.kernel.lines := by
    rw [hlines]
    exact ⟨by decide, by decide⟩
  exact ⟨s, ⟨_, _, hrun⟩, seek_then_read_iff ⟨_, _, hrun⟩ (by decide) hf rfl hstored
    Nat.one_pos rfl rfl⟩

/-- The read after the seek returns the second byte of the line. -/
theorem seek_then_read_skips :
    ∃ s, Machine.run (sysCall .usual) (readOnce ++ [seekFirst, ⟨0, .read 1, {}⟩]) .init
        = .ok ([⟨0, []⟩, ⟨3, []⟩, ⟨1, [97]⟩, ⟨0, []⟩, ⟨1, [98]⟩], s) ∧
      s.kernel.lines = [[97, 98, 10]] := by
  have h : Except.map (fun q => (q.1, q.2.kernel.lines))
      (Machine.run (sysCall .usual) (readOnce ++ [seekFirst, ⟨0, .read 1, {}⟩]) .init)
      = .ok ([⟨0, []⟩, ⟨3, []⟩, ⟨1, [97]⟩, ⟨0, []⟩, ⟨1, [98]⟩], [[97, 98, 10]]) := by
    decide +kernel
  obtain ⟨⟨rs, s⟩, hrun, hs⟩ := exists_of_map_ok h
  obtain rfl : rs = _ := congrArg Prod.fst hs
  exact ⟨s, hrun, congrArg Prod.snd hs⟩

end Aesd
