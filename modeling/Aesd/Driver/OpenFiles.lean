import Aesd.Driver.SeekLaw

/-!
# Open files

Every file has a position of its own, but a seek moves the device, and a release moves it back. A
file whose calls all leave the position of the device where it is cannot be told from a file that
makes no calls at all.
-/

namespace Aesd

open Exec

variable {cfg : KernelConfig} {s t : System} {c : Call} {b : FileId} {p : ℤ}

/-- The call is no write. -/
def Call.NoWrite (c : Call) : Prop := ∀ data, c.op ≠ .write data

/-- A call on an open file finds the position of the device where it puts it: a release at zero, a
seek at its target, unless it fails. -/
def Call.KeepsPosition (c : Call) (s : System) : Prop :=
  s.fPos c.file ≠ none →
    match c.op with
    | .release => s.kernel.dev.lseekPos = 0
    | .llseek off whence =>
      c.outcomes.interrupted.headD false = false →
        seekPos s.kernel.dev (toLoff off) whence = s.kernel.dev.lseekPos
    | .ioctl cmd arg =>
      c.PerformsSeek cmd →
        ∀ q, s.kernel.dev.seekTarget arg = some q → q = s.kernel.dev.lseekPos
    | _ => True

instance (c : Call) : Decidable c.NoWrite :=
  match h : c.op with
  | .write data => .isFalse fun hno => hno data h
  | .open | .release | .read _ | .llseek _ _ | .ioctl _ _ => .isTrue fun _ => by simp [h]

instance (c : Call) (cmd : UInt32) : Decidable (c.PerformsSeek cmd) :=
  inferInstanceAs (Decidable (_ ∧ _))

instance (c : Call) (s : System) : Decidable (c.KeepsPosition s) :=
  have : Decidable (match c.op with
      | .release => s.kernel.dev.lseekPos = 0
      | .llseek off whence =>
        c.outcomes.interrupted.headD false = false →
          seekPos s.kernel.dev (toLoff off) whence = s.kernel.dev.lseekPos
      | .ioctl cmd arg =>
        c.PerformsSeek cmd →
          ∀ q, s.kernel.dev.seekTarget arg = some q → q = s.kernel.dev.lseekPos
      | _ => True) :=
    match c.op with
    | .release => inferInstanceAs (Decidable (_ = _))
    | .llseek _ _ => inferInstanceAs (Decidable (_ → _))
    | .ioctl cmd arg =>
      inferInstanceAs (Decidable (c.PerformsSeek cmd →
        ∀ q ∈ s.kernel.dev.seekTarget arg, q = s.kernel.dev.lseekPos))
    | .open | .read _ | .write _ => .isTrue trivial
  inferInstanceAs (Decidable (_ → _))

/-- Two states that differ at most in the position of file `b`. -/
structure System.SameBut (cfg : KernelConfig) (b : FileId) (s t : System) : Prop where
  inv : s.Inv cfg
  inv' : t.Inv cfg
  kernel : s.kernel = t.kernel
  fPos : ∀ f, f ≠ b → s.fPos f = t.fPos f

lemma System.SameBut.refl (h : s.Inv cfg) (b : FileId) : s.SameBut cfg b s :=
  ⟨h, h, rfl, fun _ _ => rfl⟩

/-! ### The calls of the hidden file -/

lemma llseekResult_of_keepsPosition {off whence : ℤ} (hf : s.fPos c.file = some p)
    (hop : c.op = .llseek off whence) (hkeeps : c.KeepsPosition s) :
    (c.llseekResult s off whence).2 = s.kernel.dev.lseekPos := by
  have hpos := hkeeps (by simp [hf])
  rw [hop] at hpos
  rw [Call.llseekResult, Kernel.llseekResult]
  split_ifs with hint
  · rfl
  · exact hpos (eq_false_of_ne_true hint)

lemma ioctlResult_of_keepsPosition {cmd : UInt32} {arg : AesdSeekto}
    (hf : s.fPos c.file = some p) (hop : c.op = .ioctl cmd arg) (hkeeps : c.KeepsPosition s) :
    (c.ioctlResult s cmd arg).2 = s.kernel.dev.lseekPos := by
  by_cases hseek : c.PerformsSeek cmd
  · have hpos := hkeeps (by simp [hf])
    rw [hop] at hpos
    have hpos := hpos hseek
    rw [Call.ioctlResult, Kernel.ioctlResult]
    split_ifs
    · rfl
    · rfl
    · rfl
    · cases ht : (s.kernel.given c.outcomes).dev.seekTarget arg with
      | none => rfl
      | some q => exact hpos q ht
  · exact (ioctlResult_of_not_performsSeek s arg hseek).2

/-- A call that writes nothing and keeps the position of the device touches at most its own file. -/
lemma sysCall_hidden (h : s.Inv cfg) (hwrite : c.NoWrite) (hkeeps : c.KeepsPosition s) :
    Returns (sysCall cfg c) s fun _ s' =>
      s'.kernel = s.kernel ∧ ∀ f, f ≠ c.file → s'.fPos f = s.fPos f := by
  cases hf : s.fPos c.file with
  | none =>
    by_cases hop : c.op = .open
    · exact ⟨_, _, sysCall_open h hf hop, rfl, fun f hne => Function.update_of_ne hne _ _⟩
    · exact ⟨_, s, sysCall_of_closed hf hop, rfl, fun _ _ => rfl⟩
  | some p =>
    cases hop : c.op with
    | «open» =>
      refine ⟨⟨-EBADF, []⟩, s, ?_, rfl, fun _ _ => rfl⟩
      rw [sysCall_of_open hf, fileOp, hop]
      rfl
    | release =>
      have hpos := hkeeps (by simp [hf])
      rw [hop] at hpos
      refine ⟨_, _, sysCall_release h hf hop, ?_, fun f hne => Function.update_of_ne hne _ _⟩
      rw [← hpos]
      rfl
    | read count =>
      exact ⟨_, _, sysCall_read h hf hop, rfl, fun f hne => Function.update_of_ne hne _ _⟩
    | write data => exact absurd hop (hwrite data)
    | llseek off whence =>
      refine ⟨_, _, sysCall_llseek h hf hop, ?_, fun _ _ => rfl⟩
      rw [llseekResult_of_keepsPosition hf hop hkeeps]
      rfl
    | ioctl cmd arg =>
      refine ⟨_, _, sysCall_ioctl h hf hop, ?_, fun _ _ => rfl⟩
      rw [ioctlResult_of_keepsPosition hf hop hkeeps]
      rfl

/-! ### The calls of the other files -/

/-- Two states that a call on file `f` cannot tell apart. -/
def System.AgreeOn (f : FileId) (s t : System) : Prop :=
  s.kernel = t.kernel ∧ s.fPos f = t.fPos f

/-- A program sees the kernel and the position of file `f`, and nothing else. -/
def LocalTo {α : Type} (f : FileId) (m : Exec Fault System α) : Prop :=
  ∀ s t a s', s.AgreeOn f t → m s = .ok (a, s') →
    ∃ t', m t = .ok (a, t') ∧ s'.AgreeOn f t' ∧
      ∀ g, g ≠ f → s'.fPos g = s.fPos g ∧ t'.fPos g = t.fPos g

section LocalTo

variable {α β : Type} {f : FileId}

lemma LocalTo.pure (a : α) : LocalTo f (pure a) := by
  rintro s t _ _ h ⟨⟩
  exact ⟨t, rfl, h, fun _ _ => ⟨rfl, rfl⟩⟩

lemma LocalTo.bind {m : Exec Fault System α} {n : α → Exec Fault System β} (hm : LocalTo f m)
    (hn : ∀ a, LocalTo f (n a)) : LocalTo f (m >>= n) := by
  intro s t b s'' h hrun
  obtain ⟨a, s', hma, hna⟩ := of_bind_ok hrun
  obtain ⟨t', hma', h', hother⟩ := hm s t a s' h hma
  obtain ⟨t'', hna', h'', hother'⟩ := hn a s' t' b s'' h' hna
  refine ⟨t'', by rw [bind_ok hma', hna'], h'', fun g hg => ?_⟩
  exact ⟨(hother' g hg).1.trans (hother g hg).1, (hother' g hg).2.trans (hother g hg).2⟩

lemma LocalTo.withOutcomes (o : Outcomes) (m : KernelM α) : LocalTo f (withOutcomes o m) := by
  rintro s t a s' ⟨hk, hf⟩ hrun
  rw [Aesd.withOutcomes, hk] at hrun
  rw [Aesd.withOutcomes]
  cases hm : m { t.kernel with outcomes := o } with
  | error e =>
    rw [hm] at hrun
    cases hrun
  | ok q =>
    rw [hm] at hrun
    cases hrun
    exact ⟨_, rfl, ⟨rfl, hf⟩, fun _ _ => ⟨rfl, rfl⟩⟩

lemma LocalTo.setFPos (q : Option ℤ) :
    LocalTo f (update fun s : System => { s with fPos := Function.update s.fPos f q }) := by
  rintro s t _ _ ⟨hk, hf⟩ ⟨⟩
  exact ⟨_, rfl, ⟨hk, by simp⟩,
    fun g hg => ⟨Function.update_of_ne hg _ _, Function.update_of_ne hg _ _⟩⟩

end LocalTo

lemma fileOp_localTo (c : Call) (p : ℤ) : LocalTo c.file (fileOp cfg c p) := by
  unfold fileOp
  cases c.op with
  | «open» => exact .pure _
  | release => exact .bind (.withOutcomes _ _) fun _ => .bind (.setFPos _) fun _ => .pure _
  | read count => exact .bind (.withOutcomes _ _) fun _ => .bind (.setFPos _) fun _ => .pure _
  | write data => exact .bind (.withOutcomes _ _) fun _ => .pure _
  | llseek off whence => exact .bind (.withOutcomes _ _) fun _ => .pure _
  | ioctl cmd arg => exact .bind (.withOutcomes _ _) fun _ => .pure _

lemma sysCall_localTo (c : Call) : LocalTo c.file (sysCall cfg c) := by
  intro s t r s' h hcall
  rw [sysCall, read_bind_apply] at hcall ⊢
  rw [← h.2]
  cases hp : s.fPos c.file with
  | some p =>
    rw [hp] at hcall
    exact fileOp_localTo c p s t r s' h hcall
  | none =>
    rw [hp] at hcall
    by_cases hop : c.op = .open
    · simp only [if_pos hop] at hcall ⊢
      refine LocalTo.bind (.withOutcomes _ _) (fun _ => ?_) s t r s' h hcall
      exact .bind (.setFPos _) fun _ => .pure _
    · simp only [if_neg hop] at hcall ⊢
      exact LocalTo.pure _ s t r s' h hcall

/-- A call on another file cannot tell the two states apart. -/
lemma sysCall_visible (h : s.SameBut cfg b t) (hc : c.file ≠ b) :
    Returns (sysCall cfg c) s fun r s' =>
      Returns (sysCall cfg c) t fun r' t' => r = r' ∧ s'.SameBut cfg b t' := by
  obtain ⟨r, s', hcall, hinv⟩ := sysCall_inv h.inv c
  obtain ⟨t', hcall', ⟨hkernel, hfile⟩, hother⟩ :=
    sysCall_localTo c s t r s' ⟨h.kernel, h.fPos _ hc⟩ hcall
  refine ⟨r, s', hcall, r, t', hcall', rfl, hinv, (sysCall_inv h.inv' c).post hcall', hkernel,
    fun f hne => ?_⟩
  by_cases heq : f = c.file
  · rw [heq, hfile]
  · rw [(hother f heq).1, (hother f heq).2, h.fPos f hne]

/-- The calls of a file that never writes and always leaves the position of the device where it is
can be removed from a run: the other files get the same results. -/
theorem open_files_independent (hs : System.Reachable cfg s) (b : FileId) (cs : List Call)
    (hcs : Machine.Along (sysCall cfg)
      (fun s c _ _ => c.file = b → c.NoWrite ∧ c.KeepsPosition s) cs s) :
    Returns (Machine.run (sysCall cfg) cs) s fun rs _ =>
      Returns (Machine.run (sysCall cfg) (cs.filter fun c => c.file ≠ b)) s fun rs' _ =>
        Machine.outputsOf (fun c => c.file ≠ b) cs rs = rs' := by
  have hpurge := Machine.run_purge (R := System.SameBut cfg b) (p := fun c => c.file ≠ b)
    (P := fun s c _ _ => c.file = b → c.NoWrite ∧ c.KeepsPosition s) ?_ ?_ cs
    (System.SameBut.refl hs.inv b) hcs
  · exact hpurge.mono fun rs _ hrs => hrs.mono fun rs' _ hrs' => hrs'.1
  · intro c s t hR hc
    have hfile : c.file = b := by simpa using hc
    obtain ⟨r, s', hcall, hinv⟩ := sysCall_inv hR.inv c
    refine ⟨r, s', hcall, fun hhidden => ?_⟩
    obtain ⟨hwrite, hkeeps⟩ := hhidden hfile
    obtain ⟨hkernel, hother⟩ := (sysCall_hidden hR.inv hwrite hkeeps).post hcall
    exact ⟨hinv, hR.inv', hkernel.trans hR.kernel,
      fun f hne => (hother f (hfile ▸ hne)).trans (hR.fPos f hne)⟩
  · intro c s t hR hc
    exact sysCall_visible hR (by simpa using hc)

/-- File `0` stores the line `ab\n` and moves behind its first byte. File `1` seeks to where the
device stands, and reads; once file `0` moved back to the start, it is closed. -/
def readNextTo : List Call :=
  [⟨0, .write [97, 98, 10], {}⟩, ⟨0, .llseek 1 SEEK_SET, {}⟩, ⟨1, .open, {}⟩,
    ⟨1, .llseek 0 SEEK_CUR, {}⟩, ⟨1, .read 3, {}⟩, ⟨0, .read 3, {}⟩, ⟨0, .llseek 0 SEEK_SET, {}⟩,
    ⟨1, .release, {}⟩, ⟨0, .read 3, {}⟩]

/-- Without file `1`, file `0` gets the same results. -/
theorem open_files_independent_readNextTo :
    Returns (Machine.run (sysCall .usual) readNextTo) .opened fun rs _ =>
      Returns (Machine.run (sysCall .usual) (readNextTo.filter fun c => c.file ≠ 1)) .opened
        fun rs' _ => Machine.outputsOf (fun c => c.file ≠ 1) readNextTo rs = rs' :=
  open_files_independent (System.opened_reachable _) 1 readNextTo (by decide +kernel)

/-- File `0` stores the line `ab\n`, and file `1` seeks behind its first byte. -/
def seekNextTo : List Call :=
  [⟨0, .open, {}⟩, ⟨1, .open, {}⟩, ⟨0, .write [97, 98, 10], {}⟩, ⟨1, .llseek 1 SEEK_SET, {}⟩,
    ⟨0, .read 3, {}⟩]

/-- File `0` then reads `b\n`, and would have read `ab\n` by itself. -/
theorem open_files_interfere :
    ∃ rs s rs' s', Machine.run (sysCall .usual) seekNextTo .init = .ok (rs, s) ∧
      Machine.run (sysCall .usual) (seekNextTo.filter fun c => c.file ≠ 1) .init = .ok (rs', s') ∧
      Machine.outputsOf (fun c => c.file ≠ 1) seekNextTo rs = [⟨0, []⟩, ⟨3, []⟩, ⟨2, [98, 10]⟩] ∧
      rs' = [⟨0, []⟩, ⟨3, []⟩, ⟨3, [97, 98, 10]⟩] := by
  have h : Except.map (fun q => Machine.outputsOf (fun c => c.file ≠ 1) seekNextTo q.1)
      (Machine.run (sysCall .usual) seekNextTo .init)
      = .ok [⟨0, []⟩, ⟨3, []⟩, ⟨2, [98, 10]⟩] := by decide +kernel
  have h' : Except.map Prod.fst (Machine.run (sysCall .usual)
      (seekNextTo.filter fun c => c.file ≠ 1) .init)
      = .ok [⟨0, []⟩, ⟨3, []⟩, ⟨3, [97, 98, 10]⟩] := by decide +kernel
  obtain ⟨⟨rs, s⟩, hrun, hrs⟩ := exists_of_map_ok h
  obtain ⟨⟨rs', s'⟩, hrun', hrs'⟩ := exists_of_map_ok h'
  exact ⟨rs, s, rs', s', hrun, hrun', hrs, hrs'⟩

end Aesd
