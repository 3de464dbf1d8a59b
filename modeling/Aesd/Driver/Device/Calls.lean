import Aesd.Driver.Device.Read
import Aesd.Driver.Device.Seek
import Aesd.Driver.Device.System
import Aesd.Driver.Device.Write

/-!
# What the system calls do

One lemma for each operation on an open file. From them: no call faults in a state that some
sequence of calls reaches, and between two calls the driver keeps its invariant and holds no lock.
-/

namespace Aesd

open Exec

namespace System

/-- The invariant of the system between two calls. -/
structure Inv (cfg : KernelConfig) (s : System) : Prop where
  kernel : s.kernel.Inv cfg
  held : s.kernel.held = []
  outcomes : s.kernel.outcomes = {}
  fPos_bounds : ∀ f p, s.fPos f = some p → -2 ^ 63 ≤ p ∧ p < 2 ^ 63

lemma init_inv (cfg : KernelConfig) : System.init.Inv cfg :=
  ⟨Kernel.init_inv, rfl, rfl, fun _ _ h => by cases h⟩

end System

variable {cfg : KernelConfig} {s : System} {c : Call} {p : ℤ}

/-- The kernel with the outcomes that a call comes with. -/
def Kernel.given (k : Kernel) (o : Outcomes) : Kernel := { k with outcomes := o }

lemma Kernel.Inv.given {k : Kernel} (h : k.Inv cfg) (o : Outcomes) : (k.given o).Inv cfg :=
  { h with }

lemma withOutcomes_of_returns {α : Type} {o : Outcomes} {m : KernelM α} {Q : α → Kernel → Prop}
    (h : Returns m (s.kernel.given o) Q) :
    Returns (withOutcomes o m) s fun a s' =>
      ∃ k, Q a k ∧ s' = { s with kernel := { k with outcomes := {} } } := by
  obtain ⟨a, k, hm, hQ⟩ := h
  refine ⟨a, { s with kernel := { k with outcomes := {} } }, ?_, k, hQ, rfl⟩
  simp only [Kernel.given] at hm
  simp only [withOutcomes, hm]

/-- A function that leaves the kernel as it was, but for the device. -/
lemma withOutcomes_of_device {α : Type} {o : Outcomes} {m : KernelM α} {a : α} {k : Kernel}
    (h : Returns m (s.kernel.given o) fun r k' =>
      k'.dev = k.dev ∧ k'.heap = k.heap ∧ k'.held = k.held ∧ r = a)
    (hk : k.held = [] ∧ k.outcomes = {}) :
    withOutcomes o m s = .ok (a, { s with kernel := k }) := by
  obtain ⟨r, s', hm, k', ⟨hdev, hheap, hheld, rfl⟩, rfl⟩ := withOutcomes_of_returns h
  obtain ⟨dev, heap, held, outcomes⟩ := k
  simp only at hdev hheap hheld hk
  rw [hm, hdev, hheap, hheld, hk.2]

lemma sysCall_open (h : s.Inv cfg) (hf : s.fPos c.file = none) (hop : c.op = .open) :
    sysCall cfg c s
      = .ok (⟨0, []⟩, { s with fPos := Function.update s.fPos c.file (some 0) }) := by
  have hcall := withOutcomes_of_device (m := aesdOpen) (o := c.outcomes) (a := 0)
    (k := s.kernel) ⟨0, _, rfl, rfl, rfl, rfl, rfl⟩ ⟨h.held, h.outcomes⟩
  simp only [sysCall, read_bind_apply, hf, hop, if_true, bind_ok hcall, update_bind_apply,
    pure_apply]

/-- No other call does anything on a file that is not open. -/
lemma sysCall_of_closed (hf : s.fPos c.file = none) (hop : c.op ≠ .open) :
    sysCall cfg c s = .ok (⟨-EBADF, []⟩, s) := by
  simp only [sysCall, read_bind_apply, hf, if_neg hop, pure_apply]

lemma sysCall_of_open (hf : s.fPos c.file = some p) : sysCall cfg c s = fileOp cfg c p s := by
  simp only [sysCall, read_bind_apply, hf]

/-! ### The operations -/

/-- A read returns and leaves everything as it was. -/
lemma withOutcomes_aesdRead (h : s.Inv cfg) (o : Outcomes) (count : ℕ)
    (hp : -2 ^ 63 ≤ p ∧ p < 2 ^ 63) :
    withOutcomes o (aesdRead count p) s = .ok ((s.kernel.given o).readResult count p, s) :=
  withOutcomes_of_device (k := s.kernel)
    (aesdRead_spec (h.kernel.given o) (by rw [Kernel.given, h.held]; exact List.not_mem_nil) count
      hp) ⟨h.held, h.outcomes⟩

/-- A seek moves the device and leaves everything else as it was. -/
lemma withOutcomes_aesdLlseek (h : s.Inv cfg) (o : Outcomes) (off whence : ℤ) :
    withOutcomes o (aesdLlseek off whence) s
      = .ok (((s.kernel.given o).llseekResult off whence).1, { s with
          kernel := s.kernel.seekTo ((s.kernel.given o).llseekResult off whence).2 }) :=
  withOutcomes_of_device (k := s.kernel.seekTo _)
    (aesdLlseek_spec (by rw [Kernel.given, h.held]; exact List.not_mem_nil) off whence)
    ⟨h.held, h.outcomes⟩

/-- What a read on a file at position `p` leaves behind. -/
def Call.readResult (c : Call) (s : System) (count : ℕ) (p : ℤ) : ReadResult :=
  (s.kernel.given c.outcomes).readResult count p

/-- What a seek returns, and the position it leaves. -/
def Call.llseekResult (c : Call) (s : System) (off whence : ℤ) : ℤ × ℤ :=
  (s.kernel.given c.outcomes).llseekResult (toLoff off) whence

/-- What a command returns, and the position it leaves. -/
def Call.ioctlResult (c : Call) (s : System) (cmd : UInt32) (arg : AesdSeekto) : ℤ × ℤ :=
  (s.kernel.given c.outcomes).ioctlResult cmd arg

/-- A read moves its own file and changes nothing else. -/
lemma sysCall_read (h : s.Inv cfg) (hf : s.fPos c.file = some p) {count : ℕ}
    (hop : c.op = .read count) :
    sysCall cfg c s = .ok
      (⟨(c.readResult s count p).retVal, (c.readResult s count p).data⟩,
        { s with fPos := Function.update s.fPos c.file (some (c.readResult s count p).fPos) }) := by
  have hcall := withOutcomes_aesdRead h c.outcomes count (h.fPos_bounds _ _ hf)
  rw [sysCall_of_open hf, fileOp, hop]
  simp only [bind_ok hcall, update_bind_apply, pure_apply]
  rfl

/-- A seek moves the device and nothing else. -/
lemma sysCall_llseek (h : s.Inv cfg) (hf : s.fPos c.file = some p) {off whence : ℤ}
    (hop : c.op = .llseek off whence) :
    sysCall cfg c s = .ok
      (⟨(c.llseekResult s off whence).1, []⟩,
        { s with kernel := s.kernel.seekTo (c.llseekResult s off whence).2 }) := by
  have hcall := withOutcomes_aesdLlseek h c.outcomes (toLoff off) whence
  rw [sysCall_of_open hf, fileOp, hop]
  simp only [bind_ok hcall, pure_apply]
  rfl

lemma sysCall_ioctl (h : s.Inv cfg) (hf : s.fPos c.file = some p) {cmd : UInt32}
    {arg : AesdSeekto} (hop : c.op = .ioctl cmd arg) :
    sysCall cfg c s = .ok
      (⟨(c.ioctlResult s cmd arg).1, []⟩,
        { s with kernel := s.kernel.seekTo (c.ioctlResult s cmd arg).2 }) := by
  have hseek := aesdIoctl_spec (k := s.kernel.given c.outcomes)
    (by rw [Kernel.given, h.held]; exact List.not_mem_nil) cmd arg
  have hcall := withOutcomes_of_device (k := s.kernel.seekTo _) hseek ⟨h.held, h.outcomes⟩
  rw [sysCall_of_open hf, fileOp, hop]
  simp only [bind_ok hcall, pure_apply]
  rfl

/-- A release closes its file, and moves the device to the start. -/
lemma sysCall_release (h : s.Inv cfg) (hf : s.fPos c.file = some p) (hop : c.op = .release) :
    sysCall cfg c s = .ok (⟨0, []⟩, { s with
      kernel := s.kernel.seekTo 0
      fPos := Function.update s.fPos c.file none }) := by
  have hcall := withOutcomes_of_device (m := aesdRelease) (o := c.outcomes) (a := 0)
    (k := s.kernel.seekTo 0) ⟨0, _, rfl, rfl, rfl, rfl, rfl⟩ ⟨h.held, h.outcomes⟩
  rw [sysCall_of_open hf, fileOp, hop]
  simp only [bind_ok hcall, update_bind_apply, pure_apply]

/-- The stored lines and the stage as a write with outcomes `o` finds them. -/
def Kernel.logGiven (k : Kernel) (o : Outcomes) : StagedLog Byte :=
  ⟨k.lines, k.stage, o.allocFails, o.interrupted⟩

/-- A write is an attempt to write to the staged log. -/
lemma sysCall_write (h : s.Inv cfg) (hf : s.fPos c.file = some p) {data : List Byte}
    (hop : c.op = .write data) :
    ∃ k', k'.Inv cfg ∧ k'.held = [] ∧ k'.outcomes = {} ∧
      k'.dev.lseekPos = s.kernel.dev.lseekPos ∧
      k'.lines = ((s.kernel.logGiven c.outcomes).submit maxWriteOperations cfg.kmallocMaxSize
        newline data).2.lines ∧
      k'.stage = ((s.kernel.logGiven c.outcomes).submit maxWriteOperations cfg.kmallocMaxSize
        newline data).2.stage ∧
      sysCall cfg c s = .ok (⟨writeRet data.length ((s.kernel.logGiven c.outcomes).submit
        maxWriteOperations cfg.kmallocMaxSize newline data).1, []⟩, { s with kernel := k' }) := by
  obtain ⟨r, s', hcall, k, ⟨hinv, hheld, hpos, rfl, hlog⟩, rfl⟩ :=
    withOutcomes_of_returns (aesdWrite_spec (h.kernel.given c.outcomes) h.held data)
  have hlines := congrArg StagedLog.lines hlog
  have hstage := congrArg StagedLog.stage hlog
  refine ⟨{ k with outcomes := {} }, { hinv with }, hheld, rfl, hpos, hlines, hstage, ?_⟩
  rw [sysCall_of_open hf, fileOp, hop]
  simp only [bind_ok hcall, pure_apply]
  rfl

/-! ### The invariant -/

lemma seekPos_bounds {dev : Device} (h : -2 ^ 63 ≤ dev.lseekPos ∧ dev.lseekPos < 2 ^ 63)
    (off whence : ℤ) :
    -2 ^ 63 ≤ seekPos dev (toLoff off) whence ∧ seekPos dev (toLoff off) whence < 2 ^ 63 := by
  unfold seekPos
  split_ifs
  · exact toLoff_bounds _
  · exact toLoff_bounds _
  · exact toLoff_bounds _
  · exact h

lemma Call.readResult_bounds (c : Call) (s : System) (count : ℕ)
    (hp : -2 ^ 63 ≤ p ∧ p < 2 ^ 63) :
    -2 ^ 63 ≤ (c.readResult s count p).fPos ∧ (c.readResult s count p).fPos < 2 ^ 63 := by
  unfold Call.readResult Kernel.readResult
  split_ifs
  · exact hp
  · exact toLoff_bounds _

lemma Call.llseekResult_bounds (h : s.Inv cfg) (c : Call) (off whence : ℤ) :
    -2 ^ 63 ≤ (c.llseekResult s off whence).2 ∧ (c.llseekResult s off whence).2 < 2 ^ 63 := by
  unfold Call.llseekResult Kernel.llseekResult
  split_ifs
  · exact h.kernel.lseekPos_bounds
  · exact seekPos_bounds h.kernel.lseekPos_bounds _ _

lemma Call.ioctlResult_bounds (h : s.Inv cfg) (c : Call) (cmd : UInt32) (arg : AesdSeekto) :
    -2 ^ 63 ≤ (c.ioctlResult s cmd arg).2 ∧ (c.ioctlResult s cmd arg).2 < 2 ^ 63 := by
  unfold Call.ioctlResult Kernel.ioctlResult
  split_ifs
  · exact h.kernel.lseekPos_bounds
  · exact h.kernel.lseekPos_bounds
  · exact h.kernel.lseekPos_bounds
  · cases ht : (s.kernel.given c.outcomes).dev.seekTarget arg with
    | none => exact h.kernel.lseekPos_bounds
    | some q =>
      obtain ⟨-, hq⟩ := Option.ite_none_left_eq_some.mp ht
      cases hq
      dsimp only
      omega

lemma System.Inv.seekTo (h : s.Inv cfg) {q : ℤ} (hq : -2 ^ 63 ≤ q ∧ q < 2 ^ 63) :
    System.Inv cfg { s with kernel := s.kernel.seekTo q } where
  kernel := { h.kernel with lseekPos_bounds := hq }
  held := h.held
  outcomes := h.outcomes
  fPos_bounds := h.fPos_bounds

lemma System.Inv.updateFPos (h : s.Inv cfg) (f : FileId) {q : Option ℤ}
    (hq : ∀ p, q = some p → -2 ^ 63 ≤ p ∧ p < 2 ^ 63) :
    System.Inv cfg { s with fPos := Function.update s.fPos f q } where
  kernel := h.kernel
  held := h.held
  outcomes := h.outcomes
  fPos_bounds g p hp := by
    by_cases hg : g = f
    · subst hg
      simp only [Function.update_self] at hp
      exact hq p hp
    · simp only [Function.update_of_ne hg] at hp
      exact h.fPos_bounds g p hp

/-- Every call returns, and keeps the invariant. -/
theorem sysCall_inv (h : s.Inv cfg) (c : Call) :
    Returns (sysCall cfg c) s fun _ s' => s'.Inv cfg := by
  cases hf : s.fPos c.file with
  | none =>
    by_cases hop : c.op = .open
    · refine ⟨_, _, sysCall_open h hf hop, h.updateFPos c.file ?_⟩
      rintro _ ⟨⟩
      decide
    · exact ⟨_, s, sysCall_of_closed hf hop, h⟩
  | some p =>
    obtain ⟨file, op, o⟩ := c
    cases op with
    | «open» => exact ⟨⟨-EBADF, []⟩, s, sysCall_of_open hf, h⟩
    | release =>
      refine ⟨_, _, sysCall_release h hf rfl, ?_⟩
      exact (h.seekTo (by decide)).updateFPos file (by rintro _ ⟨⟩)
    | read count =>
      refine ⟨_, _, sysCall_read h hf rfl, h.updateFPos file ?_⟩
      rintro _ ⟨⟩
      exact Call.readResult_bounds _ _ _ (h.fPos_bounds _ _ hf)
    | write data =>
      obtain ⟨k', hinv, hheld, hout, -, -, -, hcall⟩ := sysCall_write h hf rfl
      exact ⟨_, _, hcall, hinv, hheld, hout, h.fPos_bounds⟩
    | llseek off whence =>
      exact ⟨_, _, sysCall_llseek h hf rfl, h.seekTo (Call.llseekResult_bounds h _ _ _)⟩
    | ioctl cmd arg =>
      exact ⟨_, _, sysCall_ioctl h hf rfl, h.seekTo (Call.ioctlResult_bounds h _ _ _)⟩

/-- Whatever calls were made, on whatever files, and however the kernel calls ended. -/
theorem System.Reachable.inv (h : System.Reachable cfg s) : s.Inv cfg :=
  Machine.Reachable.invariant (fun c _ hs => sysCall_inv hs c) (System.init_inv cfg) h

/-- A fresh device with file `0` open. -/
def System.opened : System :=
  { System.init with fPos := Function.update (fun _ => none) 0 (some 0) }

lemma System.opened_reachable (cfg : KernelConfig) : System.Reachable cfg .opened :=
  ⟨[⟨0, .open, {}⟩], [⟨0, []⟩], rfl⟩

end Aesd
