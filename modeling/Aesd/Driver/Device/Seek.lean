import Aesd.Driver.Device.Invariant

/-!
# Seeking

Both seeks and the release of a file touch nothing but the position that the device keeps for all of
its files.
-/

namespace Aesd

open Exec Kernel

/-- The position that a seek command asks for; none if it is refused. -/
def Device.seekTarget (dev : Device) (st : AesdSeekto) : Option ℤ :=
  let basePos := dev.buff.findFposForVirtualEntryOffset st.writeCmd.toNat
  let entry := dev.buff.entry (dev.buff.findEntryAtPosition st.writeCmd.toNat)
  if basePos < 0 ∨ entry.size < st.writeCmdOffset.toNat then none
  else some ((basePos + st.writeCmdOffset.toNat) % 2 ^ 32)

namespace Kernel

/-- The device with its position moved. -/
def seekTo (k : Kernel) (p : ℤ) : Kernel := { k with dev.lseekPos := p }

@[simp] lemma seekTo_lseekPos (k : Kernel) (p : ℤ) : (k.seekTo p).dev.lseekPos = p := rfl

/-- The value that a seek to `off` returns, and the position it leaves. -/
def llseekResult (k : Kernel) (off whence : ℤ) : ℤ × ℤ :=
  if k.outcomes.interrupted.headD false then (-ERESTARTSYS, k.dev.lseekPos)
  else (seekPos k.dev off whence, seekPos k.dev off whence)

/-- The value that a command returns, and the position it leaves. -/
def ioctlResult (k : Kernel) (cmd : UInt32) (arg : AesdSeekto) : ℤ × ℤ :=
  if cmd ≠ aesdcharIocseekto then (-ENOTTY, k.dev.lseekPos)
  else if k.outcomes.copyFails.headD false then (-EFAULT, k.dev.lseekPos)
  else if k.outcomes.interrupted.headD false then (-ERESTARTSYS, k.dev.lseekPos)
  else
    match k.dev.seekTarget arg with
    | none => (-EINVAL, k.dev.lseekPos)
    | some p => (0, p)

end Kernel

variable {cfg : KernelConfig} {k : Kernel}

/-! ### What the calls do -/

lemma seekLocked_eq (st : AesdSeekto) :
    seekLocked st k =
      match k.dev.seekTarget st with
      | none => .ok (-EINVAL, k)
      | some p => .ok (0, k.seekTo p) := by
  rw [seekLocked, read_bind_apply, Device.seekTarget]
  by_cases hbase : k.dev.buff.findFposForVirtualEntryOffset st.writeCmd.toNat < 0
  · rw [if_pos hbase, if_pos (Or.inl hbase)]
    rfl
  · by_cases hsize : (k.dev.buff.entry (k.dev.buff.findEntryAtPosition st.writeCmd.toNat)).size
        < st.writeCmdOffset.toNat
    · rw [if_neg hbase, if_pos hsize, if_pos (Or.inr hsize)]
      rfl
    · rw [if_neg hbase, if_neg hsize, if_neg (not_or.mpr ⟨hbase, hsize⟩)]
      rfl

/-- `aesd_llseek` -/
theorem aesdLlseek_spec (hfree : .buffMutex ∉ k.held) (off whence : ℤ) :
    Returns (aesdLlseek off whence) k fun r k' =>
      k'.dev = (k.seekTo (k.llseekResult off whence).2).dev ∧ k'.heap = k.heap ∧
      k'.held = k.held ∧ r = (k.llseekResult off whence).1 := by
  rw [aesdLlseek]
  cases hi : k.outcomes.interrupted.headD false with
  | true =>
    refine .step (mutexLockInterruptible_of_interrupted _ hi) ⟨_, _, rfl, ?_, rfl, rfl, ?_⟩
    · rw [llseekResult, if_pos hi]
      rfl
    · rw [llseekResult, if_pos hi]
  | false =>
    have hi' : ¬ k.outcomes.interrupted.headD false = true := by rw [hi]; simp
    refine .step (mutexLockInterruptible_of_free hi hfree) (.step (update_apply _ _)
      (.step (read_apply _ _) (.step (mutexUnlock_of_held k.held rfl)
        ⟨_, _, rfl, ?_, rfl, rfl, ?_⟩)))
    · rw [llseekResult, if_neg hi']
      rfl
    · rw [llseekResult, if_neg hi']

/-- `aesd_ioctl` -/
theorem aesdIoctl_spec (hfree : .buffMutex ∉ k.held) (cmd : UInt32) (arg : AesdSeekto) :
    Returns (aesdIoctl cmd arg) k fun r k' =>
      k'.dev = (k.seekTo (k.ioctlResult cmd arg).2).dev ∧ k'.heap = k.heap ∧
      k'.held = k.held ∧ r = (k.ioctlResult cmd arg).1 := by
  by_cases hcmd : cmd = aesdcharIocseekto
  · subst hcmd
    have hvalid : ¬ (iocType aesdcharIocseekto ≠ aesdIocMagic ∨
        iocNr aesdcharIocseekto > aesdcharIocMaxnr) := by decide
    rw [aesdIoctl, if_neg hvalid, if_pos rfl, ioctlResult, if_neg (by simp)]
    cases hc : k.outcomes.copyFails.headD false with
    | true => exact .step (copyFromUser_of_fails arg hc) ⟨_, _, rfl, rfl, rfl, rfl, rfl⟩
    | false =>
      refine .step (copyFromUser_of_succeeds arg hc) ?_
      cases hi : k.outcomes.interrupted.headD false with
      | true =>
        exact .step (mutexLockInterruptible_of_interrupted _ hi) ⟨_, _, rfl, rfl, rfl, rfl, rfl⟩
      | false =>
        refine .step (mutexLockInterruptible_of_free hi hfree) ?_
        have hseek := seekLocked_eq (k := { k with
          outcomes.interrupted := k.outcomes.interrupted.tail
          outcomes.copyFails := k.outcomes.copyFails.tail
          held := .buffMutex :: k.held }) arg
        cases ht : k.dev.seekTarget arg with
        | none =>
          simp only [ht] at hseek
          exact .step hseek (.step (mutexUnlock_of_held k.held rfl)
            ⟨_, _, rfl, rfl, rfl, rfl, rfl⟩)
        | some p =>
          simp only [ht] at hseek
          exact .step hseek (.step (mutexUnlock_of_held k.held rfl)
            ⟨_, _, rfl, rfl, rfl, rfl, rfl⟩)
  · have hret : aesdIoctl cmd arg = pure (-ENOTTY) := by
      rw [aesdIoctl, if_neg hcmd, ite_self]
    rw [hret, ioctlResult, if_pos hcmd]
    exact ⟨_, _, rfl, rfl, rfl, rfl, rfl⟩

/-! ### Where a seek command goes -/

namespace Kernel

/-- The size of the line that the driver compares the offset of a seek command with. The line behind
the last of ten is the oldest one again, and the line behind fewer is empty. -/
def seekLimit (k : Kernel) (writeCmd : ℕ) : ℕ :=
  (k.lines.getD (writeCmd % maxWriteOperations) []).length

lemma seekLimit_of_lt (h : k.Inv cfg) {i : ℕ} (hi : i < k.lines.length) :
    k.seekLimit i = k.lines[i].length := by
  have hmod : i % maxWriteOperations = i := Nat.mod_eq_of_lt (hi.trans_le h.length_lines_le)
  rw [seekLimit, hmod, List.getD_eq_getElem _ _ hi]

/-- A seek command is accepted up to one line and up to one byte behind the last. -/
lemma Inv.seekTarget_eq (h : k.Inv cfg) (hsmall : 10 * cfg.kmallocMaxSize < 2 ^ 31)
    (st : AesdSeekto) :
    k.dev.seekTarget st =
      if st.writeCmd.toNat ≤ k.lines.length ∧
          st.writeCmdOffset.toNat ≤ k.seekLimit st.writeCmd.toNat then
        some (((k.lines.take st.writeCmd.toNat).flatten.length + st.writeCmdOffset.toNat : ℕ) : ℤ)
      else none := by
  have hsum := h.sum_sizes_le
  have hmap := h.map_length_lines
  have hlen : k.lines.length = k.dev.buff.numEntries := length_lines
  rw [Device.seekTarget]
  by_cases hcmd : st.writeCmd.toNat ≤ k.lines.length
  · have hten : k.lines.length ≤ 10 := h.length_lines_le
    have hbase := h.wf.findFpos_of_le (by omega) (hlen ▸ hcmd)
    have hstart : (k.dev.buff.sizes.take st.writeCmd.toNat).sum
        = (k.lines.take st.writeCmd.toNat).flatten.length := by
      rw [← hmap, ← List.map_take, List.length_flatten]
    have hlimit_eq : k.seekLimit st.writeCmd.toNat
        = k.dev.buff.sizes.getD (st.writeCmd.toNat % maxWriteOperations) 0 := by
      rw [seekLimit, ← hmap, ← List.length_nil (α := Byte), List.getD_map]
    have hlimit : (k.dev.buff.entry (k.dev.buff.findEntryAtPosition st.writeCmd.toNat)).size
        = k.seekLimit st.writeCmd.toNat := by
      rw [CircularBuffer.findEntryAtPosition, h.wf.getEntryAtVirtualOffset_eq (by omega),
        h.wf.size_slot, hlimit_eq]
    have hbound : k.seekLimit st.writeCmd.toNat ≤ k.dev.buff.sizes.sum := by
      rw [hlimit_eq]
      by_cases hlt : st.writeCmd.toNat % maxWriteOperations < k.dev.buff.sizes.length
      · rw [List.getD_eq_getElem _ _ hlt]
        exact List.le_sum_of_mem (List.getElem_mem hlt)
      · rw [List.getD_eq_default _ _ (not_lt.mp hlt)]
        exact Nat.zero_le _
    have hle : (k.dev.buff.sizes.take st.writeCmd.toNat).sum ≤ k.dev.buff.sizes.sum :=
      (List.take_sublist _ _).sum_le_sum (fun _ _ => Nat.zero_le _)
    rw [hbase, hlimit, hstart]
    by_cases hoff : st.writeCmdOffset.toNat ≤ k.seekLimit st.writeCmd.toNat
    · rw [if_neg (by omega), if_pos ⟨hcmd, hoff⟩]
      congr 1
      omega
    · rw [if_pos (Or.inr (by omega)), if_neg (fun hand => hoff hand.2)]
  · have hbase :=
      CircularBuffer.findFpos_of_gt (b := k.dev.buff) (n := st.writeCmd.toNat) (by omega)
    rw [hbase, if_pos (Or.inl (by decide)), if_neg (fun hand => hcmd hand.1)]

end Kernel

end Aesd
