import Aesd.Server.Sessions.Protocol

/-!
# The accesses of a thread

What each of the system calls of a thread does to what all threads share, and that the thread may do
it.
-/

namespace Aesd.Sessions

open Exec Threads Threaded

variable {n : ℕ} {cfg : KernelConfig} {w : Workload n} {i : Fin n} {s s' : Shared n}
  {done : List (List Byte)}

lemma nextCall_of_ok {α : Type} {m : Outcomes → Exec Fault System α} {a : α} {system : System}
    (hm : m (s.outcomes.headD {}) s.system = .ok (a, system)) :
    nextCall m s = .ok (a, { s with system, outcomes := s.outcomes.tail }) := by
  simp only [nextCall, hm]

lemma file_ne {j : Fin n} (hj : j ≠ i) : (j : FileId) ≠ i := fun heq => hj (Fin.ext heq)

/-- A call that leaves the lines and the stage as they are. -/
lemma Shared.Inv.call (h : s.Inv cfg w) {system : System} (hsystem : system.Inv cfg)
    (hpos : 0 ≤ system.kernel.dev.lseekPos ∧ system.kernel.dev.lseekPos < 2 ^ 32)
    (hlines : system.kernel.lines = s.system.kernel.lines)
    (hstage : system.kernel.stage = s.system.kernel.stage) :
    Shared.Inv cfg w { s with system, outcomes := s.outcomes.tail } where
  system := hsystem
  lseekPos := hpos
  outcomes := (List.tail_suffix _).trans h.outcomes
  carried := by
    simp only [hlines, hstage]
    exact h.carried
  sound := h.sound
  plan := h.plan
  length_replied := h.length_replied
  replied := h.replied
  exited := h.exited

/-! ### Opening and closing -/

lemma open_returns (h : Knows cfg w i none done s) (held : List ServerMutex) :
    Returns (nextCall fun o => sysCall cfg ⟨i, .open, o⟩) s fun _ s' =>
      Guar cfg w i held s s' ∧ Knows cfg w i (some 0) done s' := by
  have hcall := sysCall_open (c := ⟨i, .open, s.outcomes.headD {}⟩) h.inv.system h.fPos rfl
  have hsystem := (sysCall_inv h.inv.system _).post hcall
  have hinv := fun hs : s.Inv cfg w =>
    Shared.Inv.call hs hsystem hs.lseekPos rfl rfl
  refine ⟨_, _, nextCall_of_ok hcall, ⟨hinv, ?_, fun _ _ => rfl, fun _ => ⟨rfl, rfl, rfl, .inl rfl⟩,
    id⟩, ⟨hinv h.inv, Function.update_self _ _ _, h.done⟩⟩
  intro j hj
  exact Function.update_of_ne (file_ne hj) _ _

lemma close_returns {p : ℤ} (h : Knows cfg w i (some p) done s) (held : List ServerMutex) :
    Returns (nextCall fun o => sysCall cfg ⟨i, .release, o⟩) s fun _ s' =>
      Guar cfg w i held s s' ∧ Knows cfg w i none done s' := by
  have hcall := sysCall_release (c := ⟨i, .release, s.outcomes.headD {}⟩) h.inv.system h.fPos rfl
  have hsystem := (sysCall_inv h.inv.system _).post hcall
  have hinv := fun hs : s.Inv cfg w =>
    Shared.Inv.call hs hsystem ⟨le_rfl, by simp⟩ rfl rfl
  refine ⟨_, _, nextCall_of_ok hcall, ⟨hinv, ?_, fun _ _ => rfl, fun _ => ⟨rfl, rfl, rfl, .inr rfl⟩,
    id⟩, ⟨hinv h.inv, Function.update_self _ _ _, h.done⟩⟩
  intro j hj
  exact Function.update_of_ne (file_ne hj) _ _

/-! ### Reading -/

lemma actualPos_eq {s : System} (hs : s.Inv cfg) {p q : ℕ} {fd : FileId}
    (hp : s.fPos fd = some (p : ℤ)) (hq : s.kernel.dev.lseekPos = q) (hsmall : q < 2 ^ 32) :
    actualPos s.kernel.dev p = p + q := by
  have hbounds := hs.fPos_bounds fd _ hp
  rw [actualPos, addSize, toSize, toSize, hq]
  omega

/-- A read goes on where the file and the device stand together. -/
lemma read_returns {p q : ℕ} (h : Knows cfg w i (some (p : ℤ)) done s)
    (hq : s.system.kernel.dev.lseekPos = q) (held : List ServerMutex) :
    Returns (nextCall (readReply cfg i)) s fun r s' =>
      Guar cfg w i held s s' ∧
      Knows cfg w i (some ((p + r.delivered.length : ℕ) : ℤ)) done s' ∧
      s'.system.kernel = s.system.kernel ∧ Stays s s' ∧
      r.delivered = (s.outcomes.headD {}).brings s.system.kernel.lines (p + q) ∧
      (0 < r.retVal ↔ r.delivered ≠ []) := by
  have hsystem := h.inv.system
  have hsmall : q < 2 ^ 32 := by
    have := h.inv.lseekPos.2
    omega
  have hactual := actualPos_eq hsystem h.fPos hq hsmall
  obtain ⟨r, system, hcall, hkernel, hbrings, hret, ⟨p', hp', hactual'⟩, hothers⟩ :=
    sysCall_read_at hsystem ⟨p, h.fPos, rfl⟩ (s.outcomes.headD {})
  have hsystem' := (sysCall_inv hsystem _).post hcall
  have hinv := fun hs : s.Inv cfg w =>
    Shared.Inv.call hs hsystem' (by rw [hkernel]; exact hs.lseekPos) (by rw [hkernel])
      (by rw [hkernel])
  rw [hactual] at hbrings hactual'
  -- the file moves by what was read
  have hmoved : p' = ((p + r.delivered.length : ℕ) : ℤ) := by
    have hbounds := hsystem'.fPos_bounds _ _ hp'
    have hfile := hsystem.fPos_bounds _ _ h.fPos
    have happend := congrArg List.length
      (brings_append_drop (s.outcomes.headD {}) s.system.kernel.lines (p + q))
    have hcontent := hsystem.kernel.sum_sizes_lt
    rw [← hsystem.kernel.length_content, Kernel.content] at hcontent
    rw [← hbrings, List.length_append, List.length_drop, List.length_drop] at happend
    rw [hkernel, actualPos, addSize, toSize, toSize, hq] at hactual'
    omega
  refine ⟨r, _, nextCall_of_ok hcall, ⟨hinv, fun j hj => hothers j (file_ne hj), fun _ _ => rfl,
    fun _ => ⟨by rw [hkernel], rfl, rfl, .inl (by rw [hkernel])⟩, id⟩,
    ⟨hinv h.inv, hp'.trans (congrArg some hmoved), h.done⟩, hkernel,
    ⟨by rw [hkernel], rfl, rfl, .inl (by rw [hkernel])⟩, hbrings, hret⟩

/-! ### Carrying out a segment -/

lemma Workload.Quiet.headD (h : w.Quiet) {os : List Outcomes} (hos : os <:+ w.outcomes) :
    true ∉ (os.headD {}).allocFails ∧ true ∉ (os.headD {}).interrupted ∧
      (os.headD {}).notCopied = [] := by
  cases os with
  | nil => exact ⟨List.not_mem_nil, List.not_mem_nil, rfl⟩
  | cons o os => exact h o (hos.subset List.mem_cons_self)

/-- A seek command leaves the device at a position of 32 bits. -/
lemma ioctlResult_pos (k : Kernel) (cmd : UInt32) (arg : AesdSeekto)
    (h : 0 ≤ k.dev.lseekPos ∧ k.dev.lseekPos < 2 ^ 32) :
    0 ≤ (k.ioctlResult cmd arg).2 ∧ (k.ioctlResult cmd arg).2 < 2 ^ 32 := by
  rw [Kernel.ioctlResult, Device.seekTarget]
  split_ifs
  · exact h
  · exact h
  · exact h
  · exact h
  · exact ⟨Int.emod_nonneg _ (by decide), Int.emod_lt_of_pos _ (by decide)⟩

/-- What a segment does to the system, and what it comes to. -/
lemma segmentCommand_submit {s : System} (h : s.Inv cfg) {fd : FileId} {p : ℤ}
    (hf : s.fPos fd = some p)
    (hpos : 0 ≤ s.kernel.dev.lseekPos ∧ s.kernel.dev.lseekPos < 2 ^ 32) (c : Carried n) :
    Returns (segmentCommand cfg fd c.segment c.outcomes) s fun command s' =>
      s'.Inv cfg ∧ s'.fPos = s.fPos ∧
      (0 ≤ s'.kernel.dev.lseekPos ∧ s'.kernel.dev.lseekPos < 2 ^ 32) ∧
      c.submit cfg (s.kernel.lines, s.kernel.stage)
        = (decide (command ≠ .failed), s'.kernel.lines, s'.kernel.stage) := by
  obtain ⟨i, seg, o, command⟩ := c
  rw [segmentCommand]
  simp only [Carried.submit]
  cases hseek : findSeek seg.segmentPtr with
  | some seek =>
    have hcall := sysCall_ioctl (c := ⟨fd, .ioctl aesdcharIocseekto seek, o⟩) h hf rfl
    exact .step hcall ⟨_, _, rfl, (sysCall_inv h _).post hcall, rfl, ioctlResult_pos _ _ _ hpos,
      rfl⟩
  | none =>
    obtain ⟨k', hinv, hheld, hout, hpos', hlines, hstage, hcall⟩ :=
      sysCall_write (c := ⟨fd, .write seg.bytes, o⟩) h hf rfl
    refine .step hcall ⟨_, _, rfl, ⟨hinv, hheld, hout, h.fPos_bounds⟩, rfl, by rwa [hpos'], ?_⟩
    rw [if_neg (by simp), hlines, hstage]
    refine Prod.ext ?_ rfl
    have hgoes : ∀ p : Prop, [Decidable p] → decide p
        = decide ((if ¬ p then Commanded.failed else .written) ≠ .failed) := by
      intro p _
      by_cases hp : p <;> simp [hp]
    exact hgoes _

lemma replay_concat {carried : List (Carried n)} {c : Carried n} {oks : List Bool} {ok : Bool}
    {log log' : List (List Byte) × Option (List Byte)} (h : replay cfg carried = (oks, log))
    (hc : c.submit cfg log = (ok, log')) : replay cfg (carried ++ [c]) = (oks ++ [ok], log') := by
  rw [replay] at h ⊢
  rw [Machine.runSpec_concat, h, hc]

lemma carriedBy_concat (s : Shared n) (c : Carried n) (j : Fin n) :
    Shared.carriedBy { s with carried := s.carried ++ [c] } j
      = if c.connection = j then s.carriedBy j ++ [c.segment.bytes] else s.carriedBy j := by
  simp only [Shared.carriedBy, List.filter_append, List.map_append]
  split_ifs with hc <;> simp [hc]

/-- The state after a segment was carried out. -/
def Shared.carry (s : Shared n) (c : Carried n) (system : System) : Shared n :=
  { s with system, outcomes := s.outcomes.tail, carried := s.carried ++ [c] }

lemma Shared.Inv.carry (h : s.Inv cfg w) {c : Carried n} {system : System}
    (hsystem : system.Inv cfg)
    (hpos : 0 ≤ system.kernel.dev.lseekPos ∧ system.kernel.dev.lseekPos < 2 ^ 32)
    (hsubmit : c.submit cfg (s.system.kernel.lines, s.system.kernel.stage)
      = (c.ok, system.kernel.lines, system.kernel.stage))
    (hsound : c.Sound w)
    (hplan : s.carriedBy c.connection ++ [c.segment.bytes] <+: w.plan c.connection) :
    (s.carry c system).Inv cfg w where
  system := hsystem
  lseekPos := hpos
  outcomes := (List.tail_suffix _).trans h.outcomes
  carried := by
    rw [Shared.carry]
    dsimp only
    rw [replay_concat (c := c) h.carried hsubmit, List.map_append]
    rfl
  sound := by
    intro c' hc'
    rcases List.mem_append.mp hc' with hc' | hc'
    · exact h.sound c' hc'
    · rw [List.mem_singleton.mp hc']
      exact hsound
  plan := by
    intro j
    have hmine : (s.carry c system).carriedBy j
        = if c.connection = j then s.carriedBy j ++ [c.segment.bytes] else s.carriedBy j :=
      carriedBy_concat s c j
    rw [hmine]
    split_ifs with hj
    · subst hj
      exact hplan
    · exact h.plan j
  length_replied := by
    rw [Shared.carry]
    dsimp only
    rw [List.length_append]
    exact h.length_replied.trans (Nat.le_add_right _ _)
  replied := by
    intro k x hx
    have hk : k < s.replied.length := (List.getElem?_eq_some_iff.mp hx).1
    have hle := h.length_replied
    rw [Shared.carry]
    dsimp only
    rw [List.take_append_of_le_length (by omega)]
    exact h.replied k x hx
  exited := by
    intro hexited
    obtain ⟨c', hc', hok⟩ := h.exited hexited
    exact ⟨c', List.mem_append_left _ hc', hok⟩

/-- A segment is carried out, and the reply to it has not begun. -/
lemma carryOut_returns {p : ℤ} (h : Knows cfg w i (some p) done s) {seg : Segment}
    (hsize : seg.bytes.length = seg.segmentLen) (hplan : done ++ [seg.bytes] <+: w.plan i)
    {held : List ServerMutex} (hheld : .fileMutex ∈ held) :
    Returns (carryOut cfg i seg) s fun r s' =>
      Guar cfg w i held s s' ∧ Knows cfg w i (some p) (done ++ [seg.bytes]) s' ∧
      r.2 = s'.server ∧ s'.replied = s.replied ∧
      ∃ o, s'.carried = s.carried ++ [⟨i, seg, o, r.1⟩] := by
  obtain ⟨command, system, hcommand, hsystem, hfPos, hpos, hsubmit⟩ :=
    segmentCommand_submit h.inv.system h.fPos h.inv.lseekPos
      (⟨i, seg, s.outcomes.headD {}, .written⟩ : Carried n)
  set c : Carried n := ⟨i, seg, s.outcomes.headD {}, command⟩ with hc
  have hmine : ∀ j, (s.carry c system).carriedBy j
      = if i = j then s.carriedBy j ++ [seg.bytes] else s.carriedBy j := carriedBy_concat s c
  have hinv : (s.carry c system).Inv cfg w := by
    apply h.inv.carry hsystem hpos hsubmit
    · refine ⟨hsize, fun hquiet => ?_⟩
      obtain ⟨halloc, hint, -⟩ := hquiet.headD h.inv.outcomes
      exact ⟨halloc, hint⟩
    · rw [h.done]
      exact hplan
  refine ⟨(command, (s.carry c system).server), s.carry c system, ?_,
    ⟨fun _ => hinv, ?_, ?_, fun hnot => absurd hheld hnot, id⟩, ⟨hinv, ?_, ?_⟩, rfl, rfl, _, rfl⟩
  · rw [carryOut, read_bind_apply, bind_ok (nextCall_of_ok hcommand)]
    rfl
  · intro j _
    exact congrFun hfPos _
  · intro j hj
    rw [hmine, if_neg hj.symm]
  · exact (congrFun hfPos _).trans h.fPos
  · rw [hmine, if_pos rfl, h.done]

/-! ### Updating the record -/

/-- The reply to the last segment was sent. -/
lemma reply_returns {fPos : Option ℤ} (h : Knows cfg w i fPos done s)
    (hreplied : s.replied.length + 1 = s.carried.length) {x : Fin n × Served}
    (hx : Explains cfg w s.carried x) {held : List ServerMutex} (hheld : .fileMutex ∈ held) :
    Guar cfg w i held s { s with replied := s.replied ++ [x] } ∧
      Knows cfg w i fPos done { s with replied := s.replied ++ [x] } := by
  have hinv : Shared.Inv cfg w { s with replied := s.replied ++ [x] } :=
    { h.inv with
      length_replied := by
        dsimp only
        rw [List.length_append, List.length_singleton, hreplied]
      replied := by
        intro k y hy
        dsimp only at hy ⊢
        rcases Nat.lt_or_ge k s.replied.length with hlt | hge
        · rw [List.getElem?_append_left hlt] at hy
          exact h.inv.replied k y hy
        · rw [List.getElem?_append_right hge, List.getElem?_singleton] at hy
          split_ifs at hy with hk
          obtain rfl := Option.some.inj hy
          rwa [List.take_of_length_le (by omega)] }
  exact ⟨⟨fun _ => hinv, fun _ _ => rfl, fun _ _ => rfl, fun hnot => absurd hheld hnot, id⟩,
    hinv, h.fPos, h.done⟩

/-- The process exits, after a segment that was not written as a whole. -/
lemma exit_returns {fPos : Option ℤ} (h : Knows cfg w i fPos done s) {c : Carried n}
    (hc : c ∈ s.carried) (hok : c.ok = false) (held : List ServerMutex) :
    Guar cfg w i held s { s with exited := true } := by
  have hinv : Shared.Inv cfg w { s with exited := true } :=
    { h.inv with exited := fun _ => ⟨c, hc, hok⟩ }
  exact ⟨fun _ => hinv, fun _ _ => rfl, fun _ _ => rfl, fun _ => ⟨rfl, rfl, rfl, .inl rfl⟩,
    fun _ => rfl⟩

end Aesd.Sessions
