import Aesd.Driver.Concurrent.Writer
import Aesd.Driver.Device.Calls

/-!
# The calls of a task

Each file operation keeps to the agreement of the tasks, whatever the others do in between, and what
it returns is explained by the lines that were flushed when it had its mutex.
-/

namespace Aesd.Concurrent

open Exec Threads

variable {T : Type} [DecidableEq T] {cfg : KernelConfig} {calls : T → List DriverCall} {t : T}
  {α β : Type}

/-! ### What a task knows later -/

/-- A later state, in which the record of the writes and the calls of task `t` is the same. -/
structure Later (cfg : KernelConfig) (t : T) (s u : Shared T) : Prop where
  servedTo : u.servedTo t = s.servedTo t
  madeBy : u.madeBy t = s.madeBy t
  added : s.added <+: u.added
  size : s.dev.entry.size = cfg.kmallocMaxSize → u.dev.entry.size = cfg.kmallocMaxSize

section Later

variable {s u w : Shared T} {held : List DevMutex}

lemma Later.refl (s : Shared T) : Later cfg t s s := ⟨rfl, rfl, List.prefix_refl _, id⟩

lemma Later.trans (h : Later cfg t s u) (h' : Later cfg t u w) : Later cfg t s w :=
  ⟨h'.servedTo.trans h.servedTo, h'.madeBy.trans h.madeBy, h.added.trans h'.added,
    fun hs => h'.size (h.size hs)⟩

lemma later_of_rely (h : (protocol cfg calls).Rely t held s u) : Later cfg t s u := by
  refine ⟨Rely.servedTo h, Rely.madeBy h, Rely.added h, fun hs => ?_⟩
  refine h.invariant (I := fun w => w.dev.entry.size = cfg.kmallocMaxSize) ?_ hs
  intro v held' w w' _ _ hguar hw
  rcases hguar.size with heq | heq
  · exact heq.trans hw
  · exact heq

end Later

/-! ### One access -/

variable {s : Shared T} {held : List DevMutex} {m : KernelM α} {a : α} {k' : Kernel}

lemma Later.put (hsize : k'.dev.entry.size = s.dev.entry.size) : Later cfg t s (s.put t k') :=
  ⟨rfl, rfl, List.prefix_refl _, fun hs => hsize.trans hs⟩

lemma onKernel_of_ok (hm : m (s.kernel t []) = .ok (a, k')) :
    onKernel t m s = .ok (a, s.put t k') := by
  simp only [onKernel, hm]

/-- An access that leaves the stage, the ring and the heap alone. -/
lemma Guar.put (hheap : k'.heap = s.heap) (hbuff : k'.dev.buff = s.dev.buff)
    (hbuffPtr : k'.dev.entry.buffPtr = s.dev.entry.buffPtr)
    (hendIdx : k'.dev.entry.endIdx = s.dev.entry.endIdx)
    (hsize : k'.dev.entry.size = s.dev.entry.size ∨ k'.dev.entry.size = cfg.kmallocMaxSize)
    (hbounds : -2 ^ 63 ≤ s.dev.lseekPos ∧ s.dev.lseekPos < 2 ^ 63 →
      -2 ^ 63 ≤ k'.dev.lseekPos ∧ k'.dev.lseekPos < 2 ^ 63)
    (hpos : .buffMutex ∉ held → k'.dev.lseekPos = s.dev.lseekPos ∨ k'.dev.lseekPos = 0) :
    Guar cfg calls t held s (s.put t k') where
  outcomes _ hv := Function.update_of_ne hv _ _
  size := hsize
  bounds := hbounds
  lseekPos := hpos
  stage _ := ⟨hbuffPtr, hendIdx, hheap, rfl⟩
  ring _ := by
    refine ⟨hbuff, rfl, fun h => ⟨?_, ?_⟩⟩
    · have hptrs : k'.dev.ptrs = s.dev.ptrs := by simp only [Device.ptrs, hbuffPtr, hbuff]
      exact { wf := by simp only [Shared.core, Shared.put, hbuff]; exact h.wf
              owns := by simp only [Shared.core, Shared.put, hptrs, hheap]; exact h.owns
              entries := by simp only [Shared.core, Shared.put, hbuff]; exact h.entries
              endIdx_le := by simp only [Shared.core, Shared.put, hendIdx]; exact h.endIdx_le
              endIdx_eq := by
                simp only [Shared.core, Shared.put, hbuffPtr, hendIdx]
                exact h.endIdx_eq
              lseekPos_bounds := hbounds h.lseekPos_bounds }
    · simp only [Kernel.lines, Shared.core, Shared.put, hbuff, hheap]
  added := List.prefix_refl _
  served _ _ := rfl
  madeBy _ _ := rfl
  history h := h.of_made_eq rfl (List.prefix_refl _)

/-! ### Locking and unlocking -/

section Lock

variable {mutex : DevMutex} {Q : List DevMutex → β → Shared T → Prop} {u : Shared T}

lemma Rely.free (h : (protocol cfg calls).Rely t held s u) (hheld : mutex ∈ held)
    (hs : Free cfg mutex s) : Free cfg mutex u := by
  refine h.invariant (I := Free cfg mutex) ?_ hs
  intro v held' w w' _ hdisjoint hguar hw
  exact hguar.free (fun hmem => hdisjoint hmem hheld) hw

/-- The wait for a mutex is interrupted, or the mutex is free. -/
lemma lock_ok {f : Bool → TaskM T β}
    (htrue : (s.outcomes t).interrupted.headD false = true → ∀ u, Later cfg t s u →
      (f true).Ok (protocol cfg calls) t Q [] u)
    (hfalse : (s.outcomes t).interrupted.headD false = false → ∀ u, Later cfg t s u →
      u.outcomes t = { s.outcomes t with interrupted := (s.outcomes t).interrupted.tail } →
      Free cfg mutex u → (f false).Ok (protocol cfg calls) t Q [mutex] u) :
    (mutexLockInterruptible t mutex >>= f).Ok (protocol cfg calls) t Q [] s := by
  refine Prog.Ok.bind (Q := fun held' b u => Later cfg t s u ∧
    (b = true ∧ held' = [] ∧ (s.outcomes t).interrupted.headD false = true ∨
      b = false ∧ held' = [mutex] ∧ (s.outcomes t).interrupted.headD false = false ∧
        u.outcomes t = { s.outcomes t with interrupted := (s.outcomes t).interrupted.tail } ∧
        Free cfg mutex u)) ?_ ?_
  · rw [mutexLockInterruptible]
    refine Prog.Ok.step_bind fun u hu => ⟨_, _, onKernel_of_ok rfl, ?_, ?_⟩
    · exact .put rfl rfl rfl rfl (.inl rfl) id fun _ => .inl rfl
    have hout : u.outcomes t = s.outcomes t := Rely.outcomes hu
    have hlater : Later cfg t s u := later_of_rely hu
    have hput : ∀ k' : Kernel, k'.dev.entry.size = u.dev.entry.size →
        Later cfg t s (u.put t k') := fun _ hsize => hlater.trans (.put hsize)
    simp only [Shared.kernel, hout]
    cases hi : (s.outcomes t).interrupted.headD false with
    | true =>
      intro w hw
      exact ⟨(hput _ rfl).trans (later_of_rely hw), .inl ⟨rfl, rfl, rfl⟩⟩
    | false =>
      refine ⟨by simp, fun w hw hfree x hx => ⟨?_, .inr ⟨rfl, rfl, rfl, ?_, ?_⟩⟩⟩
      · exact (hput _ rfl).trans ((later_of_rely hw).trans (later_of_rely hx))
      · rw [Rely.outcomes hx, Rely.outcomes hw]
        simp only [Shared.put, Function.update_self]
      · exact Rely.free hx (by simp) hfree
  · rintro held' b u ⟨hlater, ⟨rfl, rfl, hi⟩ | ⟨rfl, rfl, hi, hout, hfree⟩⟩
    · exact htrue hi u hlater
    · exact hfalse hi u hlater hout hfree

end Lock

/-- Task `t` holds the buffer mutex, and the lines `now` have been flushed. -/
structure Holding (cfg : KernelConfig) (t : T) (s : Shared T) (now : List (List Byte))
    (u : Shared T) : Prop where
  free : Free cfg .buffMutex u
  added : u.added = now
  later : Later cfg t s u

namespace Holding

variable {now : List (List Byte)} {u w : Shared T}

lemma inv (h : Holding cfg t s now u) : u.core.Inv cfg := h.free.1

lemma lines (h : Holding cfg t s now u) : u.core.lines = now.rtake maxWriteOperations :=
  h.free.2.trans (by rw [h.added])

lemma rely (h : Holding cfg t s now u) (hw : (protocol cfg calls).Rely t [.buffMutex] u w) :
    Holding cfg t s now w where
  free := Rely.free hw (List.mem_singleton_self _) h.free
  added := (Rely.ring hw (List.mem_singleton_self _) h.inv).2.1.trans h.added
  later := h.later.trans (later_of_rely hw)

lemma put (h : Holding cfg t s now u) (hguar : Guar cfg calls t [.buffMutex] u (u.put t k'))
    (hsize : k'.dev.entry.size = u.dev.entry.size) : Holding cfg t s now (u.put t k') := by
  obtain ⟨-, -, hring⟩ := hguar.ring (.inl (by simp))
  obtain ⟨hinv, hlines⟩ := hring h.inv
  exact ⟨⟨hinv, hlines.trans h.free.2⟩, h.added, h.later.trans (.put hsize)⟩

lemma release {Q : List DevMutex → β → Shared T → Prop} {b : β} (h : Holding cfg t s now u)
    (hQ : ∀ w, Later cfg t s w → now <+: w.added → Q [] b w) :
    (Prog.release .buffMutex >>= fun _ => pure b : TaskM T β).Ok (protocol cfg calls) t Q
      [.buffMutex] u := by
  refine ⟨List.mem_singleton_self _, fun w hw => ⟨(h.rely hw).free, fun x hx => ?_⟩⟩
  refine hQ x ((h.rely hw).later.trans (later_of_rely hx)) ?_
  rw [← (h.rely hw).added]
  exact Rely.added hx

end Holding

/-! ### What a call does -/

/-- The write of a call, if it had the entry mutex. -/
def DriverCall.served (t : T) (c : DriverCall) (r : Reply) : List (ServedWrite T) :=
  match c.op with
  | .write data =>
    if c.outcomes.interrupted.headD false then [] else [⟨t, data, c.outcomes, r.retVal⟩]
  | _ => []

/-- Task `t` has made call `c` in state `s`. -/
structure Made (cfg : KernelConfig) (t : T) (c : DriverCall) (s : Shared T) (r : Reply)
    (s' : Shared T) : Prop where
  returned : c.Returned cfg r s.added s'.added
  added : s.added <+: s'.added
  servedTo : s'.servedTo t = s.servedTo t ++ c.served t r
  madeBy : s'.madeBy t = s.madeBy t

variable {c : DriverCall}

lemma Made.later {r : Reply} {s' s'' : Shared T} (h : Made cfg t c s r s')
    (hlater : Later cfg t s' s'') : Made cfg t c s r s'' where
  returned := h.returned.mono (List.prefix_refl _) hlater.added
  added := h.added.trans hlater.added
  servedTo := hlater.servedTo.trans h.servedTo
  madeBy := hlater.madeBy.trans h.madeBy

/-- A call that is answered by the lines of a moment. -/
lemma Made.of_answers {r : Reply} {s' : Shared T} {now : List (List Byte)}
    (hlater : Later cfg t s s') (hbefore : s.added <+: now) (hafter : now <+: s'.added)
    (hanswers : c.Answers cfg now now r)
    (hi : (c.locks && c.outcomes.interrupted.headD false) = false) (hserved : c.served t r = []) :
    Made cfg t c s r s' := by
  refine ⟨?_, hlater.added, ?_, hlater.madeBy⟩
  · rw [DriverCall.Returned, if_neg (by rw [hi]; simp)]
    exact ⟨now, now, hbefore, List.prefix_refl _, hafter, hanswers⟩
  · rw [hserved, List.append_nil, hlater.servedTo]

lemma Made.of_interrupted {s' : Shared T} (hlater : Later cfg t s s') (hlocks : c.locks = true)
    (hi : c.outcomes.interrupted.headD false = true)
    (hserved : c.served t ⟨-ERESTARTSYS, []⟩ = []) : Made cfg t c s ⟨-ERESTARTSYS, []⟩ s' := by
  refine ⟨?_, hlater.added, ?_, hlater.madeBy⟩
  · rw [DriverCall.Returned, if_pos (by rw [hlocks, hi]; rfl)]
  · rw [hserved, List.append_nil, hlater.servedTo]

/-- A file operation, and the answer made of what it returns. -/
lemma ok_pure {p : TaskM T α} {f : α → Reply}
    (h : p.Ok (protocol cfg calls) t (fun held a s' => held = [] ∧ Made cfg t c s (f a) s') [] s) :
    (p >>= fun a => pure (f a)).Ok (protocol cfg calls) t
      (fun held r s' => held = [] ∧ Made cfg t c s r s') [] s := by
  refine h.bind ?_
  rintro held a s' ⟨rfl, hmade⟩ w hw
  exact ⟨rfl, hmade.later (later_of_rely hw)⟩

/-! ### Seeking and releasing -/

lemma aesdRelease_ok (hop : c.op = .release) :
    (aesdRelease t).Ok (protocol cfg calls) t
      (fun held ret s' => held = [] ∧ Made cfg t c s ⟨ret, []⟩ s') [] s := by
  refine Prog.Ok.step_bind fun u hu => ⟨_, _, onKernel_of_ok rfl, ?_, fun w hw => ⟨rfl, ?_⟩⟩
  · exact .put rfl rfl rfl rfl (.inl rfl) (fun _ => by simp) fun _ => .inr rfl
  · have hlater := ((later_of_rely hu).trans (Later.put rfl)).trans (later_of_rely hw)
    refine .of_answers hlater (List.prefix_refl _) hlater.added ?_ ?_ ?_
    · simp only [DriverCall.Answers, hop]
    · simp only [DriverCall.locks, hop, Bool.false_and]
    · simp only [DriverCall.served, hop]

/-- What a file that is released in between does to a position. -/
lemma SeekedTo.of_release {lines : List (List Byte)} {off whence p q : ℤ}
    (h : SeekedTo lines off whence p) (hq : q = p ∨ q = 0) : SeekedTo lines off whence q := by
  rcases hq with rfl | rfl
  · exact h
  · exact .inl rfl

/-- A seek whose position is worked out on the ring of a device, at any position of it. -/
lemma seekedTo_seekPos {k : Kernel} (h : k.Inv cfg) {off whence : ℤ} (hcur : whence ≠ SEEK_CUR) :
    SeekedTo k.lines off whence (seekPos k.dev (toLoff off) whence) := by
  refine .inr ?_
  have hsum := h.sum_sizes_lt
  have hlen := h.length_content
  rw [Kernel.content] at hlen
  split_ifs with hset
  · rw [seekPos, if_pos hset]
  · intro hend
    have hsize := h.wf.getSize_eq (by omega)
    rw [seekPos, if_neg hset, if_neg hcur, if_pos hend, hsize, hlen]
    exact toLoff_of_bounds (by omega) (by omega)

lemma movePosition_ok {now : List (List Byte)} {u : Shared T} (hold : Holding cfg t s now u)
    (off whence : ℤ) :
    (movePosition t (toLoff off) whence).Ok (protocol cfg calls) t (fun held _ w =>
      held = [.buffMutex] ∧ Holding cfg t s now w ∧
        SeekedTo (now.rtake maxWriteOperations) off whence w.dev.lseekPos) [.buffMutex] u := by
  rw [movePosition]
  split_ifs with hknown
  · refine Prog.Ok.step_bind fun u₁ hu₁ => ?_
    have hold₁ := hold.rely hu₁
    have hlook : Guar cfg calls t [.buffMutex] u₁ (u₁.put t (u₁.kernel t [])) :=
      .put rfl rfl rfl rfl (.inl rfl) id fun _ => .inl rfl
    refine ⟨_, _, onKernel_of_ok rfl, hlook, Prog.Ok.step fun u₂ hu₂ => ?_⟩
    have hset : Guar cfg calls t [.buffMutex] u₂
        (u₂.put t ((u₂.kernel t []).seekTo (seekPos u₁.dev (toLoff off) whence))) :=
      .put rfl rfl rfl rfl (.inl rfl) (fun _ => seekPos_bounds hold₁.inv.lseekPos_bounds _ _)
        fun hnot => absurd (by simp) hnot
    have hold₂ := ((hold₁.put hlook rfl).rely hu₂).put hset rfl
    refine ⟨_, _, onKernel_of_ok rfl, hset, fun w hw => ⟨rfl, hold₂.rely hw, ?_⟩⟩
    -- the position is still there, or a file was released in between
    have hpos := (Rely.ring hw (by simp) hold₂.inv).2.2.2.2
    refine SeekedTo.of_release (p := seekPos u₁.dev (toLoff off) whence) ?_ hpos
    by_cases hcur : whence = SEEK_CUR
    · exact .inr (by rw [hcur]; simp [SEEK_SET, SEEK_CUR, SEEK_END])
    · rw [← hold₁.lines]
      exact seekedTo_seekPos hold₁.inv hcur
  · -- of an unknown `whence` nothing is promised
    simp only [not_or] at hknown
    refine fun w hw => ⟨rfl, hold.rely hw, .inr ?_⟩
    rw [if_neg hknown.1]
    exact fun hend => absurd hend hknown.2.2

lemma aesdLlseek_ok {off whence : ℤ} (hop : c.op = .llseek off whence)
    (hout : s.outcomes t = c.outcomes) :
    (aesdLlseek t (toLoff off) whence).Ok (protocol cfg calls) t
      (fun held ret s' => held = [] ∧ Made cfg t c s ⟨ret, []⟩ s') [] s := by
  have hserved : ∀ r, c.served t r = [] := fun r => by simp only [DriverCall.served, hop]
  have hlocks : c.locks = true := by simp only [DriverCall.locks, hop]
  rw [aesdLlseek]
  refine lock_ok (fun hi u hu w hw => ⟨rfl, ?_⟩) fun hi u hu hout' hfree => ?_
  · rw [hout] at hi
    exact .of_interrupted (hu.trans (later_of_rely hw)) hlocks hi (hserved _)
  rw [hout] at hi
  simp only [Bool.false_eq_true, if_false]
  have hold : Holding cfg t s u.added u := ⟨hfree, rfl, hu⟩
  refine (movePosition_ok hold off whence).bind ?_
  rintro held ⟨⟩ u₁ ⟨rfl, hold₁, hseeked⟩
  refine Prog.Ok.step_bind fun u₂ hu₂ => ?_
  have hold₂ := hold₁.rely hu₂
  have hlook : Guar cfg calls t [.buffMutex] u₂ (u₂.put t (u₂.kernel t [])) :=
    .put rfl rfl rfl rfl (.inl rfl) id fun _ => .inl rfl
  refine ⟨_, _, onKernel_of_ok rfl, hlook, ?_⟩
  refine (hold₂.put hlook rfl).release fun w hw hnow => ⟨rfl, ?_⟩
  refine .of_answers hw hu.added hnow ?_ (by rw [hi, Bool.and_false]) (hserved _)
  have hpos := (Rely.ring hu₂ (by simp) hold₁.inv).2.2.2.2
  simp only [DriverCall.Answers, hop, true_and]
  exact hseeked.of_release hpos

lemma seekLocked_ok {now : List (List Byte)} {u : Shared T} (hold : Holding cfg t s now u)
    (arg : AesdSeekto) :
    (seekLocked t arg).Ok (protocol cfg calls) t (fun held r w => held = [.buffMutex] ∧
      Holding cfg t s now w ∧ ∃ k : Kernel, k.Inv cfg ∧ k.lines = now.rtake maxWriteOperations ∧
        r = if k.dev.seekTarget arg = none then -EINVAL else 0) [.buffMutex] u := by
  rw [seekLocked]
  refine Prog.Ok.step_bind fun u₁ hu₁ => ?_
  have hold₁ := hold.rely hu₁
  have hlook : Guar cfg calls t [.buffMutex] u₁ (u₁.put t (u₁.kernel t [])) :=
    .put rfl rfl rfl rfl (.inl rfl) id fun _ => .inl rfl
  have hold₂ := hold₁.put hlook rfl
  refine ⟨_, _, onKernel_of_ok rfl, hlook, ?_⟩
  dsimp only [Shared.kernel_dev]
  split_ifs with hbase hsize
  · have hnone : u₁.core.dev.seekTarget arg = none := if_pos (Or.inl hbase)
    exact fun w hw => ⟨rfl, hold₂.rely hw, u₁.core, hold₁.inv, hold₁.lines, (if_pos hnone).symm⟩
  · have hnone : u₁.core.dev.seekTarget arg = none := if_pos (Or.inr hsize)
    exact fun w hw => ⟨rfl, hold₂.rely hw, u₁.core, hold₁.inv, hold₁.lines, (if_pos hnone).symm⟩
  · have hsome : u₁.core.dev.seekTarget arg ≠ none := by
      rw [Device.seekTarget]
      refine ne_of_eq_of_ne (if_neg (not_or.mpr ⟨hbase, hsize⟩)) (Option.some_ne_none _)
    refine Prog.Ok.step_bind fun u₂ hu₂ => ?_
    have hset : Guar cfg calls t [.buffMutex] u₂ (u₂.put t ((u₂.kernel t []).seekTo
        ((u₁.dev.buff.findFposForVirtualEntryOffset arg.writeCmd.toNat
          + arg.writeCmdOffset.toNat) % 2 ^ 32))) :=
      .put rfl rfl rfl rfl (.inl rfl) (fun _ => by rw [Kernel.seekTo_lseekPos]; omega)
        fun hnot => absurd (by simp) hnot
    have hold₃ := (hold₂.rely hu₂).put hset rfl
    refine ⟨_, _, onKernel_of_ok rfl, hset, fun w hw => ⟨rfl, hold₃.rely hw, u₁.core, hold₁.inv,
      hold₁.lines, (if_neg hsome).symm⟩⟩

/-- Where a seek command is accepted. -/
lemma answer_of_seekTarget {now : List (List Byte)} {k : Kernel} (h : k.Inv cfg)
    (hlines : k.lines = now.rtake maxWriteOperations) (hsmall : 10 * cfg.kmallocMaxSize < 2 ^ 31)
    (arg : AesdSeekto) :
    (if k.dev.seekTarget arg = none then -EINVAL else 0) =
      if arg.writeCmd.toNat ≤ (now.rtake maxWriteOperations).length ∧ arg.writeCmdOffset.toNat ≤
        ((now.rtake maxWriteOperations).getD (arg.writeCmd.toNat % maxWriteOperations) []).length
      then 0 else -EINVAL := by
  rw [h.seekTarget_eq hsmall, Kernel.seekLimit, hlines]
  split_ifs <;> simp_all

lemma aesdIoctl_ok {cmd : UInt32} {arg : AesdSeekto} (hop : c.op = .ioctl cmd arg)
    (hout : s.outcomes t = c.outcomes) :
    (aesdIoctl t cmd arg).Ok (protocol cfg calls) t
      (fun held ret s' => held = [] ∧ Made cfg t c s ⟨ret, []⟩ s') [] s := by
  have hserved : ∀ r, c.served t r = [] := fun r => by simp only [DriverCall.served, hop]
  by_cases hcmd : cmd = aesdcharIocseekto
  · have hvalid : ¬ (iocType cmd ≠ aesdIocMagic ∨ iocNr cmd > aesdcharIocMaxnr) := by
      rw [hcmd]
      decide
    rw [aesdIoctl, if_neg hvalid, if_pos hcmd]
    refine Prog.Ok.step_bind fun u hu => ?_
    have hlater := later_of_rely hu
    have hout' : u.outcomes t = c.outcomes := (Rely.outcomes hu).trans hout
    refine ⟨_, _, onKernel_of_ok rfl, .put rfl rfl rfl rfl (.inl rfl) id fun _ => .inl rfl, ?_⟩
    simp only [Shared.kernel, hout']
    cases hf : c.outcomes.copyFails.headD false with
    | true =>
      intro w hw
      have hw' := (hlater.trans (.put rfl)).trans (later_of_rely hw)
      refine ⟨rfl, .of_answers hw' (List.prefix_refl _) hw'.added ?_ ?_ (hserved _)⟩
      · simp only [DriverCall.Answers, hop, hf, hcmd]
        simp
      · simp only [DriverCall.locks, hop, hf, hcmd]
        simp
    | false =>
      have hlocks : c.locks = true := by
        simp only [DriverCall.locks, hop, hf, hcmd]
        rfl
      refine lock_ok (fun hi u₁ hu₁ w hw => ⟨rfl, ?_⟩) fun hi u₁ hu₁ _ hfree => ?_
      · simp only [Shared.put, Function.update_self] at hi
        have hw' := (hlater.trans (.put rfl)).trans (hu₁.trans (later_of_rely hw))
        exact .of_interrupted hw' hlocks hi (hserved _)
      · simp only [Shared.put, Function.update_self] at hi
        have hu₁' := (hlater.trans (.put rfl)).trans hu₁
        have hold : Holding cfg t s u₁.added u₁ := ⟨hfree, rfl, hu₁'⟩
        refine (seekLocked_ok hold arg).bind ?_
        rintro held r u₂ ⟨rfl, hold₂, k, hinv, hlines, rfl⟩
        refine hold₂.release fun w hw hnow => ⟨rfl, ?_⟩
        refine .of_answers hw hu₁'.added hnow ?_ (by rw [hi, Bool.and_false]) (hserved _)
        simp only [DriverCall.Answers, hop, hf, hcmd, ne_eq, not_true_eq_false, if_false,
          Bool.false_eq_true, true_and]
        exact fun hsmall => answer_of_seekTarget hinv hlines hsmall arg
  · have hret : aesdIoctl t cmd arg = pure (-ENOTTY) := by
      rw [aesdIoctl, if_neg hcmd, ite_self]
    rw [hret]
    intro w hw
    have hw' : Later cfg t s w := later_of_rely hw
    refine ⟨rfl, .of_answers hw' (List.prefix_refl _) hw'.added ?_ ?_ (hserved _)⟩
    · simp only [DriverCall.Answers, hop, ne_eq, hcmd, not_false_iff, if_true, and_self]
    · simp only [DriverCall.locks, hop, hcmd, decide_false, Bool.false_and]

/-! ### Reading -/

lemma blind_copyToUser (ptr : Option Ptr) (offset n : ℕ) : Blind (copyToUser ptr offset n) := by
  intro p held k
  cases ptr with
  | none => rfl
  | some q =>
    simp only [copyToUser, placed]
    cases k.heap.block q with
    | none => rfl
    | some b =>
      dsimp only
      split_ifs <;> rfl

lemma copyToUser_result {ptr : Option Ptr} {offset n : ℕ} {k : Kernel} {r : ℕ × List Byte}
    (h : copyToUser ptr offset n k = .ok (r, k')) :
    k' = { k with outcomes.notCopied := k.outcomes.notCopied.tail } := by
  cases ptr with
  | none => cases h
  | some q =>
    cases hb : k.heap.block q with
    | none =>
      simp only [copyToUser, hb] at h
      cases h
    | some b =>
      simp only [copyToUser, hb] at h
      split_ifs at h
      cases h
      rfl

/-- What is copied from an entry that was located with another position, while the ring is the same:
what a read at that position delivers. -/
lemma copy_of_located {k : Kernel} (hinv : k.Inv cfg) {pos fPos : ℤ}
    (hpos : -2 ^ 63 ≤ pos ∧ pos < 2 ^ 63) (hf : -2 ^ 63 ≤ fPos ∧ fPos < 2 ^ 63) (count : ℕ)
    {entryPtr : Fin maxWriteOperations} {entryOffset : ℕ}
    (hfind : k.dev.buff.findEntryOffsetForFpos (actualPos (k.seekTo pos).dev fPos) 0
      = (some entryPtr, entryOffset)) :
    let entrySize := subSize (k.dev.buff.entry entryPtr).size entryOffset
    let sizeToRead := if entrySize < count then entrySize else count
    ∃ notCopied data,
      copyToUser (k.dev.buff.entry entryPtr).buffptr entryOffset sizeToRead k
        = .ok ((notCopied, data), { k with outcomes.notCopied := k.outcomes.notCopied.tail }) ∧
      data = (k.seekTo pos).delivery count fPos ∧
      toLoff (subSize sizeToRead notCopied) = ((k.seekTo pos).delivery count fPos).length := by
  intro entrySize sizeToRead
  have hinv' : (k.seekTo pos).Inv cfg := { hinv with lseekPos_bounds := hpos }
  obtain ⟨r, k', hread, -, -, -, hr⟩ := readLocked_spec hinv' count hf
  have hfind' : (k.seekTo pos).dev.buff.findEntryOffsetForFpos (actualPos (k.seekTo pos).dev fPos) 0
      = (some entryPtr, entryOffset) := hfind
  rw [Aesd.readLocked, read_bind_apply, hfind'] at hread
  obtain ⟨⟨notCopied, data⟩, k₁, hcopy, hread⟩ := of_bind_ok hread
  have hcopy' := (blind_copyToUser _ _ _).apply hcopy k.dev.lseekPos k.held
  rw [copyToUser_result hcopy] at hcopy'
  dsimp only at hread
  rw [pure_apply, hr] at hread
  obtain ⟨hret, -, hdata, -⟩ :=
    (ReadResult.mk.injEq _ _ _ _ _ _ _ _).mp (Prod.mk.inj (Except.ok.inj hread)).1
  exact ⟨notCopied, data, hcopy', hdata, hret⟩

lemma readLocked_ok {now : List (List Byte)} {u : Shared T} (hold : Holding cfg t s now u)
    (count : ℕ) {fPos : ℤ} (hf : -2 ^ 63 ≤ fPos ∧ fPos < 2 ^ 63) :
    (readLocked t count fPos).Ok (protocol cfg calls) t (fun held (r : ReadResult) w =>
      held = [.buffMutex] ∧ Holding cfg t s now w ∧ ∃ k : Kernel,
        k.lines = now.rtake maxWriteOperations ∧ k.outcomes.notCopied = (u.outcomes t).notCopied ∧
        r.data = k.delivery count fPos ∧ r.retVal = (k.delivery count fPos).length)
      [.buffMutex] u := by
  rw [readLocked]
  refine Prog.Ok.step_bind fun u₁ hu₁ => ?_
  have hold₁ := hold.rely hu₁
  have hlook : Guar cfg calls t [.buffMutex] u₁ (u₁.put t (u₁.kernel t [])) :=
    .put rfl rfl rfl rfl (.inl rfl) id fun _ => .inl rfl
  have hold₂ := hold₁.put hlook rfl
  refine ⟨_, _, onKernel_of_ok rfl, hlook, ?_⟩
  dsimp only [Shared.kernel_dev]
  cases hfind : u₁.dev.buff.findEntryOffsetForFpos (actualPos u₁.dev fPos) 0 with
  | mk entry entryOffset =>
    cases entry with
    | none =>
      have hinv := Shared.inv_kernel hold₁.inv t []
      have hread : Aesd.readLocked count fPos (u₁.kernel t [])
          = .ok (⟨0, fPos, [], none⟩, u₁.kernel t []) := by
        simp only [Aesd.readLocked, read_bind_apply, Shared.kernel_dev, hfind, pure_apply]
      obtain ⟨-, -, -, hr⟩ := (readLocked_spec hinv count hf).post hread
      obtain ⟨hret, -, hdata, -⟩ := (ReadResult.mk.injEq _ _ _ _ _ _ _ _).mp hr
      refine fun w hw => ⟨rfl, hold₂.rely hw, u₁.kernel t [], hold₁.lines, ?_, hdata, hret⟩
      rw [← Rely.outcomes hu₁]
      rfl
    | some entryPtr =>
      refine Prog.Ok.step_bind fun u₂ hu₂ => ?_
      have hold₃ := hold₂.rely hu₂
      have hbuff : u₂.dev.buff = u₁.dev.buff := (Rely.ring hu₂ (by simp) hold₂.inv).1
      -- the ring is still the one that was looked at, the position may be another one
      have hfind₂ : (u₂.kernel t []).dev.buff.findEntryOffsetForFpos
          (actualPos ((u₂.kernel t []).seekTo u₁.dev.lseekPos).dev fPos) 0
            = (some entryPtr, entryOffset) := by
        rw [Shared.kernel_dev, hbuff, ← hfind]
        rfl
      obtain ⟨notCopied, data, hcopy, hdata, hret⟩ := copy_of_located
        (Shared.inv_kernel hold₃.inv t []) hold₁.inv.lseekPos_bounds hf count hfind₂
      rw [Shared.kernel_dev, hbuff] at hcopy hret
      have hguar : Guar cfg calls t [.buffMutex] u₂ (u₂.put t { u₂.kernel t [] with
          outcomes.notCopied := (u₂.kernel t []).outcomes.notCopied.tail }) :=
        .put rfl rfl rfl rfl (.inl rfl) id fun _ => .inl rfl
      refine ⟨_, _, onKernel_of_ok hcopy, hguar, fun w hw => ?_⟩
      refine ⟨rfl, (hold₃.put hguar rfl).rely hw, (u₂.kernel t []).seekTo u₁.dev.lseekPos,
        hold₃.lines, ?_, hdata, ?_⟩
      · change (u₂.outcomes t).notCopied = _
        rw [Rely.outcomes hu₂, ← Rely.outcomes hu₁]
        simp only [Shared.put, Function.update_self]
        rfl
      · dsimp only
        exact hret

lemma aesdRead_ok {count : ℕ} {fPos : ℤ} (hop : c.op = .read count fPos)
    (hout : s.outcomes t = c.outcomes) :
    (aesdRead t count (toLoff fPos)).Ok (protocol cfg calls) t
      (fun held (r : ReadResult) s' => held = [] ∧ Made cfg t c s ⟨r.retVal, r.data⟩ s') [] s := by
  have hserved : ∀ r, c.served t r = [] := fun r => by simp only [DriverCall.served, hop]
  have hlocks : c.locks = true := by simp only [DriverCall.locks, hop]
  rw [aesdRead]
  refine lock_ok (fun hi u hu w hw => ⟨rfl, ?_⟩) fun hi u hu hout' hfree => ?_
  · rw [hout] at hi
    exact .of_interrupted (hu.trans (later_of_rely hw)) hlocks hi (hserved _)
  rw [hout] at hi
  simp only [Bool.false_eq_true, if_false]
  have hold : Holding cfg t s u.added u := ⟨hfree, rfl, hu⟩
  refine (readLocked_ok hold count (toLoff_bounds fPos)).bind ?_
  rintro held r u₁ ⟨rfl, hold₁, k, hlines, hcopied, hdata, hret⟩
  refine hold₁.release fun w hw hnow => ⟨rfl, ?_⟩
  refine .of_answers hw hu.added hnow ?_ (by rw [hi, Bool.and_false]) (hserved _)
  have hnot : c.outcomes.notCopied = k.outcomes.notCopied := by
    rw [hcopied, hout', hout]
  simp only [DriverCall.Answers, hop]
  refine ⟨actualPos k.dev (toLoff fPos), ?_, by rw [hret, hdata]⟩
  rw [hdata, hnot, ← hlines]
  rfl

/-! ### Writing -/

lemma serve_guar {o : Outcomes} {data : List Byte} {r : ℤ} (hheld : .entryMutex ∈ held) :
    Guar cfg calls t held s { s with served := s.served ++ [⟨t, data, o, r⟩] } where
  outcomes _ _ := rfl
  size := .inl rfl
  bounds := id
  lseekPos _ := .inl rfl
  stage hnot := absurd hheld hnot
  ring _ := ⟨rfl, rfl, fun h => ⟨h, rfl⟩⟩
  added := List.prefix_refl _
  served v hv := by
    rw [Shared.servedTo, Shared.servedTo, List.filter_append]
    simp [Ne.symm hv]
  madeBy _ _ := rfl
  history h := h.of_made_eq rfl (List.prefix_refl _)

omit [DecidableEq T] in
/-- A write that has the entry mutex does what it would do to a device that nobody else uses. -/
lemma writeLocked_submit {u : Shared T} {data : List Byte} {o : Outcomes} {r : ℤ}
    (h : u.core.Inv cfg) (hsize : u.dev.entry.size = cfg.kmallocMaxSize)
    (hi : o.interrupted.headD false = false)
    (hout : u.outcomes t = { o with interrupted := o.interrupted.tail })
    (hk : Aesd.writeLocked cfg data data.length (u.kernel t [.entryMutex]) = .ok (r, k')) :
    k'.Inv cfg ∧ ServedWrite.submit cfg ⟨t, data, o, r⟩ (u.core.lines, u.core.stage)
      = (r, k'.lines, k'.stage) := by
  have hinv := Shared.inv_kernel h t [.entryMutex]
  have hheld := ((writeLocked_spec hinv hsize notMem_held data).post hk).2.1.held
  have hentry : ({ u.dev with entry.size := cfg.kmallocMaxSize } : Device) = u.dev :=
    Device.ext (EntryStage.ext rfl hsize.symm rfl) rfl rfl
  have hk₀ : Aesd.aesdWrite cfg data data.length ⟨u.dev, u.heap, [], o⟩
      = .ok (r, { k' with held := [] }) := by
    rw [Aesd.aesdWrite, update_bind_apply,
      bind_ok (mutexLockInterruptible_of_free hi List.not_mem_nil)]
    simp only [Shared.kernel, hout] at hk
    simp only [Bool.false_eq_true, if_false, hentry, bind_ok hk]
    rw [bind_ok (mutexUnlock_of_held [] hheld)]
    rfl
  have hinv₀ : Kernel.Inv cfg ⟨u.dev, u.heap, [], o⟩ := { h with }
  obtain ⟨hinv', -, -, hr, hlog⟩ := (aesdWrite_spec hinv₀ rfl data).post hk₀
  refine ⟨{ hinv' with }, ?_⟩
  rw [ServedWrite.submit]
  exact Prod.ext hr.symm (Prod.ext (congrArg StagedLog.lines hlog).symm
    (congrArg StagedLog.stage hlog).symm)

lemma aesdWrite_ok {data : List Byte} (hop : c.op = .write data)
    (hout : s.outcomes t = c.outcomes) :
    (aesdWrite cfg t c.outcomes data data.length).Ok (protocol cfg calls) t
      (fun held ret s' => held = [] ∧ Made cfg t c s ⟨ret, []⟩ s') [] s := by
  have hlocks : c.locks = true := by simp only [DriverCall.locks, hop]
  rw [aesdWrite]
  refine Prog.Ok.step_bind fun u hu => ⟨_, _, onKernel_of_ok rfl, ?_, ?_⟩
  · exact .put rfl rfl rfl rfl (.inr rfl) id fun _ => .inl rfl
  obtain ⟨u₁, hu₁⟩ : ∃ u₁, u₁ = u.put t { u.kernel t [] with
    dev.entry.size := cfg.kmallocMaxSize } := ⟨_, rfl⟩
  have hlater : Later cfg t s u₁ := by
    rw [hu₁]
    exact (later_of_rely hu).trans ⟨rfl, rfl, List.prefix_refl _, fun _ => rfl⟩
  have hout₁ : u₁.outcomes t = c.outcomes := by
    rw [hu₁, ← hout, ← Rely.outcomes hu]
    exact Function.update_self _ _ _
  have hsize₁ : u₁.dev.entry.size = cfg.kmallocMaxSize := by
    rw [hu₁]
    rfl
  rw [← hu₁]
  refine lock_ok (fun hi w hw x hx => ⟨rfl, ?_⟩) fun hi w hw hout' hfree => ?_
  · rw [hout₁] at hi
    refine .of_interrupted (hlater.trans (hw.trans (later_of_rely hx))) hlocks hi ?_
    simp only [DriverCall.served, hop, hi, if_true]
  rw [hout₁] at hi hout'
  simp only [Bool.false_eq_true, if_false]
  have hsize : w.dev.entry.size = cfg.kmallocMaxSize := hw.size hsize₁
  have hinv := Shared.inv_kernel hfree.1 t [.entryMutex]
  obtain ⟨r, k', hk, -⟩ := writeLocked_spec hinv hsize notMem_held data
  obtain ⟨hinv', hsubmit⟩ := writeLocked_submit hfree.1 hsize hi hout' hk
  have hfollowed : Followed cfg calls t _ _ _ w := writeLocked_followed hfree.1 hsize hk
  have hlocked := hfollowed.ok (by simp)
    (fun _ _ _ _ hheld hR hrely => hR.rely hheld hrely) (Following.refl hfree.1 hsize)
  refine hlocked.bind ?_
  rintro held ret x ⟨-, x', hR, rfl, rfl, rfl, honward⟩
  refine Prog.Ok.step_bind fun y hy => ?_
  have hRy := hR.rely (by simp) hy
  refine ⟨_, _, rfl, ?_, ?_⟩
  · exact serve_guar (by simp)
  refine ⟨by simp, fun z hz => ?_⟩
  have hRz := (hRy.serve ⟨t, data, c.outcomes, ret⟩).rely (by simp) hz
  have hserved : z.served = w.served ++ [⟨t, data, c.outcomes, ret⟩] := by
    rw [hRz.served]
    simp only [honward.served]
  have hbefore : s.added <+: w.added := (hlater.trans hw).added
  have hadded : w.added <+: z.added := by
    rw [hRz.added]
    exact honward.added
  have hlines : z.core.lines = x'.core.lines := hRz.lines
  have hstores : z.Stores := by
    rw [Shared.Stores, hlines, hRz.added]
    exact honward.stores hfree.2.1
  refine ⟨⟨hRz.inv (Shared.kernel_inv.mp hinv'), hstores, ?_⟩,
    fun v hv => ⟨by simp, ?_, ?_, ?_, ?_⟩⟩
  · rw [hserved, hlines, hRz.stage]
    exact replay_concat hfree.2.2 hsubmit
  · rw [DriverCall.Returned, if_neg (by rw [hi, Bool.and_false]; simp)]
    refine ⟨w.added, z.added, hbefore, hadded, Rely.added hv, ?_⟩
    simp only [DriverCall.Answers, hop]
    refine ⟨trivial, w.core.stage, (x'.kernel t [.entryMutex]).stage, ?_⟩
    rw [← hfree.2.1, ← show _ = _ from hstores, hlines]
    exact hsubmit
  · exact (hbefore.trans hadded).trans (Rely.added hv)
  · have hmine : v.servedTo t = z.servedTo t := Rely.servedTo hv
    rw [hmine, Shared.servedTo, hserved, List.filter_append]
    have hw' : w.servedTo t = s.servedTo t := hw.servedTo.trans hlater.servedTo
    rw [Shared.servedTo] at hw'
    rw [hw']
    simp only [DriverCall.served, hop, hi, Bool.false_eq_true, if_false]
    simp [Shared.servedTo]
  · have hmade : x'.madeBy t = w.madeBy t := by rw [Shared.madeBy, honward.made, Shared.madeBy]
    exact (Rely.madeBy hv).trans (hRz.madeBy.trans (hmade.trans (hw.madeBy.trans hlater.madeBy)))

/-! ### The program of a task -/

lemma driverOp_ok (hout : s.outcomes t = c.outcomes) :
    (driverOp cfg t c).Ok (protocol cfg calls) t
      (fun held r s' => held = [] ∧ Made cfg t c s r s') [] s := by
  rw [driverOp]
  cases hop : c.op with
  | «open» =>
    intro w hw
    have hlater : Later cfg t s w := later_of_rely hw
    refine ⟨rfl, .of_answers hlater (List.prefix_refl _) hlater.added ?_ ?_ ?_⟩
    · simp only [DriverCall.Answers, hop]
    · simp only [DriverCall.locks, hop, Bool.false_and]
    · simp only [DriverCall.served, hop]
  | release => exact ok_pure (aesdRelease_ok hop)
  | read count fPos => exact ok_pure (aesdRead_ok hop hout)
  | write data => exact ok_pure (aesdWrite_ok hop hout)
  | llseek off whence => exact ok_pure (aesdLlseek_ok hop hout)
  | ioctl cmd arg => exact ok_pure (aesdIoctl_ok hop hout)

/-- The writes of a task that had the entry mutex, in the order of its calls. -/
def servedAll (t : T) : List DriverCall → List Reply → List (ServedWrite T)
  | c :: cs, r :: rs => c.served t r ++ servedAll t cs rs
  | _, _ => []

/-- A look at the state. -/
lemma Guar.refl (s : Shared T) : Guar cfg calls t held s s where
  outcomes _ _ := rfl
  size := .inl rfl
  bounds := id
  lseekPos _ := .inl rfl
  stage _ := ⟨rfl, rfl, rfl, rfl⟩
  ring _ := ⟨rfl, rfl, fun h => ⟨h, rfl⟩⟩
  added := List.prefix_refl _
  served _ _ := rfl
  madeBy _ _ := rfl
  history := id

/-- A call of the task is recorded, the next of those that it has to make. -/
lemma made_guar {r : Reply} {before : List (List Byte)}
    (hreturned : c.Returned cfg r before s.added) (hbefore : before <+: s.added)
    (hordered : ∀ y ∈ s.madeBy t, y.after <+: before)
    (hcalls : (s.madeBy t).map MadeCall.call ++ [c] <+: calls t) :
    Guar cfg calls t held s { s with made := s.made ++ [⟨t, c, r, before, s.added⟩] } where
  outcomes _ _ := rfl
  size := .inl rfl
  bounds := id
  lseekPos _ := .inl rfl
  stage _ := ⟨rfl, rfl, rfl, rfl⟩
  ring _ := ⟨rfl, rfl, fun h => ⟨h, rfl⟩⟩
  added := List.prefix_refl _
  served _ _ := rfl
  madeBy v hv := by
    rw [Shared.madeBy_concat, if_neg hv.symm, List.append_nil]
  history h := h.concat hreturned hbefore rfl hordered hcalls

/-- What a task knows between two of its calls. -/
structure Between (calls : T → List DriverCall) (t : T) (cs : List DriverCall) (s : Shared T) :
    Prop where
  calls : (s.madeBy t).map MadeCall.call ++ cs = calls t
  before : ∀ y ∈ s.madeBy t, y.after <+: s.added

lemma Between.later {cs : List DriverCall} {u : Shared T} (h : Between calls t cs s)
    (hu : Later cfg t s u) : Between calls t cs u where
  calls := by
    rw [hu.madeBy]
    exact h.calls
  before y hy := (h.before y (hu.madeBy ▸ hy)).trans hu.added

lemma makeCall_ok {cs : List DriverCall} (h : Between calls t (c :: cs) s) :
    (makeCall cfg t c).Ok (protocol cfg calls) t (fun held r s' => held = [] ∧
      Between calls t cs s' ∧
      (s'.madeBy t).map MadeCall.reply = (s.madeBy t).map MadeCall.reply ++ [r] ∧
      s'.servedTo t = s.servedTo t ++ c.served t r) [] s := by
  rw [makeCall]
  refine Prog.Ok.step_bind fun u hu => ⟨_, _, rfl, Guar.refl _, ?_⟩
  have hlater : Later cfg t s u := later_of_rely hu
  refine Prog.Ok.step_bind fun u₁ hu₁ => ⟨_, _, onKernel_of_ok rfl, ?_, ?_⟩
  · exact .put rfl rfl rfl rfl (.inl rfl) id fun _ => .inl rfl
  have hstart : Later cfg t u (u₁.put t { u₁.kernel t [] with outcomes := c.outcomes }) :=
    (later_of_rely hu₁).trans (.put rfl)
  refine (driverOp_ok (by simp only [Shared.put, Function.update_self])).bind ?_
  rintro held r s₁ ⟨rfl, hmade⟩
  have hmine : s₁.madeBy t = s.madeBy t :=
    hmade.madeBy.trans (hstart.madeBy.trans hlater.madeBy)
  refine Prog.Ok.step_bind fun u₂ hu₂ => ⟨_, _, rfl, ?_, fun w hw => ⟨rfl, ?_⟩⟩
  · have hmine₂ : u₂.madeBy t = s.madeBy t := (Rely.madeBy hu₂).trans hmine
    have hreturned := hmade.returned.mono hstart.added (Rely.added hu₂)
    refine made_guar hreturned ((hstart.added.trans hmade.added).trans (Rely.added hu₂)) ?_ ?_
    · intro y hy
      exact (h.before y (hmine₂ ▸ hy)).trans hlater.added
    · rw [hmine₂, ← h.calls, List.prefix_append_right_inj]
      exact List.prefix_append [c] cs
  · have hdone : w.madeBy t = s.madeBy t ++ [⟨t, c, r, u.added, u₂.added⟩] := by
      rw [Rely.madeBy hw, Shared.madeBy_concat, if_pos rfl, Rely.madeBy hu₂, hmine]
    have hadded := Rely.added hw
    rw [hdone, List.map_append, List.map_singleton]
    refine ⟨⟨?_, fun y hy => ?_⟩, rfl, ?_⟩
    · rw [hdone, List.map_append, List.map_singleton, List.append_assoc, List.singleton_append]
      exact h.calls
    · rw [hdone] at hy
      rcases List.mem_append.mp hy with hy | hy
      · exact (h.before y hy).trans (hlater.added.trans
          (hstart.added.trans (hmade.added.trans ((Rely.added hu₂).trans hadded))))
      · rw [List.mem_singleton.mp hy]
        exact hadded
    · rw [Rely.servedTo hw]
      change u₂.servedTo t = _
      rw [Rely.servedTo hu₂, hmade.servedTo]
      exact congrArg (· ++ c.served t r) (hstart.servedTo.trans hlater.servedTo)

lemma task_ok (cs : List DriverCall) (h : Between calls t cs s) :
    (task cfg t cs).Ok (protocol cfg calls) t (fun held rs s' => held = [] ∧
      (s'.madeBy t).map MadeCall.call = calls t ∧
      (s'.madeBy t).map MadeCall.reply = (s.madeBy t).map MadeCall.reply ++ rs ∧
      s'.servedTo t = s.servedTo t ++ servedAll t cs rs) [] s := by
  induction cs generalizing s with
  | nil =>
    intro w hw
    have hcalls := h.calls
    rw [List.append_nil] at hcalls
    rw [Rely.servedTo hw, Rely.madeBy hw]
    exact ⟨rfl, hcalls, (List.append_nil _).symm, (List.append_nil _).symm⟩
  | cons c cs ih =>
    rw [task]
    refine (makeCall_ok h).bind ?_
    rintro held r s₁ ⟨rfl, hbetween, hreply, hserved⟩
    refine (ih hbetween).bind ?_
    rintro held rs s₂ ⟨rfl, hcalls, hreplies, hserved'⟩ w hw
    rw [Rely.servedTo hw, Rely.madeBy hw]
    refine ⟨rfl, hcalls, ?_, ?_⟩
    · rw [hreplies, hreply, List.append_assoc, List.singleton_append]
    · rw [hserved', hserved, List.append_assoc, servedAll]

end Aesd.Concurrent
