import Aesd.Server.FileSessions.Protocol

/-!
# The calls on the file

What each call on the file does to what the threads share, and that the thread that makes it may do
it.
-/

namespace Aesd.FileSessions

open Exec Threads Threaded

variable {n : ℕ} {w : Workload n} {i : Fin n} {f : Frame n} {held : List ServerMutex}
  {s s' u : Shared n} {done : List Segment} {seg : Segment}

/-! ### Calls without the mutex -/

/-- A step that may be taken without `FileMutex`. -/
lemma Outside.guar (h : Outside s s') (houtcomes : s'.outcomes <:+ s.outcomes)
    (hfileFD : ∀ g, g ≠ f → s'.fileFD g = s.fileFD g) : Guar w f held s s' where
  inv := by
    intro hs
    have hcarriedBy : ∀ i, s'.carriedBy i = s.carriedBy i := by
      intro i
      rw [Shared.carriedBy, h.carried, Shared.carriedBy]
    constructor
    · exact houtcomes.trans hs.outcomes
    · intro i
      rw [hcarriedBy]
      exact hs.plan i
    · intro hall i
      rw [h.carried] at hall
      rw [hcarriedBy, Shared.writes, h.written]
      exact hs.writes hall i
    · rw [h.replied]
      exact hs.replied
    · rw [h.exited, h.carried]
      exact hs.exited
    · rw [h.carried]
      exact hs.quiet
  fileFD := hfileFD
  carriedBy i _ := by rw [Shared.carriedBy, h.carried, Shared.carriedBy]
  outside _ := h
  exited hs := by rw [h.exited, hs]

lemma openFile_returns (f : Frame n) (s : Shared n) (held : List ServerMutex) :
    Returns (openFile f) s fun _ s' => Guar w f held s s' ∧ s'.carried = s.carried ∧
      ((s.outcomes.headD {}).openFails = false → (s'.fileFD f).isSome) := by
  have hne : ∀ g, g ≠ f → ∀ fd, Function.update s.fileFD f fd g = s.fileFD g := fun g hg fd =>
    Function.update_of_ne hg fd s.fileFD
  refine .step (rfl : nextOutcome s = .ok (_, _)) ?_
  split_ifs with hfails
  · refine ⟨(), _, rfl, Outside.guar ?_ (List.tail_suffix _) fun g hg => hne g hg _, rfl, ?_⟩
    · exact ⟨.inl rfl, rfl, rfl, rfl, rfl⟩
    · intro hopens
      rw [hfails] at hopens
      cases hopens
  · refine ⟨(), _, rfl, Outside.guar ?_ (List.tail_suffix _) fun g hg => hne g hg _, rfl, ?_⟩
    · exact ⟨.inr rfl, rfl, rfl, rfl, rfl⟩
    · intro _
      simp

lemma closeFile_returns (f : Frame n) (s : Shared n) (held : List ServerMutex) :
    Returns (closeFile f) s fun _ s' =>
      Guar w f held s s' ∧ s'.carried = s.carried ∧ s'.fileFD f = none := by
  refine ⟨(), _, rfl, Outside.guar ?_ (List.suffix_refl _) ?_, rfl, Function.update_self _ _ _⟩
  · exact ⟨.inl rfl, rfl, rfl, rfl, rfl⟩
  · intro g hg
    exact Function.update_of_ne hg none s.fileFD

/-- A thread knows after a step of its own what it has known before, if it carries nothing out. -/
lemma Knows.guar (h : Knows w i done s) (hguar : Guar w f held s s')
    (hcarried : s'.carried = s.carried) : Knows w i done s' := by
  refine ⟨hguar.inv h.inv, ?_⟩
  rw [Shared.carriedBy, hcarried]
  exact h.done

/-! ### Writing -/

/-- Some first part of the bytes is written, if the file is open. -/
lemma writeFile_returns (f : Frame n) (bytes : List Byte) (s : Shared n) :
    Returns (writeFile f bytes) s fun written s' =>
      s'.outcomes = s.outcomes.tail ∧ (∀ g, g ≠ f → s'.fileFD g = s.fileFD g) ∧
      s'.carried = s.carried ∧ s'.replied = s.replied ∧ s'.exited = s.exited ∧
      (written = -1 ∧ s'.written = s.written ∨
        ∃ k, written = (bytes.take k).length ∧ s'.written = s.written ++ [(f, bytes.take k)]) ∧
      ((s.fileFD f).isSome → (s'.fileFD f).isSome ∧
        ((s.outcomes.headD {}).notWritten = 0 → written = bytes.length)) := by
  refine .step (rfl : nextOutcome s = .ok (_, _)) (.step (read_apply _ _) ?_)
  cases hfd : s.fileFD f with
  | none => exact ⟨-1, _, rfl, rfl, fun _ _ => rfl, rfl, rfl, rfl, .inl ⟨rfl, rfl⟩, nofun⟩
  | some offset =>
    refine ⟨_, _, rfl, rfl, ?_, rfl, rfl, rfl, .inr ⟨_, rfl, rfl⟩, fun _ => ⟨?_, ?_⟩⟩
    · intro g hg
      exact Function.update_of_ne hg _ s.fileFD
    · simp
    · intro hall
      rw [hall, Nat.sub_zero, List.take_length]

/-- A segment that `write` says it has written was written. -/
lemma take_eq_of_length {k : ℕ} (hsize : seg.bytes.length = seg.segmentLen)
    (h : ((seg.bytes.take k).length : ℤ) = seg.segmentLen) : seg.bytes.take k = seg.bytes := by
  apply (List.take_prefix k seg.bytes).eq_of_length
  rw [hsize]
  exact_mod_cast h

section

variable {ok : Bool}

lemma carriedBy_append (h : s'.carried = s.carried ++ [⟨i, seg, ok⟩]) (j : Fin n) :
    s'.carriedBy j = if j = i then s.carriedBy j ++ [seg] else s.carriedBy j := by
  simp only [Shared.carriedBy, h, List.filter_append, List.map_append]
  by_cases hj : j = i
  · simp [hj]
  · simp [hj, Ne.symm hj]

lemma ordinary_append (segs : List Segment) (seg : Segment) :
    ordinary (segs ++ [seg]) = if (findSeek seg.segmentPtr).isSome then ordinary segs
      else ordinary segs ++ [seg.bytes] := by
  cases hseek : findSeek seg.segmentPtr <;> simp [ordinary, hseek]

lemma writes_append {bytes : List Byte}
    (h : s'.written = s.written ++ [(.inl (.handler i), bytes)]) (j : Fin n) :
    s'.writes j = if j = i then s.writes j ++ [bytes] else s.writes j := by
  simp only [Shared.writes, h, List.filter_append, List.map_append]
  by_cases hj : j = i
  · simp [hj]
  · simp [hj, Ne.symm hj]

/-- A segment that the thread is to hand on is carried out. -/
lemma Knows.carry (h : Knows w i done s) (hsegs : done ++ [seg] <+: w.segs i)
    (houtcomes : s'.outcomes <:+ s.outcomes) (hreplied : s'.replied = s.replied)
    (hexited : s'.exited = s.exited) (hcarried : s'.carried = s.carried ++ [⟨i, seg, ok⟩])
    (hquiet : w.Quiet → ok = true)
    (hwrites : ok = true → ∀ j, s'.writes j = s.writes j ++
      if j = i ∧ ¬ (findSeek seg.segmentPtr).isSome then [seg.bytes] else []) :
    Knows w i (done ++ [seg]) s' := by
  have hcarriedBy := carriedBy_append hcarried
  refine ⟨⟨houtcomes.trans h.inv.outcomes, ?_, ?_, ?_, ?_, ?_⟩, ?_⟩
  · intro j
    rw [hcarriedBy]
    split_ifs with hj
    · rwa [hj, h.done]
    · exact h.inv.plan j
  · intro hall j
    rw [hcarried, List.forall_mem_append, List.forall_mem_singleton] at hall
    rw [hwrites hall.2, h.inv.writes hall.1, hcarriedBy]
    by_cases hj : j = i
    · cases hseek : findSeek seg.segmentPtr <;> simp [hj, hseek, ordinary_append]
    · simp [hj]
  · rw [hreplied]
    exact h.inv.replied
  · intro hgone
    obtain ⟨c, hc, hok⟩ := h.inv.exited (hexited ▸ hgone)
    rw [hcarried]
    exact ⟨c, List.mem_append_left _ hc, hok⟩
  · intro hnever
    rw [hcarried, List.forall_mem_append, List.forall_mem_singleton]
    exact ⟨h.inv.quiet hnever, hquiet hnever⟩
  · rw [hcarriedBy, if_pos rfl, h.done]

/-- A step with `FileMutex`. -/
lemma guar_of_held (hheld : .fileMutex ∈ held) (h : Knows w i done s) {done' : List Segment}
    (h' : Knows w i done' s') (hfileFD : ∀ g, g ≠ .inl (.handler i) → s'.fileFD g = s.fileFD g)
    (hothers : ∀ j, j ≠ i → s'.carriedBy j = s.carriedBy j)
    (hexited : s.exited = true → s'.exited = true) :
    Guar w (.inl (.handler i)) held s s' where
  inv _ := h'.inv
  fileFD := hfileFD
  carriedBy j hj := by
    apply hothers
    rintro rfl
    exact hj rfl
  outside hnot := absurd hheld hnot
  exited := hexited

lemma carryOut_returns (h : Opened w i done s) (hsize : seg.bytes.length = seg.segmentLen)
    (hsegs : done ++ [seg] <+: w.segs i) (hheld : .fileMutex ∈ held) :
    Returns (carryOut i seg) s fun ok s' => Guar w (.inl (.handler i)) held s s' ∧
      Opened w i (done ++ [seg]) s' ∧ (ok = false → ∃ c ∈ s'.carried, c.ok = false) := by
  rw [carryOut]
  split_ifs with hseek
  · -- a command: the file is not written
    set s' : Shared n := { s with carried := s.carried ++ [⟨i, seg, true⟩] } with hs'
    have hcarried : s'.carried = s.carried ++ [⟨i, seg, true⟩] := rfl
    have hknows : Knows w i (done ++ [seg]) s' := by
      refine h.carry hsegs (List.suffix_refl _) rfl rfl hcarried (fun _ => rfl) ?_
      intro _ j
      simp [hseek, Shared.writes, hs']
    refine ⟨true, s', rfl, guar_of_held hheld h.toKnows hknows (fun _ _ => rfl) ?_ id,
      ⟨hknows, h.fileFD⟩, nofun⟩
    intro j hj
    rw [carriedBy_append hcarried, if_neg hj]
  · obtain ⟨written, s₁, hwrite, houtcomes, hfileFD, hcarried, hreplied, hexited, hwritten,
      hopen⟩ := writeFile_returns (.inl (.handler i)) seg.bytes s
    set ok : Bool := decide (written = seg.segmentLen) with hok
    set s' : Shared n := { s₁ with carried := s₁.carried ++ [⟨i, seg, ok⟩] } with hs'
    have hcarried' : s'.carried = s.carried ++ [⟨i, seg, ok⟩] := by rw [← hcarried]
    have hknows : Knows w i (done ++ [seg]) s' := by
      refine h.carry hsegs ?_ hreplied hexited hcarried' ?_ ?_
      · rw [hs', houtcomes]
        exact List.tail_suffix _
      · intro hquiet
        have hall := (hopen (h.fileFD hquiet)).2 (by rw [hquiet.headD h.inv])
        rw [hok, decide_eq_true_iff, hall, hsize]
      · intro htrue j
        rw [hok, decide_eq_true_iff] at htrue
        rcases hwritten with ⟨hfailed, -⟩ | ⟨k, hlength, happend⟩
        · omega
        · rw [take_eq_of_length hsize (hlength.symm.trans htrue)] at happend
          have hwrites : s'.writes j = if j = i then s.writes j ++ [seg.bytes] else s.writes j :=
            writes_append happend j
          rw [hwrites]
          by_cases hj : j = i <;> simp [hj, hseek]
    refine ⟨ok, s', bind_ok hwrite, ?_, ⟨hknows, fun hquiet => (hopen (h.fileFD hquiet)).1⟩, ?_⟩
    · apply guar_of_held hheld h.toKnows hknows hfileFD
      · intro j hj
        rw [carriedBy_append hcarried', if_neg hj]
      · intro hgone
        rwa [← hexited] at hgone
    · intro hfalse
      exact ⟨⟨i, seg, ok⟩, by rw [hcarried']; simp, hfalse⟩

end

/-! ### Replying -/

/-- What `send` takes is the first part of what `fstat` has found, if the file is still as it was or
empty. -/
lemma sendMap_returns (h : Opened w i done s) {content : Option (List Byte)}
    (hcontent : ∀ bytes ∈ content, s.data = bytes ∨ s.data = []) (hheld : .fileMutex ∈ held) :
    Returns (sendMap i content) s fun _ s' => Guar w (.inl (.handler i)) held s s' ∧
      Opened w i done s' := by
  cases content with
  | none =>
    refine ⟨(), s, rfl, ?_, h⟩
    exact guar_of_held hheld h.toKnows h.toKnows (fun _ _ => rfl) (fun _ _ => rfl) id
  | some content =>
    refine .step (rfl : nextOutcome s = .ok (_, _)) ⟨(), _, rfl, ?_⟩
    set x : FileReply n := ⟨i, content,
      (s.data.take content.length).take (content.length - (s.outcomes.headD {}).notSent)⟩ with hx
    have hsound : x.Sound w := by
      rcases hcontent content rfl with hdata | hdata
      · constructor
        · simp only [hx, hdata, List.take_length]
          exact List.take_prefix _ _
        · intro hquiet
          left
          simp only [hx, hdata, hquiet.headD h.inv, List.take_length, Nat.sub_zero]
      · have hnil : x.delivered = [] := by simp [hx, hdata]
        exact ⟨hnil ▸ List.nil_prefix, fun _ => .inr hnil⟩
    have hknows : Knows w i done { s with
        outcomes := s.outcomes.tail, replied := s.replied ++ [x] } := by
      refine ⟨⟨(List.tail_suffix _).trans h.inv.outcomes, h.inv.plan, h.inv.writes, ?_,
        h.inv.exited, h.inv.quiet⟩, h.done⟩
      intro y hy
      rcases List.mem_append.mp hy with hy | hy
      · exact h.inv.replied y hy
      · rw [List.mem_singleton.mp hy]
        exact hsound
    refine ⟨?_, hknows, h.fileFD⟩
    exact guar_of_held hheld h.toKnows hknows (fun _ _ => rfl) (fun _ _ => rfl) id

/-! ### The programs -/

lemma handleSegment_ok (h : Opened w i done s) (hsize : seg.bytes.length = seg.segmentLen)
    (hsegs : done ++ [seg] <+: w.segs i) :
    (handleSegment i seg).Ok (protocol w) (.inl (.handler i))
      (fun held ok u => if ok then held = [] ∧ Opened w i (done ++ [seg]) u else u.exited = true)
      [] s := by
  have hheld : ServerMutex.fileMutex ∈ [ServerMutex.fileMutex] := List.mem_singleton_self _
  rw [handleSegment]
  refine ⟨fun x hx => absurd hx List.not_mem_nil, fun s₀ hs₀ _ => ?_⟩
  refine Prog.Ok.step_bind fun s₁ hs₁ => ?_
  obtain ⟨ok, s₂, hcarry, hguar, hknows₂, hfailed⟩ :=
    carryOut_returns ((h.rely hs₀).rely hs₁) hsize hsegs hheld
  refine ⟨ok, s₂, hcarry, hguar, ?_⟩
  cases ok with
  | true =>
    refine Prog.Ok.step_bind fun s₃ hs₃ => ?_
    have hknows₃ := hknows₂.rely hs₃
    refine ⟨_, s₃, read_apply _ _, ?_, ?_⟩
    · have hknows := hknows₃.toKnows
      exact guar_of_held hheld hknows hknows (fun _ _ => rfl) (fun _ _ => rfl) id
    refine Prog.Ok.step_bind fun s₄ hs₄ => ?_
    have hcontent : ∀ bytes ∈ (s₃.fileFD (.inl (.handler i))).map fun _ => s₃.data,
        s₄.data = bytes ∨ s₄.data = [] := by
      intro bytes hbytes
      obtain ⟨_, -, rfl⟩ := Option.mem_map.mp hbytes
      exact (Outside.rely hheld hs₄).data
    obtain ⟨⟨⟩, s₅, hsend, hguar₅, hknows₅⟩ := sendMap_returns (hknows₃.rely hs₄) hcontent hheld
    refine ⟨(), s₅, hsend, hguar₅, hheld, fun s₆ hs₆ => ⟨trivial, fun s₇ hs₇ => ?_⟩⟩
    exact ⟨rfl, (hknows₅.rely hs₆).rely hs₇⟩
  | false =>
    -- the process exits, and keeps the mutex
    refine Prog.Ok.step_bind fun s₃ hs₃ => ⟨(), _, rfl, ?_, fun s₄ hs₄ => Rely.exited hs₄ rfl⟩
    have hknows₃ := hknows₂.rely hs₃
    have hcarried := (Outside.rely hheld hs₃).carried
    have hexit : Knows w i (done ++ [seg]) { s₃ with exited := true } := by
      refine ⟨⟨hknows₃.inv.outcomes, hknows₃.inv.plan, hknows₃.inv.writes, hknows₃.inv.replied,
        fun _ => ?_, hknows₃.inv.quiet⟩, hknows₃.done⟩
      rw [hcarried]
      exact hfailed rfl
    exact guar_of_held hheld hknows₃.toKnows hexit (fun _ _ => rfl) (fun _ _ => rfl) fun _ => rfl

lemma fileCalls_ok (w : Workload n) (i : Fin n) :
    (fileCalls i).Ok (protocol w) (.inl (.handler i)) (w.segs i)
      (fun done s => Knows w i done s ∧ s.fileFD (.inl (.handler i)) = none)
      (Opened w i) (fun s => s.exited = true) where
  openFile := by
    rintro done s ⟨hs, -⟩
    refine Prog.Ok.step (P := protocol w) fun s₁ hs₁ => ?_
    obtain ⟨⟨⟩, s₂, hopen, hguar, hcarried, hopens⟩ := openFile_returns (.inl (.handler i)) s₁ []
    have hs₁ := hs.rely hs₁
    have hopened : Opened w i done s₂ :=
      ⟨hs₁.guar hguar hcarried, fun hquiet => hopens (by rw [hquiet.headD hs₁.inv])⟩
    exact ⟨(), s₂, hopen, hguar, fun u hu => ⟨rfl, hopened.rely hu⟩⟩
  handle := fun done seg s hs hsize hsegs => handleSegment_ok hs hsize hsegs
  closeFile := by
    intro done s hs
    change (Prog.step (closeFile (.inl (.handler i))) : FileM n Unit).Ok (protocol w) _ _ [] s
    refine Prog.Ok.step fun s₁ hs₁ => ?_
    obtain ⟨⟨⟩, s₂, hclose, hguar, hcarried, hclosed⟩ := closeFile_returns (.inl (.handler i)) s₁ []
    refine ⟨(), s₂, hclose, hguar, fun u hu => ⟨rfl, ?_, (Rely.fileFD hu).trans hclosed⟩⟩
    exact ((hs.rely hs₁).toKnows.guar hguar hcarried).rely hu
  closed_rely := fun done s u hs hu => ⟨hs.1.rely hu, (Rely.fileFD hu).trans hs.2⟩
  opened_rely := fun done s u hs hu => hs.rely hu
  gone_rely := fun held s u hs hu => Rely.exited hu hs

/-! ### The timer -/

variable {t : ServerThread n}

/-- A timestamp is no segment of a connection. -/
lemma stampFile_returns (t : ServerThread n) (bytes : List Byte) (s : Shared n)
    (hheld : .fileMutex ∈ held) :
    Returns (writeFile (.inr t) bytes) s fun _ s' => Guar w (.inr t) held s s' := by
  obtain ⟨written, s', hwrite, houtcomes, hfileFD, hcarried, hreplied, hexited, hwritten, -⟩ :=
    writeFile_returns (.inr t) bytes s
  have hcarriedBy : ∀ i, s'.carriedBy i = s.carriedBy i := by
    intro i
    rw [Shared.carriedBy, hcarried, Shared.carriedBy]
  have hwrites : ∀ i, s'.writes i = s.writes i := by
    intro i
    rcases hwritten with ⟨-, hsame⟩ | ⟨k, -, happend⟩
    · rw [Shared.writes, hsame, Shared.writes]
    · simp [Shared.writes, happend]
  refine ⟨written, s', hwrite, fun hs => ?_, hfileFD, fun i _ => hcarriedBy i,
    fun hnot => absurd hheld hnot, fun hgone => by rw [hexited, hgone]⟩
  constructor
  · rw [houtcomes]
    exact (List.tail_suffix _).trans hs.outcomes
  · intro i
    rw [hcarriedBy]
    exact hs.plan i
  · intro hall i
    rw [hcarried] at hall
    rw [hcarriedBy, hwrites]
    exact hs.writes hall i
  · rw [hreplied]
    exact hs.replied
  · rw [hexited, hcarried]
    exact hs.exited
  · rw [hcarried]
    exact hs.quiet

lemma timeStamper_ok (w : Workload n) (t : ServerThread n) (time : List Byte) (s : Shared n) :
    (timeStamper t time).Ok (protocol w) (.inr t) (fun held _ _ => held = []) [] s := by
  have hheld : ServerMutex.fileMutex ∈ [ServerMutex.fileMutex] := List.mem_singleton_self _
  rw [timeStamper]
  refine ⟨fun x hx => absurd hx List.not_mem_nil, fun s₀ _ _ => ?_⟩
  refine Prog.Ok.step_bind fun s₁ _ => ?_
  obtain ⟨⟨⟩, s₂, hopen, hguar, -⟩ := openFile_returns (.inr t) s₁ [.fileMutex]
  refine ⟨(), s₂, hopen, hguar, Prog.Ok.step_bind fun s₃ _ => ?_⟩
  obtain ⟨written, s₄, hwrite, hguar⟩ :=
    stampFile_returns t (FileServer.timeStringBase ++ time) s₃ hheld
  refine ⟨written, s₄, hwrite, hguar, Prog.Ok.step_bind fun s₅ _ => ?_⟩
  obtain ⟨⟨⟩, s₆, hclose, hguar, -⟩ := closeFile_returns (.inr t) s₅ [.fileMutex]
  exact ⟨(), s₆, hclose, hguar, hheld, fun s₇ _ => ⟨trivial, fun s₈ _ => rfl⟩⟩

end Aesd.FileSessions
