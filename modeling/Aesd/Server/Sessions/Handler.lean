import Aesd.Server.Sessions.Accesses

/-!
# A thread among the others

Whatever the others do in between, a thread does only what it may: it carries out the segments that
it cuts out of what it receives, one after the other, and sends a reply to each.
-/

namespace Aesd.Sessions

open Exec Threads Threaded

variable {n : ℕ} {cfg : KernelConfig} {w : Workload n} {i : Fin n} {s : Shared n}
  {done : List (List Byte)}

/-! ### Reading from two places -/

section

variable {content d e reply : List Byte} {a p q q' : ℕ}

lemma append_drop_eq (h : d <+: content.drop a) :
    d ++ content.drop (a + d.length) = content.drop a := by
  obtain ⟨rest, hrest⟩ := h
  rw [← List.drop_drop, ← hrest, List.drop_left]

lemma prefix_drop_append (h : d <+: content.drop a) (he : e <+: content.drop (a + d.length)) :
    d ++ e <+: content.drop a := by
  rw [← append_drop_eq h]
  exact (List.prefix_append_right_inj d).mpr he

lemma TwoRuns.nil : TwoRuns content p q [] := ⟨[], [], rfl, List.nil_prefix, List.nil_prefix⟩

/-- A read before the rest of the reply, after which the device is where it was or at its start. -/
lemma TwoRuns.read (hq : q' = q ∨ q' = 0) (hd : d <+: content.drop (p + q'))
    (h : TwoRuns content (p + d.length) q' reply) : TwoRuns content p q (d ++ reply) := by
  obtain ⟨front, back, rfl, hfront, hback⟩ := h
  rcases hq with rfl | rfl
  · refine ⟨d ++ front, back, (List.append_assoc ..).symm, prefix_drop_append hd ?_, ?_⟩
    · rwa [Nat.add_right_comm]
    · rwa [List.length_append, ← Nat.add_assoc]
  · exact ⟨[], d ++ (front ++ back), rfl, List.nil_prefix,
      prefix_drop_append hd (prefix_drop_append hfront hback)⟩

lemma ToTheEnd.nil (hq : q' = q ∨ q' = 0) (hend : content.length ≤ p + q') :
    ToTheEnd content p q [] := by
  rcases hq with rfl | rfl
  · exact .inl (List.drop_eq_nil_of_le hend).symm
  · exact .inr ⟨[], List.nil_prefix, (List.drop_eq_nil_of_le hend).symm⟩

lemma ToTheEnd.read (hq : q' = q ∨ q' = 0) (hd : d <+: content.drop (p + q'))
    (h : ToTheEnd content (p + d.length) q' reply) : ToTheEnd content p q (d ++ reply) := by
  rcases hq with rfl | rfl
  · rcases h with rfl | ⟨front, hfront, rfl⟩
    · rw [Nat.add_right_comm]
      exact .inl (append_drop_eq hd)
    · refine .inr ⟨d ++ front, prefix_drop_append hd ?_, ?_⟩
      · rwa [Nat.add_right_comm]
      · rw [List.length_append, ← Nat.add_assoc, List.append_assoc]
  · have hreply : reply = content.drop (p + d.length) := by
      rcases h with rfl | ⟨front, hfront, rfl⟩
      · rfl
      · exact append_drop_eq hfront
    rw [hreply]
    exact .inr ⟨[], List.nil_prefix, append_drop_eq hd⟩

end

/-! ### The reply -/

/-- What the thread knows when it has sent its reply. -/
structure Replied (cfg : KernelConfig) (w : Workload n) (i : Fin n) (done : List (List Byte))
    (p q : ℕ) (s : Shared n) (reply : List Byte) (u : Shared n) : Prop where
  knows : ∃ p' : ℕ, Knows cfg w i (some (p' : ℤ)) done u
  stays : Stays s u
  twoRuns : TwoRuns s.system.kernel.content p q reply
  toTheEnd : w.Quiet → ToTheEnd s.system.kernel.content p q reply

lemma Stays.content {u : Shared n} (h : Stays s u) :
    u.system.kernel.content = s.system.kernel.content := congrArg List.flatten h.lines

/-- A read that brings nothing has reached the end of the content, if nothing disturbs it. -/
lemma length_le_of_brings_nil (h : w.Quiet) (hos : s.outcomes <:+ w.outcomes) {a : ℕ}
    (hnil : (s.outcomes.headD {}).brings s.system.kernel.lines a = []) :
    s.system.kernel.content.length ≤ a := by
  obtain ⟨-, hint, hcopied⟩ := h.headD hos
  have hfirst : (s.outcomes.headD {}).interrupted.headD false = false := by
    cases hi : (s.outcomes.headD {}).interrupted with
    | nil => rfl
    | cons b bs =>
      cases b with
      | false => rfl
      | true => exact absurd (hi ▸ List.mem_cons_self) hint
  exact (brings_quiet_eq_nil_iff hfirst (by rw [hcopied]; rfl) _ _).mp hnil

lemma replyLoop_ok {fuel p q : ℕ} (h : Knows cfg w i (some (p : ℤ)) done s)
    (hq : s.system.kernel.dev.lseekPos = q) (hpos : 0 < fuel)
    (hfuel : s.system.kernel.content.length < p + fuel) :
    (replyLoop cfg i fuel).Ok (protocol cfg w) i
      (fun held reply u => held = [.fileMutex] ∧ Replied cfg w i done p q s reply u)
      [.fileMutex] s := by
  induction fuel generalizing s p q with
  | zero => omega
  | succ fuel ih =>
    rw [replyLoop]
    refine Prog.Ok.step_bind fun u hu => ?_
    have hknows := h.rely hu
    have hstays : Stays s u := Stays.rely (List.mem_singleton_self _) hu
    obtain ⟨q', hq', hmoved⟩ : ∃ q' : ℕ, u.system.kernel.dev.lseekPos = q' ∧ (q' = q ∨ q' = 0) := by
      rcases hstays.lseekPos with heq | heq
      · exact ⟨q, heq.trans hq, .inl rfl⟩
      · exact ⟨0, heq, .inr rfl⟩
    obtain ⟨r, u', hcall, hguar, hknows', hkernel, hstays', hbrings, hret⟩ :=
      read_returns hknows hq' [.fileMutex]
    have hpiece : r.delivered <+: s.system.kernel.content.drop (p + q') := by
      rw [hbrings, hstays.lines]
      exact (brings_prefix_piece _ _ _).trans (pieceFrom_isPrefix _ _)
    have hall := hstays.trans hstays'
    refine ⟨r, u', hcall, hguar, ?_⟩
    by_cases hnil : r.delivered = []
    · -- the last read
      rw [if_neg (by rw [hret]; exact not_not.mpr hnil)]
      intro v hv
      refine ⟨rfl, ⟨_, hknows'.rely hv⟩,
        hall.trans (Stays.rely (List.mem_singleton_self _) hv), .nil, fun hquiet => ?_⟩
      refine .nil hmoved ?_
      rw [← hstays.content]
      exact length_le_of_brings_nil hquiet hknows.inv.outcomes (hbrings.symm.trans hnil)
    · rw [if_pos (hret.mpr hnil)]
      have hone := List.length_pos_of_ne_nil hnil
      have hlen := hpiece.length_le
      rw [List.length_drop] at hlen
      have hrest := ih hknows' (q := q') (by rw [hkernel, hq']) (by omega)
        (by rw [hall.content]; omega)
      refine hrest.bind fun held reply v hreplied => ?_
      obtain ⟨rfl, ⟨p', hknows''⟩, hstays'', htwo, hend⟩ := hreplied
      rw [hall.content] at htwo hend
      intro x hx
      exact ⟨rfl, ⟨p', hknows''.rely hx⟩,
        (hall.trans hstays'').trans (Stays.rely (List.mem_singleton_self _) hx),
        .read hmoved hpiece htwo, fun hquiet => .read hmoved hpiece (hend hquiet)⟩

/-! ### The segments -/

/-- What the thread knows after some segments: it goes on behind them, or the process has exited. -/
def GoesOn (cfg : KernelConfig) (w : Workload n) (i : Fin n) (done : List (List Byte)) (ok : Bool)
    (held : List ServerMutex) (u : Shared n) : Prop :=
  if ok then held = [] ∧ ∃ p : ℕ, Knows cfg w i (some (p : ℤ)) done u else u.exited = true

/-- The reply to the segment that was carried out last. -/
lemma explains_of_replied {command : Commanded} {seg : Segment} {o : Outcomes} {p q : ℕ}
    {carried : List (Carried n)} {reply : List Byte} {u : Shared n} (hs : s.Inv cfg w)
    (hp : s.system.fPos i = some (p : ℤ)) (hq : s.system.kernel.dev.lseekPos = q)
    (hcarried : s.carried = carried ++ [⟨i, seg, o, command⟩])
    (h : Replied cfg w i done p q s reply u) (outcomes : List Outcomes) :
    Explains cfg w u.carried (i, ⟨⟨seg.bytes, command, s.system, reply⟩, outcomes⟩) := by
  rw [h.stays.carried]
  refine ⟨⟨⟨i, seg, o, command⟩, ?_, rfl, rfl, rfl⟩, ?_, p, q, hp, hq, h.twoRuns, h.toTheEnd⟩
  · rw [hcarried, List.getLast?_concat]
  · rw [hs.carried]

lemma handleSegment_ok {p : ℕ} (h : Knows cfg w i (some (p : ℤ)) done s) {seg : Segment}
    (hsize : seg.bytes.length = seg.segmentLen) (hplan : done ++ [seg.bytes] <+: w.plan i) :
    (handleSegment cfg i seg).Ok (protocol cfg w) i
      (fun held ok u => GoesOn cfg w i (done ++ [seg.bytes]) ok held u) [] s := by
  rw [handleSegment]
  refine ⟨fun x hx => absurd hx List.not_mem_nil, fun s₀ hs₀ hreplied₀ => ?_⟩
  refine Prog.Ok.step_bind fun s₁ hs₁ => ?_
  have hmem : ServerMutex.fileMutex ∈ [ServerMutex.fileMutex] := List.mem_singleton_self _
  have hknows₁ := (h.rely hs₀).rely hs₁
  have hstays₁ : Stays s₀ s₁ := Stays.rely hmem hs₁
  have hreplied₁ : s₁.replied.length = s₁.carried.length := by
    rw [hstays₁.replied, hstays₁.carried]
    exact hreplied₀
  obtain ⟨⟨command, t⟩, s₂, hcarry, hguar, hknows₂, rfl, hreplied₂, o, hcarried₂⟩ :=
    carryOut_returns hknows₁ hsize hplan hmem
  refine ⟨_, s₂, hcarry, hguar, ?_⟩
  have hlast : (⟨i, seg, o, command⟩ : Carried n) ∈ s₂.carried := by
    rw [hcarried₂]
    exact List.mem_append_right _ (List.mem_singleton_self _)
  dsimp only
  split_ifs with hfailed
  · -- the process exits, and keeps the mutex
    refine Prog.Ok.step_bind fun s₃ hs₃ => ⟨(), _, rfl, ?_, fun s₄ hs₄ => Rely.exited hs₄ rfl⟩
    have hstays₃ : Stays s₂ s₃ := Stays.rely hmem hs₃
    refine exit_returns (hknows₂.rely hs₃) (hstays₃.carried ▸ hlast) ?_ _
    simp [Carried.ok, hfailed]
  · obtain ⟨q, hq⟩ := Int.eq_ofNat_of_zero_le hknows₂.inv.lseekPos.1
    have hloop := replyLoop_ok hknows₂ hq (Nat.succ_pos _)
      (by omega : s₂.system.kernel.content.length < p + (s₂.system.kernel.content.length + 1))
    refine hloop.bind fun held reply s₃ hreplied => ?_
    obtain ⟨rfl, hsent⟩ := hreplied
    refine Prog.Ok.step_bind fun s₄ hs₄ => ?_
    have hstays₄ : Stays s₃ s₄ := Stays.rely hmem hs₄
    have hsent₄ : Replied cfg w i (done ++ [seg.bytes]) p q s₂ reply s₄ := by
      obtain ⟨⟨p', hknows⟩, hstays, htwo, hend⟩ := hsent
      exact ⟨⟨p', hknows.rely hs₄⟩, hstays.trans hstays₄, htwo, hend⟩
    have hlength : s₄.replied.length + 1 = s₄.carried.length := by
      rw [hsent₄.stays.replied, hsent₄.stays.carried, hreplied₂, hcarried₂, List.length_append,
        List.length_singleton, hreplied₁]
    obtain ⟨p', hknows₄⟩ := hsent₄.knows
    obtain ⟨hguar₄, hknows₅⟩ := reply_returns hknows₄ hlength
      (explains_of_replied hknows₂.inv hknows₂.fPos hq hcarried₂ hsent₄ s₂.outcomes) hmem
    refine ⟨(), _, rfl, hguar₄, hmem, fun s₆ hs₆ => ⟨?_, fun s₇ hs₇ => ⟨rfl, p', ?_⟩⟩⟩
    · have hstays₆ : Stays _ s₆ := Stays.rely hmem hs₆
      change s₆.replied.length = s₆.carried.length
      rw [hstays₆.replied, hstays₆.carried, List.length_append, List.length_singleton]
      exact hlength
    · exact (hknows₅.rely hs₆).rely hs₇

/-! ### The thread -/

/-- What is known when a thread has come with all that it receives. -/
def Ended (cfg : KernelConfig) (w : Workload n) (i : Fin n) (held : List ServerMutex)
    (_ : HandlerThread Unit) (s : Shared n) : Prop :=
  held = [] ∧ Knows cfg w i none (w.plan i) s ∨ s.exited = true

lemma deviceCalls_ok (cfg : KernelConfig) (w : Workload n) (i : Fin n) :
    (deviceCalls cfg i).Ok (protocol cfg w) i (w.segs i)
      (fun segs => Knows cfg w i none (segs.map Segment.bytes))
      (fun segs s => ∃ p : ℕ, Knows cfg w i (some (p : ℤ)) (segs.map Segment.bytes) s)
      (fun s => s.exited = true) where
  openFile := by
    intro done s hs
    refine Prog.Ok.step_bind fun s₁ hs₁ => ?_
    obtain ⟨r, s₂, hopen, hguar, hknows⟩ := open_returns (hs.rely hs₁) []
    exact ⟨r, s₂, hopen, hguar, fun u hu => ⟨rfl, 0, hknows.rely hu⟩⟩
  handle := by
    rintro done seg s ⟨p, hs⟩ hsize hsegs
    have hplan := hsegs.map Segment.bytes
    rw [List.map_append, List.map_singleton] at hplan
    refine (handleSegment_ok hs hsize hplan).mono fun held ok u hgoes => ?_
    rwa [List.map_append, List.map_singleton]
  closeFile := by
    rintro done s ⟨p, hs⟩
    refine Prog.Ok.step_bind fun s₁ hs₁ => ?_
    obtain ⟨r, s₂, hclose, hguar, hknows⟩ := close_returns (hs.rely hs₁) []
    exact ⟨r, s₂, hclose, hguar, fun u hu => ⟨rfl, hknows.rely hu⟩⟩
  closed_rely := fun done s u hs hu => hs.rely hu
  opened_rely := by
    rintro done s u ⟨p, hs⟩ hu
    exact ⟨p, hs.rely hu⟩
  gone_rely := fun held s u hs hu => Rely.exited hu hs

end Aesd.Sessions
