import Aesd.Server.Reassembly
import Aesd.Server.Reply

/-!
# The last call

When a wait for bytes times out while the server closes, the thread makes a last call of `recv`. It
looks at `lastCall` only when bytes have come: a last call that times out as well is followed by
another one.
-/

namespace Aesd

open Exec

section

variable {σ : Type}

/-- `ConnectionHandlerThread`: its loop, and the `close` of the connection behind it. -/
def connectionHandlerThread (file : FileCalls σ) (closeConnection : Exec Fault σ Unit)
    (rs : List Recv) : Exec Fault (HandlerThread σ) Unit := do
  let _ ← Machine.run (connectionHandlerStep file) rs
  let t ← read id
  if t.status = .finished then onShared closeConnection else pure ()

/-- The calls on the file return, between a state `closed` and a state `opened`. -/
structure FileCalls.Safe (file : FileCalls σ) (closed opened : σ → Prop) : Prop where
  openFile : ∀ s, closed s → Returns file.openFile s fun _ s' => opened s'
  handle : ∀ s seg, opened s → Returns (file.handle seg) s fun _ s' => opened s'
  closeFile : ∀ s, opened s → Returns file.closeFile s fun _ s' => closed s'

/-- What a `recv` of `recvSize` bytes guarantees: it is called by a running thread, and delivers no
more than it was asked for. -/
def Recv.Called (t : HandlerThread σ) (r : Recv) : Prop :=
  t.status = .running ∧ r.bytes.length ≤ t.recvSize

/-- The thread has left its loop and closed its connection, or the process has exited. -/
def HandlerThread.Gone (gone : σ → Prop) (t : HandlerThread σ) : Prop :=
  t.status = .exited ∨ t.status = .finished ∧ gone t.shared

/-- What holds between two calls of `recv`. -/
structure HandlerThread.Sound (closed : σ → Prop) (t : HandlerThread σ) : Prop where
  length_buffer : t.status = .running → t.buffer.length = bufferSize
  residualSize_le : t.status = .running → t.residualSize ≤ bufferSize
  closed : t.status ≠ .exited → closed t.shared

variable {file : FileCalls σ} {closed opened gone : σ → Prop} {t t' : HandlerThread σ} {r : Recv}
  {rs : List Recv}

/-! ### One call -/

lemma FileCalls.Safe.handleAll (h : file.Safe closed opened) (segs : List Segment) {s : σ}
    (hs : opened s) : Returns (handleAll file.handle segs) s fun _ s' => opened s' := by
  induction segs generalizing s with
  | nil => exact ⟨true, s, rfl, hs⟩
  | cons seg segs ih =>
    obtain ⟨ok, s₁, hseg, hs₁⟩ := h.handle s seg hs
    rw [Aesd.handleAll]
    refine .step hseg ?_
    split_ifs
    · exact ih hs₁
    · exact ⟨false, s₁, rfl, hs₁⟩

/-- A thread that has stopped. -/
lemma HandlerThread.Sound.stop (h : t.Sound closed) (hrun : t.status = .running) :
    HandlerThread.Sound closed { t with status := .finished } :=
  ⟨by simp, by simp, fun _ => h.closed (by simp [hrun])⟩

/-- A call that times out makes the next one the last, and any other call that is the last one ends
the loop. -/
lemma FileCalls.Safe.step (hfile : file.Safe closed opened) (h : t.Sound closed)
    (hr : r.Called t) :
    Returns (connectionHandlerStep file r) t fun _ t' => t'.Sound closed ∧
      ((∃ b, r = .timeout b ∧ t'.status = .running ∧ t'.lastCall = (t.lastCall || b)) ∨
        (∀ b, r ≠ .timeout b) ∧ (t.lastCall = true → t'.status ≠ .running)) := by
  obtain ⟨hrun, hlen⟩ := hr
  have hclosed : closed t.shared := h.closed (by simp [hrun])
  by_cases htimeout : ∃ b, r = .timeout b
  · obtain ⟨b, rfl⟩ := htimeout
    exact ⟨(), _, connectionHandlerStep_timeout file b hrun, ⟨h.length_buffer, h.residualSize_le,
      h.closed⟩, .inl ⟨b, rfl, hrun, rfl⟩⟩
  rw [not_exists] at htimeout
  by_cases hnil : r.bytes = []
  · exact ⟨(), _, connectionHandlerStep_ended file hrun hnil htimeout, h.stop hrun,
      .inr ⟨htimeout, by simp⟩⟩
  · obtain ⟨bytes, rfl⟩ := exists_data hnil
    change bytes ≠ [] at hnil
    change bytes.length ≤ t.recvSize at hlen
    obtain ⟨_, t', hstep, hend⟩ := connectionHandlerStep_data file hrun (h.length_buffer hrun)
      (h.residualSize_le hrun) hnil hlen (hfile.openFile t.shared hclosed)
      (fun s segs hs _ => hfile.handleAll segs hs) hfile.closeFile
    refine ⟨(), t', hstep, ?_⟩
    rcases hend with ⟨hexited, -⟩ | ⟨hafter, hshared⟩
    · exact ⟨⟨by simp [hexited], by simp [hexited], fun hne => absurd hexited hne⟩,
        .inr ⟨htimeout, by simp [hexited]⟩⟩
    · have hprocessed := length_processed (h.length_buffer hrun) (h.residualSize_le hrun) hlen
      have hrest := Delimited.length_rest_le newline (t.processed bytes)
      have hsize := h.residualSize_le hrun
      refine ⟨⟨fun _ => hafter.length_buffer, fun _ => ?_, fun _ => hshared⟩,
        .inr ⟨htimeout, fun hlast => ?_⟩⟩
      · rw [HandlerThread.recvSize] at hlen
        rw [hafter.residualSize_eq]
        omega
      · simp [hafter.status, hlast]

/-! ### Every run -/

lemma FileCalls.Safe.run (hfile : file.Safe closed opened) (h : t.Sound closed)
    (hrs : Machine.Meets (connectionHandlerStep file) Recv.Called rs t) :
    Returns (Machine.run (connectionHandlerStep file) rs) t fun _ t' => t'.Sound closed := by
  have hstep : ∀ r t (_ : Unit), HandlerThread.Sound closed t → r.Called t →
      Returns (connectionHandlerStep file r) t fun _ t' => t'.Sound closed :=
    fun r t _ h hr => (hfile.step h hr).mono fun _ _ h' => h'.1
  exact Machine.run_meets (I := fun _ t => t.Sound closed) (f := fun b _ => b) hstep rs (b := ())
    h hrs

/-- From the last call on. -/
lemma FileCalls.Safe.run_lastCall (hfile : file.Safe closed opened) (h : t.Sound closed)
    (hlast : t.lastCall = true)
    (hrs : Machine.Meets (connectionHandlerStep file) Recv.Called rs t) :
    Returns (Machine.run (connectionHandlerStep file) rs) t fun _ t' =>
      (rs.length ≤ 1 ∧ (rs ≠ [] → t'.status ≠ .running) ↔
        ∀ b, rs.head? ≠ some (.timeout b)) := by
  cases rs with
  | nil => exact ⟨[], t, rfl, iff_of_true ⟨Nat.zero_le 1, fun hne => absurd rfl hne⟩ (by simp)⟩
  | cons r rs =>
    obtain ⟨⟨⟩, t₁, hstep, hsound, hr⟩ := hfile.step h hrs.1
    have htail := hrs.2 () t₁ hstep
    obtain ⟨os, t', hrun', -⟩ := hfile.run hsound htail
    refine ⟨() :: os, t', Machine.run_cons hstep hrun', ?_⟩
    rcases hr with ⟨b, rfl, hrunning, -⟩ | ⟨hr, hstatus⟩
    · -- the call times out: the thread goes on
      refine iff_of_false ?_ (fun hall => hall b rfl)
      rintro ⟨hlen, hend⟩
      obtain rfl : rs = [] := List.eq_nil_of_length_eq_zero (by simpa using hlen)
      cases hrun'
      exact hend (List.cons_ne_nil _ _) hrunning
    · -- the call ends the loop, and so there is no other call
      have hnil : rs = [] := by
        cases rs with
        | nil => rfl
        | cons r' rs => exact absurd htail.1.1 (hstatus hlast)
      subst hnil
      cases hrun'
      refine iff_of_true ⟨le_rfl, fun _ => hstatus hlast⟩ (fun b hb => hr b ?_)
      exact Option.some.inj hb

/-- A law of every element of a list and of what follows it. -/
lemma forall_split_cons {α : Type} {P : α → List α → Prop} {a : α} {as : List α} :
    (∀ pre x post, a :: as = pre ++ x :: post → P x post) ↔
      P a as ∧ ∀ pre x post, as = pre ++ x :: post → P x post := by
  constructor
  · intro hall
    refine ⟨hall [] a as rfl, ?_⟩
    rintro pre x post rfl
    exact hall (a :: pre) x post rfl
  · rintro ⟨ha, hall⟩ pre x post heq
    cases pre with
    | nil =>
      cases heq
      exact ha
    | cons y pre =>
      cases heq
      exact hall pre x post rfl

lemma FileCalls.Safe.run_iff (hfile : file.Safe closed opened) (h : t.Sound closed)
    (hrs : Machine.Meets (connectionHandlerStep file) Recv.Called rs t) :
    Returns (Machine.run (connectionHandlerStep file) rs) t fun _ t' => t'.Sound closed ∧
      ((∀ pre r post, rs = pre ++ r :: post → r = .timeout true →
          post.length ≤ 1 ∧ (post ≠ [] → t'.status ≠ .running)) ↔
        ∀ pre r post, rs = pre ++ r :: post → r = .timeout true →
          ∀ b, post.head? ≠ some (.timeout b)) := by
  induction rs generalizing t with
  | nil =>
    refine ⟨[], t, rfl, h, iff_of_true ?_ ?_⟩ <;> intro pre r post heq <;>
      exact absurd heq.symm (List.append_ne_nil_of_right_ne_nil _ (List.cons_ne_nil _ _))
  | cons r rs ih =>
    obtain ⟨⟨⟩, t₁, hstep, hsound, hr⟩ := hfile.step h hrs.1
    have htail := hrs.2 () t₁ hstep
    obtain ⟨os, t', hrun, hsound', hiff⟩ := ih hsound htail
    refine ⟨() :: os, t', Machine.run_cons hstep hrun, hsound', ?_⟩
    rw [forall_split_cons, forall_split_cons, hiff]
    refine and_congr_left fun _ => forall_congr' fun htimeout => ?_
    subst htimeout
    rcases hr with ⟨b, hb, -, hlast⟩ | ⟨hr, -⟩
    · cases hb
      rw [Bool.or_true] at hlast
      exact (hfile.run_lastCall hsound hlast htail).post hrun
    · exact absurd rfl (hr true)

/-- Whatever the calls of `recv` bring: after a timeout while the server closes the thread calls
`recv` at most once more, and then leaves its loop and closes the connection, exactly if no such
timeout is followed by another one. -/
theorem last_call_iff (hfile : file.Safe closed opened) {closeConnection : Exec Fault σ Unit}
    (hclose : ∀ s, closed s → Returns closeConnection s fun _ s' => gone s')
    (buffer beyond residual : List Byte) {shared : σ} (hbuffer : buffer.length = bufferSize)
    (hshared : closed shared) (rs : List Recv)
    (hrs : Machine.Meets (connectionHandlerStep file) Recv.Called rs
      (.start buffer beyond residual shared)) :
    Returns (connectionHandlerThread file closeConnection rs)
      (.start buffer beyond residual shared) fun _ t =>
        (∀ pre r post, rs = pre ++ r :: post → r = .timeout true →
          post.length ≤ 1 ∧ (post ≠ [] → t.Gone gone)) ↔
        ∀ pre r post, rs = pre ++ r :: post → r = .timeout true →
          ∀ b, post.head? ≠ some (.timeout b) := by
  have hstart : HandlerThread.Sound closed (.start buffer beyond residual shared) :=
    ⟨fun _ => hbuffer, fun _ => Nat.zero_le _, fun _ => hshared⟩
  obtain ⟨os, t, hrun, hsound, hiff⟩ := hfile.run_iff hstart hrs
  -- the connection is closed if and only if the loop was left
  suffices hend : Returns (connectionHandlerThread file closeConnection rs)
      (.start buffer beyond residual shared) fun _ t' => t'.Gone gone ↔ t.status ≠ .running by
    refine hend.mono fun _ t' hgone => ?_
    rw [hgone]
    exact hiff
  refine .step hrun (.step (read_apply _ t) ?_)
  rw [id]
  split_ifs with hfinished
  · obtain ⟨⟨⟩, s, hs, hgone⟩ := hclose t.shared (hsound.closed (by simp [hfinished]))
    exact ⟨(), { t with shared := s }, onShared_of_ok hs,
      iff_of_true (.inr ⟨hfinished, hgone⟩) (by simp [hfinished])⟩
  · refine ⟨(), t, rfl, ?_⟩
    cases hstatus : t.status with
    | running =>
      refine iff_of_false ?_ (fun hne => hne rfl)
      rintro (hexited | ⟨hfin, -⟩)
      · rw [hstatus] at hexited
        cases hexited
      · exact hfinished hfin
    | finished => exact absurd hstatus hfinished
    | exited => exact iff_of_true (.inl hstatus) (by simp)

end

/-- The calls on the char device return. -/
lemma deviceFile_safe (cfg : KernelConfig) (fd : FileId) :
    (deviceFile cfg fd).Safe (fun t => t.system.Inv cfg ∧ t.system.fPos fd = none)
      (fun t => t.system.Inv cfg ∧ ∃ a, t.system.At fd a) where
  openFile := by
    rintro t ⟨hinv, hclosed⟩
    have hopen := sysCall_open (c := ⟨fd, .open, t.outcomes.headD {}⟩) hinv hclosed rfl
    obtain ⟨r, u, hcall, hopened, -, -⟩ :=
      nextCall_returns (m := fun o => sysCall cfg ⟨fd, .open, o⟩) (t := t)
        (Q := fun _ s' => s'.Inv cfg ∧ ∃ a, s'.At fd a)
        ⟨_, _, hopen, (sysCall_inv hinv _).post hopen, _, 0, Function.update_self _ _ _, rfl⟩
    exact .step hcall ⟨(), u, rfl, hopened⟩
  handle := by
    rintro t seg ⟨hinv, a, hat⟩
    exact (handleSegment_spec hinv hat seg).mono fun _ _ h => ⟨h.1, h.2.1⟩
  closeFile := by
    rintro t ⟨hinv, a, p, hp, -⟩
    have hrelease := sysCall_release (c := ⟨fd, .release, t.outcomes.headD {}⟩) hinv hp rfl
    obtain ⟨r, u, hcall, hclosed, -, -⟩ :=
      nextCall_returns (m := fun o => sysCall cfg ⟨fd, .release, o⟩) (t := t)
        (Q := fun _ s' => s'.Inv cfg ∧ s'.fPos fd = none)
        ⟨_, _, hrelease, (sysCall_inv hinv _).post hrelease, Function.update_self _ _ _⟩
    exact .step hcall ⟨(), u, rfl, hclosed⟩

/-- A last call that brings a line. -/
theorem last_call_iff_oneLine :
    Returns (connectionHandlerThread (deviceFile .usual 0)
      (update fun t => { t with outcomes := [] }) [.timeout true, .data [97, newline]])
      freshThread fun _ t => t.Gone fun t => t.outcomes = [] := by
  have hrs : Machine.Meets (connectionHandlerStep (deviceFile .usual 0)) Recv.Called
      [.timeout true, .data [97, newline]] freshThread := by
    refine ⟨⟨rfl, Nat.zero_le _⟩, ?_⟩
    rintro _ t ⟨⟩
    exact ⟨⟨rfl, by decide⟩, fun _ _ _ => trivial⟩
  have hinv : System.Inv .usual freshThread.shared.system :=
    System.Reachable.inv (Machine.Reachable.refl _)
  have hclose : ∀ t : Server, t.system.Inv .usual ∧ t.system.fPos 0 = none →
      Returns (update fun t : Server => { t with outcomes := [] } : Exec Fault Server Unit) t
        fun _ t' => t'.outcomes = [] := fun t _ => ⟨(), _, rfl, rfl⟩
  refine (last_call_iff (deviceFile_safe .usual 0) hclose (List.replicate bufferSize 0) []
    (List.replicate bufferSize 0) List.length_replicate ⟨hinv, rfl⟩ _ hrs).mono fun _ t hiff => ?_
  refine (hiff.mpr ?_ [] (.timeout true) [.data [97, newline]] rfl rfl).2 (List.cons_ne_nil _ _)
  refine forall_split_cons.mpr ⟨by simp, forall_split_cons.mpr ⟨by simp, ?_⟩⟩
  intro pre r post heq
  exact absurd heq.symm (List.append_ne_nil_of_right_ne_nil _ (List.cons_ne_nil _ _))

/-- The client stays silent while the server closes: every call of `recv` times out, and the thread
makes another one. -/
theorem last_call_repeats :
    Machine.Meets (connectionHandlerStep recordSegments) Recv.Called
        [.timeout true, .timeout true, .timeout true] zeroedThread ∧
      Returns (connectionHandlerThread recordSegments (pure ())
        [.timeout true, .timeout true, .timeout true]) zeroedThread fun _ t =>
          t.status = .running ∧
            ¬ ∀ pre (r : Recv) post,
              [.timeout true, .timeout true, .timeout true] = pre ++ r :: post →
                r = .timeout true → post.length ≤ 1 ∧ (post ≠ [] → t.Gone fun _ => True) := by
  refine ⟨⟨⟨rfl, Nat.zero_le _⟩, ?_⟩, (), { zeroedThread with lastCall := true }, rfl, rfl, ?_⟩
  · rintro _ t ⟨⟩
    refine ⟨⟨rfl, Nat.zero_le _⟩, ?_⟩
    rintro _ t ⟨⟩
    exact ⟨⟨rfl, Nat.zero_le _⟩, fun _ _ _ => trivial⟩
  · intro hall
    exact absurd (hall [] _ _ rfl rfl).1 (by decide)

end Aesd
