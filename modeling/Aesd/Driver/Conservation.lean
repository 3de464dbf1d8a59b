import Aesd.Driver.Device.Recorded
import Aesd.Library.StagedLaws

/-!
# What becomes of acknowledged bytes

A write that returns its full count has put its lines into the ring and what was left over on the
stage, unless there was no memory for the latter: nobody looks at that result of `StorePartial`.
-/

namespace Aesd

open Exec Kernel

variable {cfg : KernelConfig} {k : Kernel} {t t' : Kernel × Record}

/-- The bytes of an entry that was added to the ring. -/
def Event.entry : Event → Option (List Byte)
  | .added bytes => some bytes
  | _ => none

/-- All entries that were ever added to the ring, in order. -/
def added (record : Record) : List (List Byte) := record.filterMap Event.entry

/-- What was ever added to the ring, and then what is on the stage. -/
def kept (t : Kernel × Record) : List Byte := (added t.2).flatten ++ t.1.log.staged

lemma kept_of_added {es : List (List Byte)} (h : added t.2 = es) :
    kept t = es.flatten ++ t.1.log.staged := by
  rw [kept, h]

lemma added_append (record record' : Record) :
    added (record ++ record') = added record ++ added record' := List.filterMap_append ..

/-! ### Steps that add nothing to the ring -/

namespace Recorded

variable {es : List (List Byte)}

lemma keepsAdded_lift {α : Type} (m : KernelM α) :
    Keeps (fun t => added t.2 = es) (lift m : RecordedM α) :=
  .lift fun _ _ _ _ h _ => h

/-- What is recorded is no entry. -/
lemma keepsAdded_record {f : Kernel → Event} (hf : ∀ k, (f k).entry = none) :
    Keeps (fun t => added t.2 = es) (record f) := by
  rintro t a t' h heq
  cases heq
  rw [added_append, h, added, List.filterMap_cons_none (hf t.1), List.filterMap_nil,
    List.append_nil]

lemma keepsAdded_kfree (p : Option Ptr) : Keeps (fun t => added t.2 = es) (kfree p) :=
  keeps_kfree (fun _ => keepsAdded_lift _) (fun _ => keepsAdded_record fun _ => rfl) p

lemma keepsAdded_storePartial (cfg : KernelConfig) (buf : List Byte) (count : ℕ) :
    Keeps (fun t => added t.2 = es) (storePartial cfg buf count) := by
  have hstage : Keeps (fun t => added t.2 = es) (allocateStage cfg) :=
    keeps_allocateStage
      (keeps_kmalloc (keepsAdded_lift _) fun _ => keepsAdded_record fun _ => rfl)
      fun _ => keepsAdded_lift _
  refine keeps_storePartial hstage (keeps_fillStage ?_ ?_ ?_ (keepsAdded_lift _))
  · exact fun _ _ _ => keepsAdded_record fun _ => rfl
  · exact fun _ _ => keepsAdded_record fun _ => rfl
  · exact fun _ _ _ => keepsAdded_lift _

/-! ### Storing and flushing -/

/-- `StorePartial` appends its bytes, or fails. -/
lemma storePartial_kept (h : t.1.Inv cfg) (hsize : t.1.dev.entry.size = cfg.kmallocMaxSize)
    (buf : List Byte) (count : ℕ) (hpos : 0 < count) (hbuf : count ≤ buf.length)
    (hroom : t.1.dev.entry.endIdx + count ≤ cfg.kmallocMaxSize) :
    Returns (storePartial cfg buf count) t fun r t' =>
      t'.1.Inv cfg ∧ SameOutsideLog t.1 t'.1 ∧
      t'.1.log = (t.1.log.store (buf.take count)).2 ∧
      ((r = 0 ∧ (t.1.log.store (buf.take count)).1 = true ∧ t'.1.dev.entry.buffPtr.isSome ∧
          t'.1.dev.entry.endIdx = t.1.dev.entry.endIdx + count ∧
          kept t' = kept t ++ buf.take count) ∨
        (r = -ENOMEM ∧ (t.1.log.store (buf.take count)).1 = false ∧ kept t' = kept t)) := by
  obtain ⟨r, t', hcall, -, hinv, hsame, hlog, hr⟩ :=
    (erases_storePartial count).returns (Aesd.storePartial_spec h hsize buf count hpos hbuf hroom)
  have hadded : added t'.2 = added t.2 := keepsAdded_storePartial cfg buf count _ _ _ rfl hcall
  refine ⟨r, t', hcall, hinv, hsame, hlog, ?_⟩
  rcases StagedLog.store_cases t.1.log (buf.take count) with ⟨-, -, hstore⟩ | ⟨-, hstore⟩
  · rcases hr with ⟨-, hok, -⟩ | ⟨hr, hfail⟩
    · rw [hstore] at hok
      cases hok
    · refine .inr ⟨hr, hfail, ?_⟩
      rw [kept_of_added hadded, hlog, hstore]
      rfl
  · rcases hr with ⟨hr, hok, hsome, hidx⟩ | ⟨-, hfail⟩
    · refine .inl ⟨hr, hok, hsome, hidx, ?_⟩
      rw [kept_of_added hadded, hlog, hstore, kept, List.append_assoc]
      rfl
    · rw [hstore] at hfail
      cases hfail

/-- What `FlushPartial` records is what was on the stage. -/
lemma added_of_flushPartial {p : Ptr} (hp : t.1.dev.entry.buffPtr = some p)
    (hfree : .buffMutex ∉ t.1.held) {r : ℤ} (hcall : flushPartial t = .ok (r, t')) :
    added t'.2 = added t.2 ++
      if t.1.outcomes.interrupted.headD false then [] else [t.1.log.staged] := by
  obtain ⟨k, _⟩ := t
  obtain ⟨interrupted, ⟨k₁, record⟩, hlift, hrest⟩ := of_bind_ok hcall
  obtain ⟨hlock, hrecord⟩ := of_lift_ok hlift
  dsimp only at hp hfree hlock hrecord ⊢
  subst hrecord
  cases hi : k.outcomes.interrupted.headD false with
  | true =>
    rw [mutexLockInterruptible_of_interrupted _ hi] at hlock
    cases hlock
    cases hrest
    exact (List.append_nil _).symm
  | false =>
    rw [mutexLockInterruptible_of_free hi hfree] at hlock
    cases hlock
    obtain ⟨entry, _, hread, hrest⟩ := of_bind_ok hrest
    cases hread
    obtain ⟨_, _, hcheck, hrest⟩ := of_bind_ok hrest
    cases hcheck
    rw [if_neg (by simp [hp])] at hrest
    obtain ⟨freePtr, _, hadd, hrest⟩ := of_bind_ok hrest
    obtain ⟨_, _, hrecorded, hadd⟩ := of_bind_ok hadd
    cases hrecorded
    -- from here on nothing more is recorded but the release of the buffer that falls out
    have hend : ∀ es, Keeps (fun t => added t.2 = es) (do
        kfree freePtr
        lift (update fun k => { k with dev.entry.buffPtr := none, dev.entry.endIdx := 0 })
        lift (mutexUnlock .buffMutex)
        pure (0 : ℤ)) := by
      intro es
      exact (keepsAdded_kfree freePtr).bind fun _ => (keepsAdded_lift _).bind fun _ =>
        (keepsAdded_lift _).bind fun _ => .pure 0
    have hentry : k.heap.entryBytes ⟨k.dev.entry.buffPtr, k.dev.entry.endIdx⟩ = k.log.staged := by
      simp only [Heap.entryBytes, StagedLog.staged, log, stage, hp, Option.map_some,
        Option.getD_some]
    refine hend _ _ _ _ (keepsAdded_lift _ _ _ _ ?_ hadd) hrest
    change added (record ++ [.flush k.dev.entry.buffPtr] ++
        [.added (k.heap.entryBytes ⟨k.dev.entry.buffPtr, k.dev.entry.endIdx⟩)])
      = added record ++ [k.log.staged]
    rw [added_append, added_append, hentry]
    exact congrArg (· ++ [k.log.staged]) (List.append_nil _)

/-- `FlushPartial` moves bytes from the stage to the ring, or leaves them there. -/
lemma flushPartial_kept (h : t.1.Inv cfg) (hsome : t.1.dev.entry.buffPtr.isSome)
    (hfree : .buffMutex ∉ t.1.held) :
    Returns flushPartial t fun _ t' =>
      t'.1.Inv cfg ∧ SameOutsideLog t.1 t'.1 ∧
      t'.1.dev.entry.endIdx ≤ t.1.dev.entry.endIdx ∧ kept t' = kept t := by
  obtain ⟨p, hp⟩ := Option.isSome_iff_exists.mp hsome
  obtain ⟨r, t', hcall, -, hinv, hsame, hlog, hidx⟩ :=
    erases_flushPartial.returns (Aesd.flushPartial_spec h hsome hfree)
  refine ⟨r, t', hcall, hinv, hsame, hidx, ?_⟩
  have hadded := added_of_flushPartial hp hfree hcall
  have hint : t.1.log.interrupted.headD false = t.1.outcomes.interrupted.headD false := rfl
  rw [kept_of_added hadded, hlog, StagedLog.flush, hint]
  split_ifs
  · rw [List.append_nil]
    rfl
  · rw [List.flatten_append, List.flatten_singleton]
    exact List.append_nil _

/-- What the loop has passed is kept, as long as it does not give up. -/
lemma writeLoop_kept (h : t.1.Inv cfg) (hsize : t.1.dev.entry.size = cfg.kmallocMaxSize)
    (hfree : .buffMutex ∉ t.1.held) {buf : List Byte} {fuel base idx : ℕ}
    (hfuel : buf.length < fuel + (base + idx)) (hle : base + idx ≤ buf.length)
    (hroom : t.1.dev.entry.endIdx + (buf.length - base) ≤ cfg.kmallocMaxSize) :
    Returns (writeLoop cfg buf buf.length fuel base idx) t fun r t' =>
      ∀ base', r = some base' → kept t' ++ buf.drop base' = kept t ++ buf.drop base := by
  induction fuel generalizing t base idx with
  | zero => omega
  | succ fuel ih =>
    rw [writeLoop]
    split_ifs with hlt
    · rw [loadUser_of_lt hlt]
      refine .step (lift_ok rfl) ?_
      split_ifs with hc
      · -- the end of a line
        obtain ⟨r, t₁, hk₁, h₁, hsame₁, -, hr⟩ :=
          storePartial_kept h hsize (buf.drop base) (idx + 1) (by omega)
            (by rw [List.length_drop]; omega) (by omega)
        refine .step hk₁ ?_
        rcases hr with ⟨rfl, -, hsome₁, hidx₁, hkept₁⟩ | ⟨rfl, -⟩
        · obtain ⟨r, t₂, hk₂, h₂, hsame₂, hidx₂, hkept₂⟩ :=
            flushPartial_kept h₁ hsome₁ (by rw [hsame₁.held]; exact hfree)
          have hsame := hsame₁.trans hsame₂
          refine .step hk₂ ?_
          refine (ih h₂ (hsame.size.trans hsize) (by rw [hsame.held]; exact hfree)
            (by omega) (by omega) (by omega)).mono ?_
          intro r t' hkept base' hbase'
          rw [hkept base' hbase', hkept₂, hkept₁, List.append_assoc, ← List.drop_drop,
            List.take_append_drop]
        · refine ⟨none, t₁, rfl, ?_⟩
          intro base' hbase'
          cases hbase'
      · exact ih h hsize hfree (by omega) (by omega) hroom
    · refine ⟨some base, t, rfl, ?_⟩
      intro base' hbase'
      cases hbase'
      rfl

open Delimited in
/-- A write that is not refused keeps its lines, and what is left over if there is memory for it. -/
lemma writeLocked_kept (h : t.1.Inv cfg) (hsize : t.1.dev.entry.size = cfg.kmallocMaxSize)
    (hfree : .buffMutex ∉ t.1.held) (data : List Byte) :
    Returns (writeLocked cfg data data.length) t fun r t' =>
      SameOutsideLog t.1 t'.1 ∧ (r = data.length →
        (t.1.log.LosesRest newline data ∧ kept t' = kept t ++ (lines newline data).flatten) ∨
        (¬ t.1.log.LosesRest newline data ∧ kept t' = kept t ++ data)) := by
  have hfits := cfg.fits
  have hcheck := refuses_iff h hsize data.length
  have hneg : -ENOMEM ≠ (data.length : ℤ) := by
    unfold ENOMEM
    omega
  rw [writeLocked]
  refine .step (lift_ok (read_apply _ t.1)) ?_
  by_cases hroom : cfg.kmallocMaxSize < t.1.log.staged.length + data.length
  · rw [if_pos (hcheck.mpr hroom)]
    exact ⟨-ENOMEM, t, rfl, SameOutsideLog.refl t.1, fun hr => absurd hr hneg⟩
  rw [if_neg (hcheck.not.mpr hroom)]
  rw [h.length_staged] at hroom
  have hret : toLoff data.length = data.length := toLoff_of_bounds (by omega) (by omega)
  obtain ⟨r, t₁, hloop, hkept⟩ := writeLoop_kept h hsize hfree
    (by omega : data.length < data.length + 1 + (0 + 0)) (by omega) (by omega)
  obtain ⟨h₁, hsame₁, hlog₁, hr⟩ := (Aesd.writeLoop_spec h hsize hfree
    (by omega : data.length < data.length + 1 + (0 + 0)) (by omega) (by simp) (by omega)).post
    ((erases_writeLoop _ _ _ _).of_ok hloop)
  rw [List.drop_zero] at hlog₁ hr hkept
  refine .step hloop ?_
  rcases hr with ⟨base, rfl, hwritten, hle, hrest, hroom₁⟩ | ⟨rfl, -⟩
  · -- the lines are in the ring
    obtain ⟨_, hwrite, -, -⟩ := StagedLog.writeLines_eq (t := t.1.log) h.length_lines_le
      (lines newline data)
    rw [hwrite] at hwritten
    have hmemory := StagedLog.store_writeLines maxWriteOperations _ (rest newline data) hwritten
    rw [← hlog₁] at hmemory
    have hlines : kept t₁ = kept t ++ (lines newline data).flatten := by
      have hbase := hkept base rfl
      rw [hrest] at hbase
      conv_rhs at hbase => rw [← flatten_lines_append_rest newline data, ← List.append_assoc]
      exact List.append_cancel_right hbase
    have hdata : kept t ++ data = kept t₁ ++ rest newline data := by
      rw [hlines, List.append_assoc, flatten_lines_append_rest]
    change Returns (if base < data.length then _ else _) t₁ _
    by_cases hlt : base < data.length
    · -- a line is left over
      rw [if_pos hlt]
      obtain ⟨hcount, htake, hne⟩ := leftOver_of_lt hrest hlt (by omega)
      obtain ⟨r, t₂, hk₂, -, hsame₂, -, hr⟩ :=
        storePartial_kept h₁ (hsame₁.size.trans hsize) (data.drop base)
          (subSize data.length base) (by omega) (by rw [List.length_drop]; omega) (by omega)
      rw [htake] at hr
      refine .step hk₂ ⟨toLoff data.length, t₂, rfl, hsame₁.trans hsame₂, fun _ => ?_⟩
      rcases hr with ⟨-, hstored, -, -, hkept₂⟩ | ⟨-, hfails, hkept₂⟩
      · refine .inr ⟨?_, hkept₂.trans hdata.symm⟩
        rintro ⟨-, -, hnone⟩
        exact hnone (hmemory.symm.trans hstored)
      · refine .inl ⟨⟨hne, hwritten, ?_⟩, hkept₂.trans hlines⟩
        rw [← hmemory, hfails]
        exact Bool.false_ne_true
    · -- the data ends with a line
      rw [if_neg hlt]
      have hnil := leftOver_of_not_lt hrest hlt
      refine ⟨toLoff data.length, t₁, rfl, hsame₁, fun _ => .inr ⟨?_, ?_⟩⟩
      · rintro ⟨hne, -⟩
        exact hne hnil
      · rw [hdata, hnil, List.append_nil]
  · exact ⟨-ENOMEM, t₁, rfl, hsame₁, fun hr => absurd hr hneg⟩

end Recorded

/-! ### Writes -/

/-- The write has something left over behind its lines for which there will be no memory. -/
def Kernel.LosesRest (k : Kernel) (data : List Byte) : Prop :=
  StagedLog.LosesRest newline data { k.log with interrupted := k.log.interrupted.tail }

/-- A write that returns its full count keeps its data, unless it loses what is left over. -/
lemma Kernel.Idle.userWrite_kept (h : t.1.Idle cfg) {data : List Byte}
    (hcall : Recorded.userWrite cfg data t = .ok ((data.length : ℤ), t')) :
    (t.1.LosesRest data ∧ kept t' = kept t ++ (Delimited.lines newline data).flatten) ∨
    (¬ t.1.LosesRest data ∧ kept t' = kept t ++ data) := by
  obtain ⟨k, record⟩ := t
  dsimp only at h ⊢
  refine Returns.post (Q := fun r t' => r = (data.length : ℤ) →
    (k.LosesRest data ∧ kept t' = kept (k, record) ++ (Delimited.lines newline data).flatten) ∨
    (¬ k.LosesRest data ∧ kept t' = kept (k, record) ++ data)) ?_ hcall rfl
  refine .step (lift_ok (update_apply _ k)) ?_
  cases hi : k.outcomes.interrupted.headD false with
  | true =>
    refine .step (lift_ok (mutexLockInterruptible_of_interrupted _ hi)) ?_
    refine ⟨-ERESTARTSYS, _, rfl, fun hr => ?_⟩
    unfold ERESTARTSYS at hr
    omega
  | false =>
    refine .step (lift_ok (mutexLockInterruptible_of_free hi (by simp [h.held]))) ?_
    obtain ⟨r, t₁, hk₁, hsame, hkept⟩ := Recorded.writeLocked_kept (t := ({ k with
      dev.entry.size := cfg.kmallocMaxSize
      outcomes.interrupted := k.outcomes.interrupted.tail
      held := .entryMutex :: k.held }, record)) { h.inv with } rfl (by simp [h.held]) data
    refine .step hk₁ (.step (lift_ok (mutexUnlock_of_held _ hsame.held)) ?_)
    exact ⟨r, _, rfl, hkept⟩

/-- The bytes of a run whose writes all return their full count. -/
lemma Kernel.Idle.run_kept {writes : List (List Byte)} (h : t.1.Idle cfg)
    (hrun : Machine.run (Recorded.userWrite cfg) writes t
      = .ok (writes.map fun data => (data.length : ℤ), t')) :
    (Machine.Meets (userWrite cfg) (fun k data => ¬ k.LosesRest data) writes t.1 ∧
      kept t' = kept t ++ writes.flatten) ∨
    (¬ Machine.Meets (userWrite cfg) (fun k data => ¬ k.LosesRest data) writes t.1 ∧
      (kept t').length < (kept t ++ writes.flatten).length) := by
  induction writes generalizing t with
  | nil =>
    cases hrun
    exact .inl ⟨trivial, (List.append_nil _).symm⟩
  | cons data writes ih =>
    obtain ⟨r, rets, t₁, hrets, hcall, hrun⟩ := Machine.of_run_cons hrun
    obtain ⟨rfl, rfl⟩ := List.cons.inj hrets
    have herased := (Recorded.erases_userWrite data).of_ok hcall
    obtain ⟨hidle, -⟩ := (h.userWrite_spec data).post herased
    rw [Machine.meets_cons herased]
    have hrest := ih hidle hrun
    rcases h.userWrite_kept hcall with ⟨hloses, hkept⟩ | ⟨hloses, hkept⟩
    · -- the bytes that are lost never come back
      have hne := hloses.1
      have hlen := congrArg List.length (Delimited.flatten_lines_append_rest newline data)
      have hpos := List.length_pos_of_ne_nil hne
      refine .inr ⟨fun hall => hall.1 hloses, ?_⟩
      have hle : (kept t').length ≤ (kept t₁ ++ writes.flatten).length := by
        rcases hrest with ⟨-, heq⟩ | ⟨-, hlt⟩
        · rw [heq]
        · exact hlt.le
      rw [hkept] at hle
      simp only [List.length_append, List.flatten_cons] at hle hlen ⊢
      omega
    · rw [List.flatten_cons, ← List.append_assoc, ← hkept]
      exact hrest.imp (fun hall => ⟨⟨hloses, hall.1⟩, hall.2⟩)
        fun hlost => ⟨fun hall => hlost.1 hall.2, hlost.2⟩

/-- After any run of writes that all returned their full count: all that was ever added to the ring,
and then the stage, is the data of the writes, exactly if none of them lost what was left over. -/
theorem acknowledged_kept_iff (cfg : KernelConfig) (writes : List (List Byte)) (o : Outcomes) :
    Returns (Machine.run (Recorded.userWrite cfg) writes) ({ Kernel.init with outcomes := o }, [])
      fun rets t =>
        Machine.run (userWrite cfg) writes { Kernel.init with outcomes := o } = .ok (rets, t.1) ∧
        (rets = (writes.map fun data => (data.length : ℤ)) →
          ((added t.2).flatten ++ t.1.log.staged = writes.flatten ↔
            Machine.Meets (userWrite cfg) (fun k data => ¬ k.LosesRest data) writes
              { Kernel.init with outcomes := o })) := by
  have herases : Erases (Machine.run (Recorded.userWrite cfg) writes)
      (Machine.run (userWrite cfg) writes) := Erases.run Recorded.erases_userWrite writes
  obtain ⟨rets, t, hrun, herased, -⟩ := herases.returns
    (t := ({ Kernel.init with outcomes := o }, [])) ((init_idle cfg o).run_userWrite writes)
  refine ⟨rets, t, hrun, herased, ?_⟩
  rintro rfl
  rcases (init_idle cfg o).run_kept hrun with ⟨hmeets, hkept⟩ | ⟨hmeets, hlen⟩
  · exact iff_of_true hkept hmeets
  · refine iff_of_false (fun hkept => ?_) hmeets
    have heq : kept t = writes.flatten := hkept
    rw [heq] at hlen
    exact lt_irrefl _ hlen

/-- There is no memory for the stage: the write returns 1 and its byte is nowhere. -/
theorem acknowledged_lost :
    ∃ t, Machine.run (Recorded.userWrite .usual) [[97]]
        ({ Kernel.init with outcomes := { allocFails := [true] } }, []) = .ok ([1], t) ∧
      (added t.2).flatten ++ t.1.log.staged = [] := by
  have hlost : Except.map (fun q => (q.1, kept q.2)) (Machine.run (Recorded.userWrite .usual) [[97]]
      ({ Kernel.init with outcomes := { allocFails := [true] } }, [])) = .ok ([1], []) := by
    decide +kernel
  obtain ⟨⟨rets, t⟩, hrun, ht⟩ := exists_of_map_ok hlost
  obtain rfl : rets = [1] := congrArg Prod.fst ht
  exact ⟨t, hrun, congrArg Prod.snd ht⟩

end Aesd
