import Aesd.Driver.Device.Invariant

/-!
# Writing refines the staged log

Each function on the write path does to the device what the staged log does to the stored lines and
the stage, under every outcome of the allocations and of the locks, and none of them faults.
-/

namespace Aesd

open Exec Kernel

variable {cfg : KernelConfig} {k : Kernel}

/-! ### Storing bytes -/

/-- The bytes of a buffer after `data` was written at index `start`. -/
def overwrite (f : ℕ → Byte) (start : ℕ) : List Byte → ℕ → Byte
  | [] => f
  | c :: cs => overwrite (Function.update f start c) (start + 1) cs

lemma map_range_overwrite (f : ℕ → Byte) (start : ℕ) (data : List Byte) :
    (List.range (start + data.length)).map (overwrite f start data)
      = (List.range start).map f ++ data := by
  induction data generalizing f start with
  | nil => simp [overwrite]
  | cons c cs ih =>
    have hlen : start + (c :: cs).length = start + 1 + cs.length := by
      simp only [List.length_cons]
      omega
    have hold : (List.range start).map (Function.update f start c) = (List.range start).map f :=
      List.map_congr_left fun j hj =>
        Function.update_of_ne (by simp only [List.mem_range] at hj; omega) _ _
    rw [hlen, overwrite, ih, List.range_succ, List.map_append, hold, List.map_singleton,
      Function.update_self, List.append_assoc, List.singleton_append]

/-- The copy loop writes the next `n` bytes of the user buffer behind the staged ones. -/
lemma storeBytes_eq (buf : List Byte) {i n : ℕ} {p : Ptr} {b : Block}
    (hp : k.dev.entry.buffPtr = some p) (hb : k.heap.block p = some b)
    (hsize : k.dev.entry.endIdx + i + n ≤ b.size) (hbuf : i + n ≤ buf.length) :
    storeBytes buf i n k = .ok ((), { k with
      heap := k.heap.set p (some { b with
        bytes := overwrite b.bytes (k.dev.entry.endIdx + i) ((buf.drop i).take n) }) }) := by
  induction n generalizing k i b with
  | zero =>
    have hself : k.heap.set p (some b) = k.heap := by
      apply List.ext_getElem?
      intro q
      by_cases hq : q = p
      · subst hq
        have hlt := Heap.lt_length_of_block hb
        rw [List.getElem?_set_self hlt]
        simp only [Heap.block, Option.join_eq_some_iff] at hb
        exact hb.symm
      · rw [List.getElem?_set_ne (Ne.symm hq)]
    simp only [storeBytes, pure_apply, List.take_zero, overwrite, hself]
  | succ n ih =>
    have hi : i < buf.length := by omega
    have hload : loadUser buf i = pure (f := KernelM) buf[i] := by
      simp only [loadUser, List.getElem?_eq_getElem hi]
    have hstore : storeByte k.dev.entry.buffPtr (k.dev.entry.endIdx + i) buf[i] k
        = .ok ((), { k with heap := k.heap.set p (some { b with
            bytes := Function.update b.bytes (k.dev.entry.endIdx + i) buf[i] }) }) := by
      have hlt : k.dev.entry.endIdx + i < b.size := by omega
      simp only [storeByte, hp, hb, if_pos hlt]
    have htake : (buf.drop i).take (n + 1) = buf[i] :: (buf.drop (i + 1)).take n := by
      rw [List.drop_eq_getElem_cons hi, List.take_succ_cons]
    rw [storeBytes, read_bind_apply, hload, pure_bind_apply, bind_ok hstore]
    have hb' := Heap.block_set_self (some { b with
      bytes := Function.update b.bytes (k.dev.entry.endIdx + i) buf[i] })
      (Heap.lt_length_of_block hb)
    have hrest := ih (k := { k with heap := k.heap.set p (some { b with
      bytes := Function.update b.bytes (k.dev.entry.endIdx + i) buf[i] }) }) (i := i + 1) hp hb'
      (by simp only; omega) (by omega)
    rw [hrest]
    simp only [List.set_set, htake, overwrite, Nat.add_assoc]

/-- Filling a stage that has its buffer and enough room. -/
lemma fillStage_spec (h : k.Inv cfg) (hsize : k.dev.entry.size = cfg.kmallocMaxSize)
    (hsome : k.dev.entry.buffPtr.isSome) {buf : List Byte} (count : ℕ)
    (hroom : k.dev.entry.endIdx + count ≤ cfg.kmallocMaxSize) (hbuf : count ≤ buf.length) :
    Returns (fillStage buf count) k fun r k' =>
      r = 0 ∧ k'.Inv cfg ∧ SameOutsideLog k k' ∧ k'.dev.entry.buffPtr.isSome ∧
        k'.dev.entry.endIdx = k.dev.entry.endIdx + count ∧ k'.lines = k.lines ∧
        k'.stage = some (k.stage.getD [] ++ buf.take count) ∧ k'.outcomes = k.outcomes := by
  obtain ⟨p, hp⟩ := Option.isSome_iff_exists.mp hsome
  obtain ⟨b, hb, hbsize⟩ := h.exists_block_stage hp
  have hfits := cfg.fits
  have hadd : addSize k.dev.entry.endIdx count = k.dev.entry.endIdx + count :=
    addSize_eq (by omega)
  have hstore := storeBytes_eq buf (i := 0) (n := count) hp hb (by omega) (by omega)
  rw [Nat.add_zero, List.drop_zero] at hstore
  have hcheck : ¬ addSize k.dev.entry.endIdx count > k.dev.entry.size := by omega
  refine ⟨0, _, by rw [fillStage, read_bind_apply, if_neg hcheck, bind_ok hstore]; rfl, ?_⟩
  have hblock := Heap.block_set_self (some { b with
    bytes := overwrite b.bytes k.dev.entry.endIdx (buf.take count) }) (Heap.lt_length_of_block hb)
  refine ⟨rfl, ?_, ⟨rfl, rfl, rfl, rfl, rfl⟩, hsome, hadd, ?_, ?_, rfl⟩
  · exact { wf := h.wf
            owns := h.owns.store hb _
            entries := h.entries
            endIdx_le := by simp only [hadd]; exact hroom
            endIdx_eq := fun hnone => by simp [hp] at hnone
            lseekPos_bounds := h.lseekPos_bounds }
  · exact lines_congr rfl fun e he q hq => Heap.block_set_of_ne _ (h.ne_stage he hq hp)
  · have hlen : (buf.take count).length = count := by simp [hbuf]
    simp only [stage, hp, Option.map_some, Option.getD_some, hadd, Heap.bytesAt_of_block hblock,
      Heap.bytesAt_of_block hb]
    rw [← map_range_overwrite, hlen]

/-! ### The stage -/

lemma kmalloc_of_fails (size : ℕ) (hf : k.outcomes.allocFails.headD false = true) :
    kmalloc size k
      = .ok (none, { k with outcomes.allocFails := k.outcomes.allocFails.tail }) := by
  simp only [kmalloc, hf, if_true]

lemma kmalloc_of_succeeds (size : ℕ) (hf : k.outcomes.allocFails.headD false = false) :
    kmalloc size k = .ok (some k.heap.length, { k with
      outcomes.allocFails := k.outcomes.allocFails.tail
      heap := k.heap ++ [some ⟨size, k.outcomes.garbage k.heap.length⟩] }) := by
  simp only [kmalloc, hf, Bool.false_eq_true, if_false]

/-- Allocation of the stage: it has a buffer already, or there is no memory and nothing changes, or
it gets a fresh buffer. -/
lemma allocateStage_spec (h : k.Inv cfg) :
    (∃ p, k.dev.entry.buffPtr = some p ∧ allocateStage cfg k = .ok (true, k)) ∨
    (k.dev.entry.buffPtr = none ∧ k.outcomes.allocFails.headD false = true ∧
      allocateStage cfg k
        = .ok (false, { k with outcomes.allocFails := k.outcomes.allocFails.tail })) ∨
    (k.dev.entry.buffPtr = none ∧ k.outcomes.allocFails.headD false = false ∧
      ∃ k', allocateStage cfg k = .ok (true, k') ∧ k'.Inv cfg ∧ SameOutsideLog k k' ∧
        k'.dev.entry.buffPtr.isSome ∧ k'.dev.entry.endIdx = 0 ∧ k'.lines = k.lines ∧
        k'.stage = some [] ∧ k'.outcomes.interrupted = k.outcomes.interrupted ∧
        k'.outcomes.allocFails = k.outcomes.allocFails.tail) := by
  cases hp : k.dev.entry.buffPtr with
  | some p => exact Or.inl ⟨p, rfl, by simp [allocateStage, hp]⟩
  | none =>
    right
    cases hf : k.outcomes.allocFails.headD false with
    | true =>
      refine Or.inl ⟨rfl, rfl, ?_⟩
      simp only [allocateStage, read_bind_apply, hp, if_true]
      rw [bind_ok (kmalloc_of_fails _ hf)]
      rfl
    | false =>
      refine Or.inr ⟨rfl, rfl, { k with
        dev.entry.buffPtr := some k.heap.length
        heap := k.heap ++ [some ⟨cfg.kmallocMaxSize, k.outcomes.garbage k.heap.length⟩]
        outcomes.allocFails := k.outcomes.allocFails.tail }, ?_, ?_, ⟨rfl, rfl, rfl, rfl, rfl⟩, rfl,
        h.endIdx_eq hp, ?_, ?_, rfl, rfl⟩
      · simp only [allocateStage, read_bind_apply, hp, if_true]
        rw [bind_ok (kmalloc_of_succeeds _ hf)]
        rfl
      · have hptrs : k.dev.ptrs = k.dev.buff.live.filterMap BufferEntry.buffptr := by
          simp [Device.ptrs, hp]
        exact { wf := h.wf
                owns := by
                  have := h.owns.alloc (k.outcomes.garbage k.heap.length)
                  rw [hptrs] at this
                  exact this
                entries := h.entries
                endIdx_le := h.endIdx_le
                endIdx_eq := fun hnone => by simp at hnone
                lseekPos_bounds := h.lseekPos_bounds }
      · refine lines_congr rfl fun e he q hq => Heap.block_append_of_ne _ ?_
        rintro rfl
        exact h.owns.length_notMem (Inv.mem_ptrs he hq)
      · simp [stage, h.endIdx_eq hp, Heap.bytesAt, Heap.block_append_length]

/-- `StorePartial` stores its bytes on the stage, or fails and leaves everything as it was. -/
lemma storePartial_spec (h : k.Inv cfg) (hsize : k.dev.entry.size = cfg.kmallocMaxSize)
    (buf : List Byte) (count : ℕ) (hpos : 0 < count) (hbuf : count ≤ buf.length)
    (hroom : k.dev.entry.endIdx + count ≤ cfg.kmallocMaxSize) :
    Returns (storePartial cfg buf count) k fun r k' =>
      k'.Inv cfg ∧ SameOutsideLog k k' ∧ k'.log = (k.log.store (buf.take count)).2 ∧
      ((r = 0 ∧ (k.log.store (buf.take count)).1 = true ∧ k'.dev.entry.buffPtr.isSome ∧
          k'.dev.entry.endIdx = k.dev.entry.endIdx + count) ∨
        (r = -ENOMEM ∧ (k.log.store (buf.take count)).1 = false)) := by
  rw [storePartial, if_neg (by omega)]
  rcases allocateStage_spec h with ⟨p, hp, halloc⟩ | ⟨hp, hf, halloc⟩ |
    ⟨hp, hf, k₁, halloc, h₁, hsame, hsome, hidx, hlines, hstage, hint, hfails⟩
  · obtain ⟨r, k', hk', rfl, hinv, hsame, hsome, hidx, hlines, hstage', hout⟩ :=
      fillStage_spec h hsize (by simp [hp]) count hroom hbuf
    have hstage : k.stage = some (k.heap.bytesAt p k.dev.entry.endIdx) := by simp [stage, hp]
    refine ⟨0, k', by rw [bind_ok halloc]; exact hk', hinv, hsame, ?_,
      Or.inl ⟨rfl, ?_, hsome, hidx⟩⟩
    · simp only [log, StagedLog.store, hlines, hstage', hstage, hout, Option.getD_some]
    · simp only [log, StagedLog.store, hstage]
  · have hnone : k.stage = none := stage_eq_none_iff.mpr hp
    refine ⟨-ENOMEM, { k with outcomes.allocFails := k.outcomes.allocFails.tail },
      by rw [bind_ok halloc]; rfl, { h with }, ⟨rfl, rfl, rfl, rfl, rfl⟩, ?_, Or.inr ⟨rfl, ?_⟩⟩
    · simp only [log, StagedLog.store, hnone, hf, if_true, StagedLog.mk.injEq, and_true]
      exact ⟨rfl, hnone⟩
    · simp only [log, StagedLog.store, hnone, hf, if_true]
  · have hnone : k.stage = none := stage_eq_none_iff.mpr hp
    have hidx₀ := h.endIdx_eq hp
    obtain ⟨r, k', hk', rfl, hinv, hsame', hsome', hidx', hlines', hstage', hout⟩ :=
      fillStage_spec h₁ (hsame.size.trans hsize) hsome count (by omega) hbuf
    refine ⟨0, k', by rw [bind_ok halloc]; exact hk', hinv, hsame.trans hsame', ?_,
      Or.inl ⟨rfl, ?_, hsome', by omega⟩⟩
    · simp only [log, StagedLog.store, hnone, hf, Bool.false_eq_true, if_false, hlines', hlines,
        hstage', hstage, hout, hint, hfails, Option.getD_some, List.nil_append]
    · simp only [log, StagedLog.store, hnone, hf, Bool.false_eq_true, if_false]

/-! ### Flushing -/

/-- A push into the ring releases the buffer that falls out, and no other: the entries that are left
own what they owned, and the pushed one owns the buffer of the stage. -/
lemma kfree_oldest (h : k.Inv cfg) {p : Ptr} (hp : k.dev.entry.buffPtr = some p) (n : ℕ) :
    ∃ heap' : Heap,
      (∀ k₁ : Kernel, k₁.heap = k.heap → kfree (k.dev.buff.oldest.bind BufferEntry.buffptr) k₁
        = .ok ((), { k₁ with heap := heap' })) ∧
      heap'.Owns cfg.kmallocMaxSize
        ((pushLast maxWriteOperations k.dev.buff.live ⟨some p, n⟩).filterMap BufferEntry.buffptr) ∧
      ∀ e ∈ pushLast maxWriteOperations k.dev.buff.live ⟨some p, n⟩, ∀ q, e.buffptr = some q →
        heap'.block q = k.heap.block q := by
  have howns := h.owns
  rw [Device.ptrs, hp, Option.toList_some, List.singleton_append] at howns
  have hnum := h.wf.numEntries_le
  cases hf : k.dev.buff.full with
  | false =>
    have hlt : k.dev.buff.live.length < maxWriteOperations := by
      have hne : k.dev.buff.numEntries ≠ maxWriteOperations := fun heq => by
        simp [h.wf.full_iff.mpr heq] at hf
      rw [CircularBuffer.length_live]
      omega
    refine ⟨k.heap, fun k₁ hk₁ => ?_, ?_, fun e _ q _ => rfl⟩
    · simp [CircularBuffer.oldest, hf, kfree, ← hk₁]
    · rw [pushLast_of_lt hlt, List.filterMap_append]
      exact howns.perm (List.perm_append_singleton _ _).symm
  | true =>
    have hlen : k.dev.buff.live.length = maxWriteOperations := by
      rw [CircularBuffer.length_live]
      exact h.wf.full_iff.mp hf
    obtain ⟨e₀, es, hes⟩ : ∃ e₀ es, k.dev.buff.live = e₀ :: es :=
      ⟨_, _, CircularBuffer.live_eq_cons_of_full hf⟩
    obtain ⟨q, hq, -⟩ := h.entries e₀ (by simp [hes])
    have hfreed : k.dev.buff.oldest.bind BufferEntry.buffptr = some q := by
      simp [CircularBuffer.oldest, hf, hes, hq]
    rw [pushLast_of_eq (by decide) hlen, hes, List.tail_cons]
    rw [hes, List.filterMap_cons_some hq] at howns
    obtain ⟨b, hb, -⟩ := howns.live q (by simp)
    have hafter := (howns.perm (List.Perm.swap _ _ _)).free
    refine ⟨k.heap.set q none, fun k₁ hk₁ => ?_, ?_, fun e he r hr => ?_⟩
    · rw [hfreed]
      simp only [kfree, hk₁, hb]
    · rw [List.filterMap_append]
      exact hafter.perm (List.perm_append_singleton _ _).symm
    · have hmem : r ∈ p :: es.filterMap BufferEntry.buffptr := by
        rcases List.mem_append.mp he with he | he
        · exact List.mem_cons_of_mem _ (List.mem_filterMap.mpr ⟨e, he, hr⟩)
        · rw [List.mem_singleton] at he
          subst he
          cases hr
          exact List.mem_cons_self
      refine Heap.block_set_of_ne _ ?_
      rintro rfl
      have hnodup := (howns.perm (List.Perm.swap _ _ _)).nodup
      exact (List.nodup_cons.mp hnodup).1 hmem

lemma addEntry_of_ok {e : BufferEntry} {r : Option Ptr} {b b' : CircularBuffer}
    (h : CircularBuffer.addEntry e b = .ok (r, b')) (k₁ : Kernel) (hb : k₁.dev.buff = b) :
    addEntry e k₁ = .ok (r, { k₁ with dev.buff := b' }) := by
  simp only [addEntry, hb, h]

/-- `FlushPartial` moves the stage to the ring, unless the wait for the lock is interrupted. -/
lemma flushPartial_spec (h : k.Inv cfg) (hsome : k.dev.entry.buffPtr.isSome)
    (hfree : .buffMutex ∉ k.held) :
    Returns flushPartial k fun _ k' =>
      k'.Inv cfg ∧ SameOutsideLog k k' ∧ k'.log = k.log.flush maxWriteOperations ∧
      k'.dev.entry.endIdx ≤ k.dev.entry.endIdx := by
  obtain ⟨p, hp⟩ := Option.isSome_iff_exists.mp hsome
  cases hi : k.outcomes.interrupted.headD false with
  | true =>
    refine ⟨-ENOMEM, { k with outcomes.interrupted := k.outcomes.interrupted.tail }, ?_, { h with },
      ⟨rfl, rfl, rfl, rfl, rfl⟩, ?_, le_rfl⟩
    · rw [flushPartial, bind_ok (mutexLockInterruptible_of_interrupted _ hi)]
      rfl
    · simp only [log, StagedLog.flush, hi, if_true]
      rfl
  | false =>
    obtain ⟨b', hadd, hwf, hlive⟩ :=
      CircularBuffer.addEntry_spec h.wf ⟨some p, k.dev.entry.endIdx⟩
    obtain ⟨heap', hkfree, howns, hsame⟩ := kfree_oldest h hp k.dev.entry.endIdx
    rw [← hlive] at howns hsame
    refine ⟨0, { k with
      dev.buff := b'
      dev.entry.buffPtr := none
      dev.entry.endIdx := 0
      heap := heap'
      outcomes.interrupted := k.outcomes.interrupted.tail }, ?_, ?_, ⟨rfl, rfl, rfl, rfl, rfl⟩, ?_,
      Nat.zero_le _⟩
    · rw [flushPartial, bind_ok (mutexLockInterruptible_of_free hi hfree)]
      simp only [Bool.false_eq_true, if_false, read_bind_apply, hp, reduceCtorEq]
      rw [bind_ok (addEntry_of_ok hadd _ (by rfl)), bind_ok (hkfree _ (by rfl)),
        update_bind_apply, bind_ok (mutexUnlock_of_held _ (by rfl))]
      rfl
    · exact { wf := hwf
              owns := by
                simp only [Device.ptrs, Option.toList_none, List.nil_append]
                exact howns
              entries := fun e he => by
                rw [hlive] at he
                rcases List.mem_append.mp (mem_of_mem_rtake he) with he | he
                · exact h.entries e he
                · rw [List.mem_singleton] at he
                  subst he
                  exact ⟨p, rfl, h.endIdx_le⟩
              endIdx_le := Nat.zero_le _
              endIdx_eq := fun _ => rfl
              lseekPos_bounds := h.lseekPos_bounds }
    · have hbytes : b'.live.map heap'.entryBytes = b'.live.map k.heap.entryBytes :=
        List.map_congr_left fun e he => entryBytes_congr (hsame e he)
      have hpush : b'.live.map heap'.entryBytes
          = pushLast maxWriteOperations k.lines (k.stage.getD []) := by
        rw [hbytes, hlive, map_pushLast]
        simp only [lines, stage, hp, Option.map_some, Option.getD_some, Heap.entryBytes]
      simp only [log, StagedLog.flush, hi, Bool.false_eq_true, if_false, StagedLog.staged, ← hpush]
      rfl

/-! ### The loop -/

lemma loadUser_of_lt {buf : List Byte} {i : ℕ} (h : i < buf.length) :
    loadUser buf i = pure (f := KernelM) buf[i] := by
  simp only [loadUser, List.getElem?_eq_getElem h]

open Delimited in
/-- The loop stores and flushes the lines of the data one by one. What it has scanned of the current
line is the `inputIdx` bytes from `inputBaseIdx` on, with no newline among them. -/
lemma writeLoop_spec (h : k.Inv cfg) (hsize : k.dev.entry.size = cfg.kmallocMaxSize)
    (hfree : .buffMutex ∉ k.held) {buf : List Byte} {fuel base idx : ℕ}
    (hfuel : buf.length < fuel + (base + idx)) (hle : base + idx ≤ buf.length)
    (hscan : newline ∉ (buf.drop base).take idx)
    (hroom : k.dev.entry.endIdx + (buf.length - base) ≤ cfg.kmallocMaxSize) :
    Returns (writeLoop cfg buf buf.length fuel base idx) k fun r k' =>
      k'.Inv cfg ∧ SameOutsideLog k k' ∧
      k'.log = (k.log.writeLines maxWriteOperations (lines newline (buf.drop base))).2 ∧
      ((∃ base', r = some base' ∧
          (k.log.writeLines maxWriteOperations (lines newline (buf.drop base))).1 = true ∧
          base' ≤ buf.length ∧ buf.drop base' = rest newline (buf.drop base) ∧
          k'.dev.entry.endIdx + (buf.length - base') ≤ cfg.kmallocMaxSize) ∨
        (r = none ∧
          (k.log.writeLines maxWriteOperations (lines newline (buf.drop base))).1 = false)) := by
  induction fuel generalizing k base idx with
  | zero => omega
  | succ fuel ih =>
    rw [writeLoop]
    split_ifs with hlt
    · have hidx : idx < (buf.drop base).length := by
        rw [List.length_drop]
        omega
      have htake : (buf.drop base).take (idx + 1)
          = (buf.drop base).take idx ++ [buf[base + idx]] := by
        rw [List.take_add_one, List.getElem?_drop, List.getElem?_eq_getElem hlt]
        rfl
      have hcut : buf.drop base
          = (buf.drop base).take idx ++ buf[base + idx] :: buf.drop (base + (idx + 1)) := by
        conv_lhs => rw [← List.take_append_drop (idx + 1) (buf.drop base), htake, List.drop_drop]
        rw [List.append_assoc, List.singleton_append]
      rw [loadUser_of_lt hlt, pure_bind_eq]
      by_cases hc : buf[base + idx] = newline
      · -- the end of a line
        rw [if_pos hc]
        rw [hc] at htake hcut
        have hlines : lines newline (buf.drop base)
            = (buf.drop base).take (idx + 1) :: lines newline (buf.drop (base + (idx + 1))) := by
          conv_lhs => rw [hcut, lines_append_delim hscan]
          rw [htake]
        have hrest : rest newline (buf.drop base)
            = rest newline (buf.drop (base + (idx + 1))) := by
          conv_lhs => rw [hcut, rest_append_delim]
        rw [List.length_drop] at hidx
        obtain ⟨r, k₁, hk₁, h₁, hsame₁, hlog₁, hr⟩ :=
          storePartial_spec h hsize (buf.drop base) (idx + 1) (by omega)
            (by rw [List.length_drop]; omega) (by omega)
        rcases hr with ⟨rfl, hstored, hsome₁, hidx₁⟩ | ⟨rfl, hstored⟩
        · -- the line is on the stage
          obtain ⟨r, k₂, hk₂, h₂, hsame₂, hlog₂, hidx₂⟩ :=
            flushPartial_spec h₁ hsome₁ (by rw [hsame₁.held]; exact hfree)
          have hsame := hsame₁.trans hsame₂
          have hfuel' : buf.length < fuel + (base + (idx + 1) + 0) := by omega
          have hloop := ih h₂ (hsame.size.trans hsize) (by rw [hsame.held]; exact hfree) hfuel'
            (by omega) (by simp) (by omega)
          have hwrite : k.log.writeLines maxWriteOperations (lines newline (buf.drop base))
              = k₂.log.writeLines maxWriteOperations
                  (lines newline (buf.drop (base + (idx + 1)))) := by
            rw [hlines, StagedLog.writeLines, hlog₂, hlog₁]
            generalize hst : k.log.store ((buf.drop base).take (idx + 1)) = st at hstored
            obtain ⟨ok, t⟩ := st
            cases hstored
            rfl
          rw [hwrite, hrest]
          refine .step hk₁ (.step hk₂ ?_)
          refine hloop.mono ?_
          rintro r k' ⟨hinv, hsame', hlog, hr⟩
          exact ⟨hinv, hsame.trans hsame', hlog, hr⟩
        · -- there is no memory for the line
          have hwrite : k.log.writeLines maxWriteOperations (lines newline (buf.drop base))
              = k.log.store ((buf.drop base).take (idx + 1)) := by
            rw [hlines, StagedLog.writeLines]
            generalize k.log.store ((buf.drop base).take (idx + 1)) = st at hstored ⊢
            obtain ⟨ok, t⟩ := st
            cases hstored
            rfl
          rw [hwrite]
          refine .step hk₁ ?_
          exact ⟨none, k₁, rfl, h₁, hsame₁, hlog₁, Or.inr ⟨rfl, hstored⟩⟩
      · -- keep searching
        rw [if_neg hc]
        refine ih h hsize hfree (by omega) (by omega) ?_ hroom
        rw [htake, List.mem_append, List.mem_singleton, not_or]
        exact ⟨hscan, Ne.symm hc⟩
    · -- all of the data is scanned
      have hall : (buf.drop base).take idx = buf.drop base :=
        List.take_of_length_le (by rw [List.length_drop]; omega)
      rw [hall] at hscan
      rw [lines_of_notMem hscan, rest_of_notMem hscan]
      exact ⟨some base, k, rfl, h, SameOutsideLog.refl k, rfl,
        Or.inl ⟨base, rfl, rfl, by omega, rfl, hroom⟩⟩

/-! ### The call -/

/-- The value that `aesd_write` returns for a write of `count` bytes. -/
def writeRet (count : ℕ) : StagedLog.Verdict → ℤ
  | .interrupted => -ERESTARTSYS
  | .refused => -ENOMEM
  | .failed => -ENOMEM
  | .written => count

lemma writeRet_neg_iff {count : ℕ} {v : StagedLog.Verdict} :
    writeRet count v < 0 ↔ v ≠ .written := by
  cases v <;> simp [writeRet, ENOMEM, ERESTARTSYS]

/-- `aesd_write` refuses what could overflow the stage. -/
lemma refuses_iff (h : k.Inv cfg) (hsize : k.dev.entry.size = cfg.kmallocMaxSize) (count : ℕ) :
    (count > k.dev.entry.size ∨ addSize k.dev.entry.endIdx count > k.dev.entry.size) ↔
      cfg.kmallocMaxSize < k.log.staged.length + count := by
  have hfits := cfg.fits
  have hidx := h.endIdx_le
  rw [hsize, h.length_staged]
  by_cases hle : count ≤ cfg.kmallocMaxSize
  · rw [addSize_eq (by omega)]
    omega
  · omega

open Delimited in
/-- What is left over when the loop has passed the lines of the data. -/
lemma leftOver_of_lt {data : List Byte} {base : ℕ} (hrest : data.drop base = rest newline data)
    (hlt : base < data.length) (hfits : data.length < 2 ^ 64) :
    subSize data.length base = data.length - base ∧
      (data.drop base).take (subSize data.length base) = rest newline data ∧
      rest newline data ≠ [] := by
  have hcount : subSize data.length base = data.length - base := subSize_eq hlt.le hfits
  refine ⟨hcount, ?_, ?_⟩
  · rw [hcount, ← List.length_drop, List.take_length, hrest]
  · rw [← hrest, Ne, List.drop_eq_nil_iff]
    exact not_le.mpr hlt

open Delimited in
lemma leftOver_of_not_lt {data : List Byte} {base : ℕ} (hrest : data.drop base = rest newline data)
    (hlt : ¬ base < data.length) : rest newline data = [] := by
  rw [← hrest, List.drop_eq_nil_iff]
  exact not_lt.mp hlt

open Delimited in
/-- The body of `aesd_write` refuses the data or writes it to the staged log. -/
lemma writeLocked_spec (h : k.Inv cfg) (hsize : k.dev.entry.size = cfg.kmallocMaxSize)
    (hfree : .buffMutex ∉ k.held) (data : List Byte) :
    Returns (writeLocked cfg data data.length) k fun r k' =>
      k'.Inv cfg ∧ SameOutsideLog k k' ∧
      if cfg.kmallocMaxSize < k.log.staged.length + data.length then
        r = -ENOMEM ∧ k'.log = k.log
      else
        r = (if (k.log.write maxWriteOperations newline data).1 then (data.length : ℤ)
          else -ENOMEM) ∧
        k'.log = (k.log.write maxWriteOperations newline data).2 := by
  have hfits := cfg.fits
  have hidx := h.endIdx_le
  have hcheck := refuses_iff h hsize data.length
  rw [writeLocked]
  refine .step (read_apply _ k) ?_
  by_cases hroom : cfg.kmallocMaxSize < k.log.staged.length + data.length
  · rw [if_pos (hcheck.mpr hroom)]
    simp only [if_pos hroom]
    exact ⟨-ENOMEM, k, rfl, h, SameOutsideLog.refl k, rfl, rfl⟩
  · rw [if_neg (hcheck.not.mpr hroom)]
    simp only [if_neg hroom]
    rw [h.length_staged] at hroom
    have hret : toLoff data.length = data.length := toLoff_of_bounds (by omega) (by omega)
    obtain ⟨r, k₁, hk₁, h₁, hsame₁, hlog₁, hr⟩ :=
      writeLoop_spec h hsize hfree
        (by omega : data.length < data.length + 1 + (0 + 0)) (by omega) (by simp) (by omega)
    rw [List.drop_zero] at hlog₁ hr
    rw [StagedLog.write]
    generalize k.log.writeLines maxWriteOperations (lines newline data) = wl at hlog₁ hr
    obtain ⟨ok, t⟩ := wl
    refine .step hk₁ ?_
    rcases hr with ⟨base, rfl, rfl, hle, hrest, hroom₁⟩ | ⟨rfl, rfl⟩
    · change Returns (if base < data.length then _ else _) k₁ _
      by_cases hlt : base < data.length
      · -- a line is left over
        rw [if_pos hlt]
        obtain ⟨hcount, htake, hne⟩ := leftOver_of_lt hrest hlt (by omega)
        obtain ⟨r, k₂, hk₂, h₂, hsame₂, hlog₂, -⟩ :=
          storePartial_spec h₁ (hsame₁.size.trans hsize) (data.drop base)
            (subSize data.length base) (by omega) (by rw [List.length_drop]; omega)
            (by omega)
        refine .step hk₂ ⟨toLoff data.length, k₂, rfl, h₂, hsame₁.trans hsame₂, by simp [hret], ?_⟩
        rw [hlog₂, htake, hlog₁]
        simp only [StagedLog.storeRest, if_neg hne]
      · -- the data ends with a line
        rw [if_neg hlt]
        have hnil := leftOver_of_not_lt hrest hlt
        refine ⟨toLoff data.length, k₁, rfl, h₁, hsame₁, by simp [hret], ?_⟩
        simp only [hlog₁, StagedLog.storeRest, hnil, if_true]
    · exact ⟨-ENOMEM, k₁, rfl, h₁, hsame₁, by simp, hlog₁⟩

/-- `aesd_write` is an attempt to write to the staged log. -/
theorem aesdWrite_spec (h : k.Inv cfg) (hfree : k.held = []) (data : List Byte) :
    Returns (aesdWrite cfg data data.length) k fun r k' =>
      k'.Inv cfg ∧ k'.held = [] ∧ k'.dev.lseekPos = k.dev.lseekPos ∧
      r = writeRet data.length
        (k.log.submit maxWriteOperations cfg.kmallocMaxSize newline data).1 ∧
      k'.log = (k.log.submit maxWriteOperations cfg.kmallocMaxSize newline data).2 := by
  rw [aesdWrite]
  refine .step (update_apply _ k) ?_
  cases hi : k.outcomes.interrupted.headD false with
  | true =>
    refine .step (mutexLockInterruptible_of_interrupted _ hi)
      ⟨-ERESTARTSYS, _, rfl, { h with }, hfree, rfl, Prod.mk.inj ?_⟩
    simp only [StagedLog.submit, log, hi, if_true]
    rfl
  | false =>
    refine .step (mutexLockInterruptible_of_free hi (by simp [hfree])) ?_
    have hlocked := writeLocked_spec (k := { k with
      dev.entry.size := cfg.kmallocMaxSize
      outcomes.interrupted := k.outcomes.interrupted.tail
      held := .entryMutex :: k.held }) { h with } rfl (by simp [hfree]) data
    obtain ⟨r, k₁, hk₁, h₁, hsame, hpost⟩ := hlocked
    refine .step hk₁ (.step (mutexUnlock_of_held _ hsame.held) ⟨r, { k₁ with held := k.held }, rfl,
      { h₁ with }, hfree, hsame.lseekPos, Prod.mk.inj ?_⟩)
    have hlog : k.log.interrupted.headD false = false := hi
    rw [StagedLog.submit, if_neg (by rw [hlog]; simp)]
    change if cfg.kmallocMaxSize < k.log.staged.length + data.length then
        r = -ENOMEM ∧ k₁.log = { k.log with interrupted := k.log.interrupted.tail }
      else
        r = (if (StagedLog.write maxWriteOperations newline data
          { k.log with interrupted := k.log.interrupted.tail }).1 then _ else _) ∧
        k₁.log = (StagedLog.write maxWriteOperations newline data
          { k.log with interrupted := k.log.interrupted.tail }).2 at hpost
    change (r, k₁.log) = _
    generalize StagedLog.write maxWriteOperations newline data
      { k.log with interrupted := k.log.interrupted.tail } = w at hpost ⊢
    obtain ⟨ok, t⟩ := w
    by_cases hroom : cfg.kmallocMaxSize < k.log.staged.length + data.length
    · rw [if_pos hroom] at hpost ⊢
      rw [hpost.1, hpost.2]
      rfl
    · rw [if_neg hroom] at hpost ⊢
      rw [hpost.1, hpost.2]
      cases ok <;> rfl

end Aesd
