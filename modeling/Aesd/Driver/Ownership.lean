import Aesd.Driver.Device.Recorded

/-!
# Ownership of the line buffers

Every buffer that was ever allocated is held by exactly one slot of the ring or by the stage, or was
freed exactly once. Unloading the module frees the ones that are left.
-/

namespace Aesd

open Exec

variable {cfg : KernelConfig} {k k' : Kernel} {events : Record}

/-! ### The buffers that the device holds -/

/-- The buffers in the ten slots of the ring and on the stage. -/
def Device.heldPtrs (dev : Device) : List Ptr :=
  (List.finRange maxWriteOperations).filterMap (fun i => (dev.buff.entry i).buffptr) ++
    dev.entry.buffPtr.toList

namespace CircularBuffer

variable {b : CircularBuffer}

/-- Going through the slots from any one on. -/
lemma map_slot_perm_finRange (h : b.outOffs < maxWriteOperations) :
    ((List.range maxWriteOperations).map b.slot).Perm (List.finRange maxWriteOperations) := by
  have hall : ∀ o : Fin 10, ((List.range 10).map fun i => Fin.ofNat 10 (o + i)).Perm
      (List.finRange 10) := by decide
  exact hall ⟨b.outOffs, h⟩

/-- The slots that hold a buffer are those of the live entries. -/
lemma Wf.filterMap_slots_perm (h : b.Wf) :
    ((List.finRange maxWriteOperations).filterMap fun i => (b.entry i).buffptr).Perm
      (b.live.filterMap BufferEntry.buffptr) := by
  have hle := h.numEntries_le
  have hsplit : List.range maxWriteOperations = List.range b.numEntries ++
      (List.range (maxWriteOperations - b.numEntries)).map (b.numEntries + ·) := by
    rw [← List.range_add, Nat.add_sub_cancel' hle]
  refine ((map_slot_perm_finRange h.outOffs_lt).symm.filterMap _).trans ?_
  rw [hsplit, List.map_append, List.filterMap_append]
  have hunused : List.filterMap (fun i => (b.entry i).buffptr)
      (((List.range (maxWriteOperations - b.numEntries)).map (b.numEntries + ·)).map b.slot)
      = [] := by
    rw [List.filterMap_eq_nil_iff]
    intro i hi
    simp only [List.mem_map, List.mem_range] at hi
    obtain ⟨_, ⟨j, hj, rfl⟩, rfl⟩ := hi
    rw [h.entry_slot_eq_zero (Nat.le_add_right _ _) (by omega)]
    rfl
  rw [hunused, List.append_nil, live, window, List.filterMap_map, List.filterMap_map]
  exact List.Perm.refl _

end CircularBuffer

lemma Kernel.Inv.ptrs_perm_heldPtrs (h : k.Inv cfg) : k.dev.ptrs.Perm k.dev.heldPtrs := by
  rw [Device.ptrs, Device.heldPtrs]
  exact List.perm_append_comm.trans (h.wf.filterMap_slots_perm.symm.append_right _)

/-! ### Unloading the module -/

/-- The owner of a buffer may free it. -/
lemma kfree_of_owned {size : ℕ} {p : Ptr} {ps : List Ptr} (h : k.heap.Owns size (p :: ps)) :
    kfree (some p) k = .ok ((), { k with heap := k.heap.set p none }) := by
  obtain ⟨b, hb, -⟩ := h.live p List.mem_cons_self
  simp only [kfree, hb]

lemma freeEntries_spec {size : ℕ} {is : List (Fin maxWriteOperations)} {ps : List Ptr}
    (h : k.heap.Owns size (is.filterMap (fun i => (k.dev.buff.entry i).buffptr) ++ ps)) :
    Returns (freeEntries is) k fun _ k' =>
      k'.dev = k.dev ∧ k'.heap.length = k.heap.length ∧ k'.heap.Owns size ps := by
  induction is generalizing k with
  | nil => exact ⟨(), k, rfl, rfl, rfl, h⟩
  | cons i is ih =>
    rw [freeEntries]
    refine .step (read_apply _ k) ?_
    cases hp : (k.dev.buff.entry i).buffptr with
    | none =>
      simp only [List.filterMap_cons, hp] at h
      exact .step rfl (ih h)
    | some p =>
      simp only [List.filterMap_cons, hp, List.cons_append] at h
      refine .step (kfree_of_owned h) ?_
      refine (ih (k := { k with heap := k.heap.set p none }) h.free).mono ?_
      rintro _ k' ⟨hdev, hlen, howns⟩
      exact ⟨hdev, hlen.trans (List.length_set ..), howns⟩

/-- Unloading the module leaves no allocation behind. -/
lemma aesdCleanupModule_spec (h : k.Inv cfg) :
    Returns aesdCleanupModule k fun _ k' =>
      k'.heap.length = k.heap.length ∧ k'.heap.Owns cfg.kmallocMaxSize [] := by
  obtain ⟨_, k₁, hk₁, hdev, hlen, howns⟩ := freeEntries_spec (h.owns.perm h.ptrs_perm_heldPtrs)
  rw [aesdCleanupModule]
  refine .step hk₁ (.step (read_apply _ k₁) ?_)
  rw [hdev]
  cases hp : k.dev.entry.buffPtr with
  | none =>
    rw [hp] at howns
    exact ⟨(), k₁, rfl, hlen, howns⟩
  | some p =>
    rw [hp] at howns
    exact ⟨(), _, kfree_of_owned howns, (List.length_set ..).trans hlen, howns.free⟩

/-! ### The record of allocations -/

/-- The record agrees with the heap: every allocation was recorded once, and the release of every
one that is gone, once. -/
structure Accounts (t : Kernel × Record) : Prop where
  allocated : ∀ p, t.2.count (.allocated p) = if p < t.1.heap.length then 1 else 0
  freed : ∀ p, t.2.count (.freed p) =
    if p < t.1.heap.length ∧ t.1.heap.block p = none then 1 else 0

lemma init_accounts (o : Outcomes) : Accounts ({ Kernel.init with outcomes := o }, []) where
  allocated _ := rfl
  freed _ := rfl

/-- Stores into live buffers are not accounted for. -/
lemma Accounts.congr (h : Accounts (k, events)) (hlen : k'.heap.length = k.heap.length)
    (hnone : ∀ p, k'.heap.block p = none ↔ k.heap.block p = none) : Accounts (k', events) where
  allocated p := by
    rw [h.allocated p]
    simp only [hlen]
  freed p := by
    rw [h.freed p]
    simp only [hlen, hnone p]

lemma keepsAccounts_of_heap {α : Type} {m : KernelM α}
    (h : ∀ k a k', m k = .ok (a, k') → k'.heap = k.heap) (events : Record) :
    Keeps (fun k => Accounts (k, events)) m := by
  intro k a k' hk heq
  have hheap := h k a k' heq
  exact hk.congr (by rw [hheap]) fun p => by rw [hheap]

lemma keepsAccounts_mutexLock (m : DevMutex) (events : Record) :
    Keeps (fun k => Accounts (k, events)) (mutexLockInterruptible m) := by
  refine keepsAccounts_of_heap ?_ events
  intro k a k' heq
  rw [mutexLockInterruptible] at heq
  split_ifs at heq <;> cases heq <;> rfl

lemma keepsAccounts_mutexUnlock (m : DevMutex) (events : Record) :
    Keeps (fun k => Accounts (k, events)) (mutexUnlock m) := by
  refine keepsAccounts_of_heap ?_ events
  intro k a k' heq
  rw [mutexUnlock] at heq
  split_ifs at heq
  cases heq
  rfl

lemma keepsAccounts_addEntry (e : BufferEntry) (events : Record) :
    Keeps (fun k => Accounts (k, events)) (addEntry e) := by
  refine keepsAccounts_of_heap ?_ events
  intro k a k' heq
  rw [addEntry] at heq
  split at heq
  · cases heq
    rfl
  · cases heq

lemma keepsAccounts_storeByte (ptr : Option Ptr) (i : ℕ) (c : Byte) (events : Record) :
    Keeps (fun k => Accounts (k, events)) (storeByte ptr i c) := by
  intro k a k' hk heq
  cases ptr with
  | none => cases heq
  | some p =>
    simp only [storeByte] at heq
    cases hblock : k.heap.block p with
    | none =>
      rw [hblock] at heq
      cases heq
    | some block =>
      simp only [hblock] at heq
      split_ifs at heq
      cases heq
      refine hk.congr (List.length_set ..) ?_
      intro q
      by_cases hq : q = p
      · subst hq
        rw [Heap.block_set_self _ (Heap.lt_length_of_block hblock), hblock]
        exact iff_of_false (Option.some_ne_none _) (Option.some_ne_none _)
      · rw [Heap.block_set_of_ne _ hq]

lemma keepsAccounts_loadUser (buf : List Byte) (i : ℕ) (events : Record) :
    Keeps (fun k => Accounts (k, events)) (loadUser buf i) := by
  rw [loadUser]
  split
  · exact .pure _
  · exact .fault _

/-- A new allocation, recorded. -/
lemma Accounts.alloc (h : Accounts (k, events)) (b : Block) (hheap : k'.heap = k.heap ++ [some b]) :
    Accounts (k', events ++ [.allocated k.heap.length]) where
  allocated p := by
    simp only [List.count_append, h.allocated p, hheap, List.length_append, List.length_singleton,
      List.count_singleton, beq_iff_eq, Event.allocated.injEq]
    by_cases hp : p = k.heap.length
    · subst hp
      rw [if_neg (Nat.lt_irrefl _), if_pos rfl, if_pos (Nat.lt_succ_self _)]
    · rw [if_neg (Ne.symm hp), Nat.add_zero]
      refine if_congr ?_ rfl rfl
      constructor
      · intro hlt
        exact Nat.lt_succ_of_lt hlt
      · intro hlt
        exact lt_of_le_of_ne (Nat.le_of_lt_succ hlt) hp
  freed p := by
    simp only [List.count_append, h.freed p, hheap, List.length_append, List.length_singleton,
      List.count_singleton, beq_iff_eq, reduceCtorEq, if_false, Nat.add_zero]
    by_cases hp : p = k.heap.length
    · subst hp
      rw [Heap.block_append_length]
      simp
    · rw [Heap.block_append_of_ne _ hp]
      refine if_congr ?_ rfl rfl
      constructor
      · rintro ⟨hlt, hnone⟩
        exact ⟨Nat.lt_succ_of_lt hlt, hnone⟩
      · rintro ⟨hlt, hnone⟩
        exact ⟨lt_of_le_of_ne (Nat.le_of_lt_succ hlt) hp, hnone⟩

/-- The release of a live buffer, recorded. -/
lemma Accounts.free (h : Accounts (k, events)) {p : Ptr} {b : Block} (hp : k.heap.block p = some b)
    (hheap : k'.heap = k.heap.set p none) : Accounts (k', events ++ [.freed p]) where
  allocated q := by
    simp only [List.count_append, h.allocated q, hheap, List.length_set, List.count_singleton,
      beq_iff_eq, reduceCtorEq, if_false, Nat.add_zero]
  freed q := by
    have hlt := Heap.lt_length_of_block hp
    simp only [List.count_append, h.freed q, hheap, List.length_set, List.count_singleton,
      beq_iff_eq, Event.freed.injEq]
    by_cases hq : q = p
    · subst hq
      rw [Heap.block_set_self _ hlt, hp]
      simp [hlt]
    · rw [Heap.block_set_of_ne _ hq, if_neg (Ne.symm hq), Nat.add_zero]

namespace Recorded

lemma keepsAccounts_kmalloc (size : ℕ) : Keeps Accounts (kmalloc size) := by
  rintro ⟨k, events⟩ a t' h heq
  obtain ⟨r, ⟨k₁, events₁⟩, hlift, hghost⟩ := of_bind_ok heq
  obtain ⟨hmalloc, hrecord⟩ := of_lift_ok hlift
  dsimp only at hmalloc hrecord
  subst hrecord
  cases hf : k.outcomes.allocFails.headD false with
  | true =>
    rw [kmalloc_of_fails size hf] at hmalloc
    cases hmalloc
    cases hghost
    exact h.congr rfl fun _ => .rfl
  | false =>
    rw [kmalloc_of_succeeds size hf] at hmalloc
    cases hmalloc
    cases hghost
    exact h.alloc _ rfl

lemma keepsAccounts_kfree (p : Option Ptr) : Keeps Accounts (kfree p) := by
  cases p with
  | none => exact .pure ()
  | some p =>
    rintro ⟨k, events⟩ a t' h heq
    obtain ⟨_, ⟨k₁, events₁⟩, hlift, hghost⟩ := of_bind_ok heq
    obtain ⟨hfree, hrecord⟩ := of_lift_ok hlift
    dsimp only at hfree hrecord
    subst hrecord
    cases hghost
    cases hb : k.heap.block p with
    | none =>
      simp only [Aesd.kfree, hb] at hfree
      cases hfree
    | some b =>
      simp only [Aesd.kfree, hb] at hfree
      cases hfree
      exact h.free hb rfl

/-- What is recorded is no allocation and no release. -/
lemma keepsAccounts_record {f : Kernel → Event}
    (hf : ∀ k p, f k ≠ .allocated p ∧ f k ≠ .freed p) : Keeps Accounts (record f) := by
  rintro ⟨k, events⟩ a t' h heq
  cases heq
  constructor
  · intro p
    have hne : ¬ (f k == .allocated p) = true := by simpa using (hf k p).1
    rw [← h.allocated p, List.count_append, List.count_singleton, if_neg hne, Nat.add_zero]
  · intro p
    have hne : ¬ (f k == .freed p) = true := by simpa using (hf k p).2
    rw [← h.freed p, List.count_append, List.count_singleton, if_neg hne, Nat.add_zero]

lemma keepsAccounts_addEntry (e : BufferEntry) : Keeps Accounts (addEntry e) := by
  refine Keeps.bind (keepsAccounts_record ?_) fun _ => .lift (Aesd.keepsAccounts_addEntry e)
  exact fun _ _ => ⟨nofun, nofun⟩

lemma keepsAccounts_storePartial (cfg : KernelConfig) (buf : List Byte) (count : ℕ) :
    Keeps Accounts (storePartial cfg buf count) := by
  have hstage : Keeps Accounts (allocateStage cfg) := by
    refine keeps_allocateStage (keepsAccounts_kmalloc _) ?_
    intro p
    refine .lift fun _ => .update ?_
    intro k hk
    exact hk.congr rfl fun _ => .rfl
  refine keeps_storePartial hstage (keeps_fillStage ?_ ?_ ?_ ?_)
  · exact fun _ _ _ => keepsAccounts_record fun _ _ => ⟨nofun, nofun⟩
  · exact fun _ _ => keepsAccounts_record fun _ _ => ⟨nofun, nofun⟩
  · exact fun _ _ _ => .lift (keepsAccounts_storeByte _ _ _)
  · refine .lift fun _ => .update ?_
    intro k hk
    exact hk.congr rfl fun _ => .rfl

lemma keepsAccounts_flushPartial : Keeps Accounts flushPartial := by
  refine (Keeps.lift (keepsAccounts_mutexLock _)).bind fun interrupted => .ite (.pure _) ?_
  refine (Keeps.lift fun _ => .read _).bind fun entry => ?_
  refine Keeps.bind (keepsAccounts_record fun _ _ => ⟨nofun, nofun⟩) fun _ => .ite (.pure _) ?_
  refine (keepsAccounts_addEntry _).bind fun freePtr => (keepsAccounts_kfree freePtr).bind ?_
  intro _
  refine (Keeps.lift fun _ => .update ?_).bind fun _ =>
    (Keeps.lift (keepsAccounts_mutexUnlock _)).bind fun _ => .pure 0
  intro k hk
  exact hk.congr rfl fun _ => .rfl

lemma keepsAccounts_writeLoop (cfg : KernelConfig) (buf : List Byte) (count fuel base idx : ℕ) :
    Keeps Accounts (writeLoop cfg buf count fuel base idx) := by
  induction fuel generalizing base idx with
  | zero => exact .fault _
  | succ fuel ih =>
    refine .ite ?_ (.pure _)
    refine (Keeps.lift (keepsAccounts_loadUser _ _)).bind fun c => .ite ?_ (ih _ _)
    refine (keepsAccounts_storePartial _ _ _).bind fun stored => .ite (.pure none) ?_
    exact keepsAccounts_flushPartial.bind fun _ => ih _ _

/-- A write accounts for what it allocates and frees. -/
lemma keepsAccounts_userWrite (cfg : KernelConfig) (data : List Byte) :
    Keeps Accounts (userWrite cfg data) := by
  have hlocked : Keeps Accounts (writeLocked cfg data data.length) := by
    refine (Keeps.lift fun _ => .read _).bind fun entry => .ite (.pure _) ?_
    refine (keepsAccounts_writeLoop _ _ _ _ _ _).bind ?_
    intro r
    cases r with
    | none => exact .pure _
    | some base => exact .ite ((keepsAccounts_storePartial _ _ _).bind fun _ => .pure _) (.pure _)
  refine (Keeps.lift fun _ => .update ?_).bind fun _ => ?_
  · intro k hk
    exact hk.congr rfl fun _ => .rfl
  · refine (Keeps.lift (keepsAccounts_mutexLock _)).bind fun interrupted => .ite (.pure _) ?_
    exact hlocked.bind fun _ => (Keeps.lift (keepsAccounts_mutexUnlock _)).bind fun _ => .pure _

/-- So does the unloading of the module. -/
lemma keepsAccounts_aesdCleanupModule : Keeps Accounts aesdCleanupModule := by
  have hentries : ∀ is, Keeps Accounts (freeEntries is) := by
    intro is
    induction is with
    | nil => exact .pure ()
    | cons i is ih =>
      exact (Keeps.lift fun _ => .read _).bind fun e => (keepsAccounts_kfree _).bind fun _ => ih
  exact (hentries _).bind fun _ => (Keeps.lift fun _ => .read _).bind fun entry =>
    keepsAccounts_kfree _

end Recorded

/-! ### Every run -/

namespace Accounts

variable {t : Kernel × Record} {p : Ptr}

lemma allocated_iff (h : Accounts t) : .allocated p ∈ t.2 ↔ p < t.1.heap.length := by
  rw [← List.one_le_count_iff, h.allocated p]
  split_ifs with hp
  · exact iff_of_true le_rfl hp
  · exact iff_of_false (by simp) hp

lemma count_freed (h : Accounts t) (hlt : p < t.1.heap.length) (hnone : t.1.heap.block p = none) :
    t.2.count (.freed p) = 1 := by
  rw [h.freed p, if_pos ⟨hlt, hnone⟩]

lemma freed_notMem (h : Accounts t) {b : Block} (hb : t.1.heap.block p = some b) :
    .freed p ∉ t.2 := by
  rw [← List.count_eq_zero, h.freed p, if_neg]
  rintro ⟨-, hnone⟩
  rw [hb] at hnone
  cases hnone

end Accounts

/-- What no owner has is gone. -/
lemma Heap.Owns.block_eq_none {heap : Heap} {size : ℕ} {ps : List Ptr} {p : Ptr}
    (h : heap.Owns size ps) (hp : p ∉ ps) : heap.block p = none := by
  cases hb : heap.block p with
  | none => rfl
  | some b => exact absurd (h.complete p b hb) hp

/-- After any run of writes the buffers of the ring and of the stage are different and not freed,
and every other buffer that was allocated was freed once. After the module is unloaded, all were. -/
theorem buffers_owned (cfg : KernelConfig) (writes : List (List Byte)) (o : Outcomes) :
    Returns (Machine.run (Recorded.userWrite cfg) writes) ({ Kernel.init with outcomes := o }, [])
      fun rets t =>
        Machine.run (userWrite cfg) writes { Kernel.init with outcomes := o } = .ok (rets, t.1) ∧
        (∀ p, t.2.count (.allocated p) ≤ 1) ∧
        t.1.dev.heldPtrs.Nodup ∧
        (∀ p ∈ t.1.dev.heldPtrs, .allocated p ∈ t.2 ∧ .freed p ∉ t.2) ∧
        (∀ p, .allocated p ∈ t.2 → p ∉ t.1.dev.heldPtrs → t.2.count (.freed p) = 1) ∧
        Returns Recorded.aesdCleanupModule t fun _ t' =>
          aesdCleanupModule t.1 = .ok ((), t'.1) ∧
          ∀ p, .allocated p ∈ t.2 → t'.2.count (.freed p) = 1 := by
  have herases : Erases (Machine.run (Recorded.userWrite cfg) writes)
      (Machine.run (userWrite cfg) writes) := Erases.run Recorded.erases_userWrite writes
  obtain ⟨rets, t, hrun, herased, hidle⟩ := herases.returns
    (t := ({ Kernel.init with outcomes := o }, [])) ((init_idle cfg o).run_userWrite writes)
  have haccounts : Accounts t :=
    Keeps.run (Recorded.keepsAccounts_userWrite cfg) writes _ _ _ (init_accounts o) hrun
  have howns : t.1.heap.Owns cfg.kmallocMaxSize t.1.dev.heldPtrs :=
    hidle.inv.owns.perm hidle.inv.ptrs_perm_heldPtrs
  refine ⟨rets, t, hrun, herased, ?_, howns.nodup, ?_, ?_, ?_⟩
  · intro p
    rw [haccounts.allocated p]
    split_ifs
    · exact le_rfl
    · exact Nat.zero_le _
  · intro p hp
    obtain ⟨b, hb, -⟩ := howns.live p hp
    exact ⟨haccounts.allocated_iff.mpr (Heap.lt_length_of_block hb), haccounts.freed_notMem hb⟩
  · intro p halloc hp
    exact haccounts.count_freed (haccounts.allocated_iff.mp halloc) (howns.block_eq_none hp)
  · obtain ⟨_, t', hclean, herased', hlen, howns'⟩ :=
      Recorded.erases_aesdCleanupModule.returns (aesdCleanupModule_spec hidle.inv)
    have haccounts' : Accounts t' :=
      Recorded.keepsAccounts_aesdCleanupModule _ _ _ haccounts hclean
    refine ⟨(), t', hclean, herased', ?_⟩
    intro p halloc
    refine haccounts'.count_freed ?_ (howns'.block_eq_none List.not_mem_nil)
    rw [hlen]
    exact haccounts.allocated_iff.mp halloc

end Aesd
