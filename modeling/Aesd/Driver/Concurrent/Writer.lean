import Aesd.Driver.Concurrent.Protocol

/-!
# A task that writes

A task that holds the entry mutex may be followed through the write path: whatever the others do, it
does to the device what the functions of the driver do to a device that nobody else uses.
-/

namespace Aesd.Concurrent

open Exec Threads

variable {T : Type} {cfg : KernelConfig} {calls : T → List DriverCall} {t : T} {α : Type}

/-! ### Parts of the driver that do not use the position -/

/-- The kernel with the device at another position, and with other mutexes held. -/
def placed (p : ℤ) (held : List DevMutex) (k : Kernel) : Kernel :=
  { k with dev.lseekPos := p, held := held }

/-- A part of the driver that uses neither the position of the device nor the mutexes. -/
def Blind (m : KernelM α) : Prop := ∀ p held, Projects (placed p held) m m

lemma Blind.apply {m : KernelM α} (h : Blind m) {k k' : Kernel} {a : α} (hm : m k = .ok (a, k'))
    (p : ℤ) (held : List DevMutex) : m (placed p held k) = .ok (a, placed p held k') := by
  have hplaced := h p held k
  rw [hm] at hplaced
  exact hplaced.symm

lemma blind_loadUser (buf : List Byte) (i : ℕ) : Blind (loadUser buf i) := by
  intro p held
  rw [loadUser]
  cases buf[i]? with
  | none => exact .fault _
  | some c => exact .pure c

lemma blind_storeByte (ptr : Option Ptr) (i : ℕ) (c : Byte) : Blind (storeByte ptr i c) := by
  intro p held k
  cases ptr with
  | none => rfl
  | some q =>
    simp only [storeByte, placed]
    cases k.heap.block q with
    | none => rfl
    | some b =>
      dsimp only
      split_ifs <;> rfl

lemma blind_kmalloc (size : ℕ) : Blind (kmalloc size) := by
  intro p held k
  cases hf : k.outcomes.allocFails.headD false with
  | true =>
    simp only [kmalloc, placed, hf, if_true]
    rfl
  | false =>
    simp only [kmalloc, placed, hf, Bool.false_eq_true, if_false]
    rfl

lemma blind_kfree (ptr : Option Ptr) : Blind (kfree ptr) := by
  intro p held
  cases ptr with
  | none => exact .pure ()
  | some q =>
    intro k
    simp only [kfree, placed]
    cases k.heap.block q with
    | none => rfl
    | some b => rfl

lemma blind_addEntry (e : BufferEntry) : Blind (addEntry e) := by
  intro p held k
  simp only [addEntry, placed]
  cases CircularBuffer.addEntry e k.dev.buff with
  | error e => rfl
  | ok r => rfl

/-! ### Following an access -/

/-- Nothing was recorded since `s`. -/
structure SameRecord (s s' : Shared T) : Prop where
  served : s'.served = s.served
  made : s'.made = s.made
  added : s'.added = s.added

lemma SameRecord.trans {s s' s'' : Shared T} (h : SameRecord s s') (h' : SameRecord s' s'') :
    SameRecord s s'' :=
  ⟨h'.served.trans h.served, h'.made.trans h.made, h'.added.trans h.added⟩

/-- The last ten of the lines that were flushed are stored. -/
def Shared.Stores (s : Shared T) : Prop := s.core.lines = s.added.rtake maxWriteOperations

/-- The record of a state in which lines may have been flushed since `s`. -/
structure Onward (s s' : Shared T) : Prop where
  served : s'.served = s.served
  made : s'.made = s.made
  added : s.added <+: s'.added
  stores : s.Stores → s'.Stores

lemma Onward.refl (s : Shared T) : Onward s s := ⟨rfl, rfl, List.prefix_refl _, id⟩

lemma Onward.trans {s s' s'' : Shared T} (h : Onward s s') (h' : Onward s' s'') : Onward s s'' :=
  ⟨h'.served.trans h.served, h'.made.trans h.made, h.added.trans h'.added,
    fun hs => h'.stores (h.stores hs)⟩

/-- The task has done what the driver does from `s`, with the value `a` and the kernel `k'`. -/
def Reaches (s : Shared T) (t : T) (held : List DevMutex) (a : α) (k' : Kernel) :
    List DevMutex → α → Shared T → Prop :=
  fun held' b s' => held' = held ∧ b = a ∧ s'.kernel t held = k' ∧ Onward s s'

/-- One access of the task has done that, and recorded nothing. -/
def Accessed (s : Shared T) (t : T) (held : List DevMutex) (a : α) (k' : Kernel) :
    List DevMutex → α → Shared T → Prop :=
  fun held' b s' => held' = held ∧ b = a ∧ s'.kernel t held = k' ∧ SameRecord s s'

variable {s : Shared T} {held : List DevMutex} {m : KernelM α} {a : α} {k' : Kernel}

lemma blind_result (hblind : Blind m) (hm : m (s.kernel t held) = .ok (a, k')) :
    k' = placed s.dev.lseekPos held k' := by
  have hself := hblind.apply hm s.dev.lseekPos held
  exact (Prod.mk.inj (Except.ok.inj (hm.symm.trans hself))).2

lemma notMem_held : .buffMutex ∉ (s.kernel t [.entryMutex]).held := by simp [Shared.kernel]

variable [DecidableEq T]

/-- Thread `t` is followed while it holds the entry mutex. -/
abbrev Followed (cfg : KernelConfig) (calls : T → List DriverCall) (t : T)
    (Q : List DevMutex → α → Shared T → Prop)
    (held : List DevMutex) (p : TaskM T α) (s : Shared T) : Prop :=
  p.OkAlone (protocol cfg calls) t (Following cfg t) .entryMutex Q held s

/-- What a step may do without the buffer mutex: it keeps the ring, and the lines that it stores. -/
structure Steady (cfg : KernelConfig) (k k' : Kernel) : Prop where
  inv : k'.Inv cfg
  buff : k'.dev.buff = k.dev.buff
  lines : k'.lines = k.lines

/-- What an access does to a state that looks the same. -/
lemma onKernel_of_following (hblind : Blind m) (hm : m (s.kernel t held) = .ok (a, k'))
    {u : Shared T} (hu : u.kernel t [] = { s.kernel t [] with dev.lseekPos := u.dev.lseekPos }) :
    onKernel t m u = .ok (a, u.put t (placed u.dev.lseekPos [] k')) := by
  have hother : m (u.kernel t []) = .ok (a, placed u.dev.lseekPos [] k') := by
    rw [hu]
    exact hblind.apply hm u.dev.lseekPos []
  simp only [onKernel, hother]

/-- An access of a task that holds the entry mutex, and the buffer mutex if the access is not
steady. -/
lemma access_followed (hblind : Blind m) (hm : m (s.kernel t held) = .ok (a, k'))
    (hheld : .entryMutex ∈ held) (hsize : k'.dev.entry.size = s.dev.entry.size)
    (hsteady : .buffMutex ∉ held → Steady cfg (s.kernel t held) k') :
    Followed cfg calls t (Accessed s t held a k') held (access t m) s := by
  have hself := onKernel_of_following hblind hm (u := s) rfl
  have hk' := blind_result hblind hm
  refine ⟨fun u hR => ?_, ?_⟩
  · have hother := onKernel_of_following hblind hm hR.kernel
    simp only [hself, hother]
    refine ⟨trivial, ⟨?_, hR.bounds, hsize.trans hR.size, hR.added, hR.served, hR.madeBy⟩, ?_⟩
    · simp only [Shared.kernel, Shared.put, placed, Function.update_self]
    · have hdev := hR.dev
      refine ⟨fun v hv => Function.update_of_ne hv _ _, .inl ?_, fun _ => hR.bounds,
        fun _ => .inl rfl, fun hnot => absurd hheld hnot, ?_, List.prefix_refl _, fun _ _ => rfl,
        fun _ _ => rfl, fun h => h.of_made_eq rfl (List.prefix_refl _)⟩
      · rw [hdev]
        exact hsize
      · intro hnot
        have hst := hsteady (hnot.resolve_left (not_not_intro hheld))
        have hbuff : k'.dev.buff = u.dev.buff := by
          rw [hdev]
          exact hst.buff
        refine ⟨hbuff, rfl, fun _ => ⟨{ hst.inv with lseekPos_bounds := hR.bounds }, ?_⟩⟩
        exact hst.lines.trans hR.lines.symm
  · simp only [hself, Prog.OkAlone]
    refine ⟨rfl, rfl, ?_, rfl, rfl, rfl⟩
    conv_rhs => rw [hk']
    simp only [Shared.kernel, Shared.put, placed, Function.update_self]

/-! ### Following one function after the other -/

lemma pure_followed (hs : s.kernel t held = k') (a : α) :
    Followed cfg calls t (Reaches s t held a k') held (pure a) s := ⟨rfl, rfl, hs, .refl s⟩

lemma followed_bind {β : Type} {p : TaskM T α} {f : α → TaskM T β} {k₁ : Kernel} {b : β}
    (hp : Followed cfg calls t (Reaches s t held a k₁) held p s)
    (hf : ∀ s', s'.kernel t held = k₁ →
      Followed cfg calls t (Reaches s' t held b k') held (f a) s') :
    Followed cfg calls t (Reaches s t held b k') held (p >>= f) s := by
  refine hp.bind ?_
  rintro held' a' s' ⟨rfl, rfl, hkernel, honward⟩
  refine (hf s' hkernel).mono ?_
  rintro held'' b' s'' ⟨rfl, rfl, hkernel', honward'⟩
  exact ⟨rfl, rfl, hkernel', honward.trans honward'⟩

/-- A steady access. -/
lemma access_reaches (hblind : Blind m) (hm : m (s.kernel t [.entryMutex]) = .ok (a, k'))
    (hsize : k'.dev.entry.size = s.dev.entry.size)
    (hsteady : Steady cfg (s.kernel t [.entryMutex]) k') :
    Followed cfg calls t (Reaches s t [.entryMutex] a k') [.entryMutex] (access t m) s := by
  have hheld : DevMutex.entryMutex ∈ [DevMutex.entryMutex] := List.mem_singleton_self _
  refine (access_followed hblind hm hheld hsize fun _ => hsteady).mono ?_
  rintro held' b s' ⟨hheld', hb, rfl, hsame⟩
  refine ⟨hheld', hb, rfl, hsame.served, hsame.made, hsame.added ▸ List.prefix_refl _, fun hs => ?_⟩
  have hlines : s'.core.lines = s.core.lines := hsteady.lines
  rw [Shared.Stores, hlines, hsame.added]
  exact hs

/-- A look at the stage. -/
lemma readEntry_reaches (h : s.core.Inv cfg) :
    Followed cfg calls t (Reaches s t [.entryMutex] s.dev.entry (s.kernel t [.entryMutex]))
      [.entryMutex] (access t (read fun k => k.dev.entry)) s :=
  access_reaches (fun _ _ _ => rfl) rfl rfl ⟨Shared.kernel_inv.mpr h, rfl, rfl⟩

/-! ### Storing -/

variable {k : Kernel}

lemma storeByte_steady (h : k.Inv cfg) {i : ℕ} {c : Byte} {r : Unit}
    (hm : storeByte k.dev.entry.buffPtr i c k = .ok (r, k')) :
    Steady cfg k k' ∧ k'.dev = k.dev := by
  cases hp : k.dev.entry.buffPtr with
  | none =>
    rw [hp] at hm
    cases hm
  | some p =>
    obtain ⟨b, hb, -⟩ := h.exists_block_stage hp
    simp only [storeByte, hp, hb] at hm
    split_ifs at hm with hlt
    cases hm
    refine ⟨⟨{ h with owns := h.owns.store hb _ }, rfl, ?_⟩, rfl⟩
    exact Kernel.lines_congr rfl fun e he q hq => Heap.block_set_of_ne _ (h.ne_stage he hq hp)

/-- One turn of the copy loop. -/
lemma blind_storeAt (buf : List Byte) (i : ℕ) : Blind (do
    let entry ← read fun k => k.dev.entry
    let c ← loadUser buf i
    storeByte entry.buffPtr (entry.endIdx + i) c) := by
  intro p held
  refine Projects.bind (fun _ => rfl) fun entry => ?_
  exact (blind_loadUser buf i p held).bind fun c => blind_storeByte _ _ c p held

lemma loadUser_result {buf : List Byte} {i : ℕ} {c : Byte} (h : loadUser buf i k = .ok (c, k')) :
    k' = k := by
  rw [loadUser] at h
  cases hc : buf[i]? with
  | none =>
    rw [hc] at h
    cases h
  | some c' =>
    rw [hc] at h
    cases h
    rfl

lemma storeBytes_steady {buf : List Byte} {i n : ℕ} {r : Unit} (h : k.Inv cfg)
    (hk : Aesd.storeBytes buf i n k = .ok (r, k')) : Steady cfg k k' ∧ k'.dev = k.dev := by
  induction n generalizing i k with
  | zero =>
    cases hk
    exact ⟨⟨h, rfl, rfl⟩, rfl⟩
  | succ n ih =>
    rw [Aesd.storeBytes, read_bind_apply] at hk
    obtain ⟨c, k₁, hload, hk⟩ := of_bind_ok hk
    have hk₁ := loadUser_result hload
    subst hk₁
    obtain ⟨⟨⟩, k₂, hstore, hk⟩ := of_bind_ok hk
    obtain ⟨hsteady, hdev⟩ := storeByte_steady h hstore
    obtain ⟨hsteady', hdev'⟩ := ih hsteady.inv hk
    exact ⟨⟨hsteady'.inv, hsteady'.buff.trans hsteady.buff, hsteady'.lines.trans hsteady.lines⟩,
      hdev'.trans hdev⟩

lemma storeBytes_followed {buf : List Byte} {i n : ℕ} {r : Unit} (h : s.core.Inv cfg)
    (hk : Aesd.storeBytes buf i n (s.kernel t [.entryMutex]) = .ok (r, k')) :
    Followed cfg calls t (Reaches s t [.entryMutex] r k') [.entryMutex]
      (storeBytes t buf i n) s := by
  induction n generalizing i s with
  | zero =>
    cases hk
    exact pure_followed rfl ()
  | succ n ih =>
    rw [Aesd.storeBytes, read_bind_apply] at hk
    obtain ⟨c, k₁, hload, hk⟩ := of_bind_ok hk
    have hk₁ := loadUser_result hload
    subst hk₁
    obtain ⟨⟨⟩, k₂, hstore, hk⟩ := of_bind_ok hk
    obtain ⟨hsteady, hdev⟩ := storeByte_steady (Shared.kernel_inv.mpr h) hstore
    rw [storeBytes]
    refine followed_bind
      (access_reaches (a := ()) (blind_storeAt buf i) ?_ (by rw [hdev]; rfl) hsteady) ?_
    · rw [read_bind_apply, bind_ok hload]
      exact hstore
    · rintro s' rfl
      exact ih (Shared.kernel_inv.mp hsteady.inv) hk

/-- The part of `allocateStage` that allocates. -/
def newStage (cfg : KernelConfig) : KernelM Bool := do
  match ← kmalloc cfg.kmallocMaxSize with
  | none => pure false
  | some newBuff => do
    update fun k => { k with dev.entry.buffPtr := some newBuff }
    pure true

lemma blind_newStage : Blind (newStage cfg) := by
  intro p held
  refine (blind_kmalloc _ p held).bind fun newBuff => ?_
  cases newBuff with
  | none => exact .pure false
  | some q => exact Projects.bind (fun _ => rfl) fun _ => .pure true

lemma newStage_buff {r : Bool} (hk : newStage cfg k = .ok (r, k')) : k'.dev.buff = k.dev.buff := by
  cases hf : k.outcomes.allocFails.headD false with
  | true =>
    rw [newStage, bind_ok (kmalloc_of_fails _ hf)] at hk
    cases hk
    rfl
  | false =>
    rw [newStage, bind_ok (kmalloc_of_succeeds _ hf)] at hk
    cases hk
    rfl

lemma allocateStage_steady (h : k.Inv cfg) {r : Bool}
    (hk : Aesd.allocateStage cfg k = .ok (r, k')) :
    k'.Inv cfg ∧ k'.lines = k.lines ∧ k'.dev.entry.size = k.dev.entry.size := by
  rcases allocateStage_spec h with ⟨p, -, halloc⟩ | ⟨-, -, halloc⟩ |
    ⟨-, -, k₁, halloc, h₁, hsame, -, -, hlines, -⟩
  · rw [halloc] at hk
    cases hk
    exact ⟨h, rfl, rfl⟩
  · rw [halloc] at hk
    cases hk
    exact ⟨{ h with }, rfl, rfl⟩
  · rw [halloc] at hk
    cases hk
    exact ⟨h₁, hlines, hsame.size⟩

lemma allocateStage_followed {r : Bool} (h : s.core.Inv cfg)
    (hk : Aesd.allocateStage cfg (s.kernel t [.entryMutex]) = .ok (r, k')) :
    Followed cfg calls t (Reaches s t [.entryMutex] r k') [.entryMutex]
      (allocateStage cfg t) s := by
  obtain ⟨hinv, hlines, hsize⟩ := allocateStage_steady (Shared.kernel_inv.mpr h) hk
  rw [Aesd.allocateStage, read_bind_apply, Shared.kernel_dev] at hk
  rw [allocateStage]
  refine followed_bind (readEntry_reaches h) ?_
  intro s' hs'
  split_ifs at hk ⊢ with hnone
  · have hnew : newStage cfg (s.kernel t [.entryMutex]) = .ok (r, k') := hk
    have hbuff := newStage_buff hnew
    rw [← hs'] at hnew hlines hsize hbuff
    exact access_reaches blind_newStage hnew hsize ⟨hinv, hbuff, hlines⟩
  · cases hk
    exact pure_followed hs' true

lemma fillStage_followed {buf : List Byte} {count : ℕ} {r : ℤ} (h : s.core.Inv cfg)
    (hk : Aesd.fillStage buf count (s.kernel t [.entryMutex]) = .ok (r, k'))
    (hinv : k'.Inv cfg) (hlines : k'.lines = s.core.lines) :
    Followed cfg calls t (Reaches s t [.entryMutex] r k') [.entryMutex]
      (fillStage t buf count) s := by
  rw [Aesd.fillStage, read_bind_apply, Shared.kernel_dev] at hk
  rw [fillStage]
  refine followed_bind (readEntry_reaches h) ?_
  intro s' hs'
  have hinv' : s'.core.Inv cfg := by
    have hkernel := Shared.inv_kernel h t [.entryMutex]
    rw [← hs'] at hkernel
    exact Shared.kernel_inv.mp hkernel
  split_ifs at hk ⊢ with htoo
  · cases hk
    exact pure_followed hs' _
  · obtain ⟨⟨⟩, k₁, hstore, hk⟩ := of_bind_ok hk
    rw [← hs'] at hstore
    obtain ⟨hsteady, hdev⟩ := storeBytes_steady (Shared.kernel_inv.mpr hinv') hstore
    refine followed_bind (storeBytes_followed hinv' hstore) ?_
    rintro s₁ rfl
    rw [update_bind_apply] at hk
    cases hk
    refine followed_bind (access_reaches (a := ()) (fun _ _ _ => rfl) rfl rfl ⟨hinv, rfl, ?_⟩) ?_
    · rw [hlines, hsteady.lines, hs']
      rfl
    · intro s₂ hs₂
      exact pure_followed hs₂ 0

/-- What `StorePartial` does to the stage is steady. -/
lemma storePartial_steady (h : k.Inv cfg) (hsize : k.dev.entry.size = cfg.kmallocMaxSize)
    {buf : List Byte} {count : ℕ} (hpos : 0 < count) (hbuf : count ≤ buf.length)
    (hroom : k.dev.entry.endIdx + count ≤ cfg.kmallocMaxSize) {r : ℤ}
    (hk : Aesd.storePartial cfg buf count k = .ok (r, k')) : k'.Inv cfg ∧ k'.lines = k.lines := by
  obtain ⟨hinv, -, hlog, -⟩ := (storePartial_spec h hsize buf count hpos hbuf hroom).post hk
  refine ⟨hinv, (congrArg StagedLog.lines hlog).trans ?_⟩
  rcases StagedLog.store_cases k.log (buf.take count) with ⟨-, -, hst⟩ | ⟨-, hst⟩
  · rw [hst]
    rfl
  · rw [hst]
    rfl

lemma storePartial_followed (h : s.core.Inv cfg) (hsize : s.dev.entry.size = cfg.kmallocMaxSize)
    {buf : List Byte} {count : ℕ} (hpos : 0 < count) (hbuf : count ≤ buf.length)
    (hroom : s.dev.entry.endIdx + count ≤ cfg.kmallocMaxSize) {r : ℤ}
    (hk : Aesd.storePartial cfg buf count (s.kernel t [.entryMutex]) = .ok (r, k')) :
    Followed cfg calls t (Reaches s t [.entryMutex] r k') [.entryMutex]
      (storePartial cfg t buf count) s := by
  obtain ⟨hinv, hlines⟩ :=
    storePartial_steady (Shared.kernel_inv.mpr h) hsize hpos hbuf hroom hk
  have hne : count ≠ 0 := by omega
  rw [Aesd.storePartial, if_neg hne] at hk
  rw [storePartial, if_neg hne]
  obtain ⟨b, k₁, halloc, hk⟩ := of_bind_ok hk
  obtain ⟨hinv₁, hlines₁, -⟩ := allocateStage_steady (Shared.kernel_inv.mpr h) halloc
  refine followed_bind (allocateStage_followed h halloc) ?_
  rintro s₁ rfl
  cases b with
  | true =>
    exact fillStage_followed (Shared.kernel_inv.mp hinv₁) hk hinv (hlines.trans hlines₁.symm)
  | false =>
    cases hk
    exact pure_followed rfl _

/-! ### Flushing -/

/-- The line that is flushed is recorded. -/
lemma record_followed (e : BufferEntry) :
    Followed cfg calls t
      (fun held' _ s' => held' = [.buffMutex, .entryMutex] ∧
        s' = { s with added := s.added ++ [s.heap.entryBytes e] })
      [.buffMutex, .entryMutex]
      (record fun s => { s with added := s.added ++ [s.heap.entryBytes e] }) s := by
  refine ⟨fun u hR => ⟨rfl, ⟨hR.kernel, hR.bounds, hR.size, ?_, hR.served, hR.madeBy⟩, ?_⟩, rfl,
    rfl⟩
  · change u.added ++ [u.heap.entryBytes e] = _
    rw [hR.added, hR.heap]
    rfl
  · exact ⟨fun _ _ => rfl, .inl rfl, id, fun _ => .inl rfl, fun hnot => absurd (by simp) hnot,
      fun hnot => absurd hnot (by simp), List.prefix_append _ _, fun _ _ => rfl, fun _ _ => rfl,
      fun h => h.of_made_eq rfl (List.prefix_append _ _)⟩

lemma blind_takeInterrupted : Blind takeInterrupted := fun _ _ _ => rfl

/-- An access of a task that holds both mutexes. -/
lemma access_both {β : Type} {f : α → TaskM T β} {Q : List DevMutex → β → Shared T → Prop}
    (hblind : Blind m) (hm : m (s.kernel t [.buffMutex, .entryMutex]) = .ok (a, k'))
    (hsize : k'.dev.entry.size = s.dev.entry.size)
    (hf : ∀ s', s'.kernel t [.buffMutex, .entryMutex] = k' → SameRecord s s' →
      Followed cfg calls t Q [.buffMutex, .entryMutex] (f a) s') :
    Followed cfg calls t Q [.buffMutex, .entryMutex] (access t m >>= f) s := by
  refine (access_followed hblind hm (by simp) hsize fun hnot => absurd (by simp) hnot).bind ?_
  rintro held' b s' ⟨rfl, rfl, hkernel, hsame⟩
  exact hf s' hkernel hsame

/-- The wait for the buffer mutex is interrupted, or the mutex is free. -/
lemma lockBuff_followed {β : Type} {f : Bool → TaskM T β} {Q : List DevMutex → β → Shared T → Prop}
    (h : s.core.Inv cfg) {k₁ : Kernel}
    (hk₁ : k₁ = { s.kernel t [.entryMutex] with
      outcomes.interrupted := (s.outcomes t).interrupted.tail })
    (htrue : (s.outcomes t).interrupted.headD false = true → ∀ s', s'.kernel t [.entryMutex] = k₁ →
      Onward s s' → Followed cfg calls t Q [.entryMutex] (f true) s')
    (hfalse : (s.outcomes t).interrupted.headD false = false → ∀ s',
      s'.kernel t [.entryMutex] = k₁ → Onward s s' →
      s'.core.lines = s'.added.rtake maxWriteOperations →
      Followed cfg calls t Q [.buffMutex, .entryMutex] (f false) s') :
    Followed cfg calls t Q [.entryMutex] (mutexLockInterruptible t .buffMutex >>= f) s := by
  have hsteady : Steady cfg (s.kernel t [.entryMutex]) k₁ := by
    subst hk₁
    exact ⟨{ h with }, rfl, rfl⟩
  have hlocked : Followed cfg calls t
      (fun held' b s' => s'.kernel t [.entryMutex] = k₁ ∧ Onward s s' ∧
        (b = true ∧ held' = [.entryMutex] ∧ (s.outcomes t).interrupted.headD false = true ∨
          b = false ∧ held' = [.buffMutex, .entryMutex] ∧
            (s.outcomes t).interrupted.headD false = false ∧
            s'.core.lines = s'.added.rtake maxWriteOperations)) [.entryMutex]
      (mutexLockInterruptible t .buffMutex) s := by
    rw [mutexLockInterruptible]
    refine (access_reaches blind_takeInterrupted (by rw [hk₁]; rfl) (by rw [hk₁]; rfl)
      hsteady).bind ?_
    rintro held' b s' ⟨rfl, rfl, hkernel, honward⟩
    cases hi : (s.kernel t [DevMutex.entryMutex]).outcomes.interrupted.headD false with
    | true => exact ⟨hkernel, honward, .inl ⟨rfl, rfl, hi⟩⟩
    | false =>
      refine ⟨by simp [protocol], fun u hR hfree => ⟨hkernel, honward, .inr ⟨rfl, rfl, hi, ?_⟩⟩⟩
      rw [← hR.lines, ← hR.added]
      exact hfree.2
  refine hlocked.bind ?_
  rintro held' b s' ⟨hkernel, honward, ⟨rfl, rfl, hi⟩ | ⟨rfl, rfl, hi, hlines⟩⟩
  · exact htrue hi s' hkernel honward
  · exact hfalse hi s' hkernel honward hlines

lemma addEntry_entry {e : BufferEntry} {r : Option Ptr} (h : addEntry e k = .ok (r, k')) :
    k'.dev.entry = k.dev.entry := by
  rw [addEntry] at h
  cases hadd : CircularBuffer.addEntry e k.dev.buff with
  | error e =>
    rw [hadd] at h
    cases h
  | ok q =>
    rw [hadd] at h
    cases h
    rfl

lemma kfree_dev {ptr : Option Ptr} {r : Unit} (h : kfree ptr k = .ok (r, k')) :
    k'.dev = k.dev := by
  cases ptr with
  | none =>
    cases h
    rfl
  | some p =>
    rw [kfree] at h
    cases hb : k.heap.block p with
    | none =>
      simp only [hb] at h
      cases h
    | some b =>
      simp only [hb] at h
      cases h
      rfl

lemma moveStage_followed {e : EntryStage} {freePtr : Option Ptr} {k₁ k₂ : Kernel}
    (hadd : addEntry ⟨e.buffPtr, e.endIdx⟩ (s.kernel t [.buffMutex, .entryMutex])
      = .ok (freePtr, k₁))
    (hkfree : kfree freePtr k₁ = .ok ((), k₂)) :
    Followed cfg calls t (fun held' _ s' => held' = [.buffMutex, .entryMutex] ∧
        s'.kernel t [.buffMutex, .entryMutex]
          = { k₂ with dev.entry.buffPtr := none, dev.entry.endIdx := 0 } ∧
        SameRecord { s with added := s.added ++ [s.heap.entryBytes ⟨e.buffPtr, e.endIdx⟩] } s')
      [.buffMutex, .entryMutex] (moveStage t e) s := by
  rw [moveStage]
  refine (record_followed _).bind ?_
  rintro held' ⟨⟩ s₁ ⟨rfl, rfl⟩
  refine access_both (blind_addEntry _) hadd (by rw [addEntry_entry hadd]; rfl) ?_
  rintro s₂ rfl hsame₂
  refine access_both (blind_kfree _) hkfree (by rw [kfree_dev hkfree]; rfl) ?_
  rintro s₃ rfl hsame₃
  refine access_both (a := ()) (fun _ _ _ => rfl) rfl rfl ?_
  intro s₄ hs₄ hsame₄
  refine (access_followed (a := ()) (fun _ _ _ => rfl) rfl (by simp) rfl
    fun hnot => absurd (by simp) hnot).mono ?_
  rintro held' b s₅ ⟨rfl, -, hs₅, hsame₅⟩
  refine ⟨rfl, ?_, hsame₂.trans (hsame₃.trans (hsame₄.trans hsame₅))⟩
  rw [hs₅, hs₄]

lemma flushPartial_followed (h : s.core.Inv cfg) (hsome : s.dev.entry.buffPtr.isSome) {r : ℤ}
    (hk : Aesd.flushPartial (s.kernel t [.entryMutex]) = .ok (r, k')) :
    Followed cfg calls t (Reaches s t [.entryMutex] r k') [.entryMutex] (flushPartial t) s := by
  have hfree : .buffMutex ∉ (s.kernel t [.entryMutex]).held := by simp [Shared.kernel]
  obtain ⟨hinv, -, hlog, -⟩ := (flushPartial_spec (Shared.kernel_inv.mpr h) hsome hfree).post hk
  have hlines := congrArg StagedLog.lines hlog
  rw [Aesd.flushPartial] at hk
  rw [flushPartial]
  refine lockBuff_followed h rfl ?_ ?_
  · intro hi s' hs' honward
    rw [bind_ok (mutexLockInterruptible_of_interrupted _ hi)] at hk
    cases hk
    exact ⟨rfl, rfl, hs', honward⟩
  · intro hi s₁ hs₁ honward hadded
    have hs₁' : s₁.kernel t [.buffMutex, .entryMutex] = { s.kernel t [.entryMutex] with
        outcomes.interrupted := (s.outcomes t).interrupted.tail
        held := [.buffMutex, .entryMutex] } :=
      congrArg (fun k : Kernel => { k with held := [.buffMutex, .entryMutex] }) hs₁
    have hdev : s₁.dev = s.dev := congrArg Kernel.dev hs₁
    have hheap : s₁.heap = s.heap := congrArg Kernel.heap hs₁
    rw [bind_ok (mutexLockInterruptible_of_free hi hfree)] at hk
    change (_ : KernelM ℤ) { s.kernel t [.entryMutex] with
        outcomes.interrupted := (s.outcomes t).interrupted.tail
        held := [.buffMutex, .entryMutex] } = _ at hk
    obtain ⟨p, hp⟩ := Option.isSome_iff_exists.mp hsome
    have hp₁ : s₁.dev.entry.buffPtr = some p := by
      rw [hdev]
      exact hp
    have hne : ¬ s₁.dev.entry.buffPtr = none := by
      rw [hp₁]
      simp
    rw [← hs₁'] at hk
    simp only [Bool.false_eq_true, if_false, read_bind_apply, Shared.kernel_dev, hp₁,
      reduceCtorEq] at hk ⊢
    obtain ⟨freePtr, k₁, hadd, hk⟩ := of_bind_ok hk
    obtain ⟨⟨⟩, k₂, hkfree, hk⟩ := of_bind_ok hk
    refine access_both (a := s₁.dev.entry) (fun _ _ _ => rfl) rfl rfl ?_
    intro s₂ hs₂ hsame₂
    rw [← hs₂, ← hp₁] at hadd
    rw [if_neg hne]
    refine (moveStage_followed hadd hkfree).bind ?_
    rintro held' ⟨⟩ s₃ ⟨rfl, hs₃, hsame₃⟩
    rw [update_bind_apply, ← hs₃, bind_ok (mutexUnlock_of_held [.entryMutex] rfl)] at hk
    cases hk
    -- the flushed line is the one that was recorded
    have hline : (s.kernel t [.entryMutex]).log.staged
        = s₂.heap.entryBytes ⟨s₁.dev.entry.buffPtr, s₁.dev.entry.endIdx⟩ := by
      have hheap₂ : s₂.heap = s.heap := (congrArg Kernel.heap hs₂).trans hheap
      simp only [Kernel.log, StagedLog.staged, Kernel.stage, Shared.kernel_dev, hdev, hp, hheap₂,
        Option.map_some, Option.getD_some]
      rfl
    have hlines₁ : s₁.core.lines = s.core.lines := by
      simp only [Kernel.lines, Shared.core, hdev, hheap]
    have hnot : ¬ (s.kernel t [.entryMutex]).log.interrupted.headD false = true := by
      change ¬ (s.outcomes t).interrupted.headD false = true
      rw [hi]
      simp
    have hstores : s₃.Stores := by
      rw [StagedLog.flush, if_neg hnot] at hlines
      change s₃.core.lines = pushLast _ s.core.lines _ at hlines
      rw [Shared.Stores, hlines, hsame₃.added, hsame₂.added, hline, ← hlines₁, hadded, pushLast,
        rtake_rtake_append]
    have honward' : Onward s₁ s₃ := by
      refine ⟨hsame₃.served.trans hsame₂.served, hsame₃.made.trans hsame₂.made, ?_,
        fun _ => hstores⟩
      rw [hsame₃.added, hsame₂.added]
      exact List.prefix_append _ _
    refine ⟨by simp, by simp, fun u hR => ⟨hR.inv (Shared.kernel_inv.mp hinv), ?_⟩,
      rfl, rfl, rfl, honward.trans honward'⟩
    rw [hR.lines, hR.added]
    exact hstores

/-! ### The call -/

lemma writeLoop_followed {buf : List Byte} {fuel base idx : ℕ} {r : Option ℕ}
    (h : s.core.Inv cfg) (hsize : s.dev.entry.size = cfg.kmallocMaxSize)
    (hroom : s.dev.entry.endIdx + (buf.length - base) ≤ cfg.kmallocMaxSize)
    (hk : Aesd.writeLoop cfg buf buf.length fuel base idx (s.kernel t [.entryMutex])
      = .ok (r, k')) :
    Followed cfg calls t (Reaches s t [.entryMutex] r k') [.entryMutex]
      (writeLoop cfg t buf buf.length fuel base idx) s := by
  induction fuel generalizing s base idx with
  | zero => cases hk
  | succ fuel ih =>
    rw [Aesd.writeLoop] at hk
    rw [writeLoop]
    split_ifs at hk ⊢ with hlt
    · obtain ⟨c, k₁, hload, hk⟩ := of_bind_ok hk
      have hk₁ := loadUser_result hload
      subst hk₁
      have hinv := Shared.inv_kernel h t [.entryMutex]
      refine followed_bind (access_reaches (blind_loadUser _ _) hload rfl ⟨hinv, rfl, rfl⟩) ?_
      intro s₁ hs₁
      have hdev : s₁.dev = s.dev := congrArg Kernel.dev hs₁
      rw [← hs₁] at hk hinv
      rw [← hdev] at hsize hroom
      have h₁ := Shared.kernel_inv.mp hinv
      by_cases hc : c = newline
      · -- the end of a line
        rw [if_pos hc] at hk ⊢
        obtain ⟨stored, k₂, hstore, hk⟩ := of_bind_ok hk
        have hpos : 0 < idx + 1 := Nat.succ_pos idx
        have hbuf : idx + 1 ≤ (buf.drop base).length := by
          rw [List.length_drop]
          omega
        obtain ⟨hinv₂, hsame₂, -, hr⟩ :=
          (storePartial_spec hinv hsize _ _ hpos hbuf
            (by rw [Shared.kernel_dev]; omega)).post hstore
        refine followed_bind (storePartial_followed h₁ hsize hpos hbuf (by omega) hstore) ?_
        rintro s₂ rfl
        rcases hr with ⟨rfl, -, hsome, hidx⟩ | ⟨rfl, -⟩
        · have hne : ¬ (0 : ℤ) ≠ 0 := by simp
          rw [if_neg hne] at hk ⊢
          obtain ⟨r', k₃, hflush, hk⟩ := of_bind_ok hk
          obtain ⟨hinv₃, hsame₃, -, hidx₃⟩ :=
            (flushPartial_spec hinv₂ hsome notMem_held).post hflush
          have h₂ := Shared.kernel_inv.mp hinv₂
          refine followed_bind (flushPartial_followed h₂ hsome hflush) ?_
          rintro s₃ rfl
          have hsize₃ := (hsame₂.trans hsame₃).size.trans hsize
          simp only [Shared.kernel_dev] at hidx hidx₃ hsize₃
          exact ih (Shared.kernel_inv.mp hinv₃) hsize₃ (by omega) hk
        · have hne : -ENOMEM ≠ 0 := by decide
          rw [if_pos hne] at hk ⊢
          cases hk
          exact pure_followed rfl none
      · rw [if_neg hc] at hk ⊢
        exact ih h₁ hsize hroom hk
    · cases hk
      exact pure_followed rfl _

lemma writeLocked_followed {data : List Byte} {r : ℤ} (h : s.core.Inv cfg)
    (hsize : s.dev.entry.size = cfg.kmallocMaxSize)
    (hk : Aesd.writeLocked cfg data data.length (s.kernel t [.entryMutex]) = .ok (r, k')) :
    Followed cfg calls t (Reaches s t [.entryMutex] r k') [.entryMutex]
      (writeLocked cfg t data data.length) s := by
  have hinv := Shared.inv_kernel h t [.entryMutex]
  have hcheck := refuses_iff hinv hsize data.length
  have hfits := cfg.fits
  rw [hinv.length_staged, Shared.kernel_dev] at hcheck
  rw [Aesd.writeLocked, read_bind_apply, Shared.kernel_dev] at hk
  rw [writeLocked]
  refine followed_bind (readEntry_reaches h) ?_
  intro s₁ hs₁
  have hdev : s₁.dev = s.dev := congrArg Kernel.dev hs₁
  rw [← hdev] at hk hsize hcheck ⊢
  rw [← hs₁] at hk hinv
  have h₁ := Shared.kernel_inv.mp hinv
  by_cases hroom : cfg.kmallocMaxSize < s₁.dev.entry.endIdx + data.length
  · rw [if_pos (hcheck.mpr hroom)] at hk ⊢
    cases hk
    exact pure_followed rfl _
  · rw [if_neg (hcheck.not.mpr hroom)] at hk ⊢
    obtain ⟨r', k₂, hloop, hk⟩ := of_bind_ok hk
    obtain ⟨hinv₂, hsame₂, -, hr⟩ := (writeLoop_spec hinv hsize notMem_held
      (by omega : data.length < data.length + 1 + (0 + 0)) (by omega) (by simp)
      (by rw [Shared.kernel_dev]; omega)).post hloop
    refine followed_bind (writeLoop_followed h₁ hsize (by omega) hloop) ?_
    rintro s₂ rfl
    rcases hr with ⟨base, rfl, -, hle, -, hroom₂⟩ | ⟨rfl, -⟩
    · dsimp only at hk ⊢
      split_ifs at hk ⊢ with hlt
      · -- a line is left over
        obtain ⟨r'', k₃, hstore, hk⟩ := of_bind_ok hk
        rw [pure_apply] at hk
        obtain ⟨rfl, rfl⟩ := Prod.mk.inj (Except.ok.inj hk)
        have hcount : subSize data.length base = data.length - base :=
          subSize_eq hlt.le (by omega)
        refine followed_bind (storePartial_followed (Shared.kernel_inv.mp hinv₂)
          (hsame₂.size.trans hsize) (by omega) (by rw [List.length_drop]; omega)
          (by rw [Shared.kernel_dev] at hroom₂; omega) hstore) ?_
        intro s₃ hs₃
        exact pure_followed hs₃ _
      · rw [pure_apply] at hk
        obtain ⟨rfl, rfl⟩ := Prod.mk.inj (Except.ok.inj hk)
        exact pure_followed rfl _
    · cases hk
      exact pure_followed rfl _

end Aesd.Concurrent
