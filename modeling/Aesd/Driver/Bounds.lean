import Aesd.Driver.Device.Recorded
import Aesd.Driver.Device.Writes

/-!
# What the driver does to its line buffers

A write is admitted once, for all of its lines, against what is on the stage. The loop keeps that
room for what it has not stored yet: a flush may leave the stage as it is, but never lets it grow.
-/

namespace Aesd

open Exec Kernel

/-- A check for room that passes, a store inside a buffer of the largest size, or a copy from inside
a live entry. -/
def Event.InBounds (cfg : KernelConfig) : Event → Prop
  | .check endIdx count size => addSize endIdx count ≤ size
  | .store blockSize index => blockSize = some cfg.kmallocMaxSize ∧ index < cfg.kmallocMaxSize
  | .copy live entry offset size => entry ∈ live ∧ offset < entry.size ∧ offset + size ≤ entry.size
  | _ => True

/-- A flush finds a partial to flush. -/
def Event.HasPartial : Event → Prop
  | .flush buffPtr => buffPtr ≠ none
  | _ => True

/-- Everything that was done was in bounds, and no flush missed its partial. -/
def Record.Sound (cfg : KernelConfig) (events : Record) : Prop :=
  ∀ x ∈ events, x.InBounds cfg ∧ x.HasPartial

variable {cfg : KernelConfig} {k : Kernel} {t t' : Kernel × Record} {events : Record} {x : Event}

lemma Record.Sound.append (h : Record.Sound cfg events) (hbounds : x.InBounds cfg)
    (hfound : x.HasPartial) : Record.Sound cfg (events ++ [x]) := by
  intro y hy
  rcases List.mem_append.mp hy with hy | hy
  · exact h y hy
  · rw [List.mem_singleton.mp hy]
    exact ⟨hbounds, hfound⟩

namespace Recorded

/-! ### Steps that are always sound -/

lemma keepsSound_lift {α : Type} (m : KernelM α) :
    Keeps (fun t => Record.Sound cfg t.2) (lift m : RecordedM α) :=
  .lift fun _ _ _ _ h _ => h

lemma keepsSound_record {f : Kernel → Event} (hf : ∀ k, (f k).InBounds cfg ∧ (f k).HasPartial) :
    Keeps (fun t => Record.Sound cfg t.2) (record f) := by
  rintro t a t' h heq
  cases heq
  exact h.append (hf t.1).1 (hf t.1).2

lemma keepsSound_kfree (p : Option Ptr) : Keeps (fun t => Record.Sound cfg t.2) (kfree p) := by
  refine keeps_kfree (fun _ => keepsSound_lift _) (fun _ => keepsSound_record ?_) p
  exact fun _ => ⟨trivial, trivial⟩

lemma keepsSound_addEntry (e : BufferEntry) :
    Keeps (fun t => Record.Sound cfg t.2) (addEntry e) := by
  refine Keeps.bind (keepsSound_record ?_) fun _ => keepsSound_lift _
  exact fun _ => ⟨trivial, trivial⟩

/-- An allocation, next to the record. -/
lemma allocateStage_sound {ok : Bool} {k' : Kernel}
    (halloc : Aesd.allocateStage cfg t.1 = .ok (ok, k')) (hsound : Record.Sound cfg t.2) :
    ∃ events, allocateStage cfg t = .ok (ok, (k', events)) ∧ Record.Sound cfg events := by
  obtain ⟨events, hcall⟩ := erases_allocateStage.exists_ok halloc
  have hkeeps : Keeps (fun t => Record.Sound cfg t.2) (allocateStage cfg) := by
    refine keeps_allocateStage (keeps_kmalloc (keepsSound_lift _) ?_) fun _ => keepsSound_lift _
    exact fun _ => keepsSound_record fun _ => ⟨trivial, trivial⟩
  exact ⟨events, hcall, hkeeps _ _ _ hsound hcall⟩

/-! ### The write path -/

/-- The copy loop stores below the end of the room that it has. -/
lemma storeBytes_sound (buf : List Byte) {i n : ℕ} {p : Ptr} {b : Block}
    (hp : t.1.dev.entry.buffPtr = some p) (hb : t.1.heap.block p = some b)
    (hsize : b.size = cfg.kmallocMaxSize)
    (hroom : t.1.dev.entry.endIdx + i + n ≤ cfg.kmallocMaxSize) (hbuf : i + n ≤ buf.length)
    (h : Record.Sound cfg t.2) :
    Returns (storeBytes buf i n) t fun _ t' => Record.Sound cfg t'.2 := by
  induction n generalizing t i b with
  | zero => exact ⟨(), t, rfl, h⟩
  | succ n ih =>
    obtain ⟨k, events⟩ := t
    dsimp only at hp hb hroom h
    have hi : i < buf.length := by omega
    have hlt : k.dev.entry.endIdx + i < b.size := by omega
    set b' : Block := { b with
      bytes := Function.update b.bytes (k.dev.entry.endIdx + i) buf[i] } with hb'
    have hstore : storeByte k.dev.entry.buffPtr (k.dev.entry.endIdx + i) buf[i] k
        = .ok ((), { k with heap := k.heap.set p (some b') }) := by
      simp only [storeByte, hp, hb, if_pos hlt, hb']
    have hblock := Heap.block_set_self (some b') (Heap.lt_length_of_block hb)
    have hbounds : Event.InBounds cfg
        (.store ((k.dev.entry.buffPtr.bind k.heap.block).map Block.size)
          (k.dev.entry.endIdx + i)) := by
      rw [hp, Option.bind_some, hb, Option.map_some, hsize]
      exact ⟨rfl, by omega⟩
    rw [storeBytes, loadUser_of_lt hi]
    refine .step (lift_ok (read_apply _ k)) (.step (lift_ok (pure_apply _ k)) ?_)
    refine .step rfl (.step (lift_ok hstore) ?_)
    exact ih (t := ({ k with heap := k.heap.set p (some b') }, _)) hp hblock hsize
      (by dsimp only; omega) (by omega) (h.append hbounds trivial)

/-- The check passes, and so the stage has room for all that is stored. -/
lemma fillStage_sound (h : t.1.Inv cfg) (hsize : t.1.dev.entry.size = cfg.kmallocMaxSize)
    (hsome : t.1.dev.entry.buffPtr.isSome) {buf : List Byte} {count : ℕ}
    (hroom : t.1.dev.entry.endIdx + count ≤ cfg.kmallocMaxSize) (hbuf : count ≤ buf.length)
    (hsound : Record.Sound cfg t.2) :
    Returns (fillStage buf count) t fun _ t' => Record.Sound cfg t'.2 := by
  obtain ⟨p, hp⟩ := Option.isSome_iff_exists.mp hsome
  obtain ⟨b, hb, hbsize⟩ := h.exists_block_stage hp
  have hfits := cfg.fits
  have hcheck : addSize t.1.dev.entry.endIdx count ≤ t.1.dev.entry.size := by
    rw [addSize_eq (by omega)]
    omega
  have hchecked := hsound.append (x := .check _ _ _) hcheck trivial
  rw [fillStage]
  refine .step (lift_ok (read_apply _ t.1)) (.step rfl ?_)
  rw [if_neg hcheck.not_gt]
  refine (storeBytes_sound buf (t := (t.1, t.2 ++ [_])) (i := 0) (n := count) hp hb hbsize
    (by dsimp only; omega) (by omega) hchecked).bind ?_
  rintro - t₁ h₁
  exact ⟨0, _, rfl, h₁⟩

lemma storePartial_sound (h : t.1.Inv cfg) (hsize : t.1.dev.entry.size = cfg.kmallocMaxSize)
    (buf : List Byte) (count : ℕ) (hpos : 0 < count) (hbuf : count ≤ buf.length)
    (hroom : t.1.dev.entry.endIdx + count ≤ cfg.kmallocMaxSize) (hsound : Record.Sound cfg t.2) :
    Returns (storePartial cfg buf count) t fun r t' => Record.Sound cfg t'.2 ∧
      t'.1.Inv cfg ∧ SameOutsideLog t.1 t'.1 ∧
      (r = 0 ∧ t'.1.dev.entry.buffPtr.isSome ∧
          t'.1.dev.entry.endIdx = t.1.dev.entry.endIdx + count ∨ r = -ENOMEM) := by
  obtain ⟨r, t', hcall, -, hinv, hsame, -, hr⟩ :=
    (erases_storePartial count).returns (Aesd.storePartial_spec h hsize buf count hpos hbuf hroom)
  refine ⟨r, t', hcall, ?_, hinv, hsame, ?_⟩
  · refine Returns.post (Q := fun _ t' => Record.Sound cfg t'.2) ?_ hcall
    rw [storePartial, if_neg (by omega)]
    rcases allocateStage_spec h with ⟨p, hp, halloc⟩ | ⟨-, -, halloc⟩ |
      ⟨hp, -, k₁, halloc, h₁, hsame₁, hsome, hidx, -⟩
    · obtain ⟨events, halloc', hsound'⟩ := allocateStage_sound halloc hsound
      refine .step halloc' ?_
      exact fillStage_sound (t := (t.1, events)) h hsize (by simp [hp]) hroom hbuf hsound'
    · obtain ⟨_, halloc', hsound'⟩ := allocateStage_sound halloc hsound
      exact .step halloc' ⟨_, _, rfl, hsound'⟩
    · obtain ⟨_, halloc', hsound'⟩ := allocateStage_sound halloc hsound
      have hidx₀ := h.endIdx_eq hp
      refine .step halloc' ?_
      exact fillStage_sound h₁ (hsame₁.size.trans hsize) hsome (by dsimp only; omega) hbuf hsound'
  · rcases hr with ⟨hr, -, hsome, hidx⟩ | ⟨hr, -⟩
    · exact .inl ⟨hr, hsome, hidx⟩
    · exact .inr hr

/-- A flush of a stage that has a buffer does not return early. -/
lemma flushPartial_sound (h : t.1.Inv cfg) (hsome : t.1.dev.entry.buffPtr.isSome)
    (hfree : .buffMutex ∉ t.1.held) (hsound : Record.Sound cfg t.2) :
    Returns flushPartial t fun _ t' => Record.Sound cfg t'.2 ∧
      t'.1.Inv cfg ∧ SameOutsideLog t.1 t'.1 ∧
      t'.1.dev.entry.endIdx ≤ t.1.dev.entry.endIdx := by
  obtain ⟨r, t', hcall, -, hinv, hsame, -, hidx⟩ :=
    erases_flushPartial.returns (Aesd.flushPartial_spec h hsome hfree)
  refine ⟨r, t', hcall, ?_, hinv, hsame, hidx⟩
  obtain ⟨k, events⟩ := t
  obtain ⟨interrupted, ⟨k₁, _⟩, hlift, hrest⟩ := of_bind_ok hcall
  obtain ⟨hlock, hrecord⟩ := of_lift_ok hlift
  dsimp only at hsome hfree hsound hlock hrecord ⊢
  subst hrecord
  cases hi : k.outcomes.interrupted.headD false with
  | true =>
    rw [mutexLockInterruptible_of_interrupted _ hi] at hlock
    cases hlock
    cases hrest
    exact hsound
  | false =>
    rw [mutexLockInterruptible_of_free hi hfree] at hlock
    cases hlock
    obtain ⟨entry, _, hread, hrest⟩ := of_bind_ok hrest
    cases hread
    obtain ⟨_, _, hghost, hrest⟩ := of_bind_ok hrest
    cases hghost
    have hne : k.dev.entry.buffPtr ≠ none := Option.isSome_iff_ne_none.mp hsome
    rw [if_neg hne] at hrest
    have hend : Keeps (fun t : Kernel × Record => Record.Sound cfg t.2) (do
        let freePtr ← addEntry ⟨k.dev.entry.buffPtr, k.dev.entry.endIdx⟩
        kfree freePtr
        lift (update fun k => { k with dev.entry.buffPtr := none, dev.entry.endIdx := 0 })
        lift (mutexUnlock .buffMutex)
        pure (0 : ℤ)) :=
      (keepsSound_addEntry _).bind fun freePtr => (keepsSound_kfree freePtr).bind fun _ =>
        (keepsSound_lift _).bind fun _ => (keepsSound_lift _).bind fun _ => .pure 0
    exact hend _ _ _ (hsound.append (x := .flush _) trivial hne) hrest

/-- What the loop has not stored yet has room on the stage. -/
lemma writeLoop_sound (h : t.1.Inv cfg) (hsize : t.1.dev.entry.size = cfg.kmallocMaxSize)
    (hfree : .buffMutex ∉ t.1.held) {buf : List Byte} {fuel base idx : ℕ}
    (hfuel : buf.length < fuel + (base + idx)) (hle : base + idx ≤ buf.length)
    (hroom : t.1.dev.entry.endIdx + (buf.length - base) ≤ cfg.kmallocMaxSize)
    (hsound : Record.Sound cfg t.2) :
    Returns (writeLoop cfg buf buf.length fuel base idx) t fun r t' => Record.Sound cfg t'.2 ∧
      t'.1.Inv cfg ∧ SameOutsideLog t.1 t'.1 ∧
      ∀ base', r = some base' →
        base' ≤ buf.length ∧ t'.1.dev.entry.endIdx + (buf.length - base') ≤ cfg.kmallocMaxSize := by
  induction fuel generalizing t base idx with
  | zero => omega
  | succ fuel ih =>
    rw [writeLoop]
    split_ifs with hlt
    · rw [loadUser_of_lt hlt]
      refine .step (lift_ok (pure_apply _ t.1)) ?_
      split_ifs with hc
      · -- the end of a line
        obtain ⟨r, t₁, hk₁, hsound₁, h₁, hsame₁, hr⟩ :=
          storePartial_sound h hsize (buf.drop base) (idx + 1) (by omega)
            (by rw [List.length_drop]; omega) (by omega) hsound
        refine .step hk₁ ?_
        rcases hr with ⟨rfl, hsome₁, hidx₁⟩ | rfl
        · obtain ⟨r, t₂, hk₂, hsound₂, h₂, hsame₂, hidx₂⟩ :=
            flushPartial_sound h₁ hsome₁ (by rw [hsame₁.held]; exact hfree) hsound₁
          have hsame := hsame₁.trans hsame₂
          refine .step hk₂ ?_
          refine (ih h₂ (hsame.size.trans hsize) (by rw [hsame.held]; exact hfree)
            (by omega) (by omega) (by omega) hsound₂).mono ?_
          rintro r t' ⟨hsound', h', hsame', hbase⟩
          exact ⟨hsound', h', hsame.trans hsame', hbase⟩
        · exact ⟨none, t₁, rfl, hsound₁, h₁, hsame₁, nofun⟩
      · exact ih h hsize hfree (by omega) (by omega) hroom hsound
    · refine ⟨some base, t, rfl, hsound, h, SameOutsideLog.refl t.1, ?_⟩
      rintro _ ⟨⟩
      exact ⟨by omega, hroom⟩

lemma writeLocked_sound (h : t.1.Inv cfg) (hsize : t.1.dev.entry.size = cfg.kmallocMaxSize)
    (hfree : .buffMutex ∉ t.1.held) (data : List Byte) (hsound : Record.Sound cfg t.2) :
    Returns (writeLocked cfg data data.length) t fun _ t' => Record.Sound cfg t'.2 ∧
      SameOutsideLog t.1 t'.1 := by
  have hfits := cfg.fits
  have hidx := h.endIdx_le
  rw [writeLocked]
  refine .step (lift_ok (read_apply _ t.1)) ?_
  split_ifs with hrefused
  · exact ⟨_, t, rfl, hsound, SameOutsideLog.refl t.1⟩
  rw [refuses_iff h hsize, h.length_staged, not_lt] at hrefused
  obtain ⟨r, t₁, hloop, hsound₁, h₁, hsame₁, hbase⟩ := writeLoop_sound h hsize hfree
    (by omega : data.length < data.length + 1 + (0 + 0)) (by omega) (by omega) hsound
  refine .step hloop ?_
  cases r with
  | none => exact ⟨_, t₁, rfl, hsound₁, hsame₁⟩
  | some base =>
    obtain ⟨hle, hroom⟩ := hbase base rfl
    change Returns (if base < data.length then _ else _) t₁ _
    split_ifs with hlt
    · have hcount : subSize data.length base = data.length - base := subSize_eq hlt.le (by omega)
      refine (storePartial_sound h₁ (hsame₁.size.trans hsize) (data.drop base)
        (subSize data.length base) (by omega) (by rw [List.length_drop]; omega)
        (by omega) hsound₁).bind ?_
      rintro r t₂ ⟨hsound₂, -, hsame₂, -⟩
      exact ⟨_, t₂, rfl, hsound₂, hsame₁.trans hsame₂⟩
    · exact ⟨_, t₁, rfl, hsound₁, hsame₁⟩

lemma aesdWrite_sound (h : t.1.Idle cfg) (data : List Byte) (hsound : Record.Sound cfg t.2) :
    Returns (aesdWrite cfg data data.length) t fun _ t' => Record.Sound cfg t'.2 := by
  obtain ⟨k, events⟩ := t
  dsimp only at h hsound
  rw [aesdWrite]
  refine .step (lift_ok (update_apply _ k)) ?_
  cases hi : k.outcomes.interrupted.headD false with
  | true => exact .step (lift_ok (mutexLockInterruptible_of_interrupted _ hi)) ⟨_, _, rfl, hsound⟩
  | false =>
    refine .step (lift_ok (mutexLockInterruptible_of_free hi (by simp [h.held]))) ?_
    obtain ⟨r, t₁, hk₁, hsound₁, hsame⟩ := writeLocked_sound (t := ({ k with
      dev.entry.size := cfg.kmallocMaxSize
      outcomes.interrupted := k.outcomes.interrupted.tail
      held := .entryMutex :: k.held }, events)) { h.inv with } rfl (by simp [h.held]) data hsound
    exact .step hk₁ (.step (lift_ok (mutexUnlock_of_held _ hsame.held)) ⟨r, _, rfl, hsound₁⟩)

/-! ### Reads -/

/-- What the lookup finds is a live entry, and an offset inside it. -/
lemma located_live {b : CircularBuffer} {p i o : ℕ} (h : locate b.sizes p = some (i, o)) :
    b.entry (b.slot i) ∈ b.live ∧ o < (b.entry (b.slot i)).size := by
  obtain ⟨hi, ho, -⟩ := locate_eq_some_iff.mp h
  rw [CircularBuffer.getElem_sizes] at ho
  have hlive : i < b.live.length := by simpa using hi
  refine ⟨?_, ho⟩
  rw [← CircularBuffer.getElem_live hlive]
  exact List.getElem_mem hlive

lemma readLocked_sound (h : t.1.Inv cfg) (count : ℕ) {fPos : ℤ}
    (hf : -2 ^ 63 ≤ fPos ∧ fPos < 2 ^ 63) (hsound : Record.Sound cfg t.2) :
    Returns (readLocked count fPos) t fun _ t' => Record.Sound cfg t'.2 ∧
      t'.1.dev = t.1.dev ∧ t'.1.heap = t.1.heap ∧ t'.1.held = t.1.held := by
  obtain ⟨r, t', hcall, -, hdev, hheap, hheld, -⟩ :=
    (erases_readLocked count fPos).returns (readLocked_spec h count hf)
  refine ⟨r, t', hcall, ?_, hdev, hheap, hheld⟩
  obtain ⟨k, events⟩ := t
  dsimp only at h hsound
  obtain ⟨_, _, hread, hrest⟩ := of_bind_ok hcall
  cases hread
  have hsum := h.sum_sizes_lt
  have hfind := h.wf.findEntryOffsetForFpos_eq (by omega) (p := actualPos k.dev fPos)
    (Nat.mod_lt _ (by decide)) 0
  rw [hfind] at hrest
  cases hloc : locate k.dev.buff.sizes (actualPos k.dev fPos) with
  | none =>
    rw [hloc] at hrest
    cases hrest
    exact hsound
  | some q =>
    obtain ⟨i, o⟩ := q
    rw [hloc] at hrest
    obtain ⟨_, _, hghost, hrest⟩ := of_bind_ok hrest
    cases hghost
    obtain ⟨hlive, ho⟩ := located_live hloc
    obtain ⟨-, -, hmax⟩ := h.entries _ hlive
    have hfits := cfg.fits
    have hentrySize := subSize_eq ho.le (by omega)
    have hbounds : Event.InBounds cfg (.copy k.dev.buff.live (k.dev.buff.entry (k.dev.buff.slot i))
        o (if subSize (k.dev.buff.entry (k.dev.buff.slot i)).size o < count then
          subSize (k.dev.buff.entry (k.dev.buff.slot i)).size o else count)) := by
      refine ⟨hlive, ho, ?_⟩
      rw [hentrySize]
      split_ifs <;> omega
    exact ((keepsSound_lift _).bind fun copied => .pure _) _ _ _
      (hsound.append (x := .copy _ _ _ _) hbounds trivial) hrest

lemma aesdRead_sound (h : t.1.Idle cfg) (count : ℕ) {fPos : ℤ}
    (hf : -2 ^ 63 ≤ fPos ∧ fPos < 2 ^ 63) (hsound : Record.Sound cfg t.2) :
    Returns (aesdRead count fPos) t fun _ t' => Record.Sound cfg t'.2 := by
  obtain ⟨k, events⟩ := t
  dsimp only at h hsound
  rw [aesdRead]
  cases hi : k.outcomes.interrupted.headD false with
  | true => exact .step (lift_ok (mutexLockInterruptible_of_interrupted _ hi)) ⟨_, _, rfl, hsound⟩
  | false =>
    refine .step (lift_ok (mutexLockInterruptible_of_free hi (by simp [h.held]))) ?_
    obtain ⟨r, t₁, hk₁, hsound₁, -, -, hheld⟩ := readLocked_sound (t := ({ k with
      outcomes.interrupted := k.outcomes.interrupted.tail
      held := .buffMutex :: k.held }, events)) { h.inv with } count hf hsound
    exact .step hk₁ (.step (lift_ok (mutexUnlock_of_held _ hheld)) ⟨r, _, rfl, hsound₁⟩)

end Recorded

/-! ### Every call -/

/-- A function of the driver that moves the device, at most, leaves it idle. -/
lemma Kernel.Idle.of_seekTo {k' : Kernel} {q : ℤ} (h : k.Idle cfg)
    (hq : -2 ^ 63 ≤ q ∧ q < 2 ^ 63) (hdev : k'.dev = (k.seekTo q).dev) (hheap : k'.heap = k.heap)
    (hheld : k'.held = k.held) : k'.Idle cfg := by
  obtain ⟨dev, heap, held, outcomes⟩ := k'
  dsimp only at hdev hheap hheld
  subst hdev hheap hheld
  exact ⟨{ h.inv with lseekPos_bounds := hq }, h.held⟩

/-- An idle kernel, as the system finds it between two calls. -/
lemma Kernel.Idle.system (h : k.Idle cfg) : System.Inv cfg ⟨k.given {}, fun _ => none⟩ where
  kernel := h.inv.given {}
  held := h.held
  outcomes := rfl
  fPos_bounds _ _ hp := by cases hp

/-- Every function of the driver returns, and leaves the device idle. -/
lemma Kernel.Idle.driverOp (h : k.Idle cfg) (c : DriverCall) :
    Returns (driverOp cfg c) k fun _ k' => k'.Idle cfg := by
  have hfree : DevMutex.buffMutex ∉ k.held := by simp [h.held]
  obtain ⟨op, fPos, o⟩ := c
  cases op with
  | «open» => exact ⟨0, k, rfl, h⟩
  | release => exact ⟨0, k.seekTo 0, rfl, h.of_seekTo (by decide) rfl rfl rfl⟩
  | read count =>
    refine (aesdRead_spec h.inv hfree count (toLoff_bounds fPos)).bind ?_
    rintro r k' ⟨hdev, hheap, hheld, -⟩
    exact ⟨_, k', rfl, h.of_seekTo h.inv.lseekPos_bounds hdev hheap hheld⟩
  | write data =>
    exact (aesdWrite_spec h.inv h.held data).mono fun _ k' h' => ⟨h'.1, h'.2.1⟩
  | llseek off whence =>
    have hbounds := Call.llseekResult_bounds h.system ⟨0, .llseek off whence, k.outcomes⟩ off whence
    refine (aesdLlseek_spec hfree (toLoff off) whence).mono ?_
    rintro r k' ⟨hdev, hheap, hheld, -⟩
    exact h.of_seekTo hbounds hdev hheap hheld
  | ioctl cmd arg =>
    have hbounds := Call.ioctlResult_bounds h.system ⟨0, .ioctl cmd arg, k.outcomes⟩ cmd arg
    refine (aesdIoctl_spec hfree cmd arg).mono ?_
    rintro r k' ⟨hdev, hheap, hheld, -⟩
    exact h.of_seekTo hbounds hdev hheap hheld

namespace Recorded

lemma driverOp_sound (h : t.1.Idle cfg) (c : DriverCall) (hsound : Record.Sound cfg t.2) :
    Returns (driverOp cfg c) t fun _ t' => Record.Sound cfg t'.2 := by
  have hlift : ∀ m : KernelM ℤ, (Returns m t.1 fun _ _ => True) →
      Returns (lift m : RecordedM ℤ) t fun _ t' => Record.Sound cfg t'.2 := by
    rintro m ⟨a, k, hm, -⟩
    exact ⟨a, _, lift_ok hm, hsound⟩
  have hreturns := (h.driverOp c).mono fun _ _ _ => trivial
  rw [Aesd.driverOp] at hreturns
  rw [driverOp]
  cases hop : c.op with
  | read count =>
    refine (aesdRead_sound h count (toLoff_bounds c.fPos) hsound).bind ?_
    rintro r t' h'
    exact ⟨r.retVal, t', rfl, h'⟩
  | write data => exact aesdWrite_sound h data hsound
  | «open» => exact hlift _ (by rwa [hop] at hreturns)
  | release => exact hlift _ (by rwa [hop] at hreturns)
  | llseek off whence => exact hlift _ (by rwa [hop] at hreturns)
  | ioctl cmd arg => exact hlift _ (by rwa [hop] at hreturns)

/-- One call: the driver returns, it is idle again, and whatever it did was in bounds. -/
lemma driverCall_sound (h : t.1.Idle cfg) (c : DriverCall) (hsound : Record.Sound cfg t.2) :
    Returns (driverCall cfg c) t fun _ t' => t'.1.Idle cfg ∧ Record.Sound cfg t'.2 := by
  have hidle : Returns (Aesd.driverCall cfg c) t.1 fun _ k' => k'.Idle cfg :=
    .step (update_apply _ t.1) ((h.given c.outcomes).driverOp c)
  obtain ⟨r, t', hcall, -, hidle'⟩ := (erases_driverCall c).returns hidle
  refine ⟨r, t', hcall, hidle', ?_⟩
  refine Returns.post (Q := fun _ t' => Record.Sound cfg t'.2) ?_ hcall
  exact .step (lift_ok (update_apply _ t.1)) (driverOp_sound (h.given c.outcomes) c hsound)

/-- Every run of calls. -/
lemma run_sound (cfg : KernelConfig) (calls : List DriverCall) :
    Returns (Machine.run (driverCall cfg) calls) (Kernel.init, []) fun rets t =>
      Machine.run (Aesd.driverCall cfg) calls Kernel.init = .ok (rets, t.1) ∧
      t.1.Idle cfg ∧ Record.Sound cfg t.2 := by
  obtain ⟨rets, t, hrun, hidle, hsound⟩ := Machine.run_invariant
    (I := fun t : Kernel × Record => t.1.Idle cfg ∧ Record.Sound cfg t.2)
    (fun c t h => driverCall_sound h.1 c h.2) calls (s := (Kernel.init, []))
    ⟨⟨Kernel.init_inv, rfl⟩, fun x hx => absurd hx List.not_mem_nil⟩
  exact ⟨rets, t, hrun, (Erases.run erases_driverCall calls).of_ok hrun, hidle, hsound⟩

end Recorded

/-! ### The calls of the system -/

lemma of_withOutcomes {α : Type} {o : Outcomes} {m : KernelM α} {s s' : System} {a : α}
    (h : withOutcomes o m s = .ok (a, s')) :
    ∃ k, m (s.kernel.given o) = .ok (a, k) ∧ s' = { s with kernel := k.given {} } := by
  rw [withOutcomes] at h
  cases hm : m { s.kernel with outcomes := o } with
  | error e =>
    rw [hm] at h
    cases h
  | ok p =>
    rw [hm] at h
    cases h
    exact ⟨p.2, hm, rfl⟩

/-- A system call ends up in a call on the driver, or it does not get that far. -/
lemma sysCall_driverCall {s s' : System} (h : s.Inv cfg) {c : Call} {r : CallResult}
    (hcall : sysCall cfg c s = .ok (r, s')) :
    s'.kernel = s.kernel ∨
      ∃ d ret k', driverCall cfg d s.kernel = .ok (ret, k') ∧ s'.kernel = k'.given {} := by
  rw [sysCall, read_bind_apply] at hcall
  cases hf : s.fPos c.file with
  | none =>
    simp only [hf] at hcall
    split_ifs at hcall
    · obtain ⟨_, s₁, hopen, hrest⟩ := of_bind_ok hcall
      obtain ⟨k, hk, rfl⟩ := of_withOutcomes hopen
      cases hrest
      exact .inr ⟨⟨.open, 0, c.outcomes⟩, _, k, hk, rfl⟩
    · cases hcall
      exact .inl rfl
  | some p =>
    simp only [hf] at hcall
    obtain ⟨file, op, o⟩ := c
    cases op with
    | «open» =>
      cases hcall
      exact .inl rfl
    | release =>
      obtain ⟨_, s₁, hrelease, hrest⟩ := of_bind_ok hcall
      obtain ⟨k, hk, rfl⟩ := of_withOutcomes hrelease
      cases hrest
      exact .inr ⟨⟨.release, p, o⟩, _, k, hk, rfl⟩
    | read count =>
      obtain ⟨r', s₁, hread, hrest⟩ := of_bind_ok hcall
      obtain ⟨k, hk, rfl⟩ := of_withOutcomes hread
      cases hrest
      obtain ⟨hlow, hhigh⟩ := h.fPos_bounds _ _ hf
      have hdriver : (do
          let r ← aesdRead count (toLoff p)
          pure r.retVal : KernelM ℤ) (s.kernel.given o) = .ok (r'.retVal, k) := by
        rw [toLoff_of_bounds hlow hhigh, bind_ok hk]
        rfl
      exact .inr ⟨⟨.read count, p, o⟩, r'.retVal, k, hdriver, rfl⟩
    | write data =>
      obtain ⟨_, s₁, hwrite, hrest⟩ := of_bind_ok hcall
      obtain ⟨k, hk, rfl⟩ := of_withOutcomes hwrite
      cases hrest
      exact .inr ⟨⟨.write data, p, o⟩, _, k, hk, rfl⟩
    | llseek off whence =>
      obtain ⟨_, s₁, hseek, hrest⟩ := of_bind_ok hcall
      obtain ⟨k, hk, rfl⟩ := of_withOutcomes hseek
      cases hrest
      exact .inr ⟨⟨.llseek off whence, p, o⟩, _, k, hk, rfl⟩
    | ioctl cmd arg =>
      obtain ⟨_, s₁, hioctl, hrest⟩ := of_bind_ok hcall
      obtain ⟨k, hk, rfl⟩ := of_withOutcomes hioctl
      cases hrest
      exact .inr ⟨⟨.ioctl cmd arg, p, o⟩, _, k, hk, rfl⟩

/-- What the system reaches, the driver reaches by its own calls: whatever holds after every run of
them holds of the system. -/
theorem System.Reachable.driver {s : System} (h : System.Reachable cfg s) :
    ∃ k, Machine.Reachable (driverCall cfg) Kernel.init k ∧ s.kernel = k.given {} := by
  refine (Machine.Reachable.invariant (I := fun s => s.Inv cfg ∧
    ∃ k, Machine.Reachable (driverCall cfg) Kernel.init k ∧ s.kernel = k.given {}) ?_
    ⟨System.init_inv cfg, Kernel.init, .refl _, rfl⟩ h).2
  rintro c s ⟨hinv, k, hk, hkernel⟩
  obtain ⟨r, s', hcall, hinv'⟩ := sysCall_inv hinv c
  refine ⟨r, s', hcall, hinv', ?_⟩
  rcases sysCall_driverCall hinv hcall with hsame | ⟨d, ret, k', hd, hk'⟩
  · exact ⟨k, hk, hsame.trans hkernel⟩
  · -- a call brings its own outcomes
    rw [hkernel] at hd
    have hnext : driverCall cfg d k = .ok (ret, k') := hd
    exact ⟨k', hk.next hnext, hk'⟩

/-! ### What holds of every run -/

/-- In every run of writes of any size, of seeks, and of reads at any position, whatever the
allocations, the copies and the waits for locks come to: `StorePartial` never finds the stage too
small, it stores its bytes below `KMALLOC_MAX_SIZE` in a buffer of that size, and a read copies from
inside a live entry. -/
theorem accesses_inBounds (cfg : KernelConfig) (calls : List DriverCall) :
    Returns (Machine.run (Recorded.driverCall cfg) calls) (Kernel.init, []) fun rets t =>
      Machine.run (driverCall cfg) calls Kernel.init = .ok (rets, t.1) ∧
      ∀ x ∈ t.2, x.InBounds cfg := by
  refine (Recorded.run_sound cfg calls).mono ?_
  rintro rets t ⟨hrun, -, hsound⟩
  exact ⟨hrun, fun x hx => (hsound x hx).1⟩

/-- Every run of calls returns, and so no mutex is unlocked that was not locked, and none is waited
for by its holder; after it no mutex is held, and no flush has missed its partial. -/
theorem locks_balanced (cfg : KernelConfig) (calls : List DriverCall) :
    Returns (Machine.run (Recorded.driverCall cfg) calls) (Kernel.init, []) fun rets t =>
      Machine.run (driverCall cfg) calls Kernel.init = .ok (rets, t.1) ∧
      (∀ m, m ∉ t.1.held) ∧ ∀ buffPtr, .flush buffPtr ∈ t.2 → buffPtr ≠ none := by
  refine (Recorded.run_sound cfg calls).mono ?_
  rintro rets t ⟨hrun, hidle, hsound⟩
  refine ⟨hrun, ?_, fun buffPtr hmem => (hsound _ hmem).2⟩
  intro m
  rw [hidle.held]
  exact List.not_mem_nil

end Aesd
