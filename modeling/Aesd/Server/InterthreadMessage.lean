import Aesd.Server.ConnectionReceiver

/-!
# Receiving a message of another thread

The loop of `ConnectionReceiverThread` that receives the four bytes of a message. It receives them
into the variable that points to the message, and not into the message; and a `recv` that fails
makes it wait for one more byte.
-/

namespace Aesd

open Exec

/-- How a `recv` on the inter-thread socket ends: with bytes, or with -1. -/
inductive MessageRecv where
  | data (bytes : List Byte)
  | again
  deriving DecidableEq, Repr

def MessageRecv.bytes : MessageRecv → List Byte
  | .data bytes => bytes
  | .again => []

def MessageRecv.retVal : MessageRecv → ℤ
  | .data bytes => bytes.length
  | .again => -1

/-- The local variables of the loop: the memory of `message`, that of `messagePtr`, and `needed`. -/
structure MessageVars where
  message : List Byte
  messagePtr : List Byte
  needed : ℕ
  deriving DecidableEq, Repr

/-- One turn of the loop. What is passed to `recv` is `&messagePtr`, and `needed` is a `size_t`. -/
def messageStep (r : MessageRecv) : Exec Fault MessageVars Unit := do
  let v ← read id
  if v.needed ≠ 0 then
    if v.messagePtr.length < r.bytes.length then fault .outOfBounds
    else
      update fun v => { v with
        messagePtr := r.bytes ++ v.messagePtr.drop r.bytes.length
        needed := subSize v.needed (toSize r.retVal) }
  else pure ()

/-- The value of an `int`, least significant byte first. -/
def intOfBytes (bytes : List Byte) : ℤ :=
  toInt (bytes.foldr (fun c n => c.toNat + 256 * n) 0 : ℕ)

/-- The variables when the loop begins: `message` is -1, and `messagePtr` holds its address. -/
def MessageVars.start (address : List Byte) : MessageVars := ⟨List.replicate 4 255, address, 4⟩

/-- The results that deliver a value: its bytes in pieces of at least one byte, the last one at the
end. -/
structure Deliver (value : List Byte) (rs : List MessageRecv) : Prop where
  bytes : rs.flatMap MessageRecv.bytes = value
  nonempty : ∀ r ∈ rs, r ≠ .data []
  ends : rs.getLast? ≠ some .again

/-- The message is received: the loop never waits for more than four bytes, it ends with the last
byte, and the thread does what it does for the value that was sent. -/
structure Received (address value : List Byte) (rs : List MessageRecv) : Prop where
  needed_le : ∀ pre, pre <+: rs →
    Returns (Machine.run messageStep pre) (.start address) fun _ v => v.needed ≤ 4
  message_eq : Returns (Machine.run messageStep rs) (.start address) fun _ v =>
    v.needed = 0 ∧ intOfBytes v.message = intOfBytes value ∧
      ∀ r, receiverStep (.message (intOfBytes v.message)) r
        = receiverStep (.message (intOfBytes value)) r

variable {v : MessageVars} {rs : List MessageRecv} {bytes value address : List Byte}

/-! ### One turn -/

lemma messageStep_of_zero (h : v.needed = 0) (r : MessageRecv) : messageStep r v = .ok ((), v) := by
  rw [messageStep, read_bind_apply, id, if_neg (not_not.mpr h)]
  rfl

/-- Bytes that are received are no longer waited for. -/
lemma messageStep_data (hle : bytes.length ≤ v.needed) (hneeded : v.needed ≤ 4)
    (hptr : v.messagePtr.length = 8) :
    ∃ v', messageStep (.data bytes) v = .ok ((), v') ∧ v'.needed = v.needed - bytes.length ∧
      v'.messagePtr.length = 8 := by
  by_cases hzero : v.needed = 0
  · exact ⟨v, messageStep_of_zero hzero _, by omega, hptr⟩
  · have hsub : subSize v.needed (toSize bytes.length) = v.needed - bytes.length := by
      rw [toSize_of_nonneg (by omega) (by omega), Int.toNat_natCast, subSize_eq hle (by omega)]
    have hfits : ¬ v.messagePtr.length < (MessageRecv.data bytes).bytes.length := by
      rw [MessageRecv.bytes]
      omega
    rw [messageStep, read_bind_apply, id, if_pos hzero, if_neg hfits]
    refine ⟨_, rfl, hsub, ?_⟩
    simp only [MessageRecv.bytes, List.length_append, List.length_drop]
    omega

/-- A failure makes the loop wait for one more byte. -/
lemma messageStep_again (h : v.needed ≠ 0) (hsize : v.needed + 1 < 2 ^ 64) :
    messageStep .again v = .ok ((), { v with needed := v.needed + 1 }) := by
  have hadd : subSize v.needed (toSize (-1)) = v.needed + 1 := by
    simp only [subSize, toSize]
    omega
  rw [messageStep, read_bind_apply, id, if_pos h]
  change Except.ok ((), { v with needed := subSize v.needed (toSize (-1)) }) = _
  rw [hadd]

/-- No turn writes to the message. -/
lemma messageStep_message {r : MessageRecv} {a : Unit} {v' : MessageVars}
    (h : messageStep r v = .ok (a, v')) : v'.message = v.message := by
  rw [messageStep, read_bind_apply, id] at h
  split_ifs at h
  · cases h
  · cases h
    rfl
  · cases h
    rfl

lemma run_messageStep_message {as : List Unit} {v' : MessageVars}
    (h : Machine.run messageStep rs v = .ok (as, v')) : v'.message = v.message := by
  have hkeeps : Keeps (fun v' => v'.message = v.message) (Machine.run messageStep rs) := by
    refine Keeps.run ?_ rs
    intro r v₁ a v₂ h₁ hstep
    exact (messageStep_message hstep).trans h₁
  exact hkeeps v as v' rfl h

/-! ### Every delivery -/

/-- Without failures the loop waits for just the bytes that are left to come. -/
lemma run_of_no_failure (hagain : .again ∉ rs)
    (hneeded : v.needed = (rs.flatMap MessageRecv.bytes).length) (hle : v.needed ≤ 4)
    (hptr : v.messagePtr.length = 8) :
    (∀ pre, pre <+: rs → Returns (Machine.run messageStep pre) v fun _ v' => v'.needed ≤ 4) ∧
      Returns (Machine.run messageStep rs) v fun _ v' => v'.needed = 0 := by
  induction rs generalizing v with
  | nil =>
    refine ⟨?_, [], v, rfl, hneeded⟩
    intro pre hpre
    rw [List.prefix_nil.mp hpre]
    exact ⟨[], v, rfl, hle⟩
  | cons r rs ih =>
    cases r with
    | again => exact absurd List.mem_cons_self hagain
    | data bytes =>
      rw [List.flatMap_cons, List.length_append, MessageRecv.bytes] at hneeded
      obtain ⟨v₁, hstep, hneeded₁, hptr₁⟩ :=
        messageStep_data (by omega : bytes.length ≤ v.needed) hle hptr
      obtain ⟨hall, as, v₂, hrun, hend⟩ :=
        ih (fun hmem => hagain (List.mem_cons_of_mem _ hmem)) (by omega) (by omega) hptr₁
      exact ⟨(Machine.forall_prefix_cons hstep).mpr ⟨hle, hall⟩, _, v₂,
        Machine.run_cons hstep hrun, hend⟩

/-- Nothing is left to come only if no result is. -/
lemma eq_nil_of_no_bytes (hends : rs.getLast? ≠ some .again) (hnonempty : ∀ r ∈ rs, r ≠ .data [])
    (hnone : (rs.flatMap MessageRecv.bytes).length = 0) : rs = [] := by
  rcases List.eq_nil_or_concat' rs with rfl | ⟨front, r, rfl⟩
  · rfl
  · cases r with
    | again =>
      rw [List.getLast?_concat] at hends
      exact absurd rfl hends
    | data bytes =>
      rw [List.flatMap_append, List.flatMap_singleton, List.length_append, MessageRecv.bytes]
        at hnone
      have hnil : bytes = [] := List.eq_nil_of_length_eq_zero (by omega)
      rw [hnil] at hnonempty
      exact absurd rfl (hnonempty _ (List.mem_append_right front List.mem_cons_self))

/-- If the loop never waits for more than four bytes and ends with the last byte, it did not wait
for more bytes than were left to come, and no `recv` has failed. -/
lemma not_failed (hends : rs.getLast? ≠ some .again) (hnonempty : ∀ r ∈ rs, r ≠ .data [])
    {extra : ℕ} (hneeded : v.needed = (rs.flatMap MessageRecv.bytes).length + extra)
    (hptr : v.messagePtr.length = 8)
    (hall : ∀ pre, pre <+: rs → Returns (Machine.run messageStep pre) v fun _ v' => v'.needed ≤ 4)
    (hend : Returns (Machine.run messageStep rs) v fun _ v' => v'.needed = 0) :
    extra = 0 ∧ .again ∉ rs := by
  induction rs generalizing v extra with
  | nil =>
    obtain ⟨as, v', hrun, hzero⟩ := hend
    cases hrun
    refine ⟨?_, List.not_mem_nil⟩
    rw [hzero, List.flatMap_nil, List.length_nil] at hneeded
    omega
  | cons r rs ih =>
    have hends' : rs.getLast? ≠ some .again := by
      intro hlast
      rw [List.getLast?_cons, hlast] at hends
      exact hends rfl
    have hnonempty' : ∀ r ∈ rs, r ≠ .data [] := fun r hr =>
      hnonempty r (List.mem_cons_of_mem _ hr)
    have hle : v.needed ≤ 4 := by
      obtain ⟨as, v', hrun, hle⟩ := hall [] List.nil_prefix
      cases hrun
      exact hle
    obtain ⟨as, v₂, hrun, hzero⟩ := hend
    obtain ⟨a, as', v₁, rfl, hstep, htail⟩ := Machine.of_run_cons hrun
    have hall' := ((Machine.forall_prefix_cons hstep).mp hall).2
    cases r with
    | data bytes =>
      rw [List.flatMap_cons, List.length_append, MessageRecv.bytes] at hneeded
      obtain ⟨v₁', hstep', hneeded₁, hptr₁⟩ :=
        messageStep_data (by omega : bytes.length ≤ v.needed) hle hptr
      rw [hstep'] at hstep
      cases hstep
      have hneeded₂ : v₁.needed = (rs.flatMap MessageRecv.bytes).length + extra := by omega
      obtain ⟨hextra, hagain⟩ :=
        ih hends' hnonempty' hneeded₂ hptr₁ hall' ⟨as', v₂, htail, hzero⟩
      refine ⟨hextra, ?_⟩
      rw [List.mem_cons, not_or]
      exact ⟨nofun, hagain⟩
    | again =>
      rw [List.flatMap_cons, MessageRecv.bytes, List.nil_append] at hneeded
      by_cases hwaits : v.needed = 0
      · have hnil := eq_nil_of_no_bytes hends hnonempty (by
          rw [List.flatMap_cons, MessageRecv.bytes, List.nil_append]
          omega)
        cases hnil
      · -- the loop waits for a byte that does not come
        rw [messageStep_again hwaits (by omega)] at hstep
        cases hstep
        have hneeded₂ : v.needed + 1 = (rs.flatMap MessageRecv.bytes).length + (extra + 1) := by
          omega
        obtain ⟨hextra, -⟩ := ih (v := { v with needed := v.needed + 1 }) hends' hnonempty' hneeded₂
          hptr hall' ⟨as', v₂, htail, hzero⟩
        exact absurd hextra (Nat.succ_ne_zero extra)

/-- Whatever value is sent, and however it arrives: it is received exactly if it is -1, which is
what the message was before, and no `recv` has failed. -/
theorem message_received_iff (address value : List Byte) (rs : List MessageRecv)
    (haddress : address.length = 8) (hvalue : value.length = 4) (hrs : Deliver value rs) :
    Received address value rs ↔ intOfBytes value = -1 ∧ .again ∉ rs := by
  have hstart : intOfBytes (MessageVars.start address).message = -1 := by
    change intOfBytes (List.replicate 4 255) = -1
    decide
  have hneeded : (MessageVars.start address).needed = (rs.flatMap MessageRecv.bytes).length := by
    rw [hrs.bytes, hvalue]
    rfl
  constructor
  · intro h
    obtain ⟨as, v, hrun, hzero, hmessage, -⟩ := h.message_eq
    rw [run_messageStep_message hrun, hstart] at hmessage
    have hnot := not_failed hrs.ends hrs.nonempty (hneeded.trans (Nat.add_zero _).symm) haddress
      h.needed_le ⟨as, v, hrun, hzero⟩
    exact ⟨hmessage.symm, hnot.2⟩
  · rintro ⟨hminus, hagain⟩
    obtain ⟨hall, as, v, hrun, hzero⟩ := run_of_no_failure hagain hneeded le_rfl haddress
    refine ⟨hall, as, v, hrun, hzero, ?_⟩
    rw [run_messageStep_message hrun, hstart, hminus]
    exact ⟨rfl, fun _ => rfl⟩

/-- The value -1, in two pieces. -/
theorem message_received_iff_minusOne :
    Received (List.replicate 8 0) (List.replicate 4 255) [.data [255], .data [255, 255, 255]] ↔
      intOfBytes (List.replicate 4 255) = -1 ∧
        MessageRecv.again ∉ [MessageRecv.data [255], .data [255, 255, 255]] :=
  message_received_iff _ _ _ List.length_replicate List.length_replicate
    ⟨rfl, by decide, by decide⟩

/-- The message that is sent when the server closes, in one piece: the loop ends, and the thread
closes the connection -1. If a `recv` fails before, the loop does not end. -/
theorem message_not_received :
    Deliver (List.replicate 4 0) [.data (List.replicate 4 0)] ∧
      Machine.run messageStep [.data (List.replicate 4 0)] (.start (List.replicate 8 7))
        = .ok ([()], ⟨List.replicate 4 255, [0, 0, 0, 0, 7, 7, 7, 7], 0⟩) ∧
      intOfBytes (List.replicate 4 0) = 0 ∧ intOfBytes (List.replicate 4 255) = -1 ∧
      ¬ Received (List.replicate 8 7) (List.replicate 4 0) [.data (List.replicate 4 0)] ∧
      Machine.run messageStep [.again, .data (List.replicate 4 0)] (.start (List.replicate 8 7))
        = .ok ([(), ()], ⟨List.replicate 4 255, [0, 0, 0, 0, 7, 7, 7, 7], 1⟩) := by
  have hrun : Machine.run messageStep [.data (List.replicate 4 0)] (.start (List.replicate 8 7))
      = .ok ([()], ⟨List.replicate 4 255, [0, 0, 0, 0, 7, 7, 7, 7], 0⟩) := by decide
  have hzero : intOfBytes (List.replicate 4 0) = 0 := by decide
  have hminus : intOfBytes (List.replicate 4 255) = -1 := by decide
  refine ⟨⟨rfl, by decide, by decide⟩, hrun, hzero, hminus, ?_, by decide⟩
  intro h
  obtain ⟨-, hmessage, -⟩ := h.message_eq.post hrun
  rw [hminus, hzero] at hmessage
  cases hmessage

end Aesd
