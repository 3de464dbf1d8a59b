import Aesd.Server.InterthreadMessage

/-!
# Waiting for events

The loop of `ConnectionReceiverThread` with its calls of `epoll_wait`. A wait that is interrupted
returns -1 and leaves the array of events as it was; the thread looks at the array all the same, and
there it finds what an earlier wait has reported.
-/

namespace Aesd

open Exec

/-- How `epoll_wait` ends: with -1, with 0, or with one or two events, by their `data.fd`. -/
inductive EpollWait where
  | interrupted
  | timedOut
  | found (first : ℤ) (second : Option ℤ)
  deriving DecidableEq, Repr

/-- `foundEvents` -/
def EpollWait.retVal : EpollWait → ℤ
  | .interrupted => -1
  | .timedOut => 0
  | .found _ none => 1
  | .found _ (some _) => 2

/-- The `data.fd` of the two elements of `events`, after the wait. -/
def EpollWait.fill (events : ℤ × ℤ) : EpollWait → ℤ × ℤ
  | .found first none => (first, events.2)
  | .found first (some second) => (first, second)
  | _ => events

/-- The descriptors that the wait reports. -/
def EpollWait.reported : EpollWait → List ℤ
  | .found first second => first :: second.toList
  | _ => []

/-- The first descriptor that the wait reports, if there is one. -/
def EpollWait.first? : EpollWait → Option ℤ
  | .found first _ => some first
  | _ => none

/-- One turn of the loop: what it finds `closeRequested` and `interthreadSocketFD` to be, how its
wait ends, the results of its calls of `recv`, and how its `accept` ends, if it ends. -/
structure ReceiverTurn where
  closeRequested : Bool
  interthreadSocketFD : ℤ
  wait : EpollWait
  recvs : List MessageRecv
  accept : Option (ℤ × PthreadCreate)

/-- The thread is in its loop, has left it, or is in a call or an inner loop that does not end. -/
inductive ReceiverStatus where
  | running
  | left
  | stuck
  deriving DecidableEq, Repr

/-- The array `events`, the address of `message`, and the list of connections. -/
structure ReceiverThread where
  events : ℤ × ℤ
  messagePtr : List Byte
  receiver : Receiver
  status : ReceiverStatus

/-- What a turn does after its wait. -/
inductive Reaction where
  | nothing
  | receive
  | accept
  deriving DecidableEq, Repr

/-- The branch that the thread takes, by the first element of `events`. -/
def ReceiverTurn.reaction (socketFD : ℤ) (t : ReceiverThread) (turn : ReceiverTurn) : Reaction :=
  if t.status ≠ .running ∨ turn.closeRequested then .nothing
  else if turn.wait.retVal = 0 then .nothing
  else if (turn.wait.fill t.events).1 = turn.interthreadSocketFD then .receive
  else if (turn.wait.fill t.events).1 = socketFD then .accept
  else .nothing

/-- Run a program on the list of connections. -/
def onReceiver (m : ReceiverM Unit) : Exec Fault ReceiverThread Unit := fun t =>
  match m t.receiver with
  | .ok (_, receiver) => .ok ((), { t with receiver })
  | .error e => .error e

/-- The value of `message` when the loop that receives it has ended. -/
def receiveMessage (recvs : List MessageRecv) : Exec Fault ReceiverThread (Option ℤ) := fun t =>
  match Machine.run messageStep recvs (.start t.messagePtr) with
  | .ok (_, v) => .ok (if v.needed = 0 then some (intOfBytes v.message) else none, t)
  | .error e => .error e

def setStatus (status : ReceiverStatus) : Exec Fault ReceiverThread Unit :=
  update fun t => { t with status }

/-- What the thread does with a message. -/
def actOnMessage : Option ℤ → Exec Fault ReceiverThread Unit
  | none => setStatus .stuck
  | some message => do
    onReceiver (receiverStep (.message message))
    if message = 0 then setStatus .left else pure ()

def actOnAccept : Option (ℤ × PthreadCreate) → Exec Fault ReceiverThread Unit
  | none => setStatus .stuck
  | some (connectionFD, create) => onReceiver (receiverStep (.accept connectionFD create))

/-- One turn of the loop of `ConnectionReceiverThread`. -/
def receiverTurn (socketFD : ℤ) (turn : ReceiverTurn) : Exec Fault ReceiverThread Unit := do
  let t ← read id
  if t.status = .running then
    if turn.closeRequested then setStatus .left
    else do
      update fun t => { t with events := turn.wait.fill t.events }
      match turn.reaction socketFD t with
      | .nothing => pure ()
      | .receive => do
        let message ← receiveMessage turn.recvs
        actOnMessage message
      | .accept => actOnAccept turn.accept
  else pure ()

/-- The thread at the start of its loop; the contents of `events` are arbitrary. -/
def ReceiverThread.start (events : ℤ × ℤ) (messagePtr : List Byte) : ReceiverThread :=
  ⟨events, messagePtr, .start, .running⟩

/-- `accept` is called only if the listening socket was reported in this turn, and messages are
received only if the inter-thread socket was. -/
def ReceiverTurn.OnReport (socketFD : ℤ) (t : ReceiverThread) (turn : ReceiverTurn) : Prop :=
  (turn.reaction socketFD t = .accept → socketFD ∈ turn.wait.reported) ∧
    (turn.reaction socketFD t = .receive → turn.interthreadSocketFD ∈ turn.wait.reported)

/-- The first descriptor of the last report, or what the array held at the start. -/
def lastReported (first : ℤ) (turns : List ReceiverTurn) : ℤ :=
  turns.foldl (fun fd turn => turn.wait.first?.getD fd) first

variable {socketFD : ℤ} {t t' : ReceiverThread} {turn : ReceiverTurn} {turns : List ReceiverTurn}

lemma fill_fst (events : ℤ × ℤ) (wait : EpollWait) :
    (wait.fill events).1 = wait.first?.getD events.1 := by
  rcases wait with _ | _ | ⟨first, _ | second⟩ <;> rfl

/-! ### One turn -/

/-- The turn gets as far as looking at `events`. -/
def ReceiverTurn.Looks (t : ReceiverThread) (turn : ReceiverTurn) : Prop :=
  t.status = .running ∧ turn.closeRequested = false ∧ turn.wait ≠ .timedOut

lemma retVal_eq_zero_iff (wait : EpollWait) : wait.retVal = 0 ↔ wait = .timedOut := by
  rcases wait with _ | _ | ⟨first, _ | second⟩ <;> simp [EpollWait.retVal]

lemma reaction_of_looks (h : turn.Looks t) :
    turn.reaction socketFD t =
      if turn.wait.first?.getD t.events.1 = turn.interthreadSocketFD then .receive
      else if turn.wait.first?.getD t.events.1 = socketFD then .accept
      else .nothing := by
  obtain ⟨hrunning, hclose, hwait⟩ := h
  have hret : turn.wait.retVal ≠ 0 := (retVal_eq_zero_iff turn.wait).not.mpr hwait
  rw [ReceiverTurn.reaction, if_neg (by simp [hrunning, hclose]), if_neg hret, fill_fst]

lemma reaction_of_not_looks (h : ¬ turn.Looks t) : turn.reaction socketFD t = .nothing := by
  rw [ReceiverTurn.reaction]
  by_cases hstop : t.status ≠ .running ∨ turn.closeRequested = true
  · exact if_pos hstop
  · rw [if_neg hstop, if_pos]
    rw [not_or, not_not, Bool.not_eq_true] at hstop
    rw [retVal_eq_zero_iff]
    by_contra hwait
    exact h ⟨hstop.1, hstop.2, hwait⟩

/-- What is reported first in a turn is reported; a wait that is interrupted reports nothing. -/
lemma onReport_iff (socketFD : ℤ) (t : ReceiverThread) (turn : ReceiverTurn) :
    turn.OnReport socketFD t ↔
      (t.status = .running → turn.closeRequested = false → turn.wait = .interrupted →
        t.events.1 ≠ turn.interthreadSocketFD ∧ t.events.1 ≠ socketFD) := by
  rw [ReceiverTurn.OnReport]
  by_cases hlooks : turn.Looks t
  · rw [reaction_of_looks hlooks]
    obtain ⟨hrunning, hclose, hwait⟩ := hlooks
    rw [forall_prop_of_true hrunning, forall_prop_of_true hclose]
    cases hfound : turn.wait with
    | timedOut => exact absurd hfound hwait
    | interrupted =>
      rw [forall_prop_of_true rfl]
      change ((if t.events.1 = turn.interthreadSocketFD then Reaction.receive
        else if t.events.1 = socketFD then .accept else .nothing) = .accept → _ ∈ []) ∧
        ((if t.events.1 = turn.interthreadSocketFD then Reaction.receive
        else if t.events.1 = socketFD then .accept else .nothing) = .receive → _ ∈ []) ↔ _
      split_ifs with hreceive haccept
      · simp [hreceive]
      · simp [haccept]
      · simp [hreceive, haccept]
    | found first second =>
      refine iff_of_true ?_ nofun
      change ((if first = turn.interthreadSocketFD then Reaction.receive
        else if first = socketFD then .accept else .nothing) = .accept → _ ∈ first :: _) ∧
        ((if first = turn.interthreadSocketFD then Reaction.receive
        else if first = socketFD then .accept else .nothing) = .receive → _ ∈ first :: _)
      split_ifs with hreceive haccept
      · simp [hreceive]
      · simp [haccept]
      · simp
  · rw [reaction_of_not_looks hlooks]
    refine iff_of_true ⟨nofun, nofun⟩ ?_
    intro hrunning hclose hwait
    refine absurd ⟨hrunning, hclose, ?_⟩ hlooks
    rw [hwait]
    nofun

lemma of_onReceiver {m : ReceiverM Unit} {a : Unit} (h : onReceiver m t = .ok (a, t')) :
    t'.events = t.events ∧ t'.status = t.status := by
  rw [onReceiver] at h
  cases hm : m t.receiver with
  | error e =>
    rw [hm] at h
    cases h
  | ok p =>
    rw [hm] at h
    cases h
    exact ⟨rfl, rfl⟩

lemma of_receiveMessage {recvs : List MessageRecv} {message : Option ℤ}
    (h : receiveMessage recvs t = .ok (message, t')) : t' = t := by
  rw [receiveMessage] at h
  cases hrun : Machine.run messageStep recvs (.start t.messagePtr) with
  | error e =>
    rw [hrun] at h
    cases h
  | ok p =>
    rw [hrun] at h
    cases h
    rfl

/-- A thread that is in its loop after a turn has waited in it. -/
lemma of_receiverTurn {a : Unit} (h : receiverTurn socketFD turn t = .ok (a, t'))
    (hrunning : t'.status = .running) :
    t.status = .running ∧ t'.events = turn.wait.fill t.events := by
  rw [receiverTurn, read_bind_apply, id] at h
  split_ifs at h with hstatus hclose
  · cases h
    cases hrunning
  · refine ⟨hstatus, ?_⟩
    rw [update_bind_apply] at h
    cases hreaction : turn.reaction socketFD t with
    | nothing =>
      rw [hreaction] at h
      cases h
      rfl
    | receive =>
      rw [hreaction] at h
      obtain ⟨message, t₁, hreceive, h⟩ := of_bind_ok h
      have ht₁ := of_receiveMessage hreceive
      cases message with
      | none =>
        cases h
        cases hrunning
      | some message =>
        obtain ⟨_, t₂, hact, h⟩ := of_bind_ok h
        obtain ⟨hevents, -⟩ := of_onReceiver hact
        split_ifs at h
        · cases h
          cases hrunning
        · cases h
          rw [hevents, ht₁]
    | accept =>
      rw [hreaction] at h
      cases haccept : turn.accept with
      | none =>
        rw [haccept] at h
        cases h
        cases hrunning
      | some ended =>
        rw [haccept] at h
        exact (of_onReceiver h).1
  · cases h
    exact absurd hrunning hstatus

/-! ### Every run -/

/-- What the thread finds in the array is what was reported last. -/
lemma of_run_receiverTurn {us : List Unit}
    (h : Machine.run (receiverTurn socketFD) turns t = .ok (us, t'))
    (hrunning : t'.status = .running) :
    t.status = .running ∧ t'.events.1 = lastReported t.events.1 turns := by
  induction turns generalizing t us with
  | nil =>
    cases h
    exact ⟨hrunning, rfl⟩
  | cons turn turns ih =>
    obtain ⟨u, us', t₁, rfl, hturn, hrun⟩ := Machine.of_run_cons h
    obtain ⟨hrunning₁, hevents⟩ := ih hrun
    obtain ⟨hrunning₀, hfill⟩ := of_receiverTurn hturn hrunning₁
    refine ⟨hrunning₀, ?_⟩
    rw [hevents, hfill, fill_fst]
    rfl

/-- In every run: the thread never acts on a socket that was not reported in the same turn, exactly
if no wait is interrupted when the first descriptor of the last report is one of the two sockets. -/
theorem acts_on_report_iff (socketFD : ℤ) (events : ℤ × ℤ) (messagePtr : List Byte)
    (turns : List ReceiverTurn) :
    Machine.Meets (receiverTurn socketFD) (fun t turn => turn.OnReport socketFD t) turns
        (.start events messagePtr) ↔
      ∀ pre turn post us t, turns = pre ++ turn :: post →
        Machine.run (receiverTurn socketFD) pre (.start events messagePtr) = .ok (us, t) →
        t.status = .running → turn.closeRequested = false → turn.wait = .interrupted →
        lastReported events.1 pre ≠ turn.interthreadSocketFD ∧
          lastReported events.1 pre ≠ socketFD := by
  rw [Machine.meets_iff]
  refine forall_congr' fun pre => forall_congr' fun turn => forall_congr' fun post =>
    forall_congr' fun us => forall_congr' fun t => forall_congr' fun _ => ?_
  refine forall_congr' fun hrun => ?_
  rw [onReport_iff]
  refine forall_congr' fun hrunning => ?_
  rw [(of_run_receiverTurn hrun hrunning).2]
  rfl

/-- A connection is accepted, and then a signal interrupts the wait: the thread calls `accept`
again, and waits in it although `closeRequested` is set meanwhile. -/
theorem acts_without_report :
    ∃ t, Machine.run (receiverTurn 3)
        [⟨false, 4, .found 3 none, [], some (5, .started 140)⟩] (.start (0, 0) []) = .ok ([()], t) ∧
      ReceiverTurn.reaction 3 t ⟨false, 4, .interrupted, [], none⟩ = .accept ∧
      EpollWait.reported .interrupted = [] ∧
      ∃ t', Machine.run (receiverTurn 3)
        [⟨false, 4, .interrupted, [], none⟩, ⟨true, 4, .found 4 none, [], none⟩] t
          = .ok ([(), ()], t') ∧ t'.status = .stuck :=
  ⟨_, rfl, rfl, rfl, _, rfl, rfl⟩

end Aesd
