import Aesd.Driver.ReadStream
import Aesd.Library.Lines
import Aesd.Server.Command

/-!
# Connections side by side

Any number of handlers, each with a file of its own, whose chunks hold one line each. `FileMutex`
covers the command of a line and the reads of its reply, but neither the opening nor the closing of
the file; and closing it moves the position that all files share. The events are the steps of the
handlers, in any order. What the threads themselves do, with chunks of all kinds, is in `Sessions`.
-/

namespace Aesd

open Exec Delimited

/-- A connection. Its number is that of its file, too. -/
abbrev Connection := FileId

/-- Where a handler is: waiting for a chunk; behind `open`; behind the lock of `FileMutex`; in the
loop that replies; behind the loop; and behind the unlock. -/
inductive Phase where
  | waiting
  | opened (seg : Segment)
  | locked (seg : Segment)
  | replying (x : Exchange)
  | replied
  | unlocked

/-- The handlers, the system they share, and the replies that they have finished. -/
structure Handlers where
  system : System
  fileMutex : Option Connection
  phase : Connection → Phase
  finished : List Exchange
  exited : Bool

/-- The next step of a handler: `receive` takes a chunk and what lies in the memory behind it. -/
inductive HandlerStep where
  | receive (chunk beyond : List Byte)
  | lock
  | command
  | read
  | unlock
  | close
  deriving DecidableEq, Repr

structure HandlerEvent where
  connection : Connection
  step : HandlerStep
  outcomes : Outcomes := {}

/-- Run a program on the system. -/
def onSystem {α : Type} (m : Exec Fault System α) : Exec Fault Handlers α := fun h =>
  match m h.system with
  | .ok (a, system) => .ok (a, { h with system })
  | .error e => .error e

/-- The handler of connection `i` goes on to the next phase. -/
def Handlers.goOn (h : Handlers) (i : Connection) (phase : Phase) : Handlers :=
  { h with phase := Function.update h.phase i phase }

/-- `recv` and `open`. The chunk holds one complete line. -/
def receiveStep (cfg : KernelConfig) (i : Connection) (chunk beyond : List Byte) (o : Outcomes) :
    Exec Fault Handlers Unit :=
  if lines newline chunk = [chunk] then do
    let _ ← onSystem (sysCall cfg ⟨i, .open, o⟩)
    update fun h => h.goOn i (.opened ⟨chunk ++ beyond, chunk.length⟩)
  else pure ()

/-- `pthread_mutex_lock`, which waits while another handler holds `FileMutex`. -/
def lockStep (i : Connection) (seg : Segment) : Exec Fault Handlers Unit := do
  let h ← read id
  if h.fileMutex = none then
    update fun h => { h.goOn i (.locked seg) with fileMutex := some i }
  else pure ()

/-- The `write` or the `ioctl`. -/
def commandStep (cfg : KernelConfig) (i : Connection) (seg : Segment) (o : Outcomes) :
    Exec Fault Handlers Unit := do
  let command ← onSystem (segmentCommand cfg i seg o)
  if command = .failed then update fun h => { h with exited := true }
  else update fun h => h.goOn i (.replying ⟨seg.bytes, command, h.system, []⟩)

/-- One turn of the loop that replies. -/
def replyStep (cfg : KernelConfig) (i : Connection) (x : Exchange) (o : Outcomes) :
    Exec Fault Handlers Unit := do
  let r ← onSystem (readReply cfg i o)
  if 0 < r.retVal then
    update fun h => h.goOn i (.replying { x with reply := x.reply ++ r.delivered })
  else update fun h => { h.goOn i .replied with finished := h.finished ++ [x] }

def unlockStep (i : Connection) : Exec Fault Handlers Unit :=
  update fun h => { h.goOn i .unlocked with fileMutex := none }

/-- `close` -/
def closeStep (cfg : KernelConfig) (i : Connection) (o : Outcomes) : Exec Fault Handlers Unit := do
  let _ ← onSystem (sysCall cfg ⟨i, .release, o⟩)
  update fun h => h.goOn i .waiting

/-- One step of one handler. A step that is not the next one of its handler does nothing. -/
def handlerStep (cfg : KernelConfig) (e : HandlerEvent) : Exec Fault Handlers Unit := do
  let h ← read id
  if h.exited then pure ()
  else
    match e.step, h.phase e.connection with
    | .receive chunk beyond, .waiting => receiveStep cfg e.connection chunk beyond e.outcomes
    | .lock, .opened seg => lockStep e.connection seg
    | .command, .locked seg => commandStep cfg e.connection seg e.outcomes
    | .read, .replying x => replyStep cfg e.connection x e.outcomes
    | .unlock, .replied => unlockStep e.connection
    | .close, .unlocked => closeStep cfg e.connection e.outcomes
    | _, _ => pure ()

/-- The handlers before the first chunk. -/
def Handlers.start (s : System) : Handlers := ⟨s, none, fun _ => .waiting, [], false⟩

/-- The position where the reply is to start: the first byte of the content for a line that was
written, and the named byte for an accepted seek command. For a refused one it is open. -/
def Exchange.start (x : Exchange) : Option ℕ :=
  match x.command with
  | .written => some 0
  | .seek arg retVal => if retVal = 0 then some (arg.position x.system.kernel.lines) else none
  | .failed => none

/-- The reply is what the content holds from its start on. -/
def Exchange.Right (x : Exchange) : Prop :=
  ∀ q ∈ x.start, x.reply = x.system.kernel.content.drop q

/-- The reply that a handler is in the middle of. -/
def Phase.exchange : Phase → Option Exchange
  | .replying x => some x
  | _ => none

def Phase.isUnlocked : Phase → Bool
  | .unlocked => true
  | _ => false

/-- The position that the next read of a handler starts at. -/
def Handlers.nextPos (h : Handlers) (i : Connection) : ℕ :=
  actualPos h.system.kernel.dev ((h.system.fPos i).getD 0)

/-- A read for a line that was written is taken with the device at its start, unless there is no
content, and no read ends the reply before the content ends. -/
def HandlerEvent.ReadsOn (h : Handlers) (e : HandlerEvent) (x : Exchange) : Prop :=
  (x.command = .written → h.system.kernel.dev.lseekPos = 0 ∨ h.system.kernel.content = []) ∧
  (h.system.kernel.content.length ≤ h.nextPos e.connection ∨
    e.outcomes.brings h.system.kernel.lines (h.nextPos e.connection) ≠ [])

/-- What a step must not do to a reply: read it from the wrong place, or move the device by closing
a file during the reply to an accepted seek command. -/
def HandlerEvent.Harmless (h : Handlers) (e : HandlerEvent) : Prop :=
  (e.step = .read → ∀ x ∈ (h.phase e.connection).exchange, x.start.isSome → e.ReadsOn h x) ∧
  (e.step = .close → (h.phase e.connection).isUnlocked → ∀ j ∈ h.fileMutex,
    ∀ x ∈ (h.phase j).exchange, x.start.isSome → x.command ≠ .written →
      h.system.kernel.dev.lseekPos = 0)

instance (h : Handlers) (e : HandlerEvent) (x : Exchange) : Decidable (e.ReadsOn h x) :=
  inferInstanceAs (Decidable ((_ → _ ∨ _) ∧ (_ ∨ _)))

instance (h : Handlers) (e : HandlerEvent) : Decidable (e.Harmless h) :=
  inferInstanceAs (Decidable ((_ → ∀ x ∈ _, _ → _) ∧ (_ → _ → ∀ j ∈ _, ∀ x ∈ _, _ → _ → _)))

/-! ### The invariant -/

/-- The reply so far is what the content holds from its start on, as far as the file was read. -/
structure Progress (s : System) (i : Connection) (x : Exchange) (q : ℕ) : Prop where
  fPos : s.fPos i = some (x.reply.length : ℤ)
  isPrefix : x.reply <+: x.system.kernel.content.drop q
  lseekPos : x.command ≠ .written → s.kernel.dev.lseekPos = q

/-- What the phase of a handler says about its file. -/
def Phase.Holds (s : System) (i : Connection) : Phase → Prop
  | .waiting => s.fPos i = none
  | .opened _ => s.fPos i = some 0
  | .locked _ => s.fPos i = some 0
  | .replying x => (∃ p, s.fPos i = some p) ∧ s.kernel.lines = x.system.kernel.lines ∧
    ∀ q ∈ x.start, Progress s i x q
  | .replied => ∃ p, s.fPos i = some p
  | .unlocked => ∃ p, s.fPos i = some p

/-- The handler is between the lock and the unlock. -/
def Phase.Inside : Phase → Prop
  | .locked _ => True
  | .replying _ => True
  | .replied => True
  | _ => False

structure Handlers.Inv (cfg : KernelConfig) (h : Handlers) : Prop where
  system : h.system.Inv cfg
  phase : ∀ i, (h.phase i).Holds h.system i
  fileMutex : ∀ i, (h.phase i).Inside → h.fileMutex = some i
  right : ∀ x ∈ h.finished, x.Right

variable {cfg : KernelConfig} {h : Handlers} {i : Connection}

lemma Handlers.start_inv {s : System} (hs : s.Inv cfg) (hclosed : ∀ i, s.fPos i = none) :
    (Handlers.start s).Inv cfg where
  system := hs
  phase := hclosed
  fileMutex _ hinside := hinside.elim
  right _ hx := absurd hx List.not_mem_nil

lemma onSystem_of_ok {α : Type} {m : Exec Fault System α} {a : α} {s' : System}
    (hm : m h.system = .ok (a, s')) : onSystem m h = .ok (a, { h with system := s' }) := by
  simp only [onSystem, hm]

/-- A phase holds on as long as its file and, in the middle of a reply, the device stay. -/
lemma Phase.Holds.frame {s s' : System} {phase : Phase} (hold : phase.Holds s i)
    (hfPos : s'.fPos i = s.fPos i)
    (hexchange : ∀ x ∈ phase.exchange, s'.kernel.lines = s.kernel.lines ∧
      (x.start.isSome → x.command ≠ .written →
        s'.kernel.dev.lseekPos = s.kernel.dev.lseekPos)) : phase.Holds s' i := by
  cases phase with
  | waiting | opened seg | locked seg | replied | unlocked =>
    simp only [Phase.Holds, hfPos] at hold ⊢
    exact hold
  | replying x =>
    obtain ⟨hopen, hlines, hprogress⟩ := hold
    obtain ⟨hlines', hpos⟩ := hexchange x rfl
    refine ⟨by rwa [hfPos], hlines'.trans hlines, fun q hq => ?_⟩
    obtain ⟨hp, hpre, hseek⟩ := hprogress q hq
    exact ⟨by rw [hfPos, hp], hpre, fun hne =>
      (hpos (Option.isSome_of_mem hq) hne).trans (hseek hne)⟩

lemma Handlers.Inv.holds (hinv : h.Inv cfg) {phase : Phase} (hphase : h.phase i = phase) :
    phase.Holds h.system i :=
  hphase ▸ hinv.phase i

/-- Only one handler is inside. -/
lemma Handlers.Inv.exchange_eq_none (hinv : h.Inv cfg) (hi : (h.phase i).Inside) {j : Connection}
    (hj : j ≠ i) : (h.phase j).exchange = none := by
  cases hphase : h.phase j with
  | waiting | opened seg | locked seg | replied | unlocked => rfl
  | replying x =>
    have hmutex := hinv.fileMutex j (by rw [hphase]; trivial)
    rw [hinv.fileMutex i hi] at hmutex
    exact absurd (Option.some.inj hmutex).symm hj

/-- A handler goes on to the next phase, with a system that keeps what the others know. -/
lemma Handlers.Inv.goOn (hinv : h.Inv cfg) {s' : System} (phase : Phase) (hs' : s'.Inv cfg)
    (hphase : phase.Holds s' i) (hothers : ∀ j, j ≠ i → (h.phase j).Holds s' j)
    (hinside : phase.Inside → (h.phase i).Inside) :
    (Handlers.goOn { h with system := s' } i phase).Inv cfg where
  system := hs'
  phase j := by
    by_cases hj : j = i
    · subst hj
      simpa only [Handlers.goOn, Function.update_self] using hphase
    · simpa only [Handlers.goOn, Function.update_of_ne hj] using hothers j hj
  fileMutex j hj := by
    refine hinv.fileMutex j ?_
    by_cases hji : j = i
    · subst hji
      simp only [Handlers.goOn, Function.update_self] at hj
      exact hinside hj
    · simpa only [Handlers.goOn, Function.update_of_ne hji] using hj
  right := hinv.right

/-! ### The steps -/

lemma receiveStep_inv (hinv : h.Inv cfg) (hphase : h.phase i = .waiting)
    (chunk beyond : List Byte) (o : Outcomes) :
    Returns (receiveStep cfg i chunk beyond o) h fun _ h' => h'.Inv cfg := by
  have hclosed : h.system.fPos i = none := hinv.holds hphase
  have hopen := sysCall_open (c := ⟨i, .open, o⟩) hinv.system hclosed rfl
  rw [receiveStep]
  split_ifs
  · refine .step (onSystem_of_ok hopen) ⟨(), _, rfl, hinv.goOn _
      ((sysCall_inv hinv.system _).post hopen) (Function.update_self _ _ _) (fun j hj => ?_)
      (fun hinside => hinside.elim)⟩
    exact (hinv.phase j).frame (Function.update_of_ne hj _ _) fun x _ => ⟨rfl, fun _ _ => rfl⟩
  · exact ⟨(), h, rfl, hinv⟩

lemma lockStep_inv (hinv : h.Inv cfg) {seg : Segment} (hphase : h.phase i = .opened seg) :
    Returns (lockStep i seg) h fun _ h' => h'.Inv cfg := by
  have hfPos : h.system.fPos i = some 0 := hinv.holds hphase
  rw [lockStep]
  refine .step (read_apply _ h) ?_
  rw [id]
  split_ifs with hfree
  · refine ⟨(), _, rfl, ⟨hinv.system, fun j => ?_, fun j hj => ?_, hinv.right⟩⟩
    · by_cases hji : j = i
      · subst hji
        simp only [Handlers.goOn, Function.update_self]
        exact hfPos
      · simpa only [Handlers.goOn, Function.update_of_ne hji] using hinv.phase j
    · by_cases hji : j = i
      · rw [hji]
      · simp only [Handlers.goOn, Function.update_of_ne hji] at hj
        have := hinv.fileMutex j hj
        rw [hfree] at this
        cases this
  · exact ⟨(), h, rfl, hinv⟩

lemma commandStep_inv (hsmall : 10 * cfg.kmallocMaxSize < 2 ^ 31) (hinv : h.Inv cfg)
    {seg : Segment} (hphase : h.phase i = .locked seg) (o : Outcomes) :
    Returns (commandStep cfg i seg o) h fun _ h' => h'.Inv cfg := by
  have hfPos : h.system.fPos i = some 0 := hinv.holds hphase
  have hinside : (h.phase i).Inside := by
    rw [hphase]
    trivial
  obtain ⟨command, s', hcommand, hs', hfiles⟩ := segmentCommand_inv hinv.system hfPos seg o
  have haccepted := (segmentCommand_accepted hinv.system hsmall hfPos seg o).post hcommand
  have hothers : ∀ j, j ≠ i → (h.phase j).Holds s' j := fun j hj =>
    (hinv.phase j).frame (by rw [hfiles]) fun x hx => by
      rw [hinv.exchange_eq_none hinside hj] at hx
      cases hx
  rw [commandStep]
  refine .step (onSystem_of_ok hcommand) ?_
  split_ifs with hfailed
  · refine ⟨(), _, rfl, ⟨hs', fun j => ?_, hinv.fileMutex, hinv.right⟩⟩
    by_cases hj : j = i
    · subst hj
      exact (hinv.phase j).frame (by rw [hfiles]) fun x hx => by simp [hphase, Phase.exchange] at hx
    · exact hothers j hj
  · refine ⟨(), _, rfl, hinv.goOn _ hs' ⟨⟨0, by rw [hfiles, hfPos]⟩, rfl, fun q hq => ?_⟩ hothers
      fun _ => hinside⟩
    refine ⟨by rw [hfiles, hfPos]; rfl, List.nil_prefix, fun hne => ?_⟩
    cases command with
    | written => exact absurd rfl hne
    | failed => exact absurd rfl hfailed
    | seek arg retVal =>
      simp only [Exchange.start, Option.mem_def, Option.ite_none_right_eq_some,
        Option.some.injEq] at hq
      obtain ⟨rfl, rfl⟩ := hq
      exact haccepted arg rfl

/-- A read of a reply goes on from where the last one has ended, and the last one of all has reached
the end of the content. -/
lemma Progress.readOn {s : System} {x : Exchange} {q : ℕ} (hs : s.Inv cfg)
    (hlines : s.kernel.lines = x.system.kernel.lines) (hx : Progress s i x q)
    (hpos : s.kernel.dev.lseekPos = q) {o : Outcomes}
    (hreads : s.kernel.content.length ≤ actualPos s.kernel.dev x.reply.length ∨
      o.brings s.kernel.lines (actualPos s.kernel.dev x.reply.length) ≠ []) :
    Returns (readReply cfg i o) s fun r s' =>
      (0 < r.retVal → Progress s' i { x with reply := x.reply ++ r.delivered } q) ∧
      (¬ 0 < r.retVal → x.reply = x.system.kernel.content.drop q) := by
  have hcontent : s.kernel.content = x.system.kernel.content := by
    rw [Kernel.content, hlines, Kernel.content]
  have hq : q < 2 ^ 63 := by
    have := hs.kernel.lseekPos_bounds
    omega
  have hdelivered : Delivered cfg i q x.reply s := ⟨hs, hpos, hx.fPos, hcontent ▸ hx.isPrefix⟩
  obtain ⟨r, s', hcall, -, hbrings, hret, -, -⟩ := sysCall_read_at hs ⟨_, hx.fPos, rfl⟩ o
  obtain ⟨hkernel, hnext, -⟩ :=
    (delivered_read (c := ⟨i, .read replyBufferSize, o⟩) hdelivered hq rfl rfl).post hcall
  refine ⟨r, s', hcall, fun _ => ⟨hnext.fPos, ?_, fun _ => ?_⟩, fun hend => ?_⟩
  · rw [← hcontent, ← congrArg Kernel.content hkernel]
    exact hnext.isPrefix
  · rw [hkernel, hpos]
  · have hnil : r.delivered = [] := not_not.mp (hret.not.mp hend)
    have hle := hreads.resolve_right (not_not.mpr (hbrings.symm.trans hnil))
    rw [hdelivered.actualPos_eq hq, hcontent] at hle
    refine hx.isPrefix.eq_of_length_le ?_
    rw [List.length_drop]
    omega

/-- Without any content there is nothing to send. -/
lemma Progress.readNothing {s : System} {x : Exchange} {q : ℕ} (hs : s.Inv cfg)
    (hlines : s.kernel.lines = x.system.kernel.lines) (hx : Progress s i x q)
    (hempty : s.kernel.content = []) (o : Outcomes) :
    Returns (readReply cfg i o) s fun r _ =>
      ¬ 0 < r.retVal ∧ x.reply = x.system.kernel.content.drop q := by
  refine (sysCall_read_at hs ⟨_, hx.fPos, rfl⟩ o).mono ?_
  rintro r s' ⟨-, hbrings, hret, -⟩
  constructor
  · have hpre := (brings_prefix_piece o s.kernel.lines
      (actualPos s.kernel.dev x.reply.length)).trans (pieceFrom_isPrefix _ _)
    rw [← Kernel.content, hempty, List.drop_nil, List.prefix_nil, ← hbrings] at hpre
    rw [hret]
    exact not_not.mpr hpre
  · have hcontent : x.system.kernel.content = [] := by
      rw [← hempty, Kernel.content, Kernel.content, hlines]
    have hpre := hx.isPrefix
    rw [hcontent, List.drop_nil, List.prefix_nil] at hpre
    rw [hpre, hcontent, List.drop_nil]

/-- A read that does not go astray. -/
lemma Handlers.Inv.read (hinv : h.Inv cfg) {x : Exchange} (hphase : h.phase i = .replying x)
    {o : Outcomes} (hreads : x.start.isSome → HandlerEvent.ReadsOn h ⟨i, .read, o⟩ x) {q : ℕ}
    (hq : q ∈ x.start) :
    Returns (readReply cfg i o) h.system fun r s' =>
      (0 < r.retVal → Progress s' i { x with reply := x.reply ++ r.delivered } q) ∧
      (¬ 0 < r.retVal → x.reply = x.system.kernel.content.drop q) := by
  obtain ⟨-, hlines, hprogress⟩ := hinv.holds hphase
  have hx := hprogress q hq
  obtain ⟨hstart, hon⟩ := hreads (Option.isSome_of_mem hq)
  have hnext : h.nextPos i = actualPos h.system.kernel.dev x.reply.length := by
    rw [Handlers.nextPos, hx.fPos, Option.getD_some]
  rw [hnext] at hon
  by_cases hwritten : x.command = .written
  · obtain rfl : 0 = q := by simpa [Exchange.start, hwritten] using hq
    rcases hstart hwritten with hzero | hempty
    · exact hx.readOn hinv.system hlines hzero hon
    · refine (hx.readNothing hinv.system hlines hempty o).mono ?_
      rintro r s' ⟨hend, hreply⟩
      exact ⟨fun hpos => absurd hpos hend, fun _ => hreply⟩
  · exact hx.readOn hinv.system hlines (hx.lseekPos hwritten) hon

lemma replyStep_inv (hinv : h.Inv cfg) {x : Exchange} (hphase : h.phase i = .replying x)
    {o : Outcomes} (hreads : x.start.isSome → HandlerEvent.ReadsOn h ⟨i, .read, o⟩ x) :
    Returns (replyStep cfg i x o) h fun _ h' => h'.Inv cfg := by
  obtain ⟨⟨p, hp⟩, hlines, -⟩ := hinv.holds hphase
  have hinside : (h.phase i).Inside := by
    rw [hphase]
    trivial
  obtain ⟨r, s', hcall, hkernel, -, -, ⟨p', hp', -⟩, hfiles⟩ :=
    sysCall_read_at hinv.system ⟨p, hp, rfl⟩ o
  have hs' := (sysCall_inv hinv.system _).post hcall
  have hread := fun q (hq : q ∈ x.start) => (hinv.read hphase hreads hq).post hcall
  have hothers : ∀ j, j ≠ i → (h.phase j).Holds s' j := fun j hj =>
    (hinv.phase j).frame (hfiles j hj) fun x _ => ⟨by rw [hkernel], fun _ _ => by rw [hkernel]⟩
  rw [replyStep]
  refine .step (onSystem_of_ok hcall) ?_
  split_ifs with hmore
  · exact ⟨(), _, rfl, hinv.goOn _ hs' ⟨⟨p', hp'⟩, by rw [hkernel]; exact hlines,
      fun q hq => (hread q hq).1 hmore⟩ hothers fun _ => hinside⟩
  · have hgo := hinv.goOn .replied hs' ⟨p', hp'⟩ hothers fun _ => hinside
    refine ⟨(), _, rfl, { hgo with right := fun y hy => ?_ }⟩
    rcases List.mem_append.mp hy with hy | hy
    · exact hinv.right y hy
    · obtain rfl := List.mem_singleton.mp hy
      exact fun q hq => (hread q hq).2 hmore

lemma unlockStep_inv (hinv : h.Inv cfg) (hphase : h.phase i = .replied) :
    Returns (unlockStep i) h fun _ h' => h'.Inv cfg := by
  have hinside : (h.phase i).Inside := by
    rw [hphase]
    trivial
  have hopen : ∃ p, h.system.fPos i = some p := hinv.holds hphase
  have hgo := hinv.goOn .unlocked hinv.system hopen
    (fun j _ => hinv.phase j) fun hfalse => hfalse.elim
  refine ⟨(), _, rfl, { hgo with fileMutex := fun j hj => ?_ }⟩
  by_cases hji : j = i
  · subst hji
    simp only [Handlers.goOn, Function.update_self] at hj
    exact hj.elim
  · simp only [Handlers.goOn, Function.update_of_ne hji] at hj
    have hmutex := hinv.fileMutex j hj
    rw [hinv.fileMutex i hinside] at hmutex
    exact absurd (Option.some.inj hmutex).symm hji

lemma closeStep_inv (hinv : h.Inv cfg) (hphase : h.phase i = .unlocked) (o : Outcomes)
    (hcloses : ∀ j ∈ h.fileMutex, ∀ x ∈ (h.phase j).exchange, x.start.isSome →
      x.command ≠ .written → h.system.kernel.dev.lseekPos = 0) :
    Returns (closeStep cfg i o) h fun _ h' => h'.Inv cfg := by
  obtain ⟨p, hp⟩ := hinv.holds hphase
  have hrelease := sysCall_release (c := ⟨i, .release, o⟩) hinv.system hp rfl
  rw [closeStep]
  refine .step (onSystem_of_ok hrelease) ⟨(), _, rfl, hinv.goOn _
    ((sysCall_inv hinv.system _).post hrelease) (Function.update_self _ _ _) (fun j hj => ?_)
    (fun hinside => hinside.elim)⟩
  refine (hinv.phase j).frame (Function.update_of_ne hj _ _) fun x hx =>
    ⟨rfl, fun hsome hne => ?_⟩
  have hmutex : j ∈ h.fileMutex := by
    refine hinv.fileMutex j ?_
    cases hj : h.phase j with
    | replying y => trivial
    | waiting | opened seg | locked seg | replied | unlocked =>
      rw [hj] at hx
      cases hx
  exact (hcloses j hmutex x hx hsome hne).symm

/-- Every harmless step keeps the invariant. -/
theorem handlerStep_inv (hsmall : 10 * cfg.kmallocMaxSize < 2 ^ 31) (e : HandlerEvent)
    (hinv : h.Inv cfg) (hharmless : e.Harmless h) :
    Returns (handlerStep cfg e) h fun _ h' => h'.Inv cfg := by
  obtain ⟨hreads, hcloses⟩ := hharmless
  rw [handlerStep]
  refine .step (read_apply _ h) ?_
  rw [id]
  split_ifs
  · exact ⟨(), h, rfl, hinv⟩
  split
  case h_1 chunk beyond _ hphase => exact receiveStep_inv hinv hphase chunk beyond e.outcomes
  case h_2 seg _ hphase => exact lockStep_inv hinv hphase
  case h_3 seg _ hphase => exact commandStep_inv hsmall hinv hphase e.outcomes
  case h_4 x hstep hphase =>
    refine replyStep_inv hinv hphase fun hsome => ?_
    exact hreads hstep x (by rw [hphase]; rfl) hsome
  case h_5 _ hphase => exact unlockStep_inv hinv hphase
  case h_6 hstep hphase =>
    exact closeStep_inv hinv hphase e.outcomes (hcloses hstep (by rw [hphase]; rfl))
  case h_7 => exact ⟨(), h, rfl, hinv⟩

/-! ### Runs -/

lemma Exchange.Right.of_written {x : Exchange} (hx : x.Right) (hwritten : x.command = .written) :
    x.reply = x.system.kernel.content :=
  hx 0 (by rw [Exchange.start, hwritten]; rfl)

lemma Exchange.Right.of_accepted {x : Exchange} (hx : x.Right) {arg : AesdSeekto}
    (hseek : x.command = .seek arg 0) :
    x.reply = x.system.kernel.content.drop (arg.position x.system.kernel.lines) :=
  hx _ (by rw [Exchange.start, hseek]; rfl)

/-- Whatever the connections do side by side: as long as every read of a reply finds the device
where it has to be, and no file is closed during the reply to an accepted seek command, every
finished reply is the whole content, or the content from the named position on. -/
theorem replies_isolated (hsmall : 10 * cfg.kmallocMaxSize < 2 ^ 31) {s : System}
    (hs : System.Reachable cfg s) (hclosed : ∀ i, s.fPos i = none) (es : List HandlerEvent)
    (hes : Machine.Meets (handlerStep cfg) (fun h e => e.Harmless h) es (.start s)) :
    Returns (Machine.run (handlerStep cfg) es) (.start s) fun _ h =>
      ∀ x ∈ h.finished,
        (x.command = .written → x.reply = x.system.kernel.content) ∧
        ∀ arg, x.command = .seek arg 0 →
          x.reply = x.system.kernel.content.drop (arg.position x.system.kernel.lines) := by
  have hrun := Machine.run_meets (I := fun (_ : Unit) h => Handlers.Inv cfg h)
    (f := fun _ _ => ()) (fun e h _ hinv hharmless => handlerStep_inv hsmall e hinv hharmless) es
    (b := ()) (Handlers.start_inv hs.inv hclosed) hes
  exact hrun.mono fun _ h hinv x hx =>
    ⟨fun hwritten => (hinv.right x hx).of_written hwritten,
      fun arg hseek => (hinv.right x hx).of_accepted hseek⟩

/-- A handler from a chunk to the unlock, with `reads` reads. -/
def handleLine (i : Connection) (chunk : List Byte) (reads : ℕ) : List HandlerEvent :=
  [⟨i, .receive chunk [], {}⟩, ⟨i, .lock, {}⟩, ⟨i, .command, {}⟩]
    ++ List.replicate reads ⟨i, .read, {}⟩ ++ [⟨i, .unlock, {}⟩]

/-- One connection stores a line and closes its file, and another one seeks to the second byte. -/
def storeAndSeek : List HandlerEvent :=
  handleLine 0 [97, 98, newline] 2 ++ [⟨0, .close, {}⟩]
    ++ handleLine 1 (aesdSocketIocString ++ [48, 44, 49, newline]) 2

theorem replies_isolated_storeAndSeek :
    Returns (Machine.run (handlerStep .usual) storeAndSeek) (.start .init) fun _ h =>
      h.finished.length = 2 ∧ ∀ x ∈ h.finished,
        (x.command = .written → x.reply = x.system.kernel.content) ∧
        ∀ arg, x.command = .seek arg 0 →
          x.reply = x.system.kernel.content.drop (arg.position x.system.kernel.lines) := by
  have hmeets : Machine.Meets (handlerStep .usual) (fun h e => e.Harmless h) storeAndSeek
      (.start .init) := by decide +kernel
  have h : Except.map (fun q => q.2.finished.length)
      (Machine.run (handlerStep .usual) storeAndSeek (.start .init)) = .ok 2 := by decide +kernel
  obtain ⟨⟨os, h⟩, hrun, hlen⟩ := exists_of_map_ok h
  exact ⟨os, h, hrun, hlen, (replies_isolated
    (by decide : 10 * KernelConfig.usual.kmallocMaxSize < 2 ^ 31)
    (Machine.Reachable.refl _) (fun _ => rfl) storeAndSeek hmeets).post hrun⟩

/-- The first connection stores another line before the second one closes its file: the reply leaves
out the first byte of the content. -/
theorem replies_not_isolated :
    Returns (Machine.run (handlerStep .usual) (storeAndSeek ++ handleLine 0 [99, newline] 3))
      (.start .init) fun _ h =>
        h.finished.map (fun x => (x.segment, x.command, x.reply, x.system.kernel.content)) =
          [([97, 98, newline], .written, [97, 98, newline], [97, 98, newline]),
            (aesdSocketIocString ++ [48, 44, 49, newline], .seek ⟨0, 1⟩ 0, [98, newline],
              [97, 98, newline]),
            ([99, newline], .written, [98, newline, 99, newline],
              [97, 98, newline, 99, newline])] := by
  have h : Except.map (fun q => q.2.finished.map fun x =>
      (x.segment, x.command, x.reply, x.system.kernel.content))
      (Machine.run (handlerStep .usual) (storeAndSeek ++ handleLine 0 [99, newline] 3)
        (.start .init)) = .ok
          [([97, 98, newline], .written, [97, 98, newline], [97, 98, newline]),
            (aesdSocketIocString ++ [48, 44, 49, newline], .seek ⟨0, 1⟩ 0, [98, newline],
              [97, 98, newline]),
            ([99, newline], .written, [98, newline, 99, newline],
              [97, 98, newline, 99, newline])] := by decide +kernel
  obtain ⟨⟨os, h⟩, hrun, hfinished⟩ := exists_of_map_ok h
  exact ⟨os, h, hrun, hfinished⟩

end Aesd
