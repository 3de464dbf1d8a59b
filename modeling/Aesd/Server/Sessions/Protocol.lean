import Aesd.Driver.Device.Write
import Aesd.Server.Sessions.Basic

/-!
# What the threads agree on

Only a thread that has locked `FileMutex` carries out segments and reads the device, so the lines
stay as they are for as long as it does. But any thread may close its file in between, and so move
the device back to its start.
-/

namespace Aesd.Sessions

open Exec Threads Threaded

variable {n : ℕ} {cfg : KernelConfig} {w : Workload n}

/-- The bytes of the segments that a connection hands on. -/
def Workload.plan (w : Workload n) (i : Fin n) : List (List Byte) := (w.segs i).map Segment.bytes

/-! ### What was carried out -/

/-- What a segment does to the lines and the stage, and whether the thread goes on after it. -/
def Carried.submit (cfg : KernelConfig) (c : Carried n)
    (log : List (List Byte) × Option (List Byte)) : Bool × List (List Byte) × Option (List Byte) :=
  if (findSeek c.segment.segmentPtr).isSome then (true, log)
  else
    let r := StagedLog.submit maxWriteOperations cfg.kmallocMaxSize newline c.segment.bytes
      ⟨log.1, log.2, c.outcomes.allocFails, c.outcomes.interrupted⟩
    (toSize (toInt (writeRet c.segment.bytes.length r.1)) = c.segment.segmentLen, r.2.lines,
      r.2.stage)

/-- Which of the segments the threads go on after, and the lines and the stage that all of them
leave. -/
def replay (cfg : KernelConfig) (carried : List (Carried n)) :
    List Bool × List (List Byte) × Option (List Byte) :=
  Machine.runSpec (Carried.submit cfg) carried ([], none)

/-- Whether the thread goes on after the segment. -/
def Carried.ok (c : Carried n) : Bool := c.command ≠ .failed

/-- The segments that connection `i` has carried out. -/
def Shared.carriedBy (s : Shared n) (i : Fin n) : List (List Byte) :=
  (s.carried.filter (·.connection = i)).map (·.segment.bytes)

/-! ### Replies -/

/-- A reply that starts at position `p` of its file, with the device at `q`. When another connection
closes its file, the device goes back to its start, and the reply goes back by `q` bytes, once. -/
def TwoRuns (content : List Byte) (p q : ℕ) (reply : List Byte) : Prop :=
  ∃ front back, reply = front ++ back ∧ front <+: content.drop (p + q) ∧
    back <+: content.drop (p + front.length)

/-- The same, with the last run up to the end of the content. -/
def ToTheEnd (content : List Byte) (p q : ℕ) (reply : List Byte) : Prop :=
  reply = content.drop (p + q) ∨
    ∃ front, front <+: content.drop (p + q) ∧ reply = front ++ content.drop (p + front.length)

/-- Nothing fails and nothing is interrupted. -/
def Workload.Quiet (w : Workload n) : Prop :=
  ∀ o ∈ w.outcomes, true ∉ o.allocFails ∧ true ∉ o.interrupted ∧ o.notCopied = []

/-- The segment is as long as it says, and nothing failed for it if nothing ever fails. -/
structure Carried.Sound (w : Workload n) (c : Carried n) : Prop where
  size : c.segment.bytes.length = c.segment.segmentLen
  quiet : w.Quiet → true ∉ c.outcomes.allocFails ∧ true ∉ c.outcomes.interrupted

/-- A reply belongs to the last of the segments that were carried out when it began, and shows the
lines that these have left. -/
def Explains (cfg : KernelConfig) (w : Workload n) (carried : List (Carried n))
    (x : Fin n × Served) : Prop :=
  (∃ c, carried.getLast? = some c ∧ c.connection = x.1 ∧ c.segment.bytes = x.2.segment ∧
    c.command = x.2.command) ∧
  x.2.system.kernel.lines = (replay cfg carried).2.1 ∧
  ∃ p q : ℕ, x.2.system.fPos x.1 = some (p : ℤ) ∧ x.2.system.kernel.dev.lseekPos = q ∧
    TwoRuns x.2.system.kernel.content p q x.2.reply ∧
    (w.Quiet → ToTheEnd x.2.system.kernel.content p q x.2.reply)

/-! ### The agreement -/

/-- What always holds. -/
structure Shared.Inv (cfg : KernelConfig) (w : Workload n) (s : Shared n) : Prop where
  system : s.system.Inv cfg
  lseekPos : 0 ≤ s.system.kernel.dev.lseekPos ∧ s.system.kernel.dev.lseekPos < 2 ^ 32
  outcomes : s.outcomes <:+ w.outcomes
  carried : replay cfg s.carried
    = (s.carried.map Carried.ok, s.system.kernel.lines, s.system.kernel.stage)
  sound : ∀ c ∈ s.carried, c.Sound w
  plan : ∀ i, s.carriedBy i <+: w.plan i
  length_replied : s.replied.length ≤ s.carried.length
  replied : ∀ k x, s.replied[k]? = some x → Explains cfg w (s.carried.take (k + 1)) x
  exited : s.exited = true → ∃ c ∈ s.carried, c.ok = false

/-- What the thread of connection `i` may do in one step. -/
structure Guar (cfg : KernelConfig) (w : Workload n) (i : Fin n) (held : List ServerMutex)
    (s s' : Shared n) : Prop where
  inv : s.Inv cfg w → s'.Inv cfg w
  fPos : ∀ j : Fin n, j ≠ i → s'.system.fPos j = s.system.fPos j
  carriedBy : ∀ j, j ≠ i → s'.carriedBy j = s.carriedBy j
  outside : .fileMutex ∉ held → s'.system.kernel.lines = s.system.kernel.lines ∧
    s'.carried = s.carried ∧ s'.replied = s.replied ∧
    (s'.system.kernel.dev.lseekPos = s.system.kernel.dev.lseekPos ∨
      s'.system.kernel.dev.lseekPos = 0)
  exited : s.exited = true → s'.exited = true

/-- While `FileMutex` is free, every segment has its reply. -/
def protocol (cfg : KernelConfig) (w : Workload n) : Protocol (Shared n) ServerMutex (Fin n) where
  guar := Guar cfg w
  res _ s := s.replied.length = s.carried.length
  rank _ := 0
  res_stable := by
    rintro i held ⟨⟩ s s' hguar hnot hres
    obtain ⟨-, hcarried, hreplied, -⟩ := hguar.outside hnot
    rwa [hcarried, hreplied]

/-- What a thread knows wherever it is: its file, and what it has carried out. -/
structure Knows (cfg : KernelConfig) (w : Workload n) (i : Fin n) (fPos : Option ℤ)
    (done : List (List Byte)) (s : Shared n) : Prop where
  inv : s.Inv cfg w
  fPos : s.system.fPos i = fPos
  done : s.carriedBy i = done

/-- What a thread knows as long as it has locked `FileMutex`. -/
structure Stays (s u : Shared n) : Prop where
  lines : u.system.kernel.lines = s.system.kernel.lines
  carried : u.carried = s.carried
  replied : u.replied = s.replied
  lseekPos : u.system.kernel.dev.lseekPos = s.system.kernel.dev.lseekPos ∨
    u.system.kernel.dev.lseekPos = 0

section

variable {i : Fin n} {held : List ServerMutex} {s u : Shared n}

lemma Knows.rely {fPos : Option ℤ} {done : List (List Byte)} (h : Knows cfg w i fPos done s)
    (hu : (protocol cfg w).Rely i held s u) : Knows cfg w i fPos done u := by
  refine hu.invariant (I := Knows cfg w i fPos done) ?_ h
  intro j held' v v' hj _ hguar hv
  exact ⟨hguar.inv hv.inv, (hguar.fPos i hj.symm).trans hv.fPos,
    (hguar.carriedBy i hj.symm).trans hv.done⟩

lemma Rely.exited (hu : (protocol cfg w).Rely i held s u) (hs : s.exited = true) :
    u.exited = true := by
  refine hu.invariant (I := fun v => v.exited = true) ?_ hs
  intro j held' v v' _ _ hguar hv
  exact hguar.exited hv

lemma Stays.refl (s : Shared n) : Stays s s := ⟨rfl, rfl, rfl, .inl rfl⟩

lemma Stays.trans {v : Shared n} (h : Stays s u) (h' : Stays u v) : Stays s v := by
  refine ⟨h'.lines.trans h.lines, h'.carried.trans h.carried, h'.replied.trans h.replied, ?_⟩
  rcases h'.lseekPos with heq | heq
  · rw [heq]
    exact h.lseekPos
  · exact .inr heq

lemma Stays.rely (hheld : .fileMutex ∈ held) (hu : (protocol cfg w).Rely i held s u) :
    Stays s u := by
  refine hu.invariant (I := Stays s) ?_ (.refl s)
  intro j held' v v' _ hdisjoint hguar hv
  obtain ⟨hlines, hcarried, hreplied, hpos⟩ :=
    hguar.outside fun hmem => hdisjoint hmem hheld
  exact hv.trans ⟨hlines, hcarried, hreplied, hpos⟩

end

end Aesd.Sessions
