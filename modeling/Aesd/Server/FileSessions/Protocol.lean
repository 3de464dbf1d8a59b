import Aesd.Server.FileSessions.Basic

/-!
# What the threads agree on

Segments are written and replies are sent under `FileMutex`. Without it, a thread may still open the
file, and so empty it.
-/

namespace Aesd.FileSessions

open Exec Threads Threaded

variable {n : ℕ} {w : Workload n}

/-! ### What was carried out -/

/-- The segments that connection `i` has carried out. -/
def Shared.carriedBy (s : Shared n) (i : Fin n) : List Segment :=
  (s.carried.filter (·.connection = i)).map Carried.segment

/-- What connection `i` has written. -/
def Shared.writes (s : Shared n) (i : Fin n) : List (List Byte) :=
  (s.written.filter (·.1 = .inl (.handler i))).map Prod.snd

/-- The segments that are no seek commands. -/
def ordinary (segs : List Segment) : List (List Byte) :=
  (segs.filter fun seg => (findSeek seg.segmentPtr).isNone).map Segment.bytes

/-- No call fails or leaves anything out. -/
def Workload.Quiet (w : Workload n) : Prop := ∀ o ∈ w.outcomes, o = {}

/-- A reply is the first part of what `fstat` found. If no call leaves anything out, it is all of
it, or nothing: then another thread has opened the file in between. -/
def FileReply.Sound (w : Workload n) (x : FileReply n) : Prop :=
  x.delivered <+: x.content ∧ (w.Quiet → x.delivered = x.content ∨ x.delivered = [])

/-! ### The agreement -/

/-- What always holds. -/
structure Shared.Inv (w : Workload n) (s : Shared n) : Prop where
  outcomes : s.outcomes <:+ w.outcomes
  plan : ∀ i, s.carriedBy i <+: w.segs i
  writes : (∀ c ∈ s.carried, c.ok = true) → ∀ i, s.writes i = ordinary (s.carriedBy i)
  replied : ∀ x ∈ s.replied, x.Sound w
  exited : s.exited = true → ∃ c ∈ s.carried, c.ok = false
  quiet : w.Quiet → ∀ c ∈ s.carried, c.ok = true

/-- What a thread may do without `FileMutex`. -/
structure Outside (s s' : Shared n) : Prop where
  data : s'.data = s.data ∨ s'.data = []
  carried : s'.carried = s.carried
  written : s'.written = s.written
  replied : s'.replied = s.replied
  exited : s'.exited = s.exited

/-- What frame `f` may do in one step. -/
structure Guar (w : Workload n) (f : Frame n) (held : List ServerMutex) (s s' : Shared n) :
    Prop where
  inv : s.Inv w → s'.Inv w
  fileFD : ∀ g, g ≠ f → s'.fileFD g = s.fileFD g
  carriedBy : ∀ i, f ≠ .inl (.handler i) → s'.carriedBy i = s.carriedBy i
  outside : .fileMutex ∉ held → Outside s s'
  exited : s.exited = true → s'.exited = true

def protocol (w : Workload n) : Protocol (Shared n) ServerMutex (Frame n) where
  guar := Guar w
  res _ _ := True
  rank _ := 0
  res_stable _ _ _ := trivial

/-- What the thread of connection `i` knows wherever it is. -/
structure Knows (w : Workload n) (i : Fin n) (done : List Segment) (s : Shared n) : Prop where
  inv : s.Inv w
  done : s.carriedBy i = done

/-- While it has the file open, its `open` has succeeded if no call fails. -/
structure Opened (w : Workload n) (i : Fin n) (done : List Segment) (s : Shared n) : Prop
    extends Knows w i done s where
  fileFD : w.Quiet → (s.fileFD (.inl (.handler i))).isSome

variable {i : Fin n} {f : Frame n} {held : List ServerMutex} {done : List Segment}
  {s s' u : Shared n}

lemma Outside.refl (s : Shared n) : Outside s s := ⟨.inl rfl, rfl, rfl, rfl, rfl⟩

lemma Outside.trans (h : Outside s s') (h' : Outside s' u) : Outside s u := by
  refine ⟨?_, h'.carried.trans h.carried, h'.written.trans h.written, h'.replied.trans h.replied,
    h'.exited.trans h.exited⟩
  rcases h'.data with heq | hnil
  · rw [heq]
    exact h.data
  · exact .inr hnil

/-- What a thread finds that has locked `FileMutex`. -/
lemma Outside.rely (hheld : .fileMutex ∈ held) (hu : (protocol w).Rely f held s u) :
    Outside s u := by
  apply hu.invariant (I := Outside s) _ (.refl s)
  intro g held' v v' _ hdisjoint hguar hv
  exact hv.trans (hguar.outside fun hmem => hdisjoint hmem hheld)

/-- The next outcome is one in which no call fails. -/
lemma Workload.Quiet.headD (h : w.Quiet) (hs : s.Inv w) : s.outcomes.headD {} = {} := by
  cases hos : s.outcomes with
  | nil => rfl
  | cons o os => exact h o (hs.outcomes.subset (hos ▸ List.mem_cons_self))

lemma Inv.rely (hs : s.Inv w) (hu : (protocol w).Rely f held s u) : u.Inv w := by
  apply hu.invariant (I := fun v => v.Inv w) _ hs
  intro g held' v v' _ _ hguar hv
  exact hguar.inv hv

lemma Knows.rely (h : Knows w i done s) (hu : (protocol w).Rely (.inl (.handler i)) held s u) :
    Knows w i done u := by
  apply hu.invariant (I := Knows w i done) _ h
  intro g held' v v' hg _ hguar hv
  exact ⟨hguar.inv hv.inv, (hguar.carriedBy i hg).trans hv.done⟩

lemma Rely.fileFD (hu : (protocol w).Rely f held s u) : u.fileFD f = s.fileFD f := by
  apply hu.invariant (I := fun v => v.fileFD f = s.fileFD f) _ rfl
  intro g held' v v' hg _ hguar hv
  exact (hguar.fileFD f hg.symm).trans hv

lemma Opened.rely (h : Opened w i done s) (hu : (protocol w).Rely (.inl (.handler i)) held s u) :
    Opened w i done u :=
  ⟨h.toKnows.rely hu, fun hquiet => by rw [Rely.fileFD hu]; exact h.fileFD hquiet⟩

lemma Rely.exited (hu : (protocol w).Rely f held s u) (hs : s.exited = true) : u.exited = true := by
  apply hu.invariant (I := fun v => v.exited = true) _ hs
  intro g held' v v' _ _ hguar hv
  exact hguar.exited hv

end Aesd.FileSessions
