import Aesd.Driver.Concurrent.History
import Aesd.Library.Ghost

/-!
# Who may do what

The agreement that the tasks keep to. The entry mutex protects the stage and the heap, and the
buffer mutex the ring and the heap; whoever holds one of them may rely on what it protects, and only
a task that holds both may change the ring. The position of the device is moved by any task that
releases a file.
-/

namespace Aesd.Concurrent

open Exec Threads

variable {T : Type} [DecidableEq T] {cfg : KernelConfig} {calls : T → List DriverCall}

attribute [ext] EntryStage Device

/-- Another state that looks the same to a task that holds the entry mutex. -/
structure Following (cfg : KernelConfig) (t : T) (s u : Shared T) : Prop where
  kernel : u.kernel t [] = { s.kernel t [] with dev.lseekPos := u.dev.lseekPos }
  bounds : -2 ^ 63 ≤ u.dev.lseekPos ∧ u.dev.lseekPos < 2 ^ 63
  size : s.dev.entry.size = cfg.kmallocMaxSize
  added : u.added = s.added
  served : u.served = s.served
  madeBy : u.madeBy t = s.madeBy t

namespace Following

variable {t : T} {s u : Shared T}

lemma dev (h : Following cfg t s u) : u.dev = { s.dev with lseekPos := u.dev.lseekPos } :=
  congrArg Kernel.dev h.kernel

lemma heap (h : Following cfg t s u) : u.heap = s.heap := congrArg Kernel.heap h.kernel

lemma inv (h : Following cfg t s u) (hs : s.core.Inv cfg) : u.core.Inv cfg := by
  have hcore : u.core = { s.core with dev.lseekPos := u.dev.lseekPos } := by
    simp only [Shared.core, ← h.dev, h.heap]
  rw [hcore]
  exact { hs with lseekPos_bounds := h.bounds }

lemma lines (h : Following cfg t s u) : u.core.lines = s.core.lines := by
  simp only [Kernel.lines, Shared.core, h.heap]
  rw [h.dev]

lemma stage (h : Following cfg t s u) : u.core.stage = s.core.stage := by
  simp only [Kernel.stage, Shared.core, h.heap]
  rw [h.dev]

/-- The same write is served. -/
lemma serve (h : Following cfg t s u) (w : ServedWrite T) :
    Following cfg t { s with served := s.served ++ [w] } { u with served := u.served ++ [w] } :=
  ⟨h.kernel, h.bounds, h.size, h.added, by simp only [h.served], h.madeBy⟩

lemma refl (hs : s.core.Inv cfg) (hsize : s.dev.entry.size = cfg.kmallocMaxSize) :
    Following cfg t s s := ⟨rfl, hs.lseekPos_bounds, hsize, rfl, rfl, rfl⟩

end Following

/-- What a task that holds some mutexes may do in one step. -/
structure Guar (cfg : KernelConfig) (calls : T → List DriverCall) (t : T) (held : List DevMutex)
    (s s' : Shared T) : Prop where
  outcomes : ∀ u, u ≠ t → s'.outcomes u = s.outcomes u
  size : s'.dev.entry.size = s.dev.entry.size ∨ s'.dev.entry.size = cfg.kmallocMaxSize
  bounds : -2 ^ 63 ≤ s.dev.lseekPos ∧ s.dev.lseekPos < 2 ^ 63 →
    -2 ^ 63 ≤ s'.dev.lseekPos ∧ s'.dev.lseekPos < 2 ^ 63
  lseekPos : .buffMutex ∉ held → s'.dev.lseekPos = s.dev.lseekPos ∨ s'.dev.lseekPos = 0
  stage : .entryMutex ∉ held → s'.dev.entry.buffPtr = s.dev.entry.buffPtr ∧
    s'.dev.entry.endIdx = s.dev.entry.endIdx ∧ s'.heap = s.heap ∧ s'.served = s.served
  ring : .entryMutex ∉ held ∨ .buffMutex ∉ held → s'.dev.buff = s.dev.buff ∧ s'.added = s.added ∧
    (s.core.Inv cfg → s'.core.Inv cfg ∧ s'.core.lines = s.core.lines)
  added : s.added <+: s'.added
  served : ∀ u, u ≠ t → s'.servedTo u = s.servedTo u
  madeBy : ∀ u, u ≠ t → s'.madeBy u = s.madeBy u
  history : s.History cfg calls → s'.History cfg calls

/-- What holds of the state while a mutex is free. -/
def Free (cfg : KernelConfig) : DevMutex → Shared T → Prop
  | .entryMutex, s => s.core.Inv cfg ∧ s.core.lines = s.added.rtake maxWriteOperations ∧
    replay cfg s.served = (s.served.map ServedWrite.retVal, s.core.lines, s.core.stage)
  | .buffMutex, s => s.core.Inv cfg ∧ s.core.lines = s.added.rtake maxWriteOperations

lemma Guar.free {t : T} {held : List DevMutex} {mutex : DevMutex} {s s' : Shared T}
    (h : Guar cfg calls t held s s') (hnot : mutex ∉ held) (hfree : Free cfg mutex s) :
    Free cfg mutex s' := by
  cases mutex with
  | entryMutex =>
    obtain ⟨hbuffPtr, hendIdx, hheap, hserved⟩ := h.stage hnot
    obtain ⟨-, hadded, hring⟩ := h.ring (.inl hnot)
    obtain ⟨hinv, hlines⟩ := hring hfree.1
    have hstage : s'.core.stage = s.core.stage := by
      simp only [Kernel.stage, Shared.core, hbuffPtr, hendIdx, hheap]
    refine ⟨hinv, ?_⟩
    rw [hserved, hlines, hstage, hadded]
    exact hfree.2
  | buffMutex =>
    obtain ⟨-, hadded, hring⟩ := h.ring (.inr hnot)
    obtain ⟨hinv, hlines⟩ := hring hfree.1
    refine ⟨hinv, ?_⟩
    rw [hlines, hadded]
    exact hfree.2

/-- The agreement of the tasks that make `calls`. The entry mutex comes before the buffer mutex. -/
def protocol (cfg : KernelConfig) (calls : T → List DriverCall) :
    Protocol (Shared T) DevMutex T where
  guar := Guar cfg calls
  res := Free cfg
  rank
    | .entryMutex => 0
    | .buffMutex => 1
  res_stable := Guar.free

/-! ### What the others leave alone -/

section Rely

variable {t : T} {held : List DevMutex} {s s' : Shared T}

lemma Rely.outcomes (h : (protocol cfg calls).Rely t held s s') : s'.outcomes t = s.outcomes t := by
  refine h.invariant (I := fun u => u.outcomes t = s.outcomes t) ?_ rfl
  intro v held' u u' hv _ hguar hu
  exact (hguar.outcomes t hv.symm).trans hu

lemma Rely.servedTo (h : (protocol cfg calls).Rely t held s s') : s'.servedTo t = s.servedTo t := by
  refine h.invariant (I := fun u => u.servedTo t = s.servedTo t) ?_ rfl
  intro v held' u u' hv _ hguar hu
  exact (hguar.served t hv.symm).trans hu

lemma Rely.madeBy (h : (protocol cfg calls).Rely t held s s') : s'.madeBy t = s.madeBy t := by
  refine h.invariant (I := fun u => u.madeBy t = s.madeBy t) ?_ rfl
  intro v held' u u' hv _ hguar hu
  exact (hguar.madeBy t hv.symm).trans hu

lemma Rely.added (h : (protocol cfg calls).Rely t held s s') : s.added <+: s'.added := by
  refine h.invariant (I := fun u => s.added <+: u.added) ?_ (List.prefix_refl _)
  intro v held' u u' _ _ hguar hu
  exact hu.trans hguar.added

/-- What a task that holds the buffer mutex has found stays, but for the position. -/
lemma Rely.ring (h : (protocol cfg calls).Rely t held s s') (hheld : .buffMutex ∈ held)
    (hs : s.core.Inv cfg) :
    s'.dev.buff = s.dev.buff ∧ s'.added = s.added ∧ s'.core.Inv cfg ∧
      s'.core.lines = s.core.lines ∧
      (s'.dev.lseekPos = s.dev.lseekPos ∨ s'.dev.lseekPos = 0) := by
  refine h.invariant (I := fun u => u.dev.buff = s.dev.buff ∧ u.added = s.added ∧
    u.core.Inv cfg ∧ u.core.lines = s.core.lines ∧
    (u.dev.lseekPos = s.dev.lseekPos ∨ u.dev.lseekPos = 0)) ?_ ⟨rfl, rfl, hs, rfl, .inl rfl⟩
  rintro v held' u u' _ hdisjoint hguar ⟨hbuff, hadded, hinv, hlines, hpos⟩
  have hnot : .buffMutex ∉ held' := fun hmem => hdisjoint hmem hheld
  obtain ⟨hbuff', hadded', hring⟩ := hguar.ring (.inr hnot)
  obtain ⟨hinv', hlines'⟩ := hring hinv
  refine ⟨hbuff'.trans hbuff, hadded'.trans hadded, hinv', hlines'.trans hlines, ?_⟩
  rcases hguar.lseekPos hnot with heq | heq
  · rwa [heq]
  · exact .inr heq

end Rely

/-! ### Following a writer -/

/-- What the others do makes no difference to a task that holds the entry mutex. -/
lemma Following.rely {t : T} {s u u' : Shared T} {held : List DevMutex}
    (hheld : .entryMutex ∈ held) (h : Following cfg t s u)
    (hu : (protocol cfg calls).Rely t held u u') : Following cfg t s u' := by
  refine hu.invariant (I := Following cfg t s) ?_ h
  intro v held' w w' hv hdisjoint hguar hw
  have hnot : .entryMutex ∉ held' := fun hmem => hdisjoint hmem hheld
  obtain ⟨hbuffPtr, hendIdx, hheap, hserved⟩ := hguar.stage hnot
  obtain ⟨hbuff, hadded, -⟩ := hguar.ring (.inl hnot)
  have hsize : w'.dev.entry.size = w.dev.entry.size := by
    rcases hguar.size with heq | heq
    · exact heq
    · rw [heq, hw.dev]
      exact hw.size.symm
  have hdev : w'.dev = { s.dev with lseekPos := w'.dev.lseekPos } := by
    have hwd := hw.dev
    rw [Device.ext_iff] at hwd ⊢
    exact ⟨(EntryStage.ext hbuffPtr hsize hendIdx).trans hwd.1, hbuff.trans hwd.2.1, rfl⟩
  refine ⟨?_, hguar.bounds hw.bounds, hw.size, hadded.trans hw.added, hserved.trans hw.served,
    (hguar.madeBy t hv.symm).trans hw.madeBy⟩
  have houtcomes : w.outcomes t = s.outcomes t := congrArg Kernel.outcomes hw.kernel
  simp only [Shared.kernel, ← hdev, hheap, hw.heap, hguar.outcomes t hv.symm, houtcomes]

end Aesd.Concurrent
