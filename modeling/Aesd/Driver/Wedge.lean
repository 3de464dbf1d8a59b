import Aesd.Driver.ContentLaw
import Aesd.Driver.Device.Writes
import Aesd.Library.StagedLaws

/-!
# The wedged device

The driver admits a write if the stage has room for all of it, and only a newline makes room again.
Once the stage is full and holds no complete line, no newline is admitted any more.
-/

namespace Aesd

open Exec Kernel

variable {cfg : KernelConfig} {k : Kernel}

/-- A newline that gets its memory and its locks is admitted, and moves the staged bytes and itself
into the ring. -/
def Kernel.AdmitsNewline (cfg : KernelConfig) (k : Kernel) : Prop :=
  ∀ o : Outcomes, true ∉ o.allocFails → true ∉ o.interrupted →
    Returns (userWrite cfg [newline]) { k with outcomes := o } fun r k' =>
      r = 1 ∧ k'.lines = pushLast maxWriteOperations k.lines (k.log.staged ++ [newline]) ∧
      k'.log.staged = []

/-- Whatever is written from here on, and whatever the kernel decides, not a byte is admitted. -/
def Kernel.Wedged (cfg : KernelConfig) (k : Kernel) : Prop :=
  ∀ (writes : List (List Byte)) (o : Outcomes), (∀ data ∈ writes, data ≠ []) →
    Returns (Machine.run (userWrite cfg) writes) { k with outcomes := o } fun rets _ =>
      ∀ r ∈ rets, r < 0

lemma Kernel.Idle.admitsNewline (h : k.Idle cfg) (hroom : k.dev.entry.endIdx < cfg.kmallocMaxSize) :
    k.AdmitsNewline cfg := by
  intro o hfails hint
  have hstaged : k.log.staged.length = k.dev.entry.endIdx := h.inv.length_staged
  refine ((h.given o).userWrite_spec [newline]).mono ?_
  rintro r k' ⟨-, hr, hlog⟩
  have hquiet : StagedLog.Quiet (Kernel.log { k with outcomes := o }) := ⟨hfails, hint⟩
  obtain ⟨t', hsubmit, hlines, hempty⟩ :=
    StagedLog.submit_delim_of_quiet (n := maxWriteOperations) (d := newline) hquiet
      (show k.log.staged.length < cfg.kmallocMaxSize by omega)
  rw [Kernel.attempt, hsubmit] at hr hlog
  refine ⟨hr, ?_, ?_⟩
  · exact (congrArg StagedLog.lines hlog).trans hlines
  · rw [hlog]
    exact hempty

/-- A run of writes on a full stage. -/
lemma Kernel.Idle.run_of_full {writes : List (List Byte)} (hwrites : ∀ data ∈ writes, data ≠ [])
    (h : k.Idle cfg) (hfull : cfg.kmallocMaxSize ≤ k.log.staged.length) :
    Returns (Machine.run (userWrite cfg) writes) k fun rets _ => ∀ r ∈ rets, r < 0 := by
  induction writes generalizing k with
  | nil => exact ⟨[], k, rfl, by simp⟩
  | cons data writes ih =>
    obtain ⟨r, k₁, hcall, hidle, hr, hlog⟩ := h.userWrite_spec data
    obtain ⟨hverdict, hstaged⟩ := StagedLog.submit_of_full (n := maxWriteOperations)
      (d := newline) hfull (hwrites data List.mem_cons_self)
    obtain ⟨rets, k₂, hrun, hrets⟩ :=
      ih (fun data hdata => hwrites data (List.mem_cons_of_mem _ hdata)) hidle (by
        rw [hlog, Kernel.attempt, hstaged]
        exact hfull)
    refine ⟨r :: rets, k₂, Machine.run_cons hcall hrun, ?_⟩
    intro r' hr'
    rcases List.mem_cons.mp hr' with rfl | hr'
    · rw [hr]
      exact writeRet_neg_iff.mpr hverdict
    · exact hrets r' hr'

/-- The write has just as many bytes as there is room on the stage. -/
def Kernel.FilledBy (cfg : KernelConfig) (k : Kernel) (data : List Byte) : Prop :=
  k.log.staged.length + data.length = cfg.kmallocMaxSize

lemma Kernel.Idle.room_of_meets (h : k.Idle cfg) {writes : List (List Byte)}
    (hroom : k.log.staged.length < cfg.kmallocMaxSize)
    (hmeets : Machine.Meets (userWrite cfg) (fun k data => ¬ k.FilledBy cfg data) writes k) :
    Returns (Machine.run (userWrite cfg) writes) k fun _ k' =>
      k'.log.staged.length < cfg.kmallocMaxSize := by
  refine (Machine.run_meets (I := fun (_ : Unit) k => k.Idle cfg ∧
    k.log.staged.length < cfg.kmallocMaxSize) (f := fun _ _ => ()) (b := ()) ?_ writes
    ⟨h, hroom⟩ hmeets).mono fun _ _ hI => hI.2
  rintro data k - ⟨h, hroom⟩ hfit
  refine (h.userWrite_spec data).mono ?_
  rintro r k' ⟨hidle, -, hlog⟩
  refine ⟨hidle, ?_⟩
  rw [hlog]
  exact StagedLog.length_staged_submit_lt hroom hfit

/-- In every state that writes reach: a newline is admitted unless the stage is full, and nothing
is ever admitted again exactly if it is. It is not full after a run in which no write had just as
many bytes as there was room. -/
theorem aesdWrite_admits_iff (cfg : KernelConfig) (writes : List (List Byte)) (o : Outcomes) :
    Returns (Machine.run (userWrite cfg) writes) { Kernel.init with outcomes := o } fun _ k =>
      (k.AdmitsNewline cfg ↔ k.dev.entry.endIdx ≠ cfg.kmallocMaxSize) ∧
      (k.Wedged cfg ↔ k.dev.entry.endIdx = cfg.kmallocMaxSize) ∧
      (Machine.Meets (userWrite cfg) (fun k data => ¬ k.FilledBy cfg data) writes
          { Kernel.init with outcomes := o } → k.dev.entry.endIdx ≠ cfg.kmallocMaxSize) := by
  obtain ⟨rets, k, hrun, h⟩ := (init_idle cfg o).run_userWrite writes
  have hle := h.inv.endIdx_le
  have hstaged := h.inv.length_staged
  have hwedged : k.dev.entry.endIdx = cfg.kmallocMaxSize → k.Wedged cfg := by
    intro hfull writes o' hwrites
    exact (h.given o').run_of_full hwrites (hfull ▸ hstaged.ge)
  have hadmits : k.dev.entry.endIdx ≠ cfg.kmallocMaxSize → k.AdmitsNewline cfg :=
    fun hroom => h.admitsNewline (by omega)
  -- the two exclude each other: the newline is one of the writes to come
  have hnot : k.AdmitsNewline cfg → ¬ k.Wedged cfg := by
    intro hnewline hwedge
    obtain ⟨r, k', hcall, hr, -⟩ := hnewline {} (by simp) (by simp)
    obtain ⟨_, _, hrun', hrets⟩ := hwedge [[newline]] {} (by simp)
    rw [Machine.run_cons hcall (Machine.run_nil k')] at hrun'
    obtain ⟨rfl, -⟩ := Prod.mk.inj (Except.ok.inj hrun')
    have hneg := hrets r List.mem_cons_self
    omega
  refine ⟨rets, k, hrun, ⟨?_, hadmits⟩, ⟨?_, hwedged⟩, ?_⟩
  · intro hnewline hfull
    exact hnot hnewline (hwedged hfull)
  · intro hwedge
    by_contra hroom
    exact hnot (hadmits hroom) hwedge
  · intro hmeets
    have hroom := ((init_idle cfg o).room_of_meets cfg.pos hmeets).post hrun
    omega

/-- A write that fits the stage of an empty log and has no newline stays on the stage. -/
lemma lineLogWrite_empty {cap : ℕ} {data : List Byte} (hdata : newline ∉ data)
    (hfits : data.length ≤ cap) :
    lineLogWrite cap data LineLog.empty = ((data.length : ℤ), ⟨[], data⟩) := by
  have hroom : ¬ cap < (LineLog.empty : LineLog Byte).stage.length + data.length := by
    simp only [LineLog.empty, List.length_nil]
    omega
  rw [lineLogWrite, if_neg hroom, LineLog.write]
  simp only [LineLog.empty, List.nil_append, Delimited.lines_of_notMem hdata,
    Delimited.rest_of_notMem hdata]
  rfl

lemma lineLogWrite_of_full {cap : ℕ} {data : List Byte} {t : LineLog Byte} (hdata : data ≠ [])
    (hfull : cap ≤ t.stage.length) : lineLogWrite cap data t = (-ENOMEM, t) := by
  have hpos := List.length_pos_of_ne_nil hdata
  rw [lineLogWrite, if_pos (by omega)]

/-- After a write that fills the stage of a fresh device no newline is admitted, ever. -/
theorem aesdWrite_wedges :
    ∃ k, Machine.run (userWrite .usual) [List.replicate (2 ^ 22) 97] Kernel.init
        = .ok ([2 ^ 22], k) ∧
      (∃ k', userWrite .usual [newline] k = .ok (-ENOMEM, k')) ∧ k.Wedged .usual := by
  have hinit : Stores .usual Kernel.init LineLog.empty := init_stores (o := {}) (by simp) (by simp)
  have hdata : newline ∉ List.replicate (2 ^ 22) (97 : Byte) := by
    intro hmem
    cases List.eq_of_mem_replicate hmem
  have hlen : (List.replicate (2 ^ 22) (97 : Byte)).length = 2 ^ 22 := List.length_replicate
  have hfill : lineLogWrite KernelConfig.usual.kmallocMaxSize _ _ = _ :=
    lineLogWrite_empty hdata hlen.le
  obtain ⟨r, k, hcall, hr, hstores⟩ := aesdWrite_stores hinit (List.replicate (2 ^ 22) 97)
  rw [hfill] at hr hstores
  rw [hlen] at hr
  have hstaged : k.log.staged.length = 2 ^ 22 :=
    (congrArg (fun t => t.stage.length) hstores.log_eq).trans hlen
  obtain ⟨r', k', hcall', hr', -⟩ := aesdWrite_stores hstores [newline]
  rw [lineLogWrite_of_full (by simp) hlen.ge] at hr'
  refine ⟨k, ?_, ⟨k', ?_⟩, ?_⟩
  · rw [hr] at hcall
    exact Machine.run_cons hcall (Machine.run_nil k)
  · rw [hr'] at hcall'
    exact hcall'
  · intro writes o hwrites
    have hidle : k.Idle .usual := ⟨hstores.inv, hstores.held⟩
    exact (hidle.given o).run_of_full hwrites hstaged.ge

end Aesd
