import Aesd.Driver.Device.Calls
import Aesd.Driver.Ownership

/-!
# Loading and unloading

The module over its whole life: it is loaded and unloaded any number of times, with any calls on the
device in between. Loading may fail in `alloc_chrdev_region` and in `cdev_add`. Whatever was
registered with the kernel is recorded, and so is every removal of what was not there.
-/

namespace Aesd.Loading

open Exec

abbrev Major := ℕ

/-- What a kernel call returns when it fails. -/
abbrev Failure := { ret : ℤ // ret < 0 }

/-- `struct cdev`: all zero, initialised, or known to the kernel by a number. -/
inductive Cdev where
  | cleared
  | initialised
  | added (major : Major)
  deriving DecidableEq, Repr

def Cdev.isAdded : Cdev → Bool
  | .added _ => true
  | _ => false

/-- A removal of what was not there. -/
inductive Stray where
  | cdev
  | region (major : Major)
  deriving DecidableEq, Repr

/-- The driver and what the kernel knows of it. The module is in use while a file is open. -/
structure ModuleState where
  system : System
  files : Finset FileId
  aesdMajor : Major
  cdev : Cdev
  regions : List Major
  loaded : Bool
  strays : List Stray

abbrev ModuleM := Exec Fault ModuleState

/-- Run something that touches the device and its files only. -/
def onSystem {α : Type} (f : Exec Fault System α) : ModuleM α := fun m =>
  match f m.system with
  | .ok (a, system) => .ok (a, { m with system })
  | .error e => .error e

/-! ### The registration of a device -/

/-- `alloc_chrdev_region`: what it returns, and the value of `dev` after it, zero before. -/
def allocChrdevRegion : Except Failure Major → ModuleM (ℤ × Major)
  | .error ret => pure (ret, 0)
  | .ok major => do
    update fun m => { m with regions := major :: m.regions }
    pure (0, major)

def ModuleState.unregister (m : ModuleState) (major : Major) : ModuleState :=
  if major ∈ m.regions then { m with regions := m.regions.erase major }
  else { m with strays := m.strays ++ [.region major] }

def unregisterChrdevRegion (major : Major) : ModuleM Unit := update (·.unregister major)

def cdevAdd (major : Major) : Option Failure → ModuleM ℤ
  | some ret => pure ret
  | none => do
    update fun m => { m with cdev := .added major }
    pure 0

def ModuleState.delCdev (m : ModuleState) : ModuleState :=
  if m.cdev.isAdded then { m with cdev := .initialised }
  else { m with strays := m.strays ++ [.cdev] }

def cdevDel : ModuleM Unit := update ModuleState.delCdev

/-! ### The module -/

/-- What the kernel decides while the module is loaded. -/
structure LoadOutcomes where
  allocChrdevRegion : Except Failure Major
  cdevAdd : Option Failure

/-- `aesd_device` as it is compiled. -/
def aesdDevice (cfg : KernelConfig) : Device := ⟨⟨none, cfg.kmallocMaxSize, 0⟩, .init, 0⟩

/-- `aesd_setup_cdev` -/
def aesdSetupCdev (o : LoadOutcomes) : ModuleM ℤ := do
  let major ← read ModuleState.aesdMajor
  update fun m => { m with cdev := .initialised }
  cdevAdd major o.cdevAdd

/-- `aesd_cleanup_module` -/
def aesdCleanupModule : ModuleM Unit := do
  let major ← read ModuleState.aesdMajor
  cdevDel
  onSystem (withOutcomes {} Aesd.aesdCleanupModule)
  unregisterChrdevRegion major

/-- `aesd_init_module`. The state of the device that `memset` and the functions after it leave is
that of `Kernel.init`. -/
def aesdInitModule (o : LoadOutcomes) : ModuleM ℤ := do
  let (result, major) ← allocChrdevRegion o.allocChrdevRegion
  update fun m => { m with aesdMajor := major }
  if result < 0 then
    aesdCleanupModule
    pure result
  else
    update fun m => { m with
      cdev := .cleared
      system.kernel.dev := Kernel.init.dev
      system.kernel.held := Kernel.init.held }
    let result ← aesdSetupCdev o
    if result ≠ 0 then unregisterChrdevRegion major
    pure result

/-! ### The life of the module -/

def ENOENT : ℤ := 2
def ENXIO : ℤ := 6
def EAGAIN : ℤ := 11
def EEXIST : ℤ := 17

inductive ModuleEvent where
  | insmod (o : LoadOutcomes)
  | call (c : Call)
  | rmmod

/-- The variables of a module that is loaded are as they were compiled. -/
def ModuleState.compiled (cfg : KernelConfig) (m : ModuleState) : ModuleState :=
  { m with
    aesdMajor := 0
    cdev := .cleared
    system.kernel.dev := aesdDevice cfg }

def insmod (cfg : KernelConfig) (o : LoadOutcomes) : ModuleM ℤ := do
  if ← read ModuleState.loaded then pure (-EEXIST)
  else
    update (ModuleState.compiled cfg)
    let result ← aesdInitModule o
    update fun m => { m with loaded := decide (0 ≤ result) }
    pure result

/-- A module that is in use stays. -/
def rmmod : ModuleM ℤ := do
  let m ← read id
  if m.loaded = false then pure (-ENOENT)
  else if m.files.Nonempty then pure (-EAGAIN)
  else
    aesdCleanupModule
    update fun m => { m with loaded := false }
    pure 0

/-- A call on a file. There is a device to open as long as the kernel knows its `cdev`. -/
def userCall (cfg : KernelConfig) (c : Call) : ModuleM CallResult := do
  let m ← read id
  if c.op = .open ∧ m.cdev.isAdded = false then pure ⟨- ENXIO, []⟩
  else
    let r ← onSystem (sysCall cfg c)
    update fun m => { m with
      files := if (m.system.fPos c.file).isSome then insert c.file m.files
        else m.files.erase c.file }
    pure r

def moduleStep (cfg : KernelConfig) : ModuleEvent → ModuleM CallResult
  | .insmod o => do
    let result ← insmod cfg o
    pure ⟨result, []⟩
  | .call c => userCall cfg c
  | .rmmod => do
    let result ← rmmod
    pure ⟨result, []⟩

/-- Before the module is loaded for the first time. -/
def ModuleState.start : ModuleState := ⟨.init, ∅, 0, .cleared, [], false, []⟩

/-! ### What the module is for -/

/-- To its users the module is a log of lines, which is empty when the module is loaded and lost
when it is unloaded. -/
inductive Service where
  | unloaded
  | loaded (files : Finset FileId) (lines : List (List Byte)) (stage : Option (List Byte))

def LoadOutcomes.succeeds : LoadOutcomes → Bool
  | ⟨.ok _, none⟩ => true
  | _ => false

/-- The stored lines and the stage after a call. -/
def Call.logAfter (cfg : KernelConfig) (c : Call) (lines : List (List Byte))
    (stage : Option (List Byte)) : List (List Byte) × Option (List Byte) :=
  match c.op with
  | .write data =>
    let log := (StagedLog.submit maxWriteOperations cfg.kmallocMaxSize newline data
      ⟨lines, stage, c.outcomes.allocFails, c.outcomes.interrupted⟩).2
    (log.lines, log.stage)
  | _ => (lines, stage)

/-- The open files after a call. -/
def Call.filesAfter (c : Call) (files : Finset FileId) : Finset FileId :=
  match c.op with
  | .open => insert c.file files
  | .release => files.erase c.file
  | _ => files

def Service.next (cfg : KernelConfig) : Service → ModuleEvent → Service
  | .unloaded, .insmod o => if o.succeeds then .loaded ∅ [] none else .unloaded
  | .loaded files lines stage, .rmmod =>
    if files.Nonempty then .loaded files lines stage else .unloaded
  | .loaded files lines stage, .call c =>
    let log := if c.file ∈ files then Call.logAfter cfg c lines stage else (lines, stage)
    .loaded (Call.filesAfter c files) log.1 log.2
  | s, _ => s

/-- What an event removes that was not there. -/
def Service.strays : Service → ModuleEvent → List Stray
  | .unloaded, .insmod ⟨.error _, _⟩ => [.cdev, .region 0]
  | _, _ => []

/-! ### One event -/

variable {cfg : KernelConfig} {m : ModuleState} {s : System}

structure Unloaded (cfg : KernelConfig) (m : ModuleState) : Prop where
  loaded : m.loaded = false
  regions : m.regions = []
  cdev : m.cdev.isAdded = false
  files : m.files = ∅
  fPos : ∀ f, m.system.fPos f = none
  outcomes : m.system.kernel.outcomes = {}
  owns : m.system.kernel.heap.Owns cfg.kmallocMaxSize []

structure Loaded (cfg : KernelConfig) (m : ModuleState) : Prop where
  loaded : m.loaded = true
  regions : m.regions = [m.aesdMajor]
  cdev : m.cdev = .added m.aesdMajor
  files : ∀ f, f ∈ m.files ↔ (m.system.fPos f).isSome
  inv : m.system.Inv cfg

/-- The module provides the service, and is registered with the kernel exactly while it does. -/
def Provides (cfg : KernelConfig) (m : ModuleState) : Service → Prop
  | .unloaded => Unloaded cfg m
  | .loaded files lines stage => Loaded cfg m ∧ m.files = files ∧
    m.system.kernel.lines = lines ∧ m.system.kernel.stage = stage

lemma onSystem_ok {α : Type} {f : Exec Fault System α} {a : α} (h : f m.system = .ok (a, s)) :
    onSystem f m = .ok (a, { m with system := s }) := by
  simp only [onSystem, h]

@[simp] lemma delCdev_system : m.delCdev.system = m.system := by
  rw [ModuleState.delCdev]
  split_ifs <;> rfl

/-- A device that holds nothing, next to a heap on which nothing is left. -/
lemma inv_of_empty {k : Kernel} {size : ℕ} (howns : k.heap.Owns cfg.kmallocMaxSize [])
    (hdev : k.dev = ⟨⟨none, size, 0⟩, .init, 0⟩) : k.Inv cfg := by
  obtain ⟨dev, heap, held, outcomes⟩ := k
  cases hdev
  have hinit : Kernel.Inv cfg Kernel.init := Kernel.init_inv
  exact ⟨hinit.wf, howns, hinit.entries, hinit.endIdx_le, hinit.endIdx_eq, hinit.lseekPos_bounds⟩

/-- Cleaning up frees all buffers and removes what `aesd_major` stands for. -/
lemma aesdCleanupModule_returns (h : m.system.kernel.Inv cfg) :
    Returns aesdCleanupModule m fun _ m' => ∃ system,
      m' = ({ m.delCdev with system } : ModuleState).unregister m.aesdMajor ∧
      system.fPos = m.system.fPos ∧ system.kernel.outcomes = {} ∧
      system.kernel.heap.Owns cfg.kmallocMaxSize [] := by
  obtain ⟨_, system, hclean, k, ⟨-, howns⟩, rfl⟩ := withOutcomes_of_returns
    (aesdCleanupModule_spec (h.given {}))
  have hclean' : onSystem (withOutcomes {} Aesd.aesdCleanupModule) m.delCdev = .ok _ :=
    onSystem_ok (by rw [delCdev_system]; exact hclean)
  refine .step (read_apply _ m) (.step (update_apply _ m) (.step hclean' ?_))
  exact ⟨(), _, rfl, _, rfl, rfl, rfl, howns⟩

/-- What a call on a file does to the log and to the set of open files. -/
def Serves (cfg : KernelConfig) (c : Call) (files : Finset FileId) (s s' : System) : Prop :=
  (∀ f, f ∈ Call.filesAfter c files ↔ (s'.fPos f).isSome) ∧
  (s'.kernel.lines, s'.kernel.stage) =
    if c.file ∈ files then Call.logAfter cfg c s.kernel.lines s.kernel.stage
    else (s.kernel.lines, s.kernel.stage)

variable {c : Call} {files : Finset FileId} {p : ℤ} {r : CallResult} {s' : System}

lemma mem_insert_iff (hfiles : ∀ f, f ∈ files ↔ (s.fPos f).isSome) (file : FileId) (p : ℤ)
    (f : FileId) :
    f ∈ insert file files ↔ (Function.update s.fPos file (some p) f).isSome := by
  by_cases hf : f = file
  · simp [hf]
  · simp [hf, hfiles]

/-- A file that is not open can be opened, and nothing else. -/
lemma serves_of_closed (h : s.Inv cfg) (hfiles : ∀ f, f ∈ files ↔ (s.fPos f).isSome)
    (hclosed : s.fPos c.file = none) (hcall : sysCall cfg c s = .ok (r, s')) :
    Serves cfg c files s s' := by
  have hnot : c.file ∉ files := by simp [hfiles, hclosed]
  rw [Serves, if_neg hnot]
  by_cases hop : c.op = .open
  · rw [sysCall_open h hclosed hop] at hcall
    cases hcall
    rw [Call.filesAfter, hop]
    exact ⟨mem_insert_iff hfiles c.file 0, rfl⟩
  · rw [sysCall_of_closed hclosed hop] at hcall
    cases hcall
    refine ⟨fun f => ?_, rfl⟩
    rw [← hfiles, Call.filesAfter]
    split
    · exact absurd ‹_› hop
    · rw [Finset.erase_eq_of_notMem hnot]
    · rfl

/-- Only a write changes the log, and only a release closes the file. -/
lemma serves_of_open (h : s.Inv cfg) (hfiles : ∀ f, f ∈ files ↔ (s.fPos f).isSome)
    (hopen : s.fPos c.file = some p) (hcall : sysCall cfg c s = .ok (r, s')) :
    Serves cfg c files s s' := by
  have hmem : c.file ∈ files := by simp [hfiles, hopen]
  rw [Serves, if_pos hmem]
  obtain ⟨file, op, o⟩ := c
  dsimp only at hopen hmem
  cases op with
  | «open» =>
    rw [sysCall_of_open hopen] at hcall
    cases hcall
    refine ⟨fun f => ?_, rfl⟩
    rw [Call.filesAfter, Finset.insert_eq_of_mem hmem, hfiles]
  | release =>
    rw [sysCall_release h hopen rfl] at hcall
    cases hcall
    refine ⟨fun f => ?_, rfl⟩
    by_cases hf : f = file
    · simp [Call.filesAfter, hf]
    · simp [Call.filesAfter, hf, hfiles]
  | read count =>
    rw [sysCall_read h hopen rfl] at hcall
    cases hcall
    refine ⟨fun f => ?_, rfl⟩
    rw [Call.filesAfter, ← mem_insert_iff hfiles, Finset.insert_eq_of_mem hmem]
  | write data =>
    obtain ⟨k', -, -, -, -, hlines, hstage, hwrite⟩ :=
      sysCall_write (c := ⟨file, .write data, o⟩) h hopen rfl
    rw [hwrite] at hcall
    cases hcall
    exact ⟨hfiles, Prod.ext hlines hstage⟩
  | llseek off whence =>
    rw [sysCall_llseek h hopen rfl] at hcall
    cases hcall
    exact ⟨hfiles, rfl⟩
  | ioctl cmd arg =>
    rw [sysCall_ioctl h hopen rfl] at hcall
    cases hcall
    exact ⟨hfiles, rfl⟩

lemma sysCall_serves (h : s.Inv cfg) (c : Call) (hfiles : ∀ f, f ∈ files ↔ (s.fPos f).isSome) :
    Returns (sysCall cfg c) s fun _ s' => s'.Inv cfg ∧ Serves cfg c files s s' := by
  obtain ⟨r, s', hcall, hinv⟩ := sysCall_inv h c
  refine ⟨r, s', hcall, hinv, ?_⟩
  cases hopen : s.fPos c.file with
  | none => exact serves_of_closed h hfiles hopen hcall
  | some p => exact serves_of_open h hfiles hopen hcall

/-- Without a number for the device, cleaning up removes what was never there. -/
lemma aesdInitModule_of_error (h : m.system.kernel.Inv cfg) (hregions : m.regions = [])
    (hcdev : m.cdev = .cleared) (ret : Failure) (add : Option Failure) :
    Returns (aesdInitModule ⟨.error ret, add⟩) m fun result m' => result = ret ∧ ∃ system,
      m' = { m with
        system
        aesdMajor := 0
        strays := m.strays ++ [.cdev, .region 0] } ∧
      system.fPos = m.system.fPos ∧ system.kernel.outcomes = {} ∧
      system.kernel.heap.Owns cfg.kmallocMaxSize [] := by
  obtain ⟨⟨⟩, m', hclean, system, rfl, hsystem⟩ :=
    aesdCleanupModule_returns (m := { m with aesdMajor := 0 }) h
  have hinit : aesdInitModule ⟨.error ret, add⟩ m = .ok (ret.1,
      ({ ({ m with aesdMajor := 0 } : ModuleState).delCdev with system }
        : ModuleState).unregister 0) := by
    simp [aesdInitModule, allocChrdevRegion, ret.2, bind_ok hclean]
  refine ⟨ret, _, hinit, rfl, system, ?_, hsystem⟩
  simp [ModuleState.delCdev, ModuleState.unregister, hcdev, hregions, Cdev.isAdded]

/-- With one, the device is cleared, and the number is given back if `cdev_add` fails. -/
lemma aesdInitModule_of_ok (hregions : m.regions = []) (major : Major) (add : Option Failure) :
    aesdInitModule ⟨.ok major, add⟩ m = .ok ((add.elim 0 Subtype.val : ℤ), { m with
      system.kernel.dev := Kernel.init.dev
      system.kernel.held := Kernel.init.held
      aesdMajor := major
      cdev := add.elim (.added major) fun _ => .initialised
      regions := add.elim [major] fun _ => [] }) := by
  cases add with
  | none => simp [aesdInitModule, allocChrdevRegion, aesdSetupCdev, cdevAdd, bind_apply, hregions]
  | some ret =>
    simp [aesdInitModule, allocChrdevRegion, aesdSetupCdev, cdevAdd, hregions,
      unregisterChrdevRegion, ModuleState.unregister, bind_apply, ret.2.ne]

/-- A load either ends with a fresh device, registered once, or leaves nothing behind. -/
lemma insmod_returns (h : Unloaded cfg m) (o : LoadOutcomes) :
    Returns (insmod cfg o) m fun _ m' =>
      Provides cfg m' (Service.next cfg .unloaded (.insmod o)) ∧
      m'.strays = m.strays ++ Service.strays .unloaded (.insmod o) := by
  rw [insmod]
  refine .step (read_apply _ m) ?_
  rw [if_neg (by simp [h.loaded])]
  refine .step (update_apply _ m) ?_
  obtain ⟨ret | major, add⟩ := o
  · have hinv : (m.compiled cfg).system.kernel.Inv cfg := inv_of_empty h.owns rfl
    refine (aesdInitModule_of_error hinv h.regions rfl ret add).bind ?_
    rintro _ _ ⟨rfl, system, rfl, hfPos, hout, howns⟩
    have hnot : ¬ 0 ≤ ret.1 := ret.2.not_ge
    refine ⟨ret, _, rfl, ⟨?_, h.regions, rfl, h.files, ?_, hout, howns⟩, rfl⟩
    · simp [hnot]
    · intro f
      rw [hfPos]
      exact h.fPos f
  · refine .step (aesdInitModule_of_ok (m := m.compiled cfg) h.regions major add) ?_
    cases add with
    | none =>
      refine ⟨0, _, rfl, ⟨⟨rfl, rfl, rfl, ?_, ?_⟩, h.files, rfl, rfl⟩, (List.append_nil _).symm⟩
      · intro f
        simp [ModuleState.compiled, h.files, h.fPos]
      · refine ⟨inv_of_empty h.owns rfl, rfl, h.outcomes, fun f p hp => ?_⟩
        cases (h.fPos f).symm.trans hp
    | some ret =>
      have hnot : ¬ 0 ≤ ret.1 := ret.2.not_ge
      refine ⟨ret, _, rfl, ⟨?_, rfl, rfl, h.files, h.fPos, h.outcomes, h.owns⟩,
        (List.append_nil _).symm⟩
      simp [hnot]

/-- A module that nobody uses goes, and leaves nothing behind. -/
lemma rmmod_returns (h : Loaded cfg m) (hfiles : m.files = ∅) :
    Returns rmmod m fun _ m' => Unloaded cfg m' ∧ m'.strays = m.strays := by
  obtain ⟨⟨⟩, m', hclean, system, rfl, hfPos, hout, howns⟩ := aesdCleanupModule_returns h.inv.kernel
  rw [rmmod]
  refine .step (read_apply _ m) ?_
  rw [if_neg (by simp [h.loaded]), if_neg (by simp [hfiles])]
  refine .step hclean ⟨0, _, rfl, ?_⟩
  have hdel : m.delCdev = { m with cdev := .initialised } := by
    simp [ModuleState.delCdev, h.cdev, Cdev.isAdded]
  simp only [hdel, ModuleState.unregister, h.regions, List.mem_singleton, if_true,
    List.erase_cons_head, and_true]
  refine ⟨rfl, rfl, rfl, hfiles, fun f => ?_, hout, howns⟩
  rw [hfPos]
  apply Option.not_isSome_iff_eq_none.mp
  rw [← h.files, hfiles]
  exact Finset.notMem_empty f

/-- Only the file of a call is opened or closed. -/
lemma filesAfter_eq (c : Call) (files : Finset FileId) :
    (if c.file ∈ Call.filesAfter c files then insert c.file files else files.erase c.file)
      = Call.filesAfter c files := by
  have hother : (if c.file ∈ files then insert c.file files else files.erase c.file) = files := by
    split_ifs with hmem
    · exact Finset.insert_eq_of_mem hmem
    · exact Finset.erase_eq_of_notMem hmem
  obtain ⟨file, op, o⟩ := c
  cases op with
  | «open» => simp [Call.filesAfter]
  | release => simp [Call.filesAfter]
  | read count => exact hother
  | write data => exact hother
  | llseek off whence => exact hother
  | ioctl cmd arg => exact hother

lemma userCall_of_loaded (h : Loaded cfg m) (c : Call) :
    Returns (userCall cfg c) m fun _ m' =>
      Provides cfg m' (Service.next cfg
        (.loaded m.files m.system.kernel.lines m.system.kernel.stage) (.call c)) ∧
      m'.strays = m.strays := by
  obtain ⟨r, s', hcall, hinv, hfiles, hlog⟩ := sysCall_serves h.inv c h.files
  rw [userCall]
  refine .step (read_apply _ m) ?_
  rw [if_neg (by simp [h.cdev, Cdev.isAdded])]
  refine .step (onSystem_ok hcall) (.step (update_apply _ _) ⟨r, _, rfl, ?_, rfl⟩)
  have heq : (if (s'.fPos c.file).isSome then insert c.file m.files else m.files.erase c.file)
      = Call.filesAfter c m.files := by
    rw [← filesAfter_eq]
    exact if_congr (hfiles c.file).symm rfl rfl
  rw [Service.next, ← hlog]
  exact ⟨⟨h.loaded, h.regions, h.cdev, by rw [heq]; exact hfiles, hinv⟩, heq, rfl, rfl⟩

/-- Before it is loaded the module serves no call. -/
lemma userCall_of_unloaded (h : Unloaded cfg m) (c : Call) :
    Returns (userCall cfg c) m fun _ m' => Unloaded cfg m' ∧ m'.strays = m.strays := by
  rw [userCall]
  refine .step (read_apply _ m) ?_
  by_cases hop : c.op = .open
  · rw [if_pos ⟨hop, h.cdev⟩]
    exact ⟨_, m, rfl, h, rfl⟩
  · rw [if_neg fun hand => hop hand.1]
    refine .step (onSystem_ok (sysCall_of_closed (h.fPos _) hop)) (.step (update_apply _ _) ?_)
    refine ⟨_, _, rfl, ⟨h.loaded, h.regions, h.cdev, ?_, h.fPos, h.outcomes, h.owns⟩, rfl⟩
    simp [h.fPos, h.files]

lemma moduleStep_of_unloaded (h : Unloaded cfg m) (e : ModuleEvent) :
    Returns (moduleStep cfg e) m fun _ m' =>
      Provides cfg m' (Service.next cfg .unloaded e) ∧
      m'.strays = m.strays ++ Service.strays .unloaded e := by
  cases e with
  | insmod o =>
    obtain ⟨result, m', hinsmod, hm'⟩ := insmod_returns h o
    exact .step hinsmod ⟨_, m', rfl, hm'⟩
  | call c =>
    refine (userCall_of_unloaded h c).mono ?_
    rintro _ m' ⟨hm', hstrays⟩
    exact ⟨hm', hstrays.trans (List.append_nil _).symm⟩
  | rmmod =>
    have hrmmod : rmmod m = .ok (-ENOENT, m) := by
      simp [rmmod, h.loaded]
    exact .step hrmmod ⟨_, m, rfl, h, (List.append_nil _).symm⟩

lemma moduleStep_of_loaded (h : Loaded cfg m) (e : ModuleEvent) :
    Returns (moduleStep cfg e) m fun _ m' =>
      Provides cfg m' (Service.next cfg
        (.loaded m.files m.system.kernel.lines m.system.kernel.stage) e) ∧
      m'.strays = m.strays := by
  cases e with
  | insmod o =>
    have hinsmod : insmod cfg o m = .ok (-EEXIST, m) := by
      simp [insmod, h.loaded]
    exact .step hinsmod ⟨_, m, rfl, ⟨h, rfl, rfl, rfl⟩, rfl⟩
  | call c => exact userCall_of_loaded h c
  | rmmod =>
    by_cases hfiles : m.files.Nonempty
    · have hrmmod : rmmod m = .ok (-EAGAIN, m) := by
        simp [rmmod, h.loaded, hfiles]
      refine .step hrmmod ⟨_, m, rfl, ?_, rfl⟩
      rw [Service.next, if_pos hfiles]
      exact ⟨h, rfl, rfl, rfl⟩
    · obtain ⟨result, m', hrmmod, hm', hstrays⟩ :=
        rmmod_returns h (Finset.not_nonempty_iff_eq_empty.mp hfiles)
      refine .step hrmmod ⟨_, m', rfl, ?_, hstrays⟩
      rw [Service.next, if_neg hfiles]
      exact hm'

/-- Every event keeps the module in step with its service. -/
theorem moduleStep_provides {service : Service} (h : Provides cfg m service) (e : ModuleEvent) :
    Returns (moduleStep cfg e) m fun _ m' =>
      Provides cfg m' (service.next cfg e) ∧ m'.strays = m.strays ++ service.strays e := by
  cases service with
  | unloaded => exact moduleStep_of_unloaded h e
  | loaded files lines stage =>
    obtain ⟨hloaded, rfl, rfl, rfl⟩ := h
    have hnil : Service.strays
        (.loaded m.files m.system.kernel.lines m.system.kernel.stage) e = [] := by
      cases e <;> rfl
    rw [hnil, List.append_nil]
    exact moduleStep_of_loaded hloaded e

/-! ### Every run -/

lemma start_provides (cfg : KernelConfig) : Provides cfg .start .unloaded := by
  have hinit : Kernel.Inv cfg Kernel.init := Kernel.init_inv
  exact ⟨rfl, rfl, rfl, rfl, fun _ => rfl, rfl, hinit.owns⟩

/-- A load of a module that is not there gets a number for its device. -/
def ModuleEvent.GetsMajor (m : ModuleState) : ModuleEvent → Prop
  | .insmod ⟨.error _, _⟩ => m.loaded = true
  | _ => True

lemma strays_eq_nil_iff {service : Service} (h : Provides cfg m service) (e : ModuleEvent) :
    service.strays e = [] ↔ e.GetsMajor m := by
  rcases e with ⟨⟨_ | _, _⟩⟩ | c | _
  · cases service with
    | unloaded => simp [Service.strays, ModuleEvent.GetsMajor, h.loaded]
    | loaded files lines stage => simp [Service.strays, ModuleEvent.GetsMajor, h.1.loaded]
  all_goals cases service <;> exact iff_of_true rfl trivial

/-- The module removes nothing that is not there, exactly if no load fails to get a number: then
`aesd_init_module` goes through `aesd_cleanup_module` before anything was registered. -/
theorem no_strays_iff (cfg : KernelConfig) (events : List ModuleEvent) :
    Returns (Machine.run (moduleStep cfg) events) .start fun _ m =>
      m.strays = [] ↔ Machine.Meets (moduleStep cfg) ModuleEvent.GetsMajor events .start := by
  have hall : Machine.Meets (moduleStep cfg) (fun _ _ => True) events .start :=
    Machine.meets_iff.mpr fun _ _ _ _ _ _ _ => trivial
  have hrun := Machine.run_meets_iff (B := ModuleEvent.GetsMajor) (f := Service.next cfg)
    (fun service m => Provides cfg m service ∧ m.strays = [])
    (fun service m => Provides cfg m service ∧ m.strays ≠ []) ?_ ?_ events
    ⟨start_provides cfg, rfl⟩ hall
  · refine hrun.mono ?_
    rintro _ m (⟨hmeets, -, hnil⟩ | ⟨hmeets, -, hstrays⟩)
    · exact iff_of_true hnil hmeets
    · exact iff_of_false hstrays hmeets
  · rintro e m service ⟨h, hnil⟩ -
    refine (moduleStep_provides h e).mono ?_
    rintro _ m' ⟨h', hstrays⟩
    rw [hnil, List.nil_append] at hstrays
    rw [← strays_eq_nil_iff h e, ← hstrays]
    by_cases hnil' : m'.strays = []
    · exact .inl ⟨hnil', h', hnil'⟩
    · exact .inr ⟨hnil', h', hnil'⟩
  · rintro e m service ⟨h, hne⟩ -
    refine (moduleStep_provides h e).mono ?_
    rintro _ m' ⟨h', hstrays⟩
    refine ⟨h', ?_⟩
    rw [hstrays]
    exact List.append_ne_nil_of_left_ne_nil hne _

/-- No number is left for the device. -/
example :
    Except.map (fun p => p.2.strays)
      (moduleStep .usual (.insmod ⟨.error ⟨-12, by decide⟩, none⟩) .start)
        = .ok [.cdev, .region 0] := by
  decide

end Aesd.Loading
