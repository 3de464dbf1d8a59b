import Aesd.Driver.Device.Write
import Aesd.Library.Machine

/-!
# Runs of writes

Any number of writes on a device, with any outcome of their allocations and of their waits for
locks.
-/

namespace Aesd

open Exec Kernel

variable {cfg : KernelConfig} {k : Kernel}

/-- A write of all of its data. -/
def userWrite (cfg : KernelConfig) (data : List Byte) : KernelM ℤ := aesdWrite cfg data data.length

/-- The device between two calls. -/
structure Kernel.Idle (cfg : KernelConfig) (k : Kernel) : Prop where
  inv : k.Inv cfg
  held : k.held = []

/-- What an attempt to write `data` does to the log of the device. -/
def Kernel.attempt (cfg : KernelConfig) (k : Kernel) (data : List Byte) :
    StagedLog.Verdict × StagedLog Byte :=
  k.log.submit maxWriteOperations cfg.kmallocMaxSize newline data

lemma init_idle (cfg : KernelConfig) (o : Outcomes) :
    Kernel.Idle cfg { Kernel.init with outcomes := o } where
  inv := { Kernel.init_inv with }
  held := rfl

lemma Kernel.Idle.given (h : k.Idle cfg) (o : Outcomes) :
    Kernel.Idle cfg { k with outcomes := o } where
  inv := { h.inv with }
  held := h.held

/-- A write returns, and is an attempt on the log of the device. -/
lemma Kernel.Idle.userWrite_spec (h : k.Idle cfg) (data : List Byte) :
    Returns (userWrite cfg data) k fun r k' =>
      k'.Idle cfg ∧ r = writeRet data.length (k.attempt cfg data).1 ∧
        k'.log = (k.attempt cfg data).2 := by
  refine (aesdWrite_spec h.inv h.held data).mono ?_
  rintro r k' ⟨hinv, hheld, -, hr, hlog⟩
  exact ⟨⟨hinv, hheld⟩, hr, hlog⟩

/-- Every run of writes returns. -/
lemma Kernel.Idle.run_userWrite (h : k.Idle cfg) (writes : List (List Byte)) :
    Returns (Machine.run (userWrite cfg) writes) k fun _ k' => k'.Idle cfg := by
  refine Machine.run_invariant ?_ writes h
  intro data k h
  refine (h.userWrite_spec data).mono ?_
  rintro r k' ⟨hidle, -, -⟩
  exact hidle

end Aesd
