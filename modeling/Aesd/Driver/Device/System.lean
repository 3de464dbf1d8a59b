import Aesd.Driver.Device.Basic
import Aesd.Library.Machine

/-!
# Open files and system calls

The device as user space meets it: any number of open files, each with its own position, and the
calls made on them in any order. Every call comes with the outcomes of the kernel calls it makes.
-/

namespace Aesd

open Exec

abbrev FileId := ℕ

/-- The kernel, and the position of every open file. -/
structure System where
  kernel : Kernel
  fPos : FileId → Option ℤ

inductive FileOp where
  | open
  | release
  | read (count : ℕ)
  | write (data : List Byte)
  | llseek (off whence : ℤ)
  | ioctl (cmd : UInt32) (arg : AesdSeekto)
  deriving DecidableEq, Repr

/-- A call on a file. -/
structure Call where
  file : FileId
  op : FileOp
  outcomes : Outcomes

/-- What a call returns to user space: a value, and the bytes of a read. -/
structure CallResult where
  retVal : ℤ
  data : List Byte
  deriving DecidableEq, Repr

/-- The bytes that a call delivered: the first ones of its buffer, as many as it returned. -/
def CallResult.delivered (r : CallResult) : List Byte := r.data.take r.retVal.toNat

/-- The error of the file table for a file that is not open, or an `open` of one that is. -/
def EBADF : ℤ := 9

/-- Run a driver function with the given outcomes of the kernel calls it makes. -/
def withOutcomes {α : Type} (o : Outcomes) (m : KernelM α) : Exec Fault System α := fun s =>
  match m { s.kernel with outcomes := o } with
  | .ok (a, k) => .ok (a, { s with kernel := { k with outcomes := {} } })
  | .error e => .error e

/-- An operation on an open file with position `fPos`. -/
def fileOp (cfg : KernelConfig) (c : Call) (fPos : ℤ) : Exec Fault System CallResult :=
  match c.op with
  | .open => pure ⟨-EBADF, []⟩
  | .release => do
    let ret ← withOutcomes c.outcomes aesdRelease
    update fun s => { s with fPos := Function.update s.fPos c.file none }
    pure ⟨ret, []⟩
  | .read count => do
    let r ← withOutcomes c.outcomes (aesdRead count fPos)
    update fun s => { s with fPos := Function.update s.fPos c.file (some r.fPos) }
    pure ⟨r.retVal, r.data⟩
  | .write data => do
    let ret ← withOutcomes c.outcomes (aesdWrite cfg data data.length)
    pure ⟨ret, []⟩
  | .llseek off whence => do
    let ret ← withOutcomes c.outcomes (aesdLlseek (toLoff off) whence)
    pure ⟨ret, []⟩
  | .ioctl cmd arg => do
    let ret ← withOutcomes c.outcomes (aesdIoctl cmd arg)
    pure ⟨ret, []⟩

/-- The step of the system. A file starts at position zero when it is opened. -/
def sysCall (cfg : KernelConfig) (c : Call) : Exec Fault System CallResult := do
  match ← read fun s => s.fPos c.file with
  | some fPos => fileOp cfg c fPos
  | none =>
    if c.op = .open then
      let ret ← withOutcomes c.outcomes aesdOpen
      update fun s => { s with fPos := Function.update s.fPos c.file (some 0) }
      pure ⟨ret, []⟩
    else pure ⟨-EBADF, []⟩

/-- The system after the module was loaded: no file is open. -/
def System.init : System := ⟨Kernel.init, fun _ => none⟩

/-- The states that some sequence of calls reaches. -/
def System.Reachable (cfg : KernelConfig) (s : System) : Prop :=
  Machine.Reachable (sysCall cfg) .init s

end Aesd
