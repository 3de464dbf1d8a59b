import Aesd.Driver.Device.Writes
import Aesd.Library.StagedLaws

/-!
# The shape of the entries

The index of a seek command counts entries and means lines. The two agree as long as every line is
flushed when it is complete; `aesd_write` goes on when a flush was interrupted, and the line stays
on the stage for later data to be appended to it.
-/

namespace Aesd

open Exec Kernel

variable {cfg : KernelConfig} {k : Kernel}

/-- The write is admitted, and one of its flushes is put off because the wait for the lock of the
ring is interrupted. -/
def Kernel.PutsOffFlush (cfg : KernelConfig) (k : Kernel) (data : List Byte) : Prop :=
  k.log.interrupted.headD false = false ∧
  k.log.staged.length + data.length ≤ cfg.kmallocMaxSize ∧
  StagedLog.putOff k.log.stage.isSome (Delimited.lines newline data).length k.log.allocFails
    k.log.interrupted.tail = true

instance (cfg : KernelConfig) (k : Kernel) (data : List Byte) :
    Decidable (k.PutsOffFlush cfg data) :=
  inferInstanceAs (Decidable (_ ∧ _ ∧ _))

/-- A write that puts off no flush keeps the shape of what is stored. -/
lemma Kernel.Idle.userWrite_shaped (h : k.Idle cfg) (hshape : k.log.Shaped newline)
    {data : List Byte} (hflush : ¬ k.PutsOffFlush cfg data) :
    Returns (userWrite cfg data) k fun _ k' => k'.Idle cfg ∧ k'.log.Shaped newline := by
  refine (h.userWrite_spec data).mono ?_
  rintro r k' ⟨hidle, -, hlog⟩
  refine ⟨hidle, ?_⟩
  rw [hlog]
  apply StagedLog.Shaped.submit hshape
  intro hint hroom
  by_contra hput
  exact hflush ⟨hint, hroom, by simpa using hput⟩

/-- An entry is one line: not empty, and its only newline is its last byte. -/
lemma isLine_newline {l : List Byte} (h : StagedLog.IsLine newline l) :
    l ≠ [] ∧ l.count newline = 1 ∧ l.getLast? = some newline := by
  obtain ⟨u, hu, rfl⟩ := h
  refine ⟨by simp, ?_, List.getLast?_concat⟩
  rw [List.count_append, List.count_eq_zero_of_not_mem hu, List.count_singleton_self]

/-- After any run of writes that put off no flush, every entry is one line, and there is no newline
on the stage. -/
theorem entries_are_lines (cfg : KernelConfig) (writes : List (List Byte)) (o : Outcomes)
    (hflush : Machine.Meets (userWrite cfg) (fun k data => ¬ k.PutsOffFlush cfg data) writes
      { Kernel.init with outcomes := o }) :
    Returns (Machine.run (userWrite cfg) writes) { Kernel.init with outcomes := o } fun _ k =>
      (∀ l ∈ k.lines, l ≠ [] ∧ l.count newline = 1 ∧ l.getLast? = some newline) ∧
      newline ∉ k.log.staged := by
  refine (Machine.run_meets (I := fun (_ : Unit) k => k.Idle cfg ∧ k.log.Shaped newline)
    (f := fun _ _ => ()) (b := ()) ?_ writes ⟨init_idle cfg o, ?_⟩ hflush).mono ?_
  · rintro data k - ⟨h, hshape⟩ hflush
    exact h.userWrite_shaped hshape hflush
  · constructor
    · intro l hl
      cases hl
    · exact List.not_mem_nil
  · rintro _ k ⟨-, hlines, hstaged⟩
    refine ⟨?_, hstaged⟩
    intro l hl
    exact isLine_newline (hlines l hl)

/-- A run whose second allocation fails, and whose last write is interrupted before it starts. -/
theorem entries_are_lines_three_writes :
    Returns (Machine.run (userWrite .usual) [[97, 10], [98], [99, 10]])
      { Kernel.init with outcomes :=
        { allocFails := [false, true], interrupted := [false, false, false, true] } } fun _ k =>
      (∀ l ∈ k.lines, l ≠ [] ∧ l.count newline = 1 ∧ l.getLast? = some newline) ∧
      newline ∉ k.log.staged :=
  entries_are_lines .usual _ _ (by decide +kernel)

/-- The flush behind `a\\n` is interrupted: the write returns with the newline on the stage, and the
next line becomes one entry with it. -/
theorem entries_not_lines :
    (∃ k, Machine.run (userWrite .usual) [[97, 10]]
        { Kernel.init with outcomes := { interrupted := [false, true] } } = .ok ([2], k) ∧
      k.log.staged = [97, 10]) ∧
    ∃ k, Machine.run (userWrite .usual) [[97, 10], [98, 10]]
        { Kernel.init with outcomes := { interrupted := [false, true] } } = .ok ([2, 2], k) ∧
      k.lines = [[97, 10, 98, 10]] := by
  have hfirst : Except.map (fun q => (q.1, q.2.log.staged)) (Machine.run (userWrite .usual)
      [[97, 10]] { Kernel.init with outcomes := { interrupted := [false, true] } })
      = .ok ([2], [97, 10]) := by decide +kernel
  have hsecond : Except.map (fun q => (q.1, q.2.lines)) (Machine.run (userWrite .usual)
      [[97, 10], [98, 10]] { Kernel.init with outcomes := { interrupted := [false, true] } })
      = .ok ([2, 2], [[97, 10, 98, 10]]) := by decide +kernel
  obtain ⟨⟨rets, k⟩, hrun, hk⟩ := exists_of_map_ok hfirst
  obtain ⟨⟨rets', k'⟩, hrun', hk'⟩ := exists_of_map_ok hsecond
  obtain rfl : rets = [2] := congrArg Prod.fst hk
  obtain rfl : rets' = [2, 2] := congrArg Prod.fst hk'
  exact ⟨⟨k, hrun, congrArg Prod.snd hk⟩, k', hrun', congrArg Prod.snd hk'⟩

end Aesd
