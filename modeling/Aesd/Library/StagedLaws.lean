import Aesd.Library.StagedLog

/-!
# What attempts to write keep

Laws of the staged log that hold however the allocations and the flushes end: how much an attempt
can leave on the stage, and what the lines look like as long as no flush is put off.
-/

namespace StagedLog

variable {α : Type*} {n cap : ℕ} {d : α} {data : List α} {t : StagedLog α}

/-! ### Room on the stage -/

lemma length_staged_store_le (t : StagedLog α) (data : List α) :
    (t.store data).2.staged.length ≤ t.staged.length + data.length := by
  rcases store_cases t data with ⟨-, -, hstore⟩ | ⟨-, hstore⟩
  · rw [hstore]
    exact Nat.le_add_right _ _
  · rw [hstore]
    exact (List.length_append ..).le

lemma length_staged_flush_le (n : ℕ) (t : StagedLog α) :
    (t.flush n).staged.length ≤ t.staged.length := by
  rw [flush]
  split_ifs
  · exact le_rfl
  · exact Nat.zero_le _

lemma length_staged_writeLines_le (n : ℕ) (ls : List (List α)) (t : StagedLog α) :
    (t.writeLines n ls).2.staged.length ≤ t.staged.length + ls.flatten.length := by
  induction ls generalizing t with
  | nil => exact Nat.le_add_right _ _
  | cons l ls ih =>
    have hstore := length_staged_store_le t l
    rw [writeLines, List.flatten_cons, List.length_append]
    generalize t.store l = st at hstore
    obtain ⟨ok, t'⟩ := st
    cases ok with
    | false =>
      dsimp only at hstore ⊢
      omega
    | true =>
      have hflush := length_staged_flush_le n t'
      have hrest := ih (t'.flush n)
      dsimp only at hstore ⊢
      omega

lemma length_staged_storeRest_le (data : List α) (t : StagedLog α) :
    (t.storeRest data).staged.length ≤ t.staged.length + data.length := by
  rw [storeRest]
  split_ifs
  · exact Nat.le_add_right _ _
  · exact length_staged_store_le t data

section submit

variable [DecidableEq α]

lemma length_staged_write_le (n : ℕ) (d : α) (data : List α) (t : StagedLog α) :
    (t.write n d data).2.staged.length ≤ t.staged.length + data.length := by
  have hlines := length_staged_writeLines_le n (Delimited.lines d data) t
  have hdata := congrArg List.length (Delimited.flatten_lines_append_rest d data)
  rw [List.length_append] at hdata
  rw [write]
  generalize t.writeLines n (Delimited.lines d data) = wl at hlines
  obtain ⟨ok, t'⟩ := wl
  cases ok with
  | false =>
    dsimp only at hlines ⊢
    omega
  | true =>
    have hrest := length_staged_storeRest_le (Delimited.rest d data) t'
    dsimp only at hlines ⊢
    omega

/-- An attempt fills the stage only if it has just as many symbols as there is room. -/
lemma length_staged_submit_lt (hlt : t.staged.length < cap)
    (hfit : t.staged.length + data.length ≠ cap) :
    (t.submit n cap d data).2.staged.length < cap := by
  have hwrite := length_staged_write_le n d data { t with interrupted := t.interrupted.tail }
  change _ ≤ t.staged.length + data.length at hwrite
  rw [submit]
  split_ifs
  · exact hlt
  · exact hlt
  · generalize write n d data { t with interrupted := t.interrupted.tail } = w at hwrite
    obtain ⟨ok, t'⟩ := w
    cases ok with
    | false =>
      dsimp only at hwrite ⊢
      omega
    | true =>
      dsimp only at hwrite ⊢
      omega

/-- A full stage admits nothing. -/
lemma submit_of_full (hfull : cap ≤ t.staged.length) (hdata : data ≠ []) :
    (t.submit n cap d data).1 ≠ .written ∧ (t.submit n cap d data).2.staged = t.staged := by
  have hpos := List.length_pos_of_ne_nil hdata
  rw [submit]
  split_ifs
  · exact ⟨by simp, rfl⟩
  · exact ⟨by simp, rfl⟩
  · omega

/-- A delimiter that is admitted commits the stage, whatever is on it. -/
lemma submit_delim_of_quiet (h : t.Quiet) (hroom : t.staged.length < cap) :
    ∃ t', t.submit n cap d [d] = (.written, t') ∧
      t'.lines = pushLast n t.lines (t.staged ++ [d]) ∧ t'.staged = [] := by
  have hint : ¬ t.interrupted.headD false = true := by
    rw [headD_of_notMem h.2]
    simp
  have hfits : ¬ cap < t.staged.length + [d].length := by
    rw [List.length_singleton]
    omega
  have hquiet : ({ t with interrupted := t.interrupted.tail } : StagedLog α).Quiet :=
    ⟨h.1, notMem_tail h.2⟩
  obtain ⟨t', hwrite, -, hlines, hstage⟩ := writeLines_cons_of_quiet hquiet n [d] []
  refine ⟨t', ?_, hlines, ?_⟩
  · rw [submit, if_neg hint, if_neg hfits, write, Delimited.lines_cons_delim,
      Delimited.lines_nil, hwrite, Delimited.rest_cons_delim, Delimited.rest_nil]
    rfl
  · rw [staged, hstage]
    rfl

end submit

/-! ### The shape of the lines -/

/-- A line: its only delimiter is its last symbol. -/
def IsLine (d : α) (l : List α) : Prop := ∃ u, d ∉ u ∧ l = u ++ [d]

/-- All that is stored are lines, and the stage holds the beginning of one. -/
def Shaped (d : α) (t : StagedLog α) : Prop := (∀ l ∈ t.lines, IsLine d l) ∧ d ∉ t.staged

/-- Of the flushes behind a number of lines, one is put off by an interruption. -/
def putOff : Bool → ℕ → List Bool → List Bool → Bool
  | _, 0, _, _ => false
  | allocated, m + 1, allocFails, interrupted =>
    if !allocated && allocFails.headD false then false
    else interrupted.headD false ||
      putOff false m (if allocated then allocFails else allocFails.tail) interrupted.tail

lemma isLine_append {u v : List α} (hu : d ∉ u) (hv : IsLine d v) : IsLine d (u ++ v) := by
  obtain ⟨w, hw, rfl⟩ := hv
  refine ⟨u ++ w, ?_, (List.append_assoc ..).symm⟩
  rw [List.mem_append, not_or]
  exact ⟨hu, hw⟩

lemma Shaped.store_of_notMem (h : t.Shaped d) {data : List α} (hdata : d ∉ data) :
    (t.store data).2.Shaped d := by
  rcases store_cases t data with ⟨-, -, hstore⟩ | ⟨-, hstore⟩
  · rw [hstore]
    exact h
  · rw [hstore]
    refine ⟨h.1, ?_⟩
    change d ∉ t.staged ++ data
    rw [List.mem_append, not_or]
    exact ⟨h.2, hdata⟩

/-- A line that is stored and flushed keeps the shape. -/
lemma Shaped.writeLines (h : t.Shaped d) {ls : List (List α)} (hls : ∀ l ∈ ls, IsLine d l)
    (hflush : putOff t.stage.isSome ls.length t.allocFails t.interrupted = false) :
    (t.writeLines n ls).2.Shaped d := by
  induction ls generalizing t with
  | nil => exact h
  | cons l ls ih =>
    rcases store_cases t l with ⟨-, -, hstore⟩ | ⟨hf, hstore⟩
    · rw [StagedLog.writeLines, hstore]
      exact h
    · rw [List.length_cons, putOff, hf, if_neg (by simp), Bool.or_eq_false_iff] at hflush
      obtain ⟨hint, hrest⟩ := hflush
      rw [StagedLog.writeLines, hstore]
      dsimp only
      rw [flush, if_neg (ne_true_of_eq_false hint)]
      refine ih ⟨?_, List.not_mem_nil⟩ (fun l' hl' => hls l' (List.mem_cons_of_mem l hl')) hrest
      intro l' hl'
      rcases List.mem_append.mp (mem_of_mem_rtake hl') with hl' | hl'
      · exact h.1 l' hl'
      · rw [List.mem_singleton.mp hl']
        exact isLine_append h.2 (hls l List.mem_cons_self)

/-- An attempt keeps the shape, unless it is admitted and one of its flushes is put off. -/
lemma Shaped.submit [DecidableEq α] (h : t.Shaped d) (data : List α)
    (hflush : t.interrupted.headD false = false → t.staged.length + data.length ≤ cap →
      putOff t.stage.isSome (Delimited.lines d data).length t.allocFails t.interrupted.tail
        = false) :
    (t.submit n cap d data).2.Shaped d := by
  rw [StagedLog.submit]
  split_ifs with hint hroom
  · exact h
  · exact h
  · have hlines := Shaped.writeLines (n := n) (t := { t with interrupted := t.interrupted.tail }) h
      (fun l hl => Delimited.exists_of_mem_lines hl) (hflush (by simpa using hint) (by omega))
    rw [write]
    generalize StagedLog.writeLines n (Delimited.lines d data)
      { t with interrupted := t.interrupted.tail } = wl at hlines
    obtain ⟨ok, t'⟩ := wl
    cases ok with
    | false => exact hlines
    | true =>
      change (t'.storeRest (Delimited.rest d data)).Shaped d
      rw [storeRest]
      split_ifs
      · exact hlines
      · exact hlines.store_of_notMem (Delimited.notMem_rest d data)

/-! ### Memory for what is left over -/

/-- Whether an allocation will fail after a line that is stored and flushed, seen from before it. -/
lemma isNone_failsAfter_succ (n m : ℕ) (data : List α)
    (hf : (!t.stage.isSome && t.allocFails.headD false) = false) :
    (failsAfter t.stage.isSome (m + 1) t.allocFails t.interrupted).isNone =
      (failsAfter ((t.store data).2.flush n).stage.isSome m ((t.store data).2.flush n).allocFails
        ((t.store data).2.flush n).interrupted).isNone := by
  rcases store_cases t data with ⟨hs, hfails, -⟩ | ⟨-, hstore⟩
  · rw [hs, hfails] at hf
    cases hf
  · rw [failsAfter, hf, if_neg (by simp), hstore]
    cases hi : t.interrupted.headD false with
    | true => simp only [flush, hi, if_true, Option.isSome_some]
    | false =>
      simp only [flush, hi, Bool.false_eq_true, if_false, Option.isSome_none, Option.isNone_map]

/-- Behind lines that were stored, storing more fails exactly if storing one more line would. -/
lemma store_writeLines (n : ℕ) (ls : List (List α)) (data : List α)
    (h : (failsAfter t.stage.isSome ls.length t.allocFails t.interrupted).isNone) :
    ((t.writeLines n ls).2.store data).1 =
      (failsAfter t.stage.isSome (ls.length + 1) t.allocFails t.interrupted).isNone := by
  induction ls generalizing t with
  | nil =>
    rcases store_cases t data with ⟨hs, hf, hstore⟩ | ⟨hf, hstore⟩
    · simp only [writeLines, hstore, List.length_nil, failsAfter, hs, hf]
      rfl
    · rw [List.length_nil, isNone_failsAfter_succ n 0 data hf]
      simp only [writeLines, hstore, failsAfter, Option.isNone_none]
  | cons l ls ih =>
    rcases store_cases t l with ⟨hs, hf, -⟩ | ⟨hf, hstore⟩
    · rw [List.length_cons, hs, failsAfter, hf] at h
      cases h
    · rw [List.length_cons, isNone_failsAfter_succ n _ l hf] at h
      have hwrite : t.writeLines n (l :: ls) = ((t.store l).2.flush n).writeLines n ls := by
        rw [writeLines, hstore]
      rw [List.length_cons, isNone_failsAfter_succ n _ l hf, hwrite]
      exact ih h

/-- The data has something left over behind its lines, and the lines find memory, but what is left
over does not. -/
def LosesRest [DecidableEq α] (d : α) (data : List α) (t : StagedLog α) : Prop :=
  Delimited.rest d data ≠ [] ∧
  (failsAfter t.stage.isSome (Delimited.lines d data).length t.allocFails t.interrupted).isNone ∧
  ¬ (failsAfter t.stage.isSome ((Delimited.lines d data).length + 1) t.allocFails
    t.interrupted).isNone

end StagedLog
