import Aesd.Library.LineLog

/-!
# A line log in an environment that fails

The same log when its stage has to be allocated, which may fail, and when moving a line from the
stage to the log may be put off by an interruption. Both kinds of event are read from a list; an
exhausted list means that nothing goes wrong.
-/

structure StagedLog (α : Type*) where
  lines : List (List α)
  stage : Option (List α)
  allocFails : List Bool
  interrupted : List Bool

namespace StagedLog

variable {α : Type*}

/-- The bytes on the stage; none if it is not allocated. -/
def staged (t : StagedLog α) : List α := t.stage.getD []

/-- Append to the stage, which is allocated if it has to be: false if that fails. -/
def store (data : List α) (t : StagedLog α) : Bool × StagedLog α :=
  match t.stage with
  | some s => (true, { t with stage := some (s ++ data) })
  | none =>
    if t.allocFails.headD false then (false, { t with allocFails := t.allocFails.tail })
    else (true, { t with stage := some data, allocFails := t.allocFails.tail })

/-- Move the stage to a log of `n` lines, unless interrupted. -/
def flush (n : ℕ) (t : StagedLog α) : StagedLog α :=
  if t.interrupted.headD false then { t with interrupted := t.interrupted.tail }
  else { t with
    interrupted := t.interrupted.tail
    lines := pushLast n t.lines t.staged
    stage := none }

/-- Store and flush line by line, and stop at the first line that cannot be stored. -/
def writeLines (n : ℕ) : List (List α) → StagedLog α → Bool × StagedLog α
  | [], t => (true, t)
  | l :: ls, t =>
    match t.store l with
    | (true, t') => writeLines n ls (t'.flush n)
    | (false, t') => (false, t')

/-- Store what is left over, if anything is; nobody is told if that fails. -/
def storeRest (data : List α) (t : StagedLog α) : StagedLog α :=
  if data = [] then t else (t.store data).2

/-- Write data delimited by `d`: false if a line could not be stored. -/
def write [DecidableEq α] (n : ℕ) (d : α) (data : List α) (t : StagedLog α) : Bool × StagedLog α :=
  match t.writeLines n (Delimited.lines d data) with
  | (true, t') => (true, t'.storeRest (Delimited.rest d data))
  | (false, t') => (false, t')

/-- How an attempt to write ends. -/
inductive Verdict where
  | interrupted
  | refused
  | failed
  | written
  deriving DecidableEq, Repr

/-- An attempt to write: it may be interrupted before it starts, and is refused if the stage could
overflow its capacity. -/
def submit [DecidableEq α] (n cap : ℕ) (d : α) (data : List α) (t : StagedLog α) :
    Verdict × StagedLog α :=
  let t' := { t with interrupted := t.interrupted.tail }
  if t.interrupted.headD false then (.interrupted, t')
  else if cap < t.staged.length + data.length then (.refused, t')
  else
    match t'.write n d data with
    | (true, t'') => (.written, t'')
    | (false, t'') => (.failed, t'')

/-! ### What is committed -/

/-- The entries that flushing after each line moves to the log, when an interrupted flush leaves its
line on the stage for the next. -/
def committed : List α → List (List α) → List Bool → List (List α)
  | _, [], _ => []
  | staged, l :: ls, interrupted =>
    if interrupted.headD false then committed (staged ++ l) ls interrupted.tail
    else (staged ++ l) :: committed [] ls interrupted.tail

/-- The number of entries that are moved to the log before an allocation fails, if one fails, for a
number of lines and a stage that is allocated or not. -/
def failsAfter : Bool → ℕ → List Bool → List Bool → Option ℕ
  | _, 0, _, _ => none
  | allocated, m + 1, allocFails, interrupted =>
    if !allocated && allocFails.headD false then some 0
    else
      let allocFails := if allocated then allocFails else allocFails.tail
      if interrupted.headD false then failsAfter true m allocFails interrupted.tail
      else (failsAfter false m allocFails interrupted.tail).map (· + 1)

/-- The failure that lies ahead of the lines, and the entries that they commit before it. -/
def failure (ls : List (List α)) (t : StagedLog α) : Option ℕ :=
  failsAfter t.stage.isSome ls.length t.allocFails t.interrupted

def commits (ls : List (List α)) (t : StagedLog α) : List (List α) :=
  match t.failure ls with
  | none => committed t.staged ls t.interrupted
  | some j => (committed t.staged ls t.interrupted).take j

/-- A stage that is allocated has to be committed before an allocation can fail. -/
lemma pos_of_failsAfter {m j : ℕ} {allocFails interrupted : List Bool}
    (h : failsAfter true m allocFails interrupted = some j) : 0 < j := by
  induction m generalizing interrupted with
  | zero => cases h
  | succ m ih =>
    simp only [failsAfter, Bool.not_true, Bool.false_and, Bool.false_eq_true, if_false,
      if_true] at h
    split_ifs at h with hi
    · exact ih h
    · obtain ⟨j', -, rfl⟩ := Option.map_eq_some_iff.mp h
      exact Nat.succ_pos j'

/-- A line that can be stored is on the stage, and an allocation was needed if there was none. -/
lemma store_cases (t : StagedLog α) (data : List α) :
    (t.stage = none ∧ t.allocFails.headD false = true ∧
      t.store data = (false, { t with allocFails := t.allocFails.tail })) ∨
    ((!t.stage.isSome && t.allocFails.headD false) = false ∧
      t.store data = (true, { t with
        stage := some (t.staged ++ data)
        allocFails := if t.stage.isSome then t.allocFails else t.allocFails.tail })) := by
  cases hs : t.stage with
  | some s => simp [store, staged, hs]
  | none =>
    cases hf : t.allocFails.headD false with
    | true =>
      left
      simp only [store, hs, hf, if_true, true_and]
    | false =>
      right
      simp only [store, staged, hs, hf, Bool.false_eq_true, if_false]
      simp

/-- What writing line by line does, in terms of the entries it commits. -/
lemma writeLines_eq {n : ℕ} {t : StagedLog α} (hlen : t.lines.length ≤ n) (ls : List (List α)) :
    ∃ t', t.writeLines n ls = ((t.failure ls).isNone, t') ∧
      t'.lines = (t.lines ++ t.commits ls).rtake n ∧
      ∀ j, t.failure ls = some j → t'.staged = if j = 0 then t.staged else [] := by
  induction ls generalizing t with
  | nil => exact ⟨t, rfl, by simp [commits, failure, failsAfter, committed, rtake_eq_self hlen],
      by rintro j ⟨⟩⟩
  | cons l ls ih =>
    rcases store_cases t l with ⟨hs, hf, hstore⟩ | ⟨hf, hstore⟩
    · have hfail : t.failure (l :: ls) = some 0 := by
        simp only [failure, List.length_cons, failsAfter, hs, hf]
        rfl
      refine ⟨{ t with allocFails := t.allocFails.tail }, ?_, ?_, ?_⟩
      · rw [writeLines, hstore, hfail]
        rfl
      · simp [commits, hfail, rtake_eq_self hlen]
      · rintro j hj
        rw [hfail] at hj
        cases hj
        rfl
    · -- `t₁` has the line on the stage
      set t₁ : StagedLog α := { t with
        stage := some (t.staged ++ l)
        allocFails := if t.stage.isSome then t.allocFails else t.allocFails.tail } with ht₁
      have hcons : t.writeLines n (l :: ls) = (t₁.flush n).writeLines n ls := by
        rw [writeLines, hstore]
      cases hi : t.interrupted.headD false with
      | true =>
        have hflush : t₁.flush n = { t₁ with interrupted := t.interrupted.tail } := by
          simp only [flush, ht₁, hi, if_true]
        have hfail : t.failure (l :: ls) = (t₁.flush n).failure ls := by
          rw [hflush]
          simp only [failure, List.length_cons, failsAfter, hf, hi, if_true, Bool.false_eq_true,
            if_false]
          rfl
        have hcommits : t.commits (l :: ls) = (t₁.flush n).commits ls := by
          rw [commits, commits, hfail, hflush]
          simp only [committed, hi, if_true, staged, ht₁, Option.getD_some]
        obtain ⟨t', hwrite, hlines, hstaged⟩ := ih (t := t₁.flush n) (by rw [hflush]; exact hlen)
        refine ⟨t', by rw [hcons, hwrite, hfail], ?_, fun j hj => ?_⟩
        · rw [hlines, hcommits, hflush]
        · rw [hfail] at hj
          have hpos : 0 < j := by
            rw [failure, hflush] at hj
            exact pos_of_failsAfter hj
          rw [hstaged j hj, if_neg (by omega), if_neg (by omega)]
      | false =>
        have hflush : t₁.flush n = { t₁ with
            interrupted := t.interrupted.tail
            lines := pushLast n t.lines (t.staged ++ l)
            stage := none } := by
          simp only [flush, ht₁, hi, Bool.false_eq_true, if_false, staged, Option.getD_some]
        have hfail : t.failure (l :: ls) = ((t₁.flush n).failure ls).map (· + 1) := by
          rw [hflush]
          simp only [failure, List.length_cons, failsAfter, hf, hi, Bool.false_eq_true, if_false]
          rfl
        have hcommits : t.commits (l :: ls) = (t.staged ++ l) :: (t₁.flush n).commits ls := by
          have hcommitted : committed t.staged (l :: ls) t.interrupted
              = (t.staged ++ l) :: committed [] ls t.interrupted.tail := by
            simp only [committed, hi, Bool.false_eq_true, if_false]
          rw [commits, commits, hfail, hflush, hcommitted]
          cases failure ls _ <;> rfl
        obtain ⟨t', hwrite, hlines, hstaged⟩ := ih (t := t₁.flush n) (by
          rw [hflush]
          simp [pushLast])
        refine ⟨t', by rw [hcons, hwrite, hfail, Option.isNone_map], ?_, fun j hj => ?_⟩
        · rw [hlines, hcommits, hflush, pushLast, rtake_rtake_append, List.append_assoc,
            List.singleton_append]
        · rw [hfail] at hj
          obtain ⟨j', hj', rfl⟩ := Option.map_eq_some_iff.mp hj
          have hnil : (t₁.flush n).staged = [] := by
            rw [hflush]
            rfl
          rw [hstaged j' hj', hnil, ite_self, if_neg (Nat.succ_ne_zero j')]

lemma storeRest_lines (data : List α) (t : StagedLog α) : (t.storeRest data).lines = t.lines := by
  rw [storeRest]
  split_ifs
  · rfl
  · rcases store_cases t data with ⟨-, -, hstore⟩ | ⟨-, hstore⟩ <;> rw [hstore]

section submit

variable [DecidableEq α] {n cap : ℕ} {d : α} {data : List α} {t : StagedLog α}

/-- An attempt that was written has added what its lines commit. -/
lemma submit_of_written (hlen : t.lines.length ≤ n)
    (h : (t.submit n cap d data).1 = .written) :
    (t.submit n cap d data).2.lines
      = (t.lines ++ committed t.staged (Delimited.lines d data) t.interrupted.tail).rtake n := by
  obtain ⟨t', hwrite, hlines, -⟩ := writeLines_eq
    (t := { t with interrupted := t.interrupted.tail }) hlen (Delimited.lines d data)
  rw [submit, write, hwrite] at h ⊢
  split_ifs at h ⊢
  cases hfail : failure (Delimited.lines d data) { t with interrupted := t.interrupted.tail } with
  | none =>
    rw [commits, hfail] at hlines
    exact (storeRest_lines _ t').trans hlines
  | some j =>
    rw [hfail] at h
    cases h

/-- An attempt that goes wrong in the middle: an allocation fails after some entries were moved to
the log. If the stage was empty, the log may still look as before, in that it was full and pushing
the entries gives the same lines again. -/
def Torn (n cap : ℕ) (d : α) (data : List α) (t : StagedLog α) : Prop :=
  t.interrupted.headD false = false ∧ t.staged.length + data.length ≤ cap ∧
  ∃ j, 0 < j ∧ failsAfter t.stage.isSome (Delimited.lines d data).length t.allocFails
      t.interrupted.tail = some j ∧
    ¬ (t.staged = [] ∧ (t.lines ++ (committed t.staged (Delimited.lines d data)
      t.interrupted.tail).take j).rtake n = t.lines)

/-- Exactly the torn attempts are not written and yet leave a trace. -/
lemma submit_unchanged_iff (hlen : t.lines.length ≤ n) :
    ((t.submit n cap d data).1 ≠ .written →
      (t.submit n cap d data).2.lines = t.lines ∧ (t.submit n cap d data).2.staged = t.staged) ↔
    ¬ t.Torn n cap d data := by
  obtain ⟨t', hwrite, hlines, hstaged⟩ := writeLines_eq
    (t := { t with interrupted := t.interrupted.tail }) hlen (Delimited.lines d data)
  rw [submit, write, hwrite, Torn]
  by_cases hi : t.interrupted.headD false = true
  · rw [if_pos hi]
    refine iff_of_true (fun _ => ⟨rfl, rfl⟩) ?_
    rintro ⟨hi', -⟩
    exact absurd (hi.symm.trans hi') (by simp)
  rw [if_neg hi]
  by_cases hroom : cap < t.staged.length + data.length
  · rw [if_pos hroom]
    refine iff_of_true (fun _ => ⟨rfl, rfl⟩) ?_
    rintro ⟨-, hle, -⟩
    omega
  rw [if_neg hroom]
  have hfail_eq : failsAfter t.stage.isSome (Delimited.lines d data).length t.allocFails
      t.interrupted.tail
      = failure (Delimited.lines d data) { t with interrupted := t.interrupted.tail } := rfl
  rw [hfail_eq]
  cases hfail : failure (Delimited.lines d data) { t with interrupted := t.interrupted.tail } with
  | none => exact iff_of_true (fun hne => absurd rfl hne) (by rintro ⟨-, -, j, -, ⟨⟩, -⟩)
  | some j =>
    simp only [commits, hfail] at hlines
    have hstaged' := hstaged j hfail
    rcases Nat.eq_zero_or_pos j with rfl | hpos
    · -- the first allocation failed
      refine iff_of_true (fun _ => ⟨?_, ?_⟩) ?_
      · simpa [rtake_eq_self hlen] using hlines
      · rw [if_pos rfl] at hstaged'
        exact hstaged'
      · rintro ⟨-, -, j, hpos, hj, -⟩
        cases hj
        exact lt_irrefl 0 hpos
    · rw [if_neg hpos.ne'] at hstaged'
      constructor
      · rintro h ⟨-, -, j', -, hj', hchanged⟩
        cases hj'
        obtain ⟨hlines', hempty⟩ := h (by simp)
        exact hchanged ⟨hempty.symm.trans hstaged', hlines.symm.trans hlines'⟩
      · intro h _
        by_contra hchanged
        refine h ⟨by simpa using hi, by omega, j, hpos, rfl, ?_⟩
        rintro ⟨hempty, hsame⟩
        exact hchanged ⟨hlines.trans hsame, hstaged'.trans hempty.symm⟩

end submit

/-! ### Nothing fails -/

/-- No allocation will fail, and nothing will be interrupted. -/
def Quiet (t : StagedLog α) : Prop := true ∉ t.allocFails ∧ true ∉ t.interrupted

lemma headD_of_notMem {l : List Bool} (h : true ∉ l) : l.headD false = false := by
  cases l with
  | nil => rfl
  | cons b l =>
    cases b with
    | false => rfl
    | true => simp at h

lemma notMem_tail {l : List Bool} (h : true ∉ l) : true ∉ l.tail :=
  fun hmem => h (List.mem_of_mem_tail hmem)

lemma store_of_quiet {t : StagedLog α} (h : t.Quiet) (data : List α) :
    ∃ t', t.store data = (true, t') ∧ t'.Quiet ∧ t'.lines = t.lines ∧
      t'.stage = some (t.staged ++ data) := by
  cases hs : t.stage with
  | some s =>
    exact ⟨{ t with stage := some (s ++ data) }, by simp [store, hs], h, rfl, by simp [staged, hs]⟩
  | none =>
    refine ⟨{ t with stage := some data, allocFails := t.allocFails.tail }, ?_,
      ⟨notMem_tail h.1, h.2⟩, rfl, by simp [staged, hs]⟩
    simp only [store, hs, headD_of_notMem h.1, Bool.false_eq_true, if_false]

lemma flush_of_quiet {t : StagedLog α} (h : t.Quiet) (n : ℕ) :
    (t.flush n).Quiet ∧ (t.flush n).lines = pushLast n t.lines t.staged ∧
      (t.flush n).stage = none := by
  rw [flush, headD_of_notMem h.2, if_neg (by simp)]
  exact ⟨⟨h.1, notMem_tail h.2⟩, rfl, rfl⟩

/-- Storing and flushing one line, when nothing fails. -/
lemma writeLines_cons_of_quiet {t : StagedLog α} (h : t.Quiet) (n : ℕ) (l : List α)
    (ls : List (List α)) :
    ∃ t' : StagedLog α, t.writeLines n (l :: ls) = t'.writeLines n ls ∧ t'.Quiet ∧
      t'.lines = pushLast n t.lines (t.staged ++ l) ∧ t'.stage = none := by
  obtain ⟨t₁, hstore, hq₁, hlines₁, hstage₁⟩ := store_of_quiet h l
  obtain ⟨hq₂, hlines₂, hstage₂⟩ := flush_of_quiet hq₁ n
  refine ⟨t₁.flush n, by rw [writeLines, hstore], hq₂, ?_, hstage₂⟩
  rw [hlines₂, hlines₁, staged, hstage₁]
  rfl

lemma writeLines_of_quiet {t : StagedLog α} (h : t.Quiet) (n : ℕ) (ls : List (List α))
    (hs : t.stage = none) :
    ∃ t', t.writeLines n ls = (true, t') ∧ t'.Quiet ∧ t'.stage = none ∧
      t'.lines = ls.foldl (pushLast n) t.lines := by
  induction ls generalizing t with
  | nil => exact ⟨t, rfl, h, hs, rfl⟩
  | cons l ls ih =>
    obtain ⟨t₁, hwrite, hq, hlines, hstage⟩ := writeLines_cons_of_quiet h n l ls
    obtain ⟨t', hwrite', hq', hstage', hlines'⟩ := ih hq hstage
    refine ⟨t', hwrite.trans hwrite', hq', hstage', ?_⟩
    rw [hlines', hlines, List.foldl_cons, staged, hs]
    rfl

lemma storeRest_of_quiet {t : StagedLog α} (h : t.Quiet) (data : List α) :
    (t.storeRest data).Quiet ∧ (t.storeRest data).lines = t.lines ∧
      (t.storeRest data).staged = t.staged ++ data := by
  rw [storeRest]
  split_ifs with hdata
  · exact ⟨h, rfl, by simp [hdata]⟩
  · obtain ⟨t', hstore, hq, hlines, hstage⟩ := store_of_quiet h data
    rw [hstore]
    exact ⟨hq, hlines, by simp [staged, hstage]⟩

/-- The log without its environment. -/
def toLineLog (t : StagedLog α) : LineLog α := ⟨t.lines, t.staged⟩

/-- When nothing fails, a staged log is a line log. -/
lemma write_of_quiet [DecidableEq α] {t : StagedLog α} (h : t.Quiet) {n : ℕ} {d : α}
    (hlen : t.lines.length ≤ n) (hd : d ∉ t.staged) (data : List α) :
    ∃ t', t.write n d data = (true, t') ∧ t'.Quiet ∧
      t'.toLineLog = t.toLineLog.write n d data := by
  by_cases hmem : d ∈ data
  · obtain ⟨l, s, rfl, hl⟩ := List.eq_append_cons_of_mem hmem
    have hfirst : d ∉ t.staged ++ l := by simp [hd, hl]
    obtain ⟨t₁, hwrite, hq₁, hlines₁, hstage₁⟩ :=
      writeLines_cons_of_quiet h n (l ++ [d]) (Delimited.lines d s)
    obtain ⟨t₂, hwrite₂, hq₂, hstage₂, hlines₂⟩ :=
      writeLines_of_quiet hq₁ n (Delimited.lines d s) hstage₁
    obtain ⟨hq₃, hlines₃, hstage₃⟩ := storeRest_of_quiet hq₂ (Delimited.rest d s)
    refine ⟨t₂.storeRest (Delimited.rest d s), ?_, hq₃, ?_⟩
    · rw [write, Delimited.lines_append_delim hl, hwrite, hwrite₂, Delimited.rest_append_delim]
    · have hcut : t.staged ++ (l ++ d :: s) = (t.staged ++ l) ++ d :: s := by simp
      simp only [toLineLog, LineLog.write, hlines₃, hstage₃, hlines₂, hlines₁, hcut,
        Delimited.lines_append_delim hfirst, Delimited.rest_append_delim, LineLog.mk.injEq]
      refine ⟨?_, by simp [staged, hstage₂]⟩
      rw [← foldl_pushLast _ _ hlen, List.foldl_cons, List.append_assoc]
  · obtain ⟨hq, hlines, hstage⟩ := storeRest_of_quiet h data
    refine ⟨t.storeRest data, ?_, hq, ?_⟩
    · rw [write, Delimited.lines_of_notMem hmem, Delimited.rest_of_notMem hmem]
      rfl
    · have hd' : d ∉ t.staged ++ data := by simp [hd, hmem]
      simp [toLineLog, LineLog.write, hlines, hstage, Delimited.lines_of_notMem hd',
        Delimited.rest_of_notMem hd', rtake_eq_self hlen]

/-- When nothing fails, an attempt is refused and changes nothing, or it is a write. -/
lemma submit_of_quiet [DecidableEq α] {t : StagedLog α} (h : t.Quiet) {n : ℕ} (cap : ℕ) {d : α}
    (hlen : t.lines.length ≤ n) (hd : d ∉ t.staged) (data : List α) :
    ∃ t', t'.Quiet ∧
      if cap < t.staged.length + data.length then
        t.submit n cap d data = (.refused, t') ∧ t'.toLineLog = t.toLineLog
      else
        t.submit n cap d data = (.written, t') ∧ t'.toLineLog = t.toLineLog.write n d data := by
  have hint : ¬ t.interrupted.headD false = true := by
    rw [headD_of_notMem h.2]
    simp
  have hquiet : ({ t with interrupted := t.interrupted.tail } : StagedLog α).Quiet :=
    ⟨h.1, notMem_tail h.2⟩
  rw [submit, if_neg hint]
  split_ifs
  · exact ⟨_, hquiet, rfl, rfl⟩
  · obtain ⟨t', hwrite, hquiet', hlog⟩ := write_of_quiet hquiet hlen hd data
    exact ⟨t', hquiet', by rw [hwrite], hlog⟩

end StagedLog
