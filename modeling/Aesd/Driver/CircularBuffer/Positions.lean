import Aesd.Driver.CircularBuffer.Lookup

/-!
# Positions and entries

The walk from a position to an entry and the walk from an entry to its position, on every ring that
a run of `addEntry` can produce.
-/

namespace Aesd.CircularBuffer

variable {b : CircularBuffer}

/-- Different live entries are in different slots. -/
lemma Wf.slot_inj (h : b.Wf) {i j : ℕ} (hi : i < b.numEntries) (hj : j < b.numEntries)
    (heq : b.slot i = b.slot j) : i = j :=
  slot_injOn (hi.trans_le h.numEntries_le) (hj.trans_le h.numEntries_le) heq

/-- A byte of a live entry is located in it. -/
lemma locate_sizes {i o : ℕ} (hi : i < b.numEntries) (ho : o < (b.entry (b.slot i)).size) :
    locate b.sizes ((b.sizes.take i).sum + o) = some (i, o) := by
  refine locate_eq_some_iff.mpr ⟨by simpa using hi, ?_, rfl⟩
  rw [getElem_sizes]
  exact ho

/-- What a successful lookup has found. -/
lemma Wf.find_eq_some_iff (h : b.Wf) (hsum : b.sizes.sum < 2 ^ 64) {p : ℕ} (hp : p < 2 ^ 64)
    {rtn o : ℕ} {e : Fin maxWriteOperations} :
    b.findEntryOffsetForFpos p rtn = (some e, o) ↔
      ∃ i, i < b.numEntries ∧ e = b.slot i ∧ o < (b.entry e).size ∧
        p = (b.sizes.take i).sum + o := by
  rw [h.findEntryOffsetForFpos_eq hsum hp]
  cases hloc : locate b.sizes p with
  | none =>
    constructor
    · intro hnone
      cases hnone
    · rintro ⟨i, hi, rfl, ho, rfl⟩
      rw [locate_sizes hi ho] at hloc
      cases hloc
  | some q =>
    obtain ⟨i, o'⟩ := q
    obtain ⟨hi, ho', hpo'⟩ := locate_eq_some_iff.mp hloc
    rw [getElem_sizes hi] at ho'
    rw [length_sizes] at hi
    constructor
    · intro hsome
      obtain ⟨heq, rfl⟩ := Prod.mk.inj hsome
      obtain rfl := Option.some.inj heq
      exact ⟨i, hi, rfl, ho', hpo'⟩
    · rintro ⟨j, hj, rfl, ho, rfl⟩
      rw [locate_sizes hj ho] at hloc
      cases hloc
      rfl

/-- When a lookup fails, and what it leaves behind. -/
lemma Wf.find_eq_none_iff (h : b.Wf) (hsum : b.sizes.sum < 2 ^ 64) {p : ℕ} (hp : p < 2 ^ 64)
    (rtn : ℕ) :
    ((b.findEntryOffsetForFpos p rtn).1 = none ↔ b.getSize ≤ p) ∧
      (b.getSize ≤ p → b.findEntryOffsetForFpos p rtn = (none, rtn)) := by
  rw [h.findEntryOffsetForFpos_eq hsum hp, h.getSize_eq hsum, ← locate_eq_none_iff]
  cases locate b.sizes p with
  | none => exact ⟨iff_of_true rfl rfl, fun _ => rfl⟩
  | some q =>
    constructor
    · exact iff_of_false (by simp) (by simp)
    · intro hnone
      cases hnone

/-- The offset of a byte in its entry and its position in the concatenated entries. -/
lemma getElem?_flatMap_live {α : Type*} {bytes : BufferEntry → List α}
    (hbytes : ∀ e ∈ b.live, (bytes e).length = e.size) {i o : ℕ} (hi : i < b.numEntries)
    (ho : o < (b.entry (b.slot i)).size) :
    (b.live.flatMap bytes)[(b.sizes.take i).sum + o]? = (bytes (b.entry (b.slot i)))[o]? := by
  have hlive : i < b.live.length := by simpa using hi
  have hmap : (b.live.map bytes).map List.length = b.sizes := by
    rw [List.map_map, sizes]
    exact List.map_congr_left hbytes
  have hi' : i < (b.live.map bytes).length := by simpa using hi
  have hentry : (b.live.map bytes)[i] = bytes (b.entry (b.slot i)) := by
    simp
  have hlen : (bytes (b.entry (b.slot i))).length = (b.entry (b.slot i)).size :=
    hbytes _ (getElem_live hlive ▸ List.getElem_mem hlive)
  have hloc : locate ((b.live.map bytes).map List.length) ((b.sizes.take i).sum + o)
      = some (i, o) := by
    rw [hmap]
    exact locate_sizes hi ho
  obtain ⟨_, _, hdrop⟩ := drop_flatten_of_locate hloc
  rw [hentry] at hdrop
  have hhead := congrArg List.head? hdrop
  rw [List.head?_drop, List.head?_append, List.head?_drop] at hhead
  rw [List.flatMap_def, hhead, List.getElem?_eq_getElem (by omega)]
  rfl

/-- The lookup finds offset `o` of the `i`-th oldest entry exactly if the entry has such a byte and
it is at the position asked for; no other slot is ever found. It fails exactly from the end of the
contents on, and then leaves its out-parameter as it was. -/
theorem findEntryOffsetForFpos_iff (es : List BufferEntry) {p : ℕ} (hp : p < 2 ^ 64) (rtn : ℕ) :
    Exec.Returns (Machine.run addEntry es) init fun _ b =>
      b.live = es.rtake maxWriteOperations ∧
      (b.sizes.sum < 2 ^ 64 →
        (∀ i (hi : i < b.sizes.length) o,
          b.findEntryOffsetForFpos p rtn = (some (b.slot i), o) ↔
            o < b.sizes[i] ∧ p = (b.sizes.take i).sum + o) ∧
        (∀ e o, b.findEntryOffsetForFpos p rtn = (some e, o) →
          ∃ i < b.sizes.length, e = b.slot i ∧ 0 < (b.entry e).size) ∧
        (∀ e o, b.findEntryOffsetForFpos p rtn = (some e, o) →
          ∀ bytes : BufferEntry → List Byte, (∀ e ∈ b.live, (bytes e).length = e.size) →
            (b.live.flatMap bytes)[p]? = (bytes (b.entry e))[o]?) ∧
        ((b.findEntryOffsetForFpos p rtn).1 = none ↔ b.getSize ≤ p) ∧
        (b.getSize ≤ p → b.findEntryOffsetForFpos p rtn = (none, rtn))) := by
  refine (run_addEntry init_wf es).mono ?_
  rintro - b ⟨hwf, hlive⟩
  refine ⟨hlive, ?_⟩
  intro hsum
  obtain ⟨hnone, hkeeps⟩ := hwf.find_eq_none_iff hsum hp rtn
  refine ⟨fun i hi o => ?_, fun e o hfind => ?_, fun e o hfind bytes hbytes => ?_, hnone, hkeeps⟩
  · rw [hwf.find_eq_some_iff hsum hp, getElem_sizes hi]
    rw [length_sizes] at hi
    constructor
    · rintro ⟨j, hj, hslot, ho, hpo⟩
      obtain rfl := hwf.slot_inj hi hj hslot
      exact ⟨ho, hpo⟩
    · rintro ⟨ho, hpo⟩
      exact ⟨i, hi, rfl, ho, hpo⟩
  · obtain ⟨i, hi, hslot, ho, -⟩ := (hwf.find_eq_some_iff hsum hp).mp hfind
    exact ⟨i, by simpa using hi, hslot, by omega⟩
  · obtain ⟨i, hi, rfl, ho, rfl⟩ := (hwf.find_eq_some_iff hsum hp).mp hfind
    exact getElem?_flatMap_live hbytes hi ho

/-- Entries of two, no and three bytes. -/
def unevenEntries : List BufferEntry := [⟨some 0, 2⟩, ⟨some 1, 0⟩, ⟨some 2, 3⟩]

/-- Position `2` is the start of the third entry: the empty one is skipped. -/
theorem findEntryOffsetForFpos_iff_uneven :
    ∃ rets b, Machine.run addEntry unevenEntries init = .ok (rets, b) ∧
      b.sizes = [2, 0, 3] ∧ b.findEntryOffsetForFpos 2 7 = (some (b.slot 2), 0) := by
  obtain ⟨rets, b, hrun, hlive, hfind⟩ :=
    findEntryOffsetForFpos_iff unevenEntries (p := 2) (by decide) 7
  have hsizes : b.sizes = [2, 0, 3] := by
    rw [sizes, hlive]
    decide
  refine ⟨rets, b, hrun, hsizes, ?_⟩
  obtain ⟨hiff, -⟩ := hfind (by rw [hsizes]; decide)
  refine (hiff 2 (by rw [hsizes]; decide) 0).mpr ?_
  simp [hsizes]

/-! ### The two walks are inverse -/

/-- The position of a byte of a live entry, as the argument of the lookup. -/
lemma Wf.toSize_findFpos_add (h : b.Wf) (hsum : b.sizes.sum < 2 ^ 31) {i o : ℕ}
    (hi : i < b.sizes.length) (ho : o < b.sizes[i]) :
    toSize (b.findFposForVirtualEntryOffset i + o) = (b.sizes.take i).sum + o := by
  have hend : (b.sizes.take i).sum + b.sizes[i] ≤ b.sizes.sum := by
    rw [← List.sum_take_add_sum_drop b.sizes i, List.drop_eq_getElem_cons hi, List.sum_cons]
    omega
  rw [h.findFpos_of_le hsum (by simpa using hi.le), toSize_of_nonneg (by omega) (by omega)]
  omega

lemma Wf.findEntryAtPosition_eq (h : b.Wf) {i : ℕ} (hi : i ≤ b.numEntries) :
    b.findEntryAtPosition i = b.slot i := by
  have hle := hi.trans h.numEntries_le
  simp only [maxWriteOperations] at hle
  exact h.getEntryAtVirtualOffset_eq (by omega)

/-- The walk to the position of a byte and the lookup of that position are inverse, and the position
behind the last entry is the size of the contents. -/
theorem findEntryOffsetForFpos_inverse (es : List BufferEntry) (rtn : ℕ) :
    Exec.Returns (Machine.run addEntry es) init fun _ b =>
      b.live = es.rtake maxWriteOperations ∧
      (b.sizes.sum < 2 ^ 31 →
        (∀ i (hi : i < b.sizes.length) o, o < b.sizes[i] →
          b.findEntryOffsetForFpos (toSize (b.findFposForVirtualEntryOffset i + o)) rtn
            = (some (b.findEntryAtPosition i), o)) ∧
        (∀ p < b.getSize, ∃ i o, i < b.sizes.length ∧
          b.findEntryOffsetForFpos p rtn = (some (b.findEntryAtPosition i), o) ∧
          b.findFposForVirtualEntryOffset i + o = p) ∧
        b.findFposForVirtualEntryOffset b.sizes.length = b.getSize) := by
  refine (run_addEntry init_wf es).mono ?_
  rintro - b ⟨hwf, hlive⟩
  refine ⟨hlive, ?_⟩
  intro hsum
  have hsize : b.getSize = b.sizes.sum := hwf.getSize_eq (by omega)
  refine ⟨?_, ?_, ?_⟩
  · intro i hi o ho
    have hpos := hwf.toSize_findFpos_add hsum hi ho
    rw [hpos, hwf.find_eq_some_iff (by omega) (hpos ▸ toSize_lt _)]
    rw [getElem_sizes hi] at ho
    rw [length_sizes] at hi
    rw [hwf.findEntryAtPosition_eq hi.le]
    exact ⟨i, hi, rfl, ho, rfl⟩
  · intro p hp
    rw [hsize] at hp
    cases hfind : b.findEntryOffsetForFpos p rtn with
    | mk found o =>
      have hsome : found ≠ none := by
        have hiff := (hwf.find_eq_none_iff (by omega) (p := p) (by omega) rtn).1
        rw [hfind, hsize] at hiff
        rw [Ne, hiff]
        omega
      obtain ⟨e, rfl⟩ := Option.ne_none_iff_exists'.mp hsome
      obtain ⟨i, hi, rfl, -, rfl⟩ := (hwf.find_eq_some_iff (by omega) (by omega)).mp hfind
      refine ⟨i, o, by simpa using hi, ?_, ?_⟩
      · rw [hwf.findEntryAtPosition_eq hi.le]
      · rw [hwf.findFpos_of_le hsum hi.le]
        push_cast
        rfl
  · rw [length_sizes, hwf.findFpos_of_le hsum le_rfl, hsize, ← length_sizes, List.take_length]

theorem findEntryOffsetForFpos_inverse_uneven :
    ∃ rets b, Machine.run addEntry unevenEntries init = .ok (rets, b) ∧
      b.findEntryOffsetForFpos (toSize (b.findFposForVirtualEntryOffset 2 + 1)) 7
        = (some (b.findEntryAtPosition 2), 1) ∧
      b.findFposForVirtualEntryOffset 3 = b.getSize := by
  obtain ⟨rets, b, hrun, hlive, hinv⟩ := findEntryOffsetForFpos_inverse unevenEntries 7
  have hsizes : b.sizes = [2, 0, 3] := by
    rw [sizes, hlive]
    decide
  have hlen : b.sizes.length = 3 := by simp [hsizes]
  obtain ⟨hto, -, hend⟩ := hinv (by rw [hsizes]; decide)
  rw [hlen] at hend
  exact ⟨rets, b, hrun, hto 2 (by omega) 1 (by simp [hsizes]), hend⟩

end Aesd.CircularBuffer
