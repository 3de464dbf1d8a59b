import Aesd.Library.Span
import Aesd.Server.ProcessBuffer

/-!
# The grammar of seek commands

A segment is a seek command if it is the command word, a number, a comma, a number and a newline.
`FindSeek` reads more than that as a command: `sscanf` skips white space and accepts signs, drops
the high bits of a number, does not care what follows the second one, and does not stop where the
segment does.
-/

namespace Aesd

/-! ### Numbers -/

/-- The number that a string of digits stands for. -/
def decimal (digits : List Byte) : ℕ := digits.foldl (fun n c => 10 * n + (c.toNat - 48)) 0

/-- A number as `%u` reads it: white space, a sign, digits. -/
structure Numeral where
  space : List Byte
  sign : List Byte
  digits : List Byte
  space_all : ∀ c ∈ space, isSpace c = true
  sign_mem : sign ∈ [[], [43], [45]]
  digits_ne : digits ≠ []
  digits_all : ∀ c ∈ digits, isDigit c = true

namespace Numeral

variable (n : Numeral)

def text : List Byte := n.space ++ (n.sign ++ n.digits)

/-- The value that `%u` stores. -/
def scanned : UInt32 := UInt32.ofNat (strtoul (n.sign = [45]) n.digits)

/-- Nothing but digits, and a value that fits into 32 bits. -/
def Plain : Prop := n.space = [] ∧ n.sign = [] ∧ decimal n.digits < 2 ^ 32

variable {n}

lemma scanned_of_plain (h : n.Plain) : n.scanned = UInt32.ofNat (decimal n.digits) := by
  obtain ⟨-, hsign, hlt⟩ := h
  have hfits : ¬ 2 ^ 64 ≤ decimal n.digits := by omega
  rw [scanned, hsign, strtoul]
  exact congrArg UInt32.ofNat (if_neg hfits)

lemma text_of_plain (h : n.Plain) : n.text = n.digits := by
  rw [text, h.1, h.2.1]
  rfl

lemma isDigit_iff {c : Byte} : isDigit c = true ↔ 48 ≤ c.toNat ∧ c.toNat ≤ 57 := by
  simp [isDigit, UInt8.le_iff_toNat_le]

lemma not_isSpace_of_isDigit (c : Byte) (h : isDigit c = true) : isSpace c = false := by
  rw [isDigit_iff] at h
  rw [Bool.eq_false_iff]
  intro hspace
  simp [isSpace, UInt8.le_iff_toNat_le, ← UInt8.toNat_inj] at hspace
  omega

lemma ne_of_isDigit {c d : Byte} (h : isDigit c = true) (hd : isDigit d = false) : c ≠ d := by
  rintro rfl
  rw [h] at hd
  cases hd

lemma stops_digits {p : Byte → Bool} (hp : ∀ c, isDigit c = true → p c = false) (r : List Byte) :
    Stops p (n.digits ++ r) := by
  rw [stops_append n.digits_ne]
  intro c hc
  exact hp c (n.digits_all c (List.mem_of_mem_head? hc))

lemma mem_sign {c : Byte} (h : c ∈ n.sign) : c = 43 ∨ c = 45 := by
  have hsign := n.sign_mem
  simp only [List.mem_cons, List.not_mem_nil, or_false] at hsign
  rcases hsign with hsign | hsign | hsign <;> simp_all

/-- The white space of a number ends where the number proper begins. -/
lemma stops_sign (r : List Byte) : Stops isSpace (n.sign ++ (n.digits ++ r)) := by
  have hsign := n.sign_mem
  simp only [List.mem_cons, List.not_mem_nil, or_false] at hsign
  rcases hsign with hsign | hsign | hsign
  · rw [hsign]
    exact stops_digits not_isSpace_of_isDigit r
  · rw [hsign]
    exact stops_cons.mpr rfl
  · rw [hsign]
    exact stops_cons.mpr rfl

/-- What `%u` makes of a string that begins with a number. -/
lemma scanUInt32_text {r : List Byte} (hr : Stops isDigit r) :
    scanUInt32 (n.text ++ r) = some (n.scanned, r) := by
  have hskip : (n.text ++ r).dropWhile isSpace = n.sign ++ (n.digits ++ r) := by
    rw [text, List.append_assoc, List.append_assoc]
    exact dropWhile_append_of_stops n.space_all (stops_sign r)
  have htake := takeWhile_append_of_stops n.digits_all hr
  have hdrop := dropWhile_append_of_stops n.digits_all hr
  have hsign := n.sign_mem
  simp only [List.mem_cons, List.not_mem_nil, or_false] at hsign
  rw [scanUInt32, hskip, scanned]
  rcases hsign with hsign | hsign | hsign
  · obtain ⟨c, cs, hdigits⟩ := List.exists_cons_of_ne_nil n.digits_ne
    have hc : isDigit c = true := n.digits_all c (by simp [hdigits])
    have hminus : c ≠ 45 := ne_of_isDigit hc rfl
    have hplus : c ≠ 43 := ne_of_isDigit hc rfl
    simp only [hsign, List.nil_append]
    rw [hdigits] at htake hdrop ⊢
    rw [List.cons_append] at htake hdrop ⊢
    simp [hminus, hplus, htake, hdrop]
  · simp [hsign, htake, hdrop, n.digits_ne]
  · simp [hsign, htake, hdrop, n.digits_ne]

/-- A string that `%u` accepts begins with a number. -/
lemma of_scanUInt32 {s r : List Byte} {v : UInt32} (h : scanUInt32 s = some (v, r)) :
    ∃ n : Numeral, s = n.text ++ r ∧ Stops isDigit r ∧ v = n.scanned := by
  obtain ⟨sign, t, hsign, hskip, hscan⟩ : ∃ (sign t : List Byte),
      sign ∈ [[], [43], [45]] ∧ s.dropWhile isSpace = sign ++ t ∧
      scanUInt32 s = if t.takeWhile isDigit = [] then none
        else some (UInt32.ofNat (strtoul (sign = [45]) (t.takeWhile isDigit)),
          t.dropWhile isDigit) := by
    rw [scanUInt32]
    generalize s.dropWhile isSpace = s'
    split
    rename_i negative t hpair
    split at hpair
    · cases hpair
      exact ⟨[45], t, by simp, rfl, rfl⟩
    · cases hpair
      exact ⟨[43], t, by simp, rfl, rfl⟩
    · cases hpair
      exact ⟨[], _, by simp, rfl, rfl⟩
  rw [hscan] at h
  split_ifs at h with hne
  obtain ⟨rfl, rfl⟩ := Prod.mk.inj (Option.some.inj h)
  refine ⟨⟨s.takeWhile isSpace, sign, t.takeWhile isDigit, fun c => List.mem_takeWhile_imp, hsign,
    hne, fun c => List.mem_takeWhile_imp⟩, ?_, stops_dropWhile _ _, rfl⟩
  rw [text, List.append_assoc, List.append_assoc, List.takeWhile_append_dropWhile, ← hskip,
    List.takeWhile_append_dropWhile]

/-- The number at the start of a string and what follows it are determined by the string. -/
lemma text_inj {m : Numeral} {r r' : List Byte} (hr : Stops isDigit r) (hr' : Stops isDigit r')
    (h : n.text ++ r = m.text ++ r') :
    n.space = m.space ∧ n.sign = m.sign ∧ n.digits = m.digits ∧ r = r' := by
  rw [text, text, List.append_assoc, List.append_assoc, List.append_assoc, List.append_assoc] at h
  obtain ⟨hspace, h⟩ :=
    append_inj_of_stops n.space_all (stops_sign r) m.space_all (stops_sign r') h
  have hstops : ∀ (k : Numeral) r, Stops (fun c => c = 43 || c = 45) (k.digits ++ r) := by
    intro k r
    refine stops_digits ?_ r
    intro c hc
    simp [ne_of_isDigit hc (d := 43) rfl, ne_of_isDigit hc (d := 45) rfl]
  obtain ⟨hsign, h⟩ := append_inj_of_stops (fun c hc => by simpa using mem_sign hc) (hstops n r)
    (fun c hc => by simpa using mem_sign hc) (hstops m r') h
  obtain ⟨hdigits, h⟩ := append_inj_of_stops n.digits_all hr m.digits_all hr' h
  exact ⟨hspace, hsign, hdigits, h⟩

/-- A number that runs into the end of a line is nothing but white space up to there. -/
lemma all_isSpace_or_of_append {l r r' : List Byte} (h : l ++ newline :: r = n.text ++ r') :
    (∀ c ∈ l, isSpace c = true) ∨ ∃ l', l = n.text ++ l' ∧ r' = l' ++ newline :: r := by
  rw [text, List.append_assoc] at h
  rcases append_delim_eq_append h with ⟨l', rfl, h'⟩ | ⟨m, hspace⟩
  · rcases append_delim_eq_append h'.symm with ⟨l'', rfl, hr'⟩ | ⟨m, hproper⟩
    · right
      exact ⟨l'', by simp only [text, List.append_assoc], hr'⟩
    · have hmem : newline ∈ n.sign ++ n.digits := by simp [hproper]
      rcases List.mem_append.mp hmem with hmem | hmem
      · rcases mem_sign hmem with heq | heq <;> cases heq
      · cases n.digits_all _ hmem
  · left
    intro c hc
    exact n.space_all c (by simp [hspace, hc])

lemma ne_zero_of_mem_text {c : Byte} (h : c ∈ n.text) : c ≠ 0 := by
  rintro rfl
  rw [text, List.mem_append, List.mem_append] at h
  rcases h with h | h | h
  · cases n.space_all _ h
  · rcases mem_sign h with heq | heq <;> cases heq
  · cases n.digits_all _ h

end Numeral

/-! ### Commands -/

/-- What `FindSeek` reads as a command: the word, a number, a comma and a number, and then anything
that does not continue the number. -/
lemma findSeek_eq_some_iff {mem : List Byte} {st : AesdSeekto} :
    findSeek mem = some st ↔
      ∃ (m n : Numeral) (r : List Byte),
        mem = aesdSocketIocString ++ (m.text ++ 44 :: (n.text ++ r)) ∧ Stops isDigit r ∧
        st = ⟨m.scanned, n.scanned⟩ := by
  constructor
  · intro h
    rw [findSeek] at h
    split_ifs at h with hword
    obtain ⟨s, hs⟩ := List.isPrefixOf_iff_prefix.mp hword
    rw [← hs, List.drop_left] at h
    split at h
    · rename_i writeCmd t hfirst
      split at h
      · rename_i writeCmdOffset r hsecond
        obtain ⟨m, rfl, -, rfl⟩ := Numeral.of_scanUInt32 hfirst
        obtain ⟨n, rfl, hr, rfl⟩ := Numeral.of_scanUInt32 hsecond
        refine ⟨m, n, r ++ mem.dropWhile (· ≠ 0), ?_, ?_, (Option.some.inj h).symm⟩
        · have hmem := List.takeWhile_append_dropWhile (p := fun c => decide (c ≠ 0)) (l := mem)
          rw [← hs] at hmem
          simp only [List.append_assoc, List.cons_append] at hmem
          exact hmem.symm
        · cases r with
          | cons c r => exact stops_cons.mpr (stops_cons.mp hr)
          | nil =>
            intro c hc
            have hzero := stops_dropWhile (fun c : Byte => decide (c ≠ 0)) mem c hc
            simp only [ne_eq, decide_eq_false_iff_not, not_not] at hzero
            rw [hzero]
            rfl
      · cases h
    · cases h
  · rintro ⟨m, n, r, rfl, hr, rfl⟩
    have hstring : (aesdSocketIocString ++ (m.text ++ 44 :: (n.text ++ r))).takeWhile (· ≠ 0)
        = aesdSocketIocString ++ (m.text ++ 44 :: (n.text ++ r.takeWhile (· ≠ 0))) := by
      rw [List.takeWhile_append_of_pos (List.all_eq_true.mp rfl), List.takeWhile_append_of_pos,
        List.takeWhile_cons_of_pos (by decide), List.takeWhile_append_of_pos]
      · intro c hc
        simpa using Numeral.ne_zero_of_mem_text hc
      · intro c hc
        simpa using Numeral.ne_zero_of_mem_text hc
    have hfirst := Numeral.scanUInt32_text (n := m)
      (stops_cons.mpr rfl : Stops isDigit (44 :: (n.text ++ r.takeWhile (· ≠ 0))))
    have hsecond := Numeral.scanUInt32_text (n := n) (hr.takeWhile (· ≠ 0))
    rw [findSeek, hstring, if_pos (by simp [List.isPrefixOf_iff_prefix]), List.drop_left, hfirst]
    simp only [hsecond]

/-- A decimal number of one digit or more. -/
def IsNumber (digits : List Byte) : Prop := digits ≠ [] ∧ ∀ c ∈ digits, isDigit c = true

/-- The grammar: the word, a number, a comma, a number, and the newline. -/
def IsCommand (segment : List Byte) (st : AesdSeekto) : Prop :=
  ∃ d₁ d₂ : List Byte, IsNumber d₁ ∧ IsNumber d₂ ∧
    segment = aesdSocketIocString ++ (d₁ ++ 44 :: (d₂ ++ [newline])) ∧
    decimal d₁ = st.writeCmd.toNat ∧ decimal d₂ = st.writeCmdOffset.toNat

/-- `FindSeek` decides by the segment alone, and by the grammar. -/
def GrammarLaw (seg : Segment) : Prop :=
  (∀ st, findSeek seg.segmentPtr = some st ↔ IsCommand seg.bytes st) ∧
  ∀ beyond, findSeek (seg.bytes ++ beyond) = findSeek seg.segmentPtr

/-- The lines, less their newline, that are no commands but are read as one, or would be with the
right bytes behind them: the word or the first number is followed by nothing but white space, a
number has white space or a sign before it or does not fit into 32 bits, or there is something
behind the second number. -/
inductive Lenient : List Byte → Prop
  | noFirst (space : List Byte) (h : ∀ c ∈ space, isSpace c = true) :
    Lenient (aesdSocketIocString ++ space)
  | noSecond (m : Numeral) (space : List Byte) (h : ∀ c ∈ space, isSpace c = true) :
    Lenient (aesdSocketIocString ++ (m.text ++ 44 :: space))
  | loose (m n : Numeral) (r : List Byte) (hr : Stops isDigit r)
    (h : ¬ (m.Plain ∧ n.Plain ∧ r = [])) :
    Lenient (aesdSocketIocString ++ (m.text ++ 44 :: (n.text ++ r)))

/-- A number with nothing before its digits. -/
def IsNumber.numeral {digits : List Byte} (h : IsNumber digits) : Numeral :=
  ⟨[], [], digits, by simp, by simp, h.1, h.2⟩

lemma IsNumber.plain {digits : List Byte} (h : IsNumber digits) {v : UInt32}
    (hv : decimal digits = v.toNat) : h.numeral.Plain :=
  ⟨rfl, rfl, hv ▸ v.toNat_lt⟩

lemma IsNumber.scanned_eq {digits : List Byte} (h : IsNumber digits) {v : UInt32}
    (hv : decimal digits = v.toNat) : h.numeral.scanned = v := by
  have hscanned := Numeral.scanned_of_plain (h.plain hv)
  change h.numeral.scanned = UInt32.ofNat (decimal digits) at hscanned
  rw [hscanned, hv, UInt32.ofNat_toNat]

/-- White space does not begin with a number. -/
lemma IsNumber.ne_append {digits : List Byte} (h : IsNumber digits) {space r : List Byte}
    (hspace : ∀ c ∈ space, isSpace c = true) : space ++ [newline] ≠ digits ++ r := by
  intro heq
  obtain ⟨c, cs, rfl⟩ := List.exists_cons_of_ne_nil h.1
  have hc : isSpace c = true := by
    have hmem : c ∈ space ++ [newline] := by simp [heq]
    rcases List.mem_append.mp hmem with hmem | hmem
    · exact hspace c hmem
    · rw [List.mem_singleton.mp hmem]
      rfl
  have hdigit := Numeral.not_isSpace_of_isDigit c (h.2 c List.mem_cons_self)
  rw [hc] at hdigit
  cases hdigit

lemma Numeral.isNumber (n : Numeral) : IsNumber n.digits := ⟨n.digits_ne, n.digits_all⟩

lemma stops_newline (r : List Byte) : Stops isDigit (newline :: r) := stops_cons.mpr rfl

lemma stops_comma (r : List Byte) : Stops isDigit (44 :: r) := stops_cons.mpr rfl

/-- What stops a number still stops it when a newline is added. -/
lemma stops_append_newline {l : List Byte} (r : List Byte) :
    Stops isDigit (l ++ newline :: r) ↔ Stops isDigit l := by
  cases l with
  | nil => exact iff_of_true (stops_newline r) (stops_nil _)
  | cons c l => exact stops_append (List.cons_ne_nil c l)

/-! ### The law -/

/-- A lenient line is read as a command, if the right bytes follow it. -/
lemma Lenient.exists_findSeek {line : List Byte} (h : Lenient line) :
    ∃ beyond st, findSeek (line ++ newline :: beyond) = some st := by
  have hone : ∀ c ∈ ([49] : List Byte), isDigit c = true := List.forall_mem_singleton.mpr rfl
  have hspace : ∀ space : List Byte, (∀ c ∈ space, isSpace c = true) →
      ∀ c ∈ space ++ [newline], isSpace c = true := by
    intro space h c hc
    rcases List.mem_append.mp hc with hc | hc
    · exact h c hc
    · rw [List.mem_singleton.mp hc]
      rfl
  cases h with
  | noFirst space h =>
    refine ⟨[49, 44, 49], _, findSeek_eq_some_iff.mpr
      ⟨⟨space ++ [newline], [], [49], hspace space h, by simp, by simp, hone⟩,
        ⟨[], [], [49], by simp, by simp, by simp, hone⟩, [], ?_, stops_nil _, rfl⟩⟩
    simp [Numeral.text]
  | noSecond m space h =>
    refine ⟨[49], _, findSeek_eq_some_iff.mpr
      ⟨m, ⟨space ++ [newline], [], [49], hspace space h, by simp, by simp, hone⟩, [], ?_,
        stops_nil _, rfl⟩⟩
    simp [Numeral.text]
  | loose m n r hr h =>
    exact ⟨[], _, findSeek_eq_some_iff.mpr
      ⟨m, n, r ++ [newline], by simp, (stops_append_newline []).mpr hr, rfl⟩⟩

/-- A lenient line is not a command. -/
lemma Lenient.not_isCommand {line : List Byte} (h : Lenient line) (st : AesdSeekto) :
    ¬ IsCommand (line ++ [newline]) st := by
  rintro ⟨d₁, d₂, h₁, h₂, hline, hfirst, hsecond⟩
  cases h with
  | noFirst space h =>
    rw [List.append_assoc, List.append_cancel_left_eq] at hline
    exact h₁.ne_append h hline
  | noSecond m space h =>
    rw [List.append_assoc, List.append_cancel_left_eq, List.append_assoc] at hline
    obtain ⟨-, -, -, hrest⟩ := Numeral.text_inj (m := h₁.numeral) (stops_comma _) (stops_comma _)
      hline
    exact h₂.ne_append h (List.cons.inj hrest).2
  | loose m n r hr h =>
    rw [List.append_assoc, List.append_cancel_left_eq, List.append_assoc,
      List.cons_append] at hline
    obtain ⟨hspace₁, hsign₁, hdigits₁, hrest⟩ :=
      Numeral.text_inj (m := h₁.numeral) (stops_comma _) (stops_comma _) hline
    have hline₂ := (List.cons.inj hrest).2
    rw [List.append_assoc] at hline₂
    obtain ⟨hspace₂, hsign₂, hdigits₂, hend⟩ :=
      Numeral.text_inj (m := h₂.numeral) ((stops_append_newline []).mpr hr) (stops_newline _) hline₂
    refine h ⟨⟨hspace₁, hsign₁, ?_⟩, ⟨hspace₂, hsign₂, ?_⟩, ?_⟩
    · rw [hdigits₁]
      exact (h₁.plain hfirst).2.2
    · rw [hdigits₂]
      exact (h₂.plain hsecond).2.2
    · simpa using hend

/-- A line that is not lenient is read as a command exactly if it is one, whatever follows it. -/
lemma findSeek_of_not_lenient {line : List Byte} (h : ¬ Lenient line) (beyond : List Byte)
    (st : AesdSeekto) :
    findSeek (line ++ newline :: beyond) = some st ↔ IsCommand (line ++ [newline]) st := by
  rw [findSeek_eq_some_iff]
  constructor
  · rintro ⟨m, n, r, hmem, hr, rfl⟩
    rcases append_delim_eq_append hmem with ⟨l₁, rfl, h₁⟩ | ⟨_, hword⟩
    swap
    · have hnot : newline ∉ aesdSocketIocString := by decide
      exact absurd (by rw [hword]; simp) hnot
    rcases Numeral.all_isSpace_or_of_append h₁.symm with hspace | ⟨l₂, rfl, h₂⟩
    · exact absurd (.noFirst l₁ hspace) h
    obtain ⟨l₃, rfl, h₃⟩ : ∃ l₃, l₂ = 44 :: l₃ ∧ n.text ++ r = l₃ ++ newline :: beyond := by
      cases l₂ with
      | nil => cases (List.cons.inj h₂).1
      | cons c l₃ =>
        obtain ⟨rfl, h₃⟩ := List.cons.inj h₂
        exact ⟨l₃, rfl, h₃⟩
    rcases Numeral.all_isSpace_or_of_append h₃.symm with hspace | ⟨l₄, rfl, rfl⟩
    · exact absurd (.noSecond m l₃ hspace) h
    by_contra hnot
    refine h (.loose m n l₄ ((stops_append_newline beyond).mp hr) ?_)
    rintro ⟨hm, hn, rfl⟩
    refine hnot ⟨m.digits, n.digits, m.isNumber, n.isNumber, ?_, ?_, ?_⟩
    · simp [Numeral.text_of_plain hm, Numeral.text_of_plain hn]
    · rw [Numeral.scanned_of_plain hm]
      exact (Nat.mod_eq_of_lt hm.2.2).symm
    · rw [Numeral.scanned_of_plain hn]
      exact (Nat.mod_eq_of_lt hn.2.2).symm
  · rintro ⟨d₁, d₂, h₁, h₂, hline, hfirst, hsecond⟩
    refine ⟨h₁.numeral, h₂.numeral, newline :: beyond, ?_, stops_newline _, ?_⟩
    · have hmem := congrArg (· ++ beyond) hline
      simpa [Numeral.text, IsNumber.numeral] using hmem
    · rw [h₁.scanned_eq hfirst, h₂.scanned_eq hsecond]

/-- For every receive buffer and every segment that is cut out of it: `FindSeek` decides by the
grammar, and by nothing behind the segment, exactly if the line is not lenient. -/
theorem findSeek_grammar_iff {bufferPtr : List Byte} {bufferLen : ℕ}
    (h : bufferLen ≤ bufferPtr.length) {seg : Segment}
    (hseg : seg ∈ segments bufferPtr bufferLen 0 0) :
    GrammarLaw seg ↔ ¬ Lenient seg.bytes.dropLast := by
  obtain ⟨line, hline⟩ := exists_line_of_mem_segments h hseg
  have hptr : seg.segmentPtr = line ++ newline :: seg.segmentPtr.drop seg.segmentLen := by
    conv_lhs => rw [← List.take_append_drop seg.segmentLen seg.segmentPtr]
    change seg.bytes ++ _ = _
    rw [hline, List.append_assoc, List.singleton_append]
  have hbeyond : ∀ beyond, seg.bytes ++ beyond = line ++ newline :: beyond := by
    intro beyond
    rw [hline, List.append_assoc, List.singleton_append]
  rw [hline, List.dropLast_concat]
  constructor
  · rintro ⟨hiff, hsame⟩ hlenient
    obtain ⟨beyond, st, hst⟩ := hlenient.exists_findSeek
    rw [← hbeyond, hsame, hiff, hline] at hst
    exact hlenient.not_isCommand st hst
  · intro hstrict
    refine ⟨fun st => ?_, fun beyond => ?_⟩
    · rw [hptr, hline]
      exact findSeek_of_not_lenient hstrict _ st
    · rw [hptr, hbeyond]
      apply Option.ext
      intro st
      rw [findSeek_of_not_lenient hstrict, findSeek_of_not_lenient hstrict]

/-- The line `AESDCHAR_IOCSEEKTO:1,2`, and another behind it. -/
def commandSegment : Segment :=
  ⟨aesdSocketIocString ++ [49, 44, 50, 10, 97, 10], aesdSocketIocString.length + 4⟩

/-- The line `AESDCHAR_IOCSEEKTO:1,2 x`, and another behind it. -/
def junkSegment : Segment :=
  ⟨aesdSocketIocString ++ [49, 44, 50, 32, 120, 10, 97, 10], aesdSocketIocString.length + 6⟩

lemma commandSegment_isCommand : IsCommand commandSegment.bytes ⟨1, 2⟩ :=
  ⟨[49], [50], ⟨by simp, List.forall_mem_singleton.mpr rfl⟩,
    ⟨by simp, List.forall_mem_singleton.mpr rfl⟩, by decide, by decide, by decide⟩

lemma junkSegment_lenient : Lenient junkSegment.bytes.dropLast :=
  .loose ⟨[], [], [49], by simp, by simp, by simp, List.forall_mem_singleton.mpr rfl⟩
    ⟨[], [], [50], by simp, by simp, by simp, List.forall_mem_singleton.mpr rfl⟩ [32, 120]
    (stops_cons.mpr rfl) (by simp)

/-- The first line is decided by the grammar, and the second is not. -/
theorem findSeek_grammar_iff_command :
    GrammarLaw commandSegment ∧ findSeek commandSegment.segmentPtr = some ⟨1, 2⟩ ∧
      ¬ GrammarLaw junkSegment := by
  have hcommand : commandSegment ∈
      segments commandSegment.segmentPtr commandSegment.segmentPtr.length 0 0 := by decide
  have hjunk : junkSegment ∈
      segments junkSegment.segmentPtr junkSegment.segmentPtr.length 0 0 := by decide
  refine ⟨(findSeek_grammar_iff le_rfl hcommand).mpr ?_, by decide, ?_⟩
  · intro hlenient
    exact hlenient.not_isCommand ⟨1, 2⟩ commandSegment_isCommand
  · intro hlaw
    exact (findSeek_grammar_iff le_rfl hjunk).mp hlaw junkSegment_lenient

/-- The line is taken for a command, although it is none, and would not be stored. -/
theorem findSeek_accepts_junk :
    junkSegment ∈ segments junkSegment.segmentPtr junkSegment.segmentPtr.length 0 0 ∧
    findSeek junkSegment.segmentPtr = some ⟨1, 2⟩ ∧ ¬ IsCommand junkSegment.bytes ⟨1, 2⟩ :=
  ⟨by decide, by decide, junkSegment_lenient.not_isCommand ⟨1, 2⟩⟩

end Aesd
