import Lunatik.Verified.NumeralValues
import Lunatik.Verified.BufferAccess

/-! # Numbers and their texts

What `luaO_str2d` accepts, over all strings, and the way from a number to its text and back.

A numeral is a text with a digit in it.  `simple_strtol` and `simple_strtoul` step over a minus and
a `0x` before they look for a digit, so `luaO_str2d` takes these without any.
-/

namespace Lunatik.Verified

open Lunatik.Lua Lunatik.Lua.LexGrammar Lunatik.Core Lunatik.Library

/-! ## Numerals -/

/-- A sign or prefix, and digits behind it: the number that they stand for. -/
inductive Spells : List UInt8 → List UInt8 → Int → Prop where
  | decimal {digits : List UInt8} (all : digits.all isdigit = true) :
      Spells [] digits (decimalValue digits)
  | negative {digits : List UInt8} (all : digits.all isdigit = true) :
      Spells [45] digits (-(decimalValue digits : Int))
  | hexadecimal {mark : UInt8} {digits : List UInt8} (isMark : mark = 120 ∨ mark = 88)
      (all : digits.all isxdigit = true) :
      Spells [48, mark] digits (hexValue digits)

/-- A text that is `lead` and `digits` with white space behind them. -/
structure Spelling (text : List UInt8) (v : Int) where
  lead : List UInt8
  digits : List UInt8
  blanks : List UInt8
  text_eq : text = lead ++ (digits ++ blanks)
  spells : Spells lead digits v
  blank : blanks.all isspace = true

/-- The whole string is a numeral with the value `v`. -/
def IsNumeral (s : List UInt8) (v : Int) : Prop := ∃ sp : Spelling s v, sp.digits ≠ []

/-- A minus or a `0x` with white space behind it. -/
def IsDigitless (t : List UInt8) : Prop :=
  ∃ lead blanks, (lead = [45] ∨ IsHexPrefix lead) ∧ t = lead ++ blanks ∧ blanks.all isspace = true

/-- What the kernel's functions find in a C string: all of a numeral but its digits. -/
def IsRead (t : List UInt8) (v : Int) : Prop := ∃ sp : Spelling t v, sp.lead ++ sp.digits ≠ []

/-! ### Characters -/

theorem blank_cases {c : UInt8} (blank : isspace c = true) :
    c ∈ ([9, 10, 11, 12, 13, 32, 160] : List UInt8) := by
  simp only [isspace, Bool.or_eq_true, Bool.and_eq_true, decide_eq_true_eq, beq_iff_eq,
    UInt8.le_iff_toNat_le] at blank
  simp only [List.mem_cons, List.not_mem_nil, or_false, ← UInt8.toNat_inj] at blank ⊢
  simp at blank ⊢
  omega

theorem blank_not_hexDigit {c : UInt8} (blank : isspace c = true) : isxdigit c = false := by
  have listed := blank_cases blank
  simp only [List.mem_cons, List.not_mem_nil, or_false] at listed
  rcases listed with rfl | rfl | rfl | rfl | rfl | rfl | rfl <;> rfl

theorem hexDigit_of_digit {c : UInt8} (digit : isdigit c = true) : isxdigit c = true := by
  rw [isxdigit, digitValue, if_pos digit]
  rfl

theorem blank_not_digit {c : UInt8} (blank : isspace c = true) : isdigit c = false := by
  cases digit : isdigit c with
  | false => rfl
  | true => rw [← blank_not_hexDigit blank, hexDigit_of_digit digit]

theorem blank_not_zero {c : UInt8} (blank : isspace c = true) : c ≠ 0 := by
  rintro rfl
  cases blank

/-! ### Parts of a text -/

section Parts

variable {p : UInt8 → Bool} {digits blanks : List UInt8}

-- digits and blanks behind them are told apart by the digit test
theorem takeWhile_digits (apart : ∀ {c}, isspace c = true → p c = false)
    (all : digits.all p = true) (blank : blanks.all isspace = true) :
    (digits ++ blanks).takeWhile p = digits ∧ (digits ++ blanks).dropWhile p = blanks := by
  have holds : ∀ c ∈ digits, p c = true := List.all_eq_true.mp all
  rw [List.takeWhile_append_of_pos holds, List.dropWhile_append_of_pos holds]
  cases blanks with
  | nil => exact ⟨List.append_nil _, rfl⟩
  | cons c rest =>
    have fails : ¬ p c = true := by
      rw [apart (List.all_eq_true.mp blank c List.mem_cons_self)]
      exact Bool.false_ne_true
    rw [List.takeWhile_cons_of_neg fails, List.dropWhile_cons_of_neg fails]
    exact ⟨List.append_nil _, rfl⟩

theorem converted_blank (value : LuaNumber) (rest : List UInt8) :
    converted value rest = if rest.all isspace = true then some value else none := by
  rw [converted]
  by_cases none : rest = []
  · subst none
    rfl
  · rw [if_neg none]
    exact if_congr dropWhile_eq_nil rfl rfl

-- a character that is neither a hexadecimal digit nor blank stops both scans
theorem stopped {c : UInt8} {t : List UInt8} (member : c ∈ t) (notHex : isxdigit c = false)
    (visible : isspace c = false) : (t.dropWhile isxdigit).all isspace = false := by
  rw [← Bool.not_eq_true, List.all_eq_true]
  intro blank
  rw [← List.takeWhile_append_dropWhile (p := isxdigit) (l := t), List.mem_append] at member
  rcases member with taken | left
  · rw [List.mem_takeWhile_imp taken] at notHex
    cases notHex
  · rw [blank c left] at visible
    cases visible

theorem mark_stops {t : List UInt8} (mark : t.head? = some 120 ∨ t.head? = some 88) :
    ∃ c ∈ t, isxdigit c = false ∧ isspace c = false ∧ (c = 120 ∨ c = 88) := by
  rcases mark with lower | upper
  · exact ⟨120, List.mem_of_head? lower, rfl, rfl, .inl rfl⟩
  · exact ⟨88, List.mem_of_head? upper, rfl, rfl, .inr rfl⟩

end Parts

/-! ## `luaO_str2d` on a C string -/

section CString

variable {t u : List UInt8}

theorem cstr_cstr (s : List UInt8) : cstr (cstr s) = cstr s := by
  rw [cstr, List.takeWhile_eq_self_iff]
  intro c member
  rw [cstr] at member
  exact List.mem_takeWhile_imp (p := fun c : UInt8 => decide (c ≠ 0)) member

theorem luaOStr2d_cstr (s : List UInt8) : luaOStr2d s = luaOStr2d (cstr s) := by
  simp only [luaOStr2d, cstr_cstr]

theorem cstr_eq_self : cstr t = t ↔ 0 ∉ t := by
  rw [cstr, List.takeWhile_eq_self_iff]
  constructor
  · intro nonzero member
    simpa using nonzero 0 member
  · intro absent c member
    have other : c ≠ 0 := fun zero => absent (zero ▸ member)
    simpa using other

theorem not_longer (u : List UInt8) (p : UInt8 → Bool) : (u.dropWhile p).length ≤ u.length :=
  (List.dropWhile_suffix p).length_le

theorem str2d_minus (whole : cstr (45 :: u) = 45 :: u) :
    luaOStr2d (45 :: u) = converted (-BitVec.ofNat 64 (decimalValue (u.takeWhile isdigit)))
      (u.dropWhile isdigit) := by
  have parsed : simpleStrtol (45 :: u) =
      (-BitVec.ofNat 64 (decimalValue (u.takeWhile isdigit)), u.dropWhile isdigit) := by
    rw [simpleStrtol, if_pos rfl, parseInteger_ten]
  have consumed : (u.dropWhile isdigit).length ≠ (45 :: u : List UInt8).length := by
    have shorter := not_longer u isdigit
    rw [List.length_cons]
    omega
  simp only [luaOStr2d, whole, parsed, consumed, if_false]
  split
  next mark =>
    -- the minus is no digit of a hexadecimal number
    have parsed16 : simpleStrtoul16 (45 :: u) = (BitVec.ofNat 64 0, 45 :: u) :=
      parseInteger_sixteen (45 :: u)
    obtain ⟨c, member, -, visible, -⟩ := mark_stops mark
    have left : (u.dropWhile isdigit).all isspace ≠ true := by
      intro blank
      rw [List.all_eq_true.mp blank c member] at visible
      cases visible
    rw [converted_blank, if_neg left, parsed16]
    rfl
  next => rfl

theorem str2d_hexadecimal {mark : UInt8} (isMark : mark = 120 ∨ mark = 88)
    (whole : cstr (48 :: mark :: u) = 48 :: mark :: u) :
    luaOStr2d (48 :: mark :: u) = converted (BitVec.ofNat 64 (hexValue (u.takeWhile isxdigit)))
      (u.dropWhile isxdigit) := by
  have left : (48 :: mark :: u).dropWhile isdigit = mark :: u := by
    rw [List.dropWhile_cons_of_pos (by decide), List.dropWhile_cons_of_neg]
    rcases isMark with rfl | rfl <;> decide
  have parsed : simpleStrtol (48 :: mark :: u) =
      (BitVec.ofNat 64 (decimalValue ((48 :: mark :: u).takeWhile isdigit)), mark :: u) := by
    rw [simpleStrtol, if_neg (by decide), parseInteger_ten, left]
  have parsed16 : simpleStrtoul16 (48 :: mark :: u) =
      (BitVec.ofNat 64 (hexValue (u.takeWhile isxdigit)), u.dropWhile isxdigit) := by
    rw [← parseInteger_sixteen]
    rcases isMark with rfl | rfl <;> rfl
  have consumed : (mark :: u).length ≠ (48 :: mark :: u).length := by simp
  have head : (mark :: u).head? = some 120 ∨ (mark :: u).head? = some 88 := by simpa using isMark
  simp only [luaOStr2d, whole, parsed, consumed, if_false, if_pos head, parsed16]
  rfl

-- a text that starts with neither
structure Plain (t : List UInt8) : Prop where
  notMinus : t.head? ≠ some 45
  notHex : ∀ mark u, t = 48 :: mark :: u → ¬ (mark = 120 ∨ mark = 88)

theorem Plain.strtoul_eq (plain : Plain t) : simpleStrtoul16 t = parseInteger 16 0 t := by
  rw [simpleStrtoul16.eq_def]
  split
  next u => exact absurd (.inl rfl) (plain.notHex 120 u rfl)
  next u => exact absurd (.inr rfl) (plain.notHex 88 u rfl)
  next => rfl

theorem Plain.strtol_eq (plain : Plain t) :
    simpleStrtol t = (BitVec.ofNat 64 (decimalValue (t.takeWhile isdigit)),
      t.dropWhile isdigit) := by
  cases t with
  | nil => rfl
  | cons c t =>
    have notMinus : c ≠ 45 := fun minus => plain.notMinus (congrArg some minus)
    rw [simpleStrtol, if_neg notMinus, parseInteger_ten]

theorem dropWhile_length_eq {p : UInt8 → Bool} :
    (t.dropWhile p).length = t.length ↔ t.takeWhile p = [] := by
  have split := congrArg List.length (List.takeWhile_append_dropWhile (p := p) (l := t))
  rw [List.length_append] at split
  rw [← List.length_eq_zero_iff]
  omega

theorem Plain.str2d_eq (plain : Plain t) (whole : cstr t = t) :
    luaOStr2d t = if t.takeWhile isdigit = [] then none
      else converted (BitVec.ofNat 64 (decimalValue (t.takeWhile isdigit)))
        (t.dropWhile isdigit) := by
  simp only [luaOStr2d, whole, plain.strtol_eq, dropWhile_length_eq]
  refine if_congr Iff.rfl rfl ?_
  split
  next mark =>
    obtain ⟨c, member, notHex, visible, -⟩ := mark_stops mark
    have inside : c ∈ t := (List.dropWhile_suffix (p := isdigit) (l := t)).subset member
    have left : (t.dropWhile isdigit).all isspace ≠ true := by
      intro blank
      rw [List.all_eq_true.mp blank c member] at visible
      cases visible
    have left16 : (t.dropWhile isxdigit).all isspace ≠ true := by
      rw [stopped inside notHex visible]
      exact Bool.false_ne_true
    have none := converted_blank (BitVec.ofNat 64 (hexValue (t.takeWhile isxdigit)))
      (t.dropWhile isxdigit)
    rw [if_neg left16] at none
    rw [converted_blank, if_neg left, plain.strtoul_eq, parseInteger_sixteen]
    exact none
  next => rfl

/-! ### What is read -/

theorem Plain.of_digits {digits blanks : List UInt8} (all : digits.all isdigit = true)
    (blank : blanks.all isspace = true) : Plain (digits ++ blanks) where
  notMinus := by
    intro minus
    have member := List.mem_of_head? minus
    rcases List.mem_append.mp member with digit | space
    · cases List.all_eq_true.mp all 45 digit
    · cases List.all_eq_true.mp blank 45 space
  notHex := by
    rintro mark u eq isMark
    have member : mark ∈ digits ++ blanks := by simp [eq]
    rcases List.mem_append.mp member with digit | space
    · have holds := List.all_eq_true.mp all mark digit
      rcases isMark with rfl | rfl <;> cases holds
    · have holds := List.all_eq_true.mp blank mark space
      rcases isMark with rfl | rfl <;> cases holds

theorem luaOStr2d_spelling {v : Int} (sp : Spelling t v) (some' : sp.lead ++ sp.digits ≠ [])
    (whole : cstr t = t) : luaOStr2d t = some (BitVec.ofInt 64 v) := by
  obtain ⟨lead, digits, blanks, rfl, spells, blank⟩ := sp
  cases spells with
  | decimal all =>
    obtain ⟨taken, left⟩ := takeWhile_digits blank_not_digit all blank
    have more : digits ≠ [] := some'
    rw [List.nil_append] at whole ⊢
    rw [(Plain.of_digits all blank).str2d_eq whole, taken, left, if_neg more, converted_blank,
      if_pos blank, BitVec.ofInt_natCast]
  | negative all =>
    obtain ⟨taken, left⟩ := takeWhile_digits blank_not_digit all blank
    rw [List.singleton_append] at whole ⊢
    rw [str2d_minus whole, taken, left, converted_blank, if_pos blank, BitVec.ofInt_neg,
      BitVec.ofInt_natCast]
  | hexadecimal isMark all =>
    obtain ⟨taken, left⟩ := takeWhile_digits blank_not_hexDigit all blank
    simp only [List.cons_append, List.nil_append] at whole ⊢
    rw [str2d_hexadecimal isMark whole, taken, left, converted_blank, if_pos blank,
      BitVec.ofInt_natCast]

theorem all_takeWhile (p : UInt8 → Bool) (u : List UInt8) : (u.takeWhile p).all p = true :=
  List.all_eq_true.mpr fun _ member => List.mem_takeWhile_imp member

theorem isRead_of_luaOStr2d {n : LuaNumber} (whole : cstr t = t) (read : luaOStr2d t = some n) :
    ∃ v, IsRead t v ∧ BitVec.ofInt 64 v = n := by
  have split (p : UInt8 → Bool) (u : List UInt8) : u = u.takeWhile p ++ u.dropWhile p :=
    List.takeWhile_append_dropWhile.symm
  by_cases minus : ∃ u, t = 45 :: u
  · obtain ⟨u, rfl⟩ := minus
    rw [str2d_minus whole, converted_blank] at read
    split at read
    next blank =>
      refine ⟨_, ⟨⟨[45], _, _, congrArg (45 :: ·) (split isdigit u),
        .negative (all_takeWhile isdigit u), blank⟩, by simp⟩, ?_⟩
      rw [BitVec.ofInt_neg, BitVec.ofInt_natCast]
      exact Option.some.inj read
    next => cases read
  by_cases hex : ∃ mark u, t = 48 :: mark :: u ∧ (mark = 120 ∨ mark = 88)
  · obtain ⟨mark, u, rfl, isMark⟩ := hex
    rw [str2d_hexadecimal isMark whole, converted_blank] at read
    split at read
    next blank =>
      refine ⟨_, ⟨⟨[48, mark], _, _, congrArg (48 :: mark :: ·) (split isxdigit u),
        .hexadecimal isMark (all_takeWhile isxdigit u), blank⟩, by simp⟩, ?_⟩
      rw [BitVec.ofInt_natCast]
      exact Option.some.inj read
    next => cases read
  have plain : Plain t := by
    refine ⟨fun head => ?_, fun mark u eq isMark => hex ⟨mark, u, eq, isMark⟩⟩
    obtain ⟨u, eq⟩ := List.head?_eq_some_iff.mp head
    exact minus ⟨u, eq⟩
  rw [plain.str2d_eq whole, converted_blank] at read
  split at read
  next => cases read
  next digits =>
    split at read
    next blank =>
      refine ⟨_, ⟨⟨[], _, _, split isdigit t, .decimal (all_takeWhile isdigit t), blank⟩,
        by simpa using digits⟩, ?_⟩
      rw [BitVec.ofInt_natCast]
      exact Option.some.inj read
    next => cases read

end CString

/-- The accept set of `luaO_str2d`, and the number that it gives. -/
theorem luaOStr2d_eq_some {s : List UInt8} {n : LuaNumber} :
    luaOStr2d s = some n ↔ ∃ v, IsRead (cstr s) v ∧ BitVec.ofInt 64 v = n := by
  rw [luaOStr2d_cstr]
  constructor
  · exact isRead_of_luaOStr2d (cstr_cstr s)
  · rintro ⟨v, ⟨sp, some'⟩, rfl⟩
    exact luaOStr2d_spelling sp some' (cstr_cstr s)

/-! ## Numerals against what is read -/

/-- The value that a text has by how it starts. -/
def textValue : List UInt8 → Int
  | 45 :: u => -(decimalValue (u.takeWhile isdigit) : Int)
  | 48 :: 120 :: u => hexValue (u.takeWhile isxdigit)
  | 48 :: 88 :: u => hexValue (u.takeWhile isxdigit)
  | t => decimalValue (t.takeWhile isdigit)

theorem Plain.textValue_eq {t : List UInt8} (plain : Plain t) :
    textValue t = decimalValue (t.takeWhile isdigit) := by
  rw [textValue.eq_def]
  split
  next u => exact absurd rfl plain.notMinus
  next u => exact absurd (.inl rfl) (plain.notHex 120 u rfl)
  next u => exact absurd (.inr rfl) (plain.notHex 88 u rfl)
  next => rfl

theorem Spelling.value_eq {t : List UInt8} {v : Int} (sp : Spelling t v) : v = textValue t := by
  obtain ⟨lead, digits, blanks, rfl, spells, blank⟩ := sp
  cases spells with
  | decimal all =>
    rw [List.nil_append, (Plain.of_digits all blank).textValue_eq,
      (takeWhile_digits blank_not_digit all blank).1]
  | negative all =>
    rw [List.singleton_append, textValue, (takeWhile_digits blank_not_digit all blank).1]
  | hexadecimal isMark all =>
    have taken := (takeWhile_digits blank_not_hexDigit all blank).1
    rcases isMark with rfl | rfl
    all_goals rw [List.cons_append, List.singleton_append, textValue, taken]

theorem Spelling.nonzero {t : List UInt8} {v : Int} (sp : Spelling t v) : 0 ∉ t := by
  obtain ⟨lead, digits, blanks, rfl, spells, blank⟩ := sp
  have blanks0 : 0 ∉ blanks := fun member => blank_not_zero (List.all_eq_true.mp blank 0 member) rfl
  rw [List.mem_append, List.mem_append]
  cases spells with
  | decimal all =>
    have digits0 : 0 ∉ digits := fun member => by cases List.all_eq_true.mp all 0 member
    simp [digits0, blanks0]
  | negative all =>
    have digits0 : 0 ∉ digits := fun member => by cases List.all_eq_true.mp all 0 member
    simp [digits0, blanks0]
  | hexadecimal isMark all =>
    have digits0 : 0 ∉ digits := fun member => by cases List.all_eq_true.mp all 0 member
    rcases isMark with rfl | rfl <;> simp [digits0, blanks0]

/-- The strings on which `luaO_str2d` reads numerals only, with the values that they have. -/
structure PlainlyWritten (s : List UInt8) : Prop where
  -- no number is in front of a zero byte
  whole : 0 ∈ s → ∀ v, ¬ IsNumeral (cstr s) v
  -- digits follow a minus or a prefix
  digits : ¬ IsDigitless (cstr s)
  -- the number fits in a `long`
  fits : ∀ v, IsNumeral s v → -2 ^ 63 ≤ v ∧ v < 2 ^ 63

theorem IsNumeral.isRead {t : List UInt8} {v : Int} (numeral : IsNumeral t v) : IsRead t v := by
  obtain ⟨sp, some⟩ := numeral
  exact ⟨sp, List.append_ne_nil_of_right_ne_nil _ some⟩

theorem IsNumeral.cstr_eq {s : List UInt8} {v : Int} (numeral : IsNumeral s v) : cstr s = s := by
  obtain ⟨sp, -⟩ := numeral
  exact cstr_eq_self.mpr sp.nonzero

theorem IsRead.cases {t : List UInt8} {v : Int} (read : IsRead t v) :
    IsNumeral t v ∨ IsDigitless t := by
  obtain ⟨sp, some⟩ := read
  by_cases none : sp.digits = []
  · right
    obtain ⟨lead, digits, blanks, rfl, spells, blank⟩ := sp
    obtain rfl : digits = [] := none
    refine ⟨lead, blanks, ?_, rfl, blank⟩
    cases spells with
    | decimal => exact absurd rfl some
    | negative => exact .inl rfl
    | hexadecimal isMark =>
      right
      rcases isMark with rfl | rfl
      · exact .inl rfl
      · exact .inr rfl
  · exact .inl ⟨sp, none⟩

theorem IsDigitless.isRead {t : List UInt8} (bare : IsDigitless t) : IsRead t 0 := by
  obtain ⟨lead, blanks, lead_eq, rfl, blank⟩ := bare
  rcases lead_eq with rfl | rfl | rfl
  · exact ⟨⟨[45], [], blanks, rfl, .negative rfl, blank⟩, List.cons_ne_nil _ _⟩
  · exact ⟨⟨[48, 120], [], blanks, rfl, .hexadecimal (.inl rfl) rfl, blank⟩, List.cons_ne_nil _ _⟩
  · exact ⟨⟨[48, 88], [], blanks, rfl, .hexadecimal (.inr rfl) rfl, blank⟩, List.cons_ne_nil _ _⟩

-- blank characters have no digit in front of them
theorem no_digits {p : UInt8 → Bool} {digits rest blanks : List UInt8}
    (apart : ∀ {c}, isspace c = true → p c = false) (all : digits.all p = true)
    (blank : blanks.all isspace = true) (eq : blanks = digits ++ rest) : digits = [] := by
  cases digits with
  | nil => rfl
  | cons d digits =>
    have isDigit : p d = true := List.all_eq_true.mp all d List.mem_cons_self
    have isBlank : isspace d = true := List.all_eq_true.mp blank d (by simp [eq])
    rw [apart isBlank] at isDigit
    cases isDigit

theorem IsDigitless.not_numeral {t : List UInt8} (bare : IsDigitless t) (v : Int) :
    ¬ IsNumeral t v := by
  rintro ⟨⟨lead', digits, blanks', eq, spells, blank'⟩, some⟩
  obtain ⟨lead, blanks, lead_eq, rfl, blank⟩ := bare
  refine some ?_
  have visible {c : UInt8} (member : c ∈ digits ++ blanks') (all : digits.all isdigit = true) :
      isdigit c = true ∨ isspace c = true :=
    (List.mem_append.mp member).imp (List.all_eq_true.mp all c) (List.all_eq_true.mp blank' c)
  rcases lead_eq with rfl | rfl | rfl
  · cases spells with
    | decimal all =>
      have member : 45 ∈ [] ++ (digits ++ blanks') := by
        rw [← eq]
        simp
      rcases visible member all with h | h <;> cases h
    | negative all => exact no_digits blank_not_digit all blank (List.cons.inj eq).2
    | hexadecimal => cases (List.cons.inj eq).1
  · cases spells with
    | decimal all =>
      have member : 120 ∈ [] ++ (digits ++ blanks') := by
        rw [← eq]
        simp
      rcases visible member all with h | h <;> cases h
    | negative => cases (List.cons.inj eq).1
    | hexadecimal isMark all =>
      exact no_digits blank_not_hexDigit all blank (List.cons.inj (List.cons.inj eq).2).2
  · cases spells with
    | decimal all =>
      have member : 88 ∈ [] ++ (digits ++ blanks') := by
        rw [← eq]
        simp
      rcases visible member all with h | h <;> cases h
    | negative => cases (List.cons.inj eq).1
    | hexadecimal isMark all =>
      exact no_digits blank_not_hexDigit all blank (List.cons.inj (List.cons.inj eq).2).2

/-! ### The whole string -/

theorem luaVTonumber_numeral {s : List UInt8} (plainly : PlainlyWritten s) (n : LuaNumber) :
    luaVTonumber (.string s) = some n ↔ IsNumeral s n.toInt := by
  rw [luaVTonumber, luaOStr2d_eq_some]
  constructor
  · rintro ⟨v, read, rfl⟩
    have numeral : IsNumeral (cstr s) v := read.cases.resolve_right plainly.digits
    have same : cstr s = s := cstr_eq_self.mpr fun zero => plainly.whole zero v numeral
    rw [same] at numeral
    have bounds := plainly.fits v numeral
    have value : (BitVec.ofInt 64 v).toInt = v :=
      BitVec.toInt_ofInt_eq_self (by decide) (by simpa using bounds.1) (by simpa using bounds.2)
    rwa [value]
  · intro numeral
    refine ⟨n.toInt, ?_, BitVec.ofInt_toInt⟩
    rw [numeral.cstr_eq]
    exact numeral.isRead

/-- A string is converted as a numeral exactly when it is plainly written: it is no number with a
zero byte behind it, has digits behind a sign or prefix, and stands for a `long`. -/
theorem string_conversion_iff (s : List UInt8) :
    (∀ n, luaVTonumber (.string s) = some n ↔ IsNumeral s n.toInt) ↔ PlainlyWritten s := by
  constructor
  · intro agrees
    have numeral {v : Int} (read : IsRead (cstr s) v) : IsNumeral s (BitVec.ofInt 64 v).toInt := by
      rw [← agrees, luaVTonumber, luaOStr2d_eq_some]
      exact ⟨v, read, rfl⟩
    constructor
    case whole =>
      intro zero v inFront
      obtain ⟨sp, -⟩ := numeral inFront.isRead
      exact sp.nonzero zero
    case digits =>
      intro bare
      have found := numeral bare.isRead
      have same : cstr s = s := found.cstr_eq
      rw [same] at bare
      exact bare.not_numeral _ found
    case fits =>
      intro v found
      have read : IsRead (cstr s) v := by
        rw [found.cstr_eq]
        exact found.isRead
      obtain ⟨sp, -⟩ := found
      obtain ⟨sp', -⟩ := numeral read
      have value : v = (BitVec.ofInt 64 v).toInt := sp.value_eq.trans sp'.value_eq.symm
      rw [value]
      exact ⟨BitVec.le_toInt _, BitVec.toInt_lt⟩
  · exact luaVTonumber_numeral

/-- A minus alone is read as zero. -/
theorem minus_is_zero : luaVTonumber (.string [45]) = some 0 ∧
    ¬ ∀ n, luaVTonumber (.string [45]) = some n ↔ IsNumeral [45] n.toInt := by
  have read : luaVTonumber (.string [45]) = some 0 := by decide
  refine ⟨read, fun agrees => ?_⟩
  have bare : IsDigitless [45] := ⟨[45], [], .inl rfl, rfl, rfl⟩
  exact bare.not_numeral _ ((agrees 0).mp read)

/-! ## Numbers to strings and back -/

/-- `LUAI_MAXNUMBER2STR`: the size of the buffer that `luaV_tostring` prints to. -/
def luaiMaxnumber2str : Nat := 32

theorem decimalDigits_acc (fuel n : Nat) (acc : List UInt8) :
    decimalDigits fuel n acc = decimalDigits fuel n [] ++ acc := by
  induction fuel generalizing n acc with
  | zero => rfl
  | succ fuel ih =>
    rw [decimalDigits, decimalDigits]
    split
    next => rfl
    next =>
      rw [ih, ih _ [_], List.append_assoc]
      rfl

theorem decimalDigits_succ (fuel n : Nat) (large : ¬ n < 10) :
    decimalDigits (fuel + 1) n [] =
      decimalDigits fuel (n / 10) [] ++ [UInt8.ofNat (48 + n % 10)] := by
  rw [decimalDigits, if_neg large, decimalDigits_acc]

theorem decimalDigits_length (fuel n : Nat) : (decimalDigits fuel n []).length ≤ fuel := by
  induction fuel generalizing n with
  | zero => exact Nat.le_refl 0
  | succ fuel ih =>
    by_cases small : n < 10
    · rw [decimalDigits, if_pos small]
      exact Nat.succ_le_succ (Nat.zero_le fuel)
    · rw [decimalDigits_succ fuel n small, List.length_append]
      exact Nat.succ_le_succ (ih (n / 10))

theorem digit_char {d : Nat} (small : d < 10) :
    isdigit (UInt8.ofNat (48 + d)) = true ∧ (UInt8.ofNat (48 + d)).toNat - 48 = d := by
  have listed : ∀ d < 10, isdigit (UInt8.ofNat (48 + d)) = true ∧
      (UInt8.ofNat (48 + d)).toNat - 48 = d := by decide
  exact listed d small

theorem decimalValue_snoc (digits : List UInt8) (c : UInt8) :
    decimalValue (digits ++ [c]) = 10 * decimalValue digits + (c.toNat - 48) :=
  List.foldl_append

-- what `%lu` prints is read as the number, when there is room for its digits
theorem decimalDigits_spec (fuel n : Nat) (room : n < 10 ^ fuel) (some' : fuel ≠ 0) :
    (decimalDigits fuel n []).all isdigit = true ∧ decimalValue (decimalDigits fuel n []) = n ∧
      decimalDigits fuel n [] ≠ [] := by
  induction fuel generalizing n with
  | zero => exact absurd rfl some'
  | succ fuel ih =>
    by_cases small : n < 10
    · obtain ⟨digit, value⟩ := digit_char small
      rw [decimalDigits, if_pos small]
      refine ⟨by simpa using digit, ?_, List.cons_ne_nil _ _⟩
      rw [decimalValue, List.foldl_cons, List.foldl_nil, value, Nat.mul_zero, Nat.zero_add]
    · have more : fuel ≠ 0 := by
        rintro rfl
        omega
      have shorter : n / 10 < 10 ^ fuel := by
        rw [Nat.pow_succ] at room
        omega
      obtain ⟨all, value, -⟩ := ih (n / 10) shorter more
      obtain ⟨digit, last⟩ := digit_char (Nat.mod_lt n (by decide : 0 < 10))
      rw [decimalDigits_succ fuel n small]
      refine ⟨?_, ?_, by simp⟩
      · rw [List.all_append, all, Bool.true_and]
        simpa only [List.all_cons, List.all_nil, Bool.and_true] using digit
      · rw [decimalValue_snoc, value, last]
        omega

theorem luaNumber2str_numeral (n : LuaNumber) : IsNumeral (luaNumber2str n) n.toInt := by
  have low := BitVec.le_toInt n
  have high := BitVec.toInt_lt (x := n)
  rw [luaNumber2str]
  split
  next negative =>
    have sign : n.toInt < 0 := by simpa [BitVec.slt] using negative
    obtain ⟨all, value, some⟩ := decimalDigits_spec 20 n.toInt.natAbs
      (by omega) (by decide)
    generalize decimalDigits 20 n.toInt.natAbs [] = digits at all value some ⊢
    refine ⟨⟨[45], digits, [], congrArg (45 :: ·) (List.append_nil digits).symm, ?_, rfl⟩, some⟩
    have spells := Spells.negative all
    rw [value] at spells
    have same : -(n.toInt.natAbs : Int) = n.toInt := by omega
    rwa [same] at spells
  next other =>
    have sign : ¬ n.toInt < 0 := by simpa [BitVec.slt] using other
    obtain ⟨all, value, some⟩ := decimalDigits_spec 20 n.toNat
      (by omega) (by decide)
    generalize decimalDigits 20 n.toNat [] = digits at all value some ⊢
    refine ⟨⟨[], digits, [], (List.append_nil digits).symm, ?_, rfl⟩, some⟩
    have spells := Spells.decimal all
    rw [value] at spells
    have same : (n.toNat : Int) = n.toInt := by
      rw [BitVec.toInt_eq_toNat_cond] at sign ⊢
      split at sign <;> omega
    rwa [same] at spells

theorem luaVTonumber_luaNumber2str (n : LuaNumber) :
    luaVTonumber (.string (luaNumber2str n)) = some n := by
  have numeral := luaNumber2str_numeral n
  rw [luaVTonumber, luaOStr2d_eq_some, numeral.cstr_eq]
  exact ⟨n.toInt, numeral.isRead, BitVec.ofInt_toInt⟩

theorem luaNumber2str_length (n : LuaNumber) :
    (luaNumber2str n).length + 1 ≤ luaiMaxnumber2str := by
  have digits := decimalDigits_length 20
  rw [luaNumber2str, luaiMaxnumber2str]
  split
  next =>
    have bound := digits n.toInt.natAbs
    rw [List.length_cons]
    omega
  next =>
    have bound := digits n.toNat
    omega

/-! ### The text in place of the number -/

section Operands

variable {v w : TValue}

-- what an access gives: the value in the slot of the result, or the error
def replyAt (val : Nat) : EStateM.Result Stop LuaState PUnit → Except Stop TValue
  | .ok _ t => .ok (t.stack val)
  | .error stop _ => .error stop

-- the heap that an access leaves, or the error
def storedHeap : EStateM.Result Stop LuaState PUnit → Except Stop Heap
  | .ok _ t => .ok t.heap
  | .error stop _ => .error stop

/-- The interpreter and the buffer library take `v` for the number that `w` is. -/
structure ActsAs (v w : TValue) : Prop where
  left : ∀ f a other op, (luaVTonumber other).isSome = true →
    arithOp f a v other op = arithOp f a w other op
  right : ∀ f a other op, (luaVTonumber other).isSome = true →
    arithOp f a other v op = arithOp f a other w op
  unary : ∀ f a, arith f a v v .unm = arith f a w w .unm
  bound : ∀ f r msg, (do Activation.setReg f r v; tonumberAt f r msg) =
    (do Activation.setReg f r w; tonumberAt f r msg)
  index : ∀ getn registry s u val, IsBuffer registry s.heap u →
    replyAt val (bufIndex getn registry (.userdata u) v val s) =
      replyAt val (bufIndex getn registry (.userdata u) w val s)
  newindex : ∀ getn registry s u val, IsBuffer registry s.heap u →
    storedHeap (bufNewindex getn registry (.userdata u) v val s) =
      storedHeap (bufNewindex getn registry (.userdata u) w val s)

theorem arithOp_numbers {nb nc : LuaNumber} {rb rc : TValue} (left : luaVTonumber rb = some nb)
    (right : luaVTonumber rc = some nc) (f : Activation) (a : Nat) (op : ArithOp) :
    arithOp f a rb rc op = vmNum op nb nc >>= fun n => f.setReg a (.number n) := by
  rw [arithOp.eq_def]
  split
  next =>
    cases left
    cases right
    rfl
  next => rw [arith, left, right]

theorem arith_numbers {nb nc : LuaNumber} {rb rc : TValue} (left : luaVTonumber rb = some nb)
    (right : luaVTonumber rc = some nc) (f : Activation) (a : Nat) (op : ArithOp) :
    arith f a rb rc op = vmNum op nb nc >>= fun n => f.setReg a (.number n) := by
  rw [arith, left, right]

-- the register holds the number in the end, whatever it was written as
theorem bound_number {n : LuaNumber} (number : luaVTonumber v = some n) (f : Activation) (r : Nat)
    (msg : String) :
    (do f.setReg r v; tonumberAt f r msg) = f.setReg r (.number n) := by
  funext s
  by_cases inside : r < f.p.maxReg
  · have read : f.reg r { s with stack := setAt s.stack (f.ci.base + r) v } =
        .ok v { s with stack := setAt s.stack (f.ci.base + r) v } := by
      rw [Activation.reg_run inside]
      exact congrArg (EStateM.Result.ok · _) (setAt_same _ _ _)
    rw [bind_ok (Activation.setReg_run inside v s), tonumberAt, bind_ok read, number]
    dsimp only
    rw [Activation.setReg_run inside, Activation.setReg_run inside]
    dsimp only
    rw [setAt_setAt]
  · have fault : ∀ w s, f.setReg r w s = .error (.fault (.register r)) s := by
      intro w s
      rw [Activation.setReg, if_neg inside]
      rfl
    rw [bind_error (fault v s), fault]

theorem number_itself (n : LuaNumber) : luaVTonumber (.number n) = some n := rfl

theorem ActsAs.of_number {n : LuaNumber} (number : luaVTonumber v = some n) :
    ActsAs v (.number n) where
  left f a other op convertible := by
    obtain ⟨m, converted⟩ := Option.isSome_iff_exists.mp convertible
    rw [arithOp_numbers number converted, arithOp_numbers (number_itself n) converted]
  right f a other op convertible := by
    obtain ⟨m, converted⟩ := Option.isSome_iff_exists.mp convertible
    rw [arithOp_numbers converted number, arithOp_numbers converted (number_itself n)]
  unary f a := by
    rw [arith_numbers number number, arith_numbers (number_itself n) (number_itself n)]
  bound f r msg := by
    rw [bound_number number, bound_number (number_itself n)]
  index getn registry s u val buffer := by
    have text := bufIndex_run getn buffer v val
    have plain := bufIndex_run getn buffer (.number n) val
    have same : readChecks (s.heap.udata u).bytes.length v =
        readChecks (s.heap.udata u).bytes.length (.number n) := by
      rw [readChecks, number]
      rfl
    rw [same] at text
    cases checked : readChecks (s.heap.udata u).bytes.length (.number n) with
    | ok i =>
      rw [checked] at text plain
      obtain ⟨stack, -, ran⟩ := text
      obtain ⟨stack', -, ran'⟩ := plain
      rw [ran, ran', replyAt, replyAt]
      dsimp only
      rw [setAt_same, setAt_same]
    | error e =>
      rw [checked] at text plain
      obtain ⟨t, -, ran⟩ := text
      obtain ⟨t', -, ran'⟩ := plain
      rw [ran, ran', replyAt, replyAt]
  newindex getn registry s u val buffer := by
    have text := bufNewindex_run getn buffer v val
    have plain := bufNewindex_run getn buffer (.number n) val
    have same : writeChecks (s.heap.udata u).bytes.length v val =
        writeChecks (s.heap.udata u).bytes.length (.number n) val := by
      rw [writeChecks, number]
      rfl
    rw [same] at text
    cases checked : writeChecks (s.heap.udata u).bytes.length (.number n) val with
    | ok stored =>
      rw [checked] at text plain
      obtain ⟨stack, -, ran⟩ := text
      obtain ⟨stack', -, ran'⟩ := plain
      rw [ran, ran', storedHeap, storedHeap]
    | error e =>
      rw [checked] at text plain
      obtain ⟨t, -, ran⟩ := text
      obtain ⟨t', -, ran'⟩ := plain
      rw [ran, ran', storedHeap, storedHeap]

end Operands

/-- The text of a number fits in the buffer, is read as the number, and can stand for it. -/
theorem number_text_is_number (n : LuaNumber) :
    ∃ text, tostring (.number n) = some text ∧ text.length + 1 ≤ luaiMaxnumber2str ∧
      luaVTonumber (.string text) = some n ∧ ActsAs (.string text) (.number n) :=
  ⟨luaNumber2str n, rfl, luaNumber2str_length n, luaVTonumber_luaNumber2str n,
    .of_number (luaVTonumber_luaNumber2str n)⟩

end Lunatik.Verified
