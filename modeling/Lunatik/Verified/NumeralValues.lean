import Lunatik.Lua.LexGrammar
import Mathlib.Data.List.TakeWhile

/-! # The values of numerals

`luaO_str2d` on the bytes that `read_numeral` has saved, against the value that the grammar gives
them.  They differ for `0x` alone, which `simple_strtoul` reads as zero.
-/

namespace Lunatik.Verified

open Lunatik.Lua Lunatik.Lua.LexGrammar

/-! ## `_parse_integer` -/

def isDigitIn (base : Nat) (c : UInt8) : Bool := (digitValue c).any (· < base)

-- the value of a string of digits, behind `n`
def valueIn (base n : Nat) (digits : List UInt8) : Nat :=
  digits.foldl (fun n c => base * n + (digitValue c).getD 0) n

theorem digitValue_bound {c : UInt8} {v : Nat} (value : digitValue c = some v) :
    v < 16 ∧ (v < 10 ↔ isdigit c = true) := by
  rw [digitValue] at value
  split at value
  next digit =>
    obtain rfl := Option.some.inj value
    have bounds : 48 ≤ c.toNat ∧ c.toNat ≤ 57 := by
      simpa [isdigit, UInt8.le_iff_toNat_le] using digit
    simp only [digit, iff_true]
    omega
  next other =>
    rw [iff_false_right other]
    split at value
    next lower =>
      obtain rfl := Option.some.inj value
      have bounds : 97 ≤ c.toNat ∧ c.toNat ≤ 102 := by simpa [UInt8.le_iff_toNat_le] using lower
      omega
    next =>
      split at value
      next upper =>
        obtain rfl := Option.some.inj value
        have bounds : 65 ≤ c.toNat ∧ c.toNat ≤ 70 := by simpa [UInt8.le_iff_toNat_le] using upper
        omega
      next => cases value

theorem digitValue_none {c : UInt8} (value : digitValue c = none) : isdigit c = false := by
  cases digit : isdigit c with
  | false => rfl
  | true => simp [digitValue, digit] at value

theorem isDigitIn_ten : isDigitIn 10 = isdigit := by
  funext c
  rw [isDigitIn]
  cases value : digitValue c with
  | none => exact (digitValue_none value).symm
  | some v =>
    have bound := (digitValue_bound value).2
    rw [Option.any_some, Bool.eq_iff_iff, decide_eq_true_eq]
    exact bound

theorem isDigitIn_sixteen : isDigitIn 16 = isxdigit := by
  funext c
  rw [isDigitIn, isxdigit]
  cases value : digitValue c with
  | none => rfl
  | some v => simpa using (digitValue_bound value).1

theorem parseInteger_eq (base n : Nat) (s : List UInt8) :
    parseInteger base (BitVec.ofNat 64 n) s =
      (BitVec.ofNat 64 (valueIn base n (s.takeWhile (isDigitIn base))),
        s.dropWhile (isDigitIn base)) := by
  induction s generalizing n with
  | nil => rfl
  | cons c s ih =>
    cases value : digitValue c with
    | none =>
      have fails : ¬ isDigitIn base c = true := by simp [isDigitIn, value]
      simp only [parseInteger, value]
      rw [List.takeWhile_cons_of_neg fails, List.dropWhile_cons_of_neg fails]
      rfl
    | some v =>
      simp only [parseInteger, value]
      split
      next fits =>
        have holds : isDigitIn base c = true := by simpa [isDigitIn, value] using fits
        have step : BitVec.ofNat 64 n * BitVec.ofNat 64 base + BitVec.ofNat 64 v =
            BitVec.ofNat 64 (base * n + v) := by
          rw [BitVec.ofNat_add, BitVec.ofNat_mul, BitVec.mul_comm]
        rw [List.takeWhile_cons_of_pos holds, List.dropWhile_cons_of_pos holds, step, ih,
          valueIn, valueIn, List.foldl_cons, value]
        rfl
      next large =>
        have fails : ¬ isDigitIn base c = true := by simpa [isDigitIn, value] using large
        rw [List.takeWhile_cons_of_neg fails, List.dropWhile_cons_of_neg fails]
        rfl

/-! ## `luaO_str2d` -/

theorem parseInteger_ten (s : List UInt8) :
    parseInteger 10 0 s = (BitVec.ofNat 64 (decimalValue (s.takeWhile isdigit)),
      s.dropWhile isdigit) := by
  have parsed := parseInteger_eq 10 0 s
  rw [isDigitIn_ten] at parsed
  have same : valueIn 10 0 (s.takeWhile isdigit) = decimalValue (s.takeWhile isdigit) := by
    refine List.foldl_ext _ _ _ fun n c member => ?_
    have digit : isdigit c = true := List.mem_takeWhile_imp member
    rw [digitValue, if_pos digit]
    rfl
  rw [same] at parsed
  exact parsed

theorem parseInteger_sixteen (s : List UInt8) :
    parseInteger 16 0 s = (BitVec.ofNat 64 (hexValue (s.takeWhile isxdigit)),
      s.dropWhile isxdigit) := by
  have parsed := parseInteger_eq 16 0 s
  rw [isDigitIn_sixteen] at parsed
  exact parsed

/-- The saved text of a numeral: it starts with a digit, and no zero and no blank is in it. -/
structure Saved (s : List UInt8) : Prop where
  digit : ∃ d t, s = d :: t ∧ isdigit d = true
  noZero : ∀ c ∈ s, c ≠ 0
  noBlank : ∀ c ∈ s, isspace c = false

theorem Saved.cstr_eq {s : List UInt8} (saved : Saved s) : cstr (s ++ [0]) = s := by
  rw [cstr, List.takeWhile_append_of_pos]
  · simp
  · intro c member
    simpa using saved.noZero c member

theorem Saved.strtol_eq {s : List UInt8} (saved : Saved s) :
    simpleStrtol s = (BitVec.ofNat 64 (decimalValue (s.takeWhile isdigit)),
      s.dropWhile isdigit) := by
  obtain ⟨d, t, rfl, digit⟩ := saved.digit
  have notMinus : d ≠ 45 := by
    rintro rfl
    cases digit
  rw [simpleStrtol, if_neg notMinus, parseInteger_ten]

-- what is left behind the digits decides whether the conversion succeeds
def converted (value : LuaNumber) (rest : List UInt8) : Option LuaNumber :=
  if rest = [] then some value else if rest.dropWhile isspace = [] then some value else none

theorem Saved.converted_eq {s rest : List UInt8} (saved : Saved s) (value : LuaNumber)
    (part : rest <:+ s) :
    converted value rest = if rest = [] then some value else none := by
  cases rest with
  | nil => rfl
  | cons c rest =>
    have visible : ¬ isspace c = true := by
      simp [saved.noBlank c (part.subset List.mem_cons_self)]
    rw [converted, if_neg (List.cons_ne_nil c rest), List.dropWhile_cons_of_neg visible]

theorem Saved.str2d_eq {s : List UInt8} (saved : Saved s) :
    luaOStr2d (s ++ [0]) =
      if (s.dropWhile isdigit).head? = some 120 ∨ (s.dropWhile isdigit).head? = some 88 then
        converted (simpleStrtoul16 s).1 (simpleStrtoul16 s).2
      else converted (BitVec.ofNat 64 (decimalValue (s.takeWhile isdigit)))
        (s.dropWhile isdigit) := by
  have some : (s.dropWhile isdigit).length ≠ s.length := by
    obtain ⟨d, t, rfl, digit⟩ := saved.digit
    have shorter := (List.dropWhile_suffix (p := isdigit) (l := t)).length_le
    rw [List.dropWhile_cons_of_pos digit, List.length_cons]
    omega
  simp only [luaOStr2d, saved.cstr_eq, saved.strtol_eq, some, if_false]
  split <;> rfl

theorem dropWhile_eq_nil {p : UInt8 → Bool} {s : List UInt8} :
    s.dropWhile p = [] ↔ s.all p = true := by
  rw [List.dropWhile_eq_nil_iff, List.all_eq_true]

def IsHexPrefix (s : List UInt8) : Prop := s = [48, 120] ∨ s = [48, 88]
  deriving Decidable

-- `0x` and hexadecimal digits
theorem Saved.str2d_hex {x : UInt8} {digits : List UInt8} (saved : Saved (48 :: x :: digits))
    (mark : x = 120 ∨ x = 88) (more : digits ≠ []) :
    luaOStr2d (48 :: x :: digits ++ [0]) = numeralValue (48 :: x :: digits) := by
  have left : (48 :: x :: digits).dropWhile isdigit = x :: digits := by
    rw [List.dropWhile_cons_of_pos (by decide), List.dropWhile_cons_of_neg]
    rcases mark with rfl | rfl <;> decide
  have parsed : simpleStrtoul16 (48 :: x :: digits) = parseInteger 16 0 digits := by
    rcases mark with rfl | rfl <;> rfl
  have value : numeralValue (48 :: x :: digits) =
      if digits ≠ [] ∧ digits.all isxdigit then some (BitVec.ofNat 64 (hexValue digits))
          else none := by
    rcases mark with rfl | rfl <;> rfl
  rw [saved.str2d_eq, left, if_pos (by simpa using mark), parsed, parseInteger_sixteen, value,
    saved.converted_eq _ ((List.dropWhile_suffix _).trans (List.suffix_append [48, x] digits))]
  by_cases all : digits.all isxdigit = true
  · rw [if_pos (dropWhile_eq_nil.mpr all), if_pos ⟨more, all⟩, List.takeWhile_eq_self_iff.mpr]
    exact fun c member => List.all_eq_true.mp all c member
  · rw [if_neg fun none => all (dropWhile_eq_nil.mp none), if_neg fun h => all h.2]

theorem numeralValue_decimal {s : List UInt8} (some' : s ≠ [])
    (plain : ∀ x digits, s = 48 :: x :: digits → x ≠ 120 ∧ x ≠ 88) :
    numeralValue s = if s.all isdigit then some (BitVec.ofNat 64 (decimalValue s)) else none := by
  rw [numeralValue.eq_def]
  split
  next => exact absurd rfl some'
  next digits => exact absurd rfl (plain 120 digits rfl).1
  next digits => exact absurd rfl (plain 88 digits rfl).2
  next => rfl

theorem luaOStr2d_saved {s : List UInt8} (saved : Saved s) (plain : ¬ IsHexPrefix s) :
    luaOStr2d (s ++ [0]) = numeralValue s := by
  by_cases hex : ∃ x digits, s = 48 :: x :: digits ∧ (x = 120 ∨ x = 88)
  · obtain ⟨x, digits, rfl, mark⟩ := hex
    refine saved.str2d_hex mark ?_
    rintro rfl
    rcases mark with rfl | rfl
    · exact plain (.inl rfl)
    · exact plain (.inr rfl)
  have decimal : ∀ x digits, s = 48 :: x :: digits → x ≠ 120 ∧ x ≠ 88 := by
    intro x digits eq
    exact not_or.mp fun mark => hex ⟨x, digits, eq, mark⟩
  have notNil : s ≠ [] := by
    obtain ⟨d, t, rfl, -⟩ := saved.digit
    exact List.cons_ne_nil d t
  rw [saved.str2d_eq, numeralValue_decimal notNil decimal]
  split
  next mark =>
    -- an x behind other digits than a single zero
    obtain ⟨x, member, notDigit, notHex⟩ : ∃ x ∈ s, isdigit x = false ∧ isxdigit x = false := by
      have inside := (List.dropWhile_suffix (p := isdigit) (l := s)).subset
      rcases mark with lower | upper
      · exact ⟨120, inside (List.mem_of_head? lower), rfl, rfl⟩
      · exact ⟨88, inside (List.mem_of_head? upper), rfl, rfl⟩
    have parsed : simpleStrtoul16 s = parseInteger 16 0 s := by
      rw [simpleStrtoul16.eq_def]
      split
      next digits => exact absurd rfl (decimal 120 digits rfl).1
      next digits => exact absurd rfl (decimal 88 digits rfl).2
      next => rfl
    have notAll {p : UInt8 → Bool} (fails : p x = false) : ¬ s.all p = true := by
      intro all
      rw [List.all_eq_true.mp all x member] at fails
      cases fails
    rw [parsed, parseInteger_sixteen, saved.converted_eq _ (List.dropWhile_suffix _),
      if_neg fun none => notAll notHex (dropWhile_eq_nil.mp none), if_neg (notAll notDigit)]
  next other =>
    rw [saved.converted_eq _ (List.dropWhile_suffix _)]
    by_cases all : s.all isdigit = true
    · rw [if_pos (dropWhile_eq_nil.mpr all), if_pos all, List.takeWhile_eq_self_iff.mpr]
      exact fun c member => List.all_eq_true.mp all c member
    · rw [if_neg fun none => all (dropWhile_eq_nil.mp none), if_neg all]

-- the two characters are read as the number zero, and are no numeral
theorem luaOStr2d_hexPrefix {s : List UInt8} (hex : IsHexPrefix s) :
    luaOStr2d (s ++ [0]) = some 0 ∧ numeralValue s = none := by
  rcases hex with rfl | rfl <;> decide +kernel

end Lunatik.Verified
