import Lunatik.Verified.LexerTokens
import Lunatik.Verified.NumeralValues

/-! # The lexer and its grammar

`check_next` and `luaO_str2d` take their arguments for C strings, so the lexer reads some texts
otherwise than the grammar does.  `Misread` says which.  As long as no token of a text starts
with one of them, the lexer returns the tokens of the grammar, each with the same text, and
raises an error where there is none.
-/

namespace Lunatik.Verified

open Lunatik.Kernel Lunatik.Lua Lunatik.Lua.LexGrammar Lunatik.Library

variable {code : Nat → UInt8} {S : Nat}

/-! ## Blanks -/

theorem longBody_shorter {level : Nat} {text body rest : List UInt8}
    (found : longBody level text = some (body, rest)) :
    rest.length < text.length := by
  induction text generalizing body with
  | nil => cases found
  | cons c text ih =>
    rw [longBody] at found
    split at found
    · simp only [Option.some.injEq, Prod.mk.injEq] at found
      rw [← found.2]
      simp only [List.drop_succ_cons, List.length_drop, List.length_cons]
      omega
    · split at found
      · cases found
      · cases inner : longBody level text with
        | none => simp [inner] at found
        | some found' =>
          obtain ⟨body', rest'⟩ := found'
          simp only [inner, Option.map_some, Option.some.injEq, Prod.mk.injEq] at found
          obtain ⟨-, rfl⟩ := found
          exact Nat.lt_succ_of_lt (ih inner)

theorem longBracket_shorter {level : Nat} {text body rest : List UInt8}
    (found : longBracket level text = some (body, rest)) : rest.length < text.length := by
  rw [longBracket.eq_def] at found
  split at found
  · exact Nat.lt_succ_of_lt (longBody_shorter found)
  · exact longBody_shorter found

theorem longOpen_shorter {text body : List UInt8} {level : Nat}
    (opened : longOpen text = some (level, body)) :
    body.length ≤ text.length := by
  rw [longOpen.eq_def] at opened
  split at opened
  next text =>
    split at opened
    next body' left =>
      obtain ⟨-, rfl⟩ : _ ∧ body' = body := by simpa using opened
      have shorter := (List.dropWhile_suffix (p := (· == (61 : UInt8))) (l := text)).length_le
      rw [left, List.length_cons] at shorter
      rw [List.length_cons]
      omega
    next => cases opened
  next => cases opened

theorem afterComment_shorter {text rest : List UInt8} (found : afterComment text = some rest) :
    rest.length ≤ text.length := by
  rw [afterComment] at found
  split at found
  next level body opened =>
    have shorter := longOpen_shorter opened
    cases closed : longBracket level body with
    | none => simp [closed] at found
    | some inner =>
      obtain ⟨body', rest'⟩ := inner
      have shorter' := longBracket_shorter closed
      obtain rfl : rest' = rest := by simpa [closed] using found
      omega
  next =>
    obtain rfl := Option.some.inj found
    exact (List.dropWhile_suffix (p := (· != (10 : UInt8))) (l := text)).length_le

theorem skipBlanks_nil (n : Nat) : skipBlanks n [] = some [] := by
  cases n <;> rfl

theorem skipBlanks_space {c : UInt8} (n : Nat) (text : List UInt8) (space : isspace c = true) :
    skipBlanks (n + 1) (c :: text) = skipBlanks n text := by
  have notDash : c ≠ 45 := by
    rintro rfl
    cases space
  simp [skipBlanks, notDash, space]

-- a text that starts with neither a blank nor a comment
theorem skipBlanks_token {c : UInt8} (n : Nat) (text : List UInt8) (visible : isspace c = false)
    (noComment : c = 45 → text.head? ≠ some 45) : skipBlanks n (c :: text) = some (c :: text) := by
  cases n with
  | zero => rfl
  | succ n =>
    cases text with
    | nil => simp [skipBlanks, visible]
    | cons d text =>
      by_cases dash : c = 45
      · have other : d ≠ 45 := by simpa using noComment dash
        simp [skipBlanks, visible, other]
      · simp [skipBlanks, visible, dash]

/-! ## Lexemes by their first character -/

def operators : List (UInt8 × Token) := [(61, .eq), (60, .le), (62, .ge), (126, .ne)]

theorem lexeme_operator {c : UInt8} {withEq : Token} (operator : (c, withEq) ∈ operators)
    (text : List UInt8) :
    lexeme (c :: text) = if text.head? = some 61 then
      some (withEq, text.tail) else some (.char c, text) := by
  simp only [operators, List.mem_cons, Prod.mk.injEq, List.not_mem_nil, or_false] at operator
  cases text with
  | nil => rcases operator with ⟨rfl, rfl⟩ | ⟨rfl, rfl⟩ | ⟨rfl, rfl⟩ | ⟨rfl, rfl⟩ <;> rfl
  | cons d text =>
    by_cases equals : d = 61
    · subst equals
      rcases operator with ⟨rfl, rfl⟩ | ⟨rfl, rfl⟩ | ⟨rfl, rfl⟩ | ⟨rfl, rfl⟩ <;> rfl
    · rw [if_neg (by simpa using equals)]
      rcases operator with ⟨rfl, rfl⟩ | ⟨rfl, rfl⟩ | ⟨rfl, rfl⟩ | ⟨rfl,
        rfl⟩ <;> (simp [lexeme, equals]; rfl)

-- the characters that llex looks for one by one
def special : List UInt8 := [61, 60, 62, 126, 46, 91, 34, 39]

theorem lexeme_plain {c : UInt8} (text : List UInt8) (plain : c ∉ special) :
    lexeme (c :: text) = if isdigit c then numeral (c :: text)
      else if isalpha c || c == 95 then
        some (nameOrReserved (c :: text.takeWhile isNameChar), text.dropWhile isNameChar)
      else some (.char c, text) := by
  simp only [special, List.mem_cons, List.not_mem_nil, not_or] at plain
  rw [lexeme] <;> simp_all

/-- What `llex` reads from here on, with `n` rounds for the blanks. -/
def lexedAfter (n : Nat) (text : List UInt8) : Option (Token × List UInt8) :=
  (skipBlanks n text).bind lexed

theorem lexedAfter_token {c : UInt8} (n : Nat) (text : List UInt8) (visible : isspace c = false)
    (noComment : c = 45 → text.head? ≠ some 45) : lexedAfter n (c :: text) = lexed (c :: text) := by
  rw [lexedAfter, skipBlanks_token n text visible noComment]
  rfl

theorem lexedAfter_lexeme {c : UInt8} (n : Nat) (text : List UInt8) (visible : isspace c = false)
    (noComment : c = 45 → text.head? ≠ some 45) (notDot : c ≠ 46) (notDigit : isdigit c = false) :
    lexedAfter n (c :: text) = lexeme (c :: text) := by
  rw [lexedAfter_token n text visible noComment, lexed, if_neg notDot, notDigit]
  rfl

/-! ## `llex` -/

section
variable (small : S < sizeModulus)
include small

variable {text : List UInt8} {n fuel bound : Nat} {go : LexM Token}

/-- `go` reads the next token, where the text is shorter than `bound`. -/
def LexLoop (code : Nat → UInt8) (S bound : Nat) (go : LexM Token) : Prop :=
  ∀ text n, text.length < bound → text.length ≤ n →
    Triple (View code S text []) go (TokenRead code S (lexedAfter n text))
      (NoToken (lexedAfter n text))

theorem lexLine_token (loop : LexLoop code S bound go) (left : (10 :: text).length < bound + 1)
    (left' : (10 :: text).length ≤ n) :
    Triple (View code S (10 :: text) []) (inclinenumber >>= fun _ => go)
      (TokenRead code S (lexedAfter n (10 :: text))) (NoToken (lexedAfter n (10 :: text))) := by
  obtain ⟨n, rfl⟩ : ∃ m, n = m + 1 := ⟨n - 1, by rw [List.length_cons] at left'; omega⟩
  have skipped : lexedAfter (n + 1) (10 :: text) = lexedAfter n text := by
    rw [lexedAfter, skipBlanks_space n text (by decide)]
    rfl
  rw [skipped]
  refine Triple.bind (inclinenumber_view small) fun _ => ?_
  exact loop text n (Nat.lt_of_succ_lt_succ left) (Nat.le_of_succ_le_succ left')

theorem lexDash_token (loop : LexLoop code S bound go) (enough : bound ≤ fuel)
    (left : (45 :: text).length < bound + 1) (left' : (45 :: text).length ≤ n) :
    Triple (View code S (45 :: text) [])
      (next >>= fun _ => get >>= fun ls =>
        if (ls.current == some 45) = true then next >>= fun _ => skipComment fuel >>= fun _ => go
        else pure (.char 45))
      (TokenRead code S (lexedAfter n (45 :: text))) (NoToken (lexedAfter n (45 :: text))) := by
  obtain ⟨n, rfl⟩ : ∃ m, n = m + 1 := ⟨n - 1, by rw [List.length_cons] at left'; omega⟩
  refine Triple.bind (next_view small (by decide)) fun _ => ?_
  refine Triple.get_bind fun ls => ?_
  refine Triple.given (φ := (ls.current == some 45) = (text.head? == some 45)) ?_ fun seen => ?_
  · rintro t ⟨view, rfl⟩
    exact view.beq_current (by decide) (by decide)
  rw [seen]
  refine Triple.pre ?_ fun _ h => h.1
  refine Triple.cond (fun comment => ?_) fun single => ?_
  · cases text with
    | nil => simp at comment
    | cons d text =>
      obtain rfl : d = 45 := by simpa using comment
      simp only [List.length_cons] at left left'
      have step : lexedAfter (n + 1) (45 :: 45 :: text) =
          (afterComment text).bind (lexedAfter n) := by
        simp only [lexedAfter, skipBlanks, Option.bind_assoc]
        rfl
      refine Triple.bind (next_view small (by decide)) fun _ => ?_
      refine Triple.bind ((skipComment_view small fuel (by omega)).errors ?_) fun _ => ?_
      · rintro e t ⟨fuelLeft, unfinished⟩
        exact ⟨fuelLeft, by rw [step, unfinished]; rfl⟩
      · refine Triple.exists_pre fun rest => ?_
        refine Triple.given (φ := afterComment text = some rest) (fun _ h => h.1) fun found => ?_
        have shorter := afterComment_shorter found
        have passed : lexedAfter (n + 1) (45 :: 45 :: text) = lexedAfter n rest := by
          rw [step, found]
          rfl
        rw [passed]
        exact (loop rest n (by omega) (by omega)).pre fun _ h => h.2
  · have char : lexedAfter (n + 1) (45 :: text) = some (.char 45, text) := by
      rw [lexedAfter_lexeme (n + 1) text (by decide) (fun _ => by
        simpa using single) (by decide) (by decide),
        lexeme_plain text (by decide)]
      rfl
    rw [char]
    exact Triple.ret fun t view => ⟨text, rfl, _, view⟩

theorem lexOperator_token {c : UInt8} {withEq : Token} (operator : (c, withEq) ∈ operators)
    (n : Nat) :
    Triple (View code S (c :: text) []) (readOperator c withEq)
      (TokenRead code S (lexedAfter n (c :: text))) (NoToken (lexedAfter n (c :: text))) := by
  have same : lexedAfter n (c :: text) = lexeme (c :: text) ∧ c ≠ 10 := by
    simp only [operators, List.mem_cons, Prod.mk.injEq, List.not_mem_nil, or_false] at operator
    rcases operator with ⟨rfl, rfl⟩ | ⟨rfl, rfl⟩ | ⟨rfl, rfl⟩ | ⟨rfl, rfl⟩ <;>
      exact ⟨lexedAfter_lexeme n text (by decide) (by simp) (by decide) (by decide), by decide⟩
  rw [same.1, lexeme_operator operator]
  exact readOperator_token small withEq same.2

theorem lexQuoted_token {del : UInt8} (quote : del = 34 ∨ del = 39) (n : Nat)
    (enough : text.length < fuel) :
    Triple (View code S (del :: text) []) (readString fuel del)
      (TokenRead code S (lexedAfter n (del :: text))) (NoToken (lexedAfter n (del :: text))) := by
  have same : lexedAfter n (del :: text) =
      (quoted del (text.length + 1) text).map fun token => (.string token.1, token.2) := by
    rcases quote with rfl | rfl <;>
      exact lexedAfter_lexeme n text (by decide) (by simp) (by decide) (by decide)
  have plain : isNewline del = false := by rcases quote with rfl | rfl <;> rfl
  rw [same]
  refine ((readString_view small plain fuel enough).errors ?_).conseq (fun _ h => h) ?_
  · rintro e t ⟨fuelLeft, unfinished⟩
    exact ⟨fuelLeft, by rw [unfinished]; rfl⟩
  · rintro token t ⟨s, rest, found, rfl, reached⟩
    exact ⟨rest, by rw [found]; rfl, reached⟩

theorem lexPlain_token {c : UInt8} (loop : LexLoop code S bound go) (enough : bound + 1 ≤ fuel)
    (plain : c ∉ special) (lf : c ≠ 10) (notDash : c ≠ 45) (left : (c :: text).length < bound + 1)
    (left' : (c :: text).length ≤ n) :
    Triple (View code S (c :: text) [])
      (if isspace c = true then next >>= fun _ => go
        else if isdigit c = true then readNumeral fuel
        else if (isalpha c || c == 95) = true then readName fuel
        else next >>= fun _ => pure (.char c))
      (TokenRead code S (lexedAfter n (c :: text))) (NoToken (lexedAfter n (c :: text))) := by
  obtain ⟨n, rfl⟩ : ∃ m, n = m + 1 := ⟨n - 1, by rw [List.length_cons] at left'; omega⟩
  have short : text.length < fuel := Nat.lt_of_succ_lt (Nat.lt_of_lt_of_le left enough)
  have notDot : c ≠ 46 := by
    rintro rfl
    exact plain (by decide)
  refine Triple.cond (fun space => ?_) fun visible => ?_
  · have skipped : lexedAfter (n + 1) (c :: text) = lexedAfter n text := by
      rw [lexedAfter, skipBlanks_space n text space]
      rfl
    rw [skipped]
    refine Triple.bind (next_view small lf) fun _ => ?_
    exact loop text n (Nat.lt_of_succ_lt_succ left) (Nat.le_of_succ_le_succ left')
  rw [Bool.not_eq_true] at visible
  refine Triple.cond (fun digit => ?_) fun notDigit => ?_
  · rw [lexedAfter_token (n + 1) text visible (fun dash => absurd dash notDash), lexed,
      if_neg notDot, if_pos digit]
    exact readNumeral_token small fuel short digit
  have same : lexedAfter (n + 1) (c :: text) = if isalpha c || c == 95 then
      some (nameOrReserved (c :: text.takeWhile isNameChar), text.dropWhile isNameChar)
          else some (.char c, text) := by
    rw [lexedAfter_lexeme (n + 1) text visible (fun dash => absurd dash notDash) notDot
      (by simpa using notDigit),
      lexeme_plain text plain, if_neg notDigit]
  rw [same]
  refine Triple.cond (fun letter => ?_) fun other => ?_
  · rw [if_pos letter]
    exact readName_token small fuel short lf
  · rw [if_neg other]
    refine Triple.bind (next_view small lf) fun _ => ?_
    exact Triple.ret fun t view => ⟨text, rfl, _, view⟩

theorem llexLoop_token (fuel rounds : Nat) (enough : rounds ≤ fuel) :
    LexLoop code S rounds (llexLoop fuel rounds) := by
  induction rounds with
  | zero => exact fun _ _ none => absurd none (Nat.not_lt_zero _)
  | succ rounds ih =>
    have loop := ih (by omega)
    intro text n left left'
    refine Triple.get_bind fun ls => ?_
    split
    next seen =>
      refine seen_none seen ?_
      rintro rfl
      exact Triple.ret fun t view => ⟨[], by rw [lexedAfter, skipBlanks_nil]; rfl, _, view⟩
    next seen =>
      refine seen_some seen ?_
      rintro rest rfl
      exact lexLine_token small loop left left'
    next seen =>
      refine seen_some seen ?_
      rintro rest rfl
      exact lexLine_token small loop left left'
    next seen =>
      refine seen_some seen ?_
      rintro rest rfl
      exact lexDash_token small loop (by omega) left left'
    next seen =>
      refine seen_some seen ?_
      rintro rest rfl
      show Triple _ _ (TokenRead code S (lexedAfter n (91 :: rest)))
        (NoToken (lexedAfter n (91 :: rest)))
      rw [lexedAfter_lexeme n rest (by decide) (by simp) (by decide) (by decide)]
      exact readBracket_token small fuel (Nat.lt_of_succ_lt (Nat.lt_of_lt_of_le left enough))
    next seen =>
      refine seen_some seen ?_
      rintro rest rfl
      exact lexOperator_token small (by decide) n
    next seen =>
      refine seen_some seen ?_
      rintro rest rfl
      exact lexOperator_token small (by decide) n
    next seen =>
      refine seen_some seen ?_
      rintro rest rfl
      exact lexOperator_token small (by decide) n
    next seen =>
      refine seen_some seen ?_
      rintro rest rfl
      exact lexOperator_token small (by decide) n
    next seen =>
      refine seen_some seen ?_
      rintro rest rfl
      exact lexQuoted_token small (.inl rfl) n (Nat.lt_of_succ_lt (Nat.lt_of_lt_of_le left enough))
    next seen =>
      refine seen_some seen ?_
      rintro rest rfl
      exact lexQuoted_token small (.inr rfl) n (Nat.lt_of_succ_lt (Nat.lt_of_lt_of_le left enough))
    next seen =>
      refine seen_some seen ?_
      rintro rest rfl
      show Triple _ _ (TokenRead code S (lexedAfter n (46 :: rest)))
        (NoToken (lexedAfter n (46 :: rest)))
      rw [lexedAfter_token n rest (by decide) (by simp), lexed, if_pos rfl]
      exact readDots_token small fuel (Nat.lt_of_succ_lt (Nat.lt_of_lt_of_le left enough))
    next c lf cr notDash notOpen notEq notLt notGt notTilde notQuote notQuote' notDot seen =>
      have newline : isNewline c = false := by simpa [isNewline] using ⟨lf, cr⟩
      have plain : c ∉ special := by
        simp only [special, List.mem_cons, List.not_mem_nil, or_false, not_or]
        exact ⟨notEq, notLt, notGt, notTilde, notDot, notOpen, notQuote, notQuote'⟩
      refine seen_some seen ?_
      rw [newline]
      rintro rest rfl
      exact lexPlain_token small loop enough plain lf notDash left left'

end

/-! ## Numerals -/

section
variable (text : List UInt8)

-- the mantissa, what follows it, and what follows the exponent's mark and sign
def mantissa : List UInt8 := text.takeWhile mantissaChar

def behindMantissa : List UInt8 := text.dropWhile mantissaChar

def behindMark : List UInt8 := (behindMantissa text).drop (exponentMark (behindMantissa text))

/-- The text of the numeral as the grammar has it. -/
def numeralText : List UInt8 :=
  mantissa text ++ (behindMantissa text).take (exponentMark (behindMantissa text)) ++
    (behindMark text).takeWhile isNameChar

theorem numeralText_append : numeralText text ++ (behindMark text).dropWhile isNameChar = text := by
  rw [numeralText, List.append_assoc, List.takeWhile_append_dropWhile, behindMark,
    List.append_assoc, List.take_append_drop, mantissa, behindMantissa,
    List.takeWhile_append_dropWhile]

theorem exponentMark_le (rest : List UInt8) : exponentMark rest ≤ rest.length := by
  rw [exponentMark.eq_def]
  split <;> simp

theorem drop_mantissa : text.drop (mantissa text).length = behindMantissa text := by
  have behind : (mantissa text ++ behindMantissa text).drop (mantissa text).length =
    behindMantissa text := List.drop_left
  rw [mantissa, behindMantissa, List.takeWhile_append_dropWhile] at behind
  exact behind

theorem numeralText_length : (numeralText text).length = numeralLength text := by
  have mark := exponentMark_le (behindMantissa text)
  have behind : text.drop ((mantissa text).length + exponentMark (behindMantissa text)) =
      behindMark text := by
    rw [← List.drop_drop, drop_mantissa, behindMark]
  have length : numeralLength text =
    (mantissa text).length + exponentMark (text.drop (mantissa text).length) +
      ((text.drop ((mantissa text).length + exponentMark
        (text.drop (mantissa text).length))).takeWhile
        isNameChar).length := rfl
  rw [length, drop_mantissa, behind, numeralText, List.length_append, List.length_append,
    List.length_take, Nat.min_eq_left mark]

theorem take_numeralLength : text.take (numeralLength text) = numeralText text := by
  have front : (numeralText text ++ (behindMark text).dropWhile isNameChar).take
    (numeralText text).length =
      numeralText text := List.take_left
  rw [numeralText_append, numeralText_length] at front
  exact front

theorem drop_numeralLength : text.drop (numeralLength text) =
    (behindMark text).dropWhile isNameChar := by
  have behind : (numeralText text ++ (behindMark text).dropWhile isNameChar).drop
    (numeralText text).length =
      (behindMark text).dropWhile isNameChar := List.drop_left
  rw [numeralText_append, numeralText_length] at behind
  exact behind

end

theorem exponentMark_cons (e : UInt8) (rest : List UInt8) :
    exponentMark (e :: rest) =
      if e = 69 ∨ e = 101 then if rest.head? = some 43 ∨ rest.head? = some 45 then
        2 else 1 else 0 := by
  by_cases mark : e = 69 ∨ e = 101
  · rw [if_pos mark]
    cases rest with
    | nil => rcases mark with rfl | rfl <;> rfl
    | cons f rest =>
      by_cases sign : f = 43 ∨ f = 45
      · rw [if_pos (by simpa using sign)]
        rcases mark with rfl | rfl <;> rcases sign with rfl | rfl <;> rfl
      · rw [if_neg (by simpa using sign)]
        obtain ⟨plus, minus⟩ := not_or.mp sign
        rcases mark with rfl | rfl <;> simp [exponentMark, plus, minus]
  · obtain ⟨upper, lower⟩ := not_or.mp mark
    rw [if_neg mark]
    simp [exponentMark, upper, lower]

-- how far the two sides agree on the exponent's mark and sign
theorem takenMarks_eq {rest : List UInt8} (noZero : rest.head? ≠ some 0)
    (noZero' : exponentMark rest ≠ 0 → rest.tail.head? ≠ some 0) :
    takenMarks rest = rest.take (exponentMark rest) := by
  cases rest with
  | nil => rfl
  | cons e rest =>
    have notZero : e ≠ 0 := by simpa using noZero
    rw [exponentMark_cons] at noZero' ⊢
    by_cases mark : e = 69 ∨ e = 101
    · have found : inSet [69, 101] (some e) = true := by simpa [inSet, isByte, notZero] using mark
      have notZero' : rest.head? ≠ some 0 := by
        apply noZero'
        rw [if_pos mark]
        split <;> simp
      have same : inSet [43, 45] rest.head? = true ↔
          (rest.head? = some 43 ∨ rest.head? = some 45) := by
        cases rest with
        | nil => simp [inSet, isByte]
        | cons f rest =>
          have notZero' : f ≠ 0 := by simpa using notZero'
          simp [inSet, isByte, notZero']
      rw [takenMarks, List.head?_cons, if_pos found, if_pos mark, List.tail_cons]
      by_cases sign : rest.head? = some 43 ∨ rest.head? = some 45
      · rw [if_pos (same.mpr sign), if_pos sign]
        rfl
      · rw [if_neg fun h => sign (same.mp h), if_neg sign]
        rfl
    · have absent : ¬ inSet [69, 101] (some e) = true := by
        simpa [inSet, isByte, notZero] using mark
      rw [takenMarks, List.head?_cons, if_neg absent, if_neg mark]
      rfl

theorem isspace_cases {c : UInt8} (space : isspace c = true) :
    c ∈ ([9, 10, 11, 12, 13, 32, 160] : List UInt8) := by
  simp only [isspace, Bool.or_eq_true, Bool.and_eq_true, decide_eq_true_eq, beq_iff_eq] at space
  rcases space with (⟨low, high⟩ | rfl) | rfl
  · have low' : 9 ≤ c.toNat := low
    have high' : c.toNat ≤ 13 := high
    have : c = 9 ∨ c = 10 ∨ c = 11 ∨ c = 12 ∨ c = 13 := by
      simp only [← UInt8.toNat_inj, UInt8.reduceToNat]
      omega
    rcases this with rfl | rfl | rfl | rfl | rfl <;> decide
  · decide
  · decide

-- a class of characters that has neither the zero nor a blank in it
theorem plain_of_class {p : UInt8 → Bool} (none :
    ([0, 9, 10, 11, 12, 13, 32, 160] : List UInt8).any p = false)
    {c : UInt8} (member : p c = true) : c ≠ 0 ∧ isspace c = false := by
  rw [List.any_eq_false] at none
  constructor
  · rintro rfl
    exact none 0 (by decide) member
  · cases space : isspace c with
    | false => rfl
    | true => exact absurd member (none c (List.mem_cons_of_mem 0 (isspace_cases space)))

theorem mem_take_exponentMark {rest : List UInt8} {c : UInt8}
    (member : c ∈ rest.take (exponentMark rest)) :
    c = 69 ∨ c = 101 ∨ c = 43 ∨ c = 45 := by
  cases rest with
  | nil => simp at member
  | cons e rest =>
    rw [exponentMark_cons] at member
    split at member
    next mark =>
      split at member
      next sign =>
        cases rest with
        | nil => simp at sign
        | cons f rest =>
          simp only [List.take_succ_cons, List.take_zero, List.mem_cons, List.not_mem_nil,
            or_false] at member
          simp only [List.head?_cons, Option.some.injEq] at sign
          rcases member with rfl | rfl
          · exact mark.elim .inl fun lower => .inr (.inl lower)
          · exact .inr (.inr sign)
      next =>
        simp only [List.take_succ_cons, List.take_zero, List.mem_cons, List.not_mem_nil, or_false]
          at member
        subst member
        exact mark.elim .inl fun lower => .inr (.inl lower)
    next => simp at member

theorem numeralText_plain {text : List UInt8} {c : UInt8} (member : c ∈ numeralText text) :
    c ≠ 0 ∧ isspace c = false := by
  simp only [numeralText, List.mem_append] at member
  rcases member with (inMantissa | inMark) | inName
  · exact plain_of_class rfl (List.mem_takeWhile_imp inMantissa)
  · rcases mem_take_exponentMark inMark with rfl | rfl | rfl | rfl <;> decide
  · exact plain_of_class rfl (List.mem_takeWhile_imp inName)

theorem numeralText_saved {d : UInt8} (text : List UInt8) (digit : isdigit d = true) :
    Saved (numeralText (d :: text)) where
  digit := by
    have first : mantissaChar d = true := by rw [mantissaChar, digit]; rfl
    rw [numeralText, mantissa, List.takeWhile_cons_of_pos first]
    exact ⟨d, _, rfl, digit⟩
  noZero := fun _ member => (numeralText_plain member).1
  noBlank := fun _ member => (numeralText_plain member).2

theorem takenNumeral_def (text : List UInt8) :
    takenNumeral text = mantissa text ++ takenMarks (behindMantissa text) ++
    ((behindMantissa text).drop (takenMarks (behindMantissa text)).length).takeWhile isNameChar :=
  rfl

theorem afterNumeral_def (text : List UInt8) : afterNumeral text =
    ((behindMantissa text).drop (takenMarks (behindMantissa text)).length).dropWhile isNameChar :=
  rfl

-- a zero behind the mantissa is taken for the end of the set "Ee"
theorem takenNumeral_zero {text rest : List UInt8} (zero : behindMantissa text = 0 :: rest) :
    numeralText text = mantissa text ∧ (behindMark text).dropWhile isNameChar = 0 :: rest ∧
      (∃ more, takenNumeral text = mantissa text ++ 0 :: more) ∧
        (afterNumeral text).length < (0 :: rest).length := by
  have none : exponentMark (0 :: rest) = 0 := exponentMark_cons 0 rest
  have behind : behindMark text = 0 :: rest := by rw [behindMark, zero, none, List.drop_zero]
  obtain ⟨sign, marks⟩ : ∃ sign, takenMarks (0 :: rest) = 0 :: sign := ⟨_, rfl⟩
  have fails : ¬ isNameChar 0 = true := by decide
  refine ⟨?_, ?_, ⟨sign ++ ((0 :: rest).drop (0 :: sign).length).takeWhile isNameChar, ?_⟩, ?_⟩
  · rw [numeralText, behind, zero, none, List.takeWhile_cons_of_neg fails]
    simp
  · rw [behind, List.dropWhile_cons_of_neg fails]
  · rw [takenNumeral_def, zero, marks, List.append_assoc, List.cons_append]
  · rw [afterNumeral_def, zero, marks, List.length_cons, List.drop_succ_cons]
    have shorter := (List.dropWhile_suffix (p := isNameChar) (l := rest.drop sign.length)).length_le
    rw [List.length_drop] at shorter
    rw [List.length_cons]
    omega

-- and one behind the exponent's mark for the end of the set "+-"
theorem takenNumeral_zero_sign {text rest : List UInt8} {e : UInt8}
    (zero : behindMantissa text = e :: 0 :: rest) (mark : e = 69 ∨ e = 101) :
    numeralText text = mantissa text ++ [e] ∧
      ∃ more, takenNumeral text = mantissa text ++ [e] ++ 0 :: more := by
  have one : exponentMark (e :: 0 :: rest) = 1 := by
    rw [exponentMark_cons, if_pos mark]
    rfl
  have behind : behindMark text = 0 :: rest := by
    rw [behindMark, zero, one]
    rfl
  have marks : takenMarks (e :: 0 :: rest) = [e, 0] := by rcases mark with rfl | rfl <;> rfl
  have fails : ¬ isNameChar 0 = true := by decide
  refine ⟨?_, ⟨rest.takeWhile isNameChar, ?_⟩⟩
  · rw [numeralText, behind, zero, one, List.takeWhile_cons_of_neg fails]
    simp
  · rw [takenNumeral_def, zero, marks]
    simp

theorem takenNumeral_eq {text : List UInt8} (noZero : (behindMantissa text).head? ≠ some 0)
    (noZero' : exponentMark (behindMantissa text) ≠ 0 → (behindMantissa text).tail.head? ≠ some 0) :
    takenNumeral text = numeralText text ∧
      afterNumeral text = (behindMark text).dropWhile isNameChar := by
  have mark := exponentMark_le (behindMantissa text)
  have marks := takenMarks_eq noZero noZero'
  have length : (takenMarks (behindMantissa text)).length = exponentMark (behindMantissa text) := by
    rw [marks, List.length_take, Nat.min_eq_left mark]
  constructor
  · show mantissa text ++ takenMarks (behindMantissa text) ++
      ((behindMantissa text).drop (takenMarks (behindMantissa text)).length).takeWhile isNameChar =
        numeralText text
    rw [length, marks]
    rfl
  · show ((behindMantissa text).drop (takenMarks
      (behindMantissa text)).length).dropWhile isNameChar = _
    rw [length]
    rfl

inductive NumeralCase (text : List UInt8) : Prop where
  | zero (rest : List UInt8) (behind : behindMantissa text = 0 :: rest)
  | zeroSign (e : UInt8) (rest : List UInt8) (behind : behindMantissa text = e :: 0 :: rest)
    (mark : e = 69 ∨ e = 101)
  | agree (taken : takenNumeral text = numeralText text)
      (left : afterNumeral text = (behindMark text).dropWhile isNameChar)
        (noZero : (behindMantissa text).head? ≠ some 0)

theorem numeralCase (text : List UInt8) : NumeralCase text := by
  by_cases noZero : (behindMantissa text).head? = some 0
  · cases behind : behindMantissa text with
    | nil => simp [behind] at noZero
    | cons c rest =>
      obtain rfl : c = 0 := by simpa [behind] using noZero
      exact .zero rest behind
  by_cases noZero' : exponentMark (behindMantissa text) ≠ 0 →
    (behindMantissa text).tail.head? ≠ some 0
  · obtain ⟨taken, left⟩ := takenNumeral_eq noZero noZero'
    exact .agree taken left noZero
  · obtain ⟨marked, signZero⟩ := Classical.not_imp.mp noZero'
    rw [not_not] at signZero
    cases behind : behindMantissa text with
    | nil => simp [behind] at signZero
    | cons e rest =>
      rw [behind, List.tail_cons] at signZero
      rw [behind, exponentMark_cons] at marked
      have mark : e = 69 ∨ e = 101 := by
        by_contra other
        rw [if_neg other] at marked
        exact marked rfl
      cases rest with
      | nil => simp at signZero
      | cons f rest =>
        obtain rfl : f = 0 := by simpa using signZero
        exact .zeroSign e rest behind mark

/-- The C string that the saved bytes are taken for is the numeral of the grammar. -/
theorem cstr_takenNumeral (text : List UInt8) :
    cstr (takenNumeral text ++ [0]) = numeralText text := by
  have upToZero : ∀ {s more : List UInt8}, numeralText text = s → cstr (s ++ 0 :: more) = s := by
    intro s more same
    rw [cstr, List.takeWhile_append_of_pos]
    · simp
    · intro c member
      simpa using (numeralText_plain (same ▸ member)).1
  cases numeralCase text with
  | zero rest behind =>
    obtain ⟨same, -, ⟨more, taken⟩, -⟩ := takenNumeral_zero behind
    rw [taken, List.append_assoc, List.cons_append, upToZero same, same]
  | zeroSign e rest behind mark =>
    obtain ⟨same, more, taken⟩ := takenNumeral_zero_sign behind mark
    rw [taken, List.append_assoc, List.cons_append, upToZero same, same]
  | agree taken =>
    rw [taken, upToZero rfl]

theorem luaOStr2d_taken (text : List UInt8) {d : UInt8} (digit : isdigit d = true) :
    luaOStr2d (takenNumeral (d :: text) ++ [0]) = luaOStr2d (numeralText (d :: text) ++ [0]) := by
  have same : cstr (takenNumeral (d :: text) ++ [0]) = cstr (numeralText (d :: text) ++ [0]) := by
    rw [cstr_takenNumeral, (numeralText_saved text digit).cstr_eq]
  simp only [luaOStr2d, same]

theorem numeral_eq (text : List UInt8) : numeral text =
    (numeralValue (numeralText text)).map fun n =>
      (.number n, (behindMark text).dropWhile isNameChar) := by
  rw [numeral, take_numeralLength, drop_numeralLength]

-- the digits in front of a zero are a whole mantissa
theorem zero_behind_digits (text : List UInt8) :
    (text.dropWhile isdigit).head? = some 0 ↔
      (mantissa text).all isdigit = true ∧ (behindMantissa text).head? = some 0 := by
  induction text with
  | nil => simp [mantissa, behindMantissa]
  | cons c text ih =>
    by_cases digit : isdigit c = true
    · have first : mantissaChar c = true := by rw [mantissaChar, digit]; rfl
      simp only [mantissa, behindMantissa, List.dropWhile_cons_of_pos digit,
        List.dropWhile_cons_of_pos first, List.takeWhile_cons_of_pos first, List.all_cons, digit,
        Bool.true_and]
      exact ih
    · rw [List.dropWhile_cons_of_neg digit]
      by_cases dot : c = 46
      · subst dot
        have first : mantissaChar 46 = true := rfl
        rw [mantissa, List.takeWhile_cons_of_pos first]
        simp [isdigit]
      · have last : ¬ mantissaChar c = true := by simpa [mantissaChar, dot] using digit
        rw [mantissa, behindMantissa, List.takeWhile_cons_of_neg last,
          List.dropWhile_cons_of_neg last]
        simp

-- without an x, a numeral is decimal
theorem numeralValue_mantissa {s : List UInt8} (some' : s ≠ [])
    (chars : ∀ c ∈ s, mantissaChar c = true ∨ c = 69 ∨ c = 101) :
    ¬ IsHexPrefix s ∧ numeralValue s = if s.all isdigit then
      some (BitVec.ofNat 64 (decimalValue s)) else none := by
  have noMark : ∀ x ∈ s, x ≠ 120 ∧ x ≠ 88 := by
    intro x member
    constructor
    · rintro rfl
      exact absurd (chars 120 member) (by decide)
    · rintro rfl
      exact absurd (chars 88 member) (by decide)
  constructor
  · rintro (rfl | rfl)
    · exact (noMark 120 (by decide)).1 rfl
    · exact (noMark 88 (by decide)).2 rfl
  · refine numeralValue_decimal some' ?_
    rintro x digits rfl
    exact noMark x (List.mem_cons_of_mem 48 List.mem_cons_self)

/-- The bytes at the start of a numeral that the lexer reads otherwise than the grammar. -/
def MisreadNumeral (text : List UInt8) : Prop :=
  (text.dropWhile isdigit).head? = some 0 ∨ IsHexPrefix (text.take (numeralLength text))
  deriving Decidable

theorem lexedNumeral_eq_iff (text : List UInt8) {d : UInt8} (digit : isdigit d = true) :
    lexedNumeral [] (d :: text) = numeral (d :: text) ↔ ¬ MisreadNumeral (d :: text) := by
  have first : mantissaChar d = true := by rw [mantissaChar, digit]; rfl
  have notNil : mantissa (d :: text) ≠ [] := by
    rw [mantissa, List.takeWhile_cons_of_pos first]
    exact List.cons_ne_nil _ _
  have chars : ∀ c ∈ mantissa (d :: text), mantissaChar c = true :=
    fun c member => List.mem_takeWhile_imp member
  have saved := numeralText_saved text digit
  rw [MisreadNumeral, take_numeralLength, zero_behind_digits, lexedNumeral, List.nil_append,
    luaOStr2d_taken text digit, numeral_eq]
  cases numeralCase (d :: text) with
  | zero rest behind =>
    obtain ⟨same, left, -, shorter⟩ := takenNumeral_zero behind
    obtain ⟨plain, value⟩ := numeralValue_mantissa notNil fun c member => .inl (chars c member)
    rw [same] at saved ⊢
    rw [luaOStr2d_saved saved plain, value, behind, left]
    by_cases all : (mantissa (d :: text)).all isdigit = true
    · have different : afterNumeral (d :: text) ≠ 0 :: rest := by
        intro equal
        rw [equal] at shorter
        exact Nat.lt_irrefl _ shorter
      simp [all, different]
    · simp [all, plain]
  | zeroSign e rest behind mark =>
    obtain ⟨same, -⟩ := takenNumeral_zero_sign behind mark
    have notDigit : isdigit e = false := by rcases mark with rfl | rfl <;> rfl
    have notZero : e ≠ 0 := by rcases mark with rfl | rfl <;> decide
    have chars' : ∀ c ∈ mantissa (d :: text) ++ [e], mantissaChar c = true ∨ c = 69 ∨ c = 101 := by
      intro c member
      rcases List.mem_append.mp member with inMantissa | last
      · exact .inl (chars c inMantissa)
      · rw [List.mem_singleton.mp last]
        exact .inr mark
    obtain ⟨plain, value⟩ := numeralValue_mantissa (by simp) chars'
    rw [same] at saved ⊢
    rw [luaOStr2d_saved saved plain, value, behind]
    simp [notDigit, notZero, plain]
  | agree taken left noZero =>
    rw [left]
    by_cases hex : IsHexPrefix (numeralText (d :: text))
    · obtain ⟨read, none⟩ := luaOStr2d_hexPrefix hex
      rw [read, none]
      simp [hex]
    · rw [luaOStr2d_saved saved hex]
      simp [hex, noZero]

/-- The texts that the lexer reads otherwise than the grammar: a zero stands where `check_next` looks
    for a dot or for the exponent of a numeral, or `0x` stands without digits. -/
def Misread (text : List UInt8) : Prop :=
  [46, 0] <+: text ∨ [46, 46, 0] <+: text ∨ (isByte isdigit text.head? = true ∧ MisreadNumeral text)
  deriving Decidable

-- a numeral that starts with a dot is one for neither side
theorem dotNumeral_none {d : UInt8} (text : List UInt8) :
    lexedNumeral [46] (d :: text) = none ∧ numeral (46 :: d :: text) = none := by
  constructor
  · have start : cstr ([46] ++ takenNumeral (d :: text) ++ [0]) =
        46 :: cstr (takenNumeral (d :: text) ++ [0]) := by
      rw [List.append_assoc, List.singleton_append, cstr, List.takeWhile_cons_of_pos (by decide)]
      rfl
    have parsed : ∀ s, simpleStrtol (46 :: s) = (0, 46 :: s) := by
      intro s
      rw [simpleStrtol, if_neg (by decide), parseInteger_ten,
        List.takeWhile_cons_of_neg (by decide), List.dropWhile_cons_of_neg (by decide)]
      rfl
    have unread : luaOStr2d ([46] ++ takenNumeral (d :: text) ++ [0]) = none := by
      simp only [luaOStr2d, start, parsed, if_true]
    rw [lexedNumeral, unread]
    rfl
  · have first : mantissaChar 46 = true := rfl
    have start : ∃ t, numeralText (46 :: d :: text) = 46 :: t := by
      rw [numeralText, mantissa, List.takeWhile_cons_of_pos first]
      exact ⟨_, rfl⟩
    obtain ⟨t, start⟩ := start
    rw [numeral_eq, start, numeralValue_decimal (List.cons_ne_nil 46 t) (by simp)]
    simp [isdigit]

theorem lexedDots_eq_iff (text : List UInt8) :
    lexedDots text = lexeme (46 :: text) ↔ ¬ ([0] <+: text ∨ [46, 0] <+: text) := by
  cases text with
  | nil => simp [lexedDots, lexeme, inSet, isByte, isdigit, isalpha, isupper, islower]
  | cons d text =>
    by_cases dot : d = 46
    · subst dot
      cases text with
      | nil => simp [lexedDots, lexeme, inSet, isByte]
      | cons e text =>
        by_cases third : e = 46
        · subst third
          simp [lexedDots, lexeme, inSet, isByte]
        · by_cases zero : e = 0
          · subst zero
            simp [lexedDots, lexeme, inSet, isByte]
          · simp [lexedDots, lexeme, inSet, isByte, third, zero, Ne.symm zero]
    · by_cases zero : d = 0
      · subst zero
        have lexemeDot : lexeme (46 :: 0 :: text) = some (.char 46, 0 :: text) := by
          simp [lexeme, isdigit]
        have taken : lexedDots (0 :: text) = some (.dots, text.tail) ∨
            lexedDots (0 :: text) = some (.concat, text) := by
          rw [lexedDots, if_pos (by rfl)]
          split
          · exact .inl rfl
          · exact .inr rfl
        rw [lexemeDot]
        rcases taken with dots | concat
        · simp [dots]
        · simp [concat]
      · have second : inSet [46] (some d) = false := by simp [inSet, isByte, dot, zero]
        have agree : lexedDots (d :: text) = lexeme (46 :: d :: text) := by
          obtain ⟨lexedNone, numeralNone⟩ := dotNumeral_none (d := d) text
          rw [lexedDots, List.head?_cons, second, if_neg (by decide)]
          by_cases digit : isdigit d = true
          · simp [lexeme, isByte, digit, dot, lexedNone, numeralNone]
          · simp [lexeme, isByte, digit, dot]
        simp [agree, Ne.symm dot, Ne.symm zero]

theorem lexed_eq_iff (text : List UInt8) : lexed text = lexeme text ↔ ¬ Misread text := by
  cases text with
  | nil => simp [lexed, Misread, isByte]
  | cons c text =>
    by_cases dot : c = 46
    · subst dot
      have misread : Misread (46 :: text) ↔ [0] <+: text ∨ [46, 0] <+: text := by
        simp [Misread, isByte, isdigit]
      rw [misread, ← lexedDots_eq_iff, lexed, if_pos rfl]
    · have noDots : ¬ [46, 0] <+: c :: text ∧ ¬ [46, 46, 0] <+: c :: text := by
        constructor
        · exact fun start => dot (List.cons_prefix_cons.mp start).1.symm
        · exact fun start => dot (List.cons_prefix_cons.mp start).1.symm
      rw [lexed, if_neg dot]
      by_cases digit : isdigit c = true
      · have plain : c ∉ special := by
          intro member
          simp only [special, List.mem_cons, List.not_mem_nil, or_false] at member
          rcases member with rfl | rfl | rfl | rfl | rfl | rfl | rfl | rfl <;> cases digit
        rw [if_pos digit, lexeme_plain text plain, if_pos digit, lexedNumeral_eq_iff text digit]
        simp [Misread, noDots.1, noDots.2, isByte, digit]
      · simp [Misread, noDots.1, noDots.2, isByte, digit]

end Lunatik.Verified
