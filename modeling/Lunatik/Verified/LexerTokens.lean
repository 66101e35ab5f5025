import Lunatik.Verified.LexerViews
import Mathlib.Data.List.TakeWhile

/-! # What the lexer takes for a token

Every function of the lexer that reads a lexical element, against the grammar's definition of that
element: it ends behind the element with its value, and raises an error where there is none.
-/

namespace Lunatik.Verified

open Lunatik.Kernel Lunatik.Lua Lunatik.Lua.LexGrammar Lunatik.Library

variable {code : Nat → UInt8} {S : Nat}

section
variable (small : S < sizeModulus)
include small

variable {text buff : List UInt8} {c : UInt8} {E : LexError → LexState → Prop}

/-! ## Numerals -/

/-- The lexer has reached this text, whatever is in its buffer. -/
def Reached (code : Nat → UInt8) (S : Nat) (text : List UInt8) (ls : LexState) : Prop :=
  ∃ buff, View code S text buff ls

def mantissaChar (c : UInt8) : Bool := isdigit c || c == 46

/-- What `read_numeral` takes behind the mantissa: the bytes that the two `check_next` find. -/
def takenMarks (rest : List UInt8) : List UInt8 :=
  if inSet [69, 101] rest.head? then
    rest.take 1 ++ if inSet [43, 45] rest.tail.head? then rest.tail.take 1 else []
  else []

/-- The bytes that `read_numeral` saves. -/
def takenNumeral (text : List UInt8) : List UInt8 :=
  let rest := text.dropWhile mantissaChar
  text.takeWhile mantissaChar ++ takenMarks rest ++
    (rest.drop (takenMarks rest).length).takeWhile isNameChar

def afterNumeral (text : List UInt8) : List UInt8 :=
  let rest := text.dropWhile mantissaChar
  (rest.drop (takenMarks rest).length).dropWhile isNameChar

omit small in
theorem buffreplace_view : Triple (View code S text buff) (buffreplace 46 46)
    (fun _ => View code S text buff) E := by
  refine Triple.update fun ls view => ⟨view.pending, ?_, view.decpoint, view.lookahead, view.lines⟩
  have same : (ls.buff.map fun c => if c = 46 then 46 else c) = ls.buff := by
    conv => rhs; rw [← List.map_id ls.buff]
    refine List.map_congr_left fun c _ => ?_
    split
    · rename_i dot
      exact dot.symm
    · rfl
  exact same.trans view.buff_eq

omit small in
theorem lexerror_view {α : Type} (msg : String) (near : LexState → Near) {P : LexState → Prop}
    {Q : α → LexState → Prop} :
    Triple P (luaXLexerror msg near) Q (fun e _ => e ≠ .outOfFuel) :=
  Triple.get_bind fun _ => Triple.raise fun _ _ => by simp

-- the two calls of check_next in read_numeral, and what is done then
theorem marks_then {α : Type} {k : LexM α} {Q : α → LexState → Prop}
    (after : Triple (View code S (text.drop (takenMarks text).length)
      (buff ++ takenMarks text)) k Q E) :
    Triple (View code S text buff)
      (checkNext [69, 101] >>= fun found => if found = true then checkNext [43, 45] >>= fun _ => k
        else k) Q E := by
  refine Triple.bind (checkNext_view small (by decide) (by decide)) fun found => ?_
  refine Triple.cond_discard (R := View code S (text.drop (takenMarks text).length)
    (buff ++ takenMarks text))
    ?_ ?_ after
  · rintro rfl
    refine Triple.given (φ := true = inSet [69, 101] text.head?) (fun _ h => h.1) fun marked => ?_
    cases text with
    | nil => simp [inSet, isByte] at marked
    | cons e rest =>
      have sign : Triple (View code S rest (buff ++ [e])) (checkNext [43, 45])
          (fun found ls => found = inSet [43, 45] rest.head? ∧
            View code S (if found then rest.tail else rest)
            (buff ++ [e] ++ if found then rest.head?.toList else []) ls) E :=
        checkNext_view small (by decide) (by decide)
      refine (sign.pre fun _ h => by simpa using h.2).conseq (fun _ h => h) fun signed t h => ?_
      obtain ⟨same, view⟩ := h
      simp only [takenMarks, ← marked, if_true, List.tail_cons, ← same]
      cases signed with
      | true =>
        cases rest with
        | nil => simp [inSet, isByte] at same
        | cons f rest => simpa using view
      | false => simpa using view
  · intro unmarked t h
    obtain ⟨same, view⟩ := h
    rw [Bool.not_eq_true] at unmarked
    rw [unmarked] at same view
    simp only [takenMarks, ← same]
    simpa using view

omit small in
theorem trydecpoint_view (unread : luaOStr2d buff = none) {Q : LuaNumber → LexState → Prop} :
    Triple (View code S text buff) trydecpoint Q (fun e _ => e ≠ .outOfFuel ∧
      luaOStr2d buff = none) := by
  refine Triple.get_bind fun ls => ?_
  refine Triple.given (φ := ls.decpoint = 46) ?_ fun decpoint => ?_
  · rintro t ⟨view, rfl⟩
    exact view.decpoint
  rw [decpoint]
  refine Triple.bind (R := fun _ => View code S text buff) ?_ fun _ => ?_
  · exact Triple.update fun t h => ⟨h.1.pending, h.1.buff_eq, rfl, h.1.lookahead, h.1.lines⟩
  refine Triple.bind buffreplace_view fun _ => ?_
  refine Triple.get_bind fun ls' => ?_
  refine Triple.given (φ := ls'.buff = buff) ?_ fun buffEq => ?_
  · rintro t ⟨view, rfl⟩
    exact view.buff_eq
  rw [buffEq, unread]
  exact (lexerror_view _ _).errors fun e s fuelLeft => ⟨fuelLeft, rfl⟩

/-- `read_numeral`, from the first digit on; a dot may have been saved before. -/
theorem readNumeral_view {d : UInt8} (fuel : Nat) (enough : text.length < fuel)
    (digit : isdigit d = true) :
    Triple (View code S (d :: text) buff) (readNumeral fuel)
      (fun token ls => ∃ n, luaOStr2d (buff ++ takenNumeral (d :: text) ++ [0]) = some n ∧
        token = .number n ∧
        Reached code S (afterNumeral (d :: text)) ls)
      (fun e _ => e ≠ .outOfFuel ∧ luaOStr2d (buff ++ takenNumeral (d :: text) ++ [0]) = none) := by
  have first : mantissaChar d = true := by rw [mantissaChar, digit]; rfl
  have plain : d ≠ 10 := by
    rintro rfl
    simp [isdigit] at digit
  have taken : buff ++ takenNumeral (d :: text) ++ [0] = buff ++ [d] ++
    text.takeWhile mantissaChar ++
      takenMarks (text.dropWhile mantissaChar) ++ (((text.dropWhile mantissaChar).drop
        (takenMarks (text.dropWhile mantissaChar)).length).takeWhile isNameChar) ++ [0] := by
    simp only [takenNumeral, List.dropWhile_cons_of_pos first, List.takeWhile_cons_of_pos first]
    simp
  have left : afterNumeral (d :: text) = ((text.dropWhile mantissaChar).drop
      (takenMarks (text.dropWhile mantissaChar)).length).dropWhile isNameChar := by
    simp only [afterNumeral, List.dropWhile_cons_of_pos first]
  have shorter : ((text.dropWhile mantissaChar).drop
      (takenMarks (text.dropWhile mantissaChar)).length).length < fuel := by
    have drops := (List.dropWhile_suffix (p := mantissaChar) (l := text)).length_le
    rw [List.length_drop]
    omega
  rw [left]
  generalize numeralEq : buff ++ takenNumeral (d :: text) ++ [0] = numeralBuff at taken ⊢
  refine Triple.bind (saveAndNext_view small plain) fun _ => ?_
  refine Triple.bind (saveWhile_view small (p := mantissaChar) (by decide)
    (by decide) fuel enough) fun _ => ?_
  refine marks_then small ?_
  refine Triple.bind (saveWhile_view small (p := isNameChar) (by decide)
    (by decide) fuel shorter) fun _ => ?_
  refine Triple.bind (save_view 0) fun _ => ?_
  rw [← taken]
  refine Triple.get_bind fun ls => ?_
  refine Triple.given (φ := ls.decpoint = 46) ?_ fun decpoint => ?_
  · rintro t ⟨view, rfl⟩
    exact view.decpoint
  rw [decpoint]
  refine Triple.bind (buffreplace_view.pre fun _ h => h.1) fun _ => ?_
  refine Triple.get_bind fun ls' => ?_
  refine Triple.given (φ := ls'.buff = numeralBuff) ?_ fun buffEq => ?_
  · rintro t ⟨view, rfl⟩
    exact view.buff_eq
  rw [buffEq]
  split
  · rename_i n read
    exact Triple.ret fun t h => ⟨n, read, rfl, _, h.1⟩
  · rename_i unread
    refine Triple.bind (R := fun _ _ => False) ?_ fun _ => fun _ impossible => impossible.elim
    refine Triple.pre ?_ fun t h => h.1
    exact trydecpoint_view unread

/-! ## Long brackets -/

def isEquals (c : UInt8) : Bool := c == 61

theorem countEquals_view (fuel count : Nat) (enough : text.length < fuel) :
    Triple (View code S text buff) (countEquals fuel count)
      (fun n ls => n = count + (text.takeWhile isEquals).length ∧
        View code S (text.dropWhile isEquals) (buff ++ text.takeWhile isEquals) ls) E := by
  induction fuel generalizing text buff count with
  | zero => omega
  | succ fuel ih =>
    refine Triple.get_bind fun ls => ?_
    refine Triple.given (φ := (ls.current == some 61) = (text.head? == some 61)) ?_ fun seen => ?_
    · rintro t ⟨view, rfl⟩
      exact view.beq_current (by decide) (by decide)
    refine Triple.cond (fun found => ?_) fun stopped => ?_
    · rw [seen] at found
      cases text with
      | nil => simp at found
      | cons c text =>
        obtain rfl : c = 61 := by simpa using found
        have holds : isEquals 61 = true := rfl
        rw [List.dropWhile_cons_of_pos holds, List.takeWhile_cons_of_pos holds, List.append_cons,
          List.length_cons, Nat.add_comm (List.length _), ← Nat.add_assoc]
        refine Triple.bind ((saveAndNext_view small (by decide)).pre fun _ h => h.1) fun _ => ?_
        exact ih (count + 1) (by simpa using enough)
    · rw [seen] at stopped
      refine Triple.ret fun t h => ?_
      cases text with
      | nil => simpa using h.1
      | cons c text =>
        have fails : ¬ isEquals c = true := by simpa [isEquals] using stopped
        rw [List.dropWhile_cons_of_neg fails, List.takeWhile_cons_of_neg fails, List.append_nil]
        exact ⟨rfl, h.1⟩

/-- What `skip_sep` returns in front of the bracket `s`. -/
def sepLevel (s : UInt8) (text : List UInt8) : Int :=
  let count := (text.takeWhile isEquals).length
  if (text.dropWhile isEquals).head? == some s then (count : Int) else -(count : Int) - 1

theorem skipSep_view {s : UInt8} (fuel : Nat) (enough : text.length < fuel)
    (plain : isNewline s = false) :
    Triple (View code S (s :: text) buff) (skipSep fuel)
      (fun sep ls => sep = sepLevel s text ∧
        View code S (text.dropWhile isEquals) (buff ++ [s] ++ text.takeWhile isEquals) ls) E := by
  have lf : s ≠ 10 := by
    rintro rfl
    simp [isNewline] at plain
  have cr : s ≠ 13 := by
    rintro rfl
    simp [isNewline] at plain
  refine Triple.get_bind fun ls => ?_
  refine Triple.given (φ := ls.current = some s) ?_ fun seen => ?_
  · rintro t ⟨view, rfl⟩
    exact view.current_some lf
  rw [seen]
  refine Triple.bind ((saveAndNext_view small lf).pre fun _ h => h.1) fun _ => ?_
  refine Triple.bind (countEquals_view small fuel 0 enough) fun count => ?_
  refine Triple.get_bind fun ls' => ?_
  refine Triple.given (φ := (ls'.current == some s) =
    ((text.dropWhile isEquals).head? == some s)) ?_ fun again => ?_
  · rintro t ⟨⟨-, view⟩, rfl⟩
    exact view.beq_current lf cr
  refine Triple.ret fun t h => ⟨?_, h.1.2⟩
  rw [again, h.1.1, Nat.zero_add]
  rfl

end

/-! ## Long brackets of the grammar -/

theorem sepLevel_nil (s : UInt8) : sepLevel s [] = -1 := rfl

theorem sepLevel_equals (s : UInt8) (text : List UInt8) :
    sepLevel s (61 :: text) = if 0 ≤ sepLevel s text then
      sepLevel s text + 1 else sepLevel s text - 1 := by
  have holds : isEquals 61 = true := rfl
  simp only [sepLevel, List.takeWhile_cons_of_pos holds, List.dropWhile_cons_of_pos holds,
    List.length_cons]
  split <;> split <;> omega

theorem sepLevel_other {c : UInt8} (s : UInt8) (text : List UInt8) (other : isEquals c = false) :
    sepLevel s (c :: text) = if c = s then 0 else -1 := by
  have fails : ¬ isEquals c = true := by simp [other]
  simp only [sepLevel, List.takeWhile_cons_of_neg fails, List.dropWhile_cons_of_neg fails]
  simp

theorem dropWhile_of_sepLevel {s : UInt8} {text : List UInt8} (matching : 0 ≤ sepLevel s text) :
    ∃ rest, text.dropWhile isEquals = s :: rest ∧
      ((text.takeWhile isEquals).length : Int) = sepLevel s text := by
  simp only [sepLevel] at matching ⊢
  split at matching
  next found =>
    rw [if_pos found]
    cases left : text.dropWhile isEquals with
    | nil => simp [left] at found
    | cons d rest =>
      obtain rfl : d = s := by simpa [left] using found
      exact ⟨rest, rfl, rfl⟩
  next => omega

theorem single_of_head {text : List UInt8} (absent : text.head? ≠ some 61) :
    text.head? ≠ some 61 ∧ text.takeWhile isEquals = [] ∧ text.dropWhile isEquals = text := by
  cases text with
  | nil => exact ⟨absent, rfl, rfl⟩
  | cons c text =>
    have fails : ¬ isEquals c = true := by simpa [isEquals] using absent
    exact ⟨absent, List.takeWhile_cons_of_neg fails, List.dropWhile_cons_of_neg fails⟩

-- a bracket with nothing behind it that could belong to a long one
theorem sepLevel_single {s : UInt8} {text : List UInt8} (other : ¬ 0 ≤ sepLevel s text) :
    sepLevel s text = -1 ↔
      text.head? ≠ some 61 ∧ text.takeWhile isEquals = [] ∧ text.dropWhile isEquals = text := by
  cases text with
  | nil => simp [sepLevel_nil]
  | cons c text =>
    cases equals : isEquals c with
    | true =>
      obtain rfl : c = 61 := by simpa [isEquals] using equals
      rw [sepLevel_equals] at other ⊢
      constructor
      · intro single
        split at single <;> omega
      · exact fun absent => absurd rfl absent.1
    | false =>
      have absent : (c :: text).head? ≠ some 61 := by simpa [isEquals] using equals
      rw [sepLevel_other s text equals] at other ⊢
      constructor
      · exact fun _ => single_of_head absent
      · intro _
        split at other
        · omega
        · rw [if_neg ‹_›]

theorem longOpen_some {text : List UInt8} (matching : 0 ≤ sepLevel 91 text) :
    longOpen (91 :: text) = some ((text.takeWhile isEquals).length,
      (text.dropWhile isEquals).tail) := by
  obtain ⟨rest, left, -⟩ := dropWhile_of_sepLevel matching
  have left' : text.dropWhile (· == 61) = 91 :: rest := left
  simp only [longOpen, left', left]
  rfl

theorem longOpen_none {text : List UInt8} (other : ¬ 0 ≤ sepLevel 91 text) :
    longOpen (91 :: text) = none := by
  have absent : (text.dropWhile isEquals).head? ≠ some 91 := by
    intro found
    simp [sepLevel, found] at other
  have absent' : (text.dropWhile (· == 61)).head? ≠ some 91 := absent
  simp only [longOpen]
  split
  next found =>
    rw [found] at absent'
    exact absurd rfl absent'
  next => rfl

theorem replicate_isPrefix (level : Nat) (text : List UInt8) :
    List.replicate level 61 ++ [93] <+: text ↔ sepLevel 93 text = level := by
  induction level generalizing text with
  | zero =>
    cases text with
    | nil => simp [sepLevel_nil]
    | cons c text =>
      rw [List.replicate_zero, List.nil_append, List.cons_prefix_cons]
      cases equals : isEquals c with
      | true =>
        obtain rfl : c = 61 := by simpa [isEquals] using equals
        rw [sepLevel_equals]
        constructor
        · rintro ⟨impossible, -⟩
          cases impossible
        · intro level
          split at level <;> omega
      | false =>
        rw [sepLevel_other 93 text equals]
        by_cases close : c = 93
        · simp [close]
        · simp [close, Ne.symm close]
  | succ level ih =>
    cases text with
    | nil =>
      rw [sepLevel_nil]
      constructor
      · intro short
        simp at short
      · omega
    | cons c text =>
      rw [List.replicate_succ, List.cons_append, List.cons_prefix_cons, ih]
      cases equals : isEquals c with
      | true =>
        obtain rfl : c = 61 := by simpa [isEquals] using equals
        rw [sepLevel_equals]
        constructor
        · rintro ⟨-, same⟩
          rw [same, if_pos (by omega)]
          omega
        · intro same
          refine ⟨rfl, ?_⟩
          split at same <;> omega
      | false =>
        rw [sepLevel_other 93 text equals]
        constructor
        · rintro ⟨rfl, -⟩
          cases equals
        · intro same
          split at same <;> omega

-- a closing bracket of this level stands here
theorem longClose_isPrefixOf (level : Nat) (text : List UInt8) :
    (longClose level).isPrefixOf (93 :: text) = true ↔ sepLevel 93 text = level := by
  rw [List.isPrefixOf_iff_prefix, longClose, List.cons_append, List.cons_prefix_cons,
    replicate_isPrefix]
  simp

theorem longBody_plain {c : UInt8} (level : Nat) (text : List UInt8) (notOpen : c ≠ 91)
    (notClose : c ≠ 93) :
    longBody level (c :: text) = (longBody level text).map fun (body, rest) =>
      (c :: body, rest) := by
  have noClose : (longClose level).isPrefixOf (c :: text) = false := by
    simp [longClose, List.isPrefixOf, Ne.symm notClose]
  have noOpen : [91, 91].isPrefixOf (c :: text) = false := by
    simp [List.isPrefixOf, Ne.symm notOpen]
  simp [longBody, noClose, noOpen]

theorem longBody_equals (level : Nat) (text : List UInt8) :
    longBody level text = (longBody level (text.dropWhile isEquals)).map
      fun (body, rest) => (text.takeWhile isEquals ++ body, rest) := by
  induction text with
  | nil => simp [longBody]
  | cons c text ih =>
    cases equals : isEquals c with
    | true =>
      obtain rfl : c = 61 := by simpa [isEquals] using equals
      rw [longBody_plain level text (by decide) (by decide), ih, List.dropWhile_cons_of_pos equals,
        List.takeWhile_cons_of_pos equals, Option.map_map]
      rfl
    | false =>
      have fails : ¬ isEquals c = true := by simp [equals]
      rw [List.dropWhile_cons_of_neg fails, List.takeWhile_cons_of_neg fails]
      simp

theorem longBody_close {level : Nat} {text : List UInt8} (matching : sepLevel 93 text = level) :
    longBody level (93 :: text) = some ([], (text.dropWhile isEquals).tail) := by
  have here := (longClose_isPrefixOf level text).mpr matching
  obtain ⟨rest, left, count⟩ := dropWhile_of_sepLevel (show 0 ≤ sepLevel 93 text by omega)
  have behind : text.drop (level + 1) = rest := by
    have whole := List.takeWhile_append_dropWhile (p := isEquals) (l := text)
    have long : (text.takeWhile isEquals).length = level := by omega
    rw [← whole, left, ← long, List.drop_append]
    simp
  simp [longBody, here, left, behind]

theorem longBody_bracket {level : Nat} {text : List UInt8} (other : sepLevel 93 text ≠ level) :
    longBody level (93 :: text) = (longBody level (text.dropWhile isEquals)).map
      fun (body, rest) => (93 :: (text.takeWhile isEquals ++ body), rest) := by
  have noClose : ¬ (longClose level).isPrefixOf (93 :: text) = true := by
    rw [longClose_isPrefixOf]
    exact other
  have noOpen : [91, 91].isPrefixOf (93 :: text) = false := by simp [List.isPrefixOf]
  rw [longBody, if_neg noClose, if_neg (by simp [noOpen]), longBody_equals level text,
    Option.map_map]
  rfl

theorem longBody_inner {level : Nat} (text : List UInt8) (positive : level ≠ 0) :
    longBody level (91 :: text) = (longBody level text).map fun (body, rest) =>
      (91 :: body, rest) := by
  have noClose : ¬ (longClose level).isPrefixOf (91 :: text) = true := by
    simp [longClose, List.isPrefixOf]
  rw [longBody, if_neg noClose, if_neg (by simp [positive])]

-- an opening bracket, or a part of one
theorem longBody_open {level : Nat} {text : List UInt8}
    (passed : level = 0 → sepLevel 91 text ≠ 0) :
    longBody level (91 :: text) = (longBody level (text.dropWhile isEquals)).map
      fun (body, rest) => (91 :: (text.takeWhile isEquals ++ body), rest) := by
  have noClose : ¬ (longClose level).isPrefixOf (91 :: text) = true := by
    simp [longClose, List.isPrefixOf]
  have noOpen : ¬ (level = 0 ∧ [91, 91].isPrefixOf (91 :: text) = true) := by
    rintro ⟨zero, nested⟩
    cases text with
    | nil => simp [List.isPrefixOf] at nested
    | cons c text =>
      obtain rfl : 91 = c := by simpa [List.isPrefixOf] using nested
      exact passed zero (sepLevel_other 91 text (by decide))
  rw [longBody, if_neg noClose, if_neg noOpen, longBody_equals level text, Option.map_map]
  rfl

theorem longBody_nested {text : List UInt8} (matching : sepLevel 91 text = 0) :
    longBody 0 (91 :: text) = none := by
  obtain ⟨rest, left, count⟩ := dropWhile_of_sepLevel (show 0 ≤ sepLevel 91 text by omega)
  have none : text.takeWhile isEquals = [] := List.eq_nil_of_length_eq_zero (by omega)
  have whole := List.takeWhile_append_dropWhile (p := isEquals) (l := text)
  rw [none, left, List.nil_append] at whole
  rw [← whole]
  simp [longBody, longClose, List.isPrefixOf]

/-! ## Long strings and comments -/

/-- The loop of `read_long_string` has ended behind the closing bracket. -/
def LongRead (code : Nat → UInt8) (S : Nat) (keep : Bool) (level : Nat) (text buff : List UInt8)
    (ls : LexState) : Prop :=
  ∃ body rest buff', longBody level text = some (body, rest) ∧ View code S rest buff' ls ∧
    (keep = true → buff' = buff ++ body ++ longClose level)

-- a piece of the text has been passed
theorem LongRead.before {keep : Bool} {level : Nat} {text text' buff buff' piece : List UInt8}
    {ls : LexState} (read : LongRead code S keep level text' buff' ls)
    (saved : keep = true → buff' = buff ++ piece)
    (passed : longBody level text = (longBody level text').map fun (body, rest) =>
      (piece ++ body, rest)) :
    LongRead code S keep level text buff ls := by
  obtain ⟨body, rest, buff'', found, view, kept⟩ := read
  refine ⟨piece ++ body, rest, buff'', by rw [passed, found]; rfl, view, fun keeps => ?_⟩
  rw [kept keeps, saved keeps]
  simp

-- the rest of the loop, behind that piece
theorem long_before {α : Type} {P : LexState → Prop} {m : LexM α} {keep : Bool} {level : Nat}
    {text text' buff buff' : List UInt8} (piece : List UInt8)
    (rest : Triple P m (fun _ => LongRead code S keep level text' buff')
      (fun e _ => e ≠ .outOfFuel ∧ longBody level text' = none))
    (saved : keep = true → buff' = buff ++ piece)
    (passed : longBody level text = (longBody level text').map fun (body, rest) =>
      (piece ++ body, rest)) :
    Triple P m (fun _ => LongRead code S keep level text buff)
      (fun e _ => e ≠ .outOfFuel ∧ longBody level text = none) := by
  refine (rest.errors ?_).conseq (fun _ h => h) fun _ t read => read.before saved passed
  rintro e t ⟨fuelLeft, unfinished⟩
  exact ⟨fuelLeft, by rw [passed, unfinished]; rfl⟩

/-- `go` reads the rest of a long string, where that is shorter than `bound`. -/
def LongLoop (code : Nat → UInt8) (S : Nat) (keep : Bool) (level bound : Nat) (go : LexM PUnit) :
    Prop :=
  ∀ text buff, text.length < bound →
    Triple (View code S text buff) go (fun _ => LongRead code S keep level text buff)
    (fun e _ => e ≠ .outOfFuel ∧ longBody level text = none)

section
variable (small : S < sizeModulus)
include small

variable {text buff : List UInt8} {keep : Bool} {level bound : Nat} {go : LexM PUnit}

theorem longOpening_view (loop : LongLoop code S keep level bound go) (fuel : Nat)
    (enough : text.length < fuel) (left : text.length < bound) :
    Triple (View code S (91 :: text) buff)
      (skipSep fuel >>= fun sep => if sep = (level : Int) then saveAndNext >>= fun _ =>
        (if (level : Int) = 0 then
          luaXLexerror (α := PUnit) "nesting of [[...]] is deprecated" (fun _ => .token (.char 91))
            >>= fun _ => go
          else go) else go)
      (fun _ => LongRead code S keep level (91 :: text) buff)
      (fun e _ => e ≠ .outOfFuel ∧ longBody level (91 :: text) = none) := by
  have shorter := (List.dropWhile_suffix (p := isEquals) (l := text)).length_le
  refine Triple.bind (skipSep_view small fuel enough (by decide)) fun sep => ?_
  refine Triple.given (φ := sep = sepLevel 91 text) (fun _ h => h.1) ?_
  rintro rfl
  refine Triple.pre ?_ fun _ h => h.2
  refine Triple.cond (fun matching => ?_) fun other => ?_
  · obtain ⟨rest, found, -⟩ := dropWhile_of_sepLevel (show 0 ≤ sepLevel 91 text by omega)
    rw [found]
    refine Triple.bind (saveAndNext_view small (by decide)) fun _ => ?_
    refine Triple.cond (fun zero => ?_) fun nested => ?_
    · obtain rfl : level = 0 := by omega
      refine Triple.bind (R := fun _ _ => False) ?_ fun _ => fun _ impossible => impossible.elim
      exact (lexerror_view _ _).errors fun e _ fuelLeft => ⟨fuelLeft, longBody_nested matching⟩
    · have tail : rest.length < bound := by
        rw [found, List.length_cons] at shorter
        omega
      refine long_before ([91] ++ text.takeWhile isEquals ++ [91]) (loop rest _ tail)
        (fun _ => by simp) ?_
      rw [longBody_open (by omega), found, longBody_inner rest (by omega), Option.map_map]
      simp [Function.comp_def]
  · refine long_before ([91] ++ text.takeWhile isEquals) (loop _ _ (by omega)) (fun _ => by simp) ?_
    rw [longBody_open (by omega)]
    simp

theorem longClosing_view (loop : LongLoop code S keep level bound go) (fuel : Nat)
    (enough : text.length < fuel) (left : text.length < bound) :
    Triple (View code S (93 :: text) buff)
      (skipSep fuel >>= fun sep => if sep = (level : Int) then saveAndNext else go)
      (fun _ => LongRead code S keep level (93 :: text) buff)
      (fun e _ => e ≠ .outOfFuel ∧ longBody level (93 :: text) = none) := by
  have shorter := (List.dropWhile_suffix (p := isEquals) (l := text)).length_le
  refine Triple.bind (skipSep_view small fuel enough (by decide)) fun sep => ?_
  refine Triple.given (φ := sep = sepLevel 93 text) (fun _ h => h.1) ?_
  rintro rfl
  refine Triple.pre ?_ fun _ h => h.2
  refine Triple.cond (fun matching => ?_) fun other => ?_
  · obtain ⟨rest, found, count⟩ := dropWhile_of_sepLevel (show 0 ≤ sepLevel 93 text by omega)
    have equals : text.takeWhile isEquals = List.replicate level 61 := by
      refine List.eq_replicate_iff.mpr ⟨by omega, fun c member => ?_⟩
      simpa [isEquals] using List.mem_takeWhile_imp member
    have closed := longBody_close matching
    rw [found, List.tail_cons] at closed
    rw [found, equals]
    refine (saveAndNext_view small (by decide)).conseq (fun _ h => h) fun _ t view => ?_
    exact ⟨[], rest, _, closed, view, fun _ => by simp [longClose]⟩
  · refine long_before ([93] ++ text.takeWhile isEquals) (loop _ _ (by omega)) (fun _ => by simp) ?_
    rw [longBody_bracket other]
    simp

theorem longLine_view (loop : LongLoop code S keep level bound go) (left : text.length < bound) :
    Triple (View code S (10 :: text) buff)
      (save 10 >>= fun _ => inclinenumber >>= fun _ => if (!keep) = true then
        resetbuffer >>= fun _ => go else go)
      (fun _ => LongRead code S keep level (10 :: text) buff)
      (fun e _ => e ≠ .outOfFuel ∧ longBody level (10 :: text) = none) := by
  have passed := longBody_plain (c := 10) level text (by decide) (by decide)
  refine Triple.bind (save_view 10) fun _ => ?_
  refine Triple.bind (inclinenumber_view small) fun _ => ?_
  refine Triple.cond (fun dropped => ?_) fun kept => ?_
  · refine Triple.bind resetbuffer_view fun _ => ?_
    exact long_before [10] (loop _ _ left) (fun keeps => by simp [keeps] at dropped) passed
  · exact long_before [10] (loop _ _ left) (fun _ => rfl) passed

theorem longChar_view {c : UInt8} (loop : LongLoop code S keep level bound go)
    (left : text.length < bound) (notOpen : c ≠ 91) (notClose : c ≠ 93) (plain : c ≠ 10) :
    Triple (View code S (c :: text) buff)
      (if keep = true then saveAndNext >>= fun _ => go else next >>= fun _ => go)
      (fun _ => LongRead code S keep level (c :: text) buff)
      (fun e _ => e ≠ .outOfFuel ∧ longBody level (c :: text) = none) := by
  have passed := longBody_plain level text notOpen notClose
  refine Triple.cond (fun kept => ?_) fun dropped => ?_
  · refine Triple.bind (saveAndNext_view small plain) fun _ => ?_
    exact long_before [c] (loop _ _ left) (fun _ => rfl) passed
  · refine Triple.bind (next_view small plain) fun _ => ?_
    exact long_before [c] (loop _ _ left) (fun keeps => absurd keeps dropped) passed

theorem longStringLoop_view (keep : Bool) (level fuel rounds : Nat) (enough : rounds ≤ fuel) :
    LongLoop code S keep level rounds (longStringLoop fuel keep level rounds) := by
  induction rounds with
  | zero => exact fun _ _ none => absurd none (Nat.not_lt_zero _)
  | succ rounds ih =>
    intro text buff left
    have loop := ih (by omega)
    refine Triple.get_bind fun ls => ?_
    split
    next seen =>
      refine seen_none seen ?_
      rintro rfl
      exact (lexerror_view _ _).errors fun e _ fuelLeft => ⟨fuelLeft, rfl⟩
    next seen =>
      refine seen_some seen ?_
      rintro rest rfl
      rw [List.length_cons] at left
      exact longOpening_view small loop fuel (by omega) (by omega)
    next seen =>
      refine seen_some seen ?_
      rintro rest rfl
      rw [List.length_cons] at left
      exact longClosing_view small loop fuel (by omega) (by omega)
    next seen =>
      refine seen_some seen ?_
      rintro rest rfl
      exact longLine_view small loop (Nat.lt_of_succ_lt_succ left)
    next seen =>
      refine seen_some seen ?_
      rintro rest rfl
      exact longLine_view small loop (Nat.lt_of_succ_lt_succ left)
    next c notOpen notClose lf cr seen =>
      have plain : isNewline c = false := by simpa [isNewline] using ⟨lf, cr⟩
      refine seen_some seen ?_
      rw [plain]
      rintro rest rfl
      exact longChar_view small loop (Nat.lt_of_succ_lt_succ left) notOpen notClose lf

omit small in
theorem inside_eq (opening body closing : List UInt8) {d : Nat} (before : opening.length = d)
    (behind : closing.length = d) : inside d (opening ++ body ++ closing) = body := by
  subst before
  have shorter : (opening ++ body ++ closing).length - 2 * opening.length = body.length := by
    simp only [List.length_append, behind]
    omega
  rw [inside, shorter, List.append_assoc, List.drop_left, List.take_left]

/-- `read_long_string`, from the second bracket on; `buff` holds what stands before it. -/
theorem readLongString_view (keep : Bool) (level fuel : Nat) (enough : text.length < fuel)
    (saved : keep = true → buff.length = level + 1) :
    Triple (View code S (91 :: text) buff) (readLongString fuel keep level)
      (fun s ls => ∃ body rest, longBracket level text = some (body, rest) ∧
        Reached code S rest ls ∧
        (keep = true → s = body))
      (fun e _ => e ≠ .outOfFuel ∧ longBracket level text = none) := by
  -- behind the line end that may follow the bracket
  have behind : ∀ text, text.length < fuel → Triple (View code S text (buff ++ [91]))
      (longStringLoop fuel keep level fuel >>= fun _ => get >>= fun ls =>
        pure (inside (2 + (level : Int).toNat) ls.buff))
      (fun s ls => ∃ body rest, longBody level text = some (body, rest) ∧ Reached code S rest ls ∧
        (keep = true → s = body))
      (fun e _ => e ≠ .outOfFuel ∧ longBody level text = none) := by
    intro text short
    refine Triple.bind (longStringLoop_view small keep level fuel fuel le_rfl text _ short) fun _ => ?_
    refine Triple.get_bind fun ls => Triple.ret ?_
    rintro t ⟨⟨body, rest, buff', found, view, kept⟩, rfl⟩
    refine ⟨body, rest, found, ⟨buff', view⟩, fun keeps => ?_⟩
    rw [view.buff_eq, kept keeps]
    refine inside_eq _ _ _ ?_ ?_
    · rw [List.length_append, saved keeps, List.length_singleton, Int.toNat_natCast]
      omega
    · simp [longClose]
      omega
  refine Triple.bind (saveAndNext_view small (by decide)) fun _ => ?_
  refine Triple.get_bind fun ls => ?_
  refine Triple.given (φ := currIsNewline ls = (text.head? == some 10)) ?_ fun seen => ?_
  · rintro t ⟨view, rfl⟩
    exact view.currIsNewline_eq
  rw [seen]
  refine Triple.cond (fun newline => ?_) fun other => ?_
  · cases text with
    | nil => simp at newline
    | cons c text =>
      obtain rfl : c = 10 := by simpa using newline
      refine Triple.bind ((inclinenumber_view small).pre fun _ h => h.1) fun _ => ?_
      exact behind text (Nat.lt_of_succ_lt enough)
  · have same : longBracket level text = longBody level text := by
      cases text with
      | nil => rfl
      | cons c text =>
        have plain : c ≠ 10 := by simpa using other
        simp [longBracket, plain]
    rw [same]
    exact (behind text enough).pre fun _ h => h.1

/-! ## Quoted strings -/

omit small in
theorem isdigit_bounds {c : UInt8} (digit : isdigit c = true) : 48 ≤ c.toNat ∧ c.toNat ≤ 57 := by
  simpa [isdigit, UInt8.le_iff_toNat_le] using digit

def digitsValue (value : Nat) (digits : List UInt8) : Nat :=
  digits.foldl (fun n c => 10 * n + (c.toNat - 48)) value

-- one round of the loop over the digits
theorem escapeDigit_then {c : UInt8} {i value : Nat} {Q : Nat → LexState → Prop}
    (digit : isdigit c = true) (more : ∀ d rest, text = d :: rest ∧ isdigit d = true →
      Triple (View code S text buff) (escapeDigits i (digitsValue value [c])) Q E)
    (stop : isByte isdigit text.head? = false →
      Triple (View code S text buff) (pure (digitsValue value [c])) Q E) :
    Triple (View code S (c :: text) buff) (escapeDigits (i + 1) value) Q E := by
  have plain : c ≠ 10 := by
    rintro rfl
    simp [isdigit] at digit
  have bounds := isdigit_bounds digit
  refine Triple.get_bind fun ls => ?_
  refine Triple.given (φ := currentChar ls = c) ?_ fun same => ?_
  · rintro t ⟨view, rfl⟩
    rw [currentChar, view.current_some plain]
    rfl
  have value' : 10 * value + (currentChar ls).toNat - 48 = digitsValue value [c] := by
    rw [same]
    exact Nat.add_sub_assoc bounds.1 _
  rw [value']
  refine Triple.bind ((next_view small plain).pre fun _ h => h.1) fun _ => ?_
  refine Triple.get_bind fun ls' => ?_
  refine Triple.given (φ := isByte isdigit ls'.current = isByte isdigit text.head?) ?_ fun seen =>
    ?_
  · rintro t ⟨view, rfl⟩
    exact view.isByte_current (by decide)
  rw [seen]
  refine Triple.cond (fun found => ?_) fun stopped => ?_
  · cases text with
    | nil => simp [isByte] at found
    | cons d rest => exact (more d rest ⟨rfl, found⟩).pre fun _ h => h.1
  · exact (stop (by simpa using stopped)).pre fun _ h => h.1

theorem escapeDigits_view {c : UInt8} (i value : Nat) (digit : isdigit c = true) :
    Triple (View code S (c :: text) buff) (escapeDigits (i + 1) value)
      (fun v ls => v = digitsValue value (c :: (text.take i).takeWhile isdigit) ∧
        View code S (text.drop ((text.take i).takeWhile isdigit).length) buff ls) E := by
  induction i generalizing c text value with
  | zero =>
    refine escapeDigit_then small digit (fun _ _ _ => ?_) fun _ => ?_
    · exact Triple.ret fun t view => ⟨rfl, view⟩
    · exact Triple.ret fun t view => ⟨rfl, view⟩
  | succ i ih =>
    refine escapeDigit_then small digit ?_ fun stops => ?_
    · rintro d rest ⟨rfl, digit'⟩
      rw [List.take_succ_cons, List.takeWhile_cons_of_pos digit']
      exact ih (digitsValue value [c]) digit'
    · have none : (text.take (i + 1)).takeWhile isdigit = [] := by
        cases text with
        | nil => rfl
        | cons d rest =>
          rw [List.take_succ_cons, List.takeWhile_cons_of_neg]
          simpa [isByte] using stops
      rw [none]
      exact Triple.ret fun t view => ⟨rfl, view⟩

/-- What follows a backslash. -/
theorem readEscape_view :
    Triple (View code S (92 :: text) buff) readEscape
      (fun _ ls => (text = [] ∧ View code S [] buff ls) ∨
        ∃ e rest, escaped text = some (e, rest) ∧ View code S rest (buff ++ [e]) ls)
      (fun e _ => e ≠ .outOfFuel ∧ escaped text = none) := by
  refine Triple.bind (next_view small (by decide)) fun _ => ?_
  refine Triple.get_bind fun ls => ?_
  split
  next seen =>
    refine seen_none seen ?_
    rintro rfl
    exact Triple.ret fun t view => .inl ⟨rfl, view⟩
  next c seen =>
    refine seen_some seen fun rest eq => ?_
    cases newline : isNewline c with
    | true =>
      obtain rfl : text = 10 :: rest := by rw [eq, newline]; rfl
      have either : c = 10 ∨ c = 13 := by simpa [isNewline] using newline
      have ordinary : escapeChar c = none := by rcases either with rfl | rfl <;> rfl
      rw [ordinary, if_pos either]
      refine Triple.bind (save_view 10) fun _ => ?_
      refine (inclinenumber_view small).conseq (fun _ h => h) fun _ t view => ?_
      exact .inr ⟨10, rest, rfl, view⟩
    | false =>
      obtain rfl : text = c :: rest := by rw [eq, newline]; rfl
      have plain : ¬ (c = 10 ∨ c = 13) := by simpa [isNewline] using newline
      have lf : c ≠ 10 := fun same => plain (.inl same)
      cases special : escapeChar c with
      | some e =>
        refine Triple.bind (save_view e) fun _ => ?_
        refine (next_view small lf).conseq (fun _ h => h) fun _ t view => ?_
        exact .inr ⟨e, rest, by simp [escaped, special], view⟩
      | none =>
        rw [if_neg plain]
        refine Triple.cond (fun digit => ?_) fun other => ?_
        · have digits : ((c :: rest).take 3).takeWhile isdigit =
              c :: (rest.take 2).takeWhile isdigit := by
            rw [List.take_succ_cons, List.takeWhile_cons_of_pos digit]
          refine Triple.bind (escapeDigits_view small 2 0 digit) fun value => ?_
          refine Triple.given (φ := value = digitsValue 0 (c :: (rest.take 2).takeWhile isdigit))
            (fun _ h => h.1) ?_
          intro same
          have same' : decimalValue (c :: (rest.take 2).takeWhile isdigit) = value := same.symm
          refine Triple.pre ?_ fun _ h => h.2
          refine Triple.cond (fun large => ?_) fun fits => ?_
          · refine Triple.bind (R := fun _ _ => False) ?_ fun _ => fun _ impossible =>
              impossible.elim
            refine (lexerror_view _ _).errors fun e _ fuelLeft => ⟨fuelLeft, ?_⟩
            simp only [escaped, special, digit, if_true, digits, same']
            rw [if_neg (by omega)]
          · refine (save_view _).conseq (fun _ h => h) fun _ t view => .inr ⟨_, _, ?_, view⟩
            simp only [escaped, special, digit, if_true, digits, same']
            rw [if_pos (by omega)]
            rfl
        · refine (saveAndNext_view small lf).conseq (fun _ h => h) fun _ t view => ?_
          exact .inr ⟨c, rest, by simp [escaped, special, other], view⟩

omit small in
theorem escaped_shorter {e : UInt8} {rest : List UInt8} (found : escaped text = some (e, rest)) :
    rest.length < text.length := by
  cases text with
  | nil => simp [escaped] at found
  | cons c text =>
    rw [escaped] at found
    split at found
    · simp only [Option.some.injEq, Prod.mk.injEq] at found
      rw [← found.2]
      exact Nat.lt_succ_self _
    · split at found
      next digit =>
        simp only [List.take_succ_cons, List.takeWhile_cons_of_pos digit] at found
        split at found
        · simp only [Option.some.injEq, Prod.mk.injEq] at found
          rw [← found.2]
          simp only [List.length_cons, List.drop_succ_cons, List.length_drop]
          omega
        · cases found
      next =>
        simp only [Option.some.injEq, Prod.mk.injEq] at found
        rw [← found.2]
        exact Nat.lt_succ_self _

/-- The loop of `read_string` has ended at the delimiter. -/
def QuotedRead (code : Nat → UInt8) (S : Nat) (del : UInt8) (n : Nat) (text buff : List UInt8)
    (ls : LexState) : Prop :=
  ∃ s rest, quoted del n text = some (s, rest) ∧ View code S (del :: rest) (buff ++ s) ls

omit small in
-- the rest of the loop, behind a character of the string
theorem quoted_before {α : Type} {del e : UInt8} {n n' : Nat} {text' : List UInt8} {m : LexM α}
    {P : LexState → Prop} (rest : Triple P m (fun _ => QuotedRead code S del n' text' (buff ++ [e]))
      (fun e _ => e ≠ .outOfFuel ∧ quoted del n' text' = none))
    (passed : quoted del n text = (quoted del n' text').map fun others => (e :: others.1, others.2)) :
    Triple P m (fun _ => QuotedRead code S del n text buff)
      (fun e _ => e ≠ .outOfFuel ∧ quoted del n text = none) := by
  refine (rest.errors ?_).conseq (fun _ h => h) ?_
  · rintro e t ⟨fuelLeft, unfinished⟩
    exact ⟨fuelLeft, by rw [passed, unfinished]; rfl⟩
  · rintro _ t ⟨s, rest, found, view⟩
    refine ⟨e :: s, rest, by rw [passed, found]; rfl, ?_⟩
    rw [List.append_cons]
    exact view

-- the delimiter is a quote, not the end of a line
theorem stringLoop_view {del : UInt8} (quote : isNewline del = false) (rounds : Nat) :
    ∀ text buff n, text.length < rounds → text.length < n →
      Triple (View code S text buff) (stringLoop del rounds)
        (fun _ => QuotedRead code S del n text buff)
          (fun e _ => e ≠ .outOfFuel ∧ quoted del n text = none) := by
  induction rounds with
  | zero => exact fun _ _ _ none => absurd none (Nat.not_lt_zero _)
  | succ rounds ih =>
    intro text buff n left left'
    obtain ⟨n, rfl⟩ : ∃ m, n = m + 1 := ⟨n - 1, by omega⟩
    refine Triple.get_bind fun ls => ?_
    split
    next seen =>
      refine seen_none seen ?_
      rintro rfl
      exact (lexerror_view _ _).errors fun e _ fuelLeft => ⟨fuelLeft, rfl⟩
    next c seen =>
      refine seen_some seen fun rest eq => ?_
      refine Triple.cond (fun delimiter => ?_) fun inner =>
        Triple.cond (fun newline => ?_) fun plain => ?_
      · obtain rfl : text = del :: rest := by rw [eq, delimiter, quote]; rfl
        exact Triple.ret fun t view => ⟨[], rest, by simp [quoted], by simpa using view⟩
      · have either : isNewline c = true := by simpa [isNewline] using newline
        have other : ¬ 10 = del := by
          rintro rfl
          cases quote
        obtain rfl : text = 10 :: rest := by rw [eq, either]; rfl
        exact (lexerror_view _ _).errors fun e _ fuelLeft => ⟨fuelLeft, by simp [quoted, other]⟩
      · have single : isNewline c = false := by simpa [isNewline] using plain
        have lf : c ≠ 10 := fun same => plain (.inl same)
        obtain rfl : text = c :: rest := by rw [eq, single]; rfl
        rw [List.length_cons] at left left'
        refine Triple.cond ?_ fun other => ?_
        · rintro rfl
          have step : quoted del (n + 1) (92 :: rest) = (escaped rest).bind fun first =>
              (quoted del n first.2).map fun others => (first.1 :: others.1, others.2) := by
            rw [quoted, if_neg inner, if_neg (by decide), if_pos rfl]
          refine Triple.bind ((readEscape_view small).errors ?_) fun _ => ?_
          · rintro e t ⟨fuelLeft, wrong⟩
            exact ⟨fuelLeft, by rw [step, wrong]; rfl⟩
          rintro t (⟨rfl, view⟩ | ⟨e, rest', found, view⟩)
          · -- nothing follows the backslash, and the next round raises the error
            have never : quoted del n [] = none := by cases n <;> rfl
            have ends := ih [] buff n (by simp at left ⊢; omega) (by simp at left' ⊢; omega)
            refine ((ends.errors ?_).conseq (fun _ h => h) ?_) t view
            · exact fun e _ raised => ⟨raised.1, step⟩
            · rintro _ t ⟨s, rest, found, -⟩
              rw [never] at found
              cases found
          · have shorter := escaped_shorter found
            have passed : quoted del (n + 1) (92 :: rest) =
                (quoted del n rest').map fun others => (e :: others.1, others.2) := by
              rw [step, found]
              rfl
            exact quoted_before (ih rest' (buff ++ [e]) n (by omega) (by omega)) passed t view
        · refine Triple.bind (saveAndNext_view small lf) fun _ => ?_
          refine quoted_before (ih rest (buff ++ [c]) n (by omega) (by omega)) ?_
          rw [quoted, if_neg inner, if_neg lf, if_neg other]

theorem readString_view {del : UInt8} (quote : isNewline del = false) (fuel : Nat)
    (enough : text.length < fuel) :
    Triple (View code S (del :: text) []) (readString fuel del)
      (fun token ls => ∃ s rest, quoted del (text.length + 1) text = some (s, rest) ∧
        token = .string s ∧
        Reached code S rest ls)
      (fun e _ => e ≠ .outOfFuel ∧ quoted del (text.length + 1) text = none) := by
  have lf : del ≠ 10 := by
    rintro rfl
    cases quote
  refine Triple.bind (saveAndNext_view small lf) fun _ => ?_
  refine Triple.bind (stringLoop_view small quote fuel text _ (text.length + 1) enough
    (by omega)) fun _ => ?_
  refine Triple.exists_pre fun s => Triple.exists_pre fun rest => ?_
  refine Triple.given (φ := quoted del (text.length + 1) text = some (s, rest)) (fun _ h =>
    h.1) fun found => ?_
  refine Triple.pre ?_ fun _ h => h.2
  refine Triple.bind (saveAndNext_view small lf) fun _ => ?_
  refine Triple.get_bind fun ls => Triple.ret ?_
  rintro t ⟨view, rfl⟩
  refine ⟨s, rest, found, ?_, ⟨_, view⟩⟩
  rw [view.buff_eq]
  exact congrArg _ (inside_eq [del] s [del] rfl rfl)

/-! ## Comments, operators and names -/

theorem skipLine_view (rounds : Nat) (left : text.length < rounds) :
    Triple (View code S text buff) (skipLine rounds)
      (fun _ => View code S (text.dropWhile (· != 10)) buff) E := by
  induction rounds generalizing text with
  | zero => omega
  | succ rounds ih =>
    refine Triple.get_bind fun ls => ?_
    refine Triple.given (φ := (!currIsNewline ls && ls.current != none) =
      text.head?.any (· != 10)) ?_ fun seen => ?_
    · rintro t ⟨view, rfl⟩
      rw [view.currIsNewline_eq]
      cases text with
      | nil => rw [view.current_none]; rfl
      | cons c text =>
        have present : (t.current != none) = true := by
          cases found : t.current with
          | none => simpa using view.text_of_none found
          | some d => rfl
        rw [present]
        simp [bne]
    rw [seen]
    cases text with
    | nil => exact Triple.ret fun _ h => h.1
    | cons c text =>
      refine Triple.cond (fun other => ?_) fun newline => ?_
      · have plain : c ≠ 10 := by simpa using other
        rw [List.dropWhile_cons_of_pos (by simpa using plain)]
        refine Triple.bind ((next_view small plain).pre fun _ h => h.1) fun _ => ?_
        exact ih (Nat.lt_of_succ_lt_succ left)
      · rw [List.dropWhile_cons_of_neg (by simpa using newline)]
        exact Triple.ret fun _ h => h.1

-- the equal signs of something that opens no long comment
omit small in
theorem dropWhile_line (text : List UInt8) :
    (text.dropWhile isEquals).dropWhile (· != 10) = text.dropWhile (· != 10) := by
  induction text with
  | nil => rfl
  | cons c text ih =>
    by_cases equals : isEquals c = true
    · obtain rfl : c = 61 := by simpa [isEquals] using equals
      rw [List.dropWhile_cons_of_pos equals, ih, List.dropWhile_cons_of_pos (by decide)]
    · rw [List.dropWhile_cons_of_neg equals]

theorem skipComment_view (fuel : Nat) (enough : text.length < fuel) :
    Triple (View code S text []) (skipComment fuel)
      (fun _ ls => ∃ rest, afterComment text = some rest ∧ View code S rest [] ls)
      (fun e _ => e ≠ .outOfFuel ∧ afterComment text = none) := by
  refine Triple.get_bind fun ls => ?_
  refine Triple.given (φ := (ls.current == some 91) = (text.head? == some 91)) ?_ fun seen => ?_
  · rintro t ⟨view, rfl⟩
    exact view.beq_current (by decide) (by decide)
  rw [seen]
  refine Triple.pre ?_ fun _ h => h.1
  refine Triple.cond (fun bracket => ?_) fun other => ?_
  · cases text with
    | nil => simp at bracket
    | cons c text =>
      obtain rfl : c = 91 := by simpa using bracket
      rw [List.length_cons] at enough
      have shorter := (List.dropWhile_suffix (p := isEquals) (l := text)).length_le
      refine Triple.bind (skipSep_view small fuel (by omega) (by decide)) fun sep => ?_
      refine Triple.given (φ := sep = sepLevel 91 text) (fun _ h => h.1) ?_
      rintro rfl
      refine Triple.bind (resetbuffer_view.pre fun _ h => h.2) fun _ => ?_
      refine Triple.cond (fun long => ?_) fun line => ?_
      · obtain ⟨body, found, count⟩ := dropWhile_of_sepLevel long
        have opened : longOpen (91 :: text) = some ((text.takeWhile isEquals).length, body) := by
          rw [longOpen_some long, found, List.tail_cons]
        rw [found, List.length_cons] at shorter
        rw [found, ← count]
        have comment : ∀ {r}, afterComment (91 :: text) = r ↔
            (longBracket (text.takeWhile isEquals).length body).map Prod.snd = r := by
          intro r
          rw [afterComment, opened]
        simp only [comment]
        refine Triple.bind ((readLongString_view small false _ fuel (by omega)
          (by simp)).errors ?_) fun _ => ?_
        · exact fun e _ raised => ⟨raised.1, by rw [raised.2]; rfl⟩
        refine Triple.exists_pre fun inner => Triple.exists_pre fun rest => ?_
        refine Triple.given (fun _ h => h.1) fun closed => ?_
        refine Triple.pre (Triple.exists_pre fun buff => ?_) fun _ h => h.2.1
        refine resetbuffer_view.conseq (fun _ h => h) fun _ t view => ⟨rest, ?_, view⟩
        rw [closed]
        rfl
      · have simple : afterComment (91 :: text) =
            some ((text.dropWhile isEquals).dropWhile (· != 10)) := by
          rw [afterComment, longOpen_none line, dropWhile_line,
            List.dropWhile_cons_of_pos (by decide)]
        refine (skipLine_view small fuel (by omega)).conseq (fun _ h => h) fun _ t view =>
          ⟨_, simple, view⟩
  · have simple : afterComment text = some (text.dropWhile (· != 10)) := by
      have notLong : longOpen text = none := by
        cases text with
        | nil => rfl
        | cons c text =>
          have notBracket : c ≠ 91 := by simpa using other
          simp [longOpen, notBracket]
      rw [afterComment, notLong]
    exact (skipLine_view small fuel enough).conseq (fun _ h => h) fun _ t view => ⟨_, simple, view⟩

end

/-! ## Tokens -/

/-- The lexer has read this token and stands behind it. -/
def TokenRead (code : Nat → UInt8) (S : Nat) (expected : Option (Token × List UInt8))
    (token : Token) (ls : LexState) :
    Prop := ∃ rest, expected = some (token, rest) ∧ Reached code S rest ls

def NoToken (expected : Option (Token × List UInt8)) (e : LexError) (_ : LexState) : Prop :=
  e ≠ .outOfFuel ∧ expected = none

def lexedNumeral (before text : List UInt8) : Option (Token × List UInt8) :=
  (luaOStr2d (before ++ takenNumeral text ++ [0])).map fun n => (.number n, afterNumeral text)

-- behind the first dot
def lexedDots (text : List UInt8) : Option (Token × List UInt8) :=
  if inSet [46] text.head? then
    if inSet [46] text.tail.head? then some (.dots, text.tail.tail) else some (.concat, text.tail)
  else if isByte isdigit text.head? then lexedNumeral [46] text
  else some (.char 46, text)

/-- The token that `llex` finds at the start of a text: that of the grammar, but for the helpers which
    take their arguments for C strings. -/
def lexed : List UInt8 → Option (Token × List UInt8)
  | [] => lexeme []
  | c :: text =>
    if c = 46 then lexedDots text
    else if isdigit c then lexedNumeral [] (c :: text)
    else lexeme (c :: text)

section
variable (small : S < sizeModulus)
include small

variable {text buff : List UInt8}

theorem readNumeral_token {d : UInt8} (fuel : Nat) (enough : text.length < fuel)
    (digit : isdigit d = true) :
    Triple (View code S (d :: text) buff) (readNumeral fuel)
      (TokenRead code S (lexedNumeral buff (d :: text)))
        (NoToken (lexedNumeral buff (d :: text))) := by
  refine ((readNumeral_view small fuel enough digit).errors ?_).conseq (fun _ h => h) ?_
  · rintro e t ⟨fuelLeft, wrong⟩
    exact ⟨fuelLeft, by rw [lexedNumeral, wrong]; rfl⟩
  · rintro token t ⟨n, read, rfl, reached⟩
    exact ⟨_, by rw [lexedNumeral, read]; rfl, reached⟩

theorem readDots_token (fuel : Nat) (enough : text.length < fuel) :
    Triple (View code S (46 :: text) [])
      (saveAndNext >>= fun _ => checkNext [46] >>= fun second =>
        if second = true then checkNext [46] >>= fun third =>
          if third = true then pure Token.dots else pure Token.concat
        else get >>= fun ls => if isByte isdigit ls.current = true then
          readNumeral fuel else pure (.char 46))
      (TokenRead code S (lexedDots text)) (NoToken (lexedDots text)) := by
  refine Triple.bind (saveAndNext_view small (by decide)) fun _ => ?_
  refine Triple.bind (checkNext_view small (by decide) (by decide)) fun second => ?_
  refine Triple.given (φ := second = inSet [46] text.head?) (fun _ h => h.1) fun dots => ?_
  refine Triple.pre ?_ fun _ h => h.2
  refine Triple.cond (fun found => ?_) fun single => ?_
  · subst found
    refine Triple.bind (checkNext_view small (by decide) (by decide)) fun third => ?_
    refine Triple.given (φ := third = inSet [46] text.tail.head?) (fun _ h => h.1) fun dots' => ?_
    refine Triple.pre ?_ fun _ h => h.2
    refine Triple.cond (fun found => ?_) fun double => ?_
    · subst found
      exact Triple.ret fun t view => ⟨text.tail.tail, by rw [lexedDots, ← dots, ← dots']; rfl, _,
        view⟩
    · obtain rfl : third = false := by simpa using double
      exact Triple.ret fun t view => ⟨text.tail, by rw [lexedDots, ← dots, ← dots']; rfl, _, view⟩
  · obtain rfl : second = false := by simpa using single
    refine Triple.get_bind fun ls => ?_
    refine Triple.given (φ := isByte isdigit ls.current = isByte isdigit text.head?) ?_ fun seen =>
      ?_
    · rintro t ⟨view, rfl⟩
      exact view.isByte_current (by decide)
    rw [seen]
    refine Triple.pre ?_ fun _ h => h.1
    refine Triple.cond (fun digit => ?_) fun other => ?_
    · cases text with
      | nil => simp [isByte] at digit
      | cons d text =>
        have numeral : lexedDots (d :: text) = lexedNumeral [46] (d :: text) := by
          rw [lexedDots, ← dots, digit]
          rfl
        rw [numeral]
        exact readNumeral_token small fuel (Nat.lt_of_succ_lt enough) digit
    · refine Triple.ret fun t view => ⟨text, ?_, _, view⟩
      rw [lexedDots, ← dots]
      simp [other]

theorem readOperator_token {c : UInt8} (withEq : Token) (plain : c ≠ 10) :
    Triple (View code S (c :: text) []) (readOperator c withEq)
      (TokenRead code S (if text.head? = some 61 then
        some (withEq, text.tail) else some (.char c, text)))
      (NoToken (if text.head? = some 61 then some (withEq, text.tail) else some (.char c,
        text))) := by
  refine Triple.bind (next_view small plain) fun _ => ?_
  refine Triple.get_bind fun ls => ?_
  refine Triple.given (φ := (ls.current == some 61) = (text.head? == some 61)) ?_ fun seen => ?_
  · rintro t ⟨view, rfl⟩
    exact view.beq_current (by decide) (by decide)
  rw [seen]
  refine Triple.pre ?_ fun _ h => h.1
  refine Triple.cond (fun found => ?_) fun other => ?_
  · cases text with
    | nil => simp at found
    | cons d text =>
      obtain rfl : d = 61 := by simpa using found
      refine Triple.bind (next_view small (by decide)) fun _ => ?_
      exact Triple.ret fun t view => ⟨text, by simp, _, view⟩
  · refine Triple.ret fun t view => ⟨text, ?_, _, view⟩
    rw [if_neg (by simpa using other)]

theorem readName_token {c : UInt8} (fuel : Nat) (enough : text.length < fuel) (plain : c ≠ 10) :
    Triple (View code S (c :: text) []) (readName fuel)
      (TokenRead code S (some (nameOrReserved (c :: text.takeWhile isNameChar),
        text.dropWhile isNameChar)))
      (NoToken (some (nameOrReserved (c :: text.takeWhile isNameChar),
        text.dropWhile isNameChar))) := by
  refine Triple.bind (saveAndNext_view small plain) fun _ => ?_
  refine Triple.bind (saveWhile_view small (p := isNameChar) (by decide)
    (by decide) fuel enough) fun _ => ?_
  refine Triple.get_bind fun ls => ?_
  refine Triple.given (φ := ls.buff = c :: text.takeWhile isNameChar) ?_ fun saved => ?_
  · rintro t ⟨view, rfl⟩
    exact view.buff_eq
  rw [saved]
  refine Triple.pre ?_ fun _ h => h.1
  dsimp only
  split
  next w found => exact Triple.ret fun t view => ⟨_, by rw [nameOrReserved, found], _, view⟩
  next found => exact Triple.ret fun t view => ⟨_, by rw [nameOrReserved, found], _, view⟩

theorem readBracket_token (fuel : Nat) (enough : text.length < fuel) :
    Triple (View code S (91 :: text) [])
      (skipSep fuel >>= fun sep =>
        if 0 ≤ sep then readLongString fuel true sep >>= fun s => pure (Token.string s)
        else if sep = -1 then
          pure (.char 91) else luaXLexerror "invalid long string delimiter" nearBuffer)
      (TokenRead code S (lexeme (91 :: text))) (NoToken (lexeme (91 :: text))) := by
  have shorter := (List.dropWhile_suffix (p := isEquals) (l := text)).length_le
  refine Triple.bind (skipSep_view small fuel enough (by decide)) fun sep => ?_
  refine Triple.given (φ := sep = sepLevel 91 text) (fun _ h => h.1) ?_
  rintro rfl
  refine Triple.pre ?_ fun _ h => h.2
  refine Triple.cond (fun long => ?_) fun other => ?_
  · obtain ⟨body, found, count⟩ := dropWhile_of_sepLevel long
    have opened : longOpen (91 :: text) = some ((text.takeWhile isEquals).length, body) := by
      rw [longOpen_some long, found, List.tail_cons]
    have bracket : lexeme (91 :: text) = (longBracket (text.takeWhile isEquals).length body).map
        fun (s, rest) => (.string s, rest) := by
      simp only [lexeme, opened]
    rw [found, List.length_cons] at shorter
    rw [found, ← count, bracket]
    have saved : ([] ++ [91] ++ text.takeWhile isEquals).length =
        (text.takeWhile isEquals).length + 1 := by
      simp
    refine Triple.bind ((readLongString_view small true _ fuel (by omega) fun _ =>
      saved).errors ?_) fun s => ?_
    · exact fun e _ raised => ⟨raised.1, by rw [raised.2]; rfl⟩
    · refine Triple.ret ?_
      rintro t ⟨inner, rest, closed, reached, same⟩
      exact ⟨rest, by rw [closed, same rfl]; rfl, reached⟩
  · have char : lexeme (91 :: text) = if text.head? = some 61 then
        none else some (.char 91, text) := by
      simp only [lexeme, longOpen_none other]
    rw [char]
    refine Triple.cond (fun single => ?_) fun wrong => ?_
    · obtain ⟨absent, none, same⟩ := (sepLevel_single other).mp single
      rw [if_neg absent, none, same]
      exact Triple.ret fun t view => ⟨text, rfl, _, view⟩
    · have equals : text.head? = some 61 := by
        by_contra absent
        exact wrong ((sepLevel_single other).mpr (single_of_head absent))
      rw [if_pos equals]
      exact (lexerror_view _ _).errors fun e _ fuelLeft => ⟨fuelLeft, rfl⟩

end

end Lunatik.Verified
