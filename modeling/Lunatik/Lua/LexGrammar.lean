import Lunatik.Lua.Lexer

/-! # The lexical grammar

What the tokens of a text are, said without a lexer: on the list of its bytes, by longest match.
The grammar is that of Lua 5.1 as it is configured here: numerals are integers, the classes of
characters are those of `ctype.h`, a long bracket of level 0 may not contain another one
(`LUA_COMPAT_LSTR` 1), and a byte that starts nothing else is a token of its own.

The four forms of a line end mean the same everywhere, so the text is read with every line end
replaced by a line feed (`unifyLineEnds`).
-/

namespace Lunatik.Lua.LexGrammar

open Lunatik.Lua

def isNewline (c : UInt8) : Bool := c == 10 || c == 13

def unifyLineEnds : List UInt8 → List UInt8
  | [] => []
  | [c] => [if isNewline c then 10 else c]
  | c :: d :: cs =>
    if isNewline c then
      if isNewline d && d != c then 10 :: unifyLineEnds cs else 10 :: unifyLineEnds (d :: cs)
    else c :: unifyLineEnds (d :: cs)

/-! ## Long brackets -/

/-- The level and the text behind an opening long bracket. -/
def longOpen : List UInt8 → Option (Nat × List UInt8)
  | 91 :: text =>
    match text.dropWhile (· == 61) with
    | 91 :: body => some ((text.takeWhile (· == 61)).length, body)
    | _ => none
  | _ => none

def longClose (level : Nat) : List UInt8 := 93 :: List.replicate level 61 ++ [93]

/-- The text up to the closing long bracket, and what follows it. -/
def longBody (level : Nat) : List UInt8 → Option (List UInt8 × List UInt8)
  | [] => none
  | c :: text =>
    if (longClose level).isPrefixOf (c :: text) then some ([], (c :: text).drop (level + 2))
    else if level = 0 ∧ [91, 91].isPrefixOf (c :: text) then none
    else (longBody level text).map fun (body, rest) => (c :: body, rest)

-- a line end right behind the opening bracket does not belong to the text
def longBracket (level : Nat) : List UInt8 → Option (List UInt8 × List UInt8)
  | 10 :: text => longBody level text
  | text => longBody level text

/-! ## White space and comments -/

/-- What follows the comment behind `--`. -/
def afterComment (text : List UInt8) : Option (List UInt8) :=
  match longOpen text with
  | some (level, body) => (longBracket level body).map Prod.snd
  | none => some (text.dropWhile (· != 10))

/-- The text from the next token on; each round takes at least one byte of it. -/
def skipBlanks : Nat → List UInt8 → Option (List UInt8)
  | 0, text => some text
  | _ + 1, [] => some []
  | rounds + 1, 45 :: 45 :: text => (afterComment text).bind (skipBlanks rounds)
  | rounds + 1, c :: text => if isspace c then skipBlanks rounds text else some (c :: text)

/-! ## Quoted strings -/

def decimalValue (digits : List UInt8) : Nat := digits.foldl (fun n c => 10 * n + (c.toNat - 48)) 0

/-- The character that stands behind a backslash, and what follows it. -/
def escaped : List UInt8 → Option (UInt8 × List UInt8)
  | [] => none
  | c :: text =>
    match escapeChar c with
    | some e => some (e, text)
    | none =>
      if isdigit c then
        let digits := ((c :: text).take 3).takeWhile isdigit
        if decimalValue digits ≤ 255 then
          some (UInt8.ofNat (decimalValue digits), (c :: text).drop digits.length)
        else none
      else some (c, text)

/-- The text up to the delimiter, with its escapes resolved, and what follows the delimiter. -/
def quoted (del : UInt8) : Nat → List UInt8 → Option (List UInt8 × List UInt8)
  | 0, _ => none
  | _ + 1, [] => none
  | rounds + 1, c :: text =>
    if c = del then some ([], text)
    else if c = 10 then none
    else if c = 92 then
      (escaped text).bind fun (e, rest) => (quoted del rounds rest).map fun (s, rest) =>
        (e :: s, rest)
    else (quoted del rounds text).map fun (s, rest) => (c :: s, rest)

/-! ## Numerals and names -/

def isNameChar (c : UInt8) : Bool := isalnum c || c == 95

-- an exponent with its sign
def exponentMark : List UInt8 → Nat
  | 69 :: 43 :: _ | 69 :: 45 :: _ | 101 :: 43 :: _ | 101 :: 45 :: _ => 2
  | 69 :: _ | 101 :: _ => 1
  | _ => 0

/-- The number of bytes that belong to the numeral at the start of the text. -/
def numeralLength (text : List UInt8) : Nat :=
  let mantissa := (text.takeWhile fun c => isdigit c || c == 46).length
  let mark := exponentMark (text.drop mantissa)
  mantissa + mark + ((text.drop (mantissa + mark)).takeWhile isNameChar).length

def isxdigit (c : UInt8) : Bool := (digitValue c).isSome

def hexValue (digits : List UInt8) : Nat :=
  digits.foldl (fun n c => 16 * n + (digitValue c).getD 0) 0

/-- The value of a numeral: decimal digits, or `0x` and hexadecimal digits. -/
def numeralValue : List UInt8 → Option LuaNumber
  | [] => none
  | 48 :: 120 :: digits | 48 :: 88 :: digits =>
    if digits ≠ [] ∧ digits.all isxdigit then some (BitVec.ofNat 64 (hexValue digits)) else none
  | digits => if digits.all isdigit then some (BitVec.ofNat 64 (decimalValue digits)) else none

def numeral (text : List UInt8) : Option (Token × List UInt8) :=
  (numeralValue (text.take (numeralLength text))).map fun n =>
    (.number n, text.drop (numeralLength text))

def nameOrReserved (s : List UInt8) : Token :=
  match reservedWords.find? (fun w => w.1.toUTF8.toList = s) with
  | some w => .reserved w.2
  | none => .name s

/-! ## Tokens -/

/-- The token at the start of a text that does not start with a blank. -/
def lexeme : List UInt8 → Option (Token × List UInt8)
  | [] => some (.eos, [])
  | 61 :: 61 :: rest => some (.eq, rest)
  | 60 :: 61 :: rest => some (.le, rest)
  | 62 :: 61 :: rest => some (.ge, rest)
  | 126 :: 61 :: rest => some (.ne, rest)
  | 46 :: 46 :: 46 :: rest => some (.dots, rest)
  | 46 :: 46 :: rest => some (.concat, rest)
  | 46 :: d :: rest => if isdigit d then numeral (46 :: d :: rest) else some (.char 46, d :: rest)
  | 91 :: text =>
    match longOpen (91 :: text) with
    | some (level, body) => (longBracket level body).map fun (s, rest) => (.string s, rest)
    | none => if text.head? = some 61 then none else some (.char 91, text)
  | 34 :: text => (quoted 34 (text.length + 1) text).map fun (s, rest) => (.string s, rest)
  | 39 :: text => (quoted 39 (text.length + 1) text).map fun (s, rest) => (.string s, rest)
  | c :: text =>
    if isdigit c then numeral (c :: text)
    else if isalpha c || c == 95 then
      some (nameOrReserved (c :: text.takeWhile isNameChar), text.dropWhile isNameChar)
    else some (.char c, text)

/-- The next token and the text behind it; `none` is a lexical error. -/
def token (text : List UInt8) : Option (Token × List UInt8) :=
  (skipBlanks text.length text).bind lexeme

/-! ## Sequences of tokens -/

/-- How a sequence of tokens ends: at the end of the text, with a lexical error, or not yet. -/
inductive Ending where
  | eos
  | lexicalError
  | running
  deriving DecidableEq, Repr

/-- The tokens of a text in order, each with the text behind it, for `rounds` tokens at most. -/
def tokens : Nat → List UInt8 → List (Token × List UInt8) × Ending
  | 0, _ => ([], .running)
  | rounds + 1, text =>
    match token text with
    | none => ([], .lexicalError)
    | some (.eos, rest) => ([(.eos, rest)], .eos)
    | some (t, rest) =>
      let (more, ending) := tokens rounds rest
      ((t, rest) :: more, ending)

/-- Where the grammar looks for a token. -/
def boundaries : Nat → List UInt8 → List (List UInt8)
  | 0, _ => []
  | rounds + 1, text =>
    text ::
      match token text with
      | none | some (.eos, _) => []
      | some (_, rest) => boundaries rounds rest

end Lunatik.Lua.LexGrammar
