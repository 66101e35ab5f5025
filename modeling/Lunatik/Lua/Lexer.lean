import Lunatik.Lua.Number
import Lunatik.Lua.Zio

/-! # Lexical analyzer (`llex.c`)

A lexer program runs in `EStateM`, so that a raised error leaves the state it was raised
in.  `current` is the character that was read last, `none` for `EOZ`; the token buffer is
the list of its bytes, and `delivered` collects every byte that `next` obtained.

The loops of the source stop at the end of the stream; here each of them takes a bound on
the number of its rounds and raises `outOfFuel` past it.  The buffer's own limit
(`lexical element too long`) lies beyond any allocation and is left out.
-/

namespace Lunatik.Lua

inductive Reserved where
  | kwAnd | kwBreak | kwDo | kwElse | kwElseif | kwEnd | kwFalse | kwFor | kwFunction | kwIf
  | kwIn | kwLocal | kwNil | kwNot | kwOr | kwRepeat | kwReturn | kwThen | kwTrue | kwUntil | kwWhile
  deriving DecidableEq, Repr

-- luaX_tokens, up to NUM_RESERVED
def reservedWords : List (String × Reserved) :=
  [("and", .kwAnd), ("break", .kwBreak), ("do", .kwDo), ("else", .kwElse), ("elseif", .kwElseif),
    ("end", .kwEnd), ("false", .kwFalse), ("for", .kwFor), ("function", .kwFunction), ("if", .kwIf),
    ("in", .kwIn), ("local", .kwLocal), ("nil", .kwNil), ("not", .kwNot), ("or", .kwOr),
    ("repeat", .kwRepeat), ("return", .kwReturn), ("then", .kwThen), ("true", .kwTrue),
    ("until", .kwUntil), ("while", .kwWhile)]

/-- A token with its semantic information. -/
inductive Token where
  | char (c : UInt8)
  | reserved (r : Reserved)
  | concat
  | dots
  | eq
  | ge
  | le
  | ne
  | number (n : LuaNumber)
  | name (s : List UInt8)
  | string (s : List UInt8)
  | eos
  deriving DecidableEq, Repr

-- what luaX_lexerror quotes after "near"
inductive Near where
  | token (t : Token)
  | buffer (s : List UInt8)
  deriving DecidableEq, Repr

inductive LexError where
  | lexerror (linenumber : Nat) (msg : String) (near : Near)
  | outOfFuel
  deriving DecidableEq, Repr

structure LexState where
  current : Option UInt8
  linenumber : Nat
  lastline : Nat
  t : Token
  lookahead : Token
  z : Zio
  buff : List UInt8
  decpoint : UInt8
  delivered : List UInt8

abbrev LexM := EStateM LexError LexState

-- the rounds that every loop may take
variable (fuel : Nat)

/-! ## Characters -/

def isByte (p : UInt8 → Bool) (c : Option UInt8) : Bool := c.any p

def currIsNewline (ls : LexState) : Bool := ls.current == some 10 || ls.current == some 13

/-- `next(ls)`. -/
def next : LexM PUnit := modify fun ls =>
  let (c, z) := ls.z.zgetc
  { ls with current := c, z, delivered := ls.delivered ++ c.toList }

def save (c : UInt8) : LexM PUnit := modify fun ls => { ls with buff := ls.buff ++ [c] }

-- the cast to char of the character that save(ls, ls->current) stores
def currentChar (ls : LexState) : UInt8 := ls.current.getD 255

def saveAndNext : LexM PUnit := do
  let ls ← get
  save (currentChar ls)
  next

def resetbuffer : LexM PUnit := modify fun ls => { ls with buff := [] }

def luaXLexerror {α : Type} (msg : String) (near : LexState → Near) : LexM α := do
  let ls ← get
  throw (.lexerror ls.linenumber msg (near ls))

def nearBuffer (ls : LexState) : Near := .buffer ls.buff

-- luaX_syntaxerror quotes the current token
def nearToken (ls : LexState) : Near :=
  match ls.t with
  | .name _ | .string _ | .number _ => .buffer ls.buff
  | t => .token t

def inclinenumber : LexM PUnit := do
  let old := (← get).current
  next
  let ls ← get
  if currIsNewline ls && ls.current != old then next
  modify fun ls => { ls with linenumber := ls.linenumber + 1 }
  let ls ← get
  if maxInt ≤ ls.linenumber then luaXLexerror "chunk has too many lines" nearToken

/-- `check_next(ls, set)`: `strchr` also finds the zero that ends `set`. -/
def checkNext (set : List UInt8) : LexM Bool := do
  let ls ← get
  if isByte (fun c => c ∈ set || c == 0) ls.current then
    saveAndNext
    return true
  else return false

def saveWhile (p : UInt8 → Bool) : Nat → LexM PUnit
  | 0 => throw .outOfFuel
  | fuel + 1 => do
    let ls ← get
    if isByte p ls.current then
      saveAndNext
      saveWhile p fuel

/-! ## Numerals -/

def buffreplace (old new : UInt8) : LexM PUnit :=
  modify fun ls => { ls with buff := ls.buff.map fun c => if c = old then new else c }

/-- `trydecpoint`: `localeconv()` is NULL in the kernel. -/
def trydecpoint : LexM LuaNumber := do
  let old := (← get).decpoint
  modify fun ls => { ls with decpoint := 46 }
  buffreplace old 46
  match luaOStr2d (← get).buff with
  | some r => return r
  | none => luaXLexerror "malformed number" nearBuffer

def readNumeral : LexM Token := do
  saveAndNext
  saveWhile (fun c => isdigit c || c == 46) fuel
  if ← checkNext [69, 101] then
    let _ ← checkNext [43, 45]
  saveWhile (fun c => isalnum c || c == 95) fuel
  save 0
  buffreplace 46 (← get).decpoint
  match luaOStr2d (← get).buff with
  | some r => return .number r
  | none => return .number (← trydecpoint)

/-! ## Strings and comments -/

def countEquals : Nat → Nat → LexM Nat
  | 0, _ => throw .outOfFuel
  | fuel + 1, count => do
    if (← get).current == some 61 then
      saveAndNext
      countEquals fuel (count + 1)
    else return count

/-- `skip_sep(ls)`: the number of `=` between two brackets, or minus that and one more. -/
def skipSep : LexM Int := do
  let s := (← get).current
  saveAndNext
  let count ← countEquals fuel 0
  return if (← get).current == s then (count : Int) else -(count : Int) - 1

/-- The loop of `read_long_string`; `text` says that the string is kept (`seminfo`). -/
def longStringLoop (text : Bool) (sep : Int) : Nat → LexM PUnit
  | 0 => throw .outOfFuel
  | rounds + 1 => do
    match (← get).current with
    | none =>
      luaXLexerror (if text then "unfinished long string" else "unfinished long comment") fun _ =>
        .token .eos
    | some 91 =>
      if (← skipSep fuel) = sep then
        saveAndNext
        if sep = 0 then luaXLexerror "nesting of [[...]] is deprecated" fun _ => .token (.char 91)
      longStringLoop text sep rounds
    | some 93 =>
      if (← skipSep fuel) = sep then saveAndNext
      else longStringLoop text sep rounds
    | some 10 | some 13 =>
      save 10
      inclinenumber
      if !text then resetbuffer
      longStringLoop text sep rounds
    | some _ =>
      if text then saveAndNext else next
      longStringLoop text sep rounds

-- the text between delimiters of length `d`
def inside (d : Nat) (buff : List UInt8) : List UInt8 := (buff.drop d).take (buff.length - 2 * d)

def readLongString (text : Bool) (sep : Int) : LexM (List UInt8) := do
  saveAndNext
  if currIsNewline (← get) then inclinenumber
  longStringLoop fuel text sep fuel
  return inside (2 + sep.toNat) (← get).buff

-- the do-while loop over the digits of an escape; `c` is the value so far
def escapeDigits : Nat → Nat → LexM Nat
  | 0, c => return c
  | i + 1, c => do
    let ls ← get
    let c := 10 * c + (currentChar ls).toNat - 48
    next
    if isByte isdigit (← get).current then escapeDigits i c else return c

def escapeChar : UInt8 → Option UInt8
  | 97 => some 7
  | 98 => some 8
  | 102 => some 12
  | 110 => some 10
  | 114 => some 13
  | 116 => some 9
  | 118 => some 11
  | _ => none

/-- What follows a backslash. -/
def readEscape : LexM PUnit := do
  next
  match (← get).current with
  | none => return -- will raise an error next loop
  | some c =>
    match escapeChar c with
    | some e =>
      save e
      next
    | none =>
      if c = 10 ∨ c = 13 then
        save 10
        inclinenumber
      else if isdigit c then
        let value ← escapeDigits 3 0
        if 255 < value then luaXLexerror "escape sequence too large" nearBuffer
        save (UInt8.ofNat value)
      else saveAndNext

def stringLoop (del : UInt8) : Nat → LexM PUnit
  | 0 => throw .outOfFuel
  | rounds + 1 => do
    match (← get).current with
    | none => luaXLexerror "unfinished string" fun _ => .token .eos
    | some c =>
      if c = del then return
      else if c = 10 ∨ c = 13 then luaXLexerror "unfinished string" nearBuffer
      else
        if c = 92 then readEscape else saveAndNext
        stringLoop del rounds

def readString (del : UInt8) : LexM Token := do
  saveAndNext
  stringLoop del fuel
  saveAndNext
  return .string (inside 1 (← get).buff)

def skipLine : Nat → LexM PUnit
  | 0 => throw .outOfFuel
  | rounds + 1 => do
    let ls ← get
    if !currIsNewline ls && ls.current != none then
      next
      skipLine rounds

/-! ## Tokens -/

-- the comment after `--`
def skipComment : LexM PUnit := do
  if (← get).current == some 91 then
    let sep ← skipSep fuel
    resetbuffer
    if 0 ≤ sep then
      let _ ← readLongString fuel false sep
      resetbuffer
    else skipLine fuel
  else skipLine fuel

-- an operator that may be followed by `=`
def readOperator (c : UInt8) (withEq : Token) : LexM Token := do
  next
  if (← get).current == some 61 then
    next
    return withEq
  else return .char c

def readName : LexM Token := do
  saveAndNext
  saveWhile (fun c => isalnum c || c == 95) fuel
  let s := (← get).buff
  match reservedWords.find? (fun w => w.1.toUTF8.toList = s) with
  | some w => return .reserved w.2
  | none => return .name s

/-- The loop of `llex`. -/
def llexLoop : Nat → LexM Token
  | 0 => throw .outOfFuel
  | rounds + 1 => do
    match (← get).current with
    | none => return .eos
    | some 10 | some 13 =>
      inclinenumber
      llexLoop rounds
    | some 45 =>
      next
      if (← get).current == some 45 then
        next
        skipComment fuel
        llexLoop rounds
      else return .char 45
    | some 91 =>
      let sep ← skipSep fuel
      if 0 ≤ sep then return .string (← readLongString fuel true sep)
      else if sep = -1 then return .char 91
      else luaXLexerror "invalid long string delimiter" nearBuffer
    | some 61 => readOperator 61 .eq
    | some 60 => readOperator 60 .le
    | some 62 => readOperator 62 .ge
    | some 126 => readOperator 126 .ne
    | some 34 => readString fuel 34
    | some 39 => readString fuel 39
    | some 46 =>
      saveAndNext
      if ← checkNext [46] then
        if ← checkNext [46] then return .dots else return .concat
      else if isByte isdigit (← get).current then readNumeral fuel
      else return .char 46
    | some c =>
      if isspace c then
        next
        llexLoop rounds
      else if isdigit c then readNumeral fuel
      else if isalpha c || c == 95 then readName fuel
      else
        next
        return .char c

def llex : LexM Token := do
  resetbuffer
  llexLoop fuel fuel

/-- `luaX_setinput`, after the buffer has been set up. -/
def luaXSetinput (z : Zio) : LexM PUnit := do
  set ({ current := none, linenumber := 1, lastline := 1, t := .eos, lookahead := .eos, z, buff := [],
         decpoint := 46, delivered := [] } : LexState)
  next

def luaXNext : LexM PUnit := do
  modify fun ls => { ls with lastline := ls.linenumber }
  if (← get).lookahead ≠ .eos then modify fun ls => { ls with t := ls.lookahead, lookahead := .eos }
  else
    let token ← llex fuel
    modify fun ls => { ls with t := token }

def luaXLookahead : LexM PUnit := do
  let token ← llex fuel
  modify fun ls => { ls with lookahead := token }

/-- The parser reads its input only by these two calls. -/
inductive LexCall where
  | next
  | lookahead
  deriving DecidableEq, Repr

def lexCall : LexCall → LexM PUnit
  | .next => luaXNext fuel
  | .lookahead => luaXLookahead fuel

end Lunatik.Lua
