import Mathlib.Data.BitVec
import Mathlib.Tactic.Common

/-! # Lua numbers in the kernel build

`NO_FPU` makes `lua_Number` a `long`, so a number is a 64-bit word and the
`luai_num*` macros of `luaconf.h` are the C operators on it.  Signed overflow
wraps (the kernel is built with `-fno-strict-overflow`); `/` and `%` are the
machine's signed division, which traps on a zero divisor and on the one quotient
that does not fit.  A trap is `none`.

The string conversions follow `luaO_str2d` over the kernel's `simple_strtol` and
`simple_strtoul`.
-/

namespace Lunatik.Lua

/-- `lua_Number`: `long`. -/
abbrev LuaNumber := BitVec 64

/-- `MAX_INT` and `MAX_SIZET` (`llimits.h`). -/
def maxInt : Nat := 2 ^ 31 - 3
def maxSizet : Nat := 2 ^ 64 - 3

/-- `LONG_MIN`. -/
def longMin : LuaNumber := BitVec.intMin 64

/-! ## Arithmetic (`luaconf.h`) -/

def luaiNumadd (a b : LuaNumber) : LuaNumber := a + b
def luaiNumsub (a b : LuaNumber) : LuaNumber := a - b
def luaiNummul (a b : LuaNumber) : LuaNumber := a * b
def luaiNumunm (a : LuaNumber) : LuaNumber := -a
def luaiNumpow (a b : LuaNumber) : LuaNumber := luaiNummul a b
def luaiNumeq (a b : LuaNumber) : Bool := a == b
def luaiNumlt (a b : LuaNumber) : Bool := a.slt b
def luaiNumle (a b : LuaNumber) : Bool := a.sle b
def luaiNumisnan (a : LuaNumber) : Bool := !luaiNumeq a a

/-- The operands on which the division instruction raises a trap. -/
def DivTraps (a b : LuaNumber) : Prop := b = 0 ∨ (a = longMin ∧ b = -1)

instance (a b : LuaNumber) : Decidable (DivTraps a b) := inferInstanceAs (Decidable (_ ∨ _))

/-- `luai_numdiv(a,b)`: `a / b`. -/
def luaiNumdiv (a b : LuaNumber) : Option LuaNumber :=
  if DivTraps a b then none else some (a.sdiv b)

/-- `luai_nummod(a,b)`: `a % b`, computed by the same instruction as `/`. -/
def luaiNummod (a b : LuaNumber) : Option LuaNumber :=
  if DivTraps a b then none else some (a.srem b)

theorem luaiNumdiv_eq_none {a b : LuaNumber} : luaiNumdiv a b = none ↔ DivTraps a b := by
  simp [luaiNumdiv]

theorem luaiNummod_eq_none {a b : LuaNumber} : luaiNummod a b = none ↔ DivTraps a b := by
  simp [luaiNummod]

/-! ## Character classes (`fakelibc_include/ctype.h` over the kernel's table)

The overridden macros also require `c > 0`, which keeps `EOZ` out; a byte of the
table is never negative. -/

def isdigit (c : UInt8) : Bool := 48 ≤ c && c ≤ 57

def isupper (c : UInt8) : Bool := (65 ≤ c && c ≤ 90) || (192 ≤ c && c ≤ 214) || (216 ≤ c && c ≤ 222)

def islower (c : UInt8) : Bool := (97 ≤ c && c ≤ 122) || (223 ≤ c && c ≤ 246) || 248 ≤ c

def isalpha (c : UInt8) : Bool := isupper c || islower c

def isalnum (c : UInt8) : Bool := isalpha c || isdigit c

def isspace (c : UInt8) : Bool := (9 ≤ c && c ≤ 13) || c == 32 || c == 160

def iscntrl (c : UInt8) : Bool := (0 < c && c ≤ 31) || c == 127

/-! ## Strings to numbers -/

/-- The value of a digit character, in any base up to 16. -/
def digitValue (c : UInt8) : Option Nat :=
  if isdigit c then some (c.toNat - 48)
  else if 97 ≤ c && c ≤ 102 then some (c.toNat - 87)
  else if 65 ≤ c && c ≤ 70 then some (c.toNat - 55)
  else none

/-- `_parse_integer`: accumulate digits modulo `2^64`, return the rest of the string. -/
def parseInteger (base : Nat) : LuaNumber → List UInt8 → LuaNumber × List UInt8
  | acc, [] => (acc, [])
  | acc, c :: cs =>
    match digitValue c with
    | none => (acc, c :: cs)
    | some v =>
      if v < base then parseInteger base (acc * BitVec.ofNat 64 base + BitVec.ofNat 64 v) cs
      else (acc, c :: cs)

/-- `simple_strtol(s, &end, 10)`. -/
def simpleStrtol : List UInt8 → LuaNumber × List UInt8
  | [] => (0, [])
  | c :: cs =>
    if c = 45 then
      let (v, rest) := parseInteger 10 0 cs
      (-v, rest)
    else parseInteger 10 0 (c :: cs)

/-- `simple_strtoul(s, &end, 16)`: a leading `0x` is skipped. -/
def simpleStrtoul16 : List UInt8 → LuaNumber × List UInt8
  | 48 :: 120 :: cs => parseInteger 16 0 cs
  | 48 :: 88 :: cs => parseInteger 16 0 cs
  | s => parseInteger 16 0 s

/-- The C string at the start of a Lua string. -/
def cstr (s : List UInt8) : List UInt8 := s.takeWhile (· ≠ 0)

/-- `luaO_str2d`. -/
def luaOStr2d (s : List UInt8) : Option LuaNumber :=
  let s := cstr s
  let (v, rest) := simpleStrtol s
  if rest.length = s.length then none
  else
    let (v, rest) :=
      if rest.head? = some 120 ∨ rest.head? = some 88 then simpleStrtoul16 s else (v, rest)
    if rest = [] then some v
    else if rest.dropWhile isspace = [] then some v
    else none

/-! ## Numbers to strings -/

/-- Decimal digits of `n`, most significant first, in front of `acc`; `fuel` bounds their number. -/
def decimalDigits : Nat → Nat → List UInt8 → List UInt8
  | 0, _, acc => acc
  | fuel + 1, n, acc =>
    if n < 10 then UInt8.ofNat (48 + n) :: acc
    else decimalDigits fuel (n / 10) (UInt8.ofNat (48 + n % 10) :: acc)

/-- `lua_number2str`: `sprintf` with `%ld`. -/
def luaNumber2str (n : LuaNumber) : List UInt8 :=
  if n.slt 0 then 45 :: decimalDigits 20 n.toInt.natAbs [] else decimalDigits 20 n.toNat []

end Lunatik.Lua
