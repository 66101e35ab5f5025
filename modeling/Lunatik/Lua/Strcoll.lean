import Lunatik.Kernel.Memory

/-! # Comparison of strings (`lvm.c`)

`l_strcmp` as it walks over the bytes of two strings.  A string is its bytes and the zero behind them, and
a read past this zero gives `none`, as does a loop that is not done after so many rounds.
-/

namespace Lunatik.Lua.Strcoll

open Lunatik.Kernel

/-- The bytes of a `TString`, whose number is a `size_t`. -/
structure LuaString where
  bytes : List UInt8
  fits : bytes.length < sizeModulus

-- getstr(ts)[i]
def byteAt (s : List UInt8) (i : Nat) : Option UInt8 := (s ++ [0])[i]?

/-- `strcoll` is the kernel's `strcmp`; `l` and `r` are offsets into the two strings. -/
def strcoll (ls rs : List UInt8) : Nat → Nat → Nat → Option Int
  | 0, _, _ => none
  | rounds + 1, l, r => do
    let c1 ← byteAt ls l
    let c2 ← byteAt rs r
    if c1 ≠ c2 then return if c1 < c2 then -1 else 1
    else if c1 = 0 then return 0
    else strcoll ls rs rounds (l + 1) (r + 1)

/-- `strlen(l)`. -/
def strlen (ls : List UInt8) : Nat → Nat → Option Nat
  | 0, _ => none
  | rounds + 1, l => do
    let c ← byteAt ls l
    if c = 0 then return 0
    else return (← strlen ls rounds (l + 1)) + 1

-- a -= b, in size_t
def sizeSub (a b : Nat) : Nat := wrap (a + (sizeModulus - b))

theorem sizeSub_eq {a b : Nat} (fits : a < sizeModulus) (le : b ≤ a) : sizeSub a b = a - b := by
  simp only [sizeSub, wrap]
  rw [show a + (sizeModulus - b) = a - b + sizeModulus by omega, Nat.add_mod_right, Nat.mod_eq_of_lt (by omega)]

/-- The loop of `l_strcmp`. -/
def lStrcmpLoop (ls rs : List UInt8) : Nat → Nat → Nat → Nat → Nat → Option Int
  | 0, _, _, _, _ => none
  | rounds + 1, l, ll, r, lr => do
    let temp ← strcoll ls rs (ls.length + 1) l r
    if temp ≠ 0 then return temp
    else
      -- strings are equal up to a zero
      let len ← strlen ls (ls.length + 1) l
      if len = lr then return if len = ll then 0 else 1
      else if len = ll then return -1
      else
        -- both strings longer than `len'; go on comparing
        let len := len + 1
        lStrcmpLoop ls rs rounds (l + len) (sizeSub ll len) (r + len) (sizeSub lr len)

def lStrcmp (ls rs : LuaString) : Option Int :=
  lStrcmpLoop ls.bytes rs.bytes (ls.bytes.length + 1) 0 ls.bytes.length 0 rs.bytes.length

/-- `luaV_lessthan` and `lessequal` of two strings. -/
def lessthan (l r : LuaString) : Option Bool := (lStrcmp l r).map fun order => decide (order < 0)

def lessequal (l r : LuaString) : Option Bool := (lStrcmp l r).map fun order => decide (order ≤ 0)

end Lunatik.Lua.Strcoll
