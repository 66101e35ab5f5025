import Lunatik.Lua.Ltable

/-! # Bounds in the search for sizes and borders (`ltable.c`)

`computesizes` once more, with the indices of `nums` that it reads and with no other end than its own, and
`luaH_getn`, which mixes `int` and `unsigned int`.  An unsigned result that is not the number itself ends the
search of a border with `wraps`.
-/

namespace Lunatik.Lua.Ltable

open Lunatik.Lua

/-! ## `computesizes` -/

/-- `none` says that the loop has not ended in so many rounds. -/
def computesizesReads (nums : Nat → Nat) (narray : Nat) :
    Nat → Nat → Nat → Nat → Nat → List Nat → Option ((Nat × Nat) × List Nat)
  | 0, _, _, _, _, _ => none
  | rounds + 1, i, a, n, na, reads =>
    let twotoi := 2 ^ i
    if twotoi / 2 < narray then
      let reads := reads ++ [i]
      let (a, n, na) :=
        if 0 < nums i then
          let a := a + nums i
          if twotoi / 2 < a then (a, twotoi, a) else (a, n, na)
        else (a, n, na)
      if a = narray then some ((n, na), reads)
      else computesizesReads nums narray rounds (i + 1) a n na reads
    else some ((n, na), reads)

/-! ## Borders -/

inductive SearchStop where
  | wraps
  | endless
  deriving DecidableEq, Repr

abbrev SearchM := Except SearchStop

-- an unsigned int
def unsigned (x : Int) : SearchM Nat := if 0 ≤ x ∧ x < 2 ^ 32 then .ok x.toNat else .error .wraps

-- an unsigned int that is passed or returned as an int
def castInt (j : Nat) : Int := (BitVec.ofNat 32 j).toInt

-- !ttisnil(luaH_getnum(t, j))
def presentNum (t : Rep) (j : Nat) : SearchM Bool :=
  match luaHGetnum t (castInt j) with
  | some found => .ok (pointee t found ≠ .nil)
  | none => .error .endless

-- !ttisnil(&t->array[m - 1])
def presentArray (t : Rep) (m : Nat) : SearchM Bool := do
  let i ← unsigned (m - 1)
  return t.array i ≠ .nil

/-- The two loops that halve the distance between `i` and `j`. -/
def binarySearch (present : Nat → SearchM Bool) : Nat → Nat → Nat → SearchM Nat
  | 0, _, _ => .error .endless
  | rounds + 1, i, j => do
    let width ← unsigned (j - i)
    if 1 < width then
      let m := (← unsigned (i + j)) / 2
      if ← present m then binarySearch present rounds m j else binarySearch present rounds i m
    else return i

def linearSearch (t : Rep) : Nat → Nat → SearchM Nat
  | 0, _ => .error .endless
  | rounds + 1, i => do
    if ← presentNum t i then linearSearch t rounds (← unsigned (i + 1)) else unsigned (i - 1)

-- find i and j such that i is present and j is not
def doublingSearch (t : Rep) : Nat → Nat → Nat → SearchM Nat
  | 0, _, _ => .error .endless
  | rounds + 1, i, j => do
    if ← presentNum t j then
      let i := j
      let j ← unsigned (j * 2)
      if maxInt < j then linearSearch t (2 ^ 32) 1 else doublingSearch t rounds i j
    else binarySearch (presentNum t) 33 i j

def unboundSearch (t : Rep) (j : Nat) : SearchM Int := do
  let i := j
  let j ← unsigned (j + 1)
  return castInt (← doublingSearch t 33 i j)

/-- `luaH_getn`. -/
def luaHGetn (t : Rep) : SearchM Int := do
  let j := t.sizearray
  if 0 < j ∧ t.array (j - 1) = .nil then return castInt (← binarySearch (presentArray t) 33 0 j)
  else if t.isDummy then return castInt j
  else unboundSearch t j

end Lunatik.Lua.Ltable
