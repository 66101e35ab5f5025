import Lunatik.Lua.Ltable

/-! # Tables without memory (`ltable.c`, `lmem.c`)

`resize` and what calls it, with an allocator that may refuse.  It is asked with the table as it is at
the time: no table comes twice in one call, so that it can give any sequence of answers.

An error tells which `resize` could not go on, and whether that one was made for an element that
another one was moving.
-/

namespace Lunatik.Lua.Ltable

open Lunatik.Lua

/-- Whether `luaM_realloc_` gets the memory that it asks for at this point. -/
abbrev Allocator := FailPoint → Rep → Bool

variable (address : TValue → Nat) (granted : Allocator)

-- luaD_throw(L, LUA_ERRMEM)
def request (failed : FailPoint → TableError) (point : FailPoint) : TableM PUnit := do
  if granted point (← get) then return else throw (failed point)

def setarrayvectorWith (failed : FailPoint → TableError) (size : Nat) : TableM PUnit := do
  request granted failed .growArray
  setarrayvector size

def setnodevectorWith (failed : FailPoint → TableError) (size : Nat) : TableM PUnit := do
  if size ≠ 0 then
    if maxbits < ceillog2 size then throw (failed .tableOverflow)
    request granted failed .newNodes
  setnodevector size

-- the array part shrinks to `nasize`
def shrinkArrayWith (failed : FailPoint → TableError) (grow : TValue → TableM Slot)
    (oldasize nasize : Nat) :
    TableM PUnit := do
  modify fun t => { t with sizearray := nasize }
  reinsertSlice address grow (List.range' nasize (oldasize - nasize))
  -- a block of no size is freed
  if nasize ≠ 0 then request granted failed .shrinkArray
  modify fun t => { t with arrayBlock := t.arrayBlock + 1 }

def resizeWith (moving : Bool) (grow : TValue → TableM Slot) (nasize nhsize : Nat) :
    TableM PUnit := do
  let old ← get
  let failed := fun point => TableError.failed moving point old.sizearray nasize
  if old.sizearray < nasize then setarrayvectorWith granted failed nasize
  setnodevectorWith granted failed nhsize
  if nasize < old.sizearray then shrinkArrayWith address granted failed grow old.sizearray nasize
  reinsertNodes address grow (oldNodes old)

def rehashWith (moving : Bool) (grow : TValue → TableM Slot) (ek : TValue) : TableM PUnit := do
  let (nasize, nhsize) := rehashSizes (← get) ek
  resizeWith address granted moving grow nasize nhsize

-- the loops of `resize` grow the table for an element that they move
def growWith : Nat → Bool → TValue → TableM Slot
  | 0, _, _ => throw .tooDeep
  | depth + 1, moving, key => do
    rehashWith address granted moving (growWith depth true) key
    luaHSet address (growWith depth moving) key

def luaHResizearrayWith (depth nasize : Nat) : TableM PUnit := do
  let t ← get
  resizeWith address granted false (growWith address granted depth true) nasize (if t.isDummy then
    0 else t.sizenode)

def runOpWith (depth : Nat) : TableOp → TableM PUnit
  | .set key v => store (luaHSet address (growWith address granted depth false) key) v
  | .setnum key v => store (luaHSetnum address (growWith address granted depth false) key.toInt) v
  | .setstr key v => store (luaHSetstr address (growWith address granted depth false) key) v
  | .resizearray nasize => luaHResizearrayWith address granted depth nasize

end Lunatik.Lua.Ltable
