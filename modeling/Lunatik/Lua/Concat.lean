import Lunatik.Lua.Object
import Lunatik.Lua.StringTable

/-! # Concatenation of strings and numbers (`lvm.c`)

`luaV_concat` with the buffer of the state and the requests for memory that it makes.  The tag methods
that it calls for other operands are in `Metamethods`, where memory does not run out: here they end the
call.
-/

namespace Lunatik.Lua.Concat

open Lunatik.Lua

def luaMinbuffer : Nat := 32

/-- What ends the call before it is done. -/
inductive ConcatError where
  -- luaG_runerror(L, "string length overflow")
  | overflow
  -- luaM_toobig
  | toobig
  -- luaD_throw(L, LUA_ERRMEM)
  | memory
  -- bytes that are not those of the buffer or of a string
  | outside
  -- a loop that does not end
  | endless
  -- call_binTM
  | tagMethod
  deriving DecidableEq, Repr

/-- `G(L)->buff` is its bytes, of which `buffsize` counts how many there are. -/
structure ConcatState where
  stack : Nat → TValue
  buffer : List UInt8
  requests : Nat

/-- What the allocator answers to each request, and what it leaves in new memory.  A string that is in
the string table already needs none, which is a request that is granted. -/
structure Allocator where
  granted : Nat → Bool
  fresh : UInt8

abbrev ConcatM := EStateM ConcatError ConcatState

variable (mem : Allocator)

def request : ConcatM PUnit := do
  let s ← get
  set { s with requests := s.requests + 1 }
  if mem.granted s.requests then return else throw .memory

def setsvalue (k : Nat) (str : List UInt8) : ConcatM PUnit :=
  modify fun s => { s with stack := setAt s.stack k (.string str) }

-- svalue, of which tsvalue(o)->len is the length
def svalue (k : Nat) : ConcatM (List UInt8) := do
  match (← get).stack k with
  | .string str => return str
  | _ => throw .outside

/-- `luaS_newlstr`; a string that is there already is not too long. -/
def luaSNewlstr (str : List UInt8) : ConcatM PUnit :=
  if str.length + 1 > maxSizet - StringTable.sizeofTString then throw .toobig
  else request mem

def luaVTostring (k : Nat) : ConcatM Bool := do
  match (← get).stack k with
  | .number n =>
    let str := luaNumber2str n
    luaSNewlstr mem str
    setsvalue k str
    return true
  | _ => return false

/-- The macro `tostring`. -/
def tostringAt (k : Nat) : ConcatM Bool := do
  match (← get).stack k with
  | .string _ => return true
  | _ => luaVTostring mem k

/-! ## The buffer -/

-- luaZ_resizebuffer, for a size that is larger
def luaZResizebuffer (size : Nat) : ConcatM PUnit :=
  if size + 1 ≤ maxSizet then do
    request mem
    modify fun s =>
      { s with buffer := s.buffer ++ List.replicate (size - s.buffer.length) mem.fresh }
  else throw .toobig

def luaZOpenspace (n : Nat) : ConcatM PUnit := do
  if n > (← get).buffer.length then
    luaZResizebuffer mem (if n < luaMinbuffer then luaMinbuffer else n)
  else return

-- memcpy(buffer+tl, str, l)
def memcpy (tl : Nat) (str : List UInt8) : ConcatM PUnit := do
  let s ← get
  if tl + str.length ≤ s.buffer.length then
    set { s with buffer := s.buffer.take tl ++ str ++ s.buffer.drop (tl + str.length) }
  else throw .outside

-- the first tl bytes of the buffer
def bufferBytes (tl : Nat) : ConcatM (List UInt8) := do
  let s ← get
  if tl ≤ s.buffer.length then return s.buffer.take tl else throw .outside

/-! ## The loops -/

/-- Collects the total length of as many operands as possible: `n` of them are `tl` bytes long. -/
def collectLength (top total : Nat) : Nat → Nat → Nat → ConcatM (Nat × Nat)
  | 0, _, _ => throw .endless
  | rounds + 1, n, tl => do
    if n < total then
      if ← tostringAt mem (top - n - 1) then
        let l := (← svalue (top - n - 1)).length
        if l ≥ maxSizet - tl then throw .overflow
        else collectLength top total rounds (n + 1) (tl + l)
      else return (n, tl)
    else return (n, tl)

/-- Copies the `i` operands below `top` behind the `tl` bytes of the buffer. -/
def copyStrings (top : Nat) : Nat → Nat → ConcatM Nat
  | 0, tl => return tl
  | i + 1, tl => do
    let str ← svalue (top - (i + 1))
    memcpy tl str
    copyStrings top i (tl + str.length)

-- whether the two operands at the end can be joined
def bothStrings (top : Nat) : ConcatM Bool := do
  match (← get).stack (top - 2) with
  | .string _ | .number _ => tostringAt mem (top - 1)
  | _ => return false

-- the last operand is a string and not empty
def joinStrings (top total : Nat) : ConcatM Nat := do
  let (n, tl) ← collectLength mem top total total 1 (← svalue (top - 1)).length
  luaZOpenspace mem tl
  let tl ← copyStrings top n 0
  let str ← bufferBytes tl
  luaSNewlstr mem str
  setsvalue (top - n) str
  return n

/-- One pass of the loop, which makes this many operands one. -/
def concatPass (top total : Nat) : ConcatM Nat := do
  if ← bothStrings mem top then
    if (← svalue (top - 1)).length = 0 then
      let _ ← tostringAt mem (top - 2)
      return 2
    else joinStrings mem top total
  else throw .tagMethod

def concatLoop (base : Nat) : Nat → Nat → Nat → ConcatM PUnit
  | 0, _, _ => throw .endless
  | rounds + 1, total, last => do
    let n ← concatPass mem (base + last + 1) total
    if total - (n - 1) > 1 then concatLoop base rounds (total - (n - 1)) (last - (n - 1))
    else return

/-- `luaV_concat(L, total, last)`.  Every pass makes `total` smaller. -/
def luaVConcat (base total last : Nat) : ConcatM PUnit := concatLoop mem base total total last

end Lunatik.Lua.Concat
