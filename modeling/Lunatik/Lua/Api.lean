import Lunatik.Lua.State
import Lunatik.Library.Hoare

/-! # The stack API (`lapi.c`, `lauxlib.c`)

The functions of the API as they are used outside any Lua function, on the base frame of the
main thread.  `stack` lists the values of that frame from the top down; its last element is the
slot of the function that the frame does not have, which an index below the first value reaches.

The API pushes without checking: the frame has room for `luaMinstack` values, and `peak` is the
largest number of values it ever held.  What lies behind the API (table accesses with their
metamethods, calls, the compiler and the allocator) is an `Interpreter`: any functions of a
state of their own.  An error that is raised outside a protected call ends in the panic function.
-/

namespace Lunatik.Lua

open Lunatik.Library

/-- The C functions that are handed to the API. -/
inductive CFunction where
  | printk | type | gcCount | bufNew | sha1 | getRandomBytes
  | luaopen (address : Nat)
  deriving DecidableEq, Repr

/-- How `luaD_call` under `luaD_pcall` ends. -/
inductive CallOutcome where
  | returned (results : List TValue)
  | failed (status : Int) (message : TValue)

structure Interpreter (W : Type) where
  registry : W → TValue
  globals : W → TValue
  gettable : W → TValue → TValue → Option (TValue × W)
  settable : W → TValue → TValue → TValue → Option W
  rawget : W → TValue → TValue → TValue
  getmetatable : W → TValue → Option TValue
  newtable : W → Option (TValue × W)
  newclosure : W → CFunction → List TValue → Option (TValue × W)
  newlstr : W → List UInt8 → Option W
  call : W → TValue → CallOutcome × W
  load : W → List UInt8 → String → Int × TValue × W

structure ApiState (W : Type) where
  stack : List TValue
  peak : Nat
  world : W

/-- Raised outside any protected call. -/
inductive Unprotected where
  | error
  deriving DecidableEq, Repr

abbrev Api (W : Type) := EStateM Unprotected (ApiState W)

inductive Index where
  | below (n : Nat)
  | registry
  | globals

def ApiState.gettop {W : Type} (s : ApiState W) : Nat := s.stack.length - 1

variable {W : Type}

/-- `api_incr_top` after a value was stored at the top. -/
def incrTop (v : TValue) : Api W Unit :=
  modify fun s => { s with stack := v :: s.stack, peak := max s.peak s.stack.length }

-- `lua_pop(L, n)`
def luaPop (n : Nat) : Api W Unit := modify fun s => { s with stack := s.stack.drop n }

-- `lua_remove(L, -n)`
def luaRemove (n : Nat) : Api W Unit := modify fun s => { s with stack := s.stack.eraseIdx (n - 1) }

-- `lua_insert(L, -n)`
def luaInsert (n : Nat) : Api W Unit :=
  modify fun s => { s with stack := s.stack.tail.insertIdx (n - 1) (s.stack.headD .nil) }

-- the value at the top is replaced
def replaceTop (v : TValue) : Api W Unit := modify fun s => { s with stack := v :: s.stack.tail }

def orRaise {α : Type} (f : W → Option (α × W)) : Api W α := do
  let s ← get
  match f s.world with
  | some (a, w) =>
    set { s with world := w }
    return a
  | none => throw .error

def topSlot (n : Nat) : Api W TValue := do return (← get).stack.getD (n - 1) .nil

section
variable (I : Interpreter W)

def index2adr : Index → Api W TValue
  | .below n => topSlot n
  | .registry => do return I.registry (← get).world
  | .globals => do return I.globals (← get).world

def luaPushvalue (idx : Index) : Api W Unit := do incrTop (← index2adr I idx)

def luaPushlstring (s : List UInt8) : Api W Unit := do
  orRaise fun w => (I.newlstr w s).map ((), ·)
  incrTop (.string s)

def luaPushcclosure (fn : CFunction) (n : Nat) : Api W Unit := do
  let upvalues := ((← get).stack.take n).reverse
  let cl ← orRaise fun w => I.newclosure w fn upvalues
  luaPop n
  incrTop cl

def luaGetfield (idx : Index) (k : List UInt8) : Api W Unit := do
  let t ← index2adr I idx
  orRaise fun w => (I.newlstr w k).map ((), ·)
  incrTop (← orRaise fun w => I.gettable w t (.string k))

def luaSetfield (idx : Index) (k : List UInt8) : Api W Unit := do
  let t ← index2adr I idx
  orRaise fun w => (I.newlstr w k).map ((), ·)
  let v ← topSlot 1
  orRaise fun w => (I.settable w t (.string k) v).map ((), ·)
  luaPop 1

def luaSettable (idx : Index) : Api W Unit := do
  let t ← index2adr I idx
  let key ← topSlot 2
  let v ← topSlot 1
  orRaise fun w => (I.settable w t key v).map ((), ·)
  luaPop 2

def luaRawget (idx : Index) : Api W Unit := do
  let t ← index2adr I idx
  let key ← topSlot 1
  replaceTop (I.rawget (← get).world t key)

def luaCreatetable : Api W Unit := do incrTop (← orRaise I.newtable)

def luaGetmetatable (idx : Index) : Api W Bool := do
  let o ← index2adr I idx
  match I.getmetatable (← get).world o with
  | none => return false
  | some mt =>
    incrTop mt
    return true

-- what luaD_poscall copies down
def wantedResults (results : List TValue) (wanted : Nat) : List TValue :=
  (results ++ List.replicate wanted TValue.nil).take wanted

/-- `lua_pcall(L, 0, 1, 0)`: one value takes the place of the function, whatever happens. -/
def luaPcall : Api W Int := do
  let f ← topSlot 1
  let s ← get
  match I.call s.world f with
  | (.returned results, w) =>
    set { s with stack := (wantedResults results 1).reverse ++ s.stack.tail, world := w }
    return 0
  | (.failed status message, w) =>
    set { s with stack := message :: s.stack.tail, world := w }
    return status

/-- `luaL_loadbuffer`: the function or the message. -/
def luaLLoadbuffer (code : List UInt8) (name : String) : Api W Int := do
  let s ← get
  let (status, v, w) := I.load s.world code name
  set { s with world := w }
  incrTop v
  return status

/-- `lua_tolstring(L, -1, len)`: a number is replaced by its text. -/
def luaTolstring : Api W (Option (List UInt8)) := do
  match ← topSlot 1 with
  | .string s => return some s
  | .number n =>
    orRaise fun w => (I.newlstr w (luaNumber2str n)).map ((), ·)
    replaceTop (.string (luaNumber2str n))
    return some (luaNumber2str n)
  | _ => return none

/-! ## `lauxlib.c` -/

/-- `lua_register(L, n, f)`. -/
def luaRegister (n : String) (f : CFunction) : Api W Unit := do
  luaPushcclosure I f 0
  luaSetfield I .globals (literal n)

/-- `luaL_getmetafield(L, -1, event)`. -/
def luaLGetmetafieldTop (event : String) : Api W Bool := do
  if ← luaGetmetatable I (.below 1) then
    luaPushlstring I (literal event)
    luaRawget I (.below 2)
    if (← topSlot 1) = .nil then
      luaPop 2
      return false
    else
      luaRemove 2
      return true
  else return false

/-- The loop of `luaL_findtable` over the parts of the name; `true` is a NULL result. -/
def luaLFindtableLoop : List (List UInt8) → Api W Bool
  | [] => return true
  | part :: rest => do
    luaPushlstring I part
    luaRawget I (.below 2)
    match ← topSlot 1 with
    | .nil =>
      luaPop 1
      luaCreatetable I
      luaPushlstring I part
      luaPushvalue I (.below 2)
      luaSettable I (.below 4)
      luaRemove 2
      luaLFindtableLoop rest
    | .table _ =>
      luaRemove 2
      luaLFindtableLoop rest
    | _ =>
      luaPop 2
      return false

def luaLFindtable (idx : Index) (fname : String) : Api W Bool := do
  luaPushvalue I idx
  luaLFindtableLoop I ((literal fname).splitOn 46)

/-- `luaI_openlib`. -/
def luaIOpenlib (libname : Option String) (l : List (String × CFunction)) (nup : Nat) :
    Api W Unit := do
  if let some libname := libname then
    let _ ← luaLFindtable I .registry "_LOADED"
    luaGetfield I (.below 1) (literal libname)
    match ← topSlot 1 with
    | .table _ => pure ()
    | _ =>
      luaPop 1
      if !(← luaLFindtable I .globals libname) then throw .error
      luaPushvalue I (.below 1)
      luaSetfield I (.below 3) (literal libname)
    luaRemove 2
    luaInsert (nup + 1)
  for (name, func) in l do
    for _ in List.range nup do luaPushvalue I (.below nup)
    luaPushcclosure I func nup
    luaSetfield I (.below (nup + 2)) (literal name)
  luaPop nup

/-- `luaL_register`. -/
def luaLRegister (libname : String) (l : List (String × CFunction)) : Api W Unit :=
  luaIOpenlib I (some libname) l 0

end

end Lunatik.Lua
