import Lunatik.Lua.Object

/-! # The frame of a C function (`lapi.c`, `lauxlib.c`)

The API as a C function uses it that was called from a script: `base` is the slot of its first argument,
and the slot below holds the function itself.  The checks of the API are compiled out, so an index reads
whatever slot it comes to.  The events tell how far below the top each index goes (what `api_check` looks
at), where the collector may run, and where a pointer to the memory of a userdata is taken and used.

What lies behind the API is a `Runtime`: any functions of a state of their own.  Where one of them has no
result, an error is raised.
-/

namespace Lunatik.Lua.Frame

open Lunatik.Lua

structure Runtime (W : Type) where
  registry : W → TValue
  gettable : W → TValue → TValue → Option (TValue × W)
  settable : W → TValue → TValue → TValue → Option W
  rawseti : W → TValue → Int → TValue → Option W
  getmetatable : W → TValue → Option TValue
  setmetatable : W → TValue → TValue → W
  -- of a table, and of a userdata
  objlen : W → TValue → Nat
  createtable : W → Int → Option (TValue × W)
  newuserdata : W → Nat → Option (Nat × W)
  newclosure : W → Nat → Option (TValue × W)
  newlstr : W → List UInt8 → Option W
  -- luaC_step(L), where one is due
  gcStep : W → W
  gcCount : W → LuaNumber
  -- the text of an argument error, from the debug information
  argerror : W → Int → List UInt8 → List UInt8
  -- luaL_where(L, 1)
  position : W → List UInt8

/-- What is observed while the function runs. -/
inductive Event (W : Type) where
  -- an index of -n, or n values used at the top
  | below (n top : Nat)
  -- luaC_checkGC(L)
  | collect (stack : Nat → TValue) (top : Nat) (world : W)
  | take (u : Nat)
  | access (u : Nat)

structure FrameState (W : Type) where
  stack : Nat → TValue
  base : Nat
  top : Nat
  world : W
  -- the last one first
  events : List (Event W)

-- lua_error
inductive Raised where
  | error
  deriving DecidableEq, Repr

abbrev FrameM (W : Type) := EStateM Raised (FrameState W)

variable {W : Type}

def observe (e : Event W) : FrameM W PUnit := modify fun s => { s with events := e :: s.events }

/-! ## Indices -/

-- index2adr(L, -n)
def index2adr (n : Nat) : FrameM W Nat := do
  let top := (← get).top
  observe (.below n top)
  return top - n

def topValue (n : Nat) : FrameM W TValue := do
  let o ← index2adr n
  return (← get).stack o

def luaGettop : FrameM W Nat := do
  let s ← get
  return s.top - s.base

-- lua_settop(L, -n - 1)
def luaPop (n : Nat) : FrameM W PUnit := do
  let top ← index2adr n
  modify fun s => { s with top }

-- setobj2s(L, L->top, v); api_incr_top(L)
def push (v : TValue) : FrameM W PUnit :=
  modify fun s => { s with stack := setAt s.stack s.top v, top := s.top + 1 }

def orRaise {α : Type} (f : W → Option (α × W)) : FrameM W α := do
  match f (← get).world with
  | some (a, world) =>
    modify fun s => { s with world }
    return a
  | none => throw .error

def orRaiseUnit (f : W → Option W) : FrameM W PUnit := orRaise fun w => (f w).map (⟨⟩, ·)

variable (R : Runtime W)

-- luaC_checkGC(L)
def checkGC : FrameM W PUnit := do
  let s ← get
  observe (.collect s.stack s.top s.world)
  modify fun s => { s with world := R.gcStep s.world }

/-! ## Access functions -/

-- lua_touserdata
def luaTouserdata (n : Nat) : FrameM W (Option TValue) := do
  match ← topValue n with
  | .userdata u =>
    observe (.take u)
    return some (.userdata u)
  | .lightuserdata p => return if p = 0 then none else some (.lightuserdata p)
  | _ => return none

def luaTointeger (n : Nat) : FrameM W LuaNumber := do return (luaVTonumber (← topValue n)).getD 0

def luaIsnumber (n : Nat) : FrameM W Bool := do return (luaVTonumber (← topValue n)).isSome

def luaRawequal (i j : Nat) : FrameM W Bool := do return (← topValue i) == (← topValue j)

def luaType (n : Nat) : FrameM W Int := do return ttype (← topValue n)

-- lua_typename
def luaTypename (t : Int) : String :=
  if t = luaTnone then "no value"
  else
    ["nil", "boolean", "userdata", "number", "string", "table", "function", "userdata", "thread"].getD
      t.toNat ""

-- luaV_tostring(L, o)
def tostringAt (o : Nat) : FrameM W (Option (List UInt8)) := do
  match (← get).stack o with
  | .string s => return some s
  | .number n =>
    orRaiseUnit fun w => R.newlstr w (luaNumber2str n)
    modify fun s => { s with stack := setAt s.stack o (.string (luaNumber2str n)) }
    return some (luaNumber2str n)
  | _ => return none

/-- `lua_tolstring(L, -n, NULL)`. -/
def luaTolstring (n : Nat) : FrameM W (Option (List UInt8)) := do
  let o ← index2adr n
  match (← get).stack o with
  | .string s => return some s
  | _ =>
    match ← tostringAt R o with
    | none => return none
    | some s =>
      checkGC R
      let _ ← index2adr n
      return some s

def luaObjlen (n : Nat) : FrameM W Nat := do
  let o ← index2adr n
  match (← get).stack o with
  | .string s => return s.length
  | .number _ => return ((← tostringAt R o).getD []).length
  | .table h => return R.objlen (← get).world (.table h)
  | .userdata u => return R.objlen (← get).world (.userdata u)
  | _ => return 0

/-! ## Push and get functions -/

def luaPushinteger (n : LuaNumber) : FrameM W PUnit := push (.number n)

def luaPushlstring (s : List UInt8) : FrameM W PUnit := do
  checkGC R
  orRaiseUnit fun w => R.newlstr w s
  push (.string s)

def luaPushstring (s : String) : FrameM W PUnit := luaPushlstring R (literal s)

-- lua_pushcclosure(L, f, 0)
def luaPushcfunction (f : Nat) : FrameM W PUnit := do
  checkGC R
  push (← orRaise fun w => R.newclosure w f)

-- lua_getfield(L, LUA_REGISTRYINDEX, k)
def luaGetRegistryField (k : String) : FrameM W PUnit := do
  orRaiseUnit fun w => R.newlstr w (literal k)
  push (← orRaise fun w => R.gettable w (R.registry w) (.string (literal k)))

def luaCreatetable (nrec : Int) : FrameM W PUnit := do
  checkGC R
  push (← orRaise fun w => R.createtable w nrec)

def luaNewuserdata (size : Nat) : FrameM W PUnit := do
  checkGC R
  let u ← orRaise fun w => R.newuserdata w size
  push (.userdata u)
  observe (.take u)

def luaGetmetatable (n : Nat) : FrameM W Bool := do
  let o ← topValue n
  match R.getmetatable (← get).world o with
  | none => return false
  | some mt =>
    push mt
    return true

/-! ## Set functions -/

-- luaV_settable(L, t, k, L->top - 1); L->top--
def storeField (t : TValue) (k : String) : FrameM W PUnit := do
  orRaiseUnit fun w => R.newlstr w (literal k)
  let v ← topValue 1
  orRaiseUnit fun w => R.settable w t (.string (literal k)) v
  modify fun s => { s with top := s.top - 1 }

-- lua_setfield(L, -n, k)
def luaSetfield (n : Nat) (k : String) : FrameM W PUnit := do storeField R (← topValue n) k

-- lua_setfield(L, LUA_REGISTRYINDEX, k)
def luaSetRegistryField (k : String) : FrameM W PUnit := do
  storeField R (R.registry (← get).world) k

def luaRawseti (n : Nat) (i : Int) : FrameM W PUnit := do
  let t ← topValue n
  let v ← topValue 1
  orRaiseUnit fun w => R.rawseti w t i v
  modify fun s => { s with top := s.top - 1 }

def luaSetmetatable (n : Nat) : FrameM W PUnit := do
  let mt ← topValue 1
  let o ← topValue n
  modify fun s => { s with world := R.setmetatable s.world o mt, top := s.top - 1 }

/-! ## Errors -/

def luaError {α : Type} : FrameM W α := do
  let _ ← index2adr 1
  throw .error

-- lua_concat(L, 2) of two strings
def luaConcat (first second : List UInt8) : FrameM W PUnit := do
  let o ← index2adr 2
  checkGC R
  orRaiseUnit fun w => R.newlstr w (first ++ second)
  modify fun s => { s with stack := setAt s.stack o (.string (first ++ second)), top := s.top - 1 }

/-- `luaL_error`, with the text of the message. -/
def luaLError {α : Type} (message : List UInt8) : FrameM W α := do
  let position := R.position (← get).world
  luaPushlstring R position
  luaPushlstring R message
  luaConcat R position message
  luaError

-- luaL_argerror(L, -narg, extramsg)
def luaLArgerror {α : Type} (narg : Nat) (extramsg : List UInt8) : FrameM W α := do
  luaLError R (R.argerror (← get).world (-narg) extramsg)

/-- `luaL_typerror(L, -narg, tname)`, whose message is pushed by `lua_pushfstring`. -/
def luaLTyperror {α : Type} (narg : Nat) (tname : String) : FrameM W α := do
  let typename := luaTypename (← luaType narg)
  let msg := literal (tname ++ " expected, got " ++ typename)
  luaPushlstring R msg
  luaLArgerror R narg msg

/-! ## `lauxlib.c` -/

def luaLCheckinteger (narg : Nat) : FrameM W LuaNumber := do
  let d ← luaTointeger narg
  -- avoid extra test when d is not 0
  if d = 0 then
    if ← luaIsnumber narg then return d else luaLTyperror R narg (luaTypename luaTnumber)
  else return d

/-- `luaL_checkudata`; the pointer is named by the value that it is taken from. -/
def luaLCheckudata (ud : Nat) (tname : String) : FrameM W TValue := do
  match ← luaTouserdata ud with
  | some p =>
    if ← luaGetmetatable R ud then
      luaGetRegistryField R tname
      if ← luaRawequal 1 2 then
        luaPop 2
        return p
    luaLTyperror R ud tname
  | none => luaLTyperror R ud tname

def luaLNewmetatable (tname : String) : FrameM W PUnit := do
  luaGetRegistryField R tname
  if (← luaType 1) = luaTnil then
    luaPop 1
    luaCreatetable R 0
    luaPushstring R tname
    luaSetfield R 2 "__name"
    push (← topValue 1)
    luaSetRegistryField R tname

end Lunatik.Lua.Frame
