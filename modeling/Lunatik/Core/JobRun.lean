import Lunatik.Lua.Pcall

/-! # One job on the thread of a context (`lunatik.c`)

`loadcode_internal` and what it calls outside the protected calls, as far as the thread is concerned.
There, the memory that is asked for is granted.
-/

namespace Lunatik.Core.JobRun

open Lunatik.Lua Lunatik.Lua.Protected

-- lua_getmetatable(L, -1) for a userdata
def luaGetmetatable : RunM Bool := do
  let s ← get
  match s.stack (s.top - 1) with
  | .userdata u =>
    match (s.heap.udata u).metatable with
    | none => return false
    | some mt =>
      push (.table mt)
      return true
  | _ => return false

-- luaC_checkGC(L), which comes to this many traversals of the stack: no userdata has a finalizer
def traverses : Nat → RunM PUnit
  | 0 => return
  | n + 1 => do
    traversestack true
    traverses n

/-- What is outside the thread: whether the block for a userdata is granted, and what the collector does
in `lua_pushstring` and in `lua_tolstring`. -/
structure Surroundings where
  granted : Bool
  pushing : Nat
  converting : Nat

-- lua_pushstring(L, s)
def luaPushstring (outer : Surroundings) (s : String) : RunM PUnit := do
  traverses outer.pushing
  push (.string (literal s))

-- lua_rawget(L, -2)
def luaRawget : RunM PUnit := compute fun s =>
  match s.stack (s.top - 2) with
  | .table h => { s with stack := setAt s.stack (s.top - 1) (luaHGet (s.heap.tables h) (s.stack (s.top - 1))) }
  | _ => s

-- lua_remove(L, -2)
def luaRemove : RunM PUnit := do
  compute fun s => { s with stack := setAt s.stack (s.top - 2) (s.stack (s.top - 1)) }
  pop 1

/-- `luaL_getmetafield(L, -1, event)`. -/
def luaLGetmetafield (outer : Surroundings) (event : String) : RunM Bool := do
  if ← luaGetmetatable then
    luaPushstring outer event
    luaRawget
    let s ← get
    if s.stack (s.top - 1) = .nil then
      -- remove metatable and metafield
      pop 2
      return false
    else
      -- remove only metatable
      luaRemove
      return true
  else return false

-- lua_tolstring(L, -1, &len), which turns a number into its text
def luaTolstring (outer : Surroundings) : RunM PUnit := do
  let s ← get
  match s.stack (s.top - 1) with
  | .number n =>
    compute fun s => { s with stack := setAt s.stack (s.top - 1) (.string (luaNumber2str n)) }
    traverses outer.converting
  | _ => return

/-- `lunatik_result_get(L, -1, perror)`. -/
def lunatikResultGet (outer : Surroundings) : RunM PUnit := do
  let s ← get
  match s.stack (s.top - 1) with
  | .userdata _ =>
    if outer.granted then
      if ← luaLGetmetafield outer "__name" then
        luaTolstring outer
        pop 1
  | .string _ => luaTolstring outer
  | _ => return

/-- `loadcode_internal`, with the part for DEBUG. -/
def loadcodeInternal (chunk : Chunk) (needResult debug : Bool) (outer : Surroundings) : RunM Nat := do
  -- luaL_loadbuffer
  let mut ret ← luaDProtectedparser chunk
  if ret = 0 then ret ← luaPcall chunk 0 1
  if needResult || debug then lunatikResultGet outer
  pop 1
  return ret

/-- One job after the other on the same thread. -/
def loadcodes : List (Chunk × Bool × Bool × Surroundings) → RunM PUnit
  | [] => return
  | (chunk, needResult, debug, outer) :: rest => do
    let _ ← loadcodeInternal chunk needResult debug outer
    loadcodes rest

end Lunatik.Core.JobRun
