import Lunatik.Lua.State

/-! # Calls (`ldo.c`)

`luaD_precall` prepares a `CallInfo` and `luaD_poscall` removes it.  A Lua function then
runs at `reentry`; a C function is left to the environment (`Mode.native`), which may work
on the shared state, call back and return.  The limits on the number of calls are among the
refusals.
-/

namespace Lunatik.Lua

/-- `tryfuncTM(L, func)`: the tag method takes the place of what was to be called. -/
def tryfuncTM (func : Nat) : VmM PUnit := do
  let s ← get
  match luaTGettmbyobj s.heap (s.stack func) .call with
  | .function tm =>
    -- open a hole inside the stack at `func'
    let moved := fun j => if func < j ∧ j ≤ s.top then s.stack (j - 1) else s.stack j
    set { s with stack := setAt moved func (.function tm), top := s.top + 1 }
  | _ => luaGTyperror (s.stack func) "call"

-- the slots from `start` to `stop` set to nil
def fillNil (stack : Nat → TValue) (start stop : Nat) : Nat → TValue :=
  fun j => if start ≤ j ∧ j < stop then .nil else stack j

-- the `arg' table: extra arguments and their number
def argTable (stack : Nat → TValue) (first nvar : Nat) : Table :=
  { entries := ((List.range nvar).map fun i =>
    (.number (BitVec.ofNat 64 (i + 1)), stack (first + i))) ++
      [(.string (literal "n"), .number (BitVec.ofNat 64 nvar))]
    metatable := none
    flags := newTable.flags }

def luaHNew (t : Table) : VmM Nat := do
  let s ← get
  let h := s.heap.nextTable
  setHeap { s.heap with tables := setAt s.heap.tables h t, nextTable := h + 1 }
  return h

-- the `arg' table of a function that needs it, with the arguments behind the fixed ones
def newArgTable (p : Proto) (actual : Nat) : VmM (Option Nat) := do
  if (p.isVararg &&& varargNeedsarg) != 0 then
    let s ← get
    let nvar := actual - p.numparams.toNat
    let h ← luaHNew (argTable s.stack (s.top - nvar) nvar)
    return some h
  else return none

def pushArgTable : Option Nat → VmM PUnit
  | some h => push (.table h)
  | none => return

-- move fixed parameters to final position; returns the new base
def moveFixed (nfixargs actual : Nat) : VmM Nat := do
  let s ← get
  let fixed := s.top - actual
  let base := s.top
  let moved := fun j =>
    if base ≤ j ∧ j < base + nfixargs then s.stack (fixed + (j - base))
    else if fixed ≤ j ∧ j < fixed + nfixargs then .nil
    else s.stack j
  set { s with stack := moved, top := base + nfixargs }
  return base

/-- `adjust_varargs(L, p, actual)`. -/
def adjustVarargs (p : Proto) (actual : Int) : VmM Nat := do
  let nfixargs := p.numparams.toNat
  -- missing parameters are nil
  modify fun s =>
    let top := s.top + ((nfixargs : Int) - actual).toNat
    { s with stack := fillNil s.stack s.top top, top }
  let actual := max actual.toNat nfixargs
  let htab ← newArgTable p actual
  let base ← moveFixed nfixargs actual
  pushArgTable htab
  return base

-- the base of a Lua function, with its arguments adjusted
def precallBase (p : Proto) (func : Nat) : VmM Nat := do
  let top := (← get).top
  if p.isVararg = 0 then
    if func + 1 + p.numparams.toNat < top then
      setTop (func + 1 + p.numparams.toNat)
      return func + 1
    else return func + 1
  else adjustVarargs p ((top : Int) - func - 1)

def callable (func : Nat) : VmM PUnit := do
  match ← slot func with
  | .function _ => return
  | _ => tryfuncTM func

-- enter a Lua function
def precallLua (p : Proto) (id func : Nat) (nresults : Int) (kont : Kont) : VmM PUnit := do
  let base ← precallBase p func
  let top := base + p.maxReg
  modify fun s =>
    { s with
      stack := fillNil s.stack s.top top
      top
      frames := { func, base, top, nresults, kont, code := .lua p 0 id } :: s.frames
      mode := .reentry }

-- enter a C function
def precallNative (func : Nat) (nresults : Int) (kont : Kont) : VmM PUnit :=
  modify fun s =>
    { s with
      frames := { func, base := func + 1, top := s.top + luaMinstack, nresults, kont, code := .native } :: s.frames
      mode := .native }

/-- `luaD_precall(L, func, nresults)`, up to the body of a C function. -/
def luaDPrecall (func : Nat) (nresults : Int) (kont : Kont) : VmM PUnit := do
  callable func
  let s ← get
  match s.stack func with
  | .function id =>
    match s.heap.closures id with
    | .lua p _ _ => precallLua p id func nresults kont
    | .c .. => precallNative func nresults kont
  | _ => throw (.fault .closure)

-- the results of a function, from `firstResult` to the top, moved to where it was called
def moveResults (s : Shared) (res : Nat) (wanted : Int) (firstResult : Nat) : Shared :=
  let count := s.top - firstResult
  let copied := if wanted < 0 then count else min wanted.toNat count
  let total := if wanted < 0 then count else wanted.toNat
  { s with
    stack := fun j =>
      if res ≤ j ∧ j < res + copied then s.stack (firstResult + (j - res))
      else if res ≤ j ∧ j < res + total then .nil
      else s.stack j
    top := res + total }

/-- `luaD_poscall(L, firstResult)` for the innermost call, which it returns. -/
def luaDPoscall (firstResult : Nat) : VmM CallInfo := do
  let s ← get
  match s.frames with
  | ci :: rest =>
    set { s with toShared := moveResults s.toShared ci.func ci.nresults firstResult, frames := rest }
    return ci
  | [] => throw (.fault .closure)

/-- `luaD_call(L, func, nResults)` by C code that goes on with `kont`. -/
def luaDCall (func : Nat) (nresults : Int) (kont : Kont) : VmM PUnit :=
  luaDPrecall func nresults kont

-- the two innermost calls made one, for a tail call: the new frame is moved down to the old one
def mergeFrames (s : LuaState) (new ci : CallInfo) (rest : List CallInfo) : LuaState :=
  let count := s.top - new.func
  let moved := fun j => if ci.func ≤ j ∧ j < ci.func + count then
    s.stack (new.func + (j - ci.func)) else s.stack j
  let top := ci.func + count
  { s with
    stack := moved
    top
    frames := { ci with base := ci.func + (new.base - new.func), top, code := new.code } :: rest }

/-- The new frame of a tail call takes the place of the one below it. -/
def replaceFrame : VmM PUnit := do
  let s ← get
  match s.frames with
  | new :: ci :: rest =>
    luaFClose ci.base
    modify fun s => mergeFrames s new ci rest
  | _ => throw (.fault .closure)

end Lunatik.Lua
