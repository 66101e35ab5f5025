import Lunatik.Lua.CallStack
import Lunatik.Lua.Throw

/-! # Protected calls (`ldo.c`)

The thread as `luaD_pcall` saves and restores it, with its array of `CallInfo`s.  A function that is
called is a `Body`: what it does to the stack and the heap, in any order with the calls that it makes, the
upvalues that it opens and closes, and the errors that it raises.  A `Body true` is a Lua function, a
`Body false` is C code, which opens no upvalues.

No hook is ever set, and no function that a script can call makes a protected call of its own.
-/

namespace Lunatik.Lua.Protected

open Lunatik.Lua

def luaiMaxccalls : Nat := 200

/-- The errors that are raised. -/
inductive ErrCode where
  | errRun
  | errSyntax
  | errMem
  | errErr
  deriving DecidableEq, Repr

def ErrCode.status : ErrCode → Nat
  | .errRun => luaErrrun
  | .errSyntax => luaErrsyntax
  | .errMem => luaErrmem
  | .errErr => luaErrerr

structure CallInfo where
  func : Nat
  base : Nat
  top : Nat
  nresults : Int
  deriving Inhabited

/-- `lua_State`.  `ci` counts from `base_ci`; `errorJmp` is the chain of jump buffers, each with its
status, the current one first. -/
structure LuaThread extends Shared where
  base : Nat
  ci : Nat
  baseCi : Nat → CallInfo
  sizeCi : Nat
  nCcalls : Nat
  baseCcalls : Nat
  errfunc : Nat
  allowhook : Bool
  status : Nat
  errorJmp : List Nat
  -- G(L)->panic is set
  panic : Bool

-- preinit_state and stack_init
def luaNewstate (heap : Heap) (panic : Bool) : LuaThread where
  stack := fun _ => .nil
  top := 1
  heap
  openupval := []
  base := 1
  ci := 0
  baseCi := fun _ => { func := 0, base := 1, top := 1 + luaMinstack, nresults := 0 }
  sizeCi := basicCiSize
  nCcalls := 0
  baseCcalls := 0
  errfunc := 0
  allowhook := true
  status := 0
  errorJmp := []
  panic

abbrev RunM := EStateM PUnit LuaThread

/-! ## Stack and upvalues -/

def getShared : RunM Shared := do return (← get).toShared

/-- The open upvalues are left to `luaF_findupval` and `luaF_close`. -/
def withOpen (s new : Shared) : Shared :=
  { new with
    openupval := s.openupval
    heap := { new.heap with
      upvals := fun id => if id ∈ s.openupval then s.heap.upvals id else new.heap.upvals id
      nextUpval := s.heap.nextUpval } }

def compute (f : Shared → Shared) : RunM PUnit :=
  modify fun s => { s with toShared := withOpen s.toShared (f s.toShared) }

def push (v : TValue) : RunM PUnit := compute fun s => { s with stack := setAt s.stack s.top v, top := s.top + 1 }

def pop (n : Nat) : RunM PUnit := compute fun s => { s with top := s.top - n }

def luaFFindupval (level : Nat) : RunM PUnit := modify fun s =>
  match findOpen s.heap level s.openupval with
  | some _ => s
  | none =>
    let id := s.heap.nextUpval
    { s with
      heap := { s.heap with upvals := setAt s.heap.upvals id (.openAt level), nextUpval := id + 1 }
      openupval := linkOpen s.heap level id s.openupval }

def luaFClose (level : Nat) : RunM PUnit := modify fun s =>
  let (openupval, heap) := closeOpen s.stack level s.openupval s.heap
  { s with openupval, heap }

-- luaF_newupval, as often as this; they are closed
def luaFNewupvals (n : Nat) : RunM PUnit := modify fun s =>
  { s with heap := { s.heap with
      upvals := fun id => if s.heap.nextUpval ≤ id then .closed .nil else s.heap.upvals id
      nextUpval := s.heap.nextUpval + n } }

/-! ## Errors -/

def luaDSeterrorobj (errcode oldtop : Nat) : RunM PUnit := compute fun s =>
  let stack :=
    if errcode = luaErrmem then setAt s.stack oldtop (.string (literal "not enough memory"))
    else if errcode = luaErrerr then
      setAt s.stack oldtop (.string (literal "error in error handling"))
    else if errcode = luaErrsyntax ∨ errcode = luaErrrun then
      setAt s.stack oldtop (s.stack (s.top - 1))
    else s.stack
  { s with stack, top := oldtop + 1 }

def restoreStackLimit : RunM PUnit := modify fun s =>
  -- there was an overflow? can `undo' overflow?
  if luaiMaxcalls < s.sizeCi ∧ s.ci + 1 < luaiMaxcalls then { s with sizeCi := luaiMaxcalls } else s

def resetstack (status : Nat) : RunM PUnit := do
  modify fun s => { s with ci := 0, base := (s.baseCi 0).base }
  let base := (← get).base
  luaFClose base
  luaDSeterrorobj status base
  modify fun s => { s with nCcalls := s.baseCcalls, allowhook := true }
  restoreStackLimit
  modify fun s => { s with errfunc := 0, errorJmp := [] }

def luaDThrow (errcode : ErrCode) : RunM PUnit := do
  let s ← get
  match s.errorJmp with
  | _ :: previous =>
    set { s with errorJmp := errcode.status :: previous }
    throw ⟨⟩
  | [] =>
    set { s with status := errcode.status }
    -- exit(EXIT_FAILURE) and the panic function return
    if s.panic then resetstack errcode.status

def luaDRawrunprotected (f : RunM PUnit) : RunM Nat := fun s =>
  match f { s with errorJmp := 0 :: s.errorJmp } with
  | .ok _ t | .error _ t => .ok (t.errorJmp.headD 0) { t with errorJmp := s.errorJmp }

-- what luaD_pcall does with the state that it has saved
def recover (s : LuaThread) (status oldTop : Nat) : RunM PUnit := do
  luaFClose oldTop
  luaDSeterrorobj status oldTop
  modify fun t =>
    { t with
      nCcalls := s.nCcalls
      ci := s.ci
      base := (t.baseCi s.ci).base
      allowhook := s.allowhook }
  restoreStackLimit

def luaDPcall (func : RunM PUnit) (oldTop ef : Nat) : RunM Nat := do
  let s ← get
  modify fun s => { s with errfunc := ef }
  let status ← luaDRawrunprotected func
  if status ≠ 0 then recover s status oldTop
  modify fun t => { t with errfunc := s.errfunc }
  return status

/-- `luaG_runerror`; `message` pushes the message and calls the error handler, if there is one. -/
def luaGRunerror (message : RunM Nat) : RunM PUnit := do
  let _ ← message
  luaDThrow .errRun

/-! ## Calls -/

-- luaM_reallocvector, where the memory is granted or not
def luaDReallocCI (granted : Bool) (newsize : Nat) : RunM PUnit := do
  if !granted then luaDThrow .errMem
  modify fun s => { s with sizeCi := newsize }

def growCI (granted : Bool) (message : RunM Nat) : RunM PUnit := do
  -- overflow while handling overflow?
  if luaiMaxcalls < (← get).sizeCi then luaDThrow .errErr
  else
    luaDReallocCI granted (2 * (← get).sizeCi)
    if luaiMaxcalls < (← get).sizeCi then luaGRunerror message

def incCi (granted : Bool) (message : RunM Nat) : RunM PUnit := do
  let s ← get
  if s.ci = s.sizeCi - 1 then growCI granted message
  modify fun s => { s with ci := s.ci + 1 }

/-- What `luaD_precall` finds at the slot of the function. -/
structure Callee where
  -- tryfuncTM, luaD_checkstack and adjust_varargs put the arguments in place
  arguments : Shared → Shared
  -- how many values adjust_varargs leaves below the base
  moved : Shared → Nat
  maxstacksize : Nat
  granted : Bool

-- `enter` the new function
def enterLua (func : Nat) (nresults : Int) (callee : Callee) (message : RunM Nat) : RunM PUnit := do
  compute callee.arguments
  let base := func + 1 + callee.moved (← getShared)
  incCi callee.granted message
  let top := base + callee.maxstacksize
  modify fun s => { s with base, baseCi := setAt s.baseCi s.ci { func, base, top, nresults } }
  compute fun s => { s with stack := fillNil s.stack s.top top, top }

def enterC (func : Nat) (nresults : Int) (callee : Callee) (message : RunM Nat) : RunM PUnit := do
  compute callee.arguments
  incCi callee.granted message
  modify fun s =>
    { s with
      base := func + 1
      baseCi := setAt s.baseCi s.ci { func, base := func + 1, top := s.top + luaMinstack, nresults } }

def luaDPoscall (firstResult : Nat) : RunM PUnit := do
  let ci := (← get).baseCi (← get).ci
  compute fun s => moveResults s ci.func ci.nresults firstResult
  modify fun s => { s with ci := s.ci - 1, base := (s.baseCi (s.ci - 1)).base }

/-- `luaD_precall`, with the run of the function that it enters. -/
def luaDPrecall (isLua : Bool) (func : Nat) (nresults : Int) (callee : Callee) (message body : RunM Nat) :
    RunM PUnit := do
  if isLua then
    enterLua func nresults callee message
    let ra ← body
    -- OP_RETURN
    luaFClose (← get).base
    luaDPoscall ra
  else
    enterC func nresults callee message
    luaDPoscall (← body)

/-- `luaD_call`, up to its `luaC_checkGC`, which is a part of what follows. -/
def luaDCall (isLua : Bool) (func : Nat) (nresults : Int) (callee : Callee) (message body : RunM Nat) :
    RunM PUnit := do
  modify fun s => { s with nCcalls := s.nCcalls + 1 }
  let s ← get
  if luaiMaxccalls ≤ s.nCcalls then
    if s.nCcalls = luaiMaxccalls then luaGRunerror message
    else if luaiMaxccalls + luaiMaxccalls / 8 ≤ s.nCcalls then luaDThrow .errErr
  luaDPrecall isLua func nresults callee message body
  modify fun s => { s with nCcalls := s.nCcalls - 1 }

-- OP_TAILCALL: the new frame takes the place of the previous one
def replaceFrame : RunM PUnit := do
  let s ← get
  let ci := s.baseCi (s.ci - 1)
  let new := s.baseCi s.ci
  luaFClose ci.base
  let base := ci.func + (new.base - new.func)
  -- move frame down
  let top := ci.func + (s.top - new.func)
  compute fun s =>
    { s with
      stack := fun j => if ci.func ≤ j ∧ j < top then s.stack (new.func + (j - ci.func)) else s.stack j
      top }
  modify fun s =>
    { s with base, ci := s.ci - 1, baseCi := setAt s.baseCi (s.ci - 1) { ci with base, top } }

/-! ## Garbage collection -/

-- the part of checkstacksizes that is about the CallInfos
def traversestack (granted : Bool) : RunM PUnit := do
  let s ← get
  -- handling overflow?
  if s.sizeCi ≤ luaiMaxcalls ∧ 4 * s.ci < s.sizeCi ∧ 2 * basicCiSize < s.sizeCi then
    luaDReallocCI granted (s.sizeCi / 2)

def gctm (isLua : Bool) (callee : Callee) (tm udata : TValue) (message body : RunM Nat) : RunM PUnit := do
  let oldah := (← get).allowhook
  -- stop debug hooks during GC tag method
  modify fun s => { s with allowhook := false }
  push tm
  push udata
  luaDCall isLua ((← get).top - 2) 0 callee message body
  modify fun s => { s with allowhook := oldah }

/-! ## What runs -/

inductive Body : Bool → Type where
  -- the slot of the first result
  | ret {isLua : Bool} (firstResult : Shared → Nat) : Body isLua
  | compute {isLua : Bool} (f : Shared → Shared) (next : Shared → Body isLua) : Body isLua
  -- OP_CLOSURE and OP_CLOSE
  | findupval (r : Nat) (next : Shared → Body true) : Body true
  | close (r : Nat) (next : Shared → Body true) : Body true
  -- luaD_call, or (not counted) an OP_CALL
  | call {isLua : Bool} (counted calleeIsLua : Bool) (func : Shared → Nat) (nresults : Int)
      (callee : Callee) (message : Body false) (body : Body calleeIsLua) (next : Shared → Body isLua) :
      Body isLua
  | tailcall (func : Shared → Nat) (callee : Callee) (message : Body false) (body : Body true) : Body true
  | traversestack {isLua : Bool} (granted : Bool) (next : Shared → Body isLua) : Body isLua
  | gctm {isLua : Bool} (calleeIsLua : Bool) (callee : Callee) (tm udata : TValue) (message : Body false)
      (body : Body calleeIsLua) (next : Shared → Body isLua) : Body isLua
  | raise {isLua : Bool} (errcode : ErrCode) (next : Shared → Body isLua) : Body isLua

/-- The run of a function, up to the slot of its first result. -/
def Body.run {isLua : Bool} : Body isLua → RunM Nat
  | .ret firstResult => do return firstResult (← getShared)
  | .compute f next => do
    Protected.compute f
    (next (← getShared)).run
  | .findupval r next => do
    luaFFindupval ((← get).base + r)
    (next (← getShared)).run
  | .close r next => do
    luaFClose ((← get).base + r)
    (next (← getShared)).run
  | .call counted calleeIsLua func nresults callee message body next => do
    let func := func (← getShared)
    if counted then luaDCall calleeIsLua func nresults callee message.run body.run
    else luaDPrecall calleeIsLua func nresults callee message.run body.run
    (next (← getShared)).run
  | .tailcall func callee message body => do
    let func := func (← getShared)
    enterLua func luaMultret callee message.run
    replaceFrame
    body.run
  | .traversestack granted next => do
    Protected.traversestack granted
    (next (← getShared)).run
  | .gctm calleeIsLua callee tm udata message body next => do
    Protected.gctm calleeIsLua callee tm udata message.run body.run
    (next (← getShared)).run
  | .raise errcode next => do
    luaDThrow errcode
    (next (← getShared)).run

/-- What a collection comes to: it traverses the stack, or it runs a finalizer. -/
inductive GcStep where
  | traversestack (granted : Bool)
  | gctm (calleeIsLua : Bool) (callee : Callee) (tm udata : TValue) (message : Body false)
      (body : Body calleeIsLua)

def GcStep.run : GcStep → RunM PUnit
  | .traversestack granted => Protected.traversestack granted
  | .gctm calleeIsLua callee tm udata message body =>
    Protected.gctm calleeIsLua callee tm udata message.run body.run

def luaCCheckGC : List GcStep → RunM PUnit
  | [] => return
  | step :: rest => do
    step.run
    luaCCheckGC rest

/-! ## The parser -/

/-- `luaY_parser` and `luaU_undump`, as far as the thread is concerned. -/
inductive Parser where
  | done
  -- on the heap, and on slots that are already there
  | compute (f : Shared → Shared) (next : Shared → Parser)
  -- enterlevel(ls); ...; leavelevel(ls), and the same in LoadFunction
  | level (message : TValue) (inner : Parser) (next : Shared → Parser)
  -- open_func(ls, &fs); ...; close_func(ls), and what LoadFunction anchors
  | anchored (values : List TValue) (inner : Parser) (next : Shared → Parser)
  | checkGC (gc : List GcStep) (next : Shared → Parser)
  -- luaX_lexerror, with its message, or luaD_throw
  | raise (message : List TValue) (errcode : ErrCode) (next : Shared → Parser)

def pushAll : List TValue → RunM PUnit
  | [] => return
  | v :: rest => do
    push v
    pushAll rest

def luaXLexerror (message : List TValue) (errcode : ErrCode) : RunM PUnit := do
  pushAll message
  luaDThrow errcode

def enterlevel (message : TValue) : RunM PUnit := do
  modify fun s => { s with nCcalls := s.nCcalls + 1 }
  if luaiMaxccalls < (← get).nCcalls then luaXLexerror [message] .errSyntax

def leavelevel : RunM PUnit := modify fun s => { s with nCcalls := s.nCcalls - 1 }

def Parser.run : Parser → RunM PUnit
  | .done => return
  | .compute f next => do
    Protected.compute fun s => { f s with top := s.top }
    (next (← getShared)).run
  | .level message inner next => do
    enterlevel message
    inner.run
    leavelevel
    (next (← getShared)).run
  | .anchored values inner next => do
    pushAll values
    inner.run
    pop values.length
    (next (← getShared)).run
  | .checkGC gc next => do
    luaCCheckGC gc
    (next (← getShared)).run
  | .raise message errcode next => do
    luaXLexerror message errcode
    (next (← getShared)).run

/-- A chunk, by what comes of it. -/
structure Chunk where
  -- luaC_checkGC of f_parser
  gc : List GcStep
  parser : Parser
  -- the closure and its prototype
  closure : Shared → Shared × TValue
  nups : Nat
  -- luaF_newLclosure and incr_top get their memory
  granted : Bool
  callee : Callee
  message : Body false
  main : Body true
  -- luaC_checkGC of luaD_call
  after : List GcStep

def fParser (chunk : Chunk) : RunM PUnit := do
  luaCCheckGC chunk.gc
  chunk.parser.run
  if !chunk.granted then luaDThrow .errMem
  let (new, cl) := chunk.closure (← getShared)
  compute fun s => { new with stack := s.stack, top := s.top }
  luaFNewupvals chunk.nups
  push cl

def luaDProtectedparser (chunk : Chunk) : RunM Nat := do
  let s ← get
  luaDPcall (fParser chunk) s.top s.errfunc

def fCall (chunk : Chunk) (func : Nat) (nresults : Int) : RunM PUnit := do
  luaDCall true func nresults chunk.callee chunk.message.run chunk.main.run
  luaCCheckGC chunk.after

/-- `lua_pcall(L, nargs, nresults, 0)`. -/
def luaPcall (chunk : Chunk) (nargs : Nat) (nresults : Int) : RunM Nat := do
  let func := (← get).top - (nargs + 1)
  let status ← luaDPcall (fCall chunk func nresults) func 0
  -- adjustresults(L, nresults)
  modify fun s =>
    if nresults = luaMultret ∧ (s.baseCi s.ci).top ≤ s.top then
      { s with baseCi := setAt s.baseCi s.ci { s.baseCi s.ci with top := s.top } }
    else s
  return status

end Lunatik.Lua.Protected
