import Lunatik.Lua.State

/-! # Raising an error (`ldo.c`, `ldebug.c`, `lmem.c`, `lauxlib.c`)

How control flows when an error is raised.  A program either returns or jumps to the innermost jump
buffer, so the two ends of an `EStateM` computation are the two ways in which a C function can be
left.  In the kernel `exit(E)` is defined as `return`.

The code between the functions modelled here (formatting a message, the error handler, accesses to
tables) is a `Program`: any steps that leave `L->errorJmp` alone, errors raised in between and
protected calls.

`size_ci`, which `restore_stack_limit` looks at, is not kept here.
-/

namespace Lunatik.Lua

def luaErrrun : Nat := 2
def luaErrsyntax : Nat := 3
def luaErrmem : Nat := 4
def luaErrerr : Nat := 5

/-- The points that `luaI_openlib` passes. -/
inductive OpenlibPoint where
  | conflict
  | stored
  | registered
  deriving DecidableEq, Repr

/-- What the functions read and write of a thread, without `errorJmp`.  `panic` tells whether
    `G(L)->panic` is set; it is `lpanic` then. -/
structure Thread where
  vm : LuaState
  status : Nat
  errfunc : Nat
  nCcalls : Nat
  baseCcalls : Nat
  allowhook : Bool
  panic : Bool
  totalbytes : Nat

/-- `errorJmp` is the chain of jump buffers, each with its status; the first is the current one.
    `log` is kept by nobody but `luaI_openlib`. -/
structure ErrState extends Thread where
  errorJmp : List Nat
  log : List OpenlibPoint

abbrev ThrowM := EStateM PUnit ErrState

/-! ## `ldo.c` -/

def luaDSeterrorobj (errcode oldtop : Nat) (s : LuaState) : LuaState :=
  let stack :=
    if errcode = luaErrmem then setAt s.stack oldtop (.string (literal "not enough memory"))
    else if errcode = luaErrerr then
      setAt s.stack oldtop (.string (literal "error in error handling"))
    else if errcode = luaErrsyntax ∨ errcode = luaErrrun then
      setAt s.stack oldtop (s.stack (s.top - 1))
    else s.stack
  { s with stack, top := oldtop + 1 }

-- L->ci = L->base_ci, which has the base that the upvalues are closed from
def resetVm (status : Nat) (s : LuaState) : LuaState :=
  let base := (s.frames.getLast?.map (·.base)).getD 0
  let (openupval, heap) := closeOpen s.stack base s.openupval s.heap
  luaDSeterrorobj status base { s with frames := s.frames.getLast?.toList, openupval, heap }

def resetstack (status : Nat) (s : ErrState) : ErrState :=
  { s with
    vm := resetVm status s.vm
    nCcalls := s.baseCcalls
    allowhook := true
    errfunc := 0
    errorJmp := [] }

-- prints the message
def lpanic : ThrowM Int := return 0

def luaDThrow (errcode : Nat) : ThrowM PUnit := do
  let s ← get
  match s.errorJmp with
  | _ :: previous =>
    set { s with errorJmp := errcode :: previous }
    throw ⟨⟩
  | [] =>
    set { s with status := errcode }
    if s.panic then
      modify (resetstack errcode)
      let _ ← lpanic
    -- exit(EXIT_FAILURE)
    return

def luaDRawrunprotected (f : ThrowM PUnit) : ThrowM Nat := fun s =>
  match f { s with errorJmp := 0 :: s.errorJmp } with
  | .ok _ t | .error _ t => .ok (t.errorJmp.headD 0) { t with errorJmp := s.errorJmp }

/-! ## What runs in between -/

inductive Program where
  | done
  | act (f : Thread → Thread) (next : Program)
  | branch (c : Thread → Bool) (yes no : Program)
  | raise (errcode : Nat) (next : Program)
  | protect (body : Program) (next : Nat → Program)

def Program.run : Program → ThrowM PUnit
  | .done => return
  | .act f next => do
    modify fun s => { s with toThread := f s.toThread }
    next.run
  | .branch c yes no => do if c (← get).toThread then yes.run else no.run
  | .raise errcode next => do
    luaDThrow errcode
    next.run
  | .protect body next => do
    let status ← luaDRawrunprotected body.run
    (next status).run

/-! ## Raising -/

-- the value of the slot L->errfunc is a function
def errfuncIsFunction (s : Thread) : Bool := ttype (s.vm.stack s.errfunc) == luaTfunction

-- the part of luaG_errormsg for a thread with an error handler
def callErrfunc (handler : Program) : ThrowM PUnit := do
  let s ← get
  if s.errfunc ≠ 0 then
    if errfuncIsFunction s.toThread then handler.run
    else
      luaDThrow luaErrerr
      handler.run

/-- `luaG_errormsg`, where `handler` is what comes of the call of the error handler. -/
def luaGErrormsg (handler : Program) : ThrowM PUnit := do
  callErrfunc handler
  luaDThrow luaErrrun

/-- `luaG_runerror`, with the steps that push the message. -/
def luaGRunerrorAt (message handler : Program) : ThrowM PUnit := do
  message.run
  luaGErrormsg handler

/-- `lua_error`. -/
def luaError (handler : Program) : ThrowM Int := do
  luaGErrormsg handler
  return 0

/-- `luaL_error`: the position, the message and their concatenation are pushed first. -/
def luaLError (message handler : Program) : ThrowM Int := do
  message.run
  luaError handler

/-! ## `lmem.c` -/

-- a pointer is a number here, and `none` is NULL
def luaMToobig (message handler : Program) : ThrowM (Option Nat) := do
  luaGRunerrorAt message handler
  return none

/-- `l_alloc`, where krealloc gives the block `granted`. -/
def lAlloc (granted : Option Nat) (nsize : Nat) : Option Nat := if nsize = 0 then none else granted

def luaMRealloc (granted : Option Nat) (osize nsize : Nat) : ThrowM (Option Nat) := do
  let block := lAlloc granted nsize
  if block = none ∧ nsize > 0 then luaDThrow luaErrmem
  modify fun s => { s with totalbytes := s.totalbytes - osize + nsize }
  return block

/-! ## `luaI_openlib` -/

def atPoint (point : OpenlibPoint) : ThrowM PUnit :=
  modify fun s => { s with log := s.log ++ [point] }

/-- The calls that `luaI_openlib` makes for a library with a name, and the tests on what they leave:
    `_LOADED[libname]` is a table, and `luaL_findtable` did not return NULL. -/
structure OpenlibCalls where
  getLoaded : Program
  isTable : Thread → Bool
  findtable : Program
  nameConflict : Thread → Bool
  message : Program
  handler : Program
  setLoaded : Program
  register : Program

-- if (luaL_findtable(L, LUA_GLOBALSINDEX, libname, size) != NULL)
def openlibConflict (lib : OpenlibCalls) : ThrowM PUnit := do
  if lib.nameConflict (← get).toThread then
    atPoint .conflict
    let _ ← luaLError lib.message lib.handler

-- if (!lua_istable(L, -1))
def openlibFind (lib : OpenlibCalls) : ThrowM PUnit := do
  if !lib.isTable (← get).toThread then
    lib.findtable.run
    openlibConflict lib
    atPoint .stored
    lib.setLoaded.run

def openlibNamed (lib : OpenlibCalls) : ThrowM PUnit := do
  lib.getLoaded.run
  openlibFind lib
  atPoint .registered
  lib.register.run

end Lunatik.Lua
