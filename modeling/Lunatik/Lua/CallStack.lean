import Lunatik.Lua.Call

/-! # The sizes of the stacks (`ldo.c`, `lgc.c`)

What the interpreter's model of a call leaves out: the stack ends somewhere.  A `CallStack` holds the
sizes of a thread's two stacks and the indexes into them, all counted from `L->stack`, and records
every slot that a function of this file writes, with the `stack_last` of that time.

The memory that is asked for is granted: a call that is refused it enters no function.
-/

namespace Lunatik.Lua

def extraStack : Nat := 5
def basicCiSize : Nat := 8
def basicStackSize : Nat := 2 * luaMinstack
def luaiMaxcalls : Nat := 20000

structure StackWrite where
  slot : Nat
  stackLast : Nat
  deriving DecidableEq, Repr

/-- `ciTops` are the tops of the `CallInfo`s in use, `L->ci` first. -/
structure CallStack where
  stacksize : Nat
  stackLast : Nat
  top : Nat
  ciTops : List Nat
  sizeCi : Nat
  writes : List StackWrite
  deriving DecidableEq, Repr

namespace CallStack

variable (s : CallStack)

def luaDReallocstack (newsize : Nat) : CallStack :=
  { s with stacksize := newsize + 1 + extraStack, stackLast := newsize }

def luaDGrowstack (n : Nat) : CallStack :=
  -- double size is enough?
  if n ≤ s.stacksize then s.luaDReallocstack (2 * s.stacksize)
    else s.luaDReallocstack (s.stacksize + n)

-- the difference of the pointers is a signed one
def luaDCheckstack (n : Nat) : CallStack := if s.stackLast ≤ s.top + n then s.luaDGrowstack n else s

def luaDReallocCI (newsize : Nat) : CallStack := { s with sizeCi := newsize }

-- the `n` slots from `start` on
def writeFrom (start n : Nat) : CallStack :=
  { s with writes := s.writes ++ (List.range' start n).map fun slot => ⟨slot, s.stackLast⟩ }

-- setnilvalue(L->top++), as often as this
def pushNils (n : Nat) : CallStack := { s.writeFrom s.top n with top := s.top + n }

/-! ## Garbage collection -/

-- still big enough...
def shrinkCI (ciUsed : Nat) : CallStack :=
  if 4 * ciUsed < s.sizeCi ∧ 2 * basicCiSize < s.sizeCi then s.luaDReallocCI (s.sizeCi / 2) else s

def shrinkStack (sUsed : Nat) : CallStack :=
  if 4 * sUsed < s.stacksize ∧ 2 * (basicStackSize + extraStack) < s.stacksize then
    s.luaDReallocstack (s.stacksize / 2)
  else s

def checkstacksizes (ciUsed sUsed : Nat) : CallStack :=
  -- handling overflow?
  if luaiMaxcalls < s.sizeCi then s else (s.shrinkCI ciUsed).shrinkStack sUsed

-- the end of what the calls may use
def limit : Nat := s.ciTops.foldl max s.top

def traversestack : CallStack := s.checkstacksizes (s.ciTops.length - 1) s.limit

/-- What a step of the collector does to the stacks of the running thread.  It traverses them, or it
    runs a finalizer, which has `calls` of its own and up to `used` slots above the top while it asks
    for room, enters a call, or is itself the one that is traversed. -/
inductive GcStep where
  | traversestack
  | finalizerCheckstack (used n : Nat)
  | finalizerGrowCI
  | finalizerTraversestack (calls used : Nat)
  deriving DecidableEq, Repr

def gcStep : GcStep → CallStack
  | .traversestack => s.traversestack
  | .finalizerCheckstack used n =>
    { { s with top := s.top + used }.luaDCheckstack n with top := s.top }
  | .finalizerGrowCI => s.luaDReallocCI (2 * s.sizeCi)
  | .finalizerTraversestack calls used =>
    s.checkstacksizes (s.ciTops.length - 1 + calls) (max s.limit (s.top + used))

-- one step, or none of it when the threshold is not reached
def luaCCheckGC (gc : List GcStep) : CallStack := gc.foldl gcStep s

/-! ## Entering a function -/

-- the collector runs only for a function that makes an `arg' table
def checkArgGC (gc : List GcStep) (p : Proto) : CallStack :=
  if (p.isVararg &&& varargNeedsarg) != 0 then s.luaCCheckGC gc else s

-- move fixed parameters to final position
def moveFixed (nfixargs actual : Nat) : CallStack :=
  { (s.writeFrom s.top nfixargs).writeFrom (s.top - actual) nfixargs with top := s.top + nfixargs }

-- add `arg' parameter
def pushArgTable (p : Proto) : CallStack :=
  if (p.isVararg &&& varargNeedsarg) != 0 then { s.writeFrom s.top 1 with top := s.top + 1 } else s

-- the stack of adjust_varargs when it places the base, at its top
def varargBase (gc : List GcStep) (p : Proto) (actual : Nat) : CallStack :=
  (s.pushNils (p.numparams.toNat - actual)).checkArgGC gc p

/-- `adjust_varargs`, with the base that it returns. -/
def adjustVarargs (gc : List GcStep) (p : Proto) (actual : Nat) : Nat × CallStack :=
  let s := s.varargBase gc p actual
  (s.top, (s.moveFixed p.numparams.toNat (max actual p.numparams.toNat)).pushArgTable p)

-- the hole for the tag method is opened before the room is asked for
def tryfuncTM (func : Nat) : CallStack :=
  let s := (s.writeFrom (func + 1) (s.top - func)).luaDCheckstack 1
  { s.writeFrom func 1 with top := s.top + 1 }

-- the base of the new function, and the stack with its arguments
def precallBase (gc : List GcStep) (p : Proto) (func : Nat) : Nat × CallStack :=
  if p.isVararg = 0 then (func + 1, { s with top := min s.top (func + 1 + p.numparams.toNat) })
  else s.adjustVarargs gc p (s.top - func - 1)

-- nothing is entered when the `CallInfo`s overflow
def growCI : Option CallStack :=
  if luaiMaxcalls < s.sizeCi then none
  else if luaiMaxcalls < 2 * s.sizeCi then none
  else some (s.luaDReallocCI (2 * s.sizeCi))

def incCi : Option CallStack := if s.ciTops.length = s.sizeCi then s.growCI else some s

-- the room that is asked for, with the value at `func` made a function
def checked (isFunction : Bool) (p : Proto) (func : Nat) : CallStack :=
  (if isFunction then s else s.tryfuncTM func).luaDCheckstack p.maxReg

-- from where `ci->top` is set
def enter (base : Nat) (p : Proto) : CallStack :=
  { s.writeFrom s.top (base + p.maxReg - s.top) with
    top := base + p.maxReg
    ciTops := (base + p.maxReg) :: s.ciTops }

/-- `luaD_precall` of the Lua function `p` at `func`. -/
def luaDPrecall (gc : List GcStep) (isFunction : Bool) (p : Proto) (func : Nat) :
    Option CallStack := do
  let (base, s) := (s.checked isFunction p func).precallBase gc p func
  return (← s.incCi).enter base p

/-- `lua_assert(ci->top <= L->stack_last)`. -/
def ciTopInStack : Bool := s.ciTops.head?.all (· ≤ s.stackLast)

end CallStack

end Lunatik.Lua
