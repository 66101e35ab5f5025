import Lunatik.Lua.CheckCode

/-! # Threads and their call stack (`lstate.h`, `lfunc.c`)

A thread is its stack, the objects on the heap, the list of open upvalues and the stack of
`CallInfo`.  A stack slot is an index, so reallocation is invisible, and the stack has no
end: the memory that `luaD_checkstack` asks for is granted or the call is refused.

The interpreter is one machine.  Where the source calls `luaD_call` from C code and goes on
after it (a tag method in the middle of an instruction, a call from a library function), the
new `CallInfo` records as its `Kont` what has to be done when it returns.

Every access that the source makes without a test of its own is monitored: an access that
would leave its array or read the wrong member of a union stops the machine with a `Fault`.
-/

namespace Lunatik.Lua

/-! ## Outcomes -/

inductive Fault where
  | pc
  | countWord
  | register (r : Nat)
  | constant (j : Nat)
  | nullString
  | upvalue (b : Nat)
  | proto (b : Nat)
  | tag
  | closure
  | divide
  | block (i : Nat)
  deriving DecidableEq, Repr

inductive VmError where
  | typeerror (o : TValue) (op : String)
  | concaterror (p1 p2 : TValue)
  | aritherror (p1 p2 : TValue)
  | ordererror (p1 p2 : TValue)
  | runerror (msg : String)
  deriving DecidableEq, Repr

inductive Stop where
  | fault (f : Fault)
  | error (e : VmError)
  deriving DecidableEq, Repr

/-! ## Call stack -/

/-- What is left to do in the caller when a function returns. -/
inductive Kont where
  -- OP_CALL, in the same activation of luaV_execute
  | opCall
  -- OP_TAILCALL of a C function
  | opTailcall
  -- callTMres(L, res, ...)
  | tmres (res : Nat)
  -- callTM(L, ...)
  | tm
  -- a tag method that decides the comparison `i`
  | compare (i : Instruction) (negate : Bool)
  -- a tag method in the loop of luaV_concat
  | concat (i : Instruction) (total last : Nat)
  | tforloop (i : Instruction)
  -- lua_call and lua_pcall in a C function
  | native
  -- GCTM
  | gctm
  deriving DecidableEq, Repr

/-- The running code: a position in the code of a prototype, with the closure that
    `luaV_execute` found when it entered the function, or a C function. -/
inductive Code where
  | lua (p : Proto) (pc : Nat) (cl : Nat)
  | native

structure CallInfo where
  func : Nat
  base : Nat
  top : Nat
  nresults : Int
  kont : Kont
  code : Code

inductive Mode where
  | reentry
  | exec
  | native
  | raised (e : VmError)
  | refused
  | faulted (f : Fault)
  deriving DecidableEq, Repr

-- what Lua and C code share
structure Shared where
  stack : Nat → TValue
  top : Nat
  heap : Heap
  openupval : List Nat

structure LuaState extends Shared where
  -- L->ci first
  frames : List CallInfo
  mode : Mode

abbrev VmM := EStateM Stop LuaState

def luaMultret : Int := -1

def luaMinstack : Nat := 20

def raiseError {α : Type} (e : VmError) : VmM α := throw (.error e)

def luaGTyperror {α : Type} (o : TValue) (op : String) : VmM α := raiseError (.typeerror o op)

def luaGRunerror {α : Type} (msg : String) : VmM α := raiseError (.runerror msg)

/-! ## Stack and heap -/

def slot (n : Nat) : VmM TValue := do return (← get).stack n

def setSlot (n : Nat) (v : TValue) : VmM PUnit :=
  modify fun s => { s with stack := setAt s.stack n v }

def setTop (n : Nat) : VmM PUnit := modify fun s => { s with top := n }

def setHeap (h : Heap) : VmM PUnit := modify fun s => { s with heap := h }

def setMode (m : Mode) : VmM PUnit := modify fun s => { s with mode := m }

-- setobj2s(L, L->top, v); L->top++
def push (v : TValue) : VmM PUnit :=
  modify fun s => { s with stack := setAt s.stack s.top v, top := s.top + 1 }

-- the position in the code of the running function
def CallInfo.atPc (ci : CallInfo) (pc : Nat) : CallInfo :=
  match ci.code with
  | .lua p _ cl => { ci with code := .lua p pc cl }
  | .native => ci

def setPc (pc : Nat) : VmM PUnit := modify fun s =>
  match s.frames with
  | ci :: rest => { s with frames := ci.atPc pc :: rest }
  | [] => s

/-! ## Monitored accesses -/

def nvalue : TValue → VmM LuaNumber
  | .number n => return n
  | _ => throw (.fault .tag)

def hvalue : TValue → VmM Nat
  | .table h => return h
  | _ => throw (.fault .tag)

def rawtsvalue : TValue → VmM (List UInt8)
  | .string s => return s
  | _ => throw (.fault .tag)

/-- The local variables of `luaV_execute`: `ci`, the code that `pc` points into, `pc` after
    the increment, and `cl`. -/
structure Activation where
  ci : CallInfo
  p : Proto
  pc : Nat
  cl : Nat

namespace Activation

variable (f : Activation)

def reg (r : Nat) : VmM TValue :=
  if r < f.p.maxReg then slot (f.ci.base + r) else throw (.fault (.register r))

def setReg (r : Nat) (v : TValue) : VmM PUnit :=
  if r < f.p.maxReg then setSlot (f.ci.base + r) v else throw (.fault (.register r))

variable {f} in
theorem reg_run {r : Nat} (bound : r < f.p.maxReg) (s : LuaState) :
    f.reg r s = .ok (s.stack (f.ci.base + r)) s := by
  rw [reg, if_pos bound]
  rfl

variable {f} in
theorem setReg_run {r : Nat} (bound : r < f.p.maxReg) (v : TValue) (s : LuaState) :
    f.setReg r v s = .ok ⟨⟩ { s with stack := setAt s.stack (f.ci.base + r) v } := by
  rw [setReg, if_pos bound]
  rfl

-- the registers from `a` on that an operand counts
def checkRegs (a n : Nat) : VmM PUnit :=
  if a + n ≤ f.p.maxReg then return else throw (.fault (.register (a + n - 1)))

-- *pc
def word (pc : Nat) : VmM Instruction :=
  match f.p.code[pc]? with
  | some i => return i
  | none => throw (.fault .pc)

def lclosure : VmM (Proto × List Nat × Nat) := do
  match (← get).heap.closures f.cl with
  | .lua p upvals env => return (p, upvals, env)
  | .c .. => throw (.fault .closure)

def kst (j : Nat) : VmM TValue := do
  let (p, _, _) ← f.lclosure
  match p.k[j]? with
  | some .nil => return .nil
  | some (.boolean b) => return .boolean b.toNat
  | some (.number n) => return .number n
  | some (.string (some s)) => return .string s
  | some (.string none) => throw (.fault .nullString)
  | none => throw (.fault (.constant j))

def rk (x : Nat) : VmM TValue := if isK x then f.kst (indexK x) else f.reg x

-- cl->upvals[b]
def upval (b : Nat) : VmM Nat := do
  let (_, upvals, _) ← f.lclosure
  match upvals[b]? with
  | some id => return id
  | none => throw (.fault (.upvalue b))

end Activation

/-! ## Upvalues -/

-- *uv->v
def upvalGet (id : Nat) : VmM TValue := do
  match (← get).heap.upvals id with
  | .openAt n => slot n
  | .closed v => return v

def upvalSet (id : Nat) (v : TValue) : VmM PUnit := do
  let s ← get
  match s.heap.upvals id with
  | .openAt n => setSlot n v
  | .closed _ => setHeap { s.heap with upvals := setAt s.heap.upvals id (.closed v) }

-- where an open upvalue points; the others are not on the list
def UpVal.level : UpVal → Nat
  | .openAt n => n
  | .closed _ => 0

/-- The search of `luaF_findupval`: the list is sorted by level, highest first. -/
def findOpen (heap : Heap) (level : Nat) : List Nat → Option Nat
  | [] => none
  | id :: rest =>
    let v := (heap.upvals id).level
    if level ≤ v then if v = level then some id else findOpen heap level rest
    else none

-- chain it in the proper position
def linkOpen (heap : Heap) (level new : Nat) : List Nat → List Nat
  | [] => [new]
  | id :: rest =>
    if level ≤ (heap.upvals id).level then id :: linkOpen heap level new rest
    else new :: id :: rest

def luaFFindupval (level : Nat) : VmM Nat := do
  let s ← get
  match findOpen s.heap level s.openupval with
  | some id => return id
  | none =>
    let id := s.heap.nextUpval
    set { s with
      heap := { s.heap with upvals := setAt s.heap.upvals id (.openAt level), nextUpval := id + 1 }
      openupval := linkOpen s.heap level id s.openupval }
    return id

def closeOpen (stack : Nat → TValue) (level : Nat) : List Nat → Heap → List Nat × Heap
  | [], heap => ([], heap)
  | id :: rest, heap =>
    let v := (heap.upvals id).level
    if level ≤ v then
      closeOpen stack level rest { heap with upvals := setAt heap.upvals id (.closed (stack v)) }
    else (id :: rest, heap)

def luaFClose (level : Nat) : VmM PUnit := modify fun s =>
  let (openupval, heap) := closeOpen s.stack level s.openupval s.heap
  { s with heap, openupval }

def Heap.addClosure (h : Heap) (c : Closure) : Heap :=
  { h with closures := setAt h.closures h.nextClosure c, nextClosure := h.nextClosure + 1 }

@[simp] theorem Heap.addClosure_closures (h : Heap) (c : Closure) :
    (h.addClosure c).closures = setAt h.closures h.nextClosure c := rfl

@[simp] theorem Heap.addClosure_nextClosure (h : Heap) (c : Closure) :
    (h.addClosure c).nextClosure = h.nextClosure + 1 := rfl

/-- `luaF_newLclosure`, with its upvalues. -/
def luaFNewLclosure (p : Proto) (upvals : List Nat) (env : Nat) : VmM Nat := do
  let s ← get
  setHeap (s.heap.addClosure (.lua p upvals env))
  return s.heap.nextClosure

end Lunatik.Lua
