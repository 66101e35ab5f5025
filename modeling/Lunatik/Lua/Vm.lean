import Lunatik.Lua.Metamethods

/-! # The interpreter (`lvm.c`)

`executeOp` is the switch of `luaV_execute`, one case per opcode; `f` holds its local
variables and the saved position is already behind the instruction.  `resume` continues a
caller after `luaD_poscall`, as its `Kont` says.

The borders that `luaH_getn` finds depend on the layout of a table: it is a parameter.
-/

namespace Lunatik.Lua

variable (getn : Table → Nat)

/-! ## Jumps -/

-- dojump(L, pc, n), from `pc`; a position before the code is out of it
def dojump (pc : Nat) (n : Int) : VmM PUnit :=
  let dest := (pc : Int) + n
  if 0 ≤ dest then setPc dest.toNat else throw (.fault .pc)

/-- The end of a test: the jump that follows is taken if `taken`, or skipped. -/
def branch (f : Activation) (taken : Bool) : VmM PUnit := do
  if taken then
    let jump ← f.word f.pc
    dojump (f.pc + 1) (getargSBx jump)
  else setPc (f.pc + 1)

def compareBranch (f : Activation) (i : Instruction) (res : Bool) : VmM PUnit :=
  branch f (res.toNat == getargA i)

def compareOp (f : Activation) (i : Instruction) (res : Option Bool) : VmM PUnit :=
  match res with
  | some res => compareBranch f i res
  | none => return

/-! ## Returning -/

-- the locals of the activation that goes on
def currentActivation : VmM Activation := do
  match (← get).frames with
  | ci :: _ =>
    match ci.code with
    | .lua p pc cl => return { ci, p, pc, cl }
    | .native => throw (.fault .closure)
  | [] => throw (.fault .closure)

-- L->top--; the result of a tag method
def popResult : VmM TValue := do
  let s ← get
  setTop (s.top - 1)
  return s.stack (s.top - 1)

def tforloopResult (f : Activation) (i : Instruction) : VmM PUnit := do
  setTop f.ci.top
  let a := getargA i
  let control ← f.reg (a + 3)
  if control ≠ .nil then
    f.setReg (a + 2) control
    branch f true
  else branch f false

/-- The caller goes on after the call `ci`. -/
def resume (ci : CallInfo) : VmM PUnit := do
  match ci.kont with
  | .native => setMode .native
  | .opCall =>
    let f ← currentActivation
    if ci.nresults ≠ luaMultret then setTop f.ci.top
    match ci.code with
    | .lua .. => setMode .reentry
    | .native => setMode .exec
  | .opTailcall | .tm | .gctm => setMode .exec
  | .tmres res =>
    setMode .exec
    setSlot res (← popResult)
  | .compare i negate =>
    setMode .exec
    let f ← currentActivation
    let res ← popResult
    compareBranch f i (negate != !lIsfalse res)
  | .concat i total last =>
    setMode .exec
    let f ← currentActivation
    f.setReg (last - 1) (← popResult)
    if 1 < total - 1 then luaVConcat f i (total - 1) (total - 1) (last - 1)
    else concatResult f i
  | .tforloop i =>
    setMode .exec
    let f ← currentActivation
    tforloopResult f i

/-! ## Instructions with a loop -/

/-- The loop of OP_SETLIST: values from `ra+n` down to `ra+1` under the keys from `last` down. -/
def setlistLoop (h : Nat) (value : Nat → VmM TValue) : Nat → BitVec 32 → VmM PUnit
  | 0, _ => return
  | n + 1, last => do
    putTable h (.number (last.signExtend 64)) (← value (n + 1))
    setlistLoop h value n (last - 1)

-- the number of values; an open list ends at the top
def setlistLength (f : Activation) (i : Instruction) : VmM Int := do
  if getargB i = 0 then
    let top := (← get).top
    setTop f.ci.top
    return (top : Int) - (f.ci.base + getargA i) - 1
  else return getargB i

-- the block of fields, which may be the next word of the code
def setlistBlock (f : Activation) (i : Instruction) : VmM (BitVec 32) := do
  if getargC i = 0 then
    let c ← f.word f.pc
    setPc (f.pc + 1)
    return c
  else return BitVec.ofNat 32 (getargC i)

def setlistStore (f : Activation) (i : Instruction) (n : Int) (c : BitVec 32) : VmM PUnit := do
  let a := getargA i
  let ra ← f.reg a
  match ra with
  | .table _ =>
    let h ← hvalue ra
    let last := (c - 1) * BitVec.ofNat 32 lfieldsPerFlush + BitVec.ofInt 32 n
    -- an open list is read up to the old top
    let value := fun j => if getargB i = 0 then slot (f.ci.base + a + j) else f.reg (a + j)
    setlistLoop h value n.toNat last
  | _ => return -- runtime_check

def opSetlist (f : Activation) (i : Instruction) : VmM PUnit := do
  let n ← setlistLength f i
  let c ← setlistBlock f i
  setlistStore f i n c

def captureUpval (f : Activation) (i : Instruction) : VmM Nat := do
  if getOpcode i = some .getupval then f.upval (getargB i)
  else
    f.checkRegs (getargB i) 1
    luaFFindupval (f.ci.base + getargB i)

/-- The upvalues of a new closure, from the pseudo-instructions at `pc` on. -/
def captureUpvals (f : Activation) : Nat → Nat → VmM (List Nat)
  | 0, _ => return []
  | nup + 1, pc => do
    let id ← captureUpval f (← f.word pc)
    let ids ← captureUpvals f nup (pc + 1)
    return id :: ids

def opClosure (f : Activation) (i : Instruction) : VmM PUnit := do
  let (p, _, env) ← f.lclosure
  match p.p[getargBx i]? with
  | none => throw (.fault (.proto (getargBx i)))
  | some p =>
    let upvals ← captureUpvals f p.nups.toNat f.pc
    setPc (f.pc + p.nups.toNat)
    let id ← luaFNewLclosure p upvals env
    f.setReg (getargA i) (.function id)

-- `count` values stored by `store`: extra arguments, then nil
def varargLoop (f : Activation) (n : Int) (store : Nat → TValue → VmM PUnit) : Nat → Nat → VmM PUnit
  | 0, _ => return
  | count + 1, j => do
    let extra ← slot ((f.ci.base : Int) - n + j).toNat
    store j (if (j : Int) < n then extra else .nil)
    varargLoop f n store count (j + 1)

def opVararg (f : Activation) (i : Instruction) : VmM PUnit := do
  let a := getargA i
  let b := getargB i
  let (p, _, _) ← f.lclosure
  let n : Int := (f.ci.base : Int) - f.ci.func - p.numparams.toNat - 1
  if b = 0 then
    setTop ((f.ci.base : Int) + a + n).toNat
    varargLoop f n (fun j => setSlot (f.ci.base + a + j)) n.toNat 0
  else varargLoop f n (fun j => f.setReg (a + j)) (b - 1) 0

-- registers from `b` down to `a`, and `b` in any case
def loadnilLoop (f : Activation) (a : Nat) : Nat → Nat → VmM PUnit
  | 0, _ => return
  | rounds + 1, b => do
    f.setReg b .nil
    if a < b then loadnilLoop f a rounds (b - 1)

/-! ## Calls -/

-- L->top = ra+n if B counts the operands, else previous instruction set top
def setOperandTop (f : Activation) (i : Instruction) (n : Nat) : VmM PUnit := do
  if getargB i ≠ 0 then
    f.checkRegs (getargA i) n
    setTop (f.ci.base + getargA i + n)
  else return

def opCall (f : Activation) (i : Instruction) : VmM PUnit := do
  setOperandTop f i (getargB i)
  f.checkRegs (getargA i) (max 1 (getargC i - 1))
  luaDPrecall (f.ci.base + getargA i) ((getargC i : Int) - 1) .opCall

def opTailcall (f : Activation) (i : Instruction) : VmM PUnit := do
  setOperandTop f i (getargB i)
  f.checkRegs (getargA i) 1
  luaDPrecall (f.ci.base + getargA i) luaMultret .opTailcall
  -- put new frame in place of previous one
  if (← get).mode = .reentry then replaceFrame else return

def opReturn (f : Activation) (i : Instruction) : VmM PUnit := do
  setOperandTop f i (getargB i - 1)
  luaFClose f.ci.base
  let ci ← luaDPoscall (f.ci.base + getargA i)
  resume ci

/-! ## Loops of the language -/

def opForloop (f : Activation) (i : Instruction) : VmM PUnit := do
  let a := getargA i
  let step ← nvalue (← f.reg (a + 2))
  let idx := luaiNumadd (← nvalue (← f.reg a)) step
  let limit ← nvalue (← f.reg (a + 1))
  if (if luaiNumlt 0 step then luaiNumle idx limit else luaiNumle limit idx) then
    dojump f.pc (getargSBx i)
    f.setReg a (.number idx)
    f.setReg (a + 3) (.number idx)

-- tonumber(o, ra): a string is replaced by its number
def tonumberAt (f : Activation) (r : Nat) (msg : String) : VmM PUnit := do
  match luaVTonumber (← f.reg r) with
  | some n => f.setReg r (.number n)
  | none => luaGRunerror msg

def opForprep (f : Activation) (i : Instruction) : VmM PUnit := do
  let a := getargA i
  tonumberAt f a "'for' initial value must be a number"
  tonumberAt f (a + 1) "'for' limit must be a number"
  tonumberAt f (a + 2) "'for' step must be a number"
  let init ← nvalue (← f.reg a)
  let step ← nvalue (← f.reg (a + 2))
  f.setReg a (.number (luaiNumsub init step))
  dojump f.pc (getargSBx i)

def opTforloop (f : Activation) (i : Instruction) : VmM PUnit := do
  let a := getargA i
  f.setReg (a + 5) (← f.reg (a + 2))
  f.setReg (a + 4) (← f.reg (a + 1))
  f.setReg (a + 3) (← f.reg a)
  setTop (f.ci.base + a + 6)
  f.checkRegs (a + 3) (getargC i)
  luaDCall (f.ci.base + a + 3) (getargC i) (.tforloop i)

/-! ## The switch -/

def opLen (f : Activation) (i : Instruction) : VmM PUnit := do
  let rb ← f.reg (getargB i)
  match rb with
  | .table _ =>
    let h ← hvalue rb
    f.setReg (getargA i) (.number (BitVec.ofNat 64 (getn ((← get).heap.tables h))))
  | .string _ =>
    let s ← rawtsvalue rb
    f.setReg (getargA i) (.number (BitVec.ofNat 64 s.length))
  | _ =>
    if ← callBinTM rb .nil (.tmres (f.ci.base + getargA i)) .len then return
    else luaGTyperror rb "get length of"

def opArith (f : Activation) (i : Instruction) (op : ArithOp) : VmM PUnit := do
  arithOp f (getargA i) (← f.rk (getargB i)) (← f.rk (getargC i)) op

def opUnm (f : Activation) (i : Instruction) : VmM PUnit := do
  let rb ← f.reg (getargB i)
  match rb with
  | .number _ => f.setReg (getargA i) (.number (luaiNumunm (← nvalue rb)))
  | _ => arith f (getargA i) rb rb .unm

-- luaV_gettable with the result in a register
def gettableTo (f : Activation) (t key : TValue) (a : Nat) : VmM PUnit := do
  f.checkRegs a 1
  luaVGettable key (f.ci.base + a) maxtagloop t

def executeOp (f : Activation) (i : Instruction) : OpCode → VmM PUnit
  | .move => do f.setReg (getargA i) (← f.reg (getargB i))
  | .loadk => do f.setReg (getargA i) (← f.kst (getargBx i))
  | .loadbool => do
    f.setReg (getargA i) (.boolean (getargB i))
    if getargC i ≠ 0 then setPc (f.pc + 1)
  | .loadnil => loadnilLoop f (getargA i) (getargB i + 1) (getargB i)
  | .getupval => do f.setReg (getargA i) (← upvalGet (← f.upval (getargB i)))
  | .getglobal => do
    let key ← f.kst (getargBx i)
    let (_, _, env) ← f.lclosure
    gettableTo f (.table env) key (getargA i)
  | .gettable => do gettableTo f (← f.reg (getargB i)) (← f.rk (getargC i)) (getargA i)
  | .setglobal => do
    let key ← f.kst (getargBx i)
    let (_, _, env) ← f.lclosure
    luaVSettable key (← f.reg (getargA i)) maxtagloop (.table env)
  | .setupval => do
    let uv ← f.upval (getargB i)
    upvalSet uv (← f.reg (getargA i))
  | .settable => do
    let t ← f.reg (getargA i)
    luaVSettable (← f.rk (getargB i)) (← f.rk (getargC i)) maxtagloop t
  | .newtable => do
    let h ← luaHNew newTable
    f.setReg (getargA i) (.table h)
  | .self => do
    let rb ← f.reg (getargB i)
    f.setReg (getargA i + 1) rb
    gettableTo f rb (← f.rk (getargC i)) (getargA i)
  | .add => opArith f i .add
  | .sub => opArith f i .sub
  | .mul => opArith f i .mul
  | .div => opArith f i .div
  | .mod => opArith f i .mod
  | .pow => opArith f i .pow
  | .unm => opUnm f i
  | .not => do f.setReg (getargA i) (.boolean (lIsfalse (← f.reg (getargB i))).toNat)
  | .len => opLen getn f i
  | .concat =>
    let total := getargC i - getargB i + 1
    luaVConcat f i total total (getargC i)
  | .jmp => dojump f.pc (getargSBx i)
  | .eq => do compareOp f i (← equalobj i (← f.rk (getargB i)) (← f.rk (getargC i)))
  | .lt => do compareOp f i (← luaVLessthan i (← f.rk (getargB i)) (← f.rk (getargC i)))
  | .le => do compareOp f i (← lessequal i (← f.rk (getargB i)) (← f.rk (getargC i)))
  | .test => do branch f ((lIsfalse (← f.reg (getargA i))).toNat != getargC i)
  | .testset => do
    let rb ← f.reg (getargB i)
    if (lIsfalse rb).toNat != getargC i then
      f.setReg (getargA i) rb
      branch f true
    else branch f false
  | .call => opCall f i
  | .tailcall => opTailcall f i
  | .return => opReturn f i
  | .forloop => opForloop f i
  | .forprep => opForprep f i
  | .tforloop => opTforloop f i
  | .setlist => opSetlist f i
  | .close => luaFClose (f.ci.base + getargA i)
  | .closure => opClosure f i
  | .vararg => opVararg f i

-- a position that holds the count of the SETLIST before it
def countWord (pt : Proto) : Nat → Bool
  | 0 => false
  | pc + 1 => !countWord pt pc && looksCounted (pt.codeAt pc)

/-- `i = *pc++`. -/
def fetch (f : Activation) : VmM Instruction := do
  let i ← f.word f.pc
  if countWord f.p f.pc then throw (.fault .countWord)
  setPc (f.pc + 1)
  return i

/-- One round of the main loop of `luaV_execute`. -/
def execute : VmM PUnit := do
  let f ← currentActivation
  let i ← fetch f
  match getOpcode i with
  | some op => executeOp getn { f with pc := f.pc + 1 } i op
  | none => return -- the switch has no default

/-- `reentry`: `cl` is read from the stack. -/
def reentry : VmM PUnit := do
  let s ← get
  match s.frames with
  | ci :: rest =>
    match ci.code, s.stack ci.func with
    | .lua p pc _, .function cl =>
      match s.heap.closures cl with
      | .lua .. => set { s with frames := { ci with code := .lua p pc cl } :: rest, mode := .exec }
      | .c .. => throw (.fault .closure)
    | _, _ => throw (.fault .closure)
  | [] => throw (.fault .closure)

/-! ## Runs -/

/-- What happens next.  `exec` is a move of the interpreter; the other moves are those of the
    C code around it. -/
inductive Act where
  | exec
  -- a C function works on the shared state
  | touch (mem : Shared)
  -- it calls a function
  | call (func : Nat) (nresults : Int)
  -- it returns its last `n` values
  | ret (n : Nat)
  | raise (e : VmError)
  -- memory, stack or call depth is exhausted
  | refuse
  -- luaD_pcall: `drop` calls are gone, the state is what it leaves
  | catch (drop : Nat) (mem : Shared)
  -- GCTM between two instructions
  | finalize (tm udata : TValue)

-- a piece of C code run to its end
def runVm (m : VmM PUnit) (s : LuaState) : LuaState :=
  match m s with
  | .ok _ s => s
  | .error (.error e) s => { s with mode := .raised e }
  | .error (.fault f) s => { s with mode := .faulted f }

def gctm (tm udata : TValue) : VmM PUnit := do
  push tm
  push udata
  luaDCall ((← get).top - 2) 0 .gctm

def nativeReturn (n : Nat) : VmM PUnit := do
  let ci ← luaDPoscall ((← get).top - n)
  resume ci

def CallInfo.isNative (ci : CallInfo) : Bool :=
  match ci.code with
  | .native => true
  | .lua .. => false

def catchError (s : LuaState) (drop : Nat) (mem : Shared) : Option LuaState :=
  match s.frames.drop drop with
  | ci :: rest =>
    if ci.isNative then some { toShared := mem, frames := ci :: rest, mode := .native } else none
  | [] => none

def vmStep (s : LuaState) : Act → Option LuaState
  | .exec =>
    match s.mode with
    | .exec => some (runVm (execute getn) s)
    | .reentry => some (runVm reentry s)
    | _ => none
  | .touch mem => if s.mode = .native then some { s with toShared := mem } else none
  | .call func nresults =>
    if s.mode = .native then some (runVm (luaDCall func nresults .native) s) else none
  | .ret n =>
    if s.mode = .native ∧ 2 ≤ s.frames.length then some (runVm (nativeReturn n) s) else none
  | .raise e => if s.mode = .native then some { s with mode := .raised e } else none
  | .refuse => if s.mode = .exec ∨ s.mode = .reentry ∨ s.mode = .native then
    some { s with mode := .refused } else none
  | .catch drop mem =>
    match s.mode with
    | .raised _ | .refused => catchError s drop mem
    | _ => none
  | .finalize tm udata => if s.mode = .exec then some (runVm (gctm tm udata) s) else none

/-! ## A loaded chunk (`ldo.c`) -/

def newUpvals (h : Heap) (n : Nat) : Heap :=
  { h with
    upvals := fun id => if h.nextUpval ≤ id ∧ id < h.nextUpval + n then
      .closed .nil else h.upvals id
    nextUpval := h.nextUpval + n }

/-- `f_parser`, after the chunk was read: a closure with upvalues of its own. -/
def fParser (h : Heap) (p : Proto) (env : Nat) : Heap :=
  (newUpvals h p.nups.toNat).addClosure (.lua p
    ((List.range p.nups.toNat).map (h.nextUpval + ·)) env)

-- `stack_init`
def baseCi : CallInfo :=
  { func := 0, base := 1, top := 1 + luaMinstack, nresults := 0, kont := .native, code := .native }

/-- The loaded function and arguments for it are on the stack of a fresh thread. -/
def started (h : Heap) (p : Proto) (env : Nat) (args : List TValue) : LuaState :=
  { stack := fun j => (TValue.nil :: .function h.nextClosure :: args).getD j .nil
    top := 2 + args.length
    heap := fParser h p env
    openupval := []
    frames := [baseCi]
    mode := .native }

end Lunatik.Lua
