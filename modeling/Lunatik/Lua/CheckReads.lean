import Lunatik.Lua.CheckCode

/-! # What the verifier reads (`ldebug.c`)

`symbexec` once more, with every access to an array of the prototype or to `luaP_opmodes` entered in a log.
An access that is out of range gives some value and is in the log all the same.  The instructions that read
nothing but themselves are left to `symbexecOp`.

`pc` is an `int`, and sums with it wrap.
-/

namespace Lunatik.Lua.CheckReads

open Lunatik.Lua

/-- `pt->code[i]`, `pt->k[i]`, `pt->p[i]` and `luaP_opmodes[op]`. -/
inductive Access where
  | code (i : Int)
  | k (i : Nat)
  | p (i : Nat)
  | opmodes (op : Nat)
  deriving DecidableEq, Repr

inductive Stop where
  -- a `check` has failed
  | rejected
  | outOfFuel
  deriving DecidableEq, Repr

abbrev CheckM := EStateM Stop (List Access)

def access (a : Access) : CheckM PUnit := modify (· ++ [a])

def verify (c : Bool) : CheckM PUnit := if c then pure ⟨⟩ else throw .rejected

-- where nothing is read
def quiet {α : Type} : Option α → CheckM α
  | some a => pure a
  | none => throw .rejected

def int32 (x : Int) : Int := (x + 2 ^ 31) % 2 ^ 32 - 2 ^ 31

def readCode (pt : Proto) (i : Int) : CheckM Instruction := do
  access (.code i)
  return pt.codeAt i.toNat

def precheck (pt : Proto) : CheckM PUnit := do
  verify (pt.maxReg ≤ maxstack)
  verify (pt.numparams.toNat + (pt.isVararg &&& varargHasarg).toNat ≤ pt.maxReg)
  verify ((pt.isVararg &&& varargNeedsarg) == 0 || (pt.isVararg &&& varargHasarg) != 0)
  verify (pt.upvalues.length ≤ pt.nups.toNat)
  verify (pt.lineinfo.length == pt.sizecode || pt.lineinfo.length == 0)
  verify (0 < pt.sizecode)
  let i ← readCode pt (pt.sizecode - 1)
  verify (getOpcode i == some .return)

-- getOpMode(op) and the other fields of luaP_opmodes[op], after check(op < NUM_OPCODES)
def readModes (i : Instruction) : CheckM (OpCode × OpModes) := do
  let n := i.toNat % 64
  verify (n < opcodes.length)
  access (.opmodes n)
  let op ← quiet opcodes[n]?
  return (op, luaPOpmodes op)

/-- The loop that goes back over what looks like counted SETLISTs. -/
def setlistsBefore (pt : Proto) : Nat → CheckM Nat
  | 0 => return 0
  | dest + 1 => do
    let d ← readCode pt dest
    if looksCounted d then return (← setlistsBefore pt dest) + 1 else return 0

def checkJump (pt : Proto) (pc : Nat) (sbx : Int) : CheckM PUnit := do
  let dest := int32 (pc + 1 + sbx)
  verify (0 ≤ dest && dest < pt.sizecode)
  if 0 < dest then
    let j ← setlistsBefore pt dest.toNat
    verify (j % 2 == 0)

def checkOperands (pt : Proto) (pc : Nat) (i : Instruction) (modes : OpModes) : CheckM PUnit :=
  match modes.format with
  | .iAsBx => if modes.b = .argR then checkJump pt pc (getargSBx i) else pure ⟨⟩
  | _ => verify (Lua.checkOperands pt pc i modes)

-- checkopenop(pt, pc)
def checkopenop (pt : Proto) (pc : Nat) : CheckM PUnit := do
  let i ← readCode pt (pc + 1)
  verify (luaGCheckopenop i)

/-- The pseudo-instructions behind a CLOSURE. -/
def checkPseudo (pt : Proto) (pc : Nat) : List Nat → CheckM PUnit
  | [] => return
  | j :: rest => do
    let i ← readCode pt (int32 (pc + j))
    verify (isPseudo i)
    checkPseudo pt pc rest

def symbexecOp (pt : Proto) (lastpc reg : Nat) (i : Instruction) (op : OpCode) (pc last : Nat) :
    CheckM (Nat × Nat) :=
  let a := getargA i
  let b := getargB i
  let c := getargC i
  match op with
  | .loadbool => do
    if c == 1 then
      verify (int32 (pc + 2) < pt.sizecode)
      let next ← readCode pt (pc + 1)
      verify (!looksCounted next)
    return (pc, last)
  | .getglobal | .setglobal => do
    access (.k (getargBx i))
    verify (isStringConstant pt (getargBx i))
    return (pc, last)
  | .call | .tailcall => do
    if b ≠ 0 then verify (a + b - 1 < pt.maxReg)
    if c = 0 then checkopenop pt pc
    else if c ≠ 1 then verify (a + c - 2 < pt.maxReg)
    return (pc, if a ≤ reg then pc else last)
  | .closure => do
    verify (getargBx i < pt.sizep)
    access (.p (getargBx i))
    let nup := nupsOf pt (getargBx i)
    verify (int32 (pc + nup) < pt.sizecode)
    checkPseudo pt pc (List.range' 1 nup)
    return (if reg = noReg then pc else pc + nup, last)
  | .vararg => do
    verify ((pt.isVararg &&& varargIsvararg) != 0 && (pt.isVararg &&& varargNeedsarg) == 0)
    if b = 0 then checkopenop pt pc
    verify (a + b < pt.maxReg + 2)
    return (pc, last)
  | _ => quiet (Lua.symbexecOp pt lastpc reg i op pc last)

def symbexecStep (pt : Proto) (lastpc reg pc last : Nat) : CheckM (Nat × Nat) := do
  let i ← readCode pt pc
  let (op, modes) ← readModes i
  verify (getargA i < pt.maxReg)
  checkOperands pt pc i modes
  let last := if modes.setsA ∧ getargA i = reg then pc else last
  if modes.test then
    verify (int32 (pc + 2) < pt.sizecode)
    let next ← readCode pt (pc + 1)
    verify (getOpcode next == some .jmp)
  let (pc, last) ← symbexecOp pt lastpc reg i op pc last
  return (pc + 1, last)

def symbexecLoop (pt : Proto) (lastpc reg : Nat) : Nat → Nat → Nat → CheckM Nat
  | 0, pc, last => if pc < lastpc then throw .outOfFuel else return last
  | rounds + 1, pc, last => do
    if pc < lastpc then
      let (pc, last) ← symbexecStep pt lastpc reg pc last
      symbexecLoop pt lastpc reg rounds pc last
    else return last

def symbexec (pt : Proto) (lastpc reg : Nat) : CheckM Instruction := do
  precheck pt
  let last ← symbexecLoop pt lastpc reg lastpc 0 (pt.sizecode - 1)
  readCode pt last

/-- `luaG_checkcode`, with what it has read; a failed `check` returns 0. -/
def luaGCheckcode (pt : Proto) : Option Bool × List Access :=
  match symbexec pt pt.sizecode noReg [] with
  | .ok i reads => (some (i != 0), reads)
  | .error .rejected reads => (some false, reads)
  | .error .outOfFuel reads => (none, reads)

end Lunatik.Lua.CheckReads
