import Lunatik.Lua.Opcodes

/-! # The bytecode verifier (`ldebug.c`)

`symbexec` walks over the code of a function once.  It is used in two ways: to find the
last instruction that changed a register (for error messages), and with `reg = NO_REG` as
the verifier `luaG_checkcode`.  A failed `check` makes it return 0.
-/

namespace Lunatik.Lua

-- a `check` of the source
def check (c : Bool) : Option PUnit := if c then some ⟨⟩ else none

@[simp] theorem check_eq_some {c : Bool} {u : PUnit} : check c = some u ↔ c = true := by
  cases c <;> simp [check]

def maxstack : Nat := 250

namespace Proto

def codeAt (pt : Proto) (pc : Nat) : Instruction := pt.code.getD pc 0

def maxReg (pt : Proto) : Nat := pt.maxstacksize.toNat

end Proto

def precheck (pt : Proto) : Bool :=
  pt.maxReg ≤ maxstack &&
  pt.numparams.toNat + (pt.isVararg &&& varargHasarg).toNat ≤ pt.maxReg &&
  ((pt.isVararg &&& varargNeedsarg) == 0 || (pt.isVararg &&& varargHasarg) != 0) &&
  pt.upvalues.length ≤ pt.nups.toNat &&
  (pt.lineinfo.length == pt.sizecode || pt.lineinfo.length == 0) &&
  (0 < pt.sizecode && getOpcode (pt.codeAt (pt.sizecode - 1)) == some .return)

def luaGCheckopenop (i : Instruction) : Bool :=
  match getOpcode i with
  | some .call | some .tailcall | some .return | some .setlist => getargB i == 0
  | _ => false

def checkArgMode (pt : Proto) (r : Nat) : OpArgMask → Bool
  | .argN => r == 0
  | .argU => true
  | .argR => r < pt.maxReg
  | .argK => if isK r then indexK r < pt.sizek else r < pt.maxReg

-- a SETLIST whose count is the next word, to all appearances
def looksCounted (i : Instruction) : Bool := getOpcode i == some .setlist && getargC i == 0

/-- The number of words in front of `dest` that look like a counted SETLIST. -/
def setlistsBefore (pt : Proto) : Nat → Nat
  | 0 => 0
  | dest + 1 => if looksCounted (pt.codeAt dest) then setlistsBefore pt dest + 1 else 0

/-- A jump from `pc` by `sbx` stays in the code and does not land on the count of a SETLIST. -/
def checkJump (pt : Proto) (pc : Nat) (sbx : Int) : Bool :=
  let dest := (pc : Int) + 1 + sbx
  0 ≤ dest && dest < pt.sizecode && setlistsBefore pt dest.toNat % 2 == 0

-- the switch on the instruction format
def checkOperands (pt : Proto) (pc : Nat) (i : Instruction) (modes : OpModes) : Bool :=
  match modes.format with
  | .iABC => checkArgMode pt (getargB i) modes.b && checkArgMode pt (getargC i) modes.c
  | .iABx => if modes.b = .argK then getargBx i < pt.sizek else true
  | .iAsBx => if modes.b = .argR then checkJump pt pc (getargSBx i) else true

def isStringConstant (pt : Proto) (b : Nat) : Bool :=
  match pt.k[b]? with
  | some (.string _) => true
  | _ => false

def nupsOf (pt : Proto) (b : Nat) : Nat := (pt.p[b]?.map fun p => p.nups.toNat).getD 0

def isPseudo (i : Instruction) : Bool := getOpcode i == some .getupval || getOpcode i == some .move

/-- The switch on the opcode: the position after it and the last change of `reg`. -/
def symbexecOp (pt : Proto) (lastpc reg : Nat) (i : Instruction) (op : OpCode) (pc last : Nat) :
    Option (Nat × Nat) :=
  let a := getargA i
  let b := getargB i
  let c := getargC i
  match op with
  | .loadbool => do
    if c == 1 then
      check (pc + 2 < pt.sizecode)
      check (!looksCounted (pt.codeAt (pc + 1)))
    return (pc, last)
  | .loadnil => some (pc, if a ≤ reg ∧ reg ≤ b then pc else last)
  | .getupval | .setupval => do
    check (b < pt.nups.toNat)
    return (pc, last)
  | .getglobal | .setglobal => do
    check (isStringConstant pt (getargBx i))
    return (pc, last)
  | .self => do
    check (a + 1 < pt.maxReg)
    return (pc, if reg = a + 1 then pc else last)
  | .concat => do
    check (b < c)
    return (pc, last)
  | .tforloop => do
    check (1 ≤ c)
    check (a + 2 + c < pt.maxReg)
    return (pc, if a + 2 ≤ reg then pc else last)
  | .forloop | .forprep | .jmp => do
    if op ≠ .jmp then check (a + 3 < pt.maxReg)
    let dest := (pc : Int) + 1 + getargSBx i
    -- not full check and jump is forward and do not skip `lastpc'?
    if reg ≠ noReg ∧ (pc : Int) < dest ∧ dest ≤ lastpc then return ((dest - 1).toNat, last)
    else return (pc, last)
  | .call | .tailcall => do
    if b ≠ 0 then check (a + b - 1 < pt.maxReg)
    if c = 0 then check (luaGCheckopenop (pt.codeAt (pc + 1)))
    else if c ≠ 1 then check (a + c - 2 < pt.maxReg)
    return (pc, if a ≤ reg then pc else last)
  | .return => do
    if 1 < b then check (a + b - 2 < pt.maxReg)
    return (pc, last)
  | .setlist => do
    if 0 < b then check (a + b < pt.maxReg)
    if c = 0 then
      check (pc + 1 < pt.sizecode - 1)
      return (pc + 1, last)
    else return (pc, last)
  | .closure => do
    check (getargBx i < pt.sizep)
    let nup := nupsOf pt (getargBx i)
    check (pc + nup < pt.sizecode)
    check ((List.range nup).all fun j => isPseudo (pt.codeAt (pc + 1 + j)))
    return (if reg = noReg then pc else pc + nup, last)
  | .vararg => do
    check ((pt.isVararg &&& varargIsvararg) != 0 && (pt.isVararg &&& varargNeedsarg) == 0)
    if b = 0 then check (luaGCheckopenop (pt.codeAt (pc + 1)))
    check (a + b < pt.maxReg + 2)
    return (pc, last)
  | _ => some (pc, last)

/-- One round of the loop of `symbexec`, `pc++` included. -/
def symbexecStep (pt : Proto) (lastpc reg : Nat) (pc last : Nat) : Option (Nat × Nat) := do
  let i := pt.codeAt pc
  let op ← getOpcode i
  let modes := luaPOpmodes op
  check (getargA i < pt.maxReg)
  check (checkOperands pt pc i modes)
  let last := if modes.setsA ∧ getargA i = reg then pc else last
  if modes.test then
    check (pc + 2 < pt.sizecode)
    check (getOpcode (pt.codeAt (pc + 1)) == some .jmp)
  let (pc, last) ← symbexecOp pt lastpc reg i op pc last
  return (pc + 1, last)

/-- Every round moves forward, so `lastpc` rounds are enough. -/
def symbexecLoop (pt : Proto) (lastpc reg : Nat) : Nat → Nat → Nat → Option Nat
  | 0, _, last => some last
  | rounds + 1, pc, last =>
    if pc < lastpc then
      match symbexecStep pt lastpc reg pc last with
      | some (pc, last) => symbexecLoop pt lastpc reg rounds pc last
      | none => none
    else some last

def symbexec (pt : Proto) (lastpc reg : Nat) : Instruction :=
  if precheck pt then
    match symbexecLoop pt lastpc reg lastpc 0 (pt.sizecode - 1) with
    | some last => pt.codeAt last
    | none => 0
  else 0

def luaGCheckcode (pt : Proto) : Bool := symbexec pt pt.sizecode noReg != 0

end Lunatik.Lua
