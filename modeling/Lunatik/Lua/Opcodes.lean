import Lunatik.Lua.Object

/-! # Opcodes (`lopcodes.h`, `lopcodes.c`)

An instruction is a 32-bit word: six bits of opcode, eight of `A`, nine of `C` and nine of
`B`, or eighteen of `Bx`.  A word whose opcode field is not below `NUM_OPCODES` has no
opcode.
-/

namespace Lunatik.Lua

inductive OpCode where
  | move | loadk | loadbool | loadnil | getupval | getglobal | gettable | setglobal | setupval
  | settable | newtable | self | add | sub | mul | div | mod | pow | unm | not | len | concat
  | jmp | eq | lt | le | test | testset | call | tailcall | return | forloop | forprep | tforloop
  | setlist | close | closure | vararg
  deriving DecidableEq, Repr

def opcodes : List OpCode :=
  [.move, .loadk, .loadbool, .loadnil, .getupval, .getglobal, .gettable, .setglobal, .setupval,
    .settable, .newtable, .self, .add, .sub, .mul, .div, .mod, .pow, .unm, .not, .len, .concat,
    .jmp, .eq, .lt, .le, .test, .testset, .call, .tailcall, .return, .forloop, .forprep, .tforloop,
    .setlist, .close, .closure, .vararg]

/-! ## Fields -/

def maxArgSBx : Int := 131071

def getOpcode (i : Instruction) : Option OpCode := opcodes[i.toNat % 64]?
def getargA (i : Instruction) : Nat := i.toNat / 2 ^ 6 % 2 ^ 8
def getargB (i : Instruction) : Nat := i.toNat / 2 ^ 23 % 2 ^ 9
def getargC (i : Instruction) : Nat := i.toNat / 2 ^ 14 % 2 ^ 9
def getargBx (i : Instruction) : Nat := i.toNat / 2 ^ 14 % 2 ^ 18
def getargSBx (i : Instruction) : Int := getargBx i - maxArgSBx

def isK (x : Nat) : Bool := x.testBit 8
def indexK (x : Nat) : Nat := x % 256

-- NO_REG: an invalid register that fits in 8 bits
def noReg : Nat := 255

def lfieldsPerFlush : Nat := 50

/-! ## Modes -/

inductive OpFormat where
  | iABC | iABx | iAsBx
  deriving DecidableEq, Repr

inductive OpArgMask where
  | argN | argU | argR | argK
  deriving DecidableEq, Repr

structure OpModes where
  test : Bool
  setsA : Bool
  b : OpArgMask
  c : OpArgMask
  format : OpFormat
  deriving DecidableEq, Repr

/-- `luaP_opmodes`. -/
def luaPOpmodes : OpCode → OpModes
  | .move => ⟨false, true, .argR, .argN, .iABC⟩
  | .loadk => ⟨false, true, .argK, .argN, .iABx⟩
  | .loadbool => ⟨false, true, .argU, .argU, .iABC⟩
  | .loadnil => ⟨false, true, .argR, .argN, .iABC⟩
  | .getupval => ⟨false, true, .argU, .argN, .iABC⟩
  | .getglobal => ⟨false, true, .argK, .argN, .iABx⟩
  | .gettable => ⟨false, true, .argR, .argK, .iABC⟩
  | .setglobal => ⟨false, false, .argK, .argN, .iABx⟩
  | .setupval => ⟨false, false, .argU, .argN, .iABC⟩
  | .settable => ⟨false, false, .argK, .argK, .iABC⟩
  | .newtable => ⟨false, true, .argU, .argU, .iABC⟩
  | .self => ⟨false, true, .argR, .argK, .iABC⟩
  | .add | .sub | .mul | .div | .mod | .pow => ⟨false, true, .argK, .argK, .iABC⟩
  | .unm | .not | .len => ⟨false, true, .argR, .argN, .iABC⟩
  | .concat => ⟨false, true, .argR, .argR, .iABC⟩
  | .jmp => ⟨false, false, .argR, .argN, .iAsBx⟩
  | .eq | .lt | .le => ⟨true, false, .argK, .argK, .iABC⟩
  | .test | .testset => ⟨true, true, .argR, .argU, .iABC⟩
  | .call | .tailcall => ⟨false, true, .argU, .argU, .iABC⟩
  | .return => ⟨false, false, .argU, .argN, .iABC⟩
  | .forloop | .forprep => ⟨false, true, .argR, .argN, .iAsBx⟩
  | .tforloop => ⟨true, false, .argN, .argU, .iABC⟩
  | .setlist => ⟨false, false, .argU, .argU, .iABC⟩
  | .close => ⟨false, false, .argN, .argN, .iABC⟩
  | .closure => ⟨false, true, .argU, .argN, .iABx⟩
  | .vararg => ⟨false, true, .argU, .argN, .iABC⟩

-- CREATE_ABC, CREATE_ABx
def createABC (op : Nat) (a b c : Nat) : Instruction :=
  BitVec.ofNat 32 (op + a * 2 ^ 6 + c * 2 ^ 14 + b * 2 ^ 23)

def createABx (op : Nat) (a bx : Nat) : Instruction :=
  BitVec.ofNat 32 (op + a * 2 ^ 6 + bx * 2 ^ 14)

end Lunatik.Lua
