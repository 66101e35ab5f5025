import Lunatik.Lua.Opcodes

/-! # Constant folding (`lcode.c`)

Expressions of the compiler are described by `expdesc` until they are needed in a register.
An operator between two numerals is evaluated at once.  `none` is a trap of the division
instruction, in the kernel thread that compiles.
-/

namespace Lunatik.Lua

/-- `expkind`. -/
inductive ExpKind where
  | vvoid | vnil | vtrue | vfalse | vk | vknum | vlocal | vupval | vglobal | vindexed | vjmp
  | vrelocable | vnonreloc | vcall | vvararg
  deriving DecidableEq, Repr

def noJump : Int := -1

/-- `expdesc`; the members of its union are fields. -/
structure Expdesc where
  k : ExpKind
  info : Int
  aux : Int
  nval : LuaNumber
  t : Int
  f : Int
  deriving DecidableEq, Repr

def isnumeral (e : Expdesc) : Bool := e.k == .vknum && e.t == noJump && e.f == noJump

-- the end of constfolding: whether the result stands in `e1` now
def foldTo (e1 : Expdesc) (r : LuaNumber) : Bool × Expdesc :=
  if luaiNumisnan r then (false, e1) else (true, { e1 with nval := r })

def constfolding (op : OpCode) (e1 e2 : Expdesc) : Option (Bool × Expdesc) :=
  if !isnumeral e1 || !isnumeral e2 then some (false, e1)
  else
    let v1 := e1.nval
    let v2 := e2.nval
    match op with
    | .add => some (foldTo e1 (luaiNumadd v1 v2))
    | .sub => some (foldTo e1 (luaiNumsub v1 v2))
    | .mul => some (foldTo e1 (luaiNummul v1 v2))
    | .div =>
      if v2 = 0 then some (false, e1) -- do not attempt to divide by 0
      else (luaiNumdiv v1 v2).map (foldTo e1)
    | .mod =>
      if v2 = 0 then some (false, e1) -- do not attempt to divide by 0
      else (luaiNummod v1 v2).map (foldTo e1)
    | .pow => some (foldTo e1 (luaiNumpow v1 v2))
    | .unm => some (foldTo e1 (luaiNumunm v1))
    | .len => some (false, e1)
    | _ => some (foldTo e1 0)

end Lunatik.Lua
