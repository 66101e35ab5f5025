import Lunatik.Lua.Undump

/-! # Saving precompiled chunks (`ldump.c`)

What `luaU_dump` hands to a writer that takes everything.  The fields of a function come in
the order in which `LoadFunction` reads them.
-/

namespace Lunatik.Lua

open Lunatik.Kernel

/-! ## Primitive types -/

def dumpChar (y : UInt8) : List UInt8 := [y]

def dumpInt (x : Nat) : List UInt8 := littleEndian 4 x

def dumpNumber (x : LuaNumber) : List UInt8 := littleEndian 8 x.toNat

-- a vector of 32-bit integers
def dumpVector (b : List (BitVec 32)) : List UInt8 :=
  dumpInt b.length ++ b.flatMap fun w => littleEndian 4 w.toNat

def dumpString : Option (List UInt8) → List UInt8
  | none => littleEndian 8 0
  -- include trailing '\0'
  | some s => littleEndian 8 (s.length + 1) ++ s ++ [0]

/-! ## Functions -/

def dumpCode (code : List Instruction) : List UInt8 := dumpVector code

def dumpConstant : Constant → List UInt8
  | .nil => dumpChar 0
  | .boolean b => dumpChar 1 ++ dumpChar b.toUInt8
  | .number n => dumpChar 3 ++ dumpNumber n
  | .string s => dumpChar 4 ++ dumpString s

def dumpLocVar (v : LocVar) : List UInt8 :=
  dumpString v.varname ++ dumpInt v.startpc ++ dumpInt v.endpc

def dumpDebug (strip : Bool) (lineinfo : List (BitVec 32)) (locvars : List LocVar)
    (upvalues : List (Option (List UInt8))) : List UInt8 :=
  let lineinfo := if strip then [] else lineinfo
  let locvars := if strip then [] else locvars
  let upvalues := if strip then [] else upvalues
  dumpVector lineinfo ++
    (dumpInt locvars.length ++ locvars.flatMap dumpLocVar) ++
    (dumpInt upvalues.length ++ upvalues.flatMap dumpString)

mutual

/-- `DumpFunction(f, p)`: the source is left out where it is that of the enclosing function. -/
def dumpFunction (strip : Bool) (p : Option (List UInt8)) : Proto → List UInt8
  | ⟨source, linedefined, lastlinedefined, nups, numparams, isVararg, maxstacksize, code, k,
      protos, lineinfo, locvars, upvalues⟩ =>
    dumpString (if source = p || strip then none else source) ++
      dumpInt linedefined ++ dumpInt lastlinedefined ++
      dumpChar nups ++ dumpChar numparams ++ dumpChar isVararg ++ dumpChar maxstacksize ++
      dumpCode code ++
      (dumpInt k.length ++ k.flatMap dumpConstant) ++
      (dumpInt protos.length ++ dumpFunctions strip source protos) ++
      dumpDebug strip lineinfo locvars upvalues

-- the nested functions of DumpConstants
def dumpFunctions (strip : Bool) (source : Option (List UInt8)) : List Proto → List UInt8
  | [] => []
  | f :: fs => dumpFunction strip source f ++ dumpFunctions strip source fs

end

def luaUDump (f : Proto) (strip : Bool) : List UInt8 := luaUHeader ++ dumpFunction strip none f

end Lunatik.Lua
