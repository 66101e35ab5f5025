import Lunatik.Lua.CheckCode
import Lunatik.Lua.Zio

/-! # Loading precompiled chunks (`lundump.c`)

A load runs in `EStateM` over a stream; an error is the `why` of the message.  How a stream
is read is a parameter, so that the same load can be run on a `Zio` and on a plain list of
bytes.  The nesting of functions is bounded by `LUAI_MAXCCALLS`: `loadFunction` recurses
over what is left of it.  Refused allocations end a load like any other error and are left
out.
-/

namespace Lunatik.Lua

def luaiMaxccalls : Nat := 200

/-! ## Streams -/

-- like luaZ_read: the bytes, the number of missing ones, and the rest of the stream
abbrev StreamRead (σ : Type) := σ → Nat → List UInt8 × Nat × σ

structure LoadState where
  z : Zio
  delivered : List UInt8

def zioRead : StreamRead LoadState := fun s n =>
  let (bytes, missing, z) := s.z.luaZRead n
  (bytes, missing, ⟨z, s.delivered ++ bytes⟩)

def listRead : StreamRead (List UInt8) :=
  fun bytes n => (bytes.take n, n - bytes.length, bytes.drop n)

abbrev LoadM (σ : Type) := EStateM String σ

variable {σ : Type} (read : StreamRead σ)

/-! ## Primitive types -/

def loadBlock (size : Nat) : LoadM σ (List UInt8) := do
  let s ← get
  let (bytes, missing, s) := read s size
  set s
  if missing ≠ 0 then throw "unexpected end"
  return bytes

-- a machine word in memory order
def leNat : List UInt8 → Nat
  | [] => 0
  | b :: bs => b.toNat + 256 * leNat bs

def loadChar : LoadM σ UInt8 := do
  let bytes ← loadBlock read 1
  return bytes.headD 0

def loadInt : LoadM σ Nat := do
  let x := leNat (← loadBlock read 4)
  if 2 ^ 31 ≤ x then throw "bad integer"
  return x

def loadNumber : LoadM σ LuaNumber := do
  return BitVec.ofNat 64 (leNat (← loadBlock read 8))

def loadString : LoadM σ (Option (List UInt8)) := do
  let size := leNat (← loadBlock read 8)
  if size = 0 then return none
  else
    let bytes ← loadBlock read size
    return some bytes.dropLast -- remove trailing '\0'

-- the words of a block of 32-bit integers
def words : List UInt8 → List (BitVec 32)
  | b₀ :: b₁ :: b₂ :: b₃ :: rest => BitVec.ofNat 32 (leNat [b₀, b₁, b₂, b₃]) :: words rest
  | _ => []

def loadWords : LoadM σ (List (BitVec 32)) := do
  let n ← loadInt read
  return words (← loadBlock read (n * 4))

def loadConstant : LoadM σ Constant := do
  let t ← loadChar read
  if t = 0 then return .nil
  else if t = 1 then return .boolean ((← loadChar read) != 0)
  else if t = 3 then return .number (← loadNumber read)
  else if t = 4 then return .string (← loadString read)
  else throw "bad constant"

def loadLocVar : LoadM σ LocVar := do
  let varname ← loadString read
  let startpc ← loadInt read
  let endpc ← loadInt read
  return { varname, startpc, endpc }

/-! ## Functions -/

def loadMany {α : Type} (load : LoadM σ α) : Nat → LoadM σ (List α)
  | 0 => return []
  | n + 1 => do
    let x ← load
    let xs ← loadMany load n
    return x :: xs

def loadCode : LoadM σ (List Instruction) := loadWords read

def loadConstants (loadProto : LoadM σ Proto) : LoadM σ (List Constant × List Proto) := do
  let n ← loadInt read
  let k ← loadMany (loadConstant read) n
  let n ← loadInt read
  let p ← loadMany loadProto n
  return (k, p)

def loadDebug : LoadM σ (List (BitVec 32) × List LocVar × List (Option (List UInt8))) := do
  let lineinfo ← loadWords read
  let n ← loadInt read
  let locvars ← loadMany (loadLocVar read) n
  let n ← loadInt read
  let upvalues ← loadMany (loadString read) n
  return (lineinfo, locvars, upvalues)

def loadFunction : Nat → Option (List UInt8) → LoadM σ Proto
  | 0, _ => throw "code too deep"
  | depth + 1, parent => do
    let source ← loadString read
    let source := source.or parent
    let linedefined ← loadInt read
    let lastlinedefined ← loadInt read
    let nups ← loadChar read
    let numparams ← loadChar read
    let isVararg ← loadChar read
    let maxstacksize ← loadChar read
    let code ← loadCode read
    let constants ← loadConstants read (loadFunction depth source)
    let debug ← loadDebug read
    let f : Proto :=
      { source, linedefined, lastlinedefined, nups, numparams, isVararg, maxstacksize, code,
        k := constants.1, p := constants.2, lineinfo := debug.1, locvars := debug.2.1,
        upvalues := debug.2.2 }
    if luaGCheckcode f then return f else throw "bad code"

/-- `luaU_header`: signature, version, format, endianness and the sizes of the C types. -/
def luaUHeader : List UInt8 := [27, 76, 117, 97, 0x51, 0, 1, 4, 8, 4, 8, 1]

def loadHeader : LoadM σ PUnit := do
  let s ← loadBlock read 12
  if s ≠ luaUHeader then throw "bad header"

def luaUUndump : LoadM σ Proto := do
  loadHeader read
  loadFunction read luaiMaxccalls (some (literal "=?"))

/-- What `luaU_undump` makes of a stream that holds these bytes. -/
def undumped (bytes : List UInt8) : Option Proto :=
  match luaUUndump zioRead ⟨Zio.luaZInit (bytes.getD · 0) bytes.length, []⟩ with
  | .ok f _ => some f
  | .error _ _ => none

end Lunatik.Lua
