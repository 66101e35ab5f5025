import Lunatik.Lua.Callback

/-! # The functions of the buffer library (`bindings/buffer.c`)

The C functions as the interpreter runs them, on a frame with their arguments.  The bytes of a
buffer are those of its userdata; an access outside of them is a fault.  `CFunction` addresses are
numbers, and `bufferFunction` is the code behind them.

The interpreter calls these functions through the metatable of a buffer, so `bufIndex`,
`bufNewindex`, `bufLen` and `bufCall` are what `buf[i]`, `buf[i] = v`, `#buf` and `buf()` do from the
instruction on to the end of the call.
-/

namespace Lunatik.Core

open Lunatik.Lua

variable (getn : Table → Nat) (registry : Nat)

/-! ## Accesses to the bytes -/

-- buf[i]
def loadByte (buf : TValue) (i : Nat) : VmM UInt8 := do
  match buf with
  | .userdata u =>
    match ((← get).heap.udata u).bytes[i]? with
    | some c => return c
    | none => throw (.fault (.block i))
  | _ => throw (.fault .tag)

-- buf[i] = c
def storeByte (buf : TValue) (i : Nat) (c : UInt8) : VmM PUnit := do
  match buf with
  | .userdata u =>
    let heap := (← get).heap
    let block := heap.udata u
    if i < block.bytes.length then
      setHeap { heap with udata := setAt heap.udata u { block with bytes := block.bytes.set i c } }
    else throw (.fault (.block i))
  | _ => throw (.fault .tag)

-- `(idx < 0) || (idx >= len)`, where the comparison is one of unsigned words
def indexOutOfRange (idx : LuaNumber) (len : Nat) : Bool := idx.slt 0 || decide (len ≤ idx.toNat)

/-! ## The metamethods -/

def lunatikBufLength : VmM Nat := do
  luaPushinteger (BitVec.ofNat 64 (← luaObjlen getn 1))
  return 1

/-- The loop of `lunatik_buf_call`: `char` is signed, and `lua_rawseti` takes an `int`. -/
def bufCallLoop (buf : TValue) : List Nat → VmM PUnit
  | [] => return
  | idx :: rest => do
    luaPushinteger ((← loadByte buf idx).toBitVec.signExtend 64)
    luaRawseti (BitVec.ofNat 32 (idx + 1)).toInt
    bufCallLoop buf rest

def lunatikBufCall : VmM Nat := do
  let buf ← luaLCheckudata registry 1 "buffer"
  let bufferLen ← luaObjlen getn 1
  vmPop 1
  vmCreatetable (BitVec.ofNat 32 bufferLen).toInt
  bufCallLoop buf (List.range bufferLen)
  return 1

def lunatikBufNewindex : VmM Nat := do
  let buf ← luaLCheckudata registry 3 "buffer"
  let idx ← luaLCheckinteger 2
  let val ← luaLCheckinteger 1
  if indexOutOfRange idx (← luaObjlen getn 3) then luaGRunerror "index out of range"
  if val.slt 0 || (255 : LuaNumber).slt val then luaGRunerror "value must be between 0 and 255"
  storeByte buf idx.toNat (UInt8.ofNat val.toNat)
  return 0

def lunatikBufIndex : VmM Nat := do
  let buf ← luaLCheckudata registry 2 "buffer"
  let idx ← luaLCheckinteger 1
  if indexOutOfRange idx (← luaObjlen getn 2) then luaGRunerror "index out of  range"
  luaPushinteger (BitVec.ofNat 64 (← loadByte buf idx.toNat).toNat)
  return 1

/-- The addresses of the four functions. -/
def addrBufCall : Nat := 1
def addrBufLength : Nat := 2
def addrBufNewindex : Nat := 3
def addrBufIndex : Nat := 4

def bufferFunction (f : Nat) : Option (VmM Nat) :=
  if f = addrBufCall then some (lunatikBufCall getn registry)
  else if f = addrBufLength then some (lunatikBufLength getn)
  else if f = addrBufNewindex then some (lunatikBufNewindex getn registry)
  else if f = addrBufIndex then some (lunatikBufIndex getn registry)
  else none

-- a C function under a key of the table below it
def setMetamethod (event : TMS) (f : Nat) : VmM PUnit := do
  vmPushcfunction f
  vmSetfield (← belowTop 2) event.name

/-- `lunatik_buf_new`, where the allocator gives the block `u` whose memory holds `stale`. -/
def lunatikBufNew (u : Nat) (stale : Nat → UInt8) : VmM Nat := do
  let size ← luaLCheckinteger 1
  vmPop 1
  let heap := (← get).heap
  setHeap { heap with udata := setAt heap.udata u ⟨(List.range size.toNat).map stale, none⟩ }
  push (.userdata u)
  luaLNewmetatable registry "buffer"
  setMetamethod .call addrBufCall
  setMetamethod .len addrBufLength
  setMetamethod .newindex addrBufNewindex
  setMetamethod .index addrBufIndex
  vmSetmetatable
  return 1

/-! ## Calls by the interpreter -/

/-- The rest of `luaD_precall` for a C function of this library. -/
def runNative : VmM PUnit := do
  let s ← get
  match s.frames with
  | ci :: _ =>
    match s.stack ci.func with
    | .function id =>
      match s.heap.closures id with
      | .c f _ _ =>
        match bufferFunction getn registry f with
        | some body => nativeReturn (← body)
        | none => throw (.fault .closure)
      | .lua .. => throw (.fault .closure)
    | _ => throw (.fault .closure)
  | [] => throw (.fault .closure)

/-- `buf[key]`, with the result in the slot `val`. -/
def bufIndex (buf key : TValue) (val : Nat) : VmM PUnit := do
  luaVGettable key val maxtagloop buf
  runNative getn registry

/-- `buf[key] = v`. -/
def bufNewindex (buf key v : TValue) : VmM PUnit := do
  luaVSettable key v maxtagloop buf
  runNative getn registry

/-- `#buf`: the instruction `i` in the activation `f`. -/
def bufLen (f : Activation) (i : Instruction) : VmM PUnit := do
  opLen getn f i
  runNative getn registry

/-- `buf()`, called from C code with the buffer in the slot `func`. -/
def bufCall (func : Nat) : VmM PUnit := do
  luaDCall func 1 .native
  runNative getn registry

end Lunatik.Core
