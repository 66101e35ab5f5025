import Lunatik.Lua.Frame

/-! # The bindings on their frames (`bindings/*.c`)

Each C function that a script can call, statement by statement, in terms of the API.  What a function
does with the memory of a userdata, with the kernel log and with the crypto API is part of its `Host`.
-/

namespace Lunatik.Core.Frames

open Lunatik.Lua Lunatik.Lua.Frame

structure Host (W : Type) extends Runtime W where
  loadByte : W → TValue → Nat → UInt8
  storeByte : W → TValue → Nat → UInt8 → W
  printk : W → List UInt8 → W
  -- crypto_alloc_hash("sha1", 0, CRYPTO_ALG_ASYNC)
  allocHash : W → Bool
  digestsize : LuaNumber
  -- crypto_hash_update of the first argument, crypto_hash_final to the second
  hash : W → TValue → TValue → W
  getRandomBytes : W → TValue → Nat → W

variable {W : Type} (H : Host W)

-- a pointer that was taken from a userdata is followed
def accessBlock : TValue → FrameM W PUnit
  | .userdata u => observe (.access u)
  | _ => return

def modifyWorld (f : W → W) : FrameM W PUnit := modify fun s => { s with world := f s.world }

-- lua_pushstring(L, message); lua_error(L)
def raiseMessage {α : Type} (message : String) : FrameM W α := do
  luaPushstring H.toRuntime message
  luaError

/-! ## `buffer.c` -/

def lunatikBufLength : FrameM W Nat := do
  luaPushinteger (BitVec.ofNat 64 (← luaObjlen H.toRuntime 1))
  return 1

-- buf[idx] = val
def storeAt (buf : TValue) (idx : Nat) (val : UInt8) : FrameM W PUnit := do
  accessBlock buf
  modifyWorld fun w => H.storeByte w buf idx val

-- buf[idx]
def loadAt (buf : TValue) (idx : Nat) : FrameM W UInt8 := do
  accessBlock buf
  return H.loadByte (← get).world buf idx

def bufCallLoop (buf : TValue) : List Nat → FrameM W PUnit
  | [] => return
  | idx :: rest => do
    luaPushinteger ((← loadAt H buf idx).toBitVec.signExtend 64)
    luaRawseti H.toRuntime 2 (BitVec.ofNat 32 (idx + 1)).toInt
    bufCallLoop buf rest

def lunatikBufCall : FrameM W Nat := do
  let buf ← luaLCheckudata H.toRuntime 1 "buffer"
  let bufferLen ← luaObjlen H.toRuntime 1
  luaPop 1
  luaCreatetable H.toRuntime (BitVec.ofNat 32 bufferLen).toInt
  bufCallLoop H buf (List.range bufferLen)
  return 1

-- `(idx < 0) || (idx >= len)`, where the comparison is one of unsigned words
def indexOutOfRange (idx : LuaNumber) (len : Nat) : Bool := idx.slt 0 || decide (len ≤ idx.toNat)

def lunatikBufNewindex : FrameM W Nat := do
  let buf ← luaLCheckudata H.toRuntime 3 "buffer"
  let idx ← luaLCheckinteger H.toRuntime 2
  let val ← luaLCheckinteger H.toRuntime 1
  if indexOutOfRange idx (← luaObjlen H.toRuntime 3) then raiseMessage H "index out of range"
  if val.slt 0 || (255 : LuaNumber).slt val then raiseMessage H "value must be between 0 and 255"
  storeAt H buf idx.toNat (UInt8.ofNat val.toNat)
  return 0

def lunatikBufIndex : FrameM W Nat := do
  let buf ← luaLCheckudata H.toRuntime 2 "buffer"
  let idx ← luaLCheckinteger H.toRuntime 1
  if indexOutOfRange idx (← luaObjlen H.toRuntime 2) then raiseMessage H "index out of  range"
  luaPushinteger (BitVec.ofNat 64 (← loadAt H buf idx.toNat).toNat)
  return 1

/-- The addresses of the functions that a buffer has in its metatable. -/
def addrBufCall : Nat := 1
def addrBufLength : Nat := 2
def addrBufNewindex : Nat := 3
def addrBufIndex : Nat := 4

-- a C function under a key of the table below it
def setMetamethod (event : TMS) (f : Nat) : FrameM W PUnit := do
  luaPushcfunction H.toRuntime f
  luaSetfield H.toRuntime 2 event.name

-- the block and its metatable
def newBuffer (size : Nat) : FrameM W PUnit := do
  luaNewuserdata H.toRuntime size
  luaLNewmetatable H.toRuntime "buffer"
  setMetamethod H .call addrBufCall
  setMetamethod H .len addrBufLength
  setMetamethod H .newindex addrBufNewindex
  setMetamethod H .index addrBufIndex
  luaSetmetatable H.toRuntime 2

def lunatikBufNew : FrameM W Nat := do
  let size ← luaLCheckinteger H.toRuntime 1
  luaPop 1
  -- a size_t
  newBuffer H size.toNat
  return 1

/-! ## `crypto.c` -/

-- lua_touserdata(L, -1), of which a NULL is not followed
def resultBlock : FrameM W TValue := do return (← luaTouserdata 1).getD .nil

def lunatikSha1 : FrameM W Nat := do
  let buf ← luaLCheckudata H.toRuntime 1 "buffer"
  let _ ← luaObjlen H.toRuntime 1
  if H.allocHash (← get).world then
    luaPushinteger H.digestsize
    let _ ← lunatikBufNew H
    let result ← resultBlock
    accessBlock buf
    accessBlock result
    modifyWorld fun w => H.hash w buf result
    return 1
  else raiseMessage H "failed to allocate hash \"sha1\""

def lunatikGetRandomBytes : FrameM W Nat := do
  -- luaL_checknumber, cut to an int
  let n := (← luaLCheckinteger H.toRuntime 1).setWidth 32
  if n.slt 0 then raiseMessage H "expected a positive param"
  luaPushinteger (n.signExtend 64)
  let _ ← lunatikBufNew H
  let buf ← resultBlock
  accessBlock buf
  modifyWorld fun w => H.getRandomBytes w buf n.toNat
  return 1

/-! ## `printk.c` and `inspect.c` -/

-- the loop of lunatik_printk, for i from n down to 1
def printkLoop : Nat → FrameM W PUnit
  | 0 => return
  | i + 1 => do
    let s ← luaTolstring H.toRuntime (i + 1)
    modifyWorld fun w => H.printk w (s.getD (literal "(null)"))
    printkLoop i

def lunatikPrintk : FrameM W Nat := do
  let n ← luaGettop
  printkLoop H n
  if n ≠ 0 then modifyWorld fun w => H.printk w (literal "\n")
  luaPop n
  return 0

def lunatikType : FrameM W Nat := do
  let type := luaTypename (← luaType 1)
  luaPop 1
  luaPushstring H.toRuntime type
  return 1

def lunatikGcCount : FrameM W Nat := do
  luaPushinteger (H.gcCount (← get).world)
  return 1

/-! ## Calls -/

/-- What a script calls: a registered function, or a buffer by one of its metamethods. -/
inductive Binding where
  | bufNew
  | bufCall
  | bufLength
  | bufNewindex
  | bufIndex
  | sha1
  | getRandomBytes
  | printk
  | type
  | gcCount
  deriving DecidableEq, Repr

def Binding.body : Binding → FrameM W Nat
  | .bufNew => lunatikBufNew H
  | .bufCall => lunatikBufCall H
  | .bufLength => lunatikBufLength H
  | .bufNewindex => lunatikBufNewindex H
  | .bufIndex => lunatikBufIndex H
  | .sha1 => lunatikSha1 H
  | .getRandomBytes => lunatikGetRandomBytes H
  | .printk => lunatikPrintk H
  | .type => lunatikType H
  | .gcCount => lunatikGcCount H

/-- The values on the frame of a call with `n` arguments: `tryfuncTM` puts the buffer before them,
`callTMres` and `callTM` push what the instruction is about. -/
def Binding.height (n : Nat) : Binding → Nat
  | .bufCall => n + 1
  | .bufLength => 2
  | .bufNewindex => 3
  | .bufIndex => 2
  | _ => n

/-- A host that has nothing to say. -/
def emptyHost {W : Type} : Host W where
  registry _ := .nil
  gettable w _ _ := some (.nil, w)
  settable w _ _ _ := some w
  rawseti w _ _ _ := some w
  getmetatable _ _ := none
  setmetatable w _ _ := w
  objlen _ _ := 0
  createtable w _ := some (.table 0, w)
  newuserdata w _ := some (0, w)
  newclosure w _ := some (.function 0, w)
  newlstr w _ := some w
  gcStep w := w
  gcCount _ := 0
  argerror _ _ message := message
  position _ := []
  loadByte _ _ _ := 0
  storeByte w _ _ _ := w
  printk w _ := w
  allocHash _ := true
  digestsize := 20
  hash w _ _ := w
  getRandomBytes w _ _ := w

end Lunatik.Core.Frames
