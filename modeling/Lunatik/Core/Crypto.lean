import Lunatik.Core.Buffer

/-! # The crypto library (`bindings/crypto.c`)

The two functions on the memory of a script, step by step: which addresses a scatterlist names, how
many of its bytes an update feeds, and which conversions a number goes through on its way to the
allocator.  The crypto API itself is given by what it is documented to do: an update feeds the first
bytes of the list, and `digest` is the hash of all bytes fed.

Who has asked for memory of a size is told by `granted` alone: an allocator is a function of the
size.
-/

namespace Lunatik.Core

open Lunatik.Kernel Lunatik.Lua

/-- An entry of a scatterlist; the length is an unsigned int. -/
structure Scatterlist where
  addr : Nat
  length : BitVec 32
  deriving DecidableEq, Repr

-- sg_set_buf
def sgSetBuf (buf buflen : Nat) : Scatterlist := ⟨buf, BitVec.ofNat 32 buflen⟩

-- the addresses of the bytes of a scatterlist
def sgAddresses (sg : List Scatterlist) : List Nat :=
  sg.flatMap fun e => (List.range e.length.toNat).map (e.addr + ·)

/-- A hash in progress: the addresses read so far and the bytes found there. -/
structure HashDesc where
  reads : List Nat
  fed : List UInt8

def cryptoHashInit : HashDesc := ⟨[], []⟩

def cryptoHashUpdate (st : ScriptState) (desc : HashDesc) (sg : List Scatterlist) (nbytes : Nat) :
    HashDesc :=
  let addresses := (sgAddresses sg).take nbytes
  ⟨desc.reads ++ addresses, desc.fed ++ addresses.map st.load⟩

def cryptoHashFinal (st : ScriptState) (digest : List UInt8 → Fin 20 → UInt8) (desc : HashDesc)
    (out : Nat) :
    ScriptState := st.store out (List.ofFn (digest desc.fed))

-- crypto_hash_digestsize(tfm) of "sha1"
def cryptoHashDigestsize : LuaNumber := 20

namespace ScriptState

variable (st : ScriptState)

-- lua_touserdata(L, -1)
def dataOf (b : Nat) : Nat := (st.buffers.getD b ⟨0, 0⟩).data

/-- `lunatik_sha1`, with the hash that it has left behind. -/
def sha1OfBuffer (digest : List UInt8 → Fin 20 → UInt8) (hashGranted granted : Bool)
    (buf : BufferBlock) :
    ScriptReply × ScriptState × HashDesc :=
  let sg := [sgSetBuf buf.data buf.len]
  if hashGranted then
    match st.lunatikBufNew cryptoHashDigestsize granted with
    | (.buffer b, st') =>
      -- the number of bytes is ARRAY_SIZE(sg)
      let desc := cryptoHashUpdate st' cryptoHashInit sg sg.length
      (.buffer b, cryptoHashFinal st' digest desc (st'.dataOf b), desc)
    | (refused, st') => (refused, st', cryptoHashInit)
  else (.error "failed to allocate hash \"sha1\"", st, cryptoHashInit)

-- `buffer.new(x)`, where the allocator answers by the size
def bufferNew (x : LuaNumber) (granted : Nat → Bool) : ScriptReply × ScriptState :=
  st.lunatikBufNew x (granted (x.toNat + sizeofUdata))

/-- `lunatik_get_random_bytes`: `n` is an int, which `lua_pushinteger` widens again. -/
def lunatikGetRandomBytes (x : LuaNumber) (granted : Nat → Bool) (random : Nat → UInt8) :
    ScriptReply × ScriptState :=
  let n : BitVec 32 := x.setWidth 32
  if n.slt 0 then (.error "expected a positive param", st)
  else
    match st.bufferNew (n.signExtend 64) granted with
    | (.buffer b, st') => (.buffer b, st'.store (st'.dataOf b) ((List.range n.toNat).map random))
    | refused => refused

end ScriptState

end Lunatik.Core
