import Lunatik.Core.UserCopy

/-! # Buffers (`bindings/buffer.c`, `bindings/crypto.c`, `lstring.c`)

A buffer is a full userdata: a block from the allocator that keeps what its memory held, with
the header `Udata` in front of the bytes.  Its four metamethods and `crypto.sha1` are the only
ways in which a script sees these bytes; a fifth reader is `lunatik_result_get`, when the script
returns the buffer.

Whatever else a script computes is a function of what the buffers told it, so a script is a
function from the replies it got so far to what it does next.  Everything else that the code
does not decide (which requests are granted, the words that `lunatik_result_get` finds on its
stack, what user memory does) is fixed by a `ScriptEnv`.  `written` records the addresses that
were stored to.
-/

namespace Lunatik.Core

open Lunatik.Kernel Lunatik.Lua

/-- `sizeof(Udata)` on x86_64. -/
def sizeofUdata : Nat := 40

/-- A buffer: the address of its bytes and their number. -/
structure BufferBlock where
  data : Nat
  len : Nat
  deriving DecidableEq, Repr

structure ScriptState where
  mem : Memory
  buffers : List BufferBlock
  written : List Nat

inductive ScriptReply where
  | nothing
  | buffer (b : Nat)
  | number (n : LuaNumber)
  | table (values : List LuaNumber)
  | error (message : String)
  deriving DecidableEq, Repr

inductive ScriptAction where
  | bufNew (size : LuaNumber)
  | bufIndex (b : Nat) (idx : LuaNumber)
  | bufNewindex (b : Nat) (idx val : LuaNumber)
  | bufCall (b : Nat)
  | bufLength (b : Nat)
  | sha1 (b : Nat)
  -- any other allocation of the interpreter
  | allocate (size : Nat)
  -- the chunk ends, normally or with an error
  | finish (status : Int) (v : TValue)

abbrev Script := List ScriptReply → ScriptAction

/-- `granted` and `hashGranted` answer the requests of the `n`-th action, `digest` is what the
    hash leaves in its 20 bytes of output. -/
structure ScriptEnv where
  granted : Nat → Bool
  hashGranted : Nat → Bool
  digest : List UInt8 → Fin 20 → UInt8
  allocs : ResultAllocs
  stackWord : Nat
  rData : UInt64
  rSize : UInt64
  faults : UserFaults

namespace ScriptState

/-- A fresh context, over memory with these stale contents. -/
def start (stale : Nat → UInt8) : ScriptState := ⟨{ Memory.empty with stale }, [], []⟩

def load (st : ScriptState) (a : Nat) : UInt8 := (st.mem.byte a).getD 0

def store (st : ScriptState) (a : Nat) (bytes : List UInt8) : ScriptState :=
  { st with
    mem := st.mem.store a bytes
    written := (List.range bytes.length).map (a + ·) ++ st.written }

def bytesOf (st : ScriptState) (buf : BufferBlock) : List UInt8 :=
  (List.range buf.len).map fun i => st.load (buf.data + i)

/-- `luaS_newudata`: the bytes behind the header are not initialised. -/
def luaSNewudata (st : ScriptState) (s : Nat) (granted : Bool) : ScriptReply × ScriptState :=
  if s > maxSizet - sizeofUdata then (.error "memory allocation error: block too big", st)
  else
    let (u, mem) := st.mem.kmalloc (s + sizeofUdata) granted
    if u = null then (.error "not enough memory", st)
    else (.buffer st.buffers.length, { st with mem, buffers := st.buffers ++ [⟨u + sizeofUdata,
      s⟩] })

def lunatikBufNew (st : ScriptState) (size : LuaNumber) (granted : Bool) :
    ScriptReply × ScriptState :=
  st.luaSNewudata size.toNat granted

def outOfRange (idx : LuaNumber) (buf : BufferBlock) : Bool :=
  idx.slt 0 || decide (buf.len ≤ idx.toNat)

def lunatikBufIndex (st : ScriptState) (buf : BufferBlock) (idx : LuaNumber) : ScriptReply :=
  if outOfRange idx buf then .error "index out of  range"
  else .number (BitVec.ofNat 64 (st.load (buf.data + idx.toNat)).toNat)

def lunatikBufNewindex (st : ScriptState) (buf : BufferBlock) (idx val : LuaNumber) :
    ScriptReply × ScriptState :=
  if outOfRange idx buf then (.error "index out of range", st)
  else if val.slt 0 || (255 : LuaNumber).slt val then (.error "value must be between 0 and 255", st)
  else (.nothing, st.store (buf.data + idx.toNat) [UInt8.ofNat val.toNat])

-- lua_pushinteger(L, buf[idx]), where char is signed
def lunatikBufCall (st : ScriptState) (buf : BufferBlock) : ScriptReply :=
  .table ((st.bytesOf buf).map fun c => c.toBitVec.signExtend 64)

-- the length of a scatterlist entry is an unsigned int, and the update takes ARRAY_SIZE(sg) bytes of it
def hashedBytes (st : ScriptState) (buf : BufferBlock) : List UInt8 :=
  ((st.bytesOf buf).take (buf.len % 2 ^ 32)).take 1

/-- `lunatik_sha1`. -/
def lunatikSha1 (st : ScriptState) (env : ScriptEnv) (n : Nat) (buf : BufferBlock) :
    ScriptReply × ScriptState :=
  if env.hashGranted n then
    let output := List.ofFn (env.digest (st.hashedBytes buf))
    match st.luaSNewudata 20 (env.granted n) with
    | (.buffer b, st') => (.buffer b, st'.store (st'.buffers.getD b ⟨0, 0⟩).data output)
    | refused => refused
  else (.error "failed to allocate hash \"sha1\"", st)

/-- What one action of the script does, up to its end. -/
def act (st : ScriptState) (env : ScriptEnv) (n : Nat) : ScriptAction → ScriptReply × ScriptState
  | .bufNew size => st.lunatikBufNew size (env.granted n)
  | .bufIndex b idx =>
    match st.buffers[b]? with
    | some buf => (st.lunatikBufIndex buf idx, st)
    | none => (.error "buffer expected", st)
  | .bufNewindex b idx val =>
    match st.buffers[b]? with
    | some buf => st.lunatikBufNewindex buf idx val
    | none => (.error "buffer expected", st)
  | .bufCall b =>
    match st.buffers[b]? with
    | some buf => (st.lunatikBufCall buf, st)
    | none => (.error "buffer expected", st)
  -- lua_objlen(L, -1) of the nil that OP_LEN passes as the second argument
  | .bufLength b =>
    match st.buffers[b]? with
    | some _ => (.number 0, st)
    | none => (.error "buffer expected", st)
  | .sha1 b =>
    match st.buffers[b]? with
    | some buf => st.lunatikSha1 env n buf
    | none => (.error "buffer expected", st)
  | .allocate size =>
    let (p, mem) := st.mem.kmalloc size (env.granted n)
    if p = null then (.error "not enough memory", st) else (.nothing, { st with mem })
  | .finish _ _ => (.nothing, st)

end ScriptState

/-! ## Runs and what user space sees of them -/

structure Finished where
  status : Int
  v : TValue
  st : ScriptState

/-- The first `fuel` actions of the script; `none` when it has not ended by then. -/
def runScript (env : ScriptEnv) (script : Script) :
    Nat → ScriptState → List ScriptReply → Option Finished
  | 0, _, _ => none
  | fuel + 1, st, replies =>
    match script replies with
    | .finish status v => some ⟨status, v, st⟩
    | action =>
      let (reply, st') := st.act env replies.length action
      runScript env script fuel st' (replies ++ [reply])

-- luaL_newmetatable(L, "buffer"): the functions under these keys are of no matter here
def bufferMetatable : Table :=
  ⟨["__call", "__len", "__newindex", "__index"].map fun event =>
    (.string (literal event), .function 0), none, 0⟩

def ScriptState.heap (st : ScriptState) : Heap :=
  { emptyHeap with
    tables := setAt emptyHeap.tables 0 bufferMetatable
    udata := fun u => ⟨((st.buffers[u]?).map st.bytesOf).getD [], some 0⟩ }

/-- The end of `sys_lua`: the value of `d->ret`, and what `copy_lunatik_result_to_user` does
    with the result.  A read outside an object has no outcome. -/
inductive SysView where
  | running
  | wildRead
  | returned (ret : Int) (copied : Option CopyOutcome)

def sysView (env : ScriptEnv) (ended : Finished) : SysView :=
  match lunatikResultGet ended.st.heap ended.v env.allocs env.stackWord ended.status ended.st.mem with
  | .wildRead => .wildRead
  | .returned r ret mem =>
    .returned ret (r.map fun r => copyLunatikResultToUser mem r env.rData env.rSize env.faults)

/-- A script run by `sys_lua` over memory with these stale contents. -/
def sysLuaScript (env : ScriptEnv) (script : Script) (fuel : Nat) (stale : Nat → UInt8) : SysView :=
  match runScript env script fuel (.start stale) [] with
  | none => .running
  | some ended => sysView env ended

end Lunatik.Core
