import Lunatik.Kernel.Memory
import Lunatik.Lua.Object

/-! # Results of a Lua execution (`lunatik.c`)

`struct lunatik_result` is a type tag and a union.  The union is kept as the three
machine words it occupies, so that its arms overlap here as they do in C:
`r_string`, `r_userdata`, `r_number`, `r_boolean` and `r_lightuserdata` all live in
the first word.

`lunatik_result_get` declares `r_userdata_type_size` without initialising it.  What
the stack slot happens to hold is the argument `stackWord`.
-/

namespace Lunatik.Core

open Lunatik.Kernel Lunatik.Lua

/-- `struct lunatik_result`, with the address of its block. -/
structure LunatikResult where
  self : Nat
  rType : Int
  word0 : Nat
  word1 : Nat
  word2 : Nat
  deriving DecidableEq, Repr

namespace LunatikResult

def rNumber (r : LunatikResult) : LuaNumber := BitVec.ofNat 64 r.word0
def rBoolean (r : LunatikResult) : BitVec 32 := BitVec.ofNat 32 r.word0
def rString (r : LunatikResult) : Nat := r.word0
def rStringSize (r : LunatikResult) : Nat := r.word1
def rUserdata (r : LunatikResult) : Nat := r.word0
def rUserdataSize (r : LunatikResult) : Nat := r.word1
def rUserdataType (r : LunatikResult) : Nat := r.word2
def rLightuserdata (r : LunatikResult) : Nat := r.word0

end LunatikResult

/-- `sizeof(struct lunatik_result)` on x86_64. -/
def sizeofResult : Nat := 32

/-- A zeroed result of the given type, as `kzalloc` and the assignment to `r_type` leave it. -/
def zeroedResult (self : Nat) (rType : Int) : LunatikResult := ⟨self, rType, 0, 0, 0⟩

/-- Which of the allocations of one `lunatik_result_get` are granted. -/
structure ResultAllocs where
  result : Bool
  string : Bool
  userdata : Bool
  userdataType : Bool
  deriving DecidableEq, Repr

/-- What a call of `lunatik_result_get` does: it returns a result (or NULL) with the value
    of `*perror` and the memory it leaves, or reads outside an object. -/
inductive ResultOutcome where
  | returned (r : Option LunatikResult) (perror : Int) (mem : Memory)
  | wildRead

/-- `luaL_getmetafield(L, idx, event)` on a userdata: the raw field of its metatable,
    unless it is nil. -/
def luaLGetmetafield (heap : Heap) (u : Nat) (event : String) : Option TValue :=
  match (heap.udata u).metatable with
  | none => none
  | some m =>
    match luaHGet (heap.tables m) (.string (literal event)) with
    | .nil => none
    | field => some field

/-- The object that `r_userdata_type` points to, terminator included, the size that goes
    with it and the size of the copy to allocate.  Only the branch that finds a metafield
    sets the size. -/
def userdataTypeSource (heap : Heap) (u stackWord : Nat) : List UInt8 × Nat × Nat :=
  match luaLGetmetafield heap u "__name" with
  | some name =>
    match tostring name with
    -- luaS_newlstr refuses lengths near MAX_SIZET, so this sum does not wrap
    | some s => (s ++ [0], s.length, s.length + 1)
    | none => ([], 0, 1)
  | none => ([0], stackWord, wrap (stackWord + 1))

/-- The arm of `lunatik_result_get` for `LUA_TUSERDATA`. -/
def resultOfUserdata (heap : Heap) (u : Nat) (allocs : ResultAllocs) (stackWord : Nat)
    (perror : Int) (r : Nat) (mem : Memory) : ResultOutcome :=
  let bytes := (heap.udata u).bytes
  let (p, mem) := mem.kmalloc bytes.length allocs.userdata
  if p = null then .returned (some (zeroedResult r luaTuserdata)) (-enomem) mem
  else
    let mem := mem.store p bytes
    let (source, size, request) := userdataTypeSource heap u stackWord
    let (q, mem) := mem.kmalloc request allocs.userdataType
    if q = null then
      .returned (some ⟨r, luaTuserdata, null, bytes.length, null⟩) (-enomem) (mem.kfree p)
    else if size ≤ source.length then
      .returned (some ⟨r, luaTuserdata, p, bytes.length, q⟩) perror
        (mem.store q (source.take size ++ [0]))
    else .wildRead

/-- `lunatik_result_get(L, idx, perror)` for the value `v` at `idx`; `perror` is the value
    of `*perror` before the call. -/
def lunatikResultGet (heap : Heap) (v : TValue) (allocs : ResultAllocs) (stackWord : Nat)
    (perror : Int) (mem : Memory) : ResultOutcome :=
  let (r, mem) := mem.kmalloc sizeofResult allocs.result
  if r = null then .returned none (-enomem) mem
  else
    match v with
    | .nil => .returned (some (zeroedResult r luaTnil)) perror mem
    | .number n => .returned (some ⟨r, luaTnumber, n.toNat, 0, 0⟩) perror mem
    | .boolean _ => .returned (some ⟨r, luaTboolean, if lIsfalse v then 0 else 1, 0, 0⟩) perror mem
    | .string s =>
      let (p, mem) := mem.kmalloc (s.length + 1) allocs.string
      if p = null then .returned (some (zeroedResult r luaTstring)) (-enomem) mem
      else .returned (some ⟨r, luaTstring, p, s.length, 0⟩) perror (mem.store p (s ++ [0]))
    | .userdata u => resultOfUserdata heap u allocs stackWord perror r mem
    | .lightuserdata p => .returned (some ⟨r, luaTlightuserdata, p, 0, 0⟩) perror mem
    | v => .returned (some (zeroedResult r (ttype v))) (-einval) mem

/-- `lunatik_result_free(result)`. -/
def lunatikResultFree (result : Option LunatikResult) (mem : Memory) : Memory :=
  match result with
  | none => mem
  | some r =>
    let mem :=
      if r.rType = luaTstring then mem.kfree r.rString
      else if r.rType = luaTuserdata then (mem.kfree r.rUserdata).kfree r.rUserdataType
      else mem
    mem.kfree r.self

/-! ## The result phase of `loadcode_internal` -/

/-- What running the chunk leaves: the status of `luaL_loadbuffer`, the status of `lua_pcall`
    (consulted only when loading succeeded), the value on top of the stack and the heap. -/
structure ChunkRun where
  loadStatus : Int
  callStatus : Int
  top : TValue
  heap : Heap

/-- `d->ret` after `luaL_loadbuffer` and `lua_pcall`. -/
def ChunkRun.status (run : ChunkRun) : Int :=
  if run.loadStatus ≠ 0 then run.loadStatus else run.callStatus

/-- `loadcode_internal(lc, d)` from the end of the execution on: what it stores in `d->ret`
    and `d->result`.  `d` is zeroed by its allocation, so an unrequested result stays NULL. -/
def loadcodeInternal (run : ChunkRun) (needResult : Bool) (allocs : ResultAllocs)
    (stackWord : Nat) (mem : Memory) : ResultOutcome :=
  if needResult then lunatikResultGet run.heap run.top allocs stackWord run.status mem
  else .returned none run.status mem

end Lunatik.Core
