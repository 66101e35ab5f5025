import Lunatik.Core.Result

/-! # Copying a result to user space (`lunatik_syscall.c`)

`copyLunatikResultToUser` embeds `copy_lunatik_result_to_user`.  Pointers into user
memory are 64-bit words and pointer arithmetic wraps; the bytes stored through
`r_data` are collected in order, each with its address.

The accesses to user memory may fail at any point.  `UserFaults` fixes for one call
which of them do: a flag for every `get_user` and `put_user`, and for the two
`copy_to_user` the number of bytes they leave uncopied.  `copy_to_user` also stops at
the first byte that its kernel source does not have; `strlen` on such memory is an
oops, after which nothing more is stored.
-/

namespace Lunatik.Core

open Lunatik.Kernel Lunatik.Lua

structure UserFaults where
  getSize : Bool
  putType : Bool
  putData : Bool
  leftType : Nat
  putTerminator : Bool
  leftData : Nat
  putSize : Bool
  deriving DecidableEq, Repr

-- bytes stored from `dst` on, with their addresses
def userWrites (dst : Nat) : List UInt8 → List (Nat × UInt8)
  | [] => []
  | b :: bs => (dst % sizeModulus, b) :: userWrites (dst + 1) bs

-- bytes left uncopied and the bytes stored
def copyToUser (mem : Memory) (dst src n left : Nat) : Nat × List (Nat × UInt8) :=
  let bytes := (mem.readBytes src n).take (n - left)
  (n - bytes.length, userWrites dst bytes)

def putUser (dst : Nat) (bytes : List UInt8) (faults : Bool) : Int × List (Nat × UInt8) :=
  if faults then (-efault, []) else (0, userWrites dst bytes)

-- what the switch on r_type does: ret, the bytes stored, r_size_kern
structure Payload where
  ret : Int
  writes : List (Nat × UInt8)
  rSizeKern : Nat

-- the arms for LUA_TNUMBER, LUA_TBOOLEAN and LUA_TLIGHTUSERDATA: all of the value or nothing
def copyFixed (rData rSizeKern size word : Nat) (faults : UserFaults) : Payload :=
  if size ≤ rSizeKern then
    let (ret, writes) := putUser rData (littleEndian size word) faults.putData
    ⟨ret, writes, size⟩
  else ⟨0, [], 0⟩

def copyString (mem : Memory) (r : LunatikResult) (rData rSizeKern : Nat) (faults : UserFaults) :
    Payload :=
  let copySize := min rSizeKern (wrap (r.rStringSize + 1))
  let (n, writes) := copyToUser mem rData r.rString copySize faults.leftData
  ⟨if n ≠ 0 then -efault else 0, writes, copySize - n⟩

-- `typeLen` is `strlen(r->r_userdata_type) + 1`
def copyUserdata (mem : Memory) (r : LunatikResult) (typeLen rData rSizeKern : Nat)
    (faults : UserFaults) : Payload :=
  let copySize := min rSizeKern typeLen
  let (n, writes) := copyToUser mem rData r.rUserdataType copySize faults.leftType
  -- terminate the type name if it was truncated
  let writes :=
    if copySize - n < typeLen then
      writes ++ (putUser (rData + (copySize - n) + (sizeModulus - 1)) [0] faults.putTerminator).2
    else writes
  if n ≠ 0 then ⟨-efault, writes, copySize - n⟩
  else if rSizeKern ≤ typeLen then ⟨0, writes, copySize⟩
  else
    let copySize := min (rSizeKern - typeLen) r.rUserdataSize
    let (n, more) := copyToUser mem (rData + typeLen) r.rUserdata copySize faults.leftData
    ⟨if n ≠ 0 then -efault else 0, writes ++ more, typeLen + copySize - n⟩

def copyPayload (mem : Memory) (r : LunatikResult) (rData rSizeKern : Nat) (faults : UserFaults) :
    Option Payload :=
  if r.rType = luaTnumber then some (copyFixed rData rSizeKern 8 r.word0 faults)
  else if r.rType = luaTboolean then some (copyFixed rData rSizeKern 4 r.word0 faults)
  else if r.rType = luaTstring then some (copyString mem r rData rSizeKern faults)
  else if r.rType = luaTuserdata then
    (mem.strlen r.rUserdataType).map fun len => copyUserdata mem r (len + 1) rData rSizeKern faults
  else if r.rType = luaTlightuserdata then some (copyFixed rData rSizeKern 8 r.word0 faults)
  else some ⟨0, [], 0⟩

/-- What one call of `copy_lunatik_result_to_user` does; `ret` is `none` on an oops. -/
structure CopyOutcome where
  ret : Option Int
  storedType : Option Int
  writes : List (Nat × UInt8)
  storedSize : Option Nat

def copyLunatikResultToUser (mem : Memory) (r : LunatikResult) (rData rSize : UInt64)
    (faults : UserFaults) : CopyOutcome :=
  if faults.getSize then ⟨some (-efault), none, [], none⟩
  else if faults.putType then ⟨some (-efault), none, [], none⟩
  else
    match copyPayload mem r rData.toNat rSize.toNat faults with
    | none => ⟨none, some r.rType, [], none⟩
    | some payload =>
      let ret2 : Int := if faults.putSize then -efault else 0
      ⟨some (if payload.ret = 0 ∧ ret2 ≠ 0 then ret2 else payload.ret), some r.rType,
        payload.writes, if faults.putSize then none else some payload.rSizeKern⟩

end Lunatik.Core
