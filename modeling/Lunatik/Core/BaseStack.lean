import Lunatik.Lua.Api
import Lunatik.Core.Result
import Lunatik.Core.Bindings

/-! # What the kernel leaves on the base stack of a context (`lunatik.c`, `bindings/`)

The operations that use `lc->L` from outside Lua: loading the bindings, opening a library and
executing a chunk.  An operation that raises an error outside a protected call does not
complete, and then there is no next state.
-/

namespace Lunatik.Core

open Lunatik.Kernel Lunatik.Library Lunatik.Lua

variable {W : Type} (I : Interpreter W)

/-! ## The register functions of the supplied bindings -/

inductive RegFunc where
  | printk
  | inspect
  | buffer
  | crypto
  deriving DecidableEq, Repr

def lunatikPrintkRegister : Api W Unit := luaRegister I "print" .printk

def lunatikInspectRegister : Api W Unit := do
  luaRegister I "type" .type
  luaRegister I "gc_count" .gcCount

def lunatikBufRegister : Api W Unit := luaLRegister I "buffer" [("new", .bufNew)]

def lunatikCryptoRegister : Api W Unit :=
  luaLRegister I "crypto" [("sha1", .sha1), ("random", .getRandomBytes)]

def RegFunc.run : RegFunc → Api W Unit
  | .printk => lunatikPrintkRegister I
  | .inspect => lunatikInspectRegister I
  | .buffer => lunatikBufRegister I
  | .crypto => lunatikCryptoRegister I

/-! ## `lunatik.c` -/

/-- What `lunatik_result_get(L, -1, ..)` does to the stack. -/
def resultGetStack (allocs : ResultAllocs) : Api W Unit := do
  if allocs.result then
    match ← topSlot 1 with
    | .userdata _ =>
      if allocs.userdata then
        if ← luaLGetmetafieldTop I "__name" then
          let _ ← luaTolstring I
          luaPop 1
    | _ => pure ()

/-- `loadcode_internal`, on the stack of the context. -/
def loadcodeStack (code : List UInt8) (needResult : Bool) (allocs : ResultAllocs) : Api W Unit := do
  let status ← luaLLoadbuffer I code "loadcode"
  if status = 0 then
    let _ ← luaPcall I
  if needResult then resultGetStack I allocs
  luaPop 1

/-- `openlib`. -/
def openlib (luaopenFunc : CFunction) : Api W Unit := do
  luaPushcclosure I luaopenFunc 0
  let _ ← luaPcall I

/-! ## Operations on one context -/

structure BaseContext (W : Type) where
  api : ApiState W
  active : List Nat

-- `got` and `granted` say whether an owner is got and a list node is granted
inductive BaseOp where
  | bindingsLoad (bindings : List Binding) (regfunc : Nat → RegFunc) (got granted : Nat → Bool)
  | openlib (luaopenFunc : CFunction)
  | loadcode (code : List UInt8) (needResult : Bool) (allocs : ResultAllocs)

namespace BaseContext

-- every register function supplied here returns 0
def loadResult (c : BaseContext W) (bindings : List Binding) (got granted : Nat → Bool) :
    LoadResult :=
  lunatikBindingsLoad (fun ptr => ⟨got ptr, 0, granted ptr⟩) bindings c.active

def runRegfuncs (regfunc : Nat → RegFunc) : List Binding → Api W Unit
  | [] => pure ()
  | b :: bs => do
    (regfunc b.ptr).run I
    runRegfuncs regfunc bs

def perform (c : BaseContext W) : BaseOp → Api W Unit
  | .bindingsLoad bindings regfunc got granted =>
    runRegfuncs I regfunc (c.loadResult bindings got granted).taken
  | .openlib luaopenFunc => Core.openlib I luaopenFunc
  | .loadcode code needResult allocs => loadcodeStack I code needResult allocs

def activeAfter (c : BaseContext W) : BaseOp → List Nat
  | .bindingsLoad bindings _ got granted => c.active ++ (c.loadResult bindings got granted).added
  | _ => c.active

def step (c : BaseContext W) (op : BaseOp) : Option (BaseContext W) :=
  match c.perform I op c.api with
  | .ok _ api => some ⟨api, c.activeAfter op⟩
  | .error _ _ => none

def system : System (BaseContext W) BaseOp := ⟨step I⟩

/-- After `lunatik_context_create`; the frame has no values and its function slot is nil. -/
def created (world : W) : BaseContext W := ⟨⟨[.nil], 0, world⟩, []⟩

end BaseContext

end Lunatik.Core
