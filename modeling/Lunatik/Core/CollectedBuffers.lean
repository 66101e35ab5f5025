import Lunatik.Core.BindingFrames
import Lunatik.Lua.Mark

/-! # Buffers under the collector

The bindings over the heap that the collector marks.  What they look up is there: the registry, the
metatables and the lengths.  Everything that allocates, steps of the collector included, is left open.
-/

namespace Lunatik.Core.Frames

open Lunatik.Lua Lunatik.Lua.Frame

/-- The functions of `other`, but for those that only look at the heap. -/
def heapHost (other : Host GlobalState) : Host GlobalState :=
  { other with
    registry := fun g => g.registry
    gettable := fun g t k =>
      match t with
      | .table h =>
        match luaHGet (g.heap.tables h) k, (g.heap.tables h).metatable with
        -- no result and a metatable: luaV_gettable goes on
        | .nil, some _ => other.gettable g t k
        | res, _ => some (res, g)
      | _ => other.gettable g t k
    getmetatable := fun g o =>
      match o with
      | .table h => (g.heap.tables h).metatable.map .table
      | .userdata u => (g.heap.udata u).metatable.map .table
      | o => (g.heap.mt (ttype o)).map .table
    objlen := fun g o =>
      match o with
      | .userdata u => (g.heap.udata u).bytes.length
      | o => other.objlen g o
    -- a new string refers to nothing
    newlstr := fun g s => (other.newlstr g s).map fun _ => g }

@[simp] theorem heapHost_newlstr (other : Host GlobalState) (g : GlobalState) (s : List UInt8) :
    (heapHost other).newlstr g s = (other.newlstr g s).map fun _ => g := rfl

@[simp] theorem heapHost_objlen_userdata (other : Host GlobalState) (g : GlobalState) (u : Nat) :
    (heapHost other).objlen g (.userdata u) = (g.heap.udata u).bytes.length := rfl

@[simp] theorem heapHost_getmetatable_userdata (other : Host GlobalState) (g : GlobalState) (u : Nat) :
    (heapHost other).getmetatable g (.userdata u) = (g.heap.udata u).metatable.map .table := rfl

/-- Whatever a pointer was held into at a collection, and was still to be followed, the collector came to. -/
def SafeReads (events : List (Event GlobalState)) : Prop :=
  ∀ late stack top g early u, events = late ++ .collect stack top g :: early →
    .access u ∈ late → .take u ∈ early → Reachable stack top g (.userdata u)

/-- The functions that hold a pointer into a buffer across API calls. -/
def Binding.readsBuffer : Binding → Prop
  | .bufCall | .sha1 | .getRandomBytes => True
  | _ => False

/-- A frame at the start of a call by a script. -/
structure Called (s : FrameState GlobalState) : Prop where
  -- the slot below holds the function
  above : 0 < s.base
  base_le : s.base ≤ s.top
  fresh : s.events = []
  registry : ∃ h, s.world.registry = .table h ∧ (s.world.heap.tables h).metatable = none
  -- luaF_findupval is for the registers of Lua functions
  upvals : ∀ id slot, s.world.heap.upvals id = .openAt slot → slot < s.base

-- the value under "buffer" in the registry
def bufferMetatable (g : GlobalState) : TValue :=
  match g.registry with
  | .table h => luaHGet (g.heap.tables h) (.string (literal "buffer"))
  | _ => .nil

/-- `lunatik_buf_call` gets to read the block of `u`. -/
structure Reads (other : Host GlobalState) (s : FrameState GlobalState) (u : Nat) : Prop where
  argument : s.stack (s.top - 1) = .userdata u
  metatable : (s.world.heap.udata u).metatable.map .table = some (bufferMetatable s.world)
  -- luaS_new("buffer")
  name : (other.newlstr s.world (literal "buffer")).isSome
  nonempty : (s.world.heap.udata u).bytes ≠ []
  table : (other.createtable (other.gcStep s.world)
    (BitVec.ofNat 32 (s.world.heap.udata u).bytes.length).toInt).isSome

end Lunatik.Core.Frames
