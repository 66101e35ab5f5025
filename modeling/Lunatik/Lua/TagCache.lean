import Lunatik.Lua.Callback
import Lunatik.Library.StateRuns
import Lunatik.Library.TransitionSystem

/-! # Accesses to tables and the cache of absent tag methods (`ltm.c`, `lapi.c`)

`flags` notes of each of the first events that a table has no tag method for it.  A lookup sets the
bits, `luaH_set` resets them, and `luaH_setnum` leaves them.

A run is any sequence of accesses.  Each is made in a thread of its own choice, which finds the heap as
the access before left it, an error included.
-/

namespace Lunatik.Lua

open Lunatik.Library

/-- The events up to `TM_EQ`, which have a bit in `flags`. -/
def TMS.isFast : TMS → Bool
  | .index | .newindex | .gc | .mode | .eq => true
  | _ => false

abbrev FastEvent := { event : TMS // event.isFast }

/-- `luaT_gettm`. -/
def luaTGettm (events : Nat) (event : FastEvent) : VmM (Option TValue) := do
  let heap := (← get).heap
  let t := heap.tables events
  match metamethod heap events event.val with
  | .nil =>
    -- cache this fact
    setHeap (withTable heap events { t with flags := t.flags ||| 2 ^ event.val.bit })
    return none
  | tm => return some tm

/-- `lua_rawset(L, -n)`. -/
def luaRawset (n : Nat) : VmM PUnit := do
  let h ← hvalue (← belowTop n)
  let key ← belowTop 2
  luaHSet h key
  putTable h key (← belowTop 1)
  vmPop 2

-- a metatable on the stack
def metatableArg : TValue → VmM (Option Nat)
  | .nil => return none
  | o => do return some (← hvalue o)

/-- `lua_setmetatable(L, -n)`. -/
def luaSetmetatable (n : Nat) : VmM PUnit := do
  let obj ← belowTop n
  let mt ← metatableArg (← belowTop 1)
  let heap := (← get).heap
  match obj with
  | .table h => setHeap (withTable heap h { heap.tables h with metatable := mt })
  | .userdata u =>
    let block := { heap.udata u with metatable := mt }
    setHeap { heap with udata := setAt heap.udata u block }
  | o => setHeap { heap with mt := Function.update heap.mt (ttype o) mt }
  vmPop 1

/-- A `resize`, of `luaH_resizearray` or in a `rehash`.  It moves what the nodes hold by `luaH_set`, and
when it runs out of memory some elements are lost. -/
def resizeTable (h : Nat) (lost : List TValue) (moved : Bool) : VmM PUnit := do
  let heap := (← get).heap
  let t := heap.tables h
  let entries := t.entries.filter fun e => e.1 ∉ lost
  setHeap (withTable heap h { t with entries, flags := if moved then 0 else t.flags })

/-! ## Runs -/

inductive TableAccess where
  | settable (t key v : TValue)
  | gettable (t key : TValue) (val : Nat)
  | rawset (n : Nat)
  | rawseti (n : Int)
  | setmetatable (n : Nat)
  | gettm (events : Nat) (event : FastEvent)
  | fasttm (et : Option Nat) (event : FastEvent)
  | resize (h : Nat) (lost : List TValue) (moved : Bool)

def TableAccess.program : TableAccess → VmM PUnit
  | .settable t key v => luaVSettable key v maxtagloop t
  | .gettable t key val => luaVGettable key val maxtagloop t
  | .rawset n => luaRawset n
  | .rawseti n => luaRawseti n
  | .setmetatable n => luaSetmetatable n
  | .gettm events event => discard (luaTGettm events event)
  | .fasttm et event => discard (vmFasttm et event.val)
  | .resize h lost moved => resizeTable h lost moved

def accessTables : System Heap (LuaState × TableAccess) where
  step heap access := some (stateAfter access.2.program { access.1 with heap }).heap

end Lunatik.Lua
