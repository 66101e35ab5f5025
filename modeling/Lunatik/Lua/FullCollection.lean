import Lunatik.Library.WhileLoop
import Lunatik.Lua.Mutator

/-! # A full collection (`lgc.c`)

`luaC_fullgc`, and what it is for: to leave what is wanted and nothing else.  Wanted is what the program can
get to without the weak entries of tables, and what a finalizer that is still to run can get to.
-/

namespace Lunatik.Lua.Gc

namespace GlobalState

variable (g : GlobalState)

-- while (g->gcstate != GCSfinalize) singlestep(L)
def finishSweep (rounds : Nat) : Option GlobalState :=
  Library.whileLoop (fun g => g.gcstate != .finalize) singlestep rounds g

/-- `luaC_fullgc`, up to the calls of finalizers. -/
def luaCFullgc (rounds : Nat) : Option GlobalState :=
  (g.resetSweep.finishSweep rounds).bind fun g => g.markroot.finishSweep rounds

end GlobalState

/-! ## What is wanted -/

/-- The objects that an entry keeps; strings are values, and never weak. -/
def strongly (weak : Bool) (v : TValue) : List GCObject :=
  match v with
  | .string ts => [.string ts]
  | v => if weak then [] else (gcvalue v).toList

def strongNodeRefs (weakkey weakvalue : Bool) (n : Node) : List GCObject :=
  if n.val = .nil then [] else strongly weakkey n.key ++ strongly weakvalue n.val

-- the slots above the top are dead
def strongThreadRefs (l : Thread) : List GCObject :=
  (gcvalue l.gt).toList ++ (List.range l.top).flatMap fun o => (gcvalue (l.stack o)).toList

namespace GlobalState

variable (g : GlobalState)

-- whether the keys and the values of a table are weak, by the `__mode` of its metatable
def weakness (t : Table) : Bool × Bool :=
  let mode := g.gfasttm t.metatable .mode
  (g.weakMode mode 'k', g.weakMode mode 'v')

def strongTableRefs (t : Table) : List GCObject :=
  (t.metatable.map .table).toList ++ t.array.flatMap (strongly (g.weakness t).2) ++
    t.node.flatMap (strongNodeRefs (g.weakness t).1 (g.weakness t).2)

/-- The objects that an object keeps. -/
def strongRefs : GCObject → List GCObject
  | .table h => g.strongTableRefs (g.heap.tables h)
  | .thread th => strongThreadRefs (g.heap.threads th)
  | o => g.refs o

/-- A udata whose finalizer has not been called for yet. -/
def Finalizable (o : GCObject) : Prop := ∃ u, o = .userdata u ∧ .userdata u ∈ g.objects ∧
  g.isfinalized u = false ∧ g.gfasttm (g.heap.udata u).metatable .gc ≠ none

/-- What a collection has to keep. -/
def Wanted : GCObject → Prop :=
  Library.Reachable (fun o => o ∈ g.roots ∨ g.Finalizable o) fun o o' => o' ∈ g.strongRefs o

/-! ## What is reached through strong references -/

/-- The main thread, with the stack up to its top and the globals, the registry and the metatables of the types. -/
def strongRoots : List GCObject :=
  .thread g.mainthread :: (gcvalue g.registry).toList ++ g.mt.flatMap fun mt => (mt.map .table).toList

def Strong : GCObject → Prop := Library.Reachable (· ∈ g.strongRoots) fun o o' => o' ∈ g.strongRefs o

end GlobalState

end Lunatik.Lua.Gc
