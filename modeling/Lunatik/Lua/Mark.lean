import Lunatik.Lua.Object

/-! # What the collector marks (`lgc.c`)

The objects that a traversal comes to, from the roots and from each object.  Strings are values here, so
they are no objects, and there is no thread but the main one. -/

namespace Lunatik.Lua

/-- The `global_State` as the collector sees it, with the heap of the objects. -/
structure GlobalState where
  heap : Heap
  -- gt(g->mainthread)
  globals : TValue
  registry : TValue
  -- the environment of a userdata
  env : Nat → Nat
  -- userdata that wait for their finalizers
  tmudata : List Nat

inductive GCObject where
  | table (h : Nat)
  | userdata (u : Nat)
  | function (f : Nat)
  | upval (id : Nat)
  deriving DecidableEq, Repr

def markvalue : TValue → List GCObject
  | .table h => [.table h]
  | .userdata u => [.userdata u]
  | .function f => [.function f]
  | _ => []

def markmetatable (mt : Option Nat) : List GCObject := mt.toList.map .table

-- strchr(svalue(gfasttm(g, h->metatable, TM_MODE)), c) != NULL
def weakMode (heap : Heap) (t : Table) (c : Char) : Bool :=
  match (fasttm heap t.metatable .mode).1 with
  | some (.string mode) => (mode.takeWhile (· ≠ 0)).contains (UInt8.ofNat c.toNat)
  | _ => false

def traversetable (heap : Heap) (t : Table) : List GCObject :=
  let weakkey := weakMode heap t 'k'
  let weakvalue := weakMode heap t 'v'
  markmetatable t.metatable ++ t.entries.flatMap fun e =>
    -- an empty entry is removed
    if e.2 = .nil then []
    else (if weakkey then [] else markvalue e.1) ++ if weakvalue then [] else markvalue e.2

-- the constants and the names of a prototype are no objects
def traverseclosure : Closure → List GCObject
  | .c _ upvalue env => .table env :: upvalue.flatMap markvalue
  | .lua _ upvals env => .table env :: upvals.map .upval

/-- `reallymarkobject` and `propagatemark`: what an object refers to. -/
def references (stack : Nat → TValue) (g : GlobalState) : GCObject → List GCObject
  | .table h => traversetable g.heap (g.heap.tables h)
  | .userdata u => markmetatable (g.heap.udata u).metatable ++ [.table (g.env u)]
  | .function f => traverseclosure (g.heap.closures f)
  | .upval id =>
    match g.heap.upvals id with
    | .openAt slot => markvalue (stack slot)
    | .closed v => markvalue v

def markmt (g : GlobalState) : List GCObject :=
  (List.range 9).flatMap fun tag => markmetatable (g.heap.mt tag)

-- the main thread is traversed by itself
def markroot (g : GlobalState) : List GCObject := markvalue g.globals ++ markvalue g.registry ++ markmt g

def marktmu (g : GlobalState) : List GCObject := g.tmudata.map .userdata

/-- What a collection comes to: the roots, the slots of the stack below the top, and what these refer to. -/
inductive Reachable (stack : Nat → TValue) (top : Nat) (g : GlobalState) : GCObject → Prop where
  | root {o : GCObject} : o ∈ markroot g ++ marktmu g → Reachable stack top g o
  | slot {o : GCObject} (j : Nat) : j < top → o ∈ markvalue (stack j) → Reachable stack top g o
  | child {o o' : GCObject} : Reachable stack top g o → o' ∈ references stack g o → Reachable stack top g o'

end Lunatik.Lua
