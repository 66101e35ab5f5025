import Lunatik.Library.StateRuns
import Lunatik.Library.TransitionSystem
import Lunatik.Lua.Ltable

/-! # Traversing a table (`ltable.c`, `lgc.c`)

A table as `luaH_next` sees it: a key that is a collectable object is a pointer with a type tag, and it stays
in its node as a dead key when the collector has removed the entry.  The memory behind the pointers changes
while the table stays: objects are freed, and others come to the same addresses.

The values that are stored are those of `Object`.  The four functions that search for a key are one here,
and so are those that set one; the numbers of keys that `rehash` counts are those of `Ltable`.
-/

namespace Lunatik.Lua.TableNext

open Lunatik.Library
open Ltable (Slot castNumber intPoint maxbits ceillog2)

/-! ## Keys and objects -/

inductive GcType where
  | string
  | table
  | function
  | userdata
  | thread
  deriving DecidableEq, Repr

/-- `TKey`; `dead` is the tag `LUA_TDEADKEY`, under which the pointer is kept. -/
inductive Key where
  | nil
  | boolean (b : Nat)
  | lightuserdata (p : Nat)
  | number (n : LuaNumber)
  | gc (tt : GcType) (p : Nat)
  | dead (p : Nat)
  deriving DecidableEq, Repr

/-- What is at an address: its type, and the bytes of a string. -/
structure Obj where
  tt : GcType
  bytes : List UInt8
  deriving DecidableEq, Repr

/-- The objects that have not been freed. -/
abbrev Memory := Nat → Option Obj

namespace Key

def isLive : Key → Bool
  | .nil | .dead _ => false
  | _ => true

-- a value that exists
def alive (mem : Memory) : Key → Bool
  | .gc tt p => (mem p).any fun o => o.tt == tt
  | key => key.isLive

/-- The key as `Ltable` counts it. -/
def view : Key → TValue
  | .number n => .number n
  | _ => .boolean 0

-- setttype(gkey(n), LUA_TDEADKEY)
def remove : Key → Key
  | .gc _ p => .dead p
  | key => key

end Key

/-! ## Tables -/

structure Node where
  val : TValue
  key : Key
  next : Option Nat
  deriving DecidableEq, Repr

def freeNode : Node := ⟨.nil, .nil, none⟩

/-- `requests` counts the requests for memory. -/
structure Table where
  array : Nat → TValue
  sizearray : Nat
  node : Nat → Node
  lsizenode : Nat
  isDummy : Bool
  lastfree : Nat
  requests : Nat

namespace Table

variable (t : Table)

def sizenode : Nat := 2 ^ t.lsizenode

/-- The table as `Ltable` has it, without the links. -/
def view : Ltable.Rep where
  array := t.array
  sizearray := t.sizearray
  node := fun i => ⟨(t.node i).val, (t.node i).key.view, none⟩
  lsizenode := t.lsizenode
  isDummy := t.isDummy
  lastfree := t.lastfree
  arrayBlock := 0

def valueAt : Slot → TValue
  | .array i => t.array i
  | .node i => (t.node i).val

def setNode (i : Nat) (n : Node) : Table := { t with node := Function.update t.node i n }

def setNext (i : Nat) (next : Option Nat) : Table := t.setNode i { t.node i with next }

def setKey (i : Nat) (key : Key) : Table := t.setNode i { t.node i with key }

def setSlot (slot : Slot) (v : TValue) : Table :=
  match slot with
  | .array i => { t with array := Function.update t.array i v }
  | .node i => t.setNode i { t.node i with val := v }

end Table

inductive TableError where
  | indexNil
  | indexNaN
  -- the predecessor of a node is searched behind the end of a chain
  | lostNode
  -- a chain without an end
  | endless
  | tooDeep
  -- `resize` is refused memory or asked for too many nodes; `grew` says that the array is larger already
  | failed (grew : Bool)
  deriving DecidableEq, Repr

abbrev TableM := EStateM TableError Table

variable (mem : Memory) (granted : Nat → Bool)

/-! ## Searching -/

-- the hash that a string carries
def stringHash (p : Nat) : Nat := (StringTable.hashOf ((mem p).elim [] Obj.bytes)).toNat

def mainposition (t : Table) : Key → Nat
  | .number n => Ltable.hashnum t.view n
  | .gc .string p => Ltable.hashpow2 t.view (stringHash mem p)
  | .boolean b => Ltable.hashpow2 t.view b
  | .lightuserdata p => Ltable.hashmod t.view (intPoint p)
  | .gc _ p | .dead p => Ltable.hashmod t.view (intPoint p)
  -- no position is asked for
  | .nil => Ltable.hashmod t.view 0

def arrayindex (key : Key) : Int := Ltable.arrayindex key.view

/-- The loop through a chain; `none` says that it has not ended in so many rounds. -/
def search (t : Table) (found : Key → Bool) : Nat → Nat → Option (Option Nat)
  | 0, _ => none
  | rounds + 1, n =>
    if found (t.node n).key then some (some n)
    else
      match (t.node n).next with
      | none => some none
      | some m => search t found rounds m

/-- `luaH_get`: the slot of the key, or `some none` for `luaO_nilobject`. -/
def luaHGet (t : Table) (key : Key) : Option (Option Slot) :=
  if key = .nil then some none
  else if 1 ≤ arrayindex key ∧ arrayindex key ≤ t.sizearray then
    some (some (.array (arrayindex key - 1).toNat))
  else (search t (· == key) t.sizenode (mainposition mem t key)).map fun found => found.map .node

/-- The value of the key. -/
def contents (t : Table) (key : Key) : TValue :=
  match luaHGet mem t key with
  | some (some slot) => t.valueAt slot
  | _ => .nil

/-! ## Inserting a key -/

def getfreepos (t : Table) : Nat → Option Nat × Nat
  | 0 => (none, 0)
  | n + 1 => if (t.node n).key = .nil then (some n, n) else getfreepos t n

-- while (gnext(othern) != mp) othern = gnext(othern)
def findPrevious (t : Table) (mp : Nat) : Nat → Nat → Option Nat
  | 0, _ => none
  | rounds + 1, othern =>
    match (t.node othern).next with
    | none => none
    | some m => if m = mp then some othern else findPrevious t mp rounds m

def newkey (grow : Key → TableM Slot) (key : Key) : TableM Slot := do
  let t ← get
  let mp := mainposition mem t key
  if (t.node mp).val ≠ .nil ∨ t.isDummy then
    let (n, lastfree) := getfreepos t t.lastfree
    modify fun t => { t with lastfree }
    match n with
    | none => grow key
    | some n =>
      let othern := mainposition mem t (t.node mp).key
      if othern ≠ mp then
        -- move colliding node into free position
        match findPrevious t mp t.sizenode othern with
        | none => throw .lostNode
        | some prev =>
          modify fun t => t.setNext prev (some n)
          modify fun t => t.setNode n (t.node mp)
          modify fun t => t.setNode mp { t.node mp with next := none, val := .nil }
          modify fun t => t.setKey mp key
          return .node mp
      else
        -- new node will go into free position
        modify fun t => t.setNext n (t.node mp).next
        modify fun t => t.setNext mp (some n)
        modify fun t => t.setKey n key
        return .node n
  else
    modify fun t => t.setKey mp key
    return .node mp

def luaHSet (grow : Key → TableM Slot) (key : Key) : TableM Slot := do
  match luaHGet mem (← get) key with
  | none => throw .endless
  | some (some slot) => return slot
  | some none =>
    if key = .nil then throw .indexNil
    else
      match key with
      | .number n => if luaiNumisnan n then throw .indexNaN else newkey mem grow key
      | key => newkey mem grow key

/-! ## Rehash -/

def request (grew : Bool) : TableM PUnit := do
  let t ← get
  set { t with requests := t.requests + 1 }
  if granted t.requests then return else throw (.failed grew)

def setarrayvector (size : Nat) : TableM PUnit := do
  request granted false
  modify fun t =>
    { t with
      array := fun i => if t.sizearray ≤ i ∧ i < size then .nil else t.array i
      sizearray := size }

def setnodevector (grew : Bool) (size : Nat) : TableM PUnit := do
  if size = 0 then
    modify fun t => { t with node := fun _ => freeNode, lsizenode := 0, isDummy := true, lastfree := 0 }
  else
    let lsize := ceillog2 size
    if maxbits < lsize then throw (.failed grew)
    request granted grew
    modify fun t => { t with node := fun _ => freeNode, lsizenode := lsize, isDummy := false, lastfree := 2 ^ lsize }

/-- The loop of `resize` over the vanishing slice of the array. -/
def reinsertSlice (grow : Key → TableM Slot) : List Nat → TableM PUnit
  | [] => return
  | i :: slice => do
    let v := (← get).array i
    if v ≠ .nil then
      let slot ← luaHSet mem grow (.number (castNumber (i + 1)))
      modify fun t => t.setSlot slot v
    reinsertSlice grow slice

/-- The loop of `resize` over the old nodes. -/
def reinsertNodes (grow : Key → TableM Slot) : List Node → TableM PUnit
  | [] => return
  | old :: rest => do
    if old.val ≠ .nil then
      let slot ← luaHSet mem grow old.key
      modify fun t => t.setSlot slot old.val
    reinsertNodes grow rest

-- nold + i, for i from twoto(oldhsize) - 1 down to 0
def oldNodes (t : Table) : List Node := (List.range t.sizenode).reverse.map t.node

-- the array shrinks, and the elements behind its new end go to the nodes
def shrinkArray (grow : Key → TableM Slot) (oldasize nasize : Nat) : TableM PUnit := do
  modify fun t => { t with sizearray := nasize }
  reinsertSlice mem grow (List.range' nasize (oldasize - nasize))
  request granted false

def resize (grow : Key → TableM Slot) (nasize nhsize : Nat) : TableM PUnit := do
  let old ← get
  if old.sizearray < nasize then setarrayvector granted nasize
  setnodevector granted (old.sizearray < nasize) nhsize
  if nasize < old.sizearray then shrinkArray mem granted grow old.sizearray nasize
  reinsertNodes mem grow (oldNodes old)

def rehash (grow : Key → TableM Slot) (ek : Key) : TableM PUnit := do
  let (nasize, nhsize) := Ltable.rehashSizes (← get).view ek.view
  resize mem granted grow nasize nhsize

/-- `rehash`, and the key inserted into the grown table; the depth bounds the calls inside of it. -/
def grow : Nat → Key → TableM Slot
  | 0, _ => throw .tooDeep
  | depth + 1, key => do
    rehash mem granted (grow depth) key
    luaHSet mem (grow depth) key

def luaHResizearray (depth nasize : Nat) : TableM PUnit := do
  let t ← get
  resize mem granted (grow mem granted depth) nasize (if t.isDummy then 0 else t.sizenode)

def setTable (depth : Nat) (key : Key) (v : TValue) : TableM PUnit := do
  let slot ← luaHSet mem (grow mem granted depth) key
  modify fun t => t.setSlot slot v

-- before its vectors are made
def emptyTable : Table where
  array := fun _ => .nil
  sizearray := 0
  node := fun _ => freeNode
  lsizenode := 0
  isDummy := true
  lastfree := 0
  requests := 0

def luaHNew (narray nhash : Nat) : TableM PUnit := do
  setarrayvector granted narray
  setnodevector granted false nhash

/-! ## Traversal -/

-- the dead key of an object is good enough for `next`
def sameKey (key : Key) (k : Key) : Bool :=
  k == key ||
    match k, key with
    | .dead p, .gc _ q => p == q
    | _, _ => false

/-- The index behind the one of the key; `none` is the error "invalid key to 'next'". -/
def findindex (t : Table) (key : Key) : Option Nat :=
  if key = .nil then some 0
  else if 0 < arrayindex key ∧ arrayindex key ≤ t.sizearray then some (arrayindex key).toNat
  else
    match search t (sameKey key) t.sizenode (mainposition mem t key) with
    | some (some i) => some (i + t.sizearray + 1)
    | _ => none

/-- The index, the key and the value of the first element that is not nil, from the index `i` on. -/
def firstFrom (t : Table) (i : Nat) : Option (Nat × Key × TValue) :=
  match (List.range' i (t.sizearray - i)).find? fun i => t.array i ≠ .nil with
  | some i => some (i, .number (castNumber (i + 1)), t.array i)
  | none =>
    match (List.range' (i - t.sizearray) (t.sizenode - (i - t.sizearray))).find?
        fun i => (t.node i).val ≠ .nil with
    | some i => some (i + t.sizearray, (t.node i).key, (t.node i).val)
    | none => none

/-- `luaH_next`: the error, the end, or the next key and its value. -/
def luaHNext (t : Table) (key : Key) : Option (Option (Key × TValue)) :=
  (findindex mem t key).map fun i => (firstFrom t i).map Prod.snd

/-! ## Collections -/

/-- What a collection finds: the mode of the table, the objects that are marked, the values that
`iscleared` would have removed, and the nodes that had lost their value when the table was traversed. -/
structure Collection where
  weakkey : Bool
  weakvalue : Bool
  marked : Nat → Bool
  cleared : Slot → Bool
  empty : Nat → Bool

namespace Collection

variable (c : Collection)

def removeentry (n : Node) : Node := { n with key := n.key.remove }

/-- `traversetable`, which leaves a table alone that is weak in both. -/
def traverseNode (i : Nat) (n : Node) : Node :=
  if c.weakkey && c.weakvalue then n
  else if n.val = .nil ∧ c.empty i then removeentry n
  else n

-- iscleared(key2tval(n), 1)
def keyCleared : Key → Bool
  | .gc .string _ => false
  | .gc _ p => !c.marked p
  | _ => false

/-- `cleartable`. -/
def clearNode (i : Nat) (n : Node) : Node :=
  if n.val ≠ .nil ∧ (c.keyCleared n.key || c.cleared (.node i)) then
    removeentry { n with val := .nil }
  else n

def weak : Bool := c.weakkey || c.weakvalue

def collectNode (i : Nat) (n : Node) : Node :=
  if c.weak then c.clearNode i (c.traverseNode i n) else c.traverseNode i n

def collectTable (t : Table) : Table :=
  { t with
    array := fun i =>
      if c.weakvalue && i < t.sizearray && c.cleared (.array i) then .nil else t.array i
    node := fun i => if i < t.sizenode then c.collectNode i (t.node i) else t.node i }

def sweep (mem : Memory) : Memory := fun p => if c.marked p then mem p else none

-- the object of the key stays
def keeps : Key → Bool
  | .gc _ p => c.marked p
  | _ => true

/-- What the collector marks: the keys of elements, but for weak ones that are no strings, and the keys
of elements that have lost their value behind its back. -/
def marksKeys (t : Table) : Bool :=
  (List.range t.sizenode).all fun i =>
    let n := t.node i
    if n.val = .nil then (c.weakkey && c.weakvalue) || c.empty i || c.keeps n.key
    else c.keeps n.key || (c.weakkey && c.keyCleared n.key)

end Collection

/-! ## Runs -/

structure World where
  mem : Memory
  t : Table

/-- What a program and the collector do with a table. -/
inductive TableEvent where
  | alloc (p : Nat) (o : Obj)
  | set (key : Key) (v : TValue)
  | resizearray (nasize : Nat)
  | collect (c : Collection)

namespace World

variable (w : World)

def ready : TableEvent → Bool
  | .alloc p _ => (w.mem p).isNone
  | .set key _ => key = .nil || key.alive w.mem
  | .resizearray nasize => nasize < 2 ^ 31
  | .collect c => c.marksKeys w.t

def run (m : TableM PUnit) : World := { w with t := stateAfter m w.t }

def exec (depth : Nat) : TableEvent → World
  | .alloc p o => { w with mem := Function.update w.mem p (some o) }
  | .set key v => w.run (setTable w.mem granted depth key v)
  | .resizearray nasize => w.run (luaHResizearray w.mem granted depth nasize)
  | .collect c => { mem := c.sweep w.mem, t := c.collectTable w.t }

end World

def newWorld (narray nhash : Nat) : World := ⟨fun _ => none, stateAfter (luaHNew granted narray nhash) emptyTable⟩

def tables (depth : Nat) : System World TableEvent where
  step w e := if w.ready e then some (w.exec granted depth e) else none

/-- A traversal: the key that it has come to, and what it has returned. -/
structure Traversal where
  mem : Memory
  t : Table
  key : Key
  returned : List (Key × TValue)
  ended : Bool
  failed : Bool

inductive TraversalEvent where
  | next
  | alloc (p : Nat) (o : Obj)
  | assign (key : Key) (v : TValue)
  | collect (c : Collection)

namespace Traversal

variable (s : Traversal)

/-- Only fields that exist are assigned, and the current key is on the stack. -/
def ready : TraversalEvent → Bool
  | .next => !s.ended && !s.failed
  | .alloc p _ => (s.mem p).isNone
  | .assign key _ => key.alive s.mem && (luaHGet s.mem s.t key).join.isSome
  | .collect c => c.marksKeys s.t && c.keeps s.key

def exec (depth : Nat) : TraversalEvent → Traversal
  | .next =>
    match luaHNext s.mem s.t s.key with
    | none => { s with failed := true }
    | some none => { s with ended := true }
    | some (some (key, v)) => { s with key, returned := s.returned ++ [(key, v)] }
  | .alloc p o => { s with mem := Function.update s.mem p (some o) }
  | .assign key v => { s with t := stateAfter (setTable s.mem granted depth key v) s.t }
  | .collect c => { s with mem := c.sweep s.mem, t := c.collectTable s.t }

def start (w : World) : Traversal := ⟨w.mem, w.t, .nil, [], false, false⟩

end Traversal

def traversals (depth : Nat) : System Traversal TraversalEvent where
  step s e := if s.ready e then some (s.exec granted depth e) else none

end Lunatik.Lua.TableNext
