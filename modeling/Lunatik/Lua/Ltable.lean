import Lunatik.Lua.Object
import Lunatik.Lua.StringTable
import Mathlib.Logic.Function.Basic

/-! # Tables (`ltable.c`)

A table as it is stored: an array part and a hash part, which is a chained scatter table with
Brent's variation.  `array` and `node` are the memory behind the two pointers, a node is named by
its index and `next` by the index of the node it points to.  `lastfree` is an index as well; where
the source lets it run below the first node, it stays at zero, and no free node is found either way.

`address` gives the address of a collectable object, which its hash is taken from.  Strings are
interned, so a string is its bytes, and the hash that it carries is `hashOf` of them.  The flags and
the metatable of a table play no part here, and every allocation succeeds.

`luaH_set`, `newkey`, `rehash` and `resize` call each other.  Here each of them is given the program
`grow` that `newkey` runs when no node is free, and `grow` itself is bounded in its depth.
-/

namespace Lunatik.Lua.Ltable

open Lunatik.Lua

structure Node where
  val : TValue
  key : TValue
  next : Option Nat
  deriving DecidableEq, Repr

def freeNode : Node := ⟨.nil, .nil, none⟩

structure Rep where
  array : Nat → TValue
  sizearray : Nat
  node : Nat → Node
  lsizenode : Nat
  -- t->node == dummynode
  isDummy : Bool
  lastfree : Nat
  -- the number of times luaM_reallocvector has been called on t->array
  arrayBlock : Nat

/-- Where `resize` cannot go on. -/
inductive FailPoint where
  | growArray
  | tableOverflow
  | newNodes
  | shrinkArray
  deriving DecidableEq, Repr

inductive TableError where
  | overflow
  | indexNil
  | indexNaN
  -- a pointer into t->array is used after the array was reallocated
  | staleArray
  -- the predecessor of a node is searched behind the end of a chain
  | lostNode
  -- a chain without an end
  | endless
  | tooDeep
  -- a `resize` from one array size to another, which may be nested in the move of an element
  | failed (moving : Bool) (point : FailPoint) (oldasize nasize : Nat)
  deriving DecidableEq, Repr

abbrev TableM := EStateM TableError Rep

/-- `TValue *`: an element of the array part or the value of a node. -/
inductive Slot where
  | array (i : Nat)
  | node (i : Nat)
  deriving DecidableEq, Repr

def maxbits : Nat := 26
def maxasize : Nat := 2 ^ maxbits

namespace Rep

def sizenode (t : Rep) : Nat := 2 ^ t.lsizenode

def valueAt (t : Rep) : Slot → TValue
  | .array i => t.array i
  | .node i => (t.node i).val

def setNode (t : Rep) (i : Nat) (n : Node) : Rep := { t with node := Function.update t.node i n }

def setNext (t : Rep) (i : Nat) (next : Option Nat) : Rep := t.setNode i { t.node i with next }

def setKey (t : Rep) (i : Nat) (key : TValue) : Rep := t.setNode i { t.node i with key }

/-- `setobj` to a slot. -/
def setSlot (t : Rep) (slot : Slot) (v : TValue) : Rep :=
  match slot with
  | .array i => { t with array := Function.update t.array i v }
  | .node i => t.setNode i { t.node i with val := v }

end Rep

variable (address : TValue → Nat)

/-! ## Hashing -/

def hashpow2 (t : Rep) (n : Nat) : Nat := n &&& (t.sizenode - 1)

def hashmod (t : Rep) (n : Nat) : Nat := n % ((t.sizenode - 1) ||| 1)

/-- `hashnum`: the two halves of the word are added as unsigned ints. -/
def hashnum (t : Rep) (n : LuaNumber) : Nat :=
  if n = 0 then 0 else hashmod t (n.extractLsb' 0 32 + n.extractLsb' 32 32).toNat

-- IntPoint(p)
def intPoint (p : Nat) : Nat := p % 2 ^ 32

def mainposition (t : Rep) (key : TValue) : Nat :=
  match key with
  | .number n => hashnum t n
  | .string s => hashpow2 t (StringTable.hashOf s).toNat
  | .boolean b => hashpow2 t b
  | .lightuserdata p => hashmod t (intPoint p)
  | _ => hashmod t (intPoint (address key))

-- lua_number2int and cast_num
def number2int (n : LuaNumber) : Int := (n.setWidth 32).toInt
def castNumber (k : Int) : LuaNumber := BitVec.ofInt 64 k

def arrayindex : TValue → Int
  | .number n => if luaiNumeq (castNumber (number2int n)) n then number2int n else -1
  | _ => -1

/-! ## Searching -/

/-- The loop through a chain; `none` says that it has not ended in so many rounds. -/
def search (t : Rep) (found : TValue → Bool) : Nat → Nat → Option (Option Slot)
  | 0, _ => none
  | rounds + 1, n =>
    if found (t.node n).key then some (some (.node n))
    else
      match (t.node n).next with
      | none => some none
      | some m => search t found rounds m

-- no loop through a chain takes more rounds than there are nodes
def searchFrom (t : Rep) (found : TValue → Bool) (n : Nat) : Option (Option Slot) :=
  search t found t.sizenode n

def luaHGetnum (t : Rep) (key : Int) : Option (Option Slot) :=
  -- cast(unsigned int, key-1)
  let i := ((key - 1) % 2 ^ 32).toNat
  if i < t.sizearray then some (some (.array i))
  else
    let nk := castNumber key
    searchFrom t (fun k => match k with | .number n => luaiNumeq n nk | _ => false) (hashnum t nk)

def luaHGetstr (t : Rep) (key : List UInt8) : Option (Option Slot) :=
  searchFrom t (fun k => match k with | .string s => s == key | _ => false)
    (hashpow2 t (StringTable.hashOf key).toNat)

-- the default case of luaH_get; luaO_rawequalObj is equality of values
def luaHGetAny (t : Rep) (key : TValue) : Option (Option Slot) :=
  searchFrom t (fun k => k == key) (mainposition address t key)

/-- `luaH_get`: the slot of the key, or `some none` for `luaO_nilobject`. -/
def luaHGet (t : Rep) (key : TValue) : Option (Option Slot) :=
  match key with
  | .nil => some none
  | .string s => luaHGetstr t s
  | .number n =>
    if luaiNumeq (castNumber (number2int n)) n then
      luaHGetnum t (number2int n) else luaHGetAny address t key
  | key => luaHGetAny address t key

/-- What the pointer returned by a search points to. -/
def pointee (t : Rep) : Option Slot → TValue
  | none => .nil
  | some slot => t.valueAt slot

/-! ## Inserting a key -/

/-- `getfreepos`, from `lastfree` down: the free node and the new `lastfree`. -/
def getfreepos (t : Rep) : Nat → Option Nat × Nat
  | 0 => (none, 0)
  | n + 1 => if (t.node n).key = .nil then (some n, n) else getfreepos t n

-- while (gnext(othern) != mp) othern = gnext(othern)
def findPrevious (t : Rep) (mp : Nat) : Nat → Nat → Option Nat
  | 0, _ => none
  | rounds + 1, othern =>
    match (t.node othern).next with
    | none => none
    | some m => if m = mp then some othern else findPrevious t mp rounds m

def newkey (grow : TValue → TableM Slot) (key : TValue) : TableM Slot := do
  let t ← get
  let mp := mainposition address t key
  if (t.node mp).val ≠ .nil ∨ t.isDummy then
    let (n, lastfree) := getfreepos t t.lastfree
    modify fun t => { t with lastfree }
    match n with
    | none => grow key
    | some n =>
      let othern := mainposition address t (t.node mp).key
      if othern ≠ mp then
        -- move colliding node into free position
        match findPrevious t mp t.sizenode othern with
        | none => throw .lostNode
        | some prev =>
          modify fun t => t.setNext prev (some n)
          modify fun t => t.setNode n (t.node mp)
          modify fun t => t.setNode mp { t.node mp with next := none, val := .nil }
          modify fun t => t.setKey mp key
          return .node mp
      else
        -- new node will go into free position
        modify fun t => t.setNext n (t.node mp).next
        modify fun t => t.setNext mp (some n)
        modify fun t => t.setKey n key
        return .node n
  else
    modify fun t => t.setKey mp key
    return .node mp

def luaHSet (grow : TValue → TableM Slot) (key : TValue) : TableM Slot := do
  match luaHGet address (← get) key with
  | none => throw .endless
  | some (some slot) => return slot
  | some none =>
    if key = .nil then throw .indexNil
    else
      match key with
      | .number n => if luaiNumisnan n then throw .indexNaN else newkey address grow key
      | key => newkey address grow key

def luaHSetnum (grow : TValue → TableM Slot) (key : Int) : TableM Slot := do
  match luaHGetnum (← get) key with
  | none => throw .endless
  | some (some slot) => return slot
  | some none => newkey address grow (.number (castNumber key))

def luaHSetstr (grow : TValue → TableM Slot) (key : List UInt8) : TableM Slot := do
  match luaHGetstr (← get) key with
  | none => throw .endless
  | some (some slot) => return slot
  | some none => newkey address grow (.string key)

/-! ## Rehash -/

-- log_2[x], for a byte: the number of its binary digits
def log2Table (x : Nat) : Nat := if x = 0 then 0 else Nat.log2 x + 1

/-- `luaO_log2`; four rounds are enough for an unsigned int. -/
def luaOLog2 : Nat → Int → Nat → Int
  | 0, l, x => l + log2Table x
  | rounds + 1, l, x => if 256 ≤ x then luaOLog2 rounds (l + 8) (x >>> 8) else l + log2Table x

def ceillog2 (x : Nat) : Nat := (luaOLog2 4 (-1) (x - 1) + 1).toNat

def countint (key : TValue) (nums : Nat → Nat) : Nat × (Nat → Nat) :=
  let k := arrayindex key
  if 0 < k ∧ k ≤ maxasize then
    let lg := ceillog2 k.toNat
    (1, Function.update nums lg (nums lg + 1))
  else (0, nums)

-- the elements in use among those with index i up to lim, counted from 1
def countSlice (t : Rep) (i lim : Nat) : Nat :=
  (List.range' i (lim + 1 - i)).countP fun i => t.array (i - 1) ≠ .nil

/-- The loop of `numusearray` over the slices from `lg` on. -/
def numusearrayLoop (t : Rep) : Nat → Nat → Nat → Nat → (Nat → Nat) → Nat × (Nat → Nat)
  | 0, _, _, ause, nums => (ause, nums)
  | rounds + 1, lg, i, ause, nums =>
    let ttlg := 2 ^ lg
    let lim := if t.sizearray < ttlg then t.sizearray else ttlg
    if t.sizearray < ttlg ∧ lim < i then (ause, nums)
    else
      let lc := countSlice t i lim
      numusearrayLoop t rounds (lg + 1) (max i (lim + 1)) (ause + lc)
        (Function.update nums lg (nums lg + lc))

def numusearray (t : Rep) (nums : Nat → Nat) : Nat × (Nat → Nat) :=
  numusearrayLoop t (maxbits + 1) 0 1 0 nums

/-- The loop of `numusehash` over the nodes below `i`: all elements, and those that may go to the array. -/
def numusehashLoop (t : Rep) : Nat → Nat → Nat → (Nat → Nat) → Nat × Nat × (Nat → Nat)
  | 0, totaluse, ause, nums => (totaluse, ause, nums)
  | i + 1, totaluse, ause, nums =>
    let n := t.node i
    if n.val ≠ .nil then
      let (one, nums) := countint n.key nums
      numusehashLoop t i (totaluse + 1) (ause + one) nums
    else numusehashLoop t i totaluse ause nums

def numusehash (t : Rep) (nums : Nat → Nat) : Nat × Nat × (Nat → Nat) :=
  numusehashLoop t t.sizenode 0 0 nums

/-- The loop of `computesizes`: the size for the array part and the number of elements in it. -/
def computesizesLoop (nums : Nat → Nat) (narray : Nat) : Nat → Nat → Nat → Nat → Nat → Nat × Nat
  | 0, _, _, n, na => (n, na)
  | rounds + 1, i, a, n, na =>
    let twotoi := 2 ^ i
    if twotoi / 2 < narray then
      let (a, n, na) :=
        if 0 < nums i then
          let a := a + nums i
          if twotoi / 2 < a then (a, twotoi, a) else (a, n, na)
        else (a, n, na)
      if a = narray then (n, na) else computesizesLoop nums narray rounds (i + 1) a n na
    else (n, na)

-- at most 2^MAXBITS elements are counted, so that the loop ends behind the last of nums
def computesizes (nums : Nat → Nat) (narray : Nat) : Nat × Nat :=
  computesizesLoop nums narray (maxbits + 1) 0 0 0 0

def setarrayvector (size : Nat) : TableM PUnit := modify fun t =>
  { t with
    array := fun i => if t.sizearray ≤ i ∧ i < size then .nil else t.array i
    sizearray := size
    arrayBlock := t.arrayBlock + 1 }

def setnodevector (size : Nat) : TableM PUnit := do
  if size = 0 then modify fun t => { t with node := fun _ => freeNode, lsizenode := 0, isDummy := true, lastfree := 0 }
  else
    let lsize := ceillog2 size
    if maxbits < lsize then throw .overflow
    modify fun t => { t with node := fun _ => freeNode, lsizenode := lsize, isDummy := false, lastfree := 2 ^ lsize }

/-- The loop of `resize` over the vanishing slice of the array. -/
def reinsertSlice (grow : TValue → TableM Slot) : List Nat → TableM PUnit
  | [] => return
  | i :: slice => do
    let t ← get
    if t.array i ≠ .nil then
      let slot ← luaHSetnum address grow (i + 1)
      -- o2 was taken before the call
      if (← get).arrayBlock ≠ t.arrayBlock then throw .staleArray
      modify fun t => t.setSlot slot (t.array i)
    reinsertSlice grow slice

/-- The loop of `resize` over the old nodes. -/
def reinsertNodes (grow : TValue → TableM Slot) : List Node → TableM PUnit
  | [] => return
  | old :: rest => do
    if old.val ≠ .nil then
      let slot ← luaHSet address grow old.key
      modify fun t => t.setSlot slot old.val
    reinsertNodes grow rest

-- nold + i, for i from twoto(oldhsize) - 1 down to 0
def oldNodes (t : Rep) : List Node := (List.range t.sizenode).reverse.map t.node

def resize (grow : TValue → TableM Slot) (nasize nhsize : Nat) : TableM PUnit := do
  let old ← get
  if old.sizearray < nasize then setarrayvector nasize
  setnodevector nhsize
  if nasize < old.sizearray then
    modify fun t => { t with sizearray := nasize }
    reinsertSlice address grow (List.range' nasize (old.sizearray - nasize))
    modify fun t => { t with arrayBlock := t.arrayBlock + 1 }
  reinsertNodes address grow (oldNodes old)

/-- The sizes that `rehash` computes for the array and for the hash part, the key `ek` included. -/
def rehashSizes (t : Rep) (ek : TValue) : Nat × Nat :=
  let (inArray, nums) := numusearray t fun _ => 0
  let (inHash, candidates, nums) := numusehash t nums
  let (one, nums) := countint ek nums
  let (nasize, na) := computesizes nums (inArray + candidates + one)
  (nasize, inArray + inHash + 1 - na)

def rehash (grow : TValue → TableM Slot) (ek : TValue) : TableM PUnit := do
  let (nasize, nhsize) := rehashSizes (← get) ek
  resize address grow nasize nhsize

/-- `rehash`, and the key inserted into the grown table; the depth bounds the calls inside of it. -/
def grow : Nat → TValue → TableM Slot
  | 0, _ => throw .tooDeep
  | depth + 1, key => do
    rehash address (grow depth) key
    luaHSet address (grow depth) key

/-! ## Operations on a table -/

def luaHNew (narray nhash : Nat) : TableM PUnit := do
  set ({ array := fun _ => .nil, sizearray := 0, node := fun _ => freeNode, lsizenode := 0, isDummy := true,
         lastfree := 0, arrayBlock := 0 } : Rep)
  setarrayvector narray
  setnodevector nhash

def luaHResizearray (depth nasize : Nat) : TableM PUnit := do
  let t ← get
  resize address (grow address depth) nasize (if t.isDummy then 0 else t.sizenode)

/-- A store through one of the three functions, or a call of `luaH_resizearray`. -/
inductive TableOp where
  | set (key v : TValue)
  | setnum (key : BitVec 32) (v : TValue)
  | setstr (key : List UInt8) (v : TValue)
  | resizearray (nasize : Nat)
  deriving DecidableEq, Repr

def store (slot : TableM Slot) (v : TValue) : TableM PUnit := do
  let slot ← slot
  modify fun t => t.setSlot slot v

def runOp (depth : Nat) : TableOp → TableM PUnit
  | .set key v => store (luaHSet address (grow address depth) key) v
  | .setnum key v => store (luaHSetnum address (grow address depth) key.toInt) v
  | .setstr key v => store (luaHSetstr address (grow address depth) key) v
  | .resizearray nasize => luaHResizearray address depth nasize

end Lunatik.Lua.Ltable
