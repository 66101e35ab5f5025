import Lunatik.Lua.Number

/-! # Lua objects

Values, prototypes, closures and the collectable heap of `lobject.h`.  A string is
its bytes: strings are interned, so that comparing pointers is comparing bytes.  A
boolean keeps the C `int` it is stored as, since `OP_LOADBOOL` can store any operand.
Tables, closures, upvalues and userdata are named by a heap index.

Prototypes come from `LoadFunction`: a string constant may be NULL there, which is why
constants have a type of their own.
-/

namespace Lunatik.Lua

/-- A 32-bit virtual-machine instruction. -/
abbrev Instruction := BitVec 32

/-- Tagged values (`TValue`). -/
inductive TValue where
  | nil
  | boolean (b : Nat)
  | lightuserdata (p : Nat)
  | number (n : LuaNumber)
  | string (s : List UInt8)
  | table (h : Nat)
  | function (c : Nat)
  | userdata (u : Nat)
  | thread (t : Nat)
  deriving DecidableEq, Repr, Inhabited

/-- Type tags (`lua.h`). -/
def luaTnone : Int := -1
def luaTnil : Int := 0
def luaTboolean : Int := 1
def luaTlightuserdata : Int := 2
def luaTnumber : Int := 3
def luaTstring : Int := 4
def luaTtable : Int := 5
def luaTfunction : Int := 6
def luaTuserdata : Int := 7
def luaTthread : Int := 8

/-- `ttype(o)`. -/
def ttype : TValue → Int
  | .nil => luaTnil
  | .boolean _ => luaTboolean
  | .lightuserdata _ => luaTlightuserdata
  | .number _ => luaTnumber
  | .string _ => luaTstring
  | .table _ => luaTtable
  | .function _ => luaTfunction
  | .userdata _ => luaTuserdata
  | .thread _ => luaTthread

def ttisnumber (o : TValue) : Bool := ttype o == luaTnumber

/-- `l_isfalse(o)`. -/
def lIsfalse : TValue → Bool
  | .nil => true
  | .boolean b => b == 0
  | _ => false

/-- `luaV_tonumber`: a number, or a string that reads as one. -/
def luaVTonumber : TValue → Option LuaNumber
  | .number n => some n
  | .string s => luaOStr2d s
  | _ => none

/-- `luaV_tostring` as the macro `tostring` uses it: strings stay, numbers are formatted. -/
def tostring : TValue → Option (List UInt8)
  | .string s => some s
  | .number n => some (luaNumber2str n)
  | _ => none

/-! ## Prototypes -/

/-- Constants of a prototype; `string none` is the NULL that an empty size loads. -/
inductive Constant where
  | nil
  | boolean (b : Bool)
  | number (n : LuaNumber)
  | string (s : Option (List UInt8))
  deriving DecidableEq, Repr

/-- `LocVar`. -/
structure LocVar where
  varname : Option (List UInt8)
  startpc : Nat
  endpc : Nat
  deriving DecidableEq, Repr

/-- `Proto`; the C arrays and their sizes are lists. -/
structure Proto where
  source : Option (List UInt8)
  linedefined : Nat
  lastlinedefined : Nat
  nups : UInt8
  numparams : UInt8
  isVararg : UInt8
  maxstacksize : UInt8
  code : List Instruction
  k : List Constant
  p : List Proto
  lineinfo : List (BitVec 32)
  locvars : List LocVar
  upvalues : List (Option (List UInt8))

namespace Proto

def sizecode (pt : Proto) : Nat := pt.code.length
def sizek (pt : Proto) : Nat := pt.k.length
def sizep (pt : Proto) : Nat := pt.p.length

end Proto

/-- Masks for new-style vararg (`lobject.h`). -/
def varargHasarg : UInt8 := 1
def varargIsvararg : UInt8 := 2
def varargNeedsarg : UInt8 := 4

/-! ## Heap objects -/

/-- A table as the finite map it implements, with its metatable and the cache of absent
    tag methods. -/
structure Table where
  entries : List (TValue × TValue)
  metatable : Option Nat
  flags : Nat
  deriving Repr, Inhabited

-- cast_byte(~0): a table without elements has no tag methods
def newTable : Table := ⟨[], none, 255⟩

@[simp] theorem newTable_metatable : newTable.metatable = none := rfl

/-- A full userdata block. -/
structure Udata where
  bytes : List UInt8
  metatable : Option Nat
  deriving Repr, Inhabited

/-- `Closure`: a Lua function with its upvalues, or a C function. -/
inductive Closure where
  | lua (p : Proto) (upvals : List Nat) (env : Nat)
  | c (f : Nat) (upvalues : List TValue) (env : Nat)

instance : Inhabited Closure := ⟨.c 0 [] 0⟩

/-- `UpVal`: a stack slot while open, its own value once closed. -/
inductive UpVal where
  | openAt (slot : Nat)
  | closed (v : TValue)
  deriving Repr, Inhabited

/-- The collectable objects of a state.  `mt` holds the metatables of the basic types. -/
structure Heap where
  tables : Nat → Table
  closures : Nat → Closure
  upvals : Nat → UpVal
  udata : Nat → Udata
  mt : Int → Option Nat
  nextTable : Nat
  nextClosure : Nat
  nextUpval : Nat

/-- A heap without objects. -/
def emptyHeap : Heap :=
  ⟨fun _ => default, fun _ => default, fun _ => default, fun _ => default, fun _ => none, 0, 0, 0⟩

/-- Point update of a heap component. -/
def setAt {α : Type*} (f : Nat → α) (i : Nat) (v : α) : Nat → α := fun j => if j = i then v else f j

@[simp] theorem setAt_same {α : Type*} (f : Nat → α) (i : Nat) (v : α) : setAt f i v i = v := by
  simp [setAt]

theorem setAt_other {α : Type*} (f : Nat → α) {i j : Nat} (v : α) (h : j ≠ i) :
    setAt f i v j = f j := by
  simp [setAt, h]

theorem setAt_setAt {α : Type*} (f : Nat → α) (i : Nat) (v w : α) :
    setAt (setAt f i v) i w = setAt f i w := by
  funext j
  by_cases here : j = i
  · rw [here, setAt_same, setAt_same]
  · rw [setAt_other _ _ here, setAt_other _ _ here, setAt_other _ _ here]

-- the heap with the table `h` replaced
def withTable (heap : Heap) (h : Nat) (t : Table) : Heap :=
  { heap with tables := setAt heap.tables h t }

theorem withTable_self (heap : Heap) (h : Nat) : withTable heap h (heap.tables h) = heap := by
  have same : setAt heap.tables h (heap.tables h) = heap.tables := by
    funext j
    by_cases at' : j = h
    · rw [at', setAt_same]
    · rw [setAt_other _ _ at']
  rw [withTable, same]

theorem withTable_twice (heap : Heap) (h : Nat) (t t' : Table) :
    withTable (withTable heap h t) h t' = withTable heap h t' := by
  rw [withTable, withTable, withTable, setAt_setAt]

@[simp] theorem withTable_tables_same (heap : Heap) (h : Nat) (t : Table) :
    (withTable heap h t).tables h = t :=
  setAt_same _ _ _

theorem withTable_tables_other (heap : Heap) {h j : Nat} (other : j ≠ h) (t : Table) :
    (withTable heap h t).tables j = heap.tables j := setAt_other _ _ other

@[simp] theorem withTable_closures (heap : Heap) (h : Nat) (t : Table) :
    (withTable heap h t).closures = heap.closures := rfl

@[simp] theorem withTable_nextClosure (heap : Heap) (h : Nat) (t : Table) :
    (withTable heap h t).nextClosure = heap.nextClosure := rfl

@[simp] theorem withTable_udata (heap : Heap) (h : Nat) (t : Table) :
    (withTable heap h t).udata = heap.udata := rfl

/-! ## Tables (`ltable.c`) and tag methods (`ltm.c`) -/

/-- Tag-method events, in the order of `ltm.h`. -/
inductive TMS where
  | index | newindex | gc | mode | eq
  | add | sub | mul | div | mod | pow | unm | len | lt | le | concat | call
  deriving DecidableEq, Repr

/-- `luaT_eventname`. -/
def TMS.name : TMS → String
  | .index => "__index" | .newindex => "__newindex" | .gc => "__gc" | .mode => "__mode"
  | .eq => "__eq" | .add => "__add" | .sub => "__sub" | .mul => "__mul" | .div => "__div"
  | .mod => "__mod" | .pow => "__pow" | .unm => "__unm" | .len => "__len" | .lt => "__lt"
  | .le => "__le" | .concat => "__concat" | .call => "__call"

/-- The bytes of a C string literal. -/
def literal (s : String) : List UInt8 := s.toUTF8.toList

/-- `luaH_get`. -/
def luaHGet (t : Table) (key : TValue) : TValue :=
  match t.entries.find? (fun e => e.1 = key) with
  | some e => e.2
  | none => .nil

/-- Store under a key, in place when the key is already there. -/
def putEntry (key v : TValue) : List (TValue × TValue) → List (TValue × TValue)
  | [] => [(key, v)]
  | e :: es => if e.1 = key then (key, v) :: es else e :: putEntry key v es

/-- Write through the slot that `luaH_setnum` or `luaH_setstr` returns: these do not touch `flags`. -/
def luaHPut (t : Table) (key v : TValue) : Table := { t with entries := putEntry key v t.entries }

theorem find_putEntry_same (key v : TValue) (entries : List (TValue × TValue)) :
    (putEntry key v entries).find? (fun e => e.1 = key) = some (key, v) := by
  induction entries with
  | nil => rw [putEntry, List.find?_cons_of_pos (by simp)]
  | cons e es ih =>
    rw [putEntry]
    split
    next => rw [List.find?_cons_of_pos (by simp)]
    next other => rw [List.find?_cons_of_neg (by simpa using other), ih]

theorem find_putEntry_other {key other : TValue} (ne : other ≠ key) (v : TValue)
    (entries : List (TValue × TValue)) :
    (putEntry key v entries).find? (fun e => e.1 = other) =
      entries.find? (fun e => e.1 = other) := by
  have skip : ¬ key = other := fun same => ne same.symm
  induction entries with
  | nil => rw [putEntry, List.find?_cons_of_neg (by simpa using skip)]
  | cons e es ih =>
    rw [putEntry]
    split
    next same =>
      rw [List.find?_cons_of_neg (by simpa using skip),
        List.find?_cons_of_neg (by simpa [same] using skip)]
    next =>
      by_cases found : e.1 = other
      · rw [List.find?_cons_of_pos (by simpa using found),
          List.find?_cons_of_pos (by simpa using found)]
      · rw [List.find?_cons_of_neg (by simpa using found),
          List.find?_cons_of_neg (by simpa using found), ih]

theorem luaHGet_put_same (t : Table) (key v : TValue) : luaHGet (luaHPut t key v) key = v := by
  rw [luaHGet, luaHPut, find_putEntry_same]

theorem luaHGet_put_other (t : Table) {key other : TValue} (ne : other ≠ key) (v : TValue) :
    luaHGet (luaHPut t key v) other = luaHGet t other := by
  rw [luaHGet, luaHPut, find_putEntry_other ne, luaHGet]

-- the value under a key of the metatable `mt`
def metamethod (h : Heap) (mt : Nat) (event : TMS) : TValue :=
  luaHGet (h.tables mt) (.string (literal event.name))

/-- `luaT_gettmbyobj`. -/
def luaTGettmbyobj (heap : Heap) (o : TValue) (event : TMS) : TValue :=
  let mt :=
    match o with
    | .table h => (heap.tables h).metatable
    | .userdata u => (heap.udata u).metatable
    | o => heap.mt (ttype o)
  match mt with
  | none => .nil
  | some m => luaHGet (heap.tables m) (.string (literal event.name))

/-- Index of a fast-access event in `flags`. -/
def TMS.bit : TMS → Nat
  | .index => 0 | .newindex => 1 | .gc => 2 | .mode => 3 | _ => 4

/-- `fasttm(L, et, e)`: the tag method of `et`, consulting and filling its cache of absent ones. -/
def fasttm (heap : Heap) (et : Option Nat) (event : TMS) : Option TValue × Heap :=
  match et with
  | none => (none, heap)
  | some m =>
    if (heap.tables m).flags.testBit event.bit then (none, heap)
    else
      match luaHGet (heap.tables m) (.string (literal event.name)) with
      | .nil =>
        let t := heap.tables m
        (none, { heap with tables := setAt heap.tables m { t with flags := t.flags ||| 2 ^ event.bit } })
      | tm => (some tm, heap)

end Lunatik.Lua
