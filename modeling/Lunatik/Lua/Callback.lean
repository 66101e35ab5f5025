import Lunatik.Lua.Vm
import Lunatik.Lua.Ltable

/-! # The API inside a C function (`lapi.c`, `lauxlib.c`)

The functions of the API as a C function uses them that was called by the interpreter: on the
slots of its frame, counted from the top.  `registry` is the table of the registry.

Of the text of an argument error only the expected type is kept; the rest names the argument and
the function as the debug information has them.
-/

namespace Lunatik.Lua

variable (getn : Table → Nat) (registry : Nat)

-- index2adr(L, -n)
def belowTop (n : Nat) : VmM TValue := do slot ((← get).top - n)

/-- `lua_pop(L, n)`. -/
def vmPop (n : Nat) : VmM PUnit := do setTop ((← get).top - n)

def luaPushinteger (n : LuaNumber) : VmM PUnit := push (.number n)

/-- `lua_objlen(L, -n)`; a number is replaced by its text. -/
def luaObjlen (n : Nat) : VmM Nat := do
  match ← belowTop n with
  | .string s => return s.length
  | .userdata u => return ((← get).heap.udata u).bytes.length
  | .table h => return getn ((← get).heap.tables h)
  | .number v =>
    setSlot ((← get).top - n) (.string (luaNumber2str v))
    return (luaNumber2str v).length
  | _ => return 0

def luaTointeger (n : Nat) : VmM LuaNumber := do return (luaVTonumber (← belowTop n)).getD 0

def luaIsnumber (n : Nat) : VmM Bool := do return (luaVTonumber (← belowTop n)).isSome

/-- `lua_getmetatable(L, -n)`. -/
def vmGetmetatable (n : Nat) : VmM Bool := do
  let s ← get
  let mt :=
    match s.stack (s.top - n) with
    | .table h => (s.heap.tables h).metatable
    | .userdata u => (s.heap.udata u).metatable
    | o => s.heap.mt (ttype o)
  match mt with
  | none => return false
  | some mt =>
    push (.table mt)
    return true

/-- `lua_getfield`. -/
def vmGetfield (t : TValue) (k : String) : VmM PUnit := do
  let top := (← get).top
  luaVGettable (.string (literal k)) top maxtagloop t
  setTop (top + 1)

/-- `lua_setfield`. -/
def vmSetfield (t : TValue) (k : String) : VmM PUnit := do
  luaVSettable (.string (literal k)) (← belowTop 1) maxtagloop t
  vmPop 1

/-- `lua_setmetatable(L, -2)` with a table at the top, for a userdata. -/
def vmSetmetatable : VmM PUnit := do
  let mt ← hvalue (← belowTop 1)
  match ← belowTop 2 with
  | .userdata u =>
    let heap := (← get).heap
    setHeap { heap with udata := setAt heap.udata u { heap.udata u with metatable := some mt } }
  | _ => throw (.fault .tag)
  vmPop 1

/-- `lua_createtable(L, 0, nrec)`: `setnodevector` refuses more than `2^MAXBITS` nodes, and a
negative number is a large unsigned one. -/
def vmCreatetable (nrec : Int) : VmM PUnit := do
  if nrec < 0 ∨ Ltable.maxasize < nrec then luaGRunerror "table overflow"
  let h ← luaHNew newTable
  push (.table h)

/-- `lua_rawseti(L, -2, n)`. -/
def luaRawseti (n : Int) : VmM PUnit := do
  let h ← hvalue (← belowTop 2)
  putTable h (.number (BitVec.ofInt 64 n)) (← belowTop 1)
  vmPop 1

/-- `lua_pushcfunction(L, f)`. -/
def vmPushcfunction (f : Nat) : VmM PUnit := do
  let heap := (← get).heap
  setHeap (heap.addClosure (.c f [] 0))
  push (.function heap.nextClosure)

/-! ## `lauxlib.c` -/

def luaLTyperror {α : Type} (tname : String) : VmM α := luaGRunerror (tname ++ " expected")

def luaLCheckinteger (n : Nat) : VmM LuaNumber := do
  let d ← luaTointeger n
  -- avoid extra test when d is not 0
  if d = 0 then
    if ← luaIsnumber n then return d else luaLTyperror "number"
  else return d

/-- `luaL_checkudata(L, -n, tname)`; the pointer is named by the value that it is taken from. -/
def luaLCheckudata (n : Nat) (tname : String) : VmM TValue := do
  let o ← belowTop n
  let p :=
    match o with
    | .userdata _ => true
    | .lightuserdata p => p != 0
    | _ => false
  if p then
    if ← vmGetmetatable n then
      vmGetfield (.table registry) tname
      if rawequalObj (← belowTop 1) (← belowTop 2) then
        vmPop 2
        return o
  luaLTyperror tname

/-- `luaL_newmetatable`. -/
def luaLNewmetatable (tname : String) : VmM PUnit := do
  vmGetfield (.table registry) tname
  if (← belowTop 1) = .nil then
    vmPop 1
    vmCreatetable 0
    push (.string (literal tname))
    vmSetfield (← belowTop 2) "__name"
    push (← belowTop 1)
    vmSetfield (.table registry) tname

end Lunatik.Lua
