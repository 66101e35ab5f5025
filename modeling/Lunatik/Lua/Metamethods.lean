import Lunatik.Lua.Call

/-! # Operations with tag methods (`lvm.c`)

The operations of the interpreter that may call a tag method.  When one does, the call has
been started at the end of the operation and its `Kont` says what remains.
-/

namespace Lunatik.Lua

def maxtagloop : Nat := 100

/-! ## Calling tag methods -/

/-- `callTMres`; `kont` stores the result. -/
def callTMres (kont : Kont) (f p1 p2 : TValue) : VmM PUnit := do
  push f
  push p1
  push p2
  luaDCall ((← get).top - 3) 1 kont

def callTM (f p1 p2 p3 : TValue) : VmM PUnit := do
  push f
  push p1
  push p2
  push p3
  luaDCall ((← get).top - 4) 0 .tm

/-- `call_binTM`: whether there was a tag method. -/
def callBinTM (p1 p2 : TValue) (kont : Kont) (event : TMS) : VmM Bool := do
  let s ← get
  let tm := luaTGettmbyobj s.heap p1 event
  let tm := if tm = .nil then luaTGettmbyobj s.heap p2 event else tm
  if tm = .nil then return false
  else
    callTMres kont tm p1 p2
    return true

/-! ## Tables -/

-- `fasttm`, which may note in the metatable that there is no tag method
def vmFasttm (mt : Option Nat) (event : TMS) : VmM (Option TValue) := do
  let s ← get
  let (tm, heap) := fasttm s.heap mt event
  setHeap heap
  return tm

/-- `luaV_gettable(L, t, key, val)`; `loop` counts down from `MAXTAGLOOP`. -/
def luaVGettable (key : TValue) (val : Nat) : Nat → TValue → VmM PUnit
  | 0, _ => luaGRunerror "loop in gettable"
  | loop + 1, t => do
    let viaTM := fun tm : TValue =>
      match tm with
      | .function _ => callTMres (.tmres val) tm t key
      | tm => luaVGettable key val loop tm
    match t with
    | .table _ =>
      let h := (← get).heap.tables (← hvalue t)
      let res := luaHGet h key
      if res ≠ .nil then setSlot val res
      else
        match ← vmFasttm h.metatable .index with
        | none => setSlot val res
        | some tm => viaTM tm
    | _ =>
      match luaTGettmbyobj (← get).heap t .index with
      | .nil => luaGTyperror t "index"
      | tm => viaTM tm

/-- The slot that `luaH_set` returns is written at once; `flags` are reset in any case. -/
def luaHSet (h : Nat) (key : TValue) : VmM PUnit := do
  let s ← get
  let t := s.heap.tables h
  setHeap { s.heap with tables := setAt s.heap.tables h { t with flags := 0 } }
  if luaHGet t key = .nil ∧ key = .nil then luaGRunerror "table index is nil"

def putTable (h : Nat) (key v : TValue) : VmM PUnit := do
  let s ← get
  setHeap { s.heap with tables := setAt s.heap.tables h (luaHPut (s.heap.tables h) key v) }

/-- `luaV_settable(L, t, key, val)`. -/
def luaVSettable (key val : TValue) : Nat → TValue → VmM PUnit
  | 0, _ => luaGRunerror "loop in settable"
  | loop + 1, t => do
    let viaTM := fun tm : TValue =>
      match tm with
      | .function _ => callTM tm t key val
      | tm => luaVSettable key val loop tm
    match t with
    | .table _ =>
      let h ← hvalue t
      let table := (← get).heap.tables h
      let oldval := luaHGet table key
      luaHSet h key
      if oldval ≠ .nil then putTable h key val
      else
        match ← vmFasttm table.metatable .newindex with
        | none => putTable h key val
        | some tm => viaTM tm
    | _ =>
      match luaTGettmbyobj (← get).heap t .newindex with
      | .nil => luaGTyperror t "index"
      | tm => viaTM tm

/-! ## Comparisons

`none` says that a tag method has been called and decides. -/

-- luaO_rawequalObj
def rawequalObj (a b : TValue) : Bool := a == b

def callOrderTM (kont : Kont) (p1 p2 : TValue) (event : TMS) : VmM Bool := do
  let s ← get
  let tm1 := luaTGettmbyobj s.heap p1 event
  let tm2 := luaTGettmbyobj s.heap p2 event
  -- no metamethod, or different ones
  if tm1 = .nil ∨ rawequalObj tm1 tm2 = false then return false
  else
    callTMres kont tm1 p1 p2
    return true

/-- `get_compTM`. -/
def getCompTM (mt1 mt2 : Option Nat) (event : TMS) : VmM (Option TValue) := do
  match ← vmFasttm mt1 event with
  | none => return none
  | some tm1 =>
    if mt1 = mt2 then return some tm1
    else
      match ← vmFasttm mt2 event with
      | none => return none
      | some tm2 => return if rawequalObj tm1 tm2 then some tm1 else none

/-- `l_strcmp`: `strcoll` is the kernel's `strcmp`, repeated behind every zero. -/
def lStrcmp : List UInt8 → List UInt8 → Ordering
  | [], [] => .eq
  | [], _ :: _ => .lt
  | _ :: _, [] => .gt
  | a :: as, b :: bs => if a < b then .lt else if b < a then .gt else lStrcmp as bs

def luaVLessthan (i : Instruction) (l r : TValue) : VmM (Option Bool) := do
  if ttype l ≠ ttype r then raiseError (.ordererror l r)
  else
    match l with
    | .number _ => return some (luaiNumlt (← nvalue l) (← nvalue r))
    | .string _ => return some (lStrcmp (← rawtsvalue l) (← rawtsvalue r) == .lt)
    | _ =>
      if ← callOrderTM (.compare i false) l r .lt then return none
      else raiseError (.ordererror l r)

def lessequal (i : Instruction) (l r : TValue) : VmM (Option Bool) := do
  if ttype l ≠ ttype r then raiseError (.ordererror l r)
  else
    match l with
    | .number _ => return some (luaiNumle (← nvalue l) (← nvalue r))
    | .string _ => return some (lStrcmp (← rawtsvalue l) (← rawtsvalue r) != .gt)
    | _ =>
      -- first try `le', else try `lt'
      if ← callOrderTM (.compare i false) l r .le then return none
      else if ← callOrderTM (.compare i true) r l .lt then return none
      else raiseError (.ordererror l r)

-- the end of luaV_equalval for two distinct objects
def equalByTM (i : Instruction) (t1 t2 : TValue) (mt1 mt2 : Option Nat) : VmM (Option Bool) := do
  match ← getCompTM mt1 mt2 .eq with
  | none => return some false
  | some tm =>
    callTMres (.compare i false) tm t1 t2
    return none

/-- `equalobj(L, o1, o2)` with `luaV_equalval`. -/
def equalobj (i : Instruction) (t1 t2 : TValue) : VmM (Option Bool) := do
  let heap := (← get).heap
  if ttype t1 ≠ ttype t2 then return some false
  else
    match t1, t2 with
    | .number _, _ => return some (luaiNumeq (← nvalue t1) (← nvalue t2))
    | .userdata a, .userdata b =>
      if a = b then return some true
      else equalByTM i t1 t2 (heap.udata a).metatable (heap.udata b).metatable
    | .table a, .table b =>
      if a = b then return some true
      else equalByTM i t1 t2 (heap.tables a).metatable (heap.tables b).metatable
    | _, _ => return some (rawequalObj t1 t2)

/-! ## Arithmetic -/

inductive ArithOp where
  | add | sub | mul | div | mod | pow | unm
  deriving DecidableEq, Repr

def ArithOp.event : ArithOp → TMS
  | .add => .add | .sub => .sub | .mul => .mul | .div => .div | .mod => .mod | .pow => .pow | .unm => .unm

-- the luai_num macros; `none` is a trap of the division instruction
def luaiNum : ArithOp → LuaNumber → LuaNumber → Option LuaNumber
  | .add, nb, nc => some (luaiNumadd nb nc)
  | .sub, nb, nc => some (luaiNumsub nb nc)
  | .mul, nb, nc => some (luaiNummul nb nc)
  | .div, nb, nc => luaiNumdiv nb nc
  | .mod, nb, nc => luaiNummod nb nc
  | .pow, nb, nc => some (luaiNumpow nb nc)
  | .unm, nb, _ => some (luaiNumunm nb)

def vmNum (op : ArithOp) (nb nc : LuaNumber) : VmM LuaNumber :=
  match luaiNum op nb nc with
  | some n => return n
  | none => throw (.fault .divide)

/-- `Arith(L, ra, rb, rc, op)`, the path after coercion. -/
def arith (f : Activation) (a : Nat) (rb rc : TValue) (op : ArithOp) : VmM PUnit := do
  match luaVTonumber rb, luaVTonumber rc with
  | some nb, some nc => f.setReg a (.number (← vmNum op nb nc))
  | _, _ =>
    if ← callBinTM rb rc (.tmres (f.ci.base + a)) op.event then return
    else raiseError (.aritherror rb rc)

/-- `arith_op(op, tm)`. -/
def arithOp (f : Activation) (a : Nat) (rb rc : TValue) (op : ArithOp) : VmM PUnit := do
  match rb, rc with
  | .number _, .number _ => f.setReg a (.number (← vmNum op (← nvalue rb) (← nvalue rc)))
  | _, _ => arith f a rb rc op

/-! ## Concatenation -/

-- tostring(L, o): numbers are converted in place
def tostringAt (f : Activation) (r : Nat) : VmM Bool := do
  match tostring (← f.reg r) with
  | some s =>
    f.setReg r (.string s)
    return true
  | none => return false

/-- As many operands as are strings or numbers, from `last` down; `n` of them are in `acc`. -/
def concatCollect (f : Activation) (last total : Nat) :
    Nat → Nat → List UInt8 → VmM (Nat × List UInt8)
  | 0, n, acc => return (n, acc)
  | rounds + 1, n, acc => do
    if n < total then
      if ← tostringAt f (last - n) then
        let s ← rawtsvalue (← f.reg (last - n))
        if maxSizet - acc.length ≤ s.length then luaGRunerror "string length overflow"
        else concatCollect f last total rounds (n + 1) (s ++ acc)
      else return (n, acc)
    else return (n, acc)

-- setobjs2s(L, RA(i), base+b)
def concatResult (f : Activation) (i : Instruction) : VmM PUnit := do
  f.setReg (getargA i) (← f.reg (getargB i))

-- whether the two operands at the end can be joined; the last one is a string then
def concatStrings (f : Activation) (last : Nat) : TValue → VmM Bool
  | .string _ | .number _ => tostringAt f last
  | _ => return false

-- joins operands from `last` down and returns how many
def concatJoin (f : Activation) (total last : Nat) : VmM Nat := do
  let s ← rawtsvalue (← f.reg last)
  if s.length = 0 then
    -- result is first op (as string)
    let _ ← tostringAt f (last - 1)
    return 2
  else
    let (n, all) ← concatCollect f last total total 1 s
    f.setReg (last + 1 - n) (.string all)
    return n

/-- The loop of `luaV_concat(L, total, last)`, and what OP_CONCAT does after it.  Every round
    makes at least two operands one. -/
def luaVConcat (f : Activation) (i : Instruction) : Nat → Nat → Nat → VmM PUnit
  | 0, _, _ => concatResult f i
  | rounds + 1, total, last => do
    let v2 ← f.reg (last - 1)
    let v1 ← f.reg last
    if ← concatStrings f last v2 then
      let n ← concatJoin f total last
      if 1 < total - (n - 1) then luaVConcat f i rounds (total - (n - 1)) (last - (n - 1))
      else concatResult f i
    else if ← callBinTM v2 v1 (.concat i total last) .concat then return
    else raiseError (.concaterror v2 v1)

end Lunatik.Lua
