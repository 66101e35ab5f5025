import Lunatik.Lua.Object
import Lunatik.Lua.StringTable

/-! # The incremental collector (`lgc.c`)

The heap with all its kinds of objects, their marks, and the lists by which the collector finds them: an
object exists while `rootgc`, `tmudata`, the string table or the list of open upvalues of a thread has it.
A list that the source threads through `next` or `gclist` is a list here, in its order.

What is counted to decide how far a step goes (`totalbytes`, `estimate`, `gcdept`, the thresholds) is left
out: a run may take any number of steps anywhere.
-/

namespace Lunatik.Lua.Gc

open StringTable (whitebits blackbit fixedbit lmod hashOf minstrtabsize)

/-! ## Objects -/

inductive GCObject where
  | string (ts : Nat)
  | table (h : Nat)
  | function (cl : Nat)
  | userdata (u : Nat)
  | thread (th : Nat)
  | proto (f : Nat)
  | upval (uv : Nat)
  deriving DecidableEq, Repr

/-- `TValue`; a number, a boolean or a light userdata is `plain`.  A prototype is a value while it is
anchored on a stack, and a dead key keeps its pointer. -/
inductive TValue where
  | nil
  | plain (payload : Nat)
  | string (ts : Nat)
  | table (h : Nat)
  | function (cl : Nat)
  | userdata (u : Nat)
  | thread (th : Nat)
  | proto (f : Nat)
  | deadkey (o : GCObject)
  deriving DecidableEq, Repr, Inhabited

/-- `gcvalue(o)` of a value that is in use. -/
def gcvalue : TValue → Option GCObject
  | .string ts => some (.string ts)
  | .table h => some (.table h)
  | .function cl => some (.function cl)
  | .userdata u => some (.userdata u)
  | .thread th => some (.thread th)
  | .proto f => some (.proto f)
  | .nil | .plain _ | .deadkey _ => none

structure TString where
  bytes : List UInt8
  hash : BitVec 32
  deriving Inhabited

structure Udata where
  metatable : Option Nat
  env : Nat
  deriving Inhabited

/-- `uv->v`: a slot of a stack, or `&uv->u.value`. -/
inductive ValuePtr where
  | stack (th slot : Nat)
  | own
  deriving DecidableEq, Repr, Inhabited

structure UpVal where
  v : ValuePtr
  value : TValue
  deriving Inhabited

inductive Closure where
  | c (env : Nat) (upvalue : List TValue)
  | lua (env p : Nat) (upvals : List Nat)
  deriving Inhabited

structure Node where
  key : TValue
  val : TValue
  deriving DecidableEq, Inhabited

structure Table where
  metatable : Option Nat
  array : List TValue
  node : List Node
  deriving Inhabited

structure CallInfo where
  top : Nat
  -- isLua(ci)
  isLua : Bool
  deriving Inhabited

/-- `lua_State`; `ci` has the current call first. -/
structure Thread where
  gt : TValue
  stack : Nat → TValue
  top : Nat
  ci : List CallInfo
  deriving Inhabited

/-- `Proto`; the parser fills it in piece by piece. -/
structure Proto where
  source : Option Nat
  k : List TValue
  upvalues : List (Option Nat)
  p : List (Option Nat)
  locvars : List (Option Nat)
  deriving Inhabited

structure Heap where
  strings : Nat → TString
  udata : Nat → Udata
  upvals : Nat → UpVal
  closures : Nat → Closure
  tables : Nat → Table
  threads : Nat → Thread
  protos : Nat → Proto

/-- `global_State`, with the thread that runs. -/
structure GlobalState where
  heap : Heap
  marked : GCObject → BitVec 8
  currentwhite : BitVec 8
  gcstate : GCState
  hash : List (List Nat)
  sweepstrgc : Nat
  rootgc : List GCObject
  -- the object whose `next` is swept from, or &g->rootgc
  sweepgc : Option GCObject
  gray : List GCObject
  grayagain : List GCObject
  weak : List GCObject
  -- L->openupval of each thread
  openupval : Nat → List Nat
  -- from the first to the last
  tmudata : List Nat
  uvhead : List Nat
  mainthread : Nat
  running : Nat
  registry : TValue
  mt : List (Option Nat)
  tmname : TMS → Nat

namespace GlobalState

variable (g : GlobalState)

/-! ## Marks (`lgc.h`) -/

def keyweak : BitVec 8 := 0b1000
def valueweak : BitVec 8 := 0b10000
def finalizedbit : BitVec 8 := 0b1000

def otherwhite : BitVec 8 := g.currentwhite ^^^ whitebits

def luaCWhite : BitVec 8 := g.currentwhite &&& whitebits

def iswhite (o : GCObject) : Bool := g.marked o &&& whitebits != 0

def isblack (o : GCObject) : Bool := g.marked o &&& blackbit != 0

def isgray (o : GCObject) : Bool := !g.isblack o && !g.iswhite o

def isdead (o : GCObject) : Bool := g.marked o &&& g.otherwhite &&& whitebits != 0

-- the test of sweeplist, which spares the fixed objects
def condemned (o : GCObject) : Bool := (g.marked o ^^^ whitebits) &&& g.otherwhite == 0

def isfinalized (u : Nat) : Bool := g.marked (.userdata u) &&& finalizedbit != 0

def setMark (o : GCObject) (m : BitVec 8) : GlobalState :=
  { g with marked := fun o' => if o' = o then m else g.marked o' }

def makewhite (o : GCObject) : GlobalState :=
  g.setMark o ((g.marked o &&& ~~~(blackbit ||| whitebits)) ||| g.luaCWhite)

def changewhite (o : GCObject) : GlobalState := g.setMark o (g.marked o ^^^ whitebits)

def white2gray (o : GCObject) : GlobalState := g.setMark o (g.marked o &&& ~~~whitebits)

def gray2black (o : GCObject) : GlobalState := g.setMark o (g.marked o ||| blackbit)

def black2gray (o : GCObject) : GlobalState := g.setMark o (g.marked o &&& ~~~blackbit)

def markfinalized (u : Nat) : GlobalState :=
  g.setMark (.userdata u) (g.marked (.userdata u) ||| finalizedbit)

def stringmark (ts : Nat) : GlobalState := g.white2gray (.string ts)

/-! ## Tag methods

The cache of absent tag methods changes no answer, and is left out. -/

/-- `luaH_getstr`. -/
def luaHGetstr (t : Table) (key : Nat) : TValue :=
  match t.node.find? fun n => n.key = .string key with
  | some n => n.val
  | none => .nil

/-- `gfasttm(g, et, e)`, nothing for NULL. -/
def gfasttm (et : Option Nat) (e : TMS) : Option TValue :=
  match et with
  | none => none
  | some mt =>
    match luaHGetstr (g.heap.tables mt) (g.tmname e) with
    | .nil => none
    | tm => some tm

/-! ## Marking -/

def pushgray (o : GCObject) : GlobalState := { g.white2gray o with gray := o :: g.gray }

-- markobject(g, t) of a table
def marktable (h : Nat) : GlobalState := if g.iswhite (.table h) then g.pushgray (.table h) else g

def markmetatable (mt : Option Nat) : GlobalState :=
  match mt with
  | some h => g.marktable h
  | none => g

/-- `reallymarkobject` of what a value can be. -/
def reallymarkvalue (o : GCObject) : GlobalState :=
  match o with
  | .string ts => g.white2gray (.string ts)
  | .userdata u =>
    -- udata are never gray
    let black := (g.white2gray (.userdata u)).gray2black (.userdata u)
    (black.markmetatable (g.heap.udata u).metatable).marktable (g.heap.udata u).env
  | .upval _ => g
  | o => g.pushgray o

def markvalue (v : TValue) : GlobalState :=
  match gcvalue v with
  | some o => if g.iswhite o then g.reallymarkvalue o else g
  | none => g

-- *uv->v
def deref (uv : Nat) : TValue :=
  match (g.heap.upvals uv).v with
  | .stack th slot => (g.heap.threads th).stack slot
  | .own => (g.heap.upvals uv).value

/-- `reallymarkobject`. -/
def reallymarkobject (o : GCObject) : GlobalState :=
  match o with
  | .upval uv =>
    let marked := (g.white2gray (.upval uv)).markvalue (g.deref uv)
    -- open upvalues are never black
    if (g.heap.upvals uv).v = .own then marked.gray2black (.upval uv) else marked
  | o => g.reallymarkvalue o

def markobject (o : GCObject) : GlobalState := if g.iswhite o then g.reallymarkobject o else g

/-- `marktmu`. -/
def marktmu : GlobalState :=
  g.tmudata.foldl (fun g u => (g.makewhite (.userdata u)).reallymarkobject (.userdata u)) g

/-! ## Traversing -/

-- strchr(svalue(mode), c) != NULL, where the mode is a string
def weakMode (mode : Option TValue) (c : Char) : Bool :=
  match mode with
  | some (.string ts) => ((g.heap.strings ts).bytes.takeWhile (· ≠ 0)).contains (UInt8.ofNat c.toNat)
  | _ => false

/-- `removeentry`, of an empty entry. -/
def removeentry (n : Node) : Node :=
  match gcvalue n.key with
  | some o => { n with key := .deadkey o }
  | none => n

def setTable (h : Nat) (t : Table) : GlobalState := { g with heap.tables := setAt g.heap.tables h t }

-- one entry of traversetable
def marknode (weakkey weakvalue : Bool) (g : GlobalState) (n : Node) : GlobalState :=
  if n.val = .nil then g
  else
    let g := if weakkey then g else g.markvalue n.key
    if weakvalue then g else g.markvalue n.val

-- the flags of a weak table, and its link into the list `weak`
def linkweak (h : Nat) (weakkey weakvalue : Bool) : GlobalState :=
  let flags := (if weakkey then keyweak else 0) ||| (if weakvalue then valueweak else 0)
  { g.setMark (.table h) ((g.marked (.table h) &&& ~~~(keyweak ||| valueweak)) ||| flags) with
    weak := .table h :: g.weak }

/-- `traversetable`; the last entry comes first. -/
def traversetable (h : Nat) : Bool × GlobalState :=
  let t := g.heap.tables h
  let g := g.markmetatable t.metatable
  let mode := g.gfasttm t.metatable .mode
  let weakkey := g.weakMode mode 'k'
  let weakvalue := g.weakMode mode 'v'
  let g := if weakkey || weakvalue then g.linkweak h weakkey weakvalue else g
  if weakkey && weakvalue then (true, g)
  else
    let g := if weakvalue then g else t.array.reverse.foldl markvalue g
    let g := t.node.reverse.foldl (marknode weakkey weakvalue) g
    let node := t.node.map fun n => if n.val = .nil then removeentry n else n
    (weakkey || weakvalue, g.setTable h { t with node := node })

def markname (g : GlobalState) (name : Option Nat) : GlobalState :=
  match name with
  | some ts => g.stringmark ts
  | none => g

def markproto (g : GlobalState) (p : Option Nat) : GlobalState :=
  match p with
  | some f => g.markobject (.proto f)
  | none => g

/-- `traverseproto`. -/
def traverseproto (f : Nat) : GlobalState :=
  let p := g.heap.protos f
  let g := g.markname p.source
  let g := p.k.foldl markvalue g
  let g := p.upvalues.foldl markname g
  let g := p.p.foldl markproto g
  p.locvars.foldl markname g

/-- `traverseclosure`. -/
def traverseclosure (cl : Nat) : GlobalState :=
  match g.heap.closures cl with
  | .c env upvalue => upvalue.foldl markvalue (g.marktable env)
  | .lua env p upvals =>
    upvals.foldl (fun g uv => g.markobject (.upval uv)) ((g.marktable env).markobject (.proto p))

-- the highest top of the calls
def lim (th : Thread) : Nat := th.ci.foldl (fun lim ci => max lim ci.top) th.top

def setThread (th : Nat) (l : Thread) : GlobalState := { g with heap.threads := setAt g.heap.threads th l }

/-- `traversestack`; the sizes of the stacks are left alone. -/
def traversestack (th : Nat) : GlobalState :=
  let l := g.heap.threads th
  let g := g.markvalue l.gt
  let g := (List.range l.top).foldl (fun g o => g.markvalue (l.stack o)) g
  g.setThread th { l with stack := fun o => if l.top ≤ o ∧ o ≤ lim l then .nil else l.stack o }

/-- `propagatemark`. -/
def propagatemark : GlobalState :=
  match g.gray with
  | [] => g
  | o :: gclist =>
    let g := g.gray2black o
    match o with
    | .table h =>
      let traversed := { g with gray := gclist }.traversetable h
      if traversed.1 then traversed.2.black2gray o else traversed.2
    | .function cl => { g with gray := gclist }.traverseclosure cl
    | .thread th =>
      ({ g with gray := gclist, grayagain := o :: g.grayagain }.black2gray o).traversestack th
    | .proto f => { g with gray := gclist }.traverseproto f
    -- lua_assert(0)
    | _ => g

/-- `propagateall`, for a number of rounds. -/
def propagateFor : Nat → GlobalState → GlobalState
  | 0, g => g
  | n + 1, g => if g.gray = [] then g else propagateFor n g.propagatemark

-- the objects that a list of its own holds for another object
def openOf (o : GCObject) : List GCObject :=
  match o with
  | .thread th => (g.openupval th).map .upval
  | _ => []

/-- The objects that exist. -/
def objects : List GCObject :=
  g.rootgc ++ g.rootgc.flatMap g.openOf ++ g.tmudata.map .userdata ++ g.hash.flatten.map .string

/-- `propagateall`; no object is pushed twice. -/
def propagateall : GlobalState := propagateFor (g.gray.length + g.objects.countP g.iswhite) g

/-! ## The end of the mark phase -/

/-- `markmt`. -/
def markmt : GlobalState := g.mt.foldl markmetatable g

/-- `markroot`. -/
def markroot : GlobalState :=
  let g := { g with gray := [], grayagain := [], weak := [] }
  let g := g.markobject (.thread g.mainthread)
  -- make global table be traversed before main stack
  let g := g.markvalue (g.heap.threads g.mainthread).gt
  let g := g.markvalue g.registry
  { g.markmt with gcstate := .propagate }

/-- `remarkupvals`. -/
def remarkupvals : GlobalState :=
  g.uvhead.foldl (fun g uv => if g.isgray (.upval uv) then g.markvalue (g.deref uv) else g) g

-- the objects that a pointer to a `next` is followed by
def after (p : Option GCObject) (l : List GCObject) : List GCObject :=
  match p with
  | none => l
  | some o => (l.dropWhile (· ≠ o)).tail

-- one object of luaC_separateudata
def separate (all : Bool) (g : GlobalState) (curr : GCObject) : GlobalState :=
  match curr with
  | .userdata u =>
    if !(g.iswhite curr || all) || g.isfinalized u then g
    -- don't need finalization
    else if g.gfasttm (g.heap.udata u).metatable .gc = none then g.markfinalized u
    else { g.markfinalized u with rootgc := g.rootgc.erase curr, tmudata := g.tmudata ++ [u] }
  -- only userdata come after the main thread
  | _ => g

/-- `luaC_separateudata`. -/
def luaCSeparateudata (all : Bool) : GlobalState :=
  (after (some (.thread g.mainthread)) g.rootgc).foldl (separate all) g

/-- `iscleared`, with the mark that a string gets from it. -/
def iscleared (v : TValue) (iskey : Bool) : Bool × GlobalState :=
  match v with
  | .string ts => (false, g.stringmark ts)
  | .userdata u => (g.iswhite (.userdata u) || (!iskey && g.isfinalized u), g)
  | v =>
    match gcvalue v with
    | some o => (g.iswhite o, g)
    | none => (false, g)

-- the array part in cleartable, the last value first
def cleararray (g : GlobalState) : List TValue → List TValue × GlobalState
  | [] => ([], g)
  | v :: vs =>
    let (vs, g) := cleararray g vs
    let (cleared, g) := g.iscleared v false
    ((if cleared then .nil else v) :: vs, g)

-- an entry in cleartable
def clearnode (n : Node) : Node × GlobalState :=
  if n.val = .nil then (n, g)
  else
    let (cleared, g) := g.iscleared n.key true
    -- the value is looked at where the key stays
    let (cleared, g) := if cleared then (true, g) else g.iscleared n.val false
    (if cleared then removeentry { n with val := .nil } else n, g)

def clearnodes (g : GlobalState) : List Node → List Node × GlobalState
  | [] => ([], g)
  | n :: ns =>
    let (ns, g) := clearnodes g ns
    let (n, g) := g.clearnode n
    (n :: ns, g)

-- a table of the list in cleartable
def clearone (g : GlobalState) (o : GCObject) : GlobalState :=
  match o with
  | .table h =>
    let t := g.heap.tables h
    let (array, g) :=
      if g.marked o &&& valueweak != 0 then g.cleararray t.array else (t.array, g)
    let (node, g) := g.clearnodes t.node
    g.setTable h { t with array, node }
  -- only tables are weak
  | _ => g

/-- `cleartable`. -/
def cleartable (l : List GCObject) : GlobalState := l.foldl clearone g

/-- `atomic`. -/
def atomic : GlobalState :=
  -- remark occasional upvalues of (maybe) dead threads
  let g := g.remarkupvals
  -- traverse objects caught by write barrier and by `remarkupvals`
  let g := g.propagateall
  -- remark weak tables
  let g := { g with gray := g.weak, weak := [] }
  let g := g.markobject (.thread g.running)
  let g := g.markmt
  let g := g.propagateall
  -- remark gray again
  let g := { g with gray := g.grayagain, grayagain := [] }
  let g := g.propagateall
  let g := g.luaCSeparateudata false
  let g := g.marktmu
  -- remark, to propagate `preserveness'
  let g := g.propagateall
  let g := g.cleartable g.weak
  -- flip current white
  { g with currentwhite := g.otherwhite, sweepstrgc := 0, sweepgc := none, gcstate := .sweepstring }

/-! ## Upvalues (`lfunc.c`) and barriers -/

/-- `luaC_barrierf`. -/
def luaCBarrierf (o v : GCObject) : GlobalState :=
  -- must keep invariant?
  if g.gcstate = .propagate then g.reallymarkobject v
  -- mark as white just to avoid other barriers
  else g.makewhite o

/-- `luaC_objbarrier(L, p, o)`. -/
def luaCObjbarrier (p o : GCObject) : GlobalState :=
  if g.iswhite o && g.isblack p then g.luaCBarrierf p o else g

/-- `luaC_barrier(L, p, v)`. -/
def luaCBarrier (p : GCObject) (v : TValue) : GlobalState :=
  match gcvalue v with
  | some o => g.luaCObjbarrier p o
  | none => g

/-- `luaC_barrierback`. -/
def luaCBarrierback (h : Nat) : GlobalState :=
  { g.black2gray (.table h) with grayagain := .table h :: g.grayagain }

/-- `luaC_objbarriert(L, t, o)`. -/
def luaCObjbarriert (h : Nat) (o : GCObject) : GlobalState :=
  if g.iswhite o && g.isblack (.table h) then g.luaCBarrierback h else g

/-- `luaC_barriert(L, t, v)`. -/
def luaCBarriert (h : Nat) (v : TValue) : GlobalState :=
  match gcvalue v with
  | some o => g.luaCObjbarriert h o
  | none => g

/-- `luaC_linkupval`. -/
def luaCLinkupval (uv : Nat) : GlobalState :=
  let g := { g with rootgc := .upval uv :: g.rootgc }
  if g.isgray (.upval uv) then
    if g.gcstate = .propagate then
      -- closed upvalues need barrier
      (g.gray2black (.upval uv)).luaCBarrier (.upval uv) (g.deref uv)
    else g.makewhite (.upval uv)
  else g

def unlinkupval (uv : Nat) : GlobalState := { g with uvhead := g.uvhead.erase uv }

/-- `luaF_freeupval`. -/
def luaFFreeupval (uv : Nat) : GlobalState :=
  if (g.heap.upvals uv).v = .own then g else g.unlinkupval uv

def setUpVal (uv : Nat) (u : UpVal) : GlobalState := { g with heap.upvals := setAt g.heap.upvals uv u }

def setOpenupval (th : Nat) (l : List Nat) : GlobalState := { g with openupval := setAt g.openupval th l }

-- uv->v >= level; an open upvalue of a thread points into its stack
def atOrAbove (level uv : Nat) : Bool :=
  match (g.heap.upvals uv).v with
  | .stack _ slot => level ≤ slot
  | .own => false

-- the loop of luaF_close, over the rest of the list
def closeFrom (th level : Nat) (g : GlobalState) : List Nat → GlobalState
  | [] => g
  | uv :: next =>
    if g.atOrAbove level uv then
      let g := g.setOpenupval th next
      if g.isdead (.upval uv) then closeFrom th level (g.luaFFreeupval uv) next
      else
        let value := g.deref uv
        let g := (g.unlinkupval uv).setUpVal uv { v := .own, value }
        closeFrom th level (g.luaCLinkupval uv) next
    else g

/-- `luaF_close`. -/
def luaFClose (th level : Nat) : GlobalState := closeFrom th level g (g.openupval th)

/-! ## The sweep -/

/-- `freeobj`, of an object that is on no list any more. -/
def freeobj (o : GCObject) : GlobalState :=
  match o with
  | .upval uv => g.luaFFreeupval uv
  -- luaE_freethread
  | .thread th => g.luaFClose th 0
  | _ => g

/-- `sweepwholelist` of strings or of open upvalues, with the list that is left. -/
def sweepwholelist (obj : Nat → GCObject) (g : GlobalState) : List Nat → List Nat × GlobalState
  | [] => ([], g)
  | curr :: next =>
    if g.condemned (obj curr) then sweepwholelist obj (g.freeobj (obj curr)) next
    else
      let (kept, g) := sweepwholelist obj (g.makewhite (obj curr)) next
      (curr :: kept, g)

-- the open upvalues of a thread
def sweepopen (o : GCObject) : GlobalState :=
  match o with
  | .thread th =>
    let (kept, g) := sweepwholelist .upval g (g.openupval th)
    g.setOpenupval th kept
  | _ => g

-- a round of sweeplist in `rootgc`
def sweepone : GlobalState :=
  match after g.sweepgc g.rootgc with
  | [] => g
  | curr :: _ =>
    let g := g.sweepopen curr
    if g.condemned curr then { g with rootgc := g.rootgc.erase curr }.freeobj curr
    else { g.makewhite curr with sweepgc := some curr }

/-- `sweeplist` from `g->sweepgc` on. -/
def sweeplist : Nat → GlobalState → GlobalState
  | 0, g => g
  | count + 1, g => sweeplist count g.sweepone

def relink (newsize : Nat) (newhash : List (List Nat)) (p : Nat) : List (List Nat) :=
  newhash.modify (lmod (g.heap.strings p).hash newsize) (p :: ·)

/-- `luaS_resize`. -/
def luaSResize (newsize : Nat) : GlobalState :=
  -- cannot resize during GC traverse
  if g.gcstate = .sweepstring then g
  else
    let newhash := g.hash.foldl (fun newhash chain => chain.foldl (g.relink newsize) newhash)
      (List.replicate newsize [])
    { g with hash := newhash }

/-- `checkSizes`, of the string table; `nuse` is the number of strings in it. -/
def checkSizes : GlobalState :=
  if g.hash.flatten.length < g.hash.length / 4 ∧ minstrtabsize * 2 < g.hash.length then
    g.luaSResize (g.hash.length / 2)
  else g

-- GCSWEEPMAX
def gcsweepmax : Nat := 40

-- u->uv.next = g->mainthread->next; g->mainthread->next = u
def chainudata (u : Nat) : GlobalState :=
  let rootgc := g.rootgc.flatMap fun o =>
    if o = .thread g.mainthread then [o, .userdata u] else [o]
  { g with rootgc }

/-- `GCTM`, up to the call of the tag method, which is what follows. -/
def gctm : GlobalState :=
  match g.tmudata with
  | [] => g
  | u :: tmudata =>
    -- return it to `root' list
    let g := { g with tmudata }.chainudata u
    let g := g.makewhite (.userdata u)
    match g.gfasttm (g.heap.udata u).metatable .gc with
    | none => g
    | some tm =>
      let l := g.heap.threads g.running
      g.setThread g.running { l with
        stack := setAt (setAt l.stack l.top tm) (l.top + 1) (.userdata u), top := l.top + 2 }

/-- `singlestep`. -/
def singlestep : GlobalState :=
  match g.gcstate with
  | .pause => g.markroot
  | .propagate => if g.gray = [] then g.atomic else g.propagatemark
  | .sweepstring =>
    let (kept, g) := sweepwholelist .string g (g.hash.getD g.sweepstrgc [])
    let g := { g with hash := g.hash.set g.sweepstrgc kept, sweepstrgc := g.sweepstrgc + 1 }
    -- nothing more to sweep?
    if g.hash.length ≤ g.sweepstrgc then { g with gcstate := .sweep } else g
  | .sweep =>
    let g := sweeplist gcsweepmax g
    if after g.sweepgc g.rootgc = [] then { g.checkSizes with gcstate := .finalize } else g
  | .finalize => if g.tmudata = [] then { g with gcstate := .pause } else g.gctm

/-- The start of `luaC_fullgc`, which gives a mark phase up. -/
def resetSweep : GlobalState :=
  if g.gcstate = .pause ∨ g.gcstate = .propagate then
    { g with sweepstrgc := 0, sweepgc := none, gray := [], grayagain := [], weak := [], gcstate := .sweepstring }
  else g

end GlobalState

end Lunatik.Lua.Gc
