import Lunatik.Library.Reachability
import Lunatik.Library.TransitionSystem
import Lunatik.Lua.Collector
import Lunatik.Lua.Lexer

/-! # What the program does to the collected heap (`lapi.c`, `lfunc.c`, `lgc.c`, `lstate.c`, `lstring.c`, `lvm.c`)

The operations by which a program and the interpreter change what the collector looks at, with their
barriers, and the runs in which they and the steps of the collector follow each other in any order.  What a
new object is written to is a slot of a stack.  An object that is named in an operation is one that the
program can get to.
-/

namespace Lunatik.Lua.Gc

open Lunatik.Library
open StringTable (lmod hashOf fixedbit minstrtabsize)

/-! ## What can be got to -/

-- the slots that can come to lie below the top without being written: OP_CALL sets the top of a Lua function again
def exposed (l : Thread) : Nat := l.ci.foldl (fun n ci => if ci.isLua then max n ci.top else n) l.top

def nodeRefs (n : Node) : List GCObject :=
  if n.val = .nil then [] else (gcvalue n.key).toList ++ (gcvalue n.val).toList

def tableRefs (t : Table) : List GCObject :=
  (t.metatable.map .table).toList ++ t.array.flatMap (fun v => (gcvalue v).toList) ++ t.node.flatMap nodeRefs

def nameRefs (names : List (Option Nat)) : List GCObject := names.flatMap fun ts => (ts.map .string).toList

def protoRefs (p : Proto) : List GCObject :=
  (p.source.map .string).toList ++ p.k.flatMap (fun v => (gcvalue v).toList) ++ nameRefs p.upvalues ++
    p.p.flatMap (fun f => (f.map .proto).toList) ++ nameRefs p.locvars

def closureRefs : Closure → List GCObject
  | .c env upvalue => .table env :: upvalue.flatMap fun v => (gcvalue v).toList
  | .lua env p upvals => .table env :: .proto p :: upvals.map .upval

def threadRefs (l : Thread) : List GCObject :=
  (gcvalue l.gt).toList ++ (List.range (exposed l)).flatMap fun o => (gcvalue (l.stack o)).toList

/-- What a program that has the object can get to from it, through weak entries too. -/
def GlobalState.refs (g : GlobalState) : GCObject → List GCObject
  | .string _ => []
  | .table h => tableRefs (g.heap.tables h)
  | .function cl => closureRefs (g.heap.closures cl)
  | .userdata u => ((g.heap.udata u).metatable.map .table).toList ++ [.table (g.heap.udata u).env]
  | .thread th => threadRefs (g.heap.threads th)
  | .proto f => protoRefs (g.heap.protos f)
  | .upval uv => (gcvalue (g.deref uv)).toList

/-- What a program has by itself; `tmudata` is handed to it by the collector. -/
def GlobalState.roots (g : GlobalState) : List GCObject :=
  .thread g.mainthread :: .thread g.running :: (gcvalue g.registry).toList ++
    g.mt.flatMap (fun mt => (mt.map .table).toList) ++ g.tmudata.map .userdata

/-- The program can get to the object. -/
def GlobalState.Held (g : GlobalState) : GCObject → Prop := Library.Reachable (· ∈ g.roots) fun o o' => o' ∈ g.refs o

/-- The program can have the value. -/
def GlobalState.HeldValue (g : GlobalState) (v : TValue) : Prop := ∀ o ∈ gcvalue v, g.Held o

namespace GlobalState

variable (g : GlobalState)

/-! ## New objects -/

/-- `luaC_link`. -/
def luaCLink (o : GCObject) : GlobalState := { g with rootgc := o :: g.rootgc }.setMark o g.luaCWhite

def setobj (th slot : Nat) (v : TValue) : GlobalState :=
  g.setThread th { g.heap.threads th with stack := setAt (g.heap.threads th).stack slot v }

/-- `newlstr`, with the address that it gets. -/
def newlstr (str : List UInt8) (ts : Nat) : GlobalState :=
  let h := hashOf str
  let g := { g with heap.strings := setAt g.heap.strings ts { bytes := str, hash := h } }
  let hash := g.hash.modify (lmod h g.hash.length) (ts :: ·)
  let g := { g with hash }.setMark (.string ts) g.luaCWhite
  -- too crowded
  if g.hash.length < g.hash.flatten.length ∧ g.hash.length ≤ maxInt / 2 then
    g.luaSResize (g.hash.length * 2)
  else g

/-- `luaS_newlstr`. -/
def luaSNewlstr (str : List UInt8) (ts : Nat) : Nat × GlobalState :=
  match (g.hash.getD (lmod (hashOf str) g.hash.length) []).find? fun o => (g.heap.strings o).bytes == str with
  -- string may be dead
  | some o => (o, if g.isdead (.string o) then g.changewhite (.string o) else g)
  | none => (ts, g.newlstr str ts)

/-- `luaS_newudata`. -/
def luaSNewudata (env u : Nat) : GlobalState :=
  let g := { g with heap.udata := setAt g.heap.udata u { metatable := none, env } }
  (g.setMark (.userdata u) g.luaCWhite).chainudata u

/-- `luaH_new`. -/
def luaHNew (narray nhash h : Nat) : GlobalState :=
  let t := { metatable := none, array := List.replicate narray .nil, node := List.replicate nhash ⟨.nil, .nil⟩ }
  (g.setTable h t).luaCLink (.table h)

def setClosure (cl : Nat) (c : Closure) : GlobalState := { g with heap.closures := setAt g.heap.closures cl c }

/-- `luaF_findupval`, with the address that a new one gets. -/
def luaFFindupval (th level uv : Nat) : Nat × GlobalState :=
  let higher := (g.openupval th).takeWhile (g.atOrAbove level)
  match higher.find? fun p => (g.heap.upvals p).v = .stack th level with
  -- ressurect it
  | some p => (p, if g.isdead (.upval p) then g.changewhite (.upval p) else g)
  | none =>
    let g := g.setUpVal uv { v := .stack th level, value := .nil }
    -- chain it in the proper position
    let g := g.setOpenupval th (higher ++ uv :: (g.openupval th).drop higher.length)
    (uv, { g with uvhead := uv :: g.uvhead }.setMark (.upval uv) g.luaCWhite)

/-- `luaF_newupval`. -/
def luaFNewupval (uv : Nat) : GlobalState :=
  (g.setUpVal uv { v := .own, value := .nil }).luaCLink (.upval uv)

/-- Where `OP_CLOSURE` and `f_parser` take an upvalue from. -/
inductive Capture where
  -- of the enclosing function
  | upval (uv : Nat)
  | slot (level uv : Nat)
  | new (uv : Nat)
  deriving DecidableEq, Repr

def capture (th : Nat) (g : GlobalState) : List Capture → List Nat × GlobalState
  | [] => ([], g)
  | c :: cs =>
    let (uv, g) := match c with
      | .upval uv => (uv, g)
      | .slot level uv => g.luaFFindupval th level uv
      | .new uv => (uv, g.luaFNewupval uv)
    let (uvs, g) := capture th g cs
    (uv :: uvs, g)

-- OP_CLOSURE
def newLclosure (th cl env p : Nat) (captures : List Capture) : GlobalState :=
  let (upvals, g) := capture th g captures
  (g.setClosure cl (.lua env p upvals)).luaCLink (.function cl)

/-- `luaE_newthread`. -/
def luaENewthread (th th' : Nat) : GlobalState :=
  let l := { gt := (g.heap.threads th).gt, stack := fun _ => .nil, top := 1, ci := [⟨21, false⟩] }
  ((g.setThread th' l).setOpenupval th' []).luaCLink (.thread th')

/-- `luaF_newproto`. -/
def luaFNewproto (f : Nat) (source : Option Nat) : GlobalState :=
  let p := { source, k := [], upvalues := [], p := [], locvars := [] }
  { g with heap.protos := setAt g.heap.protos f p }.luaCLink (.proto f)

/-! ## Stores -/

inductive Slot where
  | array (i : Nat)
  | node (i : Nat)
  deriving DecidableEq, Repr

/-- A store into a table, through the slot that `luaH_set` comes to; a key that is new has a barrier of its
own (`newkey`). -/
def settable (h : Nat) (slot : Slot) (key v : TValue) : GlobalState :=
  let t := g.heap.tables h
  match slot with
  | .array i => (g.setTable h { t with array := t.array.set i v }).luaCBarriert h v
  | .node i =>
    let g :=
      if (t.node.getD i ⟨.nil, .nil⟩).key = key then g
      else (g.setTable h { t with node := t.node.modify i fun n => { n with key } }).luaCBarriert h key
    let t := g.heap.tables h
    (g.setTable h { t with node := t.node.modify i fun n => { n with val := v } }).luaCBarriert h v

/-- A store with a forward barrier: the object, and what it holds afterwards. -/
inductive Store where
  | closureEnv (cl h : Nat)
  | cUpvalue (cl i : Nat) (v : TValue)
  | udataMetatable (u : Nat) (mt : Option Nat)
  | udataEnv (u h : Nat)
  | threadGt (th : Nat) (v : TValue)
  | setupval (uv : Nat) (v : TValue)
  | luaSetupvalue (cl uv : Nat) (v : TValue)
  | protoConstant (f i : Nat) (v : TValue)
  | protoInner (f i f' : Nat)
  | protoUpvalue (f i ts : Nat)
  | protoLocvar (f i ts : Nat)
  deriving DecidableEq, Repr

def withEnv (h : Nat) : Closure → Closure
  | .c _ upvalue => .c h upvalue
  | .lua _ p upvals => .lua h p upvals

def withUpvalue (i : Nat) (v : TValue) : Closure → Closure
  | .c env upvalue => .c env (upvalue.set i v)
  | .lua env p upvals => .lua env p upvals

-- setobj(L, uv->v, v)
def setderef (uv : Nat) (v : TValue) : GlobalState :=
  match (g.heap.upvals uv).v with
  | .stack th slot => g.setobj th slot v
  | .own => g.setUpVal uv { v := .own, value := v }

def setUdata (u : Nat) (ud : Udata) : GlobalState := { g with heap.udata := setAt g.heap.udata u ud }

def setProto (f : Nat) (p : Proto) : GlobalState := { g with heap.protos := setAt g.heap.protos f p }

def store : Store → GlobalState
  -- lua_setfenv, lua_replace
  | .closureEnv cl h =>
    (g.setClosure cl (withEnv h (g.heap.closures cl))).luaCObjbarrier (.function cl) (.table h)
  -- lua_replace, lua_setupvalue
  | .cUpvalue cl i v => (g.setClosure cl (withUpvalue i v (g.heap.closures cl))).luaCBarrier (.function cl) v
  -- lua_setmetatable
  | .udataMetatable u mt =>
    let g := g.setUdata u { g.heap.udata u with metatable := mt }
    match mt with
    | some h => g.luaCObjbarrier (.userdata u) (.table h)
    | none => g
  -- lua_setfenv
  | .udataEnv u h =>
    (g.setUdata u { g.heap.udata u with env := h }).luaCObjbarrier (.userdata u) (.table h)
  -- lua_setfenv; lua_replace has no barrier, and a thread is never black
  | .threadGt th v => (g.setThread th { g.heap.threads th with gt := v }).luaCBarrier (.thread th) v
  -- OP_SETUPVAL
  | .setupval uv v => (g.setderef uv v).luaCBarrier (.upval uv) v
  -- lua_setupvalue, of a Lua function
  | .luaSetupvalue cl uv v => (g.setderef uv v).luaCBarrier (.function cl) v
  -- addk
  | .protoConstant f i v =>
    let p := g.heap.protos f
    (g.setProto f { p with k := p.k.set i v }).luaCBarrier (.proto f) v
  -- pushclosure
  | .protoInner f i f' =>
    let p := g.heap.protos f
    (g.setProto f { p with p := p.p.set i (some f') }).luaCObjbarrier (.proto f) (.proto f')
  -- indexupvalue
  | .protoUpvalue f i ts =>
    let p := g.heap.protos f
    (g.setProto f { p with upvalues := p.upvalues.set i (some ts) }).luaCObjbarrier (.proto f) (.string ts)
  -- registerlocalvar
  | .protoLocvar f i ts =>
    let p := g.heap.protos f
    (g.setProto f { p with locvars := p.locvars.set i (some ts) }).luaCObjbarrier (.proto f) (.string ts)

-- luaM_growvector fills the new part of an array with nothing
def protoGrow (f k upvalues p locvars : Nat) : GlobalState :=
  let pr := g.heap.protos f
  g.setProto f { pr with
    k := pr.k ++ List.replicate k .nil
    upvalues := pr.upvalues ++ List.replicate upvalues none
    p := pr.p ++ List.replicate p none
    locvars := pr.locvars ++ List.replicate locvars none }

/-! ## Stacks (`ldo.c`, `lvm.c`) -/

-- setnilvalue(L->top++) up to `n`, or L->top = n
def settop (th n : Nat) : GlobalState :=
  let l := g.heap.threads th
  g.setThread th { l with stack := fun o => if l.top ≤ o ∧ o < n then .nil else l.stack o, top := n }

-- the new call of luaD_precall; a Lua function gets its registers
def enter (th n : Nat) (isLua : Bool) : GlobalState :=
  let g := if isLua then g.settop th n else g
  g.setThread th { g.heap.threads th with ci := ⟨n, isLua⟩ :: (g.heap.threads th).ci }

-- L->ci--
def leave (th : Nat) : GlobalState :=
  g.setThread th { g.heap.threads th with ci := (g.heap.threads th).ci.tail }

-- L->top = L->ci->top
def restoretop (th : Nat) : GlobalState :=
  let l := g.heap.threads th
  g.setThread th { l with top := l.ci.headD ⟨l.top, true⟩ |>.top }

-- L->ci->top = n
def setcitop (th n : Nat) : GlobalState :=
  let l := g.heap.threads th
  g.setThread th { l with ci := l.ci.modifyHead fun ci => { ci with top := n } }

end GlobalState

/-! ## The new state (`lstate.c`) -/

/-- `luaS_fix`. -/
def GlobalState.luaSFix (g : GlobalState) (ts : Nat) : GlobalState :=
  g.setMark (.string ts) (g.marked (.string ts) ||| fixedbit)

/-- The tag methods, in the order of `ltm.h`. -/
def tagMethods : List TMS :=
  [.index, .newindex, .gc, .mode, .eq, .add, .sub, .mul, .div, .mod, .pow, .unm, .len, .lt, .le, .concat, .call]

-- what luaT_init, luaX_init and f_luaopen fix
def fixedNames : List (List UInt8) :=
  tagMethods.map (literal ·.name) ++ reservedWords.map (literal ·.1) ++ [literal "not enough memory"]

-- luaS_fix(luaS_new(L, name)), with the first address that is free
def fixName (g : GlobalState) (name : List UInt8) : GlobalState :=
  let (ts, g) := g.luaSNewlstr name g.hash.flatten.length
  g.luaSFix ts

/-- `lua_newstate`, before `f_luaopen`. -/
def preinitState : GlobalState where
  heap :=
    { strings := fun _ => default, udata := fun _ => default, upvals := fun _ => default
      closures := fun _ => default, tables := fun _ => default, protos := fun _ => default
      threads := fun _ => { gt := .nil, stack := fun _ => .nil, top := 1, ci := [⟨21, false⟩] } }
  -- the main thread has the bits WHITE0BIT, FIXEDBIT and SFIXEDBIT
  marked := fun _ => 0b1100001
  currentwhite := 0b100001
  gcstate := .pause
  hash := List.replicate minstrtabsize []
  sweepstrgc := 0
  rootgc := [.thread 0]
  sweepgc := none
  gray := []
  grayagain := []
  weak := []
  openupval := fun _ => []
  tmudata := []
  uvhead := []
  mainthread := 0
  running := 0
  registry := .nil
  mt := List.replicate 9 none
  tmname := fun e => tagMethods.idxOf e

/-- `lua_newstate`. -/
def luaNewstate : GlobalState :=
  -- table of globals
  let g := preinitState.luaHNew 0 2 0
  let g := g.setThread 0 { g.heap.threads 0 with gt := .table 0 }
  let g := { g.luaHNew 0 2 1 with registry := .table 1 }
  fixedNames.foldl fixName g

/-! ## Runs -/

inductive Event where
  | singlestep
  -- luaC_fullgc, before and after the sweep that it finishes
  | resetSweep
  | markroot
  | setobj (th slot : Nat) (v : TValue)
  | settop (th n : Nat)
  | enter (th n : Nat) (isLua : Bool)
  | leave (th : Nat)
  | restoretop (th : Nat)
  | setcitop (th n : Nat)
  | resume (th : Nat)
  | newlstr (th slot : Nat) (str : List UInt8) (ts : Nat)
  | newudata (th slot env u : Nat)
  | newtable (th slot narray nhash h : Nat)
  | newCclosure (th slot env cl : Nat) (upvalue : List TValue)
  | newLclosure (th slot env cl p : Nat) (captures : List GlobalState.Capture)
  | newthread (th slot th' : Nat)
  | newproto (th slot f : Nat) (source : Option Nat)
  | protoGrow (f k upvalues p locvars : Nat)
  | settable (h : Nat) (slot : GlobalState.Slot) (key v : TValue)
  | rehash (h : Nat) (array : List TValue) (node : List Node)
  | tableMetatable (h : Nat) (mt : Option Nat)
  | typeMetatable (tag : Nat) (mt : Option Nat)
  | store (s : GlobalState.Store)
  | close (th level : Nat)

def exec (g : GlobalState) : Event → GlobalState
  | .singlestep => g.singlestep
  | .resetSweep => g.resetSweep
  | .markroot => g.markroot
  | .setobj th slot v => g.setobj th slot v
  | .settop th n => g.settop th n
  | .enter th n isLua => g.enter th n isLua
  | .leave th => g.leave th
  | .restoretop th => g.restoretop th
  | .setcitop th n => g.setcitop th n
  | .resume th => { g with running := th }
  | .newlstr th slot str ts =>
    let (o, g) := g.luaSNewlstr str ts
    g.setobj th slot (.string o)
  | .newudata th slot env u => (g.luaSNewudata env u).setobj th slot (.userdata u)
  | .newtable th slot narray nhash h => (g.luaHNew narray nhash h).setobj th slot (.table h)
  | .newCclosure th slot env cl upvalue =>
    ((g.setClosure cl (.c env upvalue)).luaCLink (.function cl)).setobj th slot (.function cl)
  | .newLclosure th slot env cl p captures => (g.newLclosure th cl env p captures).setobj th slot (.function cl)
  | .newthread th slot th' => (g.luaENewthread th th').setobj th slot (.thread th')
  | .newproto th slot f source => (g.luaFNewproto f source).setobj th slot (.proto f)
  | .protoGrow f k upvalues p locvars => g.protoGrow f k upvalues p locvars
  | .settable h slot key v => g.settable h slot key v
  -- the moves of a rehash, and of a colliding node
  | .rehash h array node => g.setTable h { g.heap.tables h with array, node }
  | .tableMetatable h mt =>
    let g := g.setTable h { g.heap.tables h with metatable := mt }
    match mt with
    | some h' => g.luaCObjbarriert h (.table h')
    | none => g
  | .typeMetatable tag mt => { g with mt := g.mt.set tag mt }
  | .store s => g.store s
  | .close th level => g.luaFClose th level

def Capture.fresh : GlobalState.Capture → Option GCObject
  | .upval _ => none
  | .slot _ uv => some (.upval uv)
  | .new uv => some (.upval uv)

/-- No two entries have the same string for their key. -/
def Mapped (node : List Node) : Prop := node.Pairwise fun n n' => ∀ ts, n.key = .string ts → n'.key ≠ .string ts

/-- The operand of a capture is there. -/
def GlobalState.Captures (g : GlobalState) (th : Nat) : GlobalState.Capture → Prop
  | .upval uv => g.Held (.upval uv)
  | .slot level _ => level < exposed (g.heap.threads th)
  | .new _ => True

/-- What a store names can be got to. -/
def GlobalState.Stores (g : GlobalState) : GlobalState.Store → Prop
  | .closureEnv cl h => g.Held (.function cl) ∧ g.Held (.table h)
  | .cUpvalue cl _ v => g.Held (.function cl) ∧ g.HeldValue v
  | .udataMetatable u mt => g.Held (.userdata u) ∧ ∀ h ∈ mt, g.Held (.table h)
  | .udataEnv u h => g.Held (.userdata u) ∧ g.Held (.table h)
  | .threadGt th v => g.Held (.thread th) ∧ g.HeldValue v
  | .setupval uv v => g.Held (.upval uv) ∧ g.HeldValue v
  -- the barrier is for the function, and misses an upvalue that another function has made black
  | .luaSetupvalue cl uv v => g.Held (.function cl) ∧ .upval uv ∈ g.refs (.function cl) ∧ g.HeldValue v ∧
    (g.gcstate = .propagate → g.isblack (.upval uv) → g.isblack (.function cl))
  | .protoConstant f _ v => g.Held (.proto f) ∧ g.HeldValue v
  | .protoInner f _ f' => g.Held (.proto f) ∧ g.Held (.proto f')
  | .protoUpvalue f _ ts => g.Held (.proto f) ∧ g.Held (.string ts)
  | .protoLocvar f _ ts => g.Held (.proto f) ∧ g.Held (.string ts)

-- a slot that a value is written to
def GlobalState.Writable (g : GlobalState) (th slot : Nat) : Prop :=
  g.Held (.thread th) ∧ slot < (g.heap.threads th).top

/-- What the program may do: it names what it can get to, and a new object gets an address that is free. -/
def Legal (g : GlobalState) : Event → Prop
  | .singlestep | .resetSweep => True
  | .markroot => g.gcstate = .finalize
  | .setobj th slot v => g.Writable th slot ∧ g.HeldValue v
  | .settop th _ => g.Held (.thread th)
  | .enter th n _ => g.Held (.thread th) ∧ (g.heap.threads th).top ≤ n
  | .leave th => g.Held (.thread th)
  | .restoretop th => g.Held (.thread th) ∧ ∀ ci ∈ (g.heap.threads th).ci.head?, ci.isLua
  | .setcitop th n => g.Held (.thread th) ∧
    ∀ ci ∈ (g.heap.threads th).ci.head?, ci.isLua → n ≤ (g.heap.threads th).top
  | .resume th => g.Held (.thread th)
  | .newlstr th slot _ ts => g.Writable th slot ∧ .string ts ∉ g.objects
  | .newudata th slot env u => g.Writable th slot ∧ g.Held (.table env) ∧ .userdata u ∉ g.objects
  | .newtable th slot _ _ h => g.Writable th slot ∧ .table h ∉ g.objects
  | .newCclosure th slot env cl upvalue => g.Writable th slot ∧ g.Held (.table env) ∧
    (∀ v ∈ upvalue, g.HeldValue v) ∧ .function cl ∉ g.objects
  | .newLclosure th slot env cl p captures => g.Writable th slot ∧ g.Held (.table env) ∧ g.Held (.proto p) ∧
    (∀ c ∈ captures, g.Captures th c) ∧ .function cl ∉ g.objects ∧
    (captures.filterMap Capture.fresh).Nodup ∧ ∀ o ∈ captures.filterMap Capture.fresh, o ∉ g.objects
  | .newthread th slot th' => g.Writable th slot ∧ .thread th' ∉ g.objects
  | .newproto th slot f source => g.Writable th slot ∧ .proto f ∉ g.objects ∧ ∀ ts ∈ source, g.Held (.string ts)
  | .protoGrow f _ _ _ _ => g.Held (.proto f)
  | .settable h slot key v => g.Held (.table h) ∧ g.HeldValue key ∧ g.HeldValue v ∧
    match slot with
    | .array _ => True
    -- a key that is new has not been found in the table
    | .node i => ∀ n ∈ (g.heap.tables h).node[i]?, n.key ≠ key →
      n.val = .nil ∧ ∀ n' ∈ (g.heap.tables h).node, n'.key ≠ key
  | .rehash h array node => g.Held (.table h) ∧
    (∀ o ∈ tableRefs { g.heap.tables h with array, node }, o ∈ tableRefs (g.heap.tables h)) ∧
    (∀ n ∈ node, ∀ o ∈ gcvalue n.key, ∃ n' ∈ (g.heap.tables h).node, o ∈ gcvalue n'.key) ∧ Mapped node
  | .tableMetatable h mt => g.Held (.table h) ∧ ∀ h' ∈ mt, g.Held (.table h')
  | .typeMetatable _ mt => ∀ h ∈ mt, g.Held (.table h)
  | .store s => g.Stores s
  | .close th _ => g.Held (.thread th)

/-- What the program may do, whatever the barriers make of it. -/
def Named (g : GlobalState) : Event → Prop
  | .store (.luaSetupvalue cl uv v) => g.Held (.function cl) ∧ .upval uv ∈ g.refs (.function cl) ∧ g.HeldValue v
  | e => Legal g e

/-- The barrier of `lua_setupvalue` is for the function: a new value gets by it in an upvalue that another
function has made black. -/
def Barred (g : GlobalState) : Event → Prop
  | .store (.luaSetupvalue cl uv v) => g.gcstate = .propagate → ∀ o ∈ gcvalue v, g.iswhite o →
    g.isblack (.upval uv) → g.isblack (.function cl)
  | _ => True

/-- The program and the collector. -/
def runtime : System GlobalState Event := ⟨fun g e => some (exec g e)⟩

end Lunatik.Lua.Gc
