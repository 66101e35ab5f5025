import Lunatik.Library.Ring
import Lunatik.Library.TransitionSystem
import Lunatik.Lua.CallStack
import Lunatik.Lua.StringTable

/-! # Open upvalues (`lfunc.c`, `ldo.c`, `lgc.c`)

The upvalues of a thread as they are in memory.  An open one is in the list `openupval` of its thread and
in the ring at `uvhead`, and points into the stack; a closed one is in `rootgc` and holds its value itself.
`u.value` and `u.l` share their memory: the links are those of open upvalues, the value that of closed ones.

The program's side are the references that its closures hold, by which it reads and assigns.
-/

namespace Lunatik.Lua.OpenUpval

open Lunatik.Library
open StringTable (whitebits blackbit)

def sizeofTValue : Nat := 16

/-- `uv->v`: a slot of the stack, or `&uv->u.value`. -/
inductive ValuePtr where
  | stack (address : Nat)
  | own
  deriving DecidableEq, Repr

structure UpVal where
  marked : BitVec 8
  v : ValuePtr
  value : TValue

/-- A thread with what the global state has of upvalues, which are named by their addresses.  In the ring
`none` is `uvhead`. -/
structure Thread where
  stack : Nat
  stacksize : Nat
  slots : Nat → TValue
  openupval : List Nat
  upvals : Nat → UpVal
  ring : LinkedRing (Option Nat)
  rootgc : List Nat
  currentwhite : BitVec 8
  -- g->gcstate == GCSpropagate
  propagating : Bool

namespace Thread

variable (g : Thread)

-- g->stack + k
def slotAddr (k : Nat) : Nat := g.stack + sizeofTValue * k

-- the index of the slot at an address
def slotAt (address : Nat) : Nat := (address - g.stack) / sizeofTValue

/-- The upvalues that have not been freed. -/
def allocated : List Nat := g.openupval ++ g.rootgc

/-! ## Marks -/

def otherwhite : BitVec 8 := g.currentwhite ^^^ whitebits

def luaCWhite : BitVec 8 := g.currentwhite &&& whitebits

def isdead (uv : Nat) : Bool := (g.upvals uv).marked &&& g.otherwhite &&& whitebits != 0

def iswhite (uv : Nat) : Bool := (g.upvals uv).marked &&& whitebits != 0

def isblack (uv : Nat) : Bool := (g.upvals uv).marked &&& blackbit != 0

def isgray (uv : Nat) : Bool := !g.isblack uv && !g.iswhite uv

def remark (uv : Nat) (f : BitVec 8 → BitVec 8) : Thread :=
  { g with upvals := setAt g.upvals uv { g.upvals uv with marked := f (g.upvals uv).marked } }

def changewhite (uv : Nat) : Thread := g.remark uv (· ^^^ whitebits)

def makewhite (uv : Nat) : Thread :=
  g.remark uv fun marked => (marked &&& ~~~(blackbit ||| whitebits)) ||| g.luaCWhite

def gray2black (uv : Nat) : Thread := g.remark uv (· ||| blackbit)

def white2gray (uv : Nat) : Thread := g.remark uv (· &&& ~~~whitebits)

/-! ## Finding and closing -/

-- uv->v >= level; an open upvalue points into the stack
def atOrAbove (level : Nat) (uv : Nat) : Bool :=
  match (g.upvals uv).v with
  | .stack address => level ≤ address
  | .own => false

-- the search of luaF_findupval
def findOpen (level : Nat) : List Nat → Option Nat
  | [] => none
  | p :: rest =>
    if g.atOrAbove level p then
      if (g.upvals p).v = .stack level then some p else findOpen level rest
    else none

-- chain it in the proper position
def linkOpen (level uv : Nat) : List Nat → List Nat
  | [] => [uv]
  | p :: rest => if g.atOrAbove level p then p :: linkOpen level uv rest else uv :: p :: rest

/-- `luaF_findupval`; `new` is what `luaM_new` returns, nothing when it raises an error. -/
def luaFFindupval (level : Nat) (new : Option Nat) : Option Nat × Thread :=
  match g.findOpen level g.openupval with
  | some p => (some p, if g.isdead p then g.changewhite p else g)
  | none =>
    match new with
    | none => (none, g)
    | some uv => (some uv, { g with
        upvals := setAt g.upvals uv { marked := g.luaCWhite, v := .stack level, value := .nil }
        openupval := g.linkOpen level uv g.openupval
        ring := g.ring.insertAfter none (some uv) })

def unlinkupval (uv : Nat) : Thread := { g with ring := g.ring.remove (some uv) }

-- the memory of the upvalue is free
def luaFFreeupval (uv : Nat) : Thread :=
  match (g.upvals uv).v with
  | .stack _ => g.unlinkupval uv
  | .own => g

/-- `luaC_linkupval`; the barrier behind `gray2black` marks a value, and no upvalue. -/
def luaCLinkupval (uv : Nat) : Thread :=
  let g := { g with rootgc := uv :: g.rootgc }
  if g.isgray uv then
    if g.propagating then g.gray2black uv else g.makewhite uv
  else g

-- *uv->v
def deref (uv : Nat) : TValue :=
  match (g.upvals uv).v with
  | .stack address => g.slots (g.slotAt address)
  | .own => (g.upvals uv).value

-- setobj(&uv->u.value, uv->v); uv->v = &uv->u.value
def takeValue (uv : Nat) : Thread :=
  { g with upvals := setAt g.upvals uv { g.upvals uv with v := .own, value := g.deref uv } }

-- one round of luaF_close
def closeOne (uv : Nat) : Thread :=
  if g.isdead uv then g.luaFFreeupval uv
  else ((g.unlinkupval uv).takeValue uv).luaCLinkupval uv

-- the loop of luaF_close, over the list `openupval`
def closeOpen (level : Nat) : List Nat → Thread → Thread
  | [], g => { g with openupval := [] }
  | uv :: rest, g =>
    if g.atOrAbove level uv then closeOpen level rest ({ g with openupval := rest }.closeOne uv)
    else { g with openupval := uv :: rest }

def luaFClose (level : Nat) : Thread := closeOpen level g.openupval g

/-! ## Moving the stack -/

-- the open upvalues of the list point to the same slots of the new stack
def correctUpvals (oldstack : Nat) : List Nat → (Nat → UpVal) → Nat → UpVal
  | [], upvals => upvals
  | uv :: rest, upvals =>
    let moved : UpVal :=
      match (upvals uv).v with
      | .stack address =>
        { upvals uv with
          v := .stack ((address - oldstack) / sizeofTValue * sizeofTValue + g.stack) }
      | .own => upvals uv
    correctUpvals oldstack rest (setAt upvals uv moved)

def correctstack (oldstack : Nat) : Thread :=
  { g with upvals := g.correctUpvals oldstack g.openupval g.upvals }

/-- `luaD_reallocstack`; `leftover` is in the slots that are new. -/
def luaDReallocstack (address newsize : Nat) (leftover : Nat → TValue) : Thread :=
  let oldstack := g.stack
  let realsize := newsize + 1 + extraStack
  { g with
    stack := address
    stacksize := realsize
    slots := fun k => if k < min g.stacksize realsize then g.slots k else leftover k }.correctstack
    oldstack

/-! ## Sweeping -/

/-- `sweeplist`: what is left of the list. -/
def sweeplist : List Nat → Thread → List Nat × Thread
  | [], g => ([], g)
  | curr :: rest, g =>
    -- not dead?
    if ((g.upvals curr).marked ^^^ whitebits) &&& g.otherwhite != 0 then
      let (left, g) := sweeplist rest (g.makewhite curr)
      (curr :: left, g)
    else sweeplist rest (g.luaFFreeupval curr)

-- sweepwholelist(L, &gco2th(curr)->openupval)
def sweepOpen : Thread :=
  let (openupval, g) := sweeplist g.openupval g
  { g with openupval }

-- `count` upvalues of `rootgc`, behind the first `skip`
def sweepRoot (skip count : Nat) : Thread :=
  let (left, g') := sweeplist ((g.rootgc.drop skip).take count) g
  { g' with rootgc := g.rootgc.take skip ++ left ++ g.rootgc.drop (skip + count) }

/-! ## Assignments -/

-- setobj(s, v) to a slot of the stack
def assignSlot (k : Nat) (v : TValue) : Thread := { g with slots := setAt g.slots k v }

-- the same to the value that an upvalue holds itself
def assignOwn (uv : Nat) (v : TValue) : Thread :=
  { g with upvals := setAt g.upvals uv { g.upvals uv with value := v } }

/-- OP_SETUPVAL; `white` says that `v` is a white object. -/
def setUpval (uv : Nat) (v : TValue) (white : Bool) : Thread :=
  let g := match (g.upvals uv).v with
    | .stack address => g.assignSlot (g.slotAt address) v
    | .own => g.assignOwn uv v
  -- luaC_barrierf
  if white && g.isblack uv && !g.propagating then g.makewhite uv else g

-- a mark of reallymarkobject
def markUpval (uv : Nat) : Thread :=
  let g := g.white2gray uv
  if (g.upvals uv).v = .own then g.gray2black uv else g

end Thread

/-! ## Programs -/

/-- A thread and the upvalues in the closures of the program; a closure that it does not have any more
leaves nothing. -/
structure Program where
  thread : Thread
  refs : List (Option Nat)

/-- What a program and the collector do with the upvalues of a thread. -/
inductive Event where
  -- a local variable is assigned
  | assign (k : Nat) (v : TValue)
  -- OP_CLOSURE with OP_MOVE and with OP_GETUPVAL
  | capture (k new : Nat)
  | copy (ref : Nat)
  | setupval (ref : Nat) (v : TValue) (white : Bool)
  | drop (ref : Nat)
  | close (k : Nat)
  | realloc (address newsize : Nat) (leftover : Nat → TValue)
  -- the collector marks an upvalue, changes the white at the end of the marking, and sweeps
  | mark (uv : Nat)
  | atomic
  | sweepOpen
  | sweepRoot (skip count : Nat)
  | gcstate (propagating : Bool)

namespace Program

variable (s : Program)

def ref (r : Nat) : Option Nat := (s.refs[r]?).join

def read (r : Nat) : Option TValue := (s.ref r).map s.thread.deref

/-- What the callers promise: slots that there are, memory that is free, room on the new stack for the
locals that are captured.  The collector has marked what is referenced when it changes the white. -/
def ready : Event → Bool
  | .assign k _ => k < s.thread.stacksize
  | .capture k new => k < s.thread.stacksize && new ∉ s.thread.allocated
  | .close k => k ≤ s.thread.stacksize
  | .realloc _ newsize _ => s.thread.openupval.all fun uv =>
      !s.thread.atOrAbove (s.thread.slotAddr (newsize + 1 + extraStack)) uv
  | .mark uv => uv ∈ s.thread.allocated
  | .atomic => s.refs.all fun ref => ref.all fun uv => !s.thread.iswhite uv
  | _ => true

def exec : Event → Program
  | .assign k v => { s with thread := s.thread.assignSlot k v }
  | .capture k new =>
    let (uv, thread) := s.thread.luaFFindupval (s.thread.slotAddr k) (some new)
    { thread, refs := s.refs ++ [uv] }
  | .copy r => { s with refs := s.refs ++ [s.ref r] }
  | .setupval r v white =>
    match s.ref r with
    | some uv => { s with thread := s.thread.setUpval uv v white }
    | none => s
  | .drop r => { s with refs := s.refs.set r none }
  | .close k => { s with thread := s.thread.luaFClose (s.thread.slotAddr k) }
  | .realloc address newsize leftover =>
    { s with thread := s.thread.luaDReallocstack address newsize leftover }
  | .mark uv => { s with thread := s.thread.markUpval uv }
  | .atomic => { s with thread := { s.thread with currentwhite := s.thread.otherwhite } }
  | .sweepOpen => { s with thread := s.thread.sweepOpen }
  | .sweepRoot skip count => { s with thread := s.thread.sweepRoot skip count }
  | .gcstate propagating => { s with thread := { s.thread with propagating } }

end Program

def program : System Program Event where
  step s e := if s.ready e then some (s.exec e) else none

/-- A thread without upvalues. -/
def start (stack stacksize : Nat) (slots : Nat → TValue) : Program where
  thread :=
    { stack, stacksize, slots
      openupval := []
      upvals := fun _ => ⟨0, .own, .nil⟩
      ring := ⟨fun _ => none, fun _ => none⟩
      rootgc := []
      currentwhite := 0b100001
      propagating := false }
  refs := []

end Lunatik.Lua.OpenUpval
