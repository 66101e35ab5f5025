import Lunatik.Library.TransitionSystem
import Lunatik.Lua.Number
import Mathlib.Data.List.Nodup
import Mathlib.Data.List.Perm.Basic
import Mathlib.Data.Nat.Bitwise

/-! # The string table (`lstring.c`, `lgc.c`)

A `TString` is named by its address, which is an index that is never used twice; `hash` holds
the chains of the table, and the strings in them are the strings that exist.  Of the collector
only what touches strings is followed: the two whites, marking, and the phases of `singlestep`
with the sweep of one bucket after the other.  Which other objects there are, and whether an
allocation is granted, is chosen by the label of a step.

`nuse` is a `lu_int32` and `marked` a `lu_byte`, with the bits of `lgc.h`.
-/

namespace Lunatik.Lua

open Lunatik.Library

inductive GCState where
  | pause
  | propagate
  | sweepstring
  | sweep
  | finalize
  deriving DecidableEq, Repr

/-- `TString`; `len` is the number of its bytes. -/
structure TString where
  bytes : List UInt8
  hash : BitVec 32
  marked : BitVec 8
  deriving DecidableEq, Repr, Inhabited

/-- `global_State`, as far as strings depend on it. -/
structure StringTable where
  strings : Nat → TString
  hash : List (List Nat)
  nuse : BitVec 32
  currentwhite : BitVec 8
  gcstate : GCState
  sweepstrgc : Nat
  next : Nat

namespace StringTable

def whitebits : BitVec 8 := 0b11
def blackbit : BitVec 8 := 0b100
def fixedbit : BitVec 8 := 0b100000
def minstrtabsize : Nat := 32
def sizeofTString : Nat := 24

def size (g : StringTable) : Nat := g.hash.length

/-- The strings that exist. -/
def chained (g : StringTable) : List Nat := g.hash.flatten

def bytesOf (g : StringTable) (ts : Nat) : List UInt8 := (g.strings ts).bytes

def lmod (h : BitVec 32) (size : Nat) : Nat := h.toNat &&& (size - 1)

def otherwhite (g : StringTable) : BitVec 8 := g.currentwhite ^^^ whitebits

def luaCWhite (g : StringTable) : BitVec 8 := g.currentwhite &&& whitebits

def isdead (g : StringTable) (ts : Nat) : Bool :=
  (g.strings ts).marked &&& g.otherwhite &&& whitebits != 0

def remark (g : StringTable) (ts : Nat) (f : BitVec 8 → BitVec 8) : StringTable :=
  { g with strings := fun i =>
      if i = ts then { g.strings i with marked := f (g.strings i).marked } else g.strings i }

def changewhite (g : StringTable) (ts : Nat) : StringTable := g.remark ts (· ^^^ whitebits)

def makewhite (g : StringTable) (ts : Nat) : StringTable :=
  g.remark ts fun marked => (marked &&& ~~~(blackbit ||| whitebits)) ||| g.luaCWhite

def stringmark (g : StringTable) (ts : Nat) : StringTable := g.remark ts (· &&& ~~~whitebits)

def luaSFix (g : StringTable) (ts : Nat) : StringTable := g.remark ts (· ||| fixedbit)

/-! ## `lstring.c` -/

-- p->gch.next = newhash[h1]; newhash[h1] = p
def relink (g : StringTable) (newsize : Nat) (newhash : List (List Nat)) (p : Nat) :
    List (List Nat) :=
  newhash.modify (lmod (g.strings p).hash newsize) (p :: ·)

/-- `luaS_resize`; `false` is the memory error of a refused `luaM_newvector`. -/
def luaSResize (g : StringTable) (newsize : Nat) (granted : Bool) : Bool × StringTable :=
  if g.gcstate = .sweepstring then (true, g)
  else if granted then
    let newhash := g.hash.foldl (fun acc chain => chain.foldl (g.relink newsize) acc)
      (List.replicate newsize [])
    (true, { g with hash := newhash })
  else (false, g)

/-- What the allocator answers to the string itself and to a larger table. -/
structure Granted where
  string : Bool
  table : Bool
  deriving DecidableEq, Repr

inductive StrResult where
  | returned (ts : Nat)
  | toobig
  | memoryError
  deriving DecidableEq, Repr

-- tb->hash[h] = obj2gco(ts); tb->nuse++
def link (g : StringTable) (str : List UInt8) (h : BitVec 32) : StringTable :=
  { g with
    strings := fun i => if i = g.next then ⟨str, h, g.luaCWhite⟩ else g.strings i
    hash := g.hash.modify (lmod h g.size) (g.next :: ·)
    nuse := g.nuse + 1
    next := g.next + 1 }

def newlstr (g : StringTable) (str : List UInt8) (h : BitVec 32) (granted : Granted) :
    StrResult × StringTable :=
  if str.length + 1 > maxSizet - sizeofTString then (.toobig, g)
  else if granted.string then
    let g' := g.link str h
    if g'.nuse > BitVec.ofNat 32 g'.size ∧ g'.size ≤ maxInt / 2 then
      match g'.luaSResize (g'.size * 2) granted.table with
      | (true, g'') => (.returned g.next, g'')
      | (false, g'') => (.memoryError, g'')
    else (.returned g.next, g')
  else (.memoryError, g)

/-- The loop that hashes every `step`-th byte, from the end; `fuel` bounds its rounds. -/
def hashLoop (str : List UInt8) (step : Nat) : Nat → Nat → BitVec 32 → BitVec 32
  | 0, _, h => h
  | fuel + 1, l1, h =>
    if step ≤ l1 then
      hashLoop str step fuel (l1 - step)
        (h ^^^ ((h <<< 5) + (h >>> 2) + BitVec.ofNat 32 (str.getD (l1 - 1) 0).toNat))
    else h

def hashOf (str : List UInt8) : BitVec 32 :=
  hashLoop str ((str.length >>> 5) + 1) str.length str.length (BitVec.ofNat 32 str.length)

/-- `luaS_newlstr`. -/
def luaSNewlstr (g : StringTable) (str : List UInt8) (granted : Granted) :
    StrResult × StringTable :=
  let h := hashOf str
  match (g.hash.getD (lmod h g.size) []).find? fun o => g.bytesOf o == str with
  | some ts => (.returned ts, if g.isdead ts then g.changewhite ts else g)
  | none => g.newlstr str h granted

-- luaO_rawequalObj on two strings, and the comparison of keys in luaH_getstr
def luaORawequalString (t1 t2 : Nat) : Bool := t1 == t2

/-! ## `lgc.c` -/

/-- `sweepwholelist` on a chain: what is kept of it, and the table without the freed strings. -/
def sweepwholelist : StringTable → List Nat → List Nat × StringTable
  | g, [] => ([], g)
  | g, curr :: rest =>
    if ((g.strings curr).marked ^^^ whitebits) &&& g.otherwhite ≠ 0 then
      let (kept, g') := sweepwholelist (g.makewhite curr) rest
      (curr :: kept, g')
    else sweepwholelist { g with nuse := g.nuse - 1 } rest

-- case GCSsweepstring
def sweepBucket (g : StringTable) : StringTable :=
  let (kept, g') := g.sweepwholelist (g.hash.getD g.sweepstrgc [])
  { g' with
    hash := g.hash.set g.sweepstrgc kept
    sweepstrgc := g.sweepstrgc + 1
    gcstate := if g.size ≤ g.sweepstrgc + 1 then .sweep else .sweepstring }

def checkSizes (g : StringTable) (granted : Bool) : Bool × StringTable :=
  if g.nuse < BitVec.ofNat 32 (g.size / 4) ∧ minstrtabsize * 2 < g.size then
    g.luaSResize (g.size / 2) granted
  else (true, g)

-- the end of atomic
def atomic (g : StringTable) : StringTable :=
  { g with currentwhite := g.otherwhite, sweepstrgc := 0, gcstate := .sweepstring }

/-- `singlestep`.  `finished` says that there is no gray object, no object left to sweep and no
    userdata left to finalize, respectively. -/
def singlestep (g : StringTable) (finished granted : Bool) : StringTable :=
  match g.gcstate with
  | .pause => { g with gcstate := .propagate }
  | .propagate => if finished then g.atomic else g
  | .sweepstring => g.sweepBucket
  | .sweep =>
    if finished then
      match g.checkSizes granted with
      | (true, g') => { g' with gcstate := .finalize }
      | (false, g') => g'
    else g
  | .finalize => if finished then { g with gcstate := .pause } else g

/-- The two places where `luaC_fullgc` leaves the order of `singlestep`. -/
def fullgcReset (g : StringTable) : Option StringTable :=
  if g.gcstate = .pause ∨ g.gcstate = .propagate then
    some { g with sweepstrgc := 0, gcstate := .sweepstring }
  else none

def fullgcMarkroot (g : StringTable) : Option StringTable :=
  if g.gcstate = .finalize then some { g with gcstate := .propagate } else none

/-! ## Runs -/

inductive Label where
  | newlstr (str : List UInt8) (granted : Granted)
  | resize (lognewsize : Fin 31) (granted : Bool)
  | fix (ts : Nat)
  | mark (ts : Nat)
  | singlestep (finished granted : Bool)
  | fullgcReset
  | fullgcMarkroot
  deriving DecidableEq, Repr

def step (g : StringTable) : Label → Option StringTable
  | .newlstr str granted => some (g.luaSNewlstr str granted).2
  | .resize lognewsize granted => some (g.luaSResize (2 ^ lognewsize.val) granted).2
  | .fix ts => if ts ∈ g.chained then some (g.luaSFix ts) else none
  | .mark ts => if ts ∈ g.chained ∧ g.gcstate = .propagate then some (g.stringmark ts) else none
  | .singlestep finished granted => some (g.singlestep finished granted)
  | .fullgcReset => g.fullgcReset
  | .fullgcMarkroot => g.fullgcMarkroot

def system : System StringTable Label := ⟨step⟩

/-- The table that `f_luaopen` makes before the first string. -/
def fresh : StringTable :=
  { strings := fun _ => default
    hash := List.replicate minstrtabsize []
    nuse := 0
    currentwhite := 0b100001
    gcstate := .pause
    sweepstrgc := 0
    next := 0 }

end StringTable

end Lunatik.Lua
