import Lunatik.Core.AsyncJob

/-! # How work is submitted (`lunatik.c`)

The five functions that create a `lunatik_work` and queue it, up to the point where they return or
begin to wait, as programs over the answers of the allocator.  What they do to the outside is
recorded: the blocks that they allocate and free, the work that they queue, and the code buffer if
they free it.  Callbacks are only called by the handler of a queued work.

A pointer that is used as a `lunatik_work` without being one ends the program.
-/

namespace Lunatik.Core

open Lunatik.Kernel

/-! ## Work -/

-- a pointer to a function, or NULL
abbrev FunctionPtr := Option Nat

inductive CallbackWork where
  | loadcodeWorkCleanup
  | loadcodeAsyncWorkCleanup
  deriving DecidableEq, Repr

/-- `struct loadcode_data` when it is handed over. -/
structure SubmittedData where
  code : Nat
  szCode : Nat
  result : Nat := null
  ret : Int := 0
  needResult : Bool := false
  callbackArg : Nat := null
  callback : FunctionPtr := none
  callbackNores : FunctionPtr := none
  callbackWork : Option CallbackWork := none
  complete : Nat := 0
  deriving DecidableEq, Repr

inductive WorkData where
  | loadcode (d : SubmittedData)
  | luaopen (func : Nat)
  deriving DecidableEq, Repr

inductive WorkHandler where
  | loadcodeWorkHandler
  | openlibWorkHandler
  deriving DecidableEq, Repr

structure LunatikWork where
  handler : WorkHandler
  workData : WorkData
  deriving DecidableEq, Repr

inductive SubmitBlock where
  | data
  | work
  deriving DecidableEq, Repr

inductive SubmitEvent where
  | allocated (b : SubmitBlock)
  | freed (b : SubmitBlock)
  | queued (lw : LunatikWork)
  | freedCode
  deriving DecidableEq, Repr

-- the dereference of a pointer that points to nothing
inductive Oops where
  | badPointer
  deriving DecidableEq, Repr

abbrev SubmitM := EStateM Oops (List SubmitEvent)

def emit (e : SubmitEvent) : SubmitM PUnit := modify fun events => events ++ [e]

/-! ## Functions -/

/-- What the answers of the allocator are, for the two blocks. -/
structure SubmitAllocs where
  data : Bool
  work : Bool
  deriving DecidableEq, Repr

inductive WorkPtr where
  | null
  | errPtr (e : Int)
  | block (lw : LunatikWork)
  deriving DecidableEq, Repr

def lunatikWorkCreate (granted : Bool) (handler : WorkHandler) (data : WorkData) :
    SubmitM WorkPtr := do
  if granted then
    emit (.allocated .work)
    return .block ⟨handler, data⟩
  else return .errPtr (-enomem)

def lunatikWorkQueue : WorkPtr → SubmitM PUnit
  | .block lw => emit (.queued lw)
  -- lw->wq
  | .null | .errPtr _ => throw .badPointer

inductive SubmitOutcome where
  | returned (ret : Int)
  -- down_interruptible(&d->complete)
  | waits
  deriving DecidableEq, Repr

/-- The common course of the four functions that take code. -/
def submitLoadcode (allocs : SubmitAllocs) (d : SubmittedData) (accepted : SubmitOutcome) :
    SubmitM SubmitOutcome := do
  if allocs.data then
    emit (.allocated .data)
    let lw ← lunatikWorkCreate allocs.work .loadcodeWorkHandler (.loadcode d)
    if lw = .null then
      emit (.freed .data)
      return .returned (-enomem)
    else
      lunatikWorkQueue lw
      return accepted
  else return .returned (-enomem)

def lunatikLoadcode (allocs : SubmitAllocs) (code szCode : Nat) (presult : Bool) :
    SubmitM SubmitOutcome :=
  if presult then submitLoadcode allocs { code, szCode, ret := -1, needResult := true } .waits
  else
    submitLoadcode allocs { code, szCode, ret := -1, callbackWork := some .loadcodeWorkCleanup }
      (.returned 0)

def lunatikLoadcodeSync (allocs : SubmitAllocs) (code szCode : Nat) (presult : Bool) :
    SubmitM SubmitOutcome :=
  submitLoadcode allocs { code, szCode, ret := -1, needResult := presult } .waits

def lunatikLoadcodeAsync (allocs : SubmitAllocs) (code szCode : Nat) (callb : FunctionPtr)
    (callbArg : Nat) :
    SubmitM SubmitOutcome :=
  submitLoadcode allocs
    { code
      szCode
      ret := -1
      needResult := true
      callback := callb
      callbackArg := callbArg
      callbackWork := some .loadcodeAsyncWorkCleanup } (.returned 0)

def lunatikLoadcodeAsyncNores (allocs : SubmitAllocs) (code szCode : Nat) (callb : FunctionPtr)
    (callbArg : Nat) :
    SubmitM SubmitOutcome :=
  submitLoadcode allocs
    { code
      szCode
      ret := -1
      needResult := false
      callbackNores := callb
      callbackArg := callbArg
      callbackWork := some .loadcodeAsyncWorkCleanup } (.returned 0)

def lunatikOpenlib (allocs : SubmitAllocs) (luaopenFunc : Nat) : SubmitM SubmitOutcome := do
  let lw ← lunatikWorkCreate allocs.work .openlibWorkHandler (.luaopen luaopenFunc)
  if lw = .null then return .returned (-enomem)
  else
    lunatikWorkQueue lw
    return .returned 0

/-- A call of one of the five functions. -/
inductive Submission where
  | loadcode (code szCode : Nat) (presult : Bool)
  | loadcodeSync (code szCode : Nat) (presult : Bool)
  | loadcodeAsync (code szCode : Nat) (callb : FunctionPtr) (callbArg : Nat)
  | loadcodeAsyncNores (code szCode : Nat) (callb : FunctionPtr) (callbArg : Nat)
  | openlib (luaopenFunc : Nat)
  deriving DecidableEq, Repr

def Submission.run (allocs : SubmitAllocs) : Submission → SubmitM SubmitOutcome
  | .loadcode code szCode presult => lunatikLoadcode allocs code szCode presult
  | .loadcodeSync code szCode presult => lunatikLoadcodeSync allocs code szCode presult
  | .loadcodeAsync code szCode callb callbArg =>
    lunatikLoadcodeAsync allocs code szCode callb callbArg
  | .loadcodeAsyncNores code szCode callb callbArg =>
    lunatikLoadcodeAsyncNores allocs code szCode callb callbArg
  | .openlib luaopenFunc => lunatikOpenlib allocs luaopenFunc

-- whether the call asks for a loadcode_data
def Submission.needsData : Submission → Bool
  | .openlib _ => false
  | _ => true

end Lunatik.Core
