import Lunatik.Core.SyncJob

/-! # Asynchronous jobs on an ordered workqueue (`lunatik.c`)

`lunatik_loadcode_async` and `lunatik_loadcode_async_nores` allocate `d` and `lw`, queue `lw`
and return.  All the rest is left to `loadcode_work_handler`, which runs the chunk, calls the
callbacks that are set in `d` and lets `loadcode_async_work_cleanup` free both blocks.

A `Dispatch` holds any number of such submissions to one context that is not destroyed.  Its
log records what the outside world sees of the handler.  Accesses to `d` and `lw` are checked
as in `Pool`.
-/

namespace Lunatik.Core

open Lunatik.Kernel Lunatik.Library

/-- The arguments of a submission, and what its chunk comes to.  `needResult` tells the two
    functions apart; `callb` is whether the callback is not NULL. -/
structure AsyncArgs where
  needResult : Bool
  callb : Bool
  callbArg : Nat
  product : Product
  deriving DecidableEq, Repr

-- `struct loadcode_data`, with the pointers to functions as far as they are NULL or not
structure AsyncData where
  ret : Int
  result : Option LunatikResult
  needResult : Bool
  callbackArg : Nat
  callback : Bool
  callbackNores : Bool
  callbackWork : Bool
  complete : Nat
  deriving DecidableEq, Repr

inductive SubmitPc where
  | start
  | createWork
  | queueWork
  | returned
  | oops
  deriving DecidableEq, Repr

inductive AsyncPc where
  | idle
  | queued
  | entered
  | executing
  | fetching
  | signalling
  | testCallback
  | testCallbackNores
  | testCallbackWork
  | freeData
  | freeWork
  | returned
  deriving DecidableEq, Repr

inductive AsyncEvent where
  | started (i : Nat)
  | executed (i : Nat)
  | callback (i : Nat) (arg : Nat) (ret : Int) (result : Option LunatikResult)
  | callbackNores (i : Nat) (arg : Nat) (ret : Int)
  | freedData (i : Nat)
  | freedWork (i : Nat)
  deriving DecidableEq, Repr

structure AsyncJob where
  args : AsyncArgs
  submit : SubmitPc
  handler : AsyncPc
  d : Block
  lw : Block
  data : AsyncData
  ret : Int
  usedFreed : Bool
  deriving DecidableEq, Repr

namespace AsyncJob

-- what kzalloc leaves
def zeroData : AsyncData := ⟨0, none, false, 0, false, false, false, 0⟩

def fresh (args : AsyncArgs) : AsyncJob :=
  { args, submit := .start, handler := .idle, d := .absent, lw := .absent, data := zeroData, ret := 0,
    usedFreed := false }

def touchD (job : AsyncJob) : AsyncJob := { job with usedFreed := job.usedFreed || !job.d.live }

def touchLw (job : AsyncJob) : AsyncJob := { job with usedFreed := job.usedFreed || !job.lw.live }

end AsyncJob

-- the fields set before lunatik_work_create
def AsyncArgs.data (args : AsyncArgs) : AsyncData :=
  { ret := -1
    result := none
    needResult := args.needResult
    callbackArg := args.callbArg
    callback := args.needResult && args.callb
    callbackNores := !args.needResult && args.callb
    callbackWork := true
    complete := 0 }

inductive SubmitMove where
  | allocData (granted : Bool)
  | allocWork (granted : Bool)
  | queueWork
  deriving DecidableEq, Repr

/-- `lunatik_loadcode_async` and `lunatik_loadcode_async_nores`. -/
def loadcodeAsyncStep (job : AsyncJob) : SubmitMove → Option AsyncJob
  | .allocData granted =>
    if job.submit = .start then
      if granted then some { job with submit := .createWork, d := ⟨true, 0⟩, data := job.args.data }
      else some { job with submit := .returned, ret := -enomem }
    else none
  | .allocWork granted =>
    if job.submit = .createWork then
      -- on failure lunatik_work_create returns ERR_PTR(-ENOMEM), which `if (!lw)` lets pass
      some { job with submit := .queueWork, lw := ⟨granted, 0⟩ }
    else none
  | .queueWork =>
    if job.submit = .queueWork then
      if job.lw.granted then
        some { job.touchLw with submit := .returned, handler := .queued, ret := 0 }
      else some { job with submit := .oops }
    else none

/-- `loadcode_work_handler` with `loadcode_internal` and `loadcode_async_work_cleanup` inlined,
    one access at a time, and what can be seen of it. -/
def asyncHandlerStep (i : Nat) (job : AsyncJob) : Option (AsyncJob × List AsyncEvent) :=
  match job.handler with
  | .idle => none
  | .queued => some ({ job.touchLw with handler := .entered }, [.started i])
  -- lw->work_data and lw->lc
  | .entered => some ({ job.touchLw with handler := .executing }, [])
  | .executing =>
    some ({ job.touchD with handler := .fetching, data := { job.data with ret := job.args.product.status } },
      [.executed i])
  | .fetching =>
    if job.data.needResult then
      some ({ job.touchD with
        handler := .signalling
        data := { job.data with ret := job.args.product.ret, result := job.args.product.result } },
          [])
    else some ({ job.touchD with handler := .signalling }, [])
  | .signalling =>
    some ({ job.touchD with
      handler := .testCallback
      data := { job.data with complete := job.data.complete + 1 } }, [])
  | .testCallback =>
    some ({ job.touchD with handler := .testCallbackNores },
      if job.data.callback then [.callback i job.data.callbackArg job.data.ret job.data.result]
      else [])
  | .testCallbackNores =>
    some ({ job.touchD with handler := .testCallbackWork },
      if job.data.callbackNores then [.callbackNores i job.data.callbackArg job.data.ret] else [])
  | .testCallbackWork =>
    some ({ job.touchD with handler := if job.data.callbackWork then .freeData else .returned }, [])
  -- d = lw->work_data; kfree(d)
  | .freeData => some ({ job.touchLw with handler := .freeWork, d := job.d.kfree }, [.freedData i])
  | .freeWork => some ({ job with handler := .returned, lw := job.lw.kfree }, [.freedWork i])
  | .returned => none

/-! ## Submissions to one context -/

structure Dispatch where
  jobs : Nat → AsyncJob
  queue : List Nat
  running : Option Nat
  -- the accepted submissions, in the order of queue_work
  submitted : List Nat
  log : List AsyncEvent

inductive DispatchLabel where
  | submit (i : Nat) (move : SubmitMove)
  | worker
  deriving DecidableEq, Repr

namespace Dispatch

def update (jobs : Nat → AsyncJob) (i : Nat) (job : AsyncJob) : Nat → AsyncJob :=
  fun j => if j = i then job else jobs j

-- queue_work happened in this move
def queues (move : SubmitMove) (job : AsyncJob) : Bool :=
  move == .queueWork && job.handler == .queued

def step (s : Dispatch) : DispatchLabel → Option Dispatch
  | .submit i move =>
    (loadcodeAsyncStep (s.jobs i) move).map fun job =>
      { s with
        jobs := update s.jobs i job
        queue := if queues move job then s.queue ++ [i] else s.queue
        submitted := if queues move job then s.submitted ++ [i] else s.submitted }
  | .worker =>
    match s.running, s.queue with
    | some i, _ =>
      (asyncHandlerStep i (s.jobs i)).map fun (job, events) =>
        { s with
          jobs := update s.jobs i job
          running := if job.handler = .returned then none else some i
          log := s.log ++ events }
    | none, i :: rest =>
      (asyncHandlerStep i (s.jobs i)).map fun (job, events) =>
        { s with
          jobs := update s.jobs i job
          queue := rest
          running := some i
          log := s.log ++ events }
    | none, [] => none

def Initial (args : Nat → AsyncArgs) : Dispatch :=
  { jobs := fun i => .fresh (args i), queue := [], running := none, submitted := [], log := [] }

end Dispatch

def dispatchSystem : System Dispatch DispatchLabel := ⟨Dispatch.step⟩

end Lunatik.Core
