import Lunatik.Core.Result
import Lunatik.Library.TransitionSystem

/-! # Synchronous jobs on an ordered workqueue (`lunatik.c`)

`lunatik_loadcode_sync`, and `lunatik_loadcode` called with a `presult`, run the same
steps: allocate `d` and `lw`, queue `lw`, wait on `d->complete`, copy the outcome, free
`lw`, free `d`.  The worker of the context's ordered workqueue runs
`loadcode_work_handler` on one queued item at a time, in the order of queueing.

A `Pool` holds any number of such calls that share one workqueue.  Every access to `d`
or `lw` is checked against the state of its block and recorded in `usedFreed`; the
model goes on as if the memory were still there.  The callbacks of a synchronous job
are NULL, so the handler only tests them.
-/

namespace Lunatik.Core

open Lunatik.Kernel Lunatik.Library

structure Block where
  granted : Bool
  frees : Nat
  deriving DecidableEq, Repr

def Block.absent : Block := ⟨false, 0⟩

def Block.live (b : Block) : Bool := b.granted && b.frees == 0

def Block.kfree (b : Block) : Block := { b with frees := b.frees + 1 }

-- `status` is what luaL_loadbuffer and lua_pcall return; `ret` and `result` are what
-- lunatik_result_get leaves when it is called
structure Product where
  status : Int
  ret : Int
  result : Option LunatikResult
  deriving DecidableEq, Repr

-- the fields of `struct loadcode_data` that change after its initialisation
structure LoadcodeData where
  ret : Int
  result : Option LunatikResult
  needResult : Bool
  complete : Nat
  deriving DecidableEq, Repr

inductive CallerPc where
  | start
  | createWork
  | queueWork
  | waiting
  | copyResult
  | copyRet
  | freeWork
  | freeData
  | returned
  | oops
  deriving DecidableEq, Repr

inductive WorkerPc where
  | idle
  | queued
  | entered
  | executing
  | fetching
  | signalling
  | testCallback
  | testCallbackNores
  | testCallbackWork
  | returned
  deriving DecidableEq, Repr

/-- One call: its arguments, where its caller and its work item are, the two blocks it
    allocates, and what it returns and stores through `presult`. -/
structure Job where
  presult : Bool
  product : Product
  caller : CallerPc
  worker : WorkerPc
  d : Block
  lw : Block
  data : LoadcodeData
  ret : Int
  stored : Option (Option LunatikResult)
  interrupted : Bool
  usedFreed : Bool
  deriving DecidableEq, Repr

namespace Job

def fresh (presult : Bool) (product : Product) : Job :=
  { presult, product, caller := .start, worker := .idle, d := .absent, lw := .absent,
    data := ⟨0, none, false, 0⟩, ret := 0, stored := none,
    interrupted := false, usedFreed := false }

def touchD (job : Job) : Job := { job with usedFreed := job.usedFreed || !job.d.live }

def touchLw (job : Job) : Job := { job with usedFreed := job.usedFreed || !job.lw.live }

-- what d->ret and d->result hold once loadcode_internal is done
def delivered (job : Job) : Int × Option LunatikResult :=
  if job.presult then (job.product.ret, job.product.result) else (job.product.status, none)

end Job

inductive CallerMove where
  | allocData (granted : Bool)
  | allocWork (granted : Bool)
  | queueWork
  | wake
  | interrupt
  | copyResult
  | copyRet
  | freeWork
  | freeData
  deriving DecidableEq, Repr

/-- `lunatik_loadcode_sync`, one access at a time. -/
def loadcodeSyncStep (job : Job) : CallerMove → Option Job
  | .allocData granted =>
    if job.caller = .start then
      if granted then
        some { job with
          caller := .createWork
          d := ⟨true, 0⟩
          data := ⟨-1, none, job.presult, 0⟩ }
      else some { job with caller := .returned, ret := -enomem }
    else none
  | .allocWork granted =>
    if job.caller = .createWork then
      -- on failure lunatik_work_create returns ERR_PTR(-ENOMEM), which `if (!lw)` lets pass
      some { job with caller := .queueWork, lw := ⟨granted, 0⟩ }
    else none
  | .queueWork =>
    if job.caller = .queueWork then
      if job.lw.granted then some { job.touchLw with caller := .waiting, worker := .queued }
      else some { job with caller := .oops }
    else none
  | .wake =>
    if job.caller = .waiting ∧ 0 < job.data.complete then
      some { job.touchD with
        caller := .copyResult
        data := { job.data with complete := job.data.complete - 1 }
        ret := 0 }
    else none
  | .interrupt =>
    if job.caller = .waiting then
      some { job.touchD with caller := .freeWork, ret := -eintr, interrupted := true }
    else none
  | .copyResult =>
    if job.caller = .copyResult then
      if job.presult then
        some { job.touchD with caller := .copyRet, stored := some job.data.result }
      else some { job with caller := .copyRet }
    else none
  | .copyRet =>
    if job.caller = .copyRet then some { job.touchD with caller := .freeWork, ret := job.data.ret }
    else none
  | .freeWork =>
    if job.caller = .freeWork then some { job with caller := .freeData, lw := job.lw.kfree }
    else none
  | .freeData =>
    if job.caller = .freeData then some { job with caller := .returned, d := job.d.kfree }
    else none

/-- `loadcode_work_handler` with `loadcode_internal` inlined, one access at a time. -/
def loadcodeWorkHandlerStep (job : Job) : Option Job :=
  match job.worker with
  | .idle => none
  -- the worker takes the item off its list
  | .queued => some { job.touchLw with worker := .entered }
  -- lw->work_data and lw->lc
  | .entered => some { job.touchLw with worker := .executing }
  | .executing =>
    some { job.touchD with
      worker := .fetching
      data := { job.data with ret := job.product.status } }
  | .fetching =>
    if job.data.needResult then
      some { job.touchD with
        worker := .signalling
        data := { job.data with ret := job.product.ret, result := job.product.result } }
    else some { job.touchD with worker := .signalling }
  | .signalling =>
    some { job.touchD with
      worker := .testCallback
      data := { job.data with complete := job.data.complete + 1 } }
  | .testCallback => some { job.touchD with worker := .testCallbackNores }
  | .testCallbackNores => some { job.touchD with worker := .testCallbackWork }
  | .testCallbackWork => some { job.touchD with worker := .returned }
  | .returned => none

/-! ## Calls that share a workqueue -/

structure Pool where
  jobs : Nat → Job
  queue : List Nat
  running : Option Nat

inductive PoolLabel where
  | caller (i : Nat) (move : CallerMove)
  | worker
  deriving DecidableEq, Repr

namespace Pool

def update (jobs : Nat → Job) (i : Nat) (job : Job) : Nat → Job :=
  fun j => if j = i then job else jobs j

def step (s : Pool) : PoolLabel → Option Pool
  | .caller i move =>
    (loadcodeSyncStep (s.jobs i) move).map fun job =>
      { s with
        jobs := update s.jobs i job
        queue := if move = .queueWork ∧ job.worker = .queued then s.queue ++ [i] else s.queue }
  | .worker =>
    match s.running, s.queue with
    | some i, _ =>
      (loadcodeWorkHandlerStep (s.jobs i)).map fun job =>
        { s with
          jobs := update s.jobs i job
          running := if job.worker = .returned then none else some i }
    | none, i :: rest =>
      (loadcodeWorkHandlerStep (s.jobs i)).map fun job =>
        { jobs := update s.jobs i job, queue := rest, running := some i }
    | none, [] => none

def Initial (s : Pool) : Prop :=
  (∀ i, ∃ presult product, s.jobs i = .fresh presult product) ∧ s.queue = [] ∧ s.running = none

end Pool

def poolSystem : System Pool PoolLabel := ⟨Pool.step⟩

end Lunatik.Core
