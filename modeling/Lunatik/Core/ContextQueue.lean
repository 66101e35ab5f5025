import Lunatik.Library.TransitionSystem

/-! # Contexts, their work and their destruction (`lunatik.c`, `lunatik_syscall.c`)

Every context has an ordered workqueue of its own: its items run one at a time and in the
order of queueing.  `lunatik_context_destroy` waits for the mutex and then frees the
`lua_State` and the context; it neither flushes nor cancels the queue.

A context belongs to one call of `sys_lua`, which is followed statement by statement, or to
kernel code, which creates it, submits work to it and destroys it whenever it likes.  While
`sys_lua` loads the bindings, the `regfunc`s may submit work to its context as well.

A handler holds the mutex exactly in its phase `locked`, and `unlocked` lies behind its
last access to the context.  `badAccess` records an access to a destroyed context, after
which the model goes on as if the memory were still there.
-/

namespace Lunatik.Core

open Lunatik.Library

inductive CtxStatus where
  | absent
  | alive
  | destroyed
  deriving DecidableEq, Repr

-- what kernel code submits, and the job of a sys_lua that waits or does not
inductive WorkKind where
  | loadcode
  | openlib
  | sysSync
  | sysAsync
  deriving DecidableEq, Repr

inductive HandlerPc where
  | entered
  | locked
  | unlocked
  | signalled
  | calledBack
  deriving DecidableEq, Repr

inductive SysPc where
  | loading
  | submitting
  | waiting
  | woken
  | interrupted
  | failed
  | returned
  deriving DecidableEq, Repr

inductive CtxOwner where
  | kernel
  | sysLua (async : Bool) (pc : SysPc)
  deriving DecidableEq, Repr

structure Ctx where
  status : CtxStatus
  owner : CtxOwner
  queue : List WorkKind
  running : Option (WorkKind × HandlerPc)
  complete : Bool
  badAccess : Bool
  deriving DecidableEq, Repr

inductive CtxMove where
  | sysCreate (async : Bool)
  | regfuncSubmit (openlib : Bool)
  | loaded (ok : Bool)
  | sysSubmit (granted : Bool)
  | wake
  | interrupt
  | sysDestroy
  | kernelCreate
  | kernelSubmit (openlib : Bool)
  | kernelDestroy
  | worker
  deriving DecidableEq, Repr

namespace Ctx

def absent : Ctx := ⟨.absent, .kernel, [], none, false, false⟩

def access (ctx : Ctx) : Ctx := { ctx with badAccess := ctx.badAccess || ctx.status != .alive }

def mutexFree (ctx : Ctx) : Bool := (ctx.running.map Prod.snd) != some .locked

-- lunatik_work_create reads lc->lwq.wq
def submit (ctx : Ctx) (work : WorkKind) : Ctx := { ctx.access with queue := ctx.queue ++ [work] }

def kernelWork (openlib : Bool) : WorkKind := if openlib then .openlib else .loadcode

def lunatikContextDestroy (ctx : Ctx) : Ctx := { ctx.access with status := .destroyed }

/-- `loadcode_work_handler` and `openlib_work_handler`, up to their accesses to the context. -/
def workerStep (ctx : Ctx) : Option Ctx :=
  match ctx.running with
  | none =>
    match ctx.queue with
    | [] => none
    | work :: rest => some { ctx with queue := rest, running := some (work, .entered) }
  | some (work, .entered) => some { ctx.access with running := some (work, .locked) }
  | some (work, .locked) => some { ctx.access with running := some (work, .unlocked) }
  | some (.openlib, .unlocked) => some { ctx with running := none }
  | some (work, .unlocked) =>
    -- up(&d->complete)
    some { ctx with running := some (work, .signalled), complete := ctx.complete || work == .sysSync }
  | some (.sysAsync, .signalled) =>
    -- sys_lua_async_cleanup
    some { ctx.lunatikContextDestroy with running := some (.sysAsync, .calledBack) }
  | some (work, .signalled) => some { ctx with running := some (work, .calledBack) }
  | some (_, .calledBack) => some { ctx with running := none }

def step (ctx : Ctx) : CtxMove → Option Ctx
  | .sysCreate async =>
    if ctx.status = .absent then
      some { absent with status := .alive, owner := .sysLua async .loading }
    else none
  | .regfuncSubmit openlib =>
    match ctx.owner with
    | .sysLua _ .loading => some (ctx.submit (kernelWork openlib))
    | _ => none
  | .loaded ok =>
    match ctx.owner with
    | .sysLua async .loading =>
      some { ctx with owner := .sysLua async (if ok then .submitting else .failed) }
    | _ => none
  | .sysSubmit granted =>
    match ctx.owner with
    | .sysLua true .submitting =>
      -- the return value of lunatik_loadcode_async_nores is ignored
      some { if granted then ctx.submit .sysAsync else ctx with owner := .sysLua true .returned }
    | .sysLua false .submitting =>
      if granted then some { ctx.submit .sysSync with owner := .sysLua false .waiting }
      else some { ctx with owner := .sysLua false .failed }
    | _ => none
  | .wake =>
    match ctx.owner with
    | .sysLua async .waiting =>
      if ctx.complete then some { ctx with owner := .sysLua async .woken } else none
    | _ => none
  | .interrupt =>
    match ctx.owner with
    | .sysLua async .waiting => some { ctx with owner := .sysLua async .interrupted }
    | _ => none
  | .sysDestroy =>
    if ctx.mutexFree then
      match ctx.owner with
      | .sysLua async .woken | .sysLua async .interrupted | .sysLua async .failed =>
        some { ctx.lunatikContextDestroy with owner := .sysLua async .returned }
      | _ => none
    else none
  | .kernelCreate =>
    if ctx.status = .absent then some { absent with status := .alive, owner := .kernel } else none
  | .kernelSubmit openlib =>
    if ctx.owner = .kernel ∧ ctx.status ≠ .absent then
      some (ctx.submit (kernelWork openlib)) else none
  | .kernelDestroy =>
    if ctx.owner = .kernel ∧ ctx.status ≠ .absent ∧ ctx.mutexFree then
      some ctx.lunatikContextDestroy
    else none
  | .worker => ctx.workerStep

end Ctx

/-- Any number of contexts; a label says which context moves. -/
def ctxSystem : System (Nat → Ctx) (Nat × CtxMove) :=
  ⟨fun s label => ((s label.1).step label.2).map fun ctx i => if i = label.1 then ctx else s i⟩

def noContexts : Nat → Ctx := fun _ => .absent

end Lunatik.Core
