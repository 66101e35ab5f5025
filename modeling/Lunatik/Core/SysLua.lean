import Lunatik.Core.ContextLife
import Lunatik.Core.SyncJob

/-! # The system call (`lunatik_syscall.c`)

`sysLua` embeds `sys_lua` together with what its job does to the objects of the call: the
ledger it leaves is the one after the call has returned and its job, if any, has finished.
`SysLuaChoices` fixes everything the code does not decide: which requests are refused,
what user memory does, what the chunk leaves in `d`, and whether the wait is interrupted.

As in `SyncJob` a job that runs on freed memory is followed as if the memory were still
there; `product` is then what it still produces.  A refused work item is an error pointer
that is dereferenced, so the call does not return.
-/

namespace Lunatik.Core

open Lunatik.Kernel Lunatik.Library

inductive SysResource where
  | codeKern
  | lc (r : Resource)
  | callbackInfo
  | result
  deriving DecidableEq, Repr

structure SysLuaArgs where
  codeSize : Nat
  rType : Bool
  rData : Bool
  rSize : Bool
  deriving DecidableEq, Repr

structure SysLuaChoices where
  codeGranted : Bool
  copyFaults : Bool
  create : CreateAllocs
  bindings : List Binding
  outcome : Nat → LoadOutcome
  infoGranted : Bool
  dGranted : Bool
  lwGranted : Bool
  interrupted : Bool
  product : Product
  copyRet : Int

/-- `ret` is `none` when the call does not return; `ran` says that the chunk was queued. -/
structure SysLuaOutcome where
  log : List (Entry SysResource)
  ret : Option Int
  ran : Bool

def lcEntry : Entry Resource → Entry SysResource
  | .acquire r => .acquire (.lc r)
  | .release r => .release (.lc r)

def lcEntries (log : List (Entry Resource)) : List (Entry SysResource) := log.map lcEntry

/-- `lunatik_loadcode_async_nores(lc, code_kern, code_size, sys_lua_async_cleanup, info)` and
    the job it queues; its return value is not looked at. -/
def sysLuaAsync (choices : SysLuaChoices) (lc : ContextLife) : SysLuaOutcome :=
  if choices.dGranted then
    if choices.lwGranted then
      -- sys_lua_async_cleanup
      ⟨lcEntries lc.lunatikContextDestroy ++ [.release .codeKern, .release .callbackInfo],
        some 0, true⟩
    else ⟨[], none, false⟩
  else ⟨[], some 0, false⟩

/-- `lunatik_loadcode_sync` and the copy of its result, up to the label `out_lc`. -/
def sysLuaSync (choices : SysLuaChoices) : SysLuaOutcome :=
  if choices.dGranted then
    if choices.lwGranted then
      if choices.interrupted then
        -- whatever the job leaves in d->result is out of reach
        ⟨if choices.product.result.isSome then [.acquire .result] else [], some (-eintr), true⟩
      else if choices.product.result.isSome then
        ⟨[.acquire .result, .release .result],
          some (if choices.product.ret = 0 ∧ choices.copyRet ≠ 0 then
            choices.copyRet else choices.product.ret),
          true⟩
      else ⟨[], some choices.product.ret, true⟩
    else ⟨[], none, false⟩
  else ⟨[], some (-enomem), false⟩

def sysLuaExecute (args : SysLuaArgs) (choices : SysLuaChoices) (lc : ContextLife) :
    SysLuaOutcome :=
  let outLc := lcEntries lc.lunatikContextDestroy ++ [.release .codeKern]
  if !args.rType && !args.rData && !args.rSize then
    if choices.infoGranted then
      let job := sysLuaAsync choices lc
      ⟨.acquire .callbackInfo :: job.log, job.ret, job.ran⟩
    else ⟨outLc, some (-enomem), false⟩
  else if args.rType && args.rData && args.rSize then
    let call := sysLuaSync choices
    ⟨call.log ++ if call.ret.isSome then outLc else [], call.ret, call.ran⟩
  else ⟨outLc, some (-einval), false⟩

def sysLua (args : SysLuaArgs) (choices : SysLuaChoices) : SysLuaOutcome :=
  -- kmalloc(0) is always answered
  if args.codeSize ≠ 0 ∧ choices.codeGranted = false then ⟨[], some (-enomem), false⟩
  else if choices.copyFaults then ⟨[.acquire .codeKern, .release .codeKern], some (-efault), false⟩
  else
    match lunatikContextCreate choices.create with
    | (log, false) =>
      ⟨.acquire .codeKern :: lcEntries log ++ [.release .codeKern], some (-enomem), false⟩
    | (_, true) =>
      let lc := createdContext.bindingsLoad choices.bindings choices.outcome
      let loaded := (lunatikBindingsLoad choices.outcome choices.bindings []).ret
      let rest : SysLuaOutcome :=
        if loaded ≠ 0 then ⟨lcEntries lc.lunatikContextDestroy ++ [.release .codeKern],
          some loaded, false⟩
        else sysLuaExecute args choices lc
      ⟨.acquire .codeKern :: lcEntries lc.log ++ rest.log, rest.ret, rest.ran⟩

end Lunatik.Core
