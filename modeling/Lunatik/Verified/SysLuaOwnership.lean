import Lunatik.Core.SysLua
import Lunatik.Verified.ContextLeaks

/-! # Ownership in the system call

Each object that `sys_lua` creates should be released once, by the call or by its job, and
the call should return 0 only for a chunk that was queued.  Four choices of the environment
break that; `sysLua_owned_iff` shows that there are no others.
-/

namespace Lunatik.Verified

open Lunatik.Core Lunatik.Library Lunatik.Library.Ledger

/-! ## The property and the condition -/

def ownedBySysLua : List SysResource :=
  [.codeKern, .lc .context, .lc .luaState, .callbackInfo, .result]

structure SysLuaOwned (o : SysLuaOutcome) : Prop where
  returns : o.ret ≠ none
  released : ∀ r ∈ ownedBySysLua, released o.log r = acquired o.log r ∧ acquired o.log r ≤ 1
  truthful : o.ret = some 0 → o.ran = true

-- the call gets as far as lunatik_context_create
def ReachesCreate (args : SysLuaArgs) (choices : SysLuaChoices) : Prop :=
  (args.codeSize = 0 ∨ choices.codeGranted = true) ∧ choices.copyFaults = false

-- the call gets as far as the test of its three pointers
def ReachesExecute (args : SysLuaArgs) (choices : SysLuaChoices) : Prop :=
  ReachesCreate args choices ∧ choices.create = ⟨true, true, true⟩ ∧
    (lunatikBindingsLoad choices.outcome choices.bindings []).ret = 0

structure SysLuaSafe (args : SysLuaArgs) (choices : SysLuaChoices) : Prop where
  create : ReachesCreate args choices → choices.create ≠ ⟨true, true, false⟩
  async : ReachesExecute args choices → args.rType = false → args.rData = false →
    args.rSize = false →
    choices.infoGranted = true → choices.dGranted = true ∧ choices.lwGranted = true
  sync : ReachesExecute args choices → args.rType = true → args.rData = true → args.rSize = true →
    choices.dGranted = true → choices.lwGranted = true ∧
      (choices.interrupted = true → choices.product.result = none)

/-! ## Entries of the context -/

@[simp] theorem acquired_lcEntries (log : List (Entry Resource)) (r : Resource) :
    acquired (lcEntries log) (.lc r) = acquired log r := by
  induction log with
  | nil => rfl
  | cons e log ih => cases e <;> simp_all [lcEntries, lcEntry]

@[simp] theorem released_lcEntries (log : List (Entry Resource)) (r : Resource) :
    released (lcEntries log) (.lc r) = released log r := by
  induction log with
  | nil => rfl
  | cons e log ih => cases e <;> simp_all [lcEntries, lcEntry]

@[simp] theorem acquired_lcEntries_other (log : List (Entry Resource)) {r : SysResource}
    (other : ∀ r', SysResource.lc r' ≠ r) : acquired (lcEntries log) r = 0 := by
  induction log with
  | nil => rfl
  | cons e log ih => cases e <;> simp_all [lcEntries, lcEntry]

@[simp] theorem released_lcEntries_other (log : List (Entry Resource)) {r : SysResource}
    (other : ∀ r', SysResource.lc r' ≠ r) : released (lcEntries log) r = 0 := by
  induction log with
  | nil => rfl
  | cons e log ih => cases e <;> simp_all [lcEntries, lcEntry]

/-! ## The part after the context is created -/

/-- What is owed once `code_kern` and the context exist. -/
structure RestOwned (o : SysLuaOutcome) : Prop where
  returns : o.ret ≠ none
  codeKern : released o.log .codeKern = 1 ∧ acquired o.log .codeKern = 0
  context : released o.log (.lc .context) = 1 ∧ acquired o.log (.lc .context) = 0
  luaState : released o.log (.lc .luaState) = 1 ∧ acquired o.log (.lc .luaState) = 0
  callbackInfo : released o.log .callbackInfo = acquired o.log .callbackInfo ∧
    acquired o.log .callbackInfo ≤ 1
  result : released o.log .result = acquired o.log .result ∧ acquired o.log .result ≤ 1
  truthful : o.ret = some 0 → o.ran = true

theorem sysLuaOwned_iff_rest {lc : ContextLife} (inv : LifeInv lc) (rest : SysLuaOutcome) :
    SysLuaOwned ⟨.acquire .codeKern :: lcEntries lc.log ++ rest.log, rest.ret, rest.ran⟩ ↔
      RestOwned rest := by
  constructor
  · rintro ⟨returns, owned, truthful⟩
    simp only [ownedBySysLua, List.forall_mem_cons] at owned
    simp [inv.context, inv.luaState] at owned
    refine ⟨returns, ?_, ?_, ?_, ?_, ?_, truthful⟩ <;> omega
  · rintro ⟨returns, codeKern, context, luaState, callbackInfo, result, truthful⟩
    refine ⟨returns, ?_, truthful⟩
    simp only [ownedBySysLua, List.forall_mem_cons]
    simp [inv.context, inv.luaState, codeKern, context, luaState, callbackInfo, result]

/-- The labels `out_lc` and `out_code` release what is owed. -/
theorem restOwned_outLc (lc : ContextLife) {ret : Int} (failed : ret ≠ 0) :
    RestOwned ⟨lcEntries lc.lunatikContextDestroy ++ [.release .codeKern], some ret, false⟩ := by
  constructor <;> simp [ContextLife.lunatikContextDestroy, released_map_other, failed]

theorem restOwned_async_iff (choices : SysLuaChoices) (lc : ContextLife) :
    RestOwned ⟨.acquire .callbackInfo :: (sysLuaAsync choices lc).log, (sysLuaAsync choices lc).ret,
      (sysLuaAsync choices lc).ran⟩ ↔ choices.dGranted = true ∧ choices.lwGranted = true := by
  unfold sysLuaAsync
  cases choices.dGranted with
  | false =>
    refine iff_of_false (fun owned => ?_) (by simp)
    simpa using owned.truthful
  | true =>
    cases choices.lwGranted with
    | false =>
      refine iff_of_false (fun owned => ?_) (by simp)
      simpa using owned.returns
    | true =>
      refine iff_of_true ?_ ⟨rfl, rfl⟩
      constructor <;> simp [ContextLife.lunatikContextDestroy, released_map_other]

theorem restOwned_sync_iff (choices : SysLuaChoices) (lc : ContextLife) :
    RestOwned ⟨(sysLuaSync choices).log ++
        (if (sysLuaSync choices).ret.isSome then
          lcEntries lc.lunatikContextDestroy ++ [.release .codeKern] else []),
      (sysLuaSync choices).ret, (sysLuaSync choices).ran⟩ ↔
      (choices.dGranted = true → choices.lwGranted = true ∧
        (choices.interrupted = true → choices.product.result = none)) := by
  unfold sysLuaSync
  cases choices.dGranted with
  | false =>
    refine iff_of_true ?_ (by simp)
    constructor <;> simp [ContextLife.lunatikContextDestroy, released_map_other, Kernel.enomem]
  | true =>
    cases choices.lwGranted with
    | false =>
      refine iff_of_false (fun owned => ?_) (by simp)
      simpa using owned.returns
    | true =>
      cases choices.interrupted with
      | true =>
        cases choices.product.result with
        | none =>
          refine iff_of_true ?_ (by simp)
          constructor <;> simp [ContextLife.lunatikContextDestroy, released_map_other]
        | some r =>
          refine iff_of_false (fun owned => ?_) (by simp)
          have lost := owned.result.1
          simp [ContextLife.lunatikContextDestroy] at lost
      | false =>
        refine iff_of_true ?_ (by simp)
        cases choices.product.result with
        | none => constructor <;> simp [ContextLife.lunatikContextDestroy, released_map_other]
        | some r => constructor <;> simp [ContextLife.lunatikContextDestroy, released_map_other]

theorem restOwned_execute_iff (args : SysLuaArgs) (choices : SysLuaChoices) (lc : ContextLife) :
    RestOwned (sysLuaExecute args choices lc) ↔
      (args.rType = false → args.rData = false → args.rSize = false → choices.infoGranted = true →
        choices.dGranted = true ∧ choices.lwGranted = true) ∧
      (args.rType = true → args.rData = true → args.rSize = true → choices.dGranted = true →
        choices.lwGranted = true ∧
          (choices.interrupted = true → choices.product.result = none)) := by
  obtain ⟨codeSize, rType, rData, rSize⟩ := args
  have einval : (-Kernel.einval : Int) ≠ 0 := by decide
  have enomem : (-Kernel.enomem : Int) ≠ 0 := by decide
  unfold sysLuaExecute
  cases rType <;> cases rData <;> cases rSize
  case false.false.false =>
    cases info : choices.infoGranted with
    | false =>
      refine iff_of_true ?_ (by simp)
      simpa [info] using restOwned_outLc lc enomem
    | true => simpa [info] using restOwned_async_iff choices lc
  case true.true.true => simpa using restOwned_sync_iff choices lc
  -- a mixture of NULL and non-NULL pointers
  all_goals
    refine iff_of_true ?_ (by simp)
    simpa using restOwned_outLc lc einval

/-! ## The whole call -/

theorem SysLuaSafe.of_early {args : SysLuaArgs} {choices : SysLuaChoices}
    (create : ReachesCreate args choices → choices.create ≠ ⟨true, true, false⟩)
    (early : ¬ ReachesExecute args choices) : SysLuaSafe args choices :=
  ⟨create, fun reaches => absurd reaches early, fun reaches => absurd reaches early⟩

theorem sysLua_before_create {args : SysLuaArgs} {choices : SysLuaChoices}
    (early : ¬ ReachesCreate args choices) : SysLuaOwned (sysLua args choices) := by
  unfold sysLua
  split
  next => constructor <;> simp [ownedBySysLua, Kernel.enomem]
  next granted =>
    have faults : choices.copyFaults = true := by
      by_contra copied
      simp only [Bool.not_eq_true] at copied
      refine early ⟨?_, copied⟩
      by_contra neither
      simp only [not_or, Bool.not_eq_true] at neither
      exact granted neither
    rw [if_pos faults]
    constructor <;> simp [ownedBySysLua, Kernel.efault]

theorem sysLua_at_create {args : SysLuaArgs} {choices : SysLuaChoices}
    (reaches : ReachesCreate args choices) :
    SysLuaOwned (sysLua args choices) ↔
      choices.create ≠ ⟨true, true, false⟩ ∧
        (choices.create = ⟨true, true, true⟩ →
          (lunatikBindingsLoad choices.outcome choices.bindings []).ret = 0 →
          RestOwned (sysLuaExecute args choices
            (createdContext.bindingsLoad choices.bindings choices.outcome))) := by
  have granted : ¬ (args.codeSize ≠ 0 ∧ choices.codeGranted = false) := by
    rintro ⟨nonempty, refused⟩
    rcases reaches.1 with empty | given
    · exact nonempty empty
    · simp [refused] at given
  simp only [sysLua, granted, if_false, reaches.2, Bool.false_eq_true]
  obtain ⟨kzalloc, luaOpen, workqueue⟩ := choices.create
  cases kzalloc with
  | false =>
    refine iff_of_true ?_ (by simp)
    constructor <;> simp [ownedBySysLua, lunatikContextCreate, lcEntries, Kernel.enomem]
  | true =>
    cases luaOpen with
    | false =>
      refine iff_of_true ?_ (by simp)
      constructor <;> simp [ownedBySysLua, lunatikContextCreate, lcEntries, lcEntry, Kernel.enomem]
    | true =>
      cases workqueue with
      | false =>
        refine iff_of_false (fun owned => ?_) (by simp)
        have lost := (owned.released (.lc .context) (by simp [ownedBySysLua])).1
        simp [lunatikContextCreate] at lost
      | true =>
        have inv : LifeInv (createdContext.bindingsLoad choices.bindings choices.outcome) :=
          lifeInv_step createdContext (.bindingsLoad choices.bindings choices.outcome) _ lifeInv_created rfl
        simp only [lunatikContextCreate, if_true]
        rw [sysLuaOwned_iff_rest inv]
        split
        next failed =>
          exact iff_of_true (restOwned_outLc _ failed) ⟨by simp,
            fun _ loaded => absurd loaded failed⟩
        next loaded => simp [not_not.mp loaded]

-- an asynchronous call whose `struct loadcode_data` is refused
def refusedJob : SysLuaChoices :=
  ⟨true, false, ⟨true, true, true⟩, [], fun _ => ⟨true, 0, true⟩, true, false, true, false,
    ⟨0, 0, none⟩, 0⟩

end Lunatik.Verified
