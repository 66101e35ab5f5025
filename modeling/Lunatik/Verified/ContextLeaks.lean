import Lunatik.Core.ContextLife

/-! # What a context leaves behind

`lunatik_context_destroy` never destroys the workqueue, so every context that was created
leaks one; a creation that fails at the workqueue leaks the context and its `lua_State`.
The ledger of a life balances only when creation fails before that.  What `destroy` and
the loadcode calls do release, they release exactly once.
-/

namespace Lunatik.Verified

open Lunatik.Core Lunatik.Library Lunatik.Library.Ledger

/-- A life in use: nothing of the context itself is released yet, and every
    `struct loadcode_data` is. -/
structure LifeInv (s : ContextLife) : Prop where
  context : acquired s.log .context = 1 ∧ released s.log .context = 0
  luaState : acquired s.log .luaState = 1 ∧ released s.log .luaState = 0
  workqueue : acquired s.log .workqueue = 1 ∧ released s.log .workqueue = 0
  data : ∀ n, released s.log (.data n) = acquired s.log (.data n)

theorem lifeInv_created : LifeInv createdContext := by
  constructor <;> simp [createdContext]

theorem LifeInv.extend {s t : ContextLife} (inv : LifeInv s) {more : List (Entry Resource)}
    (log : t.log = s.log ++ more)
    (keeps : ∀ r, r = .context ∨ r = .luaState ∨ r = .workqueue → acquired more r = 0 ∧
      released more r = 0)
    (data : ∀ n, released more (.data n) = acquired more (.data n)) : LifeInv t := by
  have context := keeps .context (by simp)
  have luaState := keeps .luaState (by simp)
  have workqueue := keeps .workqueue (by simp)
  constructor <;> simp only [log, acquired_append, released_append]
  · simp [inv.context, context]
  · simp [inv.luaState, luaState]
  · simp [inv.workqueue, workqueue]
  · intro n
    rw [inv.data n, data n]

theorem lifeInv_step (s : ContextLife) (op : ContextOp) (t : ContextLife) (inv : LifeInv s)
    (stepped : contextLifeSystem.step s op = some t) : LifeInv t := by
  cases op with
  | bindingsLoad bindings outcome =>
    simp only [contextLifeSystem, ContextLife.step, Option.some.injEq] at stepped
    subst stepped
    refine inv.extend (List.append_assoc ..) ?_ ?_
    · rintro r (rfl | rfl | rfl) <;> simp [acquired_map_other]
    · intro n
      simp [acquired_map_other]
  | openlib granted =>
    simp only [contextLifeSystem, ContextLife.step] at stepped
    split at stepped
    next =>
      cases stepped
      refine inv.extend rfl ?_ ?_
      · rintro r (rfl | rfl | rfl) <;> simp
      · simp
    next => cases stepped
  | loadcode variant dGranted lwGranted =>
    simp only [contextLifeSystem, ContextLife.step] at stepped
    split at stepped
    next =>
      split at stepped
      next => cases stepped
      next =>
        cases stepped
        refine inv.extend rfl ?_ ?_
        · rintro r (rfl | rfl | rfl) <;> cases variant with
          | loadcode presult => cases presult <;> simp [loadcodeEntries]
          | direct | sync | async | asyncNores => simp [loadcodeEntries]
        · intro n
          cases variant with
          | loadcode presult => cases presult <;> simp [loadcodeEntries]
          | direct | sync | async | asyncNores => simp [loadcodeEntries]
    next =>
      cases stepped
      exact inv

theorem lifeInv_run {s : ContextLife} {ops : List ContextOp}
    (reaches : contextLifeSystem.run createdContext ops = some s) : LifeInv s :=
  contextLifeSystem.invariant lifeInv_step lifeInv_created reaches

/-- The `lua_State`, the context and the data of every loadcode call are released exactly
    once; the workqueue never is. -/
theorem destroyed_life {s : ContextLife} {ops : List ContextOp}
    (reaches : contextLifeSystem.run createdContext ops = some s) :
    (∀ r, r = .context ∨ r = .luaState → acquired (s.log ++ s.lunatikContextDestroy) r = 1 ∧
      released (s.log ++ s.lunatikContextDestroy) r = 1) ∧
    (∀ n, released (s.log ++ s.lunatikContextDestroy) (.data n) =
      acquired (s.log ++ s.lunatikContextDestroy) (.data n)) ∧
    acquired (s.log ++ s.lunatikContextDestroy) .workqueue = 1 ∧
    released (s.log ++ s.lunatikContextDestroy) .workqueue = 0 := by
  have inv := lifeInv_run reaches
  refine ⟨?_, ?_, ?_⟩
  · rintro r (rfl | rfl) <;>
      simp [ContextLife.lunatikContextDestroy, released_map_other, inv.context, inv.luaState]
  · intro n
    simp [ContextLife.lunatikContextDestroy, released_map_other, inv.data n]
  · simp [ContextLife.lunatikContextDestroy, released_map_other, inv.workqueue]

/-- Every life of a context whose operations all come back is free of leaks exactly when
    the context or its `lua_State` could not be allocated. -/
theorem contextLife_balanced_iff (allocs : CreateAllocs) (ops : List ContextOp)
    {log : List (Entry Resource)} (completes : contextLife allocs ops = some log) :
    Ledger.Balanced log ↔ allocs.kzalloc = false ∨ allocs.luaOpen = false := by
  obtain ⟨kzalloc, luaOpen, workqueue⟩ := allocs
  cases kzalloc with
  | false =>
    cases completes
    simp [Ledger.Balanced]
  | true =>
    cases luaOpen with
    | false =>
      cases completes
      simp [Ledger.Balanced]
    | true =>
      simp only [Bool.true_eq_false, or_self, iff_false]
      intro balanced
      cases workqueue with
      | false =>
        cases completes
        have lost := balanced .context
        simp at lost
      | true =>
        obtain ⟨s, reaches, rfl⟩ := Option.map_eq_some_iff.mp completes
        obtain ⟨-, -, got, never⟩ := destroyed_life reaches
        have lost := balanced .workqueue
        omega

theorem refused_luaState_balanced :
    contextLife ⟨true, false, true⟩ [] = some [.acquire .context, .release .context] ∧
      Ledger.Balanced [Entry.acquire Resource.context, .release .context] :=
  ⟨rfl, (contextLife_balanced_iff ⟨true, false, true⟩ [] rfl).mpr (.inr rfl)⟩

/-- A context that is created and destroyed at once leaks its workqueue. -/
theorem idle_context_leaks_workqueue :
    ∃ log, contextLife ⟨true, true, true⟩ [] = some log ∧ ¬ Ledger.Balanced log :=
  ⟨_, rfl, fun balanced => absurd (balanced .workqueue) (by decide)⟩

end Lunatik.Verified
