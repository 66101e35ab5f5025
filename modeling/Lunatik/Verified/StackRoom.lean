import Lunatik.Library.StateRuns
import Lunatik.Lua.CallStack
import Lunatik.Lua.CheckCode

/-! # Room for a function that is entered

`luaD_precall` asks for `maxstacksize` slots above the top, and a frame that starts at the first of
them has the room.  `adjust_varargs` starts it higher: behind the parameters that are missing, and,
for an `arg' table, after the collector has had the chance to give stack back.
-/

namespace Lunatik.Verified

open Lunatik.Library Lunatik.Lua
open Lunatik.Lua.CallStack (GcStep)

def StackWrite.Inside (w : StackWrite) : Prop := w.slot ≤ w.stackLast + extraStack

structure StackInv (s : CallStack) : Prop where
  size : s.stacksize = s.stackLast + extraStack + 1
  top_le : s.top ≤ s.stackLast
  ci_le : ∀ t ∈ s.ciTops, t ≤ s.stackLast
  inside : ∀ w ∈ s.writes, StackWrite.Inside w

variable {s : CallStack} {p : Proto}

/-! ## The stack operations -/

theorem StackInv.luaDReallocstack (inv : StackInv s) {newsize : Nat} (top : s.top ≤ newsize)
    (ci : ∀ t ∈ s.ciTops, t ≤ newsize) : StackInv (s.luaDReallocstack newsize) where
  size := by simp only [CallStack.luaDReallocstack]; omega
  top_le := top
  ci_le := ci
  inside := inv.inside

theorem StackInv.luaDReallocCI (inv : StackInv s) (newsize : Nat) :
    StackInv (s.luaDReallocCI newsize) :=
  ⟨inv.size, inv.top_le, inv.ci_le, inv.inside⟩

theorem StackInv.luaDGrowstack (inv : StackInv s) (n : Nat) :
    StackInv (s.luaDGrowstack n) ∧ s.stackLast + n < (s.luaDGrowstack n).stackLast := by
  have size := inv.size
  have top := inv.top_le
  have larger : ∀ newsize, s.stacksize ≤ newsize → StackInv (s.luaDReallocstack newsize) := by
    intro newsize le
    apply inv.luaDReallocstack (by omega)
    intro t member
    have := inv.ci_le t member
    omega
  unfold CallStack.luaDGrowstack
  split
  · exact ⟨larger _ (by omega), by simp only [CallStack.luaDReallocstack, extraStack] at *; omega⟩
  · exact ⟨larger _ (by omega), by simp only [CallStack.luaDReallocstack, extraStack] at *; omega⟩

theorem StackInv.luaDCheckstack (inv : StackInv s) (n : Nat) : StackInv (s.luaDCheckstack n) := by
  unfold CallStack.luaDCheckstack
  split
  · exact (inv.luaDGrowstack n).1
  · exact inv

@[simp] theorem luaDGrowstack_top (n : Nat) : (s.luaDGrowstack n).top = s.top := by
  unfold CallStack.luaDGrowstack
  split <;> rfl

@[simp] theorem luaDGrowstack_ciTops (n : Nat) : (s.luaDGrowstack n).ciTops = s.ciTops := by
  unfold CallStack.luaDGrowstack
  split <;> rfl

@[simp] theorem luaDCheckstack_top (n : Nat) : (s.luaDCheckstack n).top = s.top := by
  unfold CallStack.luaDCheckstack
  split
  · exact luaDGrowstack_top n
  · rfl

-- what the check is for
theorem luaDCheckstack_room (inv : StackInv s) (n : Nat) :
    (s.luaDCheckstack n).top + n < (s.luaDCheckstack n).stackLast := by
  rw [luaDCheckstack_top]
  unfold CallStack.luaDCheckstack
  split
  case isTrue =>
    have grown := (inv.luaDGrowstack n).2
    have top := inv.top_le
    omega
  case isFalse enough => omega

theorem StackInv.writeFrom (inv : StackInv s) {start n : Nat}
    (fits : n = 0 ∨ start + n ≤ s.stackLast + extraStack + 1) : StackInv (s.writeFrom start n) where
  size := inv.size
  top_le := inv.top_le
  ci_le := inv.ci_le
  inside := by
    intro w member
    simp only [CallStack.writeFrom, List.mem_append, List.mem_map, List.mem_range'_1] at member
    rcases member with member | ⟨slot, range, rfl⟩
    · exact inv.inside w member
    · simp only [StackWrite.Inside]
      omega

theorem StackInv.setTop (inv : StackInv s) {top : Nat} (le : top ≤ s.stackLast) :
    StackInv { s with top } :=
  ⟨inv.size, le, inv.ci_le, inv.inside⟩

theorem StackInv.tryfuncTM (inv : StackInv s) {func : Nat} (below : func < s.top) :
    StackInv (s.tryfuncTM func) := by
  have top := inv.top_le
  have hole : StackInv (s.writeFrom (func + 1) (s.top - func)) := inv.writeFrom (by omega)
  have grown := hole.luaDCheckstack 1
  have room := luaDCheckstack_room hole 1
  have same : ((s.writeFrom (func + 1) (s.top - func)).luaDCheckstack 1).top = s.top :=
    luaDCheckstack_top 1
  unfold CallStack.tryfuncTM
  rw [same] at room
  have tag : StackInv (((s.writeFrom (func + 1)
    (s.top - func)).luaDCheckstack 1).writeFrom func 1) :=
    grown.writeFrom (by omega)
  apply tag.setTop
  rw [same]
  exact le_of_lt room

theorem StackInv.checked (inv : StackInv s) {func : Nat} (below : func < s.top)
    (isFunction : Bool) :
    StackInv (s.checked isFunction p func) := by
  unfold CallStack.checked
  cases isFunction with
  | true => exact inv.luaDCheckstack _
  | false => exact (inv.tryfuncTM below).luaDCheckstack _

theorem checked_room (inv : StackInv s) {func : Nat} (below : func < s.top) (isFunction : Bool) :
    (s.checked isFunction p func).top + p.maxReg < (s.checked isFunction p func).stackLast := by
  unfold CallStack.checked
  cases isFunction with
  | true => exact luaDCheckstack_room inv _
  | false => exact luaDCheckstack_room (inv.tryfuncTM below) _

/-! ## The collector -/

theorem limit_bounds (bound : Nat) : s.limit ≤ bound ↔ s.top ≤ bound ∧
    ∀ t ∈ s.ciTops, t ≤ bound := by
  unfold CallStack.limit
  generalize s.top = top
  generalize s.ciTops = tops
  induction tops generalizing top with
  | nil => simp
  | cons t tops ih =>
    rw [List.foldl_cons, ih]
    simp only [max_le_iff, List.forall_mem_cons, and_assoc]

theorem StackInv.shrinkStack (inv : StackInv s) {sUsed : Nat} (covered : s.limit ≤ sUsed) :
    StackInv (s.shrinkStack sUsed) := by
  obtain ⟨top, ci⟩ := (limit_bounds sUsed).mp covered
  unfold CallStack.shrinkStack
  split
  case isTrue quarter =>
    apply inv.luaDReallocstack (by omega)
    intro t member
    have := ci t member
    omega
  case isFalse => exact inv

theorem StackInv.checkstacksizes (inv : StackInv s) (ciUsed : Nat) {sUsed : Nat}
    (covered : s.limit ≤ sUsed) :
    StackInv (s.checkstacksizes ciUsed sUsed) := by
  unfold CallStack.checkstacksizes CallStack.shrinkCI
  split
  case isTrue => exact inv
  case isFalse =>
    split
    · exact (inv.luaDReallocCI _).shrinkStack covered
    · exact inv.shrinkStack covered

theorem checkstacksizes_top (ciUsed sUsed : Nat) :
    (s.checkstacksizes ciUsed sUsed).top = s.top := by
  unfold CallStack.checkstacksizes CallStack.shrinkCI CallStack.shrinkStack
  repeat' split
  all_goals rfl

theorem StackInv.gcStep (inv : StackInv s) (step : GcStep) : StackInv (s.gcStep step) := by
  cases step with
  | traversestack => exact inv.checkstacksizes _ le_rfl
  | finalizerCheckstack used n =>
    -- the room that the finalizer gets is room for what it interrupts
    show StackInv { CallStack.luaDCheckstack { s with top := s.top + used } n with top := s.top }
    unfold CallStack.luaDCheckstack
    split
    case isTrue =>
      have same : { CallStack.luaDGrowstack { s with top := s.top + used } n with top := s.top } =
          s.luaDGrowstack n := by
        unfold CallStack.luaDGrowstack
        split <;> rfl
      rw [same]
      exact (inv.luaDGrowstack n).1
    case isFalse => exact inv
  | finalizerGrowCI => exact inv.luaDReallocCI _
  | finalizerTraversestack ciUsed sUsed => exact inv.checkstacksizes _ (le_max_left _ _)

theorem gcStep_top (step : GcStep) : (s.gcStep step).top = s.top := by
  cases step with
  | traversestack => exact checkstacksizes_top _ _
  | finalizerCheckstack => rfl
  | finalizerGrowCI => rfl
  | finalizerTraversestack => exact checkstacksizes_top _ _

theorem StackInv.luaCCheckGC (inv : StackInv s) (gc : List GcStep) :
    StackInv (s.luaCCheckGC gc) := by
  unfold CallStack.luaCCheckGC
  induction gc generalizing s with
  | nil => exact inv
  | cons step gc ih => exact ih (inv.gcStep step)

theorem luaCCheckGC_top (gc : List GcStep) : (s.luaCCheckGC gc).top = s.top := by
  unfold CallStack.luaCCheckGC
  induction gc generalizing s with
  | nil => rfl
  | cons step gc ih => exact ih.trans (gcStep_top step)

/-! ## The frame -/

-- the slot of the `arg' table
def argSlots (p : Proto) : Nat := if (p.isVararg &&& varargNeedsarg) != 0 then 1 else 0

/-- What the verifier checks of the sizes in a prototype. -/
structure FrameSizes (p : Proto) : Prop where
  params : p.numparams.toNat + (p.isVararg &&& varargHasarg).toNat ≤ p.maxReg
  arg : (p.isVararg &&& varargNeedsarg) ≠ 0 → (p.isVararg &&& varargHasarg) ≠ 0

theorem FrameSizes.of_precheck (accepted : precheck p = true) : FrameSizes p := by
  simp only [precheck, Bool.and_eq_true, Bool.or_eq_true, decide_eq_true_eq, beq_iff_eq,
    bne_iff_ne] at accepted
  obtain ⟨⟨⟨⟨⟨_, params⟩, arg⟩, _⟩, _⟩, _⟩ := accepted
  exact ⟨params, fun needs => arg.resolve_left needs⟩

theorem FrameSizes.holds (sizes : FrameSizes p) : p.numparams.toNat + argSlots p ≤ p.maxReg := by
  have params := sizes.params
  unfold argSlots
  split
  case isTrue needs =>
    have arg : (p.isVararg &&& varargHasarg).toNat ≠ 0 := by
      intro none
      exact sizes.arg (by simpa using needs) (UInt8.toNat_inj.mp none)
    omega
  case isFalse => omega

theorem varargBase_top (gc : List GcStep) (actual : Nat) :
    (s.varargBase gc p actual).top = s.top + (p.numparams.toNat - actual) := by
  unfold CallStack.varargBase CallStack.checkArgGC
  split
  · exact luaCCheckGC_top gc
  · rfl

theorem StackInv.varargBase (inv : StackInv s) (sizes : FrameSizes p)
    (room : s.top + p.maxReg < s.stackLast) (gc : List GcStep) (actual : Nat) :
    StackInv (s.varargBase gc p actual) := by
  have holds := sizes.holds
  have padded : StackInv (s.pushNils (p.numparams.toNat - actual)) :=
    (inv.writeFrom (by omega)).setTop (by simp only [CallStack.writeFrom]; omega)
  unfold CallStack.varargBase CallStack.checkArgGC
  split
  · exact padded.luaCCheckGC gc
  · exact padded

-- the slots that are written once the base is placed
theorem adjustVarargs_writes (gc : List GcStep) (actual : Nat) :
    (s.adjustVarargs gc p actual).2.writes =
      (s.varargBase gc p actual).writes ++
        (List.range' (s.varargBase gc p actual).top p.numparams.toNat ++
          List.range' ((s.varargBase gc p actual).top - max actual p.numparams.toNat)
            p.numparams.toNat ++
          List.range' ((s.varargBase gc p actual).top + p.numparams.toNat) (argSlots p)).map
            fun slot => ⟨slot, (s.varargBase gc p actual).stackLast⟩ := by
  unfold CallStack.adjustVarargs CallStack.pushArgTable CallStack.moveFixed CallStack.writeFrom argSlots
  dsimp only
  split <;> simp [List.append_assoc]

theorem adjustVarargs_inside_iff {gc : List GcStep} {actual : Nat}
    (placed : StackInv (s.varargBase gc p actual)) :
    (∀ w ∈ (s.adjustVarargs gc p actual).2.writes, StackWrite.Inside w) ↔
      (s.varargBase gc p actual).top + p.numparams.toNat + argSlots p ≤
        (s.varargBase gc p actual).stackLast + extraStack + 1 := by
  have top := placed.top_le
  have before := placed.inside
  rw [adjustVarargs_writes]
  generalize s.varargBase gc p actual = b at *
  constructor
  · intro inside
    by_contra beyond
    -- the last slot of those above the base
    have last := inside ⟨b.top + p.numparams.toNat + argSlots p - 1, b.stackLast⟩ (by
      apply List.mem_append_right
      rw [List.mem_map]
      refine ⟨_, ?_, rfl⟩
      simp only [List.mem_append, List.mem_range'_1]
      omega)
    simp only [StackWrite.Inside] at last
    omega
  · intro fits w member
    rw [List.mem_append, List.mem_map] at member
    cases member with
    | inl member => exact before w member
    | inr member =>
      obtain ⟨slot, range, rfl⟩ := member
      simp only [List.mem_append, List.mem_range'_1] at range
      simp only [StackWrite.Inside]
      omega

/-! ## Entering the function -/

-- none of the two limits on the number of calls is met
def CallInfoLeft (s : CallStack) : Prop := s.ciTops.length = s.sizeCi → 2 * s.sizeCi ≤ luaiMaxcalls

instance (s : CallStack) : Decidable (CallInfoLeft s) :=
  inferInstanceAs (Decidable (s.ciTops.length = s.sizeCi → 2 * s.sizeCi ≤ luaiMaxcalls))

theorem incCi_isSome_iff : s.incCi.isSome ↔ CallInfoLeft s := by
  unfold CallStack.incCi CallStack.growCI CallInfoLeft
  split
  case isFalse full => simp [full]
  case isTrue full =>
    simp only [full, forall_const]
    split
    case isTrue => simp; omega
    case isFalse =>
      split
      case isTrue => simp; omega
      case isFalse => simp; omega

theorem incCi_stackLast {t : CallStack} (entered : s.incCi = some t) :
    t.stackLast = s.stackLast := by
  unfold CallStack.incCi CallStack.growCI at entered
  repeat' split at entered
  all_goals cases entered
  all_goals rfl

theorem luaDPrecall_ciTopInStack_iff (gc : List GcStep) (isFunction : Bool) (func : Nat) :
    (∀ t, s.luaDPrecall gc isFunction p func = some t → t.ciTopInStack = true) ↔
      (CallInfoLeft ((s.checked isFunction p func).precallBase gc p func).2 →
        ((s.checked isFunction p func).precallBase gc p func).1 + p.maxReg ≤
          ((s.checked isFunction p func).precallBase gc p func).2.stackLast) := by
  rw [← incCi_isSome_iff]
  unfold CallStack.luaDPrecall
  obtain ⟨base, b⟩ := (s.checked isFunction p func).precallBase gc p func
  dsimp only
  cases entered : b.incCi with
  | none => simp
  | some t =>
    have last := incCi_stackLast entered
    simp [CallStack.ciTopInStack, CallStack.enter, CallStack.writeFrom, last]

/-! ## When the frame fits -/

-- where the stack ends once there have to be more than `n` slots above the top
def lastAfter (stackLast top n : Nat) : Nat :=
  if top + n < stackLast then stackLast
  else if n ≤ stackLast + extraStack + 1 then 2 * (stackLast + extraStack + 1)
  else stackLast + extraStack + 1 + n

/-- The sizes when the missing parameters have been added, from those before the call. -/
def paddedStack (s : CallStack) (isFunction : Bool) (p : Proto) (func : Nat) : CallStack :=
  let top := if isFunction then s.top else s.top + 1
  let last :=
    lastAfter (if isFunction then s.stackLast else lastAfter s.stackLast s.top 1) top p.maxReg
  { s with
    stacksize := last + extraStack + 1
    stackLast := last
    top := top + (p.numparams.toNat - (top - func - 1)) }

/-- The frame fits above the arguments, in the stack that the collector leaves. -/
def FrameFits (s : CallStack) (gc : List GcStep) (isFunction : Bool) (p : Proto) (func : Nat) :
    Prop :=
  let padded := paddedStack s isFunction p func
  let left := padded.checkArgGC gc p
  p.isVararg = 0 ∨
    padded.top + p.numparams.toNat + argSlots p ≤ left.stackLast + extraStack + 1 ∧
      (CallInfoLeft left → padded.top + p.maxReg ≤ left.stackLast)

/-- The assertion on `ci->top`, and no write behind the stack by `adjust_varargs`. -/
def RoomKept (s : CallStack) (gc : List GcStep) (isFunction : Bool) (p : Proto) (func : Nat) :
    Prop :=
  (∀ w ∈ ((s.checked isFunction p func).precallBase gc p func).2.writes, StackWrite.Inside w) ∧
    ∀ t, s.luaDPrecall gc isFunction p func = some t → t.ciTopInStack = true

-- the same sizes, whatever has been written
def SameSizes (s t : CallStack) : Prop := ∃ writes, t = { s with writes }

theorem SameSizes.luaDCheckstack {t : CallStack} (same : SameSizes s t) (n : Nat) :
    SameSizes (s.luaDCheckstack n) (t.luaDCheckstack n) := by
  obtain ⟨writes, rfl⟩ := same
  refine ⟨writes, ?_⟩
  unfold CallStack.luaDCheckstack CallStack.luaDGrowstack
  repeat' split
  all_goals rfl

theorem SameSizes.shrinkStack {t : CallStack} (same : SameSizes s t) (sUsed : Nat) :
    SameSizes (s.shrinkStack sUsed) (t.shrinkStack sUsed) := by
  obtain ⟨writes, rfl⟩ := same
  refine ⟨writes, ?_⟩
  unfold CallStack.shrinkStack
  split <;> rfl

theorem SameSizes.checkstacksizes {t : CallStack} (same : SameSizes s t) (ciUsed sUsed : Nat) :
    SameSizes (s.checkstacksizes ciUsed sUsed) (t.checkstacksizes ciUsed sUsed) := by
  obtain ⟨writes, rfl⟩ := same
  unfold CallStack.checkstacksizes CallStack.shrinkCI
  dsimp only
  split
  · exact ⟨writes, rfl⟩
  · apply SameSizes.shrinkStack
    split <;> exact ⟨writes, rfl⟩

theorem SameSizes.gcStep {t : CallStack} (same : SameSizes s t) (step : GcStep) :
    SameSizes (s.gcStep step) (t.gcStep step) := by
  cases step with
  | traversestack =>
    obtain ⟨writes, rfl⟩ := same
    exact SameSizes.checkstacksizes ⟨writes, rfl⟩ _ _
  | finalizerCheckstack used n =>
    obtain ⟨writes, rfl⟩ := same
    have inside : SameSizes { s with top := s.top + used }
      { s with top := s.top + used, writes } := ⟨writes, rfl⟩
    obtain ⟨_, checked⟩ := inside.luaDCheckstack n
    exact ⟨_, congrArg (fun t : CallStack => { t with top := s.top }) checked⟩
  | finalizerGrowCI =>
    obtain ⟨writes, rfl⟩ := same
    exact ⟨writes, rfl⟩
  | finalizerTraversestack ciUsed sUsed =>
    obtain ⟨writes, rfl⟩ := same
    exact SameSizes.checkstacksizes ⟨writes, rfl⟩ _ _

theorem SameSizes.checkArgGC {t : CallStack} (same : SameSizes s t) (gc : List GcStep) (p : Proto) :
    SameSizes (s.checkArgGC gc p) (t.checkArgGC gc p) := by
  unfold CallStack.checkArgGC CallStack.luaCCheckGC
  split
  case isFalse => exact same
  case isTrue =>
    induction gc generalizing s t with
    | nil => exact same
    | cons step gc ih => exact ih (same.gcStep step)

-- luaD_checkstack, by its sizes
theorem luaDCheckstack_eq (inv : StackInv s) (n : Nat) :
    s.luaDCheckstack n =
      { s with
        stacksize := lastAfter s.stackLast s.top n + extraStack + 1
        stackLast := lastAfter s.stackLast s.top n } := by
  have size := inv.size
  unfold CallStack.luaDCheckstack CallStack.luaDGrowstack CallStack.luaDReallocstack lastAfter
  rw [← size]
  by_cases enough : s.top + n < s.stackLast
  · rw [if_neg (by omega), if_pos enough, ← size]
  · rw [if_pos (by omega), if_neg enough]
    split
    · congr 1
    · congr 1

theorem checked_same (inv : StackInv s) {func : Nat} (below : func < s.top) (isFunction : Bool) :
    SameSizes (paddedStack s isFunction p func)
      ((s.checked isFunction p func).pushNils
        (p.numparams.toNat - ((s.checked isFunction p func).top - func - 1))) := by
  unfold CallStack.checked paddedStack
  cases isFunction with
  | true =>
    simp only [if_true]
    rw [luaDCheckstack_eq inv]
    exact ⟨_, rfl⟩
  | false =>
    have hole : StackInv (s.writeFrom (func + 1) (s.top - func)) :=
      inv.writeFrom (by have := inv.top_le; omega)
    simp only [Bool.false_eq_true, if_false]
    rw [luaDCheckstack_eq (inv.tryfuncTM below)]
    unfold CallStack.tryfuncTM
    rw [luaDCheckstack_eq hole]
    exact ⟨_, rfl⟩

theorem checked_top_le (s : CallStack) (isFunction : Bool) (func : Nat) :
    s.top ≤ (s.checked isFunction p func).top := by
  unfold CallStack.checked
  rw [luaDCheckstack_top]
  cases isFunction with
  | true => exact le_rfl
  | false =>
    show s.top ≤ ((s.writeFrom (func + 1) (s.top - func)).luaDCheckstack 1).top + 1
    rw [luaDCheckstack_top]
    exact Nat.le_succ s.top

-- after the base is placed, only slots and the top change
theorem adjustVarargs_sizes (gc : List GcStep) (actual : Nat) :
    let b := s.varargBase gc p actual
    (s.adjustVarargs gc p actual).1 = b.top ∧
      (s.adjustVarargs gc p actual).2.stackLast = b.stackLast ∧
      (CallInfoLeft (s.adjustVarargs gc p actual).2 ↔ CallInfoLeft b) := by
  unfold CallStack.adjustVarargs CallStack.pushArgTable CallStack.moveFixed
  dsimp only
  split <;> exact ⟨rfl, rfl, Iff.rfl⟩

/-! ## The interpreter's frame -/

theorem adjustVarargs_top (gc : List GcStep) (actual : Nat) :
    (s.adjustVarargs gc p actual).2.top =
      (s.varargBase gc p actual).top + p.numparams.toNat + argSlots p := by
  unfold CallStack.adjustVarargs CallStack.pushArgTable argSlots
  dsimp only
  split <;> rfl

theorem adjustVarargs_agrees (v : LuaState) (actual : Nat) (top : v.top = s.top)
    (gc : List GcStep) :
    ∃ v', Lua.adjustVarargs p (actual : Int) v = .ok (s.adjustVarargs gc p actual).1 v' ∧
      v'.top = (s.adjustVarargs gc p actual).2.top := by
  have base := (adjustVarargs_sizes (s := s) (p := p) gc actual).1
  have missing : ((p.numparams.toNat : Int) - (actual : Int)).toNat =
    p.numparams.toNat - actual := by omega
  rw [adjustVarargs_top, base, varargBase_top, ← top, ← missing]
  unfold Lua.adjustVarargs newArgTable argSlots
  split
  case isTrue => exact ⟨_, rfl, rfl⟩
  case isFalse => exact ⟨_, rfl, rfl⟩

-- the interpreter places its frames where this stack has them
theorem precallBase_agrees (v : LuaState) {func : Nat} (top : v.top = s.top) (below : func < s.top)
    (gc : List GcStep) :
    ∃ v', Lua.precallBase p func v = .ok (s.precallBase gc p func).1 v' ∧
      v'.top = (s.precallBase gc p func).2.top := by
  unfold CallStack.precallBase
  by_cases fixed : p.isVararg = 0
  case pos =>
    rw [if_pos fixed]
    by_cases extra : func + 1 + p.numparams.toNat < v.top
    · refine ⟨{ v with top := func + 1 + p.numparams.toNat }, ?_, ?_⟩
      · simp only [Lua.precallBase, bind_run, get_run,
          fixed, if_true, extra]
        rfl
      · dsimp only
        omega
    · refine ⟨v, ?_, ?_⟩
      · simp only [Lua.precallBase, bind_run, get_run,
          fixed, if_true, extra, if_false]
        rfl
      · dsimp only
        omega
  case neg =>
    have count : (v.top : Int) - func - 1 = ((s.top - func - 1 : Nat) : Int) := by omega
    obtain ⟨v', ran, after⟩ := adjustVarargs_agrees v (s.top - func - 1) top gc
    rw [if_neg fixed]
    refine ⟨v', ?_, after⟩
    simp only [Lua.precallBase, bind_run, get_run,
      fixed, if_false, count]
    exact ran

/-! ## The condition -/

-- every fixed parameter is given, and there is no `arg' table
theorem frameFits_of_arguments (inv : StackInv s) (sizes : FrameSizes p) {func : Nat}
    (noArg : p.isVararg &&& varargNeedsarg = 0) (given : func + 1 + p.numparams.toNat ≤ s.top)
    (gc : List GcStep) (isFunction : Bool) : FrameFits s gc isFunction p func := by
  have below : func < s.top := by omega
  have room := checked_room (p := p) inv below isFunction
  have higher := checked_top_le (p := p) s isFunction func
  obtain ⟨_, padding⟩ := checked_same (p := p) inv below isFunction
  have none : p.numparams.toNat - ((s.checked isFunction p func).top - func - 1) = 0 := by omega
  rw [none] at padding
  have top : (s.checked isFunction p func).top = (paddedStack s isFunction p func).top := by
    have tops := congrArg CallStack.top padding
    exact tops
  have last : (s.checked isFunction p func).stackLast =
      (paddedStack s isFunction p func).stackLast := by
    have lasts := congrArg CallStack.stackLast padding
    exact lasts
  rw [top, last] at room
  have holds := sizes.holds
  have collected : (paddedStack s isFunction p func).checkArgGC gc p =
      paddedStack s isFunction p func := by
    simp [CallStack.checkArgGC, noArg]
  unfold FrameFits
  right
  rw [collected]
  exact ⟨by omega, fun _ => by omega⟩

theorem room_kept_iff (inv : StackInv s) (sizes : FrameSizes p) {func : Nat} (below : func < s.top)
    (gc : List GcStep) (isFunction : Bool) :
    RoomKept s gc isFunction p func ↔ FrameFits s gc isFunction p func := by
  have checked := inv.checked (p := p) below isFunction
  have room := checked_room (p := p) inv below isFunction
  have same := checked_same (p := p) inv below isFunction
  have higher := checked_top_le (p := p) s isFunction func
  unfold RoomKept FrameFits
  rw [luaDPrecall_ciTopInStack_iff]
  dsimp only
  generalize s.checked isFunction p func = t at *
  generalize paddedStack s isFunction p func = padded at *
  by_cases fixed : p.isVararg = 0
  case pos =>
    -- the frame starts below what was the top
    simp only [CallStack.precallBase, fixed, if_true, true_or, iff_true]
    exact ⟨checked.inside, fun _ => by omega⟩
  case neg =>
    have placed := checked.varargBase sizes room gc (t.top - func - 1)
    obtain ⟨base, last, calls⟩ := adjustVarargs_sizes (s := t) (p := p) gc (t.top - func - 1)
    have top := varargBase_top (s := t) (p := p) gc (t.top - func - 1)
    obtain ⟨_, left⟩ := same.checkArgGC gc p
    obtain ⟨_, padding⟩ := same
    simp only [CallStack.precallBase, fixed, if_false, false_or]
    rw [adjustVarargs_inside_iff placed, base, last, calls, top]
    have padded_top : t.top + (p.numparams.toNat - (t.top - func - 1)) = padded.top :=
      congrArg CallStack.top padding
    rw [padded_top]
    unfold CallStack.varargBase
    rw [left]
    exact Iff.rfl

/-- A stack as `stack_init` makes it, with a function called from slot 17. -/
def calledStack (args : Nat) : CallStack :=
  { stacksize := basicStackSize + extraStack, stackLast := 39, top := 18 + args, ciTops := [38], sizeCi := basicCiSize,
    writes := [] }

-- function (a1, ..., a17, ...) end
def manyParameters : Proto :=
  { source := none, linedefined := 0, lastlinedefined := 0, nups := 0, numparams := 17, isVararg := 3,
    maxstacksize := 20, code := [createABC 30 0 1 0], k := [], p := [], lineinfo := [],
    locvars := [], upvalues := [] }

theorem calledStack_inv (args : Nat) (le : args ≤ 20) : StackInv (calledStack args) where
  size := rfl
  top_le := by simp only [calledStack]; omega
  ci_le := by simp [calledStack]
  inside := by simp [calledStack]

theorem room_kept_iff_given : RoomKept (calledStack 17) [] true manyParameters 17 :=
  (room_kept_iff (calledStack_inv 17 (by decide)) (.of_precheck (by decide))
    (by decide) [] true).mpr
    (Or.inr (by decide))

theorem missing_parameters_overrun :
    luaGCheckcode manyParameters = true ∧ StackInv (calledStack 0) ∧ 17 < (calledStack 0).top ∧
      (∃ t, (calledStack 0).luaDPrecall [] true manyParameters 17 = some t ∧
        t.ciTopInStack = false) ∧
      ¬ RoomKept (calledStack 0) [] true manyParameters 17 := by
  have entered : ∃ t, (calledStack 0).luaDPrecall [] true manyParameters 17 = some t ∧
    t.ciTopInStack = false :=
    ⟨_, rfl, by decide⟩
  refine ⟨by decide, calledStack_inv 0 (by decide), by decide, entered, ?_⟩
  intro kept
  obtain ⟨t, entered, outside⟩ := entered
  rw [kept.2 t entered] at outside
  cases outside

end Lunatik.Verified
