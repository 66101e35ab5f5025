import Lunatik.Verified.FullCollection

/-! # The collector frees nothing that is reached

What is reached from the roots through strong references is not dead, and no step of the sweep frees it, in
every run whose calls of `lua_setupvalue` have the barrier they need.
-/

namespace Lunatik.Verified.ReachableObjects

open Lunatik.Library
open Lunatik.Lua.Gc Lunatik.Lua.Gc.GlobalState
open Lunatik.Verified.References Lunatik.Verified.Tricolor Lunatik.Verified.Propagation
open Lunatik.Verified.CollectorInvariant Lunatik.Verified.CollectorSteps Lunatik.Verified.MutatorSteps
open Lunatik.Verified.CollectorSafety Lunatik.Verified.Wanted Lunatik.Verified.FullCollection

variable {g g' : GlobalState} {o r : GCObject} {uv : Nat} {v : TValue}

/-! ## Strong references -/

theorem strongRefs_refs (ref : r ∈ g.strongRefs o) : r ∈ g.refs o := by
  cases o with
  | table h =>
    have entry : ∀ weak v, r ∈ strongly weak v → r ∈ gcvalue v := fun weak v mem => (mem_strongly.mp mem).1
    rcases mem_strongTableRefs.mp ref with metatable | ⟨v, mem, isValue⟩ | ⟨n, mem, used, isKey | isVal⟩
    · exact mem_tableRefs.mpr (.inl metatable)
    · exact mem_tableRefs.mpr (.inr (.inl ⟨v, mem, entry _ v isValue⟩))
    · exact mem_tableRefs.mpr (.inr (.inr ⟨n, mem, used, .inl (entry _ _ isKey)⟩))
    · exact mem_tableRefs.mpr (.inr (.inr ⟨n, mem, used, .inr (entry _ _ isVal)⟩))
  | thread th =>
    rcases mem_strongThreadRefs.mp ref with globals | ⟨slot, below, isValue⟩
    · exact mem_threadRefs.mpr (.inl globals)
    · exact mem_threadRefs.mpr (.inr ⟨slot, lt_exposed.mpr (.inl below), isValue⟩)
  | string ts => exact ref
  | function cl => exact ref
  | userdata u => exact ref
  | proto f => exact ref
  | upval uv => exact ref

/-- The program can get to what is reached. -/
theorem held_of_strong (reached : g.Strong o) : g.Held o := by
  refine reached.mono (fun o root => .root ?_) fun _ _ held ref => .child held (strongRefs_refs ref)
  simp only [strongRoots, List.mem_append, List.mem_cons] at root
  simp only [GlobalState.roots, List.mem_append, List.mem_cons]
  tauto

theorem held_of_frees (frees : Frees g g') (held : g.Held o) : g'.Held o :=
  held.mono (fun _ root => .root (frees.roots ▸ root)) fun o _ held ref => .child held (frees.refs o ▸ ref)

/-! ## The barrier of `lua_setupvalue` -/

-- a value that is not white needs no barrier
theorem setderef_nonwhite (p : GCObject) (nonwhite : ∀ o ∈ gcvalue v, g.iswhite o = false) :
    (g.setderef uv v).luaCBarrier p v = g.setderef uv v := by
  have marks : (g.setderef uv v).marked = g.marked := by
    unfold setderef
    split <;> rfl
  unfold luaCBarrier
  cases isValue : gcvalue v with
  | none => rfl
  | some o =>
    have still : (g.setderef uv v).iswhite o = false := by
      unfold iswhite
      rw [marks]
      exact nonwhite o isValue
    simp only [luaCObjbarrier, still, Bool.false_and, Bool.false_eq_true, if_false]

/-- Where `lua_setupvalue` needs no barrier for the upvalue, it is a store into the upvalue that has its own. -/
theorem exec_barred {e : Event} (inv : Invariant (waits g) g) (named : Named g e) (barred : Barred g e) :
    Invariant (waits (exec g e)) (exec g e) := by
  by_cases legal : Legal g e
  · exact exec_invariant inv legal
  cases e with
  | store s =>
    cases s with
    | luaSetupvalue cl uv v =>
      obtain ⟨isFunction, ref, isValue⟩ := named
      have nonwhite : ∀ o ∈ gcvalue v, g.iswhite o = false := fun o mem => by
        by_contra white
        exact legal ⟨isFunction, ref, isValue, fun marks isBlack => barred marks o mem (by simpa using white) isBlack⟩
      have same : exec g (.store (.luaSetupvalue cl uv v)) = exec g (.store (.setupval uv v)) :=
        (setderef_nonwhite (.function cl) nonwhite).trans (setderef_nonwhite (.upval uv) nonwhite).symm
      rw [same]
      exact exec_invariant inv ⟨.child isFunction ref, isValue⟩
    | _ => exact absurd named legal
  | _ => exact absurd named legal

theorem run_barred {events : List Event} (meets : runtime.Meets (fun g e => Named g e ∧ Barred g e) luaNewstate events)
    (reaches : runtime.run luaNewstate events = some g) : Invariant (waits g) g := by
  have step : ∀ g e g', Invariant (waits g) g → Named g e ∧ Barred g e → runtime.step g e = some g' →
      Invariant (waits g') g' := by
    intro g e g' inv allowed stepped
    cases stepped
    exact exec_barred inv allowed.1 allowed.2
  exact runtime.invariant_of_meets step luaNewstate_booted.inv meets reaches

/-! ## Two functions with one upvalue -/

theorem run_foldl (events : List Event) : runtime.run g events = some (events.foldl exec g) := by
  induction events generalizing g with
  | nil => rfl
  | cons e events ih => exact ih

theorem meets_cons {ok : GlobalState → Event → Prop} {e : Event} {events : List Event} (allowed : ok g e)
    (rest : runtime.Meets ok (exec g e) events) : runtime.Meets ok g (e :: events) :=
  ⟨allowed, fun g' stepped => by cases stepped; exact rest⟩

theorem meets_append {ok : GlobalState → Event → Prop} {events events' : List Event} (first : runtime.Meets ok g events)
    (rest : runtime.Meets ok (events.foldl exec g) events') : runtime.Meets ok g (events ++ events') := by
  induction events generalizing g with
  | nil => exact rest
  | cons e events ih => exact meets_cons first.1 (ih (first.2 _ rfl) rest)

theorem held_main (main : g.mainthread = 0) : g.Held (.thread 0) :=
  .root (main ▸ List.mem_cons_self ..)

-- two functions have one upvalue, and the mark phase has been through the second of them
def shared : List Event :=
  [.settop 0 6, .newproto 0 1 0 none, .newLclosure 0 2 0 0 0 [.new 0], .newLclosure 0 3 0 1 0 [.upval 0],
    .singlestep, .singlestep, .singlestep, .singlestep, .singlestep]

-- one of them gives the upvalue a new table, which leaves the stack before it is traversed again
def written (cl : Nat) : List Event :=
  [.newtable 0 4 0 0 2, .store (.luaSetupvalue cl 0 (.table 2)), .settop 0 4,
    .singlestep, .singlestep, .singlestep, .singlestep]

theorem shared_meets : runtime.Meets (fun g e => Named g e ∧ Barred g e) luaNewstate shared := by
  refine meets_cons ⟨?_, trivial⟩ (meets_cons ⟨?_, trivial⟩ (meets_cons ⟨?_, trivial⟩ (meets_cons ⟨?_, trivial⟩ ?_)))
  · exact held_main (by decide +kernel)
  · have facts : (exec luaNewstate (.settop 0 6)).mainthread = 0 ∧ 1 < ((exec luaNewstate (.settop 0 6)).heap.threads 0).top ∧
        .proto 0 ∉ (exec luaNewstate (.settop 0 6)).objects := by decide +kernel
    exact ⟨⟨held_main facts.1, facts.2.1⟩, facts.2.2, fun ts isSource => by cases isSource⟩
  · generalize isState : exec (exec luaNewstate (.settop 0 6)) (.newproto 0 1 0 none) = g
    have facts : g.mainthread = 0 ∧ 2 < (g.heap.threads 0).top ∧ .table 0 ∈ g.refs (.thread 0) ∧ .proto 0 ∈ g.refs (.thread 0) ∧
        .function 0 ∉ g.objects ∧ .upval 0 ∉ g.objects := by rw [← isState]; decide +kernel
    obtain ⟨main, top, env, proto, free, unused⟩ := facts
    have held := held_main main
    refine ⟨⟨held, top⟩, held.child env, held.child proto, fun c mem => ?_, free, by decide, fun o mem => ?_⟩
    · rw [List.mem_singleton.mp mem]
      trivial
    · rw [List.mem_singleton.mp mem]
      exact unused
  · generalize isState : exec (exec (exec luaNewstate (.settop 0 6)) (.newproto 0 1 0 none)) (.newLclosure 0 2 0 0 0 [.new 0]) = g
    have facts : g.mainthread = 0 ∧ 3 < (g.heap.threads 0).top ∧ .table 0 ∈ g.refs (.thread 0) ∧ .proto 0 ∈ g.refs (.thread 0) ∧
        .function 0 ∈ g.refs (.thread 0) ∧ .upval 0 ∈ g.refs (.function 0) ∧ .function 1 ∉ g.objects := by
      rw [← isState]
      decide +kernel
    obtain ⟨main, top, env, proto, function, upval, free⟩ := facts
    have held := held_main main
    refine ⟨⟨held, top⟩, held.child env, held.child proto, fun c mem => ?_, free, by decide, fun o mem => ?_⟩
    · rw [List.mem_singleton.mp mem]
      exact (held.child function).child upval
    · cases mem
  · have step : ∀ g, Named g .singlestep ∧ Barred g .singlestep := fun _ => ⟨trivial, trivial⟩
    exact meets_cons (step _) (meets_cons (step _) (meets_cons (step _) (meets_cons (step _) (meets_cons (step _) trivial))))

theorem written_named {cl : Nat} (which : cl = 0 ∨ cl = 1) : runtime.Meets Named (shared.foldl exec luaNewstate) (written cl) := by
  refine meets_cons ?_ (meets_cons ?_ (meets_cons ?_ ?_))
  · generalize isState : shared.foldl exec luaNewstate = g
    have facts : g.mainthread = 0 ∧ 4 < (g.heap.threads 0).top ∧ .table 2 ∉ g.objects := by rw [← isState]; decide +kernel
    exact ⟨⟨held_main facts.1, facts.2.1⟩, facts.2.2⟩
  · generalize isState : exec (shared.foldl exec luaNewstate) (.newtable 0 4 0 0 2) = g
    have facts : g.mainthread = 0 ∧ .function cl ∈ g.refs (.thread 0) ∧ .upval 0 ∈ g.refs (.function cl) ∧
        .table 2 ∈ g.refs (.thread 0) := by
      rw [← isState]
      rcases which with rfl | rfl <;> decide +kernel
    obtain ⟨main, function, upval, table⟩ := facts
    refine ⟨(held_main main).child function, upval, fun o isTable => ?_⟩
    cases isTable
    exact (held_main main).child table
  · exact held_main (by rcases which with rfl | rfl <;> decide +kernel)
  · exact meets_cons trivial (meets_cons trivial (meets_cons trivial (meets_cons trivial trivial)))

-- the second is black, and its barrier marks the table
theorem written_barred : runtime.Meets Barred (shared.foldl exec luaNewstate) (written 1) := by
  refine meets_cons trivial (meets_cons (fun _ _ _ _ _ => by decide +kernel) (meets_cons trivial ?_))
  exact meets_cons trivial (meets_cons trivial (meets_cons trivial (meets_cons trivial trivial)))

theorem written_table {cl : Nat} (which : cl = 0 ∨ cl = 1) : ((shared ++ written cl).foldl exec luaNewstate).Strong (.table 2) := by
  generalize isState : (shared ++ written cl).foldl exec luaNewstate = g
  have path : .thread 0 ∈ g.strongRoots ∧ .function cl ∈ g.strongRefs (.thread 0) ∧ .upval 0 ∈ g.strongRefs (.function cl) ∧
      .table 2 ∈ g.strongRefs (.upval 0) := by
    rw [← isState]
    rcases which with rfl | rfl <;> decide +kernel
  obtain ⟨main, function, upval, table⟩ := path
  exact (((Reachable.root main).child function).child upval).child table

/-! ## Runs -/

/-- What is reached is not dead, and a step of the sweep leaves it. -/
theorem reached_objects_stay {events : List Event}
    (meets : runtime.Meets (fun g e => Named g e ∧ Barred g e) luaNewstate events)
    (reaches : runtime.run luaNewstate events = some g) (reached : g.Strong o) :
    o ∈ g.objects ∧ g.isdead o = false ∧
      (g.gcstate = .sweepstring ∨ g.gcstate = .sweep → o ∈ g.singlestep.objects) := by
  have inv := run_barred meets reaches
  have held := held_of_strong reached
  obtain ⟨object, notDead⟩ := inv.held held
  refine ⟨object, notDead, fun state => ?_⟩
  have frees := (sweep_round inv state).1
  exact ((singlestep_invariant inv).held (held_of_frees frees held)).1

-- the table outlives the sweep that starts then
theorem reached_objects_stay_written : .table 2 ∈ ((shared ++ written 1).foldl exec luaNewstate).objects ∧
    ((shared ++ written 1).foldl exec luaNewstate).isdead (.table 2) = false ∧
    .table 2 ∈ ((shared ++ written 1).foldl exec luaNewstate).singlestep.objects := by
  have meets := meets_append shared_meets ((written_named (.inr rfl)).and runtime written_barred)
  obtain ⟨object, notDead, stays⟩ := reached_objects_stay meets (run_foldl _) (written_table (.inr rfl))
  exact ⟨object, notDead, stays (.inl (by decide +kernel))⟩

/-- The table is dead after `atomic` where the function that is written through is not black yet. -/
theorem lua_setupvalue_loses : ¬ ∀ (events : List Event) (g : GlobalState) (o : GCObject),
    runtime.Meets Named luaNewstate events → runtime.run luaNewstate events = some g → g.Strong o →
      o ∈ g.objects ∧ g.isdead o = false ∧ (g.gcstate = .sweepstring ∨ g.gcstate = .sweep → o ∈ g.singlestep.objects) := by
  intro claim
  have meets := meets_append (shared_meets.mono runtime fun _ _ => And.left) (written_named (.inl rfl))
  have alive := (claim (shared ++ written 0) _ _ meets (run_foldl _) (written_table (.inl rfl))).2.1
  have dead : ((shared ++ written 0).foldl exec luaNewstate).isdead (.table 2) = true := by decide +kernel
  rw [dead] at alive
  cases alive

end Lunatik.Verified.ReachableObjects
