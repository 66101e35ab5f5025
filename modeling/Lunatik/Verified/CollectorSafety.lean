import Lunatik.Verified.MutatorSteps

/-! # The safety of the incremental collector

A new state has the invariant, so every state does that a program and the collector get to.
-/

namespace Lunatik.Verified.CollectorSafety

open Lunatik.Library
open Lunatik.Lua (GCState setAt setAt_same setAt_other)
open Lunatik.Lua.Gc Lunatik.Lua.Gc.GlobalState
open Lunatik.Lua.StringTable (whitebits blackbit fixedbit lmod hashOf minstrtabsize)
open Lunatik.Verified.Colours Lunatik.Verified.References Lunatik.Verified.Tricolor Lunatik.Verified.Propagation
open Lunatik.Verified.CollectorInvariant Lunatik.Verified.UpvalueSteps Lunatik.Verified.CollectorSteps
open Lunatik.Verified.NewObjects Lunatik.Verified.MutatorSteps

variable {pending more : GCObject → Prop} {g g' : GlobalState} {o : GCObject} {ts : Nat}

/-! ## The new state -/

theorem preinitState_objects : preinitState.objects = [.thread 0] := by decide

theorem preinitState_invariant : Invariant (waits preinitState) preinitState := by
  have only : ∀ o, o ∈ preinitState.objects ↔ o = .thread 0 := fun o => by rw [preinitState_objects, List.mem_singleton]
  have refs : ∀ r, r ∉ preinitState.refs (.thread 0) := fun r ref => by
    rcases mem_threadRefs.mp ref with isValue | ⟨slot, -, isValue⟩
    · cases isValue
    · cases isValue
  have alive : Alive preinitState (.thread 0) := ⟨(only _).mpr rfl, by decide⟩
  have idle : preinitState.gcstate ≠ .propagate := by decide
  have closed : ∀ th uv, uv ∉ preinitState.openupval th := fun th uv mem => by cases mem
  refine ⟨⟨.inl rfl, by rw [preinitState_objects]; simp, by decide, fun uv root => ?_, fun th uv root mem => absurd mem (closed th uv),
    fun uv => ?_, List.nodup_nil, fun o object => ?_, fun o object isFixed => ?_, fun th object => ?_, fun uv mem => ?_⟩,
    ⟨fun o root => ?_, fun o isAlive r ref => ?_⟩, by decide, fun marks => absurd marks idle, fun _ o object => ?_,
    (fun strings => by cases strings), fun p isPos => ?_, fun marks => absurd marks idle⟩
  · cases List.mem_singleton.mp root
  · refine ⟨fun mem => ?_, fun inside => ?_⟩
    · cases mem
    · obtain ⟨th, -, mem⟩ := inside
      cases mem
  · rw [(only o).mp object]
    decide
  · exact .inr ((only o).mp object)
  · cases (only _).mp object
    decide
  · cases mem
  · have isMain : o = .thread 0 := by
      simp only [GlobalState.roots, List.mem_append, List.mem_flatMap, List.mem_cons] at root
      rcases root with ((main | running | isValue) | ⟨mt, mem, ref⟩) | waiting
      · exact main
      · exact running
      · cases isValue
      · rw [List.eq_of_mem_replicate mem] at ref
        cases ref
      · cases waiting
    rw [isMain]
    exact alive
  · rw [(only o).mp isAlive.1] at ref
    exact absurd ref (refs r)
  · rw [(only o).mp object]
    exact .inl ⟨by decide, by decide⟩
  · cases isPos

theorem registry_invariant {v : TValue} (inv : Invariant (waits g) g) (idle : g.gcstate ≠ .propagate)
    (alive : ∀ r ∈ gcvalue v, Alive g r) : Invariant (waits g) { g with registry := v } := by
  have shape := inv.shape
  refine ⟨⟨shape.white, shape.nodup, shape.main, shape.closed, shape.opened, shape.uvhead, shape.distinct, shape.coloured,
    shape.fixed, shape.thread, shape.upval⟩, ⟨fun o root => ?_, inv.sound.refs⟩, inv.table, fun marks => absurd marks idle,
    inv.swept, inv.sweepstring, inv.sweepgc, fun marks => absurd marks idle⟩
  simp only [GlobalState.roots, List.mem_append, List.mem_cons, Option.mem_toList] at root
  have old : ∀ o, o = .thread g.mainthread ∨ o = .thread g.running ∨ o ∈ g.mt.flatMap (fun mt => (mt.map GCObject.table).toList) ∨
      o ∈ g.tmudata.map GCObject.userdata → Alive g o := fun o isRoot => inv.sound.roots o (by
    simp only [GlobalState.roots, List.mem_append, List.mem_cons]
    tauto)
  rcases root with ((main | running | isValue) | metatable) | waiting
  · exact old o (.inl main)
  · exact old o (.inr (.inl running))
  · exact alive o isValue
  · exact old o (.inr (.inr (.inl metatable)))
  · exact old o (.inr (.inr (.inr waiting)))

/-- `luaS_fix`: no sweep frees the string. -/
theorem luaSFix_invariant (inv : Invariant pending g) (idle : g.gcstate ≠ .propagate) :
    Invariant more (g.luaSFix ts) := by
  have kept : ∀ o, (g.luaSFix ts).iswhite o = g.iswhite o ∧ (g.luaSFix ts).isblack o = g.isblack o ∧
      (g.luaSFix ts).isdead o = g.isdead o := fun o => by
    have white : ∀ m, whiteMark (m ||| fixedbit) = whiteMark m := by decide
    have black : ∀ m, blackMark (m ||| fixedbit) = blackMark m := by decide
    have dead : ∀ m, deadMark g.otherwhite (m ||| fixedbit) = deadMark g.otherwhite m :=
      inv.shape.white.elim (p := fun _ other => ∀ m, deadMark other (m ||| fixedbit) = deadMark other m) (by decide) (by decide)
    unfold luaSFix
    rw [setMark_iswhite, setMark_isblack, setMark_isdead, white, black, dead]
    by_cases here : o = .string ts
    · subst here
      exact ⟨if_pos rfl, if_pos rfl, if_pos rfl⟩
    · exact ⟨if_neg here, if_neg here, if_neg here⟩
  have alive : ∀ o, Alive g o → Alive (g.luaSFix ts) o := fun o isAlive => ⟨isAlive.1, (kept o).2.2.trans isAlive.2⟩
  have shape := inv.shape
  refine ⟨⟨shape.white, shape.nodup, shape.main, shape.closed, shape.opened, shape.uvhead, shape.distinct, fun o object => ?_,
    fun o object isFixed => ?_, fun th object => (kept _).2.1.trans (shape.thread th object),
    fun uv mem => (kept _).2.1.trans (shape.upval uv mem)⟩, ⟨fun o root => alive o (inv.sound.roots o root),
    fun o isAlive r ref => alive r ?_⟩, inv.table, fun marks => absurd marks idle, fun _ o object => ?_, inv.sweepstring,
    inv.sweepgc, fun marks => absurd marks idle⟩
  · have coloured : ∀ m, Coloured m → Coloured (m ||| fixedbit) := by decide
    have before := shape.coloured o object
    unfold luaSFix
    rw [setMark_marked]
    split
    next here => exact coloured _ (here ▸ before)
    next => exact before
  · by_cases here : o = .string ts
    · exact .inl ⟨ts, here⟩
    · refine shape.fixed o object ?_
      unfold luaSFix at isFixed
      rw [setMark_other here] at isFixed
      exact isFixed
  · exact inv.sound.refs o ⟨isAlive.1, (kept o).2.2.symm.trans isAlive.2⟩ r ref
  · unfold Resting Fresh
    rw [isgray, (kept o).1, (kept o).2.1, (kept o).2.2]
    exact inv.swept idle o object

/-! ### The names that are fixed -/

-- the new state before a name is fixed
def unnamed : GlobalState :=
  let g := preinitState.luaHNew 0 2 0
  { (g.setThread 0 { g.heap.threads 0 with gt := .table 0 }).luaHNew 0 2 1 with registry := .table 1 }

/-- What `fixName` finds. -/
structure Booted (g : GlobalState) : Prop where
  frame : ∃ strings marked hash, g = { unnamed with heap.strings := strings, marked, hash }
  inv : Invariant (waits g) g
  state : g.gcstate = .pause
  strings : ∀ ts, .string ts ∉ g.rootgc
  numbered : ∀ ts ∈ g.hash.flatten, ts < g.hash.flatten.length

theorem Booted.free (booted : Booted g) : .string g.hash.flatten.length ∉ g.objects := by
  intro object
  rcases mem_objects.mp object with root | ⟨_, _, -, -, same⟩ | ⟨_, -, same⟩ | ⟨ts, mem, same⟩
  · exact booted.strings _ root
  · cases same
  · cases same
  · cases same
    exact absurd (booted.numbered _ mem) (Nat.lt_irrefl _)

theorem newlstr_frame (str : List UInt8) (ts : Nat) (inv : Invariant pending g) : ∃ strings marked hash,
    g.newlstr str ts = { g with heap.strings := strings, marked, hash } ∧ hash.flatten.Perm (ts :: g.hash.flatten) := by
  have inside : lmod (hashOf str) g.hash.length < g.hash.length := lmod_lt_size _ (List.length_pos_iff.mpr inv.table)
  have chained := flatten_modify_cons ts inside
  unfold newlstr
  simp only
  split
  next crowded =>
    have positive : 0 < (g.hash.modify (lmod (hashOf str) g.hash.length) (ts :: ·)).length * 2 := by
      rw [List.length_modify]
      omega
    obtain ⟨newhash, same, perm, -⟩ := luaSResize_perm (g := ({ g with
      heap.strings := setAt g.heap.strings ts { bytes := str, hash := hashOf str }
      hash := g.hash.modify (lmod (hashOf str) g.hash.length) (ts :: ·) }.setMark (.string ts) g.luaCWhite)) _ positive
    exact ⟨_, _, _, same, perm.trans chained⟩
  next => exact ⟨_, _, _, rfl, chained⟩

theorem fixName_booted {name : List UInt8} (booted : Booted g) : Booted (fixName g name) := by
  have idle : g.gcstate ≠ .propagate := by rw [booted.state]; decide
  obtain ⟨made, -⟩ := luaSNewlstr_extends name booted.inv booted.free
  have frame : ∃ strings marked hash,
      (g.luaSNewlstr name g.hash.flatten.length).2 = { g with heap.strings := strings, marked, hash } ∧
      (hash = g.hash ∨ hash.flatten.Perm (g.hash.flatten.length :: g.hash.flatten)) := by
    unfold luaSNewlstr
    split
    · simp only
      split
      · exact ⟨_, _, _, rfl, .inl rfl⟩
      · exact ⟨_, _, _, rfl, .inl rfl⟩
    · obtain ⟨strings, marked, hash, same, perm⟩ := newlstr_frame name g.hash.flatten.length booted.inv
      exact ⟨strings, marked, hash, same, .inr perm⟩
  obtain ⟨strings, marked, hash, same, chains⟩ := frame
  have result : fixName g name = (g.luaSNewlstr name g.hash.flatten.length).2.luaSFix (g.luaSNewlstr name g.hash.flatten.length).1 :=
    rfl
  rw [result]
  have inv := made.inv
  rw [same] at inv ⊢
  refine ⟨?_, luaSFix_invariant inv idle, booted.state, booted.strings, fun ts mem => ?_⟩
  · obtain ⟨strings', marked', hash', before⟩ := booted.frame
    rw [before]
    exact ⟨_, _, _, rfl⟩
  change ts ∈ hash.flatten at mem
  show ts < hash.flatten.length
  rcases chains with unchanged | perm
  · rw [unchanged] at mem ⊢
    exact booted.numbered ts mem
  · rw [perm.length_eq, List.length_cons]
    cases List.mem_cons.mp (perm.mem_iff.mp mem) with
    | inl here => omega
    | inr old =>
      have lt := booted.numbered ts old
      omega

theorem fixNames_booted {names : List (List UInt8)} (booted : Booted g) : Booted (names.foldl fixName g) := by
  induction names generalizing g with
  | nil => exact booted
  | cons name names ih => exact ih (fixName_booted booted)

theorem luaNewstate_booted : Booted luaNewstate := by
  refine fixNames_booted ?_
  have first := luaHNew_extends 0 2 (h := 0) preinitState_invariant (by decide)
  generalize isFirst : preinitState.luaHNew 0 2 0 = g₁ at first
  obtain ⟨globals, isGlobals⟩ := first
  have written : Invariant (waits g₁) (g₁.setThread 0 { g₁.heap.threads 0 with gt := .table 0 }) :=
    globals.inv.setThread (fun r isValue => .inr (Option.some.inj isValue ▸ isGlobals)) (fun slot r isValue => .inl isValue)
      fun slot below r isValue => .inl below
  generalize isSecond : g₁.setThread 0 { g₁.heap.threads 0 with gt := .table 0 } = g₂ at written
  have waiting : waits g₁ = waits g₂ := by rw [← isSecond]; rfl
  rw [waiting] at written
  have objects : g₂.objects = [.table 0, .thread 0] := by rw [← isSecond, ← isFirst]; decide
  have second := luaHNew_extends 0 2 (h := 1) written (by rw [objects]; decide)
  generalize isThird : g₂.luaHNew 0 2 1 = g₃ at second
  obtain ⟨registry, isRegistry⟩ := second
  have state : g₃.gcstate = .pause ∧ g₃.rootgc = [.table 1, .table 0, .thread 0] ∧ g₃.hash = List.replicate minstrtabsize [] := by
    rw [← isThird, ← isSecond, ← isFirst]
    exact ⟨rfl, rfl, rfl⟩
  refine ⟨?_, ?_, state.1, fun ts root => ?_, fun ts mem => ?_⟩
  · rw [← isThird, ← isSecond, ← isFirst]
    exact ⟨_, _, _, rfl⟩
  · have inv := registry_invariant (v := .table 1) registry.inv (by rw [state.1]; decide)
      fun r isValue => Option.some.inj isValue ▸ isRegistry
    exact inv
  · change .string ts ∈ g₃.rootgc at root
    rw [state.2.1] at root
    simp at root
  · change ts ∈ g₃.hash.flatten at mem
    rw [state.2.2, List.flatten_replicate_nil] at mem
    cases mem

/-! ## Runs -/

/-- Every state that a legal run gets to has the invariant. -/
theorem run_invariant {events : List Event} (meets : runtime.Meets Legal luaNewstate events)
    (reaches : runtime.run luaNewstate events = some g) : Invariant (waits g) g := by
  have step : ∀ g e g', Invariant (waits g) g → Legal g e → runtime.step g e = some g' → Invariant (waits g') g' := by
    intro g e g' inv legal stepped
    cases stepped
    exact exec_invariant inv legal
  exact runtime.invariant_of_meets step luaNewstate_booted.inv meets reaches

/-- Whatever a program can get to is there, and the sweep will spare it. -/
theorem held_objects {events : List Event} (meets : runtime.Meets Legal luaNewstate events)
    (reaches : runtime.run luaNewstate events = some g) (held : g.Held o) : o ∈ g.objects ∧ g.condemned o = false :=
  (run_invariant meets reaches).spared held

-- a table that is made in a slot of the stack outlives the sweep that starts then
theorem held_objects_newtable : .table 2 ∈ (exec (exec luaNewstate (.newtable 0 0 0 0 2)) .resetSweep).objects ∧
    (exec (exec luaNewstate (.newtable 0 0 0 0 2)) .resetSweep).condemned (.table 2) = false := by
  obtain ⟨strings, marked, hash, start⟩ := luaNewstate_booted.frame
  have root : luaNewstate.Held (.thread 0) := .root (by rw [start]; exact List.mem_cons_self ..)
  have free : .table 2 ∉ luaNewstate.objects := fun object => by
    rw [start] at object
    rcases mem_objects.mp object with root | ⟨_, _, -, -, same⟩ | ⟨_, -, same⟩ | ⟨_, -, same⟩
    · have here : GCObject.table 2 ∈ [GCObject.table 1, .table 0, .thread 0] := root
      simp at here
    all_goals cases same
  have kept : ∀ g : GlobalState, g.resetSweep.roots = g.roots ∧ g.resetSweep.refs = g.refs := fun g => by
    unfold resetSweep
    split
    · exact ⟨rfl, rfl⟩
    · exact ⟨rfl, rfl⟩
  have meets : runtime.Meets Legal luaNewstate [.newtable 0 0 0 0 2, .resetSweep] := by
    refine ⟨⟨⟨root, ?_⟩, free⟩, fun g stepped => ⟨trivial, fun _ _ => trivial⟩⟩
    rw [start]
    exact Nat.one_pos
  have held : (exec (exec luaNewstate (.newtable 0 0 0 0 2)) .resetSweep).Held (.table 2) := by
    refine .child (a := .thread 0) (.root ?_) ?_
    · show _ ∈ (exec luaNewstate (.newtable 0 0 0 0 2)).resetSweep.roots
      rw [(kept _).1, start]
      exact List.mem_cons_self ..
    · show _ ∈ (exec luaNewstate (.newtable 0 0 0 0 2)).resetSweep.refs (.thread 0)
      rw [(kept _).2, start]
      exact mem_threadRefs.mpr (.inr ⟨0, lt_exposed.mpr (.inl Nat.one_pos), rfl⟩)
  exact held_objects meets rfl held

end Lunatik.Verified.CollectorSafety
