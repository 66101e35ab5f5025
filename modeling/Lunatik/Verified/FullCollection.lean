import Mathlib.Data.Prod.Lex
import Lunatik.Verified.CollectorSafety
import Lunatik.Verified.WantedAtomic

/-! # A full collection leaves nothing but what is wanted

`luaC_fullgc` comes to its end, and every object that is left is wanted or fixed.
-/

namespace Lunatik.Verified.FullCollection

open Lunatik.Library
open Lunatik.Lua (GCState setAt setAt_same setAt_other)
open Lunatik.Lua.Gc Lunatik.Lua.Gc.GlobalState
open Lunatik.Lua.StringTable (whitebits blackbit fixedbit minstrtabsize)
open Lunatik.Verified.Colours Lunatik.Verified.References Lunatik.Verified.Tricolor Lunatik.Verified.Propagation
open Lunatik.Verified.AtomicPhase Lunatik.Verified.CollectorInvariant Lunatik.Verified.UpvalueSteps
open Lunatik.Verified.SweepPhase Lunatik.Verified.CollectorSteps Lunatik.Verified.MutatorSteps
open Lunatik.Verified.CollectorSafety Lunatik.Verified.Wanted Lunatik.Verified.WantedAtomic

variable {S pending : GCObject → Prop} {g g' : GlobalState} {o r : GCObject} {th uv : Nat}

/-! ## The sweep -/

/-- Objects are freed, and what the others keep stays. -/
structure Frees (g g' : GlobalState) : Prop where
  stays : ∀ o, Stays g' o → Stays g o
  objects : ∀ o ∈ g'.objects, o ∈ g.objects
  flags : ∀ o, g'.marked o &&& flagbits = g.marked o &&& flagbits
  roots : g'.roots = g.roots
  refs : ∀ o, g'.refs o = g.refs o
  heap : ∃ upvals, g'.heap = { g.heap with upvals }
  tmname : g'.tmname = g.tmname

theorem Frees.refl (g : GlobalState) : Frees g g :=
  ⟨fun _ => id, fun _ => id, fun _ => rfl, rfl, fun _ => rfl, ⟨_, rfl⟩, rfl⟩

theorem Frees.trans {g₁ : GlobalState} (first : Frees g g') (second : Frees g' g₁) : Frees g g₁ where
  stays := fun o stays => first.stays o (second.stays o stays)
  objects := fun o object => first.objects o (second.objects o object)
  flags := fun o => (second.flags o).trans (first.flags o)
  roots := second.roots.trans first.roots
  refs := fun o => (second.refs o).trans (first.refs o)
  heap := by
    obtain ⟨upvals, same⟩ := first.heap
    obtain ⟨upvals', same'⟩ := second.heap
    exact ⟨upvals', by rw [same', same]⟩
  tmname := second.tmname.trans first.tmname

theorem Frees.gfasttm (frees : Frees g g') (et : Option Nat) (e : Lua.TMS) : g'.gfasttm et e = g.gfasttm et e := by
  obtain ⟨upvals, heap⟩ := frees.heap
  unfold GlobalState.gfasttm
  rw [heap, frees.tmname]

theorem Frees.strongRefs (frees : Frees g g') : g'.strongRefs o = g.strongRefs o := by
  have refs := frees.refs o
  obtain ⟨upvals, heap⟩ := frees.heap
  cases o with
  | table h =>
    have weakness : ∀ t, g'.weakness t = g.weakness t := fun t => by
      unfold weakness weakMode
      rw [frees.gfasttm, heap]
    simp only [GlobalState.strongRefs, strongTableRefs, weakness, heap]
  | thread th => simp only [GlobalState.strongRefs, heap]
  | string ts => exact refs
  | function cl => exact refs
  | userdata u => exact refs
  | proto f => exact refs
  | upval uv => exact refs

theorem Frees.finalizable (frees : Frees g g') (finalizable : g'.Finalizable o) : g.Finalizable o := by
  obtain ⟨u, isUdata, object, unfinalized, tm⟩ := finalizable
  obtain ⟨upvals, heap⟩ := frees.heap
  refine ⟨u, isUdata, frees.objects _ object, ?_, ?_⟩
  · unfold isfinalized at unfinalized ⊢
    rw [← finalized_of_flags (frees.flags (.userdata u))]
    exact unfinalized
  · rw [← frees.gfasttm]
    have udata : g'.heap.udata = g.heap.udata := by rw [heap]
    rw [← udata]
    exact tm

theorem frees_of_sweeps (white : White g) (sweeps : Sweeps g g') : Frees g g' where
  stays := fun o stays => by
    refine ⟨sweeps.objects o stays.1, ?_⟩
    cases sweeps.marks o with
    | inl same =>
      rw [condemned_eq, ← same, ← sweeps.otherwhite]
      exact stays.2
    | inr changed => exact changed.1
  objects := sweeps.objects
  flags := fun o => by
    cases sweeps.marks o with
    | inl same => rw [same]
    | inr changed => rw [changed.2]; exact makewhite_flags white _
  roots := by
    obtain ⟨_, _, _, _, _, _, _, _, rfl⟩ := sweeps.rest
    rfl
  refs := by
    obtain ⟨_, _, _, _, _, _, _, _, rfl⟩ := sweeps.rest
    exact fun _ => rfl
  heap := by
    obtain ⟨_, _, _, _, _, _, _, _, rfl⟩ := sweeps.rest
    exact ⟨_, rfl⟩
  tmname := by
    obtain ⟨_, _, _, _, _, _, _, _, rfl⟩ := sweeps.rest
    rfl

/-- An object that is not condemned is made white. -/
theorem makewhite_frees (white : White g) (spared : g.condemned o = false) : Frees g (g.makewhite o) where
  stays := fun o' stays => by
    refine ⟨stays.1, ?_⟩
    by_cases here : o' = o
    · rw [here]
      exact spared
    · have later := stays.2
      unfold makewhite at later
      rwa [setMark_condemned, if_neg here] at later
  objects := fun _ => id
  flags := fun o' => by
    unfold makewhite
    rw [setMark_marked]
    split
    next here => rw [here, makewhite_flags white]
    next => rfl
  roots := rfl
  refs := fun _ => rfl
  heap := ⟨_, rfl⟩
  tmname := rfl

theorem without_frees : Frees g (without o g) := by
  have objects : ∀ o' ∈ (without o g).objects, o' ∈ g.objects := fun o' object => by
    have sub : ∀ o' ∈ g.rootgc.erase o, o' ∈ g.rootgc := fun o' => List.mem_of_mem_erase
    rw [mem_objects] at object ⊢
    refine object.imp (sub o') (.imp ?_ id)
    rintro ⟨th, uv, root, opened, same⟩
    exact ⟨th, uv, sub _ root, opened, same⟩
  exact ⟨fun o' stays => ⟨objects o' stays.1, stays.2⟩, objects, fun _ => rfl, rfl, fun _ => rfl, ⟨_, rfl⟩, rfl⟩

/-! ### Upvalues that are closed -/

theorem First.freed_frees {next : List Nat} (shape : Shape g) (first : First g th uv next) :
    Frees g { setOpenupval g th next with uvhead := g.uvhead.erase uv } := by
  obtain ⟨others, before, later⟩ := first.split shape
  have objects : ∀ o ∈ { setOpenupval g th next with uvhead := g.uvhead.erase uv }.objects, o ∈ g.objects := fun o object =>
    before.mem_iff.mpr (List.mem_cons_of_mem _ (later.mem_iff.mp object))
  exact ⟨fun o stays => ⟨objects o stays.1, stays.2⟩, objects, fun _ => rfl, rfl, fun _ => rfl, ⟨_, rfl⟩, rfl⟩

theorem First.linked_frees {next : List Nat} (shape : Shape g) (first : First g th uv next) (idle : g.gcstate ≠ .propagate) :
    Frees g ((((setOpenupval g th next).unlinkupval uv).setUpVal uv { v := .own, value := g.deref uv }).luaCLinkupval uv) := by
  have objects : ∀ o ∈ (moved g th uv next).objects, o ∈ g.objects := fun o => (first.moved_mem shape).mp
  have pulled : Frees g (moved g th uv next) :=
    ⟨fun o stays => ⟨objects o stays.1, stays.2⟩, objects, fun _ => rfl, rfl, fun _ => moved_refs, ⟨_, rfl⟩, rfl⟩
  have white : White (moved g th uv next) := shape.white
  rw [linkupval_idle (g := ((setOpenupval g th next).unlinkupval uv).setUpVal uv { v := .own, value := g.deref uv }) idle]
  change Frees g (if (moved g th uv next).isgray (.upval uv) then (moved g th uv next).makewhite (.upval uv) else moved g th uv next)
  split
  next isGray =>
    have alive := alive_of_nonwhite white (isgray_iff.mp isGray).2
    exact pulled.trans (makewhite_frees white (spared_of_alive white alive))
  next => exact pulled

theorem closeFrom_frees {level : Nat} {l : List Nat} (inv : Invariant (waits g) g) (idle : g.gcstate ≠ .propagate)
    (root : .thread th ∈ g.rootgc) (opened : g.openupval th = l) : Frees g (closeFrom th level g l) := by
  induction l generalizing g with
  | nil => exact .refl g
  | cons uv next ih =>
    have first : First g th uv next := ⟨root, opened⟩
    unfold closeFrom
    split
    next =>
      simp only
      have dead : (setOpenupval g th next).isdead (.upval uv) = g.isdead (.upval uv) := rfl
      have value : (setOpenupval g th next).deref uv = g.deref uv := rfl
      rw [dead, value]
      by_cases isDead : g.isdead (.upval uv) = true
      · rw [if_pos isDead]
        have freed := first.freed (waits g) inv isDead
        have frees := First.freed_frees inv.shape first
        rw [freed_eq (first.unowned inv.shape)] at freed ⊢
        have rest := ih (g := { setOpenupval g th next with uvhead := g.uvhead.erase uv }) freed idle root (setAt_same ..)
        exact frees.trans rest
      · rw [if_neg isDead]
        have linked := first.linked inv (by simpa using isDead)
        have frees := First.linked_frees inv.shape first idle
        have closes := linked_closes (g := g) th uv next
        have openupval := linked_openupval (g := g) th uv next
        generalize (((setOpenupval g th next).unlinkupval uv).setUpVal uv
          { v := .own, value := g.deref uv }).luaCLinkupval uv = g₁ at linked frees closes openupval ⊢
        have waiting := closes.waiting
        rw [← waiting] at linked
        have still : g₁.gcstate = g.gcstate := by
          obtain ⟨_, _, _, _, _, _, same⟩ := closes.rest
          rw [same]
        exact frees.trans (ih linked (still ▸ idle) (closes.root root) openupval)
    next => exact .refl g

/-! ### Less to sweep -/

/-- How much is left of a collection: the phase, what is left of the phase, and what is left of the list. -/
def variant (g : GlobalState) : Nat ×ₗ Nat ×ₗ Nat :=
  match g.gcstate with
  | .pause | .finalize => toLex (0, toLex (0, 0))
  | .sweep => toLex (1, toLex (g.objects.length, (after g.sweepgc g.rootgc).length))
  | .sweepstring => toLex (2, toLex (g.hash.length - g.sweepstrgc, 0))
  | .propagate => toLex (3, toLex (work g, 0))

-- what is left of the sweep of `rootgc`
def unswept (g : GlobalState) : Nat ×ₗ Nat := toLex (g.objects.length, (after g.sweepgc g.rootgc).length)

theorem Frees.length (frees : Frees g g') (nodup : g'.objects.Nodup) : g'.objects.length ≤ g.objects.length :=
  (List.subperm_of_subset nodup frees.objects).length_le

theorem sweepopen_frees (shape : Shape g) (root : o ∈ g.rootgc) : Frees g (g.sweepopen o) := by
  cases o with
  | thread th => exact frees_of_sweeps shape.white (sweepopen_sweeps shape root)
  | _ => exact .refl g

-- the object leaves the heap
theorem removed_unswept (frees : Frees g g') (shape : Shape g') (root : o ∈ g'.rootgc)
    (closed : ∀ th, o = .thread th → g'.openupval th = []) :
    Frees g (without o g') ∧ unswept (without o g') < unswept g := by
  have fewer := frees.length shape.nodup
  have split := (remove_objects root closed).length_eq
  refine ⟨frees.trans without_frees, Prod.Lex.toLex_lt_toLex.mpr (.inl ?_)⟩
  simp only [List.length_cons] at split
  show (without o g').objects.length < g.objects.length
  omega

/-- A round of the sweep leaves less to sweep. -/
theorem sweepone_frees (inv : Invariant (waits g) g) (state : g.gcstate = .sweep) :
    Frees g g.sweepone ∧ (after g.sweepgc g.rootgc ≠ [] → unswept g.sweepone < unswept g) := by
  have idle : g.gcstate ≠ .propagate := by rw [state]; decide
  unfold sweepone
  split
  next done => exact ⟨.refl g, fun more => absurd done more⟩
  next curr rest next =>
    have root : curr ∈ g.rootgc := mem_after (next ▸ List.mem_cons_self ..)
    have opened := sweepopen_opened_all inv idle root
    have frees := sweepopen_frees inv.shape root
    simp only
    generalize g.sweepopen curr = g₁ at opened frees ⊢
    have inv₁ := opened.inv (waits g₁)
    have idle₁ : g₁.gcstate ≠ .propagate := by rw [opened.gcstate]; exact idle
    have root₁ : curr ∈ g₁.rootgc := by rw [opened.rootgc]; exact root
    have next₁ : after g₁.sweepgc g₁.rootgc = curr :: rest := by rw [opened.rootgc, opened.sweepgc, next]
    by_cases condemned : g₁.condemned curr = true
    · rw [if_pos condemned]
      have plain : (∀ th, curr ≠ .thread th) → Frees g (without curr g₁) ∧ unswept (without curr g₁) < unswept g :=
        fun notThread => removed_unswept frees inv₁.shape root₁ fun th same => absurd same (notThread th)
      suffices both : Frees g ({ g₁ with rootgc := g₁.rootgc.erase curr }.freeobj curr) ∧
          unswept ({ g₁ with rootgc := g₁.rootgc.erase curr }.freeobj curr) < unswept g from ⟨both.1, fun _ => both.2⟩
      cases curr with
      | thread th =>
        have commutes : freeobj { g₁ with rootgc := g₁.rootgc.erase (.thread th) } (.thread th) =
            without (.thread th) (g₁.luaFClose th 0) := closeFrom_without idle₁ rfl
        rw [commutes]
        obtain ⟨closed, closes, emptied⟩ := luaFClose_invariant 0 inv₁ root₁
        refine removed_unswept (frees.trans (closeFrom_frees inv₁ idle₁ root₁ rfl)) closed.shape (closes.root root₁) ?_
        intro th' same
        cases same
        exact emptied rfl
      | upval uv =>
        have owned : (g₁.heap.upvals uv).v = .own := inv₁.shape.closed uv root₁
        have same : freeobj { g₁ with rootgc := g₁.rootgc.erase (.upval uv) } (.upval uv) = without (.upval uv) g₁ := by
          show luaFFreeupval { g₁ with rootgc := g₁.rootgc.erase (.upval uv) } uv = _
          unfold luaFFreeupval
          rw [if_pos owned]
          rfl
        rw [same]
        exact plain (by simp)
      | string ts => exact plain (by simp)
      | table h => exact plain (by simp)
      | function cl => exact plain (by simp)
      | userdata u => exact plain (by simp)
      | proto f => exact plain (by simp)
    · rw [if_neg condemned]
      have whitened := makewhite_frees inv₁.shape.white (by simpa using condemned)
      have both := frees.trans whitened
      have advanced : Frees g { g₁.makewhite curr with sweepgc := some curr } :=
        ⟨both.stays, both.objects, both.flags, both.roots, both.refs, both.heap, both.tmname⟩
      refine ⟨advanced, fun _ => ?_⟩
      have fewer := frees.length inv₁.shape.nodup
      have later : after (some curr) g₁.rootgc = rest := after_next (rootgc_nodup inv₁.shape) next₁
      have shorter : (after (some curr) g₁.rootgc).length < (after g.sweepgc g.rootgc).length := by
        rw [later, next, List.length_cons]
        exact Nat.lt_succ_self _
      show toLex (g₁.objects.length, (after (some curr) g₁.rootgc).length) < unswept g
      rw [unswept, Prod.Lex.toLex_lt_toLex]
      rcases Nat.lt_or_eq_of_le fewer with less | same
      · exact .inl less
      · exact .inr ⟨same, shorter⟩

-- there is nothing left to sweep
theorem sweeplist_done (count : Nat) (done : after g.sweepgc g.rootgc = []) : sweeplist count g = g := by
  have still : g.sweepone = g := by
    unfold sweepone
    rw [done]
  induction count with
  | zero => rfl
  | succ count ih =>
    unfold sweeplist
    rw [still]
    exact ih

theorem sweeplist_frees (count : Nat) (inv : Invariant (waits g) g) (state : g.gcstate = .sweep) :
    Frees g (sweeplist count g) ∧ unswept (sweeplist count g) ≤ unswept g ∧
      (0 < count → after g.sweepgc g.rootgc ≠ [] → unswept (sweeplist count g) < unswept g) := by
  induction count generalizing g with
  | zero => exact ⟨.refl g, le_refl _, fun none => absurd none (Nat.lt_irrefl 0)⟩
  | succ count ih =>
    obtain ⟨inv', state'⟩ := sweepone_invariant inv state
    obtain ⟨first, less⟩ := sweepone_frees inv state
    obtain ⟨rest, le, -⟩ := ih inv' state'
    unfold sweeplist
    refine ⟨first.trans rest, ?_, fun _ more => lt_of_le_of_lt le (less more)⟩
    by_cases done : after g.sweepgc g.rootgc = []
    · have still : sweeplist count g.sweepone = g := sweeplist_done (count + 1) done
      rw [still]
    · exact le.trans (less done).le

/-! ## Rounds of the collector -/

/-- A step of the sweep frees objects, and leaves less to do. -/
theorem sweep_round (inv : Invariant (waits g) g) (state : g.gcstate = .sweepstring ∨ g.gcstate = .sweep) :
    Frees g g.singlestep ∧ variant g.singlestep < variant g ∧
      (g.singlestep.gcstate = .sweepstring ∨ g.singlestep.gcstate = .sweep ∨ g.singlestep.gcstate = .finalize) := by
  have white := inv.shape.white
  cases state with
  | inl state =>
    have frees := fun gcstate => frees_of_sweeps white (sweepchain_sweeps gcstate inv.shape rfl)
    unfold singlestep
    simp only [state]
    rw [sweepchain_eq (chain_nodup inv.shape).2]
    simp only
    split
    next last =>
      refine ⟨frees .sweep, ?_, .inr (.inl rfl)⟩
      simp only [variant, state]
      exact Prod.Lex.toLex_lt_toLex.mpr (.inl (by omega))
    next more =>
      rw [List.length_set] at more
      have frees' := frees .sweepstring
      rw [← state] at frees'
      refine ⟨frees', ?_, .inl state⟩
      simp only [variant, state, List.length_set]
      exact Prod.Lex.toLex_lt_toLex.mpr (.inr ⟨rfl, Prod.Lex.toLex_lt_toLex.mpr (.inl (by omega))⟩)
  | inr state =>
    obtain ⟨swept, still⟩ := sweeplist_invariant gcsweepmax inv state
    obtain ⟨frees, -, less⟩ := sweeplist_frees gcsweepmax inv state
    unfold singlestep
    simp only [state]
    split
    next done =>
      obtain ⟨hash, same⟩ := checkSizes_frame (g := sweeplist gcsweepmax g)
      have objects : ∀ o ∈ (sweeplist gcsweepmax g).checkSizes.objects, o ∈ (sweeplist gcsweepmax g).objects := fun o object => by
        unfold checkSizes at object
        split at object
        next shrinks =>
          obtain ⟨newhash, resized, perm, -⟩ := luaSResize_perm (g := sweeplist gcsweepmax g)
            ((sweeplist gcsweepmax g).hash.length / 2) (by
              have positive : 0 < minstrtabsize := by decide
              omega)
          rw [resized] at object
          exact (rehash_objects perm).mem_iff.mp object
        next => exact object
      rw [same] at objects ⊢
      refine ⟨frees.trans ⟨fun o stays => ⟨objects o stays.1, stays.2⟩, objects, fun _ => rfl, rfl, fun _ => rfl, ⟨_, rfl⟩, rfl⟩,
        ?_, .inr (.inr rfl)⟩
      simp only [variant, state]
      exact Prod.Lex.toLex_lt_toLex.mpr (.inl (by omega))
    next more =>
      have more' : after g.sweepgc g.rootgc ≠ [] := fun none => by
        rw [sweeplist_done gcsweepmax none] at more
        exact more none
      refine ⟨frees, ?_, .inr (.inl still)⟩
      simp only [variant, state, still]
      exact Prod.Lex.toLex_lt_toLex.mpr (.inr ⟨rfl, less (by decide) more'⟩)

/-- A collection that has only got to what is in the set. -/
structure Collecting (S : GCObject → Prop) (g : GlobalState) : Prop where
  inv : Invariant (waits g) g
  marks : g.gcstate = .propagate → Within S g
  kept : g.gcstate ≠ .propagate → ∀ o, Stays g o → S o
  begun : g.gcstate ≠ .pause

theorem collecting_round (collecting : Collecting S g) (going : g.gcstate ≠ .finalize) :
    Collecting S g.singlestep ∧ variant g.singlestep < variant g := by
  have inv := collecting.inv
  have next := singlestep_invariant inv
  have swept : g.gcstate = .sweepstring ∨ g.gcstate = .sweep →
      Collecting S g.singlestep ∧ variant g.singlestep < variant g := fun state => by
    obtain ⟨frees, less, phase⟩ := sweep_round inv state
    have idle : g.gcstate ≠ .propagate := by
      rcases state with state | state <;> simp [state]
    refine ⟨⟨next, fun marks => ?_, fun _ o stays => collecting.kept idle o (frees.stays o stays), ?_⟩, less⟩
    · rcases phase with phase | phase | phase <;> simp [phase] at marks
    · rcases phase with phase | phase | phase <;> simp [phase]
  cases state : g.gcstate with
  | pause => exact absurd state collecting.begun
  | propagate =>
    have within := collecting.marks state
    by_cases done : g.gray = []
    · have result : g.singlestep = g.atomic := by
        unfold singlestep
        simp [state, done]
      have phase : g.atomic.gcstate = .sweepstring := rfl
      rw [result] at next ⊢
      refine ⟨⟨next, fun marks => ?_, fun _ => (atomic_kept inv state within).1, ?_⟩, ?_⟩
      · rw [phase] at marks
        cases marks
      · rw [phase]
        decide
      · simp only [variant, state, phase]
        exact Prod.Lex.toLex_lt_toLex.mpr (.inl (by omega))
    · have result : g.singlestep = g.propagatemark := by
        unfold singlestep
        simp [state, done]
      have phase := (propagatemark_invariant inv state done).2
      have marking := inv.marking state
      have ready := Shape.markReady inv.shape (marking.referring inv.sound)
      have step := propagatemark_propagated ready.white ready.markable marking
        (fun th object => ready.unblackened _ object (.inl ⟨th, rfl⟩)) done
      rw [result] at next ⊢
      refine ⟨⟨next, fun _ => propagatemark_within within, fun idle => absurd phase idle, ?_⟩, ?_⟩
      · rw [phase]
        decide
      · simp only [variant, state, phase]
        exact Prod.Lex.toLex_lt_toLex.mpr (.inr ⟨rfl, Prod.Lex.toLex_lt_toLex.mpr (.inl (step.less inv.shape.nodup))⟩)
  | sweepstring => exact swept (.inl state)
  | sweep => exact swept (.inr state)
  | finalize => exact absurd state going

theorem wellFounded_variant : WellFounded (fun a b : Nat ×ₗ Nat ×ₗ Nat => a < b) := wellFounded_lt

/-- The marks of a collection are swept in the end. -/
theorem finishSweep_kept (collecting : Collecting S g) : ∃ rounds g', g.finishSweep rounds = some g' ∧
    Invariant (waits g') g' ∧ g'.gcstate = .finalize ∧ ∀ o ∈ g'.objects, S o := by
  obtain ⟨rounds, g', ended, collected, done⟩ := whileLoop_total (fun g => g.gcstate != .finalize)
    (Collecting S) wellFounded_variant variant (fun g collecting going => collecting_round collecting (by simpa using going)) collecting
  have state : g'.gcstate = .finalize := by simpa using done
  refine ⟨rounds, g', ended, collected.inv, state, fun o object => ?_⟩
  have unmarked := Invariant.unmarked collected.inv (.inr state) o object
  exact collected.kept (by rw [state]; decide) o ⟨object, spared_of_alive collected.inv.shape.white unmarked.alive⟩

/-- A sweep that is finished first changes nothing that is wanted. -/
theorem finishSweep_frees (inv : Invariant (waits g) g)
    (state : g.gcstate = .sweepstring ∨ g.gcstate = .sweep ∨ g.gcstate = .finalize) : ∃ rounds g',
    g.finishSweep rounds = some g' ∧ Invariant (waits g') g' ∧ g'.gcstate = .finalize ∧ Frees g g' := by
  obtain ⟨rounds, g', ended, ⟨inv', -, frees⟩, done⟩ := whileLoop_total (fun g => g.gcstate != .finalize)
    (fun g' => Invariant (waits g') g' ∧
      (g'.gcstate = .sweepstring ∨ g'.gcstate = .sweep ∨ g'.gcstate = .finalize) ∧ Frees g g') wellFounded_variant variant
    (fun g' held going => by
      obtain ⟨inv', state', frees⟩ := held
      have unfinished : g'.gcstate ≠ .finalize := by simpa using going
      obtain ⟨frees', less, next⟩ := sweep_round inv' (by tauto)
      exact ⟨⟨singlestep_invariant inv', next, frees.trans frees'⟩, less⟩) ⟨inv, state, .refl g⟩
  exact ⟨rounds, g', ended, inv', by simpa using done, frees⟩

/-! ## Keys that are there once -/

/-- No table has a string twice for a key. -/
def AllMapped (g : GlobalState) : Prop := ∀ h, Mapped (g.heap.tables h).node

theorem AllMapped.setTable {h : Nat} {t : Table} (mapped : AllMapped g) (new : Mapped t.node) : AllMapped (g.setTable h t) := by
  intro h'
  by_cases here : h' = h
  · subst here
    rw [setTable_self]
    exact new
  · rw [setTable_other here]
    exact mapped h'

theorem within_all (white : White g) (shape : Shape g) (mapped : AllMapped g) : Within (fun _ => True) g :=
  ⟨white, fun _ _ => trivial, fun _ _ => trivial, fun _ _ _ _ => trivial, fun _ _ _ => trivial, mapped,
    fun _ mem => (shape.uvhead_object mem).1, fun _ _ _ => trivial, fun _ _ => trivial⟩

theorem gctm_tables : g.gctm.heap.tables = g.heap.tables := by
  unfold gctm
  split
  · rfl
  · simp only
    split <;> rfl

theorem singlestep_mapped (inv : Invariant (waits g) g) (mapped : AllMapped g) : AllMapped g.singlestep := by
  have within := within_all inv.shape.white inv.shape mapped
  have swept : g.gcstate = .sweepstring ∨ g.gcstate = .sweep → AllMapped g.singlestep := fun state => by
    obtain ⟨upvals, heap⟩ := (sweep_round inv state).1.heap
    unfold AllMapped
    rw [heap]
    exact mapped
  cases state : g.gcstate with
  | pause =>
    have result : g.singlestep = g.markroot := by simp [singlestep, state]
    rw [result]
    exact (markroot_within within).mapped
  | propagate =>
    by_cases done : g.gray = []
    · have result : g.singlestep = g.atomic := by simp [singlestep, state, done]
      rw [result]
      exact (atomic_kept inv state within).2
    · have result : g.singlestep = g.propagatemark := by simp [singlestep, state, done]
      rw [result]
      exact (propagatemark_within within).mapped
  | sweepstring => exact swept (.inl state)
  | sweep => exact swept (.inr state)
  | finalize =>
    by_cases done : g.tmudata = []
    · have result : g.singlestep = { g with gcstate := .pause } := by simp [singlestep, state, done]
      rw [result]
      exact mapped
    · have result : g.singlestep = g.gctm := by simp [singlestep, state, done]
      unfold AllMapped
      rw [result, gctm_tables]
      exact mapped

theorem barrier_tables (new : Option GCObject) : (barrier g o new).heap = g.heap := by
  cases new with
  | none => rfl
  | some v =>
    show (g.luaCObjbarrier o v).heap = g.heap
    unfold luaCObjbarrier luaCBarrierf
    split
    · split
      · obtain ⟨_, _, same⟩ := reallymarkobject_remarks (g := g) v
        rw [same]
      · rfl
    · rfl

theorem mapped_setkey {node : List Node} {i : Nat} {key : TValue} (mapped : Mapped node)
    (new : ∀ n ∈ node, n.key ≠ key) : Mapped (node.modify i fun n => { n with key }) := by
  induction node generalizing i with
  | nil => simpa using mapped
  | cons n ns ih =>
    obtain ⟨distinct, mapped'⟩ := List.pairwise_cons.mp mapped
    cases i with
    | zero =>
      rw [List.modify_zero_cons]
      refine List.pairwise_cons.mpr ⟨fun n' mem ts isKey isKey' => ?_, mapped'⟩
      exact new n' (List.mem_cons_of_mem _ mem) (isKey'.trans isKey.symm)
    | succ i =>
      rw [List.modify_succ_cons]
      have rest := ih (i := i) mapped' fun n' mem => new n' (List.mem_cons_of_mem _ mem)
      refine List.pairwise_cons.mpr ⟨fun n' mem ts isKey isKey' => ?_, rest⟩
      rcases mem_modify mem with old | ⟨n'', -, rfl⟩
      · exact distinct n' old ts isKey isKey'
      · exact new n (List.mem_cons_self ..) (isKey.trans isKey'.symm)

theorem mapped_setval {node : List Node} {i : Nat} {v : TValue} (mapped : Mapped node) :
    Mapped (node.modify i fun n => { n with val := v }) := by
  have keys : ∀ (node : List Node) (i : Nat), (node.modify i fun n => { n with val := v }).map (·.key) = node.map (·.key) := by
    intro node
    induction node with
    | nil => simp
    | cons n ns ih =>
      intro i
      cases i with
      | zero => simp
      | succ i => simp [ih]
  unfold Mapped at mapped ⊢
  rw [← List.pairwise_map (f := fun n : Node => n.key) (R := fun k k' => ∀ ts, k = .string ts → k' ≠ .string ts)] at mapped ⊢
  rw [keys]
  exact mapped

theorem AllMapped.same (mapped : AllMapped g) (same : g'.heap.tables = g.heap.tables) : AllMapped g' := by
  unfold AllMapped
  rw [same]
  exact mapped

theorem settable_mapped {h : Nat} {slot : Slot} {key v : TValue} (mapped : AllMapped g)
    (legal : Legal g (.settable h slot key v)) : AllMapped (g.settable h slot key v) := by
  cases slot with
  | array i =>
    simp only [settable, luaCBarriert_eq]
    exact AllMapped.same (g := g.setTable h { g.heap.tables h with array := (g.heap.tables h).array.set i v })
      (mapped.setTable (mapped h)) (by rw [barriert_kept.1])
  | node i =>
    have new := legal.2.2.2
    simp only at new
    simp only [settable, luaCBarriert_eq]
    have keyed : AllMapped (if ((g.heap.tables h).node.getD i ⟨.nil, .nil⟩).key = key then g
        else barriert (g.setTable h { g.heap.tables h with
          node := (g.heap.tables h).node.modify i fun n => { n with key } }) h (gcvalue key)) := by
      split
      next => exact mapped
      next other =>
        refine AllMapped.same (g := g.setTable h _) (mapped.setTable ?_) (by rw [barriert_kept.1])
        cases inside : (g.heap.tables h).node[i]? with
        | none =>
          rw [List.modify_eq_self (by simpa using inside)]
          exact mapped h
        | some n =>
          rw [inside] at new
          refine mapped_setkey (mapped h) (new n rfl ?_).2
          simpa [List.getD, inside] using other
    generalize (if ((g.heap.tables h).node.getD i ⟨.nil, .nil⟩).key = key then g
      else barriert (g.setTable h { g.heap.tables h with
        node := (g.heap.tables h).node.modify i fun n => { n with key } }) h (gcvalue key)) = g₁ at keyed ⊢
    exact (keyed.setTable (mapped_setval (keyed h))).same (by rw [barriert_kept.1])

/-! ### What leaves the tables alone -/

theorem luaSNewlstr_tables {str : List UInt8} {ts : Nat} : (g.luaSNewlstr str ts).2.heap.tables = g.heap.tables := by
  unfold luaSNewlstr
  split
  · simp only
    split <;> rfl
  · simp only
    unfold newlstr luaSResize
    simp only
    split
    · split <;> rfl
    · rfl

theorem capture_tables {cs : List Capture} : (capture th g cs).2.heap.tables = g.heap.tables := by
  induction cs generalizing g with
  | nil => rfl
  | cons c cs ih =>
    rw [NewObjects.capture_cons]
    simp only
    rw [ih]
    cases c with
    | upval uv => rfl
    | new uv => rfl
    | slot level uv =>
      show (g.luaFFindupval th level uv).2.heap.tables = g.heap.tables
      unfold luaFFindupval
      simp only
      split
      · simp only
        split <;> rfl
      · rfl

theorem setderef_tables {v : TValue} : (g.setderef uv v).heap.tables = g.heap.tables := by
  unfold setderef
  split <;> rfl

theorem store_tables {s : Store} : (g.store s).heap.tables = g.heap.tables := by
  have barriers : ∀ {g : GlobalState} {o v}, (g.luaCObjbarrier o v).heap = g.heap := fun {g o v} =>
    barrier_tables (g := g) (o := o) (some v)
  cases s with
  | udataMetatable u mt =>
    cases mt with
    | none => rfl
    | some h => simp only [GlobalState.store, barriers]; rfl
  | closureEnv cl h => simp only [GlobalState.store, barriers]; rfl
  | udataEnv u h => simp only [GlobalState.store, barriers]; rfl
  | protoInner f i f' => simp only [GlobalState.store, barriers]; rfl
  | protoUpvalue f i ts => simp only [GlobalState.store, barriers]; rfl
  | protoLocvar f i ts => simp only [GlobalState.store, barriers]; rfl
  | cUpvalue cl i v => simp only [GlobalState.store, luaCBarrier_eq, barrier_tables]; rfl
  | threadGt th v => simp only [GlobalState.store, luaCBarrier_eq, barrier_tables]; rfl
  | setupval uv v => simp only [GlobalState.store, luaCBarrier_eq, barrier_tables, setderef_tables]
  | luaSetupvalue cl uv v => simp only [GlobalState.store, luaCBarrier_eq, barrier_tables, setderef_tables]
  | protoConstant f i v => simp only [GlobalState.store, luaCBarrier_eq, barrier_tables]; rfl

theorem mapped_replicate (nhash : Nat) : Mapped (List.replicate nhash ⟨.nil, .nil⟩) := by
  refine List.pairwise_replicate.mpr (.inr fun ts isKey => ?_)
  cases isKey

/-- Every step of a run keeps the keys of tables apart. -/
theorem exec_mapped {e : Event} (inv : Invariant (waits g) g) (mapped : AllMapped g) (legal : Legal g e) :
    AllMapped (exec g e) := by
  cases e with
  | singlestep => exact singlestep_mapped inv mapped
  | resetSweep =>
    refine mapped.same ?_
    show g.resetSweep.heap.tables = _
    unfold resetSweep
    split <;> rfl
  | markroot => exact (markroot_within (within_all inv.shape.white inv.shape mapped)).mapped
  | enter th n isLua => cases isLua <;> exact mapped
  | newlstr th slot str ts => exact mapped.same luaSNewlstr_tables
  | newtable th slot narray nhash h => exact (mapped.setTable (mapped_replicate nhash)).same rfl
  | newLclosure th slot env cl p captures => exact mapped.same capture_tables
  | settable h slot key v => exact settable_mapped mapped legal
  | rehash h array node => exact mapped.setTable legal.2.2.2
  | tableMetatable h mt =>
    have written : AllMapped (g.setTable h { g.heap.tables h with metatable := mt }) := mapped.setTable (mapped h)
    cases mt with
    | none => exact written
    | some h' =>
      refine written.same ?_
      show (barriert (g.setTable h { g.heap.tables h with metatable := some h' }) h (some (.table h'))).heap.tables = _
      rw [barriert_kept.1]
  | store s => exact mapped.same store_tables
  | close th level =>
    obtain ⟨_, _, _, _, _, _, same⟩ := (luaFClose_invariant level inv (NewObjects.thread_root (inv.held legal).1)).2.1.rest
    refine mapped.same ?_
    show (g.luaFClose th level).heap.tables = _
    rw [same]
  | _ => exact mapped

theorem luaNewstate_mapped : AllMapped luaNewstate := by
  obtain ⟨strings, marked, hash, same⟩ := luaNewstate_booted.frame
  have none : AllMapped preinitState := fun h => List.Pairwise.nil
  have globals : AllMapped (preinitState.luaHNew 0 2 0) := (none.setTable (mapped_replicate 2)).same rfl
  have registry : AllMapped unnamed := (globals.setTable (mapped_replicate 2)).same rfl
  rw [same]
  exact registry.same rfl

/-- Every state of a run has the invariant, and the keys of its tables apart. -/
theorem run_mapped {events : List Event} (meets : runtime.Meets Legal luaNewstate events)
    (reaches : runtime.run luaNewstate events = some g) : Invariant (waits g) g ∧ AllMapped g := by
  have step : ∀ g e g', (Invariant (waits g) g ∧ AllMapped g) → Legal g e → runtime.step g e = some g' →
      Invariant (waits g') g' ∧ AllMapped g' := by
    intro g e g' holds legal stepped
    cases stepped
    exact ⟨exec_invariant holds.1 legal, exec_mapped holds.1 holds.2 legal⟩
  exact runtime.invariant_of_meets step ⟨luaNewstate_booted.inv, luaNewstate_mapped⟩ meets reaches

/-! ## `luaC_fullgc` -/

/-- What a collection keeps: what is wanted, and what is fixed. -/
def Keeps (g : GlobalState) (o : GCObject) : Prop := g.Wanted o ∨ (o ∈ g.objects ∧ g.marked o &&& fixedbit ≠ 0)

theorem keeps_closed (shape : Shape g) (keeps : Keeps g o) (ref : r ∈ g.strongRefs o) : Keeps g r := by
  rcases keeps with wanted | ⟨object, isFixed⟩
  · exact .inl (.child wanted ref)
  · rcases shape.fixed o object isFixed with ⟨ts, rfl⟩ | rfl
    · cases ref
    · exact .inl (.child (.root (.inl (by simp [GlobalState.roots]))) ref)

/-- Nothing is marked before the mark phase starts. -/
theorem markroot_collecting (inv : Invariant (waits g) g) (frees : Frees g g') (inv' : Invariant (waits g') g')
    (state : g'.gcstate = .finalize) (mapped : AllMapped g) : Collecting (Keeps g) g'.markroot := by
  have roots : ∀ o ∈ g'.roots, Keeps g o := fun o root => .inl (.root (.inl (frees.roots ▸ root)))
  have tables : AllMapped g' := by
    obtain ⟨upvals, heap⟩ := frees.heap
    exact mapped.same (by rw [heap])
  have within : Within (Keeps g) { g' with gray := [], grayagain := [], weak := [] } := by
    refine ⟨inv'.shape.white, roots, fun o finalizable => .inl (.root (.inr (frees.finalizable finalizable))),
      fun o keeps r ref => keeps_closed inv.shape keeps (frees.strongRefs (o := o) ▸ ref), fun o object isFixed => .inr ?_,
      tables, fun uv mem => (inv'.shape.uvhead_object mem).1, fun o object nonwhite => ?_, fun o mem => by cases mem⟩
    · exact ⟨frees.objects o object, by rw [← fixed_of_flags (frees.flags o)]; exact isFixed⟩
    · rcases Invariant.unmarked inv' (.inr state) o object with fresh | waiting
      · have white := fresh.1
        rw [show g'.iswhite o = false from nonwhite] at white
        cases white
      · obtain ⟨u, mem, rfl⟩ := waiting.1
        exact roots _ (by simp [GlobalState.roots, mem])
  have marked := markroot_within within
  have cleared : { g' with gray := [], grayagain := [], weak := [] }.markroot = g'.markroot := rfl
  rw [cleared] at marked
  exact ⟨markroot_invariant inv' (.inr state), fun _ => marked, fun idle => absurd rfl idle, by simp [markroot]⟩

theorem resetSweep_frees : Frees g g.resetSweep ∧
    (g.resetSweep.gcstate = .sweepstring ∨ g.resetSweep.gcstate = .sweep ∨ g.resetSweep.gcstate = .finalize) := by
  unfold resetSweep
  split
  next => exact ⟨⟨fun _ => id, fun _ => id, fun _ => rfl, rfl, fun _ => rfl, ⟨_, rfl⟩, rfl⟩, .inl rfl⟩
  next late =>
    refine ⟨.refl g, ?_⟩
    cases state : g.gcstate with
    | pause => exact absurd (.inl state) late
    | propagate => exact absurd (.inr state) late
    | _ => simp

/-- From any state of a run a full collection comes to its end, whatever phase it finds the collector in, and
nothing is left that is neither wanted nor fixed. -/
theorem luaCFullgc_collects {events : List Event} (meets : runtime.Meets Legal luaNewstate events)
    (reaches : runtime.run luaNewstate events = some g) : ∃ rounds g', g.luaCFullgc rounds = some g' ∧
      g'.gcstate = .finalize ∧ (∀ o, g'.Held o → o ∈ g'.objects) ∧
      ∀ o ∈ g'.objects, g.Wanted o ∨ g.marked o &&& fixedbit ≠ 0 := by
  obtain ⟨inv, mapped⟩ := run_mapped meets reaches
  obtain ⟨reset, state⟩ := resetSweep_frees (g := g)
  obtain ⟨rounds₁, g₁, ended₁, inv₁, state₁, frees⟩ := finishSweep_frees (resetSweep_invariant inv) state
  obtain ⟨rounds₂, g₂, ended₂, inv₂, state₂, kept⟩ := finishSweep_kept
    (markroot_collecting inv (reset.trans frees) inv₁ state₁ mapped)
  refine ⟨max rounds₁ rounds₂, g₂, ?_, state₂, fun o held => (inv₂.held held).1, fun o object => ?_⟩
  · unfold luaCFullgc
    have first : g.resetSweep.finishSweep (max rounds₁ rounds₂) = some g₁ := whileLoop_more ended₁ (le_max_left ..)
    have second : g₁.markroot.finishSweep (max rounds₁ rounds₂) = some g₂ := whileLoop_more ended₂ (le_max_right ..)
    rw [first, Option.bind_some, second]
  · exact (kept o object).imp id And.right

-- a collection that gives a mark phase up
theorem luaCFullgc_collects_marking : ∃ rounds g', luaNewstate.singlestep.luaCFullgc rounds = some g' ∧
    g'.gcstate = .finalize ∧ (∀ o, g'.Held o → o ∈ g'.objects) ∧
    ∀ o ∈ g'.objects, luaNewstate.singlestep.Wanted o ∨ luaNewstate.singlestep.marked o &&& fixedbit ≠ 0 :=
  luaCFullgc_collects (show runtime.Meets Legal luaNewstate [.singlestep] from ⟨trivial, fun _ _ => trivial⟩) rfl

end Lunatik.Verified.FullCollection
