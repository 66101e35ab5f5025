import Mathlib.Data.List.Lattice
import Lunatik.Verified.UpvalueSteps

/-! # The sweep

Each step of the sweep frees condemned objects only, and leaves the others white.  What is at the place where
the sweep stands is dealt with; what lies behind it is unswept.
-/

namespace Lunatik.Verified.SweepPhase

open Lunatik.Library
open Lunatik.Lua (GCState setAt setAt_same setAt_other)
open Lunatik.Lua.Gc Lunatik.Lua.Gc.GlobalState
open Lunatik.Lua.StringTable (whitebits blackbit fixedbit)
open Lunatik.Verified.Colours Lunatik.Verified.References Lunatik.Verified.Tricolor Lunatik.Verified.Propagation
open Lunatik.Verified.AtomicPhase Lunatik.Verified.CollectorInvariant Lunatik.Verified.UpvalueSteps

variable {pending more : GCObject → Prop} {g g' : GlobalState} {o : GCObject} {th uv : Nat}

/-! ## Whole lists -/

-- the marks after the objects of a list have been made white
def whiten (g : GlobalState) (os : List GCObject) : GCObject → BitVec 8 :=
  fun o => if o ∈ os then whitened g o else g.marked o

theorem whiten_cons {os : List GCObject} (absent : o ∉ os) : whiten (g.makewhite o) os = whiten g (o :: os) := by
  funext o'
  have white : (g.makewhite o).luaCWhite = g.luaCWhite := rfl
  have here : (g.makewhite o).marked o = whitened g o := setMark_self
  unfold whiten whitened
  rw [white]
  by_cases same : o' = o
  · rw [same, if_neg absent, if_pos (List.mem_cons_self ..), here]
    rfl
  · have other : (g.makewhite o).marked o' = g.marked o' := setMark_other same
    rw [other]
    simp [same]

theorem whiten_marks {os : List GCObject} (spared : ∀ o ∈ os, g.condemned o = false) (o : GCObject) :
    whiten g os o = g.marked o ∨ (g.condemned o = false ∧ whiten g os o = whitened g o) := by
  unfold whiten
  by_cases inside : o ∈ os
  · rw [if_pos inside]
    exact .inr ⟨spared o inside, rfl⟩
  · rw [if_neg inside]
    exact .inl rfl

/-- What `sweepwholelist` leaves of a list: the condemned objects are freed, the others white. -/
theorem sweepwholelist_eq {obj : Nat → GCObject} {l : List Nat} (free : List Nat → Nat → List Nat)
    (injective : Function.Injective obj)
    (frees : ∀ g' : GlobalState, g'.heap = g.heap → ∀ x ∈ l, g'.freeobj (obj x) = { g' with uvhead := free g'.uvhead x })
    (nodup : l.Nodup) : sweepwholelist obj g l = (l.filter fun x => !g.condemned (obj x),
      { g with
        marked := whiten g ((l.filter fun x => !g.condemned (obj x)).map obj)
        uvhead := (l.filter fun x => g.condemned (obj x)).foldl free g.uvhead }) := by
  induction l generalizing g with
  | nil => rfl
  | cons x l ih =>
    obtain ⟨absent, nodup'⟩ := List.nodup_cons.mp nodup
    have frees' : ∀ g' : GlobalState, g'.heap = g.heap → ∀ x ∈ l,
        g'.freeobj (obj x) = { g' with uvhead := free g'.uvhead x } :=
      fun g' same x mem => frees g' same x (List.mem_cons_of_mem _ mem)
    unfold sweepwholelist
    by_cases condemned : g.condemned (obj x) = true
    · rw [if_pos condemned, frees g rfl x (List.mem_cons_self ..)]
      refine (ih (g := { g with uvhead := free g.uvhead x }) frees' nodup').trans ?_
      simp only [List.filter_cons, condemned, Bool.not_true, Bool.false_eq_true, if_false, if_true, List.foldl_cons]
      rfl
    · have others : ∀ y ∈ l, (g.makewhite (obj x)).condemned (obj y) = g.condemned (obj y) := fun y mem => by
        have ne : obj y ≠ obj x := fun same => absent (injective same ▸ mem)
        unfold makewhite
        rw [setMark_condemned, if_neg ne]
      have kept : (l.filter fun y => !(g.makewhite (obj x)).condemned (obj y)) = l.filter fun y => !g.condemned (obj y) :=
        List.filter_congr fun y mem => by rw [others y mem]
      have gone : (l.filter fun y => (g.makewhite (obj x)).condemned (obj y)) = l.filter fun y => g.condemned (obj y) :=
        List.filter_congr others
      have absent' : obj x ∉ (l.filter fun y => !g.condemned (obj y)).map obj := fun mem => by
        obtain ⟨y, inside, same⟩ := List.mem_map.mp mem
        exact absent (injective same ▸ (List.mem_filter.mp inside).1)
      rw [if_neg condemned, ih (g := g.makewhite (obj x)) frees' nodup', kept, gone, whiten_cons absent']
      simp only [List.filter_cons, condemned, Bool.not_false, if_true, Bool.false_eq_true, if_false, List.map_cons]
      rfl

/-! ## The open upvalues of a thread -/

-- what sweepopen makes of the open upvalues
def kept (g : GlobalState) (th : Nat) : List Nat := (g.openupval th).filter fun uv => !g.condemned (.upval uv)

theorem sweepopen_eq (shape : Shape g) (root : .thread th ∈ g.rootgc) : g.sweepopen (.thread th) =
    { setOpenupval g th (kept g th) with
      marked := whiten g ((kept g th).map .upval)
      uvhead := g.uvhead.diff ((g.openupval th).filter fun uv => g.condemned (.upval uv)) } := by
  obtain ⟨others, split⟩ := objects_split (rootgc_nodup shape) root
  have here := split (g.openupval th)
  rw [setOpenupval_self] at here
  have nodup : (g.openupval th).Nodup := ((here.nodup_iff.mp shape.nodup).of_append_left).of_map _
  have frees : ∀ g' : GlobalState, g'.heap = g.heap → ∀ uv ∈ g.openupval th,
      g'.freeobj (.upval uv) = { g' with uvhead := g'.uvhead.erase uv } := fun g' same uv mem => by
    obtain ⟨slot, isOpen⟩ := shape.opened th uv root mem
    have unowned : ¬ (g'.heap.upvals uv).v = .own := by
      rw [same, isOpen]
      simp
    show g'.luaFFreeupval uv = _
    unfold luaFFreeupval
    rw [if_neg unowned]
    rfl
  have swept := sweepwholelist_eq List.erase (fun _ _ => GCObject.upval.inj) frees nodup
  unfold sweepopen
  simp only
  rw [swept, List.diff_eq_foldl]
  rfl

-- an upvalue is open in one thread only
theorem open_unique (shape : Shape g) {th' : Nat} (root : .thread th ∈ g.rootgc) (root' : .thread th' ∈ g.rootgc)
    (opened : uv ∈ g.openupval th) (opened' : uv ∈ g.openupval th') : th' = th := by
  by_contra ne
  obtain ⟨others, split⟩ := objects_split (rootgc_nodup shape) root
  have here := split (g.openupval th)
  rw [setOpenupval_self] at here
  have elsewhere : .upval uv ∈ (setOpenupval g th []).objects :=
    mem_objects.mpr (.inr (.inl ⟨th', uv, root', by simpa only [setOpenupval, setAt_other _ _ ne] using opened', rfl⟩))
  have inOthers : .upval uv ∈ others := by simpa using (split []).mem_iff.mp elsewhere
  have nodup := here.nodup_iff.mp shape.nodup
  exact (List.nodup_append.mp nodup).2.2 _ (List.mem_map_of_mem opened) _ inOthers rfl

theorem mem_kept : uv ∈ kept g th ↔ uv ∈ g.openupval th ∧ g.condemned (.upval uv) = false := by
  simp [kept]

theorem sweepopen_opened (shape : Shape g) (root : .thread th ∈ g.rootgc) {th' : Nat} (root' : .thread th' ∈ g.rootgc) :
    uv ∈ (setOpenupval g th (kept g th)).openupval th' ↔
      uv ∈ g.openupval th' ∧ ¬ (uv ∈ g.openupval th ∧ g.condemned (.upval uv) = true) := by
  by_cases here : th' = th
  · subst here
    simp only [setOpenupval, setAt_same, mem_kept]
    cases g.condemned (.upval uv) <;> simp
  · simp only [setOpenupval, setAt_other _ _ here]
    exact ⟨fun mem => ⟨mem, fun dead => here (open_unique shape root root' dead.1 mem)⟩, And.left⟩

theorem sweepopen_sweeps (shape : Shape g) (root : .thread th ∈ g.rootgc) : Sweeps g (g.sweepopen (.thread th)) := by
  obtain ⟨others, split⟩ := objects_split (rootgc_nodup shape) root
  have before := split (g.openupval th)
  rw [setOpenupval_self] at before
  have later := split (kept g th)
  have sub : ((kept g th).map GCObject.upval ++ others).Sublist ((g.openupval th).map GCObject.upval ++ others) :=
    (List.filter_sublist.map _).append (List.Sublist.refl _)
  rw [sweepopen_eq shape root]
  have spared : ∀ o ∈ (kept g th).map GCObject.upval, g.condemned o = false := fun o mem => by
    obtain ⟨uv, isKept, rfl⟩ := List.mem_map.mp mem
    exact (mem_kept.mp isKept).2
  refine
    { rest := ⟨_, _, _, _, _, _, _, _, rfl⟩
      nodup := later.nodup_iff.mpr ((before.nodup_iff.mp shape.nodup).sublist sub)
      objects := fun o object => before.mem_iff.mpr (sub.subset (later.mem_iff.mp object))
      freed := fun o object gone => ?_
      rootgc := fun o => id
      main := shape.main
      opened := fun th' uv mem => ?_
      uvhead := fun uv => ?_
      distinct := shape.distinct.diff
      marks := whiten_marks spared }
  · cases List.mem_append.mp (before.mem_iff.mp object) with
    | inr other => exact absurd (later.mem_iff.mpr (List.mem_append_right _ other)) gone
    | inl opened =>
      obtain ⟨uv, isOpen, rfl⟩ := List.mem_map.mp opened
      cases condemned : g.condemned (.upval uv) with
      | true => rfl
      | false =>
        have isKept := List.mem_map_of_mem (f := GCObject.upval) (mem_kept.mpr ⟨isOpen, condemned⟩)
        exact absurd (later.mem_iff.mpr (List.mem_append_left _ isKept)) gone
  · by_cases here : th' = th
    · subst here
      simp only [setOpenupval, setAt_same] at mem
      exact (mem_kept.mp mem).1
    · simpa only [setOpenupval, setAt_other _ _ here] using mem
  · rw [shape.distinct.mem_sdiff_iff, shape.uvhead uv, List.mem_filter]
    constructor
    · intro inside
      obtain ⟨⟨th', root', opened⟩, alive⟩ := inside
      exact ⟨th', root', (sweepopen_opened shape root root').mpr ⟨opened, alive⟩⟩
    · intro inside
      obtain ⟨th', root', opened⟩ := inside
      obtain ⟨opened', alive⟩ := (sweepopen_opened shape root root').mp opened
      exact ⟨⟨th', root', opened'⟩, alive⟩

/-- What `sweepopen` keeps is white, and the lists of objects stay. -/
structure Opened (g g' : GlobalState) (curr : GCObject) : Prop where
  inv : ∀ more : GCObject → Prop, Invariant more g'
  rootgc : g'.rootgc = g.rootgc
  sweepgc : g'.sweepgc = g.sweepgc
  gcstate : g'.gcstate = g.gcstate
  waiting : waits g' = waits g
  condemned : isUpval curr = false → g'.condemned curr = g.condemned curr
  opened : ∀ th, curr = .thread th → ∀ uv ∈ g'.openupval th, Fresh g' (.upval uv)

theorem sweepopen_opened_all (inv : Invariant pending g) (idle : g.gcstate ≠ .propagate) (root : o ∈ g.rootgc) :
    Opened g (g.sweepopen o) o := by
  have self : (∀ th, o ≠ .thread th) → Opened g g o := fun notThread =>
    ⟨fun _ => inv.idle idle, rfl, rfl, rfl, rfl, fun _ => rfl, fun th same => absurd same (notThread th)⟩
  cases o with
  | thread th =>
    have sweeps := sweepopen_sweeps inv.shape root
    have unswept : ∀ o ∈ (g.sweepopen (.thread th)).objects, Unswept g o →
        Fresh (g.sweepopen (.thread th)) o ∨ Unswept (g.sweepopen (.thread th)) o := by
      intro o object isUnswept
      refine .inr ?_
      have opened : ∀ th' uv, uv ∈ g.openupval th' ∧ ¬ (uv ∈ g.openupval th ∧ g.condemned (.upval uv) = true) →
          .thread th' ∈ g.rootgc → uv ∈ (setOpenupval g th (kept g th)).openupval th' :=
        fun th' uv mem root' => (sweepopen_opened inv.shape root root').mpr mem
      rw [sweepopen_eq inv.shape root] at object ⊢
      refine isUnswept.imp id (.imp id (.imp id ?_))
      rintro ⟨th', uv, behind, isOpen, rfl⟩
      refine ⟨th', uv, behind, opened th' uv ⟨isOpen, fun dead => ?_⟩ (mem_after behind), rfl⟩
      -- it would have been freed
      obtain ⟨others, split⟩ := objects_split (rootgc_nodup inv.shape) root
      have before := split (g.openupval th)
      rw [setOpenupval_self] at before
      have later := (split (kept g th)).mem_iff.mp object
      cases List.mem_append.mp later with
      | inl isKept =>
        obtain ⟨uv', mem, same⟩ := List.mem_map.mp isKept
        cases same
        rw [(mem_kept.mp mem).2] at dead
        cases dead.2
      | inr other =>
        have nodup := before.nodup_iff.mp inv.shape.nodup
        exact (List.nodup_append.mp nodup).2.2 _ (List.mem_map_of_mem dead.1) _ other rfl
    have white := inv.shape.white
    have all : ∀ more : GCObject → Prop, Invariant more (g.sweepopen (.thread th)) := fun more => by
      refine sweeps.invariant inv idle ?_ ?_ ?_ ?_ unswept
      all_goals rw [sweepopen_eq inv.shape root]
      · exact idle
      · exact inv.table
      · exact inv.sweepstring
      · exact inv.sweepgc
    have fresh := fun o changed => sweeps.fresh (o := o) white changed
    rw [sweepopen_eq inv.shape root] at all fresh ⊢
    refine ⟨all, rfl, rfl, rfl, rfl, fun _ => ?_, fun th' same uv mem => fresh _ ?_⟩
    · show condemnedMark _ (whiten g _ (.thread th)) = _
      have outside : GCObject.thread th ∉ (kept g th).map GCObject.upval := by simp
      unfold whiten
      rw [if_neg outside]
      rfl
    · cases same
      simp only [setOpenupval, setAt_same] at mem
      show whiten g _ (.upval uv) = _
      unfold whiten
      rw [if_pos (List.mem_map_of_mem mem)]
  | string ts => exact self (by simp)
  | table h => exact self (by simp)
  | function cl => exact self (by simp)
  | userdata u => exact self (by simp)
  | proto f => exact self (by simp)
  | upval uv => exact self (by simp)

/-! ## The place of the sweep -/

theorem after_cons {p curr : GCObject} {l : List GCObject} :
    after (some p) (curr :: l) = if curr = p then l else after (some p) l := by
  by_cases here : curr = p <;> simp [after, here]

theorem after_suffix (p : Option GCObject) (l : List GCObject) : after p l <:+ l := by
  cases p with
  | none => exact List.suffix_refl l
  | some p => exact (List.tail_suffix _).trans (List.dropWhile_suffix _)

/-- One object further. -/
theorem after_next {p : Option GCObject} {curr : GCObject} {l rest : List GCObject} (nodup : l.Nodup)
    (next : after p l = curr :: rest) : after (some curr) l = rest := by
  obtain ⟨before, split⟩ := after_suffix p l
  rw [next] at split
  rw [← split] at nodup ⊢
  clear next split
  induction before with
  | nil => simp [after]
  | cons x before ih =>
    rw [List.cons_append, List.nodup_cons] at nodup
    have ne : x ≠ curr := fun same => nodup.1 (by simp [same])
    rw [List.cons_append, after_cons, if_neg ne]
    exact ih nodup.2

theorem after_ne {p curr : GCObject} {l rest : List GCObject} (nodup : l.Nodup) (next : after (some p) l = curr :: rest) :
    p ≠ curr := by
  intro same
  induction l with
  | nil => simp [after] at next
  | cons x l ih =>
    rw [after_cons] at next
    rw [List.nodup_cons] at nodup
    by_cases here : x = p
    · rw [if_pos here] at next
      exact nodup.1 (by rw [next, here, same]; exact List.mem_cons_self ..)
    · rw [if_neg here] at next
      exact ih nodup.2 next

theorem mem_after_erase {p : Option GCObject} {curr : GCObject} {l : List GCObject} (other : ∀ q ∈ p, q ≠ curr)
    (mem : o ∈ after p l) (ne : o ≠ curr) : o ∈ after p (l.erase curr) := by
  cases p with
  | none => exact (List.mem_erase_of_ne ne).mpr mem
  | some p =>
    have different := other p rfl
    induction l with
    | nil => simp [after] at mem
    | cons x l ih =>
      rw [after_cons] at mem
      by_cases here : x = curr
      · rw [here, List.erase_cons_head]
        rwa [if_neg fun same => different (same.symm.trans here)] at mem
      · rw [List.erase_cons_tail (by simpa using here), after_cons]
        by_cases place : x = p
        · rw [if_pos place] at mem ⊢
          exact (List.mem_erase_of_ne ne).mpr mem
        · rw [if_neg place] at mem ⊢
          exact ih mem

/-! ## One object -/

theorem remove_objects (root : o ∈ g.rootgc) (closed : ∀ th, o = .thread th → g.openupval th = []) :
    g.objects.Perm (o :: (without o g).objects) := by
  have empty : g.openOf o = [] := by
    cases o with
    | thread th => simp [openOf, closed th rfl]
    | _ => rfl
  have roots : g.rootgc.Perm (o :: g.rootgc.erase o) := List.perm_cons_erase root
  have opened := roots.flatMap_right g.openOf
  rw [List.flatMap_cons, empty, List.nil_append] at opened
  exact ((roots.append opened).append_right _).append_right _

theorem remove_sweeps (shape : Shape g) (root : o ∈ g.rootgc) (condemned : g.condemned o = true)
    (notMain : o ≠ .thread g.mainthread) (closed : ∀ th, o = .thread th → g.openupval th = []) :
    Sweeps g (without o g) := by
  have split := remove_objects root closed
  refine
    { rest := ⟨_, _, _, _, _, _, _, _, rfl⟩
      nodup := (List.nodup_cons.mp (split.nodup_iff.mp shape.nodup)).2
      objects := fun o' object => split.mem_iff.mpr (List.mem_cons_of_mem _ object)
      freed := fun o' object gone => ?_
      rootgc := fun o' mem => List.mem_of_mem_erase mem
      main := (List.mem_erase_of_ne notMain.symm).mpr shape.main
      opened := fun _ _ => id
      uvhead := fun uv => (shape.uvhead uv).trans ⟨fun inside => ?_, fun inside => ?_⟩
      distinct := shape.distinct
      marks := fun _ => .inl rfl }
  · cases List.mem_cons.mp (split.mem_iff.mp object) with
    | inl here => exact here ▸ condemned
    | inr there => exact absurd there gone
  · obtain ⟨th, root', opened⟩ := inside
    refine ⟨th, (List.mem_erase_of_ne fun same => ?_).mpr root', opened⟩
    rw [closed th same.symm] at opened
    cases opened
  · obtain ⟨th, root', opened⟩ := inside
    exact ⟨th, List.mem_of_mem_erase root', opened⟩

/-- A condemned object leaves the list that has all. -/
theorem remove_invariant (inv : Invariant pending g) (idle : g.gcstate ≠ .propagate) (root : o ∈ g.rootgc)
    (condemned : g.condemned o = true) (place : ∀ q ∈ g.sweepgc, q ≠ o)
    (closed : ∀ th, o = .thread th → g.openupval th = []) : Invariant more (without o g) := by
  have notMain : o ≠ .thread g.mainthread := fun same => by
    have main := (inv.sound.roots (.thread g.mainthread) (by simp [roots])).2
    rw [same] at condemned
    rw [condemned_isdead inv.shape.white condemned] at main
    cases main
  have sweeps := remove_sweeps inv.shape root condemned notMain closed
  have gone := (List.nodup_cons.mp ((remove_objects root closed).nodup_iff.mp inv.shape.nodup)).1
  refine sweeps.invariant inv idle idle inv.table inv.sweepstring (fun p isPos => ?_) fun o' object unswept => .inr ?_
  · exact (List.mem_erase_of_ne (place p isPos)).mpr (inv.sweepgc p isPos)
  · refine unswept.imp id (.imp id (.imp (fun behind => ?_) ?_))
    · exact mem_after_erase place behind fun same => gone (same ▸ object)
    · rintro ⟨th, uv, behind, opened, rfl⟩
      refine ⟨th, uv, mem_after_erase place behind fun same => ?_, opened, rfl⟩
      rw [closed th same.symm] at opened
      cases opened

/-- The place of the sweep moves behind an object that it has made white. -/
theorem advance_invariant {curr : GCObject} {rest : List GCObject} (inv : Invariant pending g)
    (idle : g.gcstate = .sweep) (next : after g.sweepgc g.rootgc = curr :: rest) (spared : g.condemned curr = false)
    (opened : ∀ th, curr = .thread th → ∀ uv ∈ g.openupval th, Fresh g (.upval uv)) :
    Invariant more { g.makewhite curr with sweepgc := some curr } := by
  have root : curr ∈ g.rootgc := mem_after (next ▸ List.mem_cons_self ..)
  have later := after_next (rootgc_nodup inv.shape) next
  have marks : ∀ o, (g.makewhite curr).marked o = g.marked o ∨
      (g.condemned o = false ∧ (g.makewhite curr).marked o = whitened g o) := fun o => by
    by_cases here : o = curr
    · rw [here]
      exact .inr ⟨spared, setMark_self⟩
    · exact .inl (setMark_other here)
  have sweeps : Sweeps g { g.makewhite curr with sweepgc := some curr } :=
    { rest := ⟨_, _, _, _, _, _, _, _, rfl⟩
      nodup := inv.shape.nodup
      objects := fun _ => id
      freed := fun _ object gone => absurd object gone
      rootgc := fun _ => id
      main := inv.shape.main
      opened := fun _ _ => id
      uvhead := inv.shape.uvhead
      distinct := inv.shape.distinct
      marks }
  have white := inv.shape.white
  have marking : g.gcstate ≠ .propagate := by rw [idle]; decide
  refine sweeps.invariant inv marking marking inv.table (fun stringState => ?_) (fun p isPos => ?_) fun o object unswept => ?_
  · have state : g.gcstate = .sweepstring := stringState
    rw [idle] at state
    cases state
  · cases isPos
    exact root
  · have fresh : ∀ o, Fresh g o → Fresh { g.makewhite curr with sweepgc := some curr } o := fun o isFresh => by
      cases marks o with
      | inr changed => exact sweeps.fresh white changed.2
      | inl same =>
        unfold Fresh at isFresh ⊢
        rw [iswhite_eq, isdead_eq] at isFresh ⊢
        rw [sweeps.otherwhite]
        have same' : { g.makewhite curr with sweepgc := some curr }.marked o = g.marked o := same
        rw [same']
        exact isFresh
    rcases unswept with ⟨stringState, -⟩ | ⟨state, behind | ⟨th, uv, behind, isOpen, rfl⟩⟩
    · rw [idle] at stringState
      cases stringState
    · rw [next] at behind
      cases List.mem_cons.mp behind with
      | inl here =>
        rw [here]
        exact .inl (sweeps.fresh white setMark_self)
      | inr there => exact .inr (.inr ⟨state, .inl (later ▸ there)⟩)
    · rw [next] at behind
      cases List.mem_cons.mp behind with
      | inl here => exact .inl (fresh _ (opened th here.symm uv isOpen))
      | inr there => exact .inr (.inr ⟨state, .inr ⟨th, uv, later ▸ there, isOpen, rfl⟩⟩)

/-- A round of `sweeplist` keeps the invariant. -/
theorem sweepone_invariant (inv : Invariant (waits g) g) (idle : g.gcstate = .sweep) :
    Invariant (waits g.sweepone) g.sweepone ∧ g.sweepone.gcstate = .sweep := by
  have marking : g.gcstate ≠ .propagate := by rw [idle]; decide
  unfold sweepone
  split
  next => exact ⟨inv, idle⟩
  next curr rest next =>
    have root : curr ∈ g.rootgc := mem_after (next ▸ List.mem_cons_self ..)
    have opened := sweepopen_opened_all inv marking root
    simp only
    generalize g.sweepopen curr = g₁ at opened ⊢
    have inv₁ := opened.inv (waits g₁)
    have idle₁ := opened.gcstate.trans idle
    have marking₁ : g₁.gcstate ≠ .propagate := by rw [idle₁]; decide
    have next₁ : after g₁.sweepgc g₁.rootgc = curr :: rest := by rw [opened.rootgc, opened.sweepgc, next]
    have root₁ : curr ∈ g₁.rootgc := by rw [opened.rootgc]; exact root
    by_cases condemned : g₁.condemned curr = true
    · rw [if_pos condemned]
      have place : ∀ q ∈ g₁.sweepgc, q ≠ curr := fun q isPos => by
        rw [Option.mem_def] at isPos
        rw [isPos] at next₁
        exact after_ne (rootgc_nodup inv₁.shape) next₁
      have plain : (∀ th, curr ≠ .thread th) → Invariant (waits g₁) (without curr g₁) := fun notThread =>
        remove_invariant inv₁ marking₁ root₁ condemned place fun th same => absurd same (notThread th)
      cases curr with
      | thread th =>
        -- the upvalues of the thread are closed first
        have commutes : freeobj { g₁ with rootgc := g₁.rootgc.erase (.thread th) } (.thread th) =
            without (.thread th) (g₁.luaFClose th 0) := closeFrom_without marking₁ rfl
        rw [commutes]
        obtain ⟨closed, closes, emptied⟩ := luaFClose_invariant 0 inv₁ root₁
        have still : (g₁.luaFClose th 0).gcstate = g₁.gcstate ∧ (g₁.luaFClose th 0).sweepgc = g₁.sweepgc ∧
            (g₁.luaFClose th 0).otherwhite = g₁.otherwhite := by
          obtain ⟨_, _, _, _, _, _, same⟩ := closes.rest
          rw [same]
          exact ⟨rfl, rfl, rfl⟩
        have dead : (g₁.luaFClose th 0).condemned (.thread th) = true := by
          rw [condemned_eq, still.2.2, closes.idle marking₁ _ rfl, ← condemned_eq]
          exact condemned
        refine ⟨remove_invariant closed (still.1 ▸ marking₁) (closes.root root₁) dead (still.2.1 ▸ place) ?_, still.1.trans idle₁⟩
        intro th' same
        cases same
        exact emptied rfl
      | upval uv =>
        -- a collected upvalue is closed
        have owned : (g₁.heap.upvals uv).v = .own := inv₁.shape.closed uv root₁
        have same : freeobj { g₁ with rootgc := g₁.rootgc.erase (.upval uv) } (.upval uv) = without (.upval uv) g₁ := by
          show luaFFreeupval { g₁ with rootgc := g₁.rootgc.erase (.upval uv) } uv = _
          unfold luaFFreeupval
          rw [if_pos owned]
          rfl
        rw [same]
        exact ⟨plain (by simp), idle₁⟩
      | string ts => exact ⟨plain (by simp), idle₁⟩
      | table h => exact ⟨plain (by simp), idle₁⟩
      | function cl => exact ⟨plain (by simp), idle₁⟩
      | userdata u => exact ⟨plain (by simp), idle₁⟩
      | proto f => exact ⟨plain (by simp), idle₁⟩
    · rw [if_neg condemned]
      exact ⟨advance_invariant inv₁ idle₁ next₁ (by simpa using condemned) opened.opened, idle₁⟩

theorem sweeplist_invariant (count : Nat) (inv : Invariant (waits g) g) (idle : g.gcstate = .sweep) :
    Invariant (waits (sweeplist count g)) (sweeplist count g) ∧ (sweeplist count g).gcstate = .sweep := by
  induction count generalizing g with
  | zero => exact ⟨inv, idle⟩
  | succ count ih =>
    obtain ⟨inv', idle'⟩ := sweepone_invariant inv idle
    exact ih inv' idle'

end Lunatik.Verified.SweepPhase
