import Lunatik.Verified.CollectorInvariant

/-! # Closing upvalues

`luaF_close` takes the open upvalues of a thread one after another: a dead one is freed, and another one goes
to the collected objects with the value that it had.
-/

namespace Lunatik.Verified.UpvalueSteps

open Lunatik.Library
open Lunatik.Lua (GCState setAt setAt_same setAt_other)
open Lunatik.Lua.Gc Lunatik.Lua.Gc.GlobalState
open Lunatik.Lua.StringTable (whitebits blackbit fixedbit)
open Lunatik.Verified.Colours Lunatik.Verified.References Lunatik.Verified.Tricolor Lunatik.Verified.Propagation
open Lunatik.Verified.AtomicPhase Lunatik.Verified.CollectorInvariant

variable {pending more : GCObject → Prop} {g g' : GlobalState} {o : GCObject} {th uv : Nat} {next : List Nat}

/-! ## The lists -/

/-- The first open upvalue of a thread. -/
structure First (g : GlobalState) (th uv : Nat) (next : List Nat) : Prop where
  root : .thread th ∈ g.rootgc
  opened : g.openupval th = uv :: next

theorem setOpenupval_self : setOpenupval g th (g.openupval th) = g := by
  have same : setAt g.openupval th (g.openupval th) = g.openupval := by
    funext th'
    by_cases here : th' = th
    · rw [here, setAt_same]
    · rw [setAt_other _ _ here]
  unfold setOpenupval
  rw [same]

theorem rootgc_nodup (shape : Shape g) : g.rootgc.Nodup := by
  have nodup := shape.nodup
  unfold objects at nodup
  exact nodup.of_append_left.of_append_left.of_append_left

/-- The objects, with the open upvalues of one thread apart. -/
theorem objects_split (nodup : g.rootgc.Nodup) (root : .thread th ∈ g.rootgc) :
    ∃ others, ∀ l, (setOpenupval g th l).objects.Perm (l.map .upval ++ others) := by
  obtain ⟨before, behind, split⟩ := List.append_of_mem root
  refine ⟨g.rootgc ++ (before ++ behind).flatMap g.openOf ++ g.tmudata.map .userdata ++ g.hash.flatten.map .string,
    fun l => ?_⟩
  have unchanged : ∀ part : List GCObject, .thread th ∉ part →
      part.flatMap (setOpenupval g th l).openOf = part.flatMap g.openOf := by
    intro part absent
    refine List.flatMap_congr fun o mem => ?_
    cases o with
    | thread th' =>
      have ne : th' ≠ th := fun same => absent (same ▸ mem)
      simp only [openOf, setOpenupval, setAt_other _ _ ne]
    | _ => rfl
  rw [split, List.nodup_append] at nodup
  have absent : .thread th ∉ before := fun mem => nodup.2.2 _ mem _ (List.mem_cons_self ..) rfl
  have absent' : .thread th ∉ behind := (List.nodup_cons.mp nodup.2.1).1
  have here : (setOpenupval g th l).openOf (.thread th) = l.map .upval := by
    simp [openOf, setOpenupval]
  have opened : (g.rootgc.flatMap (setOpenupval g th l).openOf).Perm
      (l.map .upval ++ (before ++ behind).flatMap g.openOf) := by
    rw [split, List.flatMap_append, List.flatMap_cons, List.flatMap_append, here, unchanged before absent,
      unchanged behind absent']
    exact List.perm_append_comm_assoc ..
  show (g.rootgc ++ g.rootgc.flatMap (setOpenupval g th l).openOf ++ g.tmudata.map GCObject.userdata ++
    g.hash.flatten.map GCObject.string).Perm _
  have first := (opened.append_left g.rootgc).append_right
    (g.tmudata.map GCObject.userdata ++ g.hash.flatten.map GCObject.string)
  simp only [List.append_assoc] at first ⊢
  exact first.trans (List.perm_append_comm_assoc ..)

theorem First.split (shape : Shape g) (first : First g th uv next) :
    ∃ others, g.objects.Perm (.upval uv :: (next.map .upval ++ others)) ∧
      (setOpenupval g th next).objects.Perm (next.map .upval ++ others) := by
  obtain ⟨others, split⟩ := objects_split (rootgc_nodup shape) first.root
  refine ⟨others, ?_, split next⟩
  have here := split (g.openupval th)
  rw [setOpenupval_self, first.opened] at here
  exact here

theorem First.uvhead (shape : Shape g) (first : First g th uv next) : uv ∈ g.uvhead :=
  (shape.uvhead uv).mpr ⟨th, first.root, by rw [first.opened]; exact List.mem_cons_self ..⟩

theorem First.object (shape : Shape g) (first : First g th uv next) : .upval uv ∈ g.objects :=
  (shape.uvhead_object (first.uvhead shape)).1

theorem First.unowned (shape : Shape g) (first : First g th uv next) : ¬ Owned g uv :=
  (shape.uvhead_object (first.uvhead shape)).2

-- no other thread has the upvalue, nor has the rest of the list
theorem First.only (shape : Shape g) (first : First g th uv next) {th' : Nat} (root : .thread th' ∈ g.rootgc) :
    uv ∉ (setOpenupval g th next).openupval th' := by
  obtain ⟨others, before, later⟩ := first.split shape
  have nodup := before.nodup_iff.mp shape.nodup
  have gone : .upval uv ∉ (setOpenupval g th next).objects := by
    rw [later.mem_iff]
    exact (List.nodup_cons.mp nodup).1
  intro opened
  exact gone (mem_objects.mpr (.inr (.inl ⟨th', uv, root, opened, rfl⟩)))

theorem First.opened_subset (first : First g th uv next) {th' uv' : Nat} :
    uv' ∈ (setOpenupval g th next).openupval th' → uv' ∈ g.openupval th' := by
  intro mem
  by_cases here : th' = th
  · rw [here] at mem ⊢
    rw [first.opened]
    simp only [setOpenupval, setAt_same] at mem
    exact List.mem_cons_of_mem _ mem
  · simpa only [setOpenupval, setAt_other _ _ here] using mem

theorem First.opened_cases (first : First g th uv next) {th' uv' : Nat} (mem : uv' ∈ g.openupval th') :
    uv' = uv ∨ uv' ∈ (setOpenupval g th next).openupval th' := by
  by_cases here : th' = th
  · rw [here] at mem ⊢
    rw [first.opened] at mem
    simp only [setOpenupval, setAt_same]
    exact List.mem_cons.mp mem
  · exact .inr (by simpa only [setOpenupval, setAt_other _ _ here] using mem)

theorem First.uvhead_iff (shape : Shape g) (first : First g th uv next) (uv' : Nat) :
    uv' ∈ g.uvhead.erase uv ↔ ∃ th', .thread th' ∈ g.rootgc ∧ uv' ∈ (setOpenupval g th next).openupval th' := by
  rw [shape.distinct.mem_erase_iff, shape.uvhead uv']
  constructor
  · intro inside
    obtain ⟨ne, th', root, mem⟩ := inside
    exact ⟨th', root, (first.opened_cases mem).resolve_left ne⟩
  · intro inside
    obtain ⟨th', root, mem⟩ := inside
    exact ⟨fun same => first.only shape root (same ▸ mem), th', root, first.opened_subset mem⟩

/-! ## A dead upvalue -/

theorem freed_eq (unowned : ¬ Owned g uv) :
    (setOpenupval g th next).luaFFreeupval uv = { setOpenupval g th next with uvhead := g.uvhead.erase uv } := by
  have isOpen : ¬ ((setOpenupval g th next).heap.upvals uv).v = .own := unowned
  unfold luaFFreeupval
  rw [if_neg isOpen]
  rfl

theorem First.freed (more : GCObject → Prop) (inv : Invariant pending g) (first : First g th uv next) (dead : g.isdead (.upval uv) = true) :
    Invariant more ((setOpenupval g th next).luaFFreeupval uv) := by
  have shape := inv.shape
  have idle := inv.dead_idle (first.object shape) dead
  rw [freed_eq (first.unowned shape)]
  obtain ⟨others, before, later⟩ := first.split shape
  have nodup := (List.nodup_cons.mp (before.nodup_iff.mp shape.nodup)).2
  have unfixed : g.marked (.upval uv) &&& fixedbit = 0 := by
    by_contra isFixed
    rcases shape.fixed _ (first.object shape) isFixed with ⟨ts, same⟩ | same <;> cases same
  have sweeps : Sweeps g { setOpenupval g th next with uvhead := g.uvhead.erase uv } :=
    { rest := ⟨_, _, _, _, _, _, _, _, rfl⟩
      nodup := later.nodup_iff.mpr nodup
      objects := fun o object => before.mem_iff.mpr (List.mem_cons_of_mem _ (later.mem_iff.mp object))
      freed := fun o object gone => by
        cases List.mem_cons.mp (before.mem_iff.mp object) with
        | inl here => rw [here]; exact condemned_of_isdead shape.white unfixed dead
        | inr there => exact absurd (later.mem_iff.mpr there) gone
      rootgc := fun o => id
      main := shape.main
      opened := fun th' uv' => first.opened_subset
      uvhead := first.uvhead_iff shape
      distinct := shape.distinct.erase _
      marks := fun o => .inl rfl }
  refine sweeps.invariant inv idle idle inv.table inv.sweepstring inv.sweepgc fun o object unswept => ?_
  refine .inr (unswept.imp id (.imp id (.imp id ?_)))
  rintro ⟨th', uv', behind, opened, rfl⟩
  refine ⟨th', uv', behind, (first.opened_cases opened).resolve_left ?_, rfl⟩
  intro same
  rw [same] at object
  exact (List.nodup_cons.mp (before.nodup_iff.mp shape.nodup)).1 (later.mem_iff.mp object)

/-! ## A closed upvalue -/

-- the upvalue has its value and is on the list of the collected objects
def moved (g : GlobalState) (th uv : Nat) (next : List Nat) : GlobalState :=
  { ((setOpenupval g th next).unlinkupval uv).setUpVal uv { v := .own, value := g.deref uv } with
    rootgc := .upval uv :: g.rootgc }

theorem moved_refs : (moved g th uv next).refs o = g.refs o := by
  by_cases here : o = .upval uv
  · rw [here]
    have own : (moved g th uv next).heap.upvals uv = { v := .own, value := g.deref uv } := setAt_same ..
    have value : (moved g th uv next).deref uv = g.deref uv := by
      unfold GlobalState.deref
      rw [own]
      rfl
    simp only [GlobalState.refs, value]
  · exact refs_setUpVal g uv _ here

theorem moved_upvals {uv' : Nat} (ne : uv' ≠ uv) : (moved g th uv next).heap.upvals uv' = g.heap.upvals uv' :=
  setAt_other _ _ ne

theorem moved_owned : Owned (moved g th uv next) uv := by
  have own : (moved g th uv next).heap.upvals uv = { v := .own, value := g.deref uv } := setAt_same ..
  rw [Owned, own]

theorem First.moved_objects (shape : Shape g) (first : First g th uv next) : (moved g th uv next).objects.Perm g.objects := by
  obtain ⟨others, before, later⟩ := first.split shape
  have pulled : (moved g th uv next).objects = .upval uv :: (setOpenupval g th next).objects := by
    have opened : (moved g th uv next).openOf = (setOpenupval g th next).openOf := rfl
    unfold objects
    rw [opened]
    rfl
  rw [pulled]
  exact (later.cons _).trans before.symm

theorem First.moved_mem (shape : Shape g) (first : First g th uv next) :
    o ∈ (moved g th uv next).objects ↔ o ∈ g.objects := (first.moved_objects shape).mem_iff

/-- A mark that a closed upvalue can get. -/
structure ClosedMark (g : GlobalState) (uv : Nat) (m : BitVec 8) : Prop where
  coloured : Coloured m
  flags : m &&& flagbits = g.marked (.upval uv) &&& flagbits
  alive : deadMark g.otherwhite m = false
  marks : g.gcstate = .propagate → whiteMark m = g.iswhite (.upval uv) ∧ (whiteMark m = false → blackMark m = true)
  idle : g.gcstate ≠ .propagate → whiteMark m = true

theorem First.moved_shape {m : BitVec 8} (shape : Shape g) (first : First g th uv next) (mark : ClosedMark g uv m) :
    Shape ((moved g th uv next).setMark (.upval uv) m) := by
  have unequal : ∀ th' uv', .thread th' ∈ g.rootgc → uv' ∈ (setOpenupval g th next).openupval th' → uv' ≠ uv :=
    fun th' uv' root mem same => first.only shape root (same ▸ mem)
  have threads : ∀ th', .thread th' ∈ (moved g th uv next).rootgc ↔ .thread th' ∈ g.rootgc := fun th' => by
    show GCObject.thread th' ∈ .upval uv :: g.rootgc ↔ _
    simp
  refine ⟨shape.white, (first.moved_objects shape).nodup_iff.mpr shape.nodup, List.mem_cons_of_mem _ shape.main,
    fun uv' mem => ?_, fun th' uv' root mem => ?_, fun uv' => ?_, shape.distinct.erase _, fun o object => ?_,
    fun o object isFixed => ?_, fun th' object => ?_, fun uv' mem => ?_⟩
  · by_cases here : uv' = uv
    · rw [here]
      exact moved_owned
    · have old : .upval uv' ∈ g.rootgc := by simpa [moved, setMark, here] using mem
      show ((moved g th uv next).heap.upvals uv').v = .own
      rw [moved_upvals here]
      exact shape.closed uv' old
  · have old := (threads th').mp root
    obtain ⟨slot, isOpen⟩ := shape.opened th' uv' old (first.opened_subset mem)
    refine ⟨slot, ?_⟩
    show ((moved g th uv next).heap.upvals uv').v = _
    rw [moved_upvals (unequal th' uv' old mem)]
    exact isOpen
  · show uv' ∈ g.uvhead.erase uv ↔ ∃ th', .thread th' ∈ (moved g th uv next).rootgc ∧ _
    simp only [threads]
    exact first.uvhead_iff shape uv'
  · exact (shape.coloured o ((first.moved_mem shape).mp object)).setMark mark.coloured
  · refine shape.fixed o ((first.moved_mem shape).mp object) ?_
    rw [setMark_marked] at isFixed
    split at isFixed
    next here => rw [here, ← fixed_of_flags mark.flags]; exact isFixed
    next => exact isFixed
  · rw [setMark_isblack, if_neg (by simp)]
    exact shape.thread th' ((first.moved_mem shape).mp object)
  · obtain ⟨ne, mem'⟩ := shape.distinct.mem_erase_iff.mp mem
    rw [setMark_isblack, if_neg (by simpa using ne)]
    exact shape.upval uv' mem'

theorem First.moved_alive {m : BitVec 8} (shape : Shape g) (first : First g th uv next) (mark : ClosedMark g uv m)
    (alive : g.isdead (.upval uv) = false) : Alive ((moved g th uv next).setMark (.upval uv) m) o ↔ Alive g o := by
  have object : o ∈ ((moved g th uv next).setMark (.upval uv) m).objects ↔ o ∈ g.objects := first.moved_mem shape
  unfold Alive
  rw [object, setMark_isdead]
  split
  next here =>
    have same : deadMark (moved g th uv next).otherwhite m = g.isdead o := by
      rw [here, alive]
      exact mark.alive
    rw [same]
  next => exact Iff.rfl

theorem First.moved_invariant {m : BitVec 8} (inv : Invariant (waits g) g) (first : First g th uv next)
    (mark : ClosedMark g uv m) (alive : g.isdead (.upval uv) = false) :
    Invariant (also (waits g) (.upval uv)) ((moved g th uv next).setMark (.upval uv) m) := by
  have shape := inv.shape
  have aliveIff := fun o => first.moved_alive (o := o) shape mark alive
  have mem := fun o => first.moved_mem (o := o) shape
  have sweepgc : ∀ p ∈ g.sweepgc, p ≠ .upval uv := fun p isPos same => by
    have root := inv.sweepgc p isPos
    rw [same] at root
    exact first.unowned shape (shape.closed uv root)
  refine ⟨first.moved_shape shape mark, ⟨fun o root => (aliveIff o).mpr (inv.sound.roots o root), fun o isAlive r ref => ?_⟩,
    inv.table, fun marks => ?_, fun idle o object => ?_, inv.sweepstring, fun p isPos => List.mem_cons_of_mem _ (inv.sweepgc p isPos),
    fun marks h object isBlack free n mem' r isKey => ?_⟩
  · rw [aliveIff] at isAlive ⊢
    have ref' : r ∈ (moved g th uv next).refs o := ref
    rw [moved_refs] at ref'
    exact inv.sound.refs o isAlive r ref'
  · have marking := inv.marking marks
    obtain ⟨whites, blackened⟩ := mark.marks marks
    have iswhite : ∀ o, ((moved g th uv next).setMark (.upval uv) m).iswhite o = g.iswhite o := fun o => by
      rw [setMark_iswhite]
      split
      next here => rw [here]; exact whites
      next => rfl
    have unlisted : ∀ o ∈ g.gray ++ g.grayagain ++ g.weak, o ≠ .upval uv := fun o isListed same => by
      have traversable := (marking.listed o isListed).2.2.1
      rw [same] at traversable
      exact traversable
    refine ⟨fun o object => ?_, fun o object isBlack free r ref => ?_, fun o object isGray => ?_, fun o isListed => ?_,
      marking.distinct, marking.weak, (iswhite _).trans marking.main, fun o isValue => (iswhite o).trans (marking.registry o isValue)⟩
    · rw [setMark_isdead]
      split
      · exact mark.alive
      · exact marking.alive o ((mem o).mp object)
    · have ne : o ≠ .upval uv := fun here => free (.inr here)
      rw [setMark_isblack, if_neg ne] at isBlack
      have ref' : r ∈ (moved g th uv next).refs o := ref
      rw [moved_refs] at ref'
      exact (iswhite r).trans (marking.black o ((mem o).mp object) isBlack (fun isPending => free (.inl isPending)) r ref')
    · have colours := isgray_iff.mp isGray
      by_cases here : o = .upval uv
      · rw [setMark_isblack, if_pos here] at colours
        rw [setMark_iswhite, if_pos here] at colours
        rw [blackened colours.2] at colours
        cases colours.1
      · rw [setMark_isblack, if_neg here, iswhite] at colours
        refine (marking.gray o ((mem o).mp object) (isgray_iff.mpr colours)).imp id (.imp id ?_)
        rintro ⟨uv', rfl, unowned⟩
        refine ⟨uv', rfl, fun owned => unowned ?_⟩
        have ne : uv' ≠ uv := fun same => here (by rw [same])
        have owned' : ((moved g th uv next).heap.upvals uv').v = .own := owned
        rw [moved_upvals ne] at owned'
        exact owned'
    · obtain ⟨object, nonwhite, traversable, black⟩ := marking.listed o isListed
      refine ⟨(mem o).mpr object, (iswhite o).trans nonwhite, traversable, fun isBlack => ?_⟩
      rw [setMark_isblack, if_neg (unlisted o isListed)] at isBlack
      exact .inl (black isBlack)
  · by_cases here : o = .upval uv
    · refine .inl ⟨?_, ?_⟩
      · rw [setMark_iswhite, if_pos here]
        exact mark.idle idle
      · rw [setMark_isdead, if_pos here]
        exact mark.alive
    · unfold Resting Fresh
      rw [isgray, setMark_iswhite, setMark_isblack, setMark_isdead, if_neg here, if_neg here, if_neg here]
      refine (inv.swept idle o ((mem o).mp object)).imp id (.imp (fun unswept => ?_) id)
      -- what has not been swept is where it was
      have behind : ∀ o', o' ∈ after g.sweepgc g.rootgc → o' ∈ after g.sweepgc (.upval uv :: g.rootgc) := fun o' mem' => by
        cases isPos : g.sweepgc with
        | none => rw [isPos] at mem'; exact List.mem_cons_of_mem _ mem'
        | some p =>
          rw [isPos] at mem'
          have ne := sweepgc p isPos
          simpa [after, List.dropWhile_cons, Ne.symm ne] using mem'
      refine unswept.imp id (.imp id (.imp (behind o) ?_))
      rintro ⟨th', uv', mem', opened, rfl⟩
      exact ⟨th', uv', behind _ mem', (first.opened_cases opened).resolve_left fun same => here (by rw [same]), rfl⟩
  · have isBlack' : g.isblack (.table h) = true := by
      rw [setMark_isblack, if_neg (by simp)] at isBlack
      exact isBlack
    obtain ⟨inside, nonwhite⟩ := inv.keyed marks h ((mem _).mp object) isBlack' (fun isPending => free (.inl isPending))
      n mem' r isKey
    refine ⟨(mem r).mpr inside, ?_⟩
    rw [setMark_iswhite]
    split
    next here => exact (mark.marks marks).1.trans (here ▸ nonwhite)
    next => exact nonwhite

theorem setMark_marked_self : g.setMark o (g.marked o) = g := by
  have same : (fun o' => if o' = o then g.marked o else g.marked o') = g.marked := by
    funext o'
    split
    next here => rw [here]
    next => rfl
  unfold setMark
  rw [same]

/-- What closing upvalues leaves alone. -/
structure Closes (g g' : GlobalState) : Prop where
  rest : ∃ upvals marked gray rootgc openupval uvhead,
    g' = { g with heap.upvals := upvals, marked, gray, rootgc, openupval, uvhead }
  rootgc : ∃ uvs, g'.rootgc = uvs ++ g.rootgc ∧ ∀ o ∈ uvs, isUpval o = true
  idle : g.gcstate ≠ .propagate → ∀ o, isUpval o = false → g'.marked o = g.marked o

theorem Closes.refl (g : GlobalState) : Closes g g := ⟨⟨_, _, _, _, _, _, rfl⟩, ⟨[], rfl, by simp⟩, fun _ _ _ => rfl⟩

theorem Closes.trans {g₁ : GlobalState} (first : Closes g g') (second : Closes g' g₁) : Closes g g₁ := by
  obtain ⟨uvs, eq, upvals⟩ := first.rootgc
  obtain ⟨uvs', eq', upvals'⟩ := second.rootgc
  have idle := second.idle
  have gcstate : g'.gcstate = g.gcstate := by
    obtain ⟨_, _, _, _, _, _, same⟩ := first.rest
    rw [same]
  rw [gcstate] at idle
  refine ⟨?_, ⟨uvs' ++ uvs, by rw [eq', eq, List.append_assoc], fun o mem => ?_⟩, fun isIdle o kind =>
    (idle isIdle o kind).trans (first.idle isIdle o kind)⟩
  · obtain ⟨upvals, marked, gray, rootgc, openupval, uvhead, rfl⟩ := first.rest
    obtain ⟨upvals', marked', gray', rootgc', openupval', uvhead', rfl⟩ := second.rest
    exact ⟨_, _, _, _, _, _, rfl⟩
  · exact (List.mem_append.mp mem).elim (upvals' o) (upvals o)

-- the barrier of an upvalue that has become black
theorem First.blackened (inv : Invariant (waits g) g) (first : First g th uv next) (alive : g.isdead (.upval uv) = false)
    (marks : g.gcstate = .propagate) (nonwhite : g.iswhite (.upval uv) = false) :
    Invariant (waits g) (((moved g th uv next).gray2black (.upval uv)).luaCBarrier (.upval uv) ((moved g th uv next).deref uv)) := by
  have shape := inv.shape
  have black : ∀ m : BitVec 8, blackMark (m ||| blackbit) = true := by decide
  have kept : ∀ m : BitVec 8, whiteMark (m ||| blackbit) = whiteMark m := by decide
  have mark : ClosedMark g uv (g.marked (.upval uv) ||| blackbit) :=
    { coloured := (shape.coloured _ (first.object shape)).gray2black nonwhite
      flags := gray2black_flags _
      alive := (gray2black_deadMark shape.white _).trans alive
      marks := fun _ => ⟨kept _, fun _ => black _⟩
      idle := fun idle => absurd marks idle }
  have closed := first.moved_invariant inv mark alive
  change Invariant (also (waits g) (.upval uv)) ((moved g th uv next).gray2black (.upval uv)) at closed
  have refs : ((moved g th uv next).gray2black (.upval uv)).refs (.upval uv) = (gcvalue ((moved g th uv next).deref uv)).toList := rfl
  have object : .upval uv ∈ ((moved g th uv next).gray2black (.upval uv)).objects :=
    (first.moved_mem shape).mpr (first.object shape)
  have here : Alive ((moved g th uv next).gray2black (.upval uv)) (.upval uv) :=
    (first.moved_alive shape mark alive).mpr ⟨first.object shape, alive⟩
  have unlisted : ∀ g₁ : GlobalState, Marking (also (waits g) (.upval uv)) g₁ →
      .upval uv ∈ g₁.gray ++ g₁.grayagain ++ g₁.weak → g₁.isblack (.upval uv) = false :=
    fun g₁ marking mem => (marking.listed _ mem).2.2.1.elim
  unfold luaCBarrier
  cases isValue : gcvalue ((moved g th uv next).deref uv) with
  | none =>
    refine closed.repend (fun _ => (closed.marking marks).settle (fun _ r ref => ?_) (unlisted _ (closed.marking marks)))
      fun _ => (closed.keyed marks).settle (by simp)
    rw [refs, isValue] at ref
    cases ref
  | some v =>
    refine closed.objbarrier object (closed.sound.refs _ here v ?_) (by simp) (fun _ => id)
      (fun _ => unlisted _ (closed.marking marks)) (fun _ _ _ r ref => .inl ?_)
    · rw [refs, isValue]
      simp
    · rw [refs, isValue] at ref
      simpa using ref

/-- `luaC_linkupval` of an upvalue that has just got its value. -/
theorem First.linked (inv : Invariant (waits g) g) (first : First g th uv next) (alive : g.isdead (.upval uv) = false) :
    Invariant (waits g) ((((setOpenupval g th next).unlinkupval uv).setUpVal uv
      { v := .own, value := g.deref uv }).luaCLinkupval uv) := by
  have shape := inv.shape
  have coloured := shape.coloured _ (first.object shape)
  have notBlack := shape.upval uv (first.uvhead shape)
  unfold luaCLinkupval
  change Invariant (waits g) (if g.isgray (.upval uv) then
    if g.gcstate = .propagate then
      ((moved g th uv next).gray2black (.upval uv)).luaCBarrier (.upval uv) ((moved g th uv next).deref uv)
    else (moved g th uv next).makewhite (.upval uv)
    else moved g th uv next)
  by_cases isGray : g.isgray (.upval uv) = true
  · rw [if_pos isGray]
    by_cases marks : g.gcstate = .propagate
    · rw [if_pos marks]
      exact first.blackened inv alive marks (isgray_iff.mp isGray).2
    · rw [if_neg marks]
      have new := freshMark_makewhite shape.white (g.marked (.upval uv))
      have mark : ClosedMark g uv ((g.marked (.upval uv) &&& ~~~(blackbit ||| whitebits)) ||| g.luaCWhite) :=
        { coloured := Coloured.makewhite shape.white _
          flags := makewhite_flags shape.white _
          alive := new.alive
          marks := fun isMarks => absurd isMarks marks
          idle := fun _ => new.white }
      exact (first.moved_invariant inv mark alive).idle marks
  · rw [if_neg isGray]
    have white : g.iswhite (.upval uv) = true := by
      cases white : g.iswhite (.upval uv) with
      | true => rfl
      | false => exact absurd (isgray_iff.mpr ⟨notBlack, white⟩) isGray
    have mark : ClosedMark g uv (g.marked (.upval uv)) :=
      { coloured
        flags := rfl
        alive
        marks := fun _ => ⟨rfl, fun nonwhite => by rw [← iswhite_eq, white] at nonwhite; cases nonwhite⟩
        idle := fun _ => white }
    have closed := first.moved_invariant inv mark alive
    have same : (moved g th uv next).setMark (.upval uv) (g.marked (.upval uv)) = moved g th uv next :=
      setMark_marked_self (g := moved g th uv next)
    rw [same] at closed
    refine closed.repend (fun marks => (closed.marking marks).settle (fun isBlack => ?_)
      (fun mem => ((closed.marking marks).listed _ mem).2.2.1.elim)) fun marks => (closed.keyed marks).settle (by simp)
    have isBlack' : g.isblack (.upval uv) = true := isBlack
    rw [notBlack] at isBlack'
    cases isBlack'

/-- Marking changes marks and the list of gray objects. -/
def Remarks (g g' : GlobalState) : Prop := ∃ marked gray, g' = { g with marked, gray }

theorem Remarks.trans {g₁ : GlobalState} (first : Remarks g g') (second : Remarks g' g₁) : Remarks g g₁ := by
  obtain ⟨marked, gray, rfl⟩ := first
  obtain ⟨marked', gray', rfl⟩ := second
  exact ⟨_, _, rfl⟩

theorem marktable_remarks (h : Nat) : Remarks g (g.marktable h) := by
  unfold marktable
  split
  · exact ⟨_, _, rfl⟩
  · exact ⟨_, _, rfl⟩

theorem reallymarkvalue_remarks (o : GCObject) : Remarks g (g.reallymarkvalue o) := by
  cases o with
  | userdata u =>
    have metatable : ∀ (mt : Option Nat) (g : GlobalState), Remarks g (g.markmetatable mt) := fun mt g => by
      cases mt with
      | none => exact ⟨_, _, rfl⟩
      | some h => exact marktable_remarks h
    exact Remarks.trans ⟨_, _, rfl⟩ ((metatable _ _).trans (marktable_remarks _))
  | _ => exact ⟨_, _, rfl⟩

theorem markvalue_remarks (v : TValue) : Remarks g (g.markvalue v) := by
  unfold markvalue
  split
  · split
    · exact reallymarkvalue_remarks _
    · exact ⟨_, _, rfl⟩
  · exact ⟨_, _, rfl⟩

theorem reallymarkobject_remarks (o : GCObject) : Remarks g (g.reallymarkobject o) := by
  cases o with
  | upval uv =>
    have marked : Remarks g ((g.white2gray (.upval uv)).markvalue (g.deref uv)) :=
      Remarks.trans ⟨_, _, rfl⟩ (markvalue_remarks _)
    simp only [reallymarkobject]
    split
    · exact marked.trans ⟨_, _, rfl⟩
    · exact marked
  | string ts => exact reallymarkvalue_remarks (.string ts)
  | table h => exact reallymarkvalue_remarks (.table h)
  | function cl => exact reallymarkvalue_remarks (.function cl)
  | userdata u => exact reallymarkvalue_remarks (.userdata u)
  | thread th => exact reallymarkvalue_remarks (.thread th)
  | proto f => exact reallymarkvalue_remarks (.proto f)

theorem barrier_remarks (marks : g.gcstate = .propagate) (p : GCObject) (v : TValue) : Remarks g (g.luaCBarrier p v) := by
  unfold luaCBarrier luaCObjbarrier luaCBarrierf
  split
  · split
    · exact reallymarkobject_remarks _
    · exact ⟨_, _, rfl⟩
  · exact ⟨_, _, rfl⟩

theorem moved_closes (th uv : Nat) (next : List Nat) : Closes g (moved g th uv next) :=
  ⟨⟨_, _, _, _, _, _, rfl⟩, ⟨[.upval uv], rfl, by simp [isUpval]⟩, fun _ _ _ => rfl⟩

theorem linked_closes (th uv : Nat) (next : List Nat) :
    Closes g ((((setOpenupval g th next).unlinkupval uv).setUpVal uv
      { v := .own, value := g.deref uv }).luaCLinkupval uv) := by
  refine (moved_closes th uv next).trans ?_
  unfold luaCLinkupval
  change Closes (moved g th uv next) (if (moved g th uv next).isgray (.upval uv) then
    if g.gcstate = .propagate then
      ((moved g th uv next).gray2black (.upval uv)).luaCBarrier (.upval uv) ((moved g th uv next).deref uv)
    else (moved g th uv next).makewhite (.upval uv)
    else moved g th uv next)
  split
  · split
    next marks =>
      obtain ⟨marked, gray, same⟩ := barrier_remarks (g := (moved g th uv next).gray2black (.upval uv)) marks
        (.upval uv) ((moved g th uv next).deref uv)
      rw [same]
      exact ⟨⟨_, _, _, _, _, _, rfl⟩, ⟨[], rfl, by simp⟩, fun idle => absurd marks idle⟩
    next =>
      refine ⟨⟨_, _, _, _, _, _, rfl⟩, ⟨[], rfl, by simp⟩, fun _ o kind => setMark_other ?_⟩
      rintro rfl
      cases kind
  · exact .refl _

theorem Closes.root (closes : Closes g g') (root : o ∈ g.rootgc) : o ∈ g'.rootgc := by
  obtain ⟨uvs, eq, -⟩ := closes.rootgc
  rw [eq]
  exact List.mem_append_right _ root

theorem Closes.waiting (closes : Closes g g') : waits g' = waits g := by
  obtain ⟨upvals, marked, gray, rootgc, openupval, uvhead, rfl⟩ := closes.rest
  rfl

-- the next upvalue is the first then
theorem linked_openupval (th uv : Nat) (next : List Nat) :
    ((((setOpenupval g th next).unlinkupval uv).setUpVal uv
      { v := .own, value := g.deref uv }).luaCLinkupval uv).openupval th = next := by
  have here : (moved g th uv next).openupval th = next := setAt_same ..
  unfold luaCLinkupval
  change (if (moved g th uv next).isgray (.upval uv) then
    if g.gcstate = .propagate then
      ((moved g th uv next).gray2black (.upval uv)).luaCBarrier (.upval uv) ((moved g th uv next).deref uv)
    else (moved g th uv next).makewhite (.upval uv)
    else moved g th uv next).openupval th = next
  split
  · split
    next marks =>
      obtain ⟨marked, gray, same⟩ := barrier_remarks (g := (moved g th uv next).gray2black (.upval uv)) marks
        (.upval uv) ((moved g th uv next).deref uv)
      rw [same]
      exact here
    next => exact here
  · exact here

/-! ## `luaF_close` -/

theorem closeFrom_invariant {level : Nat} {l : List Nat} (inv : Invariant (waits g) g) (root : .thread th ∈ g.rootgc)
    (opened : g.openupval th = l) : Invariant (waits g) (closeFrom th level g l) ∧ Closes g (closeFrom th level g l) ∧
      (level = 0 → (closeFrom th level g l).openupval th = []) := by
  induction l generalizing g with
  | nil => exact ⟨inv, .refl g, fun _ => opened⟩
  | cons uv next ih =>
    have first : First g th uv next := ⟨root, opened⟩
    unfold closeFrom
    by_cases inside : g.atOrAbove level uv = true
    · rw [if_pos inside]
      simp only
      have dead : (setOpenupval g th next).isdead (.upval uv) = g.isdead (.upval uv) := rfl
      have value : (setOpenupval g th next).deref uv = g.deref uv := rfl
      rw [dead, value]
      by_cases isDead : g.isdead (.upval uv) = true
      · rw [if_pos isDead]
        have freed := first.freed (waits g) inv isDead
        rw [freed_eq (first.unowned inv.shape)] at freed ⊢
        have closes : Closes g { setOpenupval g th next with uvhead := g.uvhead.erase uv } :=
          ⟨⟨_, _, _, _, _, _, rfl⟩, ⟨[], rfl, by simp⟩, fun _ _ _ => rfl⟩
        obtain ⟨inv', rest, emptied⟩ := ih (g := { setOpenupval g th next with uvhead := g.uvhead.erase uv }) freed root
          (setAt_same ..)
        exact ⟨inv', closes.trans rest, emptied⟩
      · rw [if_neg isDead]
        have linked := first.linked inv (by simpa using isDead)
        have closes := linked_closes (g := g) th uv next
        have openupval := linked_openupval (g := g) th uv next
        generalize (((setOpenupval g th next).unlinkupval uv).setUpVal uv
          { v := .own, value := g.deref uv }).luaCLinkupval uv = g₁ at linked closes openupval ⊢
        have waiting := closes.waiting
        rw [← waiting] at linked
        obtain ⟨inv', rest, emptied⟩ := ih linked (closes.root root) openupval
        rw [waiting] at inv'
        exact ⟨inv', closes.trans rest, emptied⟩
    · rw [if_neg inside]
      refine ⟨inv, .refl g, fun zero => ?_⟩
      -- an open upvalue is at or above the bottom of the stack
      obtain ⟨slot, isOpen⟩ := inv.shape.opened th uv root (by rw [opened]; exact List.mem_cons_self ..)
      refine absurd ?_ inside
      unfold atOrAbove
      simp [isOpen, zero]

/-- Closing upvalues keeps the invariant, and from the bottom of the stack it closes all. -/
theorem luaFClose_invariant (level : Nat) (inv : Invariant (waits g) g) (root : .thread th ∈ g.rootgc) :
    Invariant (waits g) (g.luaFClose th level) ∧ Closes g (g.luaFClose th level) ∧
      (level = 0 → (g.luaFClose th level).openupval th = []) :=
  closeFrom_invariant inv root rfl

/-! ## A thread that is freed -/

-- the object is off the list that has all
def without (o : GCObject) (g : GlobalState) : GlobalState := { g with rootgc := g.rootgc.erase o }

theorem linkupval_idle (idle : g.gcstate ≠ .propagate) : g.luaCLinkupval uv =
    if g.isgray (.upval uv) then { g with rootgc := .upval uv :: g.rootgc }.makewhite (.upval uv)
    else { g with rootgc := .upval uv :: g.rootgc } := by
  unfold luaCLinkupval
  simp only [if_neg idle]
  rfl

theorem linkupval_without (uv : Nat) (idle : g.gcstate ≠ .propagate) (kind : isUpval o = false) :
    (without o g).luaCLinkupval uv = without o (g.luaCLinkupval uv) := by
  have ne : GCObject.upval uv ≠ o := by
    rintro rfl
    cases kind
  have pushed : { without o g with rootgc := .upval uv :: (without o g).rootgc } =
      without o { g with rootgc := .upval uv :: g.rootgc } := by
    unfold without
    simp only
    rw [List.erase_cons_tail (by simpa using ne)]
  have idle' : (without o g).gcstate ≠ .propagate := idle
  have gray : (without o g).isgray (.upval uv) = g.isgray (.upval uv) := rfl
  rw [linkupval_idle idle, linkupval_idle idle', pushed, gray]
  split <;> rfl

/-- A thread's upvalues may be closed before or after it leaves the list. -/
theorem closeFrom_without {level : Nat} {l : List Nat} (idle : g.gcstate ≠ .propagate) (kind : isUpval o = false) :
    closeFrom th level (without o g) l = without o (closeFrom th level g l) := by
  induction l generalizing g with
  | nil => rfl
  | cons uv next ih =>
    unfold closeFrom
    have inside : (without o g).atOrAbove level uv = g.atOrAbove level uv := rfl
    have dead : ((without o g).setOpenupval th next).isdead (.upval uv) = (g.setOpenupval th next).isdead (.upval uv) := rfl
    simp only [inside, dead]
    split
    · split
      · have freed : ((without o g).setOpenupval th next).luaFFreeupval uv =
            without o ((g.setOpenupval th next).luaFFreeupval uv) := by
          unfold luaFFreeupval
          have v : (((without o g).setOpenupval th next).heap.upvals uv).v = ((g.setOpenupval th next).heap.upvals uv).v := rfl
          rw [v]
          split <;> rfl
        have still : ((g.setOpenupval th next).luaFFreeupval uv).gcstate = g.gcstate := by
          unfold luaFFreeupval
          split <;> rfl
        rw [freed, ih (still ▸ idle)]
      · have linked := linkupval_without (o := o) (g := ((g.setOpenupval th next).unlinkupval uv).setUpVal uv
          { v := .own, value := (g.setOpenupval th next).deref uv }) uv idle kind
        have closed : ((((without o g).setOpenupval th next).unlinkupval uv).setUpVal uv
            { v := .own, value := ((without o g).setOpenupval th next).deref uv }).luaCLinkupval uv =
            without o ((((g.setOpenupval th next).unlinkupval uv).setUpVal uv
              { v := .own, value := (g.setOpenupval th next).deref uv }).luaCLinkupval uv) := linked
        have still : ((((g.setOpenupval th next).unlinkupval uv).setUpVal uv
            { v := .own, value := (g.setOpenupval th next).deref uv }).luaCLinkupval uv).gcstate = g.gcstate := by
          obtain ⟨_, _, _, _, _, _, same⟩ := (linked_closes (g := g) th uv next).rest
          have value : (g.setOpenupval th next).deref uv = g.deref uv := rfl
          rw [value, same]
        rw [closed, ih (still ▸ idle)]
    · rfl

end Lunatik.Verified.UpvalueSteps
