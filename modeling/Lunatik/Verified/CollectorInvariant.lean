import Lunatik.Verified.AtomicPhase

/-! # The invariant of the collector

What holds between the steps of the collector and of the program, in every phase, and the changes that keep
it: writes to the heap, the two write barriers, and the whitening and the removal of objects in the sweep.
-/

namespace Lunatik.Verified.CollectorInvariant

open Lunatik.Library
open Lunatik.Lua (GCState setAt setAt_same setAt_other)
open Lunatik.Lua.Gc Lunatik.Lua.Gc.GlobalState
open Lunatik.Lua.StringTable (whitebits blackbit fixedbit)
open Lunatik.Verified.Colours Lunatik.Verified.References Lunatik.Verified.Tricolor Lunatik.Verified.Propagation
open Lunatik.Verified.AtomicPhase

/-! ## The invariant -/

/-- What the sweep has yet to come to. -/
def Unswept (g : GlobalState) (o : GCObject) : Prop :=
  (g.gcstate = .sweepstring ∧ ∃ ts ∈ (g.hash.drop g.sweepstrgc).flatten, o = .string ts) ∨
  ((g.gcstate = .sweepstring ∨ g.gcstate = .sweep) ∧ (o ∈ after g.sweepgc g.rootgc ∨
    ∃ th uv, .thread th ∈ after g.sweepgc g.rootgc ∧ uv ∈ g.openupval th ∧ o = .upval uv))

/-- An object outside the mark phase. -/
def Resting (g : GlobalState) (o : GCObject) : Prop :=
  Fresh g o ∨ Unswept g o ∨ (waits g o ∧ g.isdead o = false ∧ g.isgray o = false)

/-- The keys of a black table are not white, nor are those of its empty entries, which can be filled again. -/
def Keyed (pending : GCObject → Prop) (g : GlobalState) : Prop :=
  ∀ h, .table h ∈ g.objects → g.isblack (.table h) = true → ¬ pending (.table h) →
    ∀ n ∈ (g.heap.tables h).node, ∀ r ∈ gcvalue n.key, r ∈ g.objects ∧ g.iswhite r = false

/-- What is `pending` has been written to, and waits for its barrier. -/
structure Invariant (pending : GCObject → Prop) (g : GlobalState) : Prop where
  shape : Shape g
  sound : Sound g
  table : g.hash ≠ []
  marking : g.gcstate = .propagate → Marking pending g
  swept : g.gcstate ≠ .propagate → ∀ o ∈ g.objects, Resting g o
  sweepstring : g.gcstate = .sweepstring → g.sweepgc = none
  sweepgc : ∀ p ∈ g.sweepgc, p ∈ g.rootgc
  keyed : g.gcstate = .propagate → Keyed pending g

variable {pending more : GCObject → Prop} {g g' : GlobalState} {o : GCObject}

theorem sound_of_marking (marking : Marking pending g) (referring : Referring g)
    (roots : ∀ o ∈ g.roots, o ∈ g.objects) : Sound g where
  roots := fun o root => marking.alive_of_object (roots o root)
  refs := fun o alive r ref => marking.alive_of_object (referring o alive.1 r ref)

theorem Invariant.repend (inv : Invariant pending g) (marking : g.gcstate = .propagate → Marking more g)
    (keyed : g.gcstate = .propagate → Keyed more g) : Invariant more g :=
  ⟨inv.shape, inv.sound, inv.table, marking, inv.swept, inv.sweepstring, inv.sweepgc, keyed⟩

theorem Invariant.idle (inv : Invariant pending g) (idle : g.gcstate ≠ .propagate) : Invariant more g :=
  inv.repend (fun marks => absurd marks idle) fun marks => absurd marks idle

theorem Keyed.weaken (weaker : ∀ o, pending o → more o) (keyed : Keyed pending g) : Keyed more g :=
  fun h object isBlack free => keyed h object isBlack fun isPending => free (weaker _ isPending)

-- the barrier was for no table
theorem Keyed.settle {p : GCObject} (keyed : Keyed (also pending p) g) (noTable : ∀ h, p ≠ .table h) : Keyed pending g :=
  fun h object isBlack free => keyed h object isBlack fun isPending => isPending.elim free fun same => noTable h same.symm

/-- Nothing becomes white, no table black, and no key is new. -/
theorem Keyed.later (keyed : Keyed pending g) (objects : ∀ o, o ∈ g'.objects ↔ o ∈ g.objects)
    (nonwhite : ∀ r ∈ g.objects, g.iswhite r = false → g'.iswhite r = false)
    (black : ∀ h, .table h ∈ g.objects → g'.isblack (.table h) = true → ¬ more (.table h) →
      g.isblack (.table h) = true ∧ ¬ pending (.table h))
    (keys : ∀ h, ∀ n ∈ (g'.heap.tables h).node, ∀ r ∈ gcvalue n.key, ∃ n' ∈ (g.heap.tables h).node, r ∈ gcvalue n'.key) :
    Keyed more g' := by
  intro h object isBlack free n mem r isKey
  rw [objects] at object ⊢
  obtain ⟨isBlack', free'⟩ := black h object isBlack free
  obtain ⟨n', mem', isKey'⟩ := keys h n mem r isKey
  obtain ⟨inside, before⟩ := keyed h object isBlack' free' n' mem' r isKey'
  exact ⟨inside, nonwhite r inside before⟩

theorem Keyed.shades (shades : Shades g g') (keyed : Keyed pending g) : Keyed pending g' := by
  refine keyed.later (fun o => by rw [shades.objects]) (fun r _ => shades.nonwhite) (fun h _ isBlack free => ⟨?_, free⟩)
    fun h n mem r isKey => ⟨n, shades.heap ▸ mem, isKey⟩
  cases shades.marks (.table h) with
  | inl same => rw [isblack_eq, ← same, ← isblack_eq, isBlack]
  | inr shaded => rcases (shaded.black isBlack).1 with ⟨u, same⟩ | ⟨uv, same, -⟩ <;> cases same

theorem Invariant.held (inv : Invariant pending g) (held : g.Held o) : Alive g o := inv.sound.held held

theorem Invariant.spared (inv : Invariant pending g) (held : g.Held o) : o ∈ g.objects ∧ g.condemned o = false :=
  ⟨(inv.held held).1, spared_of_alive inv.shape.white (inv.held held).2⟩

-- only outside the mark phase an object can be dead
theorem Invariant.dead_idle (inv : Invariant pending g) (object : o ∈ g.objects) (dead : g.isdead o = true) :
    g.gcstate ≠ .propagate := by
  intro marks
  rw [(inv.marking marks).alive o object] at dead
  cases dead

theorem listed_gray (marking : Marking (waits g) g) (mem : o ∈ g.gray ++ g.grayagain ++ g.weak) :
    g.isblack o = false := by
  obtain ⟨-, -, traversable, free⟩ := marking.listed o mem
  cases isBlack : g.isblack o with
  | false => rfl
  | true =>
    obtain ⟨u, -, rfl⟩ := free isBlack
    exact traversable.elim

/-! ## Writes to the heap -/

theorem marking_write (marking : Marking pending g) {heap : Heap} (weaker : ∀ o, pending o → more o)
    (pointers : ∀ uv, (heap.upvals uv).v = (g.heap.upvals uv).v)
    (black : ∀ o ∈ g.objects, g.isblack o = true → ¬ more o → ∀ r ∈ { g with heap }.refs o, g.iswhite r = false) :
    Marking more { g with heap } where
  alive := marking.alive
  black := black
  gray := fun o object isGray => by simpa only [Listed, Owned, pointers] using marking.gray o object isGray
  listed := (marking.weaken weaker).listed
  distinct := marking.distinct
  weak := marking.weak
  main := marking.main
  registry := marking.registry

theorem shape_write (shape : Shape g) {heap : Heap} (pointers : ∀ uv, (heap.upvals uv).v = (g.heap.upvals uv).v) :
    Shape { g with heap } where
  white := shape.white
  nodup := shape.nodup
  main := shape.main
  closed := fun uv mem => (pointers uv).trans (shape.closed uv mem)
  opened := fun th uv root mem => by
    obtain ⟨slot, isOpen⟩ := shape.opened th uv root mem
    exact ⟨slot, (pointers uv).trans isOpen⟩
  uvhead := shape.uvhead
  distinct := shape.distinct
  coloured := shape.coloured
  fixed := shape.fixed
  thread := shape.thread
  upval := shape.upval

/-- A write of what is alive. -/
theorem Invariant.write (inv : Invariant pending g) {heap : Heap} (weaker : ∀ o, pending o → more o)
    (pointers : ∀ uv, (heap.upvals uv).v = (g.heap.upvals uv).v)
    (refs : ∀ o, Alive g o → ∀ r ∈ { g with heap }.refs o, r ∈ g.refs o ∨ Alive g r)
    (black : g.gcstate = .propagate → ∀ o ∈ g.objects, g.isblack o = true → ¬ more o →
      ∀ r ∈ { g with heap }.refs o, g.iswhite r = false)
    (keys : ∀ h, ¬ more (.table h) → ∀ n ∈ (heap.tables h).node, ∀ r ∈ gcvalue n.key,
      ∃ n' ∈ (g.heap.tables h).node, r ∈ gcvalue n'.key) : Invariant more { g with heap } where
  shape := shape_write inv.shape pointers
  sound := by
    refine ⟨inv.sound.roots, fun o alive r ref => ?_⟩
    cases refs o alive r ref with
    | inl old => exact inv.sound.refs o alive r old
    | inr new => exact new
  table := inv.table
  marking := fun marks => marking_write (inv.marking marks) weaker pointers (black marks)
  swept := inv.swept
  sweepstring := inv.sweepstring
  sweepgc := inv.sweepgc
  keyed := fun marks h object isBlack free n mem r isKey => by
    obtain ⟨n', mem', isKey'⟩ := keys h free n mem r isKey
    exact inv.keyed marks h object isBlack (fun isPending => free (weaker _ isPending)) n' mem' r isKey'

/-- What an object holds is changed, and its barrier follows. -/
theorem Invariant.writeOne (inv : Invariant pending g) {heap : Heap} {p : GCObject}
    (pointers : ∀ uv, (heap.upvals uv).v = (g.heap.upvals uv).v)
    (others : ∀ o, o ≠ p → { g with heap }.refs o = g.refs o)
    (tables : ∀ h, .table h ≠ p → heap.tables h = g.heap.tables h)
    (refs : ∀ r ∈ { g with heap }.refs p, r ∈ g.refs p ∨ Alive g r) : Invariant (also pending p) { g with heap } := by
  refine inv.write (fun _ => .inl) pointers (fun o alive r ref => ?_) (fun marks o object isBlack free r ref => ?_)
    fun h free n mem r isKey => ⟨n, ?_, isKey⟩
  · by_cases here : o = p
    · subst here
      exact refs r ref
    · exact .inl (others o here ▸ ref)
  · have ne : o ≠ p := fun here => free (.inr here)
    rw [others o ne] at ref
    exact (inv.marking marks).black o object isBlack (fun isPending => free (.inl isPending)) r ref
  · have ne : .table h ≠ p := fun here => free (.inr here)
    rw [← tables h ne]
    exact mem

/-- A write that takes references away, or that no black object sees. -/
theorem Invariant.writeUnseen (inv : Invariant pending g) {heap : Heap}
    (pointers : ∀ uv, (heap.upvals uv).v = (g.heap.upvals uv).v)
    (refs : ∀ o, Alive g o → ∀ r ∈ { g with heap }.refs o, r ∈ g.refs o ∨ (Alive g r ∧ g.isblack o = false))
    (keys : ∀ h, ∀ n ∈ (heap.tables h).node, ∀ r ∈ gcvalue n.key, ∃ n' ∈ (g.heap.tables h).node, r ∈ gcvalue n'.key) :
    Invariant pending { g with heap } := by
  refine inv.write (fun _ => id) pointers (fun o alive r ref => (refs o alive r ref).imp id And.left)
    (fun marks o object isBlack free r ref => ?_) fun h _ => keys h
  cases refs o ((inv.marking marks).alive_of_object object) r ref with
  | inl old => exact (inv.marking marks).black o object isBlack free r old
  | inr new =>
    rw [new.2] at isBlack
    cases isBlack

/-- A write to a thread: threads and open upvalues are never black. -/
theorem Invariant.setThread {th : Nat} {l : Thread} (inv : Invariant pending g)
    (gt : ∀ r ∈ gcvalue l.gt, r ∈ gcvalue (g.heap.threads th).gt ∨ Alive g r)
    (stack : ∀ slot, ∀ r ∈ gcvalue (l.stack slot), r ∈ gcvalue ((g.heap.threads th).stack slot) ∨ Alive g r)
    (shown : ∀ slot < exposed l, ∀ r ∈ gcvalue (l.stack slot), slot < exposed (g.heap.threads th) ∨ Alive g r) :
    Invariant pending (g.setThread th l) := by
  refine inv.writeUnseen (fun _ => rfl) (fun o alive r ref => ?_) fun h n mem r isKey => ⟨n, mem, isKey⟩
  change r ∈ (g.setThread th l).refs o at ref
  rw [refs_setThread] at ref
  by_cases here : o = .thread th
  · subst here
    rw [if_pos rfl, mem_threadRefs] at ref
    have notBlack := inv.shape.thread th alive.1
    have old : ∀ r, r ∈ g.refs (.thread th) ↔ r ∈ threadRefs (g.heap.threads th) := fun _ => Iff.rfl
    rw [old, mem_threadRefs]
    rcases ref with isGlobal | ⟨slot, below, isValue⟩
    · exact (gt r isGlobal).imp .inl fun isAlive => ⟨isAlive, notBlack⟩
    · rcases stack slot r isValue with before | isAlive
      · exact (shown slot below r isValue).imp (fun below' => .inr ⟨slot, below', before⟩) fun isAlive => ⟨isAlive, notBlack⟩
      · exact .inr ⟨isAlive, notBlack⟩
  · rw [if_neg here] at ref
    cases o with
    | upval uv =>
      simp only at ref
      cases v : (g.heap.upvals uv).v with
      | own =>
        rw [v] at ref
        refine .inl ?_
        simp only [GlobalState.refs, deref, v]
        exact ref
      | stack th' slot =>
        rw [v] at ref
        simp only [Option.mem_toList] at ref
        have unowned : ¬ Owned g uv := by rw [Owned, v]; simp
        have notBlack := inv.shape.upval uv (inv.shape.mem_uvhead alive.1 unowned)
        have old : ∀ r, r ∈ g.refs (.upval uv) ↔ r ∈ gcvalue ((g.heap.threads th').stack slot) := fun r => by
          simp [GlobalState.refs, deref, v]
        rw [old]
        by_cases same : th' = th
        · rw [if_pos same] at ref
          rw [same]
          exact (stack slot r ref).imp id fun isAlive => ⟨isAlive, notBlack⟩
        · rw [if_neg same] at ref
          exact .inl ref
    | _ => exact .inl ref

/-! ## Marks outside the mark phase -/

theorem shape_setMark {m : BitVec 8} (shape : Shape g) (coloured : Coloured m)
    (flags : m &&& flagbits = g.marked o &&& flagbits) (notBlack : blackMark m = false) : Shape (g.setMark o m) where
  white := shape.white
  nodup := shape.nodup
  main := shape.main
  closed := shape.closed
  opened := shape.opened
  uvhead := shape.uvhead
  distinct := shape.distinct
  coloured := fun o' object => (shape.coloured o' object).setMark coloured
  fixed := fun o' object isFixed => by
    refine shape.fixed o' object ?_
    rw [setMark_marked] at isFixed
    split at isFixed
    next here => rw [here, ← fixed_of_flags flags]; exact isFixed
    next => exact isFixed
  thread := fun th object => by
    rw [setMark_isblack]
    split
    · exact notBlack
    · exact shape.thread th object
  upval := fun uv mem => by
    rw [setMark_isblack]
    split
    · exact notBlack
    · exact shape.upval uv mem

/-- An object becomes as white as a new one, where what it refers to is alive. -/
theorem Invariant.refresh {m : BitVec 8} (inv : Invariant pending g) (idle : g.gcstate ≠ .propagate)
    (object : o ∈ g.objects) (new : FreshMark g m) (coloured : Coloured m)
    (flags : m &&& flagbits = g.marked o &&& flagbits) (refs : ∀ r ∈ g.refs o, Alive g r) :
    Invariant more (g.setMark o m) := by
  have kept : ∀ o', Alive g o' → Alive (g.setMark o m) o' := fun o' alive =>
    ⟨alive.1, by rw [new.isdead, alive.2, Bool.false_and]⟩
  refine ⟨shape_setMark inv.shape coloured flags new.black, ⟨fun o' root => kept o' (inv.sound.roots o' root),
    fun o' alive r ref => kept r ?_⟩, inv.table, fun marks => absurd marks idle, fun _ o' object' => ?_, inv.sweepstring, inv.sweepgc,
    fun marks => absurd marks idle⟩
  · by_cases here : o' = o
    · subst here
      exact refs r ref
    · refine inv.sound.refs o' ⟨alive.1, ?_⟩ r ref
      have notDead := alive.2
      rw [setMark_isdead, if_neg here] at notDead
      exact notDead
  · by_cases here : o' = o
    · exact .inl (here ▸ new.fresh)
    · unfold Resting Fresh
      rw [isgray, setMark_iswhite, setMark_isblack, setMark_isdead, if_neg here, if_neg here, if_neg here]
      exact inv.swept idle o' object'

theorem Invariant.makewhite (inv : Invariant pending g) (idle : g.gcstate ≠ .propagate) (alive : Alive g o) :
    Invariant more (g.makewhite o) :=
  inv.refresh idle alive.1 (freshMark_makewhite inv.shape.white _) (Coloured.makewhite inv.shape.white _)
    (makewhite_flags inv.shape.white _) (inv.sound.refs o alive)

/-- A dead object comes back. -/
theorem Invariant.changewhite (inv : Invariant pending g) (object : o ∈ g.objects) (dead : g.isdead o = true)
    (refs : ∀ r ∈ g.refs o, Alive g r) : Invariant more (g.changewhite o) := by
  have coloured := inv.shape.coloured o object
  exact inv.refresh (inv.dead_idle object dead) object (freshMark_changewhite inv.shape.white coloured dead)
    (coloured.changewhite (isdead_iswhite inv.shape.white dead)) (changewhite_flags _) refs

/-! ## The barriers -/

theorem blacked_alive (inv : Invariant pending g) (object : o ∈ g.objects) (isBlack : g.isblack o = true) : Alive g o := by
  refine ⟨object, alive_of_nonwhite inv.shape.white ?_⟩
  cases white : g.iswhite o with
  | false => rfl
  | true => rw [(inv.shape.coloured o object).isblack white] at isBlack; cases isBlack

theorem shaded_unlisted (shades : Shades g g') (nonwhite : ∀ o ∈ g.gray ++ g.grayagain ++ g.weak, g.iswhite o = false)
    (unlisted : o ∈ g.gray ++ g.grayagain ++ g.weak → g.isblack o = false)
    (mem : o ∈ g'.gray ++ g'.grayagain ++ g'.weak) : g'.isblack o = false := by
  obtain ⟨pushed, eq, -, each⟩ := shades.gray
  rw [eq, shades_grayagain shades, shades_weak shades] at mem
  simp only [List.append_assoc] at mem
  cases List.mem_append.mp mem with
  | inl new => exact (isgray_iff.mp (each o new).2.1).1
  | inr old =>
    rw [← List.append_assoc] at old
    rw [isblack_eq, shades.unchanged (nonwhite o old), ← isblack_eq]
    exact unlisted old

/-- Marking keeps the invariant. -/
theorem Invariant.shades (inv : Invariant pending g) (marks : g.gcstate = .propagate) (shades : Shades g g')
    (marking : Marking more g') (keyed : Keyed more g') : Invariant more g' := by
  have frame := frame_of_shades shades
  have shape := shape_of_frame frame inv.shape
  have referring := shades.referring ((inv.marking marks).referring inv.sound)
  have roots : ∀ o ∈ g'.roots, o ∈ g'.objects := fun o root => by
    rw [shades.objects]
    refine (inv.sound.roots o ?_).1
    obtain ⟨marked, gray, rfl⟩ := shades.same
    exact root
  have sound := sound_of_marking marking referring roots
  obtain ⟨marked, gray, rfl⟩ := shades.same
  exact ⟨shape, sound, inv.table, fun _ => marking, fun idle => absurd marks idle, inv.sweepstring, inv.sweepgc,
    fun _ => keyed⟩

-- what waits for its finalizer is pending anyway
theorem settle_unless {p : GCObject} (marking : Marking (also pending p) g)
    (seen : ¬ pending p → g.isblack p = true → ∀ r ∈ g.refs p, g.iswhite r = false)
    (unlisted : p ∈ g.gray ++ g.grayagain ++ g.weak → g.isblack p = false) : Marking pending g := by
  by_cases isPending : pending p
  · refine marking.weaken fun o mem => ?_
    rcases mem with old | rfl
    · exact old
    · exact isPending
  · exact marking.settle (seen isPending) unlisted

/-- The forward barrier, after `p` was written to; the object that is looked at is black where `p` is. -/
theorem Invariant.objbarrier {p q v : GCObject} (inv : Invariant (also (waits g) p) g) (object : q ∈ g.objects)
    (alive : Alive g v) (noTable : ∀ h, p ≠ .table h)
    (covered : g.gcstate = .propagate → g.isblack p = true → g.isblack q = true)
    (unlisted : g.gcstate = .propagate → p ∈ g.gray ++ g.grayagain ++ g.weak → g.isblack p = false)
    (refs : g.gcstate = .propagate → ¬ waits g p → g.isblack p = true → ∀ r ∈ g.refs p, r = v ∨ g.iswhite r = false) :
    Invariant (waits g) (g.luaCObjbarrier q v) := by
  unfold luaCObjbarrier luaCBarrierf
  by_cases marks : g.gcstate = .propagate
  · rw [if_pos marks]
    have marking := inv.marking marks
    by_cases caught : (g.iswhite v && g.isblack q) = true
    · rw [if_pos caught]
      simp only [Bool.and_eq_true] at caught
      have ready := Shape.markReady inv.shape (marking.referring inv.sound)
      obtain ⟨shades, marked⟩ := reallymarkobject_shades ready.markable alive.1 caught.1
      have marking' := Marking.shades shades inv.shape.white marking
      refine inv.shades marks shades (settle_unless marking' (fun free isBlack r ref => ?_) (shaded_unlisted shades
        (fun o mem => (marking.listed o mem).2.1) (unlisted marks))) (((inv.keyed marks).shades shades).settle noTable)
      cases shades.marks p with
      | inl same =>
        rw [isblack_eq, same, ← isblack_eq] at isBlack
        rw [shades.refs] at ref
        cases refs marks free isBlack r ref with
        | inl isNew => exact isNew ▸ marked
        | inr old => exact shades.nonwhite old
      | inr shaded =>
        rw [shades.refs] at ref
        exact (shaded.black isBlack).2 r ref
    · rw [if_neg caught]
      refine inv.repend (fun _ => settle_unless marking (fun free isBlack r ref => ?_) (unlisted marks))
        fun _ => (inv.keyed marks).settle noTable
      simp only [Bool.and_eq_true, not_and, Bool.not_eq_true] at caught
      cases refs marks free isBlack r ref with
      | inr old => exact old
      | inl isNew =>
        rw [isNew]
        cases white : g.iswhite v with
        | false => rfl
        | true =>
          have notBlack := caught white
          rw [covered marks isBlack] at notBlack
          cases notBlack
  · rw [if_neg marks]
    split
    next caught =>
      simp only [Bool.and_eq_true] at caught
      exact inv.makewhite marks (blacked_alive inv object caught.2)
    next => exact inv.idle marks

/-- The backward barrier, after the table was written to. -/
theorem Invariant.objbarriert {h : Nat} {v : GCObject} (inv : Invariant (also (waits g) (.table h)) g)
    (object : .table h ∈ g.objects)
    (unlisted : g.gcstate = .propagate → .table h ∈ g.gray ++ g.grayagain ++ g.weak → g.isblack (.table h) = false)
    (refs : g.gcstate = .propagate → g.isblack (.table h) = true → ∀ r ∈ g.refs (.table h), r = v ∨ g.iswhite r = false)
    (keys : g.gcstate = .propagate → g.isblack (.table h) = true → ∀ n ∈ (g.heap.tables h).node, ∀ r ∈ gcvalue n.key,
      r ∈ g.objects ∧ (r = v ∨ g.iswhite r = false)) :
    Invariant (waits g) (g.luaCObjbarriert h v) := by
  unfold luaCObjbarriert luaCBarrierback
  by_cases caught : (g.iswhite v && g.isblack (.table h)) = true
  · rw [if_pos caught]
    simp only [Bool.and_eq_true] at caught
    have nonwhite : g.iswhite (.table h) = false := by
      cases white : g.iswhite (.table h) with
      | false => rfl
      | true =>
        have notBlack := (inv.shape.coloured _ object).isblack white
        rw [caught.2] at notBlack
        cases notBlack
    have shape : Shape (g.black2gray (.table h)) := shape_setMark inv.shape (inv.shape.coloured _ object).black2gray
      (black2gray_flags _) ((by decide : ∀ m : BitVec 8, blackMark (m &&& ~~~blackbit) = false) _)
    have dead := fun o => (black2gray_isdead inv.shape.white : (g.black2gray (.table h)).isdead o = g.isdead o)
    refine ⟨⟨shape.white, shape.nodup, shape.main, shape.closed, shape.opened, shape.uvhead, shape.distinct,
      shape.coloured, shape.fixed, shape.thread, shape.upval⟩, ⟨fun o root => ?_, fun o alive r ref => ?_⟩, inv.table,
      fun marks => ?_, fun idle o object' => ?_, inv.sweepstring, inv.sweepgc,
      fun marks h' object' isBlack free n mem r isKey => ?_⟩
    · have alive := inv.sound.roots o root
      exact ⟨alive.1, (dead o).trans alive.2⟩
    · have before := inv.sound.refs o ⟨alive.1, (dead o).symm.trans alive.2⟩ r ref
      exact ⟨before.1, (dead r).trans before.2⟩
    · -- the table is on no list, since it is black
      have marking := inv.marking marks
      have free : .table h ∉ g.gray ++ g.grayagain ++ g.weak := fun mem => by
        have notBlack := unlisted marks mem
        rw [caught.2] at notBlack
        cases notBlack
      have perm : (g.gray ++ (.table h :: g.grayagain) ++ g.weak).Perm (.table h :: (g.gray ++ g.grayagain ++ g.weak)) :=
        List.perm_middle.append_right _
      have moved : ∀ o, o ∈ g.gray ++ (.table h :: g.grayagain) ++ g.weak ↔
          o = .table h ∨ o ∈ g.gray ++ g.grayagain ++ g.weak := fun o => by rw [perm.mem_iff, List.mem_cons]
      refine ⟨fun o object' => (black2gray_isdead inv.shape.white).trans (marking.alive o object'),
        fun o object' isBlack notWaiting r ref => ?_, fun o object' isGray => ?_, fun o mem => ?_,
        perm.nodup_iff.mpr (List.nodup_cons.mpr ⟨free, marking.distinct⟩), marking.weak,
        black2gray_iswhite.trans marking.main, fun o isValue => black2gray_iswhite.trans (marking.registry o isValue)⟩
      · have colours : (g.isblack o && !decide (o = .table h)) = true := black2gray_isblack.symm.trans isBlack
        simp only [Bool.and_eq_true, Bool.not_eq_true', decide_eq_false_iff_not] at colours
        exact black2gray_iswhite.trans (marking.black o object' colours.1
          (fun isPending => isPending.elim notWaiting colours.2) r ref)
      · by_cases here : o = .table h
        · exact .inl ((moved o).mpr (.inl here))
        · have colours := isgray_iff.mp isGray
          have notBlack : (g.isblack o && !decide (o = .table h)) = false := black2gray_isblack.symm.trans colours.1
          simp only [here, decide_false, Bool.not_false, Bool.and_true] at notBlack
          have before := marking.gray o object' (isgray_iff.mpr ⟨notBlack, black2gray_iswhite.symm.trans colours.2⟩)
          exact before.imp (fun mem => (moved o).mpr (.inr mem)) id
      · cases (moved o).mp mem with
        | inl here =>
          rw [here]
          refine ⟨object, black2gray_iswhite.trans nonwhite, trivial, fun isBlack => ?_⟩
          have none : (g.isblack (.table h) && !decide (GCObject.table h = .table h)) = true :=
            black2gray_isblack.symm.trans isBlack
          simp at none
        | inr old =>
          obtain ⟨object', nonwhite', traversable, black⟩ := marking.listed o old
          refine ⟨object', black2gray_iswhite.trans nonwhite', traversable, fun isBlack => ?_⟩
          have colours : (g.isblack o && !decide (o = .table h)) = true := black2gray_isblack.symm.trans isBlack
          simp only [Bool.and_eq_true, Bool.not_eq_true', decide_eq_false_iff_not] at colours
          exact (black colours.1).resolve_right colours.2
    · -- a black table has yet to be swept
      by_cases here : o = .table h
      · subst here
        rcases inv.swept idle _ object with fresh | unswept | ⟨⟨u, -, same⟩, -⟩
        · rw [fresh.1] at nonwhite
          cases nonwhite
        · exact .inr (.inl unswept)
        · cases same
      · refine (inv.swept idle o object').imp (fun fresh => ?_) (.imp id fun waiting => ?_)
        · exact ⟨black2gray_iswhite.trans fresh.1, (black2gray_isdead inv.shape.white).trans fresh.2⟩
        · refine ⟨waiting.1, (black2gray_isdead inv.shape.white).trans waiting.2.1, ?_⟩
          have black : (g.black2gray (.table h)).isblack o = g.isblack o := by
            simp [black2gray_isblack, here]
          have gray : (g.black2gray (.table h)).isgray o = g.isgray o := by
            rw [isgray, isgray, black, black2gray_iswhite]
          exact gray.trans waiting.2.2
    · have colours : (g.isblack (.table h') && !decide (GCObject.table h' = .table h)) = true :=
        black2gray_isblack.symm.trans isBlack
      simp only [Bool.and_eq_true, Bool.not_eq_true', decide_eq_false_iff_not] at colours
      obtain ⟨inside, nonwhite'⟩ := inv.keyed marks h' object' colours.1
        (fun isPending => isPending.elim free colours.2) n mem r isKey
      exact ⟨inside, black2gray_iswhite.trans nonwhite'⟩
  · rw [if_neg caught]
    simp only [Bool.and_eq_true, not_and, Bool.not_eq_true] at caught
    have covered : g.isblack (.table h) = true → ∀ r, r = v ∨ g.iswhite r = false → g.iswhite r = false := by
      intro isBlack r either
      rcases either with rfl | old
      · cases white : g.iswhite r with
        | false => rfl
        | true =>
          have notBlack := caught white
          rw [isBlack] at notBlack
          cases notBlack
      · exact old
    refine inv.repend (fun marks => (inv.marking marks).settle
      (fun isBlack r ref => covered isBlack r (refs marks isBlack r ref)) (unlisted marks)) fun marks => ?_
    intro h' object' isBlack free n mem r isKey
    by_cases here : h' = h
    · subst here
      obtain ⟨inside, new⟩ := keys marks isBlack n mem r isKey
      exact ⟨inside, covered isBlack r new⟩
    · exact inv.keyed marks h' object' isBlack (fun isPending => isPending.elim free fun same => here (by cases same; rfl))
        n mem r isKey

/-! ## Objects that are freed or made white -/

-- the mark that makewhite gives
def whitened (g : GlobalState) (o : GCObject) : BitVec 8 :=
  (g.marked o &&& ~~~(blackbit ||| whitebits)) ||| g.luaCWhite

/-- Objects are freed that are condemned, and some that are not are made white. -/
structure Sweeps (g g' : GlobalState) : Prop where
  rest : ∃ marked hash rootgc openupval uvhead sweepgc sweepstrgc gcstate,
    g' = { g with marked, hash, rootgc, openupval, uvhead, sweepgc, sweepstrgc, gcstate }
  nodup : g'.objects.Nodup
  objects : ∀ o ∈ g'.objects, o ∈ g.objects
  freed : ∀ o ∈ g.objects, o ∉ g'.objects → g.condemned o = true
  rootgc : ∀ o ∈ g'.rootgc, o ∈ g.rootgc
  main : .thread g.mainthread ∈ g'.rootgc
  opened : ∀ th, ∀ uv ∈ g'.openupval th, uv ∈ g.openupval th
  uvhead : ∀ uv, uv ∈ g'.uvhead ↔ ∃ th, .thread th ∈ g'.rootgc ∧ uv ∈ g'.openupval th
  distinct : g'.uvhead.Nodup
  marks : ∀ o, g'.marked o = g.marked o ∨ (g.condemned o = false ∧ g'.marked o = whitened g o)

section Sweeps

variable (sweeps : Sweeps g g')

include sweeps

theorem Sweeps.currentwhite : g'.currentwhite = g.currentwhite := by
  obtain ⟨marked, hash, rootgc, openupval, uvhead, sweepgc, sweepstrgc, gcstate, rfl⟩ := sweeps.rest
  rfl

theorem Sweeps.otherwhite : g'.otherwhite = g.otherwhite := by
  unfold GlobalState.otherwhite
  rw [sweeps.currentwhite]

theorem Sweeps.waiting : waits g' = waits g := by
  obtain ⟨marked, hash, rootgc, openupval, uvhead, sweepgc, sweepstrgc, gcstate, rfl⟩ := sweeps.rest
  rfl

theorem Sweeps.isdead (same : g'.marked o = g.marked o) : g'.isdead o = g.isdead o := by
  rw [isdead_eq, isdead_eq, sweeps.otherwhite, same]

theorem Sweeps.alive (white : White g) (alive : Alive g o) : Alive g' o := by
  obtain ⟨object, notDead⟩ := alive
  refine ⟨?_, ?_⟩
  · by_contra gone
    rw [condemned_isdead white (sweeps.freed o object gone)] at notDead
    cases notDead
  · cases sweeps.marks o with
    | inl unchanged => exact (sweeps.isdead unchanged).trans notDead
    | inr changed =>
      rw [isdead_eq, sweeps.otherwhite, changed.2]
      exact (freshMark_makewhite white _).alive

-- what was dead and is fixed comes back
theorem Sweeps.alive_inv (shape : Shape g) (sound : Sound g) (alive : Alive g' o) : Alive g o ∨ ∃ ts, o = .string ts := by
  have object := sweeps.objects o alive.1
  cases sweeps.marks o with
  | inl unchanged => exact .inl ⟨object, (sweeps.isdead unchanged).symm.trans alive.2⟩
  | inr changed =>
    cases dead : g.isdead o with
    | false => exact .inl ⟨object, dead⟩
    | true =>
      have isFixed : g.marked o &&& fixedbit ≠ 0 := fun unfixed => by
        rw [condemned_of_isdead shape.white unfixed dead] at changed
        cases changed.1
      rcases shape.fixed o object isFixed with isString | rfl
      · exact .inr isString
      · exact .inl (sound.roots _ (List.mem_cons_self ..))

theorem Sweeps.fresh (white : White g) (changed : g'.marked o = whitened g o) : Fresh g' o := by
  have new := freshMark_makewhite white (g.marked o)
  unfold Fresh
  rw [iswhite_eq, isdead_eq, sweeps.otherwhite, changed]
  exact ⟨new.white, new.alive⟩

theorem Sweeps.sound (shape : Shape g) (sound : Sound g) : Sound g' := by
  have refs : g'.refs = g.refs ∧ g'.roots = g.roots := by
    obtain ⟨marked, hash, rootgc, openupval, uvhead, sweepgc, sweepstrgc, gcstate, rfl⟩ := sweeps.rest
    exact ⟨rfl, rfl⟩
  refine ⟨fun o root => ?_, fun o alive r ref => ?_⟩
  · exact sweeps.alive shape.white (sound.roots o (refs.2 ▸ root))
  · rcases sweeps.alive_inv shape sound alive with before | ⟨ts, rfl⟩
    · exact sweeps.alive shape.white (sound.refs o before r (refs.1 ▸ ref))
    · cases ref

theorem Sweeps.shape (shape : Shape g) : Shape g' := by
  have coloured : ∀ o ∈ g'.objects, Coloured (g'.marked o) := fun o object => by
    cases sweeps.marks o with
    | inl same => rw [same]; exact shape.coloured o (sweeps.objects o object)
    | inr changed => rw [changed.2]; exact Coloured.makewhite shape.white _
  have flags : ∀ o, g'.marked o &&& flagbits = g.marked o &&& flagbits := fun o => by
    cases sweeps.marks o with
    | inl same => rw [same]
    | inr changed => rw [changed.2]; exact makewhite_flags shape.white _
  have black : ∀ o, g.isblack o = false → g'.isblack o = false := fun o notBlack => by
    cases sweeps.marks o with
    | inl same => rw [isblack_eq, same, ← isblack_eq, notBlack]
    | inr changed => rw [isblack_eq, changed.2]; exact (freshMark_makewhite shape.white _).black
  have nodup := sweeps.nodup
  have objects := sweeps.objects
  have rootgc := sweeps.rootgc
  have main := sweeps.main
  have opened := sweeps.opened
  have uvhead := sweeps.uvhead
  have distinct := sweeps.distinct
  have upval : ∀ uv ∈ g'.uvhead, g'.isblack (.upval uv) = false := fun uv mem => by
    obtain ⟨th, root, isOpen⟩ := (uvhead uv).mp mem
    exact black _ (shape.upval uv ((shape.uvhead uv).mpr ⟨th, rootgc _ root, opened th uv isOpen⟩))
  obtain ⟨marked', hash', rootgc', openupval', uvhead', sweepgc', sweepstrgc', gcstate', rfl⟩ := sweeps.rest
  exact ⟨shape.white, nodup, main, fun uv mem => shape.closed uv (rootgc _ mem),
    fun th uv root mem => shape.opened th uv (rootgc _ root) (opened th uv mem), uvhead, distinct, coloured,
    fun o object isFixed => shape.fixed o (objects o object) (fixed_of_flags (flags o) ▸ isFixed),
    fun th object => black _ (shape.thread th (objects _ object)), upval⟩

/-- What has not been swept is still to be swept, or is white. -/
theorem Sweeps.invariant (inv : Invariant pending g) (idle : g.gcstate ≠ .propagate) (idle' : g'.gcstate ≠ .propagate)
    (table : g'.hash ≠ []) (sweepstring : g'.gcstate = .sweepstring → g'.sweepgc = none)
    (sweepgc : ∀ p ∈ g'.sweepgc, p ∈ g'.rootgc)
    (unswept : ∀ o ∈ g'.objects, Unswept g o → Fresh g' o ∨ Unswept g' o) : Invariant more g' := by
  refine ⟨sweeps.shape inv.shape, sweeps.sound inv.shape inv.sound, table, fun marks => absurd marks idle',
    fun _ o object => ?_, sweepstring, sweepgc, fun marks => absurd marks idle'⟩
  cases sweeps.marks o with
  | inr changed => exact .inl (sweeps.fresh inv.shape.white changed.2)
  | inl same =>
    have colours : g'.iswhite o = g.iswhite o ∧ g'.isdead o = g.isdead o ∧ g'.isblack o = g.isblack o := by
      rw [iswhite_eq, isdead_eq, isblack_eq, iswhite_eq, isdead_eq, isblack_eq, sweeps.otherwhite, same]
      exact ⟨rfl, rfl, rfl⟩
    rcases inv.swept idle o (sweeps.objects o object) with fresh | isUnswept | ⟨waiting, alive, notGray⟩
    · exact .inl ⟨colours.1.trans fresh.1, colours.2.1.trans fresh.2⟩
    · exact (unswept o object isUnswept).imp id .inl
    · refine .inr (.inr ⟨sweeps.waiting ▸ waiting, colours.2.1.trans alive, ?_⟩)
      rw [isgray, colours.1, colours.2.2]
      exact notGray

end Sweeps

end Lunatik.Verified.CollectorInvariant
