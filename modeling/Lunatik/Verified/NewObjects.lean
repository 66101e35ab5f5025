import Lunatik.Verified.CollectorSteps

/-! # New objects

A new object is as white as the phase asks for, and nothing but what it is written to refers to it.
-/

namespace Lunatik.Verified.NewObjects

open Lunatik.Library
open Lunatik.Lua (GCState maxInt setAt setAt_same setAt_other)
open Lunatik.Lua.Gc Lunatik.Lua.Gc.GlobalState
open Lunatik.Lua.StringTable (whitebits blackbit fixedbit lmod hashOf)
open Lunatik.Verified.Colours Lunatik.Verified.References Lunatik.Verified.Tricolor Lunatik.Verified.Propagation
open Lunatik.Verified.AtomicPhase Lunatik.Verified.CollectorInvariant Lunatik.Verified.UpvalueSteps
open Lunatik.Verified.SweepPhase Lunatik.Verified.CollectorSteps

variable {pending : GCObject → Prop} {g g' : GlobalState} {o : GCObject}

/-- One object more. -/
structure Grows (o : GCObject) (g g' : GlobalState) : Prop where
  rest : ∃ heap marked hash rootgc openupval uvhead, g' = { g with heap, marked, hash, rootgc, openupval, uvhead }
  free : o ∉ g.objects
  objects : g'.objects.Perm (o :: g.objects)
  marks : g'.marked = (g.setMark o g.luaCWhite).marked
  others : ∀ o' ∈ g.objects, g'.refs o' = g.refs o'
  refs : ∀ r ∈ g'.refs o, Alive g r
  tables : ∀ h, .table h ∈ g.objects → g'.heap.tables h = g.heap.tables h
  owned : ∀ uv, .upval uv ∈ g.objects → (Owned g' uv ↔ Owned g uv)
  rootgc : ∀ o' ∈ g.rootgc, o' ∈ g'.rootgc
  closed : ∀ uv, .upval uv ∈ g'.rootgc → Owned g' uv
  opened : ∀ th uv, .thread th ∈ g'.rootgc → uv ∈ g'.openupval th → ∃ slot, (g'.heap.upvals uv).v = .stack th slot
  uvhead : ∀ uv, uv ∈ g'.uvhead ↔ ∃ th, .thread th ∈ g'.rootgc ∧ uv ∈ g'.openupval th
  distinct : g'.uvhead.Nodup
  upval : ∀ uv ∈ g'.uvhead, uv ∈ g.uvhead ∨ o = .upval uv
  table : g.hash ≠ [] → g'.hash ≠ []
  unswept : ∀ o' ∈ g.objects, Unswept g o' → Unswept g' o'

section Grows

variable (grows : Grows o g g')

include grows

theorem Grows.mem {o' : GCObject} : o' ∈ g'.objects ↔ o' = o ∨ o' ∈ g.objects := by
  rw [grows.objects.mem_iff, List.mem_cons]

theorem Grows.ne {o' : GCObject} (object : o' ∈ g.objects) : o' ≠ o := fun same => grows.free (same ▸ object)

theorem Grows.marked {o' : GCObject} (object : o' ∈ g.objects) : g'.marked o' = g.marked o' := by
  rw [grows.marks]
  exact setMark_other (grows.ne object)

theorem Grows.otherwhite : g'.otherwhite = g.otherwhite := by
  obtain ⟨heap, marked, hash, rootgc, openupval, uvhead, rfl⟩ := grows.rest
  rfl

theorem Grows.waiting : waits g' = waits g := by
  obtain ⟨heap, marked, hash, rootgc, openupval, uvhead, rfl⟩ := grows.rest
  rfl

theorem Grows.colours {o' : GCObject} (object : o' ∈ g.objects) : g'.iswhite o' = g.iswhite o' ∧
    g'.isblack o' = g.isblack o' ∧ g'.isdead o' = g.isdead o' := by
  simp only [iswhite_eq, isblack_eq, isdead_eq, grows.otherwhite, grows.marked object, and_self]

theorem Grows.fresh (white : White g) : Fresh g' o ∧ g'.isblack o = false := by
  have new := freshMark_luaCWhite white
  have here : g'.marked o = g.luaCWhite := by
    rw [grows.marks]
    exact setMark_self
  simp only [Fresh, iswhite_eq, isblack_eq, isdead_eq, grows.otherwhite, here]
  exact ⟨⟨new.white, new.alive⟩, new.black⟩

theorem Grows.alive {o' : GCObject} (alive : Alive g o') : Alive g' o' :=
  ⟨grows.mem.mpr (.inr alive.1), (grows.colours alive.1).2.2.trans alive.2⟩

theorem Grows.new_alive (white : White g) : Alive g' o :=
  ⟨grows.mem.mpr (.inl rfl), (grows.fresh white).1.2⟩

theorem Grows.shape (shape : Shape g) : Shape g' := by
  have coloured : ∀ o' ∈ g'.objects, Coloured (g'.marked o') := fun o' object => by
    rcases grows.mem.mp object with rfl | old
    · rw [grows.marks, setMark_self]
      exact Coloured.luaCWhite shape.white
    · rw [grows.marked old]
      exact shape.coloured o' old
  have fixed : ∀ o' ∈ g'.objects, g'.marked o' &&& fixedbit ≠ 0 → (∃ ts, o' = .string ts) ∨ o' = .thread g.mainthread :=
    fun o' object isFixed => by
      rcases grows.mem.mp object with rfl | old
      · rw [grows.marks, setMark_self] at isFixed
        have unfixed : g.currentwhite &&& whitebits &&& fixedbit = 0 :=
          shape.white.elim (p := fun current _ => current &&& whitebits &&& fixedbit = 0) (by decide) (by decide)
        exact absurd unfixed isFixed
      · rw [grows.marked old] at isFixed
        exact shape.fixed o' old isFixed
  have notBlack : ∀ o' ∈ g'.objects, (o' ∈ g.objects → g.isblack o' = false) → g'.isblack o' = false :=
    fun o' object before => by
      rcases grows.mem.mp object with rfl | old
      · exact (grows.fresh shape.white).2
      · exact (grows.colours old).2.1.trans (before old)
  have upval : ∀ uv ∈ g'.uvhead, g'.isblack (.upval uv) = false := fun uv mem => by
    rcases grows.upval uv mem with old | rfl
    · have object := (shape.uvhead_object old).1
      exact notBlack _ (grows.mem.mpr (.inr object)) fun _ => shape.upval uv old
    · exact (grows.fresh shape.white).2
  have thread : ∀ th, .thread th ∈ g'.objects → g'.isblack (.thread th) = false := fun th object =>
    notBlack _ object (shape.thread th)
  have nodup : g'.objects.Nodup := grows.objects.nodup_iff.mpr (List.nodup_cons.mpr ⟨grows.free, shape.nodup⟩)
  have main := grows.rootgc _ shape.main
  have closed := grows.closed
  have opened := grows.opened
  have uvhead := grows.uvhead
  have distinct := grows.distinct
  obtain ⟨heap, marked, hash, rootgc, openupval, uvhead', rfl⟩ := grows.rest
  exact ⟨shape.white, nodup, main, closed, opened, uvhead, distinct, coloured, fixed, thread, upval⟩

theorem Grows.sound (sound : Sound g) : Sound g' := by
  have roots : g'.roots = g.roots := by
    obtain ⟨heap, marked, hash, rootgc, openupval, uvhead, rfl⟩ := grows.rest
    rfl
  refine ⟨fun o' root => grows.alive (sound.roots o' (roots ▸ root)), fun o' alive r ref => grows.alive ?_⟩
  rcases grows.mem.mp alive.1 with rfl | old
  · exact grows.refs r ref
  · rw [grows.others o' old] at ref
    exact sound.refs o' ⟨old, (grows.colours old).2.2.symm.trans alive.2⟩ r ref

theorem Grows.marking (shape : Shape g) (sound : Sound g) (marking : Marking pending g) : Marking pending g' := by
  have fresh := grows.fresh shape.white
  have referring := marking.referring sound
  have lists : g'.gray ++ g'.grayagain ++ g'.weak = g.gray ++ g.grayagain ++ g.weak ∧ g'.weak = g.weak ∧
      g'.mainthread = g.mainthread ∧ g'.registry = g.registry := by
    obtain ⟨heap, marked, hash, rootgc, openupval, uvhead, rfl⟩ := grows.rest
    exact ⟨rfl, rfl, rfl, rfl⟩
  refine ⟨fun o' object => ?_, fun o' object isBlack free r ref => ?_, fun o' object isGray => ?_, fun o' mem => ?_,
    lists.1 ▸ marking.distinct, lists.2.1 ▸ marking.weak, ?_, fun o' isValue => ?_⟩
  · rcases grows.mem.mp object with rfl | old
    · exact fresh.1.2
    · exact (grows.colours old).2.2.trans (marking.alive o' old)
  · rcases grows.mem.mp object with rfl | old
    · rw [fresh.2] at isBlack
      cases isBlack
    · rw [grows.others o' old] at ref
      rw [(grows.colours old).2.1] at isBlack
      exact (grows.colours (referring o' old r ref)).1.trans (marking.black o' old isBlack free r ref)
  · unfold Listed
    rw [lists.1]
    rcases grows.mem.mp object with rfl | old
    · have nonwhite := (isgray_iff.mp isGray).2
      rw [fresh.1.1] at nonwhite
      cases nonwhite
    · have before : g.isgray o' = true := by
        rw [isgray_iff, ← (grows.colours old).1, ← (grows.colours old).2.1]
        exact isgray_iff.mp isGray
      refine (marking.gray o' old before).imp id (.imp id ?_)
      rintro ⟨uv, rfl, unowned⟩
      exact ⟨uv, rfl, fun owned => unowned ((grows.owned uv old).mp owned)⟩
  · rw [lists.1] at mem
    obtain ⟨object, nonwhite, traversable, black⟩ := marking.listed o' mem
    refine ⟨grows.mem.mpr (.inr object), (grows.colours object).1.trans nonwhite, traversable, fun isBlack => black ?_⟩
    exact (grows.colours object).2.1.symm.trans isBlack
  · rw [lists.2.2.1]
    exact (grows.colours (mem_objects.mpr (.inl shape.main))).1.trans marking.main
  · rw [lists.2.2.2] at isValue
    have object := (sound.roots o' (by simp [roots, Option.mem_def.mp isValue])).1
    exact (grows.colours object).1.trans (marking.registry o' isValue)

/-- A new object keeps the invariant. -/
theorem Grows.invariant (inv : Invariant pending g) : Invariant pending g' := by
  have shape := grows.shape inv.shape
  have sound := grows.sound inv.sound
  have state : g'.gcstate = g.gcstate ∧ g'.sweepgc = g.sweepgc := by
    obtain ⟨heap, marked, hash, rootgc, openupval, uvhead, rfl⟩ := grows.rest
    exact ⟨rfl, rfl⟩
  refine ⟨shape, sound, grows.table inv.table, fun marks => ?_, fun idle o' object => ?_, fun strings => ?_, fun p isPos => ?_,
    fun marks h object isBlack free n mem r isKey => ?_⟩
  · exact grows.marking inv.shape inv.sound (inv.marking (state.1 ▸ marks))
  · rcases grows.mem.mp object with rfl | old
    · exact .inl (grows.fresh inv.shape.white).1
    · obtain ⟨white, black, dead⟩ := grows.colours old
      rcases inv.swept (state.1 ▸ idle) o' old with fresh | unswept | ⟨waiting, alive, notGray⟩
      · exact .inl ⟨white.trans fresh.1, dead.trans fresh.2⟩
      · exact .inr (.inl (grows.unswept o' old unswept))
      · refine .inr (.inr ⟨grows.waiting ▸ waiting, dead.trans alive, ?_⟩)
        rw [isgray, black, white]
        exact notGray
  · rw [state.2]
    exact inv.sweepstring (state.1 ▸ strings)
  · rw [state.2] at isPos
    exact grows.rootgc p (inv.sweepgc p isPos)
  · rcases grows.mem.mp object with rfl | old
    · rw [(grows.fresh inv.shape.white).2] at isBlack
      cases isBlack
    · rw [(grows.colours old).2.1] at isBlack
      rw [grows.tables h old] at mem
      obtain ⟨inside, nonwhite⟩ := inv.keyed (state.1 ▸ marks) h old isBlack free n mem r isKey
      exact ⟨grows.mem.mpr (.inr inside), (grows.colours inside).1.trans nonwhite⟩

end Grows

/-! ## Collected objects -/

-- an object that is not open has a place of its own in the list of all
structure Chained (o : GCObject) (g : GlobalState) (rootgc : List GCObject) : Prop where
  perm : rootgc.Perm (o :: g.rootgc)
  behind : ∀ o', o' ∈ after g.sweepgc g.rootgc → o' ∈ after g.sweepgc rootgc

theorem chained_cons (inv : Invariant pending g) (free : o ∉ g.objects) : Chained o g (o :: g.rootgc) := by
  refine ⟨.refl _, fun o' mem => ?_⟩
  cases isPos : g.sweepgc with
  | none => rw [isPos] at mem; exact List.mem_cons_of_mem _ mem
  | some p =>
    rw [isPos] at mem
    have ne : o ≠ p := fun same => free (same ▸ mem_objects.mpr (.inl (inv.sweepgc p isPos)))
    rw [after_cons, if_neg ne]
    exact mem

theorem mem_after_chained {p : Option GCObject} {u : Nat} {main o' : GCObject} {l : List GCObject}
    (other : ∀ q ∈ p, q ≠ .userdata u) (mem : o' ∈ after p l) :
    o' ∈ after p (l.flatMap fun o => if o = main then [o, .userdata u] else [o]) := by
  cases p with
  | none =>
    refine List.mem_flatMap.mpr ⟨o', mem, ?_⟩
    split <;> simp
  | some q =>
    have ne := other q rfl
    induction l with
    | nil => simp [after] at mem
    | cons x l ih =>
      rw [after_cons] at mem
      rw [List.flatMap_cons]
      have inTail : ∀ l : List GCObject, o' ∈ l → o' ∈ l.flatMap fun o => if o = main then [o, .userdata u] else [o] :=
        fun l mem => List.mem_flatMap.mpr ⟨o', mem, by split <;> simp⟩
      by_cases isMain : x = main
      · rw [if_pos isMain, List.cons_append, List.cons_append, List.nil_append, after_cons]
        by_cases here : x = q
        · rw [if_pos here] at mem ⊢
          exact List.mem_cons_of_mem _ (inTail l mem)
        · rw [if_neg here] at mem
          rw [if_neg here, after_cons, if_neg ne.symm]
          exact ih mem
      · rw [if_neg isMain, List.cons_append, List.nil_append, after_cons]
        by_cases here : x = q
        · rw [if_pos here] at mem ⊢
          exact inTail l mem
        · rw [if_neg here] at mem ⊢
          exact ih mem

theorem chained_udata {u : Nat} (inv : Invariant pending g) (free : .userdata u ∉ g.objects) :
    Chained (.userdata u) g (g.chainudata u).rootgc := by
  refine ⟨chainudata_perm (rootgc_nodup inv.shape) inv.shape.main, fun o' mem => mem_after_chained (fun q isPos same => ?_) mem⟩
  exact free (same ▸ mem_objects.mpr (.inl (inv.sweepgc q isPos)))

/-- A new object among those that are collected. -/
theorem Chained.grows {rootgc : List GCObject} (chained : Chained o g rootgc) (heap : Heap) (openupval : Nat → List Nat)
    (shape : Shape g) (free : o ∉ g.objects)
    (kept : ∀ th, .thread th ≠ o → openupval th = g.openupval th) (empty : ∀ th, .thread th = o → openupval th = [])
    (pointers : ∀ uv, .upval uv ≠ o → (heap.upvals uv).v = (g.heap.upvals uv).v)
    (owned : ∀ uv, .upval uv = o → (heap.upvals uv).v = .own)
    (tables : ∀ h, .table h ≠ o → heap.tables h = g.heap.tables h)
    (others : ∀ o' ∈ g.objects, { g with heap }.refs o' = g.refs o') (refs : ∀ r ∈ { g with heap }.refs o, Alive g r) :
    Grows o g ({ g with heap, rootgc, openupval }.setMark o g.luaCWhite) := by
  have mem : ∀ o', o' ∈ rootgc ↔ o' = o ∨ o' ∈ g.rootgc := fun o' => by rw [chained.perm.mem_iff, List.mem_cons]
  have ne : ∀ o' ∈ g.rootgc, o' ≠ o := fun o' root same => free (same ▸ mem_objects.mpr (.inl root))
  have openOf : ∀ o' ∈ g.rootgc, { g with heap, rootgc, openupval }.openOf o' = g.openOf o' := fun o' root => by
    cases o' with
    | thread th => simp [GlobalState.openOf, kept th (ne _ root)]
    | _ => rfl
  have openNew : { g with heap, rootgc, openupval }.openOf o = [] := by
    cases o with
    | thread th => simp [GlobalState.openOf, empty th rfl]
    | _ => rfl
  have opened : ∀ th uv, .thread th ∈ rootgc → uv ∈ openupval th → .thread th ∈ g.rootgc ∧ uv ∈ g.openupval th := by
    intro th uv root isOpen
    rcases (mem _).mp root with same | old
    · rw [empty th same] at isOpen
      cases isOpen
    · exact ⟨old, kept th (ne _ old) ▸ isOpen⟩
  have unopened : ∀ th uv, .thread th ∈ g.rootgc → uv ∈ g.openupval th → .upval uv ≠ o := fun th uv root isOpen same =>
    free (same ▸ mem_objects.mpr (.inr (.inl ⟨th, uv, root, isOpen, rfl⟩)))
  have perm : (rootgc.flatMap { g with heap, rootgc, openupval }.openOf).Perm (g.rootgc.flatMap g.openOf) := by
    have first := chained.perm.flatMap_right { g with heap, rootgc, openupval }.openOf
    rw [List.flatMap_cons, openNew, List.nil_append, List.flatMap_congr openOf] at first
    exact first
  exact
    { rest := ⟨_, _, _, _, _, _, rfl⟩
      free
      objects := ((chained.perm.append perm).append_right _).append_right _
      marks := rfl
      others
      refs
      tables := fun h object => tables h fun same => free (same ▸ object)
      owned := fun uv object => by
        have other : .upval uv ≠ o := fun same => free (same ▸ object)
        show (heap.upvals uv).v = .own ↔ _
        rw [pointers uv other]
        exact Iff.rfl
      rootgc := fun o' root => (mem o').mpr (.inr root)
      closed := fun uv root => by
        rcases (mem _).mp root with same | old
        · exact owned uv same
        · exact (pointers uv (ne _ old)).trans (shape.closed uv old)
      opened := fun th uv root isOpen => by
        obtain ⟨old, isOpen'⟩ := opened th uv root isOpen
        obtain ⟨slot, isSlot⟩ := shape.opened th uv old isOpen'
        exact ⟨slot, (pointers uv (unopened th uv old isOpen')).trans isSlot⟩
      uvhead := fun uv => by
        refine (shape.uvhead uv).trans ⟨fun inside => ?_, fun inside => ?_⟩
        · obtain ⟨th, root, isOpen⟩ := inside
          exact ⟨th, (mem _).mpr (.inr root), by
            show uv ∈ openupval th
            rw [kept th (ne _ root)]
            exact isOpen⟩
        · obtain ⟨th, root, isOpen⟩ := inside
          exact ⟨th, opened th uv root isOpen⟩
      distinct := shape.distinct
      upval := fun uv => .inl
      table := id
      unswept := fun o' object unswept => by
        refine unswept.imp id (.imp id (.imp (chained.behind o') ?_))
        rintro ⟨th, uv, place, isOpen, rfl⟩
        exact ⟨th, uv, chained.behind _ place, by
          show uv ∈ openupval th
          rw [kept th (ne _ (mem_after place))]
          exact isOpen, rfl⟩ }

/-! ## What a program gets -/

/-- What is alive stays, and at most the objects of a list are new. -/
structure Extends (new : List GCObject) (g g' : GlobalState) : Prop where
  inv : Invariant (waits g') g'
  alive : ∀ o, Alive g o → Alive g' o
  objects : ∀ o ∈ g'.objects, o ∈ g.objects ∨ o ∈ new
  threads : g'.heap.threads = g.heap.threads

theorem Extends.refl (inv : Invariant (waits g) g) : Extends [] g g := ⟨inv, fun _ => id, fun _ => .inl, rfl⟩

theorem Extends.trans {new new' : List GCObject} {g₁ : GlobalState} (first : Extends new g g') (second : Extends new' g' g₁) :
    Extends (new ++ new') g g₁ where
  inv := second.inv
  alive := fun o isAlive => second.alive o (first.alive o isAlive)
  objects := fun o object => by
    rcases second.objects o object with old | isNew
    · exact (first.objects o old).imp id (List.mem_append_left _)
    · exact .inr (List.mem_append_right _ isNew)
  threads := second.threads.trans first.threads

theorem Grows.extends (grows : Grows o g g') (inv : Invariant (waits g) g) (threads : g'.heap.threads = g.heap.threads) :
    Extends [o] g g' ∧ Alive g' o := by
  have inv' := grows.invariant inv
  rw [← grows.waiting] at inv'
  refine ⟨⟨inv', fun o' => grows.alive, fun o' object => ?_, threads⟩, grows.new_alive inv.shape.white⟩
  exact (grows.mem.mp object).symm.imp id fun here => by simp [here]

/-- What is alive is written to a stack. -/
theorem setobj_invariant {th slot : Nat} {v : TValue} (inv : Invariant pending g) (alive : ∀ r ∈ gcvalue v, Alive g r) :
    Invariant pending (g.setobj th slot v) := by
  refine inv.setThread (fun r isValue => .inl isValue) (fun slot' r isValue => ?_) fun slot' below r isValue => .inl below
  simp only [setAt] at isValue
  split at isValue
  · exact .inr (alive r isValue)
  · exact .inl isValue

theorem Extends.setobj {new : List GCObject} {th slot : Nat} {v : TValue} (extends' : Extends new g g')
    (alive : ∀ r ∈ gcvalue v, Alive g' r) : Invariant (waits (g'.setobj th slot v)) (g'.setobj th slot v) :=
  setobj_invariant extends'.inv alive

/-! ### Tables, functions, prototypes, threads and udata -/

-- an object that a free address stands for
theorem ne_of_free {o' : GCObject} (free : o ∉ g.objects) (object : o' ∈ g.objects) : o' ≠ o :=
  fun same => free (same ▸ object)

theorem luaHNew_extends (narray nhash : Nat) {h : Nat} (inv : Invariant (waits g) g) (free : .table h ∉ g.objects) :
    Extends [.table h] g (g.luaHNew narray nhash h) ∧ Alive (g.luaHNew narray nhash h) (.table h) := by
  refine Grows.extends ((chained_cons inv free).grows (g.setTable h _).heap g.openupval inv.shape free (fun _ _ => rfl)
    (fun th same => by cases same) (fun _ _ => rfl) (fun uv same => by cases same)
    (fun h' ne => setTable_other fun same => ne (by rw [same])) (fun o' object => ?_) fun r ref => ?_) inv rfl
  · exact (refs_setTable g h _).trans (if_neg (ne_of_free free object))
  · have empty : r ∈ tableRefs { metatable := none, array := List.replicate narray .nil, node := List.replicate nhash ⟨.nil, .nil⟩ } := by
      have here := refs_setTable g (o := .table h) h
        { metatable := none, array := List.replicate narray .nil, node := List.replicate nhash ⟨.nil, .nil⟩ }
      rw [if_pos rfl] at here
      exact here ▸ ref
    rcases mem_tableRefs.mp empty with ⟨mt, isMt, -⟩ | ⟨v, mem, isValue⟩ | ⟨n, mem, used, -⟩
    · cases isMt
    · rw [List.eq_of_mem_replicate mem] at isValue
      cases isValue
    · exact absurd (by rw [List.eq_of_mem_replicate mem]) used

theorem newclosure_extends {cl : Nat} {c : Closure} (inv : Invariant (waits g) g) (free : .function cl ∉ g.objects)
    (alive : ∀ r ∈ closureRefs c, Alive g r) : Extends [.function cl] g ((g.setClosure cl c).luaCLink (.function cl)) ∧
      Alive ((g.setClosure cl c).luaCLink (.function cl)) (.function cl) := by
  refine Grows.extends ((chained_cons inv free).grows (g.setClosure cl c).heap g.openupval inv.shape free (fun _ _ => rfl)
    (fun th same => by cases same) (fun _ _ => rfl) (fun uv same => by cases same) (fun _ _ => rfl) (fun o' object => ?_)
    fun r ref => ?_) inv rfl
  · exact (refs_setClosure g cl _).trans (if_neg (ne_of_free free object))
  · have here := refs_setClosure g (o := .function cl) cl c
    rw [if_pos rfl] at here
    exact alive r (here ▸ ref)

theorem luaFNewproto_extends {f : Nat} {source : Option Nat} (inv : Invariant (waits g) g) (free : .proto f ∉ g.objects)
    (alive : ∀ ts ∈ source, Alive g (.string ts)) : Extends [.proto f] g (g.luaFNewproto f source) ∧
      Alive (g.luaFNewproto f source) (.proto f) := by
  refine Grows.extends ((chained_cons inv free).grows
    (g.setProto f { source, k := [], upvalues := [], p := [], locvars := [] }).heap g.openupval inv.shape free (fun _ _ => rfl)
    (fun th same => by cases same) (fun _ _ => rfl) (fun uv same => by cases same) (fun _ _ => rfl) (fun o' object => ?_)
    fun r ref => ?_) inv rfl
  · exact (refs_setProto g f _).trans (if_neg (ne_of_free free object))
  · have here := refs_setProto g (o := .proto f) f { source, k := [], upvalues := [], p := [], locvars := [] }
    rw [if_pos rfl] at here
    have inProto : r ∈ protoRefs { source, k := [], upvalues := [], p := [], locvars := [] } := here ▸ ref
    rw [mem_protoRefs] at inProto
    rcases inProto with ⟨ts, isSource, rfl⟩ | ⟨v, mem, -⟩ | ⟨ts, mem, -⟩ | ⟨f', mem, -⟩ | ⟨ts, mem, -⟩
    · exact alive ts isSource
    all_goals cases mem

-- the stack of a new thread
def newStack (gt : TValue) : Thread := { gt, stack := fun _ => .nil, top := 1, ci := [⟨21, false⟩] }

-- no object refers to the stack of a thread that is not there
theorem refs_newthread {th : Nat} {l : Thread} {o' : GCObject} (shape : Shape g) (free : .thread th ∉ g.objects)
    (object : o' ∈ g.objects) : (g.setThread th l).refs o' = g.refs o' := by
  rw [refs_setThread, if_neg (ne_of_free free object)]
  cases o' with
  | upval uv =>
    simp only
    cases v : (g.heap.upvals uv).v with
    | own => simp only [GlobalState.refs, deref, v]
    | stack th' slot =>
      have unowned : ¬ Owned g uv := by rw [Owned, v]; simp
      obtain ⟨th'', root, isOpen⟩ := (shape.uvhead uv).mp (shape.mem_uvhead object unowned)
      obtain ⟨slot', isSlot⟩ := shape.opened th'' uv root isOpen
      rw [v] at isSlot
      cases isSlot
      have ne : th' ≠ th := fun same => free (same ▸ mem_objects.mpr (.inl root))
      simp only [GlobalState.refs, deref, v, if_neg ne]
  | _ => rfl

theorem luaENewthread_extends {th th' : Nat} (inv : Invariant (waits g) g) (free : .thread th' ∉ g.objects)
    (alive : Alive g (.thread th)) : Invariant (waits (g.luaENewthread th th')) (g.luaENewthread th th') ∧
      Alive (g.luaENewthread th th') (.thread th') := by
  have grows := (chained_cons inv free).grows (g.setThread th' (newStack (g.heap.threads th).gt)).heap
    (setAt g.openupval th' []) inv.shape free (fun th'' ne => setAt_other _ _ fun same => ne (by rw [same])) (fun th'' same => by
      cases same
      exact setAt_same ..) (fun _ _ => rfl) (fun uv same => by cases same) (fun _ _ => rfl)
    (fun o' => refs_newthread inv.shape free) fun r ref => ?_
  · have inv' := grows.invariant inv
    rw [← grows.waiting] at inv'
    exact ⟨inv', grows.new_alive inv.shape.white⟩
  · have here := refs_setThread g (o := .thread th') th' (newStack (g.heap.threads th).gt)
    rw [if_pos rfl] at here
    have inThread : r ∈ threadRefs (newStack (g.heap.threads th).gt) := here ▸ ref
    rcases mem_threadRefs.mp inThread with isGlobal | ⟨slot, -, isValue⟩
    · refine inv.sound.refs _ alive r ?_
      simp only [GlobalState.refs]
      exact mem_threadRefs.mpr (.inl isGlobal)
    · cases isValue

theorem luaSNewudata_extends {env u : Nat} (inv : Invariant (waits g) g) (free : .userdata u ∉ g.objects)
    (alive : Alive g (.table env)) : Extends [.userdata u] g (g.luaSNewudata env u) ∧
      Alive (g.luaSNewudata env u) (.userdata u) := by
  refine Grows.extends ((chained_udata inv free).grows (g.setUdata u { metatable := none, env }).heap g.openupval inv.shape free
    (fun _ _ => rfl) (fun th same => by cases same) (fun _ _ => rfl) (fun uv same => by cases same) (fun _ _ => rfl)
    (fun o' object => ?_) fun r ref => ?_) inv rfl
  · exact (refs_setUdata g u _).trans (if_neg (ne_of_free free object))
  · have here := refs_setUdata g (o := .userdata u) u { metatable := none, env }
    rw [if_pos rfl] at here
    change r ∈ (g.setUdata u { metatable := none, env }).refs (.userdata u) at ref
    rw [here] at ref
    have isEnv : r = .table env := by simpa using ref
    rw [isEnv]
    exact alive

/-! ### Upvalues -/

theorem luaFNewupval_extends {uv : Nat} (inv : Invariant (waits g) g) (free : .upval uv ∉ g.objects) :
    Extends [.upval uv] g (g.luaFNewupval uv) ∧ Alive (g.luaFNewupval uv) (.upval uv) := by
  have here : (g.setUpVal uv { v := .own, value := .nil }).heap.upvals uv = { v := .own, value := .nil } := setAt_same ..
  refine Grows.extends ((chained_cons inv free).grows (g.setUpVal uv { v := .own, value := .nil }).heap g.openupval inv.shape free
    (fun _ _ => rfl) (fun th same => by cases same) (fun uv' ne => ?_) (fun uv' same => ?_) (fun _ _ => rfl)
    (fun o' object => ?_) fun r ref => ?_) inv rfl
  · exact congrArg UpVal.v (setAt_other _ _ fun same => ne (by rw [same]))
  · cases same
    rw [here]
  · exact refs_setUpVal g uv _ (ne_of_free free object)
  · have value : (g.setUpVal uv { v := .own, value := .nil }).deref uv = .nil := by
      unfold deref
      rw [here]
    have ref' : r ∈ (gcvalue ((g.setUpVal uv { v := .own, value := .nil }).deref uv)).toList := ref
    rw [value] at ref'
    cases ref'

-- the slots of a thread that is alive
theorem slot_alive {th slot : Nat} (sound : Sound g) (alive : Alive g (.thread th)) (shown : slot < exposed (g.heap.threads th))
    {r : GCObject} (isValue : r ∈ gcvalue ((g.heap.threads th).stack slot)) : Alive g r := by
  refine sound.refs _ alive r ?_
  simp only [GlobalState.refs]
  exact mem_threadRefs.mpr (.inr ⟨slot, shown, isValue⟩)

theorem thread_root {th : Nat} (object : .thread th ∈ g.objects) : .thread th ∈ g.rootgc := by
  rcases mem_objects.mp object with root | ⟨_, _, -, -, same⟩ | ⟨_, -, same⟩ | ⟨_, -, same⟩
  · exact root
  all_goals cases same

/-- A new open upvalue, somewhere in the list of its thread. -/
theorem opened_grows {th level uv : Nat} {before behind : List Nat} (shape : Shape g) (root : .thread th ∈ g.rootgc)
    (split : g.openupval th = before ++ behind) (free : .upval uv ∉ g.objects)
    (alive : ∀ r ∈ gcvalue ((g.heap.threads th).stack level), Alive g r) : Grows (.upval uv) g
      ({ (g.setUpVal uv { v := .stack th level, value := .nil }).setOpenupval th (before ++ uv :: behind) with
        uvhead := uv :: g.uvhead }.setMark (.upval uv) g.luaCWhite) := by
  have here : (g.setUpVal uv { v := .stack th level, value := .nil }).heap.upvals uv = { v := .stack th level, value := .nil } :=
    setAt_same ..
  have pointers : ∀ uv', uv' ≠ uv →
      (g.setUpVal uv { v := .stack th level, value := .nil }).heap.upvals uv' = g.heap.upvals uv' := fun uv' ne =>
    setAt_other _ _ ne
  have unopened : ∀ th' uv', .thread th' ∈ g.rootgc → uv' ∈ g.openupval th' → uv' ≠ uv := fun th' uv' root' isOpen same =>
    free (same ▸ mem_objects.mpr (.inr (.inl ⟨th', uv', root', isOpen, rfl⟩)))
  have unlisted : uv ∉ g.uvhead := fun mem => free (shape.uvhead_object mem).1
  have mem : ∀ th' uv', uv' ∈ (setOpenupval g th (before ++ uv :: behind)).openupval th' ↔
      (th' = th ∧ uv' = uv) ∨ uv' ∈ g.openupval th' := fun th' uv' => by
    by_cases isHere : th' = th
    · rw [isHere, split]
      simp only [setOpenupval, setAt_same, List.mem_append, List.mem_cons, true_and]
      tauto
    · simp only [setOpenupval, setAt_other _ _ isHere, isHere, false_and, false_or]
  exact
    { rest := ⟨_, _, _, _, _, _, rfl⟩
      free
      objects := by
        obtain ⟨others, split'⟩ := objects_split (rootgc_nodup shape) root
        have later := split' (before ++ uv :: behind)
        have old := split' (g.openupval th)
        rw [setOpenupval_self, split] at old
        rw [List.map_append, List.map_cons, List.append_assoc, List.cons_append] at later
        rw [List.map_append, List.append_assoc] at old
        exact later.trans (List.perm_middle.trans (old.symm.cons _))
      marks := rfl
      others := fun o' object => refs_setUpVal g uv _ (ne_of_free free object)
      refs := fun r ref => by
        have value : (g.setUpVal uv { v := .stack th level, value := .nil }).deref uv = (g.heap.threads th).stack level := by
          unfold deref
          rw [here]
          rfl
        have ref' : r ∈ (gcvalue ((g.setUpVal uv { v := .stack th level, value := .nil }).deref uv)).toList := ref
        rw [value] at ref'
        exact alive r (Option.mem_toList.mp ref')
      tables := fun _ _ => rfl
      owned := fun uv' object => by
        have ne : uv' ≠ uv := fun same => free (same ▸ object)
        show ((g.setUpVal uv _).heap.upvals uv').v = .own ↔ _
        rw [pointers uv' ne]
        exact Iff.rfl
      rootgc := fun _ => id
      closed := fun uv' root' => by
        have ne : uv' ≠ uv := fun same => free (same ▸ mem_objects.mpr (.inl root'))
        show ((g.setUpVal uv _).heap.upvals uv').v = .own
        rw [pointers uv' ne]
        exact shape.closed uv' root'
      opened := fun th' uv' root' isOpen => by
        show ∃ slot, ((g.setUpVal uv _).heap.upvals uv').v = .stack th' slot
        rcases (mem th' uv').mp isOpen with ⟨rfl, rfl⟩ | old
        · exact ⟨level, by rw [here]⟩
        · rw [pointers uv' (unopened th' uv' root' old)]
          exact shape.opened th' uv' root' old
      uvhead := fun uv' => by
        show uv' ∈ uv :: g.uvhead ↔ ∃ th', .thread th' ∈ g.rootgc ∧ uv' ∈ (setOpenupval g th (before ++ uv :: behind)).openupval th'
        simp only [mem, List.mem_cons, shape.uvhead uv']
        constructor
        · intro inside
          rcases inside with rfl | ⟨th', root', isOpen⟩
          · exact ⟨th, root, .inl ⟨rfl, rfl⟩⟩
          · exact ⟨th', root', .inr isOpen⟩
        · intro inside
          rcases inside with ⟨th', root', ⟨-, rfl⟩ | isOpen⟩
          · exact .inl rfl
          · exact .inr ⟨th', root', isOpen⟩
      distinct := List.nodup_cons.mpr ⟨unlisted, shape.distinct⟩
      upval := fun uv' mem' => by
        rcases List.mem_cons.mp mem' with rfl | old
        · exact .inr rfl
        · exact .inl old
      table := id
      unswept := fun o' object unswept => by
        refine unswept.imp id (.imp id (.imp id ?_))
        rintro ⟨th', uv', place, isOpen, rfl⟩
        exact ⟨th', uv', place, (mem th' uv').mpr (.inr isOpen), rfl⟩ }

theorem luaFFindupval_extends {th level uv : Nat} (inv : Invariant (waits g) g) (alive : Alive g (.thread th))
    (shown : level < exposed (g.heap.threads th)) (free : .upval uv ∉ g.objects) :
    Extends [.upval uv] g (g.luaFFindupval th level uv).2 ∧
      Alive (g.luaFFindupval th level uv).2 (.upval (g.luaFFindupval th level uv).1) := by
  have root := thread_root alive.1
  have values : ∀ r ∈ gcvalue ((g.heap.threads th).stack level), Alive g r := fun r => slot_alive inv.sound alive shown
  unfold luaFFindupval
  simp only
  split
  next p found =>
    have isOpen : p ∈ g.openupval th := (List.takeWhile_sublist _).subset (List.mem_of_find?_eq_some found)
    have pointer : (g.heap.upvals p).v = .stack th level := by simpa using List.find?_some found
    have object : .upval p ∈ g.objects := mem_objects.mpr (.inr (.inl ⟨th, p, root, isOpen, rfl⟩))
    split
    next dead =>
      have refs : ∀ r ∈ g.refs (.upval p), Alive g r := fun r ref => by
        simp only [GlobalState.refs, deref, pointer, Option.mem_toList] at ref
        exact values r ref
      have revived : Invariant (waits g) (g.changewhite (.upval p)) := inv.changewhite object dead refs
      have new := freshMark_changewhite inv.shape.white (inv.shape.coloured _ object) dead
      refine ⟨⟨revived, fun o' isAlive => ⟨isAlive.1, ?_⟩, fun o' => .inl, rfl⟩, object, ?_⟩
      · unfold changewhite
        rw [new.isdead, isAlive.2, Bool.false_and]
      · unfold changewhite
        rw [new.isdead]
        simp
    next notDead =>
      refine ⟨⟨inv, fun _ => id, fun o' => .inl, rfl⟩, object, ?_⟩
      simpa using notDead
  next =>
    refine Grows.extends (opened_grows inv.shape root ?_ free values) inv rfl
    exact (List.prefix_iff_eq_append.mp (List.takeWhile_prefix _)).symm

/-! ### The upvalues of a new function -/

-- the operand of a capture, where it is alive
def Named (g : GlobalState) (th : Nat) : Capture → Prop
  | .upval uv => Alive g (.upval uv)
  | .slot level _ => level < exposed (g.heap.threads th)
  | .new _ => True

theorem Named.later {new : List GCObject} {th : Nat} {c : Capture} (extends' : Extends new g g') (named : Named g th c) :
    Named g' th c := by
  cases c with
  | upval uv => exact extends'.alive _ named
  | slot level uv =>
    unfold Named at named ⊢
    rw [extends'.threads]
    exact named
  | new uv => trivial

-- one capture
def captureOne (th : Nat) (g : GlobalState) : Capture → Nat × GlobalState
  | .upval uv => (uv, g)
  | .slot level uv => g.luaFFindupval th level uv
  | .new uv => (uv, g.luaFNewupval uv)

theorem capture_cons (th : Nat) (c : Capture) (cs : List Capture) : capture th g (c :: cs) =
    ((captureOne th g c).1 :: (capture th (captureOne th g c).2 cs).1, (capture th (captureOne th g c).2 cs).2) := by
  cases c <;> rfl

theorem captureOne_extends {th : Nat} {c : Capture} (inv : Invariant (waits g) g) (alive : Alive g (.thread th))
    (named : Named g th c) (free : ∀ o ∈ Capture.fresh c, o ∉ g.objects) :
    Extends (Capture.fresh c).toList g (captureOne th g c).2 ∧ Alive (captureOne th g c).2 (.upval (captureOne th g c).1) := by
  cases c with
  | upval uv => exact ⟨.refl inv, named⟩
  | slot level uv => exact luaFFindupval_extends inv alive named (free _ rfl)
  | new uv => exact luaFNewupval_extends inv (free _ rfl)

theorem capture_extends {th : Nat} {cs : List Capture} (inv : Invariant (waits g) g) (alive : Alive g (.thread th))
    (named : ∀ c ∈ cs, Named g th c) (distinct : (cs.filterMap Capture.fresh).Nodup)
    (free : ∀ o ∈ cs.filterMap Capture.fresh, o ∉ g.objects) : Extends (cs.filterMap Capture.fresh) g (capture th g cs).2 ∧
      ∀ uv ∈ (capture th g cs).1, Alive (capture th g cs).2 (.upval uv) := by
  induction cs generalizing g with
  | nil => exact ⟨.refl inv, by simp [capture]⟩
  | cons c cs ih =>
    have split : (c :: cs).filterMap Capture.fresh = (Capture.fresh c).toList ++ cs.filterMap Capture.fresh := by
      cases isFresh : Capture.fresh c <;> simp [isFresh]
    rw [split] at distinct free ⊢
    obtain ⟨first, here⟩ := captureOne_extends inv alive (named c (List.mem_cons_self ..))
      fun o isFresh => free o (List.mem_append_left _ (Option.mem_toList.mpr isFresh))
    obtain ⟨rest, others⟩ := ih first.inv (first.alive _ alive)
      (fun c' mem => (named c' (List.mem_cons_of_mem _ mem)).later first) distinct.of_append_right fun o isFresh object => by
        rcases first.objects o object with old | isNew
        · exact free o (List.mem_append_right _ isFresh) old
        · exact (List.nodup_append.mp distinct).2.2 o isNew o isFresh rfl
    rw [capture_cons]
    refine ⟨first.trans rest, fun uv mem => ?_⟩
    cases List.mem_cons.mp mem with
    | inl same => exact rest.alive _ (same ▸ here)
    | inr there => exact others uv there

theorem newLclosure_extends {th cl env p : Nat} {cs : List Capture} (inv : Invariant (waits g) g) (alive : Alive g (.thread th))
    (isEnv : Alive g (.table env)) (isProto : Alive g (.proto p)) (named : ∀ c ∈ cs, Named g th c)
    (distinct : (cs.filterMap Capture.fresh).Nodup) (free : ∀ o ∈ cs.filterMap Capture.fresh, o ∉ g.objects)
    (unused : .function cl ∉ g.objects) :
    Invariant (waits (g.newLclosure th cl env p cs)) (g.newLclosure th cl env p cs) ∧
      Alive (g.newLclosure th cl env p cs) (.function cl) := by
  obtain ⟨captured, upvals⟩ := capture_extends inv alive named distinct free
  have unused' : .function cl ∉ (capture th g cs).2.objects := fun object => by
    rcases captured.objects _ object with old | isNew
    · exact unused old
    · obtain ⟨c, -, isFresh⟩ := List.mem_filterMap.mp isNew
      cases c <;> cases isFresh
  obtain ⟨linked, here⟩ := newclosure_extends (c := .lua env p (capture th g cs).1) captured.inv unused' fun r ref => by
    simp only [closureRefs, List.mem_cons, List.mem_map] at ref
    rcases ref with rfl | rfl | ⟨uv, mem, rfl⟩
    · exact captured.alive _ isEnv
    · exact captured.alive _ isProto
    · exact upvals uv mem
  exact ⟨linked.inv, here⟩

/-! ### Strings -/

theorem mem_drop_modify {l : List (List Nat)} {i k ts x : Nat} (mem : ts ∈ (l.drop k).flatten) :
    ts ∈ ((l.modify i (x :: ·)).drop k).flatten := by
  obtain ⟨chain, inside, mem'⟩ := List.mem_flatten.mp mem
  obtain ⟨j, found⟩ := List.mem_iff_getElem?.mp inside
  rw [List.getElem?_drop] at found
  rw [List.mem_flatten]
  have modified : (l.modify i (x :: ·))[k + j]? = some (if i = k + j then x :: chain else chain) := by
    rw [List.getElem?_modify, found]
    split <;> rfl
  refine ⟨_, List.mem_iff_getElem?.mpr ⟨j, by rw [List.getElem?_drop, modified]⟩, ?_⟩
  split
  · exact List.mem_cons_of_mem _ mem'
  · exact mem'

-- a new string, before the table is resized
def linkedString (g : GlobalState) (str : List UInt8) (ts : Nat) : GlobalState :=
  { g with
    heap.strings := setAt g.heap.strings ts { bytes := str, hash := hashOf str }
    hash := g.hash.modify (lmod (hashOf str) g.hash.length) (ts :: ·) }.setMark (.string ts) g.luaCWhite

theorem linkedString_grows (str : List UInt8) {ts : Nat} (inv : Invariant pending g) (free : .string ts ∉ g.objects) :
    Grows (.string ts) g (linkedString g str ts) := by
  have shape := inv.shape
  have inside : lmod (hashOf str) g.hash.length < g.hash.length :=
    lmod_lt_size _ (List.length_pos_iff.mpr inv.table)
  have chained := flatten_modify_cons ts inside
  have refs : ∀ o', (linkedString g str ts).refs o' = g.refs o' := fun o' => by
    cases o' <;> rfl
  exact
    { rest := ⟨_, _, _, _, _, _, rfl⟩
      free
      objects := by
        have strings := chained.map GCObject.string
        rw [List.map_cons] at strings
        exact ((strings.append_left _).trans List.perm_middle)
      marks := rfl
      others := fun o' _ => refs o'
      refs := fun r ref => by
        rw [refs] at ref
        cases ref
      tables := fun _ _ => rfl
      owned := fun _ _ => Iff.rfl
      rootgc := fun _ => id
      closed := shape.closed
      opened := shape.opened
      uvhead := shape.uvhead
      distinct := shape.distinct
      upval := fun _ => .inl
      table := fun table empty => by
        have length := congrArg List.length empty
        have positive := List.length_pos_iff.mpr table
        have same : (g.hash.modify (lmod (hashOf str) g.hash.length) (ts :: ·)).length = 0 := length
        rw [List.length_modify] at same
        omega
      unswept := fun o' _ unswept => by
        refine unswept.imp (fun strings => ?_) id
        obtain ⟨state, ts', mem, same⟩ := strings
        exact ⟨state, ts', mem_drop_modify mem, same⟩ }

theorem newlstr_extends {str : List UInt8} {ts : Nat} (inv : Invariant (waits g) g) (free : .string ts ∉ g.objects) :
    Extends [.string ts] g (g.newlstr str ts) ∧ Alive (g.newlstr str ts) (.string ts) := by
  obtain ⟨linked, here⟩ := (linkedString_grows str inv free).extends inv rfl
  have result : g.newlstr str ts =
      if (linkedString g str ts).hash.length < (linkedString g str ts).hash.flatten.length ∧
        (linkedString g str ts).hash.length ≤ maxInt / 2 then
        (linkedString g str ts).luaSResize ((linkedString g str ts).hash.length * 2)
      else linkedString g str ts := rfl
  rw [result]
  split
  next crowded =>
    have positive : 0 < (linkedString g str ts).hash.length * 2 := by
      have some := List.length_pos_iff.mpr linked.inv.table
      omega
    have sized := resize_invariant linked.inv positive
    obtain ⟨newhash, same, perm, -⟩ := luaSResize_perm (g := linkedString g str ts) _ positive
    rw [same] at sized ⊢
    have mem : ∀ o, o ∈ { linkedString g str ts with hash := newhash }.objects ↔ o ∈ (linkedString g str ts).objects :=
      fun o => (rehash_objects perm).mem_iff
    have alive : ∀ o, Alive (linkedString g str ts) o → Alive { linkedString g str ts with hash := newhash } o :=
      fun o isAlive => ⟨(mem o).mpr isAlive.1, isAlive.2⟩
    exact ⟨⟨sized, fun o isAlive => alive o (linked.alive o isAlive), fun o object => linked.objects o ((mem o).mp object),
      linked.threads⟩, alive _ here⟩
  next => exact ⟨linked, here⟩

theorem luaSNewlstr_extends (str : List UInt8) {ts : Nat} (inv : Invariant (waits g) g) (free : .string ts ∉ g.objects) :
    Extends [.string ts] g (g.luaSNewlstr str ts).2 ∧ Alive (g.luaSNewlstr str ts).2 (.string (g.luaSNewlstr str ts).1) := by
  unfold luaSNewlstr
  split
  next o found =>
    have inTable : o ∈ g.hash.flatten := by
      have inChain := List.mem_of_find?_eq_some found
      rw [List.getD_eq_getElem?_getD] at inChain
      cases isChain : g.hash[lmod (hashOf str) g.hash.length]? with
      | none =>
        rw [isChain] at inChain
        cases inChain
      | some chain =>
        rw [isChain] at inChain
        exact List.mem_flatten.mpr ⟨chain, List.mem_of_getElem? isChain, inChain⟩
    have object : .string o ∈ g.objects := mem_objects.mpr (.inr (.inr (.inr ⟨o, inTable, rfl⟩)))
    split
    next dead =>
      have new := freshMark_changewhite inv.shape.white (inv.shape.coloured _ object) dead
      have revived : Invariant (waits g) (g.changewhite (.string o)) := inv.changewhite object dead fun r ref => by cases ref
      refine ⟨⟨revived, fun o' isAlive => ⟨isAlive.1, ?_⟩, fun o' => .inl, rfl⟩, object, ?_⟩
      · unfold changewhite
        rw [new.isdead, isAlive.2, Bool.false_and]
      · unfold changewhite
        rw [new.isdead]
        simp
    next notDead =>
      exact ⟨⟨inv, fun _ => id, fun o' => .inl, rfl⟩, object, by simpa using notDead⟩
  next => exact newlstr_extends inv free

end Lunatik.Verified.NewObjects
