import Mathlib.Data.List.Perm.Subperm
import Lunatik.Verified.References
import Lunatik.Verified.Tricolor

/-! # The mark phase

What holds between the steps of the collector while it marks, how `propagatemark` keeps it, and that
`propagateall` comes to an end.
-/

namespace Lunatik.Verified.Propagation

open Lunatik.Library
open Lunatik.Lua (setAt setAt_same setAt_other)
open Lunatik.Lua.Gc Lunatik.Lua.Gc.GlobalState
open Lunatik.Lua.StringTable (whitebits blackbit fixedbit)
open Lunatik.Verified.Colours Lunatik.Verified.References Lunatik.Verified.Tricolor

/-! ## The invariant -/

/-- Where a gray object is found again. -/
def Listed (g : GlobalState) (o : GCObject) : Prop :=
  o ∈ g.gray ++ g.grayagain ++ g.weak ∨ (∃ ts, o = .string ts) ∨ ∃ uv, o = .upval uv ∧ ¬ Owned g uv

/-- The mark phase; what is `pending` may be black before what it refers to has been seen to. -/
structure Marking (pending : GCObject → Prop) (g : GlobalState) : Prop where
  alive : ∀ o ∈ g.objects, g.isdead o = false
  black : ∀ o ∈ g.objects, g.isblack o = true → ¬ pending o → ∀ r ∈ g.refs o, g.iswhite r = false
  gray : ∀ o ∈ g.objects, g.isgray o = true → Listed g o
  listed : ∀ o ∈ g.gray ++ g.grayagain ++ g.weak, o ∈ g.objects ∧ g.iswhite o = false ∧ Traversable o ∧
    (g.isblack o = true → pending o)
  distinct : (g.gray ++ g.grayagain ++ g.weak).Nodup
  weak : ∀ o ∈ g.weak, ∃ h, o = .table h
  main : g.iswhite (.thread g.mainthread) = false
  registry : ∀ o ∈ gcvalue g.registry, g.iswhite o = false

/-- What the gray open upvalues hold has been seen to. -/
def UpvalsDone (g : GlobalState) : Prop :=
  ∀ uv, .upval uv ∈ g.objects → ¬ Owned g uv → g.iswhite (.upval uv) = false →
    ∀ r ∈ g.refs (.upval uv), g.iswhite r = false

/-- What a weak table refers to strongly, but for its entries. -/
def Spared (g : GlobalState) (h : Nat) : Prop :=
  (∀ mt ∈ (g.heap.tables h).metatable, g.iswhite (.table mt) = false) ∧
  (g.marked (.table h) &&& valueweak = 0 →
    ∀ v ∈ (g.heap.tables h).array, ∀ o ∈ gcvalue v, g.iswhite o = false)

def WeakDone (pending : GCObject → Prop) (g : GlobalState) : Prop :=
  ∀ h, .table h ∈ g.weak → ¬ pending (.table h) → Spared g h

def AgainDone (pending : GCObject → Prop) (g : GlobalState) : Prop :=
  ∀ o ∈ g.grayagain, ¬ pending o → ∀ r ∈ g.refs o, g.iswhite r = false

variable {pending : GCObject → Prop} {g g' : GlobalState} {o : GCObject}

/-- Udata that wait for their finalizers may have a colour from before. -/
def waits (g : GlobalState) (o : GCObject) : Prop := ∃ u ∈ g.tmudata, o = .userdata u

theorem Marking.alive_of_object (marking : Marking pending g) (object : o ∈ g.objects) : Alive g o :=
  ⟨object, marking.alive o object⟩

-- udata are never gray
theorem Marking.udata {u : Nat} (marking : Marking pending g) (object : .userdata u ∈ g.objects) :
    g.isgray (.userdata u) = false := by
  cases isGray : g.isgray (.userdata u) with
  | false => rfl
  | true =>
    rcases marking.gray _ object isGray with mem | ⟨ts, same⟩ | ⟨uv, same, -⟩
    · exact (marking.listed _ mem).2.2.1.elim
    · cases same
    · cases same

theorem Marking.referring (marking : Marking pending g) (sound : Sound g) : Referring g :=
  fun o object r ref => (sound.refs o (marking.alive_of_object object) r ref).1

/-! ## Shading -/

section Shading

variable (shading : Shades g g')

include shading

theorem shades_grayagain : g'.grayagain = g.grayagain := by
  obtain ⟨marked, gray, rfl⟩ := shading.same
  rfl

theorem shades_weak : g'.weak = g.weak := by
  obtain ⟨marked, gray, rfl⟩ := shading.same
  rfl

theorem shades_owned {uv : Nat} : Owned g' uv ↔ Owned g uv := by
  rw [Owned, Owned, shading.heap]

theorem Marking.shades (white : White g) (marking : Marking pending g) : Marking pending g' := by
  obtain ⟨pushed, eq, nodup, each⟩ := shading.gray
  have lists : g'.gray ++ g'.grayagain ++ g'.weak = pushed ++ (g.gray ++ g.grayagain ++ g.weak) := by
    rw [eq, shades_grayagain shading, shades_weak shading]
    simp only [List.append_assoc]
  refine ⟨fun o object => ?_, fun o object isBlack free r ref => ?_, fun o object isGray => ?_, fun o mem => ?_,
    ?_, ?_, ?_, ?_⟩
  · exact shading.alive white (marking.alive o (shading.objects ▸ object))
  · rw [shading.objects] at object
    rw [shading.refs] at ref
    cases shading.marks o with
    | inl same =>
      rw [isblack_eq, same, ← isblack_eq] at isBlack
      exact shading.nonwhite (marking.black o object isBlack free r ref)
    | inr shaded => exact (shaded.black isBlack).2 r ref
  · rw [shading.objects] at object
    unfold Listed
    rw [lists]
    cases shading.marks o with
    | inl same =>
      rw [isgray, isblack_eq, iswhite_eq, same, ← isblack_eq, ← iswhite_eq] at isGray
      cases marking.gray o object isGray with
      | inl mem => exact .inl (List.mem_append_right _ mem)
      | inr other =>
        simp only [Owned, shading.heap]
        exact .inr other
    | inr shaded =>
      cases shaded.gray (isgray_iff.mp isGray).1 with
      | inl listed =>
        rw [← lists]
        exact .inl (List.mem_append_left _ (List.mem_append_left _ listed.2))
      | inr other =>
        cases other with
        | inl string => exact .inr (.inl string)
        | inr upval =>
          obtain ⟨uv, isUpval, unowned, -⟩ := upval
          exact .inr (.inr ⟨uv, isUpval, fun owned => unowned ((shades_owned shading).mp owned)⟩)
  · rw [lists] at mem
    rw [shading.objects]
    cases List.mem_append.mp mem with
    | inl new =>
      obtain ⟨-, isGray, traversable, object⟩ := each o new
      refine ⟨object, (isgray_iff.mp isGray).2, traversable, fun isBlack => ?_⟩
      rw [(isgray_iff.mp isGray).1] at isBlack
      cases isBlack
    | inr old =>
      obtain ⟨object, nonwhite, traversable, free⟩ := marking.listed o old
      refine ⟨object, shading.nonwhite nonwhite, traversable, fun isBlack => free ?_⟩
      rw [isblack_eq, shading.unchanged nonwhite, ← isblack_eq] at isBlack
      exact isBlack
  · rw [lists]
    refine nodup.append marking.distinct fun o new old => ?_
    have nonwhite := (marking.listed o old).2.1
    rw [(each o new).1] at nonwhite
    cases nonwhite
  · rw [shades_weak shading]
    exact marking.weak
  · have main : g'.mainthread = g.mainthread := by
      obtain ⟨marked, gray, rfl⟩ := shading.same
      rfl
    rw [main]
    exact shading.nonwhite marking.main
  · have registry : g'.registry = g.registry := by
      obtain ⟨marked, gray, rfl⟩ := shading.same
      rfl
    rw [registry]
    exact fun o isValue => shading.nonwhite (marking.registry o isValue)

theorem UpvalsDone.shades (done : UpvalsDone g) : UpvalsDone g' := by
  intro uv object unowned nonwhite r ref
  rw [shading.objects] at object
  rw [shades_owned shading] at unowned
  rw [shading.refs] at ref
  cases shading.marks (.upval uv) with
  | inl same =>
    rw [iswhite_eq, same, ← iswhite_eq] at nonwhite
    exact shading.nonwhite (done uv object unowned nonwhite r ref)
  | inr shaded =>
    cases isBlack : g'.isblack (.upval uv) with
    | true => exact (shaded.black isBlack).2 r ref
    | false =>
      rcases shaded.gray isBlack with listed | ⟨ts, isString⟩ | ⟨uv', isUpval, -, reached⟩
      · exact listed.1.elim
      · cases isString
      · exact reached r ref

theorem Spared.shades {h : Nat} (nonwhite : g.iswhite (.table h) = false) (spared : Spared g h) : Spared g' h := by
  unfold Spared
  rw [shading.heap, shading.unchanged nonwhite]
  exact ⟨fun mt isMt => shading.nonwhite (spared.1 mt isMt),
    fun strong v mem o isValue => shading.nonwhite (spared.2 strong v mem o isValue)⟩

theorem WeakDone.shades {other : GCObject → Prop} (marking : Marking other g) (done : WeakDone pending g) :
    WeakDone pending g' := by
  intro h mem free
  rw [shades_weak shading] at mem
  exact (done h mem free).shades shading (marking.listed _ (List.mem_append_right _ mem)).2.1

theorem AgainDone.shades (done : AgainDone pending g) : AgainDone pending g' := by
  intro o mem free r ref
  rw [shades_grayagain shading] at mem
  rw [shading.refs] at ref
  exact shading.nonwhite (done o mem free r ref)

end Shading

/-! ## What marking leaves alone -/

/-- Objects that never get black. -/
def Unblackened (g : GlobalState) (o : GCObject) : Prop :=
  (∃ th, o = .thread th) ∨ ∃ uv, o = .upval uv ∧ ¬ Owned g uv

/-- Marking changes marks and the lists of gray objects, and takes references away. -/
structure Frame (g g' : GlobalState) : Prop where
  rest : ∃ heap marked gray grayagain weak, g' = { g with heap, marked, gray, grayagain, weak }
  upvals : g'.heap.upvals = g.heap.upvals
  refs : ∀ o r, r ∈ g'.refs o → r ∈ g.refs o
  nonwhite : ∀ o, g.iswhite o = false → g'.iswhite o = false
  coloured : ∀ o ∈ g.objects, Coloured (g.marked o) → Coloured (g'.marked o)
  unblackened : ∀ o ∈ g.objects, Unblackened g o → g.isblack o = false → g'.isblack o = false
  fixed : ∀ o, g'.marked o &&& fixedbit = g.marked o &&& fixedbit

section Frame

variable {g₁ : GlobalState}

theorem Frame.refl (g : GlobalState) : Frame g g :=
  ⟨⟨_, _, _, _, _, rfl⟩, rfl, fun _ _ => id, fun _ => id, fun _ _ => id, fun _ _ _ => id, fun _ => rfl⟩

theorem Frame.objects (frame : Frame g g') : g'.objects = g.objects := by
  obtain ⟨heap, marked, gray, grayagain, weak, rfl⟩ := frame.rest
  rfl

theorem Frame.white (frame : Frame g g') (white : White g) : White g' := by
  obtain ⟨heap, marked, gray, grayagain, weak, rfl⟩ := frame.rest
  exact white

theorem Frame.trans (first : Frame g g') (second : Frame g' g₁) : Frame g g₁ := by
  refine ⟨?_, second.upvals.trans first.upvals, fun o r ref => first.refs o r (second.refs o r ref),
    fun o nonwhite => second.nonwhite o (first.nonwhite o nonwhite),
    fun o object coloured => second.coloured o (first.objects ▸ object) (first.coloured o object coloured),
    fun o object kind notBlack => second.unblackened o (first.objects ▸ object) ?_
      (first.unblackened o object kind notBlack), fun o => (second.fixed o).trans (first.fixed o)⟩
  · obtain ⟨heap, marked, gray, grayagain, weak, rfl⟩ := first.rest
    obtain ⟨heap', marked', gray', grayagain', weak', rfl⟩ := second.rest
    exact ⟨_, _, _, _, _, rfl⟩
  · simpa only [Unblackened, Owned, first.upvals] using kind

theorem Frame.markable (frame : Frame g g') (markable : Markable g) : Markable g' := by
  refine ⟨fun o object r ref => ?_, fun o object => ?_⟩
  · rw [frame.objects] at object ⊢
    exact markable.referring o object r (frame.refs o r ref)
  · rw [frame.objects] at object
    exact frame.coloured o object (markable.coloured o object)

theorem frame_of_shades (shades : Shades g g') : Frame g g' := by
  refine ⟨?_, by rw [shades.heap], fun o r ref => shades.refs ▸ ref, fun o => shades.nonwhite,
    fun o object coloured => ?_, fun o object kind notBlack => ?_, fun o => ?_⟩
  · obtain ⟨marked, gray, rfl⟩ := shades.same
    exact ⟨_, _, _, _, _, rfl⟩
  · cases shades.marks o with
    | inl same => rw [same]; exact coloured
    | inr shaded => exact shaded.coloured coloured
  · cases shades.marks o with
    | inl same => rw [isblack_eq, same, ← isblack_eq, notBlack]
    | inr shaded =>
      cases isBlack : g'.isblack o with
      | false => rfl
      | true =>
        rcases (shaded.black isBlack).1 with ⟨u, rfl⟩ | ⟨uv, rfl, owned⟩
        · rcases kind with ⟨th, isThread⟩ | ⟨uv, isUpval, -⟩
          · cases isThread
          · cases isUpval
        · rcases kind with ⟨th, isThread⟩ | ⟨uv', isUpval, unowned⟩
          · cases isThread
          · cases isUpval
            exact absurd owned unowned
  · cases shades.marks o with
    | inl same => rw [same]
    | inr shaded => exact fixed_of_flags shaded.flags

end Frame

/-! ## The other steps of a traversal -/

-- `pending`, and one object more
def also (pending : GCObject → Prop) (o : GCObject) : GCObject → Prop := fun o' => pending o' ∨ o' = o

theorem Marking.weaken {more : GCObject → Prop} (weaker : ∀ o, pending o → more o) (marking : Marking pending g) :
    Marking more g where
  alive := marking.alive
  black := fun o object isBlack free => marking.black o object isBlack fun isPending => free (weaker o isPending)
  gray := marking.gray
  listed := fun o mem => by
    obtain ⟨object, nonwhite, traversable, free⟩ := marking.listed o mem
    exact ⟨object, nonwhite, traversable, fun isBlack => weaker o (free isBlack)⟩
  distinct := marking.distinct
  weak := marking.weak
  main := marking.main
  registry := marking.registry

/-- An object that has been seen to is no longer pending. -/
theorem Marking.settle (marking : Marking (also pending o) g)
    (seen : g.isblack o = true → ∀ r ∈ g.refs o, g.iswhite r = false)
    (unlisted : o ∈ g.gray ++ g.grayagain ++ g.weak → g.isblack o = false) : Marking pending g where
  alive := marking.alive
  black := fun o' object isBlack free r ref => by
    by_cases here : o' = o
    · subst here
      exact seen isBlack r ref
    · exact marking.black o' object isBlack (fun isPending => isPending.elim free here) r ref
  gray := marking.gray
  listed := fun o' mem => by
    obtain ⟨object, nonwhite, traversable, free⟩ := marking.listed o' mem
    refine ⟨object, nonwhite, traversable, fun isBlack => ?_⟩
    cases free isBlack with
    | inl isPending => exact isPending
    | inr here =>
      rw [here] at mem isBlack
      rw [unlisted mem] at isBlack
      cases isBlack
  distinct := marking.distinct
  weak := marking.weak
  main := marking.main
  registry := marking.registry

/-- References are taken away. -/
theorem Marking.heap (marking : Marking pending g) {heap : Heap} (upvals : heap.upvals = g.heap.upvals)
    (refs : ∀ o r, r ∈ { g with heap }.refs o → r ∈ g.refs o) : Marking pending { g with heap } where
  alive := marking.alive
  black := fun o object isBlack free r ref => marking.black o object isBlack free r (refs o r ref)
  gray := fun o object isGray => by
    have listed := marking.gray o object isGray
    simpa only [Listed, Owned, upvals] using listed
  listed := marking.listed
  distinct := marking.distinct
  weak := marking.weak
  main := marking.main
  registry := marking.registry

theorem frame_heap {heap : Heap} (upvals : heap.upvals = g.heap.upvals)
    (refs : ∀ o r, r ∈ { g with heap }.refs o → r ∈ g.refs o) : Frame g { g with heap } :=
  ⟨⟨_, _, _, _, _, rfl⟩, upvals, refs, fun _ => id, fun _ _ => id, fun _ _ _ => id, fun _ => rfl⟩

/-- The first gray object is taken from its list and gets black. -/
theorem Marking.pop {gclist : List GCObject} (white : White g) (marking : Marking pending g) (gray : g.gray = o :: gclist) :
    Marking (also pending o) { g.gray2black o with gray := gclist } := by
  have inLists : ∀ o', o' ∈ gclist ++ g.grayagain ++ g.weak → o' ∈ g.gray ++ g.grayagain ++ g.weak := fun o' mem => by
    rw [gray]
    exact List.mem_cons_of_mem _ mem
  have distinct := marking.distinct
  rw [gray] at distinct
  simp only [List.cons_append, List.nodup_cons] at distinct
  refine ⟨fun o' object => ?_, fun o' object isBlack free r ref => ?_, fun o' object isGray => ?_, fun o' mem => ?_,
    distinct.2, marking.weak, ?_, fun o' isValue => ?_⟩
  · exact (gray2black_isdead white).trans (marking.alive o' object)
  · have isBlack' : (g.isblack o' || decide (o' = o)) = true := gray2black_isblack.symm.trans isBlack
    have ne : o' ≠ o := fun here => free (.inr here)
    simp only [ne, decide_false, Bool.or_false] at isBlack'
    exact gray2black_iswhite.trans (marking.black o' object isBlack' (fun isPending => free (.inl isPending)) r ref)
  · have colours := isgray_iff.mp isGray
    have notBlack : (g.isblack o' || decide (o' = o)) = false := gray2black_isblack.symm.trans colours.1
    simp only [Bool.or_eq_false_iff, decide_eq_false_iff_not] at notBlack
    have nonwhite : g.iswhite o' = false := gray2black_iswhite.symm.trans colours.2
    cases marking.gray o' object (isgray_iff.mpr ⟨notBlack.1, nonwhite⟩) with
    | inl mem =>
      rw [gray] at mem
      cases List.mem_cons.mp mem with
      | inl here => exact absurd here notBlack.2
      | inr there => exact .inl there
    | inr other => exact .inr other
  · obtain ⟨object, nonwhite, traversable, free⟩ := marking.listed o' (inLists o' mem)
    refine ⟨object, gray2black_iswhite.trans nonwhite, traversable, fun isBlack => ?_⟩
    have isBlack' : (g.isblack o' || decide (o' = o)) = true := gray2black_isblack.symm.trans isBlack
    simp only [Bool.or_eq_true, decide_eq_true_eq] at isBlack'
    exact isBlack'.imp free id
  · exact gray2black_iswhite.trans marking.main
  · exact gray2black_iswhite.trans (marking.registry o' isValue)

/-! ## Traversing -/

theorem traverseclosure_shades (markable : Markable g) (cl : Nat) (object : .function cl ∈ g.objects) :
    Shades g (g.traverseclosure cl) ∧ ∀ r ∈ g.refs (.function cl), (g.traverseclosure cl).iswhite r = false := by
  have refs := markable.referring _ object
  unfold traverseclosure
  simp only [GlobalState.refs] at refs ⊢
  generalize g.heap.closures cl = closure at refs ⊢
  cases closure with
  | c env upvalue =>
    simp only [closureRefs, List.mem_cons, List.mem_flatMap, Option.mem_toList, forall_eq_or_imp,
      forall_exists_index, and_imp] at refs ⊢
    obtain ⟨first, marked⟩ := marktable_shades refs.1 (markable.coloured _ refs.1)
    obtain ⟨rest, all⟩ := markvalues_shades upvalue (first.markable markable)
      fun v mem o isValue => first.objects ▸ refs.2 o v mem isValue
    exact ⟨first.trans rest, rest.nonwhite marked, fun r v mem isValue => all v mem r isValue⟩
  | lua env p upvals =>
    simp only [closureRefs, List.mem_cons, List.mem_map, forall_eq_or_imp, forall_exists_index, and_imp,
      forall_apply_eq_imp_iff₂] at refs ⊢
    obtain ⟨first, marked⟩ := marktable_shades refs.1 (markable.coloured _ refs.1)
    obtain ⟨second, marked'⟩ := markobject_shades (first.markable markable) (o := .proto p) (first.objects ▸ refs.2.1)
    have both := first.trans second
    obtain ⟨rest, all⟩ := foldl_shades (g := (g.marktable env).markobject (.proto p)) (l := upvals)
      (f := fun g uv => g.markobject (.upval uv)) (fun uv => [.upval uv]) fun g' uv mem shades => by
        obtain ⟨step, marked⟩ := markobject_shades (shades.markable (both.markable markable)) (o := .upval uv)
          (shades.objects ▸ both.objects ▸ refs.2.2 uv mem)
        exact ⟨step, by simpa using marked⟩
    exact ⟨both.trans rest, rest.nonwhite (second.nonwhite marked), rest.nonwhite marked',
      fun uv mem => all uv mem _ (List.mem_singleton_self _)⟩

theorem marknames_shades (names : List (Option Nat)) (markable : Markable g)
    (objects : ∀ ts, some ts ∈ names → .string ts ∈ g.objects) :
    Shades g (names.foldl markname g) ∧ ∀ ts, some ts ∈ names → (names.foldl markname g).iswhite (.string ts) = false := by
  obtain ⟨shades, all⟩ := foldl_shades (g := g) (l := names) (f := markname)
    (fun name => (name.map .string).toList) fun g' name mem shades => by
      cases name with
      | none => exact ⟨.refl g', by simp⟩
      | some ts =>
        have object : .string ts ∈ g'.objects := shades.objects ▸ objects ts mem
        obtain ⟨step, marked⟩ := stringmark_shades object ((shades.markable markable).coloured _ object)
        exact ⟨step, by simpa [markname] using marked⟩
  exact ⟨shades, fun ts mem => all (some ts) mem _ (by simp)⟩

theorem markprotos_shades (protos : List (Option Nat)) (markable : Markable g)
    (objects : ∀ f, some f ∈ protos → .proto f ∈ g.objects) :
    Shades g (protos.foldl markproto g) ∧ ∀ f, some f ∈ protos → (protos.foldl markproto g).iswhite (.proto f) = false := by
  obtain ⟨shades, all⟩ := foldl_shades (g := g) (l := protos) (f := markproto)
    (fun p => (p.map .proto).toList) fun g' p mem shades => by
      cases p with
      | none => exact ⟨.refl g', by simp⟩
      | some f =>
        obtain ⟨step, marked⟩ := markobject_shades (shades.markable markable) (o := .proto f)
          (shades.objects ▸ objects f mem)
        exact ⟨step, by simpa [markproto] using marked⟩
  exact ⟨shades, fun f mem => all (some f) mem _ (by simp)⟩

theorem markname_shades (name : Option Nat) (markable : Markable g) (objects : ∀ ts, name = some ts → .string ts ∈ g.objects) :
    Shades g (g.markname name) ∧ ∀ ts, name = some ts → (g.markname name).iswhite (.string ts) = false := by
  obtain ⟨shades, all⟩ := marknames_shades [name] markable
    fun ts mem => objects ts (List.mem_singleton.mp mem).symm
  exact ⟨shades, fun ts isName => all ts (by simp [isName])⟩

theorem traverseproto_shades (markable : Markable g) {f : Nat} (object : .proto f ∈ g.objects) :
    Shades g (g.traverseproto f) ∧ ∀ r ∈ g.refs (.proto f), (g.traverseproto f).iswhite r = false := by
  have refs := markable.referring _ object
  simp only [GlobalState.refs, mem_protoRefs] at refs ⊢
  unfold traverseproto
  generalize g.heap.protos f = p at refs ⊢
  obtain ⟨shades₁, source⟩ := markname_shades p.source markable
    fun ts isSource => refs _ (.inl ⟨ts, isSource, rfl⟩)
  have markable₁ := shades₁.markable markable
  obtain ⟨shades₂, constants⟩ := markvalues_shades p.k markable₁
    fun v mem o isValue => shades₁.objects ▸ refs o (.inr (.inl ⟨v, mem, isValue⟩))
  have to₂ := shades₁.trans shades₂
  have markable₂ := shades₂.markable markable₁
  obtain ⟨shades₃, upvalues⟩ := marknames_shades p.upvalues markable₂
    fun ts mem => to₂.objects ▸ refs _ (.inr (.inr (.inl ⟨ts, mem, rfl⟩)))
  have to₃ := to₂.trans shades₃
  have markable₃ := shades₃.markable markable₂
  obtain ⟨shades₄, inner⟩ := markprotos_shades p.p markable₃
    fun f mem => to₃.objects ▸ refs _ (.inr (.inr (.inr (.inl ⟨f, mem, rfl⟩))))
  have to₄ := to₃.trans shades₄
  obtain ⟨shades₅, locvars⟩ := marknames_shades p.locvars (shades₄.markable markable₃)
    fun ts mem => to₄.objects ▸ refs _ (.inr (.inr (.inr (.inr ⟨ts, mem, rfl⟩))))
  refine ⟨to₄.trans shades₅, ?_⟩
  rintro r (⟨ts, isSource, rfl⟩ | ⟨v, mem, isValue⟩ | ⟨ts, mem, rfl⟩ | ⟨f', mem, rfl⟩ | ⟨ts, mem, rfl⟩)
  · exact (((shades₂.trans shades₃).trans shades₄).trans shades₅).nonwhite (source ts isSource)
  · exact ((shades₃.trans shades₄).trans shades₅).nonwhite (constants v mem r isValue)
  · exact (shades₄.trans shades₅).nonwhite (upvalues ts mem)
  · exact shades₅.nonwhite (inner f' mem)
  · exact locvars ts mem

/-! ### Stacks -/

theorem le_lim (l : Thread) : exposed l ≤ lim l ∧ l.top ≤ exposed l := by
  unfold exposed lim
  have both : ∀ (cis : List CallInfo) (n m : Nat), n ≤ m →
      cis.foldl (fun n ci => if ci.isLua then max n ci.top else n) n ≤ cis.foldl (fun lim ci => max lim ci.top) m ∧
      n ≤ cis.foldl (fun n ci => if ci.isLua then max n ci.top else n) n := by
    intro cis
    induction cis with
    | nil => exact fun n m le => ⟨le, le_refl n⟩
    | cons ci cis ih =>
      intro n m le
      simp only [List.foldl_cons]
      by_cases isLua : ci.isLua = true
      · rw [if_pos isLua]
        obtain ⟨upper, lower⟩ := ih (max n ci.top) (max m ci.top) (by omega)
        exact ⟨upper, by omega⟩
      · rw [if_neg isLua]
        exact ih n (max m ci.top) (by omega)
  exact both l.ci l.top l.top (le_refl _)

-- what is above the top of a stack after a traversal
def cleared (l : Thread) : Thread :=
  { l with stack := fun slot => if l.top ≤ slot ∧ slot ≤ lim l then .nil else l.stack slot }

theorem exposed_cleared (l : Thread) : exposed (cleared l) = exposed l := rfl

/-- Clearing the top of a stack takes references away. -/
theorem refs_cleared {th : Nat} (r : GCObject)
    (ref : r ∈ (g.setThread th (cleared (g.heap.threads th))).refs o) : r ∈ g.refs o := by
  have emptied : ∀ l : Thread, ∀ slot, r ∈ gcvalue ((cleared l).stack slot) → r ∈ gcvalue (l.stack slot) := by
    intro l slot isValue
    simp only [cleared] at isValue
    split at isValue
    · cases isValue
    · exact isValue
  rw [refs_setThread] at ref
  split at ref
  next here =>
    rw [here]
    simp only [GlobalState.refs]
    rw [mem_threadRefs] at ref ⊢
    rw [exposed_cleared] at ref
    refine ref.imp id ?_
    rintro ⟨slot, below, isValue⟩
    exact ⟨slot, below, emptied _ slot isValue⟩
  next =>
    split at ref
    next uv _ =>
      simp only [GlobalState.refs, deref]
      cases v : (g.heap.upvals uv).v with
      | own => rw [v] at ref; exact ref
      | stack th' slot =>
        rw [v] at ref
        simp only [Option.mem_toList] at ref ⊢
        by_cases here : th' = th
        · rw [if_pos here] at ref
          rw [here]
          exact emptied _ slot ref
        · rw [if_neg here] at ref
          exact ref
    next => exact ref

theorem traversestack_shades (markable : Markable g) (th : Nat) (object : .thread th ∈ g.objects) :
    ∃ g₁, Shades g g₁ ∧ g.traversestack th = g₁.setThread th (cleared (g₁.heap.threads th)) ∧
      ∀ r ∈ (g.traversestack th).refs (.thread th), (g.traversestack th).iswhite r = false := by
  have refs := markable.referring _ object
  simp only [GlobalState.refs, mem_threadRefs] at refs
  have below := (le_lim (g.heap.threads th)).2
  obtain ⟨first, global⟩ := markvalue_shades (v := (g.heap.threads th).gt) markable
    fun o isValue => refs o (.inl isValue)
  obtain ⟨rest, slots⟩ := foldl_shades (g := g.markvalue (g.heap.threads th).gt)
    (l := List.range (g.heap.threads th).top) (f := fun g' o => g'.markvalue ((g.heap.threads th).stack o))
    (fun slot => (gcvalue ((g.heap.threads th).stack slot)).toList) fun g' slot mem shades => by
      have both := first.trans shades
      have inside := List.mem_range.mp mem
      obtain ⟨step, marked⟩ := markvalue_shades (v := (g.heap.threads th).stack slot) (both.markable markable)
        fun o isValue => both.objects ▸ refs o (.inr ⟨slot, by omega, isValue⟩)
      exact ⟨step, fun o isValue => marked o (Option.mem_toList.mp isValue)⟩
  have both := first.trans rest
  have result : g.traversestack th = ((List.range (g.heap.threads th).top).foldl
      (fun g' o => g'.markvalue ((g.heap.threads th).stack o)) (g.markvalue (g.heap.threads th).gt)).setThread th
        (cleared (g.heap.threads th)) := rfl
  refine ⟨_, both, by rw [both.heap]; exact result, ?_⟩
  rw [result]
  intro r ref
  rw [refs_setThread, if_pos rfl, mem_threadRefs, exposed_cleared] at ref
  rcases ref with isValue | ⟨slot, shown, isValue⟩
  · exact rest.nonwhite (global r isValue)
  · simp only [cleared] at isValue
    split at isValue
    · cases isValue
    next kept =>
      have le := (le_lim (g.heap.threads th)).1
      exact slots slot (List.mem_range.mpr (by omega)) r (Option.mem_toList.mpr isValue)

/-! ### Tables -/

-- the empty entries have lost their keys
def pruned (t : Table) : Table := { t with node := t.node.map fun n => if n.val = .nil then removeentry n else n }

theorem removeentry_val (n : Node) : (removeentry n).val = n.val := by
  unfold removeentry
  split <;> rfl

theorem mem_pruned {t : Table} {r : GCObject} (ref : r ∈ tableRefs (pruned t)) : r ∈ tableRefs t := by
  rw [mem_tableRefs] at ref ⊢
  refine ref.imp id (.imp id ?_)
  rintro ⟨n, mem, used, ref⟩
  obtain ⟨n', mem', rfl⟩ := List.mem_map.mp mem
  by_cases empty : n'.val = .nil
  · rw [if_pos empty, removeentry_val] at used
    exact absurd empty used
  · rw [if_neg empty] at ref
    exact ⟨n', mem', empty, ref⟩

-- what a traversal marks of an entry
def nodeTargets (weakkey weakvalue : Bool) (n : Node) : List GCObject :=
  if n.val = .nil then []
  else (if weakkey then [] else (gcvalue n.key).toList) ++ if weakvalue then [] else (gcvalue n.val).toList

theorem marknode_shades {weakkey weakvalue : Bool} {n : Node} (markable : Markable g)
    (objects : ∀ r ∈ nodeRefs n, r ∈ g.objects) : Shades g (marknode weakkey weakvalue g n) ∧
      ∀ r ∈ nodeTargets weakkey weakvalue n, (marknode weakkey weakvalue g n).iswhite r = false := by
  unfold marknode nodeTargets
  by_cases empty : n.val = .nil
  · rw [if_pos empty, if_pos empty]
    exact ⟨.refl g, by simp⟩
  · simp only [nodeRefs, if_neg empty, List.mem_append, Option.mem_toList] at objects ⊢
    obtain ⟨key, keyMarked⟩ := markvalue_shades (v := n.key) markable fun o isValue => objects o (.inl isValue)
    have first : Shades g (if weakkey then g else g.markvalue n.key) ∧ (weakkey = false →
        ∀ r ∈ gcvalue n.key, (if weakkey then g else g.markvalue n.key).iswhite r = false) := by
      cases weakkey with
      | true => exact ⟨.refl g, by simp⟩
      | false => exact ⟨key, fun _ => keyMarked⟩
    generalize (if weakkey then g else g.markvalue n.key) = g₁ at first ⊢
    obtain ⟨val, valMarked⟩ := markvalue_shades (v := n.val) (first.1.markable markable)
      fun o isValue => first.1.objects ▸ objects o (.inr isValue)
    cases weakvalue with
    | true =>
      refine ⟨first.1, fun r target => ?_⟩
      cases weakkey with
      | true => simp at target
      | false => exact first.2 rfl r (by simpa using target)
    | false =>
      refine ⟨first.1.trans val, fun r target => ?_⟩
      cases weakkey with
      | true => exact valMarked r (by simpa using target)
      | false =>
        simp only [Bool.false_eq_true, if_false, Option.mem_toList] at target
        exact target.elim (fun isKey => val.nonwhite (first.2 rfl r isKey)) (valMarked r)

theorem linkweak_marked (h : Nat) (weakkey weakvalue : Bool) : ∀ o,
    (g.linkweak h weakkey weakvalue).iswhite o = g.iswhite o ∧
    (g.linkweak h weakkey weakvalue).isblack o = g.isblack o ∧
    ((White g) → (g.linkweak h weakkey weakvalue).isdead o = g.isdead o) := by
  intro o
  have low := linkweak_low weakkey weakvalue (g.marked (.table h))
  refine ⟨?_, ?_, fun white => (sameColour_of (o := .table h) white low).isdead⟩
  · have same : (g.linkweak h weakkey weakvalue).iswhite o = (g.setMark (.table h) _).iswhite o := rfl
    rw [same, setMark_iswhite, whiteMark_low, low, ← whiteMark_low]
    split
    next here => rw [here, iswhite_eq]
    next => rfl
  · have same : (g.linkweak h weakkey weakvalue).isblack o = (g.setMark (.table h) _).isblack o := rfl
    rw [same, setMark_isblack, blackMark_low, low, ← blackMark_low]
    split
    next here => rw [here, isblack_eq]
    next => rfl

theorem linkweak_markable {h : Nat} {weakkey weakvalue : Bool} (markable : Markable g) :
    Markable (g.linkweak h weakkey weakvalue) := by
  refine ⟨markable.referring, fun o object => ?_⟩
  have coloured := markable.coloured o object
  have low := linkweak_low weakkey weakvalue (g.marked (.table h))
  show Coloured (if o = .table h then _ else g.marked o)
  split
  next here => exact coloured.sameLow (here ▸ low)
  next => exact coloured

-- the state after the links of a weak table
def linkedWeak (g : GlobalState) (h : Nat) (weakkey weakvalue : Bool) : GlobalState :=
  if weakkey || weakvalue then g.linkweak h weakkey weakvalue else g

theorem linkedWeak_markable (h : Nat) (weakkey weakvalue : Bool) (markable : Markable g) :
    Markable (linkedWeak g h weakkey weakvalue) := by
  unfold linkedWeak
  split
  · exact linkweak_markable markable
  · exact markable

theorem linkedWeak_objects (h : Nat) (weakkey weakvalue : Bool) :
    (linkedWeak g h weakkey weakvalue).objects = g.objects ∧ (linkedWeak g h weakkey weakvalue).heap = g.heap := by
  unfold linkedWeak
  split
  · exact ⟨rfl, rfl⟩
  · exact ⟨rfl, rfl⟩

/-- The traversal of a table as steps of the kinds above. -/
structure TraversedTable (g : GlobalState) (h : Nat) (weakkey weakvalue : Bool) (g₁ g₂ : GlobalState) : Prop where
  first : Shades g g₁
  metatable : ∀ mt ∈ (g.heap.tables h).metatable, g₁.iswhite (.table mt) = false
  second : Shades (linkedWeak g₁ h weakkey weakvalue) g₂
  weak : (g.traversetable h).1 = (weakkey || weakvalue)
  result : ((weakkey && weakvalue) = true ∧ (g.traversetable h).2 = g₂) ∨
    (g.traversetable h).2 = g₂.setTable h (pruned (g₂.heap.tables h))
  array : weakvalue = false → ∀ v ∈ (g.heap.tables h).array, ∀ o ∈ gcvalue v, g₂.iswhite o = false
  node : weakkey = false → weakvalue = false →
    ∀ n ∈ (g.heap.tables h).node, ∀ r ∈ nodeRefs n, g₂.iswhite r = false

theorem traversetable_steps (markable : Markable g) {h : Nat} (object : .table h ∈ g.objects) :
    ∃ weakkey weakvalue g₁ g₂, TraversedTable g h weakkey weakvalue g₁ g₂ := by
  have refs := markable.referring _ object
  simp only [GlobalState.refs, mem_tableRefs] at refs
  obtain ⟨first, metatable⟩ := markmetatable_shades (g.heap.tables h).metatable
    (fun mt isMt => refs _ (.inl ⟨mt, isMt, rfl⟩)) markable.coloured
  generalize isFirst : g.markmetatable (g.heap.tables h).metatable = g₁ at first metatable
  generalize isKey : g₁.weakMode (g₁.gfasttm (g.heap.tables h).metatable .mode) 'k' = weakkey
  generalize isValue : g₁.weakMode (g₁.gfasttm (g.heap.tables h).metatable .mode) 'v' = weakvalue
  have linked := linkedWeak_markable h weakkey weakvalue (first.markable markable)
  obtain ⟨linkedObjects, linkedHeap⟩ := linkedWeak_objects (g := g₁) h weakkey weakvalue
  by_cases both : (weakkey && weakvalue) = true
  · refine ⟨weakkey, weakvalue, g₁, linkedWeak g₁ h weakkey weakvalue, first, metatable, .refl _, ?_, .inl ⟨both, ?_⟩, ?_, ?_⟩
    · unfold traversetable
      simp only [Bool.and_eq_true] at both
      simp [isFirst, isKey, isValue, both]
    · unfold traversetable linkedWeak
      simp [isFirst, isKey, isValue, both]
    · simp only [Bool.and_eq_true] at both
      simp [both]
    · simp only [Bool.and_eq_true] at both
      simp [both]
  · have values : Shades (linkedWeak g₁ h weakkey weakvalue)
        (if weakvalue then linkedWeak g₁ h weakkey weakvalue
          else (g.heap.tables h).array.reverse.foldl markvalue (linkedWeak g₁ h weakkey weakvalue)) ∧
        (weakvalue = false → ∀ v ∈ (g.heap.tables h).array, ∀ o ∈ gcvalue v,
          (if weakvalue then linkedWeak g₁ h weakkey weakvalue
            else (g.heap.tables h).array.reverse.foldl markvalue (linkedWeak g₁ h weakkey weakvalue)).iswhite o = false) := by
      cases weakvalue with
      | true => exact ⟨.refl _, by simp⟩
      | false =>
        obtain ⟨shades, all⟩ := markvalues_shades (g.heap.tables h).array.reverse linked
          fun v mem o isValue => by
            rw [linkedObjects, first.objects]
            exact refs o (.inr (.inl ⟨v, List.mem_reverse.mp mem, isValue⟩))
        exact ⟨shades, fun _ v mem => all v (List.mem_reverse.mpr mem)⟩
    generalize isArray : (if weakvalue then linkedWeak g₁ h weakkey weakvalue
      else (g.heap.tables h).array.reverse.foldl markvalue (linkedWeak g₁ h weakkey weakvalue)) = g₂ at values
    obtain ⟨nodes, targets⟩ := foldl_shades (g := g₂) (l := (g.heap.tables h).node.reverse)
      (f := marknode weakkey weakvalue) (nodeTargets weakkey weakvalue) fun g' n mem shades => by
        have toHere := values.1.trans shades
        refine marknode_shades (toHere.markable linked) fun r ref => ?_
        rw [toHere.objects, linkedObjects, first.objects]
        unfold nodeRefs at ref
        split at ref
        · cases ref
        next used =>
          exact refs r (.inr (.inr ⟨n, List.mem_reverse.mp mem, used, by simpa using ref⟩))
    have traversed : g.traversetable h = (weakkey || weakvalue, ((g.heap.tables h).node.reverse.foldl
        (marknode weakkey weakvalue) g₂).setTable h (pruned (g.heap.tables h))) := by
      rw [← isArray]
      unfold traversetable linkedWeak pruned
      simp only [isFirst, isKey, isValue, if_neg both]
    have sameHeap : ((g.heap.tables h).node.reverse.foldl (marknode weakkey weakvalue) g₂).heap = g.heap := by
      rw [nodes.heap, values.1.heap, linkedHeap, first.heap]
    refine ⟨weakkey, weakvalue, g₁, _, first, metatable, values.1.trans nodes, ?_, .inr ?_,
      fun strong v mem o isValue => nodes.nonwhite (values.2 strong v mem o isValue), fun strongKey strongValue n mem r ref => ?_⟩
    · rw [traversed]
    · rw [traversed, sameHeap]
    · refine targets n (List.mem_reverse.mpr mem) r ?_
      subst strongKey
      subst strongValue
      simpa [nodeTargets, nodeRefs] using ref

/-! ## What a step carries on -/

/-- A bound on the rounds of `propagateall`. -/
def work (g : GlobalState) : Nat := g.gray.length + g.objects.countP g.iswhite

structure Carried (pending : GCObject → Prop) (g g' : GlobalState) : Prop where
  frame : Frame g g'
  upvals : UpvalsDone g → UpvalsDone g'
  weak : WeakDone pending g → WeakDone pending g'
  again : AgainDone pending g → AgainDone pending g'
  work : g.objects.Nodup → work g' ≤ work g

theorem Carried.trans {g₁ : GlobalState} (first : Carried pending g g') (second : Carried pending g' g₁) :
    Carried pending g g₁ where
  frame := first.frame.trans second.frame
  upvals := fun done => second.upvals (first.upvals done)
  weak := fun done => second.weak (first.weak done)
  again := fun done => second.again (first.again done)
  work := fun nodup => (second.work (first.frame.objects ▸ nodup)).trans (first.work nodup)

theorem work_shades (shades : Shades g g') (nodup : g.objects.Nodup) : work g' ≤ work g := by
  obtain ⟨pushed, eq, distinct, each⟩ := shades.gray
  have fewer : (g.objects.filter g'.iswhite ++ pushed).length ≤ (g.objects.filter g.iswhite).length := by
    refine (List.subperm_of_subset ?_ fun o mem => ?_).length_le
    · refine (nodup.filter _).append distinct fun o old new => ?_
      have white := (List.mem_filter.mp old).2
      rw [(isgray_iff.mp (each o new).2.1).2] at white
      cases white
    · cases List.mem_append.mp mem with
      | inl old =>
        obtain ⟨object, white⟩ := List.mem_filter.mp old
        refine List.mem_filter.mpr ⟨object, ?_⟩
        cases before : g.iswhite o with
        | true => rfl
        | false => rw [shades.nonwhite before] at white; cases white
      | inr new => exact List.mem_filter.mpr ⟨(each o new).2.2.2, (each o new).1⟩
  unfold work
  rw [eq, shades.objects, List.countP_eq_length_filter, List.countP_eq_length_filter, List.length_append]
  rw [List.length_append] at fewer
  omega

theorem carried_of_shades {other : GCObject → Prop} (marking : Marking other g) (shades : Shades g g') :
    Carried pending g g' where
  frame := frame_of_shades shades
  upvals := UpvalsDone.shades shades
  weak := WeakDone.shades shades marking
  again := AgainDone.shades shades
  work := work_shades shades

/-- Nothing but references of entries and of stacks is taken away. -/
theorem carried_of_heap {heap : Heap} (upvals : heap.upvals = g.heap.upvals)
    (refs : ∀ o r, r ∈ { g with heap }.refs o → r ∈ g.refs o)
    (tables : ∀ h, (heap.tables h).metatable = (g.heap.tables h).metatable ∧
      (heap.tables h).array = (g.heap.tables h).array) : Carried pending g { g with heap } where
  frame := frame_heap upvals refs
  upvals := fun done uv object unowned nonwhite r ref =>
    done uv object (by simpa only [Owned, upvals] using unowned) nonwhite r (refs _ r ref)
  weak := fun done h mem free => by
    obtain ⟨metatable, array⟩ := done h mem free
    exact ⟨fun mt isMt => metatable mt ((tables h).1 ▸ isMt), fun strong v mem => array strong v ((tables h).2 ▸ mem)⟩
  again := fun done o mem free r ref => done o mem free r (refs o r ref)
  work := fun _ => le_refl _

/-- The mark of one object changes, but neither to white nor from it, nor do its flags. -/
theorem carried_of_mark {m : BitVec 8} (white' : whiteMark m = g.iswhite o)
    (flags : m &&& flagbits = g.marked o &&& flagbits)
    (coloured : o ∈ g.objects → Coloured (g.marked o) → Coloured m)
    (unblackened : Unblackened g o → g.isblack o = false → blackMark m = false) :
    Carried pending g (g.setMark o m) := by
  have same : ∀ o', (g.setMark o m).iswhite o' = g.iswhite o' := fun o' => by
    rw [setMark_iswhite]
    split
    next here => rw [here, white']
    next => rfl
  refine ⟨⟨⟨_, _, _, _, _, rfl⟩, rfl, fun _ _ => id, fun o' nonwhite => (same o').trans nonwhite,
    fun o' object good => ?_, fun o' object kind notBlack => ?_, fun o' => ?_⟩, fun done uv object unowned nonwhite r ref => ?_,
    fun done h mem free => ?_, fun done o' mem free r ref => (same r).trans (done o' mem free r ref), fun _ => ?_⟩
  · rw [setMark_marked]
    split
    next here => exact coloured (here ▸ object) (here ▸ good)
    next => exact good
  · rw [setMark_isblack]
    split
    next here => exact unblackened (here ▸ kind) (here ▸ notBlack)
    next => exact notBlack
  · rw [setMark_marked]
    split
    next here => rw [here]; exact fixed_of_flags flags
    next => rfl
  · exact (same r).trans (done uv object unowned ((same _).symm.trans nonwhite) r ref)
  · obtain ⟨metatable, array⟩ := done h mem free
    refine ⟨fun mt isMt => (same _).trans (metatable mt isMt), fun strong v mem' o' isValue => ?_⟩
    refine (same _).trans (array ?_ v mem' o' isValue)
    rw [setMark_marked] at strong
    split at strong
    next here => rw [here, ← valueweak_of_flags flags]; exact strong
    next => exact strong
  · have whites : (g.setMark o m).iswhite = g.iswhite := funext same
    unfold work
    rw [whites]
    exact le_refl _

/-! ## `propagatemark` -/

theorem WeakDone.settle {h : Nat} (done : WeakDone (also pending (.table h)) g)
    (here : .table h ∈ g.weak → Spared g h) : WeakDone pending g := by
  intro h' mem free
  by_cases same : h' = h
  · exact same ▸ here (same ▸ mem)
  · exact done h' mem fun isPending => isPending.elim free fun eq => same (GCObject.table.inj eq)

theorem WeakDone.weaken (done : WeakDone pending g) : WeakDone (also pending o) g :=
  fun h mem free => done h mem fun isPending => free (.inl isPending)

theorem AgainDone.weaken (done : AgainDone pending g) : AgainDone (also pending o) g :=
  fun o' mem free => done o' mem fun isPending => free (.inl isPending)

theorem AgainDone.settle (done : AgainDone (also pending o) g)
    (here : o ∈ g.grayagain → ∀ r ∈ g.refs o, g.iswhite r = false) : AgainDone pending g := by
  intro o' mem free
  by_cases same : o' = o
  · exact same ▸ here (same ▸ mem)
  · exact done o' mem fun isPending => isPending.elim free same

/-- What `propagatemark` leaves, where `popped` is the state without the first gray object. -/
structure Propagated (pending : GCObject → Prop) (g g' : GlobalState) : Prop where
  marking : Marking pending g'
  carried : Carried pending g g'
  less : g.objects.Nodup → work g' < work g

-- taking the first gray object off its list
structure Popped (pending : GCObject → Prop) (o : GCObject) (g popped : GlobalState) : Prop where
  marking : Marking (also pending o) popped
  carried : Carried (also pending o) g popped
  less : work popped < work g
  objects : popped.objects = g.objects

theorem unlisted_of_gray {gclist : List GCObject} (marking : Marking pending g) (gray : g.gray = o :: gclist) :
    o ∉ gclist ++ g.grayagain ++ g.weak := by
  have distinct := marking.distinct
  rw [gray] at distinct
  simp only [List.cons_append, List.nodup_cons] at distinct
  exact distinct.1

theorem popped_of_gray {gclist : List GCObject} (white : White g) (marking : Marking pending g)
    (gray : g.gray = o :: gclist) (kind : ¬ Unblackened g o) :
    Popped pending o g { g.gray2black o with gray := gclist } := by
  have listed := marking.listed o (by simp [gray])
  have marked : Carried (also pending o) g (g.gray2black o) := by
    refine carried_of_mark ?_ (gray2black_flags _) (fun _ coloured => coloured.gray2black listed.2.1)
      (fun isUnblackened => absurd isUnblackened kind)
    rw [iswhite_eq]
    have kept : ∀ m, whiteMark (m ||| blackbit) = whiteMark m := by decide
    exact kept _
  have less : work { g.gray2black o with gray := gclist } < work g := by
    have whites : (g.gray2black o).iswhite = g.iswhite := funext fun _ => gray2black_iswhite
    have count : g.objects.countP (g.gray2black o).iswhite = g.objects.countP g.iswhite := by rw [whites]
    have eq : work { g.gray2black o with gray := gclist } =
        gclist.length + g.objects.countP (g.gray2black o).iswhite := rfl
    rw [eq, count, work, gray, List.length_cons]
    omega
  exact ⟨marking.pop white gray, ⟨⟨⟨_, _, _, _, _, rfl⟩, rfl, fun _ _ => id, marked.frame.nonwhite,
    marked.frame.coloured, marked.frame.unblackened, marked.frame.fixed⟩, marked.upvals, marked.weak, marked.again, fun _ => less.le⟩,
    less, rfl⟩

/-- The object that was popped has been seen to. -/
theorem Popped.finish {popped : GlobalState} (first : Popped pending o g popped) (carried : Carried (also pending o) popped g')
    (marking : Marking (also pending o) g') (nodup : popped.objects.Nodup → work g' ≤ work popped)
    (seen : g'.isblack o = true → ∀ r ∈ g'.refs o, g'.iswhite r = false)
    (unlisted : o ∈ g'.gray ++ g'.grayagain ++ g'.weak → g'.isblack o = false)
    (weak : ∀ h, o = .table h → .table h ∈ g'.weak → Spared g' h)
    (again : o ∈ g'.grayagain → ∀ r ∈ g'.refs o, g'.iswhite r = false) : Propagated pending g g' where
  marking := marking.settle seen unlisted
  carried :=
    { frame := first.carried.frame.trans carried.frame
      upvals := fun done => carried.upvals (first.carried.upvals done)
      weak := fun done => by
        have most := carried.weak (first.carried.weak done.weaken)
        intro h mem free
        by_cases same : GCObject.table h = o
        · exact weak h same.symm mem
        · exact most h mem fun isPending => isPending.elim free same
      again := fun done => (carried.again (first.carried.again done.weaken)).settle again
      work := fun distinct => (nodup (first.objects ▸ distinct)).trans first.less.le }
  less := fun distinct => (nodup (first.objects ▸ distinct)).trans_lt first.less

theorem unlisted_shades (shades : Shades g g') (nonwhite : g.iswhite o = false)
    (unlisted : o ∉ g.gray ++ g.grayagain ++ g.weak) : o ∉ g'.gray ++ g'.grayagain ++ g'.weak := by
  obtain ⟨pushed, eq, -, each⟩ := shades.gray
  have lists : g'.gray ++ g'.grayagain ++ g'.weak = pushed ++ (g.gray ++ g.grayagain ++ g.weak) := by
    rw [eq, shades_grayagain shades, shades_weak shades]
    simp only [List.append_assoc]
  rw [lists]
  intro mem
  cases List.mem_append.mp mem with
  | inl new =>
    rw [(each o new).1] at nonwhite
    cases nonwhite
  | inr old => exact unlisted old

/-- A function or a prototype, which is seen to by shading. -/
theorem Popped.shaded {popped : GlobalState} (first : Popped pending o g popped) (white : White g)
    (nonwhite : g.iswhite o = false) (free : o ∉ popped.gray ++ popped.grayagain ++ popped.weak)
    (shades : Shades popped g') (seen : ∀ r ∈ popped.refs o, g'.iswhite r = false)
    (noTable : ∀ h, o ≠ .table h) : Propagated pending g g' := by
  have still : popped.iswhite o = false := first.carried.frame.nonwhite o nonwhite
  have unlisted := unlisted_shades shades still free
  refine first.finish (carried_of_shades first.marking shades)
    (Marking.shades shades (first.carried.frame.white white) first.marking) (work_shades shades)
    (fun _ r ref => seen r (shades.refs ▸ ref)) (fun mem => absurd mem unlisted)
    (fun h isTable => absurd isTable (noTable h)) fun mem => ?_
  exact absurd (List.mem_append_left _ (List.mem_append_right _ mem)) unlisted

theorem propagate_function {cl : Nat} {gclist : List GCObject} (white : White g) (markable : Markable g)
    (marking : Marking pending g) (gray : g.gray = .function cl :: gclist) : Propagated pending g g.propagatemark := by
  have listed := marking.listed (.function cl) (by simp [gray])
  have free := unlisted_of_gray marking gray
  have popped := popped_of_gray white marking gray (by simp [Unblackened])
  have result : g.propagatemark = { g.gray2black (.function cl) with gray := gclist }.traverseclosure cl := by
    unfold propagatemark
    rw [gray]
  rw [result]
  obtain ⟨shades, seen⟩ := traverseclosure_shades (popped.carried.frame.markable markable) cl listed.1
  exact popped.shaded white listed.2.1 free shades seen (by simp)

theorem propagate_proto {f : Nat} {gclist : List GCObject} (white : White g) (markable : Markable g)
    (marking : Marking pending g) (gray : g.gray = .proto f :: gclist) : Propagated pending g g.propagatemark := by
  have listed := marking.listed (.proto f) (by simp [gray])
  have free := unlisted_of_gray marking gray
  have popped := popped_of_gray white marking gray (by simp [Unblackened])
  have result : g.propagatemark = { g.gray2black (.proto f) with gray := gclist }.traverseproto f := by
    unfold propagatemark
    rw [gray]
  rw [result]
  obtain ⟨shades, seen⟩ := traverseproto_shades (popped.carried.frame.markable markable) (f := f) listed.1
  exact popped.shaded white listed.2.1 free shades seen (by simp)

theorem thread_moved {gclist : List GCObject} (notBlack : g.isblack o = false) :
    { g.gray2black o with gray := gclist, grayagain := o :: g.grayagain }.black2gray o =
      { g with gray := gclist, grayagain := o :: g.grayagain } := by
  have kept : ∀ m, blackMark m = false → (m ||| blackbit) &&& ~~~blackbit = m := by decide
  have marks : (fun o' => if o' = o then (if o = o then g.marked o ||| blackbit else g.marked o) &&& ~~~blackbit
      else if o' = o then g.marked o ||| blackbit else g.marked o') = g.marked := by
    funext o'
    split
    next here => rw [if_pos rfl, kept _ notBlack, here]
    next => rfl
  have unfolded : { g.gray2black o with gray := gclist, grayagain := o :: g.grayagain }.black2gray o =
      { g with
        gray := gclist
        grayagain := o :: g.grayagain
        marked := fun o' => if o' = o then (if o = o then g.marked o ||| blackbit else g.marked o) &&& ~~~blackbit
          else if o' = o then g.marked o ||| blackbit else g.marked o' } := rfl
  rw [unfolded, marks]

theorem popped_of_thread {th : Nat} {gclist : List GCObject} (marking : Marking pending g)
    (gray : g.gray = .thread th :: gclist) :
    Popped pending (.thread th) g { g with gray := gclist, grayagain := .thread th :: g.grayagain } := by
  have moved : ∀ o, o ∈ gclist ++ (.thread th :: g.grayagain) ++ g.weak ↔ o ∈ g.gray ++ g.grayagain ++ g.weak := by
    intro o
    rw [gray]
    simp only [List.mem_append, List.mem_cons]
    tauto
  have perm : (gclist ++ (.thread th :: g.grayagain) ++ g.weak).Perm (g.gray ++ g.grayagain ++ g.weak) := by
    rw [gray]
    exact List.perm_middle.append_right _
  have less : work { g with gray := gclist, grayagain := .thread th :: g.grayagain } < work g := by
    have eq : work { g with gray := gclist, grayagain := .thread th :: g.grayagain } =
        gclist.length + g.objects.countP g.iswhite := rfl
    rw [eq, work, gray, List.length_cons]
    omega
  refine ⟨Marking.weaken (fun o => .inl) ⟨marking.alive, marking.black, fun o object isGray => ?_,
    fun o mem => marking.listed o ((moved o).mp mem), perm.nodup_iff.mpr marking.distinct, marking.weak,
    marking.main, marking.registry⟩, ⟨⟨⟨_, _, _, _, _, rfl⟩, rfl, fun _ _ => id, fun _ => id, fun _ _ => id,
    fun _ _ _ => id, fun _ => rfl⟩, id, id, fun done o mem free => ?_, fun _ => less.le⟩, less, rfl⟩
  · exact (marking.gray o object isGray).imp (moved o).mpr id
  · cases List.mem_cons.mp mem with
    | inl here => exact absurd (.inr here) free
    | inr old => exact done o old free

theorem propagate_thread {th : Nat} {gclist : List GCObject} (white : White g) (markable : Markable g)
    (marking : Marking pending g) (unblackened : g.isblack (.thread th) = false) (gray : g.gray = .thread th :: gclist) :
    Propagated pending g g.propagatemark := by
  have listed := marking.listed (.thread th) (by simp [gray])
  have popped := popped_of_thread marking gray
  have result : g.propagatemark =
      { g with gray := gclist, grayagain := .thread th :: g.grayagain }.traversestack th := by
    unfold propagatemark
    rw [gray]
    exact congrArg (traversestack · th) (thread_moved unblackened)
  rw [result]
  obtain ⟨g₁, shades, cleared, seen⟩ :=
    traversestack_shades (popped.carried.frame.markable markable) th listed.1
  have notBlack : g₁.isblack (.thread th) = false := by
    rw [isblack_eq, shades.unchanged listed.2.1, ← isblack_eq]
    exact unblackened
  have marking₁ := Marking.shades shades white popped.marking
  have cut : Carried (also pending (.thread th)) g₁ (g₁.setThread th (Propagation.cleared (g₁.heap.threads th))) :=
    carried_of_heap rfl (fun o r => refs_cleared r) fun h => ⟨rfl, rfl⟩
  rw [cleared] at seen ⊢
  refine popped.finish ((carried_of_shades popped.marking shades).trans cut)
    (marking₁.heap rfl fun o r => refs_cleared r) (fun nodup => ?_) (fun _ => seen) (fun _ => notBlack)
    (fun h isTable => by cases isTable) (fun _ => seen)
  exact (cut.work (shades.objects ▸ nodup)).trans (work_shades shades nodup)

theorem black2gray_carried : Carried pending g (g.black2gray o) := by
  refine carried_of_mark ?_ (black2gray_flags _) (fun _ coloured => coloured.black2gray) (fun _ _ => ?_)
  · have kept : ∀ m, whiteMark (m &&& ~~~blackbit) = whiteMark m := by decide
    rw [iswhite_eq]
    exact kept _
  · have none : ∀ m, blackMark (m &&& ~~~blackbit) = false := by decide
    exact none _

/-- A table gets its flags and its place in the list `weak`. -/
theorem linkweak_carried {h : Nat} {weakkey weakvalue : Bool} :
    Carried (also pending (.table h)) g (g.linkweak h weakkey weakvalue) := by
  have marked := linkweak_marked (g := g) h weakkey weakvalue
  have low := linkweak_low weakkey weakvalue (g.marked (.table h))
  refine ⟨⟨⟨_, _, _, _, _, rfl⟩, rfl, fun _ _ => id, fun o nonwhite => (marked o).1.trans nonwhite, fun o object good => ?_,
    fun o object kind notBlack => (marked o).2.1.trans notBlack, fun o => ?_⟩, fun done uv object unowned nonwhite r ref => ?_,
    fun done h' mem free => ?_, fun done o' mem free r ref => (marked r).1.trans (done o' mem free r ref), fun _ => ?_⟩
  · show Coloured (if o = .table h then _ else g.marked o)
    split
    next here => exact good.sameLow (here ▸ low)
    next => exact good
  · have inside : ∀ m : BitVec 8, m &&& fixedbit = m &&& 0b100111 &&& fixedbit := by decide
    show (if o = .table h then _ else g.marked o) &&& fixedbit = _
    split
    next here => rw [inside, low, ← inside, here]
    next => rfl
  · exact (marked r).1.trans (done uv object unowned ((marked _).1.symm.trans nonwhite) r ref)
  · have other : GCObject.table h' ≠ .table h := fun same => free (.inr same)
    have old : .table h' ∈ g.weak := (List.mem_cons.mp mem).resolve_left other
    obtain ⟨metatable, array⟩ := done h' old free
    refine ⟨fun mt isMt => (marked _).1.trans (metatable mt isMt), fun strong v mem' o' isValue => ?_⟩
    refine (marked _).1.trans (array ?_ v mem' o' isValue)
    have same : (g.linkweak h weakkey weakvalue).marked (.table h') = g.marked (.table h') := setMark_other other
    rw [← same]
    exact strong
  · have whites : (g.linkweak h weakkey weakvalue).iswhite = g.iswhite := funext fun o => (marked o).1
    have eq : work (g.linkweak h weakkey weakvalue) =
        g.gray.length + g.objects.countP (g.linkweak h weakkey weakvalue).iswhite := rfl
    rw [eq, whites, work]

theorem Marking.linkweak {h : Nat} {weakkey weakvalue : Bool} (white : White g) (marking : Marking (also pending (.table h)) g)
    (object : .table h ∈ g.objects) (nonwhite : g.iswhite (.table h) = false)
    (unlisted : .table h ∉ g.gray ++ g.grayagain ++ g.weak) :
    Marking (also pending (.table h)) (g.linkweak h weakkey weakvalue) := by
  have marked := linkweak_marked (g := g) h weakkey weakvalue
  have moved : ∀ o, o ∈ g.gray ++ g.grayagain ++ (.table h :: g.weak) ↔
      o = .table h ∨ o ∈ g.gray ++ g.grayagain ++ g.weak := by
    intro o
    simp only [List.mem_append, List.mem_cons]
    tauto
  have perm : (g.gray ++ g.grayagain ++ (.table h :: g.weak)).Perm (.table h :: (g.gray ++ g.grayagain ++ g.weak)) :=
    List.perm_middle
  refine ⟨fun o mem => ((marked o).2.2 white).trans (marking.alive o mem), fun o mem isBlack free r ref => ?_,
    fun o mem isGray => ?_, fun o mem => ?_, perm.nodup_iff.mpr (List.nodup_cons.mpr ⟨unlisted, marking.distinct⟩),
    fun o mem => ?_, (marked _).1.trans marking.main, fun o isValue => (marked o).1.trans (marking.registry o isValue)⟩
  · exact (marked r).1.trans (marking.black o mem ((marked o).2.1.symm.trans isBlack) free r ref)
  · have before : g.isgray o = true := by
      rw [isgray_iff] at isGray ⊢
      exact ⟨(marked o).2.1.symm.trans isGray.1, (marked o).1.symm.trans isGray.2⟩
    exact (marking.gray o mem before).imp (fun old => (moved o).mpr (.inr old)) id
  · rcases (moved o).mp mem with rfl | old
    · exact ⟨object, (marked _).1.trans nonwhite, trivial, fun _ => .inr rfl⟩
    · obtain ⟨object', nonwhite', traversable, free⟩ := marking.listed o old
      exact ⟨object', (marked o).1.trans nonwhite', traversable, fun isBlack => free ((marked o).2.1.symm.trans isBlack)⟩
  · cases List.mem_cons.mp mem with
    | inl here => exact ⟨h, here⟩
    | inr old => exact marking.weak o old

/-- The object becomes gray again; the lists that find it have it already. -/
theorem Marking.black2gray (white : White g) (marking : Marking (also pending o) g)
    (listed : o ∈ g.gray ++ g.grayagain ++ g.weak) : Marking (also pending o) (g.black2gray o) := by
  refine ⟨fun o' object => ?_, fun o' object isBlack free r ref => ?_, fun o' object isGray => ?_, fun o' mem => ?_,
    marking.distinct, marking.weak, ?_, fun o' isValue => ?_⟩
  · rw [black2gray_isdead white]
    exact marking.alive o' object
  · rw [black2gray_isblack] at isBlack
    simp only [Bool.and_eq_true] at isBlack
    rw [black2gray_iswhite]
    exact marking.black o' object isBlack.1 free r ref
  · by_cases here : o' = o
    · exact .inl (here ▸ listed)
    · rw [isgray_iff, black2gray_isblack, black2gray_iswhite] at isGray
      simp only [here, decide_false, Bool.not_false, Bool.and_true] at isGray
      exact marking.gray o' object (isgray_iff.mpr isGray)
  · obtain ⟨object, nonwhite, traversable, free⟩ := marking.listed o' mem
    refine ⟨object, black2gray_iswhite.trans nonwhite, traversable, fun isBlack => free ?_⟩
    rw [black2gray_isblack] at isBlack
    simp only [Bool.and_eq_true] at isBlack
    exact isBlack.1
  · exact black2gray_iswhite.trans marking.main
  · exact black2gray_iswhite.trans (marking.registry o' isValue)

theorem linkweak_valueweak (weakkey weakvalue : Bool) (m : BitVec 8) :
    ((m &&& ~~~(keyweak ||| valueweak)) ||| ((if weakkey then keyweak else 0) ||| (if weakvalue then valueweak else 0)))
      &&& valueweak = 0 → weakvalue = false := by
  revert m
  cases weakkey <;> cases weakvalue <;> decide

/-- The entries of a table after its traversal. -/
structure Pruned (g g' : GlobalState) : Prop where
  same : ∃ heap, g' = { g with heap }
  upvals : g'.heap.upvals = g.heap.upvals
  refs : ∀ o r, r ∈ g'.refs o → r ∈ g.refs o
  tables : ∀ h, (g'.heap.tables h).metatable = (g.heap.tables h).metatable ∧
    (g'.heap.tables h).array = (g.heap.tables h).array

theorem TraversedTable.pruned {h : Nat} {weakkey weakvalue : Bool} {g₁ g₂ : GlobalState}
    (traversed : TraversedTable g h weakkey weakvalue g₁ g₂) : Pruned g₂ (g.traversetable h).2 := by
  cases traversed.result with
  | inl same =>
    rw [same.2]
    exact ⟨⟨g₂.heap, rfl⟩, rfl, fun _ _ => id, fun _ => ⟨rfl, rfl⟩⟩
  | inr set' =>
    rw [set']
    refine ⟨⟨_, rfl⟩, rfl, fun o r ref => ?_, fun h' => ?_⟩
    · rw [refs_setTable] at ref
      split at ref
      next here =>
        rw [here]
        exact mem_pruned ref
      next => exact ref
    · show (setAt g₂.heap.tables h _ h').metatable = _ ∧ (setAt g₂.heap.tables h _ h').array = _
      by_cases here : h' = h
      · rw [here, setAt_same]
        exact ⟨rfl, rfl⟩
      · rw [setAt_other _ _ here]
        exact ⟨rfl, rfl⟩

theorem linkedWeak_marking {h : Nat} (weakkey weakvalue : Bool) (white : White g) (marking : Marking (also pending (.table h)) g)
    (object : .table h ∈ g.objects) (nonwhite : g.iswhite (.table h) = false)
    (unlisted : .table h ∉ g.gray ++ g.grayagain ++ g.weak) :
    Marking (also pending (.table h)) (linkedWeak g h weakkey weakvalue) ∧
    Carried (also pending (.table h)) g (linkedWeak g h weakkey weakvalue) := by
  unfold linkedWeak
  split
  · exact ⟨marking.linkweak white object nonwhite unlisted, linkweak_carried⟩
  · exact ⟨marking, (carried_of_shades marking (.refl g))⟩

theorem propagate_table {h : Nat} {gclist : List GCObject} (white : White g) (markable : Markable g)
    (marking : Marking pending g) (gray : g.gray = .table h :: gclist) : Propagated pending g g.propagatemark := by
  have listed := marking.listed (.table h) (by simp [gray])
  have free := unlisted_of_gray marking gray
  have popped := popped_of_gray white marking gray (by simp [Unblackened])
  generalize isPopped : { g.gray2black (.table h) with gray := gclist } = g₀ at popped
  have free₀ : .table h ∉ g₀.gray ++ g₀.grayagain ++ g₀.weak := by rw [← isPopped]; exact free
  have object₀ : .table h ∈ g₀.objects := popped.objects ▸ listed.1
  have nonwhite₀ := popped.carried.frame.nonwhite _ listed.2.1
  have white₀ := popped.carried.frame.white white
  obtain ⟨weakkey, weakvalue, g₁, g₂, traversed⟩ :=
    traversetable_steps (popped.carried.frame.markable markable) object₀
  have pruned := traversed.pruned
  have result : g.propagatemark = if weakkey || weakvalue then (g₀.traversetable h).2.black2gray (.table h)
      else (g₀.traversetable h).2 := by
    unfold propagatemark
    rw [gray, ← traversed.weak, ← isPopped]
  -- the steps up to the entries
  have marking₁ := Marking.shades traversed.first white₀ popped.marking
  have free₁ := unlisted_shades traversed.first nonwhite₀ free₀
  have nonwhite₁ := traversed.first.nonwhite nonwhite₀
  have white₁ := traversed.first.white white₀
  have object₁ : .table h ∈ g₁.objects := traversed.first.objects ▸ object₀
  obtain ⟨markingL, carriedL⟩ := linkedWeak_marking weakkey weakvalue white₁ marking₁
    object₁ nonwhite₁ free₁
  have marking₂ := Marking.shades traversed.second (carriedL.frame.white white₁) markingL
  have carried₂ := ((carried_of_shades popped.marking traversed.first).trans carriedL).trans
    (carried_of_shades markingL traversed.second)
  have white₂ := carried₂.frame.white white₀
  -- the entries
  obtain ⟨heap, cut⟩ := pruned.same
  rw [cut] at pruned result
  have marking₃ := marking₂.heap pruned.upvals pruned.refs
  have carried₃ := carried₂.trans (carried_of_heap pruned.upvals pruned.refs pruned.tables)
  have heap₂ : g₂.heap = g₀.heap := by
    rw [traversed.second.heap, (linkedWeak_objects h weakkey weakvalue).2, traversed.first.heap]
  have linkedNonwhite : (linkedWeak g₁ h weakkey weakvalue).iswhite (.table h) = false :=
    carriedL.frame.nonwhite _ nonwhite₁
  have metatable : ∀ mt ∈ (g₀.heap.tables h).metatable, g₂.iswhite (.table mt) = false := fun mt isMt =>
    traversed.second.nonwhite (carriedL.frame.nonwhite _ (traversed.metatable mt isMt))
  have tables : (heap.tables h).metatable = (g₀.heap.tables h).metatable ∧
      (heap.tables h).array = (g₀.heap.tables h).array := by
    rw [← heap₂]
    exact pruned.tables h
  by_cases weak : (weakkey || weakvalue) = true
  · rw [result, if_pos weak]
    have inWeak : .table h ∈ g₂.weak := by
      rw [shades_weak traversed.second, linkedWeak, if_pos weak]
      exact List.mem_cons_self ..
    have flags : g₂.marked (.table h) &&& valueweak = 0 → weakvalue = false := by
      rw [traversed.second.unchanged linkedNonwhite, linkedWeak, if_pos weak]
      have set' : (g₁.linkweak h weakkey weakvalue).marked (.table h) = _ := setMark_self
      rw [set']
      exact linkweak_valueweak weakkey weakvalue _
    have notBlack : ({ g₂ with heap }.black2gray (.table h)).isblack (.table h) = false := by
      simp [black2gray_isblack]
    refine popped.finish (carried₃.trans black2gray_carried)
      (marking₃.black2gray white₂ (List.mem_append_right _ inWeak)) (fun nodup => ?_)
      (fun isBlack => by rw [notBlack] at isBlack; cases isBlack) (fun _ => notBlack) (fun h' isTable _ => ?_)
      (fun mem => ?_)
    · exact (carried₃.trans black2gray_carried).work nodup
    · cases isTable
      refine ⟨fun mt isMt => ?_, fun strong v mem o isValue => ?_⟩
      · rw [black2gray_iswhite]
        exact metatable mt (tables.1 ▸ isMt)
      · have strong' : g₂.marked (.table h) &&& valueweak = 0 := by
          rw [black2gray, setMark_self, valueweak_of_flags (black2gray_flags _)] at strong
          exact strong
        rw [black2gray_iswhite]
        exact traversed.array (flags strong') v (tables.2 ▸ mem) o isValue
    · -- the table is on one list only
      have twice := marking₃.distinct
      rw [List.append_assoc, List.nodup_append] at twice
      exact absurd rfl ((List.nodup_append.mp twice.2.1).2.2 _ mem _ inWeak)
  · rw [result, if_neg weak]
    have linked : linkedWeak g₁ h weakkey weakvalue = g₁ := if_neg weak
    have second := traversed.second
    rw [linked] at second
    have free₂ := unlisted_shades second nonwhite₁ free₁
    simp only [Bool.or_eq_true, not_or, Bool.not_eq_true] at weak
    refine popped.finish carried₃ marking₃ carried₃.work (fun _ r ref => ?_) (fun mem => absurd mem free₂)
      (fun h' isTable mem => ?_) (fun mem => ?_)
    · have before : r ∈ g₂.refs (.table h) := pruned.refs _ r ref
      simp only [GlobalState.refs, heap₂] at before
      rcases mem_tableRefs.mp before with ⟨mt, isMt, rfl⟩ | ⟨v, mem, isValue⟩ | ⟨n, mem, used, ref'⟩
      · exact metatable mt isMt
      · exact traversed.array weak.2 v mem r isValue
      · refine traversed.node weak.1 weak.2 n mem r ?_
        unfold nodeRefs
        rw [if_neg used]
        simpa using ref'
    · rw [← isTable] at mem
      exact absurd (List.mem_append_right _ mem) free₂
    · exact absurd (List.mem_append_left _ (List.mem_append_right _ mem)) free₂

/-- `propagatemark` keeps the invariant of the mark phase, and has less left to do. -/
theorem propagatemark_propagated (white : White g) (markable : Markable g) (marking : Marking pending g)
    (threads : ∀ th, .thread th ∈ g.objects → g.isblack (.thread th) = false) (more : g.gray ≠ []) :
    Propagated pending g g.propagatemark := by
  obtain ⟨o, gclist, gray⟩ := List.exists_cons_of_ne_nil more
  have listed := marking.listed o (by simp [gray])
  cases o with
  | table h => exact propagate_table white markable marking gray
  | function cl => exact propagate_function white markable marking gray
  | thread th => exact propagate_thread white markable marking (threads th listed.1) gray
  | proto f => exact propagate_proto white markable marking gray
  | string ts => exact listed.2.2.1.elim
  | userdata u => exact listed.2.2.1.elim
  | upval uv => exact listed.2.2.1.elim

/-! ## `propagateall` -/

/-- What the mark phase has of its state apart from colours. -/
structure MarkReady (g : GlobalState) : Prop where
  white : White g
  nodup : g.objects.Nodup
  markable : Markable g
  unblackened : ∀ o ∈ g.objects, Unblackened g o → g.isblack o = false

theorem Shape.markReady (shape : Shape g) (referring : Referring g) : MarkReady g := by
  refine ⟨shape.white, shape.nodup, ⟨referring, shape.coloured⟩, fun o object kind => ?_⟩
  rcases kind with ⟨th, rfl⟩ | ⟨uv, rfl, unowned⟩
  · exact shape.thread th object
  · exact shape.upval uv (shape.mem_uvhead object unowned)

theorem Frame.markReady (frame : Frame g g') (ready : MarkReady g) : MarkReady g' := by
  refine ⟨frame.white ready.white, frame.objects ▸ ready.nodup, frame.markable ready.markable, fun o object kind => ?_⟩
  rw [frame.objects] at object
  have kind' : Unblackened g o := by simpa only [Unblackened, Owned, frame.upvals] using kind
  exact frame.unblackened o object kind' (ready.unblackened o object kind')

theorem propagateFor_carried {n : Nat} (ready : MarkReady g) (marking : Marking pending g) :
    Marking pending (propagateFor n g) ∧ Carried pending g (propagateFor n g) ∧
      (work g ≤ n → (propagateFor n g).gray = []) := by
  induction n generalizing g with
  | zero =>
    refine ⟨marking, carried_of_shades marking (.refl g), fun done => ?_⟩
    unfold work at done
    exact List.length_eq_zero_iff.mp (by rw [propagateFor]; omega)
  | succ n ih =>
    unfold propagateFor
    by_cases empty : g.gray = []
    · rw [if_pos empty]
      exact ⟨marking, carried_of_shades marking (.refl g), fun _ => empty⟩
    · rw [if_neg empty]
      have step := propagatemark_propagated ready.white ready.markable marking
        (fun th object => ready.unblackened _ object (.inl ⟨th, rfl⟩)) empty
      obtain ⟨marking', carried, empties⟩ := ih (step.carried.frame.markReady ready) step.marking
      have less := step.less ready.nodup
      exact ⟨marking', step.carried.trans carried, fun enough => empties (by omega)⟩

/-- `propagateall` leaves no object on the list `gray`. -/
theorem propagateall_carried (ready : MarkReady g) (marking : Marking pending g) :
    Marking pending g.propagateall ∧ Carried pending g g.propagateall ∧ g.propagateall.gray = [] := by
  obtain ⟨marking', carried, empties⟩ := propagateFor_carried (n := work g) ready marking
  exact ⟨marking', carried, empties (le_refl _)⟩

end Lunatik.Verified.Propagation
