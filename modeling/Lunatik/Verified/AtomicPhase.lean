import Lunatik.Verified.Propagation

/-! # The end of the mark phase

When `atomic` flips the white, no object that is not white refers to a white one: what stays white can be
freed.
-/

namespace Lunatik.Verified.AtomicPhase

open Lunatik.Library
open Lunatik.Lua (setAt setAt_same setAt_other)
open Lunatik.Lua.Gc Lunatik.Lua.Gc.GlobalState
open Lunatik.Lua.StringTable (whitebits blackbit fixedbit)
open Lunatik.Verified.Colours Lunatik.Verified.References Lunatik.Verified.Tricolor Lunatik.Verified.Propagation

variable {pending : GCObject → Prop} {g g' : GlobalState} {o : GCObject}

/-! ## Upvalues -/

theorem remarkupvals_done (shape : Shape g) (ready : MarkReady g) :
    Shades g g.remarkupvals ∧ UpvalsDone g.remarkupvals := by
  obtain ⟨shades, all⟩ := foldl_shades (g := g) (l := g.uvhead)
    (f := fun g' uv => if g'.isgray (.upval uv) then g'.markvalue (g'.deref uv) else g')
    (fun uv => if g.isgray (.upval uv) then (gcvalue (g.deref uv)).toList else []) fun g' uv mem shades => by
      obtain ⟨object, unowned⟩ := shape.uvhead_object mem
      have refs : ∀ o ∈ gcvalue (g'.deref uv), o ∈ g'.objects := fun o isValue =>
        shades.referring ready.markable.referring (.upval uv) (shades.objects ▸ object) o (Option.mem_toList.mpr isValue)
      obtain ⟨step, marked⟩ := markvalue_shades (v := g'.deref uv) (shades.markable ready.markable) refs
      have value : g'.deref uv = g.deref uv := by rw [deref, deref, shades.heap]
      by_cases isGray : g'.isgray (.upval uv) = true
      · rw [if_pos isGray]
        refine ⟨step, fun o target => marked o ?_⟩
        split at target
        · rw [value]; exact Option.mem_toList.mp target
        · cases target
      · rw [if_neg isGray]
        refine ⟨.refl g', fun o target => ?_⟩
        split at target
        next before =>
          -- an upvalue stays gray
          have colours := isgray_iff.mp before
          have still := shades.unchanged colours.2
          rw [isgray, isblack_eq, iswhite_eq, still] at isGray
          exact absurd before isGray
        next => cases target
  change Shades g g.remarkupvals at shades
  refine ⟨shades, fun uv object unowned nonwhite r ref => ?_⟩
  rw [shades.objects] at object
  rw [shades_owned shades] at unowned
  have mem := shape.mem_uvhead object unowned
  have notBlack := shape.upval uv mem
  rw [shades.refs] at ref
  cases shades.marks (.upval uv) with
  | inl same =>
    rw [iswhite_eq, same, ← iswhite_eq] at nonwhite
    refine all uv mem r ?_
    rw [if_pos (isgray_iff.mpr ⟨notBlack, nonwhite⟩)]
    exact ref
  | inr shaded =>
    cases isBlack : g.remarkupvals.isblack (.upval uv) with
    | true => exact (shaded.black isBlack).2 r ref
    | false =>
      rcases shaded.gray isBlack with listed | ⟨ts, isString⟩ | ⟨uv', isUpval, -, reached⟩
      · exact listed.1.elim
      · cases isString
      · exact reached r ref

/-! ## The lists in turn -/

-- the list `weak` is to be traversed
theorem retraverse_weak (marking : Marking pending g) (empty : g.gray = []) :
    Marking pending { g with gray := g.weak, weak := [] } ∧ Frame g { g with gray := g.weak, weak := [] } := by
  have moved : ∀ o, o ∈ g.weak ++ g.grayagain ++ [] ↔ o ∈ g.gray ++ g.grayagain ++ g.weak := by
    intro o
    rw [empty]
    simp only [List.mem_append, List.not_mem_nil, or_false, false_or]
    exact Or.comm
  have perm : (g.weak ++ g.grayagain ++ []).Perm (g.gray ++ g.grayagain ++ g.weak) := by
    rw [empty]
    simpa using List.perm_append_comm
  refine ⟨⟨marking.alive, marking.black, fun o object isGray => ?_, fun o mem => marking.listed o ((moved o).mp mem),
    perm.nodup_iff.mpr marking.distinct, fun o mem => absurd mem List.not_mem_nil, marking.main, marking.registry⟩,
    ⟨⟨_, _, _, _, _, rfl⟩, rfl, fun _ _ => id, fun _ => id, fun _ _ => id, fun _ _ _ => id, fun _ => rfl⟩⟩
  exact (marking.gray o object isGray).imp (moved o).mpr id

-- the list `grayagain` is to be traversed
theorem retraverse_again (marking : Marking pending g) (empty : g.gray = []) :
    Marking pending { g with gray := g.grayagain, grayagain := [] } ∧
    Frame g { g with gray := g.grayagain, grayagain := [] } := by
  have moved : ∀ o, o ∈ g.grayagain ++ [] ++ g.weak ↔ o ∈ g.gray ++ g.grayagain ++ g.weak := by
    intro o
    rw [empty]
    simp
  refine ⟨⟨marking.alive, marking.black, fun o object isGray => ?_, fun o mem => marking.listed o ((moved o).mp mem),
    ?_, marking.weak, marking.main, marking.registry⟩,
    ⟨⟨_, _, _, _, _, rfl⟩, rfl, fun _ _ => id, fun _ => id, fun _ _ => id, fun _ _ _ => id, fun _ => rfl⟩⟩
  · exact (marking.gray o object isGray).imp (moved o).mpr id
  · have distinct := marking.distinct
    rw [empty] at distinct
    simpa using distinct

theorem markmt_shades (markable : Markable g) (objects : ∀ mt ∈ g.mt, ∀ h ∈ mt, .table h ∈ g.objects) :
    Shades g g.markmt ∧ ∀ mt ∈ g.mt, ∀ h ∈ mt, g.markmt.iswhite (.table h) = false := by
  obtain ⟨shades, all⟩ := foldl_shades (g := g) (l := g.mt) (f := markmetatable)
    (fun mt => (mt.map .table).toList) fun g' mt mem shades => by
      obtain ⟨step, marked⟩ := markmetatable_shades mt (fun h isMt => shades.objects ▸ objects mt mem h isMt)
        (shades.markable markable).coloured
      refine ⟨step, fun o target => ?_⟩
      simp only [Option.mem_toList, Option.map_eq_some_iff] at target
      obtain ⟨h, isMt, rfl⟩ := target
      exact marked h isMt
  refine ⟨shades, fun mt mem h isMt => all mt mem _ ?_⟩
  rw [isMt]
  simp

/-! ## Userdata -/

/-- A udata of `tmudata` is marked, whatever its colour was. -/
theorem remark_udata (white : White g) (u : Nat) :
    (g.makewhite (.userdata u)).reallymarkobject (.userdata u) =
      ((g.setMark (.userdata u) ((g.marked (.userdata u) &&& ~~~whitebits) ||| blackbit)).markmetatable
        (g.heap.udata u).metatable).marktable (g.heap.udata u).env := by
  have same : ∀ m : BitVec 8, ((((m &&& ~~~(blackbit ||| whitebits)) ||| g.luaCWhite) &&& ~~~whitebits) ||| blackbit) =
      (m &&& ~~~whitebits) ||| blackbit :=
    white.elim (p := fun current _ => ∀ m : BitVec 8,
      ((((m &&& ~~~(blackbit ||| whitebits)) ||| (current &&& whitebits)) &&& ~~~whitebits) ||| blackbit) =
        (m &&& ~~~whitebits) ||| blackbit) (by decide) (by decide)
  have marks : ((g.makewhite (.userdata u)).white2gray (.userdata u)).gray2black (.userdata u) =
      g.setMark (.userdata u) ((g.marked (.userdata u) &&& ~~~whitebits) ||| blackbit) := by
    rw [blackened_marked, makewhite, setMark_self, same]
    unfold setMark
    simp only
    congr 1
    funext o'
    split <;> rfl
  show ((((g.makewhite (.userdata u)).white2gray (.userdata u)).gray2black (.userdata u)).markmetatable _).marktable _ = _
  rw [marks]
  rfl

theorem blackened_white (m : BitVec 8) : whiteMark ((m &&& ~~~whitebits) ||| blackbit) = false := by
  revert m
  decide

theorem blackened_black (m : BitVec 8) : blackMark ((m &&& ~~~whitebits) ||| blackbit) = true := by
  revert m
  decide

section Blacken

variable {u : Nat} {m : BitVec 8} (nonwhite : whiteMark m = false) (isBlack : blackMark m = true)

include nonwhite

theorem blacken_iswhite (o : GCObject) (before : g.iswhite o = false) :
    (g.setMark (.userdata u) m).iswhite o = false := by
  rw [setMark_iswhite]
  split
  · exact nonwhite
  · exact before

theorem blacken_carried (flags : m &&& flagbits = g.marked (.userdata u) &&& flagbits) (coloured : Coloured m) :
    Carried pending g (g.setMark (.userdata u) m) := by
  have kept := blacken_iswhite (g := g) (u := u) nonwhite
  refine ⟨⟨⟨_, _, _, _, _, rfl⟩, rfl, fun _ _ => id, kept, fun o _ good => ?_, fun o _ kind notBlack => ?_, fun o => ?_⟩,
    fun done uv object unowned white r ref => kept r (done uv object unowned ?_ r ref), fun done h mem free => ?_,
    fun done o mem free r ref => kept r (done o mem free r ref), fun _ => ?_⟩
  · exact good.setMark coloured
  · rw [setMark_isblack, if_neg]
    · exact notBlack
    · rintro rfl
      rcases kind with ⟨th, same⟩ | ⟨uv, same, -⟩ <;> cases same
  · rw [setMark_marked]
    split
    next here => rw [here]; exact fixed_of_flags flags
    next => rfl
  · rw [setMark_iswhite, if_neg (by simp)] at white
    exact white
  · obtain ⟨metatable, array⟩ := done h mem free
    refine ⟨fun mt isMt => kept _ (metatable mt isMt), fun strong v mem' o isValue => kept o (array ?_ v mem' o isValue)⟩
    rw [setMark_other (by simp)] at strong
    exact strong
  · refine Nat.add_le_add_left (List.countP_mono_left fun o _ white => ?_) _
    cases before : g.iswhite o with
    | true => rfl
    | false => rw [kept o before] at white; cases white

include isBlack

theorem Marking.blacken (white : White g) (marking : Marking pending g) (free : pending (.userdata u)) :
    Marking pending (g.setMark (.userdata u) m) := by
  have kept := blacken_iswhite (g := g) (u := u) nonwhite
  have other : ∀ o ∈ g.gray ++ g.grayagain ++ g.weak, o ≠ .userdata u := fun o mem same => by
    have traversable := (marking.listed o mem).2.2.1
    rw [same] at traversable
    exact traversable
  refine ⟨fun o object => ?_, fun o object black notPending r ref => ?_, fun o object isGray => ?_, fun o mem => ?_,
    marking.distinct, marking.weak, kept _ marking.main, fun o isValue => kept o (marking.registry o isValue)⟩
  · by_cases here : o = .userdata u
    · exact alive_of_nonwhite white (by rw [setMark_iswhite, if_pos here, nonwhite])
    · rw [setMark_isdead, if_neg here]
      exact marking.alive o object
  · by_cases here : o = .userdata u
    · exact absurd (here ▸ free) notPending
    · rw [setMark_isblack, if_neg here] at black
      exact kept r (marking.black o object black notPending r ref)
  · by_cases here : o = .userdata u
    · rw [isgray_iff, setMark_isblack, if_pos here, isBlack] at isGray
      cases isGray.1
    · rw [isgray_iff, setMark_isblack, if_neg here, setMark_iswhite, if_neg here] at isGray
      exact marking.gray o object (isgray_iff.mpr isGray)
  · obtain ⟨object, before, traversable, black⟩ := marking.listed o mem
    refine ⟨object, kept o before, traversable, fun isBlack' => black ?_⟩
    rw [setMark_isblack, if_neg (other o mem)] at isBlack'
    exact isBlack'

end Blacken

-- udata that are still to be marked
def among (l : List Nat) (o : GCObject) : Prop := ∃ u ∈ l, o = .userdata u

theorem remark_udata_marking {u : Nat} {l : List Nat} (ready : MarkReady g) (object : .userdata u ∈ g.objects)
    (marking : Marking (among (u :: l)) g) :
    Marking (among l) ((g.makewhite (.userdata u)).reallymarkobject (.userdata u)) ∧
    Carried (fun _ => False) g ((g.makewhite (.userdata u)).reallymarkobject (.userdata u)) ∧
    ((g.makewhite (.userdata u)).reallymarkobject (.userdata u)).iswhite (.userdata u) = false := by
  rw [remark_udata ready.white]
  have here : among (u :: l) (.userdata u) := ⟨u, List.mem_cons_self .., rfl⟩
  have marking₁ := Marking.blacken (blackened_white _) (blackened_black _) (m := (g.marked (.userdata u) &&& ~~~whitebits) ||| blackbit)
    ready.white marking here
  have cleared : ∀ m : BitVec 8, whiteMark (m &&& ~~~whitebits) = false := by decide
  have flags : ∀ m : BitVec 8, ((m &&& ~~~whitebits) ||| blackbit) &&& flagbits = m &&& flagbits := by decide
  have carried₁ : Carried (fun _ => False) g _ := blacken_carried (g := g) (u := u)
    (blackened_white (g.marked (.userdata u))) (flags _)
    ((ready.markable.coloured _ object).white2gray.gray2black (cleared _))
  have heap : (g.setMark (.userdata u) ((g.marked (.userdata u) &&& ~~~whitebits) ||| blackbit)).heap = g.heap := rfl
  have nonwhite₁ : (g.setMark (.userdata u) ((g.marked (.userdata u) &&& ~~~whitebits) ||| blackbit)).iswhite
      (.userdata u) = false := by rw [setMark_iswhite, if_pos rfl, blackened_white]
  generalize g.setMark (.userdata u) ((g.marked (.userdata u) &&& ~~~whitebits) ||| blackbit) = g₁
    at marking₁ carried₁ heap nonwhite₁ ⊢
  have ready₁ := carried₁.frame.markReady ready
  have refs := ready₁.markable.referring _ (carried₁.frame.objects ▸ object)
  simp only [GlobalState.refs, heap, List.mem_append, Option.mem_toList, Option.map_eq_some_iff, List.mem_singleton] at refs
  obtain ⟨first, metatable⟩ := markmetatable_shades (g.heap.udata u).metatable
    (fun h isMt => refs _ (.inl ⟨h, isMt, rfl⟩)) ready₁.markable.coloured
  have envObject : .table (g.heap.udata u).env ∈ (g₁.markmetatable (g.heap.udata u).metatable).objects :=
    first.objects ▸ refs _ (.inr rfl)
  obtain ⟨second, env⟩ := marktable_shades envObject ((first.markable ready₁.markable).coloured _ envObject)
  have both := first.trans second
  have marking₁' : Marking (also (among l) (.userdata u)) g₁ := marking₁.weaken fun o isAmong => by
    obtain ⟨u', mem, rfl⟩ := isAmong
    cases List.mem_cons.mp mem with
    | inl here => exact .inr (by rw [here])
    | inr there => exact .inl ⟨u', there, rfl⟩
  have marking₂ := Marking.shades both ready₁.white marking₁'
  refine ⟨marking₂.settle (fun _ r ref => ?_) (fun mem => (marking₂.listed _ mem).2.2.1.elim),
    carried₁.trans (carried_of_shades marking₁ both), both.nonwhite nonwhite₁⟩
  rw [both.refs] at ref
  simp only [GlobalState.refs, heap, List.mem_append, Option.mem_toList, Option.map_eq_some_iff,
    List.mem_singleton] at ref
  rcases ref with ⟨h, isMt, rfl⟩ | rfl
  · exact second.nonwhite (metatable h isMt)
  · exact env

theorem marktmu_marking (ready : MarkReady g) (marking : Marking (waits g) g) :
    Marking (fun _ => False) g.marktmu ∧ Carried (fun _ => False) g g.marktmu ∧
      ∀ u ∈ g.tmudata, g.marktmu.iswhite (.userdata u) = false := by
  have loop : ∀ (l : List Nat) (g : GlobalState), MarkReady g → (∀ u ∈ l, .userdata u ∈ g.objects) →
      Marking (among l) g →
      Marking (fun _ => False) (l.foldl (fun g u => (g.makewhite (.userdata u)).reallymarkobject (.userdata u)) g) ∧
      Carried (fun _ => False) g (l.foldl (fun g u => (g.makewhite (.userdata u)).reallymarkobject (.userdata u)) g) ∧
      ∀ u ∈ l, (l.foldl (fun g u => (g.makewhite (.userdata u)).reallymarkobject (.userdata u)) g).iswhite
        (.userdata u) = false := by
    intro l
    induction l with
    | nil =>
      intro g _ _ marking
      have none : ∀ o, ¬ among [] o := fun o isAmong => by simp [among] at isAmong
      exact ⟨marking.weaken none, carried_of_shades marking (.refl g), by simp⟩
    | cons u l ih =>
      intro g ready objects marking
      obtain ⟨marking', carried, nonwhite⟩ := remark_udata_marking ready (objects u (List.mem_cons_self ..)) marking
      obtain ⟨done, rest, all⟩ := ih _ (carried.frame.markReady ready)
        (fun u' mem => carried.frame.objects ▸ objects u' (List.mem_cons_of_mem _ mem)) marking'
      refine ⟨done, carried.trans rest, fun u' mem => ?_⟩
      cases List.mem_cons.mp mem with
      | inl here => exact here ▸ rest.frame.nonwhite _ nonwhite
      | inr there => exact all u' there
  exact loop g.tmudata g ready (fun u mem => mem_objects.mpr (.inr (.inr (.inl ⟨u, mem, rfl⟩)))) marking

/-! ### Separating -/

/-- Udata go from `rootgc` to `tmudata`, and get flags. -/
structure Separated (g g' : GlobalState) : Prop where
  rest : ∃ marked rootgc tmudata, g' = { g with marked, rootgc, tmudata }
  objects : g'.objects.Perm g.objects
  rootgc : ∀ o, (∀ u, o ≠ .userdata u) → (o ∈ g'.rootgc ↔ o ∈ g.rootgc)
  colours : ∀ o, g'.iswhite o = g.iswhite o ∧ g'.isblack o = g.isblack o ∧ g'.isdead o = g.isdead o ∧
    (Coloured (g.marked o) → Coloured (g'.marked o)) ∧ g'.marked o &&& fixedbit = g.marked o &&& fixedbit
  tables : ∀ h, g'.marked (.table h) = g.marked (.table h)
  tmudata : ∀ u ∈ g.tmudata, u ∈ g'.tmudata

theorem Separated.refl (g : GlobalState) : Separated g g :=
  ⟨⟨_, _, _, rfl⟩, .refl _, fun _ _ => Iff.rfl, fun _ => ⟨rfl, rfl, rfl, id, rfl⟩, fun _ => rfl, fun _ => id⟩

theorem Separated.trans {g₁ : GlobalState} (first : Separated g g') (second : Separated g' g₁) : Separated g g₁ := by
  refine ⟨?_, second.objects.trans first.objects, fun o kind => (second.rootgc o kind).trans (first.rootgc o kind),
    fun o => ?_, fun h => (second.tables h).trans (first.tables h), fun u mem => second.tmudata u (first.tmudata u mem)⟩
  · obtain ⟨marked, rootgc, tmudata, rfl⟩ := first.rest
    obtain ⟨marked', rootgc', tmudata', rfl⟩ := second.rest
    exact ⟨_, _, _, rfl⟩
  · obtain ⟨white, black, dead, coloured, fixed⟩ := first.colours o
    obtain ⟨white', black', dead', coloured', fixed'⟩ := second.colours o
    exact ⟨white'.trans white, black'.trans black, dead'.trans dead, fun good => coloured' (coloured good),
      fixed'.trans fixed⟩

theorem markfinalized_separated (white : White g) (u : Nat) : Separated g (g.markfinalized u) := by
  have same := sameColour_of (o := .userdata u) white (markfinalized_low (g.marked (.userdata u)))
  refine ⟨⟨_, _, _, rfl⟩, .refl _, fun _ _ => Iff.rfl, fun o => ⟨same.iswhite, same.isblack, same.isdead, fun good => ?_, ?_⟩,
    fun h => setMark_other (by simp), fun _ => id⟩
  · unfold markfinalized
    rw [setMark_marked]
    split
    next here => exact (here ▸ good).sameLow (markfinalized_low _)
    next => exact good
  · have kept : ∀ m : BitVec 8, (m ||| finalizedbit) &&& fixedbit = m &&& fixedbit := by decide
    unfold markfinalized
    rw [setMark_marked]
    split
    next here => rw [here, kept]
    next => rfl

theorem moved_separated {u : Nat} (mem : .userdata u ∈ g.rootgc) :
    Separated g { g with rootgc := g.rootgc.erase (.userdata u), tmudata := g.tmudata ++ [u] } := by
  have others : ∀ o : GCObject, (∀ u, o ≠ .userdata u) → (o ∈ g.rootgc.erase (.userdata u) ↔ o ∈ g.rootgc) :=
    fun o kind => List.mem_erase_of_ne (kind u)
  refine ⟨⟨_, _, _, rfl⟩, ?_, others, fun o => ⟨rfl, rfl, rfl, id, rfl⟩, fun _ => rfl,
    fun _ => List.mem_append_left _⟩
  have split : g.rootgc.Perm (.userdata u :: g.rootgc.erase (.userdata u)) := List.perm_cons_erase mem
  have opened : (g.rootgc.flatMap g.openOf).Perm ((g.rootgc.erase (.userdata u)).flatMap g.openOf) :=
    split.flatMap_right _
  have moved : { g with rootgc := g.rootgc.erase (.userdata u), tmudata := g.tmudata ++ [u] }.objects =
      (g.rootgc.erase (.userdata u) ++ (g.rootgc.erase (.userdata u)).flatMap g.openOf ++ g.tmudata.map .userdata) ++
        .userdata u :: g.hash.flatten.map .string := by
    simp only [GlobalState.objects, List.map_append, List.map_cons, List.map_nil, List.append_assoc,
      List.cons_append, List.nil_append]
    rfl
  rw [moved]
  refine List.perm_middle.trans ?_
  exact ((split.symm.append opened.symm).append_right _).append_right _

theorem separate_separated (all : Bool) (white : White g) (mem : o ∈ g.rootgc) :
    Separated g (separate all g o) ∧ ∀ o' ∈ g.rootgc, o' ≠ o → o' ∈ (separate all g o).rootgc := by
  unfold separate
  split
  next u =>
    split
    · exact ⟨.refl g, fun _ mem _ => mem⟩
    · have marked := markfinalized_separated white u
      split
      · exact ⟨marked, fun _ mem _ => mem⟩
      · exact ⟨marked.trans (moved_separated (g := g.markfinalized u) mem),
          fun o' mem' ne => (List.mem_erase_of_ne ne).mpr mem'⟩
  · exact ⟨.refl g, fun _ mem _ => mem⟩

theorem mem_after {p : Option GCObject} {l : List GCObject} (mem : o ∈ after p l) : o ∈ l := by
  unfold after at mem
  split at mem
  · exact mem
  · exact (List.dropWhile_sublist _).subset (List.mem_of_mem_tail mem)

theorem after_nodup {p : Option GCObject} {l : List GCObject} (nodup : l.Nodup) : (after p l).Nodup := by
  unfold after
  split
  · exact nodup
  · exact nodup.sublist ((List.tail_sublist _).trans (List.dropWhile_sublist _))

theorem separateudata_separated (all : Bool) (white : White g) (nodup : g.rootgc.Nodup) :
    Separated g (g.luaCSeparateudata all) := by
  have loop : ∀ (l : List GCObject) (g : GlobalState), White g → l.Nodup → (∀ o ∈ l, o ∈ g.rootgc) →
      Separated g (l.foldl (separate all) g) := by
    intro l
    induction l with
    | nil => exact fun g _ _ _ => .refl g
    | cons o l ih =>
      intro g white nodup inRoot
      obtain ⟨step, others⟩ := separate_separated all white (inRoot o (List.mem_cons_self ..))
      have white' : White (separate all g o) := by
        obtain ⟨marked, rootgc, tmudata, same⟩ := step.rest
        rw [same]
        exact white
      refine step.trans (ih _ white' nodup.of_cons fun o' mem => others o' (inRoot o' (List.mem_cons_of_mem _ mem)) ?_)
      rintro rfl
      exact (List.nodup_cons.mp nodup).1 mem
  exact loop _ g white (after_nodup nodup) fun o mem => mem_after mem

section Separated

variable (separated : Separated g g')

include separated

theorem Separated.refs : g'.refs = g.refs := by
  obtain ⟨marked, rootgc, tmudata, rfl⟩ := separated.rest
  rfl

theorem Separated.mem_objects : o ∈ g'.objects ↔ o ∈ g.objects := separated.objects.mem_iff

theorem Separated.owned {uv : Nat} : Owned g' uv ↔ Owned g uv := by
  obtain ⟨marked, rootgc, tmudata, rfl⟩ := separated.rest
  exact Iff.rfl

theorem Separated.markReady (ready : MarkReady g) : MarkReady g' := by
  refine ⟨?_, separated.objects.nodup_iff.mpr ready.nodup, ⟨fun o object r ref => ?_, fun o object => ?_⟩,
    fun o object kind => ?_⟩
  · obtain ⟨marked, rootgc, tmudata, rfl⟩ := separated.rest
    exact ready.white
  · rw [separated.mem_objects] at object ⊢
    exact ready.markable.referring o object r (separated.refs ▸ ref)
  · exact (separated.colours o).2.2.2.1 (ready.markable.coloured o (separated.mem_objects.mp object))
  · rw [(separated.colours o).2.1]
    refine ready.unblackened o (separated.mem_objects.mp object) ?_
    simpa only [Unblackened, separated.owned] using kind

theorem Separated.marking (marking : Marking (waits g) g) : Marking (waits g') g' := by
  have white := fun o => (separated.colours o).1
  have black := fun o => (separated.colours o).2.1
  have lists : g'.gray ++ g'.grayagain ++ g'.weak = g.gray ++ g.grayagain ++ g.weak := by
    obtain ⟨marked, rootgc, tmudata, rfl⟩ := separated.rest
    rfl
  have waiting : ∀ o, waits g o → waits g' o := by
    rintro o ⟨u, mem, same⟩
    exact ⟨u, separated.tmudata u mem, same⟩
  refine ⟨fun o object => ?_, fun o object isBlack free r ref => ?_, fun o object isGray => ?_, fun o mem => ?_, ?_, ?_, ?_, ?_⟩
  · rw [(separated.colours o).2.2.1]
    exact marking.alive o (separated.mem_objects.mp object)
  · rw [white]
    exact marking.black o (separated.mem_objects.mp object) (black o ▸ isBlack) (fun isWaiting => free (waiting o isWaiting)) r
      (separated.refs ▸ ref)
  · have before := marking.gray o (separated.mem_objects.mp object)
      (isgray_iff.mpr ⟨black o ▸ (isgray_iff.mp isGray).1, white o ▸ (isgray_iff.mp isGray).2⟩)
    unfold Listed at before ⊢
    rw [lists]
    simpa only [separated.owned] using before
  · rw [lists] at mem
    obtain ⟨object, nonwhite, traversable, free⟩ := marking.listed o mem
    exact ⟨separated.mem_objects.mpr object, (white o).trans nonwhite, traversable,
      fun isBlack => waiting o (free (black o ▸ isBlack))⟩
  · rw [lists]
    exact marking.distinct
  · obtain ⟨marked, rootgc, tmudata, rfl⟩ := separated.rest
    exact marking.weak
  · have main : g'.mainthread = g.mainthread := by
      obtain ⟨marked, rootgc, tmudata, rfl⟩ := separated.rest
      rfl
    rw [white, main]
    exact marking.main
  · have registry : g'.registry = g.registry := by
      obtain ⟨marked, rootgc, tmudata, rfl⟩ := separated.rest
      rfl
    rw [registry]
    exact fun o isValue => (white o).trans (marking.registry o isValue)

theorem Separated.upvalsDone (done : UpvalsDone g) : UpvalsDone g' := by
  intro uv object unowned nonwhite r ref
  rw [(separated.colours r).1]
  exact done uv (separated.mem_objects.mp object) (fun owned => unowned (separated.owned.mpr owned))
    ((separated.colours _).1 ▸ nonwhite) r (separated.refs ▸ ref)

theorem Separated.weakDone (done : WeakDone pending g) : WeakDone pending g' := by
  intro h mem free
  have weak : g'.weak = g.weak := by
    obtain ⟨marked, rootgc, tmudata, rfl⟩ := separated.rest
    rfl
  have heap : g'.heap = g.heap := by
    obtain ⟨marked, rootgc, tmudata, rfl⟩ := separated.rest
    rfl
  obtain ⟨metatable, array⟩ := done h (weak ▸ mem) free
  unfold Spared
  rw [heap, separated.tables]
  exact ⟨fun mt isMt => (separated.colours _).1.trans (metatable mt isMt),
    fun strong v mem' o isValue => (separated.colours o).1.trans (array strong v mem' o isValue)⟩

theorem Separated.againDone (done : AgainDone pending g) : AgainDone pending g' := by
  intro o mem free r ref
  have again : g'.grayagain = g.grayagain := by
    obtain ⟨marked, rootgc, tmudata, rfl⟩ := separated.rest
    rfl
  rw [(separated.colours r).1]
  exact done o (again ▸ mem) free r (separated.refs ▸ ref)

end Separated

/-! ## Weak tables -/

/-- Strings are marked; nothing gets on the list `gray`. -/
structure Strings (g g' : GlobalState) : Prop where
  shades : Shades g g'
  gray : g'.gray = g.gray

theorem Strings.trans {g₁ : GlobalState} (first : Strings g g') (second : Strings g' g₁) : Strings g g₁ :=
  ⟨first.shades.trans second.shades, second.gray.trans first.gray⟩

theorem iscleared_strings (v : TValue) (iskey : Bool) (markable : Markable g) (objects : ∀ o ∈ gcvalue v, o ∈ g.objects) :
    Strings g (g.iscleared v iskey).2 ∧
      ((g.iscleared v iskey).1 = false → ∀ o ∈ gcvalue v, (g.iscleared v iskey).2.iswhite o = false) := by
  unfold iscleared
  split
  next ts =>
    have object : .string ts ∈ g.objects := objects _ rfl
    obtain ⟨shades, marked⟩ := stringmark_shades object (markable.coloured _ object)
    exact ⟨⟨shades, rfl⟩, fun _ o isValue => by cases isValue; exact marked⟩
  next u =>
    refine ⟨⟨.refl g, rfl⟩, fun kept o isValue => ?_⟩
    cases isValue
    simp only [Bool.or_eq_false_iff] at kept
    exact kept.1
  next =>
    split
    next o isValue =>
      refine ⟨⟨.refl g, rfl⟩, fun kept o' isValue' => ?_⟩
      rw [isValue, Option.mem_some_iff] at isValue'
      exact isValue' ▸ kept
    next isValue => exact ⟨⟨.refl g, rfl⟩, fun _ o isValue' => by rw [isValue] at isValue'; cases isValue'⟩

theorem cleararray_strings (vs : List TValue) (markable : Markable g)
    (objects : ∀ v ∈ vs, ∀ o ∈ gcvalue v, o ∈ g.objects) :
    Strings g (cleararray g vs).2 ∧ ∀ v ∈ (cleararray g vs).1, (∀ o ∈ gcvalue v, (cleararray g vs).2.iswhite o = false) ∧
      (v ∈ vs ∨ v = .nil) := by
  induction vs with
  | nil => exact ⟨⟨.refl g, rfl⟩, by simp [cleararray]⟩
  | cons v vs ih =>
    obtain ⟨rest, kept⟩ := ih fun v mem => objects v (List.mem_cons_of_mem _ mem)
    unfold cleararray
    simp only
    obtain ⟨step, uncleared⟩ := iscleared_strings v false (rest.shades.markable markable)
      fun o isValue => rest.shades.objects ▸ objects v (List.mem_cons_self ..) o isValue
    refine ⟨rest.trans step, fun v' mem => ?_⟩
    cases List.mem_cons.mp mem with
    | inl here =>
      cases cleared : ((cleararray g vs).2.iscleared v false).1 with
      | true =>
        rw [cleared, if_pos rfl] at here
        rw [here]
        exact ⟨by simp [gcvalue], .inr rfl⟩
      | false =>
        rw [cleared, if_neg (by simp)] at here
        rw [here]
        exact ⟨uncleared cleared, .inl (List.mem_cons_self ..)⟩
    | inr there =>
      obtain ⟨nonwhite, old⟩ := kept v' there
      exact ⟨fun o isValue => step.shades.nonwhite (nonwhite o isValue), old.imp (List.mem_cons_of_mem _) id⟩

theorem clearnode_strings {n : Node} (markable : Markable g) (objects : ∀ r ∈ nodeRefs n, r ∈ g.objects) :
    Strings g (g.clearnode n).2 ∧ (∀ r ∈ nodeRefs (g.clearnode n).1, (g.clearnode n).2.iswhite r = false) ∧
      ∀ r ∈ nodeRefs (g.clearnode n).1, r ∈ nodeRefs n := by
  unfold clearnode
  by_cases empty : n.val = .nil
  · rw [if_pos empty]
    refine ⟨⟨.refl g, rfl⟩, fun r ref => ?_, fun r => id⟩
    rw [nodeRefs, if_pos empty] at ref
    cases ref
  · rw [if_neg empty]
    simp only
    have refs : ∀ r, r ∈ nodeRefs n ↔ r ∈ gcvalue n.key ∨ r ∈ gcvalue n.val := fun r => by
      simp [nodeRefs, empty]
    have dropped : ∀ r, r ∉ nodeRefs (removeentry { n with val := .nil }) := fun r ref => by
      rw [nodeRefs, removeentry_val, if_pos rfl] at ref
      cases ref
    obtain ⟨first, key⟩ := iscleared_strings n.key true markable
      fun o isValue => objects o ((refs o).mpr (.inl isValue))
    cases keyCleared : (g.iscleared n.key true).1 with
    | true =>
      simp only [if_true]
      exact ⟨first, fun r ref => absurd ref (dropped r), fun r ref => absurd ref (dropped r)⟩
    | false =>
      simp only [Bool.false_eq_true, if_false]
      obtain ⟨second, val⟩ := iscleared_strings n.val false (first.shades.markable markable)
        fun o isValue => first.shades.objects ▸ objects o ((refs o).mpr (.inr isValue))
      cases valCleared : ((g.iscleared n.key true).2.iscleared n.val false).1 with
      | true =>
        simp only [if_true]
        exact ⟨first.trans second, fun r ref => absurd ref (dropped r), fun r ref => absurd ref (dropped r)⟩
      | false =>
        simp only [Bool.false_eq_true, if_false]
        refine ⟨first.trans second, fun r ref => ?_, fun r => id⟩
        cases (refs r).mp ref with
        | inl isKey => exact second.shades.nonwhite (key keyCleared r isKey)
        | inr isVal => exact val valCleared r isVal

theorem clearnodes_strings (ns : List Node) (markable : Markable g)
    (objects : ∀ n ∈ ns, ∀ r ∈ nodeRefs n, r ∈ g.objects) : Strings g (clearnodes g ns).2 ∧
      ∀ n ∈ (clearnodes g ns).1, (∀ r ∈ nodeRefs n, (clearnodes g ns).2.iswhite r = false) ∧
        ∀ r ∈ nodeRefs n, ∃ n' ∈ ns, r ∈ nodeRefs n' := by
  induction ns with
  | nil => exact ⟨⟨.refl g, rfl⟩, by simp [clearnodes]⟩
  | cons n ns ih =>
    obtain ⟨rest, kept⟩ := ih fun n mem => objects n (List.mem_cons_of_mem _ mem)
    unfold clearnodes
    simp only
    obtain ⟨step, nonwhite, old⟩ := clearnode_strings (n := n) (rest.shades.markable markable)
      fun r ref => rest.shades.objects ▸ objects n (List.mem_cons_self ..) r ref
    refine ⟨rest.trans step, fun n' mem => ?_⟩
    cases List.mem_cons.mp mem with
    | inl here =>
      rw [here]
      exact ⟨nonwhite, fun r ref => ⟨n, List.mem_cons_self .., old r ref⟩⟩
    | inr there =>
      obtain ⟨nonwhite', old'⟩ := kept n' there
      refine ⟨fun r ref => step.shades.nonwhite (nonwhite' r ref), fun r ref => ?_⟩
      obtain ⟨n'', mem', ref'⟩ := old' r ref
      exact ⟨n'', List.mem_cons_of_mem _ mem', ref'⟩

/-- What clearing keeps of the end of the mark phase. -/
structure Clears (g g' : GlobalState) : Prop where
  frame : Frame g g'
  marking : Marking (fun _ => False) g'
  upvals : UpvalsDone g → UpvalsDone g'
  again : AgainDone (fun _ => False) g → AgainDone (fun _ => False) g'
  weak : WeakDone (fun _ => False) g → WeakDone (fun _ => False) g'
  gray : g'.gray = g.gray
  linked : g'.weak = g.weak

theorem Clears.refl (marking : Marking (fun _ => False) g) : Clears g g :=
  ⟨.refl g, marking, id, id, id, rfl, rfl⟩

theorem Clears.trans {g₁ : GlobalState} (first : Clears g g') (second : Clears g' g₁) : Clears g g₁ where
  frame := first.frame.trans second.frame
  marking := second.marking
  upvals := fun done => second.upvals (first.upvals done)
  again := fun done => second.again (first.again done)
  weak := fun done => second.weak (first.weak done)
  gray := second.gray.trans first.gray
  linked := second.linked.trans first.linked

theorem clears_of_strings (white : White g) (marking : Marking (fun _ => False) g) (strings : Strings g g') :
    Clears g g' where
  frame := frame_of_shades strings.shades
  marking := Marking.shades strings.shades white marking
  upvals := UpvalsDone.shades strings.shades
  again := AgainDone.shades strings.shades
  weak := WeakDone.shades strings.shades marking
  gray := strings.gray
  linked := shades_weak strings.shades

/-- A table loses entries. -/
theorem clears_of_setTable {h : Nat} {t : Table} (marking : Marking (fun _ => False) g)
    (metatable : t.metatable = (g.heap.tables h).metatable)
    (array : ∀ v ∈ t.array, v ∈ (g.heap.tables h).array ∨ v = .nil)
    (node : ∀ n ∈ t.node, ∀ r ∈ nodeRefs n, ∃ n' ∈ (g.heap.tables h).node, r ∈ nodeRefs n') :
    Clears g (g.setTable h t) := by
  have values : ∀ v ∈ t.array, ∀ r ∈ gcvalue v, ∃ v' ∈ (g.heap.tables h).array, r ∈ gcvalue v' := by
    intro v mem r isValue
    cases array v mem with
    | inl old => exact ⟨v, old, isValue⟩
    | inr empty => rw [empty] at isValue; cases isValue
  have refs : ∀ o r, r ∈ (g.setTable h t).refs o → r ∈ g.refs o := by
    intro o r ref
    rw [refs_setTable] at ref
    split at ref
    next here =>
      rw [here]
      simp only [GlobalState.refs, tableRefs, List.mem_append, List.mem_flatMap, Option.mem_toList] at ref ⊢
      rw [metatable] at ref
      exact ref.imp (.imp id fun inArray => by
        obtain ⟨v, mem, isValue⟩ := inArray
        exact values v mem r isValue) fun inNode => by
        obtain ⟨n, mem, ref'⟩ := inNode
        exact node n mem r ref'
    next => exact ref
  refine ⟨frame_heap rfl refs, marking.heap rfl refs, fun done uv object unowned nonwhite r ref => ?_,
    fun done o mem free r ref => ?_, fun done h' mem free => ?_, rfl, rfl⟩
  · exact done uv object unowned nonwhite r (refs _ r ref)
  · exact done o mem free r (refs o r ref)
  · by_cases here : h' = h
    · subst here
      obtain ⟨metatable', array'⟩ := done h' mem free
      have table : (g.setTable h' t).heap.tables h' = t := setAt_same ..
      unfold Spared
      rw [table]
      refine ⟨fun mt isMt => metatable' mt (metatable ▸ isMt), fun strong v mem' o isValue => ?_⟩
      obtain ⟨v', old, isValue'⟩ := values v mem' o isValue
      exact array' strong v' old o isValue'
    · have table : (g.setTable h t).heap.tables h' = g.heap.tables h' := setAt_other _ _ here
      unfold Spared
      rw [table]
      exact done h' mem free

-- the array part of a weak table after cleartable
theorem clearedarray_strings {h : Nat} (markable : Markable g) (object : .table h ∈ g.objects) (spared : Spared g h) :
    ∃ array g₁, (if g.marked (.table h) &&& valueweak != 0 then g.cleararray (g.heap.tables h).array
      else ((g.heap.tables h).array, g)) = (array, g₁) ∧ Strings g g₁ ∧
      ∀ v ∈ array, (∀ o ∈ gcvalue v, g₁.iswhite o = false) ∧ (v ∈ (g.heap.tables h).array ∨ v = .nil) := by
  have refs := markable.referring _ object
  simp only [GlobalState.refs, mem_tableRefs] at refs
  by_cases weak : g.marked (.table h) &&& valueweak = 0
  · refine ⟨_, _, by rw [if_neg (by simp [weak])], ⟨.refl g, rfl⟩, fun v mem => ⟨?_, .inl mem⟩⟩
    exact spared.2 weak v mem
  · obtain ⟨strings, all⟩ := cleararray_strings (g.heap.tables h).array markable
      fun v mem o isValue => refs o (.inr (.inl ⟨v, mem, isValue⟩))
    exact ⟨_, _, by rw [if_pos (by simpa using weak)], strings, all⟩

theorem clearone_clears {h : Nat} (ready : MarkReady g) (marking : Marking (fun _ => False) g)
    (object : .table h ∈ g.objects) (spared : Spared g h) :
    Clears g (g.clearone (.table h)) ∧
      ∀ r ∈ (g.clearone (.table h)).refs (.table h), (g.clearone (.table h)).iswhite r = false := by
  have refs := ready.markable.referring _ object
  simp only [GlobalState.refs, mem_tableRefs] at refs
  obtain ⟨array, g₁, isArray, first, values⟩ := clearedarray_strings ready.markable object spared
  have markable₁ := first.shades.markable ready.markable
  obtain ⟨second, nodes⟩ := clearnodes_strings (g.heap.tables h).node markable₁ fun n mem r ref => by
    rw [first.shades.objects]
    unfold nodeRefs at ref
    split at ref
    · cases ref
    next used => exact refs r (.inr (.inr ⟨n, mem, used, by simpa using ref⟩))
  have both := first.trans second
  have result : g.clearone (.table h) = (g₁.clearnodes (g.heap.tables h).node).2.setTable h
      { g.heap.tables h with array, node := (g₁.clearnodes (g.heap.tables h).node).1 } := by
    unfold clearone
    simp only
    rw [isArray]
  rw [result]
  generalize g₁.clearnodes (g.heap.tables h).node = cleared at second nodes both
  have table : cleared.2.heap.tables h = g.heap.tables h := by rw [both.shades.heap]
  have before := clears_of_strings ready.white marking both
  refine ⟨before.trans (clears_of_setTable before.marking ?_ ?_ ?_), fun r ref => ?_⟩
  · rw [table]
  · rw [table]
    exact fun v mem => (values v mem).2
  · rw [table]
    exact fun n mem => (nodes n mem).2
  · rw [refs_setTable, if_pos rfl] at ref
    show cleared.2.iswhite r = false
    simp only [tableRefs, List.mem_append, List.mem_flatMap, Option.mem_toList, Option.map_eq_some_iff] at ref
    rcases ref with (⟨mt, isMt, rfl⟩ | ⟨v, mem, isValue⟩) | ⟨n, mem, ref'⟩
    · exact both.shades.nonwhite (spared.1 mt isMt)
    · exact second.shades.nonwhite ((values v mem).1 r isValue)
    · exact (nodes n mem).1 r ref'

/-- After `cleartable` no weak table refers to a white object. -/
theorem cleartable_clears {l : List GCObject} (ready : MarkReady g) (marking : Marking (fun _ => False) g)
    (tables : ∀ o ∈ l, o ∈ g.weak) (done : WeakDone (fun _ => False) g) :
    Clears g (g.cleartable l) ∧ ∀ o ∈ l, ∀ r ∈ (g.cleartable l).refs o, (g.cleartable l).iswhite r = false := by
  unfold cleartable
  induction l generalizing g with
  | nil => exact ⟨.refl marking, by simp⟩
  | cons o l ih =>
    have mem := tables o (List.mem_cons_self ..)
    obtain ⟨h, rfl⟩ := marking.weak o mem
    obtain ⟨step, seen⟩ := clearone_clears ready marking (marking.listed _ (List.mem_append_right _ mem)).1
      (done h mem id)
    obtain ⟨rest, all⟩ := ih (step.frame.markReady ready) step.marking
      (fun o' mem' => step.linked ▸ tables o' (List.mem_cons_of_mem _ mem')) (step.weak done)
    refine ⟨step.trans rest, fun o' mem' r ref => ?_⟩
    cases List.mem_cons.mp mem' with
    | inl here => exact rest.frame.nonwhite r (seen r (here ▸ rest.frame.refs o' r ref))
    | inr there => exact all o' there r ref

/-! ## `atomic` -/

/-- The same objects, later in the mark phase. -/
structure Later (g g' : GlobalState) : Prop where
  rest : ∃ heap marked gray grayagain weak rootgc tmudata,
    g' = { g with heap, marked, gray, grayagain, weak, rootgc, tmudata }
  objects : ∀ o, o ∈ g'.objects ↔ o ∈ g.objects
  nonwhite : ∀ o, g.iswhite o = false → g'.iswhite o = false

theorem Later.trans {g₁ : GlobalState} (first : Later g g') (second : Later g' g₁) : Later g g₁ := by
  refine ⟨?_, fun o => (second.objects o).trans (first.objects o), fun o nonwhite => second.nonwhite o (first.nonwhite o nonwhite)⟩
  obtain ⟨heap, marked, gray, grayagain, weak, rootgc, tmudata, rfl⟩ := first.rest
  obtain ⟨heap', marked', gray', grayagain', weak', rootgc', tmudata', rfl⟩ := second.rest
  exact ⟨_, _, _, _, _, _, _, rfl⟩

theorem later_of_frame (frame : Frame g g') : Later g g' := by
  refine ⟨?_, fun o => by rw [frame.objects], frame.nonwhite⟩
  obtain ⟨heap, marked, gray, grayagain, weak, rfl⟩ := frame.rest
  exact ⟨_, _, _, _, _, _, _, rfl⟩

theorem later_of_separated (separated : Separated g g') : Later g g' := by
  refine ⟨?_, fun o => separated.mem_objects, fun o nonwhite => (separated.colours o).1.trans nonwhite⟩
  obtain ⟨marked, rootgc, tmudata, rfl⟩ := separated.rest
  exact ⟨_, _, _, _, _, _, _, rfl⟩

theorem shape_of_frame (frame : Frame g g') (shape : Shape g) : Shape g' := by
  have coloured : ∀ o ∈ g'.objects, Coloured (g'.marked o) := fun o object => by
    rw [frame.objects] at object
    exact frame.coloured o object (shape.coloured o object)
  have thread : ∀ th, .thread th ∈ g'.objects → g'.isblack (.thread th) = false := fun th object => by
    rw [frame.objects] at object
    exact frame.unblackened _ object (.inl ⟨th, rfl⟩) (shape.thread th object)
  have upval : ∀ uv ∈ g.uvhead, g'.isblack (.upval uv) = false := fun uv mem => by
    obtain ⟨object, unowned⟩ := shape.uvhead_object mem
    exact frame.unblackened _ object (.inr ⟨uv, rfl, unowned⟩) (shape.upval uv mem)
  have fixed : ∀ o ∈ g'.objects, g'.marked o &&& fixedbit ≠ 0 → (∃ ts, o = .string ts) ∨ o = .thread g.mainthread :=
    fun o object isFixed => by
      rw [frame.objects] at object
      rw [frame.fixed] at isFixed
      exact shape.fixed o object isFixed
  have upvals := frame.upvals
  obtain ⟨heap, marked, gray, grayagain, weak, rfl⟩ := frame.rest
  refine ⟨shape.white, shape.nodup, shape.main, fun uv mem => ?_, fun th uv root mem => ?_, shape.uvhead, shape.distinct,
    coloured, fixed, thread, upval⟩
  · simp only [Owned] at upvals ⊢
    rw [upvals]
    exact shape.closed uv mem
  · simp only at upvals ⊢
    rw [upvals]
    exact shape.opened th uv root mem

theorem Separated.shape (separated : Separated g g') (shape : Shape g) : Shape g' := by
  have threads : ∀ th, .thread th ∈ g'.rootgc ↔ .thread th ∈ g.rootgc := fun th => separated.rootgc _ (by simp)
  have upvals : ∀ uv, .upval uv ∈ g'.rootgc ↔ .upval uv ∈ g.rootgc := fun uv => separated.rootgc _ (by simp)
  have coloured : ∀ o ∈ g'.objects, Coloured (g'.marked o) := fun o object =>
    (separated.colours o).2.2.2.1 (shape.coloured o (separated.mem_objects.mp object))
  have fixed : ∀ o ∈ g'.objects, g'.marked o &&& fixedbit ≠ 0 → (∃ ts, o = .string ts) ∨ o = .thread g.mainthread :=
    fun o object isFixed => by
      rw [(separated.colours o).2.2.2.2] at isFixed
      exact shape.fixed o (separated.mem_objects.mp object) isFixed
  have thread : ∀ th, .thread th ∈ g'.objects → g'.isblack (.thread th) = false := fun th object =>
    (separated.colours _).2.1.trans (shape.thread th (separated.mem_objects.mp object))
  have upval : ∀ uv ∈ g.uvhead, g'.isblack (.upval uv) = false := fun uv mem =>
    (separated.colours _).2.1.trans (shape.upval uv mem)
  have nodup : g'.objects.Nodup := separated.objects.nodup_iff.mpr shape.nodup
  obtain ⟨marked, rootgc, tmudata, rfl⟩ := separated.rest
  refine ⟨shape.white, nodup, (threads _).mpr shape.main, fun uv mem => shape.closed uv ((upvals uv).mp mem),
    fun th uv root => shape.opened th uv ((threads th).mp root), fun uv => ?_, shape.distinct, coloured, fixed, thread, upval⟩
  simp only [threads]
  exact shape.uvhead uv

/-- What the lists hold has been seen to. -/
structure Settled (pending : GCObject → Prop) (g : GlobalState) : Prop where
  marking : Marking pending g
  gray : g.gray = []
  upvals : UpvalsDone g
  weak : WeakDone pending g
  again : AgainDone pending g

-- the part of atomic before the udata are separated
def remarked (g : GlobalState) : GlobalState :=
  let g := g.remarkupvals.propagateall
  let g := ({ g with gray := g.weak, weak := [] }.markobject (.thread g.running)).markmt.propagateall
  { g with gray := g.grayagain, grayagain := [] }.propagateall

-- the part of atomic before the flip
def preserved (g : GlobalState) : GlobalState :=
  let g := ((remarked g).luaCSeparateudata false).marktmu.propagateall
  g.cleartable g.weak

theorem atomic_eq (g : GlobalState) : g.atomic =
    { preserved g with
      currentwhite := (preserved g).otherwhite, sweepstrgc := 0, sweepgc := none, gcstate := .sweepstring } := rfl

theorem remarked_settled (shape : Shape g) (sound : Sound g) (marking : Marking (waits g) g) :
    Settled (waits g) (remarked g) ∧ Frame g (remarked g) ∧ (remarked g).iswhite (.thread g.running) = false ∧
      ∀ mt ∈ g.mt, ∀ h ∈ mt, (remarked g).iswhite (.table h) = false := by
  have ready := Shape.markReady shape (marking.referring sound)
  -- remark occasional upvalues, and what they have caught
  obtain ⟨shades₁, upvals₁⟩ := remarkupvals_done shape ready
  have frame₁ := frame_of_shades shades₁
  obtain ⟨marking₂, carried₂, empty₂⟩ :=
    propagateall_carried (frame₁.markReady ready) (Marking.shades shades₁ shape.white marking)
  have upvals₂ := carried₂.upvals upvals₁
  have frame₂ := frame₁.trans carried₂.frame
  -- weak tables, the running thread and the metatables of the types
  obtain ⟨marking₃, step₃⟩ := retraverse_weak marking₂ empty₂
  have frame₃ := frame₂.trans step₃
  have upvals₃ : UpvalsDone { g.remarkupvals.propagateall with gray := g.remarkupvals.propagateall.weak, weak := [] } := upvals₂
  have weak₃ : WeakDone (waits g) { g.remarkupvals.propagateall with gray := g.remarkupvals.propagateall.weak, weak := [] } :=
    fun h mem => absurd mem List.not_mem_nil
  have same₃ := later_of_frame frame₃
  unfold remarked
  simp only
  generalize isThird : { g.remarkupvals.propagateall with gray := g.remarkupvals.propagateall.weak, weak := [] } = g₃
    at marking₃ frame₃ upvals₃ weak₃ same₃ ⊢
  have running : g.remarkupvals.propagateall.running = g.running ∧ g₃.mt = g.mt := by
    obtain ⟨heap, marked, gray, grayagain, weak, rootgc, tmudata, eq⟩ := same₃.rest
    refine ⟨?_, by rw [eq]⟩
    have kept : g₃.running = g.remarkupvals.propagateall.running := by rw [← isThird]
    rw [← kept, eq]
  rw [running.1]
  have ready₃ := frame₃.markReady ready
  have runningObject : .thread g.running ∈ g₃.objects :=
    (same₃.objects _).mpr (sound.roots _ (by simp [roots])).1
  obtain ⟨shades₄, marked₄⟩ := markobject_shades ready₃.markable runningObject
  have mtObjects : ∀ mt ∈ (g₃.markobject (.thread g.running)).mt, ∀ h ∈ mt,
      .table h ∈ (g₃.markobject (.thread g.running)).objects := by
    intro mt mem h isMt
    have kept : (g₃.markobject (.thread g.running)).mt = g₃.mt := by
      obtain ⟨marked, gray, eq⟩ := shades₄.same
      rw [eq]
    rw [kept, running.2] at mem
    rw [shades₄.objects, same₃.objects]
    refine (sound.roots _ ?_).1
    simp only [roots, List.mem_append, List.mem_flatMap, Option.mem_toList, Option.map_eq_some_iff]
    exact .inl (.inr ⟨mt, mem, h, isMt, rfl⟩)
  obtain ⟨shades₅, marked₅⟩ := markmt_shades (shades₄.markable ready₃.markable) mtObjects
  have mts : (g₃.markobject (.thread g.running)).mt = g.mt := by
    rw [← running.2]
    obtain ⟨marked, gray, eq⟩ := shades₄.same
    rw [eq]
  rw [mts] at marked₅
  have both := shades₄.trans shades₅
  have step₅ := frame_of_shades both
  obtain ⟨marking₆, carried₆, empty₆⟩ :=
    propagateall_carried (step₅.markReady ready₃) (Marking.shades both ready₃.white marking₃)
  have upvals₆ := carried₆.upvals (UpvalsDone.shades both upvals₃)
  have weak₆ := carried₆.weak (WeakDone.shades both marking₃ weak₃)
  have frame₆ := (frame₃.trans step₅).trans carried₆.frame
  have running₆ := carried₆.frame.nonwhite _ (shades₅.nonwhite marked₄)
  have mt₆ := fun mt mem h isMt => carried₆.frame.nonwhite _ (marked₅ mt mem h isMt)
  generalize (g₃.markobject (.thread g.running)).markmt.propagateall = g₆ at marking₆ carried₆ empty₆ upvals₆ weak₆ frame₆ running₆ mt₆ ⊢
  -- remark gray again
  obtain ⟨marking₇, step₇⟩ := retraverse_again marking₆ empty₆
  obtain ⟨marking₈, carried₈, empty₈⟩ := propagateall_carried ((frame₆.trans step₇).markReady ready) marking₇
  refine ⟨⟨marking₈, empty₈, carried₈.upvals upvals₆, carried₈.weak weak₆, carried₈.again ?_⟩,
    (frame₆.trans step₇).trans carried₈.frame, carried₈.frame.nonwhite _ running₆,
    fun mt mem h isMt => carried₈.frame.nonwhite _ (mt₆ mt mem h isMt)⟩
  exact fun o mem => absurd mem List.not_mem_nil

/-- No object that is not white refers to a white one. -/
structure Marked (g : GlobalState) : Prop where
  shape : Shape g
  alive : ∀ o ∈ g.objects, g.isdead o = false
  main : g.iswhite (.thread g.mainthread) = false
  udata : ∀ u, .userdata u ∈ g.objects → g.isgray (.userdata u) = false
  refs : ∀ o ∈ g.objects, g.iswhite o = false → ∀ r ∈ g.refs o, r ∈ g.objects ∧ g.iswhite r = false
  roots : ∀ o ∈ g.roots, o ∈ g.objects ∧ g.iswhite o = false

theorem WeakDone.unwaiting (done : WeakDone (waits g) g') : WeakDone (fun _ => False) g' := by
  intro h mem _
  refine done h mem ?_
  rintro ⟨u, -, same⟩
  cases same

theorem AgainDone.unwaiting (marking : Marking pending g') (done : AgainDone (waits g) g') :
    AgainDone (fun _ => False) g' := by
  intro o mem _
  refine done o mem ?_
  rintro ⟨u, -, rfl⟩
  exact (marking.listed _ (List.mem_append_left _ (List.mem_append_right _ mem))).2.2.1

/-- A gray object is on a list whose objects have been seen to. -/
theorem Settled.closed (settled : Settled (fun _ => False) g) (weak : ∀ o ∈ g.weak, ∀ r ∈ g.refs o, g.iswhite r = false)
    (object : o ∈ g.objects) (nonwhite : g.iswhite o = false) : ∀ r ∈ g.refs o, g.iswhite r = false := by
  cases isBlack : g.isblack o with
  | true => exact settled.marking.black o object isBlack id
  | false =>
    have listed := settled.marking.gray o object (isgray_iff.mpr ⟨isBlack, nonwhite⟩)
    unfold Listed at listed
    rw [settled.gray, List.nil_append] at listed
    rcases listed with mem | ⟨ts, rfl⟩ | ⟨uv, rfl, unowned⟩
    · cases List.mem_append.mp mem with
      | inl again => exact settled.again o again id
      | inr inWeak => exact weak o inWeak
    · simp [GlobalState.refs]
    · exact settled.upvals uv object unowned nonwhite

theorem preserved_marked (shape : Shape g) (sound : Sound g) (marking : Marking (waits g) g) :
    Marked (preserved g) ∧ Later g (preserved g) := by
  obtain ⟨settled, frame, running, mts⟩ := remarked_settled shape sound marking
  have ready := Shape.markReady shape (marking.referring sound)
  have shape₁ := shape_of_frame frame shape
  have later₁ := later_of_frame frame
  have waiting : waits (remarked g) = waits g := by
    obtain ⟨heap, marked, gray, grayagain, weak, eq⟩ := frame.rest
    funext o
    unfold waits
    rw [eq]
  have marking₁ := settled.marking
  rw [← waiting] at marking₁
  -- preserve the udata that are to be finalized
  have rootgc : (remarked g).rootgc.Nodup := by
    have nodup := shape₁.nodup
    unfold objects at nodup
    exact nodup.of_append_left.of_append_left.of_append_left
  have separated := separateudata_separated false shape₁.white rootgc
  have shape₂ := separated.shape shape₁
  have marking₂ := separated.marking marking₁
  have ready₂ := separated.markReady (frame.markReady ready)
  obtain ⟨marking₃, carried₃, finalized₃⟩ := marktmu_marking ready₂ marking₂
  obtain ⟨marking₄, carried₄, empty₄⟩ := propagateall_carried (carried₃.frame.markReady ready₂) marking₃
  have carried := carried₃.trans carried₄
  have shape₄ := shape_of_frame carried.frame shape₂
  have weak₄ := carried.weak (separated.weakDone (WeakDone.unwaiting settled.weak))
  have upvals₄ := carried.upvals (separated.upvalsDone settled.upvals)
  have again₄ := carried.again (separated.againDone (AgainDone.unwaiting settled.marking settled.again))
  -- clear the weak tables
  obtain ⟨clears, seen⟩ := cleartable_clears (carried.frame.markReady ready₂) marking₄ (fun o => id) weak₄
  have later₂ := (later_of_separated separated).trans (later_of_frame carried.frame)
  have later := (later₁.trans later₂).trans (later_of_frame clears.frame)
  have tmudata : (preserved g).tmudata = ((remarked g).luaCSeparateudata false).tmudata := by
    obtain ⟨heap, marked, gray, grayagain, weak, eq⟩ := carried.frame.rest
    obtain ⟨heap', marked', gray', grayagain', weak', eq'⟩ := clears.frame.rest
    unfold preserved
    simp only
    rw [eq', eq]
  change Clears _ (preserved g) at clears
  change ∀ o ∈ _, ∀ r ∈ (preserved g).refs o, (preserved g).iswhite r = false at seen
  change Later g (preserved g) at later
  generalize preserved g = g₅ at clears seen later tmudata ⊢
  have settled₅ : Settled (fun _ => False) g₅ :=
    ⟨clears.marking, clears.gray.trans empty₄, clears.upvals upvals₄, clears.weak weak₄, clears.again again₄⟩
  refine ⟨⟨shape_of_frame clears.frame shape₄, clears.marking.alive, clears.marking.main,
    fun u object => clears.marking.udata object, fun o object nonwhite r ref => ?_, fun o root => ?_⟩, later⟩
  · refine ⟨((clears.frame.markReady (carried.frame.markReady ready₂)).markable).referring o object r ref, ?_⟩
    exact settled₅.closed (fun o' mem => seen o' (clears.linked ▸ mem)) object nonwhite r ref
  · simp only [roots, List.mem_append, List.mem_cons, List.mem_flatMap, List.mem_map, Option.mem_toList,
      Option.map_eq_some_iff] at root
    have stage := fun o nonwhite => clears.frame.nonwhite o (later₂.nonwhite o nonwhite)
    have known : ∀ o ∈ g.roots, o ∈ g₅.objects := fun o root => (later.objects o).mpr (sound.roots o root).1
    rcases root with ((rfl | rfl | isRegistry) | ⟨mt, mem, h, isMt, rfl⟩) | ⟨u, mem, rfl⟩
    · refine ⟨?_, clears.marking.main⟩
      obtain ⟨heap, marked, gray, grayagain, weak, rootgc, tmudata, eq⟩ := later.rest
      have same : g₅.mainthread = g.mainthread := by rw [eq]
      rw [same]
      exact known _ (by simp [roots])
    · obtain ⟨heap, marked, gray, grayagain, weak, rootgc, tmudata, eq⟩ := later.rest
      have same : g₅.running = g.running := by rw [eq]
      rw [same]
      exact ⟨known _ (by simp [roots]), stage _ running⟩
    · refine ⟨?_, clears.marking.registry o isRegistry⟩
      obtain ⟨heap, marked, gray, grayagain, weak, rootgc, tmudata, eq⟩ := later.rest
      have same : g₅.registry = g.registry := by rw [eq]
      rw [same] at isRegistry
      exact known o (by simp [roots, isRegistry])
    · obtain ⟨heap, marked, gray, grayagain, weak, rootgc, tmudata, eq⟩ := later.rest
      have same : g₅.mt = g.mt := by rw [eq]
      rw [same] at mem
      refine ⟨known _ ?_, stage _ (mts mt mem h isMt)⟩
      simp only [roots, List.mem_append, List.mem_flatMap, Option.mem_toList, Option.map_eq_some_iff]
      exact .inl (.inr ⟨mt, mem, h, isMt, rfl⟩)
    · refine ⟨mem_objects.mpr (.inr (.inr (.inl ⟨u, mem, rfl⟩))), ?_⟩
      rw [tmudata] at mem
      exact clears.frame.nonwhite _ (carried₄.frame.nonwhite _ (finalized₃ u mem))

/-! ## The flip -/

theorem flip_condemned (white : White g) {m : BitVec 8} (coloured : Coloured m) (alive : deadMark g.otherwhite m = false) :
    condemnedMark (g.otherwhite ^^^ whitebits) m = (whiteMark m && (m &&& fixedbit == 0)) :=
  white.elim (p := fun _ other => ∀ m, Coloured m → deadMark other m = false →
    condemnedMark (other ^^^ whitebits) m = (whiteMark m && (m &&& fixedbit == 0))) (by decide) (by decide) m coloured alive

theorem flip_deadMark (white : White g) {m : BitVec 8} (alive : deadMark g.otherwhite m = false) :
    deadMark (g.otherwhite ^^^ whitebits) m = whiteMark m :=
  white.elim (p := fun _ other => ∀ m, deadMark other m = false →
    deadMark (other ^^^ whitebits) m = whiteMark m) (by decide) (by decide) m alive

theorem flip_isdead (white : White g) {m : BitVec 8} (nonwhite : whiteMark m = false) :
    deadMark (g.otherwhite ^^^ whitebits) m = false :=
  white.elim (p := fun _ other => ∀ m, whiteMark m = false → deadMark (other ^^^ whitebits) m = false)
    (by decide) (by decide) m nonwhite

theorem flip_white (white : White g) : g.otherwhite = 0b100001 ∨ g.otherwhite = 0b100010 :=
  white.elim (p := fun _ other => other = 0b100001 ∨ other = 0b100010) (.inr rfl) (.inl rfl)

/-- After the flip what is white is dead. -/
theorem Marked.flip (marked : Marked g) :
    let g' := { g with currentwhite := g.otherwhite, sweepstrgc := 0, sweepgc := none, gcstate := .sweepstring }
    Shape g' ∧ Sound g' := by
  intro g'
  have shape := marked.shape
  have dead : ∀ o ∈ g.objects, g'.isdead o = g.iswhite o := fun o object => flip_deadMark shape.white (marked.alive o object)
  have alive : ∀ o, o ∈ g.objects ∧ g.iswhite o = false → Alive g' o := fun o kept =>
    ⟨kept.1, by rw [dead o kept.1, kept.2]⟩
  refine ⟨⟨flip_white shape.white, shape.nodup, shape.main, shape.closed, shape.opened, shape.uvhead, shape.distinct,
    shape.coloured, shape.fixed, shape.thread, shape.upval⟩, fun o root => alive o (marked.roots o root),
    fun o isAlive r ref => ?_⟩
  have nonwhite : g.iswhite o = false := by
    rw [← dead o isAlive.1]
    exact isAlive.2
  exact alive r (marked.refs o isAlive.1 nonwhite r ref)

/-- `atomic` makes dead only what the program cannot get to. -/
theorem atomic_sound (shape : Shape g) (sound : Sound g) (marking : Marking (waits g) g) :
    Shape g.atomic ∧ Sound g.atomic := by
  rw [atomic_eq]
  exact (preserved_marked shape sound marking).1.flip

-- udata that wait for their finalizers are black
theorem atomic_waiting (shape : Shape g) (sound : Sound g) (marking : Marking (waits g) g) {u : Nat}
    (waiting : u ∈ g.atomic.tmudata) :
    g.atomic.isdead (.userdata u) = false ∧ g.atomic.isgray (.userdata u) = false := by
  have marked := (preserved_marked shape sound marking).1
  rw [atomic_eq] at waiting ⊢
  generalize preserved g = g₅ at marked waiting ⊢
  have root : .userdata u ∈ g₅.roots := by
    simp only [roots, List.mem_append, List.mem_map]
    exact .inr ⟨u, waiting, rfl⟩
  obtain ⟨object, nonwhite⟩ := marked.roots _ root
  exact ⟨flip_isdead marked.shape.white nonwhite, marked.udata u object⟩

end Lunatik.Verified.AtomicPhase
