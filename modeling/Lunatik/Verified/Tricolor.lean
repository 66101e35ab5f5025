import Lunatik.Verified.Colours

/-! # The three colours while the collector marks

`Shades` says what marking does to a state: white objects become gray or black, what becomes black refers to
no white object, and what becomes gray is put on the list `gray`, but for strings and open upvalues.
`Marking` is the invariant of the mark phase, with the objects that it does not yet hold for.
-/

namespace Lunatik.Verified.Tricolor

open Lunatik.Library
open Lunatik.Lua (setAt setAt_same setAt_other)
open Lunatik.Lua.Gc Lunatik.Lua.Gc.GlobalState
open Lunatik.Lua.StringTable (whitebits blackbit fixedbit)
open Lunatik.Verified.Colours

/-! ## States -/

/-- The objects that are traversed from the list `gray`. -/
def Traversable : GCObject → Prop
  | .table _ | .function _ | .thread _ | .proto _ => True
  | .string _ | .userdata _ | .upval _ => False

instance : DecidablePred Traversable
  | .table _ | .function _ | .thread _ | .proto _ => .isTrue trivial
  | .string _ | .userdata _ | .upval _ => .isFalse id

def isUpval : GCObject → Bool
  | .upval _ => true
  | _ => false

def Owned (g : GlobalState) (uv : Nat) : Prop := (g.heap.upvals uv).v = .own

/-- How the lists of a state fit together, and what marks its objects have. -/
structure Shape (g : GlobalState) : Prop where
  white : White g
  nodup : g.objects.Nodup
  main : .thread g.mainthread ∈ g.rootgc
  closed : ∀ uv, .upval uv ∈ g.rootgc → Owned g uv
  opened : ∀ th uv, .thread th ∈ g.rootgc → uv ∈ g.openupval th → ∃ slot, (g.heap.upvals uv).v = .stack th slot
  uvhead : ∀ uv, uv ∈ g.uvhead ↔ ∃ th, .thread th ∈ g.rootgc ∧ uv ∈ g.openupval th
  distinct : g.uvhead.Nodup
  coloured : ∀ o ∈ g.objects, Coloured (g.marked o)
  fixed : ∀ o ∈ g.objects, g.marked o &&& fixedbit ≠ 0 → (∃ ts, o = .string ts) ∨ o = .thread g.mainthread
  thread : ∀ th, .thread th ∈ g.objects → g.isblack (.thread th) = false
  upval : ∀ uv ∈ g.uvhead, g.isblack (.upval uv) = false

section Objects

variable {g : GlobalState} {o : GCObject}

theorem mem_objects : o ∈ g.objects ↔ o ∈ g.rootgc ∨
    (∃ th uv, .thread th ∈ g.rootgc ∧ uv ∈ g.openupval th ∧ o = .upval uv) ∨
    (∃ u ∈ g.tmudata, o = .userdata u) ∨ ∃ ts ∈ g.hash.flatten, o = .string ts := by
  simp only [objects, List.mem_append, List.mem_map, List.mem_flatMap, or_assoc]
  refine or_congr Iff.rfl (or_congr ⟨?_, ?_⟩ (or_congr ⟨?_, ?_⟩ ⟨?_, ?_⟩))
  · rintro ⟨o', root, mem⟩
    cases o' with
    | thread th =>
      obtain ⟨uv, opened, rfl⟩ := List.mem_map.mp mem
      exact ⟨th, uv, root, opened, rfl⟩
    | _ => cases mem
  · rintro ⟨th, uv, root, opened, rfl⟩
    exact ⟨.thread th, root, List.mem_map_of_mem opened⟩
  · rintro ⟨u, mem, rfl⟩
    exact ⟨u, mem, rfl⟩
  · rintro ⟨u, mem, rfl⟩
    exact ⟨u, mem, rfl⟩
  · rintro ⟨ts, mem, rfl⟩
    exact ⟨ts, mem, rfl⟩
  · rintro ⟨ts, mem, rfl⟩
    exact ⟨ts, mem, rfl⟩

theorem Shape.mem_uvhead (shape : Shape g) {uv : Nat} (object : .upval uv ∈ g.objects) (unowned : ¬ Owned g uv) :
    uv ∈ g.uvhead := by
  rcases mem_objects.mp object with root | ⟨th, uv', root, opened, same⟩ | ⟨u, -, same⟩ | ⟨ts, -, same⟩
  · exact absurd (shape.closed uv root) unowned
  · cases same
    exact (shape.uvhead uv).mpr ⟨th, root, opened⟩
  · cases same
  · cases same

theorem Shape.uvhead_object (shape : Shape g) {uv : Nat} (mem : uv ∈ g.uvhead) :
    .upval uv ∈ g.objects ∧ ¬ Owned g uv := by
  obtain ⟨th, root, opened⟩ := (shape.uvhead uv).mp mem
  refine ⟨mem_objects.mpr (.inr (.inl ⟨th, uv, root, opened, rfl⟩)), ?_⟩
  obtain ⟨slot, isOpen⟩ := shape.opened th uv root opened
  rw [Owned, isOpen]
  simp

end Objects

/-- The object is there, and not dead. -/
def Alive (g : GlobalState) (o : GCObject) : Prop := o ∈ g.objects ∧ g.isdead o = false

/-- What a program can get to is alive. -/
structure Sound (g : GlobalState) : Prop where
  roots : ∀ o ∈ g.roots, Alive g o
  refs : ∀ o, Alive g o → ∀ r ∈ g.refs o, Alive g r

theorem Sound.held {g : GlobalState} {o : GCObject} (sound : Sound g) (held : g.Held o) : Alive g o :=
  held.of_closed sound.roots fun o r alive ref => sound.refs o alive r ref

/-- An object refers to objects only. -/
def Referring (g : GlobalState) : Prop := ∀ o ∈ g.objects, ∀ r ∈ g.refs o, r ∈ g.objects

/-! ## Shading -/

/-- What a white object has become, where `g` is the state before. -/
structure Shaded (g g' : GlobalState) (o : GCObject) : Prop where
  object : o ∈ g.objects
  white : g.iswhite o = true
  nonwhite : g'.iswhite o = false
  flags : g'.marked o &&& flagbits = g.marked o &&& flagbits
  coloured : Coloured (g.marked o) → Coloured (g'.marked o)
  black : g'.isblack o = true → ((∃ u, o = .userdata u) ∨ ∃ uv, o = .upval uv ∧ Owned g uv) ∧
    ∀ r ∈ g.refs o, g'.iswhite r = false
  gray : g'.isblack o = false → (Traversable o ∧ o ∈ g'.gray) ∨ (∃ ts, o = .string ts) ∨
    ∃ uv, o = .upval uv ∧ ¬ Owned g uv ∧ ∀ r ∈ g.refs o, g'.iswhite r = false

structure Shades (g g' : GlobalState) : Prop where
  same : ∃ marked gray, g' = { g with marked, gray }
  gray : ∃ pushed, g'.gray = pushed ++ g.gray ∧ pushed.Nodup ∧
    ∀ o ∈ pushed, g.iswhite o = true ∧ g'.isgray o = true ∧ Traversable o ∧ o ∈ g.objects
  marks : ∀ o, g'.marked o = g.marked o ∨ Shaded g g' o

section Shades

variable {g g' g'' : GlobalState} {o : GCObject}

theorem Shades.refl (g : GlobalState) : Shades g g :=
  ⟨⟨g.marked, g.gray, rfl⟩, ⟨[], rfl, List.nodup_nil, by simp⟩, fun _ => .inl rfl⟩

theorem Shades.objects (shades : Shades g g') : g'.objects = g.objects := by
  obtain ⟨marked, gray, rfl⟩ := shades.same
  rfl

theorem Shades.refs (shades : Shades g g') : g'.refs = g.refs := by
  obtain ⟨marked, gray, rfl⟩ := shades.same
  rfl

theorem Shades.heap (shades : Shades g g') : g'.heap = g.heap := by
  obtain ⟨marked, gray, rfl⟩ := shades.same
  rfl

theorem Shades.white (shades : Shades g g') (white : White g) : White g' := by
  obtain ⟨marked, gray, rfl⟩ := shades.same
  exact white

theorem Shades.referring (shades : Shades g g') (referring : Referring g) : Referring g' := by
  unfold Referring
  rw [shades.objects, shades.refs]
  exact referring

theorem Shades.nonwhite (shades : Shades g g') (nonwhite : g.iswhite o = false) : g'.iswhite o = false := by
  cases shades.marks o with
  | inl same => rw [iswhite_eq, same, ← iswhite_eq, nonwhite]
  | inr shaded => exact shaded.nonwhite

theorem Shades.unchanged (shades : Shades g g') (nonwhite : g.iswhite o = false) : g'.marked o = g.marked o := by
  cases shades.marks o with
  | inl same => exact same
  | inr shaded => rw [shaded.white] at nonwhite; cases nonwhite

theorem Shades.gray_subset (shades : Shades g g') (mem : o ∈ g.gray) : o ∈ g'.gray := by
  obtain ⟨pushed, eq, -⟩ := shades.gray
  rw [eq]
  exact List.mem_append_right _ mem

theorem Shades.alive (shades : Shades g g') (white : White g) (alive : g.isdead o = false) :
    g'.isdead o = false := by
  cases shades.marks o with
  | inl same =>
    obtain ⟨marked, gray, rfl⟩ := shades.same
    rw [isdead_eq, same]
    exact alive
  | inr shaded => exact alive_of_nonwhite (shades.white white) shaded.nonwhite

theorem Shaded.later (second : Shades g' g'') (shaded : Shaded g g' o) :
    Shaded g g'' o := by
  have same := second.unchanged shaded.nonwhite
  have black : g''.isblack o = g'.isblack o := by rw [isblack_eq, same, ← isblack_eq]
  refine ⟨shaded.object, shaded.white, second.nonwhite shaded.nonwhite, by rw [same]; exact shaded.flags,
    fun coloured => by rw [same]; exact shaded.coloured coloured, fun isBlack => ?_, fun isGray => ?_⟩
  · rw [black] at isBlack
    exact ⟨(shaded.black isBlack).1, fun r ref => second.nonwhite ((shaded.black isBlack).2 r ref)⟩
  · rw [black] at isGray
    cases shaded.gray isGray with
    | inl listed => exact .inl ⟨listed.1, second.gray_subset listed.2⟩
    | inr other =>
      cases other with
      | inl string => exact .inr (.inl string)
      | inr upval =>
        obtain ⟨uv, isUpval, unowned, refs⟩ := upval
        exact .inr (.inr ⟨uv, isUpval, unowned, fun r ref => second.nonwhite (refs r ref)⟩)

theorem Shades.trans (first : Shades g g') (second : Shades g' g'') : Shades g g'' := by
  constructor
  · obtain ⟨marked, gray, rfl⟩ := first.same
    obtain ⟨marked', gray', rfl⟩ := second.same
    exact ⟨marked', gray', rfl⟩
  · obtain ⟨pushed, eq, nodup, each⟩ := first.gray
    obtain ⟨pushed', eq', nodup', each'⟩ := second.gray
    refine ⟨pushed' ++ pushed, by rw [eq', eq, List.append_assoc], ?_, ?_⟩
    · refine nodup'.append nodup fun o later earlier => ?_
      have nonwhite := (isgray_iff.mp (each o earlier).2.1).2
      rw [(each' o later).1] at nonwhite
      cases nonwhite
    · intro o mem
      cases List.mem_append.mp mem with
      | inl later =>
        obtain ⟨white, isGray, traversable, object⟩ := each' o later
        refine ⟨?_, isGray, traversable, first.objects ▸ object⟩
        cases before : g.iswhite o with
        | true => rfl
        | false => rw [first.nonwhite before] at white; cases white
      | inr earlier =>
        obtain ⟨white, isGray, traversable, object⟩ := each o earlier
        refine ⟨white, ?_, traversable, object⟩
        have same := second.unchanged (isgray_iff.mp isGray).2
        rw [isgray, isblack_eq, iswhite_eq, same, ← isblack_eq, ← iswhite_eq]
        exact isGray
  · intro o
    cases first.marks o with
    | inr shaded => exact .inr (shaded.later second)
    | inl same =>
      cases second.marks o with
      | inl same' => exact .inl (same'.trans same)
      | inr shaded =>
        refine .inr ⟨first.objects ▸ shaded.object, ?_, shaded.nonwhite, ?_, ?_, ?_, ?_⟩
        · rw [iswhite_eq, ← same, ← iswhite_eq]
          exact shaded.white
        · rw [shaded.flags, same]
        · rw [← same]
          exact shaded.coloured
        · rw [← first.refs]
          intro isBlack
          obtain ⟨kind, refs⟩ := shaded.black isBlack
          exact ⟨by simpa only [Owned, first.heap] using kind, refs⟩
        · rw [← first.refs]
          intro isGray
          simpa only [Owned, first.heap] using shaded.gray isGray

end Shades

/-! ## The functions that mark -/

section Functions

variable {g g' : GlobalState} {o : GCObject}

/-- One white object gets another colour, and what it refers to was seen to before. -/
theorem shades_one (object : o ∈ g.objects) (white : g.iswhite o = true)
    (same : ∃ marked gray, g' = { g with marked, gray }) (others : ∀ o', o' ≠ o → g'.marked o' = g.marked o')
    (gray : g'.gray = if Traversable o then o :: g.gray else g.gray)
    (shaded : Shaded g g' o) (isGray : Traversable o → g'.isblack o = false) : Shades g g' := by
  refine ⟨same, ?_, fun o' => ?_⟩
  · by_cases traversable : Traversable o
    · refine ⟨[o], by simp [gray, traversable], by simp, fun o' mem => ?_⟩
      rw [List.mem_singleton.mp mem]
      exact ⟨white, isgray_iff.mpr ⟨isGray traversable, shaded.nonwhite⟩, traversable, object⟩
    · exact ⟨[], by simp [gray, traversable], by simp, by simp⟩
  · by_cases here : o' = o
    · exact .inr (here ▸ shaded)
    · exact .inl (others o' here)

theorem white2gray_self : (g.white2gray o).iswhite o = false := by simp [white2gray_iswhite]

theorem white2gray_other {o' : GCObject} (ne : o' ≠ o) : (g.white2gray o).marked o' = g.marked o' := by
  simp [white2gray, setMark_marked, ne]

theorem white2gray_coloured (coloured : Coloured (g.marked o)) : Coloured ((g.white2gray o).marked o) := by
  simp only [white2gray, setMark_marked, if_true]
  exact coloured.white2gray

theorem white2gray_kept :
    (g.white2gray o).marked o &&& flagbits = g.marked o &&& flagbits := by
  simp only [white2gray, setMark_marked, if_true]
  exact white2gray_flags _

theorem white2gray_unmarked (nonwhite : g.iswhite o = false) : g.white2gray o = g := by
  have kept : ∀ m : BitVec 8, whiteMark m = false → m &&& ~~~whitebits = m := by decide
  unfold white2gray setMark
  rw [kept (g.marked o) nonwhite]
  have same : (fun o' => if o' = o then g.marked o else g.marked o') = g.marked := by
    funext o'
    split
    next here => rw [here]
    next => rfl
  rw [same]

theorem stringmark_shades {ts : Nat} (object : .string ts ∈ g.objects)
    (coloured : Coloured (g.marked (.string ts))) :
    Shades g (g.stringmark ts) ∧ (g.stringmark ts).iswhite (.string ts) = false := by
  refine ⟨?_, white2gray_self⟩
  unfold stringmark
  cases white : g.iswhite (.string ts) with
  | false => rw [white2gray_unmarked white]; exact .refl g
  | true =>
    have notBlack : (g.white2gray (.string ts)).isblack (.string ts) = false := by
      rw [white2gray_isblack]
      exact coloured.isblack white
    refine shades_one object white ⟨_, g.gray, rfl⟩ (fun o' ne => white2gray_other ne) rfl
      ⟨object, white, white2gray_self, white2gray_kept, white2gray_coloured, fun isBlack => ?_, fun _ => ?_⟩
      (fun traversable => traversable.elim)
    · rw [notBlack] at isBlack
      cases isBlack
    · exact .inr (.inl ⟨ts, rfl⟩)

theorem pushgray_shades (object : o ∈ g.objects) (white : g.iswhite o = true) (traversable : Traversable o)
    (coloured : Coloured (g.marked o)) : Shades g (g.pushgray o) ∧ (g.pushgray o).iswhite o = false := by
  have notBlack : (g.pushgray o).isblack o = false := by
    have kept : (g.pushgray o).isblack o = (g.white2gray o).isblack o := rfl
    rw [kept, white2gray_isblack]
    exact coloured.isblack white
  refine ⟨?_, white2gray_self⟩
  refine shades_one object white ⟨_, _, rfl⟩ (fun o' ne => white2gray_other ne) (by simp [pushgray, traversable])
    ⟨object, white, white2gray_self, white2gray_kept, white2gray_coloured, fun isBlack => ?_, fun _ => ?_⟩
    (fun _ => notBlack)
  · rw [notBlack] at isBlack
    cases isBlack
  · exact .inl ⟨traversable, by simp [pushgray]⟩

theorem marktable_shades {h : Nat} (object : .table h ∈ g.objects)
    (coloured : Coloured (g.marked (.table h))) :
    Shades g (g.marktable h) ∧ (g.marktable h).iswhite (.table h) = false := by
  unfold marktable
  cases white : g.iswhite (.table h) with
  | false =>
    simp only [Bool.false_eq_true, if_false]
    exact ⟨.refl g, white⟩
  | true =>
    simp only [if_true]
    exact pushgray_shades object white trivial coloured

/-- The mark of one object changes before and after other objects are shaded. -/
theorem shades_around {g₁ g₂ : GlobalState} {m : BitVec 8} (start : g₁ = g.setMark o m) (gone : whiteMark m = false)
    (middle : Shades g₁ g₂) (same : ∃ marked, g' = { g₂ with marked })
    (others : ∀ o', o' ≠ o → g'.marked o' = g₂.marked o') (untraversed : ¬ Traversable o)
    (shaded : Shaded g g' o) : Shades g g' := by
  have before : ∀ o', o' ≠ o → g₁.marked o' = g.marked o' := fun o' ne => by
    rw [start, setMark_marked, if_neg ne]
  have goneNow : g₁.iswhite o = false := by rw [start, setMark_iswhite, if_pos rfl, gone]
  have listed : g'.gray = g₂.gray := by
    obtain ⟨marked, rfl⟩ := same
    rfl
  have later : ∀ r, g₂.iswhite r = false → g'.iswhite r = false := fun r nonwhite => by
    by_cases here : r = o
    · rw [here]; exact shaded.nonwhite
    · rw [iswhite_eq, others r here, ← iswhite_eq, nonwhite]
  obtain ⟨pushed, eq, nodup, each⟩ := middle.gray
  have objects : g₁.objects = g.objects := by rw [start]; rfl
  have refs : g₁.refs = g.refs := by rw [start]; rfl
  have heap : g₁.heap = g.heap := by rw [start]; rfl
  refine ⟨?_, ⟨pushed, ?_, nodup, fun o' mem => ?_⟩, fun o' => ?_⟩
  · obtain ⟨marked, gray, rfl⟩ := middle.same
    obtain ⟨marked', rfl⟩ := same
    exact ⟨marked', gray, by rw [start]; rfl⟩
  · rw [listed, eq, start]
    rfl
  · obtain ⟨white, isGray, traversable, object⟩ := each o' mem
    have ne : o' ≠ o := fun here => untraversed (here ▸ traversable)
    refine ⟨?_, ?_, traversable, objects ▸ object⟩
    · rw [iswhite_eq, ← before o' ne, ← iswhite_eq, white]
    · rw [isgray, isblack_eq, iswhite_eq, others o' ne, ← isblack_eq, ← iswhite_eq]
      exact isGray
  · by_cases here : o' = o
    · exact .inr (here ▸ shaded)
    · cases middle.marks o' with
      | inl unchanged => exact .inl (by rw [others o' here, unchanged, before o' here])
      | inr inner =>
        have black : g'.isblack o' = g₂.isblack o' := by rw [isblack_eq, others o' here, ← isblack_eq]
        refine .inr ⟨objects ▸ inner.object, ?_, later o' inner.nonwhite, ?_, ?_, fun isBlack => ?_, fun isGray => ?_⟩
        · rw [iswhite_eq, ← before o' here, ← iswhite_eq, inner.white]
        · rw [others o' here, inner.flags, before o' here]
        · rw [others o' here, ← before o' here]
          exact inner.coloured
        · rw [black] at isBlack
          obtain ⟨kind, reached⟩ := inner.black isBlack
          rw [refs] at reached
          exact ⟨by simpa only [Owned, heap] using kind, fun r ref => later r (reached r ref)⟩
        · rw [black] at isGray
          cases inner.gray isGray with
          | inl inList => exact .inl ⟨inList.1, listed ▸ inList.2⟩
          | inr other =>
            cases other with
            | inl string => exact .inr (.inl string)
            | inr upval =>
              obtain ⟨uv, isUpval, unowned, reached⟩ := upval
              rw [refs] at reached
              exact .inr (.inr ⟨uv, isUpval, by simpa only [Owned, heap] using unowned,
                fun r ref => later r (reached r ref)⟩)

theorem markmetatable_shades (mt : Option Nat) (objects : ∀ h ∈ mt, .table h ∈ g.objects)
    (coloured : ∀ o ∈ g.objects, Coloured (g.marked o)) :
    Shades g (g.markmetatable mt) ∧ ∀ h ∈ mt, (g.markmetatable mt).iswhite (.table h) = false := by
  cases mt with
  | none => exact ⟨.refl g, by simp⟩
  | some h =>
    have object := objects h rfl
    obtain ⟨shades, nonwhite⟩ := marktable_shades object (coloured _ object)
    refine ⟨shades, fun h' same => ?_⟩
    rw [Option.mem_some_iff] at same
    exact same ▸ nonwhite

theorem Shades.coloured (shades : Shades g g') (coloured : ∀ o ∈ g.objects, Coloured (g.marked o)) :
    ∀ o ∈ g'.objects, Coloured (g'.marked o) := by
  intro o object
  rw [shades.objects] at object
  cases shades.marks o with
  | inl same => rw [same]; exact coloured o object
  | inr shaded => exact shaded.coloured (coloured o object)

-- the colours that udata get
theorem blackened_marked (g : GlobalState) (o : GCObject) :
    (g.white2gray o).gray2black o = g.setMark o ((g.marked o &&& ~~~whitebits) ||| blackbit) := by
  unfold gray2black white2gray setMark
  simp only [if_true]
  congr 1
  funext o'
  split <;> rfl

theorem reallymarkudata_shades {u : Nat} (object : .userdata u ∈ g.objects) (white : g.iswhite (.userdata u) = true)
    (referring : Referring g) (coloured : ∀ o ∈ g.objects, Coloured (g.marked o)) :
    Shades g (g.reallymarkvalue (.userdata u)) ∧ (g.reallymarkvalue (.userdata u)).iswhite (.userdata u) = false := by
  have cleared : ∀ m : BitVec 8, whiteMark (m &&& ~~~whitebits) = false := by decide
  have nonwhite : ∀ m : BitVec 8, whiteMark ((m &&& ~~~whitebits) ||| blackbit) = false := by decide
  have black : ∀ m : BitVec 8, blackMark ((m &&& ~~~whitebits) ||| blackbit) = true := by decide
  have flags : ∀ m : BitVec 8, ((m &&& ~~~whitebits) ||| blackbit) &&& flagbits =
      m &&& flagbits := by decide
  simp only [reallymarkvalue, blackened_marked]
  generalize start : g.setMark (.userdata u) ((g.marked (.userdata u) &&& ~~~whitebits) ||| blackbit) = g₁
  have heap : g₁.heap = g.heap := by rw [← start]; rfl
  have objects : g₁.objects = g.objects := by rw [← start]; rfl
  have isNonwhite : g₁.iswhite (.userdata u) = false := by rw [← start, setMark_iswhite, if_pos rfl, nonwhite]
  have coloured₁ : ∀ o ∈ g₁.objects, Coloured (g₁.marked o) := by
    intro o mem
    rw [objects] at mem
    rw [← start]
    exact (coloured o mem).setMark
      ((coloured _ object).white2gray.gray2black (cleared _))
  have refs := referring _ object
  simp only [GlobalState.refs, List.mem_append, Option.mem_toList, Option.map_eq_some_iff, List.mem_singleton] at refs
  obtain ⟨shades, marked⟩ := markmetatable_shades (g := g₁) (g.heap.udata u).metatable
    (fun h isMt => objects ▸ refs _ (.inl ⟨h, isMt, rfl⟩)) coloured₁
  have env : .table (g.heap.udata u).env ∈ (g₁.markmetatable (g.heap.udata u).metatable).objects := by
    rw [shades.objects, objects]
    exact refs _ (.inr rfl)
  obtain ⟨shades', marked'⟩ := marktable_shades env (shades.coloured coloured₁ _ env)
  have both := shades.trans shades'
  have kept := both.unchanged isNonwhite
  have set' : g₁.marked (.userdata u) = (g.marked (.userdata u) &&& ~~~whitebits) ||| blackbit := by
    rw [← start, setMark_marked, if_pos rfl]
  refine ⟨?_, both.nonwhite isNonwhite⟩
  refine shades_around start.symm (nonwhite _) both ⟨_, rfl⟩ (fun _ _ => rfl) id
    ⟨object, white, both.nonwhite isNonwhite, by rw [kept, set', flags], fun good => ?_, fun _ => ⟨.inl ⟨u, rfl⟩, ?_⟩,
      fun isGray => ?_⟩
  · rw [kept]
    exact coloured₁ _ (objects ▸ object)
  · intro r ref
    simp only [GlobalState.refs, List.mem_append, Option.mem_toList, Option.map_eq_some_iff, List.mem_singleton] at ref
    cases ref with
    | inl isMt =>
      obtain ⟨h, isMt, rfl⟩ := isMt
      exact shades'.nonwhite (marked h isMt)
    | inr isEnv => rw [isEnv]; exact marked'
  · rw [isblack_eq, kept, set', black] at isGray
    cases isGray

/-- What marking needs of a state. -/
structure Markable (g : GlobalState) : Prop where
  referring : Referring g
  coloured : ∀ o ∈ g.objects, Coloured (g.marked o)

theorem Shades.markable (shades : Shades g g') (markable : Markable g) : Markable g' :=
  ⟨shades.referring markable.referring, shades.coloured markable.coloured⟩

theorem reallymarkvalue_shades (markable : Markable g) (object : o ∈ g.objects) (white : g.iswhite o = true)
    (value : isUpval o = false) :
    Shades g (g.reallymarkvalue o) ∧ (g.reallymarkvalue o).iswhite o = false := by
  have coloured := markable.coloured o object
  cases o with
  | string ts => exact stringmark_shades object coloured
  | userdata u => exact reallymarkudata_shades object white markable.referring markable.coloured
  | upval uv => cases value
  | table h => exact pushgray_shades object white trivial coloured
  | function cl => exact pushgray_shades object white trivial coloured
  | thread th => exact pushgray_shades object white trivial coloured
  | proto f => exact pushgray_shades object white trivial coloured

-- no value is an upvalue
theorem gcvalue_isUpval {v : TValue} (isValue : gcvalue v = some o) : isUpval o = false := by
  cases v <;> simp [gcvalue] at isValue <;> subst isValue <;> rfl

theorem markvalue_shades {v : TValue} (markable : Markable g) (objects : ∀ o ∈ gcvalue v, o ∈ g.objects) :
    Shades g (g.markvalue v) ∧ ∀ o ∈ gcvalue v, (g.markvalue v).iswhite o = false := by
  unfold markvalue
  cases isValue : gcvalue v with
  | none => exact ⟨.refl g, by simp⟩
  | some o =>
    simp only [Option.mem_some_iff, forall_eq']
    cases white : g.iswhite o with
    | false => exact ⟨.refl g, white⟩
    | true => exact reallymarkvalue_shades markable (objects o isValue) white (gcvalue_isUpval isValue)

theorem reallymarkupval_shades {uv : Nat} (markable : Markable g) (object : .upval uv ∈ g.objects)
    (white : g.iswhite (.upval uv) = true) : Shades g (g.reallymarkobject (.upval uv)) ∧
      (g.reallymarkobject (.upval uv)).iswhite (.upval uv) = false := by
  have nonwhite : ∀ m : BitVec 8, whiteMark (m &&& ~~~whitebits) = false := by decide
  have refs := markable.referring _ object
  simp only [GlobalState.refs, Option.mem_toList] at refs
  have coloured := markable.coloured _ object
  simp only [reallymarkobject]
  generalize start : g.white2gray (.upval uv) = g₁
  have isNonwhite : g₁.iswhite (.upval uv) = false := by rw [← start]; exact white2gray_self
  have notBlack : g₁.isblack (.upval uv) = false := by
    rw [← start, white2gray_isblack]
    exact coloured.isblack white
  have objects : g₁.objects = g.objects := by rw [← start]; rfl
  have markable₁ : Markable g₁ := by
    refine ⟨by rw [← start]; exact markable.referring, fun o mem => ?_⟩
    rw [objects] at mem
    rw [← start]
    exact (markable.coloured o mem).setMark coloured.white2gray
  have flags₁ : g₁.marked (.upval uv) &&& flagbits =
      g.marked (.upval uv) &&& flagbits := by rw [← start]; exact white2gray_kept
  have coloured₁ := markable₁.coloured _ (objects ▸ object)
  obtain ⟨shades, marked⟩ := markvalue_shades markable₁ (v := g.deref uv) (fun o isValue => objects ▸ refs o isValue)
  have kept := shades.unchanged isNonwhite
  by_cases owned : (g.heap.upvals uv).v = .own
  · rw [if_pos owned]
    have nonwhite' : ((g₁.markvalue (g.deref uv)).gray2black (.upval uv)).iswhite (.upval uv) = false := by
      rw [gray2black_iswhite]
      exact shades.nonwhite isNonwhite
    have flags : ∀ m : BitVec 8, (m ||| blackbit) &&& flagbits = m &&& flagbits := by
      decide
    refine ⟨?_, nonwhite'⟩
    refine shades_around start.symm (nonwhite _) shades ⟨_, rfl⟩ (fun o' ne => setMark_other ne) id
      ⟨object, white, nonwhite', ?_, fun _ => ?_, fun _ => ⟨.inr ⟨uv, rfl, owned⟩, fun r ref => ?_⟩, fun isGray => ?_⟩
    · rw [gray2black, setMark_self, flags, kept, flags₁]
    · rw [gray2black, setMark_self, kept]
      exact coloured₁.gray2black isNonwhite
    · rw [gray2black_iswhite]
      exact marked r (Option.mem_toList.mp ref)
    · simp [gray2black_isblack] at isGray
  · rw [if_neg owned]
    refine ⟨?_, shades.nonwhite isNonwhite⟩
    refine shades_around start.symm (nonwhite _) shades ⟨_, rfl⟩ (fun _ _ => rfl) id
      ⟨object, white, shades.nonwhite isNonwhite, ?_, fun _ => ?_, fun isBlack => ?_,
        fun _ => .inr (.inr ⟨uv, rfl, owned, fun r ref => ?_⟩)⟩
    · rw [kept, flags₁]
    · rw [kept]
      exact coloured₁
    · rw [isblack_eq, kept, ← isblack_eq, notBlack] at isBlack
      cases isBlack
    · exact marked r (Option.mem_toList.mp ref)

theorem reallymarkobject_shades (markable : Markable g) (object : o ∈ g.objects) (white : g.iswhite o = true) :
    Shades g (g.reallymarkobject o) ∧ (g.reallymarkobject o).iswhite o = false := by
  cases o with
  | upval uv => exact reallymarkupval_shades markable object white
  | string ts => exact reallymarkvalue_shades markable object white rfl
  | userdata u => exact reallymarkvalue_shades markable object white rfl
  | table h => exact reallymarkvalue_shades markable object white rfl
  | function cl => exact reallymarkvalue_shades markable object white rfl
  | thread th => exact reallymarkvalue_shades markable object white rfl
  | proto f => exact reallymarkvalue_shades markable object white rfl

theorem markobject_shades (markable : Markable g) (object : o ∈ g.objects) :
    Shades g (g.markobject o) ∧ (g.markobject o).iswhite o = false := by
  unfold markobject
  cases white : g.iswhite o with
  | false => exact ⟨.refl g, white⟩
  | true => exact reallymarkobject_shades markable object white

/-- A loop that shades, with what each round makes of its object. -/
theorem foldl_shades {β : Type} {f : GlobalState → β → GlobalState} {l : List β} (targets : β → List GCObject)
    (each : ∀ g' x, x ∈ l → Shades g g' → Shades g' (f g' x) ∧ ∀ o ∈ targets x, (f g' x).iswhite o = false) :
    Shades g (l.foldl f g) ∧ ∀ x ∈ l, ∀ o ∈ targets x, (l.foldl f g).iswhite o = false := by
  induction l generalizing g with
  | nil => exact ⟨.refl g, by simp⟩
  | cons x l ih =>
    obtain ⟨first, marked⟩ := each g x (List.mem_cons_self ..) (.refl g)
    obtain ⟨rest, all⟩ := ih (g := f g x) fun g' y mem shades =>
      each g' y (List.mem_cons_of_mem _ mem) (first.trans shades)
    refine ⟨first.trans rest, fun y mem o target => ?_⟩
    cases List.mem_cons.mp mem with
    | inl here => exact rest.nonwhite (marked o (here ▸ target))
    | inr there => exact all y there o target

theorem markvalues_shades (vs : List TValue) (markable : Markable g)
    (objects : ∀ v ∈ vs, ∀ o ∈ gcvalue v, o ∈ g.objects) :
    Shades g (vs.foldl markvalue g) ∧ ∀ v ∈ vs, ∀ o ∈ gcvalue v, (vs.foldl markvalue g).iswhite o = false := by
  have all := foldl_shades (g := g) (f := markvalue) (l := vs) (fun v => (gcvalue v).toList)
    fun g' v mem shades => by
      obtain ⟨step, marked⟩ := markvalue_shades (v := v) (shades.markable markable)
        fun o isValue => shades.objects ▸ objects v mem o isValue
      exact ⟨step, fun o isValue => marked o (Option.mem_toList.mp isValue)⟩
  exact ⟨all.1, fun v mem o isValue => all.2 v mem o (Option.mem_toList.mpr isValue)⟩

end Functions

end Lunatik.Verified.Tricolor
