import Lunatik.Verified.Interning
import Lunatik.Verified.SweepPhase

/-! # The steps of the collector

`singlestep` keeps the invariant in every phase, and so do the steps of a full collection.
-/

namespace Lunatik.Verified.CollectorSteps

open Lunatik.Library
open Lunatik.Lua (GCState setAt setAt_same setAt_other)
open Lunatik.Lua.Gc Lunatik.Lua.Gc.GlobalState
open Lunatik.Lua.StringTable (whitebits blackbit fixedbit lmod minstrtabsize)
open Lunatik.Verified.Colours Lunatik.Verified.References Lunatik.Verified.Tricolor Lunatik.Verified.Propagation
open Lunatik.Verified.AtomicPhase Lunatik.Verified.CollectorInvariant Lunatik.Verified.UpvalueSteps
open Lunatik.Verified.SweepPhase

variable {pending more : GCObject → Prop} {g g' : GlobalState} {o : GCObject} {th uv : Nat}

/-! ## The string table -/

-- the chain that the sweep is at
theorem chain_split {hash : List (List Nat)} {k : Nat} (inside : k < hash.length) :
    ∃ before rest, hash = before ++ hash.getD k [] :: rest ∧ before.length = k := by
  refine ⟨hash.take k, hash.drop (k + 1), ?_, by simp; omega⟩
  rw [List.getD_eq_getElem _ _ inside, ← List.drop_eq_getElem_cons inside, List.take_append_drop]

-- the chain and its marks after sweepwholelist
theorem sweepchain_eq {l : List Nat} (nodup : l.Nodup) :
    sweepwholelist .string g l = (l.filter fun ts => !g.condemned (.string ts),
      { g with marked := whiten g ((l.filter fun ts => !g.condemned (.string ts)).map .string) }) := by
  have unlinked : ∀ dead : List Nat, dead.foldl (fun uvhead _ => uvhead) g.uvhead = g.uvhead := fun dead => by
    induction dead with
    | nil => rfl
    | cons ts dead ih => exact ih
  have swept := sweepwholelist_eq (g := g) (l := l) (fun uvhead _ => uvhead)
    (fun _ _ => GCObject.string.inj) (fun g' _ ts _ => rfl) nodup
  rw [swept, unlinked]

/-- What a chain loses. -/
structure ChainSwept (g : GlobalState) (hash' : List (List Nat)) : Prop where
  sub : hash'.flatten.Sublist g.hash.flatten
  freed : ∀ ts ∈ g.hash.flatten, ts ∉ hash'.flatten → g.condemned (.string ts) = true
  chain : ∀ ts ∈ hash'.flatten, ts ∈ g.hash.getD g.sweepstrgc [] → g.condemned (.string ts) = false
  behind : ∀ ts ∈ (g.hash.drop g.sweepstrgc).flatten,
    ts ∈ g.hash.getD g.sweepstrgc [] ∨ ts ∈ (hash'.drop (g.sweepstrgc + 1)).flatten

theorem chainSwept (nodup : g.hash.flatten.Nodup) : ChainSwept g
    (g.hash.set g.sweepstrgc ((g.hash.getD g.sweepstrgc []).filter fun ts => !g.condemned (.string ts))) := by
  by_cases inside : g.sweepstrgc < g.hash.length
  · obtain ⟨before, rest, split, place⟩ := chain_split inside
    generalize isChain : g.hash.getD g.sweepstrgc [] = chain at split ⊢
    have sets : ∀ kept, g.hash.set g.sweepstrgc kept = before ++ kept :: rest := fun kept => by
      rw [split, ← place]
      simp
    have drops : ∀ kept, (before ++ kept :: rest).drop (g.sweepstrgc + 1) = rest := fun kept => by
      rw [← place]
      simp
    rw [split] at nodup
    simp only [List.flatten_append, List.flatten_cons] at nodup
    rw [sets]
    refine ⟨?_, fun ts mem gone => ?_, fun ts mem inChain => ?_, fun ts mem => ?_⟩
    · rw [split]
      simp only [List.flatten_append, List.flatten_cons]
      exact (List.Sublist.refl _).append (List.filter_sublist.append (List.Sublist.refl _))
    · rw [split] at mem
      simp only [List.flatten_append, List.flatten_cons, List.mem_append, List.mem_filter, Bool.not_eq_true',
        not_or, not_and, Bool.not_eq_false] at mem gone
      rcases mem with inBefore | inChain | inRest
      · exact absurd inBefore gone.1
      · exact gone.2.1 inChain
      · exact absurd inRest gone.2.2
    · rw [isChain] at inChain
      simp only [List.flatten_append, List.flatten_cons, List.mem_append, List.mem_filter, Bool.not_eq_true'] at mem
      rw [List.nodup_append, List.nodup_append] at nodup
      rcases mem with inBefore | isKept | inRest
      · exact absurd rfl (nodup.2.2 ts inBefore ts (List.mem_append_left _ inChain))
      · exact isKept.2
      · exact absurd rfl (nodup.2.1.2.2 ts inChain ts inRest)
    · rw [drops, isChain]
      rw [split, ← place, List.drop_left, List.flatten_cons] at mem
      exact List.mem_append.mp mem
  · have outside : g.hash.length ≤ g.sweepstrgc := by omega
    have empty : g.hash.getD g.sweepstrgc [] = [] := by simp [List.getD, List.getElem?_eq_none outside]
    rw [empty, List.set_eq_of_length_le outside]
    refine ⟨List.Sublist.refl _, fun ts mem gone => absurd mem gone, fun ts _ none => ?_, fun ts mem => ?_⟩
    · rw [empty] at none
      cases none
    · rw [List.drop_eq_nil_of_le outside] at mem
      cases mem

theorem chain_nodup (shape : Shape g) : g.hash.flatten.Nodup ∧ (g.hash.getD g.sweepstrgc []).Nodup := by
  have strings : g.hash.flatten.Nodup := by
    have nodup := shape.nodup
    unfold objects at nodup
    exact nodup.of_append_right.of_map _
  refine ⟨strings, ?_⟩
  by_cases inside : g.sweepstrgc < g.hash.length
  · obtain ⟨before, rest, split, -⟩ := chain_split inside
    rw [split] at strings
    simp only [List.flatten_append, List.flatten_cons] at strings
    exact strings.of_append_right.of_append_left
  · simp [List.getD, List.getElem?_eq_none (Nat.le_of_not_lt inside)]

/-- A chain of the string table is swept. -/
theorem sweepchain_sweeps {kept : List Nat} (gcstate : GCState) (shape : Shape g)
    (isKept : ((g.hash.getD g.sweepstrgc []).filter fun ts => !g.condemned (.string ts)) = kept) : Sweeps g { g with
      marked := whiten g (kept.map .string), hash := g.hash.set g.sweepstrgc kept, sweepstrgc := g.sweepstrgc + 1
      gcstate } := by
  have swept := chainSwept (chain_nodup shape).1
  rw [isKept] at swept
  have spared : ∀ o ∈ kept.map GCObject.string, g.condemned o = false := fun o mem => by
    obtain ⟨ts, mem', rfl⟩ := List.mem_map.mp mem
    rw [← isKept] at mem'
    simpa using (List.mem_filter.mp mem').2
  have sub : ∀ hash' : List (List Nat), hash'.flatten.Sublist g.hash.flatten →
      (g.rootgc ++ g.rootgc.flatMap g.openOf ++ g.tmudata.map GCObject.userdata ++ hash'.flatten.map GCObject.string).Sublist g.objects :=
    fun hash' sub => (List.Sublist.refl _).append (sub.map _)
  exact
    { rest := ⟨_, _, _, _, _, _, _, _, rfl⟩
      nodup := shape.nodup.sublist (sub _ swept.sub)
      objects := fun o object => (sub _ swept.sub).subset object
      freed := fun o object gone => by
        rcases mem_objects.mp object with root | opened | waiting | ⟨ts, mem, rfl⟩
        · exact (gone (mem_objects.mpr (.inl root))).elim
        · exact (gone (mem_objects.mpr (.inr (.inl opened)))).elim
        · exact (gone (mem_objects.mpr (.inr (.inr (.inl waiting))))).elim
        · exact swept.freed ts mem fun mem' => gone (mem_objects.mpr (.inr (.inr (.inr ⟨ts, mem', rfl⟩))))
      rootgc := fun _ => id
      main := shape.main
      opened := fun _ _ => id
      uvhead := shape.uvhead
      distinct := shape.distinct
      marks := whiten_marks spared }

theorem sweepchain_invariant {kept : List Nat} (inv : Invariant pending g) (state : g.gcstate = .sweepstring)
    (isKept : ((g.hash.getD g.sweepstrgc []).filter fun ts => !g.condemned (.string ts)) = kept) {gcstate : GCState}
    (next : gcstate = .sweepstring ∨ (gcstate = .sweep ∧ g.hash.length ≤ g.sweepstrgc + 1)) : Invariant more { g with
      marked := whiten g (kept.map .string), hash := g.hash.set g.sweepstrgc kept, sweepstrgc := g.sweepstrgc + 1
      gcstate } := by
  have swept := chainSwept (chain_nodup inv.shape).1
  rw [isKept] at swept
  have sweeps := sweepchain_sweeps gcstate inv.shape isKept
  have idle : g.gcstate ≠ .propagate := by rw [state]; decide
  refine sweeps.invariant inv idle ?_ ?_ (fun _ => inv.sweepstring state) inv.sweepgc fun o object unswept => ?_
  · rcases next with rfl | ⟨rfl, -⟩ <;> simp
  · simpa using inv.table
  · rcases unswept with ⟨-, ts, mem, rfl⟩ | ⟨-, behind⟩
    · by_cases inChain : ts ∈ g.hash.getD g.sweepstrgc []
      · -- it has been spared
        have inHash : ts ∈ (g.hash.set g.sweepstrgc kept).flatten := by
          rcases mem_objects.mp object with root | ⟨th, uv, -, -, same⟩ | ⟨u, -, same⟩ | ⟨ts', mem', same⟩
          · -- no string is on the list of the other objects
            have inTable : ts ∈ g.hash.flatten := by
              obtain ⟨chain', inside, mem'⟩ := List.mem_flatten.mp mem
              exact List.mem_flatten.mpr ⟨chain', List.mem_of_mem_drop inside, mem'⟩
            have apart := (List.nodup_append.mp inv.shape.nodup).2.2 (.string ts)
              (List.mem_append_left _ (List.mem_append_left _ root)) _ (List.mem_map_of_mem inTable)
            exact (apart rfl).elim
          · cases same
          · cases same
          · cases same
            exact mem'
        refine .inl (sweeps.fresh inv.shape.white ?_)
        show whiten g _ (.string ts) = _
        unfold whiten
        rw [if_pos]
        refine List.mem_map_of_mem ?_
        rw [← isKept]
        exact List.mem_filter.mpr ⟨inChain, by simp [swept.chain ts inHash inChain]⟩
      · rcases next with rfl | ⟨rfl, last⟩
        · exact .inr (.inl ⟨rfl, ts, (swept.behind ts mem).resolve_left inChain, rfl⟩)
        · have more := (swept.behind ts mem).resolve_left inChain
          rw [List.drop_eq_nil_of_le (by simpa using last)] at more
          cases more
    · refine .inr (.inr ⟨?_, behind⟩)
      rcases next with rfl | ⟨rfl, -⟩ <;> simp

theorem lmod_lt_size (h : BitVec 32) {size : Nat} (some : 0 < size) : lmod h size < size := by
  have le : h.toNat &&& (size - 1) ≤ size - 1 := Nat.and_le_right
  unfold lmod
  omega

theorem relink_chain {newsize : Nat} (newhash : List (List Nat)) (some : 0 < newsize)
    (length : newhash.length = newsize) (chain : List Nat) :
    (chain.foldl (g.relink newsize) newhash).length = newsize ∧
    (chain.foldl (g.relink newsize) newhash).flatten.Perm (chain ++ newhash.flatten) := by
  induction chain generalizing newhash with
  | nil => exact ⟨length, .refl _⟩
  | cons ts chain ih =>
    have inside : lmod (g.heap.strings ts).hash newsize < newhash.length := by
      rw [length]
      exact lmod_lt_size _ some
    have first : (g.relink newsize newhash ts).flatten.Perm (ts :: newhash.flatten) := flatten_modify_cons ts inside
    obtain ⟨length', perm⟩ := ih (g.relink newsize newhash ts) (by simp [relink, length])
    refine ⟨length', perm.trans ((first.append_left chain).trans ?_)⟩
    exact List.perm_middle

/-- `luaS_resize` moves the strings, and loses none. -/
theorem luaSResize_perm (newsize : Nat) (some : 0 < newsize) : ∃ newhash, g.luaSResize newsize = { g with hash := newhash } ∧
    newhash.flatten.Perm g.hash.flatten ∧ (g.hash ≠ [] → newhash ≠ []) ∧ (g.gcstate = .sweepstring → newhash = g.hash) := by
  unfold luaSResize
  by_cases sweeping : g.gcstate = .sweepstring
  · rw [if_pos sweeping]
    exact ⟨g.hash, rfl, .refl _, id, fun _ => rfl⟩
  · rw [if_neg sweeping]
    obtain ⟨length, perm⟩ := relink_chain (g := g) (List.replicate newsize []) some List.length_replicate g.hash.flatten
    rw [List.flatten_replicate_nil, List.append_nil] at perm
    simp only [← List.foldl_flatten]
    refine ⟨_, rfl, perm, fun _ empty => ?_, fun state => absurd state sweeping⟩
    rw [empty] at length
    simp at length
    omega

theorem rehash_objects {newhash : List (List Nat)} (perm : newhash.flatten.Perm g.hash.flatten) :
    { g with hash := newhash }.objects.Perm g.objects := (perm.map _).append_left _

theorem rehash_invariant {newhash : List (List Nat)} (inv : Invariant pending g) (perm : newhash.flatten.Perm g.hash.flatten)
    (table : newhash ≠ []) (moved : g.gcstate = .sweepstring → newhash = g.hash) : Invariant pending { g with hash := newhash } := by
  have objects := rehash_objects perm
  have mem : ∀ o, o ∈ { g with hash := newhash }.objects ↔ o ∈ g.objects := fun o => objects.mem_iff
  have shape := inv.shape
  refine ⟨⟨shape.white, objects.nodup_iff.mpr shape.nodup, shape.main, shape.closed, shape.opened, shape.uvhead,
    shape.distinct, fun o object => shape.coloured o ((mem o).mp object), fun o object => shape.fixed o ((mem o).mp object),
    fun th object => shape.thread th ((mem _).mp object), shape.upval⟩, ⟨fun o root => ?_, fun o alive r ref => ?_⟩, table,
    fun marks => ?_, fun idle o object => ?_, inv.sweepstring, inv.sweepgc, fun marks =>
    (inv.keyed marks).later mem (fun _ _ => id) (fun _ _ isBlack free => ⟨isBlack, free⟩) fun _ n mem' _ isKey => ⟨n, mem', isKey⟩⟩
  · have alive := inv.sound.roots o root
    exact ⟨(mem o).mpr alive.1, alive.2⟩
  · have later := inv.sound.refs o ⟨(mem o).mp alive.1, alive.2⟩ r ref
    exact ⟨(mem r).mpr later.1, later.2⟩
  · have marking := inv.marking marks
    exact ⟨fun o object => marking.alive o ((mem o).mp object), fun o object => marking.black o ((mem o).mp object),
      fun o object => marking.gray o ((mem o).mp object), fun o listed => by
        obtain ⟨object, rest⟩ := marking.listed o listed
        exact ⟨(mem o).mpr object, rest⟩, marking.distinct, marking.weak, marking.main, marking.registry⟩
  · refine (inv.swept idle o ((mem o).mp object)).imp id (.imp (fun unswept => ?_) id)
    refine unswept.imp (fun strings => ?_) id
    obtain ⟨state, ts, inside, same⟩ := strings
    refine ⟨state, ts, ?_, same⟩
    have kept : newhash = g.hash := moved state
    show ts ∈ (newhash.drop g.sweepstrgc).flatten
    rw [kept]
    exact inside

theorem resize_invariant {newsize : Nat} (inv : Invariant pending g) (some : 0 < newsize) :
    Invariant pending (g.luaSResize newsize) := by
  obtain ⟨newhash, same, perm, table, moved⟩ := luaSResize_perm (g := g) newsize some
  rw [same]
  exact rehash_invariant inv perm (table inv.table) moved

theorem checkSizes_invariant (inv : Invariant pending g) : Invariant pending g.checkSizes := by
  unfold checkSizes
  split
  next shrinks =>
    have positive : 0 < minstrtabsize := by decide
    exact resize_invariant inv (by omega)
  next => exact inv

/-! ## The start of the mark phase -/

-- nothing has been marked, but for the udata that wait
def Unmarked (g : GlobalState) (o : GCObject) : Prop :=
  Fresh g o ∨ (waits g o ∧ g.isdead o = false ∧ g.isgray o = false)

theorem Unmarked.alive (unmarked : Unmarked g o) : g.isdead o = false :=
  unmarked.elim And.right fun waiting => waiting.2.1

theorem marking_of_unmarked (white : White g) (coloured : ∀ o ∈ g.objects, Coloured (g.marked o))
    (unmarked : ∀ o ∈ g.objects, Unmarked g o) (gray : g.gray = []) (grayagain : g.grayagain = []) (weak : g.weak = [])
    (shades : Shades g g') (main : g'.iswhite (.thread g'.mainthread) = false)
    (registry : ∀ o ∈ gcvalue g'.registry, g'.iswhite o = false) : Marking (waits g) g' := by
  obtain ⟨pushed, eq, nodup, each⟩ := shades.gray
  have lists : g'.gray ++ g'.grayagain ++ g'.weak = pushed := by
    rw [eq, shades_grayagain shades, shades_weak shades, gray, grayagain, weak]
    simp
  refine ⟨fun o object => ?_, fun o object isBlack free r ref => ?_, fun o object isGray => ?_, fun o mem => ?_, ?_,
    fun o mem => ?_, main, registry⟩
  · rw [shades.objects] at object
    exact shades.alive white (unmarked o object).alive
  · rw [shades.objects] at object
    cases shades.marks o with
    | inl same =>
      rw [isblack_eq, same, ← isblack_eq] at isBlack
      cases unmarked o object with
      | inl fresh =>
        rw [(coloured o object).isblack fresh.1] at isBlack
        cases isBlack
      | inr waiting => exact absurd waiting.1 free
    | inr shaded =>
      rw [shades.refs] at ref
      exact (shaded.black isBlack).2 r ref
  · rw [shades.objects] at object
    unfold Listed
    rw [lists]
    cases shades.marks o with
    | inl same =>
      rw [isgray, isblack_eq, iswhite_eq, same, ← isblack_eq, ← iswhite_eq] at isGray
      change g.isgray o = true at isGray
      cases unmarked o object with
      | inl fresh =>
        have nonwhite := (isgray_iff.mp isGray).2
        rw [fresh.1] at nonwhite
        cases nonwhite
      | inr waiting =>
        rw [waiting.2.2] at isGray
        cases isGray
    | inr shaded =>
      rcases shaded.gray (isgray_iff.mp isGray).1 with listed | string | ⟨uv, isUpval, unowned, -⟩
      · rw [eq, gray, List.append_nil] at listed
        exact .inl listed.2
      · exact .inr (.inl string)
      · exact .inr (.inr ⟨uv, isUpval, fun owned => unowned ((shades_owned shades).mp owned)⟩)
  · rw [lists] at mem
    obtain ⟨-, isGray, traversable, object⟩ := each o mem
    refine ⟨shades.objects ▸ object, (isgray_iff.mp isGray).2, traversable, fun isBlack => ?_⟩
    rw [(isgray_iff.mp isGray).1] at isBlack
    cases isBlack
  · rw [lists]
    exact nodup
  · rw [shades_weak shades, weak] at mem
    cases mem

theorem Invariant.unmarked (inv : Invariant pending g) (state : g.gcstate = .pause ∨ g.gcstate = .finalize) :
    ∀ o ∈ g.objects, Unmarked g o := by
  intro o object
  have idle : g.gcstate ≠ .propagate := by
    intro marks
    rcases state with state | state <;> rw [state] at marks <;> cases marks
  rcases inv.swept idle o object with fresh | unswept | waiting
  · exact .inl fresh
  · rcases unswept with ⟨strings, -⟩ | ⟨strings | sweep, -⟩
    · rcases state with state | state <;> rw [state] at strings <;> cases strings
    · rcases state with state | state <;> rw [state] at strings <;> cases strings
    · rcases state with state | state <;> rw [state] at sweep <;> cases sweep
  · exact .inr waiting

/-- `markroot` starts a mark phase. -/
theorem markroot_invariant (inv : Invariant pending g) (state : g.gcstate = .pause ∨ g.gcstate = .finalize) :
    Invariant (waits g.markroot) g.markroot := by
  have shape := inv.shape
  have unmarked := Invariant.unmarked inv state
  have alive : ∀ o ∈ g.objects, Alive g o := fun o object =>
    ⟨object, (unmarked o object).alive⟩
  have referring : Referring g := fun o object r ref => (inv.sound.refs o (alive o object) r ref).1
  have objects : ∀ o ∈ g.roots, o ∈ g.objects := fun o root => (inv.sound.roots o root).1
  -- the lists are emptied
  generalize isFirst : { g with gray := [], grayagain := [], weak := [] } = g₀
  have markable₀ : Markable g₀ := by rw [← isFirst]; exact ⟨referring, shape.coloured⟩
  have roots₀ : ∀ o ∈ g₀.roots, o ∈ g₀.objects := by rw [← isFirst]; exact objects
  have mainObject : .thread g₀.mainthread ∈ g₀.objects := roots₀ _ (by simp [roots])
  -- the main thread, its global table, the registry, and the metatables
  obtain ⟨shades₁, main⟩ := markobject_shades markable₀ mainObject
  have markable₁ := shades₁.markable markable₀
  generalize isSecond : g₀.markobject (.thread g₀.mainthread) = g₁ at shades₁ main markable₁
  obtain ⟨shades₂, -⟩ := markvalue_shades (v := (g₁.heap.threads g₁.mainthread).gt) markable₁ fun o isValue => by
    refine markable₁.referring (.thread g₁.mainthread) ?_ o ?_
    · rw [shades₁.objects]
      obtain ⟨marked, gray, same⟩ := shades₁.same
      rw [same]
      exact mainObject
    · simp only [GlobalState.refs, mem_threadRefs]
      exact .inl isValue
  have markable₂ := shades₂.markable markable₁
  have to₂ := shades₁.trans shades₂
  generalize isThird : g₁.markvalue (g₁.heap.threads g₁.mainthread).gt = g₂ at shades₂ markable₂ to₂
  have same₂ : g₂.registry = g₀.registry ∧ g₂.mt = g₀.mt := by
    obtain ⟨marked, gray, same⟩ := to₂.same
    rw [same]
    exact ⟨rfl, rfl⟩
  obtain ⟨shades₃, registry⟩ := markvalue_shades (v := g₂.registry) markable₂ fun o isValue => by
    rw [to₂.objects]
    rw [same₂.1] at isValue
    exact roots₀ o (by simp [roots, Option.mem_def.mp isValue])
  have markable₃ := shades₃.markable markable₂
  have to₃ := to₂.trans shades₃
  generalize isFourth : g₂.markvalue g₂.registry = g₃ at shades₃ registry markable₃ to₃
  obtain ⟨shades₄, -⟩ := markmt_shades markable₃ fun mt mem h isMt => by
    have same : g₃.mt = g₀.mt := by
      obtain ⟨marked, gray, same⟩ := to₃.same
      rw [same]
    rw [to₃.objects]
    rw [same] at mem
    refine roots₀ _ ?_
    simp only [roots, List.mem_append, List.mem_flatMap, Option.mem_toList, Option.map_eq_some_iff]
    exact .inl (.inr ⟨mt, mem, h, isMt, rfl⟩)
  have all := to₃.trans shades₄
  have result : g.markroot = { g₃.markmt with gcstate := .propagate } := by
    rw [← isFourth, ← isThird, ← isSecond, ← isFirst]
    rfl
  rw [result]
  have kept : g₃.markmt.mainthread = g₀.mainthread ∧ g₃.markmt.registry = g₂.registry ∧ waits g₃.markmt = waits g₀ := by
    obtain ⟨marked, gray, same⟩ := all.same
    rw [same]
    exact ⟨rfl, same₂.1.symm, rfl⟩
  have shape₀ : Shape g₀ := by rw [← isFirst]; exact ⟨shape.white, shape.nodup, shape.main, shape.closed, shape.opened,
    shape.uvhead, shape.distinct, shape.coloured, shape.fixed, shape.thread, shape.upval⟩
  have marking := marking_of_unmarked shape₀.white shape₀.coloured (by rw [← isFirst]; exact unmarked)
    (by rw [← isFirst]) (by rw [← isFirst]) (by rw [← isFirst]) all
    (by rw [kept.1]; exact ((shades₂.trans shades₃).trans shades₄).nonwhite main)
    (fun o isValue => shades₄.nonwhite (registry o (kept.2.1 ▸ isValue)))
  have shape₄ := shape_of_frame (frame_of_shades all) shape₀
  have sound₄ := sound_of_marking marking (all.referring markable₀.referring) fun o root => by
    rw [all.objects]
    refine roots₀ o ?_
    obtain ⟨marked, gray, same⟩ := all.same
    rw [same] at root
    exact root
  have last : g₃.markmt.hash = g.hash ∧ g₃.markmt.sweepgc = g.sweepgc ∧ g₃.markmt.rootgc = g.rootgc := by
    obtain ⟨marked, gray, same⟩ := all.same
    rw [same, ← isFirst]
    exact ⟨rfl, rfl, rfl⟩
  rw [← kept.2.2] at marking
  refine ⟨⟨shape₄.white, shape₄.nodup, shape₄.main, shape₄.closed, shape₄.opened, shape₄.uvhead, shape₄.distinct,
    shape₄.coloured, shape₄.fixed, shape₄.thread, shape₄.upval⟩, ⟨sound₄.roots, sound₄.refs⟩, ?_, fun _ => ?_,
    fun idle => absurd rfl idle, (fun strings => by cases strings), ?_, fun _ => ?_⟩
  · show g₃.markmt.hash ≠ []
    rw [last.1]
    exact inv.table
  · exact ⟨marking.alive, marking.black, marking.gray, marking.listed, marking.distinct, marking.weak, marking.main,
      marking.registry⟩
  · show ∀ p ∈ g₃.markmt.sweepgc, p ∈ g₃.markmt.rootgc
    rw [last.2.1, last.2.2]
    exact inv.sweepgc
  · -- no table was black
    have keyed₀ : Keyed (waits g₃.markmt) g₀ := fun h object isBlack free => by
      rw [← isFirst] at object isBlack
      rcases unmarked _ object with fresh | ⟨⟨u, -, same⟩, -⟩
      · have notBlack := (shape.coloured _ object).isblack fresh.1
        change g.isblack (.table h) = true at isBlack
        rw [notBlack] at isBlack
        cases isBlack
      · cases same
    exact (keyed₀.shades all).later (fun _ => Iff.rfl) (fun _ _ => id) (fun _ _ isBlack free => ⟨isBlack, free⟩)
      fun _ n mem _ isKey => ⟨n, mem, isKey⟩

/-! ## The mark phase -/

theorem setTable_self {h : Nat} {t : Table} : (g.setTable h t).heap.tables h = t := setAt_same ..

theorem setTable_other {h h' : Nat} {t : Table} (ne : h' ≠ h) : (g.setTable h t).heap.tables h' = g.heap.tables h' :=
  setAt_other _ _ ne

-- an object gets black that is no table
theorem Keyed.pop {gclist : List GCObject} (keyed : Keyed pending g) (noTable : ∀ h, o ≠ .table h) :
    Keyed pending { g.gray2black o with gray := gclist } := by
  refine keyed.later (fun _ => Iff.rfl) (fun _ _ nonwhite => gray2black_iswhite.trans nonwhite)
    (fun h _ isBlack free => ⟨?_, free⟩) fun _ n mem _ isKey => ⟨n, mem, isKey⟩
  have colours : (g.isblack (.table h) || decide (GCObject.table h = o)) = true := gray2black_isblack.symm.trans isBlack
  simpa [(noTable h).symm] using colours

theorem mem_pruned_key {t : Table} {n : Node} {r : GCObject} (mem : n ∈ (pruned t).node) (isKey : r ∈ gcvalue n.key) :
    ∃ n' ∈ t.node, n'.val ≠ .nil ∧ r ∈ gcvalue n'.key := by
  obtain ⟨n', mem', rfl⟩ := List.mem_map.mp mem
  by_cases empty : n'.val = .nil
  · rw [if_pos empty] at isKey
    unfold removeentry at isKey
    split at isKey
    · cases isKey
    next none =>
      rw [none] at isKey
      cases isKey
  · rw [if_neg empty] at isKey
    exact ⟨n', mem', empty, isKey⟩

theorem keyed_table {h : Nat} {gclist : List GCObject} (white : White g) (markable : Markable g) (marking : Marking pending g)
    (keyed : Keyed pending g) (gray : g.gray = .table h :: gclist) : Keyed pending g.propagatemark := by
  have listed := marking.listed (.table h) (by simp [gray])
  have keyed₀ : Keyed (also pending (.table h)) { g.gray2black (.table h) with gray := gclist } := by
    refine keyed.later (fun _ => Iff.rfl) (fun _ _ nonwhite => gray2black_iswhite.trans nonwhite)
      (fun h' _ isBlack free => ⟨?_, fun isPending => free (.inl isPending)⟩) fun _ n mem _ isKey => ⟨n, mem, isKey⟩
    have colours : (g.isblack (.table h') || decide (GCObject.table h' = .table h)) = true :=
      gray2black_isblack.symm.trans isBlack
    have other : GCObject.table h' ≠ .table h := fun same => free (.inr same)
    simpa [other] using colours
  have popped := popped_of_gray white marking gray (by simp [Unblackened])
  generalize isPopped : { g.gray2black (.table h) with gray := gclist } = g₀ at popped keyed₀
  have object₀ : .table h ∈ g₀.objects := popped.objects ▸ listed.1
  have markable₀ := popped.carried.frame.markable markable
  obtain ⟨weakkey, weakvalue, g₁, g₂, traversed⟩ := traversetable_steps markable₀ object₀
  have result : g.propagatemark = if weakkey || weakvalue then (g₀.traversetable h).2.black2gray (.table h)
      else (g₀.traversetable h).2 := by
    unfold propagatemark
    rw [gray, ← traversed.weak, ← isPopped]
  have linked : Keyed (also pending (.table h)) (linkedWeak g₁ h weakkey weakvalue) := by
    unfold linkedWeak
    split
    · have marked := linkweak_marked (g := g₁) h weakkey weakvalue
      exact (keyed₀.shades traversed.first).later (fun _ => Iff.rfl) (fun r _ nonwhite => (marked r).1.trans nonwhite)
        (fun h' _ isBlack free => ⟨(marked _).2.1.symm.trans isBlack, free⟩) fun _ n mem _ isKey => ⟨n, mem, isKey⟩
    · exact keyed₀.shades traversed.first
  have keyed₂ := linked.shades traversed.second
  have same₂ : g₂.objects = g₀.objects ∧ g₂.heap = g₀.heap := by
    obtain ⟨objects, heap⟩ := linkedWeak_objects (g := g₁) h weakkey weakvalue
    exact ⟨by rw [traversed.second.objects, objects, traversed.first.objects],
      by rw [traversed.second.heap, heap, traversed.first.heap]⟩
  have keyed₃ : Keyed (also pending (.table h)) (g₀.traversetable h).2 := by
    rcases traversed.result with ⟨-, same⟩ | set'
    · rw [same]
      exact keyed₂
    · rw [set']
      refine keyed₂.later (fun _ => Iff.rfl) (fun _ _ => id) (fun _ _ isBlack free => ⟨isBlack, free⟩) fun h' n mem r isKey => ?_
      by_cases here : h' = h
      · rw [here] at mem ⊢
        rw [setTable_self] at mem
        obtain ⟨n', mem', -, isKey'⟩ := mem_pruned_key mem isKey
        exact ⟨n', mem', isKey'⟩
      · rw [setTable_other here] at mem
        exact ⟨n, mem, isKey⟩
  by_cases weak : (weakkey || weakvalue) = true
  · rw [result, if_pos weak]
    refine keyed₃.later (fun _ => Iff.rfl) (fun _ _ nonwhite => black2gray_iswhite.trans nonwhite)
      (fun h' _ isBlack free => ?_) fun _ n mem _ isKey => ⟨n, mem, isKey⟩
    rw [black2gray_isblack] at isBlack
    simp only [Bool.and_eq_true, Bool.not_eq_true', decide_eq_false_iff_not] at isBlack
    exact ⟨isBlack.1, fun isPending => isPending.elim free isBlack.2⟩
  · rw [result, if_neg weak]
    simp only [Bool.or_eq_true, not_or, Bool.not_eq_true] at weak
    intro h' object isBlack free n mem r isKey
    by_cases here : h' = h
    · subst here
      rcases traversed.result with ⟨both, -⟩ | set'
      · rw [weak.1] at both
        cases both
      · rw [set'] at mem object ⊢
        rw [setTable_self, same₂.2] at mem
        obtain ⟨n', mem', used, isKey'⟩ := mem_pruned_key mem isKey
        have ref : r ∈ nodeRefs n' := by simp [nodeRefs, used, Option.mem_def.mp isKey']
        refine ⟨?_, traversed.node weak.1 weak.2 n' mem' r ref⟩
        show r ∈ g₂.objects
        rw [same₂.1]
        refine markable₀.referring _ object₀ r ?_
        exact mem_tableRefs.mpr (.inr (.inr ⟨n', mem', used, .inl isKey'⟩))
    · exact keyed₃ h' object isBlack (fun isPending => isPending.elim free fun same => here (by cases same; rfl)) n mem r isKey

theorem propagatemark_keyed (ready : MarkReady g) (marking : Marking pending g) (keyed : Keyed pending g) (more : g.gray ≠ []) :
    Keyed pending g.propagatemark := by
  obtain ⟨o, gclist, gray⟩ := List.exists_cons_of_ne_nil more
  have listed := marking.listed o (by simp [gray])
  cases o with
  | table h => exact keyed_table ready.white ready.markable marking keyed gray
  | function cl =>
    have popped := popped_of_gray ready.white marking gray (by simp [Unblackened])
    have result : g.propagatemark = { g.gray2black (.function cl) with gray := gclist }.traverseclosure cl := by
      unfold propagatemark
      rw [gray]
    rw [result]
    exact (Keyed.pop keyed (by simp)).shades (traverseclosure_shades (popped.carried.frame.markable ready.markable) cl listed.1).1
  | thread th =>
    have result : g.propagatemark =
        { g with gray := gclist, grayagain := .thread th :: g.grayagain }.traversestack th := by
      unfold propagatemark
      rw [gray]
      exact congrArg (traversestack · th) (thread_moved (ready.unblackened _ listed.1 (.inl ⟨th, rfl⟩)))
    have popped := popped_of_thread marking gray
    obtain ⟨g₁, shades, cleared, -⟩ := traversestack_shades (popped.carried.frame.markable ready.markable) th listed.1
    have keyed₀ : Keyed pending { g with gray := gclist, grayagain := .thread th :: g.grayagain } := keyed
    have keyed₁ := keyed₀.shades shades
    rw [result, cleared]
    exact keyed₁
  | proto f =>
    have popped := popped_of_gray ready.white marking gray (by simp [Unblackened])
    have result : g.propagatemark = { g.gray2black (.proto f) with gray := gclist }.traverseproto f := by
      unfold propagatemark
      rw [gray]
    rw [result]
    exact (Keyed.pop keyed (by simp)).shades (traverseproto_shades (popped.carried.frame.markable ready.markable) listed.1).1
  | string ts => exact listed.2.2.1.elim
  | userdata u => exact listed.2.2.1.elim
  | upval uv => exact listed.2.2.1.elim

theorem propagatemark_invariant (inv : Invariant (waits g) g) (marks : g.gcstate = .propagate) (more : g.gray ≠ []) :
    Invariant (waits g.propagatemark) g.propagatemark ∧ g.propagatemark.gcstate = .propagate := by
  have marking := inv.marking marks
  have ready := Shape.markReady inv.shape (marking.referring inv.sound)
  have step := propagatemark_propagated ready.white ready.markable marking
    (fun th object => ready.unblackened _ object (.inl ⟨th, rfl⟩)) more
  have frame := step.carried.frame
  have shape := shape_of_frame frame inv.shape
  have marking' := step.marking
  have keyed := propagatemark_keyed ready marking (inv.keyed marks) more
  have sound := sound_of_marking marking' (frame.markable ready.markable).referring fun o root => by
    rw [frame.objects]
    refine (inv.sound.roots o ?_).1
    obtain ⟨heap, marked, gray, grayagain, weak, same⟩ := frame.rest
    rw [same] at root
    exact root
  obtain ⟨heap, marked, gray, grayagain, weak, same⟩ := frame.rest
  rw [same] at shape sound marking' keyed ⊢
  exact ⟨⟨shape, sound, inv.table, fun _ => marking', fun idle => absurd marks idle, inv.sweepstring, inv.sweepgc,
    fun _ => keyed⟩, marks⟩

/-- Everything is unswept at the start of a sweep. -/
theorem sweepStart_invariant (shape : Shape g) (sound : Sound g) (table : g.hash ≠ []) (state : g.gcstate = .sweepstring)
    (strings : g.sweepstrgc = 0) (others : g.sweepgc = none)
    (waiting : ∀ o, waits g o → g.isdead o = false ∧ g.isgray o = false) : Invariant pending g := by
  have idle : g.gcstate ≠ .propagate := by rw [state]; decide
  refine ⟨shape, sound, table, fun marks => absurd marks idle, fun _ o object => ?_, fun _ => others, fun p isPos => ?_,
    fun marks => absurd marks idle⟩
  · unfold Resting Unswept
    rw [strings, others, List.drop_zero]
    rcases mem_objects.mp object with root | ⟨th, uv, root, opened, rfl⟩ | waits | ⟨ts, mem, rfl⟩
    · exact .inr (.inl (.inr ⟨.inl state, .inl root⟩))
    · exact .inr (.inl (.inr ⟨.inl state, .inr ⟨th, uv, root, opened, rfl⟩⟩))
    · exact .inr (.inr ⟨waits, waiting o waits⟩)
    · exact .inr (.inl (.inl ⟨state, ts, mem, rfl⟩))
  · rw [others] at isPos
    cases isPos

theorem atomic_invariant (inv : Invariant (waits g) g) (marks : g.gcstate = .propagate) : Invariant pending g.atomic := by
  have marking := inv.marking marks
  obtain ⟨shape, sound⟩ := atomic_sound inv.shape inv.sound marking
  refine sweepStart_invariant shape sound ?_ rfl rfl rfl fun o waiting => ?_
  · obtain ⟨heap, marked, gray, grayagain, weak, rootgc, tmudata, same⟩ :=
      (preserved_marked inv.shape inv.sound marking).2.rest
    rw [atomic_eq, same]
    exact inv.table
  · obtain ⟨u, mem, rfl⟩ := waiting
    exact atomic_waiting inv.shape inv.sound marking mem

theorem resetSweep_invariant (inv : Invariant (waits g) g) : Invariant (waits g.resetSweep) g.resetSweep := by
  unfold resetSweep
  split
  next early =>
    have shape := inv.shape
    refine sweepStart_invariant ⟨shape.white, shape.nodup, shape.main, shape.closed, shape.opened, shape.uvhead,
      shape.distinct, shape.coloured, shape.fixed, shape.thread, shape.upval⟩ ⟨inv.sound.roots, inv.sound.refs⟩ inv.table
      rfl rfl rfl fun o waiting => ?_
    have object : o ∈ g.objects := mem_objects.mpr (.inr (.inr (.inl waiting)))
    cases early with
    | inl pause =>
      rcases Invariant.unmarked inv (.inl pause) o object with fresh | unmarked
      · exact ⟨fresh.2, by show g.isgray o = false; simp [isgray, fresh.1]⟩
      · exact unmarked.2
    | inr marks =>
      have marking := inv.marking marks
      refine ⟨marking.alive o object, ?_⟩
      obtain ⟨u, mem, rfl⟩ := waiting
      exact marking.udata object
  next => exact inv

/-! ## Finalizers -/

theorem chainudata_perm {u : Nat} (nodup : g.rootgc.Nodup) (main : .thread g.mainthread ∈ g.rootgc) :
    (g.chainudata u).rootgc.Perm (.userdata u :: g.rootgc) := by
  obtain ⟨before, behind, split⟩ := List.append_of_mem main
  rw [split, List.nodup_append, List.nodup_cons] at nodup
  have plain : ∀ part : List GCObject, .thread g.mainthread ∉ part →
      (part.flatMap fun o => if o = .thread g.mainthread then [o, .userdata u] else [o]) = part := fun part absent => by
    induction part with
    | nil => rfl
    | cons o part ih =>
      rw [List.mem_cons, not_or] at absent
      rw [List.flatMap_cons, if_neg (Ne.symm absent.1), ih absent.2]
      rfl
  have absent : .thread g.mainthread ∉ before := fun mem => nodup.2.2 _ mem _ (List.mem_cons_self ..) rfl
  show (g.rootgc.flatMap _).Perm _
  rw [split, List.flatMap_append, List.flatMap_cons, plain before absent, plain behind nodup.2.1.1, if_pos rfl]
  show (before ++ (GCObject.thread g.mainthread :: GCObject.userdata u :: behind)).Perm _
  refine ((List.Perm.swap _ _ _).append_left before).trans ?_
  exact List.perm_middle

theorem openOf_perm {l l' : List GCObject} (perm : l.Perm l') : (l.flatMap g.openOf).Perm (l'.flatMap g.openOf) :=
  perm.flatMap_right _

-- a udata goes from `tmudata` to the list of all
def returned (g : GlobalState) (u : Nat) (tmudata : List Nat) : GlobalState := { g with tmudata }.chainudata u

theorem returned_objects {u : Nat} {tmudata : List Nat} (shape : Shape g) (waiting : g.tmudata = u :: tmudata) :
    (returned g u tmudata).objects.Perm g.objects := by
  have unique := rootgc_nodup shape
  have chained := chainudata_perm (g := { g with tmudata }) (u := u) unique shape.main
  have opened := openOf_perm (g := g) chained
  have first : (returned g u tmudata).objects.Perm ((GCObject.userdata u :: g.rootgc) ++ g.rootgc.flatMap g.openOf ++
      tmudata.map GCObject.userdata ++ g.hash.flatten.map GCObject.string) :=
    ((chained.append opened).append_right _).append_right _
  refine first.trans ?_
  unfold objects
  rw [waiting, List.map_cons]
  simp only [List.append_assoc, List.cons_append]
  refine List.perm_middle.symm.trans ?_
  exact List.Perm.append_left _ List.perm_middle.symm

theorem returned_invariant {u : Nat} {tmudata : List Nat} (inv : Invariant pending g) (state : g.gcstate = .finalize)
    (waiting : g.tmudata = u :: tmudata) (fresh : Fresh g (.userdata u)) : Invariant more (returned g u tmudata) := by
  have shape := inv.shape
  have objects := returned_objects shape waiting
  have mem : ∀ o, o ∈ (returned g u tmudata).objects ↔ o ∈ g.objects := fun o => objects.mem_iff
  have unique := rootgc_nodup shape
  have chained := chainudata_perm (g := { g with tmudata }) (u := u) unique shape.main
  have roots : ∀ o, (∀ u, o ≠ .userdata u) → (o ∈ (returned g u tmudata).rootgc ↔ o ∈ g.rootgc) := fun o kind => by
    have iff := chained.mem_iff (a := o)
    rw [List.mem_cons, or_iff_right (kind u)] at iff
    exact iff
  have idle : g.gcstate ≠ .propagate := by rw [state]; decide
  refine ⟨⟨shape.white, objects.nodup_iff.mpr shape.nodup, (roots _ (by simp)).mpr shape.main, fun uv inside => ?_,
    fun th uv root => shape.opened th uv ((roots _ (by simp)).mp root), fun uv => ?_, shape.distinct,
    fun o object => shape.coloured o ((mem o).mp object), fun o object => shape.fixed o ((mem o).mp object),
    fun th object => shape.thread th ((mem _).mp object), shape.upval⟩, ⟨fun o root => ?_, fun o alive r ref => ?_⟩,
    inv.table, fun marks => absurd marks idle, fun _ o object => ?_, inv.sweepstring, fun p isPos => ?_,
    fun marks => absurd marks idle⟩
  · exact shape.closed uv ((roots _ (by simp)).mp inside)
  · have threads : ∀ th, .thread th ∈ (returned g u tmudata).rootgc ↔ .thread th ∈ g.rootgc := fun th => roots _ (by simp)
    simp only [threads]
    exact shape.uvhead uv
  · have before : o ∈ g.roots := by
      simp only [GlobalState.roots, List.mem_append, List.mem_map] at root ⊢
      rw [waiting]
      refine root.imp id fun inside => ?_
      obtain ⟨u', mem', same⟩ := inside
      exact ⟨u', List.mem_cons_of_mem _ mem', same⟩
    have alive := inv.sound.roots o before
    exact ⟨(mem o).mpr alive.1, alive.2⟩
  · have later := inv.sound.refs o ⟨(mem o).mp alive.1, alive.2⟩ r ref
    exact ⟨(mem r).mpr later.1, later.2⟩
  · rcases Invariant.unmarked inv (.inr state) o ((mem o).mp object) with isFresh | ⟨⟨u', mem', rfl⟩, rest⟩
    · exact .inl isFresh
    · rw [waiting] at mem'
      cases List.mem_cons.mp mem' with
      | inl here => exact .inl (here ▸ fresh)
      | inr there => exact .inr (.inr ⟨⟨u', there, rfl⟩, rest⟩)
  · exact chained.mem_iff.mpr (List.mem_cons_of_mem _ (inv.sweepgc p isPos))

/-- `GCTM` hands a udata and its tag method to the program. -/
theorem gctm_invariant (inv : Invariant (waits g) g) (state : g.gcstate = .finalize) : Invariant (waits g.gctm) g.gctm := by
  have idle : g.gcstate ≠ .propagate := by rw [state]; decide
  unfold gctm
  split
  next => exact inv
  next u tmudata waiting =>
    have root : .userdata u ∈ g.roots := by simp [roots, waiting]
    have alive := inv.sound.roots _ root
    have white : Invariant (waits g) (g.makewhite (.userdata u)) := inv.makewhite idle alive
    have fresh : Fresh (g.makewhite (.userdata u)) (.userdata u) := (freshMark_makewhite inv.shape.white _).fresh
    have returned : Invariant (waits (returned (g.makewhite (.userdata u)) u tmudata)) (returned (g.makewhite (.userdata u)) u tmudata) :=
      returned_invariant white state waiting fresh
    have object : .userdata u ∈ (CollectorSteps.returned (g.makewhite (.userdata u)) u tmudata).objects :=
      (returned_objects (g := g.makewhite (.userdata u)) white.shape waiting).mem_iff.mpr alive.1
    have here : Alive (CollectorSteps.returned (g.makewhite (.userdata u)) u tmudata) (.userdata u) :=
      ⟨object, fresh.2⟩
    have commutes : ({ g with tmudata }.chainudata u).makewhite (.userdata u) =
        CollectorSteps.returned (g.makewhite (.userdata u)) u tmudata := rfl
    simp only
    rw [commutes]
    generalize CollectorSteps.returned (g.makewhite (.userdata u)) u tmudata = g₁ at returned here ⊢
    split
    next => exact returned
    next tm found =>
      have tmAlive : ∀ r ∈ gcvalue tm, Alive g₁ r := fun r isValue => by
        obtain ⟨mt, isMt, ref⟩ := gfasttm_mem found isValue
        refine returned.sound.refs _ (returned.sound.refs _ here _ ?_) r ref
        simp only [GlobalState.refs, List.mem_append, Option.mem_toList, Option.map_eq_some_iff]
        exact .inl ⟨mt, isMt, rfl⟩
      refine returned.setThread (fun r isValue => .inl isValue) (fun slot r isValue => ?_) (fun slot below r isValue => ?_)
      · simp only [setAt] at isValue
        split at isValue
        · cases isValue
          exact .inr here
        · split at isValue
          · exact .inr (tmAlive r isValue)
          · exact .inl isValue
      · simp only [setAt] at isValue
        split at isValue
        · cases isValue
          exact .inr here
        next notSecond =>
          split at isValue
          · exact .inr (tmAlive r isValue)
          next notFirst =>
            refine .inl ?_
            rw [lt_exposed] at below ⊢
            refine below.imp (fun lt => ?_) id
            have lt' : slot < (g₁.heap.threads g₁.running).top + 2 := lt
            omega

/-! ## `singlestep` -/

/-- A phase in which nothing is left to be swept. -/
theorem phase_invariant {gcstate : GCState} (inv : Invariant pending g) (unmarked : ∀ o ∈ g.objects, Unmarked g o)
    (next : gcstate = .pause ∨ gcstate = .finalize) : Invariant more { g with gcstate } := by
  have shape := inv.shape
  have idle : { g with gcstate }.gcstate ≠ .propagate := fun marks => by
    have state : gcstate = .propagate := marks
    rcases next with rfl | rfl <;> cases state
  refine ⟨⟨shape.white, shape.nodup, shape.main, shape.closed, shape.opened, shape.uvhead, shape.distinct, shape.coloured,
    shape.fixed, shape.thread, shape.upval⟩, ⟨inv.sound.roots, inv.sound.refs⟩, inv.table, fun marks => absurd marks idle,
    fun _ o object => (unmarked o object).imp id .inr, fun strings => ?_, inv.sweepgc, fun marks => absurd marks idle⟩
  · have state : gcstate = .sweepstring := strings
    rcases next with rfl | rfl <;> cases state

theorem unmarked_of_done (inv : Invariant pending g) (state : g.gcstate = .sweep) (done : after g.sweepgc g.rootgc = []) :
    ∀ o ∈ g.objects, Unmarked g o := by
  intro o object
  rcases inv.swept (by rw [state]; decide) o object with fresh | unswept | waiting
  · exact .inl fresh
  · unfold Unswept at unswept
    rw [state, done] at unswept
    simp at unswept
  · exact .inr waiting

theorem checkSizes_frame : ∃ hash, g.checkSizes = { g with hash } := by
  unfold checkSizes
  split
  · obtain ⟨newhash, same, -⟩ := luaSResize_perm (g := g) (g.hash.length / 2) (by
      have positive : 0 < minstrtabsize := by decide
      omega)
    exact ⟨newhash, same⟩
  · exact ⟨_, rfl⟩

/-- A step of the collector keeps the invariant. -/
theorem singlestep_invariant (inv : Invariant (waits g) g) : Invariant (waits g.singlestep) g.singlestep := by
  unfold singlestep
  split
  next state => exact markroot_invariant inv (.inl state)
  next state =>
    split
    next => exact atomic_invariant inv state
    next more => exact (propagatemark_invariant inv state more).1
  next state =>
    rw [sweepchain_eq (chain_nodup inv.shape).2]
    simp only
    split
    next last => exact sweepchain_invariant inv state rfl (.inr ⟨rfl, by simpa using last⟩)
    next => exact sweepchain_invariant inv state rfl (.inl state)
  next state =>
    obtain ⟨swept, still⟩ := sweeplist_invariant gcsweepmax inv state
    simp only
    split
    next done =>
      have sized := checkSizes_invariant swept
      obtain ⟨hash, same⟩ := checkSizes_frame (g := sweeplist gcsweepmax g)
      rw [same] at sized ⊢
      exact phase_invariant sized (unmarked_of_done sized still done) (.inr rfl)
    next => exact swept
  next state =>
    split
    next => exact phase_invariant inv (Invariant.unmarked inv (.inr state)) (.inl rfl)
    next => exact gctm_invariant inv state

end Lunatik.Verified.CollectorSteps
