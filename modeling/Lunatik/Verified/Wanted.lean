import Lunatik.Lua.FullCollection
import Lunatik.Verified.CollectorSteps

/-! # Nothing but what is wanted is marked

A set of objects that has what is wanted: the roots, the udata that are to be finalized, and with an object
what it keeps.  Every step of a mark phase marks objects of the set only.
-/

namespace Lunatik.Verified.Wanted

open Lunatik.Lua (GCState setAt setAt_same setAt_other)
open Lunatik.Lua.Gc Lunatik.Lua.Gc.GlobalState
open Lunatik.Lua.StringTable (whitebits blackbit fixedbit)
open Lunatik.Verified.Colours Lunatik.Verified.References Lunatik.Verified.Tricolor Lunatik.Verified.Propagation
open Lunatik.Verified.AtomicPhase Lunatik.Verified.UpvalueSteps Lunatik.Verified.CollectorSteps

variable {S : GCObject → Prop} {g g' : GlobalState} {o r : GCObject}

/-! ## What an object keeps -/

theorem mem_strongly {weak : Bool} {v : TValue} :
    r ∈ strongly weak v ↔ r ∈ gcvalue v ∧ (weak = true → ∃ ts, r = .string ts) := by
  cases v with
  | string ts =>
    simp only [strongly, gcvalue, List.mem_singleton, Option.mem_some_iff]
    constructor
    · intro isString
      exact ⟨isString.symm, fun _ => ⟨ts, isString⟩⟩
    · intro isString
      exact isString.1.symm
  | nil => cases weak <;> simp [strongly, gcvalue]
  | plain n => cases weak <;> simp [strongly, gcvalue]
  | deadkey o => cases weak <;> simp [strongly, gcvalue]
  | _ =>
    cases weak with
    | false => simp [strongly]
    | true =>
      simp only [strongly, if_true, List.not_mem_nil, gcvalue, Option.mem_some_iff, forall_const, false_iff, not_and]
      rintro rfl
      simp

theorem mem_strongTableRefs {t : Table} : r ∈ g.strongTableRefs t ↔ (∃ mt ∈ t.metatable, r = .table mt) ∨
    (∃ v ∈ t.array, r ∈ strongly (g.weakness t).2 v) ∨ ∃ n ∈ t.node, n.val ≠ .nil ∧
      (r ∈ strongly (g.weakness t).1 n.key ∨ r ∈ strongly (g.weakness t).2 n.val) := by
  simp only [strongTableRefs, List.mem_append, Option.mem_toList, Option.map_eq_some_iff, List.mem_flatMap, or_assoc]
  refine or_congr ⟨?_, ?_⟩ (or_congr Iff.rfl ⟨?_, ?_⟩)
  · rintro ⟨mt, isMt, rfl⟩
    exact ⟨mt, isMt, rfl⟩
  · rintro ⟨mt, isMt, rfl⟩
    exact ⟨mt, isMt, rfl⟩
  · rintro ⟨n, mem, ref⟩
    unfold strongNodeRefs at ref
    split at ref
    · cases ref
    next used => exact ⟨n, mem, used, List.mem_append.mp ref⟩
  · rintro ⟨n, mem, used, ref⟩
    refine ⟨n, mem, ?_⟩
    unfold strongNodeRefs
    rw [if_neg used]
    exact List.mem_append.mpr ref

theorem mem_strongThreadRefs {l : Thread} :
    r ∈ strongThreadRefs l ↔ r ∈ gcvalue l.gt ∨ ∃ slot < l.top, r ∈ gcvalue (l.stack slot) := by
  simp [strongThreadRefs]

/-- A table keeps its strings, weak or not. -/
theorem string_strong {t : Table} {ts : Nat} (ref : .string ts ∈ tableRefs t) : .string ts ∈ g.strongTableRefs t := by
  have strong : ∀ (weak : Bool) (v : TValue), GCObject.string ts ∈ gcvalue v → .string ts ∈ strongly weak v :=
    fun weak v isValue => mem_strongly.mpr ⟨isValue, fun _ => ⟨ts, rfl⟩⟩
  rw [mem_tableRefs] at ref
  rw [mem_strongTableRefs]
  refine ref.imp id (.imp ?_ ?_)
  · rintro ⟨v, mem, isValue⟩
    exact ⟨v, mem, strong _ v isValue⟩
  · rintro ⟨n, mem, used, ref⟩
    exact ⟨n, mem, used, ref.imp (strong _ _) (strong _ _)⟩

/-! ## The set -/

/-- The set has what is wanted, and what has been marked. -/
structure Within (S : GCObject → Prop) (g : GlobalState) : Prop where
  white : White g
  roots : ∀ o ∈ g.roots, S o
  finalizable : ∀ o, g.Finalizable o → S o
  closed : ∀ o, S o → ∀ r ∈ g.strongRefs o, S r
  fixed : ∀ o ∈ g.objects, g.marked o &&& fixedbit ≠ 0 → S o
  mapped : ∀ h, Mapped (g.heap.tables h).node
  uvhead : ∀ uv ∈ g.uvhead, .upval uv ∈ g.objects
  nonwhite : ∀ o ∈ g.objects, g.iswhite o = false → S o
  lists : ∀ o ∈ g.gray ++ g.grayagain ++ g.weak, S o

/-- Objects of the set are marked. -/
structure Reaches (S : GCObject → Prop) (g g' : GlobalState) : Prop where
  remarks : Remarks g g'
  nonwhite : ∀ o, g'.iswhite o = false → g.iswhite o = false ∨ S o
  gray : ∀ o ∈ g'.gray, o ∈ g.gray ∨ S o
  flags : ∀ o, g'.marked o &&& flagbits = g.marked o &&& flagbits

theorem finalized_of_flags {m m' : BitVec 8} (same : m &&& flagbits = m' &&& flagbits) :
    m &&& finalizedbit = m' &&& finalizedbit := by
  have inside : ∀ m : BitVec 8, m &&& finalizedbit = m &&& flagbits &&& finalizedbit := by decide
  rw [inside, same, ← inside]

theorem Reaches.refl (g : GlobalState) : Reaches S g g := ⟨⟨_, _, rfl⟩, fun _ => .inl, fun _ => .inl, fun _ => rfl⟩

theorem Reaches.trans {g₁ : GlobalState} (first : Reaches S g g') (second : Reaches S g' g₁) : Reaches S g g₁ where
  remarks := first.remarks.trans second.remarks
  nonwhite := fun o nonwhite => (second.nonwhite o nonwhite).elim (first.nonwhite o) .inr
  gray := fun o mem => (second.gray o mem).elim (first.gray o) .inr
  flags := fun o => (second.flags o).trans (first.flags o)

theorem Within.reaches (within : Within S g) (reaches : Reaches S g g') : Within S g' := by
  have nonwhite := reaches.nonwhite
  have pushed := reaches.gray
  have flags := reaches.flags
  have lists := within.lists
  obtain ⟨marked, gray, rfl⟩ := reaches.remarks
  refine ⟨within.white, within.roots, fun o finalizable => within.finalizable o ?_, within.closed,
    fun o object isFixed => within.fixed o object ?_, within.mapped, within.uvhead,
    fun o object isMarked => (nonwhite o isMarked).elim (within.nonwhite o object) id, fun o mem => ?_⟩
  · obtain ⟨u, isUdata, object, unfinalized, tm⟩ := finalizable
    refine ⟨u, isUdata, object, ?_, tm⟩
    unfold isfinalized at unfinalized ⊢
    rw [← finalized_of_flags (flags (.userdata u))]
    exact unfinalized
  · rw [← fixed_of_flags (flags o)]
    exact isFixed
  · simp only [List.mem_append] at mem lists
    rcases mem with (isGray | again) | weak
    · exact (pushed o isGray).elim (fun old => lists o (.inl (.inl old))) id
    · exact lists o (.inl (.inr again))
    · exact lists o (.inr weak)

/-- The lists of gray objects change among themselves. -/
theorem Within.relist (within : Within S g) {gray grayagain weak : List GCObject}
    (lists : ∀ o ∈ gray ++ grayagain ++ weak, o ∈ g.gray ++ g.grayagain ++ g.weak) :
    Within S { g with gray, grayagain, weak } :=
  ⟨within.white, within.roots, within.finalizable, within.closed, within.fixed, within.mapped, within.uvhead, within.nonwhite,
    fun o mem => within.lists o (lists o mem)⟩

/-- A write to the heap that adds no reference. -/
theorem Within.heap (within : Within S g) {heap : Heap}
    (refs : ∀ o, ∀ r ∈ { g with heap }.strongRefs o, r ∈ g.strongRefs o) (udata : heap.udata = g.heap.udata)
    (tags : ∀ mt, { g with heap }.gfasttm mt .gc = g.gfasttm mt .gc) (mapped : ∀ h, Mapped (heap.tables h).node) :
    Within S { g with heap } := by
  refine ⟨within.white, within.roots, fun o finalizable => within.finalizable o ?_,
    fun o mem r ref => within.closed o mem r (refs o r ref), within.fixed, mapped, within.uvhead, within.nonwhite, within.lists⟩
  obtain ⟨u, isUdata, object, unfinalized, tm⟩ := finalizable
  refine ⟨u, isUdata, object, unfinalized, ?_⟩
  rw [tags] at tm
  have same : (heap.udata u).metatable = (g.heap.udata u).metatable := by rw [udata]
  rw [← same]
  exact tm

/-! ## The functions that mark -/

theorem white2gray_reaches (mem : S o) : Reaches S g (g.white2gray o) := by
  refine ⟨⟨_, _, rfl⟩, fun o' nonwhite => ?_, fun _ => .inl, fun o' => ?_⟩
  · rw [white2gray_iswhite] at nonwhite
    by_cases here : o' = o
    · rw [here]
      exact .inr mem
    · simp only [here, decide_false, Bool.not_false, Bool.and_true] at nonwhite
      exact .inl nonwhite
  · unfold white2gray
    rw [setMark_marked]
    split
    next here => rw [here, white2gray_flags]
    next => rfl

theorem gray2black_reaches : Reaches S g (g.gray2black o) := by
  refine ⟨⟨_, _, rfl⟩, fun o' nonwhite => .inl (gray2black_iswhite ▸ nonwhite), fun _ => .inl, fun o' => ?_⟩
  unfold gray2black
  rw [setMark_marked]
  split
  next here => rw [here, gray2black_flags]
  next => rfl

theorem black2gray_reaches : Reaches S g (g.black2gray o) := by
  refine ⟨⟨_, _, rfl⟩, fun o' nonwhite => .inl (black2gray_iswhite ▸ nonwhite), fun _ => .inl, fun o' => ?_⟩
  unfold black2gray
  rw [setMark_marked]
  split
  next here => rw [here, black2gray_flags]
  next => rfl

theorem makewhite_reaches (white : White g) : Reaches S g (g.makewhite o) := by
  refine ⟨⟨_, _, rfl⟩, fun o' nonwhite => .inl ?_, fun _ => .inl, fun o' => ?_⟩
  · unfold makewhite at nonwhite
    rw [(freshMark_makewhite white _).iswhite] at nonwhite
    exact (Bool.or_eq_false_iff.mp nonwhite).1
  · unfold makewhite
    rw [setMark_marked]
    split
    next here => rw [here, makewhite_flags white]
    next => rfl

theorem pushgray_reaches (mem : S o) : Reaches S g (g.pushgray o) := by
  have first := white2gray_reaches (g := g) mem
  refine ⟨⟨_, _, rfl⟩, first.nonwhite, fun o' isGray => ?_, first.flags⟩
  cases List.mem_cons.mp isGray with
  | inl here => rw [here]; exact .inr mem
  | inr old => exact .inl old

theorem marktable_reaches {h : Nat} (mem : S (.table h)) : Reaches S g (g.marktable h) := by
  unfold marktable
  split
  · exact pushgray_reaches mem
  · exact .refl g

theorem markmetatable_reaches (mt : Option Nat) (mem : ∀ h ∈ mt, S (.table h)) : Reaches S g (g.markmetatable mt) := by
  cases mt with
  | none => exact .refl g
  | some h => exact marktable_reaches (mem h rfl)

theorem reallymarkvalue_reaches (within : Within S g) (mem : S o) : Reaches S g (g.reallymarkvalue o) := by
  cases o with
  | string ts => exact white2gray_reaches mem
  | userdata u =>
    have refs := within.closed _ mem
    simp only [strongRefs, GlobalState.refs, List.mem_append, Option.mem_toList, Option.map_eq_some_iff, List.mem_singleton] at refs
    have black : Reaches S g ((g.white2gray (.userdata u)).gray2black (.userdata u)) :=
      (white2gray_reaches mem).trans gray2black_reaches
    exact (black.trans (markmetatable_reaches _ fun h isMt => refs _ (.inl ⟨h, isMt, rfl⟩))).trans
      (marktable_reaches (refs _ (.inr rfl)))
  | upval uv => exact .refl g
  | table h => exact pushgray_reaches mem
  | function cl => exact pushgray_reaches mem
  | thread th => exact pushgray_reaches mem
  | proto f => exact pushgray_reaches mem

theorem markvalue_reaches {v : TValue} (within : Within S g) (mem : ∀ o ∈ gcvalue v, S o) : Reaches S g (g.markvalue v) := by
  unfold markvalue
  split
  next o isValue =>
    split
    · exact reallymarkvalue_reaches within (mem o isValue)
    · exact .refl g
  next => exact .refl g

theorem reallymarkobject_reaches (within : Within S g) (mem : S o) : Reaches S g (g.reallymarkobject o) := by
  cases o with
  | upval uv =>
    have refs := within.closed _ mem
    simp only [strongRefs, GlobalState.refs, Option.mem_toList] at refs
    have first := white2gray_reaches (g := g) mem
    have marked := first.trans (markvalue_reaches (v := g.deref uv) (within.reaches first) fun o isValue => refs o isValue)
    simp only [reallymarkobject]
    split
    · exact marked.trans gray2black_reaches
    · exact marked
  | string ts => exact reallymarkvalue_reaches within mem
  | table h => exact reallymarkvalue_reaches within mem
  | function cl => exact reallymarkvalue_reaches within mem
  | userdata u => exact reallymarkvalue_reaches within mem
  | thread th => exact reallymarkvalue_reaches within mem
  | proto f => exact reallymarkvalue_reaches within mem

theorem markobject_reaches (within : Within S g) (mem : S o) : Reaches S g (g.markobject o) := by
  unfold markobject
  split
  · exact reallymarkobject_reaches within mem
  · exact .refl g

theorem foldl_reaches {β : Type} {f : GlobalState → β → GlobalState} {l : List β} (within : Within S g)
    (step : ∀ g' x, x ∈ l → Reaches S g g' → Within S g' → Reaches S g' (f g' x)) : Reaches S g (l.foldl f g) := by
  have all : ∀ (l' : List β) (g' : GlobalState), (∀ x ∈ l', x ∈ l) → Reaches S g g' → Reaches S g (l'.foldl f g') := by
    intro l'
    induction l' with
    | nil => exact fun g' _ reaches => reaches
    | cons x l' ih =>
      intro g' sub reaches
      have here := step g' x (sub x (List.mem_cons_self ..)) reaches (within.reaches reaches)
      exact ih (f g' x) (fun y mem => sub y (List.mem_cons_of_mem _ mem)) (reaches.trans here)
  exact all l g (fun _ => id) (.refl g)

theorem markvalues_reaches (vs : List TValue) (within : Within S g) (mem : ∀ v ∈ vs, ∀ o ∈ gcvalue v, S o) :
    Reaches S g (vs.foldl markvalue g) :=
  foldl_reaches within fun _ v isValue _ within' => markvalue_reaches within' (mem v isValue)

/-! ## Traversing -/

theorem traverseclosure_reaches {cl : Nat} (within : Within S g) (mem : S (.function cl)) :
    Reaches S g (g.traverseclosure cl) := by
  have refs := within.closed _ mem
  simp only [strongRefs, GlobalState.refs] at refs
  unfold traverseclosure
  cases kind : g.heap.closures cl with
  | c env upvalue =>
    rw [kind] at refs
    simp only [closureRefs, List.mem_cons, List.mem_flatMap, Option.mem_toList] at refs ⊢
    have first := marktable_reaches (g := g) (refs _ (.inl rfl))
    exact first.trans (markvalues_reaches upvalue (within.reaches first) fun v mem o isValue =>
      refs o (.inr ⟨v, mem, isValue⟩))
  | lua env p upvals =>
    rw [kind] at refs
    simp only [closureRefs, List.mem_cons, List.mem_map] at refs ⊢
    have first := marktable_reaches (g := g) (refs _ (.inl rfl))
    have both := first.trans (markobject_reaches (within.reaches first) (refs (.proto p) (.inr (.inl rfl))))
    exact both.trans (foldl_reaches (within.reaches both) fun _ uv isUpval _ within' =>
      markobject_reaches within' (refs _ (.inr (.inr ⟨uv, isUpval, rfl⟩))))

theorem markname_reaches (name : Option Nat) (mem : ∀ ts, name = some ts → S (.string ts)) :
    Reaches S g (markname g name) := by
  cases name with
  | none => exact .refl g
  | some ts => exact white2gray_reaches (mem ts rfl)

theorem marknames_reaches (names : List (Option Nat)) (within : Within S g)
    (mem : ∀ ts, some ts ∈ names → S (.string ts)) : Reaches S g (names.foldl markname g) :=
  foldl_reaches within fun _ name isName _ _ => markname_reaches name fun ts same => mem ts (same ▸ isName)

theorem traverseproto_reaches {f : Nat} (within : Within S g) (mem : S (.proto f)) :
    Reaches S g (g.traverseproto f) := by
  have refs := within.closed _ mem
  simp only [strongRefs, GlobalState.refs, mem_protoRefs] at refs
  have source := markname_reaches (g := g) (g.heap.protos f).source fun ts isSource =>
    refs _ (.inl ⟨ts, isSource, rfl⟩)
  have k := source.trans (markvalues_reaches (g.heap.protos f).k (within.reaches source) fun v mem o isValue =>
    refs o (.inr (.inl ⟨v, mem, isValue⟩)))
  have upvalues := k.trans (marknames_reaches (g.heap.protos f).upvalues (within.reaches k) fun ts mem =>
    refs _ (.inr (.inr (.inl ⟨ts, mem, rfl⟩))))
  have p := upvalues.trans (foldl_reaches (f := markproto) (l := (g.heap.protos f).p) (within.reaches upvalues)
    fun g' inner isInner _ within' => by
      cases inner with
      | none => exact .refl g'
      | some f' => exact markobject_reaches within' (refs (.proto f') (.inr (.inr (.inr (.inl ⟨f', isInner, rfl⟩))))))
  exact p.trans (marknames_reaches (g.heap.protos f).locvars (within.reaches p) fun ts mem =>
    refs _ (.inr (.inr (.inr (.inr ⟨ts, mem, rfl⟩)))))

/-! ### Stacks -/

theorem strongRefs_cleared {th : Nat}
    (ref : r ∈ (g.setThread th (cleared (g.heap.threads th))).strongRefs o) : r ∈ g.strongRefs o := by
  have plain : r ∈ (g.setThread th (cleared (g.heap.threads th))).refs o → r ∈ g.refs o := refs_cleared r
  cases o with
  | thread th' =>
    simp only [strongRefs, setThread] at ref ⊢
    by_cases here : th' = th
    · subst here
      rw [setAt_same, mem_strongThreadRefs] at ref
      refine mem_strongThreadRefs.mpr (ref.imp id ?_)
      rintro ⟨slot, below, isValue⟩
      simp only [cleared] at isValue below
      rw [if_neg (by omega)] at isValue
      exact ⟨slot, below, isValue⟩
    · rwa [setAt_other _ _ here] at ref
  | table h => exact ref
  | string ts => exact plain ref
  | function cl => exact plain ref
  | userdata u => exact plain ref
  | proto f => exact plain ref
  | upval uv => exact plain ref

theorem traversestack_within {th : Nat} (within : Within S g) (mem : S (.thread th)) :
    Within S (g.traversestack th) := by
  have refs := within.closed _ mem
  simp only [strongRefs, mem_strongThreadRefs] at refs
  have first := markvalue_reaches (v := (g.heap.threads th).gt) within fun o isValue => refs o (.inl isValue)
  have both := first.trans (foldl_reaches (f := fun g' o => g'.markvalue ((g.heap.threads th).stack o))
    (l := List.range (g.heap.threads th).top) (within.reaches first) fun g' slot inside _ within' =>
      markvalue_reaches within' fun o isValue => refs o (.inr ⟨slot, List.mem_range.mp inside, isValue⟩))
  have marked := within.reaches both
  have result : g.traversestack th = ((List.range (g.heap.threads th).top).foldl
      (fun g' o => g'.markvalue ((g.heap.threads th).stack o)) (g.markvalue (g.heap.threads th).gt)).setThread th
        (cleared (g.heap.threads th)) := rfl
  have heap := both.remarks
  rw [result]
  generalize (List.range (g.heap.threads th).top).foldl (fun g' o => g'.markvalue ((g.heap.threads th).stack o))
    (g.markvalue (g.heap.threads th).gt) = g₁ at marked heap ⊢
  obtain ⟨_, _, same⟩ := heap
  have stack : g.heap.threads th = g₁.heap.threads th := by rw [same]
  rw [stack]
  exact marked.heap (fun o r ref => strongRefs_cleared ref) rfl (fun _ => rfl) marked.mapped

/-! ### Tables -/

theorem pruned_key {n : Node} {ts : Nat} (isKey : (if n.val = .nil then removeentry n else n).key = .string ts) :
    n.key = .string ts ∧ n.val ≠ .nil := by
  split at isKey
  next empty =>
    unfold removeentry at isKey
    split at isKey
    · cases isKey
    next none =>
      rw [isKey] at none
      cases none
  next used => exact ⟨isKey, used⟩

theorem mapped_pruned {t : Table} (mapped : Mapped t.node) : Mapped (pruned t).node := by
  unfold Mapped pruned
  rw [List.pairwise_map]
  exact mapped.imp fun distinct ts isKey isKey' => distinct ts (pruned_key isKey).1 (pruned_key isKey').1

/-- Where no key is there twice, an entry that is emptied is not found before and after. -/
theorem luaHGetstr_pruned {t : Table} {key : Nat} (mapped : Mapped t.node) :
    luaHGetstr (pruned t) key = luaHGetstr t key := by
  unfold luaHGetstr pruned
  simp only
  generalize t.node = node at mapped
  induction node with
  | nil => rfl
  | cons n ns ih =>
    obtain ⟨distinct, mapped'⟩ := List.pairwise_cons.mp mapped
    rw [List.map_cons, List.find?_cons, List.find?_cons]
    by_cases isKey : n.key = .string key
    · by_cases empty : n.val = .nil
      · have gone : (if n.val = .nil then removeentry n else n).key ≠ .string key := fun still => (pruned_key still).2 empty
        have absent : (ns.map fun n => if n.val = .nil then removeentry n else n).find? (fun n => n.key = .string key) = none := by
          rw [List.find?_eq_none]
          intro n' mem isKey'
          obtain ⟨old, mem', rfl⟩ := List.mem_map.mp mem
          exact distinct old mem' key isKey (pruned_key (of_decide_eq_true isKey')).1
        rw [absent, decide_eq_false gone, decide_eq_true isKey]
        exact empty.symm
      · simp [isKey, empty]
    · have other : (if n.val = .nil then removeentry n else n).key ≠ .string key := fun still => isKey (pruned_key still).1
      simp only [other, isKey, decide_false]
      exact ih mapped'

theorem gfasttm_pruned {h : Nat} (mapped : ∀ h, Mapped (g.heap.tables h).node) (et : Option Nat) (e : Lua.TMS) :
    (g.setTable h (pruned (g.heap.tables h))).gfasttm et e = g.gfasttm et e := by
  cases et with
  | none => rfl
  | some mt =>
    unfold gfasttm
    simp only
    by_cases here : mt = h
    · subst here
      rw [setTable_self, luaHGetstr_pruned (mapped mt)]
      rfl
    · rw [setTable_other here]
      rfl

theorem strongRefs_pruned {h : Nat} (mapped : ∀ h, Mapped (g.heap.tables h).node)
    (ref : r ∈ (g.setTable h (pruned (g.heap.tables h))).strongRefs o) : r ∈ g.strongRefs o := by
  have weakness : ∀ t, (g.setTable h (pruned (g.heap.tables h))).weakness t = g.weakness t := fun t => by
    unfold GlobalState.weakness
    simp only [gfasttm_pruned mapped]
    rfl
  cases o with
  | table h' =>
    simp only [strongRefs] at ref ⊢
    rw [mem_strongTableRefs] at ref ⊢
    rw [weakness] at ref
    by_cases here : h' = h
    · subst here
      rw [setTable_self] at ref
      refine ref.imp id (.imp id ?_)
      rintro ⟨n, mem, used, ref⟩
      obtain ⟨n', mem', rfl⟩ := List.mem_map.mp mem
      by_cases empty : n'.val = .nil
      · rw [if_pos empty, removeentry_val] at used
        exact absurd empty used
      · rw [if_neg empty] at ref
        exact ⟨n', mem', empty, ref⟩
    · rw [setTable_other here] at ref
      exact ref
  | string ts => exact ref
  | function cl => exact ref
  | userdata u => exact ref
  | thread th => exact ref
  | proto f => exact ref
  | upval uv => exact ref

theorem prune_within (h : Nat) (within : Within S g) : Within S (g.setTable h (pruned (g.heap.tables h))) := by
  refine within.heap (fun o r ref => strongRefs_pruned within.mapped ref) rfl
    (fun mt => gfasttm_pruned within.mapped mt .gc) fun h' => ?_
  show Mapped ((g.setTable h (pruned (g.heap.tables h))).heap.tables h').node
  by_cases here : h' = h
  · subst here
    rw [setTable_self]
    exact mapped_pruned (within.mapped h')
  · rw [setTable_other here]
    exact within.mapped h'

theorem linkweak_fixed (weakkey weakvalue : Bool) (m : BitVec 8) :
    ((m &&& ~~~(keyweak ||| valueweak)) ||| ((if weakkey then keyweak else 0) ||| (if weakvalue then valueweak else 0)))
      &&& fixedbit = m &&& fixedbit := by
  revert m
  cases weakkey <;> cases weakvalue <;> decide

theorem linkedWeak_within {h : Nat} (weakkey weakvalue : Bool) (within : Within S g) (mem : S (.table h)) :
    Within S (linkedWeak g h weakkey weakvalue) := by
  unfold linkedWeak
  split
  next =>
    refine ⟨within.white, within.roots, within.finalizable, within.closed, fun o object isFixed => within.fixed o object ?_,
      within.mapped, within.uvhead, fun o object nonwhite => within.nonwhite o object ?_, fun o isListed => ?_⟩
    · have mark : (g.linkweak h weakkey weakvalue).marked o = if o = .table h then _ else g.marked o := rfl
      rw [mark] at isFixed
      split at isFixed
      next here =>
        rw [linkweak_fixed] at isFixed
        rw [here]
        exact isFixed
      next => exact isFixed
    · exact (linkweak_marked h weakkey weakvalue o).1.symm.trans nonwhite
    · have all := within.lists o
      simp only [List.mem_append] at all
      have isListed' : o ∈ g.gray ++ g.grayagain ++ .table h :: g.weak := isListed
      simp only [List.mem_append, List.mem_cons] at isListed'
      rcases isListed' with other | here | weak
      · exact all (.inl other)
      · rw [here]
        exact mem
      · exact all (.inr weak)
  next => exact within

theorem marknode_reaches {weakkey weakvalue : Bool} {n : Node} (within : Within S g)
    (key : n.val ≠ .nil → ∀ r ∈ strongly weakkey n.key, S r) (val : n.val ≠ .nil → ∀ r ∈ strongly weakvalue n.val, S r) :
    Reaches S g (marknode weakkey weakvalue g n) := by
  have strong : ∀ {v : TValue}, ∀ r ∈ gcvalue v, r ∈ strongly false v := fun r isValue =>
    mem_strongly.mpr ⟨isValue, fun weak => by cases weak⟩
  unfold marknode
  split
  · exact .refl g
  next used =>
    have first : Reaches S g (if weakkey then g else g.markvalue n.key) := by
      cases weakkey with
      | true => exact .refl g
      | false => exact markvalue_reaches within fun o isValue => key used o (strong o isValue)
    cases weakvalue with
    | true => exact first
    | false => exact first.trans (markvalue_reaches (within.reaches first) fun o isValue => val used o (strong o isValue))

theorem traversetable_within {h : Nat} (within : Within S g) (mem : S (.table h)) :
    Within S (g.traversetable h).2 := by
  have refs := within.closed _ mem
  simp only [strongRefs, mem_strongTableRefs] at refs
  have first := markmetatable_reaches (g := g) (g.heap.tables h).metatable fun mt isMt => refs _ (.inl ⟨mt, isMt, rfl⟩)
  have within₁ := within.reaches first
  have heap₁ : (g.markmetatable (g.heap.tables h).metatable).heap = g.heap ∧
      (g.markmetatable (g.heap.tables h).metatable).tmname = g.tmname := by
    obtain ⟨_, _, same⟩ := first.remarks
    rw [same]
    exact ⟨rfl, rfl⟩
  generalize isFirst : g.markmetatable (g.heap.tables h).metatable = g₁ at within₁ heap₁
  have mode : g₁.weakness (g.heap.tables h) = g.weakness (g.heap.tables h) := by
    unfold GlobalState.weakness gfasttm weakMode
    rw [heap₁.1, heap₁.2]
  generalize isWeak : g.weakness (g.heap.tables h) = weak at refs mode
  obtain ⟨weakkey, weakvalue⟩ := weak
  have isKey : g₁.weakMode (g₁.gfasttm (g.heap.tables h).metatable .mode) 'k' = weakkey := congrArg Prod.fst mode
  have isValue : g₁.weakMode (g₁.gfasttm (g.heap.tables h).metatable .mode) 'v' = weakvalue := congrArg Prod.snd mode
  have within₂ := linkedWeak_within weakkey weakvalue within₁ mem
  by_cases both : (weakkey && weakvalue) = true
  · have result : (g.traversetable h).2 = linkedWeak g₁ h weakkey weakvalue := by
      unfold traversetable linkedWeak
      simp only [Bool.and_eq_true] at both
      simp [isFirst, isKey, isValue, both]
    rw [result]
    exact within₂
  · have result : (g.traversetable h).2 = ((g.heap.tables h).node.reverse.foldl (marknode weakkey weakvalue)
        (if weakvalue then linkedWeak g₁ h weakkey weakvalue
          else (g.heap.tables h).array.reverse.foldl markvalue (linkedWeak g₁ h weakkey weakvalue))).setTable h
            (pruned (g.heap.tables h)) := by
      unfold traversetable linkedWeak pruned
      simp only [isFirst, isKey, isValue, if_neg both]
    rw [result]
    have array : Reaches S (linkedWeak g₁ h weakkey weakvalue)
        (if weakvalue then linkedWeak g₁ h weakkey weakvalue
          else (g.heap.tables h).array.reverse.foldl markvalue (linkedWeak g₁ h weakkey weakvalue)) := by
      cases weakvalue with
      | true => exact .refl _
      | false =>
        refine markvalues_reaches _ within₂ fun v isValue o ref => refs o (.inr (.inl ⟨v, List.mem_reverse.mp isValue, ?_⟩))
        exact mem_strongly.mpr ⟨ref, fun weak => by cases weak⟩
    have nodes := array.trans (foldl_reaches (f := marknode weakkey weakvalue) (l := (g.heap.tables h).node.reverse)
      (within₂.reaches array) fun g' n isNode _ within' => marknode_reaches within'
        (fun used r ref => refs r (.inr (.inr ⟨n, List.mem_reverse.mp isNode, used, .inl ref⟩)))
        fun used r ref => refs r (.inr (.inr ⟨n, List.mem_reverse.mp isNode, used, .inr ref⟩)))
    have within₃ := within₂.reaches nodes
    have remarks := nodes.remarks
    have linked := (linkedWeak_objects (g := g₁) h weakkey weakvalue).2
    generalize (g.heap.tables h).node.reverse.foldl (marknode weakkey weakvalue)
        (if weakvalue then linkedWeak g₁ h weakkey weakvalue
          else (g.heap.tables h).array.reverse.foldl markvalue (linkedWeak g₁ h weakkey weakvalue)) = g₃ at within₃ remarks ⊢
    have heap₃ : g₃.heap = g.heap := by
      obtain ⟨_, _, same⟩ := remarks
      rw [same]
      exact linked.trans heap₁.1
    rw [← heap₃]
    exact prune_within h within₃

/-! ## Propagating -/

/-- A step of the mark phase stays within the set. -/
theorem propagatemark_within (within : Within S g) : Within S g.propagatemark := by
  unfold propagatemark
  cases gray : g.gray with
  | nil => exact within
  | cons o gclist =>
    have lists := within.lists
    rw [gray] at lists
    have mem : S o := lists o (by simp)
    have popped : Within S { g.gray2black o with gray := gclist } :=
      (within.reaches gray2black_reaches).relist fun o' isListed => by
        show o' ∈ g.gray ++ g.grayagain ++ g.weak
        rw [gray, List.cons_append, List.cons_append]
        exact List.mem_cons_of_mem _ isListed
    simp only
    cases o with
    | table h =>
      have traversed := traversetable_within popped mem
      simp only
      split
      · exact traversed.reaches black2gray_reaches
      · exact traversed
    | function cl => exact popped.reaches (traverseclosure_reaches popped mem)
    | thread th =>
      have moved : Within S { g.gray2black (.thread th) with gray := gclist, grayagain := .thread th :: g.grayagain } :=
        (within.reaches gray2black_reaches).relist fun o' isListed => by
          show o' ∈ g.gray ++ g.grayagain ++ g.weak
          rw [gray]
          simp only [List.mem_append, List.mem_cons] at isListed ⊢
          tauto
      exact traversestack_within (moved.reaches black2gray_reaches) mem
    | proto f => exact popped.reaches (traverseproto_reaches popped mem)
    | string ts => exact within.reaches gray2black_reaches
    | userdata u => exact within.reaches gray2black_reaches
    | upval uv => exact within.reaches gray2black_reaches

theorem propagateFor_within (n : Nat) (within : Within S g) : Within S (propagateFor n g) := by
  induction n generalizing g with
  | zero => exact within
  | succ n ih =>
    unfold propagateFor
    split
    · exact within
    · exact ih (propagatemark_within within)

theorem propagateall_within (within : Within S g) : Within S g.propagateall := propagateFor_within _ within

theorem markmt_reaches (within : Within S g) : Reaches S g g.markmt := by
  refine foldl_reaches within fun g' mt isMt _ _ => markmetatable_reaches mt fun h same => within.roots _ ?_
  rw [Option.mem_def] at same
  subst same
  simp only [GlobalState.roots, List.mem_append, List.mem_flatMap, List.mem_cons]
  exact .inl (.inr ⟨some h, isMt, by simp⟩)

/-- Marking starts at the roots. -/
theorem markroot_within (within : Within S g) : Within S g.markroot := by
  have roots := within.roots
  simp only [GlobalState.roots, List.mem_append, List.mem_cons, Option.mem_toList] at roots
  have start : Within S { g with gray := [], grayagain := [], weak := [] } := within.relist fun o mem => by cases mem
  have main := start.reaches (markobject_reaches (o := .thread g.mainthread) start (roots _ (.inl (.inl (.inl rfl)))))
  have refs := main.closed (.thread g.mainthread) (roots _ (.inl (.inl (.inl rfl))))
  have same := (markobject_reaches (o := .thread g.mainthread) start (roots _ (.inl (.inl (.inl rfl))))).remarks
  unfold markroot
  simp only
  generalize markobject { g with gray := [], grayagain := [], weak := [] } (.thread g.mainthread) = g₁ at main refs same ⊢
  have fields : g₁.mainthread = g.mainthread ∧ g₁.registry = g.registry := by
    obtain ⟨_, _, same⟩ := same
    rw [same]
    exact ⟨rfl, rfl⟩
  rw [fields.1]
  simp only [strongRefs, mem_strongThreadRefs] at refs
  have first := markvalue_reaches main fun o isValue => refs o (.inl isValue)
  have globals := main.reaches first
  have fields₁ : (g₁.markvalue (g₁.heap.threads g.mainthread).gt).registry = g.registry := by
    obtain ⟨_, _, same⟩ := first.remarks
    rw [same]
    exact fields.2
  rw [fields₁]
  have registry := globals.reaches (markvalue_reaches (v := g.registry) globals fun o isValue =>
    roots o (.inl (.inl (.inr (.inr isValue)))))
  have done := registry.reaches (markmt_reaches registry)
  exact ⟨done.white, done.roots, done.finalizable, done.closed, done.fixed, done.mapped, done.uvhead, done.nonwhite, done.lists⟩

end Lunatik.Verified.Wanted
