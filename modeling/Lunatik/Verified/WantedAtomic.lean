import Lunatik.Verified.Wanted

/-! # What survives the mark phase

After `atomic` an object that is not condemned is in the set: what is wanted, and what is fixed.
-/

namespace Lunatik.Verified.WantedAtomic

open Lunatik.Lua (GCState setAt setAt_same setAt_other)
open Lunatik.Lua.Gc Lunatik.Lua.Gc.GlobalState
open Lunatik.Lua.StringTable (whitebits blackbit fixedbit)
open Lunatik.Verified.Colours Lunatik.Verified.References Lunatik.Verified.Tricolor Lunatik.Verified.Propagation
open Lunatik.Verified.AtomicPhase Lunatik.Verified.CollectorInvariant Lunatik.Verified.UpvalueSteps
open Lunatik.Verified.CollectorSteps Lunatik.Verified.Wanted

variable {S : GCObject → Prop} {g g' : GlobalState} {o r : GCObject}

/-! ## Marking again -/

theorem remarkupvals_reaches (within : Within S g) : Reaches S g g.remarkupvals := by
  refine foldl_reaches within fun g' uv mem reaches within' => ?_
  have open' : uv ∈ g'.uvhead := by
    obtain ⟨_, _, same⟩ := reaches.remarks
    rw [same]
    exact mem
  split
  next isGray =>
    have inside := within'.nonwhite _ (within'.uvhead uv open') (isgray_iff.mp isGray).2
    exact markvalue_reaches within' fun o isValue => within'.closed _ inside o (Option.mem_toList.mpr isValue)
  next => exact .refl g'

theorem remarked_within (within : Within S g) : Within S (remarked g) := by
  have upvals := propagateall_within (within.reaches (remarkupvals_reaches within))
  unfold remarked
  generalize g.remarkupvals.propagateall = g₁ at upvals ⊢
  have weak : Within S { g₁ with gray := g₁.weak, weak := [] } := upvals.relist fun o mem => by
    simp only [List.mem_append, List.not_mem_nil, or_false] at mem ⊢
    tauto
  have running : S (.thread g₁.running) := upvals.roots _ (by simp [GlobalState.roots])
  have marked := weak.reaches (markobject_reaches weak running)
  have tables := propagateall_within (marked.reaches (markmt_reaches marked))
  simp only
  generalize ({ g₁ with gray := g₁.weak, weak := [] }.markobject (.thread g₁.running)).markmt.propagateall = g₂ at tables ⊢
  refine propagateall_within (tables.relist fun o mem => ?_)
  simp only [List.mem_append, List.not_mem_nil, or_false] at mem ⊢
  tauto

/-! ## Separating -/

theorem markfinalized_within {u : Nat} (within : Within S g) : Within S (g.markfinalized u) := by
  have same := sameColour_of (o := .userdata u) within.white (markfinalized_low (g.marked (.userdata u)))
  have kept : ∀ m : BitVec 8, (m ||| finalizedbit) &&& fixedbit = m &&& fixedbit := by decide
  have still : ∀ m : BitVec 8, m &&& finalizedbit != 0 → (m ||| finalizedbit) &&& finalizedbit != 0 := by decide
  refine ⟨within.white, within.roots, fun o finalizable => within.finalizable o ?_, within.closed,
    fun o object isFixed => within.fixed o object ?_, within.mapped, within.uvhead,
    fun o object nonwhite => within.nonwhite o object (same.iswhite.symm.trans nonwhite), within.lists⟩
  · obtain ⟨u', isUdata, object, unfinalized, tm⟩ := finalizable
    refine ⟨u', isUdata, object, ?_, tm⟩
    cases finalized : g.isfinalized u' with
    | false => rfl
    | true =>
      unfold isfinalized markfinalized at unfinalized
      unfold isfinalized at finalized
      rw [setMark_marked] at unfinalized
      split at unfinalized
      next here =>
        cases here
        rw [still _ finalized] at unfinalized
        cases unfinalized
      next =>
        rw [finalized] at unfinalized
        cases unfinalized
  · unfold markfinalized at isFixed
    rw [setMark_marked] at isFixed
    split at isFixed
    next here =>
      rw [kept] at isFixed
      rw [here]
      exact isFixed
    next => exact isFixed

-- the udata leaves one list of objects for another
theorem moved_objects {u : Nat} (object : .userdata u ∈ g.objects) :
    o ∈ { g with rootgc := g.rootgc.erase (.userdata u), tmudata := g.tmudata ++ [u] }.objects ↔ o ∈ g.objects := by
  have others : ∀ o, o ≠ .userdata u → (o ∈ g.rootgc.erase (.userdata u) ↔ o ∈ g.rootgc) := fun o ne =>
    List.mem_erase_of_ne ne
  rw [mem_objects, mem_objects]
  by_cases here : o = .userdata u
  · subst here
    refine iff_of_true (.inr (.inr (.inl ⟨u, ?_, rfl⟩))) (mem_objects.mp object)
    show u ∈ g.tmudata ++ [u]
    exact List.mem_append_right _ (List.mem_singleton_self u)
  · have threads : ∀ th, GCObject.thread th ∈ g.rootgc.erase (.userdata u) ↔ .thread th ∈ g.rootgc := fun th =>
      others _ (by simp)
    simp only [others o here, threads, List.mem_append, List.mem_singleton]
    refine or_congr Iff.rfl (or_congr Iff.rfl (or_congr ⟨?_, ?_⟩ Iff.rfl))
    · rintro ⟨u', old | rfl, same⟩
      · exact ⟨u', old, same⟩
      · exact absurd same here
    · rintro ⟨u', old, same⟩
      exact ⟨u', .inl old, same⟩

/-- What is handed to its finalizer was to be finalized. -/
theorem separate_within (all : Bool) (within : Within S g) (object : o ∈ g.objects) :
    Within S (separate all g o) ∧ ∀ o' ∈ g.objects, o' ∈ (separate all g o).objects := by
  unfold separate
  cases o with
  | userdata u =>
    simp only
    split
    next => exact ⟨within, fun _ => id⟩
    next finalizes =>
      have marked := markfinalized_within (u := u) within
      split
      next => exact ⟨marked, fun _ => id⟩
      next hasTm =>
        have unfinalized : g.isfinalized u = false := by simp_all
        have wanted : S (.userdata u) := within.finalizable _ ⟨u, rfl, object, unfinalized, hasTm⟩
        have here : .userdata u ∈ (g.markfinalized u).objects := object
        have objects := fun o => moved_objects (o := o) here
        refine ⟨⟨marked.white, fun o root => ?_, fun o finalizable => marked.finalizable o ?_, marked.closed,
          fun o object isFixed => marked.fixed o ((objects o).mp object) isFixed, marked.mapped,
          fun uv mem => (objects _).mpr (marked.uvhead uv mem),
          fun o object nonwhite => marked.nonwhite o ((objects o).mp object) nonwhite, marked.lists⟩,
          fun o object => (objects o).mpr object⟩
        · have roots := marked.roots o
          simp only [GlobalState.roots, List.map_append, List.map_cons, List.map_nil, List.mem_append, List.mem_singleton] at root roots
          rcases root with others | old | new
          · exact roots (.inl others)
          · exact roots (.inr old)
          · rw [new]
            exact wanted
        · obtain ⟨u', isUdata, object', rest⟩ := finalizable
          exact ⟨u', isUdata, (objects _).mp object', rest⟩
  | _ => exact ⟨within, fun _ => id⟩

theorem separateudata_within (all : Bool) (within : Within S g) : Within S (g.luaCSeparateudata all) := by
  have loop : ∀ (l : List GCObject) (g : GlobalState), Within S g → (∀ o ∈ l, o ∈ g.objects) →
      Within S (l.foldl (separate all) g) := by
    intro l
    induction l with
    | nil => exact fun g within _ => within
    | cons o l ih =>
      intro g within objects
      obtain ⟨step, kept⟩ := separate_within all within (objects o (List.mem_cons_self ..))
      exact ih _ step fun o' mem => kept o' (objects o' (List.mem_cons_of_mem _ mem))
  exact loop _ g within fun o mem => mem_objects.mpr (.inl (mem_after mem))

theorem marktmu_reaches (within : Within S g) : Reaches S g g.marktmu := by
  refine foldl_reaches within fun g' u mem _ within' => ?_
  have root : S (.userdata u) := within.roots _ (by simp [GlobalState.roots, mem])
  have white := makewhite_reaches (S := S) (o := .userdata u) within'.white
  exact white.trans (reallymarkobject_reaches (within'.reaches white) root)

/-! ## Weak tables -/

/-- What clearing needs of the set. -/
structure Strung (S : GCObject → Prop) (g : GlobalState) : Prop where
  fixed : ∀ o ∈ g.objects, g.marked o &&& fixedbit ≠ 0 → S o
  nonwhite : ∀ o ∈ g.objects, g.iswhite o = false → S o
  strings : ∀ h, S (.table h) → ∀ ts, .string ts ∈ tableRefs (g.heap.tables h) → S (.string ts)
  mapped : ∀ h, Mapped (g.heap.tables h).node

theorem strung_of_within (within : Within S g) : Strung S g :=
  ⟨within.fixed, within.nonwhite, fun _ mem _ ref => within.closed _ mem _ (string_strong ref), within.mapped⟩

theorem Strung.reaches (strung : Strung S g) (reaches : Reaches S g g') : Strung S g' := by
  have nonwhite := reaches.nonwhite
  have flags := reaches.flags
  obtain ⟨marked, gray, rfl⟩ := reaches.remarks
  refine ⟨fun o object isFixed => strung.fixed o object ?_, fun o object isMarked =>
    (nonwhite o isMarked).elim (strung.nonwhite o object) id, strung.strings, strung.mapped⟩
  rw [← fixed_of_flags (flags o)]
  exact isFixed

theorem iscleared_reaches {v : TValue} {iskey : Bool} (string : ∀ ts, v = .string ts → S (.string ts)) :
    Reaches S g (g.iscleared v iskey).2 := by
  unfold iscleared
  split
  next ts => exact white2gray_reaches (string ts rfl)
  next => exact .refl g
  next => split <;> exact .refl g

theorem cleararray_reaches (vs : List TValue) (strings : ∀ v ∈ vs, ∀ ts, v = .string ts → S (.string ts)) :
    Reaches S g (cleararray g vs).2 ∧ ∀ v ∈ (cleararray g vs).1, v ∈ vs ∨ v = .nil := by
  induction vs with
  | nil => exact ⟨.refl g, fun v mem => .inl mem⟩
  | cons v vs ih =>
    obtain ⟨rest, kept⟩ := ih fun v' mem => strings v' (List.mem_cons_of_mem _ mem)
    unfold cleararray
    simp only
    refine ⟨rest.trans (iscleared_reaches (strings v (List.mem_cons_self ..))), fun v' mem => ?_⟩
    cases List.mem_cons.mp mem with
    | inl here =>
      split at here
      · exact .inr here
      · exact .inl (here ▸ List.mem_cons_self ..)
    | inr there => exact (kept v' there).imp (List.mem_cons_of_mem _) id

/-- An entry that is left as it was, or has neither a string for its key nor a value. -/
def Lost (n n' : Node) : Prop := n' = n ∨ (n'.val = .nil ∧ ∀ ts, n'.key ≠ .string ts)

theorem clearnode_reaches {n : Node} (strings : ∀ ts, .string ts ∈ nodeRefs n → S (.string ts)) :
    Reaches S g (g.clearnode n).2 ∧ Lost n (g.clearnode n).1 := by
  unfold clearnode
  split
  next => exact ⟨.refl g, .inl rfl⟩
  next used =>
    have key : ∀ ts, n.key = .string ts → S (.string ts) := fun ts isKey =>
      strings ts (by simp [nodeRefs, used, isKey, gcvalue])
    have val : ∀ ts, n.val = .string ts → S (.string ts) := fun ts isVal =>
      strings ts (by simp [nodeRefs, isVal, gcvalue])
    have first : Reaches S g (g.iscleared n.key true).2 := iscleared_reaches key
    have emptied : Lost n (removeentry { n with val := .nil }) :=
      .inr ⟨removeentry_val _, fun ts isKey => (pruned_key (n := { n with val := .nil }) (by simpa using isKey)).2 rfl⟩
    simp only
    cases cleared : (g.iscleared n.key true).1 with
    | true => exact ⟨first, emptied⟩
    | false =>
      simp only [Bool.false_eq_true, if_false]
      refine ⟨first.trans (iscleared_reaches val), ?_⟩
      split
      · exact emptied
      · exact .inl rfl

theorem clearnodes_reaches (ns : List Node) (strings : ∀ n ∈ ns, ∀ ts, .string ts ∈ nodeRefs n → S (.string ts)) :
    Reaches S g (clearnodes g ns).2 ∧ (∀ n' ∈ (clearnodes g ns).1, ∃ n ∈ ns, Lost n n') ∧
      (Mapped ns → Mapped (clearnodes g ns).1) := by
  induction ns with
  | nil => exact ⟨.refl g, fun n mem => (List.not_mem_nil mem).elim, id⟩
  | cons n ns ih =>
    obtain ⟨rest, kept, mapped⟩ := ih fun n' mem => strings n' (List.mem_cons_of_mem _ mem)
    unfold clearnodes
    simp only
    obtain ⟨step, lost⟩ := clearnode_reaches (g := (clearnodes g ns).2) (strings n (List.mem_cons_self ..))
    refine ⟨rest.trans step, fun n' mem => ?_, fun all => ?_⟩
    · cases List.mem_cons.mp mem with
      | inl here => exact ⟨n, List.mem_cons_self .., here ▸ lost⟩
      | inr there =>
        obtain ⟨old, mem', lost'⟩ := kept n' there
        exact ⟨old, List.mem_cons_of_mem _ mem', lost'⟩
    · obtain ⟨distinct, all'⟩ := List.pairwise_cons.mp all
      refine List.pairwise_cons.mpr ⟨fun n' mem ts isKey isKey' => ?_, mapped all'⟩
      obtain ⟨old, mem', lost'⟩ := kept n' mem
      rcases lost with same | ⟨-, noString⟩
      · rcases lost' with same' | ⟨-, noString'⟩
        · exact distinct old mem' ts (same ▸ isKey) (same' ▸ isKey')
        · exact noString' ts isKey'
      · exact noString ts isKey

theorem clearone_strung (strung : Strung S g) (mem : S o) : Strung S (clearone g o) := by
  cases o with
  | table h =>
    have strings := strung.strings h mem
    have array : ∃ array g₁, (if g.marked (.table h) &&& valueweak != 0 then g.cleararray (g.heap.tables h).array
        else ((g.heap.tables h).array, g)) = (array, g₁) ∧ Reaches S g g₁ ∧
        ∀ v ∈ array, v ∈ (g.heap.tables h).array ∨ v = .nil := by
      split
      · have cleared := cleararray_reaches (S := S) (g := g) (g.heap.tables h).array fun v mem' ts isString =>
          strings ts (mem_tableRefs.mpr (.inr (.inl ⟨v, mem', by simp [isString, gcvalue]⟩)))
        exact ⟨_, _, rfl, cleared.1, cleared.2⟩
      · exact ⟨_, _, rfl, .refl g, fun v => .inl⟩
    obtain ⟨array, g₁, isArray, first, values⟩ := array
    obtain ⟨second, nodes, mapped⟩ := clearnodes_reaches (S := S) (g := g₁) (g.heap.tables h).node fun n mem' ts ref =>
      strings ts (by
        unfold nodeRefs at ref
        split at ref
        · cases ref
        next used => exact mem_tableRefs.mpr (.inr (.inr ⟨n, mem', used, by simpa using ref⟩)))
    have result : g.clearone (.table h) = (g₁.clearnodes (g.heap.tables h).node).2.setTable h
        { g.heap.tables h with array, node := (g₁.clearnodes (g.heap.tables h).node).1 } := by
      unfold clearone
      simp only
      rw [isArray]
    rw [result]
    have done := strung.reaches (first.trans second)
    have heap : (g₁.clearnodes (g.heap.tables h).node).2.heap = g.heap := by
      obtain ⟨_, _, same⟩ := (first.trans second).remarks
      rw [same]
    have old := strung.mapped h
    generalize g₁.clearnodes (g.heap.tables h).node = cleared at nodes mapped done heap ⊢
    refine ⟨done.fixed, done.nonwhite, fun h' mem' ts ref => ?_, fun h' => ?_⟩
    · by_cases here : h' = h
      · subst here
        rw [setTable_self, mem_tableRefs] at ref
        refine strings ts (mem_tableRefs.mpr ?_)
        refine ref.imp id (.imp ?_ ?_)
        · rintro ⟨v, inArray, isValue⟩
          rcases values v inArray with same | empty
          · exact ⟨v, same, isValue⟩
          · rw [empty] at isValue
            cases isValue
        · rintro ⟨n', inNode, used, ref'⟩
          obtain ⟨n, inOld, lost⟩ := nodes n' inNode
          rcases lost with same | ⟨empty, -⟩
          · subst same
            exact ⟨n', inOld, used, ref'⟩
          · exact absurd empty used
      · rw [setTable_other here] at ref
        exact done.strings h' mem' ts ref
    · by_cases here : h' = h
      · subst here
        rw [setTable_self]
        exact mapped old
      · rw [setTable_other here]
        exact done.mapped h'
  | _ => exact strung

theorem cleartable_strung {l : List GCObject} (strung : Strung S g) (mem : ∀ o ∈ l, S o) : Strung S (g.cleartable l) := by
  unfold cleartable
  induction l generalizing g with
  | nil => exact strung
  | cons o l ih =>
    exact ih (clearone_strung strung (mem o (List.mem_cons_self ..))) fun o' mem' => mem o' (List.mem_cons_of_mem _ mem')

/-! ## `atomic` -/

theorem preserved_strung (within : Within S g) : Strung S (preserved g) := by
  have separated := separateudata_within false (remarked_within within)
  have marked := propagateall_within (separated.reaches (marktmu_reaches separated))
  unfold preserved
  simp only
  generalize ((remarked g).luaCSeparateudata false).marktmu.propagateall = g₁ at marked ⊢
  exact cleartable_strung (strung_of_within marked) fun o mem => marked.lists o (List.mem_append_right _ mem)

/-- The object is there, and the sweep will spare it. -/
def Stays (g : GlobalState) (o : GCObject) : Prop := o ∈ g.objects ∧ g.condemned o = false

/-- What is not in the set is condemned. -/
theorem atomic_kept (inv : Invariant (waits g) g) (marks : g.gcstate = .propagate) (within : Within S g) :
    (∀ o, Stays g.atomic o → S o) ∧ ∀ h, Mapped (g.atomic.heap.tables h).node := by
  have strung := preserved_strung within
  have marked := (preserved_marked inv.shape inv.sound (inv.marking marks)).1
  rw [atomic_eq]
  generalize preserved g = g₅ at strung marked ⊢
  refine ⟨fun o stays => ?_, strung.mapped⟩
  obtain ⟨object, spared⟩ := stays
  change o ∈ g₅.objects at object
  have shape := marked.shape
  have flipped := flip_condemned shape.white (shape.coloured o object) (marked.alive o object)
  rw [condemned_eq] at spared
  change condemnedMark (g₅.otherwhite ^^^ whitebits) (g₅.marked o) = false at spared
  rw [flipped] at spared
  cases white : g₅.iswhite o with
  | false => exact strung.nonwhite o object white
  | true =>
    refine strung.fixed o object ?_
    rw [iswhite_eq] at white
    rw [white] at spared
    simpa using spared

end Lunatik.Verified.WantedAtomic
