import Lunatik.Verified.NewObjects

/-! # The steps of the program

What the program may do keeps the invariant of the collector, in whatever phase that is.
-/

namespace Lunatik.Verified.MutatorSteps

open Lunatik.Library
open Lunatik.Lua (GCState setAt setAt_same setAt_other)
open Lunatik.Lua.Gc Lunatik.Lua.Gc.GlobalState
open Lunatik.Verified.Colours Lunatik.Verified.References Lunatik.Verified.Tricolor Lunatik.Verified.Propagation
open Lunatik.Verified.AtomicPhase Lunatik.Verified.CollectorInvariant Lunatik.Verified.UpvalueSteps
open Lunatik.Verified.CollectorSteps Lunatik.Verified.NewObjects

variable {pending : GCObject → Prop} {g g' : GlobalState} {o p : GCObject} {th h : Nat}

theorem HeldValue.alive {v : TValue} (inv : Invariant pending g) (held : g.HeldValue v) : ∀ r ∈ gcvalue v, Alive g r :=
  fun r isValue => inv.held (held r isValue)

/-! ## Stacks -/

/-- What is written to a stack is empty, and no slot comes into sight. -/
theorem setThread_shrinks {l : Thread} (inv : Invariant pending g) (gt : l.gt = (g.heap.threads th).gt)
    (stack : ∀ slot, l.stack slot = .nil ∨ l.stack slot = (g.heap.threads th).stack slot)
    (shown : ∀ slot < exposed l, l.stack slot = .nil ∨ slot < exposed (g.heap.threads th)) :
    Invariant pending (g.setThread th l) := by
  refine inv.setThread (fun r isValue => .inl (gt ▸ isValue)) (fun slot r isValue => ?_) fun slot below r isValue => ?_
  · cases stack slot with
    | inl empty =>
      rw [empty] at isValue
      cases isValue
    | inr same => exact .inl (same ▸ isValue)
  · cases shown slot below with
    | inl empty =>
      rw [empty] at isValue
      cases isValue
    | inr old => exact .inl old

theorem settop_invariant {n : Nat} (inv : Invariant pending g) : Invariant pending (g.settop th n) := by
  refine setThread_shrinks inv rfl (fun slot => ?_) fun slot below => ?_
  · simp only
    split
    · exact .inl rfl
    · exact .inr rfl
  · simp only
    split
    · exact .inl rfl
    next kept =>
      rw [lt_exposed] at below ⊢
      refine .inr (below.imp (fun lt => ?_) id)
      have lt' : slot < n := lt
      omega

/-- The calls of a thread change, and its top. -/
theorem setci_invariant {ci : List CallInfo} {top : Nat} (inv : Invariant pending g)
    (inside : ∀ slot, slot < top ∨ (∃ c ∈ ci, c.isLua = true ∧ slot < c.top) → slot < exposed (g.heap.threads th)) :
    Invariant pending (g.setThread th { g.heap.threads th with top, ci }) :=
  setThread_shrinks inv rfl (fun _ => .inr rfl) fun slot below => .inr (inside slot (lt_exposed.mp below))

theorem enter_invariant {n : Nat} {isLua : Bool} (inv : Invariant pending g) : Invariant pending (g.enter th n isLua) := by
  unfold enter
  cases isLua with
  | false =>
    refine setci_invariant inv fun slot below => lt_exposed.mpr (below.imp id fun inCall => ?_)
    obtain ⟨c, mem, lua, lt⟩ := inCall
    cases List.mem_cons.mp mem with
    | inl here =>
      rw [here] at lua
      cases lua
    | inr there => exact ⟨c, there, lua, lt⟩
  | true =>
    refine setci_invariant (settop_invariant inv) fun slot below => lt_exposed.mpr ?_
    rcases below with lt | ⟨c, mem, lua, lt⟩
    · exact .inl lt
    · have top : ((g.settop th n).heap.threads th).top = n := by simp [settop, GlobalState.setThread, setAt_same]
      cases List.mem_cons.mp mem with
      | inl here =>
        rw [here] at lt
        exact .inl (top.symm ▸ lt)
      | inr there => exact .inr ⟨c, there, lua, lt⟩

theorem leave_invariant (inv : Invariant pending g) : Invariant pending (g.leave th) :=
  setci_invariant inv fun slot below => lt_exposed.mpr (below.imp id fun inCall => by
    obtain ⟨c, mem, rest⟩ := inCall
    exact ⟨c, List.mem_of_mem_tail mem, rest⟩)

theorem restoretop_invariant (inv : Invariant pending g) (isLua : ∀ c ∈ (g.heap.threads th).ci.head?, c.isLua) :
    Invariant pending (g.restoretop th) := by
  refine setci_invariant inv fun slot below => lt_exposed.mpr ?_
  rcases below with lt | inCall
  · cases isCi : (g.heap.threads th).ci with
    | nil =>
      rw [isCi] at lt
      exact .inl lt
    | cons c cs =>
      rw [isCi] at lt isLua
      exact .inr ⟨c, List.mem_cons_self .., isLua c rfl, lt⟩
  · exact .inr inCall

theorem setcitop_invariant {n : Nat} (inv : Invariant pending g)
    (low : ∀ c ∈ (g.heap.threads th).ci.head?, c.isLua → n ≤ (g.heap.threads th).top) : Invariant pending (g.setcitop th n) := by
  refine setci_invariant inv fun slot below => lt_exposed.mpr ?_
  rcases below with lt | ⟨c, mem, lua, lt⟩
  · exact .inl lt
  · cases isCi : (g.heap.threads th).ci with
    | nil =>
      rw [isCi] at mem
      cases mem
    | cons c' cs =>
      rw [isCi] at mem low
      cases List.mem_cons.mp mem with
      | inl here =>
        rw [here] at lua lt
        have le := low c' rfl lua
        have lt' : slot < n := lt
        exact .inl (by omega)
      | inr there => exact .inr ⟨c, List.mem_cons_of_mem _ there, lua, lt⟩

/-! ## Roots -/

/-- The running thread and the metatables of the types, which the end of the mark phase looks at again. -/
theorem reroot_invariant {running : Nat} {mt : List (Option Nat)} (inv : Invariant pending g)
    (roots : ∀ o ∈ { g with running, mt }.roots, Alive g o) : Invariant pending { g with running, mt } := by
  have shape := inv.shape
  refine ⟨⟨shape.white, shape.nodup, shape.main, shape.closed, shape.opened, shape.uvhead, shape.distinct, shape.coloured,
    shape.fixed, shape.thread, shape.upval⟩, ⟨roots, inv.sound.refs⟩, inv.table, fun marks => ?_, inv.swept, inv.sweepstring,
    inv.sweepgc, inv.keyed⟩
  have marking := inv.marking marks
  exact ⟨marking.alive, marking.black, marking.gray, marking.listed, marking.distinct, marking.weak, marking.main,
    marking.registry⟩

theorem resume_invariant (inv : Invariant pending g) (alive : Alive g (.thread th)) :
    Invariant pending { g with running := th } := by
  refine reroot_invariant inv fun o root => ?_
  simp only [GlobalState.roots, List.cons_append, List.mem_cons] at root
  rcases root with main | here | rest
  · exact inv.sound.roots o (by simp [GlobalState.roots, main])
  · exact here ▸ alive
  · exact inv.sound.roots o (by
      simp only [GlobalState.roots, List.cons_append, List.mem_cons]
      exact .inr (.inr rest))

theorem typeMetatable_invariant {tag : Nat} {mt : Option Nat} (inv : Invariant pending g) (alive : ∀ h ∈ mt, Alive g (.table h)) :
    Invariant pending { g with mt := g.mt.set tag mt } := by
  refine reroot_invariant inv fun o root => ?_
  simp only [GlobalState.roots, List.mem_append, List.mem_flatMap] at root
  rcases root with (fromRoots | ⟨mt', mem, ref⟩) | waiting
  · exact inv.sound.roots o (by
      simp only [GlobalState.roots, List.mem_append]
      exact .inl (.inl fromRoots))
  · cases List.mem_or_eq_of_mem_set mem with
    | inl old => exact inv.sound.roots o (by
        simp only [GlobalState.roots, List.mem_append, List.mem_flatMap]
        exact .inl (.inr ⟨mt', old, ref⟩))
    | inr new =>
      rw [new] at ref
      simp only [Option.mem_toList, Option.map_eq_some_iff] at ref
      obtain ⟨h, isMt, rfl⟩ := ref
      exact alive h isMt
  · exact inv.sound.roots o (by
      simp only [GlobalState.roots, List.mem_append]
      exact .inr waiting)

/-! ## Tables -/

def keyRefs (t : Table) : List GCObject := t.node.flatMap fun n => (gcvalue n.key).toList

theorem mem_keyRefs {t : Table} {r : GCObject} : r ∈ keyRefs t ↔ ∃ n ∈ t.node, r ∈ gcvalue n.key := by
  simp [keyRefs]

-- luaC_barriert, of a value or of a metatable
def barriert (g : GlobalState) (h : Nat) : Option GCObject → GlobalState
  | none => g
  | some o => g.luaCObjbarriert h o

theorem luaCBarriert_eq {v : TValue} : g.luaCBarriert h v = barriert g h (gcvalue v) := by
  unfold luaCBarriert barriert
  cases gcvalue v <;> rfl

theorem barriert_waits {new : Option GCObject} : waits (barriert g h new) = waits g := by
  cases new with
  | none => rfl
  | some o =>
    unfold barriert luaCObjbarriert luaCBarrierback
    dsimp only
    split <;> rfl

/-- A table gets one more reference, or holds the key of an empty entry again, and the backward barrier follows. -/
theorem storetable_invariant {t : Table} (new : Option GCObject) (inv : Invariant (waits g) g) (object : .table h ∈ g.objects)
    (alive : ∀ r ∈ new, Alive g r)
    (refs : ∀ r ∈ tableRefs t, r ∈ tableRefs (g.heap.tables h) ∨ r ∈ new ∨ (r ∈ keyRefs (g.heap.tables h) ∧ Alive g r))
    (keys : ∀ r ∈ keyRefs t, r ∈ new ∨ r ∈ keyRefs (g.heap.tables h)) :
    Invariant (waits (barriert (g.setTable h t) h new)) (barriert (g.setTable h t) h new) := by
  rw [barriert_waits]
  have here : ∀ r, r ∈ (g.setTable h t).refs (.table h) ↔ r ∈ tableRefs t := fun r => by rw [refs_setTable, if_pos rfl]
  have free : ¬ waits g (.table h) := fun waiting => by
    obtain ⟨u, -, same⟩ := waiting
    cases same
  have written : Invariant (also (waits g) (.table h)) (g.setTable h t) := by
    refine inv.writeOne (fun _ => rfl) (fun o ne => (refs_setTable g h t).trans (if_neg ne))
      (fun h' ne => setTable_other fun same => ne (by rw [same])) fun r ref => ?_
    rcases refs r ((here r).mp ref) with old | isNew | ⟨-, isAlive⟩
    · exact .inl old
    · exact .inr (alive r isNew)
    · exact .inr isAlive
  have unlisted : g.gcstate = .propagate → .table h ∈ g.gray ++ g.grayagain ++ g.weak → g.isblack (.table h) = false :=
    fun marks mem => listed_gray (inv.marking marks) mem
  have oldKeys : g.gcstate = .propagate → g.isblack (.table h) = true → ∀ r ∈ keyRefs (g.heap.tables h),
      r ∈ g.objects ∧ g.iswhite r = false := fun marks isBlack r isKey => by
    obtain ⟨n, mem, isKey'⟩ := mem_keyRefs.mp isKey
    exact inv.keyed marks h object isBlack free n mem r isKey'
  have newRefs : g.gcstate = .propagate → g.isblack (.table h) = true → ∀ r ∈ (g.setTable h t).refs (.table h),
      r ∈ new ∨ g.iswhite r = false := fun marks isBlack r ref => by
    rcases refs r ((here r).mp ref) with old | isNew | ⟨isKey, -⟩
    · exact .inr ((inv.marking marks).black _ object isBlack free r old)
    · exact .inl isNew
    · exact .inr (oldKeys marks isBlack r isKey).2
  have newKeys : g.gcstate = .propagate → g.isblack (.table h) = true → ∀ n ∈ t.node, ∀ r ∈ gcvalue n.key,
      r ∈ g.objects ∧ (r ∈ new ∨ g.iswhite r = false) := fun marks isBlack n mem r isKey => by
    cases keys r (mem_keyRefs.mpr ⟨n, mem, isKey⟩) with
    | inl isNew => exact ⟨(alive r isNew).1, .inl isNew⟩
    | inr old =>
      obtain ⟨inside, nonwhite⟩ := oldKeys marks isBlack r old
      exact ⟨inside, .inr nonwhite⟩
  cases new with
  | none =>
    refine written.repend (fun marks => (written.marking marks).settle (fun isBlack r ref => ?_) (unlisted marks)) fun marks => ?_
    · exact (newRefs marks isBlack r ref).resolve_left (by simp)
    · intro h' object' isBlack free' n mem r isKey
      by_cases same : h' = h
      · subst same
        rw [setTable_self] at mem
        obtain ⟨inside, either⟩ := newKeys marks isBlack n mem r isKey
        exact ⟨inside, either.resolve_left (by simp)⟩
      · exact written.keyed marks h' object' isBlack (fun isPending => isPending.elim free' fun eq => same (by cases eq; rfl))
          n mem r isKey
  | some o =>
    refine Invariant.objbarriert written object unlisted (fun marks isBlack r ref => ?_) fun marks isBlack n mem r isKey => ?_
    · exact (newRefs marks isBlack r ref).imp (fun isNew => (Option.some.inj isNew).symm) id
    · rw [setTable_self] at mem
      obtain ⟨inside, either⟩ := newKeys marks isBlack n mem r isKey
      exact ⟨inside, either.imp (fun isNew => (Option.some.inj isNew).symm) id⟩

theorem mem_modify {l : List Node} {i : Nat} {f : Node → Node} {n : Node} (mem : n ∈ l.modify i f) :
    n ∈ l ∨ ∃ n', l[i]? = some n' ∧ n = f n' := by
  obtain ⟨j, found⟩ := List.mem_iff_getElem?.mp mem
  rw [List.getElem?_modify] at found
  cases old : l[j]? with
  | none =>
    rw [old] at found
    cases found
  | some n' =>
    rw [old] at found
    simp only [Option.map_eq_map, Option.map_some, Option.some.injEq] at found
    split at found
    next here =>
      subst here
      exact .inr ⟨n', old, found.symm⟩
    next =>
      rw [← found]
      exact .inl (List.mem_of_getElem? old)

/-- The array part. -/
theorem setarray_invariant {i : Nat} {v : TValue} (key : TValue) (inv : Invariant (waits g) g) (object : .table h ∈ g.objects)
    (alive : ∀ r ∈ gcvalue v, Alive g r) :
    Invariant (waits (g.settable h (.array i) key v)) (g.settable h (.array i) key v) := by
  simp only [settable, luaCBarriert_eq]
  refine storetable_invariant _ inv object alive (fun r ref => ?_) fun r isKey => .inr isKey
  rcases mem_tableRefs.mp ref with isMt | ⟨v', mem, isValue⟩ | entry
  · exact .inl (mem_tableRefs.mpr (.inl isMt))
  · cases List.mem_or_eq_of_mem_set mem with
    | inl old => exact .inl (mem_tableRefs.mpr (.inr (.inl ⟨v', old, isValue⟩)))
    | inr isNew => exact .inr (.inl (isNew ▸ isValue))
  · exact .inl (mem_tableRefs.mpr (.inr (.inr entry)))

-- a node with a new key, and with a new value
def setkey (t : Table) (i : Nat) (key : TValue) : Table := { t with node := t.node.modify i fun n => { n with key } }

def setval (t : Table) (i : Nat) (v : TValue) : Table := { t with node := t.node.modify i fun n => { n with val := v } }

-- the node that gets a key is empty
theorem newkey_invariant {i : Nat} {key : TValue} (inv : Invariant (waits g) g) (object : .table h ∈ g.objects)
    (alive : ∀ r ∈ gcvalue key, Alive g r) (empty : ∀ n ∈ (g.heap.tables h).node[i]?, n.val = .nil) :
    Invariant (waits (barriert (g.setTable h (setkey (g.heap.tables h) i key)) h (gcvalue key)))
      (barriert (g.setTable h (setkey (g.heap.tables h) i key)) h (gcvalue key)) := by
  refine storetable_invariant _ inv object alive (fun r ref => .inl ?_) fun r isKey => ?_
  · refine mem_tableRefs.mpr ((mem_tableRefs.mp ref).imp id (.imp id fun entry => ?_))
    obtain ⟨n, mem, used, ref'⟩ := entry
    rcases mem_modify mem with old | ⟨n', old, rfl⟩
    · exact ⟨n, old, used, ref'⟩
    · exact absurd (empty n' old) used
  · obtain ⟨n, mem, isKey'⟩ := mem_keyRefs.mp isKey
    rcases mem_modify mem with old | ⟨n', -, rfl⟩
    · exact .inr (mem_keyRefs.mpr ⟨n, old, isKey'⟩)
    · exact .inl isKey'

theorem setval_invariant {i : Nat} {v : TValue} (inv : Invariant (waits g) g) (object : .table h ∈ g.objects)
    (alive : ∀ r ∈ gcvalue v, Alive g r) (key : ∀ n ∈ (g.heap.tables h).node[i]?, ∀ r ∈ gcvalue n.key, Alive g r) :
    Invariant (waits (barriert (g.setTable h (setval (g.heap.tables h) i v)) h (gcvalue v)))
      (barriert (g.setTable h (setval (g.heap.tables h) i v)) h (gcvalue v)) := by
  refine storetable_invariant _ inv object alive (fun r ref => ?_) fun r isKey => ?_
  · rcases mem_tableRefs.mp ref with isMt | value | ⟨n, mem, used, ref'⟩
    · exact .inl (mem_tableRefs.mpr (.inl isMt))
    · exact .inl (mem_tableRefs.mpr (.inr (.inl value)))
    · rcases mem_modify mem with old | ⟨n', old, rfl⟩
      · exact .inl (mem_tableRefs.mpr (.inr (.inr ⟨n, old, used, ref'⟩)))
      · cases ref' with
        | inl isKey => exact .inr (.inr ⟨mem_keyRefs.mpr ⟨n', List.mem_of_getElem? old, isKey⟩, key n' old r isKey⟩)
        | inr isValue => exact .inr (.inl isValue)
  · obtain ⟨n, mem, isKey'⟩ := mem_keyRefs.mp isKey
    rcases mem_modify mem with old | ⟨n', old, rfl⟩
    · exact .inr (mem_keyRefs.mpr ⟨n, old, isKey'⟩)
    · exact .inr (mem_keyRefs.mpr ⟨n', List.mem_of_getElem? old, isKey'⟩)

theorem barriert_kept {new : Option GCObject} : (barriert g h new).heap = g.heap ∧ (barriert g h new).objects = g.objects := by
  cases new with
  | none => exact ⟨rfl, rfl⟩
  | some o =>
    unfold barriert luaCObjbarriert luaCBarrierback
    dsimp only
    split
    · exact ⟨rfl, rfl⟩
    · exact ⟨rfl, rfl⟩

theorem barriert_alive {new : Option GCObject} (white : White g) (alive : Alive g o) : Alive (barriert g h new) o := by
  refine ⟨?_, ?_⟩
  · rw [barriert_kept.2]
    exact alive.1
  cases new with
  | none => exact alive.2
  | some o' =>
    unfold barriert luaCObjbarriert luaCBarrierback
    dsimp only
    split
    · exact (black2gray_isdead white).trans alive.2
    · exact alive.2

/-- The node part. -/
theorem setnode_invariant {i : Nat} {key v : TValue} (inv : Invariant (waits g) g) (object : .table h ∈ g.objects)
    (aliveKey : ∀ r ∈ gcvalue key, Alive g r) (alive : ∀ r ∈ gcvalue v, Alive g r)
    (empty : ∀ n ∈ (g.heap.tables h).node[i]?, n.key ≠ key → n.val = .nil) :
    Invariant (waits (g.settable h (.node i) key v)) (g.settable h (.node i) key v) := by
  simp only [settable, luaCBarriert_eq]
  by_cases same : ((g.heap.tables h).node.getD i ⟨.nil, .nil⟩).key = key
  · rw [if_pos same]
    refine setval_invariant inv object alive fun n found r isKey => aliveKey r ?_
    rw [List.getD_eq_getElem?_getD, Option.mem_def.mp found] at same
    exact same ▸ isKey
  · rw [if_neg same]
    have keyed := newkey_invariant (i := i) inv object aliveKey fun n found => empty n found fun eq => same (by
      rw [List.getD_eq_getElem?_getD, Option.mem_def.mp found]
      exact eq)
    have later : ∀ r, Alive g r → Alive (barriert (g.setTable h (setkey (g.heap.tables h) i key)) h (gcvalue key)) r :=
      fun r isAlive => barriert_alive inv.shape.white isAlive
    have object' : .table h ∈ (barriert (g.setTable h (setkey (g.heap.tables h) i key)) h (gcvalue key)).objects := by
      rw [barriert_kept.2]
      exact object
    refine setval_invariant keyed object' (fun r isValue => later r (alive r isValue)) fun n found r isKey => later r (aliveKey r ?_)
    rw [barriert_kept.1, setTable_self] at found
    simp only [List.getElem?_modify, Option.mem_def] at found
    cases old : (g.heap.tables h).node[i]? with
    | none =>
      rw [old] at found
      cases found
    | some n' =>
      rw [old] at found
      simp only [Option.map_eq_map, Option.map_some, if_true, Option.some.injEq] at found
      rw [← found] at isKey
      exact isKey

theorem tableMetatable_invariant {mt : Option Nat} (inv : Invariant (waits g) g) (object : .table h ∈ g.objects)
    (alive : ∀ h' ∈ mt, Alive g (.table h')) :
    Invariant (waits (exec g (.tableMetatable h mt))) (exec g (.tableMetatable h mt)) := by
  have stored := storetable_invariant (t := { g.heap.tables h with metatable := mt }) (mt.map .table) inv object
    (fun r isMt => by
      obtain ⟨h', isMt', rfl⟩ := Option.map_eq_some_iff.mp isMt
      exact alive h' isMt') (fun r ref => ?_) fun r isKey => .inr isKey
  · cases mt with
    | none => exact stored
    | some h' => exact stored
  · rcases mem_tableRefs.mp ref with ⟨h', isMt, rfl⟩ | rest
    · exact .inr (.inl (Option.map_eq_some_iff.mpr ⟨h', isMt, rfl⟩))
    · exact .inl (mem_tableRefs.mpr (.inr rest))

/-- The entries of a table move. -/
theorem rehash_entries_invariant {array : List TValue} {node : List Node} (inv : Invariant pending g)
    (refs : ∀ o ∈ tableRefs { g.heap.tables h with array, node }, o ∈ tableRefs (g.heap.tables h))
    (keys : ∀ n ∈ node, ∀ o ∈ gcvalue n.key, ∃ n' ∈ (g.heap.tables h).node, o ∈ gcvalue n'.key) :
    Invariant pending (g.setTable h { g.heap.tables h with array, node }) := by
  refine inv.writeUnseen (fun _ => rfl) (fun o alive r ref => .inl ?_) fun h' n mem r isKey => ?_
  · change r ∈ (g.setTable h { g.heap.tables h with array, node }).refs o at ref
    rw [refs_setTable] at ref
    split at ref
    next here =>
      rw [here]
      exact refs r ref
    next => exact ref
  · change n ∈ ((g.setTable h { g.heap.tables h with array, node }).heap.tables h').node at mem
    by_cases here : h' = h
    · rw [here, setTable_self] at mem
      rw [here]
      exact keys n mem r isKey
    · rw [setTable_other here] at mem
      exact ⟨n, mem, isKey⟩

/-! ## Stores with a forward barrier -/

-- luaC_barrier, of a value or of an object
def barrier (g : GlobalState) (q : GCObject) : Option GCObject → GlobalState
  | none => g
  | some o => g.luaCObjbarrier q o

theorem luaCBarrier_eq {v : TValue} : g.luaCBarrier p v = barrier g p (gcvalue v) := by
  unfold luaCBarrier barrier
  cases gcvalue v <;> rfl

theorem barrier_gray {new : Option GCObject} (notBlack : g.isblack p = false) : barrier g p new = g := by
  cases new with
  | none => rfl
  | some o => simp [barrier, luaCObjbarrier, notBlack]

theorem barrier_waits {new : Option GCObject} : waits (barrier g p new) = waits g := by
  cases new with
  | none => rfl
  | some o =>
    unfold barrier luaCObjbarrier luaCBarrierf
    dsimp only
    split
    · split
      · have remarks := reallymarkobject_remarks (g := g) o
        obtain ⟨marked, gray, same⟩ := remarks
        rw [same]
        rfl
      · rfl
    · rfl

/-- What `p` holds is changed, and the forward barrier follows, for an object that is black where `p` is. -/
theorem store_to_invariant {q : GCObject} (heap : Heap) {new : Option GCObject} (inv : Invariant (waits g) g)
    (object : q ∈ g.objects) (alive : ∀ r ∈ new, Alive g r) (noTable : ∀ h, p ≠ .table h)
    (covered : g.gcstate = .propagate → p ∈ g.objects ∧ (g.isblack p = true → g.isblack q = true))
    (pointers : ∀ uv, (heap.upvals uv).v = (g.heap.upvals uv).v) (tables : heap.tables = g.heap.tables)
    (others : ∀ o, o ≠ p → { g with heap }.refs o = g.refs o)
    (refs : ∀ r ∈ { g with heap }.refs p, r ∈ g.refs p ∨ r ∈ new) :
    Invariant (waits (barrier { g with heap } q new)) (barrier { g with heap } q new) := by
  rw [barrier_waits]
  have written : Invariant (also (waits g) p) { g with heap } :=
    inv.writeOne pointers others (fun _ _ => by rw [tables]) fun r ref => (refs r ref).imp id (alive r)
  have unlisted : g.gcstate = .propagate → p ∈ g.gray ++ g.grayagain ++ g.weak → g.isblack p = false :=
    fun marks mem => listed_gray (inv.marking marks) mem
  have seen : g.gcstate = .propagate → ¬ waits g p → g.isblack p = true → ∀ r ∈ { g with heap }.refs p,
      r ∈ new ∨ g.iswhite r = false := fun marks free isBlack r ref => by
    cases refs r ref with
    | inl old => exact .inr ((inv.marking marks).black p (covered marks).1 isBlack free r old)
    | inr isNew => exact .inl isNew
  cases new with
  | none =>
    refine written.repend (fun marks => settle_unless (written.marking marks) (fun free isBlack r ref => ?_) (unlisted marks))
      fun marks => (written.keyed marks).settle noTable
    exact (seen marks free isBlack r ref).resolve_left (by simp)
  | some o =>
    exact Invariant.objbarrier written object (alive o rfl) noTable (fun marks => (covered marks).2) unlisted
      fun marks free isBlack r ref => (seen marks free isBlack r ref).imp (fun isNew => (Option.some.inj isNew).symm) id

/-- The same, where the barrier is for the object itself. -/
theorem store_invariant {heap : Heap} {new : Option GCObject} (inv : Invariant (waits g) g) (held : Alive g p)
    (alive : ∀ r ∈ new, Alive g r) (noTable : ∀ h, p ≠ .table h)
    (pointers : ∀ uv, (heap.upvals uv).v = (g.heap.upvals uv).v) (tables : heap.tables = g.heap.tables)
    (others : ∀ o, o ≠ p → { g with heap }.refs o = g.refs o)
    (refs : ∀ r ∈ { g with heap }.refs p, r ∈ g.refs p ∨ r ∈ new) :
    Invariant (waits (barrier { g with heap } p new)) (barrier { g with heap } p new) :=
  store_to_invariant heap inv held.1 alive noTable (fun _ => ⟨held.1, id⟩) pointers tables others refs

theorem storeClosure_invariant {cl : Nat} {c : Closure} (new : Option GCObject) (inv : Invariant (waits g) g)
    (held : Alive g (.function cl)) (alive : ∀ r ∈ new, Alive g r)
    (refs : ∀ r ∈ closureRefs c, r ∈ closureRefs (g.heap.closures cl) ∨ r ∈ new) :
    Invariant (waits (barrier (g.setClosure cl c) (.function cl) new)) (barrier (g.setClosure cl c) (.function cl) new) := by
  refine store_invariant inv held alive (by simp) (fun _ => rfl) rfl (fun o ne => (refs_setClosure g cl c).trans (if_neg ne)) fun r ref => ?_
  have here := refs_setClosure g (o := .function cl) cl c
  rw [if_pos rfl] at here
  exact refs r (here ▸ ref)

theorem storeUdata_invariant {u : Nat} (ud : Udata) (new : Option GCObject) (inv : Invariant (waits g) g)
    (held : Alive g (.userdata u)) (alive : ∀ r ∈ new, Alive g r)
    (refs : ∀ r ∈ (ud.metatable.map GCObject.table).toList ++ [.table ud.env], r ∈ g.refs (.userdata u) ∨ r ∈ new) :
    Invariant (waits (barrier (g.setUdata u ud) (.userdata u) new)) (barrier (g.setUdata u ud) (.userdata u) new) := by
  refine store_invariant inv held alive (by simp) (fun _ => rfl) rfl (fun o ne => (refs_setUdata g u ud).trans (if_neg ne)) fun r ref => ?_
  have here := refs_setUdata g (o := .userdata u) u ud
  rw [if_pos rfl] at here
  change r ∈ (g.setUdata u ud).refs (.userdata u) at ref
  rw [here] at ref
  exact refs r ref

theorem storeProto_invariant {f : Nat} {pr : Proto} (new : Option GCObject) (inv : Invariant (waits g) g)
    (held : Alive g (.proto f)) (alive : ∀ r ∈ new, Alive g r)
    (refs : ∀ r ∈ protoRefs pr, r ∈ protoRefs (g.heap.protos f) ∨ r ∈ new) :
    Invariant (waits (barrier (g.setProto f pr) (.proto f) new)) (barrier (g.setProto f pr) (.proto f) new) := by
  refine store_invariant inv held alive (by simp) (fun _ => rfl) rfl (fun o ne => (refs_setProto g f pr).trans (if_neg ne)) fun r ref => ?_
  have here := refs_setProto g (o := .proto f) f pr
  rw [if_pos rfl] at here
  exact refs r (here ▸ ref)

/-- A closed upvalue, with the barrier for it or for a function that is black where it is. -/
theorem storeOwn_invariant {q : GCObject} {uv : Nat} {v : TValue} (inv : Invariant (waits g) g) (object : q ∈ g.objects)
    (owned : Owned g uv) (alive : ∀ r ∈ gcvalue v, Alive g r)
    (covered : g.gcstate = .propagate → .upval uv ∈ g.objects ∧ (g.isblack (.upval uv) = true → g.isblack q = true)) :
    Invariant (waits (barrier (g.setUpVal uv { v := .own, value := v }) q (gcvalue v)))
      (barrier (g.setUpVal uv { v := .own, value := v }) q (gcvalue v)) := by
  have here : (g.setUpVal uv { v := .own, value := v }).heap.upvals uv = { v := .own, value := v } := setAt_same ..
  refine store_to_invariant (g.setUpVal uv { v := .own, value := v }).heap inv object alive (p := .upval uv) (by simp) covered
    (fun uv' => ?_) rfl (fun o ne => refs_setUpVal g uv _ ne) fun r ref => .inr ?_
  · by_cases same : uv' = uv
    · rw [same, here]
      exact owned.symm
    · exact congrArg UpVal.v (setAt_other _ _ same)
  · have value : (g.setUpVal uv { v := .own, value := v }).deref uv = v := by
      unfold deref
      rw [here]
    have ref' : r ∈ (gcvalue ((g.setUpVal uv { v := .own, value := v }).deref uv)).toList := ref
    rw [value] at ref'
    exact Option.mem_toList.mp ref'

/-- An open upvalue: the slot of a stack is written to, and a barrier does no harm. -/
theorem storeSlot_invariant {q : GCObject} {th slot uv : Nat} {v : TValue} (inv : Invariant (waits g) g)
    (object : q ∈ g.objects) (alive : ∀ r ∈ gcvalue v, Alive g r) (isOpen : .upval uv ∈ g.objects) (unowned : ¬ Owned g uv) :
    Invariant (waits (barrier (g.setobj th slot v) q (gcvalue v))) (barrier (g.setobj th slot v) q (gcvalue v)) := by
  have written : Invariant (waits g) (g.setobj th slot v) := setobj_invariant inv alive
  have notBlack := inv.shape.upval uv (inv.shape.mem_uvhead isOpen unowned)
  have black : g.isblack (.upval uv) ≠ true := by simp [notBlack]
  rw [barrier_waits]
  cases isValue : gcvalue v with
  | none => exact written
  | some o =>
    refine Invariant.objbarrier (p := .upval uv)
      (written.repend (fun marks => (written.marking marks).weaken fun _ => .inl) fun marks => (written.keyed marks).weaken fun _ => .inl)
      object (alive o isValue) (by simp) (fun _ isBlack => absurd isBlack black) (fun _ _ => notBlack)
      fun _ _ isBlack => absurd isBlack black

/-- Either kind of upvalue. -/
theorem setderef_invariant {q : GCObject} {uv : Nat} {v : TValue} (inv : Invariant (waits g) g) (object : q ∈ g.objects)
    (isUpval : .upval uv ∈ g.objects) (alive : ∀ r ∈ gcvalue v, Alive g r)
    (covered : g.gcstate = .propagate → g.isblack (.upval uv) = true → g.isblack q = true) :
    Invariant (waits ((g.setderef uv v).luaCBarrier q v)) ((g.setderef uv v).luaCBarrier q v) := by
  rw [luaCBarrier_eq]
  unfold setderef
  split
  next th slot isOpen => exact storeSlot_invariant inv object alive isUpval (by rw [Owned, isOpen]; simp)
  next owned => exact storeOwn_invariant inv object owned alive fun marks => ⟨isUpval, covered marks⟩

theorem withEnv_refs {c : Closure} {h : Nat} : ∀ r ∈ closureRefs (withEnv h c), r ∈ closureRefs c ∨ r ∈ some (GCObject.table h) := by
  intro r ref
  cases c with
  | c env upvalue =>
    cases List.mem_cons.mp ref with
    | inl here => exact .inr (congrArg some here.symm)
    | inr there => exact .inl (List.mem_cons_of_mem _ there)
  | lua env p upvals =>
    cases List.mem_cons.mp ref with
    | inl here => exact .inr (congrArg some here.symm)
    | inr there => exact .inl (List.mem_cons_of_mem _ there)

theorem withUpvalue_refs {c : Closure} {i : Nat} {v : TValue} :
    ∀ r ∈ closureRefs (withUpvalue i v c), r ∈ closureRefs c ∨ r ∈ gcvalue v := by
  intro r ref
  cases c with
  | c env upvalue =>
    simp only [withUpvalue, closureRefs, List.mem_cons, List.mem_flatMap, Option.mem_toList] at ref ⊢
    rcases ref with here | ⟨v', mem, isValue⟩
    · exact .inl (.inl here)
    · cases List.mem_or_eq_of_mem_set mem with
      | inl old => exact .inl (.inr ⟨v', old, isValue⟩)
      | inr new => exact .inr (new ▸ isValue)
  | lua env p upvals => exact .inl ref

-- an entry of an array of names or of prototypes
theorem mem_set_some {l : List (Option Nat)} {i n x : Nat} (mem : some x ∈ l.set i (some n)) : some x ∈ l ∨ x = n :=
  (List.mem_or_eq_of_mem_set mem).imp id Option.some.inj

theorem stores_invariant {s : Store} (inv : Invariant (waits g) g) (legal : g.Stores s) :
    Invariant (waits (g.store s)) (g.store s) := by
  cases s with
  | closureEnv cl h =>
    exact storeClosure_invariant (some (.table h)) inv (inv.held legal.1)
      (fun r isNew => Option.some.inj isNew ▸ inv.held legal.2) withEnv_refs
  | cUpvalue cl i v =>
    simp only [store, luaCBarrier_eq]
    exact storeClosure_invariant _ inv (inv.held legal.1) (HeldValue.alive inv legal.2) withUpvalue_refs
  | udataMetatable u mt =>
    have stored := storeUdata_invariant { g.heap.udata u with metatable := mt } (mt.map .table) inv
      (inv.held legal.1) (fun r isMt => by
        obtain ⟨h, isMt', rfl⟩ := Option.map_eq_some_iff.mp isMt
        exact inv.held (legal.2 h isMt')) fun r ref => ?_
    · cases mt with
      | none => exact stored
      | some h => exact stored
    · rcases List.mem_append.mp ref with isMt | isEnv
      · exact .inr (Option.mem_toList.mp isMt)
      · exact .inl (List.mem_append_right _ isEnv)
  | udataEnv u h =>
    refine storeUdata_invariant _ (some (.table h)) inv (inv.held legal.1)
      (fun r isNew => Option.some.inj isNew ▸ inv.held legal.2) fun r ref => ?_
    rcases List.mem_append.mp ref with isMt | isEnv
    · exact .inl (List.mem_append_left _ isMt)
    · exact .inr (congrArg some (List.mem_singleton.mp isEnv).symm)
  | threadGt th v =>
    have alive := inv.held legal.1
    have written : Invariant (waits g) (g.setThread th { g.heap.threads th with gt := v }) :=
      inv.setThread (fun r isValue => .inr (HeldValue.alive inv legal.2 r isValue)) (fun slot r isValue => .inl isValue)
        fun slot below r isValue => .inl below
    have notBlack : (g.setThread th { g.heap.threads th with gt := v }).isblack (.thread th) = false := inv.shape.thread th alive.1
    simp only [store, luaCBarrier_eq, barrier_gray notBlack]
    exact written
  | setupval uv v =>
    have alive := inv.held legal.1
    exact setderef_invariant inv alive.1 alive.1 (HeldValue.alive inv legal.2) fun _ => id
  | luaSetupvalue cl uv v =>
    obtain ⟨isFunction, ref, isValue, covered⟩ := legal
    have alive := inv.held isFunction
    exact setderef_invariant inv alive.1 (inv.sound.refs _ alive _ ref).1 (HeldValue.alive inv isValue) covered
  | protoConstant f i v =>
    simp only [store, luaCBarrier_eq]
    refine storeProto_invariant _ inv (inv.held legal.1) (HeldValue.alive inv legal.2) fun r ref => ?_
    rw [mem_protoRefs] at ref ⊢
    rcases ref with source | ⟨v', mem, isValue⟩ | rest
    · exact .inl (.inl source)
    · cases List.mem_or_eq_of_mem_set mem with
      | inl old => exact .inl (.inr (.inl ⟨v', old, isValue⟩))
      | inr new => exact .inr (new ▸ isValue)
    · exact .inl (.inr (.inr rest))
  | protoInner f i f' =>
    refine storeProto_invariant (some (.proto f')) inv (inv.held legal.1)
      (fun r isNew => Option.some.inj isNew ▸ inv.held legal.2) fun r ref => ?_
    rw [mem_protoRefs] at ref ⊢
    rcases ref with source | constant | upvalue | ⟨f'', mem, rfl⟩ | locvar
    · exact .inl (.inl source)
    · exact .inl (.inr (.inl constant))
    · exact .inl (.inr (.inr (.inl upvalue)))
    · cases mem_set_some mem with
      | inl old => exact .inl (.inr (.inr (.inr (.inl ⟨f'', old, rfl⟩))))
      | inr new => exact .inr (congrArg (fun f => some (GCObject.proto f)) new.symm)
    · exact .inl (.inr (.inr (.inr (.inr locvar))))
  | protoUpvalue f i ts =>
    refine storeProto_invariant (some (.string ts)) inv (inv.held legal.1)
      (fun r isNew => Option.some.inj isNew ▸ inv.held legal.2) fun r ref => ?_
    rw [mem_protoRefs] at ref ⊢
    rcases ref with source | constant | ⟨ts', mem, rfl⟩ | rest
    · exact .inl (.inl source)
    · exact .inl (.inr (.inl constant))
    · cases mem_set_some mem with
      | inl old => exact .inl (.inr (.inr (.inl ⟨ts', old, rfl⟩)))
      | inr new => exact .inr (congrArg (fun ts => some (GCObject.string ts)) new.symm)
    · exact .inl (.inr (.inr (.inr rest)))
  | protoLocvar f i ts =>
    refine storeProto_invariant (some (.string ts)) inv (inv.held legal.1)
      (fun r isNew => Option.some.inj isNew ▸ inv.held legal.2) fun r ref => ?_
    rw [mem_protoRefs] at ref ⊢
    rcases ref with source | constant | upvalue | inner | ⟨ts', mem, rfl⟩
    · exact .inl (.inl source)
    · exact .inl (.inr (.inl constant))
    · exact .inl (.inr (.inr (.inl upvalue)))
    · exact .inl (.inr (.inr (.inr (.inl inner))))
    · cases mem_set_some mem with
      | inl old => exact .inl (.inr (.inr (.inr (.inr ⟨ts', old, rfl⟩))))
      | inr new => exact .inr (congrArg (fun ts => some (GCObject.string ts)) new.symm)

theorem protoGrow_invariant {f k upvalues p locvars : Nat} (inv : Invariant pending g) :
    Invariant pending (g.protoGrow f k upvalues p locvars) := by
  refine inv.writeUnseen (fun _ => rfl) (fun o alive r ref => .inl ?_) fun h n mem r isKey => ⟨n, mem, isKey⟩
  change r ∈ (g.setProto f _).refs o at ref
  rw [refs_setProto] at ref
  split at ref
  next here =>
    rw [here]
    have empty : ∀ (x n : Nat) (l : List (Option Nat)), some x ∈ l ++ List.replicate n none → some x ∈ l := fun x n l mem => by
      simpa [List.mem_replicate] using mem
    show r ∈ protoRefs _
    rw [mem_protoRefs] at ref ⊢
    rcases ref with source | ⟨v, mem, isValue⟩ | ⟨ts, mem, same⟩ | ⟨f', mem, same⟩ | ⟨ts, mem, same⟩
    · exact .inl source
    · cases List.mem_append.mp mem with
      | inl old => exact .inr (.inl ⟨v, old, isValue⟩)
      | inr new =>
        rw [List.eq_of_mem_replicate new] at isValue
        cases isValue
    · exact .inr (.inr (.inl ⟨ts, empty _ _ _ mem, same⟩))
    · exact .inr (.inr (.inr (.inl ⟨f', empty _ _ _ mem, same⟩)))
    · exact .inr (.inr (.inr (.inr ⟨ts, empty _ _ _ mem, same⟩)))
  next => exact ref

/-! ## All events -/

theorem named_of_captures {c : Capture} (inv : Invariant pending g) (legal : g.Captures th c) : Named g th c := by
  cases c with
  | upval uv => exact inv.held legal
  | slot level uv => exact legal
  | new uv => trivial

/-- Whatever happens keeps the invariant. -/
theorem exec_invariant {e : Event} (inv : Invariant (waits g) g) (legal : Legal g e) :
    Invariant (waits (exec g e)) (exec g e) := by
  cases e with
  | singlestep => exact singlestep_invariant inv
  | resetSweep => exact resetSweep_invariant inv
  | markroot => exact markroot_invariant inv (.inr legal)
  | setobj th slot v => exact setobj_invariant inv (HeldValue.alive inv legal.2)
  | settop th n => exact settop_invariant inv
  | enter th n isLua =>
    have entered : Invariant (waits g) (g.enter th n isLua) := enter_invariant inv
    cases isLua with
    | false => exact entered
    | true => exact entered
  | leave th => exact leave_invariant inv
  | restoretop th => exact restoretop_invariant inv legal.2
  | setcitop th n => exact setcitop_invariant inv legal.2
  | resume th => exact resume_invariant inv (inv.held legal)
  | newlstr th slot str ts =>
    obtain ⟨made, here⟩ := luaSNewlstr_extends str inv legal.2
    exact made.setobj fun r isValue => Option.some.inj isValue ▸ here
  | newudata th slot env u =>
    obtain ⟨made, here⟩ := luaSNewudata_extends inv legal.2.2 (inv.held legal.2.1)
    exact made.setobj fun r isValue => Option.some.inj isValue ▸ here
  | newtable th slot narray nhash h =>
    obtain ⟨made, here⟩ := luaHNew_extends narray nhash inv legal.2
    exact made.setobj fun r isValue => Option.some.inj isValue ▸ here
  | newCclosure th slot env cl upvalue =>
    obtain ⟨-, isEnv, values, free⟩ := legal
    obtain ⟨made, here⟩ := newclosure_extends (c := .c env upvalue) inv free fun r ref => by
      simp only [closureRefs, List.mem_cons, List.mem_flatMap, Option.mem_toList] at ref
      rcases ref with rfl | ⟨v, mem, isValue⟩
      · exact inv.held isEnv
      · exact HeldValue.alive inv (values v mem) r isValue
    exact made.setobj fun r isValue => Option.some.inj isValue ▸ here
  | newLclosure th slot env cl p captures =>
    obtain ⟨writable, isEnv, isProto, named, unused, distinct, free⟩ := legal
    obtain ⟨made, here⟩ := newLclosure_extends inv (inv.held writable.1) (inv.held isEnv) (inv.held isProto)
      (fun c mem => named_of_captures inv (named c mem)) distinct free unused
    exact setobj_invariant made fun r isValue => Option.some.inj isValue ▸ here
  | newthread th slot th' =>
    obtain ⟨made, here⟩ := luaENewthread_extends inv legal.2 (inv.held legal.1.1)
    exact setobj_invariant made fun r isValue => Option.some.inj isValue ▸ here
  | newproto th slot f source =>
    obtain ⟨made, here⟩ := luaFNewproto_extends inv legal.2.1 fun ts isSource => inv.held (legal.2.2 ts isSource)
    exact made.setobj fun r isValue => Option.some.inj isValue ▸ here
  | protoGrow f k upvalues p locvars => exact protoGrow_invariant inv
  | settable h slot key v =>
    obtain ⟨isTable, isKey, isValue, empty⟩ := legal
    have object := (inv.held isTable).1
    cases slot with
    | array i => exact setarray_invariant key inv object (HeldValue.alive inv isValue)
    | node i =>
      exact setnode_invariant inv object (HeldValue.alive inv isKey) (HeldValue.alive inv isValue)
        fun n mem new => (empty n mem new).1
  | rehash h array node => exact rehash_entries_invariant inv legal.2.1 legal.2.2.1
  | tableMetatable h mt => exact tableMetatable_invariant inv (inv.held legal.1).1 fun h' isMt => inv.held (legal.2 h' isMt)
  | typeMetatable tag mt => exact typeMetatable_invariant inv fun h isMt => inv.held (legal h isMt)
  | store s => exact stores_invariant inv legal
  | close th level =>
    obtain ⟨closed, closes, -⟩ := luaFClose_invariant level inv (thread_root (inv.held legal).1)
    have kept : waits (g.luaFClose th level) = waits g := closes.waiting
    show Invariant (waits (g.luaFClose th level)) (g.luaFClose th level)
    rw [kept]
    exact closed

end Lunatik.Verified.MutatorSteps
