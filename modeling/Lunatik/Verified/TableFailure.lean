import Lunatik.Library.StateRuns
import Lunatik.Lua.TableAlloc
import Lunatik.Verified.TableMap

/-! # Growing a table without memory

What the table holds after a `resize` that could not go on.  One that was refused the new nodes has
grown the array already, over keys that are in the old nodes; one that was refused the smaller array
has let go of the old nodes; and one that was made for an element on its way loses that element.
-/

namespace Lunatik.Verified

open Lunatik.Lua (TValue LuaNumber luaiNumeq luaiNumisnan)
open Lunatik.Lua.Ltable Lunatik.Library

variable {address : TValue → Nat} {granted : Allocator} {t t' : Rep} {key : TValue} {slot : Slot}
  {grow : TValue → TableM Slot} {old : TValue → TValue}

/-! ## Lookups -/

-- the value that luaH_get finds
def lookup (address : TValue → Nat) (t : Rep) (k : TValue) : Option TValue :=
  (luaHGet address t k).map (pointee t)

theorem contents_of_lookup {v : TValue} (found : lookup address t key = some v) :
    contents address t key = v := by
  rw [lookup, Option.map_eq_some_iff] at found
  obtain ⟨slot, get, value⟩ := found
  rw [contents_of_get get, value]

theorem TableInv.lookup_eq (inv : TableInv address t) (k : TValue) :
    lookup address t k = some (contents address t k) := by
  obtain ⟨found, get⟩ := Option.ne_none_iff_exists'.mp (inv.get_ne_none k)
  rw [lookup, contents_of_get get, get]
  rfl

theorem search_grownTo (size : Nat) (found : TValue → Bool) (rounds n : Nat) :
    search (grownTo t size) found rounds n = search t found rounds n := by
  induction rounds generalizing n with
  | zero => rfl
  | succ rounds ih =>
    rw [search, search]
    simp only [ih]
    rfl

theorem luaHGet_grownTo (inv : TableInv address t) {size : Nat} (small : size < 2 ^ 31)
    (larger : t.sizearray ≤ size) (outside : ¬ Indexes size key) :
    luaHGet address (grownTo t size) key = luaHGet address t key := by
  have any : ∀ found n, searchFrom (grownTo t size) found n = searchFrom t found n :=
    fun found n => search_grownTo size found _ n
  cases key with
  | nil => rfl
  | string s => exact any _ _
  | number n =>
    rw [luaHGet, luaHGet]
    by_cases isInt : luaiNumeq (castNumber (number2int n)) n = true
    · have index : arrayindex (.number n) = number2int n := by rw [arrayindex, if_pos isInt]
      rw [Indexes, index] at outside
      have inside : ¬ InArray t (.number n) := by
        rw [InArray, index]
        omega
      rw [InArray, index] at inside
      rw [if_pos isInt, if_pos isInt, luaHGetnum_node address (number2int_bounds n) outside small,
        luaHGetnum_node address (number2int_bounds n) inside inv.small]
      exact any _ _
    · rw [if_neg isInt, if_neg isInt]
      exact any _ _
  | _ => exact any _ _

theorem lookup_grownTo (inv : TableInv address t) {size : Nat} (small : size < 2 ^ 31)
    (larger : t.sizearray ≤ size) (k : TValue) :
    (Indexes size k ∧ ¬ Indexes t.sizearray k → lookup address (grownTo t size) k = some .nil) ∧
      (¬ (Indexes size k ∧ ¬ Indexes t.sizearray k) →
        lookup address (grownTo t size) k = some (contents address t k)) := by
  by_cases index : Indexes size k
  · have get : luaHGet address (grownTo t size) k = some (some (.array (arrayindex k - 1).toNat)) :=
      luaHGet_array index small
    rw [lookup, get]
    obtain ⟨low, high⟩ := index
    constructor
    · rintro ⟨-, outside⟩
      rw [Indexes] at outside
      have new : t.sizearray ≤ (arrayindex k - 1).toNat ∧ (arrayindex k - 1).toNat < size := by
        omega
      exact congrArg some (if_pos new)
    · intro kept
      have inside : InArray t k :=
        Classical.byContradiction fun outside => kept ⟨⟨low, high⟩, outside⟩
      have before : ¬ (t.sizearray ≤ (arrayindex k - 1).toNat ∧
          (arrayindex k - 1).toNat < size) := by
        have bound := inside.2
        omega
      rw [inv.contents_array inside]
      exact congrArg some (if_neg before)
  · refine ⟨fun hidden => absurd hidden.1 index, fun _ => ?_⟩
    have get : luaHGet address (grownTo t size) k = luaHGet address t k :=
      luaHGet_grownTo inv small larger index
    have hashed : ¬ InArray t k := by
      intro inside
      have bound := inside.2
      exact index ⟨inside.1, by omega⟩
    rw [← inv.lookup_eq, lookup, lookup, get]
    by_cases proper : k = .nil
    · rw [proper]
      rfl
    · rcases inv.luaHGet_node inv.small proper hashed
        with ⟨i, -, found⟩ | ⟨-, found⟩ <;> rw [found] <;> rfl

/-! ## Failures -/

-- the keys whose elements a resize that fails at this point no longer finds
def Hidden (point : FailPoint) (oldasize nasize : Nat) (k : TValue) : Prop :=
  match point with
  | .growArray => False
  | .tableOverflow => Indexes nasize k ∧ ¬ Indexes oldasize k
  | .newNodes => Indexes nasize k ∧ ¬ Indexes oldasize k
  | .shrinkArray => ¬ Indexes oldasize k

def LosesHidden (address : TValue → Nat) (old : TValue → TValue) (hidden : TValue → Prop)
    (t' : Rep) : Prop :=
  ∀ k, (hidden k → lookup address t' k = some .nil) ∧
    (¬ hidden k → lookup address t' k = some (old k))

-- no element has come in
def NoNew (address : TValue → Nat) (old : TValue → TValue) (t' : Rep) : Prop :=
  ∀ k, old k = .nil → contents address t' k = .nil

def Lost (address : TValue → Nat) (old : TValue → TValue) (t' : Rep) : Prop :=
  ∃ k, old k ≠ .nil ∧ contents address t' k = .nil

theorem LosesHidden.noNew {hidden : TValue → Prop} (loses : LosesHidden address old hidden t') :
    NoNew address old t' := by
  intro k none
  by_cases isHidden : hidden k
  · exact contents_of_lookup ((loses k).1 isHidden)
  · rw [contents_of_lookup ((loses k).2 isHidden), none]

/-- What is left of a table that could not be grown for a key, where `moving` says that the key is on
its way through another `resize`. -/
structure FailsTo (address : TValue → Nat) (moving : Bool) (old : TValue → TValue) (nested : Bool)
    (point : FailPoint)
    (oldasize nasize : Nat) (t' : Rep) : Prop where
  noNew : NoNew address old t'
  within : moving = true → nested = true
  lost : moving = false → nested = true → Lost address old t'
  hidden : moving = false → nested = false →
    LosesHidden address old (Hidden point oldasize nasize) t'

/-! ## The array through a call -/

-- an array that was not reallocated is the same
structure KeepsArray (t t' : Rep) : Prop where
  le : t.arrayBlock ≤ t'.arrayBlock
  same : t'.arrayBlock = t.arrayBlock → t'.array = t.array ∧ t'.sizearray = t.sizearray

theorem KeepsArray.trans {u : Rep} (first : KeepsArray t u) (second : KeepsArray u t') :
    KeepsArray t t' where
  le := first.le.trans second.le
  same block := by
    have before := first.le
    have after := second.le
    obtain ⟨array, size⟩ := first.same (by omega)
    obtain ⟨array', size'⟩ := second.same (by omega)
    exact ⟨array'.trans array, size'.trans size⟩

theorem KeepsArray.of_shape (shape : SameShape t t') : KeepsArray t t' :=
  ⟨shape.arrayBlock.ge, fun _ => ⟨shape.array, shape.sizearray⟩⟩

theorem setSlot_arrayBlock (slot : Slot) (v : TValue) :
    (t.setSlot slot v).arrayBlock = t.arrayBlock := by
  cases slot <;> rfl

-- the slot of a key that is not in the array is that of a node
theorem KeepsArray.setSlot (keeps : KeepsArray t t') (ready : SlotReady address t key slot t')
    (proper : key ≠ .nil) (hashed : ¬ InArray t key) (v : TValue) :
    KeepsArray t (t'.setSlot slot v) where
  le := by
    rw [setSlot_arrayBlock]
    exact keeps.le
  same block := by
    rw [setSlot_arrayBlock] at block
    obtain ⟨array, size⟩ := keeps.same block
    have hashed' : ¬ InArray t' key := by
      rw [InArray, size]
      exact hashed
    obtain ⟨i, rfl⟩ := ready.inv.slot_of_hashed proper hashed' ready.found
    exact ⟨array, size⟩

/-! ## A slot for a key -/

/-- What is asked of a program that grows the table for a key. -/
def GrowSpec (address : TValue → Nat) (moving : Bool) (grow : TValue → TableM Slot) : Prop :=
  ∀ key t, TableInv address t → key ≠ .nil → contents address t key = .nil →
    (∀ slot t', grow key t = .ok slot t' → SlotReady address t key slot t' ∧ KeepsArray t t') ∧
    ∀ nested point oldasize nasize t',
      grow key t = .error (.failed nested point oldasize nasize) t' →
      FailsTo address moving (contents address t) nested point oldasize nasize t'

theorem GrowSpec.luaHSet_ok {moving : Bool} (spec : GrowSpec address moving grow)
    (inv : TableInv address t) (proper : key ≠ .nil)
    (made : luaHSet address grow key t = .ok slot t') :
    SlotReady address t key slot t' ∧ KeepsArray t t' := by
  rcases inv.luaHSet_cases proper grow with ⟨slot', u, result, ready, shape, -⟩ | ⟨get,
    noFree, result⟩
  · rw [result] at made
    cases made
    exact ⟨ready, .of_shape shape⟩
  · obtain ⟨inv', contents'⟩ := inv.lastfree_zero noFree
    have absent : contents address { t with lastfree := 0 } key = .nil := by
      rw [contents', contents_of_get get]
      rfl
    rw [result] at made
    obtain ⟨ready, keeps⟩ := (spec key _ inv' proper absent).1 slot t' made
    exact ⟨⟨ready.inv, ready.found, ready.contents.trans contents'⟩, keeps.le, keeps.same⟩

theorem GrowSpec.luaHSet_error {moving nested : Bool} {point : FailPoint} {oldasize nasize : Nat}
    (spec : GrowSpec address moving grow) (inv : TableInv address t) (proper : key ≠ .nil)
    (failed : luaHSet address grow key t = .error (.failed nested point oldasize nasize) t') :
    contents address t key = .nil ∧
      FailsTo address moving (contents address t) nested point oldasize nasize t' := by
  rcases inv.luaHSet_cases proper grow with ⟨slot', u, result, -⟩ | ⟨get, noFree, result⟩
  · rw [result] at failed
    cases failed
  · obtain ⟨inv', contents'⟩ := inv.lastfree_zero noFree
    have absent : contents address t key = .nil := contents_of_get get
    rw [result] at failed
    have fails := (spec key _ inv' proper (by rw [contents', absent])).2 _ _ _ _ t' failed
    rw [contents'] at fails
    exact ⟨absent, fails⟩

/-! ## The loops of `resize` -/

theorem Unstored.noNew {ps : List Node} (pending : Unstored address old ps t) :
    NoNew address old t := by
  intro k none
  rcases pending.covered k with same | ⟨n, member, used, rfl⟩
  · rw [same, none]
  · have value := (pending.values n member used).2
    rw [none] at value
    exact absurd value.symm used

-- the element that the table could not be grown for is gone
theorem Unstored.lost {ps : List Node} {n : Node} {nested : Bool} {point : FailPoint}
    {oldasize nasize : Nat} (pending : Unstored address old ps t) (member : n ∈ ps)
    (used : n.val ≠ .nil) (spec : GrowSpec address true grow)
    (failed : luaHSet address grow n.key t = .error (.failed nested point oldasize nasize) t') :
    nested = true ∧ NoNew address old t' ∧ Lost address old t' := by
  obtain ⟨proper, value⟩ := pending.values n member used
  obtain ⟨absent, fails⟩ := spec.luaHSet_error pending.inv proper failed
  refine ⟨fails.within rfl, fun k none => fails.noNew k (pending.noNew k none), n.key, ?_,
    fails.noNew n.key absent⟩
  rw [value]
  exact used

theorem reinsertNodes_raise {n : Node} {e : TableError} (used : n.val ≠ .nil) (ps : List Node)
    (result : luaHSet address grow n.key t = .error e t') :
    reinsertNodes address grow (n :: ps) t = .error e t' := by
  rw [reinsertNodes, if_pos used]
  simp only [bind, EStateM.bind, result]

theorem GrowSpec.reinsertNodes_ok (spec : GrowSpec address true grow) (ps : List Node) (t : Rep)
    (pending : Unstored address old ps t) (done : reinsertNodes address grow ps t = .ok () t') :
    TableInv address t' ∧ contents address t' = old ∧ t.arrayBlock ≤ t'.arrayBlock ∧
      ((∀ n ∈ ps, n.val ≠ .nil → ¬ InArray t n.key) → KeepsArray t t') := by
  induction ps generalizing t with
  | nil =>
    cases done
    exact ⟨pending.inv, pending.contents_eq, le_rfl, fun _ => ⟨le_rfl, fun _ => ⟨rfl, rfl⟩⟩⟩
  | cons n ps ih =>
    by_cases unused : n.val = .nil
    · rw [reinsertNodes_skip unused] at done
      obtain ⟨inv', contents', le, keeps⟩ := ih t (pending.skip unused) done
      exact ⟨inv', contents', le, fun hashed => keeps fun m later =>
        hashed m (List.mem_cons_of_mem n later)⟩
    · have proper := (pending.values n List.mem_cons_self unused).1
      cases made : luaHSet address grow n.key t with
      | error e u =>
        rw [reinsertNodes_raise unused ps made] at done
        cases done
      | ok slot u =>
        rw [reinsertNodes_store unused ps made] at done
        obtain ⟨ready, keeps⟩ := spec.luaHSet_ok pending.inv proper made
        obtain ⟨inv', contents', le, keeps'⟩ := ih _ (pending.store unused ready) done
        rw [setSlot_arrayBlock] at le
        refine ⟨inv', contents', keeps.le.trans le, fun hashed => ?_⟩
        have one := keeps.setSlot ready proper (hashed n List.mem_cons_self unused) n.val
        by_cases block : u.arrayBlock = t.arrayBlock
        · have size := (one.same (by rw [setSlot_arrayBlock, block])).2
          refine one.trans (keeps' fun m later used => ?_)
          rw [InArray, size]
          exact hashed m (List.mem_cons_of_mem n later) used
        · -- the array has been reallocated, and stays so
          have first := keeps.le
          exact ⟨first.trans le, fun same => by omega⟩

theorem GrowSpec.reinsertNodes_error {nested : Bool} {point : FailPoint} {oldasize nasize : Nat}
    (spec : GrowSpec address true grow) (ps : List Node) (t : Rep)
    (pending : Unstored address old ps t) (failed : reinsertNodes address grow ps t =
      .error (.failed nested point oldasize nasize) t') :
    nested = true ∧ NoNew address old t' ∧ Lost address old t' := by
  induction ps generalizing t with
  | nil => cases failed
  | cons n ps ih =>
    by_cases unused : n.val = .nil
    · rw [reinsertNodes_skip unused] at failed
      exact ih t (pending.skip unused) failed
    · cases made : luaHSet address grow n.key t with
      | error e u =>
        rw [reinsertNodes_raise unused ps made] at failed
        cases failed
        exact pending.lost List.mem_cons_self unused spec made
      | ok slot u =>
        rw [reinsertNodes_store unused ps made] at failed
        obtain ⟨ready, -⟩ :=
          spec.luaHSet_ok pending.inv (pending.values n List.mem_cons_self unused).1 made
        exact ih _ (pending.store unused ready) failed

/-! ### The vanishing slice -/

theorem reinsertSlice_raise {i : Nat} {e : TableError} (used : t.array i ≠ .nil)
    (small : i < 2 ^ 31 - 1) (slice : List Nat)
    (result : luaHSet address grow (arrayKey i) t = .error e t') :
    reinsertSlice address grow (i :: slice) t = .error e t' := by
  rw [reinsertSlice_used used, luaHSetnum_arrayKey small, result]

-- the element is read after the call
theorem reinsertSlice_stale {i : Nat} (used : t.array i ≠ .nil) (small : i < 2 ^ 31 - 1)
    (slice : List Nat) (result : luaHSet address grow (arrayKey i) t = .ok slot t')
    (moved : t'.arrayBlock ≠ t.arrayBlock) :
    reinsertSlice address grow (i :: slice) t = .error .staleArray t' := by
  rw [reinsertSlice_used used, luaHSetnum_arrayKey small, result]
  exact if_pos moved

theorem GrowSpec.slice_step {ps : List Node} {i : Nat} {slice : List Nat}
    (spec : GrowSpec address true grow) (pending : Unstored address old
      ((i :: slice).map (sliceNode t.array) ++ ps) t) (outside : t.sizearray ≤ i)
    (small : i < 2 ^ 31 - 1) (used : t.array i ≠ .nil)
    (made : luaHSet address grow (arrayKey i) t = .ok slot t')
    (block : t'.arrayBlock = t.arrayBlock) :
    let u := t'.setSlot slot (t.array i)
    reinsertSlice address grow (i :: slice) t = reinsertSlice address grow slice u ∧
      u.array = t.array ∧
      u.sizearray = t.sizearray ∧ u.arrayBlock = t.arrayBlock ∧
      Unstored address old (slice.map (sliceNode u.array) ++ ps) u := by
  obtain ⟨ready, keeps⟩ := spec.luaHSet_ok pending.inv (arrayKey_ne_nil i) made
  have hashed : ¬ InArray t (arrayKey i) := by
    rw [InArray, arrayindex_arrayKey small]
    omega
  have stored := keeps.setSlot ready (arrayKey_ne_nil i) hashed (t.array i)
  have block' : (t'.setSlot slot (t.array i)).arrayBlock = t.arrayBlock :=
    (setSlot_arrayBlock _ _).trans block
  obtain ⟨array, size⟩ := stored.same block'
  have run := reinsertSlice_next used small slice made block
  rw [(keeps.same block).1] at run
  refine ⟨run, array, size, block', ?_⟩
  rw [array]
  have rest : Unstored address old (sliceNode t.array i :: (slice.map (sliceNode t.array) ++
    ps)) t := pending
  have filled : (sliceNode t.array i).val ≠ .nil := used
  exact rest.store filled ready

theorem GrowSpec.reinsertSlice_ok {ps : List Node} (spec : GrowSpec address true grow)
    (slice : List Nat) (t : Rep) (outside : ∀ i ∈ slice, t.sizearray ≤ i ∧ i < 2 ^ 31 - 1)
    (pending : Unstored address old (slice.map (sliceNode t.array) ++ ps) t)
    (done : reinsertSlice address grow slice t = .ok () t') :
    Unstored address old ps t' ∧ t'.array = t.array ∧ t'.sizearray = t.sizearray ∧
      t'.arrayBlock = t.arrayBlock := by
  induction slice generalizing t with
  | nil =>
    cases done
    exact ⟨pending, rfl, rfl, rfl⟩
  | cons i slice ih =>
    have later : ∀ j ∈ slice, t.sizearray ≤ j ∧ j < 2 ^ 31 - 1 :=
      fun j member => outside j (List.mem_cons_of_mem i member)
    obtain ⟨low, high⟩ := outside i List.mem_cons_self
    by_cases unused : t.array i = .nil
    · rw [reinsertSlice_skip unused] at done
      exact ih t later (pending.skip unused) done
    · cases made : luaHSet address grow (arrayKey i) t with
      | error e u =>
        rw [reinsertSlice_raise unused high slice made] at done
        cases done
      | ok slot u =>
        by_cases block : u.arrayBlock = t.arrayBlock
        · obtain ⟨run, array, size, block', rest⟩ :=
            spec.slice_step pending low high unused made block
          rw [run] at done
          obtain ⟨pending', array', size', block''⟩ := ih _ (by rw [size]; exact later) rest done
          exact ⟨pending', array'.trans array, size'.trans size, block''.trans block'⟩
        · rw [reinsertSlice_stale unused high slice made block] at done
          cases done

theorem GrowSpec.reinsertSlice_error {ps : List Node} {nested : Bool} {point : FailPoint}
    {oldasize nasize : Nat} (spec : GrowSpec address true grow) (slice : List Nat) (t : Rep)
    (outside : ∀ i ∈ slice, t.sizearray ≤ i ∧ i < 2 ^ 31 - 1)
    (pending : Unstored address old (slice.map (sliceNode t.array) ++ ps) t)
    (failed : reinsertSlice address grow slice t =
      .error (.failed nested point oldasize nasize) t') :
    nested = true ∧ NoNew address old t' ∧ Lost address old t' := by
  induction slice generalizing t with
  | nil => cases failed
  | cons i slice ih =>
    have later : ∀ j ∈ slice, t.sizearray ≤ j ∧ j < 2 ^ 31 - 1 :=
      fun j member => outside j (List.mem_cons_of_mem i member)
    obtain ⟨low, high⟩ := outside i List.mem_cons_self
    by_cases unused : t.array i = .nil
    · rw [reinsertSlice_skip unused] at failed
      exact ih t later (pending.skip unused) failed
    · cases made : luaHSet address grow (arrayKey i) t with
      | error e u =>
        rw [reinsertSlice_raise unused high slice made] at failed
        cases failed
        have first : sliceNode t.array i ∈ (i :: slice).map (sliceNode t.array) ++ ps :=
          List.mem_append_left _ List.mem_cons_self
        have filled : (sliceNode t.array i).val ≠ .nil := unused
        exact pending.lost first filled spec made
      | ok slot u =>
        by_cases block : u.arrayBlock = t.arrayBlock
        · obtain ⟨run, -, size, -, rest⟩ := spec.slice_step pending low high unused made block
          rw [run] at failed
          exact ih _ (by rw [size]; exact later) rest failed
        · rw [reinsertSlice_stale unused high slice made block] at failed
          cases failed

/-! ## The requests of `resize` -/

variable {failed : FailPoint → TableError}

theorem request_granted {point : FailPoint} (answer : granted point t = true) :
    request granted failed point t = .ok () t := by
  rw [request, bind_ok (get_run t), if_pos answer, pure_run]

theorem request_refused {point : FailPoint} (answer : granted point t = false) :
    request granted failed point t = .error (failed point) t := by
  have refused : ¬ granted point t = true := by simp [answer]
  rw [request, bind_ok (get_run t), if_neg refused, throw_run]

theorem setarrayvectorWith_granted (answer : granted .growArray t = true) (size : Nat) :
    setarrayvectorWith granted failed size t = .ok () (grownTo t size) := by
  rw [setarrayvectorWith, bind_ok (request_granted answer)]
  rfl

theorem setarrayvectorWith_refused (answer : granted .growArray t = false) (size : Nat) :
    setarrayvectorWith granted failed size t = .error (failed .growArray) t := by
  rw [setarrayvectorWith, bind_error (request_refused answer)]

theorem setnodevectorWith_cases (granted : Allocator) (failed : FailPoint → TableError) (t : Rep)
    (size : Nat) :
    (size ≤ maxasize ∧ setnodevectorWith granted failed size t = .ok () (withNodes t size)) ∨
      ∃ point, (point = .tableOverflow ∨ point = .newNodes) ∧
        setnodevectorWith granted failed size t = .error (failed point) t := by
  rcases Nat.lt_or_ge maxasize size with large | fits
  · have some : size ≠ 0 := by omega
    have bits := maxbits_lt_ceillog2 large
    refine .inr ⟨.tableOverflow, .inl rfl, ?_⟩
    simp only [setnodevectorWith, some, bits, ne_eq, not_false_eq_true, if_true]
    rfl
  · by_cases none : size = 0
    · refine .inl ⟨fits, ?_⟩
      simp only [setnodevectorWith, none, ne_eq, not_true_eq_false, if_false,
        ← setnodevector_ok (Nat.zero_le maxasize)]
    · have bits : ¬ maxbits < ceillog2 size := Nat.not_lt.mpr (ceillog2_le_maxbits (by omega) fits)
      cases answer : granted .newNodes t with
      | false =>
        refine .inr ⟨.newNodes, .inr rfl, ?_⟩
        simp only [setnodevectorWith, none, bits, ne_eq, not_false_eq_true, if_true, if_false,
          bind, EStateM.bind, request_refused answer]
      | true =>
        refine .inl ⟨fits, ?_⟩
        simp only [setnodevectorWith, none, bits, ne_eq, not_false_eq_true, if_true, if_false,
          bind, EStateM.bind, request_granted answer, setnodevector_ok fits]

theorem shrinkArrayWith_cases (address : TValue → Nat) (granted : Allocator)
    (failed : FailPoint → TableError) (grow : TValue → TableM Slot) (nasize : Nat) (t u : Rep) :
    let run := shrinkArrayWith address granted failed grow t.sizearray nasize u
    let loop := reinsertSlice address grow (vanishing t nasize) { u with sizearray := nasize }
    (∃ e v, loop = .error e v ∧ run = .error e v) ∨
      ∃ v, loop = .ok () v ∧
        (run = .error (failed .shrinkArray) v ∨
            run = .ok () { v with arrayBlock := v.arrayBlock + 1 }) := by
  intro run loop
  have unfolded : run = (reinsertSlice address grow (vanishing t nasize) >>= fun _ => do
      if nasize ≠ 0 then request granted failed .shrinkArray
      modify fun t => { t with arrayBlock := t.arrayBlock + 1 })
        { u with sizearray := nasize } := rfl
  rw [unfolded]
  cases result : loop with
  | error e v => exact .inl ⟨e, v, rfl, bind_error result⟩
  | ok _ v =>
    refine .inr ⟨v, rfl, ?_⟩
    rw [bind_ok result]
    by_cases none : nasize = 0
    · rw [if_neg (not_not.mpr none)]
      exact .inr rfl
    · rw [if_pos none]
      cases answer : granted .shrinkArray v with
      | false => exact .inl (bind_error (request_refused answer))
      | true => exact .inr (bind_ok (request_granted answer))

/-- A resize is refused at a request before the loops, or it has come to the loop over the old nodes, with
a smaller array by way of the other one. -/
theorem resizeWith_cases (address : TValue → Nat) (granted : Allocator) (moving : Bool)
    (grow : TValue → TableM Slot) (nasize nhsize : Nat) (t : Rep) :
    let run := resizeWith address granted moving grow nasize nhsize t
    let failed := fun point => TableError.failed moving point t.sizearray nasize
    let nodes := withNodes (beforeNodes t nasize) nhsize
    run = .error (failed .growArray) t ∨
      (∃ point, (point = .tableOverflow ∨ point = .newNodes) ∧
        run = .error (failed point) (beforeNodes t nasize)) ∨
      nhsize ≤ maxasize ∧
        (t.sizearray ≤ nasize ∧ run = reinsertNodes address grow (oldNodes t) nodes ∨
          nasize < t.sizearray ∧
              run = (shrinkArrayWith address granted failed grow t.sizearray nasize >>= fun _ =>
            reinsertNodes address grow (oldNodes t)) nodes) := by
  intro run failed nodes
  have unfolded : run = (do
      if t.sizearray < nasize then setarrayvectorWith granted failed nasize
      setnodevectorWith granted failed nhsize
      if nasize < t.sizearray then shrinkArrayWith address granted failed grow t.sizearray nasize
      reinsertNodes address grow (oldNodes t)) t := rfl
  rw [unfolded]
  have rest : (∃ point, (point = .tableOverflow ∨ point = .newNodes) ∧
      setnodevectorWith granted failed nhsize (beforeNodes t nasize) =
        .error (failed point) (beforeNodes t nasize)) ∨
      nhsize ≤ maxasize ∧ setnodevectorWith granted failed nhsize (beforeNodes t nasize) =
        .ok () nodes :=
    (setnodevectorWith_cases granted failed (beforeNodes t nasize) nhsize).symm
  rcases Nat.lt_or_ge t.sizearray nasize with grows | keeps
  · have before : beforeNodes t nasize = grownTo t nasize := if_pos grows
    rw [before] at rest ⊢
    rw [if_pos grows]
    cases answer : granted .growArray t with
    | false => exact .inl (bind_error (setarrayvectorWith_refused answer nasize))
    | true =>
      right
      rw [bind_ok (setarrayvectorWith_granted answer nasize)]
      rcases rest with ⟨point, which, refused⟩ | ⟨fits, made⟩
      · exact .inl ⟨point, which, bind_error refused⟩
      · exact .inr ⟨fits, .inl ⟨grows.le, (bind_ok made).trans
          (congrFun (if_neg (Nat.not_lt_of_gt grows)) _)⟩⟩
  · have before : beforeNodes t nasize = t := if_neg (Nat.not_lt_of_ge keeps)
    rw [before] at rest ⊢
    rw [if_neg (Nat.not_lt_of_ge keeps)]
    right
    rcases rest with ⟨point, which, refused⟩ | ⟨fits, made⟩
    · exact .inl ⟨point, which, bind_error refused⟩
    · refine .inr ⟨fits, ?_⟩
      by_cases shrinks : nasize < t.sizearray
      · exact .inr ⟨shrinks, (bind_ok made).trans (congrFun (if_pos shrinks) _)⟩
      · exact .inl ⟨Nat.le_of_not_lt shrinks, (bind_ok made).trans (congrFun (if_neg shrinks) _)⟩

end Lunatik.Verified
