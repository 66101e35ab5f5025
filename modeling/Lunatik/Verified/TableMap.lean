import Lunatik.Verified.TableResize

/-! # Tables are finite maps

A run is a list of stores and of calls of `luaH_resizearray` on a new table.  After every run the table
holds under each key what was stored there last, as long as no call reaches one of the places where
`resize` goes wrong: it can ask for more nodes than a table can have, and it grows the table again
while elements of the array are still to be moved to the nodes.
-/

namespace Lunatik.Verified

open Lunatik.Lua (TValue LuaNumber luaiNumeq luaiNumisnan)
open Lunatik.Lua.Ltable Lunatik.Library

variable {address : TValue → Nat} {t t' : Rep} {key : TValue}

/-! ## Growing -/

/-- `rehash` counts all elements, and the nodes that it asks for can be had. -/
def Rehashable (t : Rep) (key : TValue) : Prop :=
  (rehashSizes t key).2 ≤ maxasize ∧ ∀ i, maxasize ≤ i → i < t.sizearray → t.array i = .nil

theorem TableInv.grow_spec (inv : TableInv address t) (proper : key ≠ .nil)
    (fits : Rehashable t key) (depth : Nat) :
    ∃ slot t', grow address (depth + 1) key t = .ok slot t' ∧ SlotReady address t key slot t' ∧
      t'.sizearray ≤ maxasize := by
  obtain ⟨nasize, bound, sizes⟩ := rehashSizes_spec inv.small fits.2 key
  have nodes := fits.1
  rw [sizes] at nodes
  have small : nasize < 2 ^ 31 := Nat.lt_of_le_of_lt bound (by decide)
  obtain ⟨u, resized, inv', contents', space⟩ :=
    inv.resize_room (n := hashedKeys nasize [key]) small nodes
    (by rw [hashedKeys_append]) (grow address depth)
  obtain ⟨slot, t', result, ready, shape, -⟩ :=
    inv'.luaHSet_room (n := 0) proper space (grow address depth)
  refine ⟨slot, t', ?_, ⟨ready.inv, ready.found, ready.contents.trans contents'⟩, ?_⟩
  · simp only [grow, rehash, bind_run, get_run, sizes, resized, result]
  · rw [shape.sizearray, space.sizearray]
    exact bound

theorem numusearrayLoop_lastfree (n rounds lg i ause : Nat) (nums : Nat → Nat) :
    numusearrayLoop { t with lastfree := n } rounds lg i ause nums =
      numusearrayLoop t rounds lg i ause nums := by
  induction rounds generalizing lg i ause nums with
  | zero => rfl
  | succ rounds ih =>
    simp only [numusearrayLoop, ih]
    rfl

theorem numusehashLoop_lastfree (n i totaluse ause : Nat) (nums : Nat → Nat) :
    numusehashLoop { t with lastfree := n } i totaluse ause nums =
      numusehashLoop t i totaluse ause nums := by
  induction i generalizing totaluse ause nums with
  | zero => rfl
  | succ i ih => simp only [numusehashLoop, ih]

theorem rehashSizes_lastfree (n : Nat) : rehashSizes { t with lastfree := n } key =
    rehashSizes t key := by
  have array : ∀ nums, numusearray { t with lastfree := n } nums = numusearray t nums :=
    fun nums => numusearrayLoop_lastfree n _ _ _ _ nums
  have hash : ∀ nums, numusehash { t with lastfree := n } nums = numusehash t nums :=
    fun nums => numusehashLoop_lastfree n _ _ _ nums
  simp only [rehashSizes, array, hash]

-- newkey leaves lastfree at the first node before it calls rehash
theorem TableInv.lastfree_zero (inv : TableInv address t) (noFree : NoFreeNode address t key) :
    TableInv address { t with lastfree := 0 } ∧
      contents address { t with lastfree := 0 } = contents address t := by
  have passed : t.isDummy = false → ∀ i, 0 ≤ i → i < t.sizenode → (t.node i).key ≠ .nil := by
    intro real i _ inside
    rcases inv.all_used noFree.2 with isDummy | used
    · rw [real] at isDummy
      cases isDummy
    · exact used i inside
  have inv' : TableInv address { t with lastfree := 0 } :=
    ⟨⟨inv.scatter, inv.outside, inv.free, inv.apart, ⟨Nat.zero_le _, passed⟩,
      fun isDummy => ⟨(inv.dummy isDummy).1, (inv.dummy isDummy).2.1, rfl⟩⟩, inv.small, inv.bits⟩
  exact ⟨inv', inv.contents_same inv' rfl rfl rfl⟩

/-- A store that needs a node finds one, or the table can be grown. -/
def StoreFits (address : TValue → Nat) (t : Rep) (key : TValue) : Prop :=
  luaHGet address t key = some none → NoFreeNode address t key → Rehashable t key

theorem TableInv.luaHSet_spec (inv : TableInv address t) (proper : key ≠ .nil)
    (fits : StoreFits address t key) (depth : Nat) :
    ∃ slot t', luaHSet address (grow address (depth + 1)) key t = .ok slot t' ∧
      SlotReady address t key slot t' ∧
      (t'.sizearray = t.sizearray ∨ t'.sizearray ≤ maxasize) := by
  rcases inv.luaHSet_cases proper (grow address (depth + 1)) with
    ⟨slot, t', result, ready, shape, -⟩ | ⟨get, noFree, result⟩
  · exact ⟨slot, t', result, ready, .inl shape.sizearray⟩
  · obtain ⟨inv', contents'⟩ := inv.lastfree_zero noFree
    obtain ⟨nodes, within⟩ := fits get noFree
    rw [← rehashSizes_lastfree 0] at nodes
    obtain ⟨slot, t', grown, ready, bound⟩ := inv'.grow_spec proper ⟨nodes, within⟩ depth
    exact ⟨slot, t', result.trans grown, ⟨ready.inv, ready.found, ready.contents.trans contents'⟩,
      .inr bound⟩

/-! ## The keys in use -/

theorem TableInv.mem_liveKeys (inv : TableInv address t) :
    key ∈ liveKeys t ↔ contents address t key ≠ .nil := by
  have size := inv.small
  rw [liveKeys, List.mem_append, arrayKeys, nodeKeys]
  simp only [List.mem_map, List.mem_filter, List.mem_range, decide_eq_true_eq]
  constructor
  · rintro (⟨i, ⟨inside, filled⟩, rfl⟩ | ⟨i, ⟨-, filled⟩, rfl⟩)
    · have index : arrayindex (arrayKey i) = i + 1 := arrayindex_arrayKey (by omega)
      have inArray : InArray t (arrayKey i) := by
        rw [InArray, index]
        omega
      have position : (arrayindex (arrayKey i) - 1).toNat = i := by omega
      rw [inv.contents_array inArray, position]
      exact filled
    · have proper : (t.node i).key ≠ .nil := by
        intro free
        rw [inv.free i free] at filled
        exact filled rfl
      rw [inv.contents_node proper rfl]
      exact filled
  · intro filled
    have proper : key ≠ .nil := by
      rintro rfl
      exact filled rfl
    rcases inv.get_cases proper with ⟨inside, get⟩ | ⟨i, -, holds, get⟩ | ⟨-, -, get⟩
    · rw [contents_of_get get] at filled
      obtain ⟨low, high⟩ := inside
      exact .inl ⟨_, ⟨by omega, filled⟩, arrayKey_arrayindex low⟩
    · rw [contents_of_get get] at filled
      rw [← holds] at proper
      exact .inr ⟨i, ⟨inv.used_lt proper, filled⟩, holds⟩
    · rw [contents_of_get get] at filled
      exact absurd rfl filled

theorem TableInv.liveKeys_nodup (inv : TableInv address t) : (liveKeys t).Nodup := by
  have size := inv.small
  have used : ∀ i, (t.node i).val ≠ .nil → (t.node i).key ≠ .nil := by
    intro i filled free
    rw [inv.free i free] at filled
    exact filled rfl
  rw [liveKeys, List.nodup_append']
  refine ⟨?_, ?_, ?_⟩
  · rw [arrayKeys]
    refine (List.nodup_range.filter _).map_on fun i first j second same => ?_
    have low := List.mem_range.mp (List.mem_filter.mp first).1
    have high := List.mem_range.mp (List.mem_filter.mp second).1
    have index : arrayindex (arrayKey i) = i + 1 := arrayindex_arrayKey (by omega)
    have index' : arrayindex (arrayKey j) = j + 1 := arrayindex_arrayKey (by omega)
    rw [same] at index
    omega
  · rw [nodeKeys]
    refine (List.nodup_range.filter _).map_on fun i first j second same => ?_
    have filled : (t.node i).val ≠ .nil := by simpa using (List.mem_filter.mp first).2
    exact inv.node_unique (used i filled) rfl same.symm
  · intro k inArray inHash
    rw [arrayKeys] at inArray
    rw [nodeKeys] at inHash
    simp only [List.mem_map, List.mem_filter, List.mem_range, decide_eq_true_eq] at inArray inHash
    obtain ⟨i, ⟨inside, -⟩, rfl⟩ := inArray
    obtain ⟨j, ⟨-, filled⟩, same⟩ := inHash
    have index : arrayindex (arrayKey i) = i + 1 := arrayindex_arrayKey (by omega)
    refine inv.apart j (used j filled) ?_
    rw [same, InArray, index]
    omega

/-- A table with these keys only has at most as many. -/
theorem TableInv.length_liveKeys (inv : TableInv address t) {keys : List TValue}
    (cover : ∀ k, contents address t k ≠ .nil → k ∈ keys) (fresh : contents address t key = .nil)
    (member : key ∈ keys) :
    (liveKeys t).length + 1 ≤ keys.length := by
  have nodup : (key :: liveKeys t).Nodup :=
    List.nodup_cons.mpr ⟨fun live => inv.mem_liveKeys.mp live fresh, inv.liveKeys_nodup⟩
  have subset : key :: liveKeys t ⊆ keys := by
    intro k inside
    rcases List.mem_cons.mp inside with rfl | live
    · exact member
    · exact cover k (inv.mem_liveKeys.mp live)
  exact (List.subperm_of_subset nodup subset).length_le

/-! ## `luaH_resizearray` -/

-- the elements of the array that lose their place
def displaced (t : Rep) (nasize : Nat) : Nat :=
  (vanishing t nasize).countP fun i => t.array i ≠ .nil

/-- Every key outside of the new array has a node; or at least every displaced element has one, and the
table can be grown for the other keys. -/
def ResizeFits (t : Rep) (nasize : Nat) : Prop :=
  nasize < 2 ^ 31 ∧ (hashedKeys nasize (liveKeys t) ≤ room t ∨
    displaced t nasize ≤ room t ∧ nasize ≤ maxasize ∧ (liveKeys t).length ≤ maxasize)

theorem TableInv.room_le (inv : TableInv address t) : room t ≤ maxasize := by
  have bits : t.sizenode ≤ maxasize := Nat.pow_le_pow_right (by decide) inv.bits
  rw [room]
  split <;> omega

-- in a table with at most so many keys every store fits
theorem TableInv.storeFits (inv : TableInv address t) (small : t.sizearray ≤ maxasize)
    {keys : List TValue} (few : keys.length ≤ maxasize)
    (cover : ∀ k, contents address t k ≠ .nil → k ∈ keys) (member : key ∈ keys) :
    StoreFits address t key := by
  intro get _
  have within : ∀ i, maxasize ≤ i → i < t.sizearray → t.array i = .nil := by
    intro i low high
    omega
  obtain ⟨nasize, -, sizes⟩ := rehashSizes_spec inv.small within key
  have fresh : contents address t key = .nil := contents_of_get get
  have count := inv.length_liveKeys cover fresh member
  have nodes : hashedKeys nasize (liveKeys t ++ [key]) ≤ (liveKeys t ++ [key]).length :=
    List.countP_le_length
  rw [List.length_append, List.length_singleton] at nodes
  refine ⟨?_, within⟩
  rw [sizes]
  dsimp only
  omega

theorem TableInv.resize_displaced (inv : TableInv address t) {nasize : Nat}
    (displacedFit : displaced t nasize ≤ room t) (bound : nasize ≤ maxasize)
    (few : (liveKeys t).length ≤ maxasize) (depth : Nat) :
    ∃ t', resize address (grow address (depth + 1)) nasize (room t) t = .ok () t' ∧
      TableInv address t' ∧
      contents address t' = contents address t := by
  have small : nasize < 2 ^ 31 := Nat.lt_of_le_of_lt bound (by decide)
  have fromArray : hashedKeys nasize (pendingKeys
      ((vanishing t nasize).map (sliceNode t.array))) ≤ displaced t nasize := by
    rw [pendingKeys_slice, displaced, List.countP_eq_length_filter,
      ← List.length_map (f := arrayKey)]
    exact List.countP_le_length
  obtain ⟨v, result, pending, space⟩ :=
    inv.resize_slice (n := 0) small inv.room_le (by omega) (grow address (depth + 1))
  have live : ∀ n ∈ oldNodes t, n.val ≠ .nil → n.key ∈ liveKeys t := by
    intro n member used
    rw [inv.mem_liveKeys, (pending.values n member used).2]
    exact used
  have cover : ∀ k, contents address v k ≠ .nil → k ∈ liveKeys t := by
    intro k filled
    rcases pending.covered k with same | ⟨n, member, used, rfl⟩
    · rw [same] at filled
      exact inv.mem_liveKeys.mpr filled
    · exact live n member used
  rw [result]
  have run := reinsertNodes_spec address (grow address (depth + 1))
    (fun t' ps => t'.sizearray ≤ maxasize ∧ (∀ k, contents address t' k ≠ .nil → k ∈ liveKeys t) ∧
      ∀ n ∈ ps, n.val ≠ .nil → n.key ∈ liveKeys t) ?set ?skip (oldNodes t) v pending
    ⟨space.sizearray.trans_le bound, cover, live⟩
  · obtain ⟨t', loop, inv', contents', -⟩ := run
    exact ⟨t', loop, inv', contents'⟩
  case set =>
    rintro u n ps inv' ⟨small', cover', live'⟩ used proper
    have member := live' n List.mem_cons_self used
    obtain ⟨slot, t', set, ready, sizearray⟩ :=
      inv'.luaHSet_spec proper (inv'.storeFits small' few cover' member) depth
    have written := (ready.inv.setSlot ready.found n.val).2
    refine ⟨slot, t', set, ready, ?_, fun k filled => ?_,
      fun m later => live' m (List.mem_cons_of_mem n later)⟩
    · cases slot <;> exact sizearray.elim (fun same => same.trans_le small') id
    · rw [written, ready.contents] at filled
      by_cases same : k = n.key
      · rw [same]
        exact member
      · rw [Function.update_of_ne same] at filled
        exact cover' k filled
  case skip =>
    rintro u n ps ⟨small', cover', live'⟩ -
    exact ⟨small', cover', fun m later => live' m (List.mem_cons_of_mem n later)⟩

theorem TableInv.luaHResizearray_spec (inv : TableInv address t) {nasize : Nat}
    (fits : ResizeFits t nasize) (depth : Nat) :
    ∃ t', luaHResizearray address (depth + 1) nasize t = .ok () t' ∧ TableInv address t' ∧
      contents address t' = contents address t := by
  have unfolded : luaHResizearray address (depth + 1) nasize t =
      resize address (grow address (depth + 1)) nasize (room t) t := rfl
  rw [unfolded]
  obtain ⟨small, nodes | ⟨displacedFit, bound, few⟩⟩ := fits
  · obtain ⟨t', result, inv', contents', -⟩ :=
      inv.resize_room (n := 0) small inv.room_le nodes (grow address (depth + 1))
    exact ⟨t', result, inv', contents'⟩
  · exact inv.resize_displaced displacedFit bound few depth

/-- A call that does not make the array smaller always fits. -/
theorem TableInv.resizeFits_of_grows (inv : TableInv address t) {nasize : Nat}
    (small : nasize < 2 ^ 31) (grows : t.sizearray ≤ nasize) : ResizeFits t nasize := by
  have fromArray : hashedKeys nasize (arrayKeys t t.sizearray) = 0 := by
    have size := inv.small
    rw [hashedKeys, List.countP_eq_zero]
    intro k member
    rw [arrayKeys] at member
    obtain ⟨i, inside, rfl⟩ := List.mem_map.mp member
    have low := List.mem_range.mp (List.mem_filter.mp inside).1
    have index : arrayindex (arrayKey i) = i + 1 := arrayindex_arrayKey (by omega)
    have indexes : Indexes nasize (arrayKey i) := by
      rw [Indexes, index]
      omega
    simp [indexes]
  have fromNodes : (nodeKeys t t.sizenode).length ≤ room t := by
    rw [nodeKeys, List.length_map, room]
    split
    next isDummy =>
      have size : t.sizenode = 1 := by rw [Rep.sizenode, (inv.dummy isDummy).1, Nat.pow_zero]
      have free : (t.node 0).val = .nil := by
        rw [(inv.dummy isDummy).2.1]
        rfl
      rw [size]
      simp [List.range_succ, free]
    next =>
      have part :=
        List.length_filter_le (fun i => decide ((t.node i).val ≠ .nil)) (List.range t.sizenode)
      rw [List.length_range] at part
      exact part
  have nodes : hashedKeys nasize (nodeKeys t t.sizenode) ≤ (nodeKeys t t.sizenode).length :=
    List.countP_le_length
  refine ⟨small, .inl ?_⟩
  rw [liveKeys, hashedKeys_append]
  omega

/-! ## Runs -/

/-- The key and the value of a store; under nil nothing is stored. -/
def stored : TableOp → Option (TValue × TValue)
  | .set key v => if key = .nil then none else some (key, v)
  | .setnum key v => some (.number (castNumber key.toInt), v)
  | .setstr key v => some (.string key, v)
  | .resizearray _ => none

def lastStored (ops : List TableOp) (key : TValue) : TValue :=
  match (ops.filterMap stored).reverse.find? fun p => p.1 = key with
  | some p => p.2
  | none => .nil

/-- The step reaches none of the places where `resize` goes wrong. -/
def OpFits (address : TValue → Nat) (t : Rep) : TableOp → Prop
  | .set key _ => StoreFits address t key
  | .setnum key _ => StoreFits address t (.number (castNumber key.toInt))
  | .setstr key _ => StoreFits address t (.string key)
  | .resizearray nasize => ResizeFits t nasize

def resultState {α : Type} : EStateM.Result TableError Rep α → Rep
  | .ok _ t => t
  | .error _ t => t

/-- The tables that a list of operations leads to, where each step meets `fits`. -/
inductive TableRun (address : TValue → Nat) (depth : Nat) (fits : Rep → TableOp → Prop) :
    List TableOp → Rep → Prop where
  | new {narray nhash : Nat} {u t : Rep} (int : narray < 2 ^ 31)
    (made : luaHNew narray nhash u = .ok () t) :
      TableRun address depth fits [] t
  | step {ops : List TableOp} {t : Rep} (run : TableRun address depth fits ops t) (op : TableOp)
    (met : fits t op) :
      TableRun address depth fits (ops ++ [op]) (resultState (runOp address depth op t))

theorem lastStored_append (ops : List TableOp) (op : TableOp) :
    lastStored (ops ++ [op]) = match stored op with
      | some (key, v) => Function.update (lastStored ops) key v
      | none => lastStored ops := by
  funext k
  rw [lastStored, List.filterMap_append]
  cases store : stored op with
  | none => simp [store, lastStored]
  | some p =>
    obtain ⟨key, v⟩ := p
    by_cases same : key = k
    · subst same
      simp [store]
    · simp [store, same, Function.update_of_ne (Ne.symm same), lastStored]

theorem setnodevector_overflow {size : Nat} (large : maxasize < size) :
    setnodevector size t = .error .overflow t := by
  have bits := maxbits_lt_ceillog2 large
  have some : size ≠ 0 := by omega
  rw [setnodevector, if_neg some, if_pos bits]
  rfl

theorem luaHNew_spec {narray nhash : Nat} {u : Rep} (int : narray < 2 ^ 31)
    (made : luaHNew narray nhash u = .ok () t) :
    TableInv address t ∧ contents address t = fun _ => .nil := by
  obtain ⟨blank, blankSize, array, unfolded⟩ : ∃ blank :
      Rep, blank.sizearray = narray ∧ (∀ i, blank.array i = .nil) ∧
      luaHNew narray nhash u = setnodevector nhash blank := by
    refine ⟨_, ?_, ?_, rfl⟩
    · rfl
    · intro i
      exact ite_self _
  rw [unfolded] at made
  by_cases fits : nhash ≤ maxasize
  · rw [setnodevector_ok fits] at made
    cases made
    obtain ⟨cleared, -⟩ := withNodes_cleared (t := blank) fits blankSize fun i inside => by
      rw [array, ite_self]
    refine ⟨cleared.inv int, funext fun k => ?_⟩
    by_cases index : Indexes narray k
    · rw [cleared.contents_kept int index, array, ite_self]
    · exact cleared.contents_hashed int index
  · rw [setnodevector_overflow (Nat.lt_of_not_le fits)] at made
    cases made

theorem TableInv.set_spec (inv : TableInv address t) (proper : key ≠ .nil)
    (fits : StoreFits address t key) (depth : Nat) (v : TValue) :
    ∃ t', store (luaHSet address (grow address (depth + 1)) key) v t = .ok () t' ∧
      TableInv address t' ∧
      contents address t' = Function.update (contents address t) key v := by
  obtain ⟨slot, u, result, ready, -⟩ := inv.luaHSet_spec proper fits depth
  obtain ⟨inv', contents'⟩ := ready.inv.setSlot ready.found v
  rw [ready.contents] at contents'
  refine ⟨u.setSlot slot v, ?_, inv', contents'⟩
  simp only [store, bind, EStateM.bind, result]
  rfl

-- "index is nil"
theorem set_nil (grow : TValue → TableM Slot) (v : TValue) :
    store (luaHSet address grow .nil) v t = .error .indexNil t := rfl

/-- A step does to the contents what its store says, and it raises an error only for the key nil. -/
theorem TableInv.runOp_spec (inv : TableInv address t) {op : TableOp} (fits : OpFits address t op)
    (depth : Nat) :
    (∃ t', runOp address (depth + 1) op t = .ok () t' ∧ TableInv address t' ∧
        contents address t' = match stored op with
          | some (key, v) => Function.update (contents address t) key v
          | none => contents address t) ∨
      ∃ v, op = .set .nil v ∧ runOp address (depth + 1) op t = .error .indexNil t := by
  cases op with
  | set key v =>
    by_cases proper : key = .nil
    · rw [proper]
      exact .inr ⟨v, rfl, set_nil _ v⟩
    · rw [stored, if_neg proper]
      exact .inl (inv.set_spec proper fits depth v)
  | setnum key v =>
    have low : -2 ^ 31 ≤ key.toInt := BitVec.le_toInt key
    have high : key.toInt < 2 ^ 31 := BitVec.toInt_lt
    rw [runOp, luaHSetnum_eq low high]
    exact .inl (inv.set_spec (fun impossible => by cases impossible) fits depth v)
  | setstr key v =>
    rw [runOp, luaHSetstr_eq]
    exact .inl (inv.set_spec (fun impossible => by cases impossible) fits depth v)
  | resizearray nasize => exact .inl (inv.luaHResizearray_spec fits depth)

theorem tableRun_spec {depth : Nat} {ops : List TableOp}
    (run : TableRun address (depth + 1) (OpFits address) ops t) :
    TableInv address t ∧ contents address t = lastStored ops := by
  induction run with
  | new int made => exact luaHNew_spec int made
  | step run op met ih =>
    obtain ⟨inv, contents⟩ := ih
    rw [lastStored_append]
    rcases inv.runOp_spec met depth with ⟨t', result, inv', contents'⟩ | ⟨v, rfl, result⟩
    · rw [result, ← contents]
      exact ⟨inv', contents'⟩
    · rw [result]
      exact ⟨inv, contents⟩

/-- The chain invariant: from the main position of a key its node is reached, and the main position is
held by a key of that position. -/
def ChainInvariant (address : TValue → Nat) (t : Rep) : Prop :=
  ∀ i, (t.node i).key ≠ .nil →
    Reaches (nextOf t) (mainposition address t (t.node i).key) i ∧
      ∃ key, key ≠ .nil ∧ (t.node (mainposition address t (t.node i).key)).key = key ∧
        mainposition address t key = mainposition address t (t.node i).key

theorem Chains.chainInvariant (inv : Chains address t) : ChainInvariant address t := by
  intro i used
  have held : keyAt t i = some (t.node i).key := keyAt_eq_some.mpr ⟨rfl, used⟩
  obtain ⟨key, owner, home⟩ := inv.scatter.own i _ held
  obtain ⟨same, proper⟩ := keyAt_eq_some.mp owner
  exact ⟨inv.scatter.reach i _ held, key, proper, same, home⟩

-- the memory before `luaH_new`
def noTable : Rep where
  array := fun _ => .nil
  sizearray := 0
  node := fun _ => freeNode
  lsizenode := 0
  isDummy := true
  lastfree := 0
  arrayBlock := 0

end Lunatik.Verified
