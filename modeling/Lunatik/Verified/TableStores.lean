import Lunatik.Verified.TableSizes

/-! # Stores into a table

What a table holds under each key, and how a store changes it.  A store first makes a slot for the
key, which leaves the contents as they are, and then writes the slot.
-/

namespace Lunatik.Verified

open Lunatik.Lua (TValue LuaNumber luaiNumeq luaiNumisnan)
open Lunatik.Lua.Ltable Lunatik.Library

variable {address : TValue → Nat} {t t' : Rep} {key : TValue} {slot : Slot}
    {grow : TValue → TableM Slot}

/-! ## Contents -/

structure TableInv (address : TValue → Nat) (t : Rep) : Prop extends Chains address t where
  small : t.sizearray < 2 ^ 31
  bits : t.lsizenode ≤ maxbits

/-- The value that the table has under a key. -/
def contents (address : TValue → Nat) (t : Rep) (key : TValue) : TValue :=
  match luaHGet address t key with
  | some slot => pointee t slot
  | none => .nil

theorem contents_of_get {found : Option Slot} (get : luaHGet address t key = some found) :
    contents address t key = pointee t found := by
  rw [contents, get]

theorem contents_nil : contents address t .nil = .nil := rfl

theorem same_values {v v' : TValue} (same : ∀ w, w ≠ .nil → (v = w ↔ v' = w)) : v = v' := by
  by_cases filled : v = .nil
  · by_cases filled' : v' = .nil
    · rw [filled, filled']
    · exact (same v' filled').mpr rfl
  · exact ((same v filled).mp rfl).symm

namespace TableInv

theorem contents_array (inv : TableInv address t) (inside : InArray t key) :
    contents address t key = t.array (arrayindex key - 1).toNat :=
  contents_of_get (luaHGet_array inside inv.small)

-- a key has one node
theorem node_unique (inv : TableInv address t) {i j : Nat} (proper : key ≠ .nil)
    (first : (t.node i).key = key) (second : (t.node j).key = key) : i = j :=
  inv.scatter.once i j key (keyAt_eq_some.mpr ⟨first, proper⟩) (keyAt_eq_some.mpr ⟨second, proper⟩)

theorem get_node (inv : TableInv address t) {i : Nat} (proper : key ≠ .nil)
    (holds : (t.node i).key = key) :
    luaHGet address t key = some (some (.node i)) := by
  have hashed : ¬ InArray t key := by
    rw [← holds] at proper ⊢
    exact inv.apart i proper
  rcases inv.luaHGet_node inv.small proper hashed with ⟨j, holds', get⟩ | ⟨absent, -⟩
  · rw [inv.node_unique proper holds holds']
    exact get
  · exact absurd holds (absent i)

theorem contents_node (inv : TableInv address t) {i : Nat} (proper : key ≠ .nil)
    (holds : (t.node i).key = key) :
    contents address t key = (t.node i).val := contents_of_get (inv.get_node proper holds)

theorem get_absent (inv : TableInv address t) (hashed : ¬ InArray t key)
    (absent : ∀ i, (t.node i).key ≠ key) :
    luaHGet address t key = some none := by
  by_cases proper : key = .nil
  · rw [proper]
    rfl
  · rcases inv.luaHGet_node inv.small proper hashed with ⟨j, holds, -⟩ | ⟨-, get⟩
    · exact absurd holds (absent j)
    · exact get

/-- The three places where a key can be. -/
theorem get_cases (inv : TableInv address t) (proper : key ≠ .nil) :
    (InArray t key ∧ luaHGet address t key = some (some (.array (arrayindex key - 1).toNat))) ∨
      (∃ i, ¬ InArray t key ∧ (t.node i).key = key ∧
        luaHGet address t key = some (some (.node i))) ∨
      (¬ InArray t key ∧ (∀ i, (t.node i).key ≠ key) ∧ luaHGet address t key = some none) := by
  by_cases inside : InArray t key
  · exact .inl ⟨inside, luaHGet_array inside inv.small⟩
  · rcases inv.luaHGet_node inv.small proper inside with ⟨i, holds, get⟩ | ⟨absent, get⟩
    · exact .inr (.inl ⟨i, inside, holds, get⟩)
    · exact .inr (.inr ⟨inside, absent, get⟩)

theorem slot_of_hashed (inv : TableInv address t) (proper : key ≠ .nil) (hashed : ¬ InArray t key)
    (found : luaHGet address t key = some (some slot)) : ∃ i, slot = .node i := by
  rcases inv.get_cases proper with ⟨inside, -⟩ | ⟨i, -, -, get⟩ | ⟨-, -, get⟩
  · exact absurd inside hashed
  · rw [get, Option.some.injEq, Option.some.injEq] at found
    exact ⟨i, found.symm⟩
  · rw [get] at found
    cases found

theorem get_ne_none (inv : TableInv address t) (key : TValue) : luaHGet address t key ≠ none := by
  intro endless
  by_cases proper : key = .nil
  · rw [proper] at endless
    cases endless
  · rcases inv.get_cases proper with ⟨-, get⟩ | ⟨i, -, -, get⟩ | ⟨-, -, get⟩ <;> rw [get]
      at endless <;> cases endless

theorem contents_hashed (inv : TableInv address t) (proper : key ≠ .nil) (hashed : ¬ InArray t key)
    {v : TValue} (filled : v ≠ .nil) : contents address t key = v ↔ NodeHolds t key v := by
  constructor
  · intro value
    rcases inv.luaHGet_node inv.small proper hashed with ⟨i, holds, get⟩ | ⟨-, get⟩
    · rw [contents_of_get get] at value
      exact ⟨i, holds, value⟩
    · rw [contents_of_get get] at value
      exact absurd value.symm filled
  · rintro ⟨i, holds, value⟩
    rw [inv.contents_node proper holds, value]

-- a key outside of the array has the same value where the same nodes hold it
theorem contents_congr (inv : TableInv address t) (inv' : TableInv address t')
    (hashed : ¬ InArray t key) (hashed' : ¬ InArray t' key)
    (same : ∀ v, v ≠ .nil → (NodeHolds t' key v ↔ NodeHolds t key v)) :
    contents address t' key = contents address t key := by
  by_cases proper : key = .nil
  · rw [proper, contents_nil, contents_nil]
  · refine same_values fun v filled => ?_
    rw [inv'.contents_hashed proper hashed' filled, inv.contents_hashed proper hashed filled]
    exact same v filled

-- the contents are those of the array and of the nodes
theorem contents_same (inv : TableInv address t) (inv' : TableInv address t')
    (array : t'.array = t.array) (sizearray : t'.sizearray = t.sizearray)
    (node : t'.node = t.node) : contents address t' = contents address t := by
  funext k
  have region : InArray t' k ↔ InArray t k := by rw [InArray, InArray, sizearray]
  by_cases inside : InArray t k
  · rw [inv.contents_array inside, inv'.contents_array (region.mpr inside), array]
  · refine inv.contents_congr inv' inside (region.not.mpr inside) fun v _ => ?_
    rw [NodeHolds, NodeHolds, node]

end TableInv

/-! ## Writing a slot -/

theorem index_unique {i : Nat} {k : TValue} (first : 1 ≤ arrayindex key) (second : 1 ≤ arrayindex k)
    (same : (arrayindex key - 1).toNat = i) (same' : (arrayindex k - 1).toNat = i) : key = k := by
  rw [eq_of_arrayindex first, eq_of_arrayindex second]
  congr 2
  omega

theorem TableInv.setArray (inv : TableInv address t) (inside : InArray t key) (v : TValue) :
    TableInv address (t.setSlot (.array (arrayindex key - 1).toNat) v) ∧
      contents address (t.setSlot (.array (arrayindex key - 1).toNat) v) =
        Function.update (contents address t) key v := by
  have chains : Chains address (t.setSlot (.array (arrayindex key - 1).toNat) v) :=
    ⟨inv.scatter, inv.outside, inv.free, inv.apart, inv.lastfree, inv.dummy⟩
  have inv' : TableInv address (t.setSlot (.array (arrayindex key - 1).toNat) v) :=
    ⟨chains, inv.small, inv.bits⟩
  refine ⟨inv', funext fun k => ?_⟩
  by_cases inside' : InArray t k
  · rw [inv'.contents_array inside']
    by_cases same : k = key
    · rw [same, Function.update_self]
      exact Function.update_self _ _ _
    · rw [Function.update_of_ne same, inv.contents_array inside']
      refine Function.update_of_ne (fun equal => ?_) _ _
      exact same (index_unique inside'.1 inside.1 equal rfl)
  · have different : k ≠ key := by
      rintro rfl
      exact inside' inside
    rw [Function.update_of_ne different]
    exact inv.contents_congr inv' inside' inside' fun v _ => Iff.rfl

theorem TableInv.setNodeVal (inv : TableInv address t) {i : Nat} (proper : key ≠ .nil)
    (holds : (t.node i).key = key) (v : TValue) :
    TableInv address (t.setSlot (.node i) v) ∧
      contents address (t.setSlot (.node i) v) = Function.update (contents address t) key v := by
  have here : (t.setSlot (.node i) v).node i = { t.node i with val := v } :=
    Function.update_self _ _ _
  have there : ∀ j, j ≠ i → (t.setSlot (.node i) v).node j = t.node j :=
    fun j other => Function.update_of_ne other _ _
  have keyKept : ∀ j, ((t.setSlot (.node i) v).node j).key = (t.node j).key := by
    intro j
    by_cases same : j = i
    · rw [same, here]
    · rw [there j same]
  have used : (t.node i).key ≠ .nil := by
    rw [holds]
    exact proper
  have keysEq : keyAt (t.setSlot (.node i) v) = keyAt t := by
    funext j
    rw [keyAt, keyAt, keyKept]
  have nextEq : nextOf (t.setSlot (.node i) v) = nextOf t := by
    funext j
    by_cases same : j = i
    · rw [same, nextOf, nextOf, here]
    · rw [nextOf, nextOf, there j same]
  have chains : Chains address (t.setSlot (.node i) v) := by
    constructor
    · rw [keysEq, nextEq]
      exact inv.scatter
    · intro j outside
      have inside := inv.used_lt used
      have outside' : t.sizenode ≤ j := outside
      rw [there j (by omega)]
      exact inv.outside j outside
    · intro j free
      rw [keyKept] at free
      rw [there j (fun same => used (same ▸ free))]
      exact inv.free j free
    · intro j used'
      rw [keyKept] at used' ⊢
      exact inv.apart j used'
    · refine ⟨inv.lastfree.1, fun real j low high => ?_⟩
      rw [keyKept]
      exact inv.lastfree.2 real j low high
    · intro isDummy
      have free := (inv.dummy isDummy).2.1
      have zero : i = 0 := by
        have inside := inv.used_lt used
        rw [Rep.sizenode, (inv.dummy isDummy).1] at inside
        omega
      rw [zero, free] at used
      exact absurd rfl used
  have inv' : TableInv address (t.setSlot (.node i) v) := ⟨chains, inv.small, inv.bits⟩
  refine ⟨inv', funext fun k => ?_⟩
  by_cases same : k = key
  · rw [same, Function.update_self, inv'.contents_node proper ((keyKept i).trans holds), here]
  · rw [Function.update_of_ne same]
    by_cases inside : InArray t k
    · rw [inv.contents_array inside, inv'.contents_array inside]
      rfl
    · refine inv.contents_congr inv' inside inside fun w _ => ?_
      have other : ∀ j, (t.node j).key = k → j ≠ i := by
        rintro j holds' rfl
        exact same (holds'.symm.trans holds)
      constructor
      · rintro ⟨j, holds', value⟩
        rw [keyKept] at holds'
        rw [there j (other j holds')] at value
        exact ⟨j, holds', value⟩
      · rintro ⟨j, holds', value⟩
        refine ⟨j, (keyKept j).trans holds', ?_⟩
        rw [there j (other j holds')]
        exact value

/-- Writing the slot of a key stores under the key. -/
theorem TableInv.setSlot (inv : TableInv address t)
    (found : luaHGet address t key = some (some slot)) (v : TValue) :
    TableInv address (t.setSlot slot v) ∧
      contents address (t.setSlot slot v) = Function.update (contents address t) key v := by
  have proper : key ≠ .nil := by
    rintro rfl
    cases found
  rcases inv.get_cases proper with ⟨inside, get⟩ | ⟨i, -, holds, get⟩ | ⟨-, -, get⟩
  · rw [get, Option.some.injEq, Option.some.injEq] at found
    rw [← found]
    exact inv.setArray inside v
  · rw [get, Option.some.injEq, Option.some.injEq] at found
    rw [← found]
    exact inv.setNodeVal proper holds v
  · rw [get] at found
    cases found

/-! ## Making a slot -/

/-- `slot` is the slot of the key in `t'`, which holds what `t` holds. -/
structure SlotReady (address : TValue → Nat) (t : Rep) (key : TValue) (slot : Slot) (t' : Rep) :
    Prop where
  inv : TableInv address t'
  found : luaHGet address t' key = some (some slot)
  contents : contents address t' = contents address t

-- the nodes that the hash part has for keys
def room (t : Rep) : Nat := if t.isDummy then 0 else t.sizenode

/-- The array part has this size, and so many nodes are free. -/
structure RoomFor (size n : Nat) (t : Rep) : Prop where
  sizearray : t.sizearray = size
  used : usedNodes t + n ≤ room t

theorem TableInv.inserted (inv : TableInv address t) (proper : key ≠ .nil)
    (hashed : ¬ InArray t key) (absent : ∀ i, (t.node i).key ≠ key) {j : Nat}
    (inserted : Inserted address t key j t') :
    SlotReady address t key (.node j) t' := by
  have region : ∀ k, InArray t' k ↔ InArray t k := by
    intro k
    rw [InArray, InArray, inserted.sizearray]
  have inv' : TableInv address t' :=
    ⟨inserted.chains, by rw [inserted.sizearray]; exact inv.small,
      by rw [inserted.lsizenode]; exact inv.bits⟩
  refine ⟨inv', inv'.get_node proper inserted.key_eq, funext fun k => ?_⟩
  by_cases same : k = key
  · rw [same, inv'.contents_node proper inserted.key_eq, inserted.val_eq,
      contents_of_get (inv.get_absent hashed absent)]
    rfl
  · by_cases inside : InArray t k
    · rw [inv.contents_array inside, inv'.contents_array ((region k).mpr inside), inserted.array]
    · exact inv.contents_congr inv' inside ((region k).not.mpr inside) fun v filled =>
        inserted.others k v same filled

theorem luaHSet_found (get : luaHGet address t key = some (some slot)) :
    luaHSet address grow key t = .ok slot t := by
  simp only [luaHSet, bind_run, get_run, get]
  rfl

theorem luaHSet_absent (proper : key ≠ .nil) (get : luaHGet address t key = some none) :
    luaHSet address grow key t = newkey address grow key t := by
  simp only [luaHSet, bind_run, get_run,
    get, if_neg proper]
  cases key with
  | number n => simp [luaiNumisnan, luaiNumeq]
  | _ => rfl

/-! ## The functions for numbers and strings -/

theorem luaHGet_castNumber {k : Int} (low : -2 ^ 31 ≤ k) (high : k < 2 ^ 31) :
    luaHGet address t (.number (castNumber k)) = luaHGetnum t k := by
  rw [luaHGet, number2int_castNumber low high, if_pos (by simp [luaiNumeq])]

theorem luaHSetnum_eq {k : Int} (low : -2 ^ 31 ≤ k) (high : k < 2 ^ 31)
    (grow : TValue → TableM Slot) :
    luaHSetnum address grow k = luaHSet address grow (.number (castNumber k)) := by
  funext t
  simp only [luaHSetnum, luaHSet, bind_run, get_run, luaHGet_castNumber low high]
  cases luaHGetnum t k with
  | none => rfl
  | some found =>
    cases found with
    | some slot => rfl
    | none => simp [luaiNumisnan, luaiNumeq]

theorem luaHSetstr_eq (s : List UInt8) (grow : TValue → TableM Slot) :
    luaHSetstr address grow s = luaHSet address grow (.string s) := by
  funext t
  simp only [luaHSetstr, luaHSet, bind_run, get_run, luaHGet]
  cases luaHGetstr t s with
  | none => rfl
  | some found =>
    cases found with
    | some slot => rfl
    | none => rfl

/-! ## Room for a key -/

/-- `luaH_set` has a slot for the key without growing the table, or no node is free for the key. -/
theorem TableInv.luaHSet_cases (inv : TableInv address t) (proper : key ≠ .nil)
    (grow : TValue → TableM Slot) :
    (∃ slot t', luaHSet address grow key t = .ok slot t' ∧ SlotReady address t key slot t' ∧
      SameShape t t' ∧
        usedNodes t' ≤ usedNodes t + hashedKeys t.sizearray [key]) ∨
      (luaHGet address t key = some none ∧ NoFreeNode address t key ∧
        luaHSet address grow key t = grow key { t with lastfree := 0 }) := by
  have unchanged : SameShape t t := ⟨rfl, rfl, rfl, rfl, rfl⟩
  rcases inv.get_cases proper with ⟨-, get⟩ | ⟨i, -, -, get⟩ | ⟨hashed, absent, get⟩
  · exact .inl ⟨_, t, luaHSet_found get, ⟨inv, get, rfl⟩, unchanged, Nat.le_add_right _ _⟩
  · exact .inl ⟨_, t, luaHSet_found get, ⟨inv, get, rfl⟩, unchanged, Nat.le_add_right _ _⟩
  · rw [luaHSet_absent proper get]
    rcases inv.newkey_cases proper absent hashed grow
      with ⟨j, t', result, inserted⟩ | ⟨noFree, result⟩
    · have one : hashedKeys t.sizearray [key] = 1 := hashedKeys_one hashed
      refine .inl ⟨_, t', result, inv.inserted proper hashed absent inserted,
        inserted.toSameShape, ?_⟩
      rw [one]
      exact inserted.used
    · exact .inr ⟨get, noFree, result⟩

-- with a free node for the key, the table does not grow
theorem TableInv.luaHSet_room (inv : TableInv address t) (proper : key ≠ .nil) {size n : Nat}
    (space : RoomFor size (hashedKeys size [key] + n) t) (grow : TValue → TableM Slot) :
    ∃ slot t', luaHSet address grow key t = .ok slot t' ∧ SlotReady address t key slot t' ∧
      SameShape t t' ∧
      RoomFor size n t' := by
  rcases inv.luaHSet_cases proper grow with ⟨slot, t', result, ready, shape,
    used⟩ | ⟨get, noFree, -⟩
  · refine ⟨slot, t', result, ready, shape, shape.sizearray.trans space.sizearray, ?_⟩
    have bound := space.used
    rw [space.sizearray] at used
    have same : room t' = room t := by
      rw [room, room, shape.isDummy, Rep.sizenode, shape.lsizenode, Rep.sizenode]
    omega
  · have bound := space.used
    have hashed : ¬ Indexes size key := by
      intro index
      rw [← space.sizearray] at index
      rw [luaHGet_array index inv.small] at get
      cases get
    have one := hashedKeys_one hashed
    rw [room] at bound
    rcases inv.all_used noFree.2 with isDummy | full
    · rw [if_pos isDummy] at bound
      omega
    · have all : usedNodes t = t.sizenode := by
        rw [usedNodes, List.countP_eq_length.mpr, List.length_range]
        intro i member
        exact decide_eq_true (full i (List.mem_range.mp member))
      split at bound <;> omega

end Lunatik.Verified
