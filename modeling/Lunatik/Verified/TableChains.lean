import Lunatik.Library.Scatter
import Lunatik.Library.StateRuns
import Lunatik.Lua.Ltable

/-! # The hash part of a table

`Chains` is the invariant of the nodes: every key is on the chain of its main position, a main
position that has keys elsewhere is held by one of its own, and a key occurs once.  It speaks of
all nodes with a key, also of those whose value is nil, because they stay linked.
-/

namespace Lunatik.Verified

open Lunatik.Lua (TValue LuaNumber luaiNumeq luaiNumisnan)
open Lunatik.Lua.Ltable Lunatik.Library

variable {address : TValue → Nat} {t : Rep}

/-! ## The invariant -/

def nextOf (t : Rep) (i : Nat) : Option Nat := (t.node i).next

/-- The key belongs to the array part. -/
def InArray (t : Rep) (key : TValue) : Prop := 1 ≤ arrayindex key ∧ arrayindex key ≤ t.sizearray

instance (t : Rep) (key : TValue) : Decidable (InArray t key) := inferInstanceAs (Decidable (_ ∧ _))

def keyAt (t : Rep) (i : Nat) : Option TValue :=
  if (t.node i).key = .nil then none else some (t.node i).key

structure Chains (address : TValue → Nat) (t : Rep) : Prop where
  scatter : Scatter (mainposition address t) (keyAt t) (nextOf t)
  outside : ∀ i, t.sizenode ≤ i → t.node i = freeNode
  free : ∀ i, (t.node i).key = .nil → t.node i = freeNode
  apart : ∀ i, (t.node i).key ≠ .nil → ¬ InArray t (t.node i).key
  lastfree : t.lastfree ≤ t.sizenode ∧
    (t.isDummy = false → ∀ i, t.lastfree ≤ i → i < t.sizenode → (t.node i).key ≠ .nil)
  dummy : t.isDummy = true → t.lsizenode = 0 ∧ t.node 0 = freeNode ∧ t.lastfree = 0

theorem keyAt_eq_none {i : Nat} : keyAt t i = none ↔ (t.node i).key = .nil := by
  rw [keyAt]
  split <;> simp_all

theorem keyAt_eq_some {i : Nat} {key : TValue} :
    keyAt t i = some key ↔ (t.node i).key = key ∧ key ≠ .nil := by
  rw [keyAt]
  split
  next none =>
    rw [none]
    constructor
    · intro impossible
      cases impossible
    · exact fun h => absurd h.1.symm h.2
  next some =>
    rw [Option.some.injEq]
    constructor
    · rintro rfl
      exact ⟨rfl, some⟩
    · exact fun h => h.1

/-! ## Main positions -/

theorem sizenode_pos (t : Rep) : 0 < t.sizenode := Nat.two_pow_pos _

theorem hashpow2_lt (t : Rep) (n : Nat) : hashpow2 t n < t.sizenode := by
  have small : n &&& (t.sizenode - 1) ≤ t.sizenode - 1 := Nat.and_le_right
  have := sizenode_pos t
  rw [hashpow2]
  omega

theorem hashmod_lt (t : Rep) (n : Nat) : hashmod t n < t.sizenode := by
  rw [hashmod, Rep.sizenode]
  cases t.lsizenode with
  | zero => exact Nat.mod_lt n (by decide)
  | succ l =>
    have positive : 0 < (2 ^ (l + 1) - 1) ||| 1 :=
      Nat.lt_of_lt_of_le Nat.zero_lt_one Nat.right_le_or
    have one : 1 < 2 ^ (l + 1) := Nat.one_lt_two_pow (by omega)
    have small : (2 ^ (l + 1) - 1) ||| 1 < 2 ^ (l + 1) := Nat.or_lt_two_pow (by omega) one
    exact Nat.lt_trans (Nat.mod_lt n positive) small

theorem mainposition_lt (address : TValue → Nat) (t : Rep) (key : TValue) :
    mainposition address t key < t.sizenode := by
  have positive := sizenode_pos t
  cases key with
  | number n =>
    simp only [mainposition, hashnum]
    split
    · exact positive
    · exact hashmod_lt t _
  | string s => exact hashpow2_lt t _
  | boolean b => exact hashpow2_lt t _
  | _ => exact hashmod_lt t _

theorem mainposition_congr {t' : Rep} (same : t'.lsizenode = t.lsizenode) (key : TValue) :
    mainposition address t' key = mainposition address t key := by
  simp only [mainposition, hashnum, hashpow2, hashmod, Rep.sizenode, same]

/-! ## Searching -/

namespace Chains

theorem used_lt (inv : Chains address t) {i : Nat} (used : (t.node i).key ≠ .nil) :
    i < t.sizenode := by
  by_contra outside
  rw [inv.outside i (Nat.le_of_not_lt outside)] at used
  exact used rfl

-- a chain has no more cells than there are nodes
theorem chain_length (inv : Chains address t) {i : Nat} {l : List Nat} (inside : i < t.sizenode)
    (follows : Follows (nextOf t) i l) : l.length ≤ t.sizenode :=
  follows.length_le inside fun p j points =>
    inv.used_lt (keyAt_eq_none.not.mp (inv.scatter.target p j points))

end Chains

theorem search_follows {found : TValue → Bool} {i : Nat} {l : List Nat}
    (follows : Follows (nextOf t) i l) (rounds : Nat) (enough : l.length ≤ rounds) :
    search t found rounds i = some ((l.find? fun j => found (t.node j).key).map .node) :=
  follows.loop_finds (fun _ i => by rw [search, nextOf]; cases (t.node i).next <;> rfl) rounds enough

/-- A search for a key from its main position finds the node of the key, if there is one. -/
theorem Chains.searchFrom_spec (inv : Chains address t) {key : TValue} (proper : key ≠ .nil)
    {found : TValue → Bool} (exact : ∀ k, found k = true ↔ k = key) :
    (∃ i, (t.node i).key = key ∧ searchFrom t found (mainposition address t key) =
      some (some (.node i))) ∨
      ((∀ i, (t.node i).key ≠ key) ∧ searchFrom t found (mainposition address t key) =
        some none) := by
  obtain ⟨l, follows⟩ := inv.scatter.ends (mainposition address t key)
  have length := inv.chain_length (mainposition_lt address t key) follows
  have result : search t found t.sizenode (mainposition address t key) =
      some ((l.find? fun j => found (t.node j).key).map .node) :=
        search_follows follows t.sizenode length
  cases first : l.find? fun j => found (t.node j).key with
  | some i =>
    have holds : found (t.node i).key = true := by
      have some := List.find?_some first
      exact some
    have holds : (t.node i).key = key := (exact _).mp holds
    refine .inl ⟨i, holds, ?_⟩
    rw [searchFrom, result, first]
    rfl
  | none =>
    refine .inr ⟨fun i holds => ?_, ?_⟩
    · obtain ⟨l', follows', member⟩ := inv.scatter.reach i key (keyAt_eq_some.mpr ⟨holds, proper⟩)
      obtain rfl := follows.deterministic follows'
      have absent := List.find?_eq_none.mp first i member
      exact absent ((exact _).mpr holds)
    · rw [searchFrom, result, first]
      rfl

/-! ## `luaH_get` -/

theorem rawequal_number (n : LuaNumber) (k : TValue) :
    (match k with | .number m => luaiNumeq m n | _ => false) = true ↔ k = .number n := by
  cases k <;> simp [luaiNumeq]

theorem rawequal_string (s : List UInt8) (k : TValue) :
    (match k with | .string s' => s' == s | _ => false) = true ↔ k = .string s := by
  cases k <;> simp

theorem number2int_bounds (n : LuaNumber) : -2 ^ 31 ≤ number2int n ∧ number2int n < 2 ^ 31 := by
  have low := BitVec.le_toInt (n.setWidth 32)
  have high : (n.setWidth 32).toInt < 2 ^ 31 := BitVec.toInt_lt
  exact ⟨low, high⟩

-- cast(unsigned int, key-1) is inside exactly for the indices of the array
theorem getnum_index {k : Int} {size : Nat} (low : -2 ^ 31 ≤ k) (high : k < 2 ^ 31)
    (small : size < 2 ^ 31) :
    ((k - 1) % 2 ^ 32).toNat < size ↔ 1 ≤ k ∧ k ≤ size := by
  omega

theorem luaHGetnum_array {k : Int} (low : 1 ≤ k) (high : k ≤ t.sizearray)
    (small : t.sizearray < 2 ^ 31) :
    luaHGetnum t k = some (some (.array (k - 1).toNat)) := by
  have index : ((k - 1) % 2 ^ 32).toNat = (k - 1).toNat := by omega
  rw [luaHGetnum, index, if_pos (by omega)]

theorem luaHGetnum_node (address : TValue → Nat) {k : Int} (bounds : -2 ^ 31 ≤ k ∧ k < 2 ^ 31)
    (hashed : ¬ (1 ≤ k ∧ k ≤ t.sizearray)) (small : t.sizearray < 2 ^ 31) :
    luaHGetnum t k = searchFrom t (fun key =>
      match key with | .number n => luaiNumeq n (castNumber k) | _ => false)
      (mainposition address t (.number (castNumber k))) := by
  have outside := (getnum_index bounds.1 bounds.2 small).not.mpr hashed
  rw [luaHGetnum, if_neg outside]
  rfl

theorem luaHGet_array {key : TValue} (inside : InArray t key) (small : t.sizearray < 2 ^ 31) :
    luaHGet address t key = some (some (.array (arrayindex key - 1).toNat)) := by
  obtain ⟨low, high⟩ := inside
  cases key with
  | number n =>
    simp only [arrayindex] at low high ⊢
    split at low
    next isInt =>
      rw [if_pos isInt] at high ⊢
      rw [luaHGet, if_pos isInt]
      exact luaHGetnum_array low high small
    next => omega
  | _ => simp only [arrayindex] at low; omega

/-- Outside of the array a key is looked up in the nodes. -/
theorem Chains.luaHGet_node (inv : Chains address t) (small : t.sizearray < 2 ^ 31) {key : TValue}
    (proper : key ≠ .nil) (hashed : ¬ InArray t key) :
    (∃ i, (t.node i).key = key ∧ luaHGet address t key = some (some (.node i))) ∨
      ((∀ i, (t.node i).key ≠ key) ∧ luaHGet address t key = some none) := by
  have any := inv.searchFrom_spec proper fun k => (beq_iff_eq : (k == key) = true ↔ k = key)
  cases key with
  | nil => exact absurd rfl proper
  | string s => exact inv.searchFrom_spec proper (rawequal_string s)
  | number n =>
    rw [luaHGet]
    by_cases isInt : luaiNumeq (castNumber (number2int n)) n = true
    · have same : castNumber (number2int n) = n := by simpa [luaiNumeq] using isInt
      have index : arrayindex (.number n) = number2int n := by rw [arrayindex, if_pos isInt]
      rw [InArray, index] at hashed
      rw [if_pos isInt, luaHGetnum_node address (number2int_bounds n) hashed small, same]
      exact inv.searchFrom_spec proper (rawequal_number n)
    · rw [if_neg isInt]
      exact any
  | _ => exact any

/-! ## A new key

The three ways in which `newkey` makes room, each with the nodes that it leaves. -/

/-- A node with this key and this value. -/
def NodeHolds (t : Rep) (key v : TValue) : Prop := ∃ i, (t.node i).key = key ∧ (t.node i).val = v

-- the number of nodes that have a key
def usedNodes (t : Rep) : Nat := (List.range t.sizenode).countP fun i => (t.node i).key ≠ .nil

structure SameShape (t t' : Rep) : Prop where
  array : t'.array = t.array
  sizearray : t'.sizearray = t.sizearray
  lsizenode : t'.lsizenode = t.lsizenode
  isDummy : t'.isDummy = t.isDummy
  arrayBlock : t'.arrayBlock = t.arrayBlock

/-- `key` has the node `j`, with nil for its value, and nothing else has changed. -/
structure Inserted (address : TValue → Nat) (t : Rep) (key : TValue) (j : Nat) (t' : Rep) : Prop
    extends SameShape t t' where
  chains : Chains address t'
  key_eq : (t'.node j).key = key
  val_eq : (t'.node j).val = .nil
  others : ∀ k v, k ≠ key → v ≠ .nil → (NodeHolds t' k v ↔ NodeHolds t k v)
  used : usedNodes t' ≤ usedNodes t + 1

theorem usedNodes_le {t t' : Rep} (same : t'.lsizenode = t.lsizenode) (j : Nat)
    (others : ∀ i, i ≠ j → (t'.node i).key ≠ .nil → (t.node i).key ≠ .nil) :
    usedNodes t' ≤ usedNodes t + 1 := by
  have size : t'.sizenode = t.sizenode := by rw [Rep.sizenode, same, Rep.sizenode]
  have bound : ∀ l : List Nat, l.Nodup → (l.countP fun i => (t'.node i).key ≠ .nil) ≤
      (l.countP fun i => (t.node i).key ≠ .nil) + if j ∈ l then 1 else 0 := by
    intro l nodup
    induction l with
    | nil => simp
    | cons i l ih =>
      obtain ⟨fresh, nodup⟩ := List.nodup_cons.mp nodup
      have rest := ih nodup
      rw [List.countP_cons, List.countP_cons]
      by_cases here : i = j
      · subst here
        rw [if_neg fresh] at rest
        rw [if_pos List.mem_cons_self]
        split <;> split <;> omega
      · have member : j ∈ i :: l ↔ j ∈ l := by simp [Ne.symm here]
        rw [if_congr member rfl rfl]
        by_cases used : (t'.node i).key ≠ .nil
        · rw [if_pos (by simpa using used), if_pos (by simpa using others i here used)]
          omega
        · rw [if_neg (by simpa using used)]
          omega
  have all := bound (List.range t.sizenode) List.nodup_range
  rw [usedNodes, usedNodes, size]
  split at all <;> omega

section
variable {key : TValue} {mp n : Nat}

theorem absent_keyAt (absent : ∀ i, (t.node i).key ≠ key) : ∀ i, keyAt t i ≠ some key :=
  fun i held => absent i (keyAt_eq_some.mp held).1

-- what is left to show when `key` has been added to the nodes
theorem Chains.added {t' : Rep} (inv : Chains address t) (shape : SameShape t t')
    (real : t.isDummy = false) (hashed : ¬ InArray t key)
    (scatter : Scatter (mainposition address t) (keyAt t') (nextOf t'))
    (keys : ∀ i, (t'.node i).key = key ∨ ∃ j, (t.node j).key = (t'.node i).key)
    (kept : ∀ i, (t'.node i).key = .nil → t'.node i = t.node i)
    (far : ∀ i, t.sizenode ≤ i → t'.node i = t.node i)
    (lastfree : t'.lastfree ≤ t.sizenode ∧ ∀ i, t'.lastfree ≤ i → i < t.sizenode →
      (t'.node i).key ≠ .nil) :
    Chains address t' := by
  have size : t'.sizenode = t.sizenode := by rw [Rep.sizenode, shape.lsizenode, Rep.sizenode]
  have homes : mainposition address t' = mainposition address t :=
    funext (mainposition_congr shape.lsizenode)
  have region : ∀ k, InArray t' k ↔ InArray t k := by
    intro k
    rw [InArray, InArray, shape.sizearray]
  constructor
  · rw [homes]
    exact scatter
  · intro i outside
    rw [size] at outside
    rw [far i outside]
    exact inv.outside i outside
  · intro i noKey
    have same := kept i noKey
    rw [same] at noKey ⊢
    exact inv.free i noKey
  · intro i used
    rw [region]
    rcases keys i with new | ⟨j, old⟩
    · rw [new]
      exact hashed
    · rw [← old] at used ⊢
      exact inv.apart j used
  · rw [size]
    exact ⟨lastfree.1, fun _ => lastfree.2⟩
  · intro isDummy
    rw [shape.isDummy, real] at isDummy
    cases isDummy

-- the main position is free
theorem Chains.takeMain (inv : Chains address t) (proper : key ≠ .nil)
    (absent : ∀ i, (t.node i).key ≠ key) (hashed : ¬ InArray t key) (real : t.isDummy = false)
    (mpEq : mainposition address t key = mp) (empty : (t.node mp).val = .nil) :
    Inserted address t key mp (t.setKey mp key) := by
  have here : (t.setKey mp key).node mp = { t.node mp with key } := Function.update_self _ _ _
  have there : ∀ i, i ≠ mp → (t.setKey mp key).node i = t.node i :=
    fun i other => Function.update_of_ne other _ _
  have shape : SameShape t (t.setKey mp key) := ⟨rfl, rfl, rfl, rfl, rfl⟩
  have nextEq : nextOf (t.setKey mp key) = nextOf t := by
    funext i
    by_cases same : i = mp
    · rw [same, nextOf, nextOf, here]
    · rw [nextOf, nextOf, there i same]
  have keysEq : keyAt (t.setKey mp key) = Function.update (keyAt t) (mainposition address t key)
      (some key) := by
    funext i
    by_cases same : i = mp
    · rw [same, mpEq, Function.update_self, keyAt_eq_some, here]
      exact ⟨rfl, proper⟩
    · rw [mpEq, Function.update_of_ne same, keyAt, keyAt, there i same]
  have mpLt : mp < t.sizenode := mpEq ▸ mainposition_lt address t key
  have chains : Chains address (t.setKey mp key) := by
    refine inv.added shape real hashed ?_ (fun i => ?_) (fun i noKey => ?_) (fun i outside => ?_)
      ⟨inv.lastfree.1, fun i low high => ?_⟩
    · rw [keysEq, nextEq]
      exact inv.scatter.take (absent_keyAt absent)
    · by_cases same : i = mp
      · rw [same, here]
        exact .inl rfl
      · rw [there i same]
        exact .inr ⟨i, rfl⟩
    · refine there i fun same => ?_
      rw [same, here] at noKey
      exact proper noKey
    · exact there i (by omega)
    · by_cases same : i = mp
      · rw [same, here]
        exact proper
      · rw [there i same]
        exact inv.lastfree.2 real i low high
  refine ⟨shape, chains, by rw [here], by rw [here]; exact empty, fun k v different filled => ?_,
    ?_⟩
  · constructor
    · rintro ⟨i, keyIs, valIs⟩
      by_cases same : i = mp
      · rw [same, here] at keyIs
        exact absurd keyIs.symm different
      · rw [there i same] at keyIs valIs
        exact ⟨i, keyIs, valIs⟩
    · rintro ⟨i, keyIs, valIs⟩
      have other : i ≠ mp := by
        rintro rfl
        rw [empty] at valIs
        exact filled valIs.symm
      exact ⟨i, by rw [there i other]; exact keyIs, by rw [there i other]; exact valIs⟩
  · refine usedNodes_le rfl mp fun i other used => ?_
    rw [there i other] at used
    exact used

-- the colliding node is in its own main position
theorem Chains.chainNew (inv : Chains address t) (proper : key ≠ .nil)
    (absent : ∀ i, (t.node i).key ≠ key) (hashed : ¬ InArray t key) (real : t.isDummy = false)
    (mpEq : mainposition address t key = mp) (occupied : (t.node mp).key ≠ .nil)
    (atHome : mainposition address t (t.node mp).key = mp) (freeKey : (t.node n).key = .nil)
    (nLt : n < t.lastfree) (passed : ∀ i, n < i → i < t.lastfree → (t.node i).key ≠ .nil)
    {t' : Rep} (shape : SameShape t t') (lastfree : t'.lastfree = n)
    (atMp : t'.node mp = { t.node mp with next := some n })
    (atN : t'.node n = ⟨.nil, key, (t.node mp).next⟩) (elsewhere : ∀ i, i ≠ mp → i ≠ n →
      t'.node i = t.node i) :
    Inserted address t key n t' := by
  have different : mp ≠ n := fun same => occupied (same ▸ freeKey)
  have mpLt : mp < t.sizenode := mpEq ▸ mainposition_lt address t key
  have bound := inv.lastfree.1
  have nextEq : nextOf t' = linkBehind (nextOf t) mp n := by
    funext i
    obtain ⟨behind, new⟩ : linkBehind (nextOf t) mp n mp = some n ∧
      linkBehind (nextOf t) mp n n = nextOf t mp :=
      linkBehind_self different
    by_cases same : i = mp
    · rw [same, behind, nextOf, atMp]
    · by_cases same' : i = n
      · rw [same', new, nextOf, atN]
        rfl
      · rw [linkBehind_other same same', nextOf, nextOf, elsewhere i same same']
  have keysEq : keyAt t' = Function.update (keyAt t) n (some key) := by
    funext i
    by_cases same : i = n
    · rw [same, Function.update_self, keyAt_eq_some, atN]
      exact ⟨rfl, proper⟩
    · rw [Function.update_of_ne same, keyAt, keyAt]
      by_cases same' : i = mp
      · rw [same', atMp]
      · rw [elsewhere i same' same]
  have keyKept : ∀ i, i ≠ n → (t'.node i).key = (t.node i).key ∧
      (t'.node i).val = (t.node i).val := by
    intro i other
    by_cases same : i = mp
    · rw [same, atMp]
      exact ⟨rfl, rfl⟩
    · rw [elsewhere i same other]
      exact ⟨rfl, rfl⟩
  have chains : Chains address t' := by
    refine inv.added shape real hashed ?_ (fun i => ?_) (fun i noKey => ?_) (fun i outside => ?_)
      ⟨by omega, fun i low high => ?_⟩
    · rw [keysEq, nextEq, ← mpEq]
      refine inv.scatter.append (absent_keyAt absent) ?_ (atHome.trans mpEq.symm)
        (keyAt_eq_none.mpr freeKey)
      rw [mpEq]
      exact keyAt_eq_some.mpr ⟨rfl, occupied⟩
    · by_cases same : i = n
      · rw [same, atN]
        exact .inl rfl
      · exact .inr ⟨i, (keyKept i same).1.symm⟩
    · refine elsewhere i (fun same => ?_) fun same => ?_
      · rw [same, atMp] at noKey
        exact occupied noKey
      · rw [same, atN] at noKey
        exact proper noKey
    · exact elsewhere i (by omega) (by omega)
    · by_cases same : i = n
      · rw [same, atN]
        exact proper
      · rw [(keyKept i same).1]
        by_cases old : i < t.lastfree
        · exact passed i (by omega) old
        · exact inv.lastfree.2 real i (by omega) high
  refine ⟨shape, chains, by rw [atN], by rw [atN], fun k v different filled => ?_, ?_⟩
  · constructor
    · rintro ⟨i, keyIs, valIs⟩
      by_cases same : i = n
      · rw [same, atN] at keyIs
        exact absurd keyIs.symm different
      · rw [(keyKept i same).1] at keyIs
        rw [(keyKept i same).2] at valIs
        exact ⟨i, keyIs, valIs⟩
    · rintro ⟨i, keyIs, valIs⟩
      have other : i ≠ n := by
        rintro rfl
        rw [inv.free i freeKey] at valIs
        exact filled valIs.symm
      exact ⟨i, (keyKept i other).1.trans keyIs, (keyKept i other).2.trans valIs⟩
  · refine usedNodes_le shape.lsizenode n fun i other used => ?_
    rw [(keyKept i other).1] at used
    exact used

theorem Chains.used_of_next (inv : Chains address t) {i j : Nat} (points : nextOf t i = some j) :
    (t.node i).key ≠ .nil := by
  intro free
  have none := inv.scatter.idle _ (keyAt_eq_none.mpr free)
  rw [points] at none
  cases none

theorem Chains.ne_of_next (inv : Chains address t) {i j : Nat} (points : nextOf t i = some j) :
    i ≠ j := by
  rintro rfl
  obtain ⟨l, follows⟩ := inv.scatter.ends i
  exact follows.not_mem_of_link points follows.head_mem

-- the colliding node is out of its main position and moves to the free node
theorem Chains.moveColliding (inv : Chains address t) (proper : key ≠ .nil)
    (absent : ∀ i, (t.node i).key ≠ key) (hashed : ¬ InArray t key) (real : t.isDummy = false)
    (mpEq : mainposition address t key = mp) (occupied : (t.node mp).key ≠ .nil)
    (stranger : mainposition address t (t.node mp).key ≠ mp) (freeKey : (t.node n).key = .nil)
    (nLt : n < t.lastfree) (passed : ∀ i, n < i → i < t.lastfree → (t.node i).key ≠ .nil)
    {prev : Nat} (points : nextOf t prev = some mp) {t' : Rep} (shape : SameShape t t')
    (lastfree : t'.lastfree = n) (atMp : t'.node mp = ⟨.nil, key, none⟩)
    (atN : t'.node n = t.node mp) (atPrev : t'.node prev = { t.node prev with next := some n })
    (elsewhere : ∀ i, i ≠ mp → i ≠ n → i ≠ prev →
        t'.node i = t.node i) : Inserted address t key mp t' := by
  have different : mp ≠ n := fun same => occupied (same ▸ freeKey)
  have mpLt : mp < t.sizenode := mpEq ▸ mainposition_lt address t key
  have bound := inv.lastfree.1
  have prevUsed : (t.node prev).key ≠ .nil := inv.used_of_next points
  have prevN : prev ≠ n := fun same => prevUsed (same ▸ freeKey)
  have prevMp : prev ≠ mp := inv.ne_of_next points
  have nextEq : nextOf t' = linkInstead (nextOf t) prev mp n := by
    funext i
    by_cases same : i = mp
    · rw [same, nextOf, atMp]
      simp [linkInstead]
    · by_cases same' : i = n
      · rw [same', nextOf, atN]
        simp [linkInstead, different.symm, nextOf]
      · by_cases same'' : i = prev
        · rw [same'', nextOf, atPrev]
          simp [linkInstead, prevN, prevMp]
        · rw [linkInstead_other same'' same same', nextOf, nextOf, elsewhere i same same' same'']
  have keyKept : ∀ i, i ≠ mp → i ≠ n → (t'.node i).key = (t.node i).key ∧
      (t'.node i).val = (t.node i).val := by
    intro i other other'
    by_cases same : i = prev
    · rw [same, atPrev]
      exact ⟨rfl, rfl⟩
    · rw [elsewhere i other other' same]
      exact ⟨rfl, rfl⟩
  have keysEq : keyAt t' = Function.update (Function.update (keyAt t) n (some (t.node mp).key)) mp
      (some key) := by
    funext i
    by_cases same : i = mp
    · rw [same, Function.update_self, keyAt_eq_some, atMp]
      exact ⟨rfl, proper⟩
    · rw [Function.update_of_ne same]
      by_cases same' : i = n
      · rw [same', Function.update_self, keyAt_eq_some, atN]
        exact ⟨rfl, occupied⟩
      · rw [Function.update_of_ne same', keyAt, keyAt, (keyKept i same same').1]
  have chains : Chains address t' := by
    refine inv.added shape real hashed ?_ (fun i => ?_) (fun i noKey => ?_) (fun i outside => ?_)
      ⟨by omega, fun i low high => ?_⟩
    · rw [keysEq, nextEq, ← mpEq]
      refine inv.scatter.move (absent_keyAt absent) ?_ ?_ (keyAt_eq_none.mpr freeKey)
        (points.trans (by rw [mpEq]))
      · exact keyAt_eq_some.mpr ⟨rfl, by rw [mpEq]; exact occupied⟩
      · rw [mpEq]
        exact stranger
    · by_cases same : i = mp
      · rw [same, atMp]
        exact .inl rfl
      · by_cases same' : i = n
        · rw [same', atN]
          exact .inr ⟨mp, rfl⟩
        · exact .inr ⟨i, (keyKept i same same').1.symm⟩
    · refine elsewhere i (fun same => ?_) (fun same => ?_) fun same => ?_
      · rw [same, atMp] at noKey
        exact proper noKey
      · rw [same, atN] at noKey
        exact occupied noKey
      · rw [same, atPrev] at noKey
        exact prevUsed noKey
    · have prevLt := inv.used_lt prevUsed
      exact elsewhere i (by omega) (by omega) (by omega)
    · by_cases same : i = mp
      · rw [same, atMp]
        exact proper
      · by_cases same' : i = n
        · rw [same', atN]
          exact occupied
        · rw [(keyKept i same same').1]
          by_cases old : i < t.lastfree
          · exact passed i (by omega) old
          · exact inv.lastfree.2 real i (by omega) high
  refine ⟨shape, chains, by rw [atMp], by rw [atMp], fun k v different' filled => ?_, ?_⟩
  · constructor
    · rintro ⟨i, keyIs, valIs⟩
      by_cases same : i = mp
      · rw [same, atMp] at keyIs
        exact absurd keyIs.symm different'
      · by_cases same' : i = n
        · rw [same', atN] at keyIs valIs
          exact ⟨mp, keyIs, valIs⟩
        · rw [(keyKept i same same').1] at keyIs
          rw [(keyKept i same same').2] at valIs
          exact ⟨i, keyIs, valIs⟩
    · rintro ⟨i, keyIs, valIs⟩
      by_cases same : i = mp
      · rw [same, ← atN] at keyIs valIs
        exact ⟨n, keyIs, valIs⟩
      · have other : i ≠ n := by
          rintro rfl
          rw [inv.free i freeKey] at valIs
          exact filled valIs.symm
        exact ⟨i, (keyKept i same other).1.trans keyIs, (keyKept i same other).2.trans valIs⟩
  · refine usedNodes_le shape.lsizenode n fun i other used => ?_
    by_cases same : i = mp
    · rw [same]
      exact occupied
    · rw [(keyKept i same other).1] at used
      exact used

end

/-! ## `newkey` -/

/-- The free node that `getfreepos` finds, and the ones above it that it has passed. -/
theorem getfreepos_some {k n lastfree : Nat} (found : getfreepos t k = (some n, lastfree)) :
    lastfree = n ∧ n < k ∧ (t.node n).key = .nil ∧ ∀ i, n < i → i < k → (t.node i).key ≠ .nil := by
  induction k with
  | zero => cases found
  | succ k ih =>
    rw [getfreepos] at found
    split at found
    next free =>
      simp only [Prod.mk.injEq, Option.some.injEq] at found
      obtain ⟨rfl, rfl⟩ := found
      exact ⟨rfl, Nat.lt_succ_self _, free, fun i low high => by omega⟩
    next used =>
      obtain ⟨same, low, free, passed⟩ := ih found
      refine ⟨same, by omega, free, fun i above below => ?_⟩
      by_cases last : i = k
      · rw [last]
        exact used
      · exact passed i above (by omega)

theorem getfreepos_none {k lastfree : Nat} (found : getfreepos t k = (none, lastfree)) :
    lastfree = 0 ∧ ∀ i, i < k → (t.node i).key ≠ .nil := by
  induction k with
  | zero =>
    cases found
    exact ⟨rfl, fun i low => absurd low (Nat.not_lt_zero i)⟩
  | succ k ih =>
    rw [getfreepos] at found
    split at found
    next => cases found
    next used =>
      obtain ⟨same, passed⟩ := ih found
      refine ⟨same, fun i below => ?_⟩
      by_cases last : i = k
      · rw [last]
        exact used
      · exact passed i (by omega)

-- the chain from `othern` leads to the node, and its predecessor is found
theorem findPrevious_follows {mp i : Nat} {l : List Nat} (follows : Follows (nextOf t) i l)
    (member : mp ∈ l) (other : i ≠ mp) (rounds : Nat) (enough : l.length ≤ rounds) :
    ∃ prev, findPrevious t mp rounds i = some prev ∧ nextOf t prev = some mp :=
  follows.loop_previous (fun _ i => by rw [findPrevious, nextOf]; cases (t.node i).next <;> rfl) member other
    rounds enough

-- what newkey does when its main position is taken
def collide (address : TValue → Nat) (grow : TValue → TableM Slot) (key : TValue) (t : Rep) :
    EStateM.Result TableError Rep Slot :=
  match getfreepos t t.lastfree with
  | (none, lastfree) => grow key { t with lastfree }
  | (some n, lastfree) =>
    let mp := mainposition address t key
    let othern := mainposition address t (t.node mp).key
    if othern ≠ mp then
      match findPrevious t mp t.sizenode othern with
      | none => .error .lostNode { t with lastfree }
      | some prev =>
        let t₁ := ({ t with lastfree } : Rep).setNext prev (some n)
        let t₂ := t₁.setNode n (t₁.node mp)
        let t₃ := t₂.setNode mp { t₂.node mp with next := none, val := .nil }
        .ok (.node mp) (t₃.setKey mp key)
    else
      let t₁ := ({ t with lastfree } : Rep).setNext n (t.node mp).next
      let t₂ := t₁.setNext mp (some n)
      .ok (.node n) (t₂.setKey n key)

theorem newkey_eq (grow : TValue → TableM Slot) (key : TValue) (t : Rep) :
    newkey address grow key t =
      if (t.node (mainposition address t key)).val ≠ .nil ∨ t.isDummy = true then
        collide address grow key t
      else .ok (.node (mainposition address t key))
        (t.setKey (mainposition address t key) key) := by
  simp only [newkey, bind_run, get_run]
  split
  next collides =>
    rw [collide]
    generalize getfreepos t t.lastfree = found
    obtain ⟨n, lastfree⟩ := found
    cases n with
    | none => rfl
    | some n =>
      dsimp only
      split
      next =>
        cases findPrevious t (mainposition address t key) t.sizenode
            (mainposition address t (t.node (mainposition address t key)).key) with
        | none => rfl
        | some prev => rfl
      next => rfl
  next => rfl

/-- The main position of the key is taken, and no other node is free. -/
def NoFreeNode (address : TValue → Nat) (t : Rep) (key : TValue) : Prop :=
  ((t.node (mainposition address t key)).val ≠ .nil ∨ t.isDummy = true) ∧
    (getfreepos t t.lastfree).1 = none

theorem Chains.all_used (inv : Chains address t) (noFree : (getfreepos t t.lastfree).1 = none) :
    t.isDummy = true ∨ ∀ i, i < t.sizenode → (t.node i).key ≠ .nil := by
  have passed : ∀ i, i < t.lastfree → (t.node i).key ≠ .nil := by
    cases found : getfreepos t t.lastfree with
    | mk free lastfree =>
      rw [found] at noFree
      cases noFree
      exact (getfreepos_none found).2
  cases isDummy : t.isDummy with
  | true => exact .inl rfl
  | false =>
    refine .inr fun i inside => ?_
    by_cases below : i < t.lastfree
    · exact passed i below
    · exact inv.lastfree.2 isDummy i (by omega) inside

/-- `newkey` for a key that the table has not: it finds a node for the key, or no node is free. -/
theorem Chains.newkey_cases (inv : Chains address t) {key : TValue} (proper : key ≠ .nil)
    (absent : ∀ i, (t.node i).key ≠ key) (hashed : ¬ InArray t key) (grow : TValue → TableM Slot) :
    (∃ j t', newkey address grow key t = .ok (.node j) t' ∧ Inserted address t key j t') ∨
      (NoFreeNode address t key ∧ newkey address grow key t = grow key
        { t with lastfree := 0 }) := by
  obtain ⟨mp, mpEq⟩ : ∃ mp, mainposition address t key = mp := ⟨_, rfl⟩
  rw [newkey_eq, NoFreeNode, mpEq]
  split
  next collides =>
    rw [collide]
    cases found : getfreepos t t.lastfree with
    | mk free lastfree =>
      cases free with
      | none =>
        obtain ⟨rfl, -⟩ := getfreepos_none found
        exact .inr ⟨⟨collides, rfl⟩, rfl⟩
      | some n =>
        obtain ⟨lastfreeEq, nLt, freeKey, passed⟩ := getfreepos_some found
        have real : t.isDummy = false := by
          cases isDummy : t.isDummy with
          | false => rfl
          | true =>
            rw [(inv.dummy isDummy).2.2] at nLt
            exact absurd nLt (Nat.not_lt_zero n)
        have occupied : (t.node mp).key ≠ .nil := by
          intro none
          rw [real, inv.free mp none] at collides
          rcases collides with filled | impossible
          · exact filled rfl
          · cases impossible
        have different : mp ≠ n := fun same => occupied (same ▸ freeKey)
        have shape : ∀ node, SameShape t { t with node, lastfree } :=
          fun _ => ⟨rfl, rfl, rfl, rfl, rfl⟩
        dsimp only
        rw [mpEq]
        by_cases atHome : mainposition address t (t.node mp).key = mp
        · rw [if_neg (not_not.mpr atHome)]
          refine .inl ⟨n, _, rfl, ?_⟩
          refine inv.chainNew proper absent hashed real mpEq occupied atHome freeKey nLt passed
            (shape _) lastfreeEq
            ?_ ?_ fun i other other' => ?_
          · simp [Rep.setKey, Rep.setNext, Rep.setNode, different]
          · simp [Rep.setKey, Rep.setNext, Rep.setNode, different.symm,
              inv.free n freeKey, freeNode]
          · simp [Rep.setKey, Rep.setNext, Rep.setNode, other, other']
        · rw [if_pos atHome]
          obtain ⟨l, follows, member⟩ := inv.scatter.reach mp _ (keyAt_eq_some.mpr ⟨rfl, occupied⟩)
          have length := inv.chain_length (mainposition_lt address t _) follows
          obtain ⟨prev, before, points⟩ :=
            findPrevious_follows follows member atHome t.sizenode length
          rw [before]
          have prevMp : prev ≠ mp := inv.ne_of_next points
          have prevN : prev ≠ n := fun same => inv.used_of_next points (same ▸ freeKey)
          refine .inl ⟨mp, _, rfl, ?_⟩
          refine inv.moveColliding proper absent hashed real mpEq occupied atHome freeKey nLt passed points (shape _)
            lastfreeEq ?_ ?_ ?_ fun i other other' other'' => ?_
          · simp [Rep.setKey, Rep.setNext, Rep.setNode]
          · simp [Rep.setKey, Rep.setNext, Rep.setNode, different.symm, different, prevMp.symm]
          · simp [Rep.setKey, Rep.setNext, Rep.setNode, prevMp, prevN]
          · simp [Rep.setKey, Rep.setNext, Rep.setNode, other, other', other'']
  next empty =>
    obtain ⟨noValue, real⟩ := not_or.mp empty
    exact .inl ⟨mp, _, rfl, inv.takeMain proper absent hashed (by simpa using real) mpEq
      (by simpa using noValue)⟩

end Lunatik.Verified
