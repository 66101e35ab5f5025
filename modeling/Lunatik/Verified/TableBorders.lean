import Lunatik.Lua.TableBounds
import Lunatik.Verified.TableLinks

/-! # The length of a table is a border

The searches of `luaH_getn` keep an index that is present, or 0, below one that is absent, and the linear search
ends at the first index that is absent.  The array is not monotone: nothing is known of the indices in between.
-/

namespace Lunatik.Verified

open Lunatik.Lua (TValue LuaNumber luaiNumeq luaiNumisnan maxInt)
open Lunatik.Lua.Ltable Lunatik.Library

variable {address : TValue → Nat} {t : Rep}

/-! ## Halving -/

/-- `n` is 0 or present, and the next index is absent. -/
def Border (p : Nat → Prop) (n : Nat) : Prop := (n = 0 ∨ p n) ∧ ¬ p (n + 1)

theorem unsigned_ok {x : Int} {n : Nat} (same : x = n) (fits : n < 2 ^ 32) : unsigned x = .ok n := by
  rw [unsigned, same, if_pos (by omega), Int.toNat_natCast]

theorem search_bind {α β : Type} {m : SearchM α} {a : α} (ran : m = .ok a) (f : α → SearchM β) :
    (m >>= f) = f a := by
  rw [ran]
  rfl

section Searches

variable {p : Nat → Prop} [DecidablePred p] {present : Nat → SearchM Bool} {rounds i j : Nat}

theorem binarySearch_done (next : j = i + 1) :
    binarySearch present (rounds + 1) i j = .ok i := by
  have width : unsigned ((j : Int) - i) = .ok 1 := unsigned_ok (by omega) (by omega)
  rw [binarySearch, search_bind width, if_neg (Nat.lt_irrefl 1)]
  rfl

theorem binarySearch_half (more : i + 1 < j) (int : j ≤ 2 ^ 31) {b : Bool}
    (read : present ((i + j) / 2) = .ok b) :
    binarySearch present (rounds + 1) i j =
      if b then binarySearch present rounds ((i + j) / 2) j else binarySearch present rounds i ((i + j) / 2) := by
  have width : unsigned ((j : Int) - i) = .ok (j - i) := unsigned_ok (by omega) (by omega)
  have sum : unsigned ((i : Int) + j) = .ok (i + j) := unsigned_ok (by omega) (by omega)
  have wide : 1 < j - i := by omega
  rw [binarySearch, search_bind width, if_pos wide, search_bind sum, search_bind read]

theorem binarySearch_border (rounds : Nat) {i j : Nat}
    (reads : ∀ m, i < m → m < j → present m = .ok (decide (p m))) (low : i = 0 ∨ p i) (high : ¬ p j)
    (below : i < j) (int : j ≤ 2 ^ 31) (enough : j - i ≤ 2 ^ rounds) :
    ∃ n, binarySearch present (rounds + 1) i j = .ok n ∧ Border p n ∧ n < j := by
  induction rounds generalizing i j with
  | zero =>
    have next : j = i + 1 := by omega
    rw [next] at high
    exact ⟨i, binarySearch_done next, ⟨low, high⟩, below⟩
  | succ rounds ih =>
    by_cases more : i + 1 < j
    · rw [Nat.pow_succ] at enough
      have first : i < (i + j) / 2 := by omega
      have second : (i + j) / 2 < j := by omega
      rw [binarySearch_half more int (reads _ first second)]
      by_cases here : p ((i + j) / 2)
      · rw [if_pos (decide_eq_true here)]
        exact ih (fun m low' high' => reads m (by omega) high') (.inr here) high second int (by omega)
      · rw [if_neg (by simpa using here)]
        obtain ⟨n, ran, border, inside⟩ := ih (fun m low' high' => reads m low' (by omega)) low here first
          (by omega) (by omega)
        exact ⟨n, ran, border, by omega⟩
    · have next : j = i + 1 := by omega
      rw [next] at high
      exact ⟨i, binarySearch_done next, ⟨low, high⟩, below⟩

theorem linearSearch_border (rounds : Nat) {i k : Nat}
    (reads : ∀ m, 0 < m → m ≤ k → presentNum t m = .ok (decide (p m))) (low : i = 0 ∨ p i) (absent : ¬ p k)
    (below : i < k) (int : k < 2 ^ 31) (enough : k ≤ i + rounds) :
    ∃ n, linearSearch t rounds (i + 1) = .ok n ∧ Border p n ∧ n < k := by
  induction rounds generalizing i with
  | zero => omega
  | succ rounds ih =>
    rw [linearSearch, search_bind (reads (i + 1) (by omega) (by omega))]
    by_cases here : p (i + 1)
    · have other : i + 1 ≠ k := fun same => absent (same ▸ here)
      have next : unsigned (((i + 1 : Nat) : Int) + 1) = .ok (i + 1 + 1) := unsigned_ok (by omega) (by omega)
      rw [if_pos (decide_eq_true here), search_bind next]
      exact ih (.inr here) (by omega) (by omega)
    · have before : unsigned (((i + 1 : Nat) : Int) - 1) = .ok i := unsigned_ok (by omega) (by omega)
      rw [if_neg (by simpa using here), before]
      exact ⟨i, rfl, ⟨low, here⟩, by omega⟩

/-- The search that doubles `j`, where some index that an `int` can have is absent. -/
theorem doublingSearch_border (rounds : Nat) {i j k : Nat}
    (reads : ∀ m, 0 < m → m < 2 ^ 31 → presentNum t m = .ok (decide (p m))) (absent : ¬ p k) (first : 0 < k)
    (small : k ≤ maxInt) (low : i = 0 ∨ p i) (below : i < j) (int : j < 2 ^ 31)
    (enough : 2 ^ 33 ≤ j * 2 ^ rounds) :
    ∃ n, doublingSearch t rounds i j = .ok n ∧ Border p n ∧ n < 2 ^ 31 := by
  have bound : maxInt = 2 ^ 31 - 3 := rfl
  induction rounds generalizing i j with
  | zero => omega
  | succ rounds ih =>
    rw [doublingSearch, search_bind (reads j (by omega) int)]
    by_cases here : p j
    · have twice : unsigned ((j : Int) * 2) = .ok (j * 2) := unsigned_ok (by omega) (by omega)
      rw [if_pos (decide_eq_true here), search_bind twice]
      by_cases large : maxInt < j * 2
      · rw [if_pos large]
        have start : (0 : Nat) = 0 ∨ p 0 := .inl rfl
        obtain ⟨n, ran, border, inside⟩ := linearSearch_border (2 ^ 32)
          (fun m low' high' => reads m low' (by omega)) start absent first (by omega) (by omega)
        exact ⟨n, ran, border, by omega⟩
      · rw [if_neg large]
        refine ih (.inr here) (by omega) (by omega) ?_
        rw [Nat.pow_succ] at enough
        rw [Nat.mul_assoc, Nat.mul_comm 2]
        exact enough
    · rw [if_neg (by simpa using here)]
      obtain ⟨n, ran, border, inside⟩ := binarySearch_border 32
        (fun m low' high' => reads m (by omega) (by omega)) low here below (by omega) (by omega)
      exact ⟨n, ran, border, by omega⟩

end Searches

/-! ## Present indices -/

/-- The value of `t[k]`. -/
def indexValue (address : TValue → Nat) (t : Rep) (k : Int) : TValue :=
  contents address t (.number (castNumber k))

theorem castInt_bounds (j : Nat) : -2 ^ 31 ≤ castInt j ∧ castInt j < 2 ^ 31 :=
  ⟨BitVec.le_toInt _, BitVec.toInt_lt⟩

theorem castInt_eq {j : Nat} (int : j < 2 ^ 31) : castInt j = j := by
  rw [castInt, BitVec.toInt_eq_toNat_bmod, BitVec.toNat_ofNat, Int.bmod_def]
  split <;> omega

theorem Linked.presentNum_eq (linked : Linked address t) (j : Nat) :
    presentNum t j = .ok (decide (indexValue address t (castInt j) ≠ .nil)) := by
  obtain ⟨low, high⟩ := castInt_bounds j
  have same : luaHGet address t (.number (castNumber (castInt j))) = luaHGetnum t (castInt j) :=
    luaHGet_castNumber low high
  have found : ∃ found, luaHGetnum t (castInt j) = some found := by
    rw [← same]
    rcases linked.get_cases (.number (castNumber (castInt j))) with ⟨-, get⟩ | ⟨i, -, -, get⟩ | ⟨-, -, get⟩
    · exact ⟨_, get⟩
    · exact ⟨_, get⟩
    · exact ⟨_, get⟩
  obtain ⟨found, get⟩ := found
  rw [presentNum, get, indexValue, contents_of_get (same.trans get)]

theorem Linked.presentNum_int (linked : Linked address t) {j : Nat} (int : j < 2 ^ 31) :
    presentNum t j = .ok (decide (indexValue address t j ≠ .nil)) := by
  rw [linked.presentNum_eq, castInt_eq int]

theorem Linked.array_index (linked : Linked address t) {m : Nat} (low : 0 < m) (high : m ≤ t.sizearray) :
    indexValue address t m = t.array (m - 1) := by
  have size := linked.small
  have index : arrayindex (.number (castNumber m)) = m := arrayindex_castNumber (by omega) (by omega)
  have inside : InArray t (.number (castNumber m)) := by
    rw [InArray, index]
    omega
  rw [indexValue, contents_of_get (luaHGet_array inside linked.small), index]
  have position : ((m : Int) - 1).toNat = m - 1 := by omega
  rw [position]
  rfl

theorem Linked.presentArray_eq (linked : Linked address t) {m : Nat} (low : 0 < m) (high : m ≤ t.sizearray) :
    presentArray t m = .ok (decide (indexValue address t m ≠ .nil)) := by
  have size := linked.small
  have index : unsigned ((m : Int) - 1) = .ok (m - 1) := unsigned_ok (by omega) (by omega)
  rw [presentArray, search_bind index, linked.array_index low high]
  rfl

-- what is behind the array is in the nodes
theorem Linked.outside_array (linked : Linked address t) :
    ¬ InArray t (.number (castNumber (t.sizearray + 1))) := by
  have size := linked.small
  rintro ⟨low, high⟩
  by_cases int : t.sizearray + 1 < 2 ^ 31
  · rw [arrayindex_castNumber (by omega) (by omega)] at high
    omega
  · have last : t.sizearray = 2 ^ 31 - 1 := by omega
    rw [last] at low
    revert low
    decide

theorem Linked.no_nodes (linked : Linked address t) (isDummy : t.isDummy = true) :
    indexValue address t (t.sizearray + 1) = .nil := by
  obtain ⟨bits, free, -⟩ := linked.hash.dummy isDummy
  rcases linked.get_cases (.number (castNumber (t.sizearray + 1))) with
    ⟨inside, -⟩ | ⟨i, holds, proper, -⟩ | ⟨-, -, get⟩
  · exact absurd inside linked.outside_array
  · have used : ((hashOnly t).node i).key ≠ .nil := by
      have same : ((hashOnly t).node i).key = .number (castNumber (t.sizearray + 1)) := holds
      rw [same]
      exact proper
    have inside := linked.hash.used_lt used
    rw [Rep.sizenode, bits] at inside
    have zero : i = 0 := by omega
    rw [zero, free] at used
    exact absurd rfl used
  · exact contents_of_get get

/-! ## `luaH_getn` -/

/-- Fewer than 2^31 - 3 entries have a number for their key. -/
def FewNumbers (address : TValue → Nat) (t : Rep) : Prop :=
  ∀ ns : List LuaNumber, ns.Nodup → (∀ n ∈ ns, contents address t (.number n) ≠ .nil) → ns.length < 2 ^ 31 - 3

theorem FewNumbers.absent (few : FewNumbers address t) :
    ∃ k : Nat, 0 < k ∧ k ≤ maxInt ∧ indexValue address t k = .nil := by
  by_contra none
  have all : ∀ k : Nat, 0 < k → k ≤ maxInt → indexValue address t k ≠ .nil :=
    fun k low high absent => none ⟨k, low, high, absent⟩
  have bound : maxInt = 2 ^ 31 - 3 := rfl
  have short := few ((List.range maxInt).map fun i : Nat => castNumber (i + 1)) ?_ ?_
  · rw [List.length_map, List.length_range] at short
    omega
  · refine List.nodup_range.map_on fun i first j second same => ?_
    have low := List.mem_range.mp first
    have high := List.mem_range.mp second
    have index := congrArg number2int same
    rw [number2int_castNumber (by omega) (by omega), number2int_castNumber (by omega) (by omega)] at index
    omega
  · intro n member
    obtain ⟨i, inside, rfl⟩ := List.mem_map.mp member
    exact all (i + 1) (Nat.succ_pos i) (List.mem_range.mp inside)

/-- `luaH_getn` ends with a border, and no index has wrapped around on the way. -/
def FindsBorder (address : TValue → Nat) (t : Rep) : Prop :=
  ∃ n : Nat, luaHGetn t = .ok n ∧ (n = 0 ∨ indexValue address t n ≠ .nil) ∧
    indexValue address t (n + 1) = .nil

/-- The array has as many elements as an `int` can say and the last one is there, so that the search goes on behind
it, with an index that is taken for -2^31; and there is an element under one of the two. -/
structure SearchOverflows (address : TValue → Nat) (t : Rep) : Prop where
  sizearray : t.sizearray = 2 ^ 31 - 1
  last : t.array (2 ^ 31 - 2) ≠ .nil
  nodes : t.isDummy = false
  element : indexValue address t (-2 ^ 31) ≠ .nil ∨ indexValue address t (2 ^ 31) ≠ .nil

theorem findsBorder_of_border {n : Nat} (result : luaHGetn t = .ok (castInt n)) (int : n < 2 ^ 31)
    (border : Border (fun m => indexValue address t m ≠ .nil) n) : FindsBorder address t := by
  refine ⟨n, ?_, border.1, ?_⟩
  · rw [result, castInt_eq int]
  · have next := not_not.mp border.2
    rw [Nat.cast_add] at next
    exact next

theorem Linked.getn_array (linked : Linked address t) (some : 0 < t.sizearray)
    (hole : t.array (t.sizearray - 1) = .nil) : FindsBorder address t := by
  have size := linked.small
  have high : ¬ indexValue address t t.sizearray ≠ .nil := by
    rw [linked.array_index some le_rfl]
    exact not_not.mpr hole
  have start : (0 : Nat) = 0 ∨ indexValue address t (0 : Nat) ≠ .nil := .inl rfl
  obtain ⟨n, ran, border, inside⟩ := binarySearch_border (p := fun m => indexValue address t m ≠ .nil) 32
    (fun m low' high' => linked.presentArray_eq low' (Nat.le_of_lt high')) start high some (by omega) (by omega)
  refine findsBorder_of_border ?_ (by omega) border
  rw [luaHGetn, if_pos ⟨some, hole⟩, search_bind ran]
  rfl

theorem Linked.getn_no_nodes (linked : Linked address t)
    (full : ¬ (0 < t.sizearray ∧ t.array (t.sizearray - 1) = .nil)) (isDummy : t.isDummy = true) :
    FindsBorder address t := by
  refine ⟨t.sizearray, ?_, ?_, linked.no_nodes isDummy⟩
  · rw [luaHGetn, if_neg full, if_pos isDummy, castInt_eq linked.small]
    rfl
  · by_cases none : t.sizearray = 0
    · exact .inl none
    · right
      rw [linked.array_index (by omega) le_rfl]
      exact fun hole => full ⟨by omega, hole⟩

theorem Linked.getn_unbound (linked : Linked address t) (few : FewNumbers address t)
    (full : ¬ (0 < t.sizearray ∧ t.array (t.sizearray - 1) = .nil)) (nodes : t.isDummy = false)
    (int : t.sizearray < 2 ^ 31 - 1) : FindsBorder address t := by
  obtain ⟨k, first, small, absent⟩ := few.absent
  have low : t.sizearray = 0 ∨ indexValue address t t.sizearray ≠ .nil := by
    by_cases none : t.sizearray = 0
    · exact .inl none
    · right
      rw [linked.array_index (by omega) le_rfl]
      exact fun hole => full ⟨by omega, hole⟩
  have next : unsigned ((t.sizearray : Int) + 1) = .ok (t.sizearray + 1) := unsigned_ok (by omega) (by omega)
  obtain ⟨n, ran, border, inside⟩ := doublingSearch_border (p := fun m => indexValue address t m ≠ .nil) 33
    (fun m _ bound => linked.presentNum_int bound) (not_not.mpr absent) first small low (Nat.lt_succ_self _)
    (by omega) (by omega)
  refine findsBorder_of_border ?_ inside border
  rw [luaHGetn, if_neg full, nodes, unboundSearch, search_bind next, search_bind ran]
  rfl

/-- Behind the largest array that an `int` can count. -/
theorem Linked.getn_last (linked : Linked address t) (size : t.sizearray = 2 ^ 31 - 1)
    (last : t.array (2 ^ 31 - 2) ≠ .nil) (nodes : t.isDummy = false) :
    (indexValue address t (-2 ^ 31) ≠ .nil → luaHGetn t = .error .wraps) ∧
      (indexValue address t (-2 ^ 31) = .nil → luaHGetn t = .ok (2 ^ 31 - 1)) := by
  have full : ¬ (0 < t.sizearray ∧ t.array (t.sizearray - 1) = .nil) := by
    rw [size]
    exact fun hole => last hole.2
  have next : unsigned ((t.sizearray : Int) + 1) = .ok (2 ^ 31) := unsigned_ok (by omega) (by omega)
  have negative : castInt (2 ^ 31) = -2 ^ 31 := by decide
  have read := linked.presentNum_eq (2 ^ 31)
  rw [negative] at read
  have start : luaHGetn t = (do return castInt (← doublingSearch t 33 t.sizearray (2 ^ 31))) := by
    rw [luaHGetn, if_neg full, nodes, unboundSearch, search_bind next]
    rfl
  rw [start]
  constructor
  · intro present
    have wraps : unsigned (((2 ^ 31 : Nat) : Int) * 2) = .error .wraps := by decide
    rw [doublingSearch, search_bind read, if_pos (decide_eq_true present), wraps]
    rfl
  · intro absent
    have done : binarySearch (presentNum t) 33 t.sizearray (2 ^ 31) = .ok t.sizearray :=
      binarySearch_done (by omega)
    rw [doublingSearch, search_bind read, if_neg (by simpa using absent), done, size]
    rfl

theorem Linked.overflows_misses (linked : Linked address t) (overflows : SearchOverflows address t) :
    ¬ FindsBorder address t := by
  rintro ⟨n, ran, -, absent⟩
  obtain ⟨wraps, stops⟩ := linked.getn_last overflows.sizearray overflows.last overflows.nodes
  by_cases negative : indexValue address t (-2 ^ 31) = .nil
  · have result := ran.symm.trans (stops negative)
    have last : (n : Int) = 2 ^ 31 - 1 := Except.ok.inj result
    rw [last] at absent
    exact overflows.element.elim (fun filled => filled negative) fun filled => filled absent
  · rw [wraps negative] at ran
    cases ran

theorem Linked.getn_last_border (linked : Linked address t) (size : t.sizearray = 2 ^ 31 - 1)
    (last : t.array (2 ^ 31 - 2) ≠ .nil) (nodes : t.isDummy = false) (fine : ¬ SearchOverflows address t) :
    FindsBorder address t := by
  have negative : indexValue address t (-2 ^ 31) = .nil := by
    by_contra filled
    exact fine ⟨size, last, nodes, .inl filled⟩
  have next : indexValue address t (2 ^ 31) = .nil := by
    by_contra filled
    exact fine ⟨size, last, nodes, .inr filled⟩
  refine ⟨2 ^ 31 - 1, (linked.getn_last size last nodes).2 negative, .inr ?_, next⟩
  have index := linked.array_index (m := 2 ^ 31 - 1) (by omega) size.ge
  exact index.trans_ne last

theorem runOpWith_stores {t u : Rep} {key v : TValue} {slot : Slot} {granted : Allocator} {depth : Nat}
    (made : luaHSet address (growWith address granted depth false) key t = .ok slot u) :
    stateAfter (runOpWith address granted depth (.set key v)) t = u.setSlot slot v := by
  rw [runOpWith, store, stateAfter_bind made]
  rfl

-- t[2^31 - 1] and t[2^31]
def lastKey : TValue := .number (castNumber (2 ^ 31 - 1))
def nextKey : TValue := .number (castNumber (2 ^ 31))

theorem setSlot_shape (t : Rep) (slot : Slot) (v : TValue) :
    (t.setSlot slot v).sizearray = t.sizearray ∧ (t.setSlot slot v).isDummy = t.isDummy := by
  cases slot <;> exact ⟨rfl, rfl⟩

/-- The array has the largest size, its last element is there, and there is one behind it. -/
theorem overflowing_table : ∃ t, Reachable (fun _ => 0) t ∧ FewNumbers (fun _ => 0) t ∧
    SearchOverflows (fun _ => 0) t := by
  obtain ⟨t, made⟩ : ∃ t, luaHNew (2 ^ 31 - 1) 1 noTable = .ok () t := ⟨_, rfl⟩
  have new : TableInv (fun _ => 0) t ∧ contents (fun _ => 0) t = fun _ => .nil :=
    luaHNew_spec (by decide) made
  obtain ⟨inv, empty⟩ := new
  have reached : Reachable (fun _ => 0) t := .new (by decide) made
  have shape : t.sizearray = 2 ^ 31 - 1 ∧ t.isDummy = false ∧ usedNodes t = 0 ∧ room t = 1 := by
    cases made
    exact ⟨rfl, rfl, rfl, rfl⟩
  obtain ⟨size, nodes, used, one⟩ := shape
  -- the first store finds its place in the array
  have inside : InArray t lastKey := by
    rw [InArray, size]
    decide
  have get : luaHGet (fun _ => 0) t lastKey = some (some (.array (arrayindex lastKey - 1).toNat)) :=
    luaHGet_array inside inv.small
  have found : luaHSet (fun _ => 0) (growWith (fun _ => 0) (fun _ _ => true) 0 false) lastKey t = .ok _ t :=
    luaHSet_found get
  have reached₁ := reached.step (fun _ _ => true) 0 (.set lastKey (.boolean 1)) trivial
  rw [runOpWith_stores found] at reached₁
  obtain ⟨inv₁, contents₁⟩ := inv.setSlot get (.boolean 1)
  -- the second one takes the only node
  have space : RoomFor (2 ^ 31 - 1) (hashedKeys (2 ^ 31 - 1) [nextKey] + 0)
      (t.setSlot (.array (arrayindex lastKey - 1).toNat) (.boolean 1)) := by
    have few : hashedKeys (2 ^ 31 - 1) [nextKey] ≤ 1 := List.countP_le_length
    refine setSlot_room ⟨size, ?_⟩ _ _
    omega
  obtain ⟨slot, u, set, ready, kept, -⟩ := inv₁.luaHSet_room (by simp [nextKey]) space
    (growWith (fun _ => 0) (fun _ _ => true) 0 false)
  have reached₂ := reached₁.step (fun _ _ => true) 0 (.set nextKey (.boolean 1)) trivial
  rw [runOpWith_stores set] at reached₂
  obtain ⟨inv₂, contents₂⟩ := ready.inv.setSlot ready.found (.boolean 1)
  rw [ready.contents, contents₁, empty] at contents₂
  obtain ⟨size₂, nodes₂⟩ := setSlot_shape u slot (.boolean 1)
  have elements : ∀ k, contents (fun _ => 0) (u.setSlot slot (.boolean 1)) k ≠ .nil →
      k = nextKey ∨ k = lastKey := by
    intro k filled
    rw [contents₂, Function.update_apply, Function.update_apply] at filled
    by_cases next : k = nextKey
    · exact .inl next
    · by_cases last : k = lastKey
      · exact .inr last
      · rw [if_neg next, if_neg last] at filled
        exact absurd rfl filled
  refine ⟨_, reached₂, fun ns nodup filled => ?_, ?_, ?_, ?_, ?_⟩
  · have members : ns ⊆ [castNumber (2 ^ 31), castNumber (2 ^ 31 - 1)] := by
      intro n member
      cases elements _ (filled n member) with
      | inl next => simp [TValue.number.inj next]
      | inr last => simp [TValue.number.inj last]
    have short := (List.subperm_of_subset nodup members).length_le
    have two : ([castNumber (2 ^ 31), castNumber (2 ^ 31 - 1)] : List LuaNumber).length = 2 := rfl
    omega
  · exact size₂.trans (kept.sizearray.trans size)
  · have index := inv₂.linked.array_index (m := 2 ^ 31 - 1) (by omega)
      (size₂.trans (kept.sizearray.trans size)).ge
    have present : contents (fun _ => 0) (u.setSlot slot (.boolean 1)) lastKey ≠ .nil := by
      rw [contents₂]
      decide
    exact index.symm.trans_ne present
  · exact nodes₂.trans (kept.isDummy.trans nodes)
  · right
    have present : contents (fun _ => 0) (u.setSlot slot (.boolean 1)) nextKey ≠ .nil := by
      rw [contents₂, Function.update_self]
      simp
    exact present

end Lunatik.Verified
