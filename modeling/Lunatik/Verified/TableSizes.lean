import Lunatik.Verified.TableChains
import Mathlib.Algebra.BigOperators.Intervals

/-! # The sizes that `rehash` computes

`numusearray`, `numusehash` and `countint` count the elements that could go to the array part in
slices between powers of two.  Added up, the slices say how many elements have an index up to a
power of two, and so `rehash` asks for a hash part with a node for every other element.
-/

namespace Lunatik.Verified

open Lunatik.Lua (TValue LuaNumber luaiNumeq luaiNumisnan)
open Lunatik.Lua.Ltable

variable {t : Rep}

/-! ## `ceillog2` -/

theorem log2Table_le {x m : Nat} : log2Table x ≤ m ↔ x < 2 ^ m := by
  rw [log2Table]
  split
  next zero =>
    rw [zero]
    have positive := Nat.two_pow_pos m
    omega
  next positive =>
    rw [Nat.succ_le_iff]
    exact Nat.log2_lt positive

theorem log2Table_shift {x : Nat} (large : 256 ≤ x) : log2Table x = log2Table (x >>> 8) + 8 := by
  have same : ∀ m, 8 ≤ m → (log2Table x ≤ m ↔ log2Table (x >>> 8) + 8 ≤ m) := by
    intro m high
    obtain ⟨k, rfl⟩ := Nat.exists_eq_add_of_le' high
    rw [Nat.add_le_add_iff_right, log2Table_le, log2Table_le, Nat.shiftRight_eq_div_pow,
      Nat.div_lt_iff_lt_mul (by decide), Nat.pow_add]
  have low : 8 < log2Table x := by
    by_contra small
    have := log2Table_le.mp (Nat.le_of_not_lt small)
    omega
  have first := (same (log2Table x) (by omega)).mp (le_refl _)
  have second := (same (log2Table (x >>> 8) + 8) (by omega)).mpr (le_refl _)
  omega

theorem luaOLog2_eq (rounds : Nat) (l : Int) (x : Nat) : luaOLog2 rounds l x = l + log2Table x := by
  induction rounds generalizing l x with
  | zero => rfl
  | succ rounds ih =>
    rw [luaOLog2]
    split
    next large =>
      rw [ih, log2Table_shift large]
      push_cast
      omega
    next => rfl

theorem ceillog2_le {k m : Nat} (positive : 1 ≤ k) : ceillog2 k ≤ m ↔ k ≤ 2 ^ m := by
  have value : ceillog2 k = log2Table (k - 1) := by
    rw [ceillog2, luaOLog2_eq]
    omega
  rw [value, log2Table_le]
  omega

theorem le_two_pow_ceillog2 {k : Nat} (positive : 1 ≤ k) : k ≤ 2 ^ ceillog2 k :=
  (ceillog2_le positive).mp (le_refl _)

theorem maxbits_lt_ceillog2 {k : Nat} (large : maxasize < k) : maxbits < ceillog2 k := by
  by_contra small
  exact Nat.not_le_of_lt large ((ceillog2_le (by omega)).mp (Nat.le_of_not_lt small))

theorem ceillog2_le_maxbits {k : Nat} (positive : 1 ≤ k) (fits : k ≤ maxasize) :
    ceillog2 k ≤ maxbits :=
  (ceillog2_le positive).mpr fits

/-! ## The keys in use -/

def arrayKey (i : Nat) : TValue := .number (castNumber (i + 1))

def arrayKeys (t : Rep) (n : Nat) : List TValue :=
  ((List.range n).filter fun i => t.array i ≠ .nil).map arrayKey

def nodeKeys (t : Rep) (n : Nat) : List TValue :=
  ((List.range n).filter fun i => (t.node i).val ≠ .nil).map fun i => (t.node i).key

/-- The keys that have a value. -/
def liveKeys (t : Rep) : List TValue := arrayKeys t t.sizearray ++ nodeKeys t t.sizenode

/-- The key has an index up to `size`. -/
def Indexes (size : Nat) (key : TValue) : Prop := 1 ≤ arrayindex key ∧ arrayindex key ≤ size

instance (size : Nat) (key : TValue) : Decidable (Indexes size key) :=
  inferInstanceAs (Decidable (_ ∧ _))

theorem number2int_castNumber {k : Int} (low : -2 ^ 31 ≤ k) (high : k < 2 ^ 31) :
    number2int (castNumber k) = k := by
  rw [number2int, castNumber, BitVec.toInt_setWidth, BitVec.toNat_ofInt]
  rw [Int.bmod_def]
  split <;> omega

theorem arrayindex_castNumber {k : Int} (low : -2 ^ 31 ≤ k) (high : k < 2 ^ 31) :
    arrayindex (.number (castNumber k)) = k := by
  rw [arrayindex, number2int_castNumber low high]
  simp [luaiNumeq]

theorem arrayindex_arrayKey {i : Nat} (small : i < 2 ^ 31 - 1) : arrayindex (arrayKey i) = i + 1 :=
  arrayindex_castNumber (by omega) (by omega)

-- an index is that of one key only
theorem eq_of_arrayindex {key : TValue} (positive : 1 ≤ arrayindex key) :
    key = .number (castNumber (arrayindex key)) := by
  cases key with
  | number n =>
    rw [arrayindex] at positive ⊢
    split at positive
    next isInt =>
      rw [if_pos isInt]
      have same : castNumber (number2int n) = n := by simpa [luaiNumeq] using isInt
      rw [same]
    next => omega
  | _ => simp only [arrayindex] at positive; omega

theorem arrayKey_arrayindex {key : TValue} (positive : 1 ≤ arrayindex key) :
    arrayKey (arrayindex key - 1).toNat = key := by
  have index : ((arrayindex key - 1).toNat : Int) + 1 = arrayindex key := by omega
  rw [arrayKey, index]
  exact (eq_of_arrayindex positive).symm

theorem arrayKey_ne_nil (i : Nat) : arrayKey i ≠ .nil := fun impossible => by cases impossible

/-! ## Counting in slices -/

open Finset in
-- the elements counted with an index up to 2^m
def upTo (nums : Nat → Nat) (m : Nat) : Nat := ∑ j ∈ range (m + 1), nums j

theorem upTo_update (nums : Nat → Nat) (lg n m : Nat) :
    upTo (Function.update nums lg (nums lg + n)) m = upTo nums m + if lg ≤ m then n else 0 := by
  rw [upTo, upTo]
  split
  next counted =>
    have member : lg ∈ Finset.range (m + 1) := Finset.mem_range.mpr (by omega)
    rw [Finset.sum_update_of_mem member, ← Finset.add_sum_erase _ _ member,
      Finset.sdiff_singleton_eq_erase]
    omega
  next above =>
    have outside : lg ∉ Finset.range (m + 1) :=
      fun member => above (by have := Finset.mem_range.mp member; omega)
    rw [Finset.sum_update_of_notMem outside]
    rfl

theorem countint_upTo (key : TValue) (nums : Nat → Nat) {m : Nat} (bound : m ≤ maxbits) :
    upTo (countint key nums).2 m = upTo nums m + [key].countP fun k => Indexes (2 ^ m) k := by
  have below : 2 ^ m ≤ maxasize := Nat.pow_le_pow_right (by decide) bound
  rw [countint, List.countP_singleton]
  dsimp only
  split
  next counts =>
    obtain ⟨k, index⟩ : ∃ k : Nat, arrayindex key = k := ⟨_, (Int.toNat_of_nonneg (by omega)).symm⟩
    rw [index] at counts ⊢
    rw [upTo_update, Int.toNat_natCast]
    congr 1
    have same : ceillog2 k ≤ m ↔ Indexes (2 ^ m) key := by
      rw [ceillog2_le (by omega), Indexes, index]
      omega
    by_cases inside : ceillog2 k ≤ m
    · rw [if_pos inside, if_pos (by simpa using same.mp inside)]
    · rw [if_neg inside, if_neg (by simpa using same.not.mp inside)]
  next outside =>
    have not : ¬ Indexes (2 ^ m) key := by
      rintro ⟨low, high⟩
      exact outside ⟨by omega, by omega⟩
    rw [if_neg (by simpa using not)]
    rfl

theorem nodeKeys_succ (t : Rep) (i : Nat) :
    nodeKeys t (i + 1) = nodeKeys t i ++ if (t.node i).val ≠ .nil then
      [(t.node i).key] else [] := by
  rw [nodeKeys, List.range_succ, List.filter_append, List.map_append,
    List.filter_singleton, nodeKeys]
  split <;> simp_all

theorem numusehashLoop_spec (t : Rep) {m : Nat} (bound : m ≤ maxbits) (i totaluse ause : Nat)
    (nums : Nat → Nat) :
    (numusehashLoop t i totaluse ause nums).1 = totaluse + (nodeKeys t i).length ∧
      upTo (numusehashLoop t i totaluse ause nums).2.2 m =
        upTo nums m + (nodeKeys t i).countP fun k => Indexes (2 ^ m) k := by
  induction i generalizing totaluse ause nums with
  | zero => exact ⟨rfl, rfl⟩
  | succ i ih =>
    rw [numusehashLoop, nodeKeys_succ, List.length_append, List.countP_append]
    dsimp only
    split
    next used =>
      obtain ⟨total, slices⟩ :=
        ih (totaluse + 1) (ause + (countint (t.node i).key nums).1) (countint (t.node i).key nums).2
      constructor
      · rw [total, List.length_singleton]
        omega
      · rw [slices, countint_upTo _ _ bound]
        omega
    next unused => exact ih totaluse ause nums

theorem numusehash_spec (t : Rep) (nums : Nat → Nat) {m : Nat} (bound : m ≤ maxbits) :
    (numusehash t nums).1 = (nodeKeys t t.sizenode).length ∧
      upTo (numusehash t nums).2.2 m = upTo nums m + (nodeKeys t t.sizenode).countP fun k =>
        Indexes (2 ^ m) k := by
  have spec := numusehashLoop_spec t bound t.sizenode 0 0 nums
  rw [Nat.zero_add] at spec
  exact spec

/-! ## The array part -/

-- the elements in use with an index below `n`
def filled (t : Rep) (n : Nat) : Nat := (List.range n).countP fun i => t.array i ≠ .nil

theorem range_split {i n : Nat} (below : i ≤ n) :
    List.range n = List.range i ++ List.range' i (n - i) := by
  have joined := @List.range'_append_1 0 i (n - i)
  rw [Nat.zero_add, Nat.add_sub_cancel' below] at joined
  rw [List.range_eq_range', List.range_eq_range', joined]

theorem filled_add_countSlice (t : Rep) {i n : Nat} (below : i ≤ n) :
    filled t i + countSlice t (i + 1) n = filled t n := by
  have slice : countSlice t (i + 1) n = (List.range' i (n - i)).countP fun i =>
      t.array i ≠ .nil := by
    rw [countSlice, Nat.add_sub_add_right, Nat.add_comm i 1, ← List.map_add_range', List.countP_map]
    refine List.countP_congr fun j _ => ?_
    rw [Function.comp_apply, Nat.add_sub_cancel_left]
  rw [filled, filled, range_split below, List.countP_append, slice]

theorem numusearrayLoop_spec (t : Rep) (rounds lg done ause : Nat) (nums : Nat → Nat)
    (start : done ≤ min t.sizearray (2 ^ lg)) :
    (∀ m, lg ≤ m → m < lg + rounds → upTo (numusearrayLoop t rounds lg
      (done + 1) ause nums).2 m + filled t done =
        upTo nums m + filled t (min t.sizearray (2 ^ m))) ∧
      (∀ m, m < lg → upTo (numusearrayLoop t rounds lg (done + 1) ause nums).2 m = upTo nums m) ∧
      ∀ m, lg + rounds ≤ m + 1 →
        (numusearrayLoop t rounds lg (done + 1) ause nums).1 + upTo nums m =
        ause + upTo (numusearrayLoop t rounds lg (done + 1) ause nums).2 m := by
  induction rounds generalizing lg done ause nums with
  | zero => exact ⟨fun m low high => by omega, fun _ _ => rfl, fun _ _ => rfl⟩
  | succ rounds ih =>
    have limit : (if t.sizearray < 2 ^ lg then t.sizearray else 2 ^ lg) =
        min t.sizearray (2 ^ lg) := by
      split <;> omega
    rw [numusearrayLoop]
    dsimp only
    rw [limit]
    split
    next beyond =>
      refine ⟨fun m low high => ?_, fun _ _ => rfl, fun _ _ => rfl⟩
      have larger : 2 ^ lg ≤ 2 ^ m := Nat.pow_le_pow_right (by decide) low
      have all : done = min t.sizearray (2 ^ m) := by omega
      rw [all]
    next =>
      have counted := filled_add_countSlice t start
      have wider : 2 ^ lg ≤ 2 ^ (lg + 1) := Nat.pow_le_pow_right (by decide) (Nat.le_succ lg)
      have position : max (done + 1) (min t.sizearray (2 ^ lg) + 1) =
        min t.sizearray (2 ^ lg) + 1 := by omega
      rw [position]
      obtain ⟨later, before, total⟩ := ih (lg + 1) (min t.sizearray (2 ^ lg))
        (ause + countSlice t (done + 1) (min t.sizearray (2 ^ lg)))
        (Function.update nums lg (nums lg + countSlice t (done + 1) (min t.sizearray (2 ^ lg))))
          (by omega)
      refine ⟨fun m low high => ?_, fun m low => ?_, fun m high => ?_⟩
      · by_cases here : m = lg
        · rw [here, before lg (Nat.lt_succ_self lg), upTo_update, if_pos (le_refl lg)]
          omega
        · have rest := later m (by omega) (by omega)
          rw [upTo_update, if_pos low] at rest
          omega
      · rw [before m (by omega), upTo_update, if_neg (by omega)]
        rfl
      · have rest := total m (by omega)
        rw [upTo_update, if_pos (by omega)] at rest
        omega

theorem countP_arrayKeys (t : Rep) {n m : Nat} (small : n < 2 ^ 31) :
    (arrayKeys t n).countP (fun k => Indexes m k) = filled t (min n m) := by
  have first : ∀ i ∈ List.range (min n m), Indexes m (arrayKey i) := by
    intro i member
    have inside := List.mem_range.mp member
    rw [Indexes, arrayindex_arrayKey (by omega)]
    omega
  have second : ∀ i ∈ List.range' (min n m) (n - min n m), ¬ Indexes m (arrayKey i) := by
    intro i member
    have inside := List.mem_range'_1.mp member
    rw [Indexes, arrayindex_arrayKey (by omega)]
    omega
  have none : (List.range' (min n m) (n - min n m)).countP
      (fun i => decide (Indexes m (arrayKey i)) && decide (t.array i ≠ .nil)) = 0 := by
    rw [List.countP_eq_zero]
    intro i member
    simp [second i member]
  have all : (List.range (min n m)).countP (fun i =>
    decide (Indexes m (arrayKey i)) && decide (t.array i ≠ .nil)) =
      filled t (min n m) := by
    refine List.countP_congr fun i member => ?_
    simp [first i member]
  rw [arrayKeys, List.countP_map, List.countP_filter, range_split (Nat.min_le_left n m),
    List.countP_append]
  exact (congrArg₂ (· + ·) all none).trans (Nat.add_zero _)

theorem length_arrayKeys (t : Rep) (n : Nat) : (arrayKeys t n).length = filled t n := by
  rw [arrayKeys, List.length_map, ← List.countP_eq_length_filter, filled]

theorem numusearray_spec (t : Rep) (small : t.sizearray < 2 ^ 31) {m : Nat} (bound : m ≤ maxbits) :
    (numusearray t fun _ => 0).1 = filled t (min t.sizearray maxasize) ∧
      upTo (numusearray t fun _ => 0).2 m = (arrayKeys t t.sizearray).countP fun k =>
        Indexes (2 ^ m) k := by
  have zero : ∀ m, upTo (fun _ => 0) m = 0 := fun m => Finset.sum_const_zero
  have none : filled t 0 = 0 := rfl
  obtain ⟨slices, -, total⟩ :=
    numusearrayLoop_spec t (maxbits + 1) 0 0 0 (fun _ => 0) (Nat.zero_le _)
  have part := slices m (Nat.zero_le m) (by omega)
  have whole := slices maxbits (Nat.zero_le _) (by omega)
  have sum := total maxbits (by omega)
  rw [zero, none] at part whole
  rw [zero, Nat.zero_add] at sum
  rw [numusearray, countP_arrayKeys t small, maxasize]
  simp only [Nat.zero_add, Nat.add_zero] at part whole sum
  exact ⟨sum.trans whole, part⟩

/-! ## `computesizes` -/

-- a size for the array part, with the number of elements that go there
def Sized (nums : Nat → Nat) (sizes : Nat × Nat) : Prop :=
  sizes = (0, 0) ∨ ∃ i, i ≤ maxbits ∧ sizes = (2 ^ i, upTo nums i)

theorem computesizesLoop_sized (nums : Nat → Nat) (narray rounds i n na : Nat)
    (enough : i + rounds ≤ maxbits + 1) (sized : Sized nums (n, na)) :
    Sized nums (computesizesLoop nums narray rounds i (∑ j ∈ Finset.range i, nums j) n na) := by
  induction rounds generalizing i n na with
  | zero => exact sized
  | succ rounds ih =>
    rw [computesizesLoop]
    dsimp only
    split
    next =>
      have total : (∑ j ∈ Finset.range i, nums j) + nums i = ∑ j ∈ Finset.range (i + 1), nums j :=
        (Finset.sum_range_succ _ _).symm
      by_cases some : 0 < nums i
      · rw [if_pos some, total]
        by_cases half : 2 ^ i / 2 < ∑ j ∈ Finset.range (i + 1), nums j
        · rw [if_pos half]
          have here : Sized nums (2 ^ i, ∑ j ∈ Finset.range (i + 1), nums j) :=
            .inr ⟨i, by omega, rfl⟩
          dsimp only
          split
          next => exact here
          next => exact ih (i + 1) _ _ (by omega) here
        · rw [if_neg half]
          dsimp only
          split
          next => exact sized
          next => exact ih (i + 1) _ _ (by omega) sized
      · rw [if_neg some]
        have same : ∑ j ∈ Finset.range i, nums j = ∑ j ∈ Finset.range (i + 1), nums j := by omega
        dsimp only
        split
        next => exact sized
        next =>
          rw [same]
          exact ih (i + 1) _ _ (by omega) sized
    next => exact sized

theorem computesizes_sized (nums : Nat → Nat) (narray : Nat) :
    Sized nums (computesizes nums narray) := by
  have sized := computesizesLoop_sized nums narray (maxbits + 1) 0 0 0 (by omega) (.inl rfl)
  rw [Finset.sum_range_zero] at sized
  exact sized

/-! ## `rehash` -/

-- the keys that need a node when the array part has this size
def hashedKeys (size : Nat) (keys : List TValue) : Nat := keys.countP fun k => ¬ Indexes size k

theorem countP_add_hashedKeys (size : Nat) (keys : List TValue) :
    keys.countP (fun k => Indexes size k) + hashedKeys size keys = keys.length := by
  rw [List.length_eq_countP_add_countP (fun k => decide (Indexes size k)), hashedKeys]
  simp only [decide_eq_true_eq]

theorem hashedKeys_append (size : Nat) (keys keys' : List TValue) :
    hashedKeys size (keys ++ keys') = hashedKeys size keys + hashedKeys size keys' :=
  List.countP_append ..

theorem hashedKeys_cons (size : Nat) (key : TValue) (keys : List TValue) :
    hashedKeys size (key :: keys) = hashedKeys size [key] + hashedKeys size keys :=
  hashedKeys_append size [key] keys

theorem hashedKeys_one {size : Nat} {key : TValue} (hashed : ¬ Indexes size key) :
    hashedKeys size [key] = 1 := by
  rw [hashedKeys, List.countP_singleton, if_pos (decide_eq_true hashed)]

-- the numbers of keys that `rehash` has counted, slice by slice
theorem upTo_counted (small : t.sizearray < 2 ^ 31) (ek : TValue) {m : Nat} (bound : m ≤ maxbits) :
    upTo (countint ek (numusehash t (numusearray t fun _ => 0).2).2.2).2 m =
      (liveKeys t ++ [ek]).countP fun k => Indexes (2 ^ m) k := by
  rw [countint_upTo _ _ bound, (numusehash_spec t _ bound).2, (numusearray_spec t small bound).2,
    ← List.countP_append, ← List.countP_append]
  rfl

/-- The size for the array part is one that `luaH_getnum` can address, and there is a node for every
key outside of it. -/
theorem rehashSizes_spec (small : t.sizearray < 2 ^ 31)
    (within : ∀ i, maxasize ≤ i → i < t.sizearray → t.array i = .nil) (ek : TValue) :
    ∃ nasize, nasize ≤ maxasize ∧
      rehashSizes t ek = (nasize, hashedKeys nasize (liveKeys t ++ [ek])) := by
  have inArray : (numusearray t fun _ => 0).1 = (arrayKeys t t.sizearray).length := by
    have none : countSlice t (min t.sizearray maxasize + 1) t.sizearray = 0 := by
      rw [countSlice, List.countP_eq_zero]
      intro i member
      have inside := List.mem_range'_1.mp member
      simp [within (i - 1) (by omega) (by omega)]
    have split := filled_add_countSlice t (Nat.min_le_left t.sizearray maxasize)
    rw [(numusearray_spec t small (Nat.zero_le _)).1, length_arrayKeys]
    omega
  have inHash : ∀ nums, (numusehash t nums).1 = (nodeKeys t t.sizenode).length :=
    fun nums => (numusehash_spec t nums (Nat.zero_le _)).1
  have total : (liveKeys t ++ [ek]).length =
      (arrayKeys t t.sizearray).length + (nodeKeys t t.sizenode).length + 1 := by
    rw [List.length_append, liveKeys, List.length_append, List.length_singleton]
  rw [rehashSizes]
  dsimp only
  rw [inArray, inHash, ← total]
  generalize (arrayKeys t t.sizearray).length + (numusehash t (numusearray t fun _ => 0).2).2.1 +
    (countint ek (numusehash t (numusearray t fun _ => 0).2).2.2).1 = narray
  rcases computesizes_sized (countint ek (numusehash t (numusearray t fun _ =>
    0).2).2.2).2 narray with
    none | ⟨i, bound, some⟩
  · refine ⟨0, Nat.zero_le _, ?_⟩
    have nothing : (liveKeys t ++ [ek]).countP (fun k => Indexes 0 k) = 0 := by
      rw [List.countP_eq_zero]
      intro k _
      have empty : ¬ Indexes 0 k := fun index => by have := index.1; have := index.2; omega
      simp [empty]
    have all := countP_add_hashedKeys 0 (liveKeys t ++ [ek])
    rw [nothing, Nat.zero_add] at all
    rw [none, Nat.sub_zero, all]
  · refine ⟨2 ^ i, Nat.pow_le_pow_right (by decide) bound, ?_⟩
    have all := countP_add_hashedKeys (2 ^ i) (liveKeys t ++ [ek])
    rw [some, upTo_counted small ek bound, ← all, Nat.add_sub_cancel_left]

end Lunatik.Verified
