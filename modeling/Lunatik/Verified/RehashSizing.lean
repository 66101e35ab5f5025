import Lunatik.Lua.TableBounds
import Lunatik.Verified.TableRefusals

/-! # Rehash sizes a table once

The counts of `rehash` are those of the integer keys in use, slice by slice, so that `computesizes` ends inside
of `nums` and finds the largest array of which more than half is used.  The `resize` that follows leaves a node
for the key that is on its way, unless more nodes are needed than a table can have.
-/

namespace Lunatik.Verified

open Lunatik.Lua (TValue LuaNumber luaiNumeq luaiNumisnan)
open Lunatik.Lua.Ltable Lunatik.Library

variable {address : TValue → Nat} {t t' : Rep} {ek : TValue}

/-! ## What is counted -/

/-- The keys in use, with the one that is on its way. -/
def countedKeys (t : Rep) (ek : TValue) : List TValue := liveKeys t ++ [ek]

-- nums, when all keys have been counted
def slices (t : Rep) (ek : TValue) : Nat → Nat :=
  (countint ek (numusehash t (numusearray t fun _ => 0).2).2.2).2

-- nasize, when all keys have been counted
def candidates (t : Rep) (ek : TValue) : Nat :=
  (numusearray t fun _ => 0).1 + (numusehash t (numusearray t fun _ => 0).2).2.1 +
    (countint ek (numusehash t (numusearray t fun _ => 0).2).2.2).1

/-- The slots from 1 to `n` in use, among those that an array can have. -/
def slotsInUse (t : Rep) (ek : TValue) (n : Nat) : Finset Nat :=
  (Finset.Icc 1 n).filter fun k => k ≤ maxasize ∧ arrayKey (k - 1) ∈ countedKeys t ek

theorem slices_upTo (small : t.sizearray < 2 ^ 31) (ek : TValue) {m : Nat} (bound : m ≤ maxbits) :
    upTo (slices t ek) m = (countedKeys t ek).countP fun k => Indexes (2 ^ m) k :=
  upTo_counted small ek bound

theorem countint_one (key : TValue) (nums : Nat → Nat) :
    (countint key nums).1 = [key].countP fun k => Indexes (2 ^ maxbits) k := by
  have same : 0 < arrayindex key ∧ arrayindex key ≤ maxasize ↔ Indexes (2 ^ maxbits) key := Iff.rfl
  rw [countint, List.countP_singleton]
  dsimp only
  by_cases counts : Indexes (2 ^ maxbits) key
  · rw [if_pos (same.mpr counts), if_pos (decide_eq_true counts)]
  · rw [if_neg (same.not.mpr counts), if_neg (by simpa using counts)]

theorem countint_total (key : TValue) (nums : Nat → Nat) :
    upTo (countint key nums).2 maxbits = upTo nums maxbits + (countint key nums).1 := by
  rw [countint_one, countint_upTo _ _ le_rfl]

theorem numusehashLoop_total (t : Rep) (i totaluse ause : Nat) (nums : Nat → Nat) :
    upTo (numusehashLoop t i totaluse ause nums).2.2 maxbits + ause =
      upTo nums maxbits + (numusehashLoop t i totaluse ause nums).2.1 := by
  induction i generalizing totaluse ause nums with
  | zero => rfl
  | succ i ih =>
    rw [numusehashLoop]
    dsimp only
    split
    next =>
      have rest := ih (totaluse + 1) (ause + (countint (t.node i).key nums).1) (countint (t.node i).key nums).2
      rw [countint_total] at rest
      omega
    next => exact ih totaluse ause nums

/-- Every candidate is in one of the slices. -/
theorem candidates_eq (t : Rep) (ek : TValue) : candidates t ek = upTo (slices t ek) maxbits := by
  have zero : upTo (fun _ => 0) maxbits = 0 := Finset.sum_const_zero
  obtain ⟨-, -, total⟩ := numusearrayLoop_spec t (maxbits + 1) 0 0 0 (fun _ => 0) (Nat.zero_le _)
  have array := total maxbits (by omega)
  have hash := numusehashLoop_total t t.sizenode 0 0 (numusearray t fun _ => 0).2
  rw [zero] at array
  rw [candidates, slices, countint_total]
  simp only [Nat.zero_add, Nat.add_zero] at array hash
  rw [numusehash, hash]
  rw [numusearray, array]

/-! ## Slices -/

-- the counted integer keys up to `n`
theorem countP_indexes {keys : List TValue} (nodup : keys.Nodup) {n : Nat} (small : n < 2 ^ 31) :
    keys.countP (fun k => Indexes n k) = ((Finset.Icc 1 n).filter fun k => arrayKey (k - 1) ∈ keys).card := by
  rw [List.countP_eq_length_filter, ← List.toFinset_card_of_nodup (nodup.filter _)]
  refine Finset.card_nbij' (fun key => (arrayindex key).toNat) (fun k => arrayKey (k - 1)) ?_ ?_ ?_ ?_
  · intro key member
    simp only [Finset.mem_coe, List.mem_toFinset, List.mem_filter, decide_eq_true_eq] at member
    obtain ⟨inside, low, high⟩ := member
    have index : (arrayindex key).toNat - 1 = (arrayindex key - 1).toNat := by omega
    simp only [Finset.mem_coe, Finset.mem_filter, Finset.mem_Icc, index, arrayKey_arrayindex low]
    exact ⟨by omega, inside⟩
  · intro k member
    simp only [Finset.mem_coe, Finset.mem_filter, Finset.mem_Icc] at member
    obtain ⟨⟨low, high⟩, inside⟩ := member
    have index : arrayindex (arrayKey (k - 1)) = (k - 1 : Nat) + 1 := arrayindex_arrayKey (by omega)
    simp only [Finset.mem_coe, List.mem_toFinset, List.mem_filter, decide_eq_true_eq]
    exact ⟨inside, by omega, by omega⟩
  · intro key member
    simp only [Finset.mem_coe, List.mem_toFinset, List.mem_filter, decide_eq_true_eq] at member
    obtain ⟨-, low, -⟩ := member
    have index : (arrayindex key).toNat - 1 = (arrayindex key - 1).toNat := by omega
    simp only [index, arrayKey_arrayindex low]
  · intro k member
    simp only [Finset.mem_coe, Finset.mem_filter, Finset.mem_Icc] at member
    have index : arrayindex (arrayKey (k - 1)) = (k - 1 : Nat) + 1 := arrayindex_arrayKey (by omega)
    simp only [index]
    omega

theorem slices_upTo_card (small : t.sizearray < 2 ^ 31) (nodup : (countedKeys t ek).Nodup) {m : Nat}
    (bound : m ≤ maxbits) : upTo (slices t ek) m = (slotsInUse t ek (2 ^ m)).card := by
  have below : 2 ^ m ≤ maxasize := Nat.pow_le_pow_right (by decide) bound
  have int : 2 ^ m < 2 ^ 31 := Nat.lt_of_le_of_lt below (by decide)
  rw [slices_upTo small ek bound, countP_indexes nodup int, slotsInUse]
  congr 1
  refine Finset.filter_congr fun k member => ?_
  have inside := (Finset.mem_Icc.mp member).2
  simp only [Nat.le_trans inside below, true_and]

theorem upTo_succ (nums : Nat → Nat) (m : Nat) : upTo nums (m + 1) = upTo nums m + nums (m + 1) :=
  Finset.sum_range_succ nums (m + 1)

theorem eq_of_upTo {f g : Nat → Nat} {b : Nat} (same : ∀ m, m ≤ b → upTo f m = upTo g m) :
    ∀ m, m ≤ b → f m = g m := by
  intro m bound
  cases m with
  | zero => simpa [upTo] using same 0 bound
  | succ m =>
    have here := same (m + 1) bound
    have before := same m (by omega)
    rw [upTo_succ, upTo_succ] at here
    omega

/-- Each integer key in use is counted once, in its slice. -/
theorem slices_eq (small : t.sizearray < 2 ^ 31) (nodup : (countedKeys t ek).Nodup) :
    ∀ lg, lg ≤ maxbits →
      slices t ek lg = ((slotsInUse t ek maxasize).filter fun k => ceillog2 k = lg).card := by
  refine eq_of_upTo fun m bound => ?_
  rw [slices_upTo_card small nodup bound, upTo]
  have below : 2 ^ m ≤ maxasize := Nat.pow_le_pow_right (by decide) bound
  have inSlice : ∀ k ∈ slotsInUse t ek (2 ^ m), ceillog2 k ∈ Finset.range (m + 1) := by
    intro k member
    have bounds := Finset.mem_Icc.mp (Finset.mem_filter.mp member).1
    exact Finset.mem_range.mpr (Nat.lt_succ_of_le ((ceillog2_le bounds.1).mpr bounds.2))
  rw [Finset.card_eq_sum_card_fiberwise inSlice]
  refine Finset.sum_congr rfl fun lg member => ?_
  congr 1
  ext k
  have high := Nat.lt_succ_iff.mp (Finset.mem_range.mp member)
  simp only [slotsInUse, Finset.mem_filter, Finset.mem_Icc]
  constructor
  · rintro ⟨⟨⟨low, -⟩, within, used⟩, lgEq⟩
    exact ⟨⟨⟨low, within⟩, within, used⟩, lgEq⟩
  · rintro ⟨⟨⟨low, -⟩, within, used⟩, lgEq⟩
    have inside : k ≤ 2 ^ m := (ceillog2_le low).mp (lgEq.trans_le high)
    exact ⟨⟨⟨low, inside⟩, within, used⟩, lgEq⟩

/-! ## `computesizes` -/

theorem upTo_mono (nums : Nat → Nat) {m m' : Nat} (le : m ≤ m') : upTo nums m ≤ upTo nums m' := by
  have grows : ∀ m, upTo nums m ≤ upTo nums (m + 1) := fun m => by
    rw [upTo_succ]
    exact Nat.le_add_right _ _
  exact monotone_nat_of_le_succ grows le

/-- The size `n` with its `na` elements is the best of those below `2 ^ i`. -/
structure BestBelow (nums : Nat → Nat) (i n na : Nat) : Prop where
  chosen : (n = 0 ∧ na = 0) ∨ ∃ j, j < i ∧ n = 2 ^ j ∧ na = upTo nums j ∧ 2 ^ j < 2 * upTo nums j
  largest : ∀ j, j < i → 2 ^ j < 2 * upTo nums j → 2 ^ j ≤ n

section Computesizes

variable {nums : Nat → Nat} {i n na : Nat}

theorem BestBelow.take (half : 2 ^ i < 2 * upTo nums i) :
    BestBelow nums (i + 1) (2 ^ i) (upTo nums i) where
  chosen := .inr ⟨i, Nat.lt_succ_self i, rfl, rfl, half⟩
  largest := fun j below _ => Nat.pow_le_pow_right (by decide) (Nat.le_of_lt_succ below)

theorem BestBelow.keep (best : BestBelow nums i n na) (sparse : ¬ 2 ^ i < 2 * upTo nums i) :
    BestBelow nums (i + 1) n na where
  chosen := best.chosen.imp_right fun ⟨j, below, rest⟩ => ⟨j, Nat.lt_succ_of_lt below, rest⟩
  largest := by
    intro j below half
    cases Nat.lt_succ_iff_lt_or_eq.mp below with
    | inl earlier => exact best.largest j earlier half
    | inr here =>
      rw [here] at half
      exact absurd half sparse

/-- No larger size can be better once the rest cannot fill half of it. -/
theorem BestBelow.finish (best : BestBelow nums i n na) (inside : i ≤ maxbits + 1)
    (sparse : upTo nums maxbits ≤ 2 ^ i / 2) : BestBelow nums (maxbits + 1) n na where
  chosen := best.chosen.imp_right fun ⟨j, below, rest⟩ => ⟨j, by omega, rest⟩
  largest := by
    intro j bound half
    cases Nat.lt_or_ge j i with
    | inl earlier => exact best.largest j earlier half
    | inr later =>
      have wider : 2 ^ i ≤ 2 ^ j := Nat.pow_le_pow_right (by decide) later
      have all := upTo_mono nums (Nat.le_of_lt_succ bound)
      omega

-- the elements counted below 2^i
def before (nums : Nat → Nat) (i : Nat) : Nat := ∑ j ∈ Finset.range i, nums j

theorem before_succ (nums : Nat → Nat) (i : Nat) : before nums i + nums i = upTo nums i :=
  (Finset.sum_range_succ nums i).symm

-- the body of the loop: the elements so far, the size and what goes there
def sizeStep (nums : Nat → Nat) (i a n na : Nat) : Nat × Nat × Nat :=
  if 0 < nums i then
    if 2 ^ i / 2 < a + nums i then (a + nums i, 2 ^ i, a + nums i) else (a + nums i, n, na)
  else (a, n, na)

theorem computesizesLoop_succ (nums : Nat → Nat) (narray rounds i a n na : Nat) :
    computesizesLoop nums narray (rounds + 1) i a n na =
      if 2 ^ i / 2 < narray then
        let step := sizeStep nums i a n na
        if step.1 = narray then (step.2.1, step.2.2)
        else computesizesLoop nums narray rounds (i + 1) step.1 step.2.1 step.2.2
      else (n, na) := rfl

theorem computesizesReads_succ (nums : Nat → Nat) (narray rounds i a n na : Nat) (reads : List Nat) :
    computesizesReads nums narray (rounds + 1) i a n na reads =
      if 2 ^ i / 2 < narray then
        let step := sizeStep nums i a n na
        if step.1 = narray then some ((step.2.1, step.2.2), reads ++ [i])
        else computesizesReads nums narray rounds (i + 1) step.1 step.2.1 step.2.2 (reads ++ [i])
      else some ((n, na), reads) := rfl

theorem BestBelow.step (best : BestBelow nums i n na) (counted : ∀ j, j < i → upTo nums j ≤ 2 ^ j) :
    (sizeStep nums i (before nums i) n na).1 = upTo nums i ∧
      BestBelow nums (i + 1) (sizeStep nums i (before nums i) n na).2.1
        (sizeStep nums i (before nums i) n na).2.2 := by
  have total := before_succ nums i
  by_cases some : 0 < nums i
  · by_cases half : 2 ^ i / 2 < upTo nums i
    · rw [sizeStep, if_pos some, total, if_pos half]
      exact ⟨rfl, .take (by omega)⟩
    · rw [sizeStep, if_pos some, total, if_neg half]
      exact ⟨rfl, best.keep (by omega)⟩
  · rw [sizeStep, if_neg some]
    -- nothing new, and what was there before fills no more than half
    have same : before nums i = upTo nums i := by omega
    refine ⟨same, best.keep ?_⟩
    cases i with
    | zero =>
      have none : upTo nums 0 = 0 := same.symm
      omega
    | succ i =>
      have bound := counted i (Nat.lt_succ_self i)
      have earlier : upTo nums (i + 1) = upTo nums i := same.symm
      rw [earlier, Nat.pow_succ]
      omega

/-- The loop, where no more keys are counted up to a power of two than there are. -/
theorem computesizesReads_best (counted : ∀ j, j ≤ maxbits → upTo nums j ≤ 2 ^ j)
    (rounds : Nat) (enough : maxbits < i + rounds) (inside : i ≤ maxbits)
    (best : BestBelow nums i n na) (reads : List Nat) (within : ∀ j ∈ reads, j ≤ maxbits) :
    ∃ n' na' reads', computesizesReads nums (upTo nums maxbits) rounds i (before nums i) n na reads =
        some ((n', na'), reads') ∧
      computesizesLoop nums (upTo nums maxbits) (maxbits + 1 - i) i (before nums i) n na = (n', na') ∧
      BestBelow nums (maxbits + 1) n' na' ∧ ∀ j ∈ reads', j ≤ maxbits := by
  induction rounds generalizing i n na reads with
  | zero => omega
  | succ rounds ih =>
    have left : maxbits + 1 - i = maxbits - i + 1 := by omega
    rw [computesizesReads_succ, left, computesizesLoop_succ]
    by_cases more : 2 ^ i / 2 < upTo nums maxbits
    · rw [if_pos more, if_pos more]
      obtain ⟨total, next⟩ := best.step fun j below => counted j (by omega)
      generalize sizeStep nums i (before nums i) n na = step at total next
      have within' : ∀ j ∈ reads ++ [i], j ≤ maxbits := by
        intro j member
        cases List.mem_append.mp member with
        | inl old => exact within j old
        | inr new => exact (List.mem_singleton.mp new).trans_le inside
      dsimp only
      by_cases all : step.1 = upTo nums maxbits
      · rw [if_pos all, if_pos all]
        have bound := counted i inside
        have half : upTo nums maxbits ≤ 2 ^ (i + 1) / 2 := by
          rw [Nat.pow_succ]
          omega
        exact ⟨_, _, _, rfl, rfl, next.finish (by omega) half, within'⟩
      · rw [if_neg all, if_neg all]
        have further : i + 1 ≤ maxbits := by
          by_contra last
          have here : i = maxbits := by omega
          rw [total, here] at all
          exact all rfl
        have sum : step.1 = before nums (i + 1) := total
        have rest : maxbits - i = maxbits + 1 - (i + 1) := by omega
        rw [sum, rest]
        exact ih (by omega) further next _ within'
    · rw [if_neg more, if_neg more]
      exact ⟨_, _, _, rfl, rfl, best.finish (by omega) (by omega), within⟩

end Computesizes

/-! ## The sizes -/

/-- The size `n` for the array, with `na` elements in it. -/
structure ArraySized (t : Rep) (ek : TValue) (n na : Nat) : Prop where
  size : n = 0 ∨ ∃ i, i ≤ maxbits ∧ n = 2 ^ i
  elements : na = (slotsInUse t ek n).card
  half : n ≠ 0 → n < 2 * (slotsInUse t ek n).card
  largest : ∀ i, 2 ^ i < 2 * (slotsInUse t ek (2 ^ i)).card → 2 ^ i ≤ n

theorem slotsInUse_card_le (t : Rep) (ek : TValue) (n : Nat) : (slotsInUse t ek n).card ≤ min n maxasize := by
  have within : slotsInUse t ek n ⊆ Finset.Icc 1 (min n maxasize) := by
    intro k member
    obtain ⟨bounds, inside, -⟩ := Finset.mem_filter.mp member
    obtain ⟨low, high⟩ := Finset.mem_Icc.mp bounds
    exact Finset.mem_Icc.mpr ⟨low, Nat.le_min.mpr ⟨high, inside⟩⟩
  have bound := Finset.card_le_card within
  rw [Nat.card_Icc] at bound
  omega

theorem BestBelow.arraySized (small : t.sizearray < 2 ^ 31) (nodup : (countedKeys t ek).Nodup) {n na : Nat}
    (best : BestBelow (slices t ek) (maxbits + 1) n na) : ArraySized t ek n na := by
  have card : ∀ j, j ≤ maxbits → upTo (slices t ek) j = (slotsInUse t ek (2 ^ j)).card :=
    fun j bound => slices_upTo_card small nodup bound
  have largest : ∀ i, 2 ^ i < 2 * (slotsInUse t ek (2 ^ i)).card → 2 ^ i ≤ n := by
    intro i half
    cases Nat.lt_or_ge maxbits i with
    | inl beyond =>
      -- no more than 2^MAXBITS slots are counted
      have bound := slotsInUse_card_le t ek (2 ^ i)
      have wide : 2 ^ (maxbits + 1) ≤ 2 ^ i := Nat.pow_le_pow_right (by decide) beyond
      rw [Nat.pow_succ] at wide
      rw [maxasize] at bound
      omega
    | inr bound =>
      rw [← card i bound] at half
      exact best.largest i (Nat.lt_succ_of_le bound) half
  cases best.chosen with
  | inl none =>
    obtain ⟨rfl, rfl⟩ := none
    exact ⟨.inl rfl, rfl, fun absurd' => (absurd' rfl).elim, largest⟩
  | inr some =>
    obtain ⟨j, below, rfl, rfl, half⟩ := some
    have bound : j ≤ maxbits := Nat.le_of_lt_succ below
    rw [card j bound] at half ⊢
    exact ⟨.inr ⟨j, bound, rfl⟩, rfl, fun _ => half, largest⟩

/-- `computesizes` reads only what `nums` has, and ends with the size of the array. -/
theorem computesizes_spec (small : t.sizearray < 2 ^ 31) (nodup : (countedKeys t ek).Nodup) {rounds : Nat}
    (enough : maxbits < rounds) :
    ∃ n na reads, computesizesReads (slices t ek) (candidates t ek) rounds 0 0 0 0 [] = some ((n, na), reads) ∧
      (∀ i ∈ reads, i ≤ maxbits) ∧ computesizes (slices t ek) (candidates t ek) = (n, na) ∧
      ArraySized t ek n na := by
  have counted : ∀ j, j ≤ maxbits → upTo (slices t ek) j ≤ 2 ^ j := by
    intro j bound
    rw [slices_upTo_card small nodup bound]
    exact (slotsInUse_card_le t ek _).trans (Nat.min_le_left _ _)
  have start : BestBelow (slices t ek) 0 0 0 := ⟨.inl ⟨rfl, rfl⟩, fun j below => (Nat.not_lt_zero j below).elim⟩
  obtain ⟨n, na, reads, ran, same, best, within⟩ := computesizesReads_best counted rounds (by omega)
    (Nat.zero_le _) start [] (by simp)
  rw [← candidates_eq] at ran same
  exact ⟨n, na, reads, ran, within, same, best.arraySized small nodup⟩

/-! ## One rehash is enough -/

variable {grow grow' : TValue → TableM Slot} {nasize nhsize : Nat}

theorem resize_completes (completes : Completes grow grow') (fits : nhsize ≤ maxasize)
    (done : resize address grow nasize nhsize t = .ok () t') :
    resize address grow' nasize nhsize t = .ok () t' := by
  cases Nat.lt_or_ge nasize t.sizearray with
  | inl shrinks =>
    rw [resize_shrinks address grow fits shrinks] at done
    rw [resize_shrinks address grow' fits shrinks]
    cases loop : reinsertSlice address grow (vanishing t nasize) (cutTo t nasize nhsize) with
    | error e u =>
      rw [bind_error loop] at done
      cases done
    | ok _ u =>
      rw [bind_ok loop] at done
      rw [bind_ok (reinsertSlice_completes completes _ _ loop)]
      exact reinsertNodes_completes completes _ _ done
  | inr keeps =>
    rw [resize_keeps address grow fits keeps] at done
    rw [resize_keeps address grow' fits keeps]
    exact reinsertNodes_completes completes _ _ done

theorem resize_overflow (address : TValue → Nat) (grow : TValue → TableM Slot) (t : Rep) (nasize : Nat)
    (large : maxasize < nhsize) : ∃ u, resize address grow nasize nhsize t = .error .overflow u := by
  by_cases grows : t.sizearray < nasize
  · have grown : setarrayvector nasize t = .ok () (grownTo t nasize) := rfl
    refine ⟨grownTo t nasize, ?_⟩
    rw [resize, bind_ok (get_run t), if_pos grows, bind_ok grown]
    exact bind_error (setnodevector_overflow large)
  · refine ⟨t, ?_⟩
    rw [resize, bind_ok (get_run t), if_neg grows]
    exact bind_error (setnodevector_overflow large)

/-- The table after `resize`: nothing is lost, the key on its way has a place, and no program in the place of
`rehash` would have been run. -/
structure RoomLeft (address : TValue → Nat) (t : Rep) (ek : TValue) (nasize nhsize : Nat) (t' : Rep) : Prop where
  resized : ∀ again, resize address again nasize nhsize t = .ok () t'
  inv : TableInv address t'
  kept : contents address t' = contents address t
  room : RoomFor nasize (hashedKeys nasize [ek]) t'
  set : ∃ slot u, ∀ again, luaHSet address again ek t' = .ok slot u

theorem TableInv.roomLeft (inv : TableInv address t) (proper : ek ≠ .nil) (small : nasize < 2 ^ 31)
    (fits : hashedKeys nasize (countedKeys t ek) ≤ maxasize) :
    ∃ t', RoomLeft address t ek nasize (hashedKeys nasize (countedKeys t ek)) t' := by
  have enough : hashedKeys nasize (liveKeys t) + hashedKeys nasize [ek] ≤
      hashedKeys nasize (countedKeys t ek) := (hashedKeys_append ..).ge
  obtain ⟨t', resized, inv', kept, room⟩ := inv.resize_room small fits enough refuseAgain
  obtain ⟨slot, u, set, -⟩ := inv'.luaHSet_room (n := 0) proper room refuseAgain
  exact ⟨t', fun again => resize_completes (refuseAgain_completes again) fits resized, inv', kept, room, slot, u,
    fun again => luaHSet_completes (refuseAgain_completes again) set⟩

theorem TableInv.countedKeys_nodup (inv : TableInv address t) (absent : contents address t ek = .nil) :
    (countedKeys t ek).Nodup := by
  have fresh : ek ∉ liveKeys t := fun member => inv.mem_liveKeys.mp member absent
  rw [countedKeys, List.nodup_append_comm]
  exact List.nodup_cons.mpr ⟨fresh, inv.liveKeys_nodup⟩

theorem hashedKeys_eq (nodup : (countedKeys t ek).Nodup) (bound : nasize ≤ maxasize) :
    hashedKeys nasize (countedKeys t ek) = (countedKeys t ek).length - (slotsInUse t ek nasize).card := by
  have split := countP_add_hashedKeys nasize (countedKeys t ek)
  have same : slotsInUse t ek nasize =
      (Finset.Icc 1 nasize).filter fun k => arrayKey (k - 1) ∈ countedKeys t ek := by
    refine Finset.filter_congr fun k member => ?_
    have inside := (Finset.mem_Icc.mp member).2
    simp only [Nat.le_trans inside bound, true_and]
  rw [countP_indexes nodup (Nat.lt_of_le_of_lt bound (by decide)), ← same] at split
  omega

/-- What `rehash` counts, the size that it finds, and what the `resize` to it leaves: room for the key on its
way, or the error "table overflow" when more nodes are needed than a table can have. -/
theorem rehash_sizes_table (address : TValue → Nat) {t : Rep} (inv : TableInv address t)
    (small : t.sizearray ≤ maxasize) {ek : TValue} (proper : ek ≠ .nil)
    (absent : contents address t ek = .nil) :
    (∀ lg, lg ≤ maxbits →
        slices t ek lg = ((slotsInUse t ek maxasize).filter fun k => ceillog2 k = lg).card) ∧
      ∃ n na, ArraySized t ek n na ∧
        (∀ rounds, maxbits < rounds → ∃ reads,
          computesizesReads (slices t ek) (candidates t ek) rounds 0 0 0 0 [] = some ((n, na), reads) ∧
            ∀ i ∈ reads, i ≤ maxbits) ∧
        rehashSizes t ek = (n, (countedKeys t ek).length - na) ∧
        ((maxasize < (countedKeys t ek).length - na ∧
            ∀ again, ∃ u, resize address again n ((countedKeys t ek).length - na) t = .error .overflow u) ∨
          ∃ t', RoomLeft address t ek n ((countedKeys t ek).length - na) t') := by
  have nodup := inv.countedKeys_nodup absent
  have within : ∀ i, maxasize ≤ i → i < t.sizearray → t.array i = .nil := by
    intro i low high
    omega
  refine ⟨slices_eq inv.small nodup, ?_⟩
  obtain ⟨n, na, -, -, -, sizes, sized⟩ := computesizes_spec inv.small nodup (Nat.lt_succ_self maxbits)
  obtain ⟨nasize, bound, hashed⟩ := rehashSizes_spec inv.small within ek
  have array : nasize = n := by
    have first : (rehashSizes t ek).1 = n := congrArg Prod.fst sizes
    rw [hashed] at first
    exact first
  subst array
  have nodes := hashedKeys_eq nodup bound
  rw [← sized.elements] at nodes
  rw [← countedKeys, nodes] at hashed
  refine ⟨nasize, na, sized, fun rounds enough => ?_, hashed, ?_⟩
  · obtain ⟨n', na', reads, ran, inside, sizes', -⟩ := computesizes_spec inv.small nodup enough
    have same : (n', na') = (nasize, na) := sizes'.symm.trans sizes
    rw [same] at ran
    exact ⟨reads, ran, inside⟩
  · rw [← nodes]
    cases Nat.lt_or_ge maxasize (hashedKeys nasize (countedKeys t ek)) with
    | inl large => exact .inl ⟨large, fun again => resize_overflow address again t nasize large⟩
    | inr fits => exact .inr (inv.roomLeft proper (Nat.lt_of_le_of_lt bound (by decide)) fits)

-- a new table, and the key 1
theorem rehash_sizes_new_table : ∃ t, TableInv (fun _ => 0) t ∧
    (∀ lg, lg ≤ maxbits → slices t (.number 1) lg =
      ((slotsInUse t (.number 1) maxasize).filter fun k => ceillog2 k = lg).card) ∧
    ∃ n na, ArraySized t (.number 1) n na ∧ rehashSizes t (.number 1) = (n, 1 - na) := by
  obtain ⟨t, made⟩ : ∃ t, luaHNew 0 0 noTable = .ok () t := ⟨_, rfl⟩
  have new : TableInv (fun _ => 0) t ∧ contents (fun _ => 0) t = fun _ => .nil :=
    luaHNew_spec (by decide) made
  obtain ⟨inv, empty⟩ := new
  have proper : TValue.number 1 ≠ .nil := by simp
  have small : t.sizearray ≤ maxasize := by
    cases made
    decide
  obtain ⟨slice, n, na, sized, -, sizes, -⟩ :=
    rehash_sizes_table (fun _ => 0) inv small proper (congrFun empty _)
  have one : (countedKeys t (.number 1)).length = 1 := by
    cases made
    rfl
  rw [one] at sizes
  exact ⟨t, inv, slice, n, na, sized, sizes⟩

/-! ## Too many nodes -/

def userKeys (n : Nat) : List TValue := (List.range n).map .lightuserdata

theorem userKeys_nodup (n : Nat) : (userKeys n).Nodup :=
  List.nodup_range.map fun _ _ same => TValue.lightuserdata.inj same

/-- A table with as many light userdata for its keys as a table can have nodes. -/
theorem full_table (address : TValue → Nat) (n : Nat) (bound : n ≤ maxasize) : ∃ t, TableInv address t ∧ t.sizearray ≤ maxasize ∧
    ∀ k, contents address t k ≠ .nil ↔ k ∈ userKeys n := by
  induction n with
  | zero =>
    obtain ⟨t, made⟩ : ∃ t, luaHNew 0 0 noTable = .ok () t := ⟨_, rfl⟩
    have new : TableInv address t ∧ contents address t = fun _ => .nil := luaHNew_spec (by decide) made
    obtain ⟨inv, empty⟩ := new
    refine ⟨t, inv, ?_, fun k => ?_⟩
    · cases made
      decide
    · rw [empty]
      simp [userKeys]
  | succ n ih =>
    obtain ⟨t, inv, small, keys⟩ := ih (by omega)
    have member : TValue.lightuserdata n ∈ userKeys (n + 1) := by simp [userKeys]
    have few : (userKeys (n + 1)).length ≤ maxasize := by simpa [userKeys] using bound
    have fits : StoreFits address t (.lightuserdata n) := by
      refine inv.storeFits small few (fun k filled => ?_) member
      · have old := (keys k).mp filled
        simp only [userKeys, List.mem_map, List.mem_range] at old ⊢
        obtain ⟨p, below, same⟩ := old
        exact ⟨p, by omega, same⟩
    obtain ⟨slot, u, -, ready, sizearray⟩ := inv.luaHSet_spec (by simp) fits 0
    obtain ⟨inv', written⟩ := ready.inv.setSlot ready.found (.boolean 1)
    refine ⟨_, inv', ?_, fun k => ?_⟩
    · cases slot <;> exact sizearray.elim (fun same => same.trans_le small) id
    · rw [written, ready.contents, Function.update_apply]
      by_cases new : k = .lightuserdata n
      · rw [if_pos new, new]
        simp [userKeys]
      · rw [if_neg new, keys k]
        simp only [userKeys, List.range_succ, List.map_append, List.mem_append, List.map_cons, List.map_nil,
          List.mem_singleton, new, or_false]

/-- With 2^MAXBITS keys in the nodes the `resize` for another one does not come back. -/
theorem full_table_overflows : ∃ t ek, TableInv (fun _ => 0) t ∧ t.sizearray ≤ maxasize ∧ ek ≠ .nil ∧
    contents (fun _ => 0) t ek = .nil ∧ ∀ again, ∃ u,
      resize (fun _ => 0) again (rehashSizes t ek).1 (rehashSizes t ek).2 t = .error .overflow u := by
  obtain ⟨t, inv, small, keys⟩ := full_table (fun _ => 0) maxasize le_rfl
  have within : ∀ i, maxasize ≤ i → i < t.sizearray → t.array i = .nil := by
    intro i low high
    omega
  have absent : contents (fun _ => 0) t (.lightuserdata maxasize) = .nil := by
    have out : TValue.lightuserdata maxasize ∉ userKeys maxasize := by simp [userKeys]
    by_contra filled
    exact out ((keys _).mp filled)
  have members : ∀ k, k ∈ countedKeys t (.lightuserdata maxasize) ↔ k ∈ userKeys (maxasize + 1) := by
    intro k
    rw [countedKeys, List.mem_append, inv.mem_liveKeys, keys k]
    simp only [userKeys, List.range_succ, List.map_append, List.mem_append, List.map_cons, List.map_nil]
  have perm := (List.perm_ext_iff_of_nodup (inv.countedKeys_nodup absent) (userKeys_nodup _)).mpr members
  obtain ⟨nasize, -, sizes⟩ := rehashSizes_spec inv.small within (.lightuserdata maxasize)
  have all : hashedKeys nasize (countedKeys t (.lightuserdata maxasize)) = maxasize + 1 := by
    have none : (countedKeys t (.lightuserdata maxasize)).countP (fun k => Indexes nasize k) = 0 := by
      rw [List.countP_eq_zero]
      intro k member
      obtain ⟨p, -, rfl⟩ := List.mem_map.mp ((members k).mp member)
      simp [Indexes, arrayindex]
    have length : (countedKeys t (.lightuserdata maxasize)).length = maxasize + 1 := by
      rw [perm.length_eq, userKeys, List.length_map, List.length_range]
    have split := countP_add_hashedKeys nasize (countedKeys t (.lightuserdata maxasize))
    omega
  refine ⟨t, .lightuserdata maxasize, inv, small, by simp, absent, fun again => ?_⟩
  have large : maxasize < (rehashSizes t (.lightuserdata maxasize)).2 := by
    rw [sizes]
    exact all.ge
  exact resize_overflow _ again t _ large

end Lunatik.Verified
