import Mathlib.Algebra.Order.Ring.Int
import Mathlib.Data.BitVec
import Mathlib.Tactic.Common

/-! # Signed words and integers

A word of `w` bits stands for an integer of a range of `2 ^ w`.  An operation on words that gives
the word of the exact result is right whenever that result is in the range.
-/

namespace Lunatik.Library

variable {w : Nat} {x y : BitVec w} {u v : Int}

/-- `v` is the value of a signed word of `w` bits. -/
def Fits (w : Nat) (v : Int) : Prop := -2 ^ (w - 1) ≤ v ∧ v < 2 ^ (w - 1)
  deriving Decidable

theorem fits_toInt (x : BitVec w) : Fits w x.toInt := ⟨BitVec.le_toInt x, BitVec.toInt_lt⟩

theorem toInt_ofInt_of_fits (some : 0 < w) (fits : Fits w v) : (BitVec.ofInt w v).toInt = v :=
  BitVec.toInt_ofInt_eq_self some fits.1 fits.2

theorem eq_ofInt_iff (some : 0 < w) (fits : Fits w v) : x = BitVec.ofInt w v ↔ x.toInt = v := by
  rw [← BitVec.toInt_inj, toInt_ofInt_of_fits some fits]

/-- Two integers with the same word differ by a multiple of the range. -/
theorem ofInt_eq_ofInt_iff : BitVec.ofInt w u = BitVec.ofInt w v ↔ (2 ^ w : Int) ∣ u - v := by
  rw [← BitVec.toInt_inj, BitVec.toInt_ofInt, BitVec.toInt_ofInt,
    Int.bmod_eq_bmod_iff_bmod_sub_eq_zero, ← Int.dvd_iff_bmod_eq_zero, Nat.cast_pow, Nat.cast_ofNat]

/-- Integers that are close together have different words. -/
theorem eq_of_ofInt_eq (near : |u - v| < 2 ^ w) (same : BitVec.ofInt w u = BitVec.ofInt w v) :
    u = v := by
  have multiple := ofInt_eq_ofInt_iff.mp same
  have zero := Int.eq_zero_of_abs_lt_dvd multiple near
  omega

/-! ## Operations -/

theorem add_eq_ofInt (x y : BitVec w) : x + y = BitVec.ofInt w (x.toInt + y.toInt) := by
  rw [BitVec.ofInt_add, BitVec.ofInt_toInt, BitVec.ofInt_toInt]

theorem sub_eq_ofInt (x y : BitVec w) : x - y = BitVec.ofInt w (x.toInt - y.toInt) := by
  rw [← BitVec.toInt_inj, BitVec.toInt_ofInt, BitVec.toInt_sub]

theorem mul_eq_ofInt (x y : BitVec w) : x * y = BitVec.ofInt w (x.toInt * y.toInt) := by
  rw [BitVec.ofInt_mul, BitVec.ofInt_toInt, BitVec.ofInt_toInt]

theorem neg_eq_ofInt (x : BitVec w) : -x = BitVec.ofInt w (-x.toInt) := by
  rw [BitVec.ofInt_neg, BitVec.ofInt_toInt]

/-! ## Counting

`init`, `init + step`, `init + 2 * step`, ... up to a limit, or down to it if the step is negative.
-/

/-- `v` is not beyond `limit` in the direction of `step`. -/
def Within (limit step v : Int) : Prop := if 0 < step then v ≤ limit else limit ≤ v
  deriving Decidable

section Counting

variable {init limit step : Int}

theorem Within.before {n k : Nat} (within : Within limit step (init + n * step)) (le : k ≤ n) :
    Within limit step (init + k * step) := by
  obtain ⟨m, rfl⟩ := Nat.exists_eq_add_of_le le
  rw [Nat.cast_add, add_mul, ← add_assoc] at within
  have distance : 0 ≤ (m : Int) := Int.natCast_nonneg m
  rw [Within] at within ⊢
  split at within
  next up =>
    have forward : 0 ≤ (m : Int) * step := mul_nonneg distance up.le
    rw [if_pos up]
    omega
  next down =>
    have backward : (m : Int) * step ≤ 0 := mul_nonpos_of_nonneg_of_nonpos distance (not_lt.mp down)
    rw [if_neg down]
    omega

/-- The limit is passed in the end. -/
theorem exists_beyond (init limit : Int) (moves : step ≠ 0) :
    ∃ n : Nat, ¬ Within limit step (init + n * step) := by
  refine ⟨(limit - init).natAbs + 1, ?_⟩
  have size : |limit - init| < (((limit - init).natAbs + 1 : Nat) : Int) := by
    rw [Int.abs_eq_natAbs]
    omega
  generalize (((limit - init).natAbs + 1 : Nat) : Int) = n at size
  rw [abs_lt] at size
  rw [Within]
  split
  next up =>
    have far : n ≤ n * step := le_mul_of_one_le_right (by omega) up
    omega
  next down =>
    have far : n * step ≤ -n := by
      have one : step ≤ -1 := by omega
      have product := mul_le_mul_of_nonneg_left one (by omega : 0 ≤ n)
      rwa [mul_neg, mul_one] at product
    omega

-- what is before a number that fits does fit
theorem fits_before {n k : Nat} (first : Fits w init) (last : Fits w (init + n * step))
    (le : k ≤ n) : Fits w (init + k * step) := by
  have low : 0 ≤ (k : Int) := Int.natCast_nonneg k
  have high : (k : Int) ≤ n := by omega
  rw [Fits] at first last ⊢
  rcases le_or_gt 0 step with up | down
  · have from' : 0 ≤ (k : Int) * step := mul_nonneg low up
    have upto : (k : Int) * step ≤ n * step := mul_le_mul_of_nonneg_right high up
    omega
  · have from' : (k : Int) * step ≤ 0 := mul_nonpos_of_nonneg_of_nonpos low down.le
    have upto : (n : Int) * step ≤ k * step := mul_le_mul_of_nonpos_right high down.le
    omega

theorem ofInt_sub_range (v : Int) : BitVec.ofInt w (v - 2 ^ w) = BitVec.ofInt w v := by
  rw [ofInt_eq_ofInt_iff, sub_sub_cancel_left]
  exact Int.dvd_neg.mpr (Int.dvd_refl _)

theorem ofInt_add_range (v : Int) : BitVec.ofInt w (v + 2 ^ w) = BitVec.ofInt w v := by
  rw [ofInt_eq_ofInt_iff, add_sub_cancel_left]

/-- A counter that leaves the range of the words comes back on the near side of the limit. -/
theorem within_wrapped {v : Int} (some : 0 < w) (fits : Fits w v) (stepFits : Fits w step)
    (within : Within limit step v) (leaves : ¬ Fits w (v + step)) :
    Within limit step (BitVec.ofInt w (v + step)).toInt := by
  have range : (2 : Int) ^ w = 2 ^ (w - 1) + 2 ^ (w - 1) := by
    rw [← mul_two, ← pow_succ, Nat.sub_add_cancel some]
  have size : (0 : Int) < 2 ^ (w - 1) := Int.pow_pos (by decide)
  rw [Within] at within ⊢
  rw [Fits] at fits stepFits leaves
  split at within
  next up =>
    have value : (BitVec.ofInt w (v + step)).toInt = v + step - 2 ^ w := by
      rw [← ofInt_sub_range, toInt_ofInt_of_fits some]
      rw [Fits]
      omega
    rw [if_pos up, value]
    omega
  next down =>
    have value : (BitVec.ofInt w (v + step)).toInt = v + step + 2 ^ w := by
      rw [← ofInt_add_range, toInt_ofInt_of_fits some]
      rw [Fits]
      omega
    rw [if_neg down, value]
    omega

end Counting

end Lunatik.Library
