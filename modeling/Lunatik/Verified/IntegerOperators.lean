import Lunatik.Lua.Code
import Lunatik.Library.StateRuns
import Lunatik.Library.SignedWords
import Lunatik.Lua.Vm
import Mathlib.Tactic.Linarith
import Mathlib.Tactic.Ring

/-! # The operators on integers

The `luai_num` macros of the integer build against the operators that they stand for.  A sum, a
difference, a product or a negation that fits in a `long` is the one of the integers.  The remainder
is the truncated one of C, and the power is a product.
-/

namespace Lunatik.Verified

open Lunatik.Lua Lunatik.Library

/-! ## The exact operators -/

/-- The result of an operator on integers, where it is one: division has none here. -/
def exactResult : ArithOp → Int → Int → Option Int
  | .add, a, b => some (a + b)
  | .sub, a, b => some (a - b)
  | .mul, a, b => some (a * b)
  | .div, _, _ => none
  | .mod, a, b => if b = 0 then none else some (a - a.fdiv b * b)
  | .pow, a, b => if b < 0 then none else some (a ^ b.toNat)
  | .unm, a, _ => some (-a)

def opcodeOf : ArithOp → OpCode
  | .add => .add | .sub => .sub | .mul => .mul | .div => .div | .mod => .mod | .pow => .pow
  | .unm => .unm

/-! ## The three sites -/

-- the operands of the instruction are the numbers `a` and `b`
def NumberOperands (op : ArithOp) (f : Activation) (i : Instruction) (s : LuaState)
    (a b : LuaNumber) : Prop :=
  if op = .unm then f.reg (getargB i) s = .ok (.number a) s
  else f.rk (getargB i) s = .ok (.number a) s ∧ f.rk (getargC i) s = .ok (.number b) s

/-- The instruction on numbers, the coercion of its operands and the compiler all give `r`. -/
structure AllGive (op : ArithOp) (a b r : LuaNumber) : Prop where
  fast : ∀ getn f i s, NumberOperands op f i s a b →
    executeOp getn f i (opcodeOf op) s = f.setReg (getargA i) (.number r) s
  coerced : ∀ f ra rb rc, luaVTonumber rb = some a → luaVTonumber rc = some b →
    arith f ra rb rc op = f.setReg ra (.number r)
  folded : ∀ e1 e2, isnumeral e1 = true → isnumeral e2 = true → e1.nval = a → e2.nval = b →
    constfolding (opcodeOf op) e1 e2 = some (true, { e1 with nval := r })

section Sites

variable {op : ArithOp} {a b r : LuaNumber}

theorem arith_gives (gives : luaiNum op a b = some r) {rb rc : TValue}
    (left : luaVTonumber rb = some a) (right : luaVTonumber rc = some b) (f : Activation)
    (ra : Nat) :
    arith f ra rb rc op = f.setReg ra (.number r) := by
  have value : vmNum op a b = pure r := by rw [vmNum, gives]
  rw [arith, left, right]
  dsimp only
  rw [value, pure_bind]

theorem opArith_gives (gives : luaiNum op a b = some r) {f : Activation} {i : Instruction}
    {s : LuaState} (left : f.rk (getargB i) s = .ok (.number a) s)
    (right : f.rk (getargC i) s = .ok (.number b) s) :
    opArith f i op s = f.setReg (getargA i) (.number r) s := by
  have value : vmNum op a b = pure r := by rw [vmNum, gives]
  rw [opArith, bind_ok left, bind_ok right, arithOp]
  exact congrFun (congrArg (· >>= fun n => f.setReg (getargA i) (.number n)) value) s

theorem executeOp_gives (gives : luaiNum op a b = some r) (getn : Table → Nat) {f : Activation}
    {i : Instruction} {s : LuaState} (operands : NumberOperands op f i s a b) :
    executeOp getn f i (opcodeOf op) s = f.setReg (getargA i) (.number r) s := by
  rw [NumberOperands] at operands
  cases op with
  | unm =>
    rw [if_pos rfl] at operands
    obtain rfl := Option.some.inj gives
    exact bind_ok operands
  | _ =>
    obtain ⟨left, right⟩ := operands
    exact opArith_gives gives left right

theorem foldTo_eq (e : Expdesc) (r : LuaNumber) : foldTo e r = (true, { e with nval := r }) := by
  simp [foldTo, luaiNumisnan, luaiNumeq]

-- the compiler leaves a division by zero to the machine
def Attempted (op : ArithOp) (b : LuaNumber) : Prop := op = .div ∨ op = .mod → b ≠ 0

theorem constfolding_eq (attempted : Attempted op b) {e1 e2 : Expdesc}
    (first : isnumeral e1 = true) (second : isnumeral e2 = true) (left : e1.nval = a)
    (right : e2.nval = b) :
    constfolding (opcodeOf op) e1 e2 =
      (luaiNum op a b).map fun r => (true, { e1 with nval := r }) := by
  have result : foldTo e1 = fun r => (true, { e1 with nval := r }) := funext (foldTo_eq e1)
  have both : (!isnumeral e1 || !isnumeral e2) = false := by rw [first, second]; rfl
  rw [constfolding, both, if_neg Bool.false_ne_true, left, right, result]
  cases op with
  | div => exact if_neg (attempted (.inl rfl))
  | mod => exact if_neg (attempted (.inr rfl))
  | _ => rfl

def numeralOf (n : LuaNumber) : Expdesc := ⟨.vknum, 0, 0, n, noJump, noJump⟩

theorem allGive_iff (attempted : Attempted op b) :
    AllGive op a b r ↔ luaiNum op a b = some r := by
  constructor
  · intro all
    have folded := all.folded (numeralOf a) (numeralOf b) rfl rfl rfl rfl
    rw [constfolding_eq (a := a) (b := b) attempted rfl rfl rfl rfl] at folded
    obtain ⟨n, value, same⟩ := Option.map_eq_some_iff.mp folded
    have nval : n = r := congrArg (fun p => p.2.nval) same
    rw [value, nval]
  · intro gives
    refine ⟨fun getn f i s => executeOp_gives gives getn, fun f ra rb rc left right =>
      arith_gives gives left right f ra, fun e1 e2 first second left right => ?_⟩
    rw [constfolding_eq attempted first second left right, gives]
    rfl

end Sites

/-! ## The operators on words -/

section Words

variable {a b : LuaNumber} {u v : Int}

/-- The remainder of C has the sign of the dividend. -/
theorem tmod_eq_fmod_iff (u v : Int) (nonzero : v ≠ 0) :
    u.tmod v = u.fmod v ↔ v ∣ u ∨ (0 < u ↔ 0 < v) := by
  rw [Int.fmod_eq_tmod]
  by_cases divides : v ∣ u
  · simp [divides]
  · have nonzero' : u ≠ 0 := by
      rintro rfl
      exact divides (dvd_zero v)
    simp only [divides, if_false, false_or]
    split_ifs <;> omega

theorem exact_mod (u v : Int) : u - u.fdiv v * v = u.fmod v := by
  rw [Int.fmod_def, Int.mul_comm]

theorem fmod_fits (nonzero : b.toInt ≠ 0) : Fits 64 (a.toInt.fmod b.toInt) := by
  have bound := fits_toInt b
  have low := Int.emod_nonneg a.toInt nonzero
  have high := Int.emod_lt_abs a.toInt nonzero
  rw [abs_eq_max_neg] at high
  rw [Fits] at bound ⊢
  rw [Int.fmod_eq_emod]
  split_ifs <;> omega

theorem luaiNummod_iff (nonzero : b.toInt ≠ 0) :
    luaiNummod a b = some (BitVec.ofInt 64 (a.toInt.fmod b.toInt)) ↔
      (b.toInt ∣ a.toInt ∨ (0 < a.toInt ↔ 0 < b.toInt)) ∧
        ¬ (a.toInt = -2 ^ 63 ∧ b.toInt = -1) := by
  have notZero : b ≠ 0 := by
    rintro rfl
    exact nonzero rfl
  have extreme : DivTraps a b ↔ a.toInt = -2 ^ 63 ∧ b.toInt = -1 := by
    have first : a = longMin ↔ a.toInt = -2 ^ 63 := BitVec.toInt_inj.symm
    have second : b = -1 ↔ b.toInt = -1 := BitVec.toInt_inj.symm
    rw [DivTraps, first, second, or_iff_right notZero]
  rw [luaiNummod, ← extreme, ← tmod_eq_fmod_iff _ _ nonzero, ← BitVec.toInt_srem]
  split
  next traps => simp [traps]
  next safe =>
    rw [Option.some.injEq, eq_ofInt_iff (by decide) (fmod_fits nonzero), and_iff_left safe]

/-- From two on, a power is larger than the product, but for two times two. -/
theorem mul_le_pow {x n : Nat} (two : 2 ≤ x) (more : 2 ≤ n) :
    x * n ≤ x ^ n ∧ (x * n = x ^ n → x = 2 ∧ n = 2) := by
  induction n, more using Nat.le_induction with
  | base =>
    rw [pow_two]
    refine ⟨Nat.mul_le_mul_left x two, fun same => ⟨?_, rfl⟩⟩
    exact (Nat.eq_of_mul_eq_mul_left (by omega) same).symm
  | succ n more ih =>
    have step : x ^ n * 2 ≤ x ^ (n + 1) := by
      rw [pow_succ]
      exact Nat.mul_le_mul_left _ two
    have strict : x * (n + 1) < x * n * 2 := by nlinarith
    have chain := ih.1
    exact ⟨by omega, fun same => by omega⟩

-- the same for integers, with the signs
theorem mul_eq_pow_iff {u : Int} {n : Nat} (more : 2 ≤ n) :
    u * n = u ^ n ↔ u = 0 ∨ (u = 2 ∧ n = 2) := by
  constructor
  · intro same
    have sizes : u.natAbs * n = u.natAbs ^ n := by
      have sizes := congrArg Int.natAbs same
      rwa [Int.natAbs_mul, Int.natAbs_pow, Int.natAbs_natCast] at sizes
    by_cases two : 2 ≤ u.natAbs
    · obtain ⟨size, rfl⟩ := (mul_le_pow two more).2 sizes
      rcases Int.natAbs_eq u with positive | negative
      · exact .inr ⟨by omega, rfl⟩
      · rw [negative, size] at same
        cases same
    · left
      by_contra nonzero
      have one : u.natAbs = 1 := by omega
      rw [one, one_pow, one_mul] at sizes
      omega
  · rintro (rfl | ⟨rfl, rfl⟩)
    · rw [zero_mul, zero_pow (by omega)]
    · rfl

-- a power that fits is not far from the product
theorem product_near {u : Int} {n : Nat} (more : 2 ≤ n) (small : (n : Int) < 2 ^ 63)
    (fits : Fits 64 (u ^ n)) : |u * n - u ^ n| < 2 ^ 64 := by
  have power : (u ^ n).natAbs ≤ 2 ^ 63 := by
    rw [Fits] at fits
    omega
  have sizes : (u * n).natAbs + (u ^ n).natAbs < 2 ^ 64 := by
    rw [Int.natAbs_mul, Int.natAbs_natCast]
    rw [Int.natAbs_pow] at power ⊢
    rcases Nat.lt_or_ge u.natAbs 2 with below | two
    · rcases Nat.le_one_iff_eq_zero_or_eq_one.mp (Nat.le_of_lt_succ below) with zero | one
      · rw [zero, zero_mul, zero_pow (by omega)]
        decide
      · rw [one, one_mul, one_pow]
        omega
    · obtain ⟨le, same⟩ := mul_le_pow two more
      by_cases equal : u.natAbs * n = u.natAbs ^ n
      · obtain ⟨size, rfl⟩ := same equal
        rw [size]
        decide
      · omega
  rw [abs_lt]
  omega

/-- The product stands for a power that fits in a `long` in these cases only. -/
theorem luaiNumpow_iff (exponent : 0 ≤ b.toInt) (fits : Fits 64 (a.toInt ^ b.toInt.toNat)) :
    luaiNumpow a b = BitVec.ofInt 64 (a.toInt ^ b.toInt.toNat) ↔
      b.toInt = 1 ∨ (a.toInt = 0 ∧ b.toInt ≠ 0) ∨ (a.toInt = 2 ∧ b.toInt = 2) := by
  have bound := (fits_toInt b).2
  obtain ⟨n, value⟩ := Int.eq_ofNat_of_zero_le exponent
  rw [luaiNumpow, luaiNummul, mul_eq_ofInt]
  rw [value, Int.toNat_natCast] at fits ⊢
  rw [value] at bound
  rcases Nat.lt_or_ge n 2 with below | more
  · rcases Nat.le_one_iff_eq_zero_or_eq_one.mp (Nat.le_of_lt_succ below) with rfl | rfl
    · rw [pow_zero, Nat.cast_zero, mul_zero]
      simp
    · rw [pow_one, Nat.cast_one, mul_one]
      simp
  · have same : BitVec.ofInt 64 (a.toInt * n) = BitVec.ofInt 64 (a.toInt ^ n) ↔
        a.toInt * n = a.toInt ^ n :=
      ⟨eq_of_ofInt_eq (product_near more bound fits), fun eq => by rw [eq]⟩
    rw [same, mul_eq_pow_iff more]
    omega

end Words

/-! ## The operators at every site -/

/-- Every site computes the exact result of `op` on `a` and `b`, if it is one and fits. -/
def OperatorExact (op : ArithOp) (a b : LuaNumber) : Prop :=
  ∀ v, exactResult op a.toInt b.toInt = some v → Fits 64 v → AllGive op a b (BitVec.ofInt 64 v)

/-- The operands on which the integer build computes the operator of the floating-point build. -/
def SameOperator : ArithOp → Int → Int → Prop
  | .mod, a, b => b ≠ 0 → (b ∣ a ∨ (0 < a ↔ 0 < b)) ∧ ¬ (a = -2 ^ 63 ∧ b = -1)
  | .pow, a, b => 0 ≤ b → Fits 64 (a ^ b.toNat) →
      b = 1 ∨ (a = 0 ∧ b ≠ 0) ∨ (a = 2 ∧ b = 2)
  | _, _, _ => True

/-- The operators are exact on integers but for the remainder and the power.  The remainder is
exact if it is zero or the operands have one sign, and is no trap; the power where it happens to be
the product. -/
theorem operatorExact_iff (op : ArithOp) (a b : LuaNumber) :
    OperatorExact op a b ↔ SameOperator op a.toInt b.toInt := by
  rw [OperatorExact]
  cases op with
  | add =>
    refine iff_true_intro fun v exact' _ => (allGive_iff (fun h => by simp at h)).mpr ?_
    obtain rfl := Option.some.inj exact'
    exact congrArg some (add_eq_ofInt a b)
  | sub =>
    refine iff_true_intro fun v exact' _ => (allGive_iff (fun h => by simp at h)).mpr ?_
    obtain rfl := Option.some.inj exact'
    exact congrArg some (sub_eq_ofInt a b)
  | mul =>
    refine iff_true_intro fun v exact' _ => (allGive_iff (fun h => by simp at h)).mpr ?_
    obtain rfl := Option.some.inj exact'
    exact congrArg some (mul_eq_ofInt a b)
  | unm =>
    refine iff_true_intro fun v exact' _ => (allGive_iff (fun h => by simp at h)).mpr ?_
    obtain rfl := Option.some.inj exact'
    exact congrArg some (neg_eq_ofInt a)
  | div => exact iff_true_intro fun v exact' _ => by cases exact'
  | mod =>
    rw [SameOperator, exactResult]
    by_cases divisor : b.toInt = 0
    · simp [divisor]
    · have attempted : Attempted .mod b := by
        rintro - rfl
        exact divisor rfl
      simp only [if_false, Option.some.injEq, exact_mod, forall_eq', ne_eq, divisor,
        not_false_eq_true, forall_const]
      rw [imp_iff_right (fmod_fits divisor), allGive_iff attempted]
      exact luaiNummod_iff divisor
  | pow =>
    rw [SameOperator, exactResult]
    by_cases negative : b.toInt < 0
    · have exponent : ¬ 0 ≤ b.toInt := by omega
      simp [negative, exponent]
    · have exponent : 0 ≤ b.toInt := by omega
      simp only [if_neg negative, Option.some.injEq, forall_eq', exponent, forall_const]
      refine imp_congr_right fun fits => ?_
      rw [allGive_iff (fun h => by simp at h)]
      exact Option.some_inj.trans (luaiNumpow_iff exponent fits)

/-- `-7 % 3` is 2 and not -1, and `2 ^ 3` is 8 and not 6. -/
theorem operators_differ : ¬ OperatorExact .mod (-7) 3 ∧ ¬ OperatorExact .pow 2 3 := by
  constructor
  · intro all
    have gives := all 2 (by decide) (by decide)
    rw [allGive_iff (fun _ => by decide)] at gives
    revert gives
    decide
  · intro all
    have gives := all 8 (by decide) (by decide)
    rw [allGive_iff (fun h => by simp at h)] at gives
    revert gives
    decide

end Lunatik.Verified
