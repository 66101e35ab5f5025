import Lunatik.Lua.Metamethods
import Lunatik.Lua.Strcoll

/-! # Strings are compared byte by byte

Each round of `l_strcmp` compares two pieces up to their first zero.  Where they differ, the strings do
(`strcoll_cases`), and where they are equal, what is behind the zeros decides.
-/

namespace Lunatik.Verified

open Lunatik.Kernel Lunatik.Lua Lunatik.Lua.Strcoll

/-! ## One piece -/

/-- The piece that both strings start with, up to a zero. -/
structure SamePiece (x y piece : List UInt8) : Prop where
  zeroFree : 0 ∉ piece
  left : x = piece ∨ ∃ rest, x = piece ++ 0 :: rest
  right : y = piece ∨ ∃ rest, y = piece ++ 0 :: rest

theorem SamePiece.cons {x y piece : List UInt8} (same : SamePiece x y piece) {c : UInt8} (nonzero : c ≠ 0) :
    SamePiece (c :: x) (c :: y) (c :: piece) where
  zeroFree := by simpa [nonzero.symm] using same.zeroFree
  left := by simpa using same.left
  right := by simpa using same.right

theorem SamePiece.nil {x y : List UInt8} (left : x = [] ∨ ∃ rest, x = 0 :: rest)
    (right : y = [] ∨ ∃ rest, y = 0 :: rest) : SamePiece x y [] := ⟨by simp, left, right⟩

/-- The next bytes of the two pieces, which end with a zero. -/
theorem strcoll_next (front front' x y : List UInt8) (rounds : Nat) :
    strcoll (front ++ x) (front' ++ y) (rounds + 1) front.length front'.length =
      let c1 := (x ++ [0]).head (by simp)
      let c2 := (y ++ [0]).head (by simp)
      if c1 ≠ c2 then some (if c1 < c2 then -1 else 1)
      else if c1 = 0 then some 0
      else strcoll (front ++ x) (front' ++ y) rounds (front.length + 1) (front'.length + 1) := by
  have first : byteAt (front ++ x) front.length = some ((x ++ [0]).head (by simp)) := by
    cases x <;> simp [byteAt]
  have second : byteAt (front' ++ y) front'.length = some ((y ++ [0]).head (by simp)) := by
    cases y <;> simp [byteAt]
  simp only [strcoll, first, second, Option.bind_eq_bind, Option.bind_some, Option.pure_def]

/-- Where two pieces differ, the strings do. -/
theorem strcoll_cases (front front' x y : List UInt8) (rounds : Nat) (enough : x.length < rounds) :
    ∃ temp, strcoll (front ++ x) (front' ++ y) rounds front.length front'.length = some temp ∧
      (temp < 0 ∧ x < y ∨ 0 < temp ∧ y < x ∨ temp = 0 ∧ ∃ piece, SamePiece x y piece) := by
  induction x generalizing front front' y rounds with
  | nil =>
    obtain ⟨rounds, rfl⟩ := Nat.exists_eq_add_of_lt enough
    simp only [List.length_nil, Nat.zero_add]
    rw [strcoll_next]
    cases y with
    | nil => exact ⟨0, by simp, .inr (.inr ⟨rfl, [], .nil (.inl rfl) (.inl rfl)⟩)⟩
    | cons b y =>
      by_cases zero : b = 0
      · exact ⟨0, by simp [zero], .inr (.inr ⟨rfl, [], .nil (.inl rfl) (.inr ⟨y, by rw [zero]⟩)⟩)⟩
      · have positive : 0 < b := UInt8.pos_iff_ne_zero.mpr zero
        exact ⟨-1, by simp [Ne.symm zero, positive], .inl ⟨by simp, by simp⟩⟩
  | cons a x ih =>
    obtain ⟨rounds, rfl⟩ := Nat.exists_eq_add_of_lt enough
    have moved := ih (front ++ [a])
    simp only [List.append_assoc, List.singleton_append, List.length_append, List.length_singleton] at moved
    simp only [List.length_cons]
    rw [strcoll_next]
    simp only [List.cons_append, List.head_cons]
    cases y with
    | nil =>
      by_cases zero : a = 0
      · exact ⟨0, by simp [zero], .inr (.inr ⟨rfl, [], .nil (.inr ⟨x, by rw [zero]⟩) (.inl rfl)⟩)⟩
      · exact ⟨1, by simp [zero], .inr (.inl ⟨by simp, by simp⟩)⟩
    | cons b y =>
      simp only [List.cons_append, List.head_cons]
      by_cases same : a = b
      · rw [← same]
        by_cases zero : a = 0
        · exact ⟨0, by simp [zero], .inr (.inr ⟨rfl, [], .nil (.inr ⟨x, by rw [zero]⟩) (.inr ⟨y, by rw [zero]⟩)⟩)⟩
        · obtain ⟨temp, ran, which⟩ := moved (front' ++ [a]) y (x.length + 1 + rounds) (by omega)
          simp only [List.append_assoc, List.singleton_append, List.length_append, List.length_singleton] at ran
          refine ⟨temp, by simp [zero, ran], ?_⟩
          rcases which with less | greater | ⟨equal, piece, shared⟩
          · exact .inl ⟨less.1, List.cons_lt_cons_iff.mpr (.inr ⟨rfl, less.2⟩)⟩
          · exact .inr (.inl ⟨greater.1, List.cons_lt_cons_iff.mpr (.inr ⟨rfl, greater.2⟩)⟩)
          · exact .inr (.inr ⟨equal, a :: piece, shared.cons zero⟩)
      · by_cases less : a < b
        · exact ⟨-1, by simp [same, less], .inl ⟨by simp, List.cons_lt_cons_iff.mpr (.inl less)⟩⟩
        · have greater : b < a := UInt8.lt_of_le_of_ne (UInt8.not_lt.mp less) (Ne.symm same)
          exact ⟨1, by simp [same, less], .inr (.inl ⟨by simp, List.cons_lt_cons_iff.mpr (.inl greater)⟩)⟩

/-- `strlen` finds the zero behind a piece. -/
theorem strlen_piece (front x piece : List UInt8) (rounds : Nat) (zeroFree : 0 ∉ piece)
    (ends : x = piece ∨ ∃ rest, x = piece ++ 0 :: rest) (enough : piece.length < rounds) :
    strlen (front ++ x) rounds front.length = some piece.length := by
  induction piece generalizing front x rounds with
  | nil =>
    obtain ⟨rounds, rfl⟩ := Nat.exists_eq_add_of_lt enough
    rcases ends with rfl | ⟨rest, rfl⟩ <;> simp [strlen, byteAt]
  | cons a piece ih =>
    obtain ⟨rounds, rfl⟩ := Nat.exists_eq_add_of_lt enough
    simp only [List.mem_cons, not_or] at zeroFree
    have nonzero : a ≠ 0 := Ne.symm zeroFree.1
    obtain ⟨x', rfl, ends'⟩ : ∃ x', x = a :: x' ∧ (x' = piece ∨ ∃ rest, x' = piece ++ 0 :: rest) := by
      rcases ends with rfl | ⟨rest, rfl⟩
      · exact ⟨piece, rfl, .inl rfl⟩
      · exact ⟨piece ++ 0 :: rest, rfl, .inr ⟨rest, rfl⟩⟩
    have later := ih (front ++ [a]) x' (piece.length + 1 + rounds) zeroFree.2 ends' (by omega)
    simp only [List.append_assoc, List.singleton_append, List.length_append, List.length_singleton] at later
    simp [strlen, byteAt, nonzero, later]

/-! ## The whole string -/

/-- The sign of what `l_strcmp` returns. -/
def Decides (order : Int) (x y : List UInt8) : Prop :=
  order < 0 ∧ x < y ∨ 0 < order ∧ y < x ∨ order = 0 ∧ x = y

theorem Decides.append {order : Int} {x y : List UInt8} (decides : Decides order x y) (front : List UInt8) :
    Decides order (front ++ x) (front ++ y) := by
  rcases decides with ⟨sign, less⟩ | ⟨sign, greater⟩ | ⟨sign, rfl⟩
  · exact .inl ⟨sign, List.append_left_lt less⟩
  · exact .inr (.inl ⟨sign, List.append_left_lt greater⟩)
  · exact .inr (.inr ⟨sign, rfl⟩)

/-- Each round but the last leaves two shorter strings. -/
theorem lStrcmpLoop_decides (front front' x y : List UInt8) {rounds : Nat} (enough : x.length < rounds)
    (fits : x.length < sizeModulus) (fits' : y.length < sizeModulus) : ∃ order,
      lStrcmpLoop (front ++ x) (front' ++ y) rounds front.length x.length front'.length y.length = some order ∧
        Decides order x y := by
  induction rounds generalizing front front' x y with
  | zero => exact absurd enough (Nat.not_lt_zero _)
  | succ rounds ih =>
    obtain ⟨temp, ran, which⟩ := strcoll_cases front front' x y ((front ++ x).length + 1)
      (by simp only [List.length_append]; omega)
    simp only [lStrcmpLoop, ran, Option.bind_eq_bind, Option.bind_some, Option.pure_def]
    rcases which with ⟨sign, less⟩ | ⟨sign, greater⟩ | ⟨equal, piece, same⟩
    · exact ⟨temp, by simp [Int.ne_of_lt sign], .inl ⟨sign, less⟩⟩
    · exact ⟨temp, by simp [Int.ne_of_gt sign], .inr (.inl ⟨sign, greater⟩)⟩
    · have inside : piece.length ≤ x.length := by
        rcases same.left with rfl | ⟨rest, rfl⟩ <;> simp
      have len := strlen_piece front x piece ((front ++ x).length + 1) same.zeroFree same.left
        (by simp only [List.length_append]; omega)
      simp only [len, equal, Option.bind_some]
      rcases same.left with rfl | ⟨x', rfl⟩
      · rcases same.right with rfl | ⟨y', rfl⟩
        · exact ⟨0, by simp, .inr (.inr ⟨rfl, rfl⟩)⟩
        · have shorter : x ++ [] < x ++ 0 :: y' := List.append_left_lt (List.nil_lt_cons 0 y')
          rw [List.append_nil] at shorter
          exact ⟨-1, by simp, .inl ⟨by decide, shorter⟩⟩
      · rcases same.right with rfl | ⟨y', rfl⟩
        · have longer : y ++ [] < y ++ 0 :: x' := List.append_left_lt (List.nil_lt_cons 0 x')
          rw [List.append_nil] at longer
          exact ⟨1, by simp, .inr (.inl ⟨by decide, longer⟩)⟩
        · -- both go on behind the zero
          simp only [List.length_append, List.length_cons] at fits fits' enough
          obtain ⟨order, ran', decides⟩ := ih (front ++ piece ++ [0]) (front' ++ piece ++ [0]) x' y' (by omega)
            (by omega) (by omega)
          refine ⟨order, ?_, ?_⟩
          · have left := sizeSub_eq (a := piece.length + (x'.length + 1)) (b := piece.length + 1) fits (by omega)
            have right := sizeSub_eq (a := piece.length + (y'.length + 1)) (b := piece.length + 1) fits' (by omega)
            simp only [List.append_assoc, List.length_append, List.singleton_append, List.length_singleton] at ran'
            simp [left, right, ran', Nat.add_sub_add_left]
          · have behind := decides.append (piece ++ [0])
            simp only [List.append_assoc, List.singleton_append] at behind
            exact behind

theorem lStrcmp_decides (x y : LuaString) :
    ∃ order, Strcoll.lStrcmp x y = some order ∧ Decides order x.bytes y.bytes :=
  lStrcmpLoop_decides [] [] x.bytes y.bytes (Nat.lt_succ_self _) x.fits y.fits

theorem lessthan_eq (x y : LuaString) : Strcoll.lessthan x y = some (decide (x.bytes < y.bytes)) := by
  obtain ⟨order, ran, ⟨sign, less⟩ | ⟨sign, greater⟩ | ⟨sign, equal⟩⟩ := lStrcmp_decides x y
  · simp [Strcoll.lessthan, ran, sign, less]
  · have above : ¬ x.bytes < y.bytes := List.lt_asymm greater
    simp [Strcoll.lessthan, ran, Int.not_lt.mpr (Int.le_of_lt sign), above]
  · have above : ¬ x.bytes < y.bytes := by
      rw [equal]
      exact List.lt_irrefl _
    simp [Strcoll.lessthan, ran, sign, above]

theorem lessequal_eq (x y : LuaString) : Strcoll.lessequal x y = some (decide (x.bytes ≤ y.bytes)) := by
  obtain ⟨order, ran, ⟨sign, less⟩ | ⟨sign, greater⟩ | ⟨sign, equal⟩⟩ := lStrcmp_decides x y
  · simp [Strcoll.lessequal, ran, Int.le_of_lt sign, List.le_of_lt less]
  · have above : ¬ x.bytes ≤ y.bytes := List.not_le.mpr greater
    simp [Strcoll.lessequal, ran, Int.not_le.mpr sign, above]
  · simp [Strcoll.lessequal, ran, sign, equal]

/-! ## The interpreter -/

/-- The interpreter's comparison of byte lists gives the same order. -/
theorem lStrcmp_lt_iff (x y : List UInt8) : Lua.lStrcmp x y = .lt ↔ x < y := by
  fun_induction Lua.lStrcmp x y with
  | case1 => simp
  | case2 => simp
  | case3 => simp
  | case4 a x b y less => simp [less, List.cons_lt_cons_iff]
  | case5 a x b y less greater =>
    have different : a ≠ b := fun same => less (same ▸ greater)
    simp [less, different, List.cons_lt_cons_iff]
  | case6 a x b y less greater ih =>
    have same : a = b := UInt8.le_antisymm (UInt8.not_lt.mp greater) (UInt8.not_lt.mp less)
    simp [same, ih]

theorem lStrcmp_swap (x y : List UInt8) : Lua.lStrcmp x y = .gt ↔ y < x := by
  fun_induction Lua.lStrcmp x y with
  | case1 => simp
  | case2 => simp
  | case3 => simp
  | case4 a x b y less =>
    have different : b ≠ a := fun same => UInt8.lt_irrefl a (same ▸ less)
    have above : ¬ b < a := UInt8.not_lt.mpr (UInt8.le_of_lt less)
    simp [above, different, List.cons_lt_cons_iff]
  | case5 a x b y less greater => simp [greater, List.cons_lt_cons_iff]
  | case6 a x b y less greater ih =>
    have same : a = b := UInt8.le_antisymm (UInt8.not_lt.mp greater) (UInt8.not_lt.mp less)
    simp [same, ih]

theorem luaVLessthan_strings (i : Instruction) (x y : LuaString) (s : LuaState) :
    luaVLessthan i (.string x.bytes) (.string y.bytes) s = .ok (Strcoll.lessthan x y) s := by
  have decided : (Lua.lStrcmp x.bytes y.bytes == .lt) = decide (x.bytes < y.bytes) := by
    rw [Bool.eq_iff_iff]
    simp [lStrcmp_lt_iff]
  rw [lessthan_eq, ← decided]
  rfl

theorem lessequal_strings (i : Instruction) (x y : LuaString) (s : LuaState) :
    Lua.lessequal i (.string x.bytes) (.string y.bytes) s = .ok (Strcoll.lessequal x y) s := by
  have decided : (Lua.lStrcmp x.bytes y.bytes != .gt) = decide (x.bytes ≤ y.bytes) := by
    rw [Bool.eq_iff_iff]
    simp [lStrcmp_swap]
  rw [lessequal_eq, ← decided]
  rfl

/-- `luaV_lessthan` is a strict total order. -/
theorem lessthan_strictTotalOrder : IsStrictTotalOrder LuaString (fun x y => Strcoll.lessthan x y = some true) := by
  have bytes : (fun x y : LuaString => Strcoll.lessthan x y = some true) = fun x y => x.bytes < y.bytes := by
    funext x y
    simp [lessthan_eq]
  rw [bytes]
  exact
    { irrefl := fun x => List.lt_irrefl x.bytes
      trans := fun _ _ _ less less' => List.lt_trans less less'
      trichotomous := fun x y above above' => by
        have equal : x.bytes = y.bytes := List.le_antisymm (List.not_lt.mp above') (List.not_lt.mp above)
        cases x
        cases y
        simpa using equal }

/-- Comparison of strings is the lexicographic order on their bytes, and no byte behind a terminator is
read. -/
theorem strings_ordered_by_bytes :
    (∀ x y : LuaString, Strcoll.lessthan x y = some (decide (x.bytes < y.bytes)) ∧
      Strcoll.lessequal x y = some (decide (x.bytes ≤ y.bytes))) ∧
    (∀ i (x y : LuaString) s,
      luaVLessthan i (.string x.bytes) (.string y.bytes) s = .ok (Strcoll.lessthan x y) s ∧
      Lua.lessequal i (.string x.bytes) (.string y.bytes) s = .ok (Strcoll.lessequal x y) s) ∧
    IsStrictTotalOrder LuaString (fun x y => Strcoll.lessthan x y = some true) ∧
    ∀ x y : LuaString, Strcoll.lessequal x y = some true ↔
      Strcoll.lessthan x y = some true ∨ TValue.string x.bytes = .string y.bytes := by
  refine ⟨fun x y => ⟨lessthan_eq x y, lessequal_eq x y⟩,
    fun i x y s => ⟨luaVLessthan_strings i x y s, lessequal_strings i x y s⟩, lessthan_strictTotalOrder,
    fun x y => ?_⟩
  simp only [lessthan_eq, lessequal_eq, Option.some.injEq, decide_eq_true_eq, TValue.string.injEq]
  exact List.le_iff_lt_or_eq

end Lunatik.Verified
