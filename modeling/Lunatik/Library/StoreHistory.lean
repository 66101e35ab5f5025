import Mathlib.Tactic.Common

/-! # Stores in a row of cells

What a row holds after a history of stores: the last value stored in a cell, or what it held at the
start.
-/

namespace Lunatik.Library

variable {α : Type} {xs : List α}

/-- The last value that a history, oldest store first, has for the cell `i`. -/
def lastWritten (log : List (Nat × α)) (i : Nat) : Option α :=
  (log.reverse.find? fun e => e.1 == i).map (·.2)

theorem lastWritten_nil (i : Nat) : lastWritten ([] : List (Nat × α)) i = none := rfl

theorem lastWritten_same (log : List (Nat × α)) (i : Nat) (v : α) :
    lastWritten (log ++ [(i, v)]) i = some v := by
  rw [lastWritten, List.reverse_concat, List.find?_cons_of_pos (by simp)]
  rfl

theorem lastWritten_other (log : List (Nat × α)) {i j : Nat} (other : j ≠ i) (v : α) :
    lastWritten (log ++ [(i, v)]) j = lastWritten log j := by
  rw [lastWritten, List.reverse_concat, List.find?_cons_of_neg (by simpa using other.symm),
    lastWritten]

/-- `ys` is `xs` after the stores of `log`. -/
structure AfterStores (xs : List α) (log : List (Nat × α)) (ys : List α) : Prop where
  length : ys.length = xs.length
  content : ∀ i d, i < xs.length → ys.getD i d = (lastWritten log i).getD (xs.getD i d)

namespace AfterStores

theorem start (xs : List α) : AfterStores xs [] xs :=
  ⟨rfl, fun i d _ => by rw [lastWritten_nil, Option.getD_none]⟩

theorem store {ys : List α} {log : List (Nat × α)} (after : AfterStores xs log ys) {i : Nat}
    (inside : i < xs.length) (v : α) : AfterStores xs (log ++ [(i, v)]) (ys.set i v) where
  length := by rw [List.length_set, after.length]
  content := by
    intro j d bound
    have inside' : i < ys.length := by rw [after.length]; exact inside
    by_cases same : j = i
    · rw [same, lastWritten_same, List.getD_eq_getElem?_getD, List.getElem?_set_self inside',
        Option.getD_some, Option.getD_some]
    · have kept : (ys.set i v).getD j d = ys.getD j d := by
        rw [List.getD_eq_getElem?_getD, List.getElem?_set_ne (Ne.symm same),
          ← List.getD_eq_getElem?_getD]
      rw [kept, after.content j d bound, lastWritten_other log same]

end AfterStores

end Lunatik.Library
