import Mathlib.Order.WellFounded

/-! # Loops

`while (going) step`, bounded by a number of rounds, and the rule for total correctness: a loop whose rounds
keep an invariant and make a variant smaller comes to its end.
-/

namespace Lunatik.Library

variable {σ β : Type*} {going : σ → Bool} {step : σ → σ}

/-- Nothing where the rounds do not suffice. -/
def whileLoop (going : σ → Bool) (step : σ → σ) : Nat → σ → Option σ
  | 0, _ => none
  | rounds + 1, s => if going s then whileLoop going step rounds (step s) else some s

/-- More rounds than suffice change nothing. -/
theorem whileLoop_more {rounds more : Nat} {s t : σ} (ended : whileLoop going step rounds s = some t)
    (le : rounds ≤ more) : whileLoop going step more s = some t := by
  induction rounds generalizing s more with
  | zero => cases ended
  | succ rounds ih =>
    obtain ⟨more, rfl⟩ : ∃ m, more = m + 1 := ⟨more - 1, by omega⟩
    unfold whileLoop at ended ⊢
    split at ended
    next goes =>
      rw [if_pos goes]
      exact ih ended (by omega)
    next stops =>
      rw [if_neg stops]
      exact ended

theorem whileLoop_total (going : σ → Bool) (inv : σ → Prop) {less : β → β → Prop} (wf : WellFounded less)
    (variant : σ → β) (round : ∀ s, inv s → going s = true → inv (step s) ∧ less (variant (step s)) (variant s)) {s : σ}
    (start : inv s) :
    ∃ rounds t, whileLoop going step rounds s = some t ∧ inv t ∧ going t = false := by
  induction h : variant s using wf.induction generalizing s with
  | _ v ih =>
    subst h
    cases goes : going s with
    | false => exact ⟨1, s, by simp [whileLoop, goes], start, goes⟩
    | true =>
      obtain ⟨kept, smaller⟩ := round s start goes
      obtain ⟨rounds, t, ended, rest⟩ := ih _ smaller kept rfl
      exact ⟨rounds + 1, t, by simp [whileLoop, goes, ended], rest⟩

end Lunatik.Library
