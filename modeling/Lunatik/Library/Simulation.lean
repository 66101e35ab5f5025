import Mathlib.Tactic.Common

/-! # Two programs in step

`Sim R m m'` says that two programs over different states, started in related states,
return the same result or raise the same error, again in related states.
-/

namespace Lunatik.Library

variable {ε σ τ α β : Type}

def Sim (R : σ → τ → Prop) (m : EStateM ε σ α) (m' : EStateM ε τ α) : Prop :=
  ∀ s t, R s t →
    match m s, m' t with
    | .ok a s', .ok b t' => a = b ∧ R s' t'
    | .error e s', .error f t' => e = f ∧ R s' t'
    | _, _ => False

namespace Sim

variable {R : σ → τ → Prop}

theorem ret (a : α) : Sim R (pure a : EStateM ε σ α) (pure a) := fun _ _ related => ⟨rfl, related⟩

theorem raise (e : ε) : Sim R (throw e : EStateM ε σ α) (throw e) :=
  fun _ _ related => ⟨rfl, related⟩

theorem bind {m : EStateM ε σ α} {m' : EStateM ε τ α} {f : α → EStateM ε σ β}
    {f' : α → EStateM ε τ β} (first : Sim R m m') (rest : ∀ a, Sim R (f a) (f' a)) :
    Sim R (m >>= f) (m' >>= f') := by
  intro s t related
  have result := first s t related
  simp only [Bind.bind, EStateM.bind]
  cases left : m s with
  | ok a s' =>
    cases right : m' t with
    | ok b t' =>
      rw [left, right] at result
      obtain ⟨rfl, related'⟩ := result
      exact rest a s' t' related'
    | error f t' => simp only [left, right] at result
  | error e s' =>
    cases right : m' t with
    | ok b t' => simp only [left, right] at result
    | error f t' =>
      rw [left, right] at result
      exact result

theorem cond {c : Prop} [Decidable c] {m₁ m₂ : EStateM ε σ α} {m₁' m₂' : EStateM ε τ α}
    (pos : Sim R m₁ m₁') (neg : Sim R m₂ m₂') :
    Sim R (if c then m₁ else m₂) (if c then m₁' else m₂') := by
  split
  · exact pos
  · exact neg

-- what a run on one side says about the other
theorem ok_iff {m : EStateM ε σ α} {m' : EStateM ε τ α} (h : Sim R m m') {s : σ} {t : τ}
    (related : R s t) (a : α) : (∃ s', m s = .ok a s') ↔ ∃ t', m' t = .ok a t' := by
  have result := h s t related
  cases left : m s with
  | ok b s' =>
    cases right : m' t with
    | ok c t' =>
      rw [left, right] at result
      obtain ⟨rfl, -⟩ := result
      simp
    | error f t' => simp only [left, right] at result
  | error e s' =>
    cases right : m' t with
    | ok c t' => simp only [left, right] at result
    | error f t' => simp

theorem related_after {m : EStateM ε σ α} {m' : EStateM ε τ α} (h : Sim R m m') {s : σ} {t : τ}
    (related : R s t) :
    match m s with
    | .ok _ s' => ∃ t', R s' t'
    | .error _ s' => ∃ t', R s' t' := by
  have result := h s t related
  cases left : m s with
  | ok b s' =>
    cases right : m' t with
    | ok c t' =>
      rw [left, right] at result
      exact ⟨t', result.2⟩
    | error f t' => simp only [left, right] at result
  | error e s' =>
    cases right : m' t with
    | ok c t' => simp only [left, right] at result
    | error f t' =>
      rw [left, right] at result
      exact ⟨t', result.2⟩

end Sim

end Lunatik.Library
