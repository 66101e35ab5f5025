import Mathlib.Tactic.Common

/-! # Running programs with state and errors

What a program in `EStateM ε σ` comes to when it is started in a given state.  With these rules a
straight-line program is run by rewriting, one action at a time.
-/

namespace Lunatik.Library

variable {ε σ α β : Type} {s t : σ} {a : α} {e : ε}

theorem bind_run (m : EStateM ε σ α) (f : α → EStateM ε σ β) (s : σ) :
    (m >>= f) s = match m s with
      | .ok a t => f a t
      | .error e t => .error e t := rfl

theorem bind_ok {m : EStateM ε σ α} {f : α → EStateM ε σ β} (ran : m s = .ok a t) :
    (m >>= f) s = f a t := by
  rw [bind_run, ran]

theorem bind_error {m : EStateM ε σ α} {f : α → EStateM ε σ β} (raised : m s = .error e t) :
    (m >>= f) s = .error e t := by
  rw [bind_run, raised]

theorem pure_run (a : α) (s : σ) : (pure a : EStateM ε σ α) s = .ok a s := rfl

theorem get_run (s : σ) : (get : EStateM ε σ σ) s = .ok s s := rfl

theorem set_run (s t : σ) : (set t : EStateM ε σ PUnit) s = .ok ⟨⟩ t := rfl

theorem modify_run (f : σ → σ) (s : σ) : (modify f : EStateM ε σ PUnit) s = .ok ⟨⟩ (f s) := rfl

/-- The state that a program leaves, whether it ends or raises an error. -/
def stateAfter (m : EStateM ε σ α) (s : σ) : σ :=
  match m s with
  | .ok _ t => t
  | .error _ t => t

theorem stateAfter_bind {m : EStateM ε σ α} {f : α → EStateM ε σ β} (ran : m s = .ok a t) :
    stateAfter (m >>= f) s = stateAfter (f a) t := by
  rw [stateAfter, bind_ok ran, stateAfter]

theorem stateAfter_bind_pure (m : EStateM ε σ α) (b : β) (s : σ) :
    stateAfter (m >>= fun _ => pure b) s = stateAfter m s := by
  rw [stateAfter, stateAfter, bind_run]
  cases m s <;> rfl

theorem throw_run (e : ε) (s : σ) : (throw e : EStateM ε σ α) s = .error e s := rfl

end Lunatik.Library
