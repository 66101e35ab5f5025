import Mathlib.Tactic.Common

/-! # Decoders that read a list

A decoder is a program in `EStateM` over the input that is left.  `Decodes m bytes x` says
that `m` takes exactly `bytes` off any input that starts with them and returns `x`; decoders
in sequence take their pieces one after the other.
-/

namespace Lunatik.Library

variable {ε α β γ : Type}

def Decodes (m : EStateM ε (List γ) α) (bytes : List γ) (x : α) : Prop :=
  ∀ rest, m (bytes ++ rest) = .ok x rest

namespace Decodes

theorem ret (x : α) : Decodes (pure x : EStateM ε (List γ) α) [] x := fun _ => rfl

theorem bind {m : EStateM ε (List γ) α} {f : α → EStateM ε (List γ) β} {bytes more : List γ}
    {x : α} {y : β} (first : Decodes m bytes x) (then_ : Decodes (f x) more y) :
    Decodes (m >>= f) (bytes ++ more) y := by
  intro rest
  simp only [Bind.bind, EStateM.bind, List.append_assoc, first (more ++ rest)]
  exact then_ rest

-- the last step of a decoder: nothing more is read
theorem map {m : EStateM ε (List γ) α} {f : α → EStateM ε (List γ) β} {bytes : List γ}
    {x : α} {y : β} (first : Decodes m bytes x) (then_ : f x = pure y) :
    Decodes (m >>= f) bytes y := by
  have rest : Decodes (f x) [] y := by
    rw [then_]
    exact ret y
  have whole := first.bind rest
  rw [List.append_nil] at whole
  exact whole

end Decodes

end Lunatik.Library
