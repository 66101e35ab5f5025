import Mathlib.Tactic.Common

/-! # Reachability

What can be got to from some roots along a relation. -/

namespace Lunatik.Library

variable {α : Type*} {roots roots' : α → Prop} {refs refs' : α → α → Prop}

/-- There is a path from a root. -/
inductive Reachable (roots : α → Prop) (refs : α → α → Prop) : α → Prop
  | root {a : α} : roots a → Reachable roots refs a
  | child {a b : α} : Reachable roots refs a → refs a b → Reachable roots refs b

/-- What has the roots and is closed under the relation has all that can be got to. -/
theorem Reachable.of_closed {p : α → Prop} (atRoots : ∀ a, roots a → p a)
    (closed : ∀ a b, p a → refs a b → p b) {a : α} (reached : Reachable roots refs a) : p a := by
  induction reached with
  | root isRoot => exact atRoots _ isRoot
  | child _ edge ih => exact closed _ _ ih edge

/-- Nothing new can be got to where each root and each edge could be got to before. -/
theorem Reachable.mono (atRoots : ∀ a, roots' a → Reachable roots refs a)
    (edges : ∀ a b, Reachable roots refs a → refs' a b → Reachable roots refs b) {a : α}
    (reached : Reachable roots' refs' a) : Reachable roots refs a :=
  reached.of_closed atRoots edges

end Lunatik.Library
