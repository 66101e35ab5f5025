import Mathlib.Data.List.Count

/-! # Ledgers of acquired and released resources

A ledger is the list of what a run acquired and released, oldest entry first.  It is
balanced when every resource was released as often as it was acquired; for a resource
that is acquired once this says that it was released exactly once.
-/

namespace Lunatik.Library

inductive Entry (ρ : Type*) where
  | acquire (r : ρ)
  | release (r : ρ)
  deriving DecidableEq, Repr

namespace Ledger

variable {ρ : Type*} [DecidableEq ρ]

def acquired (log : List (Entry ρ)) (r : ρ) : Nat := log.count (.acquire r)

def released (log : List (Entry ρ)) (r : ρ) : Nat := log.count (.release r)

def Balanced (log : List (Entry ρ)) : Prop := ∀ r, released log r = acquired log r

@[simp] theorem acquired_nil (r : ρ) : acquired ([] : List (Entry ρ)) r = 0 := rfl

@[simp] theorem released_nil (r : ρ) : released ([] : List (Entry ρ)) r = 0 := rfl

@[simp] theorem acquired_append (first second : List (Entry ρ)) (r : ρ) :
    acquired (first ++ second) r = acquired first r + acquired second r := List.count_append

@[simp] theorem released_append (first second : List (Entry ρ)) (r : ρ) :
    released (first ++ second) r = released first r + released second r := List.count_append

@[simp] theorem acquired_cons_acquire (r' : ρ) (log : List (Entry ρ)) (r : ρ) :
    acquired (.acquire r' :: log) r = acquired log r + if r' = r then 1 else 0 := by
  simp [acquired, List.count_cons]

@[simp] theorem acquired_cons_release (r' : ρ) (log : List (Entry ρ)) (r : ρ) :
    acquired (.release r' :: log) r = acquired log r := by
  simp [acquired]

@[simp] theorem released_cons_release (r' : ρ) (log : List (Entry ρ)) (r : ρ) :
    released (.release r' :: log) r = released log r + if r' = r then 1 else 0 := by
  simp [released, List.count_cons]

@[simp] theorem released_cons_acquire (r' : ρ) (log : List (Entry ρ)) (r : ρ) :
    released (.acquire r' :: log) r = released log r := by
  simp [released]

/-! ## Runs of entries of one kind -/

variable {α : Type*}

@[simp] theorem released_map_acquire (f : α → ρ) (l : List α) (r : ρ) :
    released (l.map fun a => .acquire (f a)) r = 0 := by
  induction l with
  | nil => rfl
  | cons a l ih => simp [ih]

@[simp] theorem acquired_map_release (f : α → ρ) (l : List α) (r : ρ) :
    acquired (l.map fun a => .release (f a)) r = 0 := by
  induction l with
  | nil => rfl
  | cons a l ih => simp [ih]

theorem acquired_map_other (f : α → ρ) (l : List α) {r : ρ} (other : ∀ a, f a ≠ r) :
    acquired (l.map fun a => .acquire (f a)) r = 0 := by
  induction l with
  | nil => rfl
  | cons a l ih => simp [ih, other a]

theorem released_map_other (f : α → ρ) (l : List α) {r : ρ} (other : ∀ a, f a ≠ r) :
    released (l.map fun a => .release (f a)) r = 0 := by
  induction l with
  | nil => rfl
  | cons a l ih => simp [ih, other a]

end Ledger

end Lunatik.Library
