import Mathlib.Data.List.Nodup
import Mathlib.Logic.Function.Basic
import Mathlib.Tactic.Common

/-! # Doubly linked rings

The nodes of a ring point to the next one and to the one before, and the last one of them to the head.
`Around r head l` says that `l` are the nodes behind `head`, in order, until it comes again.  A node is put
in behind the head or taken out with two assignments on either side.
-/

namespace Lunatik.Library

structure LinkedRing (α : Type) where
  prev : α → α
  next : α → α

namespace LinkedRing

variable {α : Type}

/-- The nodes `l` are between `a` and `b`. -/
def Path (r : LinkedRing α) (a : α) : List α → α → Prop
  | [], b => r.next a = b ∧ r.prev b = a
  | x :: l, b => (r.next a = x ∧ r.prev x = a) ∧ Path r x l b

def Around (r : LinkedRing α) (head : α) (l : List α) : Prop := Path r head l head

theorem path_append {r : LinkedRing α} {a b x : α} {l l' : List α} :
    Path r a (l ++ x :: l') b ↔ Path r a l x ∧ Path r x l' b := by
  induction l generalizing a with
  | nil => rfl
  | cons y l ih => simp only [List.cons_append, Path, ih, and_assoc]

-- what is before the end is one of the nodes, or the start
theorem Path.prev_mem {r : LinkedRing α} {a b : α} {l : List α} (path : Path r a l b) : r.prev b ∈ a :: l := by
  induction l generalizing a with
  | nil =>
    rw [path.2]
    exact List.mem_cons_self
  | cons y l ih => exact List.mem_cons_of_mem _ (ih path.2)

/-- A path depends on the pointers of its nodes only. -/
theorem Path.congr {r r' : LinkedRing α} {a b : α} {l : List α} (path : Path r a l b)
    (next : ∀ x ∈ a :: l, r'.next x = r.next x) (prev : ∀ x ∈ b :: l, r'.prev x = r.prev x) :
    Path r' a l b := by
  induction l generalizing a with
  | nil =>
    rw [Path, next a List.mem_cons_self, prev b List.mem_cons_self]
    exact path
  | cons y l ih =>
    obtain ⟨first, rest⟩ := path
    constructor
    · rw [next a List.mem_cons_self, prev y (by simp)]
      exact first
    · apply ih rest
      · exact fun x member => next x (List.mem_cons_of_mem _ member)
      · intro x member
        apply prev x
        simp only [List.mem_cons] at member ⊢
        tauto

section Changes

variable [DecidableEq α]

/-- `x` comes directly behind `head`. -/
def insertAfter (r : LinkedRing α) (head x : α) : LinkedRing α where
  prev := Function.update (Function.update r.prev x head) (r.next head) x
  next := Function.update (Function.update r.next x (r.next head)) head x

/-- The nodes beside `x` point to each other. -/
def remove (r : LinkedRing α) (x : α) : LinkedRing α where
  prev := Function.update r.prev (r.next x) (r.prev x)
  next := Function.update r.next (r.prev x) (r.next x)

variable {r : LinkedRing α} {head x : α} {l : List α}

theorem Around.insertAfter (around : Around r head l) (unique : (head :: l).Nodup)
    (new : x ∉ head :: l) : Around (r.insertAfter head x) head (x :: l) := by
  obtain ⟨notHead, absent⟩ := not_or.mp (List.mem_cons.not.mp new)
  have first : (r.insertAfter head x).next head = x := Function.update_self ..
  have second : (r.insertAfter head x).next x = r.next head := by
    simp only [LinkedRing.insertAfter]
    rw [Function.update_of_ne notHead, Function.update_self]
  have back : (r.insertAfter head x).prev (r.next head) = x := Function.update_self ..
  have before (ne : x ≠ r.next head) : (r.insertAfter head x).prev x = head := by
    simp only [LinkedRing.insertAfter]
    rw [Function.update_of_ne ne, Function.update_self]
  cases l with
  | nil =>
    obtain ⟨alone, _⟩ := around
    rw [alone] at second back before
    exact ⟨⟨first, before notHead⟩, second, back⟩
  | cons y l =>
    obtain ⟨⟨ahead, _⟩, rest⟩ := around
    rw [ahead] at second back before
    obtain ⟨apart, unique⟩ := List.nodup_cons.mp unique
    have later := (List.nodup_cons.mp unique).1
    refine ⟨⟨first, before fun same => absent (by simp [same])⟩, ⟨second, back⟩, rest.congr ?_ ?_⟩
    · intro z member
      have ne : z ≠ head := fun same => apart (same ▸ member)
      have ne' : z ≠ x := fun same => absent (same ▸ member)
      simp only [LinkedRing.insertAfter]
      rw [Function.update_of_ne ne, Function.update_of_ne ne']
    · intro z member
      have ne : z ≠ y := by
        rintro rfl
        cases List.mem_cons.mp member with
        | inl same => exact apart (by simp [same])
        | inr member => exact later member
      have ne' : z ≠ x := by
        rintro rfl
        cases List.mem_cons.mp member with
        | inl same => exact notHead same
        | inr member => exact absent (List.mem_cons_of_mem _ member)
      simp only [LinkedRing.insertAfter]
      rw [ahead, Function.update_of_ne ne, Function.update_of_ne ne']

-- the two parts of the path around `x` are joined
theorem Path.remove {a b : α} {before after : List α} (left : Path r a before x)
    (right : Path r x after b) (unique : (before ++ x :: after).Nodup) (start : a ∉ before ++ x :: after)
    (ends : b ∉ before ++ x :: after) : Path (r.remove x) a (before ++ after) b := by
  induction before generalizing a with
  | nil =>
    have prev : r.prev x = a := left.2
    have absent := (List.nodup_cons.mp unique).1
    cases after with
    | nil =>
      have next : r.next x = b := right.1
      constructor
      · simp only [LinkedRing.remove]
        rw [prev, next, Function.update_self]
      · simp only [LinkedRing.remove]
        rw [prev, next, Function.update_self]
    | cons y after =>
      obtain ⟨⟨next, _⟩, rest⟩ := right
      have unique := (List.nodup_cons.mp unique).2
      refine ⟨⟨?_, ?_⟩, rest.congr ?_ ?_⟩
      · simp only [LinkedRing.remove]
        rw [prev, next, Function.update_self]
      · simp only [LinkedRing.remove]
        rw [prev, next, Function.update_self]
      · intro z member
        have ne : z ≠ a := by
          rintro rfl
          exact start (List.mem_cons_of_mem _ member)
        simp only [LinkedRing.remove]
        rw [prev, Function.update_of_ne ne]
      · intro z member
        have ne : z ≠ y := by
          rintro rfl
          cases List.mem_cons.mp member with
          | inl same => exact ends (by simp [same])
          | inr member => exact (List.nodup_cons.mp unique).1 member
        simp only [LinkedRing.remove]
        rw [next, Function.update_of_ne ne]
  | cons y before ih =>
    obtain ⟨⟨ahead, back⟩, rest⟩ := left
    obtain ⟨absent, unique'⟩ := List.nodup_cons.mp unique
    have start' : y ∉ before ++ x :: after := absent
    have path := ih rest unique' start' fun member => ends (List.mem_cons_of_mem _ member)
    refine ⟨⟨?_, ?_⟩, path⟩
    · have ne : a ≠ r.prev x := by
        intro same
        have member := rest.prev_mem
        rw [← same] at member
        apply start
        cases List.mem_cons.mp member with
        | inl same => simp [same]
        | inr member => simp [member]
      simp only [LinkedRing.remove]
      rw [Function.update_of_ne ne, ahead]
    · have ne : y ≠ r.next x := by
        intro same
        cases after with
        | nil =>
          rw [right.1] at same
          exact ends (by simp [same])
        | cons z after =>
          rw [right.1.1] at same
          exact absent (by simp [same])
      simp only [LinkedRing.remove]
      rw [Function.update_of_ne ne, back]

theorem Around.remove {before after : List α} (around : Around r head (before ++ x :: after))
    (unique : (head :: (before ++ x :: after)).Nodup) : Around (r.remove x) head (before ++ after) := by
  obtain ⟨apart, unique⟩ := List.nodup_cons.mp unique
  obtain ⟨left, right⟩ := path_append.mp around
  exact left.remove right unique apart apart

end Changes

end LinkedRing

end Lunatik.Library
