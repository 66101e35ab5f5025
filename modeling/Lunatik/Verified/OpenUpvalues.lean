import Lunatik.Lua.State

/-! # The list of open upvalues

It is sorted by level, highest first, so `luaF_close` can stop at the first one below its level.  Both
`luaF_findupval` and `luaF_close` keep it so, and leave the levels of those that stay.
-/

namespace Lunatik.Verified

open Lunatik.Lua

abbrev levelOf (s : Shared) (id : Nat) : Nat := (s.heap.upvals id).level

/-- The list is sorted by level, highest first, and new upvalues are not on it. -/
structure OpenChain (s : Shared) : Prop where
  sorted : s.openupval.Pairwise fun a b => levelOf s b ≤ levelOf s a
  nodup : s.openupval.Nodup
  fresh : ∀ id ∈ s.openupval, id < s.heap.nextUpval

/-- The upvalue was open before, at the same level. -/
def OldUpval (s t : Shared) (id : Nat) : Prop := id ∈ s.openupval ∧ levelOf t id = levelOf s id

theorem OldUpval.trans {s t r : Shared} {id : Nat} (first : OldUpval s t id) (second : OldUpval t r id) :
    OldUpval s r id := ⟨first.1, second.2.trans first.2⟩

theorem closeOpen_spec (stack : Nat → TValue) (level : Nat) {ids : List Nat} {heap : Heap}
    (sorted : ids.Pairwise fun a b => (heap.upvals b).level ≤ (heap.upvals a).level) (nodup : ids.Nodup) :
    (closeOpen stack level ids heap).1 <:+ ids ∧
      (closeOpen stack level ids heap).2.nextUpval = heap.nextUpval ∧
      ∀ id ∈ (closeOpen stack level ids heap).1,
        (closeOpen stack level ids heap).2.upvals id = heap.upvals id ∧ (heap.upvals id).level < level := by
  induction ids generalizing heap with
  | nil => exact ⟨List.suffix_refl _, rfl, by simp [closeOpen]⟩
  | cons id rest ih =>
    obtain ⟨first, sortedRest⟩ := List.pairwise_cons.mp sorted
    obtain ⟨absent, nodupRest⟩ := List.nodup_cons.mp nodup
    rw [closeOpen]
    split
    next high =>
      let closed : Heap := { heap with upvals := setAt heap.upvals id (.closed (stack (heap.upvals id).level)) }
      have kept {other : Nat} (member : other ∈ rest) : closed.upvals other = heap.upvals other :=
        setAt_other _ _ fun same => absent (same ▸ member)
      have sorted' : rest.Pairwise fun a b => (closed.upvals b).level ≤ (closed.upvals a).level := by
        refine sortedRest.imp_of_mem fun member member' le => ?_
        rwa [kept member, kept member']
      obtain ⟨suffix, next, below⟩ := ih sorted' nodupRest
      refine ⟨suffix.trans (List.suffix_cons id rest), next, fun other member => ?_⟩
      obtain ⟨same, lower⟩ := below other member
      have there := kept (suffix.subset member)
      rw [there] at same lower
      exact ⟨same, lower⟩
    next low =>
      refine ⟨List.suffix_refl _, rfl, fun other member => ⟨rfl, ?_⟩⟩
      rcases List.mem_cons.mp member with rfl | later
      · exact Nat.lt_of_not_le low
      · exact Nat.lt_of_le_of_lt (first other later) (Nat.lt_of_not_le low)

theorem linkOpen_mem {heap : Heap} {level new other : Nat} {ids : List Nat} :
    other ∈ linkOpen heap level new ids ↔ other = new ∨ other ∈ ids := by
  induction ids with
  | nil => simp [linkOpen]
  | cons id rest ih =>
    rw [linkOpen]
    split
    next => rw [List.mem_cons, ih, List.mem_cons, or_left_comm]
    next => rw [List.mem_cons]

theorem linkOpen_nodup {heap : Heap} {level new : Nat} {ids : List Nat} (nodup : ids.Nodup)
    (absent : new ∉ ids) : (linkOpen heap level new ids).Nodup := by
  induction ids with
  | nil => simp [linkOpen]
  | cons id rest ih =>
    obtain ⟨unique, nodupRest⟩ := List.nodup_cons.mp nodup
    obtain ⟨ne, absentRest⟩ := not_or.mp (List.mem_cons.not.mp absent)
    rw [linkOpen]
    split
    next =>
      refine List.nodup_cons.mpr ⟨fun member => ?_, ih nodupRest absentRest⟩
      rcases linkOpen_mem.mp member with same | before
      · exact ne same.symm
      · exact unique before
    next => exact List.nodup_cons.mpr ⟨absent, nodup⟩

-- in the heap where the new upvalue has its level
theorem linkOpen_sorted {heap heap' : Heap} {level new : Nat} {ids : List Nat}
    (sorted : ids.Pairwise fun a b => (heap.upvals b).level ≤ (heap.upvals a).level)
    (same : ∀ id ∈ ids, heap'.upvals id = heap.upvals id) (at' : (heap'.upvals new).level = level) :
    (linkOpen heap level new ids).Pairwise fun a b => (heap'.upvals b).level ≤ (heap'.upvals a).level := by
  induction ids with
  | nil => exact List.pairwise_singleton _ _
  | cons id rest ih =>
    obtain ⟨first, sortedRest⟩ := List.pairwise_cons.mp sorted
    have here := same id List.mem_cons_self
    have there : ∀ other ∈ rest, heap'.upvals other = heap.upvals other :=
      fun other member => same other (List.mem_cons_of_mem _ member)
    rw [linkOpen]
    split
    next high =>
      refine List.pairwise_cons.mpr ⟨fun other member => ?_, ih sortedRest there⟩
      rcases linkOpen_mem.mp member with rfl | before
      · rwa [at', here]
      · rw [there other before, here]
        exact first other before
    next low =>
      have sorted' : (id :: rest).Pairwise fun a b => (heap'.upvals b).level ≤ (heap'.upvals a).level := by
        refine sorted.imp_of_mem fun member member' le => ?_
        rwa [same _ member, same _ member']
      refine List.pairwise_cons.mpr ⟨fun other member => ?_, sorted'⟩
      rw [at', same other member]
      rcases List.mem_cons.mp member with rfl | later
      · exact Nat.le_of_lt (Nat.lt_of_not_le low)
      · exact (first other later).trans (Nat.le_of_lt (Nat.lt_of_not_le low))

namespace OpenChain

variable {s : Shared}

theorem close (chain : OpenChain s) (stack : Nat → TValue) (level : Nat) :
    OpenChain { s with
      openupval := (closeOpen stack level s.openupval s.heap).1
      heap := (closeOpen stack level s.openupval s.heap).2 } := by
  obtain ⟨suffix, next, below⟩ := closeOpen_spec stack level chain.sorted chain.nodup
  refine ⟨?_, chain.nodup.sublist suffix.sublist, fun id member => ?_⟩
  · refine (chain.sorted.sublist suffix.sublist).imp_of_mem fun member member' le => ?_
    dsimp only [levelOf]
    rwa [(below _ member).1, (below _ member').1]
  · dsimp only
    rw [next]
    exact chain.fresh id (suffix.subset member)

theorem link (chain : OpenChain s) (level : Nat) :
    OpenChain { s with
      heap := { s.heap with
        upvals := setAt s.heap.upvals s.heap.nextUpval (.openAt level)
        nextUpval := s.heap.nextUpval + 1 }
      openupval := linkOpen s.heap level s.heap.nextUpval s.openupval } := by
  have absent : s.heap.nextUpval ∉ s.openupval := fun member => Nat.lt_irrefl _ (chain.fresh _ member)
  have kept : ∀ id ∈ s.openupval,
      setAt s.heap.upvals s.heap.nextUpval (.openAt level) id = s.heap.upvals id :=
    fun id member => setAt_other _ _ fun same => absent (same ▸ member)
  refine ⟨linkOpen_sorted chain.sorted kept ?_, linkOpen_nodup chain.nodup absent, fun id member => ?_⟩
  · exact congrArg UpVal.level (setAt_same _ _ _)
  · rcases linkOpen_mem.mp member with rfl | before
    · exact Nat.lt_succ_self _
    · exact Nat.lt_succ_of_lt (chain.fresh id before)

end OpenChain

end Lunatik.Verified
