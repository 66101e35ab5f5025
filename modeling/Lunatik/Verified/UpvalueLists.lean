import Mathlib.Data.List.Pairwise
import Lunatik.Lua.OpenUpval

/-! # The lists of upvalues

The list of open upvalues is strictly decreasing in the slots, the ring at `uvhead` has the same upvalues,
and `rootgc` has those that are closed.  What `luaF_findupval`, `luaF_close`, `luaD_reallocstack` and the
sweep of a list do is said for any thread whose lists are so, and they are so afterwards.
-/

namespace Lunatik.Verified.UpvalueLists

open Lunatik.Library
open Lunatik.Lua (TValue setAt setAt_same setAt_other)
open Lunatik.Lua.OpenUpval
open Lunatik.Lua.StringTable (whitebits blackbit)

/-! ## Addresses -/

section Addresses

variable (g : Thread)

@[simp] theorem slotAt_slotAddr (k : Nat) : g.slotAt (g.slotAddr k) = k := by
  simp only [Thread.slotAt, Thread.slotAddr, sizeofTValue]
  omega

@[simp] theorem slotAddr_inj {k k' : Nat} : g.slotAddr k = g.slotAddr k' ↔ k = k' := by
  simp only [Thread.slotAddr, sizeofTValue]
  omega

@[simp] theorem slotAddr_le {k k' : Nat} : g.slotAddr k ≤ g.slotAddr k' ↔ k ≤ k' := by
  simp only [Thread.slotAddr, sizeofTValue]
  omega

/-- The upvalue is open at the slot `k`. -/
def OpenAt (uv k : Nat) : Prop := (g.upvals uv).v = .stack (g.slotAddr k)

variable {g} {uv k k' : Nat}

theorem OpenAt.unique (here : OpenAt g uv k) (there : OpenAt g uv k') : k = k' := by
  have same := here.symm.trans there
  simpa using same

theorem OpenAt.atOrAbove (here : OpenAt g uv k) : g.atOrAbove (g.slotAddr k') uv = decide (k' ≤ k) := by
  simp only [Thread.atOrAbove]
  rw [here]
  simp

theorem OpenAt.deref (here : OpenAt g uv k) : g.deref uv = g.slots k := by
  simp only [Thread.deref]
  rw [here]
  simp

end Addresses

/-! ## The list of open upvalues -/

def Higher (g : Thread) (uv uv' : Nat) : Prop := ∀ k k', OpenAt g uv k → OpenAt g uv' k' → k' < k

/-- The white of the state is one of two. -/
def White (g : Thread) : Prop := g.currentwhite = 0b100001 ∨ g.currentwhite = 0b100010

/-- The list is strictly decreasing in the slots, the ring has the same upvalues, and no upvalue is in two
places. -/
structure OpenList (g : Thread) : Prop where
  inside : ∀ uv ∈ g.openupval, ∃ k < g.stacksize, OpenAt g uv k
  sorted : g.openupval.Pairwise (Higher g)
  closed : ∀ uv ∈ g.rootgc, (g.upvals uv).v = .own
  nodup : g.allocated.Nodup
  ring : ∃ l : List Nat, l.Perm g.openupval ∧ g.ring.Around none (l.map some)
  white : White g

section Lists

variable {g : Thread} {uv uv' k : Nat}

theorem OpenList.open_nodup (inv : OpenList g) : g.openupval.Nodup := inv.nodup.of_append_left

theorem OpenList.apart (inv : OpenList g) (member : uv ∈ g.openupval) : uv ∉ g.rootgc :=
  fun also => (List.nodup_append.mp inv.nodup).2.2 uv member uv also rfl

/-- At most one upvalue is open at a slot. -/
theorem OpenList.one (inv : OpenList g) (member : uv ∈ g.openupval) (member' : uv' ∈ g.openupval)
    (here : OpenAt g uv k) (here' : OpenAt g uv' k) : uv = uv' := by
  by_contra ne
  have apart : g.openupval.Pairwise fun a b => ∀ k k', OpenAt g a k → OpenAt g b k' → k ≠ k' := by
    apply inv.sorted.imp
    intro a b less k k' here there
    exact (less k k' here there).ne'
  have symmetric : Std.Symm fun a b => ∀ k k', OpenAt g a k → OpenAt g b k' → k ≠ k' :=
    ⟨fun a b differ k k' here there => (differ k' k there here).symm⟩
  exact apart.forall member member' ne k k here here' rfl

end Lists

/-! ## Marks -/

section Marks

variable {g : Thread} {uv uv' : Nat} {f : BitVec 8 → BitVec 8}

/-- The upvalues are in the same places, and point to them. -/
structure SameLists (g g' : Thread) : Prop where
  stack : g'.stack = g.stack
  stacksize : g'.stacksize = g.stacksize
  openupval : g'.openupval = g.openupval
  rootgc : g'.rootgc = g.rootgc
  ring : g'.ring = g.ring
  v : ∀ uv, (g'.upvals uv).v = (g.upvals uv).v

/-- The upvalues are those of before but for their marks. -/
structure Remarked (g g' : Thread) : Prop extends SameLists g g' where
  slots : g'.slots = g.slots
  value : ∀ uv, (g'.upvals uv).value = (g.upvals uv).value

theorem SameLists.openAt {g' : Thread} {k : Nat} (same : SameLists g g') :
    OpenAt g' uv k ↔ OpenAt g uv k := by
  rw [OpenAt, OpenAt, same.v, Thread.slotAddr, Thread.slotAddr, same.stack]

theorem SameLists.openList {g' : Thread} (same : SameLists g g') (inv : OpenList g)
    (white : White g') : OpenList g' where
  inside := by
    intro uv member
    rw [same.openupval] at member
    obtain ⟨k, below, here⟩ := inv.inside uv member
    exact ⟨k, same.stacksize ▸ below, same.openAt.mpr here⟩
  sorted := by
    rw [same.openupval]
    apply inv.sorted.imp
    intro uv uv' higher k k' here there
    exact higher k k' (same.openAt.mp here) (same.openAt.mp there)
  closed := by
    intro uv member
    rw [same.rootgc] at member
    rw [same.v]
    exact inv.closed uv member
  nodup := by
    rw [Thread.allocated, same.openupval, same.rootgc]
    exact inv.nodup
  ring := by
    rw [same.ring, same.openupval]
    exact inv.ring
  white := white

theorem Remarked.refl (g : Thread) : Remarked g g :=
  ⟨⟨rfl, rfl, rfl, rfl, rfl, fun _ => rfl⟩, rfl, fun _ => rfl⟩

theorem Remarked.trans {g₁ g' : Thread} (first : Remarked g g₁) (second : Remarked g₁ g') : Remarked g g' where
  stack := second.stack.trans first.stack
  stacksize := second.stacksize.trans first.stacksize
  openupval := second.openupval.trans first.openupval
  rootgc := second.rootgc.trans first.rootgc
  ring := second.ring.trans first.ring
  v := fun uv => (second.v uv).trans (first.v uv)
  slots := second.slots.trans first.slots
  value := fun uv => (second.value uv).trans (first.value uv)

theorem remark_remarked (g : Thread) (uv : Nat) (f : BitVec 8 → BitVec 8) : Remarked g (g.remark uv f) := by
  refine ⟨⟨rfl, rfl, rfl, rfl, rfl, ?_⟩, rfl, ?_⟩
  · intro uv'
    by_cases same : uv' = uv
    · simp only [Thread.remark, same, setAt_same]
    · simp only [Thread.remark, setAt_other _ _ same]
  · intro uv'
    by_cases same : uv' = uv
    · simp only [Thread.remark, same, setAt_same]
    · simp only [Thread.remark, setAt_other _ _ same]

theorem remark_marked : ((g.remark uv f).upvals uv').marked =
    if uv' = uv then f (g.upvals uv').marked else (g.upvals uv').marked := by
  by_cases same : uv' = uv
  · simp only [Thread.remark, same, setAt_same, if_pos]
  · simp only [Thread.remark, setAt_other _ _ same, if_neg same]

theorem isdead_congr {g' : Thread} (white : g'.currentwhite = g.currentwhite)
    (marked : (g'.upvals uv).marked = (g.upvals uv).marked) : g'.isdead uv = g.isdead uv := by
  simp only [Thread.isdead, Thread.otherwhite, white, marked]

theorem remark_isdead (g : Thread) (uv uv' : Nat) (f : BitVec 8 → BitVec 8) :
    (g.remark uv f).isdead uv' = if uv' = uv then f (g.upvals uv').marked &&& g.otherwhite &&& whitebits != 0
      else g.isdead uv' := by
  simp only [Thread.isdead, remark_marked]
  split <;> rfl

theorem created_alive (white : White g) : g.luaCWhite &&& g.otherwhite &&& whitebits = 0 := by
  unfold Thread.luaCWhite Thread.otherwhite
  cases white with
  | inl white => rw [white]; decide
  | inr white => rw [white]; decide

theorem makewhite_bits (white : White g) (marked : BitVec 8) :
    ((marked &&& ~~~(blackbit ||| whitebits)) ||| g.luaCWhite) &&& g.otherwhite &&& whitebits = 0 := by
  revert marked
  unfold Thread.luaCWhite Thread.otherwhite
  cases white with
  | inl white => rw [white]; decide
  | inr white => rw [white]; decide

theorem changewhite_bits (white : White g) (marked : BitVec 8) :
    marked &&& g.otherwhite &&& whitebits ≠ 0 → (marked ^^^ whitebits) &&& g.otherwhite &&& whitebits = 0 := by
  revert marked
  unfold Thread.otherwhite
  cases white with
  | inl white => rw [white]; decide
  | inr white => rw [white]; decide

theorem gray2black_bits (white : White g) (marked : BitVec 8) :
    (marked ||| blackbit) &&& g.otherwhite &&& whitebits = marked &&& g.otherwhite &&& whitebits := by
  revert marked
  unfold Thread.otherwhite
  cases white with
  | inl white => rw [white]; decide
  | inr white => rw [white]; decide

theorem white2gray_bits (white : White g) (marked : BitVec 8) :
    (marked &&& ~~~whitebits) &&& g.otherwhite &&& whitebits = 0 := by
  revert marked
  unfold Thread.otherwhite
  cases white with
  | inl white => rw [white]; decide
  | inr white => rw [white]; decide

-- what the sweep tests
theorem sweep_bits (white : White g) (marked : BitVec 8) :
    (marked ^^^ whitebits) &&& g.otherwhite = 0 → marked &&& g.otherwhite &&& whitebits ≠ 0 := by
  revert marked
  unfold Thread.otherwhite
  cases white with
  | inl white => rw [white]; decide
  | inr white => rw [white]; decide

theorem atomic_bits (white : White g) (marked : BitVec 8) :
    marked &&& whitebits = 0 → marked &&& (g.otherwhite ^^^ whitebits) &&& whitebits = 0 := by
  revert marked
  unfold Thread.otherwhite
  cases white with
  | inl white => rw [white]; decide
  | inr white => rw [white]; decide

/-- No upvalue dies from the change. -/
def KeepsAlive (g g' : Thread) : Prop := ∀ uv, g.isdead uv = false → g'.isdead uv = false

theorem remark_keepsAlive (kept : f (g.upvals uv).marked &&& g.otherwhite &&& whitebits = 0) :
    KeepsAlive g (g.remark uv f) := by
  intro uv' alive
  rw [remark_isdead]
  split
  next same => simp [same, kept]
  next => exact alive

theorem makewhite_keepsAlive (white : White g) (uv : Nat) : KeepsAlive g (g.makewhite uv) :=
  remark_keepsAlive (makewhite_bits white _)

theorem gray2black_keepsAlive (white : White g) (uv : Nat) : KeepsAlive g (g.gray2black uv) := by
  intro uv' alive
  rw [Thread.gray2black, remark_isdead]
  split
  next => rwa [gray2black_bits white]
  next => exact alive

theorem white2gray_keepsAlive (white : White g) (uv : Nat) : KeepsAlive g (g.white2gray uv) :=
  remark_keepsAlive (white2gray_bits white _)

theorem changewhite_keepsAlive (white : White g) (dead : g.isdead uv = true) :
    KeepsAlive g (g.changewhite uv) ∧ (g.changewhite uv).isdead uv = false := by
  have revived := changewhite_bits white (g.upvals uv).marked (by simpa [Thread.isdead] using dead)
  constructor
  · exact remark_keepsAlive revived
  · rw [Thread.changewhite, remark_isdead, if_pos rfl, revived]
    rfl

end Marks

/-! ## luaF_findupval -/

section Finding

variable {g g' : Thread} {uv p k : Nat} {l : List Nat}

theorem findOpen_finds (inside : ∀ p ∈ l, ∃ k, OpenAt g p k) (sorted : l.Pairwise (Higher g)) :
    (∃ p ∈ l, OpenAt g p k ∧ g.findOpen (g.slotAddr k) l = some p) ∨
      ((∀ p ∈ l, ¬ OpenAt g p k) ∧ g.findOpen (g.slotAddr k) l = none) := by
  induction l with
  | nil => exact .inr ⟨by simp, rfl⟩
  | cons p rest ih =>
    obtain ⟨lower, sortedRest⟩ := List.pairwise_cons.mp sorted
    obtain ⟨k', here⟩ := inside p List.mem_cons_self
    have insideRest : ∀ p ∈ rest, ∃ k, OpenAt g p k := fun p member => inside p (by simp [member])
    rw [Thread.findOpen, here.atOrAbove]
    by_cases above : k ≤ k'
    · rw [if_pos (by simpa using above)]
      by_cases same : k' = k
      · subst same
        exact .inl ⟨p, List.mem_cons_self, here, if_pos here⟩
      · have other : ¬ OpenAt g p k := fun there => same (here.unique there)
        rw [if_neg (show ¬ (g.upvals p).v = .stack (g.slotAddr k) from other)]
        cases ih insideRest sortedRest with
        | inl found =>
          obtain ⟨q, member, there, result⟩ := found
          exact .inl ⟨q, List.mem_cons_of_mem _ member, there, result⟩
        | inr missing => exact .inr ⟨by simpa [other] using missing.1, missing.2⟩
    · rw [if_neg (by simpa using above)]
      refine .inr ⟨?_, rfl⟩
      intro q member there
      cases List.mem_cons.mp member with
      | inl same =>
        subst same
        have := here.unique there
        omega
      | inr later =>
        have := lower q later k' k here there
        omega

theorem linkOpen_perm (level : Nat) : (g.linkOpen level uv l).Perm (uv :: l) := by
  induction l with
  | nil => exact List.Perm.refl _
  | cons p rest ih =>
    rw [Thread.linkOpen]
    split
    · exact (ih.cons p).trans (List.Perm.swap uv p rest)
    · exact List.Perm.refl _

-- `g'` has the new upvalue
theorem linkOpen_sorted (sorted : l.Pairwise (Higher g)) (inside : ∀ p ∈ l, ∃ k', OpenAt g p k' ∧ k' ≠ k)
    (same : ∀ p ∈ l, ∀ k', OpenAt g' p k' ↔ OpenAt g p k') (here : OpenAt g' uv k) :
    (g.linkOpen (g.slotAddr k) uv l).Pairwise (Higher g') := by
  induction l with
  | nil => exact List.pairwise_singleton _ _
  | cons p rest ih =>
    obtain ⟨lower, sortedRest⟩ := List.pairwise_cons.mp sorted
    obtain ⟨k', there, ne⟩ := inside p List.mem_cons_self
    have insideRest : ∀ p ∈ rest, ∃ k', OpenAt g p k' ∧ k' ≠ k := fun p member => inside p (by simp [member])
    have sameRest : ∀ p ∈ rest, ∀ k', OpenAt g' p k' ↔ OpenAt g p k' :=
      fun p member => same p (List.mem_cons_of_mem _ member)
    have there' := (same p List.mem_cons_self k').mpr there
    have lower' : ∀ q ∈ rest, Higher g' p q := by
      intro q member k₁ k₂ first second
      rw [same p List.mem_cons_self] at first
      rw [sameRest q member] at second
      exact lower q member k₁ k₂ first second
    rw [Thread.linkOpen, there.atOrAbove]
    by_cases above : k ≤ k'
    · rw [if_pos (by simpa using above)]
      refine List.pairwise_cons.mpr ⟨?_, ih sortedRest insideRest sameRest⟩
      intro q member
      cases List.mem_cons.mp ((linkOpen_perm _).mem_iff.mp member) with
      | inl new =>
        subst new
        intro k₁ k₂ first second
        have at₁ := first.unique there'
        have at₂ := second.unique here
        omega
      | inr old => exact lower' q old
    · rw [if_neg (by simpa using above)]
      have sorted' : (p :: rest).Pairwise (Higher g') := by
        refine List.pairwise_cons.mpr ⟨lower', sortedRest.imp_of_mem ?_⟩
        intro q r member member' higher k₁ k₂ first second
        rw [sameRest q member] at first
        rw [sameRest r member'] at second
        exact higher k₁ k₂ first second
      refine List.pairwise_cons.mpr ⟨?_, sorted'⟩
      intro q member k₁ k₂ first second
      have at₁ := first.unique here
      cases List.mem_cons.mp member with
      | inl top =>
        subst top
        have at₂ := second.unique there'
        omega
      | inr later =>
        have below := lower' q later k' k₂ there' second
        omega

/-- The thread with a new upvalue for the slot `k`. -/
def created (g : Thread) (k uv : Nat) : Thread :=
  { g with
    upvals := setAt g.upvals uv { marked := g.luaCWhite, v := .stack (g.slotAddr k), value := .nil }
    openupval := g.linkOpen (g.slotAddr k) uv g.openupval
    ring := g.ring.insertAfter none (some uv) }

theorem created_other (ne : p ≠ uv) : (created g k uv).upvals p = g.upvals p := setAt_other _ _ ne

theorem created_openAt : OpenAt (created g k uv) uv k :=
  congrArg UpVal.v (setAt_same g.upvals uv _)

theorem created_isdead (white : White g) : (created g k uv).isdead uv = false := by
  have marked : ((created g k uv).upvals uv).marked = g.luaCWhite :=
    congrArg UpVal.marked (setAt_same g.upvals uv _)
  have bits := created_alive white
  simp only [Thread.isdead, marked]
  exact bne_eq_false_iff_eq.mpr bits

theorem created_keepsAlive (ne : p ≠ uv) : (created g k uv).isdead p = g.isdead p :=
  isdead_congr rfl (by rw [created_other ne])

theorem OpenList.create (inv : OpenList g) (below : k < g.stacksize) (new : uv ∉ g.allocated)
    (free : ∀ p ∈ g.openupval, ¬ OpenAt g p k) : OpenList (created g k uv) := by
  have perm : (created g k uv).openupval.Perm (uv :: g.openupval) := linkOpen_perm _
  have absent : uv ∉ g.openupval := fun member => new (List.mem_append_left _ member)
  have absent' : uv ∉ g.rootgc := fun member => new (List.mem_append_right _ member)
  have same : ∀ p ∈ g.openupval, ∀ k', OpenAt (created g k uv) p k' ↔ OpenAt g p k' := by
    intro p member k'
    have ne : p ≠ uv := fun same => absent (same ▸ member)
    rw [OpenAt, created_other ne]
    rfl
  constructor
  · intro p member
    cases List.mem_cons.mp (perm.mem_iff.mp member) with
    | inl here =>
      subst here
      exact ⟨k, below, created_openAt⟩
    | inr old =>
      obtain ⟨k', inside, there⟩ := inv.inside p old
      exact ⟨k', inside, (same p old k').mpr there⟩
  · apply linkOpen_sorted inv.sorted _ same created_openAt
    intro p member
    obtain ⟨k', _, there⟩ := inv.inside p member
    refine ⟨k', there, ?_⟩
    rintro rfl
    exact free p member there
  · intro p member
    have ne : p ≠ uv := fun same => absent' (same ▸ member)
    rw [created_other ne]
    exact inv.closed p member
  · have fresh : (uv :: g.allocated).Nodup := List.nodup_cons.mpr ⟨new, inv.nodup⟩
    exact ((perm.append_right g.rootgc).nodup_iff).mpr fresh
  · obtain ⟨l, same, around⟩ := inv.ring
    refine ⟨uv :: l, (same.cons uv).trans perm.symm, ?_⟩
    have nodup : l.Nodup := same.nodup_iff.mpr inv.open_nodup
    apply around.insertAfter
    · simpa using nodup.map (Option.some_injective _)
    · simpa [same.mem_iff] using absent
  · exact inv.white

theorem luaFFindupval_cases (inv : OpenList g) (new : Option Nat) :
    (∃ p ∈ g.openupval, OpenAt g p k ∧ g.luaFFindupval (g.slotAddr k) new =
        (some p, if g.isdead p then g.changewhite p else g)) ∨
      ((∀ p ∈ g.openupval, ¬ OpenAt g p k) ∧ g.luaFFindupval (g.slotAddr k) new =
        match new with
        | none => (none, g)
        | some uv => (some uv, created g k uv)) := by
  have inside : ∀ p ∈ g.openupval, ∃ k, OpenAt g p k := by
    intro p member
    obtain ⟨k, _, here⟩ := inv.inside p member
    exact ⟨k, here⟩
  cases findOpen_finds (k := k) inside inv.sorted with
  | inl found =>
    obtain ⟨p, member, here, result⟩ := found
    refine .inl ⟨p, member, here, ?_⟩
    simp only [Thread.luaFFindupval, result]
  | inr missing =>
    refine .inr ⟨missing.1, ?_⟩
    simp only [Thread.luaFFindupval, missing.2]
    rfl

end Finding

/-! ## luaF_close -/

section Closing

variable {g g' : Thread} {uv p k : Nat} {rest : List Nat}

theorem remark_other (f : BitVec 8 → BitVec 8) (ne : p ≠ uv) : (g.remark uv f).upvals p = g.upvals p :=
  setAt_other _ _ ne

/-- The upvalue is in `rootgc`, and only its mark has changed. -/
structure LinkedUpval (g g' : Thread) (uv : Nat) : Prop where
  same : Remarked { g with rootgc := uv :: g.rootgc } g'
  white : g'.currentwhite = g.currentwhite
  others : ∀ p, p ≠ uv → g'.upvals p = g.upvals p
  alive : KeepsAlive g g'

theorem luaCLinkupval_links (white : White g) (uv : Nat) : LinkedUpval g (g.luaCLinkupval uv) uv := by
  let linked : Thread := { g with rootgc := uv :: g.rootgc }
  have whiteLinked : White linked := white
  rw [Thread.luaCLinkupval]
  split
  · split
    · exact ⟨remark_remarked .., rfl, fun _ ne => remark_other _ ne,
        gray2black_keepsAlive whiteLinked uv⟩
    · exact ⟨remark_remarked .., rfl, fun _ ne => remark_other _ ne,
        makewhite_keepsAlive whiteLinked uv⟩
  · exact ⟨Remarked.refl _, rfl, fun _ _ => rfl, fun _ alive => alive⟩

/-- What one round does to the upvalue `uv`. -/
structure ClosedOne (g g' : Thread) (uv : Nat) (rest : List Nat) : Prop where
  stack : g'.stack = g.stack
  stacksize : g'.stacksize = g.stacksize
  slots : g'.slots = g.slots
  white : g'.currentwhite = g.currentwhite
  openupval : g'.openupval = rest
  rootgc : g'.rootgc = if g.isdead uv then g.rootgc else uv :: g.rootgc
  ring : g'.ring = g.ring.remove (some uv)
  others : ∀ p, p ≠ uv → g'.upvals p = g.upvals p
  dead : g.isdead uv = true → g'.upvals uv = g.upvals uv
  taken : g.isdead uv = false → (g'.upvals uv).v = .own ∧ (g'.upvals uv).value = g.deref uv
  alive : KeepsAlive g g'

variable (rest) in
theorem closeOne_closes (white : White g) (here : OpenAt g uv k) :
    ClosedOne g ({ g with openupval := rest }.closeOne uv) uv rest := by
  let popped : Thread := { g with openupval := rest }
  rw [Thread.closeOne]
  have same : popped.isdead uv = g.isdead uv := rfl
  rw [same]
  cases dead : g.isdead uv with
  | true =>
    have freed : popped.luaFFreeupval uv = popped.unlinkupval uv := by
      simp only [Thread.luaFFreeupval]
      have there : (popped.upvals uv).v = .stack (g.slotAddr k) := here
      rw [there]
    rw [if_pos rfl, freed]
    refine ⟨rfl, rfl, rfl, rfl, rfl, (if_pos dead).symm, rfl, fun _ _ => rfl, fun _ => rfl, ?_,
      fun _ alive => alive⟩
    intro alive
    rw [dead] at alive
    cases alive
  | false =>
    let taken := (popped.unlinkupval uv).takeValue uv
    have at' : taken.upvals uv = { g.upvals uv with v := .own, value := g.deref uv } := setAt_same ..
    have other : ∀ p, p ≠ uv → taken.upvals p = g.upvals p := fun p ne => setAt_other _ _ ne
    have whiteTaken : White taken := white
    have linked : LinkedUpval taken (taken.luaCLinkupval uv) uv := luaCLinkupval_links whiteTaken uv
    rw [if_neg (by simp)]
    refine ⟨linked.same.stack, linked.same.stacksize, linked.same.slots, linked.white,
      linked.same.openupval, ?_, linked.same.ring, ?_, ?_, ?_, ?_⟩
    · rw [linked.same.rootgc, dead]
      rfl
    · intro p ne
      rw [linked.others p ne, other p ne]
    · intro also
      rw [dead] at also
      cases also
    · intro _
      rw [linked.same.v, linked.same.value]
      exact ⟨congrArg UpVal.v at', congrArg UpVal.value at'⟩
    · intro p alive
      apply linked.alive
      rw [← alive]
      have white : taken.currentwhite = g.currentwhite := rfl
      apply isdead_congr white
      by_cases same : p = uv
      · rw [same, at']
      · rw [other p same]

theorem ClosedOne.openList (inv : OpenList g) (list : g.openupval = uv :: rest)
    (one : ClosedOne g g' uv rest) : OpenList g' := by
  have nodup : (uv :: rest).Nodup := list ▸ inv.open_nodup
  obtain ⟨absent, nodupRest⟩ := List.nodup_cons.mp nodup
  have higher : (uv :: rest).Pairwise (Higher g) := list ▸ inv.sorted
  have member : uv ∈ g.openupval := by rw [list]; exact List.mem_cons_self
  have apart := inv.apart member
  have other : ∀ p ∈ rest, g'.upvals p = g.upvals p := fun p there =>
    one.others p fun same => absent (same ▸ there)
  have same : ∀ p ∈ rest, ∀ k, OpenAt g' p k ↔ OpenAt g p k := by
    intro p there k
    rw [OpenAt, OpenAt, other p there, Thread.slotAddr, Thread.slotAddr, one.stack]
  constructor
  · intro p there
    rw [one.openupval] at there
    obtain ⟨k, below, here⟩ := inv.inside p (by rw [list]; exact List.mem_cons_of_mem _ there)
    exact ⟨k, one.stacksize ▸ below, (same p there k).mpr here⟩
  · rw [one.openupval]
    apply (List.pairwise_cons.mp higher).2.imp_of_mem
    intro p q there there' higher k k' here here'
    exact higher k k' ((same p there k).mp here) ((same q there' k').mp here')
  · intro p there
    rw [one.rootgc] at there
    by_cases at' : p = uv
    · subst at'
      cases dead : g.isdead p with
      | false => exact (one.taken dead).1
      | true =>
        rw [dead, if_pos rfl] at there
        exact absurd there apart
    · rw [one.others p at']
      apply inv.closed
      split at there
      · exact there
      · exact (List.mem_cons.mp there).resolve_left at'
  · have all := inv.nodup
    rw [Thread.allocated, list, List.cons_append] at all
    rw [Thread.allocated, one.openupval, one.rootgc]
    split
    · exact (List.nodup_cons.mp all).2
    · exact (List.perm_middle.nodup_iff).mpr all
  · obtain ⟨l, perm, around⟩ := inv.ring
    have inRing : uv ∈ l := perm.mem_iff.mpr member
    have unique : (none :: l.map some).Nodup := by
      simpa using (perm.nodup_iff.mpr inv.open_nodup).map (Option.some_injective _)
    obtain ⟨before, after, rfl⟩ := List.append_of_mem inRing
    refine ⟨before ++ after, ?_, ?_⟩
    · rw [one.openupval]
      rw [list] at perm
      exact List.Perm.cons_inv (List.perm_middle.symm.trans perm)
    · rw [one.ring, List.map_append]
      rw [List.map_append, List.map_cons] at around unique
      exact around.remove unique
  · rw [White, one.white]
    exact inv.white

/-- The upvalue is open at the slot `k` or above it. -/
def Leaves (g : Thread) (k uv : Nat) : Prop := uv ∈ g.openupval ∧ g.atOrAbove (g.slotAddr k) uv = true

/-- What `luaF_close` does with the slot `k`. -/
structure ClosedFrom (k : Nat) (g g' : Thread) : Prop where
  openList : OpenList g'
  stack : g'.stack = g.stack
  stacksize : g'.stacksize = g.stacksize
  slots : g'.slots = g.slots
  openupval : g'.openupval = g.openupval.filter fun uv => !g.atOrAbove (g.slotAddr k) uv
  rootgc : ∀ uv, uv ∈ g'.rootgc ↔ uv ∈ g.rootgc ∨ Leaves g k uv ∧ g.isdead uv = false
  taken : ∀ uv, Leaves g k uv → g.isdead uv = false →
    (g'.upvals uv).v = .own ∧ (g'.upvals uv).value = g.deref uv
  others : ∀ uv, ¬ (Leaves g k uv ∧ g.isdead uv = false) → g'.upvals uv = g.upvals uv
  alive : KeepsAlive g g'

theorem ClosedFrom.none (inv : OpenList g) (below : ∀ uv, ¬ Leaves g k uv) : ClosedFrom k g g where
  openList := inv
  stack := rfl
  stacksize := rfl
  slots := rfl
  openupval := by
    refine (List.filter_eq_self.mpr ?_).symm
    intro uv member
    have low : g.atOrAbove (g.slotAddr k) uv ≠ true := fun high => below uv ⟨member, high⟩
    simpa using low
  rootgc := by simp [below]
  taken := fun uv leaves => absurd leaves (below uv)
  others := fun _ _ => rfl
  alive := fun _ alive => alive

theorem ClosedOne.deref (one : ClosedOne g g' uv rest) (ne : p ≠ uv) : g'.deref p = g.deref p := by
  simp only [Thread.deref, Thread.slotAt, one.others p ne, one.slots, one.stack]

theorem ClosedOne.atOrAbove (one : ClosedOne g g' uv rest) (ne : p ≠ uv) :
    g'.atOrAbove (g'.slotAddr k) p = g.atOrAbove (g.slotAddr k) p := by
  rw [Thread.atOrAbove, Thread.atOrAbove, one.others p ne, Thread.slotAddr, one.stack]
  rfl

theorem ClosedOne.isdead (one : ClosedOne g g' uv rest) (ne : p ≠ uv) : g'.isdead p = g.isdead p :=
  isdead_congr one.white (by rw [one.others p ne])

theorem ClosedFrom.cons {g₁ : Thread} (list : g.openupval = uv :: rest) (absent : uv ∉ rest)
    (high : g.atOrAbove (g.slotAddr k) uv = true) (one : ClosedOne g g₁ uv rest)
    (closed : ClosedFrom k g₁ g') : ClosedFrom k g g' := by
  have leaves : ∀ p, p ≠ uv → (Leaves g₁ k p ↔ Leaves g k p) := by
    intro p ne
    rw [Leaves, Leaves, one.atOrAbove ne, one.openupval, list, List.mem_cons, or_iff_right ne]
  have first : Leaves g k uv := ⟨by rw [list]; exact List.mem_cons_self, high⟩
  have later : ¬ Leaves g₁ k uv := by
    rintro ⟨member, _⟩
    rw [one.openupval] at member
    exact absent member
  constructor
  · exact closed.openList
  · rw [closed.stack, one.stack]
  · rw [closed.stacksize, one.stacksize]
  · rw [closed.slots, one.slots]
  · rw [closed.openupval, one.openupval, list, List.filter_cons_of_neg (by simp [high])]
    apply List.filter_congr
    intro p member
    rw [one.atOrAbove fun same => absent (same ▸ member)]
  · intro p
    rw [closed.rootgc, one.rootgc]
    by_cases same : p = uv
    · subst same
      cases dead : g.isdead p <;> simp [first, later]
    · rw [leaves p same, one.isdead same]
      split
      · rfl
      · rw [List.mem_cons, or_iff_right same]
  · intro p leaving alive
    by_cases same : p = uv
    · subst same
      have kept := closed.others p fun both => later both.1
      rw [kept]
      exact one.taken alive
    · rw [← one.deref same]
      exact closed.taken p ((leaves p same).mpr leaving) (by rw [one.isdead same, alive])
  · intro p stays
    by_cases same : p = uv
    · subst same
      have dead : g.isdead p = true := by
        by_contra alive
        exact stays ⟨first, by simpa using alive⟩
      rw [closed.others p fun both => later both.1, one.dead dead]
    · rw [closed.others p, one.others p same]
      rintro ⟨leaving, alive⟩
      exact stays ⟨(leaves p same).mp leaving, by rw [← one.isdead same, alive]⟩
  · intro p alive
    exact closed.alive p (one.alive p alive)

theorem closeOpen_closes {l : List Nat} (inv : OpenList g) (list : g.openupval = l) :
    ClosedFrom k g (Thread.closeOpen (g.slotAddr k) l g) := by
  induction l generalizing g with
  | nil =>
    rw [Thread.closeOpen, ← list]
    refine ClosedFrom.none inv ?_
    rintro uv ⟨member, _⟩
    rw [list] at member
    cases member
  | cons uv rest ih =>
    have member : uv ∈ g.openupval := by rw [list]; exact List.mem_cons_self
    obtain ⟨k', _, here⟩ := inv.inside uv member
    rw [Thread.closeOpen]
    split
    next high =>
      have one := closeOne_closes rest inv.white here
      have nodup : (uv :: rest).Nodup := list ▸ inv.open_nodup
      have closed := ih (one.openList inv list) one.openupval
      rw [Thread.slotAddr, one.stack] at closed
      exact closed.cons list (List.nodup_cons.mp nodup).1 high one
    next low =>
      rw [← list]
      refine ClosedFrom.none inv ?_
      rintro p ⟨there, above⟩
      rw [list] at there
      cases List.mem_cons.mp there with
      | inl same =>
        subst same
        exact low above
      | inr later =>
        obtain ⟨k₂, _, at'⟩ := inv.inside p (by rw [list]; exact there)
        have sorted : (uv :: rest).Pairwise (Higher g) := list ▸ inv.sorted
        have lower := (List.pairwise_cons.mp sorted).1 p later k' k₂ here at'
        rw [here.atOrAbove] at low
        rw [at'.atOrAbove] at above
        simp only [decide_eq_true_eq] at low above
        omega

theorem luaFClose_closes (inv : OpenList g) (k : Nat) :
    ClosedFrom k g (g.luaFClose (g.slotAddr k)) := closeOpen_closes inv rfl

end Closing

/-! ## luaD_reallocstack -/

section Moving

variable {g g' : Thread} {uv k : Nat} {upvals : Nat → UpVal} {l : List Nat}

theorem correctUpvals_other (oldstack : Nat) (absent : uv ∉ l) :
    g.correctUpvals oldstack l upvals uv = upvals uv := by
  induction l generalizing upvals with
  | nil => rfl
  | cons first rest ih =>
    obtain ⟨ne, later⟩ := not_or.mp (List.mem_cons.not.mp absent)
    rw [Thread.correctUpvals, ih later, setAt_other _ _ ne]

theorem correctUpvals_moved {oldstack : Nat} (nodup : l.Nodup) (member : uv ∈ l)
    (here : (upvals uv).v = .stack (oldstack + sizeofTValue * k)) :
    g.correctUpvals oldstack l upvals uv = { upvals uv with v := .stack (g.slotAddr k) } := by
  induction l generalizing upvals with
  | nil => cases member
  | cons first rest ih =>
    obtain ⟨absent, nodupRest⟩ := List.nodup_cons.mp nodup
    rw [Thread.correctUpvals]
    by_cases same : uv = first
    · subst same
      have address : (oldstack + sizeofTValue * k - oldstack) / sizeofTValue * sizeofTValue + g.stack =
          g.slotAddr k := by
        simp only [Thread.slotAddr, sizeofTValue]
        omega
      rw [correctUpvals_other _ absent, setAt_same, here]
      simp only
      rw [address]
    · rw [ih nodupRest ((List.mem_cons.mp member).resolve_left same)]
      · rw [setAt_other _ _ same]
      · rw [setAt_other _ _ same]
        exact here

/-- The open upvalues are at the same slots of another stack. -/
structure Moved (g g' : Thread) (leftover : Nat → TValue) : Prop where
  openupval : g'.openupval = g.openupval
  rootgc : g'.rootgc = g.rootgc
  ring : g'.ring = g.ring
  white : g'.currentwhite = g.currentwhite
  slots : ∀ k, g'.slots k = if k < min g.stacksize g'.stacksize then g.slots k else leftover k
  moved : ∀ uv ∈ g.openupval, ∀ k, OpenAt g uv k → OpenAt g' uv k
  others : ∀ uv, uv ∉ g.openupval → g'.upvals uv = g.upvals uv
  marked : ∀ uv, (g'.upvals uv).marked = (g.upvals uv).marked

theorem luaDReallocstack_moves (inv : OpenList g) (address newsize : Nat) (leftover : Nat → TValue) :
    Moved g (g.luaDReallocstack address newsize leftover) leftover := by
  have there : ∀ uv ∈ g.openupval, ∀ k, OpenAt g uv k →
      (g.luaDReallocstack address newsize leftover).upvals uv =
        { g.upvals uv with v := .stack (address + sizeofTValue * k) } :=
    fun uv member k here => correctUpvals_moved inv.open_nodup member here
  refine ⟨rfl, rfl, rfl, rfl, fun _ => rfl, ?_, fun _ absent => correctUpvals_other _ absent, ?_⟩
  · intro uv member k here
    rw [OpenAt, there uv member k here]
    rfl
  · intro uv
    by_cases member : uv ∈ g.openupval
    · obtain ⟨k, _, here⟩ := inv.inside uv member
      rw [there uv member k here]
    · exact congrArg UpVal.marked (correctUpvals_other _ member)

theorem Moved.openAt {leftover : Nat → TValue} (inv : OpenList g) (moved : Moved g g' leftover)
    (member : uv ∈ g.openupval) : OpenAt g' uv k ↔ OpenAt g uv k := by
  obtain ⟨k', _, here⟩ := inv.inside uv member
  constructor
  · intro there
    rw [there.unique (moved.moved uv member k' here)]
    exact here
  · exact moved.moved uv member k

theorem Moved.openList {leftover : Nat → TValue} (inv : OpenList g) (moved : Moved g g' leftover)
    (room : ∀ uv ∈ g.openupval, ∀ k, OpenAt g uv k → k < g'.stacksize) : OpenList g' where
  inside := by
    intro uv member
    rw [moved.openupval] at member
    obtain ⟨k, _, here⟩ := inv.inside uv member
    exact ⟨k, room uv member k here, moved.moved uv member k here⟩
  sorted := by
    rw [moved.openupval]
    apply inv.sorted.imp_of_mem
    intro uv uv' member member' higher k k' here here'
    exact higher k k' ((moved.openAt inv member).mp here) ((moved.openAt inv member').mp here')
  closed := by
    intro uv member
    rw [moved.rootgc] at member
    rw [moved.others uv fun also => inv.apart also member]
    exact inv.closed uv member
  nodup := by
    rw [Thread.allocated, moved.openupval, moved.rootgc]
    exact inv.nodup
  ring := by
    rw [moved.ring, moved.openupval]
    exact inv.ring
  white := by
    rw [White, moved.white]
    exact inv.white

end Moving

/-! ## Sweeping -/

section Sweeping

variable {g g' : Thread} {uv k : Nat} {l left : List Nat}

/-- `left` is what is left of the list. -/
structure Swept (g g' : Thread) (l left : List Nat) : Prop where
  stack : g'.stack = g.stack
  stacksize : g'.stacksize = g.stacksize
  slots : g'.slots = g.slots
  openupval : g'.openupval = g.openupval
  rootgc : g'.rootgc = g.rootgc
  white : g'.currentwhite = g.currentwhite
  v : ∀ uv, (g'.upvals uv).v = (g.upvals uv).v
  value : ∀ uv, (g'.upvals uv).value = (g.upvals uv).value
  sublist : left.Sublist l
  kept : ∀ uv ∈ l, g.isdead uv = false → uv ∈ left
  alive : KeepsAlive g g'

theorem luaFFreeupval_swept (g : Thread) (uv : Nat) : Swept g (g.luaFFreeupval uv) [] [] := by
  rw [Thread.luaFFreeupval]
  split
  · exact ⟨rfl, rfl, rfl, rfl, rfl, rfl, fun _ => rfl, fun _ => rfl, List.Sublist.refl _, by simp,
      fun _ alive => alive⟩
  · exact ⟨rfl, rfl, rfl, rfl, rfl, rfl, fun _ => rfl, fun _ => rfl, List.Sublist.refl _, by simp,
      fun _ alive => alive⟩

theorem makewhite_swept (white : White g) (uv : Nat) : Swept g (g.makewhite uv) [uv] [uv] := by
  have same : Remarked g (g.makewhite uv) := remark_remarked ..
  exact ⟨rfl, rfl, rfl, rfl, rfl, rfl, same.v, same.value, List.Sublist.refl _, fun _ member _ => member,
    makewhite_keepsAlive white uv⟩

theorem Swept.append {g₁ : Thread} {l' left' : List Nat} (first : Swept g g₁ l left)
    (rest : Swept g₁ g' l' left') : Swept g g' (l ++ l') (left ++ left') where
  stack := rest.stack.trans first.stack
  stacksize := rest.stacksize.trans first.stacksize
  slots := rest.slots.trans first.slots
  openupval := rest.openupval.trans first.openupval
  rootgc := rest.rootgc.trans first.rootgc
  white := rest.white.trans first.white
  v := fun uv => (rest.v uv).trans (first.v uv)
  value := fun uv => (rest.value uv).trans (first.value uv)
  sublist := first.sublist.append rest.sublist
  kept := by
    intro uv member alive
    cases List.mem_append.mp member with
    | inl here => exact List.mem_append_left _ (first.kept uv here alive)
    | inr later => exact List.mem_append_right _ (rest.kept uv later (first.alive uv alive))
  alive := fun uv alive => rest.alive uv (first.alive uv alive)

-- an upvalue that is dead may be left out
theorem Swept.dead (swept : Swept g g' l left) (dead : g.isdead uv = true) :
    Swept g g' (uv :: l) left :=
  { swept with
    sublist := swept.sublist.cons uv
    kept := by
      intro p member alive
      cases List.mem_cons.mp member with
      | inl same =>
        rw [same, dead] at alive
        cases alive
      | inr later => exact swept.kept p later alive }

theorem sweeplist_sweeps (white : White g) (l : List Nat) :
    Swept g (Thread.sweeplist l g).2 l (Thread.sweeplist l g).1 := by
  induction l generalizing g with
  | nil =>
    exact ⟨rfl, rfl, rfl, rfl, rfl, rfl, fun _ => rfl, fun _ => rfl, List.Sublist.refl _, by simp,
      fun _ alive => alive⟩
  | cons curr rest ih =>
    rw [Thread.sweeplist]
    split
    next => exact (makewhite_swept white curr).append (ih white)
    next gone =>
      have bits := sweep_bits white (g.upvals curr).marked (by simpa using gone)
      have dead : g.isdead curr = true := by simpa [Thread.isdead] using bits
      have freed := luaFFreeupval_swept g curr
      have white' : White (g.luaFFreeupval curr) := by
        rw [White, freed.white]
        exact white
      exact (freed.append (ih white')).dead dead

-- the ring has what is left, and the others
theorem sweeplist_ring (others ring : List Nat)
    (inStack : ∀ uv ∈ l, ∃ address, (g.upvals uv).v = .stack address) (unique : ring.Nodup) (perm : ring.Perm (l ++ others))
    (around : g.ring.Around none (ring.map some)) :
    ∃ ring' : List Nat, ring'.Perm ((Thread.sweeplist l g).1 ++ others) ∧
      (Thread.sweeplist l g).2.ring.Around none (ring'.map some) := by
  induction l generalizing g ring others with
  | nil => exact ⟨ring, perm, around⟩
  | cons curr rest ih =>
    rw [Thread.sweeplist]
    split
    next =>
      have same : Remarked g (g.makewhite curr) := remark_remarked ..
      have inStack' : ∀ uv ∈ rest, ∃ address, ((g.makewhite curr).upvals uv).v = .stack address := by
        intro uv member
        rw [same.v]
        exact inStack uv (List.mem_cons_of_mem _ member)
      have perm' : ring.Perm (rest ++ curr :: others) := perm.trans List.perm_middle.symm
      obtain ⟨ring', left, around'⟩ := ih (curr :: others) ring inStack' unique perm' around
      exact ⟨ring', left.trans List.perm_middle, around'⟩
    next =>
      obtain ⟨address, here⟩ := inStack curr List.mem_cons_self
      have freed : g.luaFFreeupval curr = g.unlinkupval curr := by
        simp only [Thread.luaFFreeupval, here]
      have member : curr ∈ ring := perm.mem_iff.mpr (by simp)
      obtain ⟨before, after, rfl⟩ := List.append_of_mem member
      rw [freed]
      have unique' : (none :: (before ++ curr :: after).map some).Nodup := by
        simpa using unique.map (Option.some_injective _)
      apply ih others (before ++ after)
      · exact fun uv member => inStack uv (List.mem_cons_of_mem _ member)
      · exact (List.nodup_cons.mp (List.perm_middle.nodup_iff.mp unique)).2
      · exact List.Perm.cons_inv (List.perm_middle.symm.trans perm)
      · rw [List.map_append, List.map_cons] at around unique'
        rw [List.map_append]
        exact around.remove unique'

theorem sweeplist_ring_closed (closed : ∀ uv ∈ l, (g.upvals uv).v = .own) :
    (Thread.sweeplist l g).2.ring = g.ring := by
  induction l generalizing g with
  | nil => rfl
  | cons curr rest ih =>
    have here := closed curr List.mem_cons_self
    have later : ∀ uv ∈ rest, (g.upvals uv).v = .own :=
      fun uv member => closed uv (List.mem_cons_of_mem _ member)
    rw [Thread.sweeplist]
    split
    next =>
      have same : Remarked g (g.makewhite curr) := remark_remarked ..
      apply (ih _).trans same.ring
      intro uv member
      rw [same.v]
      exact later uv member
    next =>
      have freed : g.luaFFreeupval curr = g := by simp only [Thread.luaFFreeupval, here]
      rw [freed]
      exact ih later

end Sweeping

/-! ## The collector -/

section Collector

variable {g g' : Thread} {uv : Nat}

/-- The thread has lost upvalues at most. -/
structure Shrunk (g g' : Thread) : Prop where
  stack : g'.stack = g.stack
  stacksize : g'.stacksize = g.stacksize
  slots : g'.slots = g.slots
  openupval : ∀ uv ∈ g'.openupval, uv ∈ g.openupval
  rootgc : ∀ uv ∈ g'.rootgc, uv ∈ g.rootgc
  v : ∀ uv, (g'.upvals uv).v = (g.upvals uv).v
  value : ∀ uv, (g'.upvals uv).value = (g.upvals uv).value

theorem Remarked.shrunk (same : Remarked g g') : Shrunk g g' where
  stack := same.stack
  stacksize := same.stacksize
  slots := same.slots
  openupval := by
    rw [same.openupval]
    exact fun _ member => member
  rootgc := by
    rw [same.rootgc]
    exact fun _ member => member
  v := same.v
  value := same.value

theorem OpenList.sublist (inv : OpenList g) (shrunk : Shrunk g g')
    (openupval : g'.openupval.Sublist g.openupval) (rootgc : g'.rootgc.Sublist g.rootgc)
    (ring : ∃ l : List Nat, l.Perm g'.openupval ∧ g'.ring.Around none (l.map some)) (white : White g') :
    OpenList g' := by
  have same : ∀ uv k, OpenAt g' uv k ↔ OpenAt g uv k := by
    intro uv k
    rw [OpenAt, OpenAt, shrunk.v, Thread.slotAddr, Thread.slotAddr, shrunk.stack]
  refine ⟨?_, ?_, ?_, inv.nodup.sublist (openupval.append rootgc), ring, white⟩
  · intro uv member
    obtain ⟨k, below, here⟩ := inv.inside uv (openupval.subset member)
    exact ⟨k, shrunk.stacksize ▸ below, (same uv k).mpr here⟩
  · apply (inv.sorted.sublist openupval).imp
    intro uv uv' higher k k' here here'
    exact higher k k' ((same uv k).mp here) ((same uv' k').mp here')
  · intro uv member
    rw [shrunk.v]
    exact inv.closed uv (rootgc.subset member)

/-- The collector has freed none of the upvalues that are alive. -/
structure Collected (g g' : Thread) : Prop where
  openList : OpenList g'
  shrunk : Shrunk g g'
  kept : ∀ uv ∈ g.allocated, g.isdead uv = false → uv ∈ g'.allocated ∧ g'.isdead uv = false

theorem sweepOpen_collected (inv : OpenList g) : Collected g g.sweepOpen := by
  have swept := sweeplist_sweeps inv.white g.openupval
  have shrunk : Shrunk g g.sweepOpen :=
    { swept with
      openupval := fun uv member => swept.sublist.subset member
      rootgc := fun uv member => swept.rootgc ▸ member }
  have rootgc : g.sweepOpen.rootgc = g.rootgc := swept.rootgc
  have inStack : ∀ uv ∈ g.openupval, ∃ address, (g.upvals uv).v = .stack address := by
    intro uv member
    obtain ⟨k, _, here⟩ := inv.inside uv member
    exact ⟨_, here⟩
  obtain ⟨l, perm, around⟩ := inv.ring
  have ring := sweeplist_ring [] l inStack (perm.nodup_iff.mpr inv.open_nodup) (by simpa using perm) around
  rw [List.append_nil] at ring
  have white : White g.sweepOpen := by
    have same : g.sweepOpen.currentwhite = g.currentwhite := swept.white
    rw [White, same]
    exact inv.white
  refine ⟨inv.sublist shrunk swept.sublist (rootgc ▸ List.Sublist.refl _) ring white, shrunk, ?_⟩
  intro uv member alive
  refine ⟨?_, swept.alive uv alive⟩
  cases List.mem_append.mp member with
  | inl isOpen => exact List.mem_append_left _ (swept.kept uv isOpen alive)
  | inr closed => exact List.mem_append_right _ (rootgc ▸ closed)

theorem sweepRoot_collected (inv : OpenList g) (skip count : Nat) :
    Collected g (g.sweepRoot skip count) := by
  have swept := sweeplist_sweeps inv.white ((g.rootgc.drop skip).take count)
  have parts : g.rootgc.take skip ++ (g.rootgc.drop skip).take count ++ g.rootgc.drop (skip + count) =
      g.rootgc := by
    rw [List.append_assoc, ← List.drop_drop, List.take_append_drop, List.take_append_drop]
  have sublist : (g.sweepRoot skip count).rootgc.Sublist g.rootgc := by
    conv_rhs => rw [← parts]
    exact ((List.Sublist.refl _).append swept.sublist).append (List.Sublist.refl _)
  have openupval : (g.sweepRoot skip count).openupval = g.openupval := swept.openupval
  have shrunk : Shrunk g (g.sweepRoot skip count) :=
    { swept with
      openupval := fun uv member => openupval ▸ member
      rootgc := fun uv member => sublist.subset member }
  have ring : (g.sweepRoot skip count).ring = g.ring := by
    apply sweeplist_ring_closed
    intro uv member
    exact inv.closed uv (List.mem_of_mem_drop (List.mem_of_mem_take member))
  refine ⟨inv.sublist shrunk (openupval ▸ List.Sublist.refl _) sublist
    (by rw [ring, openupval]; exact inv.ring) ?_, shrunk, ?_⟩
  · have white : (g.sweepRoot skip count).currentwhite = g.currentwhite := swept.white
    rw [White, white]
    exact inv.white
  · intro uv member alive
    refine ⟨?_, swept.alive uv alive⟩
    cases List.mem_append.mp member with
    | inl isOpen => exact List.mem_append_left _ (openupval ▸ isOpen)
    | inr closed =>
      apply List.mem_append_right
      rw [← parts, List.mem_append, List.mem_append] at closed
      simp only [Thread.sweepRoot, List.mem_append]
      rcases closed with (before | here) | behind
      · exact .inl (.inl before)
      · exact .inl (.inr (swept.kept uv here alive))
      · exact .inr behind

theorem markUpval_collected (inv : OpenList g) (uv : Nat) : Collected g (g.markUpval uv) := by
  have gray : Remarked g (g.white2gray uv) := remark_remarked ..
  have white : White (g.white2gray uv) := inv.white
  have alive := white2gray_keepsAlive inv.white uv
  rw [Thread.markUpval]
  split
  · have black : Remarked (g.white2gray uv) ((g.white2gray uv).gray2black uv) := remark_remarked ..
    have alive' := gray2black_keepsAlive white uv
    refine ⟨black.openList (gray.openList inv white) white, ?_, ?_⟩
    · exact (gray.trans black).shrunk
    · exact fun p member living => ⟨member, alive' p (alive p living)⟩
  · exact ⟨gray.openList inv white, gray.shrunk, fun p member living => ⟨member, alive p living⟩⟩

end Collector

/-! ## Assignments -/

section Assignments

variable {g : Thread} {uv : Nat} {v : TValue}

theorem assignOwn_other {uv' : Nat} (ne : uv' ≠ uv) : (g.assignOwn uv v).upvals uv' = g.upvals uv' :=
  setAt_other _ _ ne

theorem assignOwn_v (uv' : Nat) : ((g.assignOwn uv v).upvals uv').v = (g.upvals uv').v := by
  by_cases same : uv' = uv
  · simp only [Thread.assignOwn, same, setAt_same]
  · rw [assignOwn_other same]

theorem assignOwn_value : ((g.assignOwn uv v).upvals uv).value = v :=
  congrArg UpVal.value (setAt_same ..)

theorem assignOwn_marked (uv' : Nat) :
    ((g.assignOwn uv v).upvals uv').marked = (g.upvals uv').marked := by
  by_cases same : uv' = uv
  · simp only [Thread.assignOwn, same, setAt_same]
  · rw [assignOwn_other same]

/-- An assignment, and the mark that its barrier leaves. -/
structure Assigned (g g' : Thread) : Prop extends SameLists g g' where
  white : g'.currentwhite = g.currentwhite
  alive : KeepsAlive g g'

theorem Assigned.barrier {g' : Thread} (white : White g) (assigned : Assigned g g') (uv : Nat)
    (needed : Bool) : Assigned g (if needed then g'.makewhite uv else g') := by
  split
  · have same : Remarked g' (g'.makewhite uv) := remark_remarked ..
    have white' : White g' := by
      rw [White, assigned.white]
      exact white
    exact ⟨⟨assigned.stack, assigned.stacksize, assigned.openupval, assigned.rootgc, assigned.ring,
      fun p => (same.v p).trans (assigned.v p)⟩, assigned.white,
      fun p alive => makewhite_keepsAlive white' uv p (assigned.alive p alive)⟩
  · exact assigned

theorem setUpval_assigned (inv : White g) (uv : Nat) (v : TValue) (white : Bool) :
    Assigned g (g.setUpval uv v white) := by
  rw [Thread.setUpval]
  apply Assigned.barrier inv
  split
  · exact ⟨⟨rfl, rfl, rfl, rfl, rfl, fun _ => rfl⟩, rfl, fun _ alive => alive⟩
  · refine ⟨⟨rfl, rfl, rfl, rfl, rfl, assignOwn_v⟩, rfl, ?_⟩
    intro p alive
    have white : (g.assignOwn uv v).currentwhite = g.currentwhite := rfl
    exact (isdead_congr white (assignOwn_marked p)).trans alive

end Assignments

end Lunatik.Verified.UpvalueLists
