import Mathlib.Data.List.Perm.Subperm
import Mathlib.Logic.Function.Basic
import Mathlib.Tactic.Common

/-! # Singly linked chains

`next` gives each cell the cell it points to.  `Follows next i l` says that `l` is the chain that
starts at `i` and ends at a cell that points nowhere.  The two ways in which a chain is changed, a
cell put in behind another one and a cell exchanged for another one, come with the chains they
leave.
-/

namespace Lunatik.Library

variable {α : Type} {next : α → Option α} {i j : α} {l : List α}

inductive Follows (next : α → Option α) : α → List α → Prop where
  | last {i : α} (ends : next i = none) : Follows next i [i]
  | step {i j : α} {l : List α} (link : next i = some j) (rest : Follows next j l) : Follows next i
    (i :: l)

/-- The chain from `i` comes to `j`. -/
def Reaches (next : α → Option α) (i j : α) : Prop := ∃ l, Follows next i l ∧ j ∈ l

namespace Follows

theorem head_mem (h : Follows next i l) : i ∈ l := by
  cases h with
  | last => exact List.mem_cons_self
  | step => exact List.mem_cons_self

theorem deterministic {l' : List α} (h : Follows next i l) (h' : Follows next i l') : l = l' := by
  induction h generalizing l' with
  | last ends =>
    cases h' with
    | last => rfl
    | step link => simp [ends] at link
  | step link rest ih =>
    cases h' with
    | last ends => simp [ends] at link
    | step link' rest' =>
      rw [link] at link'
      obtain rfl := Option.some.inj link'
      rw [ih rest']

-- the chain of a cell on the way is the rest of the chain
theorem suffix (h : Follows next i l) (member : j ∈ l) : ∃ l', Follows next j l' ∧ l' <:+ l := by
  induction h with
  | last ends =>
    obtain rfl := List.mem_singleton.mp member
    exact ⟨_, .last ends, List.suffix_rfl⟩
  | step link rest ih =>
    cases List.mem_cons.mp member with
    | inl same =>
      subst same
      exact ⟨_, .step link rest, List.suffix_rfl⟩
    | inr later =>
      obtain ⟨l', follows, suffix⟩ := ih later
      exact ⟨l', follows, suffix.trans (List.suffix_cons _ _)⟩

theorem not_mem_of_link {l : List α} (link : next i = some j) (h : Follows next j l) : i ∉ l := by
  intro member
  obtain ⟨l', follows, suffix⟩ := h.suffix member
  have same := follows.deterministic (.step link h)
  have shorter := suffix.length_le
  rw [same, List.length_cons] at shorter
  omega

theorem nodup (h : Follows next i l) : l.Nodup := by
  induction h with
  | last => simp
  | step link rest ih => exact List.nodup_cons.mpr ⟨rest.not_mem_of_link link, ih⟩

/-- Every cell of a chain but the first is pointed to by a cell of it. -/
theorem predecessor (h : Follows next i l) (member : j ∈ l) (later : j ≠ i) :
    ∃ p ∈ l, next p = some j := by
  induction h with
  | last => exact absurd (List.mem_singleton.mp member) later
  | step link rest ih =>
    rename_i i k l
    cases List.mem_cons.mp member with
    | inl same => exact absurd same later
    | inr inside =>
      by_cases same : j = k
      · subst same
        exact ⟨i, List.mem_cons_self, link⟩
      · obtain ⟨p, inside', points⟩ := ih inside same
        exact ⟨p, List.mem_cons_of_mem _ inside', points⟩

-- a cell that nothing points to is on no chain but its own
theorem not_mem_of_unlinked {n : α} (h : Follows next i l) (unlinked : ∀ q, next q ≠ some n)
    (other : i ≠ n) : n ∉ l := by
  intro member
  obtain ⟨p, -, points⟩ := h.predecessor member (Ne.symm other)
  exact unlinked p points

theorem start_eq (h : Follows next i l) (h' : Follows next j l) : i = j := by
  cases h with
  | last => cases h' with
    | last => rfl
    | step link rest => cases rest
  | step => cases h' with
    | last => contradiction
    | step => rfl

end Follows

namespace Reaches

theorem antisymm (h : Reaches next i j) (h' : Reaches next j i) : i = j := by
  obtain ⟨l, follows, member⟩ := h
  obtain ⟨l', follows', member'⟩ := h'
  obtain ⟨k, followsJ, suffix⟩ := follows.suffix member
  obtain ⟨k', followsI, suffix'⟩ := follows'.suffix member'
  rw [followsJ.deterministic follows'] at suffix
  rw [followsI.deterministic follows] at suffix'
  have same : l = l' := suffix'.eq_of_length_le suffix.length_le
  exact follows.start_eq (same ▸ follows')

theorem tail {k : α} (h : Reaches next i j) (link : next i = some k) (other : j ≠ i) :
    Reaches next k j := by
  obtain ⟨l, follows, member⟩ := h
  cases follows with
  | last ends => simp [ends] at link
  | step link' rest =>
    rw [link] at link'
    obtain rfl := Option.some.inj link'
    exact ⟨_, rest, (List.mem_cons.mp member).resolve_left other⟩

end Reaches

-- a cell with a property that no cell before it has is the first one with it
theorem Follows.find?_eq {found : α → Bool} (h : Follows next i l) (member : j ∈ l)
    (holds : found j = true)
    (before : ∀ k, Reaches next i k → Reaches next k j → k ≠ j → found k = false) :
    l.find? found = some j := by
  induction h with
  | last => simp_all
  | step link rest ih =>
    rename_i i k l
    by_cases here : i = j
    · subst here
      exact List.find?_cons_of_pos holds
    · have later : j ∈ l := (List.mem_cons.mp member).resolve_left (Ne.symm here)
      have step : Follows next i (i :: l) := .step link rest
      have first : found i = false := before i ⟨_, step, step.head_mem⟩ ⟨_, step, member⟩ here
      rw [List.find?_cons_of_neg (by simp [first])]
      refine ih later fun m reaches => before m ?_
      obtain ⟨l', follows, inside⟩ := reaches
      exact ⟨_, .step link follows, List.mem_cons_of_mem _ inside⟩

/-! ## Loops through a chain -/

theorem Follows.length_le {next : Nat → Option Nat} {i n : Nat} {l : List Nat} (h : Follows next i l)
    (inside : i < n) (targets : ∀ p j, next p = some j → j < n) : l.length ≤ n := by
  have bounded : l ⊆ List.range n := by
    intro j member
    rw [List.mem_range]
    by_cases first : j = i
    · exact first ▸ inside
    · obtain ⟨p, -, points⟩ := h.predecessor member first
      exact targets p j points
  have short := (List.subperm_of_subset h.nodup bounded).length_le
  rw [List.length_range] at short
  exact short

/-- A loop that goes from cell to cell and stops at the first one with a property. -/
theorem Follows.loop_finds {β : Type} {loop : Nat → α → Option (Option β)} {found : α → Bool} {result : α → β}
    (step : ∀ rounds i, loop (rounds + 1) i =
      if found i then some (some (result i))
      else match next i with
        | none => some none
        | some j => loop rounds j)
    (h : Follows next i l) (rounds : Nat) (enough : l.length ≤ rounds) :
    loop rounds i = some ((l.find? found).map result) := by
  induction h generalizing rounds with
  | last ends =>
    rename_i i
    obtain ⟨rounds, rfl⟩ : ∃ m, rounds = m + 1 := ⟨rounds - 1, by simp at enough; omega⟩
    rw [step, ends]
    by_cases here : found i = true
    · simp [here]
    · simp [here]
  | step link rest ih =>
    rename_i i k l
    rw [List.length_cons] at enough
    obtain ⟨rounds, rfl⟩ : ∃ m, rounds = m + 1 := ⟨rounds - 1, by omega⟩
    rw [step, link]
    by_cases here : found i = true
    · simp [here]
    · rw [List.find?_cons_of_neg (by simpa using here), if_neg here]
      exact ih rounds (by omega)

/-- A loop that stops at the cell before the one that it looks for. -/
theorem Follows.loop_previous [DecidableEq α] {loop : Nat → α → Option α} {m : α}
    (step : ∀ rounds i, loop (rounds + 1) i =
      match next i with
      | none => none
      | some j => if j = m then some i else loop rounds j)
    (h : Follows next i l) (member : m ∈ l) (other : i ≠ m) (rounds : Nat) (enough : l.length ≤ rounds) :
    ∃ p, loop rounds i = some p ∧ next p = some m := by
  induction h generalizing rounds with
  | last => exact absurd (List.mem_singleton.mp member).symm other
  | step link rest ih =>
    rename_i i k l
    rw [List.length_cons] at enough
    obtain ⟨rounds, rfl⟩ : ∃ n, rounds = n + 1 := ⟨rounds - 1, by omega⟩
    rw [step, link]
    by_cases here : k = m
    · exact ⟨i, if_pos here, here ▸ link⟩
    · have later : m ∈ l := (List.mem_cons.mp member).resolve_left (Ne.symm other)
      obtain ⟨p, ran, points⟩ := ih later here rounds (by omega)
      exact ⟨p, by rw [← ran]; exact if_neg here, points⟩

/-! ## Changing a chain -/

section
variable [DecidableEq α] {m n p : α}

/-- `n` is put in behind `m`. -/
def linkBehind (next : α → Option α) (m n : α) : α → Option α :=
  Function.update (Function.update next n (next m)) m (some n)

/-- The cell `n` takes the place of `m` behind `p`, and `m` points nowhere. -/
def linkInstead (next : α → Option α) (p m n : α) : α → Option α :=
  Function.update (Function.update (Function.update next p (some n)) n (next m)) m none

theorem linkBehind_self (different : m ≠ n) :
    linkBehind next m n m = some n ∧ linkBehind next m n n = next m := by
  simp [linkBehind, different.symm]

theorem linkBehind_other (h : i ≠ m) (h' : i ≠ n) : linkBehind next m n i = next i := by
  simp [linkBehind, h, h']

theorem linkBehind_cases (different : m ≠ n) (link : linkBehind next m n i = some j) :
    (i = m ∧ j = n) ∨ (i = n ∧ next m = some j) ∨ (i ≠ m ∧ i ≠ n ∧ next i = some j) := by
  by_cases atM : i = m
  · subst atM
    rw [(linkBehind_self different).1] at link
    exact .inl ⟨rfl, (Option.some.inj link).symm⟩
  · by_cases atN : i = n
    · subst atN
      rw [(linkBehind_self different).2] at link
      exact .inr (.inl ⟨rfl, link⟩)
    · rw [linkBehind_other atM atN] at link
      exact .inr (.inr ⟨atM, atN, link⟩)

theorem Follows.linkBehind (h : Follows next i l) (fresh : n ∉ l) (different : m ≠ n) :
    Follows (linkBehind next m n) i (l.flatMap fun j => if j = m then [m, n] else [j]) := by
  have self : Library.linkBehind next m n m = some n ∧ Library.linkBehind next m n n = next m :=
    linkBehind_self different
  induction h with
  | last ends =>
    rename_i i
    have notFresh : i ≠ n := fun same => fresh (by simp [same])
    by_cases here : i = m
    · subst here
      have ends' : Follows (Library.linkBehind next i n) n [n] := .last (self.2.trans ends)
      simpa using Follows.step self.1 ends'
    · simpa [here] using Follows.last ((linkBehind_other here notFresh).trans ends)
  | step link rest ih =>
    rename_i i k l
    rw [List.mem_cons, not_or] at fresh
    have more := ih fresh.2
    by_cases here : i = m
    · subst here
      have behind := Follows.step (self.2.trans link) more
      simpa using Follows.step self.1 behind
    · simpa [here] using Follows.step ((linkBehind_other here (Ne.symm fresh.1)).trans link) more

theorem linkInstead_other (h : i ≠ p) (h' : i ≠ m) (h'' : i ≠ n) :
    linkInstead next p m n i = next i := by
  simp [linkInstead, h, h', h'']

theorem linkInstead_cases (different : m ≠ n) (link : linkInstead next p m n i = some j) :
    (i = p ∧ j = n) ∨ (i = n ∧ next m = some j) ∨ (i ≠ p ∧ i ≠ m ∧ i ≠ n ∧ next i = some j) := by
  by_cases atM : i = m
  · simp [linkInstead, atM] at link
  · by_cases atN : i = n
    · subst atN
      simp only [linkInstead, Function.update_of_ne atM, Function.update_self] at link
      exact .inr (.inl ⟨rfl, link⟩)
    · by_cases atP : i = p
      · subst atP
        simp only [linkInstead, Function.update_of_ne atM, Function.update_of_ne atN,
          Function.update_self, Option.some.injEq] at link
        exact .inl ⟨rfl, link.symm⟩
      · rw [linkInstead_other atP atM atN] at link
        exact .inr (.inr ⟨atP, atM, atN, link⟩)

theorem Follows.linkInstead (h : Follows next i l) (fresh : n ∉ l) (different : m ≠ n)
    (points : next p = some m) (only : ∀ q, next q = some m → q = p) (freshPoint : p ≠ n)
    (proper : p ≠ m) :
    Follows (linkInstead next p m n) (if i = m then n else i)
      (l.map fun j => if j = m then n else j) := by
  have atN : Library.linkInstead next p m n n = next m := by
    simp [Library.linkInstead, different.symm]
  have atP : Library.linkInstead next p m n p = some n := by
    simp [Library.linkInstead, freshPoint, proper]
  induction h with
  | last ends =>
    rename_i i
    have notFresh : i ≠ n := fun same => fresh (by simp [same])
    by_cases here : i = m
    · subst here
      simpa using Follows.last (atN.trans ends)
    · have notP : i ≠ p := by
        rintro rfl
        simp [ends] at points
      simpa [here] using Follows.last ((linkInstead_other notP here notFresh).trans ends)
  | step link rest ih =>
    rename_i i k l
    rw [List.mem_cons, not_or] at fresh
    have more := ih fresh.2
    by_cases here : i = m
    · subst here
      have notHere : k ≠ i := fun same => rest.not_mem_of_link link (same ▸ rest.head_mem)
      rw [if_neg notHere] at more
      simpa using Follows.step (atN.trans link) more
    · by_cases before : k = m
      · subst before
        obtain rfl := only i link
        rw [if_pos rfl] at more
        simpa [here] using Follows.step atP more
      · have notP : i ≠ p := by
          rintro rfl
          rw [points] at link
          exact before (Option.some.inj link).symm
        rw [if_neg before] at more
        simpa [here] using Follows.step ((linkInstead_other notP here
          (Ne.symm fresh.1)).trans link) more

theorem Reaches.of_linkBehind (h : Reaches (Library.linkBehind next m n) i j)
    (ends : ∃ l, Follows next i l) (unlinked : ∀ q, next q ≠ some n) (different : m ≠ n)
    (notI : i ≠ n) (notJ : j ≠ n) : Reaches next i j := by
  obtain ⟨l, follows⟩ := ends
  obtain ⟨l', follows', member⟩ := h
  have fresh : n ∉ l := follows.not_mem_of_unlinked unlinked notI
  rw [follows'.deterministic (follows.linkBehind fresh different), List.mem_flatMap] at member
  obtain ⟨k, inside, same⟩ := member
  split at same
  next here =>
    simp only [List.mem_cons, List.not_mem_nil, or_false] at same
    exact ⟨l, follows, (same.resolve_right notJ).trans here.symm ▸ inside⟩
  next => exact ⟨l, follows, List.mem_singleton.mp same ▸ inside⟩

theorem Reaches.of_linkInstead (h : Reaches (Library.linkInstead next p m n) i j)
    (ends : ∃ l, Follows next i l) (unlinked : ∀ q, next q ≠ some n) (different : m ≠ n)
    (points : next p = some m) (only : ∀ q, next q = some m → q = p) (freshPoint : p ≠ n)
    (proper : p ≠ m) (notM : i ≠ m) (notN : i ≠ n) :
    (j = n ∧ Reaches next i m) ∨ (j ≠ n ∧ Reaches next i j) := by
  obtain ⟨l, follows⟩ := ends
  obtain ⟨l', follows', member⟩ := h
  have fresh : n ∉ l := follows.not_mem_of_unlinked unlinked notN
  have changed := follows.linkInstead fresh different points only freshPoint proper
  rw [if_neg notM] at changed
  rw [follows'.deterministic changed, List.mem_map] at member
  obtain ⟨k, inside, same⟩ := member
  by_cases here : k = m
  · rw [if_pos here] at same
    exact .inl ⟨same.symm, l, follows, here ▸ inside⟩
  · rw [if_neg here] at same
    rw [← same]
    exact .inr ⟨fun atN => fresh (atN ▸ inside), l, follows, inside⟩

end

end Lunatik.Library
