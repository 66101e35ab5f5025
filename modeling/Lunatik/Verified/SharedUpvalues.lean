import Lunatik.Verified.UpvalueLists

/-! # Upvalues are shared and closed

A local variable is a slot of the stack from one `luaF_close` of it to the next: that is its `Instance`.  In
`Locals` a closure refers to instances, and nothing is ever moved.  The thread in memory simulates it: an
open upvalue stands for the instance that is in its slot now, a closed one for the instance that it was
closed with, and no two for the same one.
-/

namespace Lunatik.Verified.SharedUpvalues

open Lunatik.Library Lunatik.Verified.UpvalueLists
open Lunatik.Lua (TValue extraStack setAt_same setAt_other)
open Lunatik.Lua.OpenUpval
open Lunatik.Lua.StringTable (whitebits)

/-! ## Local variables -/

/-- The slot, and how often it has been closed before. -/
structure Instance where
  slot : Nat
  closed : Nat
  deriving DecidableEq, Repr

structure Locals where
  size : Nat
  values : Instance → TValue
  closed : Nat → Nat
  refs : List (Option Instance)

namespace Locals

variable (a : Locals)

/-- The variable that is in the slot. -/
def current (k : Nat) : Instance := ⟨k, a.closed k⟩

def ref (r : Nat) : Option Instance := (a.refs[r]?).join

def read (r : Nat) : Option TValue := (a.ref r).map a.values

def put (i : Instance) (v : TValue) : Locals := { a with values := Function.update a.values i v }

-- the variables from the slot `k` on go out of scope; their values are still on the stack
def close (k : Nat) : Locals :=
  { a with
    values := fun i =>
      if k ≤ i.slot ∧ i.closed = a.closed i.slot + 1 then a.values (a.current i.slot) else a.values i
    closed := fun j => if k ≤ j then a.closed j + 1 else a.closed j }

-- the slots that have not been there before
def resize (size : Nat) (leftover : Nat → TValue) : Locals :=
  { a with
    size
    values := fun i =>
      if min a.size size ≤ i.slot ∧ i = a.current i.slot then leftover i.slot else a.values i }

def exec : Event → Locals
  | .assign k v => a.put (a.current k) v
  | .capture k _ => { a with refs := a.refs ++ [some (a.current k)] }
  | .copy r => { a with refs := a.refs ++ [a.ref r] }
  | .setupval r v _ =>
    match a.ref r with
    | some i => a.put i v
    | none => a
  | .drop r => { a with refs := a.refs.set r none }
  | .close k => a.close k
  | .realloc _ newsize leftover => a.resize (newsize + 1 + extraStack) leftover
  | .mark _ | .atomic | .sweepOpen | .sweepRoot _ _ | .gcstate _ => a

def start (size : Nat) (slots : Nat → TValue) : Locals where
  size
  values := fun i => slots i.slot
  closed := fun _ => 0
  refs := []

end Locals

/-! ## The simulation -/

/-- `inst` is the variable that each upvalue stands for. -/
structure Represents (g : Thread) (refs : List (Option Nat)) (a : Locals) (inst : Nat → Instance) : Prop where
  size : a.size = g.stacksize
  slots : ∀ k, a.values (a.current k) = g.slots k
  isOpen : ∀ uv ∈ g.openupval, ∀ k, OpenAt g uv k → inst uv = a.current k
  value : ∀ uv ∈ g.rootgc, a.values (inst uv) = (g.upvals uv).value
  past : ∀ uv ∈ g.rootgc, (inst uv).closed < a.closed (inst uv).slot
  apart : ∀ uv ∈ g.rootgc, ∀ uv' ∈ g.rootgc, inst uv = inst uv' → uv = uv'
  refs : a.refs = refs.map (Option.map inst)

section Values

variable {g g' : Thread} {refs : List (Option Nat)} {a : Locals} {inst : Nat → Instance} {uv k : Nat}
  {v : TValue}

@[simp] theorem current_inj {k' : Nat} : a.current k = a.current k' ↔ k = k' := by
  simp only [Locals.current, Instance.mk.injEq]
  constructor
  · exact fun same => same.1
  · rintro rfl
    exact ⟨rfl, rfl⟩

-- a variable that is out of scope is in no slot
theorem Represents.not_current (rep : Represents g refs a inst) (member : uv ∈ g.rootgc) :
    inst uv ≠ a.current k := by
  intro same
  have past := rep.past uv member
  rw [same] at past
  exact Nat.lt_irrefl _ past

theorem Represents.shrink (rep : Represents g refs a inst) (shrunk : Shrunk g g') :
    Represents g' refs a inst where
  size := by rw [rep.size, shrunk.stacksize]
  slots := by
    rw [shrunk.slots]
    exact rep.slots
  isOpen := by
    intro uv member k here
    rw [OpenAt, shrunk.v, Thread.slotAddr, shrunk.stack] at here
    exact rep.isOpen uv (shrunk.openupval uv member) k here
  value := by
    intro uv member
    rw [shrunk.value]
    exact rep.value uv (shrunk.rootgc uv member)
  past := fun uv member => rep.past uv (shrunk.rootgc uv member)
  apart := fun uv member uv' member' =>
    rep.apart uv (shrunk.rootgc uv member) uv' (shrunk.rootgc uv' member')
  refs := rep.refs

theorem Represents.assignSlot (rep : Represents g refs a inst) (k : Nat) (v : TValue) :
    Represents (g.assignSlot k v) refs (a.put (a.current k) v) inst where
  size := rep.size
  slots := by
    intro j
    simp only [Thread.assignSlot, Locals.put]
    by_cases same : j = k
    · rw [same, setAt_same]
      exact Function.update_self ..
    · rw [setAt_other _ _ same, ← rep.slots]
      exact Function.update_of_ne (by simpa [Locals.current] using fun same' => absurd same' same) _ _
  isOpen := rep.isOpen
  value := by
    intro uv member
    simp only [Locals.put]
    rw [Function.update_of_ne (rep.not_current member)]
    exact rep.value uv member
  past := rep.past
  apart := rep.apart
  refs := rep.refs

theorem Represents.assignOwn (rep : Represents g refs a inst) (member : uv ∈ g.rootgc) (v : TValue) :
    Represents (g.assignOwn uv v) refs (a.put (inst uv) v) inst where
  size := rep.size
  slots := by
    intro k
    simp only [Locals.put]
    rw [Function.update_of_ne]
    · exact rep.slots k
    · exact (rep.not_current member).symm
  isOpen := by
    intro uv' there k here
    rw [OpenAt, assignOwn_v] at here
    exact rep.isOpen uv' there k here
  value := by
    intro uv' there
    simp only [Locals.put]
    by_cases same : uv' = uv
    · rw [same, assignOwn_value, Function.update_self]
    · have ne : inst uv' ≠ inst uv := fun same' => same (rep.apart uv' there uv member same')
      rw [assignOwn_other same, Function.update_of_ne ne]
      exact rep.value uv' there
  past := rep.past
  apart := rep.apart
  refs := rep.refs

theorem Represents.setUpval (inv : OpenList g) (rep : Represents g refs a inst) (member : uv ∈ g.allocated)
    (v : TValue) (white : Bool) :
    Represents (g.setUpval uv v white) refs (a.put (inst uv) v) inst := by
  have barrier : ∀ {h : Thread}, Represents h refs (a.put (inst uv) v) inst →
      Represents (if white && h.isblack uv && !h.propagating then h.makewhite uv else h) refs
        (a.put (inst uv) v) inst := by
    intro h there
    split
    · exact there.shrink (Remarked.shrunk (remark_remarked ..))
    · exact there
  rw [Thread.setUpval]
  apply barrier
  cases List.mem_append.mp member with
  | inl isOpen =>
    obtain ⟨k, _, here⟩ := inv.inside uv isOpen
    rw [rep.isOpen uv isOpen k here]
    have assigned := rep.assignSlot k v
    rw [OpenAt] at here
    simp only [here, slotAt_slotAddr]
    exact assigned
  | inr closed =>
    have own := inv.closed uv closed
    simp only [own]
    exact rep.assignOwn closed v

end Values

/-! ## Scopes -/

section Scopes

variable {g g' : Thread} {refs : List (Option Nat)} {a : Locals} {inst : Nat → Instance} {uv k : Nat}

theorem close_current (a : Locals) (k j : Nat) :
    (a.close k).values ((a.close k).current j) = a.values (a.current j) := by
  simp only [Locals.close, Locals.current]
  by_cases high : k ≤ j
  · simp only [high, if_pos, and_self]
  · simp only [high, if_neg, false_and, not_false_eq_true]

theorem close_values {i : Instance} (past : i.closed ≤ a.closed i.slot) (k : Nat) :
    (a.close k).values i = a.values i := by
  simp only [Locals.close]
  rw [if_neg]
  rintro ⟨_, next⟩
  omega

theorem close_closed (k j : Nat) : a.closed j ≤ (a.close k).closed j := by
  simp only [Locals.close]
  split <;> omega

-- the variable of an upvalue that is closed now
theorem Represents.leaving (inv : OpenList g) (rep : Represents g refs a inst) (leaves : UpvalueLists.Leaves g k uv) :
    ∃ j, OpenAt g uv j ∧ k ≤ j ∧ inst uv = a.current j := by
  obtain ⟨member, high⟩ := leaves
  obtain ⟨j, _, here⟩ := inv.inside uv member
  rw [here.atOrAbove, decide_eq_true_eq] at high
  exact ⟨j, here, high, rep.isOpen uv member j here⟩

theorem Represents.close (inv : OpenList g) (rep : Represents g refs a inst) (closed : ClosedFrom k g g') :
    Represents g' refs (a.close k) inst where
  size := by
    rw [closed.stacksize]
    exact rep.size
  slots := by
    intro j
    rw [close_current, rep.slots, closed.slots]
  isOpen := by
    intro uv member j here
    rw [closed.openupval, List.mem_filter] at member
    obtain ⟨member, low⟩ := member
    have stays : ¬ (UpvalueLists.Leaves g k uv ∧ g.isdead uv = false) := by
      rintro ⟨⟨_, high⟩, _⟩
      rw [high] at low
      cases low
    rw [OpenAt, closed.others uv stays, Thread.slotAddr, closed.stack] at here
    have before : OpenAt g uv j := here
    rw [rep.isOpen uv member j before]
    rw [before.atOrAbove] at low
    simp only [Bool.not_eq_eq_eq_not, Bool.not_true, decide_eq_false_iff_not] at low
    simp only [Locals.current, Locals.close, if_neg low]
  value := by
    intro uv member
    cases (closed.rootgc uv).mp member with
    | inl old =>
      have stays : ¬ (UpvalueLists.Leaves g k uv ∧ g.isdead uv = false) := fun both => inv.apart both.1.1 old
      rw [close_values (rep.past uv old).le, closed.others uv stays]
      exact rep.value uv old
    | inr new =>
      obtain ⟨leaves, alive⟩ := new
      obtain ⟨j, here, _, same⟩ := rep.leaving inv leaves
      have now : (a.current j).closed ≤ a.closed (a.current j).slot := Nat.le_refl _
      rw [same, close_values now, (closed.taken uv leaves alive).2, here.deref, rep.slots]
  past := by
    intro uv member
    cases (closed.rootgc uv).mp member with
    | inl old => exact (rep.past uv old).trans_le (close_closed _ _)
    | inr new =>
      obtain ⟨j, _, high, same⟩ := rep.leaving inv new.1
      rw [same]
      simp only [Locals.current, Locals.close, if_pos high]
      exact Nat.lt_succ_self _
  apart := by
    intro uv member uv' member' same
    cases (closed.rootgc uv).mp member with
    | inl old =>
      cases (closed.rootgc uv').mp member' with
      | inl old' => exact rep.apart uv old uv' old' same
      | inr new =>
        obtain ⟨j, _, _, now⟩ := rep.leaving inv new.1
        exact absurd (same.trans now) (rep.not_current old)
    | inr new =>
      obtain ⟨j, here, _, now⟩ := rep.leaving inv new.1
      cases (closed.rootgc uv').mp member' with
      | inl old => exact absurd (same.symm.trans now) (rep.not_current old)
      | inr new' =>
        obtain ⟨j', here', _, now'⟩ := rep.leaving inv new'.1
        rw [now, now', current_inj] at same
        subst same
        exact inv.one new.1.1 new'.1.1 here here'
  refs := rep.refs

theorem Represents.realloc {leftover : Nat → TValue} (inv : OpenList g) (rep : Represents g refs a inst)
    (moved : Moved g g' leftover) : Represents g' refs (a.resize g'.stacksize leftover) inst where
  size := rfl
  slots := by
    intro k
    rw [moved.slots]
    have same : (a.resize g'.stacksize leftover).current k = a.current k := rfl
    rw [same]
    simp only [Locals.resize, rep.size]
    by_cases kept : k < min g.stacksize g'.stacksize
    · rw [if_pos kept, if_neg, rep.slots]
      rintro ⟨new, _⟩
      simp only [Locals.current] at new
      omega
    · rw [if_neg kept, if_pos]
      · rfl
      · exact ⟨Nat.le_of_not_lt kept, rfl⟩
  isOpen := by
    intro uv member k here
    rw [moved.openupval] at member
    exact rep.isOpen uv member k ((moved.openAt inv member).mp here)
  value := by
    intro uv member
    rw [moved.rootgc] at member
    rw [moved.others uv fun also => inv.apart also member, ← rep.value uv member]
    simp only [Locals.resize]
    rw [if_neg]
    rintro ⟨_, now⟩
    exact rep.not_current member now
  past := by
    rw [moved.rootgc]
    exact rep.past
  apart := by
    rw [moved.rootgc]
    exact rep.apart
  refs := rep.refs

/-! ## Captures -/

-- an upvalue that no closure has yet
theorem Represents.create (rep : Represents g refs a inst) (new : uv ∉ g.allocated)
    (held : ∀ p, some p ∈ refs → p ∈ g.allocated) :
    Represents (created g k uv) refs a (Function.update inst uv (a.current k)) where
  size := rep.size
  slots := rep.slots
  isOpen := by
    intro p member j here
    by_cases same : p = uv
    · subst same
      rw [Function.update_self, here.unique created_openAt]
    · have old : p ∈ g.openupval :=
        (List.mem_cons.mp ((linkOpen_perm _).mem_iff.mp member)).resolve_left same
      rw [Function.update_of_ne same]
      rw [OpenAt, created_other same] at here
      exact rep.isOpen p old j here
  value := by
    intro p member
    have ne : p ≠ uv := fun same => new (List.mem_append_right _ (same ▸ member))
    rw [Function.update_of_ne ne, created_other ne]
    exact rep.value p member
  past := by
    intro p member
    have ne : p ≠ uv := fun same => new (List.mem_append_right _ (same ▸ member))
    rw [Function.update_of_ne ne]
    exact rep.past p member
  apart := by
    intro p member p' member'
    have ne : p ≠ uv := fun same => new (List.mem_append_right _ (same ▸ member))
    have ne' : p' ≠ uv := fun same => new (List.mem_append_right _ (same ▸ member'))
    rw [Function.update_of_ne ne, Function.update_of_ne ne']
    exact rep.apart p member p' member'
  refs := by
    rw [rep.refs]
    apply List.map_congr_left
    intro ref member
    cases ref with
    | none => rfl
    | some p =>
      have ne : p ≠ uv := fun same => new (same ▸ held p member)
      simp only [Option.map_some, Function.update_of_ne ne]

theorem Represents.addRef (rep : Represents g refs a inst) (ref : Option Nat) :
    Represents g (refs ++ [ref]) { a with refs := a.refs ++ [ref.map inst] } inst where
  size := rep.size
  slots := rep.slots
  isOpen := rep.isOpen
  value := rep.value
  past := rep.past
  apart := rep.apart
  refs := by
    rw [List.map_append, rep.refs]
    rfl

theorem Represents.dropRef (rep : Represents g refs a inst) (r : Nat) :
    Represents g (refs.set r none) { a with refs := a.refs.set r none } inst where
  size := rep.size
  slots := rep.slots
  isOpen := rep.isOpen
  value := rep.value
  past := rep.past
  apart := rep.apart
  refs := by
    rw [List.map_set, rep.refs]
    rfl

end Scopes

/-! ## Runs -/

/-- What holds of a program, and the local variables it has. -/
structure Sound (s : Program) (a : Locals) : Prop where
  lists : OpenList s.thread
  held : ∀ uv, some uv ∈ s.refs → uv ∈ s.thread.allocated ∧ s.thread.isdead uv = false
  represents : ∃ inst, Represents s.thread s.refs a inst

section Runs

variable {s : Program} {a : Locals} {r uv : Nat}

theorem ref_mem (found : s.ref r = some uv) : some uv ∈ s.refs := by
  rw [Program.ref, Option.join_eq_some_iff] at found
  exact List.mem_of_getElem? found

theorem Represents.ref {inst : Nat → Instance} (rep : Represents s.thread s.refs a inst) (r : Nat) :
    a.ref r = (s.ref r).map inst := by
  rw [Locals.ref, Program.ref, rep.refs, List.getElem?_map]
  cases s.refs[r]? with
  | none => rfl
  | some ref => rfl

theorem Represents.read {inst : Nat → Instance} (lists : OpenList s.thread)
    (rep : Represents s.thread s.refs a inst) (member : uv ∈ s.thread.allocated) :
    s.thread.deref uv = a.values (inst uv) := by
  cases List.mem_append.mp member with
  | inl isOpen =>
    obtain ⟨k, _, here⟩ := lists.inside uv isOpen
    rw [here.deref, rep.isOpen uv isOpen k here, rep.slots]
  | inr closed =>
    simp only [Thread.deref, lists.closed uv closed]
    exact (rep.value uv closed).symm

theorem Sound.collect {g : Thread} (sound : Sound s a) (collected : Collected s.thread g) :
    Sound { s with thread := g } a := by
  obtain ⟨inst, rep⟩ := sound.represents
  refine ⟨collected.openList, ?_, inst, rep.shrink collected.shrunk⟩
  intro uv member
  obtain ⟨there, alive⟩ := sound.held uv member
  exact collected.kept uv there alive

theorem Sound.capture (sound : Sound s a) {k new : Nat} (below : k < s.thread.stacksize)
    (free : new ∉ s.thread.allocated) : Sound (s.exec (.capture k new)) (a.exec (.capture k new)) := by
  obtain ⟨inst, rep⟩ := sound.represents
  have cases' := luaFFindupval_cases (k := k) sound.lists (some new)
  simp only [Program.exec, Locals.exec]
  cases cases' with
  | inl found =>
    obtain ⟨p, member, here, result⟩ := found
    rw [result]
    have same : Remarked s.thread (if s.thread.isdead p then s.thread.changewhite p else s.thread) := by
      split
      · exact remark_remarked ..
      · exact Remarked.refl _
    have alive : KeepsAlive s.thread (if s.thread.isdead p then s.thread.changewhite p else s.thread) ∧
        (if s.thread.isdead p then s.thread.changewhite p else s.thread).isdead p = false := by
      split
      next dead => exact changewhite_keepsAlive sound.lists.white dead
      next dead => exact ⟨fun _ alive => alive, by simpa using dead⟩
    refine ⟨same.openList sound.lists ?_, ?_, inst, ?_⟩
    · split
      · exact sound.lists.white
      · exact sound.lists.white
    · intro uv held
      dsimp only
      rw [Thread.allocated, same.openupval, same.rootgc]
      cases List.mem_append.mp held with
      | inl old =>
        obtain ⟨there, living⟩ := sound.held uv old
        exact ⟨there, alive.1 uv living⟩
      | inr added =>
        obtain rfl : uv = p := by simpa using added
        exact ⟨List.mem_append_left _ member, alive.2⟩
    · have added := (rep.shrink same.shrunk).addRef (some p)
      rw [Option.map_some, rep.isOpen p member k here] at added
      exact added
  | inr missing =>
    obtain ⟨absent, result⟩ := missing
    rw [result]
    have held : ∀ p, some p ∈ s.refs → p ∈ s.thread.allocated := fun p member => (sound.held p member).1
    refine ⟨sound.lists.create below free absent, ?_, Function.update inst new (a.current k), ?_⟩
    · intro uv member
      have perm : (created s.thread k new).allocated.Perm (new :: s.thread.allocated) :=
        (linkOpen_perm _).append_right _
      cases List.mem_append.mp member with
      | inl old =>
        obtain ⟨there, alive⟩ := sound.held uv old
        have ne : uv ≠ new := fun same => free (same ▸ there)
        refine ⟨perm.mem_iff.mpr (List.mem_cons_of_mem _ there), ?_⟩
        rw [created_keepsAlive ne]
        exact alive
      | inr added =>
        obtain rfl : uv = new := by simpa using added
        exact ⟨perm.mem_iff.mpr List.mem_cons_self, created_isdead sound.lists.white⟩
    · have added := (rep.create (k := k) free held).addRef (some new)
      rw [Option.map_some, Function.update_self] at added
      exact added

theorem Sound.close (sound : Sound s a) (k : Nat) :
    Sound (s.exec (.close k)) (a.exec (.close k)) := by
  obtain ⟨inst, rep⟩ := sound.represents
  have closed := luaFClose_closes sound.lists k
  refine ⟨closed.openList, ?_, inst, rep.close sound.lists closed⟩
  intro uv member
  obtain ⟨there, alive⟩ := sound.held uv member
  refine ⟨?_, closed.alive uv alive⟩
  simp only [Program.exec]
  cases List.mem_append.mp there with
  | inl isOpen =>
    by_cases high : s.thread.atOrAbove (s.thread.slotAddr k) uv
    · exact List.mem_append_right _ ((closed.rootgc uv).mpr (.inr ⟨⟨isOpen, high⟩, alive⟩))
    · apply List.mem_append_left
      rw [closed.openupval, List.mem_filter]
      exact ⟨isOpen, by simpa using high⟩
  | inr old => exact List.mem_append_right _ ((closed.rootgc uv).mpr (.inl old))

theorem Sound.realloc (sound : Sound s a) {address newsize : Nat} {leftover : Nat → TValue}
    (ready : s.ready (.realloc address newsize leftover) = true) :
    Sound (s.exec (.realloc address newsize leftover)) (a.exec (.realloc address newsize leftover)) := by
  obtain ⟨inst, rep⟩ := sound.represents
  have moved := luaDReallocstack_moves sound.lists address newsize leftover
  have room : ∀ uv ∈ s.thread.openupval, ∀ k, OpenAt s.thread uv k → k < newsize + 1 + extraStack := by
    intro uv member k here
    have low := List.all_eq_true.mp ready uv member
    rw [here.atOrAbove] at low
    simpa using low
  refine ⟨moved.openList sound.lists room, ?_, inst, rep.realloc sound.lists moved⟩
  intro uv member
  obtain ⟨there, alive⟩ := sound.held uv member
  exact ⟨there, (isdead_congr moved.white (moved.marked uv)).trans alive⟩

theorem Sound.setupval (sound : Sound s a) (r : Nat) (v : TValue) (white : Bool) :
    Sound (s.exec (.setupval r v white)) (a.exec (.setupval r v white)) := by
  obtain ⟨inst, rep⟩ := sound.represents
  simp only [Program.exec, Locals.exec]
  rw [rep.ref r]
  cases found : s.ref r with
  | none => exact sound
  | some uv =>
    have member := (sound.held uv (ref_mem found)).1
    have assigned := setUpval_assigned sound.lists.white uv v white
    have white' : White (s.thread.setUpval uv v white) := by
      rw [White, assigned.white]
      exact sound.lists.white
    refine ⟨assigned.openList sound.lists white', ?_, inst, rep.setUpval sound.lists member v white⟩
    intro p there
    dsimp only
    rw [Thread.allocated, assigned.openupval, assigned.rootgc]
    obtain ⟨place, living⟩ := sound.held p there
    exact ⟨place, assigned.alive p living⟩

theorem Sound.atomic (sound : Sound s a) (ready : s.ready .atomic = true) :
    Sound (s.exec .atomic) (a.exec .atomic) := by
  obtain ⟨inst, rep⟩ := sound.represents
  have same : Remarked s.thread { s.thread with currentwhite := s.thread.otherwhite } :=
    ⟨⟨rfl, rfl, rfl, rfl, rfl, fun _ => rfl⟩, rfl, fun _ => rfl⟩
  refine ⟨same.openList sound.lists ?_, ?_, inst, rep.shrink same.shrunk⟩
  · simp only [White, Thread.otherwhite]
    cases sound.lists.white with
    | inl white => rw [white]; decide
    | inr white => rw [white]; decide
  · intro uv member
    refine ⟨(sound.held uv member).1, ?_⟩
    have marked := List.all_eq_true.mp ready (some uv) member
    have gray : (s.thread.upvals uv).marked &&& whitebits = 0 := by
      simpa [Thread.iswhite] using marked
    have bits := atomic_bits sound.lists.white _ gray
    simp only [Program.exec, Thread.isdead, Thread.otherwhite] at bits ⊢
    exact bne_eq_false_iff_eq.mpr bits

theorem Sound.assign (sound : Sound s a) (k : Nat) (v : TValue) :
    Sound (s.exec (.assign k v)) (a.exec (.assign k v)) := by
  obtain ⟨inst, rep⟩ := sound.represents
  have same : SameLists s.thread (s.thread.assignSlot k v) :=
    ⟨rfl, rfl, rfl, rfl, rfl, fun _ => rfl⟩
  exact ⟨same.openList sound.lists sound.lists.white, sound.held, inst, rep.assignSlot k v⟩

theorem Sound.addRef (sound : Sound s a) (r : Nat) : Sound (s.exec (.copy r)) (a.exec (.copy r)) := by
  obtain ⟨inst, rep⟩ := sound.represents
  refine ⟨sound.lists, ?_, inst, ?_⟩
  · intro uv member
    cases List.mem_append.mp member with
    | inl old => exact sound.held uv old
    | inr copied =>
      have found : s.ref r = some uv := (List.mem_singleton.mp copied).symm
      exact sound.held uv (ref_mem found)
  · have added := rep.addRef (s.ref r)
    rw [← rep.ref r] at added
    exact added

theorem Sound.drop (sound : Sound s a) (r : Nat) : Sound (s.exec (.drop r)) (a.exec (.drop r)) := by
  obtain ⟨inst, rep⟩ := sound.represents
  refine ⟨sound.lists, ?_, inst, rep.dropRef r⟩
  intro uv member
  cases List.mem_or_eq_of_mem_set member with
  | inl old => exact sound.held uv old
  | inr none => cases none

theorem sound_step {s' : Program} {e : Event} (sound : Sound s a) (stepped : program.step s e = some s') :
    Sound s' (a.exec e) := by
  simp only [program, Option.ite_none_right_eq_some, Option.some.injEq] at stepped
  obtain ⟨ready, rfl⟩ := stepped
  cases e with
  | assign k v => exact sound.assign k v
  | capture k new =>
    simp only [Program.ready, Bool.and_eq_true, decide_eq_true_eq] at ready
    exact sound.capture ready.1 ready.2
  | copy r => exact sound.addRef r
  | setupval r v white => exact sound.setupval r v white
  | drop r => exact sound.drop r
  | close k => exact sound.close k
  | realloc => exact sound.realloc ready
  | mark uv => exact sound.collect (markUpval_collected sound.lists uv)
  | atomic => exact sound.atomic ready
  | sweepOpen => exact sound.collect (sweepOpen_collected sound.lists)
  | sweepRoot skip count => exact sound.collect (sweepRoot_collected sound.lists skip count)
  | gcstate propagating =>
    obtain ⟨inst, rep⟩ := sound.represents
    have same : Remarked s.thread { s.thread with propagating } :=
      ⟨⟨rfl, rfl, rfl, rfl, rfl, fun _ => rfl⟩, rfl, fun _ => rfl⟩
    exact ⟨same.openList sound.lists sound.lists.white, sound.held, inst, rep.shrink same.shrunk⟩

theorem sound_run {s' : Program} {events : List Event} (sound : Sound s a)
    (ran : program.run s events = some s') : Sound s' (events.foldl Locals.exec a) := by
  induction events generalizing s a with
  | nil =>
    cases ran
    exact sound
  | cons e rest ih =>
    obtain ⟨t, stepped, later⟩ := program.run_cons_inv ran
    exact ih (sound_step sound stepped) later

theorem start_sound (stack stacksize : Nat) (slots : Nat → TValue) :
    Sound (start stack stacksize slots) (Locals.start stacksize slots) where
  lists := by
    have ring : (start stack stacksize slots).thread.ring.Around none [] := ⟨rfl, rfl⟩
    exact ⟨by simp [start], List.Pairwise.nil, by simp [start], List.nodup_nil,
      ⟨[], List.Perm.refl _, ring⟩, .inl rfl⟩
  held := by simp [start]
  represents := by
    refine ⟨fun _ => ⟨0, 0⟩, rfl, fun _ => rfl, ?_, ?_, ?_, ?_, rfl⟩ <;> simp [start]

/-! ## Results -/

/-- `luaF_findupval` returns the upvalue of the slot, which is a new one only if there was none. -/
structure FindsOne (g : Thread) (k new : Nat) : Prop where
  existing : ∀ uv ∈ g.openupval, OpenAt g uv k →
    (g.luaFFindupval (g.slotAddr k) (some new)).1 = some uv ∧
      (g.luaFFindupval (g.slotAddr k) (some new)).2.openupval = g.openupval
  fresh : (∀ uv ∈ g.openupval, ¬ OpenAt g uv k) →
    (g.luaFFindupval (g.slotAddr k) (some new)).1 = some new
  found : ∃ uv ∈ (g.luaFFindupval (g.slotAddr k) (some new)).2.openupval,
    (g.luaFFindupval (g.slotAddr k) (some new)).1 = some uv ∧
      OpenAt (g.luaFFindupval (g.slotAddr k) (some new)).2 uv k ∧
      (g.luaFFindupval (g.slotAddr k) (some new)).2.isdead uv = false

/-- The closures read the values of the variables that they have captured, and two of the same variable
have the same upvalue. -/
structure Shares (s : Program) (a : Locals) : Prop where
  read : ∀ r, s.read r = a.read r
  slots : ∀ k, s.thread.slots k = a.values (a.current k)
  same : ∀ r r' i, a.ref r = some i → a.ref r' = some i → s.ref r = s.ref r'

theorem Sound.shares (sound : Sound s a) : Shares s a := by
  obtain ⟨inst, rep⟩ := sound.represents
  refine ⟨?_, fun k => (rep.slots k).symm, ?_⟩
  · intro r
    rw [Program.read, Locals.read, rep.ref r]
    cases found : s.ref r with
    | none => rfl
    | some uv =>
      have member := (sound.held uv (ref_mem found)).1
      simp only [Option.map_some, Option.some.injEq]
      exact rep.read sound.lists member
  · intro r r' i here here'
    rw [rep.ref, Option.map_eq_some_iff] at here here'
    obtain ⟨uv, found, isI⟩ := here
    obtain ⟨uv', found', isI'⟩ := here'
    rw [found, found']
    congr 1
    have same := isI.trans isI'.symm
    cases List.mem_append.mp (sound.held uv (ref_mem found)).1 with
    | inl isOpen =>
      obtain ⟨k, _, at'⟩ := sound.lists.inside uv isOpen
      rw [rep.isOpen uv isOpen k at'] at same
      cases List.mem_append.mp (sound.held uv' (ref_mem found')).1 with
      | inl isOpen' =>
        obtain ⟨k', _, there⟩ := sound.lists.inside uv' isOpen'
        rw [rep.isOpen uv' isOpen' k' there, current_inj] at same
        subst same
        exact sound.lists.one isOpen isOpen' at' there
      | inr closed' => exact absurd same.symm (rep.not_current closed')
    | inr closed =>
      cases List.mem_append.mp (sound.held uv' (ref_mem found')).1 with
      | inl isOpen' =>
        obtain ⟨k', _, there⟩ := sound.lists.inside uv' isOpen'
        rw [rep.isOpen uv' isOpen' k' there] at same
        exact absurd same (rep.not_current closed)
      | inr closed' => exact rep.apart uv closed uv' closed' same

theorem luaFFindupval_findsOne {g : Thread} {k new : Nat} (inv : OpenList g) : FindsOne g k new := by
  have cases' := luaFFindupval_cases (k := k) inv (some new)
  cases cases' with
  | inl result =>
    obtain ⟨p, member, here, result⟩ := result
    have same : Remarked g (if g.isdead p then g.changewhite p else g) := by
      split
      · exact remark_remarked ..
      · exact Remarked.refl _
    refine ⟨?_, fun absent => absurd here (absent p member), p, ?_, ?_⟩
    · intro uv there at'
      rw [result, inv.one there member at' here]
      exact ⟨rfl, same.openupval⟩
    · rw [result]
      exact same.openupval ▸ member
    · rw [result]
      refine ⟨rfl, same.openAt.mpr here, ?_⟩
      dsimp only
      split
      next dead => exact (changewhite_keepsAlive inv.white dead).2
      next dead => simpa using dead
  | inr missing =>
    obtain ⟨absent, result⟩ := missing
    refine ⟨fun uv member here => absurd here (absent uv member), fun _ => by rw [result], new, ?_⟩
    rw [result]
    exact ⟨(linkOpen_perm _).mem_iff.mpr List.mem_cons_self, rfl, created_openAt,
      created_isdead inv.white⟩

/-- In every run the lists are in order, `luaF_findupval` finds the upvalue of a slot, `luaF_close` closes
those at a level and above it, and the closures share their variables. -/
theorem upvalues_are_shared (stack stacksize : Nat) (slots : Nat → TValue) {events : List Event}
    {s : Program} (ran : program.run (start stack stacksize slots) events = some s) :
    OpenList s.thread ∧
      (∀ k new, FindsOne s.thread k new) ∧
      (∀ k, ClosedFrom k s.thread (s.thread.luaFClose (s.thread.slotAddr k))) ∧
      Shares s (events.foldl Locals.exec (Locals.start stacksize slots)) := by
  have sound := sound_run (start_sound stack stacksize slots) ran
  exact ⟨sound.lists, fun k new => luaFFindupval_findsOne sound.lists,
    fun k => luaFClose_closes sound.lists k, sound.shares⟩

-- one closure assigns to a local, it is closed on another stack, and another closure assigns to it
def sharing : List Event :=
  [.assign 0 (.boolean 1), .capture 0 7, .capture 0 8, .setupval 0 (.boolean 2) false,
    .realloc 4096 20 fun _ => .nil, .close 0, .assign 0 .nil, .setupval 1 (.boolean 3) false]

theorem sharing_shares :
    ∃ s, program.run (start 0 10 fun _ => .nil) sharing = some s ∧ s.read 0 = some (.boolean 3) := by
  refine ⟨_, rfl, ?_⟩
  have ran : program.run (start 0 10 fun _ => .nil) sharing = some _ := rfl
  have shared := (upvalues_are_shared 0 10 (fun _ => .nil) ran).2.2.2
  rw [shared.read]
  rfl

/-- An upvalue that no closure has is freed when it is closed, and gets no value. -/
theorem dead_upvalue_is_freed :
    ∃ s, program.run (start 0 10 fun _ => .nil) [.capture 0 7, .drop 0, .atomic] = some s ∧
      7 ∈ s.thread.openupval ∧ 7 ∉ (s.thread.luaFClose (s.thread.slotAddr 0)).allocated ∧
      ((s.thread.luaFClose (s.thread.slotAddr 0)).upvals 7).v ≠ .own :=
  ⟨_, rfl, by decide, by decide, by decide⟩

end Runs

end Lunatik.Verified.SharedUpvalues
