import Lunatik.Library.StateRuns
import Lunatik.Verified.TableStores

/-! # Resizing a table

`resize` empties the hash part and then stores what was there, and what leaves the array part, again.
`Unstored` relates such a table to the one it comes from: a key has its old value already, or it is
among those that are still to be stored.
-/

namespace Lunatik.Verified

open Lunatik.Lua (TValue LuaNumber luaiNumeq luaiNumisnan)
open Lunatik.Lua.Ltable Lunatik.Library

variable {address : TValue → Nat} {t t' : Rep} {key : TValue} {slot : Slot}
    {grow : TValue → TableM Slot}

/-! ## Storing again -/

structure Unstored (address : TValue → Nat) (old : TValue → TValue) (ps : List Node) (t : Rep) :
    Prop where
  inv : TableInv address t
  values : ∀ n ∈ ps, n.val ≠ .nil → n.key ≠ .nil ∧ old n.key = n.val
  covered : ∀ k, contents address t k = old k ∨ ∃ n ∈ ps, n.val ≠ .nil ∧ n.key = k

def pendingKeys (ps : List Node) : List TValue := (ps.filter fun n => n.val ≠ .nil).map Node.key

theorem pendingKeys_cons_nil {n : Node} (unused : n.val = .nil) (ps : List Node) :
    pendingKeys (n :: ps) = pendingKeys ps := by
  rw [pendingKeys, List.filter_cons_of_neg (by simpa using unused), pendingKeys]

theorem pendingKeys_cons {n : Node} (used : n.val ≠ .nil) (ps : List Node) :
    pendingKeys (n :: ps) = n.key :: pendingKeys ps := by
  rw [pendingKeys, List.filter_cons_of_pos (by simpa using used), pendingKeys, List.map_cons]

namespace Unstored

variable {old : TValue → TValue} {n : Node} {ps : List Node}

theorem skip (pending : Unstored address old (n :: ps) t) (unused : n.val = .nil) :
    Unstored address old ps t := by
  refine ⟨pending.inv, fun m member => pending.values m (List.mem_cons_of_mem n member),
    fun k => ?_⟩
  rcases pending.covered k with done | ⟨m, member, used, holds⟩
  · exact .inl done
  · rcases List.mem_cons.mp member with rfl | later
    · exact absurd unused used
    · exact .inr ⟨m, later, used, holds⟩

theorem store (pending : Unstored address old (n :: ps) t) (used : n.val ≠ .nil)
    (ready : SlotReady address t n.key slot t') :
    Unstored address old ps (t'.setSlot slot n.val) := by
  obtain ⟨inv', contents'⟩ := ready.inv.setSlot ready.found n.val
  rw [ready.contents] at contents'
  refine ⟨inv', fun m member => pending.values m (List.mem_cons_of_mem n member), fun k => ?_⟩
  rw [contents']
  by_cases same : k = n.key
  · rw [same, Function.update_self]
    exact .inl (pending.values n List.mem_cons_self used).2.symm
  · rw [Function.update_of_ne same]
    rcases pending.covered k with done | ⟨m, member, used', holds⟩
    · exact .inl done
    · rcases List.mem_cons.mp member with rfl | later
      · exact absurd holds.symm same
      · exact .inr ⟨m, later, used', holds⟩

theorem contents_eq (pending : Unstored address old [] t) : contents address t = old := by
  funext k
  rcases pending.covered k with done | ⟨m, member, -⟩
  · exact done
  · cases member

end Unstored

theorem reinsertNodes_skip {n : Node} (unused : n.val = .nil) (ps : List Node) :
    reinsertNodes address grow (n :: ps) t = reinsertNodes address grow ps t := by
  rw [reinsertNodes, if_neg (not_not.mpr unused)]

theorem reinsertNodes_store {n : Node} (used : n.val ≠ .nil) (ps : List Node)
    (result : luaHSet address grow n.key t = .ok slot t') :
    reinsertNodes address grow (n :: ps) t =
      reinsertNodes address grow ps (t'.setSlot slot n.val) := by
  rw [reinsertNodes, if_pos used]
  simp only [bind, EStateM.bind, result]
  rfl

/-- The loop over the old nodes, where `Ok` says that the slots for the rest can be made. -/
theorem reinsertNodes_spec (address : TValue → Nat) (grow : TValue → TableM Slot)
    (Ok : Rep → List Node → Prop) (set : ∀ t n ps, TableInv address t → Ok t (n :: ps) →
      n.val ≠ .nil → n.key ≠ .nil →
      ∃ slot t', luaHSet address grow n.key t = .ok slot t' ∧ SlotReady address t n.key slot t' ∧
        Ok (t'.setSlot slot n.val) ps)
    (skip : ∀ t n ps, Ok t (n :: ps) → n.val = .nil → Ok t ps)
    {old : TValue → TValue} (ps : List Node) (t : Rep) (pending : Unstored address old ps t)
    (ok : Ok t ps) :
    ∃ t', reinsertNodes address grow ps t = .ok () t' ∧ TableInv address t' ∧
      contents address t' = old ∧ Ok t' [] := by
  induction ps generalizing t with
  | nil => exact ⟨t, rfl, pending.inv, pending.contents_eq, ok⟩
  | cons n ps ih =>
    by_cases unused : n.val = .nil
    · rw [reinsertNodes_skip unused]
      exact ih t (pending.skip unused) (skip t n ps ok unused)
    · have proper := (pending.values n List.mem_cons_self unused).1
      obtain ⟨slot, t', result, ready, ok'⟩ := set t n ps pending.inv ok unused proper
      rw [reinsertNodes_store unused ps result]
      exact ih _ (pending.store unused ready) ok'

theorem setSlot_room {size n : Nat} (space : RoomFor size n t) (slot : Slot) (v : TValue) :
    RoomFor size n (t.setSlot slot v) := by
  cases slot with
  | array i => exact ⟨space.sizearray, space.used⟩
  | node i =>
    refine ⟨space.sizearray, ?_⟩
    have used : usedNodes (t.setSlot (.node i) v) = usedNodes t := by
      refine List.countP_congr fun j _ => ?_
      by_cases same : j = i
      · simp [same, Rep.setSlot, Rep.setNode]
      · simp [Rep.setSlot, Rep.setNode, same]
    rw [used]
    exact space.used

/-- With a node for every old node, the table does not grow again. -/
theorem reinsertNodes_room {old : TValue → TValue} {size n : Nat} {ps : List Node}
    (pending : Unstored address old ps t) (space : RoomFor size
      (hashedKeys size (pendingKeys ps) + n) t)
    (grow : TValue → TableM Slot) :
    ∃ t', reinsertNodes address grow ps t = .ok () t' ∧ TableInv address t' ∧
      contents address t' = old ∧
      RoomFor size n t' := by
  have ends : hashedKeys size (pendingKeys []) + n = n := Nat.zero_add n
  have run := reinsertNodes_spec address grow (fun t ps =>
    RoomFor size (hashedKeys size (pendingKeys ps) + n) t) ?set ?skip
    ps t pending space
  · rw [ends] at run
    exact run
  case set =>
    intro t m ps inv space used proper
    rw [pendingKeys_cons used, hashedKeys_cons, Nat.add_assoc] at space
    obtain ⟨slot, t', result, ready, -, space'⟩ := inv.luaHSet_room proper space grow
    exact ⟨slot, t', result, ready, setSlot_room space' slot _⟩
  case skip =>
    intro t m ps space unused
    rw [pendingKeys_cons_nil unused] at space
    exact space

/-! ## The vanishing slice -/

-- an element of the array as a node
def sliceNode (array : Nat → TValue) (i : Nat) : Node := ⟨array i, arrayKey i, none⟩

theorem reinsertSlice_skip {i : Nat} (unused : t.array i = .nil) (slice : List Nat) :
    reinsertSlice address grow (i :: slice) t = reinsertSlice address grow slice t := by
  rw [reinsertSlice]
  simp only [bind_run, get_run,
    if_neg (not_not.mpr unused)]

theorem reinsertSlice_used {i : Nat} (used : t.array i ≠ .nil) (slice : List Nat) :
    reinsertSlice address grow (i :: slice) t =
      match luaHSetnum address grow (i + 1) t with
      | .error e u => .error e u
      | .ok slot u =>
        if u.arrayBlock ≠ t.arrayBlock then .error .staleArray u
        else reinsertSlice address grow slice (u.setSlot slot (u.array i)) := by
  rw [reinsertSlice]
  simp only [bind_run, get_run, if_pos used]
  cases luaHSetnum address grow (i + 1) t with
  | error e u => rfl
  | ok slot u =>
    dsimp only
    split <;> rfl

-- the index as a key
theorem luaHSetnum_arrayKey {i : Nat} (small : i < 2 ^ 31 - 1) :
    luaHSetnum address grow (i + 1) = luaHSet address grow (arrayKey i) :=
  luaHSetnum_eq (by omega) (by omega) grow

theorem reinsertSlice_next {i : Nat} (used : t.array i ≠ .nil) (small : i < 2 ^ 31 - 1)
    (slice : List Nat) (result : luaHSet address grow (arrayKey i) t = .ok slot t')
    (block : t'.arrayBlock = t.arrayBlock) :
    reinsertSlice address grow (i :: slice) t =
      reinsertSlice address grow slice (t'.setSlot slot (t'.array i)) := by
  rw [reinsertSlice_used used, luaHSetnum_arrayKey small, result]
  exact if_neg (not_not.mpr block)

theorem reinsertSlice_store {i : Nat} (used : t.array i ≠ .nil) (small : i < 2 ^ 31 - 1)
    (slice : List Nat) (result : luaHSet address grow (arrayKey i) t = .ok slot t')
    (shape : SameShape t t') :
    reinsertSlice address grow (i :: slice) t =
      reinsertSlice address grow slice (t'.setSlot slot (t.array i)) := by
  rw [reinsertSlice_next used small slice result shape.arrayBlock, shape.array]

-- while the nodes suffice, the array is not touched
theorem reinsertSlice_room {old : TValue → TValue} {size n : Nat} {ps : List Node}
    (slice : List Nat) (t : Rep) (outside : ∀ i ∈ slice, size ≤ i ∧ i < 2 ^ 31 - 1)
    (pending : Unstored address old (slice.map (sliceNode t.array) ++ ps) t)
    (space : RoomFor size (hashedKeys size (pendingKeys (slice.map (sliceNode t.array))) + n) t)
    (grow : TValue → TableM Slot) :
    ∃ t', reinsertSlice address grow slice t = .ok () t' ∧ Unstored address old ps t' ∧
      RoomFor size n t' := by
  induction slice generalizing t with
  | nil => exact ⟨t, rfl, pending, by rw [← Nat.zero_add n]; exact space⟩
  | cons i slice ih =>
    have later : ∀ j ∈ slice, size ≤ j ∧ j < 2 ^ 31 - 1 :=
      fun j member => outside j (List.mem_cons_of_mem i member)
    rw [List.map_cons] at space pending
    by_cases unused : t.array i = .nil
    · rw [reinsertSlice_skip unused]
      rw [pendingKeys_cons_nil unused] at space
      exact ih t later (pending.skip unused) space
    · obtain ⟨low, high⟩ := outside i List.mem_cons_self
      have filled : (sliceNode t.array i).val ≠ .nil := unused
      rw [pendingKeys_cons filled, hashedKeys_cons, Nat.add_assoc] at space
      obtain ⟨slot, t', result, ready, shape, space'⟩ :=
        pending.inv.luaHSet_room (arrayKey_ne_nil i) space grow
      have hashed : ¬ InArray t' (arrayKey i) := by
        rw [InArray, shape.sizearray, space.sizearray, arrayindex_arrayKey high]
        omega
      obtain ⟨j, rfl⟩ := ready.inv.slot_of_hashed (arrayKey_ne_nil i) hashed ready.found
      have arrays : (t'.setSlot (.node j) (t.array i)).array = t.array := shape.array
      have rest : Unstored address old (slice.map (sliceNode t.array) ++ ps)
        (t'.setSlot (.node j) (t.array i)) :=
        pending.store filled ready
      rw [reinsertSlice_store unused high slice result shape]
      apply ih _ later
      · rw [arrays]
        exact rest
      · rw [arrays]
        exact setSlot_room space' _ _

/-! ## Empty nodes -/

/-- The table with all nodes free, for this many keys. -/
def withNodes (t : Rep) (size : Nat) : Rep :=
  if size = 0 then { t with node := fun _ => freeNode, lsizenode := 0, isDummy := true, lastfree := 0 }
  else { t with node := fun _ => freeNode, lsizenode := ceillog2 size, isDummy := false, lastfree := 2 ^ ceillog2 size }

theorem setnodevector_ok {size : Nat} (fits : size ≤ maxasize) :
    setnodevector size t = .ok () (withNodes t size) := by
  rw [setnodevector, withNodes]
  by_cases none : size = 0
  · rw [if_pos none, if_pos none]
    rfl
  · have bits : ¬ maxbits < ceillog2 size := Nat.not_lt.mpr (ceillog2_le_maxbits (by omega) fits)
    rw [if_neg none, if_neg none, if_neg bits]
    rfl

/-- `t'` has the elements of `t` up to `size` in its array, and nothing else. -/
structure Cleared (t : Rep) (size : Nat) (t' : Rep) : Prop where
  node : t'.node = fun _ => freeNode
  sizearray : t'.sizearray = size
  kept : ∀ i, i < size → t'.array i = if i < t.sizearray then t.array i else .nil
  bits : t'.lsizenode ≤ maxbits
  lastfree : t'.lastfree = room t'
  dummy : t'.isDummy = true → t'.lsizenode = 0

theorem withNodes_cleared {size n : Nat} {u : Rep} (fits : n ≤ maxasize)
    (sizearray : u.sizearray = size) (kept : ∀ i, i < size → u.array i = if i < t.sizearray then
      t.array i else .nil) :
    Cleared t size (withNodes u n) ∧ n ≤ room (withNodes u n) := by
  rw [withNodes]
  by_cases none : n = 0
  · rw [if_pos none]
    exact ⟨⟨rfl, sizearray, kept, Nat.zero_le _, rfl, fun _ => rfl⟩, by omega⟩
  · rw [if_neg none]
    have bits : ceillog2 n ≤ maxbits := ceillog2_le_maxbits (by omega) fits
    exact ⟨⟨rfl, sizearray, kept, bits, rfl, fun impossible => by
      cases impossible⟩, le_two_pow_ceillog2 (by omega)⟩

namespace Cleared

variable {size : Nat}

theorem inv (cleared : Cleared t size t') (small : size < 2 ^ 31) : TableInv address t' := by
  have free : ∀ i, t'.node i = freeNode := fun i => congrFun cleared.node i
  have room_le : room t' ≤ t'.sizenode := by
    rw [room]
    split <;> omega
  refine ⟨⟨?_, fun i _ => free i, fun i _ => free i, ?_, ?_, ?_⟩, ?_, cleared.bits⟩
  · refine Scatter.empty (fun i => ?_) fun i => ?_
    · rw [keyAt_eq_none, free]
      rfl
    · rw [nextOf, free]
      rfl
  · intro i used
    rw [free] at used
    exact absurd rfl used
  · refine ⟨by rw [cleared.lastfree]; exact room_le, fun real i low high => ?_⟩
    rw [cleared.lastfree, room, real] at low
    exact absurd high (Nat.not_lt.mpr low)
  · intro isDummy
    refine ⟨cleared.dummy isDummy, free 0, ?_⟩
    rw [cleared.lastfree, room, if_pos isDummy]
  · rw [cleared.sizearray]
    exact small

theorem used (cleared : Cleared t size t') : usedNodes t' = 0 := by
  rw [usedNodes, List.countP_eq_zero]
  intro i _
  simp [congrFun cleared.node i, freeNode]

theorem contents_hashed (cleared : Cleared t size t') (small : size < 2 ^ 31)
    (hashed : ¬ Indexes size key) :
    contents address t' key = .nil := by
  have inv' : TableInv address t' := cleared.inv small
  have hashed' : ¬ InArray t' key := by
    rw [InArray, cleared.sizearray]
    exact hashed
  by_cases proper : key = .nil
  · rw [proper, contents_nil]
  · refine contents_of_get (inv'.get_absent hashed' fun i holds => ?_)
    rw [congrFun cleared.node i] at holds
    exact proper holds.symm

theorem contents_kept (cleared : Cleared t size t') (small : size < 2 ^ 31)
    (index : Indexes size key) :
    contents address t' key = if InArray t key then t.array (arrayindex key - 1).toNat
      else .nil := by
  have inv' : TableInv address t' := cleared.inv small
  have inside : InArray t' key := by
    rw [InArray, cleared.sizearray]
    exact index
  obtain ⟨low, high⟩ := index
  rw [inv'.contents_array inside, cleared.kept _ (by omega)]
  refine if_congr ?_ rfl rfl
  rw [InArray]
  omega

end Cleared

theorem mem_oldNodes {n : Node} : n ∈ oldNodes t ↔ ∃ i, i < t.sizenode ∧ t.node i = n := by
  simp [oldNodes]

theorem TableInv.mem_of_used (inv : TableInv address t) {i : Nat} (used : (t.node i).key ≠ .nil) :
    t.node i ∈ oldNodes t := mem_oldNodes.mpr ⟨i, inv.used_lt used, rfl⟩

-- the elements of the array from `size` on
def vanishing (t : Rep) (size : Nat) : List Nat := List.range' size (t.sizearray - size)

theorem mem_vanishing {size i : Nat} : i ∈ vanishing t size ↔ size ≤ i ∧ i < t.sizearray := by
  rw [vanishing, List.mem_range'_1]
  omega

/-- What is still to be stored when the hash part has been emptied. -/
theorem Cleared.pending {size : Nat} (cleared : Cleared t size t') (inv : TableInv address t)
    (small : size < 2 ^ 31) :
    Unstored address (contents address t) ((vanishing t size).map (sliceNode t.array) ++
      oldNodes t) t' := by
  refine ⟨cleared.inv small, fun n member used => ?_, fun k => ?_⟩
  · rcases List.mem_append.mp member with slice | nodes
    · obtain ⟨i, inside, rfl⟩ := List.mem_map.mp slice
      have bounds := mem_vanishing.mp inside
      have size := inv.small
      have index : arrayindex (arrayKey i) = i + 1 := arrayindex_arrayKey (by omega)
      have inArray : InArray t (arrayKey i) := by
        rw [InArray, index]
        omega
      refine ⟨arrayKey_ne_nil i, ?_⟩
      rw [sliceNode, inv.contents_array inArray, index]
      congr 1
      omega
    · obtain ⟨i, -, rfl⟩ := mem_oldNodes.mp nodes
      have proper : (t.node i).key ≠ .nil := by
        intro free
        rw [inv.free i free] at used
        exact used rfl
      exact ⟨proper, inv.contents_node proper rfl⟩
  · by_cases inside : InArray t k
    · by_cases index : Indexes size k
      · left
        rw [cleared.contents_kept small index, if_pos inside, inv.contents_array inside]
      · by_cases unused : t.array (arrayindex k - 1).toNat = .nil
        · left
          rw [cleared.contents_hashed small index, inv.contents_array inside, unused]
        · right
          obtain ⟨low, high⟩ := inside
          refine ⟨sliceNode t.array (arrayindex k - 1).toNat, List.mem_append_left _ ?_, unused,
            arrayKey_arrayindex low⟩
          refine List.mem_map_of_mem (mem_vanishing.mpr ?_)
          rw [Indexes] at index
          omega
    · have none : contents address t k = .nil → contents address t' k = contents address t k := by
        intro nothing
        rw [nothing]
        by_cases index : Indexes size k
        · rw [cleared.contents_kept small index, if_neg inside]
        · exact cleared.contents_hashed small index
      by_cases proper : k = .nil
      · rw [proper]
        exact .inl rfl
      · rcases inv.luaHGet_node inv.small proper inside with ⟨i, holds, get⟩ | ⟨-, get⟩
        · by_cases unused : (t.node i).val = .nil
          · left
            exact none ((inv.contents_node proper holds).trans unused)
          · right
            have used : (t.node i).key ≠ .nil := by
              rw [holds]
              exact proper
            exact ⟨t.node i, List.mem_append_right _ (inv.mem_of_used used), unused, holds⟩
        · exact .inl (none (contents_of_get get))

/-! ## `resize` -/

theorem hashedKeys_oldNodes (size : Nat) : hashedKeys size (pendingKeys (oldNodes t)) =
    hashedKeys size (nodeKeys t t.sizenode) := by
  have reversed : pendingKeys (oldNodes t) = (nodeKeys t t.sizenode).reverse := by
    rw [pendingKeys, oldNodes, List.filter_map, List.map_map, List.filter_reverse, List.map_reverse]
    rfl
  rw [reversed, hashedKeys, List.countP_reverse, hashedKeys]

theorem pendingKeys_slice (slice : List Nat) :
    pendingKeys (slice.map (sliceNode t.array)) =
      (slice.filter fun i => t.array i ≠ .nil).map arrayKey := by
  rw [pendingKeys, List.filter_map, List.map_map]
  rfl

theorem hashedKeys_vanishing (t : Rep) (size : Nat) :
    hashedKeys size (pendingKeys ((vanishing t size).map (sliceNode t.array))) ≤
      hashedKeys size (arrayKeys t t.sizearray) := by
  have part : (vanishing t size).Sublist (List.range t.sizearray) := by
    by_cases shrinks : size ≤ t.sizearray
    · rw [range_split shrinks]
      exact List.sublist_append_right _ _
    · have none : vanishing t size = [] := by
        rw [vanishing, Nat.sub_eq_zero_of_le (by omega)]
        rfl
      rw [none]
      exact List.nil_sublist _
  rw [pendingKeys_slice, arrayKeys]
  exact List.Sublist.countP_le ((part.filter _).map _)

theorem Unstored.block {old : TValue → TValue} {ps : List Node}
    (pending : Unstored address old ps t) (b : Nat) :
    Unstored address old ps { t with arrayBlock := b } := by
  obtain ⟨inv, values, covered⟩ := pending
  have inv' : TableInv address { t with arrayBlock := b } :=
    ⟨⟨inv.scatter, inv.outside, inv.free, inv.apart, inv.lastfree, inv.dummy⟩, inv.small, inv.bits⟩
  refine ⟨inv', values, ?_⟩
  rw [inv.contents_same inv' rfl rfl rfl]
  exact covered

theorem vanishing_none {size : Nat} (keeps : t.sizearray ≤ size) : vanishing t size = [] := by
  rw [vanishing, Nat.sub_eq_zero_of_le keeps]
  rfl

-- the table after setarrayvector
def grownTo (t : Rep) (size : Nat) : Rep :=
  { t with
    array := fun i => if t.sizearray ≤ i ∧ i < size then .nil else t.array i
    sizearray := size
    arrayBlock := t.arrayBlock + 1 }

-- the table when the nodes are asked for
def beforeNodes (t : Rep) (nasize : Nat) : Rep :=
  if t.sizearray < nasize then grownTo t nasize else t

theorem withNodes_kept (u : Rep) (n : Nat) :
    (withNodes u n).array = u.array ∧ (withNodes u n).sizearray = u.sizearray ∧
      (withNodes u n).arrayBlock = u.arrayBlock := by
  rw [withNodes]
  split <;> exact ⟨rfl, rfl, rfl⟩

theorem beforeNodes_cleared {nasize nhsize : Nat} (fits : nhsize ≤ maxasize)
    (keeps : t.sizearray ≤ nasize) :
    Cleared t nasize (withNodes (beforeNodes t nasize) nhsize) ∧
      nhsize ≤ room (withNodes (beforeNodes t nasize) nhsize) := by
  refine withNodes_cleared fits ?_ fun i inside => ?_
  · rw [beforeNodes]
    split
    next => rfl
    next => omega
  · rw [beforeNodes]
    split
    next grows =>
      by_cases new : t.sizearray ≤ i
      · rw [if_neg (by omega)]
        exact if_pos ⟨new, inside⟩
      · rw [if_pos (by omega)]
        exact if_neg fun between => new between.1
    next => rw [if_pos (by omega)]

-- what the loop over the slice starts from
def cutTo (t : Rep) (nasize nhsize : Nat) : Rep := { withNodes t nhsize with sizearray := nasize }

theorem cutTo_cleared {nasize nhsize : Nat} (fits : nhsize ≤ maxasize)
    (shrinks : nasize < t.sizearray) :
    (Cleared t nasize (cutTo t nasize nhsize) ∧ nhsize ≤ room (cutTo t nasize nhsize)) ∧
      (cutTo t nasize nhsize).array = t.array ∧
        (cutTo t nasize nhsize).arrayBlock = t.arrayBlock := by
  have same : cutTo t nasize nhsize = withNodes { t with sizearray := nasize } nhsize := by
    rw [cutTo, withNodes, withNodes]
    split <;> rfl
  have cleared : Cleared t nasize (withNodes { t with sizearray := nasize } nhsize) ∧
      nhsize ≤ room (withNodes { t with sizearray := nasize } nhsize) := by
    refine withNodes_cleared fits rfl fun i inside => ?_
    exact (if_pos (by omega)).symm
  rw [← same] at cleared
  exact ⟨cleared, (withNodes_kept t nhsize).1, (withNodes_kept t nhsize).2.2⟩

theorem resize_keeps (address : TValue → Nat) (grow : TValue → TableM Slot) {nasize nhsize : Nat}
    (fits : nhsize ≤ maxasize) (keeps : t.sizearray ≤ nasize) :
    resize address grow nasize nhsize t =
      reinsertNodes address grow (oldNodes t) (withNodes (beforeNodes t nasize) nhsize) := by
  have unfolded : resize address grow nasize nhsize t = (do
      if t.sizearray < nasize then setarrayvector nasize
      setnodevector nhsize
      if nasize < t.sizearray then
        modify fun t : Rep => { t with sizearray := nasize }
        reinsertSlice address grow (vanishing t nasize)
        modify fun t : Rep => { t with arrayBlock := t.arrayBlock + 1 }
      reinsertNodes address grow (oldNodes t)) t := rfl
  have stays : ¬ nasize < t.sizearray := Nat.not_lt_of_ge keeps
  rw [unfolded, beforeNodes]
  by_cases grows : t.sizearray < nasize
  · have grown : setarrayvector nasize t = .ok () (grownTo t nasize) := rfl
    rw [if_pos grows, if_pos grows, bind_ok grown]
    exact (bind_ok (setnodevector_ok fits)).trans (congrFun (if_neg stays) _)
  · rw [if_neg grows, if_neg grows]
    exact (bind_ok (setnodevector_ok fits)).trans (congrFun (if_neg stays) _)

theorem resize_shrinks (address : TValue → Nat) (grow : TValue → TableM Slot) {nasize nhsize : Nat}
    (fits : nhsize ≤ maxasize) (shrinks : nasize < t.sizearray) :
    resize address grow nasize nhsize t =
      (reinsertSlice address grow (vanishing t nasize) >>= fun _ => do
      modify fun t : Rep => { t with arrayBlock := t.arrayBlock + 1 }
      reinsertNodes address grow (oldNodes t)) (cutTo t nasize nhsize) := by
  have unfolded : resize address grow nasize nhsize t = (do
      if t.sizearray < nasize then setarrayvector nasize
      setnodevector nhsize
      if nasize < t.sizearray then
        modify fun t : Rep => { t with sizearray := nasize }
        reinsertSlice address grow (vanishing t nasize)
        modify fun t : Rep => { t with arrayBlock := t.arrayBlock + 1 }
      reinsertNodes address grow (oldNodes t)) t := rfl
  rw [unfolded, if_neg (Nat.not_lt_of_gt shrinks)]
  exact (bind_ok (setnodevector_ok fits)).trans (congrFun (if_pos shrinks) _)

-- resize comes to the two loops with an empty hash part
theorem resize_cleared (address : TValue → Nat) (grow : TValue → TableM Slot) (t : Rep)
    {nasize nhsize : Nat} (fits : nhsize ≤ maxasize) :
    ∃ u, Cleared t nasize u ∧ nhsize ≤ room u ∧ (∀ i ∈ vanishing t nasize, u.array i = t.array i) ∧
      ∀ v, reinsertSlice address grow (vanishing t nasize) u = .ok () v →
        ∃ b, resize address grow nasize nhsize t = reinsertNodes address grow (oldNodes t)
          { v with arrayBlock := b } := by
  rcases Nat.lt_or_ge nasize t.sizearray with shrinks | keeps
  · obtain ⟨⟨cleared, nodes⟩, array, -⟩ := cutTo_cleared fits shrinks
    refine ⟨_, cleared, nodes, fun i _ => congrFun array i, fun v result => ⟨v.arrayBlock + 1, ?_⟩⟩
    exact (resize_shrinks address grow fits shrinks).trans (bind_ok result)
  · obtain ⟨cleared, nodes⟩ := beforeNodes_cleared fits keeps
    refine ⟨_, cleared, nodes, fun i member => ?_, fun v result => ⟨v.arrayBlock, ?_⟩⟩
    · rw [vanishing_none keeps] at member
      cases member
    · rw [vanishing_none keeps] at result
      cases result
      exact resize_keeps address grow fits keeps

-- with a node for every displaced element, resize comes to the loop over the old nodes
theorem TableInv.resize_slice (inv : TableInv address t) {nasize nhsize n : Nat}
    (small : nasize < 2 ^ 31) (fits : nhsize ≤ maxasize)
    (enough : hashedKeys nasize (pendingKeys ((vanishing t nasize).map
      (sliceNode t.array))) + n ≤ nhsize)
    (grow : TValue → TableM Slot) :
    ∃ v, resize address grow nasize nhsize t = reinsertNodes address grow (oldNodes t) v ∧
      Unstored address (contents address t) (oldNodes t) v ∧ RoomFor nasize n v := by
  obtain ⟨u, cleared, nodes, slice, run⟩ := resize_cleared address grow t fits
  have pending := cleared.pending inv small
  have arrays : (vanishing t nasize).map (sliceNode t.array) =
      (vanishing t nasize).map (sliceNode u.array) := by
    refine List.map_congr_left fun i member => ?_
    rw [sliceNode, sliceNode, slice i member]
  rw [arrays] at pending enough
  have space : RoomFor nasize (hashedKeys nasize
      (pendingKeys ((vanishing t nasize).map (sliceNode u.array))) + n) u := by
    refine ⟨cleared.sizearray, ?_⟩
    rw [cleared.used]
    omega
  have outside : ∀ i ∈ vanishing t nasize, nasize ≤ i ∧ i < 2 ^ 31 - 1 := by
    intro i member
    have bounds := mem_vanishing.mp member
    have size := inv.small
    omega
  obtain ⟨v, looped, pending', space'⟩ := reinsertSlice_room _ u outside pending space grow
  obtain ⟨b, result⟩ := run v looped
  exact ⟨_, result, pending'.block b, space'.sizearray, space'.used⟩

/-- With a node for every key outside of the new array, `resize` keeps the contents. -/
theorem TableInv.resize_room (inv : TableInv address t) {nasize nhsize n : Nat}
    (small : nasize < 2 ^ 31) (fits : nhsize ≤ maxasize)
    (enough : hashedKeys nasize (liveKeys t) + n ≤ nhsize) (grow : TValue → TableM Slot) :
    ∃ t', resize address grow nasize nhsize t = .ok () t' ∧ TableInv address t' ∧
      contents address t' = contents address t ∧ RoomFor nasize n t' := by
  have fromArray := hashedKeys_vanishing t nasize
  have fromNodes : hashedKeys nasize (pendingKeys (oldNodes t)) =
    hashedKeys nasize (nodeKeys t t.sizenode) :=
    hashedKeys_oldNodes nasize
  rw [liveKeys, hashedKeys_append, ← fromNodes] at enough
  obtain ⟨v, result, pending, space⟩ :=
    inv.resize_slice (n := hashedKeys nasize (pendingKeys (oldNodes t)) + n)
    small fits (by omega) grow
  rw [result]
  exact reinsertNodes_room pending space grow

end Lunatik.Verified
