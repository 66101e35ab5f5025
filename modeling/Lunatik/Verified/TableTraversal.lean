import Lunatik.Verified.TableEvents
import Lunatik.Verified.TableSizes

/-! # Traversals

`luaH_next` goes through the slots of a table, first those of the array, then the nodes.  It has only the
last key to know where it is: `findindex` looks the key up again, and finds the slot that it came from,
also when the entry has been removed since.
-/

namespace Lunatik.Verified.DeadKeys

open Lunatik.Lua (TValue)
open Lunatik.Lua.Ltable (Slot castNumber)
open Lunatik.Lua.TableNext Lunatik.Library

variable {mem : Memory} {t : Table}

/-! ## Slots -/

/-- The number of slots. -/
def slots (t : Table) : Nat := t.sizearray + t.sizenode

def slotAt (t : Table) (x : Nat) : Slot := if x < t.sizearray then .array x else .node (x - t.sizearray)

def slotKey (t : Table) (x : Nat) : Key :=
  if x < t.sizearray then .number (castNumber (x + 1)) else (t.node (x - t.sizearray)).key

theorem arrayindex_number {i : Nat} (small : i < 2 ^ 31 - 1) :
    arrayindex (.number (castNumber (i + 1))) = i + 1 :=
  arrayindex_castNumber (by omega) (by omega)

-- an index is that of one key only
theorem eq_number_of_arrayindex {key : Key} (positive : 1 ≤ arrayindex key) :
    key = .number (castNumber (arrayindex key)) := by
  cases key with
  | number n => exact congrArg Key.number (TValue.number.inj (eq_of_arrayindex positive))
  | _ => cases positive

section
variable {x y : Nat}

theorem Sound.small (sound : Sound mem t) : t.sizearray < 2 ^ 31 := by
  obtain ⟨tag, births, inv⟩ := sound
  exact inv.small

theorem Sound.slot_live (sound : Sound mem t) (filled : t.valueAt (slotAt t x) ≠ .nil) :
    (slotKey t x).isLive := by
  unfold slotAt at filled
  unfold slotKey
  split
  next => rfl
  next hashed =>
    rw [if_neg hashed] at filled
    exact sound.valued filled

theorem Sound.slot_alive (sound : Sound mem t) (live : (slotKey t x).isLive) : (slotKey t x).alive mem := by
  unfold slotKey at *
  split
  next => rfl
  next hashed =>
    rw [if_neg hashed] at live
    exact sound.alive live

/-- The key of a slot leads to the slot. -/
theorem Sound.luaHGet_slotKey (sound : Sound mem t) (live : (slotKey t x).isLive) :
    luaHGet mem t (slotKey t x) = some (some (slotAt t x)) := by
  have small := sound.small
  unfold slotKey slotAt at *
  split
  next inside =>
    have index := arrayindex_number (show x < 2 ^ 31 - 1 by omega)
    rw [luaHGet, if_neg (by simp), index, if_pos (by omega)]
    simp
  next hashed =>
    obtain ⟨tag, births, inv⟩ := sound
    rw [if_neg hashed] at live
    exact inv.luaHGet_node live

theorem slotAt_inj (same : slotAt t x = slotAt t y) : x = y := by
  unfold slotAt at same
  split at same <;> split at same <;> simp at same <;> omega

theorem Sound.slotKey_inj (sound : Sound mem t) (live : (slotKey t x).isLive)
    (same : slotKey t x = slotKey t y) : x = y := by
  have first := sound.luaHGet_slotKey live
  rw [same, sound.luaHGet_slotKey (same ▸ live)] at first
  simp only [Option.some.injEq] at first
  exact slotAt_inj first.symm

theorem Sound.contents_slotKey (sound : Sound mem t) (live : (slotKey t x).isLive) :
    Lua.TableNext.contents mem t (slotKey t x) = t.valueAt (slotAt t x) := by
  rw [Lua.TableNext.contents, sound.luaHGet_slotKey live]

-- a key with a value has a slot
theorem Sound.exists_slot (sound : Sound mem t) {key : Key} (filled : Lua.TableNext.contents mem t key ≠ .nil) :
    ∃ x, x < slots t ∧ slotKey t x = key ∧ t.valueAt (slotAt t x) = Lua.TableNext.contents mem t key := by
  rw [Lua.TableNext.contents] at filled ⊢
  split at filled
  next slot found =>
    obtain ⟨slotOf, -⟩ := luaHGet_slot found
    cases slot with
    | array i =>
      obtain ⟨⟨low, high⟩, rfl⟩ := slotOf
      have inside : (arrayindex key - 1).toNat < t.sizearray := by omega
      refine ⟨(arrayindex key - 1).toNat, Nat.lt_of_lt_of_le inside (Nat.le_add_right _ _), ?_, ?_⟩
      · have index : ((arrayindex key - 1).toNat : Int) + 1 = arrayindex key := by omega
        rw [slotKey, if_pos inside, index]
        exact (eq_number_of_arrayindex low).symm
      · rw [slotAt, if_pos inside]
    | node i =>
      obtain rfl : (t.node i).key = key := slotOf
      obtain ⟨tag, births, inv⟩ := sound
      have used := inv.used_lt (ne_nil_of_live (inv.valued i filled))
      have behind : ¬ t.sizearray + i < t.sizearray := by omega
      refine ⟨t.sizearray + i, Nat.add_lt_add_left used _, ?_, ?_⟩
      · rw [slotKey, if_neg behind, Nat.add_sub_cancel_left]
      · rw [slotAt, if_neg behind, Nat.add_sub_cancel_left]
  next => exact absurd rfl filled

/-! ## Where a traversal goes on -/

/-- The key of a slot leads to the index behind it. -/
theorem Sound.findindex_slotKey (sound : Sound mem t) (live : (slotKey t x).isLive) :
    findindex mem t (slotKey t x) = some (x + 1) := by
  have small := sound.small
  unfold slotKey at *
  split
  next inside =>
    have index := arrayindex_number (show x < 2 ^ 31 - 1 by omega)
    rw [findindex, if_neg (by simp), index, if_pos (by omega)]
    rfl
  next hashed =>
    obtain ⟨tag, births, inv⟩ := sound
    rw [if_neg hashed] at live
    obtain ⟨g, tagged⟩ := inv.tag_of_ne_nil (ne_nil_of_live live)
    have found := inv.search_found rfl live tagged (sameKey_iff.mpr (.inl rfl)) fun k before after other => by
      by_contra like
      rcases sameKey_iff.mp (by simpa using like) with same | ⟨tt, p, gc, dead⟩
      · exact other (inv.once _ k live same.symm).symm
      · exact inv.hidden _ k tt p g gc dead tagged before after
    have apart : ¬ (0 < arrayindex (t.node (x - t.sizearray)).key ∧
        arrayindex (t.node (x - t.sizearray)).key ≤ t.sizearray) := inv.apart _ live
    rw [findindex, if_neg (ne_nil_of_live live), if_neg apart, found]
    dsimp only
    congr 1
    omega

end

theorem search_congr {t' : Table} {found found' : Key → Bool} (next : ∀ i, (t'.node i).next = (t.node i).next)
    (same : ∀ i, found' (t'.node i).key = found (t.node i).key) (rounds i : Nat) :
    search t' found' rounds i = search t found rounds i := by
  induction rounds generalizing i with
  | zero => rfl
  | succ rounds ih =>
    rw [search, search, same, next]
    split
    · rfl
    · cases (t.node i).next with
      | none => rfl
      | some m => exact ih m

/-- The place in the table stays the one of the key when the table changes. -/
theorem Sound.findindex_changed (sound : Sound mem t) {mem' : Memory} {t' : Table}
    (change : Changes mem t mem' t') {key : Key} (alive : key = .nil ∨ key.alive mem)
    (memory : ∀ tt p, key = .gc tt p → mem' p = mem p) : findindex mem' t' key = findindex mem t key := by
  have same : ∀ i, sameKey key (t'.node i).key = sameKey key (t.node i).key := by
    intro i
    rcases change.keys i with same | ⟨tt, p, gc, dead⟩
    · rw [same]
    · rw [Bool.eq_iff_iff, sameKey_iff, sameKey_iff, gc, dead]
      constructor
      · rintro (rfl | ⟨tt', q, rfl, same⟩)
        · simp [Key.alive, Key.isLive] at alive
        · obtain rfl := Key.dead.inj same
          have aliveKey : (Key.gc tt' p).alive mem := by simpa using alive
          have aliveNode := sound.alive (i := i) (by rw [gc]; rfl)
          rw [gc] at aliveNode
          rw [gc_eq_of_alive aliveKey aliveNode]
          exact .inl rfl
      · rintro (rfl | ⟨tt', q, rfl, same⟩)
        · exact .inr ⟨tt, p, rfl, rfl⟩
        · cases same
  have size : t'.sizenode = t.sizenode := by rw [Table.sizenode, change.lsizenode, Table.sizenode]
  have main : mainposition mem' t' key = mainposition mem t key := by
    rw [mainposition_congr change.lsizenode, mainposition_memory t memory]
  rw [findindex, findindex, change.sizearray, size, main, search_congr change.next same]

/-- The first element from an index on, or there is none. -/
theorem firstFrom_cases (t : Table) (i : Nat) :
    (∃ x, firstFrom t i = some (x, slotKey t x, t.valueAt (slotAt t x)) ∧ i ≤ x ∧ x < slots t ∧
      t.valueAt (slotAt t x) ≠ .nil ∧ ∀ y, i ≤ y → y < x → t.valueAt (slotAt t y) = .nil) ∨
      (firstFrom t i = none ∧ ∀ y, i ≤ y → y < slots t → t.valueAt (slotAt t y) = .nil) := by
  unfold firstFrom
  cases inArray : (List.range' i (t.sizearray - i)).find? fun i => t.array i ≠ .nil with
  | some x =>
    obtain ⟨filled, member, before⟩ := List.find?_range'_eq_some.mp inArray
    have bounds := List.mem_range'_1.mp member
    have array : ∀ y, y ≤ x → slotAt t y = .array y := fun y _ => if_pos (by omega)
    have key : slotKey t x = .number (castNumber (x + 1)) := if_pos (by omega)
    refine .inl ⟨x, ?_, bounds.1, ?_, ?_, fun y low high => ?_⟩
    · rw [key, array x le_rfl]
      rfl
    · rw [slots]
      omega
    · rw [array x le_rfl]
      simpa [Table.valueAt] using filled
    · rw [array y high.le]
      simpa [Table.valueAt] using before y low high
  | none =>
    have noArray := List.find?_range'_eq_none.mp inArray
    have empty : ∀ y, i ≤ y → y < t.sizearray → t.valueAt (slotAt t y) = .nil := by
      intro y low high
      rw [slotAt, if_pos high]
      simpa [Table.valueAt] using noArray y low (by omega)
    dsimp only
    cases inNodes : (List.range' (i - t.sizearray) (t.sizenode - (i - t.sizearray))).find?
        fun i => (t.node i).val ≠ .nil with
    | some n =>
      obtain ⟨filled, member, before⟩ := List.find?_range'_eq_some.mp inNodes
      have bounds := List.mem_range'_1.mp member
      have behind : ¬ n + t.sizearray < t.sizearray := by omega
      have here : slotAt t (n + t.sizearray) = .node n := by
        rw [slotAt, if_neg behind, Nat.add_sub_cancel]
      have key : slotKey t (n + t.sizearray) = (t.node n).key := by
        rw [slotKey, if_neg behind, Nat.add_sub_cancel]
      refine .inl ⟨n + t.sizearray, ?_, by omega, ?_, ?_, fun y low high => ?_⟩
      · rw [key, here]
        rfl
      · rw [slots]
        omega
      · rw [here]
        simpa [Table.valueAt] using filled
      · by_cases inside : y < t.sizearray
        · exact empty y low inside
        · rw [slotAt, if_neg inside]
          simpa [Table.valueAt] using before (y - t.sizearray) (by omega) (by omega)
    | none =>
      have noNode := List.find?_range'_eq_none.mp inNodes
      refine .inr ⟨rfl, fun y low high => ?_⟩
      by_cases inside : y < t.sizearray
      · exact empty y low inside
      · rw [slots] at high
        rw [slotAt, if_neg inside]
        simpa [Table.valueAt] using noNode (y - t.sizearray) (by omega) (by omega)

/-! ## Under way -/

/-- A traversal that has come to the slot `cur`: the keys that it has returned are those of the slots
`passed`, and the key that it has leads back to where it is. -/
structure Underway (w : World) (s : Traversal) (cur : Nat) (passed : List Nat) : Prop where
  sound : Sound s.mem s.t
  alive : s.key = .nil ∨ s.key.alive s.mem
  sizearray : s.t.sizearray = w.t.sizearray
  lsizenode : s.t.lsizenode = w.t.lsizenode
  keys : ∀ i, (s.t.node i).key.isLive → (s.t.node i).key = (w.t.node i).key
  index : findindex s.mem s.t s.key = some cur
  bound : cur ≤ slots w.t
  failed : s.failed = false
  returned : s.returned.map Prod.fst = passed.map (slotKey w.t)
  ascending : passed.Pairwise (· < ·)
  before : ∀ x ∈ passed, x < cur ∧ (slotKey w.t x).isLive

theorem start_underway {w : World} (sound : Sound w.mem w.t) : Underway w (Traversal.start w) 0 [] :=
  ⟨sound, .inl rfl, rfl, rfl, fun _ _ => rfl, rfl, Nat.zero_le _, rfl, rfl, List.Pairwise.nil, by simp⟩

section
variable {w : World} {s : Traversal} {cur : Nat} {passed : List Nat}

namespace Underway

theorem slots_eq (way : Underway w s cur passed) : slots s.t = slots w.t := by
  rw [slots, slots, Table.sizenode, Table.sizenode, way.sizearray, way.lsizenode]

-- a key that is in its slot has been there from the start
theorem slotKey_eq (way : Underway w s cur passed) {x : Nat} (live : (slotKey s.t x).isLive) :
    slotKey s.t x = slotKey w.t x := by
  unfold slotKey at *
  rw [way.sizearray] at *
  split
  next => rfl
  next hashed =>
    rw [if_neg hashed] at live
    exact way.keys _ live

/-- What happens to the table between two steps does not move the traversal. -/
theorem changed (way : Underway w s cur passed) {mem' : Memory} {t' : Table}
    (change : Changes s.mem s.t mem' t') (memory : ∀ tt p, s.key = .gc tt p → mem' p = s.mem p) :
    Underway w { s with mem := mem', t := t' } cur passed where
  sound := way.sound.changed change
  alive := by
    refine way.alive.imp_right fun alive => ?_
    cases key : s.key with
    | gc tt p =>
      rw [key] at alive
      simpa only [Key.alive, memory tt p key] using alive
    | _ =>
      rw [key] at alive
      exact alive
  sizearray := change.sizearray.trans way.sizearray
  lsizenode := change.lsizenode.trans way.lsizenode
  keys := by
    intro i live
    have same := change.live_eq live
    exact same.trans (way.keys i (same ▸ live))
  index := (way.sound.findindex_changed change way.alive memory).trans way.index
  bound := way.bound
  failed := way.failed
  returned := way.returned
  ascending := way.ascending
  before := way.before

/-- A step that comes to an element. -/
theorem step (way : Underway w s cur passed) {x : Nat} (low : cur ≤ x) (high : x < slots s.t)
    (filled : s.t.valueAt (slotAt s.t x) ≠ .nil) (v : TValue) :
    Underway w { s with key := slotKey s.t x, returned := s.returned ++ [(slotKey s.t x, v)] } (x + 1)
      (passed ++ [x]) := by
  have live := way.sound.slot_live filled
  have same := way.slotKey_eq live
  refine ⟨way.sound, .inr ?_, way.sizearray, way.lsizenode, way.keys, way.sound.findindex_slotKey live,
    way.slots_eq ▸ high, way.failed, ?_, ?_, ?_⟩
  · exact way.sound.slot_alive live
  · rw [List.map_append, List.map_append, way.returned]
    simp [same]
  · rw [List.pairwise_append]
    refine ⟨way.ascending, List.pairwise_singleton _ _, fun y member z last => ?_⟩
    rw [List.mem_singleton.mp last]
    exact Nat.lt_of_lt_of_le (way.before y member).1 low
  · intro y member
    rcases List.mem_append.mp member with inside | last
    · obtain ⟨less, liveY⟩ := way.before y inside
      exact ⟨by omega, liveY⟩
    · obtain rfl := List.mem_singleton.mp last
      exact ⟨Nat.lt_succ_self _, same ▸ live⟩

-- the next element, or the end of the table
theorem next_cases (way : Underway w s cur passed) :
    (∃ x, luaHNext s.mem s.t s.key = some (some (slotKey s.t x, s.t.valueAt (slotAt s.t x))) ∧ cur ≤ x ∧
      x < slots s.t ∧ s.t.valueAt (slotAt s.t x) ≠ .nil ∧
      ∀ y, cur ≤ y → y < x → s.t.valueAt (slotAt s.t y) = .nil) ∨
      (luaHNext s.mem s.t s.key = some none ∧
        ∀ y, cur ≤ y → y < slots s.t → s.t.valueAt (slotAt s.t y) = .nil) := by
  rw [luaHNext, way.index]
  rcases firstFrom_cases s.t cur with ⟨x, found, rest⟩ | ⟨found, rest⟩
  · exact .inl ⟨x, by simp [found], rest⟩
  · exact .inr ⟨by simp [found], rest⟩

end Underway

/-! ## Events -/

/-- Collections in the middle of a traversal keep the keys of empty entries. -/
def FitsTraversal (s : Traversal) : TraversalEvent → Prop
  | .collect c => KeepsEmpty c s.t
  | _ => True

instance (s : Traversal) (e : TraversalEvent) : Decidable (FitsTraversal s e) :=
  match e with
  | .collect c => inferInstanceAs (Decidable (KeepsEmpty c s.t))
  | .next | .alloc .. | .assign .. => .isTrue trivial

variable {granted : Nat → Bool} {depth : Nat}

theorem setTable_existing {key : Key} {slot : Slot} (found : luaHGet mem t key = some (some slot)) (v : TValue) :
    stateAfter (setTable mem granted depth key v) t = t.setSlot slot v := by
  have ran : luaHSet mem (grow mem granted depth) key t = .ok slot t := by
    unfold luaHSet
    rw [bind_ok (get_run t), found]
    rfl
  rw [setTable, stateAfter_bind ran]
  rfl

theorem Sound.assign_changes (sound : Sound mem t) {key : Key} (alive : key.alive mem)
    (exist : (luaHGet mem t key).join.isSome = true) (v : TValue) :
    Changes mem t mem (stateAfter (setTable mem granted depth key v) t) := by
  obtain ⟨slot, joined⟩ := Option.isSome_iff_exists.mp exist
  have found := Option.join_eq_some_iff.mp joined
  rw [setTable_existing found]
  refine sound.setSlot_changes ?_ v
  obtain ⟨slotOf, -⟩ := luaHGet_slot found
  cases slot with
  | array i => trivial
  | node i =>
    have keyEq : (t.node i).key = key := slotOf
    rw [Holds, keyEq]
    exact isLive_of_alive alive

-- the events between two steps
theorem Underway.between (way : Underway w s cur passed) {e : TraversalEvent} (ready : s.ready e = true)
    (fits : FitsTraversal s e) (other : e ≠ .next) : Underway w (s.exec granted depth e) cur passed := by
  cases e with
  | next => exact absurd rfl other
  | alloc p o =>
    refine way.changed (way.sound.alloc_changes ready o) fun tt q key => ?_
    have alive := way.alive.resolve_left (by simp [key])
    exact alloc_memory ready o alive key
  | assign key v =>
    simp only [Traversal.ready, Bool.and_eq_true] at ready
    exact way.changed (way.sound.assign_changes ready.1 ready.2 v) fun _ _ _ => rfl
  | collect c =>
    simp only [Traversal.ready, Bool.and_eq_true] at ready
    refine way.changed (way.sound.collect_changes ready.1 fits) fun tt p key => ?_
    have marked : c.marked p = true := by simpa [key, Collection.keeps] using ready.2
    rw [Collection.sweep, if_pos marked]

-- what each event does to the number of steps that a traversal has made
def isNext : TraversalEvent → Bool
  | .next => true
  | _ => false

def steps (s : Traversal) : Nat := s.returned.length + if s.ended then 1 else 0

variable (granted depth s) in
theorem between_same {e : TraversalEvent} (other : e ≠ .next) :
    (s.exec granted depth e).returned = s.returned ∧ (s.exec granted depth e).ended = s.ended := by
  cases e with
  | next => exact absurd rfl other
  | _ => exact ⟨rfl, rfl⟩

theorem Underway.exec (way : Underway w s cur passed) {e : TraversalEvent} (ready : s.ready e = true)
    (fits : FitsTraversal s e) :
    (∃ cur' passed', Underway w (s.exec granted depth e) cur' passed') ∧
      steps (s.exec granted depth e) = steps s + if isNext e then 1 else 0 := by
  by_cases next : e = .next
  · subst next
    simp only [Traversal.ready, Bool.and_eq_true, Bool.not_eq_true'] at ready
    rw [Traversal.exec]
    rcases way.next_cases with ⟨x, found, low, high, filled, -⟩ | ⟨found, -⟩
    · rw [found]
      refine ⟨⟨_, _, way.step low high filled _⟩, ?_⟩
      simp only [steps, ready.1, List.length_append, List.length_singleton]
      rfl
    · rw [found]
      refine ⟨⟨cur, passed, { way with }⟩, ?_⟩
      simp only [steps, ready.1]
      rfl
  · refine ⟨⟨cur, passed, way.between ready fits next⟩, ?_⟩
    obtain ⟨returned, ended⟩ := between_same s granted depth next
    have quiet : isNext e = false := by
      cases e with
      | next => exact absurd rfl next
      | _ => rfl
    rw [steps, returned, ended, quiet]
    rfl

/-- The key has been returned if its slot has been passed. -/
def Visited (w : World) (key : Key) (s : Traversal) (cur : Nat) : Prop :=
  ∀ x, x < slots w.t → slotKey w.t x = key → key.isLive → x < cur ∨ s.ended = true →
    key ∈ s.returned.map Prod.fst

theorem Underway.visits (sound : Sound w.mem w.t) {key : Key} (way : Underway w s cur passed)
    (visited : Visited w key s cur) {e : TraversalEvent} (ready : s.ready e = true) (fits : FitsTraversal s e)
    (filled : Lua.TableNext.contents s.mem s.t key ≠ .nil) :
    ∃ cur' passed', Underway w (s.exec granted depth e) cur' passed' ∧
      Visited w key (s.exec granted depth e) cur' := by
  by_cases next : e = .next
  · subst next
    simp only [Traversal.ready, Bool.and_eq_true, Bool.not_eq_true'] at ready
    -- the slot of the key has its value
    have valued : ∀ x, slotKey w.t x = key → key.isLive → s.t.valueAt (slotAt s.t x) ≠ .nil := by
      intro x keyX live
      obtain ⟨y, -, keyY, value⟩ := way.sound.exists_slot filled
      rw [← value] at filled
      have same := way.slotKey_eq (way.sound.slot_live filled)
      obtain rfl : x = y := sound.slotKey_inj (keyX ▸ live) (by rw [keyX, ← keyY, same])
      exact filled
    rw [Traversal.exec]
    rcases way.next_cases with ⟨z, found, low, high, filledZ, empty⟩ | ⟨found, empty⟩
    · rw [found]
      refine ⟨_, _, way.step low high filledZ _, fun x inside keyX live passed => ?_⟩
      rw [List.map_append, List.mem_append]
      have upTo : x < z + 1 := passed.resolve_right (by simp [ready.1])
      by_cases earlier : x < cur
      · exact .inl (visited x inside keyX live (.inl earlier))
      · by_cases here : x = z
        · subst here
          have same := way.slotKey_eq (way.sound.slot_live filledZ)
          exact .inr (by simp [same, keyX])
        · exact absurd (empty x (by omega) (by omega)) (valued x keyX live)
    · rw [found]
      refine ⟨cur, passed, { way with }, fun x inside keyX live _ => ?_⟩
      by_cases earlier : x < cur
      · exact visited x inside keyX live (.inl earlier)
      · exact absurd (empty x (by omega) (way.slots_eq ▸ inside)) (valued x keyX live)
  · refine ⟨cur, passed, way.between ready fits next, ?_⟩
    obtain ⟨returned, ended⟩ := between_same s granted depth next
    unfold Visited
    rw [returned, ended]
    exact visited

theorem Underway.distinct (sound : Sound w.mem w.t) (way : Underway w s cur passed) :
    (s.returned.map Prod.fst).Nodup := by
  rw [way.returned]
  have nodup : passed.Nodup := way.ascending.imp fun less => Nat.ne_of_lt less
  exact nodup.map_on fun x member y _ same => sound.slotKey_inj (way.before x member).2 same

theorem Underway.few (way : Underway w s cur passed) : s.returned.length ≤ w.t.sizearray + 2 ^ w.t.lsizenode := by
  have length : s.returned.length = passed.length := by
    rw [← List.length_map Prod.fst, way.returned, List.length_map]
  have nodup : passed.Nodup := way.ascending.imp fun less => Nat.ne_of_lt less
  have bounded : passed ⊆ List.range cur := fun x member => List.mem_range.mpr (way.before x member).1
  have short := (List.subperm_of_subset nodup bounded).length_le
  rw [List.length_range] at short
  exact (length ▸ short).trans way.bound

/-! ## Runs -/

/-- What a traversal comes to: no error, every key once, with its value, and in the end all of those
that had a value at every step. -/
structure Traversed (granted : Nat → Bool) (depth : Nat) (w : World) (events : List TraversalEvent)
    (s : Traversal) : Prop where
  noError : s.failed = false
  distinct : (s.returned.map Prod.fst).Nodup
  few : s.returned.length ≤ w.t.sizearray + 2 ^ w.t.lsizenode
  counted : events.countP isNext = s.returned.length + if s.ended then 1 else 0
  current : ∀ key v, luaHNext s.mem s.t s.key = some (some (key, v)) →
    Lua.TableNext.contents s.mem s.t key = v ∧ v ≠ .nil
  complete : s.ended = true → ∀ key,
    (traversals granted depth).Meets (fun s _ => Lua.TableNext.contents s.mem s.t key ≠ .nil)
      (Traversal.start w) events → key ∈ s.returned.map Prod.fst

theorem traversal_step {s s' : Traversal} {e : TraversalEvent}
    (stepped : (traversals granted depth).step s e = some s') : s.ready e = true ∧ s.exec granted depth e = s' := by
  simp only [traversals] at stepped
  split at stepped
  next ready => exact ⟨ready, Option.some.inj stepped⟩
  next => cases stepped

theorem Sound.visited (sound : Sound w.mem w.t) {key : Key} {events : List TraversalEvent} {s : Traversal}
    (fits : (traversals granted depth).Meets FitsTraversal (Traversal.start w) events)
    (filled : (traversals granted depth).Meets (fun s _ => Lua.TableNext.contents s.mem s.t key ≠ .nil)
      (Traversal.start w) events)
    (ran : (traversals granted depth).run (Traversal.start w) events = some s) : ∃ cur, Visited w key s cur := by
  have start : Visited w key (Traversal.start w) 0 := by
    intro x _ _ _ passed
    rcases passed with impossible | impossible
    · exact absurd impossible (Nat.not_lt_zero x)
    · cases impossible
  have both : ∃ cur passed, Underway w s cur passed ∧ Visited w key s cur := by
    have kept : ∀ s e s', (∃ cur passed, Underway w s cur passed ∧ Visited w key s cur) →
        FitsTraversal s e ∧ Lua.TableNext.contents s.mem s.t key ≠ .nil →
        (traversals granted depth).step s e = some s' →
        ∃ cur passed, Underway w s' cur passed ∧ Visited w key s' cur := by
      rintro s e s' ⟨cur, passed, way, visited⟩ ⟨fits, filled⟩ stepped
      obtain ⟨ready, rfl⟩ := traversal_step stepped
      exact way.visits sound visited ready fits filled
    exact (traversals granted depth).invariant_of_meets kept ⟨0, [], start_underway sound, start⟩
      (fits.and _ filled) ran
  obtain ⟨cur, -, -, visited⟩ := both
  exact ⟨cur, visited⟩

theorem Sound.traversed (sound : Sound w.mem w.t) {events : List TraversalEvent} {s : Traversal}
    (fits : (traversals granted depth).Meets FitsTraversal (Traversal.start w) events)
    (ran : (traversals granted depth).run (Traversal.start w) events = some s) :
    Traversed granted depth w events s := by
  have start : ∃ cur passed, Underway w (Traversal.start w) cur passed := ⟨0, [], start_underway sound⟩
  have kept : ∀ s e s', (∃ cur passed, Underway w s cur passed) → FitsTraversal s e →
      (traversals granted depth).step s e = some s' →
      (∃ cur passed, Underway w s' cur passed) ∧ steps s' = steps s + if isNext e then 1 else 0 := by
    rintro s e s' ⟨cur, passed, way⟩ fits stepped
    obtain ⟨ready, rfl⟩ := traversal_step stepped
    exact way.exec ready fits
  have counted : steps s = steps (Traversal.start w) + events.countP isNext :=
    (traversals granted depth).count_of_meets kept start fits ran
  have way : ∃ cur passed, Underway w s cur passed :=
    (traversals granted depth).invariant_of_meets
      (fun s e s' way fits stepped => (kept s e s' way fits stepped).1) start fits ran
  obtain ⟨cur, passed, way⟩ := way
  refine ⟨way.failed, way.distinct sound, way.few, ?_, fun key v next => ?_, fun ended key filled => ?_⟩
  · have none : steps (Traversal.start w) = 0 := rfl
    rw [none, Nat.zero_add] at counted
    exact counted.symm
  · rcases way.next_cases with ⟨x, found, -, -, value, -⟩ | ⟨found, -⟩
    · rw [found] at next
      simp only [Option.some.injEq, Prod.mk.injEq] at next
      obtain ⟨rfl, rfl⟩ := next
      exact ⟨way.sound.contents_slotKey (way.sound.slot_live value), value⟩
    · rw [found] at next
      cases next
  · have visited : ∃ cur, Visited w key s cur := sound.visited fits filled ran
    cases events with
    | nil =>
      simp only [System.run_nil, Option.some.injEq] at ran
      subst ran
      cases ended
    | cons e events =>
      obtain ⟨x, inside, keyX, value⟩ := sound.exists_slot filled.1
      obtain ⟨cur, visited⟩ := visited
      have live : (slotKey w.t x).isLive := sound.slot_live (value ▸ filled.1)
      exact visited x inside keyX (keyX ▸ live) (.inr ended)

/-- In every run from a new table whose steps fit, every traversal is complete and without repetition. -/
theorem next_traverses {narray nhash : Nat} (small : narray < 2 ^ 31) {events : List TableEvent} {w : World}
    (fits : (tables granted depth).Meets (Fits granted depth) (newWorld granted narray nhash) events)
    (ran : (tables granted depth).run (newWorld granted narray nhash) events = some w)
    {traversal : List TraversalEvent} {s : Traversal}
    (fitsTraversal : (traversals granted depth).Meets FitsTraversal (Traversal.start w) traversal)
    (ranTraversal : (traversals granted depth).run (Traversal.start w) traversal = some s) :
    Traversed granted depth w traversal s :=
  (run_sound small fits ran).traversed fitsTraversal ranTraversal

end

/-! ## Three strings with one main position -/

def threeStrings : List TableEvent :=
  [.alloc 1 ⟨.string, [97]⟩, .alloc 2 ⟨.string, [101]⟩, .alloc 3 ⟨.string, [105]⟩,
    .set (.gc .string 1) (.boolean 1), .set (.gc .string 2) (.boolean 1), .set (.gc .string 3) (.boolean 1)]

def collection (weak : Bool) (marked : List Nat) (empty : List Nat) : Collection where
  weakkey := weak
  weakvalue := weak
  marked := fun p => marked.contains p
  cleared := fun _ => false
  empty := fun i => empty.contains i

/-- The entry of the current key is removed, and so is the one behind it, whose key is freed. -/
def throughDead : List TraversalEvent :=
  [.next, .assign (.gc .string 1) .nil, .assign (.gc .string 3) .nil, .collect (collection false [1, 2] [0, 2]),
    .next, .next]

theorem throughDead_traversed :
    ∃ w s, (tables (fun _ => true) 3).run (newWorld (fun _ => true) 0 4) threeStrings = some w ∧
      (traversals (fun _ => true) 3).run (Traversal.start w) throughDead = some s ∧ s.ended = true ∧
      s.returned.map Prod.fst = [.gc .string 1, .gc .string 2] ∧
      Traversed (fun _ => true) 3 w throughDead s := by
  have small : 0 < 2 ^ 31 := by decide
  have fits : (tables (fun _ => true) 3).Meets (Fits (fun _ => true) 3) (newWorld (fun _ => true) 0 4)
      threeStrings := by decide
  have both : (((tables (fun _ => true) 3).run (newWorld (fun _ => true) 0 4) threeStrings).bind fun w =>
      ((traversals (fun _ => true) 3).run (Traversal.start w) throughDead).map fun s =>
        (s.ended, s.returned.map Prod.fst)) = some (true, [.gc .string 1, .gc .string 2]) := by decide
  have fitting : ((tables (fun _ => true) 3).run (newWorld (fun _ => true) 0 4) threeStrings).all (fun w =>
      (traversals (fun _ => true) 3).Meets FitsTraversal (Traversal.start w) throughDead) = true := by decide
  simp only [Option.bind_eq_some_iff, Option.map_eq_some_iff, Prod.mk.injEq] at both
  obtain ⟨w, ran, s, ranTraversal, ended, returned⟩ := both
  rw [ran] at fitting
  have fitsTraversal : (traversals (fun _ => true) 3).Meets FitsTraversal (Traversal.start w) throughDead := by
    simpa using fitting
  exact ⟨w, s, ran, ranTraversal, ended, returned, next_traverses small fits ran fitsTraversal ranTraversal⟩

/-- The second string is freed in its node, and other strings come to its address and to its node's chain. -/
def freedInNode : List TableEvent :=
  threeStrings ++ [.set (.gc .string 2) .nil, .collect (collection true [1, 3] []), .alloc 2 ⟨.string, [99]⟩,
    .set (.gc .string 2) (.boolean 1), .alloc 4 ⟨.string, [103]⟩, .set (.gc .string 4) (.boolean 1)]

theorem freedInNode_fails :
    ∃ w s, (tables (fun _ => true) 3).run (newWorld (fun _ => true) 0 4) freedInNode = some w ∧
      (traversals (fun _ => true) 3).run (Traversal.start w) (List.replicate 5 .next) = some s ∧
      s.failed = true := by
  have both : (((tables (fun _ => true) 3).run (newWorld (fun _ => true) 0 4) freedInNode).bind fun w =>
      ((traversals (fun _ => true) 3).run (Traversal.start w) (List.replicate 5 .next)).map fun s =>
        s.failed) = some true := by decide
  simp only [Option.bind_eq_some_iff, Option.map_eq_some_iff] at both
  obtain ⟨w, ran, s, rest⟩ := both
  exact ⟨w, s, ran, rest⟩

end Lunatik.Verified.DeadKeys
