import Lunatik.Verified.DeadKeys
import Lunatik.Verified.TableRefusals

/-! # What programs and the collector do with a table

Every event keeps the invariant of `DeadKeys` but for two: a collection that frees the key of an entry
without a value and leaves it in its node, and a `resize` that fails after the array part has grown over
keys that are still in nodes.
-/

namespace Lunatik.Verified.DeadKeys

open Lunatik.Lua (TValue LuaNumber luaiNumisnan)
open Lunatik.Lua.Ltable (Slot castNumber ceillog2 maxbits)
open Lunatik.Lua.TableNext Lunatik.Library

variable {mem : Memory} {t : Table}

namespace Sound

theorem changed {mem' : Memory} {t' : Table} (sound : Sound mem t) (change : Changes mem t mem' t') :
    Sound mem' t' := by
  obtain ⟨tag, births, inv⟩ := sound
  exact ⟨tag, births, inv.changed change⟩

theorem valued (sound : Sound mem t) {i : Nat} (filled : (t.node i).val ≠ .nil) : (t.node i).key.isLive := by
  obtain ⟨tag, births, inv⟩ := sound
  exact inv.valued i filled

theorem alive (sound : Sound mem t) {i : Nat} (live : (t.node i).key.isLive) :
    (t.node i).key.alive mem := by
  obtain ⟨tag, births, inv⟩ := sound
  exact inv.alive i live

-- the fields that the invariant does not speak of
theorem same_changes {t' : Table} (sound : Sound mem t) (node : t'.node = t.node)
    (lsizenode : t'.lsizenode = t.lsizenode) (sizearray : t'.sizearray = t.sizearray)
    (isDummy : t'.isDummy = t.isDummy) (lastfree : t'.lastfree ≤ t.lastfree) : Changes mem t mem t' := by
  refine ⟨lsizenode, sizearray, isDummy, lastfree, fun i => ?_, fun i => .inl ?_,
    fun i filled => ?_, fun _ _ _ _ => rfl⟩
  · rw [node]
  · rw [node]
  · rw [node] at filled ⊢
    exact sound.valued filled

theorem of_same {t' : Table} (sound : Sound mem t) (node : t'.node = t.node)
    (lsizenode : t'.lsizenode = t.lsizenode) (sizearray : t'.sizearray = t.sizearray)
    (isDummy : t'.isDummy = t.isDummy) (lastfree : t'.lastfree ≤ t.lastfree) : Sound mem t' :=
  sound.changed (sound.same_changes node lsizenode sizearray isDummy lastfree)

end Sound

/-- The slot may be given a value. -/
def Holds (t : Table) : Slot → Prop
  | .array _ => True
  | .node i => (t.node i).key.isLive

theorem Sound.setSlot_changes (sound : Sound mem t) {slot : Slot} (holds : Holds t slot) (v : TValue) :
    Changes mem t mem (t.setSlot slot v) := by
  cases slot with
  | array i => exact sound.same_changes rfl rfl rfl rfl le_rfl
  | node i =>
    have node : ∀ k, (t.setSlot (.node i) v).node k = if k = i then { t.node i with val := v } else t.node k :=
      fun k => Function.update_apply _ _ _ _
    refine ⟨rfl, rfl, rfl, le_rfl, fun k => ?_, fun k => .inl ?_, fun k filled => ?_, fun _ _ _ _ => rfl⟩
    · rw [node]
      split
      next same => rw [same]
      next => rfl
    · rw [node]
      split
      next same => rw [same]
      next => rfl
    · rw [node] at filled ⊢
      split
      next => exact holds
      next other =>
        rw [if_neg other] at filled
        exact sound.valued filled

theorem Sound.setSlot (sound : Sound mem t) {slot : Slot} (holds : Holds t slot) (v : TValue) :
    Sound mem (t.setSlot slot v) :=
  sound.changed (sound.setSlot_changes holds v)

/-- The nodes are all free, as `setnodevector` leaves them. -/
structure Emptied (t : Table) : Prop where
  node : t.node = fun _ => freeNode
  lastfree : t.lastfree ≤ t.sizenode
  dummy : t.isDummy → t.lsizenode = 0 ∧ t.lastfree = 0
  small : t.sizearray < 2 ^ 31

theorem Emptied.sound (emptied : Emptied t) : Sound mem t := by
  have key : ∀ i, (t.node i).key = .nil := fun i => by rw [emptied.node]; rfl
  have dead : ∀ i, ¬ (t.node i).key.isLive := fun i => by simp [key, Key.isLive]
  refine ⟨fun _ => none, 0, ?_⟩
  constructor
  · exact Scatter.empty (fun _ => rfl) fun i => by rw [nextOf, emptied.node]; rfl
  · intro i g tagged
    cases tagged
  · intro i
    simp [key]
  · intro i _
    exact key i
  · intro i filled
    rw [emptied.node] at filled
    exact absurd rfl filled
  · intro i live
    exact absurd live (dead i)
  · intro i g tagged
    cases tagged
  · intro i j live
    exact absurd live (dead i)
  · intro i j tt p g _ _ tagged
    cases tagged
  · intro i live
    exact absurd live (dead i)
  · exact emptied.lastfree
  · intro isDummy
    exact ⟨(emptied.dummy isDummy).1, key 0, (emptied.dummy isDummy).2⟩
  · exact emptied.small

/-! ## Setting a key -/

/-- What is left after an error. -/
def Intact (mem : Memory) (e : TableError) (t : Table) : Prop := e = .failed true ∨ Sound mem t

def GrowSpec (mem : Memory) (grow : Key → TableM Slot) : Prop :=
  ∀ key, key.alive mem → Triple (Sound mem) (grow key) (fun slot t => Sound mem t ∧ Holds t slot) (Intact mem)

section
variable {grow : Key → TableM Slot} {granted : Nat → Bool}

theorem newkey_spec (spec : GrowSpec mem grow) {key : Key} (alive : key.alive mem) :
    Triple (fun t => Sound mem t ∧ luaHGet mem t key = some none) (newkey mem grow key)
      (fun slot t => Sound mem t ∧ Holds t slot) (Intact mem) := by
  rintro t ⟨⟨tag, births, inv⟩, none⟩
  obtain ⟨hashed, absent⟩ := inv.luaHGet_none (isLive_of_alive alive) none
  rcases inv.newkey_cases key grow with ⟨j, t', tag', src, ran, adds⟩ | ran
  · rw [ran]
    refine ⟨⟨tag', births + 1, inv.added alive absent hashed adds⟩, ?_⟩
    rw [Holds, adds.newNode.1]
    exact isLive_of_alive alive
  · rw [ran]
    have sound : Sound mem t := ⟨tag, births, inv⟩
    exact spec key alive _ (sound.of_same rfl rfl rfl rfl (Nat.zero_le _))

theorem luaHSet_spec (spec : GrowSpec mem grow) {key : Key} (alive : key = .nil ∨ key.alive mem) :
    Triple (Sound mem) (luaHSet mem grow key) (fun slot t => Sound mem t ∧ Holds t slot) (Intact mem) := by
  unfold luaHSet
  refine Triple.get_bind fun t => ?_
  cases found : luaHGet mem t key with
  | none => exact Triple.raise fun s holds => .inr holds.1
  | some known =>
    cases known with
    | some slot =>
      refine Triple.ret ?_
      rintro s ⟨sound, rfl⟩
      refine ⟨sound, ?_⟩
      obtain ⟨slotOf, proper⟩ := luaHGet_slot found
      cases slot with
      | array i => trivial
      | node i =>
        have keyEq : (s.node i).key = key := slotOf
        rw [Holds, keyEq]
        exact isLive_of_alive (alive.resolve_left proper)
    | none =>
      refine Triple.cond (fun nil => Triple.raise fun s holds => .inr holds.1) fun proper => ?_
      have insert : Triple (fun s => Sound mem s ∧ s = t) (newkey mem grow key)
          (fun slot t => Sound mem t ∧ Holds t slot) (Intact mem) :=
        (newkey_spec spec (alive.resolve_left proper)).pre fun s holds => ⟨holds.1, by rw [holds.2, found]⟩
      cases key with
      | number n => exact Triple.cond (fun _ => Triple.raise fun s holds => .inr holds.1) fun _ => insert
      | _ => exact insert

-- a value is stored under the key before the rest of a loop
theorem store_spec (spec : GrowSpec mem grow) {key : Key} (alive : key = .nil ∨ key.alive mem) (v : TValue)
    {rest : TableM PUnit} (after : Triple (Sound mem) rest (fun _ => Sound mem) (Intact mem)) :
    Triple (Sound mem) (luaHSet mem grow key >>= fun slot => modify (fun t => t.setSlot slot v) >>= fun _ => rest)
      (fun _ => Sound mem) (Intact mem) :=
  Triple.bind (luaHSet_spec spec alive) fun _ =>
    Triple.bind (Triple.update fun _ holds => holds.1.setSlot holds.2 v) fun _ => after

/-! ## `resize` -/

theorem reinsertSlice_spec (spec : GrowSpec mem grow) (slice : List Nat) :
    Triple (Sound mem) (reinsertSlice mem grow slice) (fun _ => Sound mem) (Intact mem) := by
  induction slice with
  | nil => exact Triple.ret fun _ holds => holds
  | cons i slice ih =>
    rw [reinsertSlice]
    refine Triple.get_bind fun t => ?_
    refine Triple.pre (P := Sound mem) ?_ fun _ holds => holds.1
    exact Triple.cond (fun _ => store_spec spec (.inr rfl) (t.array i) ih) fun _ => ih

theorem reinsertNodes_spec (spec : GrowSpec mem grow) (old : List Node)
    (alive : ∀ n ∈ old, n.val ≠ .nil → n.key.alive mem) :
    Triple (Sound mem) (reinsertNodes mem grow old) (fun _ => Sound mem) (Intact mem) := by
  induction old with
  | nil => exact Triple.ret fun _ holds => holds
  | cons n old ih =>
    have rest := ih fun m member => alive m (List.mem_cons_of_mem _ member)
    rw [reinsertNodes]
    exact Triple.cond (fun filled => store_spec spec (.inr (alive n List.mem_cons_self filled)) n.val rest)
      fun _ => rest

theorem Sound.oldNodes_alive (sound : Sound mem t) :
    ∀ n ∈ oldNodes t, n.val ≠ .nil → n.key.alive mem := by
  intro n member filled
  obtain ⟨i, -, rfl⟩ := List.mem_map.mp member
  exact sound.alive (sound.valued filled)

-- the table before its nodes are made anew; where its array has grown, its keys may be out of place
structure Prepared (mem : Memory) (old t : Table) (nasize : Nat) : Prop where
  small : t.sizearray < 2 ^ 31
  sound : ¬ old.sizearray < nasize → Sound mem t

theorem request_spec {P : Table → Prop} (counted : ∀ t, P t → P { t with requests := t.requests + 1 })
    (grew : Bool) {E : TableError → Table → Prop} (refused : ∀ t, P t → E (.failed grew) t) :
    Triple P (request granted grew) (fun _ => P) E := by
  unfold request
  refine Triple.get_bind fun t => Triple.bind (R := fun _ => P) (fun s holds => ?_) fun _ => ?_
  · obtain ⟨held, rfl⟩ := holds
    exact counted s held
  · exact Triple.cond (fun _ => Triple.ret fun _ holds => holds) fun _ => Triple.raise refused

theorem Sound.counted (t : Table) (sound : Sound mem t) : Sound mem { t with requests := t.requests + 1 } :=
  sound.of_same rfl rfl rfl rfl le_rfl

theorem setarrayvector_spec {old : Table} {nasize : Nat} (small : nasize < 2 ^ 31)
    (grows : old.sizearray < nasize) :
    Triple (Sound mem) (setarrayvector granted nasize) (fun _ t => Prepared mem old t nasize) (Intact mem) :=
  Triple.bind (request_spec Sound.counted false fun _ sound => .inr sound) fun _ =>
    Triple.update fun _ _ => ⟨small, fun same => absurd grows same⟩

theorem setnodevector_emptied {P : Table → Prop} (small : ∀ t, P t → t.sizearray < 2 ^ 31)
    (counted : ∀ t, P t → P { t with requests := t.requests + 1 }) (grew : Bool)
    {E : TableError → Table → Prop} (refused : ∀ t, P t → E (.failed grew) t) (nhsize : Nat) :
    Triple P (setnodevector granted grew nhsize) (fun _ => Emptied) E := by
  unfold setnodevector
  refine Triple.cond (fun _ => Triple.update fun t holds => ?_) fun _ => ?_
  · exact ⟨rfl, Nat.zero_le _, fun _ => ⟨rfl, rfl⟩, small t holds⟩
  · refine Triple.cond (fun _ => ?_) fun _ => ?_
    · exact Triple.bind (R := fun _ _ => False) (Triple.raise refused) fun _ _ impossible => impossible.elim
    · refine Triple.bind (request_spec counted _ refused) fun _ => Triple.update fun t holds => ?_
      exact ⟨rfl, le_rfl, fun isDummy => (by cases isDummy), small t holds⟩

theorem setnodevector_spec (old : Table) (nasize nhsize : Nat) :
    Triple (fun t => Prepared mem old t nasize) (setnodevector granted (old.sizearray < nasize) nhsize)
      (fun _ => Emptied) (Intact mem) := by
  refine setnodevector_emptied (fun t prepared => prepared.small) (fun t prepared => ?_) _
    (fun t prepared => ?_) nhsize
  · exact ⟨prepared.small, fun same => (prepared.sound same).counted⟩
  · by_cases grows : old.sizearray < nasize
    · exact .inl (by simp [grows])
    · exact .inr (prepared.sound grows)

theorem shrinkArray_spec (spec : GrowSpec mem grow) (oldasize : Nat) {nasize : Nat} (small : nasize < 2 ^ 31) :
    Triple Emptied (shrinkArray mem granted grow oldasize nasize) (fun _ => Sound mem) (Intact mem) := by
  have shrunk : ∀ t, Emptied t → Sound mem { t with sizearray := nasize } := fun t emptied =>
    (Emptied.mk emptied.node emptied.lastfree emptied.dummy small : Emptied { t with sizearray := nasize }).sound
  exact Triple.bind (Triple.update shrunk) fun _ => Triple.bind (reinsertSlice_spec spec _) fun _ =>
    request_spec Sound.counted false fun _ sound => .inr sound

theorem resize_spec (spec : GrowSpec mem grow) {nasize : Nat} (small : nasize < 2 ^ 31) (nhsize : Nat) :
    Triple (Sound mem) (resize mem granted grow nasize nhsize) (fun _ => Sound mem) (Intact mem) := by
  unfold resize
  refine Triple.get_bind fun old => ?_
  refine Triple.given (φ := Sound mem old) (fun s holds => holds.2 ▸ holds.1) fun sound => ?_
  have inserts : Triple (Sound mem) (reinsertNodes mem grow (oldNodes old)) (fun _ => Sound mem) (Intact mem) :=
    reinsertNodes_spec spec _ sound.oldNodes_alive
  refine Triple.cond_then (R := fun t => Prepared mem old t nasize) (fun grows => ?_) (fun _ s holds => ?_) ?_
  · exact (setarrayvector_spec small grows).pre fun s holds => holds.1
  · obtain ⟨sound, rfl⟩ := holds
    obtain ⟨tag, births, inv⟩ := sound
    exact ⟨inv.small, fun _ => ⟨tag, births, inv⟩⟩
  · refine Triple.bind (setnodevector_spec old nasize nhsize) fun _ => ?_
    exact Triple.cond_then (fun _ => shrinkArray_spec spec _ small) (fun _ s emptied => emptied.sound) inserts

end

theorem grow_spec (mem : Memory) (granted : Nat → Bool) (depth : Nat) :
    GrowSpec mem (grow mem granted depth) := by
  induction depth with
  | zero => exact fun _ _ => Triple.raise fun _ sound => .inr sound
  | succ depth ih =>
    intro key alive
    have resized : Triple (Sound mem) (rehash mem granted (grow mem granted depth) key) (fun _ => Sound mem)
        (Intact mem) :=
      Triple.get_bind fun t => (resize_spec ih (rehashSizes_small t.view key.view) _).pre fun _ holds => holds.1
    exact Triple.bind resized fun _ => luaHSet_spec ih (.inr alive)

/-! ## Collections -/

/-- A collection of a table that is weak in both keys and values keeps the keys of the entries without
a value. -/
def KeepsEmpty (c : Collection) (t : Table) : Prop :=
  (c.weakkey && c.weakvalue) = true → ∀ i < t.sizenode, (t.node i).val = .nil → c.keeps (t.node i).key = true

section
variable {c : Collection}

theorem clearNode_empty {i : Nat} {n : Node} (empty : n.val = .nil) : c.clearNode i n = n := by
  simp [Collection.clearNode, empty]

theorem traverseNode_filled {i : Nat} {n : Node} (filled : n.val ≠ .nil) : c.traverseNode i n = n := by
  simp [Collection.traverseNode, filled]

-- an entry is removed, or it has nothing that the collection removes
theorem collectNode_cases (c : Collection) (i : Nat) (n : Node) :
    c.collectNode i n = Collection.removeentry { n with val := .nil } ∨
      (c.collectNode i n = n ∧ (n.val = .nil → (c.weakkey && c.weakvalue) = false → c.empty i = false) ∧
        (n.val ≠ .nil → c.weakkey = true → c.keyCleared n.key = false)) := by
  by_cases empty : n.val = .nil
  · have same : c.collectNode i n = c.traverseNode i n := by
      have emptied : (c.traverseNode i n).val = .nil := by
        unfold Collection.traverseNode
        split
        · exact empty
        · split <;> exact empty
      rw [Collection.collectNode, clearNode_empty emptied, ite_self]
    rw [same, Collection.traverseNode]
    split
    next left => exact .inr ⟨rfl, fun _ right => absurd (left.symm.trans right) (by decide), by simp [empty]⟩
    next =>
      split
      next removed =>
        left
        obtain ⟨val, key, next⟩ := n
        obtain rfl : val = .nil := empty
        rfl
      next kept => exact .inr ⟨rfl, fun _ _ => by simpa [empty] using kept, by simp [empty]⟩
  · rw [Collection.collectNode, traverseNode_filled empty, Collection.clearNode]
    split
    next =>
      split
      next => exact .inl rfl
      next kept =>
        simp only [ne_eq, empty, not_false_eq_true, true_and, Bool.or_eq_true, not_or,
          Bool.not_eq_true] at kept
        exact .inr ⟨rfl, by simp [empty], fun _ _ => kept.1⟩
    next strong =>
      simp only [Collection.weak, Bool.or_eq_true, not_or] at strong
      exact .inr ⟨rfl, by simp [empty], fun _ weak => absurd weak strong.1⟩

-- a key that stays in its node is one of an object that stays
theorem collect_memory (marks : c.marksKeys t = true) (keepsEmpty : KeepsEmpty c t) {i : Nat}
    (inside : i < t.sizenode) {tt : GcType} {p : Nat} (key : (c.collectNode i (t.node i)).key = .gc tt p) :
    c.marked p = true := by
  rcases collectNode_cases c i (t.node i) with removed | ⟨same, empty, filled⟩
  · rw [removed] at key
    cases old : (t.node i).key <;> simp [Collection.removeentry, old, Key.remove] at key
  · rw [same] at key
    have marked := List.all_eq_true.mp marks i (List.mem_range.mpr inside)
    have keeps : c.keeps (t.node i).key = c.marked p := by rw [key]; rfl
    dsimp only at marked
    split at marked
    next none =>
      cases left : c.weakkey && c.weakvalue with
      | true => exact keeps ▸ keepsEmpty left i inside none
      | false => simpa [left, empty none left, keeps] using marked
    next some =>
      cases weak : c.weakkey with
      | true => simpa [weak, filled some weak, keeps] using marked
      | false => simpa [weak, keeps] using marked

theorem Sound.collect_changes (sound : Sound mem t) (marks : c.marksKeys t = true)
    (keepsEmpty : KeepsEmpty c t) : Changes mem t (c.sweep mem) (c.collectTable t) := by
  have node : ∀ i, (c.collectTable t).node i = if i < t.sizenode then c.collectNode i (t.node i) else t.node i :=
    fun i => rfl
  refine ⟨rfl, rfl, rfl, le_rfl, fun i => ?_, fun i => ?_, fun i filled => ?_, fun i tt p key => ?_⟩
  · rw [node]
    split
    next =>
      rcases collectNode_cases c i (t.node i) with removed | ⟨same, -⟩
      · rw [removed]
        rfl
      · rw [same]
    next => rfl
  · rw [node]
    split
    next =>
      rcases collectNode_cases c i (t.node i) with removed | ⟨same, -⟩
      · rw [removed]
        cases old : (t.node i).key with
        | gc tt p => exact .inr ⟨tt, p, rfl, by simp [Collection.removeentry, Key.remove]⟩
        | _ => exact .inl (by simp [Collection.removeentry, Key.remove])
      · rw [same]
        exact .inl rfl
    next => exact .inl rfl
  · rw [node] at filled ⊢
    split
    next inside =>
      rw [if_pos inside] at filled
      rcases collectNode_cases c i (t.node i) with removed | ⟨same, -⟩
      · rw [removed] at filled
        exact absurd rfl filled
      · rw [same] at filled ⊢
        exact sound.valued filled
    next outside =>
      rw [if_neg outside] at filled
      exact sound.valued filled
  · rw [node] at key
    split at key
    next inside =>
      rw [Collection.sweep, if_pos (collect_memory marks keepsEmpty inside key)]
    next outside =>
      obtain ⟨tag, births, inv⟩ := sound
      rw [inv.outside i (by omega)] at key
      cases key

end

-- an object that is new is not where one exists
theorem alloc_memory {p : Nat} (free : (mem p).isNone = true) (o : Obj) {key : Key} (alive : key.alive mem)
    {tt : GcType} {q : Nat} (keyEq : key = .gc tt q) : Function.update mem p (some o) q = mem q := by
  refine Function.update_of_ne ?_ _ _
  rintro rfl
  rw [keyEq, Key.alive, Option.isNone_iff_eq_none.mp free] at alive
  cases alive

theorem Sound.alloc_changes (sound : Sound mem t) {p : Nat} (free : (mem p).isNone = true) (o : Obj) :
    Changes mem t (Function.update mem p (some o)) t :=
  ⟨rfl, rfl, rfl, le_rfl, fun _ => rfl, fun _ => .inl rfl, fun _ => sound.valued, fun _ _ _ key =>
    alloc_memory free o (sound.alive (key ▸ rfl)) key⟩

/-! ## Runs -/

-- a `resize` has failed that had made the array larger
def failsGrown (m : TableM PUnit) (t : Table) : Bool :=
  match m t with
  | .error (.failed true) _ => true
  | _ => false

/-- A collection keeps the keys of empty entries, and no `resize` fails once it has made the array larger. -/
def Fits (granted : Nat → Bool) (depth : Nat) (w : World) : TableEvent → Prop
  | .alloc _ _ => True
  | .set key v => failsGrown (setTable w.mem granted depth key v) w.t = false
  | .resizearray nasize => failsGrown (luaHResizearray w.mem granted depth nasize) w.t = false
  | .collect c => KeepsEmpty c w.t

instance (c : Collection) (t : Table) : Decidable (KeepsEmpty c t) := inferInstanceAs (Decidable (_ → _))

instance (granted : Nat → Bool) (depth : Nat) (w : World) (e : TableEvent) : Decidable (Fits granted depth w e) :=
  match e with
  | .alloc _ _ => .isTrue trivial
  | .set key v => inferInstanceAs (Decidable (failsGrown (setTable w.mem granted depth key v) w.t = false))
  | .resizearray nasize =>
    inferInstanceAs (Decidable (failsGrown (luaHResizearray w.mem granted depth nasize) w.t = false))
  | .collect c => inferInstanceAs (Decidable (KeepsEmpty c w.t))

theorem intact_after {m : TableM PUnit} (triple : Triple (Sound mem) m (fun _ => Sound mem) (Intact mem))
    (sound : Sound mem t) (fits : failsGrown m t = false) : Sound mem (stateAfter m t) := by
  have result := triple t sound
  unfold stateAfter
  cases ran : m t with
  | ok _ t' =>
    rw [ran] at result
    exact result
  | error e t' =>
    rw [ran] at result
    refine result.resolve_left ?_
    rintro rfl
    simp [failsGrown, ran] at fits

theorem setTable_spec (mem : Memory) (granted : Nat → Bool) (depth : Nat) {key : Key}
    (alive : key = .nil ∨ key.alive mem) (v : TValue) :
    Triple (Sound mem) (setTable mem granted depth key v) (fun _ => Sound mem) (Intact mem) :=
  Triple.bind (luaHSet_spec (grow_spec mem granted depth) alive) fun _ =>
    Triple.update fun _ holds => holds.1.setSlot holds.2 v

theorem luaHResizearray_spec (mem : Memory) (granted : Nat → Bool) (depth : Nat) {nasize : Nat}
    (small : nasize < 2 ^ 31) :
    Triple (Sound mem) (luaHResizearray mem granted depth nasize) (fun _ => Sound mem) (Intact mem) :=
  Triple.get_bind fun _ => (resize_spec (grow_spec mem granted depth) small _).pre fun _ holds => holds.1

section
variable {granted : Nat → Bool} {depth : Nat}

theorem exec_sound {w : World} (sound : Sound w.mem w.t) {e : TableEvent} (ready : w.ready e = true)
    (fits : Fits granted depth w e) : Sound (w.exec granted depth e).mem (w.exec granted depth e).t := by
  cases e with
  | alloc p o => exact sound.changed (sound.alloc_changes ready o)
  | set key v =>
    have alive : key = .nil ∨ key.alive w.mem := by simpa [World.ready] using ready
    exact intact_after (setTable_spec w.mem granted depth alive v) sound fits
  | resizearray nasize =>
    have small : nasize < 2 ^ 31 := by simpa [World.ready] using ready
    exact intact_after (luaHResizearray_spec w.mem granted depth small) sound fits
  | collect c => exact sound.changed (sound.collect_changes ready fits)

theorem newWorld_sound (granted : Nat → Bool) {narray : Nat} (small : narray < 2 ^ 31) (nhash : Nat) :
    Sound (newWorld granted narray nhash).mem (newWorld granted narray nhash).t := by
  have empty : Emptied emptyTable := ⟨rfl, Nat.zero_le _, fun _ => ⟨rfl, rfl⟩, by decide⟩
  have counted : ∀ t, Emptied t → Emptied { t with requests := t.requests + 1 } :=
    fun t emptied => ⟨emptied.node, emptied.lastfree, emptied.dummy, emptied.small⟩
  have array : Triple Emptied (setarrayvector granted narray) (fun _ => Emptied) fun _ => Emptied :=
    Triple.bind (request_spec counted false fun _ emptied => emptied) fun _ =>
      Triple.update fun t emptied => ⟨emptied.node, emptied.lastfree, emptied.dummy, small⟩
  have made : Triple Emptied (luaHNew granted narray nhash) (fun _ => Emptied) fun _ => Emptied :=
    Triple.bind array fun _ =>
      setnodevector_emptied (fun t emptied => emptied.small) counted false (fun _ emptied => emptied) nhash
  exact (made.after empty).sound

/-- The table is sound after every run whose steps fit. -/
theorem run_sound {narray nhash : Nat} (small : narray < 2 ^ 31) {events : List TableEvent} {w : World}
    (fits : (tables granted depth).Meets (Fits granted depth) (newWorld granted narray nhash) events)
    (ran : (tables granted depth).run (newWorld granted narray nhash) events = some w) : Sound w.mem w.t := by
  have kept : ∀ w e w', Sound w.mem w.t → Fits granted depth w e →
      (tables granted depth).step w e = some w' → Sound w'.mem w'.t := by
    intro w e w' sound fits stepped
    simp only [tables] at stepped
    split at stepped
    next ready =>
      obtain rfl := Option.some.inj stepped
      exact exec_sound sound ready fits
    next => cases stepped
  exact (tables granted depth).invariant_of_meets kept (newWorld_sound granted small nhash) fits ran

end

end Lunatik.Verified.DeadKeys
