import Lunatik.Library.Hoare
import Lunatik.Library.Scatter
import Lunatik.Lua.TableNext
import Lunatik.Verified.TableChains

/-! # Tables with dead keys

`Tagged` is the invariant of a table whose entries are removed by the collector.  A dead key stays on the
chain that it was put on, though its main position cannot be computed any more, so each node is tagged
with the home that its key had.  A live key is found before any dead one that had its address.
-/

namespace Lunatik.Verified.DeadKeys

open Lunatik.Lua (TValue LuaNumber luaiNumisnan)
open Lunatik.Lua.Ltable (Slot Rep hashnum hashpow2 hashmod)
open Lunatik.Lua.TableNext Lunatik.Library

variable {mem : Memory} {t : Table}

/-! ## The invariant -/

/-- What is remembered of a key: its main position, and a number that no other key of the table has. -/
structure Tag where
  home : Nat
  birth : Nat

def nextOf (t : Table) (i : Nat) : Option Nat := (t.node i).next

/-- The key belongs to the array part. -/
def InArray (t : Table) (key : Key) : Prop := 1 ≤ arrayindex key ∧ arrayindex key ≤ t.sizearray

instance (t : Table) (key : Key) : Decidable (InArray t key) := inferInstanceAs (Decidable (_ ∧ _))

structure Tagged (mem : Memory) (t : Table) (tag : Nat → Option Tag) (births : Nat) : Prop where
  scatter : Scatter Tag.home tag (nextOf t)
  born : ∀ i g, tag i = some g → g.birth < births
  free : ∀ i, tag i = none ↔ (t.node i).key = .nil
  outside : ∀ i, t.sizenode ≤ i → (t.node i).key = .nil
  valued : ∀ i, (t.node i).val ≠ .nil → (t.node i).key.isLive
  alive : ∀ i, (t.node i).key.isLive → (t.node i).key.alive mem
  atHome : ∀ i g, tag i = some g → (t.node i).key.isLive →
    g.home = mainposition mem t (t.node i).key
  once : ∀ i j, (t.node i).key.isLive → (t.node i).key = (t.node j).key → i = j
  hidden : ∀ i j tt p g, (t.node i).key = .gc tt p → (t.node j).key = .dead p → tag i = some g →
    Reaches (nextOf t) g.home j → ¬ Reaches (nextOf t) j i
  apart : ∀ i, (t.node i).key.isLive → ¬ InArray t (t.node i).key
  lastfree : t.lastfree ≤ t.sizenode
  dummy : t.isDummy → t.lsizenode = 0 ∧ (t.node 0).key = .nil ∧ t.lastfree = 0
  small : t.sizearray < 2 ^ 31

def Sound (mem : Memory) (t : Table) : Prop := ∃ tag births, Tagged mem t tag births

/-! ## Keys -/

theorem isLive_of_alive {key : Key} (alive : key.alive mem) : key.isLive := by
  cases key with
  | gc => rfl
  | _ => simp_all [Key.alive, Key.isLive]

theorem ne_nil_of_live {key : Key} (live : key.isLive) : key ≠ .nil := by
  rintro rfl
  cases live

-- the type of an object is a function of its address
theorem gc_eq_of_alive {tt tt' : GcType} {p : Nat} (alive : (Key.gc tt p).alive mem)
    (alive' : (Key.gc tt' p).alive mem) : tt = tt' := by
  simp only [Key.alive, Option.any_eq_true, beq_iff_eq] at alive alive'
  obtain ⟨o, held, rfl⟩ := alive
  obtain ⟨o', held', rfl⟩ := alive'
  rw [held] at held'
  rw [Option.some.inj held']

/-- What is good enough for `next`: the key itself, or the dead key of its object. -/
theorem sameKey_iff {key k : Key} :
    sameKey key k = true ↔ k = key ∨ ∃ tt p, key = .gc tt p ∧ k = .dead p := by
  unfold sameKey
  rw [Bool.or_eq_true, beq_iff_eq]
  cases k with
  | dead p =>
    cases key with
    | gc tt q => simpa using eq_comm
    | _ => simp
  | _ => simp

/-! ## Main positions -/

theorem sizenode_pos (t : Table) : 0 < t.sizenode := Nat.two_pow_pos _

theorem mainposition_lt (mem : Memory) (t : Table) (key : Key) : mainposition mem t key < t.sizenode := by
  cases key with
  | number n =>
    simp only [mainposition, hashnum]
    split
    · exact sizenode_pos t
    · exact hashmod_lt t.view _
  | boolean b => exact hashpow2_lt t.view _
  | gc tt p =>
    cases tt with
    | string => exact hashpow2_lt t.view _
    | _ => exact hashmod_lt t.view _
  | _ => exact hashmod_lt t.view _

theorem mainposition_congr {t' : Table} (same : t'.lsizenode = t.lsizenode) (key : Key) :
    mainposition mem t' key = mainposition mem t key := by
  simp only [mainposition, hashnum, hashpow2, hashmod, Rep.sizenode,
    Table.view, same]

-- the hash of a string is that of its bytes
theorem mainposition_memory {mem' : Memory} (t : Table) {key : Key}
    (same : ∀ tt p, key = .gc tt p → mem' p = mem p) :
    mainposition mem' t key = mainposition mem t key := by
  cases key with
  | gc tt p =>
    cases tt with
    | string => simp only [mainposition, stringHash, same _ _ rfl]
    | _ => rfl
  | _ => rfl

/-! ## Searching -/

section
variable {tag : Nat → Option Tag} {births : Nat}

namespace Tagged

theorem tag_of_ne_nil (inv : Tagged mem t tag births) {i : Nat} (used : (t.node i).key ≠ .nil) :
    ∃ g, tag i = some g :=
  Option.ne_none_iff_exists'.mp ((inv.free i).not.mpr used)

theorem freeNode_of_nil (inv : Tagged mem t tag births) {i : Nat} (free : (t.node i).key = .nil) :
    t.node i = freeNode := by
  have next : (t.node i).next = none := inv.scatter.idle i ((inv.free i).mpr free)
  have val : (t.node i).val = .nil := by
    by_contra filled
    have live := inv.valued i filled
    rw [free] at live
    cases live
  cases hn : t.node i
  simp_all [freeNode]

theorem used_lt (inv : Tagged mem t tag births) {i : Nat} (used : (t.node i).key ≠ .nil) :
    i < t.sizenode := by
  by_contra outside
  exact used (inv.outside i (Nat.le_of_not_lt outside))

-- a chain has no more cells than there are nodes
theorem chain_length (inv : Tagged mem t tag births) {i : Nat} {l : List Nat} (inside : i < t.sizenode)
    (follows : Follows (nextOf t) i l) : l.length ≤ t.sizenode :=
  follows.length_le inside fun p j points => inv.used_lt ((inv.free j).not.mp (inv.scatter.target p j points))

end Tagged

theorem search_follows {found : Key → Bool} {i : Nat} {l : List Nat} (follows : Follows (nextOf t) i l)
    (rounds : Nat) (enough : l.length ≤ rounds) :
    search t found rounds i = some (l.find? fun j => found (t.node j).key) := by
  have loop : search t found rounds i = some ((l.find? fun j => found (t.node j).key).map id) :=
    follows.loop_finds (fun _ i => by rw [search, nextOf]; cases (t.node i).next <;> rfl) rounds enough
  rw [Option.map_id] at loop
  exact loop

theorem search_some {found : Key → Bool} {i n rounds : Nat} (h : search t found rounds i = some (some n)) :
    found (t.node n).key = true := by
  induction rounds generalizing i with
  | zero => cases h
  | succ rounds ih =>
    rw [search] at h
    split at h
    next here =>
      simp only [Option.some.injEq] at h
      exact h ▸ here
    next =>
      split at h
      next => cases h
      next m _ => exact ih h

/-- A search from the main position finds the live key before all nodes that are behind it. -/
theorem Tagged.search_found (inv : Tagged mem t tag births) {i : Nat} {g : Tag} {key : Key}
    (keyEq : (t.node i).key = key) (live : key.isLive) (tagged : tag i = some g) {found : Key → Bool}
    (holds : found key = true) (before : ∀ k, Reaches (nextOf t) g.home k → Reaches (nextOf t) k i → k ≠ i →
      found (t.node k).key = false) :
    search t found t.sizenode (mainposition mem t key) = some (some i) := by
  subst keyEq
  obtain ⟨l, follows, member⟩ := inv.scatter.reach i g tagged
  rw [inv.atHome i g tagged live] at follows before
  have length := inv.chain_length (mainposition_lt mem t _) follows
  rw [search_follows follows _ length, follows.find?_eq member holds before]

/-! ## `luaH_get` -/

/-- The slot is the one of the key. -/
def SlotOf (t : Table) (key : Key) : Slot → Prop
  | .array i => InArray t key ∧ i = (arrayindex key - 1).toNat
  | .node i => (t.node i).key = key

theorem Tagged.luaHGet_node (inv : Tagged mem t tag births) {i : Nat} (live : (t.node i).key.isLive) :
    luaHGet mem t (t.node i).key = some (some (.node i)) := by
  obtain ⟨g, tagged⟩ := inv.tag_of_ne_nil (ne_nil_of_live live)
  have found : search t (· == (t.node i).key) t.sizenode (mainposition mem t (t.node i).key) = some (some i) :=
    inv.search_found rfl live tagged (beq_self_eq_true _) fun k _ _ other =>
      beq_eq_false_iff_ne.mpr fun same => other (inv.once i k live same.symm).symm
  have hashed : ¬ (1 ≤ arrayindex (t.node i).key ∧ arrayindex (t.node i).key ≤ t.sizearray) := inv.apart i live
  rw [luaHGet, if_neg (ne_nil_of_live live), if_neg hashed, found]
  rfl

theorem luaHGet_slot {key : Key} {slot : Slot} (h : luaHGet mem t key = some (some slot)) :
    SlotOf t key slot ∧ key ≠ .nil := by
  rw [luaHGet] at h
  split at h
  next => cases h
  next proper =>
    split at h
    next inside =>
      simp only [Option.some.injEq] at h
      subst h
      exact ⟨⟨inside, rfl⟩, proper⟩
    next =>
      simp only [Option.map_eq_some_iff] at h
      obtain ⟨-, ran, n, rfl, rfl⟩ := h
      have same : (t.node n).key = key := by simpa using search_some ran
      exact ⟨same, proper⟩

-- a key that is not found is in no node
theorem Tagged.luaHGet_none (inv : Tagged mem t tag births) {key : Key} (live : key.isLive)
    (h : luaHGet mem t key = some none) : ¬ InArray t key ∧ ∀ i, (t.node i).key ≠ key := by
  constructor
  · intro inside
    have inside' : 1 ≤ arrayindex key ∧ arrayindex key ≤ t.sizearray := inside
    rw [luaHGet, if_neg (ne_nil_of_live live), if_pos inside'] at h
    cases h
  · rintro i rfl
    rw [inv.luaHGet_node live] at h
    cases h

/-! ## Changes of the nodes -/

-- nodes may lose their key to the collector
structure Changes (mem : Memory) (t : Table) (mem' : Memory) (t' : Table) : Prop where
  lsizenode : t'.lsizenode = t.lsizenode
  sizearray : t'.sizearray = t.sizearray
  isDummy : t'.isDummy = t.isDummy
  lastfree : t'.lastfree ≤ t.lastfree
  next : ∀ i, (t'.node i).next = (t.node i).next
  keys : ∀ i, (t'.node i).key = (t.node i).key ∨ ∃ tt p, (t.node i).key = .gc tt p ∧
    (t'.node i).key = .dead p
  valued : ∀ i, (t'.node i).val ≠ .nil → (t'.node i).key.isLive
  memory : ∀ i tt p, (t'.node i).key = .gc tt p → mem' p = mem p

namespace Changes

variable {mem' : Memory} {t' : Table} (change : Changes mem t mem' t')

include change in
theorem live_eq {i : Nat} (live : (t'.node i).key.isLive) : (t'.node i).key = (t.node i).key := by
  rcases change.keys i with same | ⟨tt, p, -, dead⟩
  · exact same
  · rw [dead] at live
    cases live

include change in
theorem nil_iff (i : Nat) : (t'.node i).key = .nil ↔ (t.node i).key = .nil := by
  rcases change.keys i with same | ⟨tt, p, gc, dead⟩
  · rw [same]
  · simp [gc, dead]

end Changes

theorem Tagged.changed (inv : Tagged mem t tag births) {mem' : Memory} {t' : Table}
    (change : Changes mem t mem' t') : Tagged mem' t' tag births := by
  have nextEq : nextOf t' = nextOf t := funext change.next
  have size : t'.sizenode = t.sizenode := by rw [Table.sizenode, change.lsizenode, Table.sizenode]
  have old : ∀ {i}, (t'.node i).key.isLive → (t'.node i).key = (t.node i).key ∧ (t.node i).key.isLive := by
    intro i live
    have same := change.live_eq live
    exact ⟨same, same ▸ live⟩
  constructor
  · rw [nextEq]
    exact inv.scatter
  · exact inv.born
  · intro i
    rw [change.nil_iff]
    exact inv.free i
  · intro i outside
    rw [change.nil_iff]
    exact inv.outside i (size ▸ outside)
  · exact change.valued
  · intro i live
    obtain ⟨same, live'⟩ := old live
    have alive := inv.alive i live'
    rw [← same] at alive
    cases key : (t'.node i).key with
    | gc tt p =>
      rw [key] at alive
      simpa only [Key.alive, change.memory i tt p key] using alive
    | _ =>
      rw [key] at alive
      exact alive
  · intro i g tagged live
    obtain ⟨same, live'⟩ := old live
    rw [mainposition_congr change.lsizenode, mainposition_memory t (change.memory i), same]
    exact inv.atHome i g tagged live'
  · intro i j live same
    have liveJ : (t'.node j).key.isLive := same ▸ live
    obtain ⟨sameI, liveI⟩ := old live
    refine inv.once i j liveI ?_
    rw [← sameI, same, (old liveJ).1]
  · intro i j tt p g keyI keyJ tagged before after
    have live : (t'.node i).key.isLive := by rw [keyI]; rfl
    obtain ⟨same, liveI⟩ := old live
    rw [keyI] at same
    rw [nextEq] at before after
    rcases change.keys j with sameJ | ⟨tt', p', gc, dead⟩
    · exact inv.hidden i j tt p g same.symm (sameJ ▸ keyJ) tagged before after
    · -- both keys were live, so they were the same
      obtain rfl : p' = p := by rw [dead] at keyJ; exact Key.dead.inj keyJ
      have aliveI := inv.alive i liveI
      have aliveJ := inv.alive j (by rw [gc]; rfl)
      rw [← same] at aliveI
      rw [gc] at aliveJ
      obtain rfl := gc_eq_of_alive aliveI aliveJ
      obtain rfl := inv.once i j liveI (same.symm.trans gc.symm)
      rw [keyI] at keyJ
      cases keyJ
  · intro i live
    obtain ⟨same, live'⟩ := old live
    rw [InArray, change.sizearray, same]
    exact inv.apart i live'
  · rw [size]
    exact change.lastfree.trans inv.lastfree
  · intro isDummy
    rw [change.isDummy] at isDummy
    obtain ⟨lsizenode, node, lastfree⟩ := inv.dummy isDummy
    rw [change.lsizenode, change.nil_iff]
    exact ⟨lsizenode, node, Nat.le_zero.mp (lastfree ▸ change.lastfree)⟩
  · rw [change.sizearray]
    exact inv.small

/-! ## A new key -/

/-- The node `j` has been given a new key; every other node is the one of the old table that `src` names. -/
structure Adds (mem : Memory) (t : Table) (tag : Nat → Option Tag) (births : Nat) (key : Key) (t' : Table)
    (tag' : Nat → Option Tag) (j : Nat) (src : Nat → Nat) : Prop where
  lsizenode : t'.lsizenode = t.lsizenode
  sizearray : t'.sizearray = t.sizearray
  real : t'.isDummy = false
  lastfree : t'.lastfree ≤ t.sizenode
  scatter : Scatter Tag.home tag' (nextOf t')
  inside : j < t.sizenode
  newNode : (t'.node j).key = key ∧ (t'.node j).val = .nil
  newTag : tag' j = some ⟨mainposition mem t key, births⟩
  oldNode : ∀ i, i ≠ j → (t'.node i).key = (t.node (src i)).key ∧ (t'.node i).val = (t.node (src i)).val
  oldTag : ∀ i, i ≠ j → tag' i = tag (src i)
  far : ∀ i, t.sizenode ≤ i → src i = i
  apart : ∀ i i', i ≠ j → i' ≠ j → src i = src i' → i = i'
  -- behind the homes there are no other nodes, in no other order
  order : ∀ i k g, i ≠ j → k ≠ j → tag (src i) = some g → (t'.node i).key.isLive → ¬ (t'.node k).key.isLive →
    Reaches (nextOf t') g.home k → Reaches (nextOf t') k i →
      Reaches (nextOf t) g.home (src k) ∧ Reaches (nextOf t) (src k) (src i)
  first : ∀ k, k ≠ j → Reaches (nextOf t') (mainposition mem t key) k → Reaches (nextOf t') k j →
    (t'.node k).key.isLive

theorem Tagged.added (inv : Tagged mem t tag births) {key : Key} (alive : key.alive mem)
    (absent : ∀ i, (t.node i).key ≠ key) (hashed : ¬ InArray t key) {t' : Table}
    {tag' : Nat → Option Tag} {j : Nat} {src : Nat → Nat} (adds : Adds mem t tag births key t' tag' j src) :
    Tagged mem t' tag' (births + 1) := by
  have size : t'.sizenode = t.sizenode := by rw [Table.sizenode, adds.lsizenode, Table.sizenode]
  have live := isLive_of_alive alive
  have notNil : key ≠ .nil := ne_nil_of_live live
  constructor
  · exact adds.scatter
  · intro i g tagged
    by_cases new : i = j
    · subst new
      rw [adds.newTag] at tagged
      obtain rfl := Option.some.inj tagged
      exact Nat.lt_succ_self _
    · rw [adds.oldTag i new] at tagged
      exact Nat.lt_succ_of_lt (inv.born _ g tagged)
  · intro i
    by_cases new : i = j
    · subst new
      simp [adds.newTag, adds.newNode.1, notNil]
    · rw [adds.oldTag i new, (adds.oldNode i new).1]
      exact inv.free _
  · intro i outside
    rw [size] at outside
    have old : i ≠ j := by
      have := adds.inside
      omega
    rw [(adds.oldNode i old).1, adds.far i outside]
    exact inv.outside i outside
  · intro i filled
    by_cases new : i = j
    · subst new
      exact absurd adds.newNode.2 filled
    · rw [(adds.oldNode i new).2] at filled
      rw [(adds.oldNode i new).1]
      exact inv.valued _ filled
  · intro i liveI
    by_cases new : i = j
    · subst new
      rw [adds.newNode.1]
      exact alive
    · rw [(adds.oldNode i new).1] at liveI ⊢
      exact inv.alive _ liveI
  · intro i g tagged liveI
    rw [mainposition_congr adds.lsizenode]
    by_cases new : i = j
    · subst new
      rw [adds.newTag] at tagged
      obtain rfl := Option.some.inj tagged
      rw [adds.newNode.1]
    · rw [adds.oldTag i new] at tagged
      rw [(adds.oldNode i new).1] at liveI ⊢
      exact inv.atHome _ g tagged liveI
  · intro i k liveI same
    by_cases new : i = j
    · by_cases new' : k = j
      · rw [new, new']
      · rw [new, adds.newNode.1, (adds.oldNode k new').1] at same
        exact absurd same.symm (absent _)
    · rw [(adds.oldNode i new).1] at liveI same
      by_cases new' : k = j
      · rw [new', adds.newNode.1] at same
        exact absurd same (absent _)
      · rw [(adds.oldNode k new').1] at same
        exact adds.apart i k new new' (inv.once _ _ liveI same)
  · intro i k tt p g keyI keyK tagged before after
    have deadK : ¬ (t'.node k).key.isLive := by simp [keyK, Key.isLive]
    have notNew : k ≠ j := by
      rintro rfl
      rw [adds.newNode.1] at deadK
      exact deadK live
    by_cases new : i = j
    · subst new
      rw [adds.newTag] at tagged
      obtain rfl := Option.some.inj tagged
      exact deadK (adds.first k notNew before after)
    · rw [adds.oldTag i new] at tagged
      have liveI : (t'.node i).key.isLive := by simp [keyI, Key.isLive]
      obtain ⟨before', after'⟩ := adds.order i k g new notNew tagged liveI deadK before after
      rw [(adds.oldNode i new).1] at keyI
      rw [(adds.oldNode k notNew).1] at keyK
      exact inv.hidden _ _ tt p g keyI keyK tagged before' after'
  · intro i liveI
    rw [InArray, adds.sizearray]
    by_cases new : i = j
    · subst new
      rw [adds.newNode.1]
      exact hashed
    · rw [(adds.oldNode i new).1] at liveI ⊢
      exact inv.apart _ liveI
  · rw [size]
    exact adds.lastfree
  · intro isDummy
    rw [adds.real] at isDummy
    cases isDummy
  · rw [adds.sizearray]
    exact inv.small

section
variable {key : Key} {mp n : Nat}

theorem Tagged.fresh (inv : Tagged mem t tag births) (home : Nat) : ∀ i, tag i ≠ some ⟨home, births⟩ :=
  fun i held => Nat.lt_irrefl _ (inv.born i _ held)

-- nothing points to a free node
theorem Tagged.unlinked (inv : Tagged mem t tag births) (free : (t.node n).key = .nil) :
    ∀ q, nextOf t q ≠ some n :=
  fun q points => inv.scatter.target q n points ((inv.free n).mpr free)

theorem Tagged.home_ne (inv : Tagged mem t tag births) (free : (t.node n).key = .nil) {i : Nat} {g : Tag}
    (tagged : tag i = some g) : g.home ≠ n := by
  rintro rfl
  obtain ⟨g', held, -⟩ := inv.scatter.own i g tagged
  rw [(inv.free _).mpr free] at held
  cases held

-- the main position has no value
theorem Tagged.takeMain (inv : Tagged mem t tag births) (real : t.isDummy = false)
    (mpEq : mainposition mem t key = mp) (empty : (t.node mp).val = .nil) :
    Adds mem t tag births key (t.setKey mp key) (Function.update tag mp (some ⟨mp, births⟩)) mp id := by
  have here : (t.setKey mp key).node mp = { t.node mp with key } := Function.update_self _ _ _
  have there : ∀ i, i ≠ mp → (t.setKey mp key).node i = t.node i :=
    fun i other => Function.update_of_ne other _ _
  have nextEq : nextOf (t.setKey mp key) = nextOf t := by
    funext i
    by_cases same : i = mp
    · rw [same, nextOf, nextOf, here]
    · rw [nextOf, nextOf, there i same]
  constructor
  · rfl
  · rfl
  · exact real
  · exact inv.lastfree
  · rw [nextEq]
    exact inv.scatter.take (inv.fresh mp)
  · exact mpEq ▸ mainposition_lt mem t key
  · rw [here]
    exact ⟨rfl, empty⟩
  · rw [Function.update_self, mpEq]
  · intro i other
    rw [there i other]
    exact ⟨rfl, rfl⟩
  · intro i other
    exact Function.update_of_ne other _ _
  · intro i _
    rfl
  · intro i i' _ _ same
    exact same
  · intro i k g _ _ _ _ _ before after
    rw [nextEq] at before after
    exact ⟨before, after⟩
  · intro k other before after
    rw [mpEq] at before
    exact absurd (after.antisymm before) other

-- the colliding node is in its own main position
theorem Tagged.chainNew (inv : Tagged mem t tag births) (real : t.isDummy = false)
    (mpEq : mainposition mem t key = mp) (occupied : (t.node mp).key.isLive)
    (atHome : mainposition mem t (t.node mp).key = mp) (freeKey : (t.node n).key = .nil)
    (nLt : n < t.lastfree) {t' : Table} (lsizenode : t'.lsizenode = t.lsizenode)
    (sizearray : t'.sizearray = t.sizearray) (isDummy : t'.isDummy = t.isDummy) (lastfree : t'.lastfree = n)
    (atMp : t'.node mp = { t.node mp with next := some n })
    (atN : t'.node n = ⟨.nil, key, (t.node mp).next⟩)
    (elsewhere : ∀ i, i ≠ mp → i ≠ n → t'.node i = t.node i) :
    Adds mem t tag births key t' (Function.update tag n (some ⟨mp, births⟩)) n id := by
  have different : mp ≠ n := by
    rintro rfl
    rw [freeKey] at occupied
    cases occupied
  have bound := inv.lastfree
  have unlinked := inv.unlinked freeKey
  have nextEq : nextOf t' = linkBehind (nextOf t) mp n := by
    funext i
    obtain ⟨behind, new⟩ : linkBehind (nextOf t) mp n mp = some n ∧
      linkBehind (nextOf t) mp n n = nextOf t mp :=
      linkBehind_self different
    by_cases same : i = mp
    · rw [same, behind, nextOf, atMp]
    · by_cases same' : i = n
      · rw [same', new, nextOf, atN]
        rfl
      · rw [linkBehind_other same same', nextOf, nextOf, elsewhere i same same']
  have kept : ∀ i, i ≠ n → (t'.node i).key = (t.node i).key ∧ (t'.node i).val = (t.node i).val := by
    intro i other
    by_cases same : i = mp
    · rw [same, atMp]
      exact ⟨rfl, rfl⟩
    · rw [elsewhere i same other]
      exact ⟨rfl, rfl⟩
  obtain ⟨g, tagged⟩ := inv.tag_of_ne_nil (ne_nil_of_live occupied)
  constructor
  · exact lsizenode
  · exact sizearray
  · exact isDummy.trans real
  · omega
  · rw [nextEq]
    exact inv.scatter.append (inv.fresh mp) tagged ((inv.atHome mp g tagged occupied).trans atHome)
      ((inv.free n).mpr freeKey)
  · omega
  · rw [atN]
    exact ⟨rfl, rfl⟩
  · rw [Function.update_self, mpEq]
  · exact kept
  · intro i other
    exact Function.update_of_ne other _ _
  · intro i _
    rfl
  · intro i i' _ _ same
    exact same
  · intro i k g' other other' taggedI _ _ before after
    rw [nextEq] at before after
    exact ⟨before.of_linkBehind (inv.scatter.ends _) unlinked different (inv.home_ne freeKey taggedI) other',
      after.of_linkBehind (inv.scatter.ends _) unlinked different other' other⟩
  · intro k other before after
    by_cases same : k = mp
    · rw [same, atMp]
      exact occupied
    · rw [mpEq] at before
      have link : nextOf t' mp = some n := by rw [nextOf, atMp]
      exact absurd (after.antisymm (before.tail link same)) other

-- the colliding node is out of its main position and moves to the free node
theorem Tagged.moveColliding (inv : Tagged mem t tag births) (real : t.isDummy = false)
    (mpEq : mainposition mem t key = mp) (occupied : (t.node mp).key.isLive)
    (stranger : mainposition mem t (t.node mp).key ≠ mp) (freeKey : (t.node n).key = .nil)
    (nLt : n < t.lastfree) {prev : Nat} (points : nextOf t prev = some mp) {t' : Table}
    (lsizenode : t'.lsizenode = t.lsizenode) (sizearray : t'.sizearray = t.sizearray)
    (isDummy : t'.isDummy = t.isDummy) (lastfree : t'.lastfree = n)
    (atMp : t'.node mp = ⟨.nil, key, none⟩) (atN : t'.node n = t.node mp)
    (atPrev : t'.node prev = { t.node prev with next := some n })
    (elsewhere : ∀ i, i ≠ mp → i ≠ n → i ≠ prev → t'.node i = t.node i) :
    Adds mem t tag births key t' (Function.update (Function.update tag n (tag mp)) mp (some ⟨mp, births⟩)) mp
      fun i => if i = n then mp else i := by
  have different : mp ≠ n := by
    rintro rfl
    rw [freeKey] at occupied
    cases occupied
  have bound := inv.lastfree
  have unlinked := inv.unlinked freeKey
  have prevN : prev ≠ n := by
    rintro rfl
    rw [inv.scatter.idle _ ((inv.free _).mpr freeKey)] at points
    cases points
  have prevMp : prev ≠ mp := by
    rintro rfl
    obtain ⟨l, follows⟩ := inv.scatter.ends prev
    exact follows.not_mem_of_link points follows.head_mem
  have only : ∀ q, nextOf t q = some mp → q = prev := fun q link => inv.scatter.single q prev _ link points
  have nextEq : nextOf t' = linkInstead (nextOf t) prev mp n := by
    funext i
    by_cases same : i = mp
    · rw [same, nextOf, atMp]
      simp [linkInstead]
    · by_cases same' : i = n
      · rw [same', nextOf, atN]
        simp [linkInstead, different.symm, nextOf]
      · by_cases same'' : i = prev
        · rw [same'', nextOf, atPrev]
          simp [linkInstead, prevN, prevMp]
        · rw [linkInstead_other same'' same same', nextOf, nextOf, elsewhere i same same' same'']
  have kept : ∀ i, i ≠ mp → i ≠ n → (t'.node i).key = (t.node i).key ∧
      (t'.node i).val = (t.node i).val := by
    intro i other other'
    by_cases same : i = prev
    · rw [same, atPrev]
      exact ⟨rfl, rfl⟩
    · rw [elsewhere i other other' same]
      exact ⟨rfl, rfl⟩
  obtain ⟨g, tagged⟩ := inv.tag_of_ne_nil (ne_nil_of_live occupied)
  have away : g.home ≠ mp := by
    rw [inv.atHome mp g tagged occupied]
    exact stranger
  -- no key has the stranger's node for its home
  have homes : ∀ {i g'}, tag i = some g' → g'.home ≠ mp := by
    intro i g' taggedI same
    obtain ⟨g'', held, home⟩ := inv.scatter.own i g' taggedI
    rw [same, tagged] at held
    obtain rfl := Option.some.inj held
    exact away (home.trans same)
  constructor
  · exact lsizenode
  · exact sizearray
  · exact isDummy.trans real
  · omega
  · rw [nextEq, tagged]
    exact inv.scatter.move (inv.fresh mp) tagged away ((inv.free n).mpr freeKey) points
  · exact mpEq ▸ mainposition_lt mem t key
  · rw [atMp]
    exact ⟨rfl, rfl⟩
  · rw [Function.update_self, mpEq]
  · intro i other
    by_cases same : i = n
    · rw [if_pos same, same, atN]
      exact ⟨rfl, rfl⟩
    · rw [if_neg same]
      exact kept i other same
  · intro i other
    rw [Function.update_of_ne other]
    by_cases same : i = n
    · rw [if_pos same, same, Function.update_self]
    · rw [if_neg same, Function.update_of_ne same]
  · intro i outside
    rw [if_neg (by omega)]
  · intro i i' other other' same
    split at same <;> split at same <;> omega
  · intro i k g' other other' taggedI _ dead before after
    have notN : k ≠ n := by
      rintro rfl
      rw [atN] at dead
      exact dead occupied
    rw [nextEq] at before after
    have before' := before.of_linkInstead (inv.scatter.ends _) unlinked different points only prevN prevMp
      (homes taggedI) (inv.home_ne freeKey taggedI)
    have after' := after.of_linkInstead (inv.scatter.ends _) unlinked different points only prevN prevMp
      other' notN
    rw [if_neg notN]
    refine ⟨(before'.resolve_left fun h => notN h.1).2, ?_⟩
    rcases after' with ⟨atNew, reaches⟩ | ⟨notNew, reaches⟩
    · rw [if_pos atNew]
      exact reaches
    · rw [if_neg notNew]
      exact reaches
  · intro k other before
    have ends : nextOf t' mp = none := by rw [nextOf, atMp]
    obtain ⟨l, follows, member⟩ := before
    rw [mpEq] at follows
    rw [follows.deterministic (.last ends), List.mem_singleton] at member
    exact absurd member other

end

/-! ## `newkey` -/

theorem getfreepos_some {k n lastfree : Nat} (found : getfreepos t k = (some n, lastfree)) :
    lastfree = n ∧ n < k ∧ (t.node n).key = .nil := by
  induction k with
  | zero => cases found
  | succ k ih =>
    rw [getfreepos] at found
    split at found
    next free =>
      simp only [Prod.mk.injEq, Option.some.injEq] at found
      obtain ⟨rfl, rfl⟩ := found
      exact ⟨rfl, Nat.lt_succ_self _, free⟩
    next =>
      obtain ⟨same, low, free⟩ := ih found
      exact ⟨same, by omega, free⟩

theorem getfreepos_none {k lastfree : Nat} (found : getfreepos t k = (none, lastfree)) : lastfree = 0 := by
  induction k with
  | zero =>
    cases found
    rfl
  | succ k ih =>
    rw [getfreepos] at found
    split at found
    next => cases found
    next => exact ih found

-- the chain from `othern` leads to the node, and its predecessor is found
theorem findPrevious_follows {mp i : Nat} {l : List Nat} (follows : Follows (nextOf t) i l)
    (member : mp ∈ l) (other : i ≠ mp) (rounds : Nat) (enough : l.length ≤ rounds) :
    ∃ prev, findPrevious t mp rounds i = some prev ∧ nextOf t prev = some mp :=
  follows.loop_previous (fun _ i => by rw [findPrevious, nextOf]; cases (t.node i).next <;> rfl) member other
    rounds enough

-- what newkey does when its main position is taken
def collide (mem : Memory) (grow : Key → TableM Slot) (key : Key) (t : Table) :
    EStateM.Result TableError Table Slot :=
  match getfreepos t t.lastfree with
  | (none, lastfree) => grow key { t with lastfree }
  | (some n, lastfree) =>
    let mp := mainposition mem t key
    let othern := mainposition mem t (t.node mp).key
    if othern ≠ mp then
      match findPrevious t mp t.sizenode othern with
      | none => .error .lostNode { t with lastfree }
      | some prev =>
        let t₁ := ({ t with lastfree } : Table).setNext prev (some n)
        let t₂ := t₁.setNode n (t₁.node mp)
        let t₃ := t₂.setNode mp { t₂.node mp with next := none, val := .nil }
        .ok (.node mp) (t₃.setKey mp key)
    else
      let t₁ := ({ t with lastfree } : Table).setNext n (t.node mp).next
      let t₂ := t₁.setNext mp (some n)
      .ok (.node n) (t₂.setKey n key)

theorem newkey_eq (grow : Key → TableM Slot) (key : Key) (t : Table) :
    newkey mem grow key t =
      if (t.node (mainposition mem t key)).val ≠ .nil ∨ t.isDummy = true then collide mem grow key t
      else .ok (.node (mainposition mem t key)) (t.setKey (mainposition mem t key) key) := by
  simp only [newkey, bind_run, get_run]
  split
  next collides =>
    rw [collide]
    generalize getfreepos t t.lastfree = found
    obtain ⟨n, lastfree⟩ := found
    cases n with
    | none => rfl
    | some n =>
      dsimp only
      split
      next =>
        cases findPrevious t (mainposition mem t key) t.sizenode
            (mainposition mem t (t.node (mainposition mem t key)).key) with
        | none => rfl
        | some prev => rfl
      next => rfl
  next => rfl

theorem Tagged.newkey_cases (inv : Tagged mem t tag births) (key : Key) (grow : Key → TableM Slot) :
    (∃ j t' tag' src, newkey mem grow key t = .ok (.node j) t' ∧
      Adds mem t tag births key t' tag' j src) ∨
      newkey mem grow key t = grow key { t with lastfree := 0 } := by
  obtain ⟨mp, mpEq⟩ : ∃ mp, mainposition mem t key = mp := ⟨_, rfl⟩
  rw [newkey_eq, mpEq]
  split
  next collides =>
    rw [collide]
    cases found : getfreepos t t.lastfree with
    | mk free lastfree =>
      cases free with
      | none =>
        obtain rfl := getfreepos_none found
        exact .inr rfl
      | some n =>
        obtain ⟨lastfreeEq, nLt, freeKey⟩ := getfreepos_some found
        have real : t.isDummy = false := by
          cases isDummy : t.isDummy with
          | false => rfl
          | true =>
            rw [(inv.dummy isDummy).2.2] at nLt
            exact absurd nLt (Nat.not_lt_zero n)
        have occupied : (t.node mp).key.isLive := by
          refine inv.valued mp (collides.resolve_right ?_)
          simp [real]
        have different : mp ≠ n := by
          rintro rfl
          rw [freeKey] at occupied
          cases occupied
        dsimp only
        rw [mpEq]
        by_cases atHome : mainposition mem t (t.node mp).key = mp
        · rw [if_neg (not_not.mpr atHome)]
          refine .inl ⟨n, _, _, _, rfl, inv.chainNew real mpEq occupied atHome freeKey nLt rfl rfl rfl
            lastfreeEq ?_ ?_ fun i other other' => ?_⟩
          · simp [Table.setKey, Table.setNext, Table.setNode, different]
          · simp [Table.setKey, Table.setNext, Table.setNode, different.symm,
              inv.freeNode_of_nil freeKey, freeNode]
          · simp [Table.setKey, Table.setNext, Table.setNode, other, other']
        · rw [if_pos atHome]
          obtain ⟨g, tagged⟩ := inv.tag_of_ne_nil (ne_nil_of_live occupied)
          obtain ⟨l, follows, member⟩ := inv.scatter.reach mp g tagged
          rw [inv.atHome mp g tagged occupied] at follows
          have length := inv.chain_length (mainposition_lt mem t _) follows
          obtain ⟨prev, before, points⟩ := findPrevious_follows follows member atHome t.sizenode length
          rw [before]
          have prevMp : prev ≠ mp := by
            rintro rfl
            obtain ⟨l, follows⟩ := inv.scatter.ends prev
            exact follows.not_mem_of_link points follows.head_mem
          have prevN : prev ≠ n := by
            rintro rfl
            rw [inv.scatter.idle _ ((inv.free _).mpr freeKey)] at points
            cases points
          refine .inl ⟨mp, _, _, _, rfl, inv.moveColliding real mpEq occupied atHome freeKey nLt points rfl rfl
            rfl lastfreeEq ?_ ?_ ?_ fun i other other' other'' => ?_⟩
          · simp [Table.setKey, Table.setNext, Table.setNode]
          · simp [Table.setKey, Table.setNext, Table.setNode, different.symm, different, prevMp.symm]
          · simp [Table.setKey, Table.setNext, Table.setNode, prevMp, prevN]
          · simp [Table.setKey, Table.setNext, Table.setNode, other, other', other'']
  next empty =>
    obtain ⟨noValue, real⟩ := not_or.mp empty
    exact .inl ⟨mp, _, _, _, rfl, inv.takeMain (by simpa using real) mpEq (by simpa using noValue)⟩

end

end Lunatik.Verified.DeadKeys
