import Lunatik.Library.Hoare
import Lunatik.Verified.TableRefusals

/-! # The nodes of every table are linked

After a `resize` that was refused its nodes, a key of the array can be in the nodes as well, and elements can be
lost.  What is left of the invariant is that of the hash part alone: it holds in every table, whatever memory was
refused on the way to it.
-/

namespace Lunatik.Verified

open Lunatik.Lua (TValue LuaNumber luaiNumeq luaiNumisnan)
open Lunatik.Lua.Ltable Lunatik.Library

variable {address : TValue → Nat} {granted : Allocator} {t t' u : Rep} {key : TValue} {slot : Slot}
  {grow : TValue → TableM Slot}

/-- The table without its array part. -/
def hashOnly (t : Rep) : Rep := { t with sizearray := 0 }

theorem not_inArray_hashOnly (t : Rep) (key : TValue) : ¬ InArray (hashOnly t) key := by
  rintro ⟨low, high⟩
  have none : arrayindex key ≤ 0 := high
  omega

structure Linked (address : TValue → Nat) (t : Rep) : Prop where
  hash : TableInv address (hashOnly t)
  small : t.sizearray < 2 ^ 31

theorem TableInv.linked (inv : TableInv address t) : Linked address t := by
  have apart : ∀ i, (t.node i).key ≠ .nil → ¬ InArray (hashOnly t) (t.node i).key :=
    fun i _ => not_inArray_hashOnly t _
  exact ⟨⟨⟨inv.scatter, inv.outside, inv.free, apart, inv.lastfree, inv.dummy⟩, Nat.two_pow_pos 31, inv.bits⟩, inv.small⟩

theorem search_hashOnly (found : TValue → Bool) (rounds n : Nat) :
    search (hashOnly t) found rounds n = search t found rounds n := by
  induction rounds generalizing n with
  | zero => rfl
  | succ rounds ih =>
    rw [search, search]
    simp only [ih]
    rfl

namespace Linked

/-! ## Lookups -/

theorem get_hashed (linked : Linked address t) (hashed : ¬ InArray t key) :
    luaHGet address t key = luaHGet address (hashOnly t) key := by
  have any : ∀ found n, searchFrom t found n = searchFrom (hashOnly t) found n :=
    fun found n => (search_hashOnly found _ n).symm
  cases key with
  | nil => rfl
  | string s => exact any _ _
  | number n =>
    rw [luaHGet, luaHGet]
    by_cases isInt : luaiNumeq (castNumber (number2int n)) n = true
    · have index : arrayindex (.number n) = number2int n := by rw [arrayindex, if_pos isInt]
      rw [InArray, index] at hashed
      have none := not_inArray_hashOnly t (.number n)
      rw [InArray, index] at none
      rw [if_pos isInt, if_pos isInt, luaHGetnum_node address (number2int_bounds n) hashed linked.small,
        luaHGetnum_node address (number2int_bounds n) none (Nat.two_pow_pos 31)]
      exact any _ _
    · rw [if_neg isInt, if_neg isInt]
      exact any _ _
  | _ => exact any _ _

-- what a search comes to
theorem get_cases (linked : Linked address t) (key : TValue) :
    (InArray t key ∧ luaHGet address t key = some (some (.array (arrayindex key - 1).toNat))) ∨
      (∃ i, (t.node i).key = key ∧ key ≠ .nil ∧ luaHGet address t key = some (some (.node i))) ∨
      (¬ InArray t key ∧ (key = .nil ∨ ∀ i, (t.node i).key ≠ key) ∧ luaHGet address t key = some none) := by
  by_cases inside : InArray t key
  · exact .inl ⟨inside, luaHGet_array inside linked.small⟩
  · refine .inr ?_
    by_cases proper : key = .nil
    · rw [proper] at inside ⊢
      exact .inr ⟨inside, .inl rfl, rfl⟩
    · rw [linked.get_hashed inside]
      have none := not_inArray_hashOnly t key
      cases linked.hash.luaHGet_node linked.hash.small proper none with
      | inl found =>
        obtain ⟨i, holds, get⟩ := found
        exact .inl ⟨i, holds, proper, get⟩
      | inr absent => exact .inr ⟨inside, .inr absent.1, absent.2⟩

/-! ## Writes -/

/-- A slot that may be written. -/
def Writable (t : Rep) : Slot → Prop
  | .array _ => True
  | .node i => (t.node i).key ≠ .nil

theorem writable (linked : Linked address t) (get : luaHGet address t key = some (some slot)) :
    Writable t slot := by
  rcases linked.get_cases key with ⟨-, found⟩ | ⟨i, holds, proper, found⟩ | ⟨-, -, found⟩
  · rw [found] at get
    cases get
    trivial
  · rw [found] at get
    cases get
    rw [Writable, holds]
    exact proper
  · rw [found] at get
    cases get

-- the nodes are as they were
theorem sameNodes (linked : Linked address t) (node : t'.node = t.node) (lsizenode : t'.lsizenode = t.lsizenode)
    (isDummy : t'.isDummy = t.isDummy) (lastfree : t'.lastfree = t.lastfree) (small : t'.sizearray < 2 ^ 31) :
    Linked address t' := by
  obtain ⟨array, sizearray, node', lsizenode', isDummy', lastfree', block⟩ := t'
  dsimp only at node lsizenode isDummy lastfree
  subst node lsizenode isDummy lastfree
  have inv := linked.hash
  exact ⟨⟨⟨inv.scatter, inv.outside, inv.free, inv.apart, inv.lastfree, inv.dummy⟩, inv.small, inv.bits⟩, small⟩

theorem setSlot (linked : Linked address t) (writable : Writable t slot) (v : TValue) :
    Linked address (t.setSlot slot v) := by
  cases slot with
  | array i => exact linked.sameNodes rfl rfl rfl rfl linked.small
  | node i => exact ⟨(linked.hash.setNodeVal writable rfl v).1, linked.small⟩

end Linked

/-! ## `newkey` -/

-- the searches of `newkey` do not look at the array
theorem getfreepos_sizearray (n k : Nat) : getfreepos { t with sizearray := n } k = getfreepos t k := by
  induction k with
  | zero => rfl
  | succ k ih =>
    rw [getfreepos, getfreepos, ih]

theorem findPrevious_sizearray (n mp rounds other : Nat) :
    findPrevious { t with sizearray := n } mp rounds other = findPrevious t mp rounds other := by
  induction rounds generalizing other with
  | zero => rfl
  | succ rounds ih =>
    rw [findPrevious, findPrevious]
    simp only [ih]

theorem newkey_sizearray {j : Nat} (made : newkey address refuseAgain key t = .ok (.node j) u) (n : Nat)
    (grow : TValue → TableM Slot) :
    newkey address grow key { t with sizearray := n } = .ok (.node j) { u with sizearray := n } := by
  have main : ∀ k, mainposition address { t with sizearray := n } k = mainposition address t k :=
    fun k => mainposition_congr rfl k
  have nodes : Rep.sizenode { t with sizearray := n } = t.sizenode := rfl
  rw [newkey_eq] at made ⊢
  rw [main]
  by_cases collides : (t.node (mainposition address t key)).val ≠ .nil ∨ t.isDummy = true
  · rw [if_pos collides, collide] at made
    rw [if_pos collides, collide, getfreepos_sizearray]
    cases found : getfreepos t t.lastfree with
    | mk free lastfree =>
      rw [found] at made
      cases free with
      | none => cases made
      | some n' =>
        dsimp only at made ⊢
        rw [main, main]
        by_cases stranger : mainposition address t (t.node (mainposition address t key)).key ≠
            mainposition address t key
        · rw [if_pos stranger] at made ⊢
          rw [findPrevious_sizearray, nodes]
          cases before : findPrevious t (mainposition address t key) t.sizenode
              (mainposition address t (t.node (mainposition address t key)).key) with
          | none =>
            rw [before] at made
            cases made
          | some prev =>
            rw [before] at made
            cases made
            rfl
        · rw [if_neg stranger] at made ⊢
          cases made
          rfl
  · rw [if_neg collides] at made ⊢
    cases made
    rfl

theorem newkey_full (noFree : NoFreeNode address t key) (n : Nat) (grow : TValue → TableM Slot) :
    newkey address grow key { t with sizearray := n } =
      grow key { t with sizearray := n, lastfree := 0 } := by
  have main : ∀ k, mainposition address { t with sizearray := n } k = mainposition address t k :=
    fun k => mainposition_congr rfl k
  rw [newkey_eq, main, if_pos noFree.1, collide, getfreepos_sizearray]
  cases found : getfreepos t t.lastfree with
  | mk free lastfree =>
    have none := noFree.2
    rw [found] at none
    cases none
    obtain ⟨rfl, -⟩ := getfreepos_none found
    rfl

/-- A slot for a key that the table does not find is made in the nodes, or the table has to grow. -/
theorem Linked.newkey_cases (linked : Linked address t) (proper : key ≠ .nil)
    (absent : ∀ i, (t.node i).key ≠ key) (grow : TValue → TableM Slot) :
    (∃ j u, newkey address grow key t = .ok (.node j) u ∧ Linked address u ∧ (u.node j).key ≠ .nil) ∨
      ∃ u, newkey address grow key t = grow key u ∧ Linked address u := by
  have none := not_inArray_hashOnly t key
  have whole : { hashOnly t with sizearray := t.sizearray } = t := rfl
  cases linked.hash.newkey_cases proper absent none refuseAgain with
  | inl made =>
    obtain ⟨j, u, made, inserted⟩ := made
    have ready := linked.hash.inserted proper none absent inserted
    have result := newkey_sizearray made t.sizearray grow
    rw [whole] at result
    have empty : u.sizearray = 0 := inserted.sizearray
    refine .inl ⟨j, _, result, ⟨?_, linked.small⟩, ?_⟩
    · have same : hashOnly { u with sizearray := t.sizearray } = u := by
        rw [hashOnly, ← empty]
      rw [same]
      exact ready.inv
    · exact inserted.key_eq.trans_ne proper
  | inr full =>
    obtain ⟨noFree, -⟩ := full
    have result := newkey_full noFree t.sizearray grow
    exact .inr ⟨_, result, (linked.hash.lastfree_zero noFree).1, linked.small⟩

/-! ## New nodes -/

theorem Linked.withNodes (linked : Linked address t) {n : Nat} (fits : n ≤ maxasize) :
    Linked address (withNodes t n) := by
  have emptied : Cleared (hashOnly t) 0 (Verified.withNodes (hashOnly t) n) ∧ _ :=
    withNodes_cleared fits rfl fun i below => absurd below (Nat.not_lt_zero i)
  have same : hashOnly (Verified.withNodes t n) = Verified.withNodes (hashOnly t) n := by
    simp only [hashOnly, Verified.withNodes]
    split <;> rfl
  refine ⟨?_, ?_⟩
  · rw [same]
    exact emptied.1.inv (Nat.two_pow_pos 31)
  · rw [(withNodes_kept t n).2.1]
    exact linked.small

theorem Linked.beforeNodes (linked : Linked address t) {nasize : Nat} (small : nasize < 2 ^ 31) :
    Linked address (beforeNodes t nasize) := by
  rw [Verified.beforeNodes]
  split
  next => exact linked.sameNodes rfl rfl rfl rfl small
  next => exact linked

/-! ## Stores -/

/-- The program gives a slot that may be written, and the nodes stay linked whatever happens. -/
def MakesSlot (address : TValue → Nat) (m : TableM Slot) : Prop :=
  Triple (Linked address) m (fun slot t => Linked address t ∧ Linked.Writable t slot) fun _ => Linked address

section Growing

variable (grows : ∀ key, MakesSlot address (grow key))
include grows

theorem luaHSet_makesSlot (key : TValue) : MakesSlot address (luaHSet address grow key) := by
  intro t linked
  rcases linked.get_cases key with ⟨-, get⟩ | ⟨i, -, -, get⟩ | ⟨-, absent, get⟩
  · rw [luaHSet_found get]
    exact ⟨linked, linked.writable get⟩
  · rw [luaHSet_found get]
    exact ⟨linked, linked.writable get⟩
  · by_cases proper : key = .nil
    · rw [proper]
      exact linked
    · rw [luaHSet_absent proper get]
      cases linked.newkey_cases proper (absent.resolve_left proper) grow with
      | inl made =>
        obtain ⟨j, u, made, linked', used⟩ := made
        rw [made]
        exact ⟨linked', used⟩
      | inr full =>
        obtain ⟨u, full, linked'⟩ := full
        rw [full]
        exact grows key u linked'

theorem reinsertNodes_kept (ps : List Node) : Kept (Linked address) (reinsertNodes address grow ps) := by
  induction ps with
  | nil => exact Kept.ret _
  | cons n ps ih =>
    rw [reinsertNodes]
    refine Triple.cond (fun _ => ?_) fun _ => ih
    refine (luaHSet_makesSlot grows n.key).bind fun slot => ?_
    exact (Triple.update fun t ready => ready.1.setSlot ready.2 _).bind fun _ => ih

theorem reinsertSlice_kept (slice : List Nat) (inside : ∀ i ∈ slice, i < 2 ^ 31 - 1) :
    Kept (Linked address) (reinsertSlice address grow slice) := by
  induction slice with
  | nil => exact Kept.ret _
  | cons i slice ih =>
    have rest := ih fun j member => inside j (by simp [member])
    intro t linked
    by_cases unused : t.array i = .nil
    · rw [reinsertSlice_skip unused]
      exact rest t linked
    · have ready := luaHSet_makesSlot grows (arrayKey i) t linked
      rw [reinsertSlice_used unused, luaHSetnum_arrayKey (inside i (by simp))]
      cases made : luaHSet address grow (arrayKey i) t with
      | error e u =>
        rw [made] at ready
        exact ready
      | ok slot u =>
        rw [made] at ready
        dsimp only
        by_cases stale : u.arrayBlock ≠ t.arrayBlock
        · rw [if_pos stale]
          exact ready.1
        · rw [if_neg stale]
          exact rest _ (ready.1.setSlot ready.2 _)

theorem store_kept (key v : TValue) : Kept (Linked address) (store (luaHSet address grow key) v) := by
  refine (luaHSet_makesSlot grows key).bind fun slot => ?_
  exact Triple.update fun t ready => ready.1.setSlot ready.2 _

theorem resizeWith_kept (granted : Allocator) (moving : Bool) {nasize : Nat} (small : nasize < 2 ^ 31)
    (nhsize : Nat) : Kept (Linked address) (resizeWith address granted moving grow nasize nhsize) := by
  intro t linked
  have before := linked.beforeNodes small
  rcases resizeWith_cases address granted moving grow nasize nhsize t with
    result | ⟨point, -, result⟩ | ⟨fits, ⟨-, result⟩ | ⟨shrinks, result⟩⟩
  · rw [result]
    exact linked
  · rw [result]
    exact before
  · rw [result]
    exact reinsertNodes_kept grows _ _ (before.withNodes fits)
  · rw [result]
    have cleared := before.withNodes fits
    have inside : ∀ i ∈ vanishing t nasize, i < 2 ^ 31 - 1 := by
      intro i member
      have bounds := mem_vanishing.mp member
      have size := linked.small
      omega
    have loop := reinsertSlice_kept grows (vanishing t nasize) inside
      { Verified.withNodes (Verified.beforeNodes t nasize) nhsize with sizearray := nasize }
      (cleared.sameNodes rfl rfl rfl rfl small)
    have rest := reinsertNodes_kept grows (oldNodes t)
    rcases shrinkArrayWith_cases address granted (fun point => .failed moving point t.sizearray nasize) grow
      nasize t (Verified.withNodes (Verified.beforeNodes t nasize) nhsize) with
      ⟨e, v, stopped, run⟩ | ⟨v, went, refused | run⟩
    · rw [stopped] at loop
      rw [bind_error run]
      exact loop
    · rw [went] at loop
      rw [bind_error refused]
      exact loop
    · rw [went] at loop
      rw [bind_ok run]
      exact rest _ (loop.sameNodes rfl rfl rfl rfl loop.small)

end Growing

theorem growWith_makesSlot (granted : Allocator) (depth : Nat) (moving : Bool) (key : TValue) :
    MakesSlot address (growWith address granted depth moving key) := by
  induction depth generalizing moving key with
  | zero => exact Triple.raise fun _ linked => linked
  | succ depth ih =>
    have rehashed : Kept (Linked address)
        (rehashWith address granted moving (growWith address granted depth true) key) := by
      intro t linked
      rw [rehashWith_run]
      exact resizeWith_kept (ih true) granted moving (rehashSizes_small t key) _ t linked
    exact Triple.bind rehashed fun _ => luaHSet_makesSlot (ih moving) key

/-! ## Reachable tables -/

theorem runOpWith_kept (granted : Allocator) (depth : Nat) {op : TableOp} (int : IntSize op) :
    Kept (Linked address) (runOpWith address granted depth op) := by
  have grows : ∀ moving key, MakesSlot address (growWith address granted depth moving key) :=
    growWith_makesSlot granted depth
  cases op with
  | set key v => exact store_kept (grows false) key v
  | setnum key v =>
    rw [runOpWith, luaHSetnum_eq (BitVec.le_toInt key) (BitVec.toInt_lt)]
    exact store_kept (grows false) _ v
  | setstr key v =>
    rw [runOpWith, luaHSetstr_eq]
    exact store_kept (grows false) _ v
  | resizearray nasize =>
    exact Kept.get_bind fun t _ => resizeWith_kept (grows true) granted false int _

/-- The tables that stores and calls of `luaH_resizearray` lead to from a new one, also where memory is refused
to some of them. -/
inductive Reachable (address : TValue → Nat) : Rep → Prop where
  | new {narray nhash : Nat} {u t : Rep} (int : narray < 2 ^ 31) (made : luaHNew narray nhash u = .ok () t) :
      Reachable address t
  | step {t : Rep} (reached : Reachable address t) (granted : Allocator) (depth : Nat) (op : TableOp)
      (int : IntSize op) : Reachable address (stateAfter (runOpWith address granted depth op) t)

theorem Reachable.linked (reached : Reachable address t) : Linked address t := by
  induction reached with
  | new int made => exact (luaHNew_spec int made).1.linked
  | step reached granted depth op int ih => exact (runOpWith_kept granted depth int).after ih

end Lunatik.Verified
