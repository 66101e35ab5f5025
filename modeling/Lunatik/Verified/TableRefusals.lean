import Lunatik.Verified.TableFailure

/-! # Which refusals a table survives

`resize` with an allocator, at each of the points where it can stop.  What it leaves there is in the table
before the call: the keys that the point hides, or, where another element was on its way, that element.
-/

namespace Lunatik.Verified

open Lunatik.Lua (TValue LuaNumber luaiNumeq luaiNumisnan)
open Lunatik.Lua.Ltable Lunatik.Library

variable {address : TValue → Nat} {granted : Allocator} {t t' : Rep} {key : TValue} {slot : Slot}
  {grow : TValue → TableM Slot} {old : TValue → TValue}

/-! ## What a refused `resize` leaves -/

theorem beforeNodes_hidden (inv : TableInv address t) {nasize : Nat} (small : nasize < 2 ^ 31)
    {point : FailPoint} (which : point = .tableOverflow ∨ point = .newNodes) :
    LosesHidden address (contents address t) (Hidden point t.sizearray nasize)
      (beforeNodes t nasize) := by
  have hidden : Hidden point t.sizearray nasize = fun k => Indexes nasize k ∧
      ¬ Indexes t.sizearray k := by
    rcases which with rfl | rfl <;> rfl
  rw [hidden]
  intro k
  rcases Nat.lt_or_ge t.sizearray nasize with grows | keeps
  · rw [beforeNodes, if_pos grows]
    exact lookup_grownTo inv small grows.le k
  · rw [beforeNodes, if_neg (Nat.not_lt_of_ge keeps), inv.lookup_eq]
    constructor
    · rintro ⟨⟨low, high⟩, outside⟩
      exact absurd ⟨low, by omega⟩ outside
    · intro _
      rfl

-- the nodes are empty, and no element has left the array
theorem beforeNodes_pending (inv : TableInv address t) {nasize nhsize : Nat}
    (small : nasize < 2 ^ 31) (fits : nhsize ≤ maxasize) (keeps : t.sizearray ≤ nasize) :
    Unstored address (contents address t) (oldNodes t)
      (withNodes (beforeNodes t nasize) nhsize) := by
  have pending := (beforeNodes_cleared fits keeps).1.pending inv small
  rw [vanishing_none keeps] at pending
  exact pending

-- the elements of the array alone
def arrayContents (address : TValue → Nat) (t : Rep) (k : TValue) : TValue :=
  if InArray t k then contents address t k else .nil

theorem Cleared.pending_slice {nasize : Nat} (cleared : Cleared t nasize t')
    (inv : TableInv address t) (small : nasize < 2 ^ 31) (shrinks : nasize < t.sizearray) :
    Unstored address (arrayContents address t)
      ((vanishing t nasize).map (sliceNode t.array)) t' := by
  have pending := cleared.pending inv small
  have size := inv.small
  refine ⟨pending.inv, fun n member used => ?_, fun k => ?_⟩
  · obtain ⟨proper, value⟩ := pending.values n (List.mem_append_left _ member) used
    obtain ⟨i, inside, rfl⟩ := List.mem_map.mp member
    have bounds := mem_vanishing.mp inside
    have inArray : InArray t (sliceNode t.array i).key := by
      have index : arrayindex (sliceNode t.array i).key = i + 1 := arrayindex_arrayKey (by omega)
      rw [InArray, index]
      omega
    rw [arrayContents, if_pos inArray]
    exact ⟨proper, value⟩
  · by_cases index : Indexes nasize k
    · have inside : InArray t k := ⟨index.1, by have bound := index.2; omega⟩
      left
      rw [arrayContents, if_pos inside, cleared.contents_kept small index, if_pos inside,
        inv.contents_array inside]
    · have empty : contents address t' k = .nil := cleared.contents_hashed small index
      by_cases inside : InArray t k
      · rw [arrayContents, if_pos inside]
        rcases pending.covered k with same | ⟨n, member, used, rfl⟩
        · exact .inl same
        · rcases List.mem_append.mp member with slice | nodes
          · exact .inr ⟨n, slice, used, rfl⟩
          · obtain ⟨i, -, rfl⟩ := mem_oldNodes.mp nodes
            exact absurd inside (inv.apart i (pending.values _ member used).1)
      · rw [arrayContents, if_neg inside]
        exact .inl empty

-- the slice is back, the old nodes are not
theorem arrayContents_hidden (inv' : TableInv address t')
    (same : contents address t' = arrayContents address t) (nasize : Nat) :
    LosesHidden address (contents address t) (Hidden .shrinkArray t.sizearray nasize) t' := by
  intro k
  rw [inv'.lookup_eq, same, arrayContents]
  refine ⟨fun hidden => ?_, fun shown => ?_⟩
  · have outside : ¬ InArray t k := hidden
    rw [if_neg outside]
  · have inside : InArray t k := not_not.mp shown
    rw [if_pos inside]

variable {moving : Bool} {nasize nhsize : Nat}

theorem vanishing_bounds (inv : TableInv address t) :
    ∀ i ∈ vanishing t nasize, (cutTo t nasize nhsize).sizearray ≤ i ∧ i < 2 ^ 31 - 1 := by
  intro i member
  have bounds := mem_vanishing.mp member
  have size := inv.small
  exact ⟨bounds.1, by omega⟩

theorem GrowSpec.slice_done (spec : GrowSpec address true grow) (inv : TableInv address t)
    (small : nasize < 2 ^ 31) (fits : nhsize ≤ maxasize) (shrinks : nasize < t.sizearray)
    (done : reinsertSlice address grow (vanishing t nasize) (cutTo t nasize nhsize) = .ok () t') :
    Unstored address (contents address t) (oldNodes t) { t' with arrayBlock := t'.arrayBlock + 1 } ∧
      t'.arrayBlock = t.arrayBlock ∧ TableInv address t' ∧
          contents address t' = arrayContents address t := by
  obtain ⟨⟨cleared, -⟩, array, block⟩ := cutTo_cleared fits shrinks
  have pending := cleared.pending inv small
  have slice := cleared.pending_slice inv small shrinks
  rw [← array] at pending slice
  rw [← List.append_nil (List.map _ _)] at slice
  obtain ⟨rest, -, -, block'⟩ := spec.reinsertSlice_ok _ _ (vanishing_bounds inv) pending done
  obtain ⟨only, -⟩ := spec.reinsertSlice_ok _ _ (vanishing_bounds inv) slice done
  exact ⟨rest.block _, block'.trans block, only.inv, only.contents_eq⟩

theorem GrowSpec.resize_error {nested : Bool} {point : FailPoint} {o n : Nat}
    (spec : GrowSpec address true grow) (inv : TableInv address t) (small : nasize < 2 ^ 31)
    (failed : resizeWith address granted moving grow nasize nhsize t =
      .error (.failed nested point o n) t') :
    (nested = true ∧ NoNew address (contents address t) t' ∧ Lost address (contents address t) t') ∨
      nested = moving ∧ o = t.sizearray ∧ n = nasize ∧ LosesHidden address (contents address t)
        (Hidden point o n) t' := by
  rcases resizeWith_cases address granted moving grow nasize nhsize t with
    result | ⟨at', which, result⟩ | ⟨fits, ⟨keeps, result⟩ | ⟨shrinks, result⟩⟩
  · rw [result] at failed
    cases failed
    exact .inr ⟨rfl, rfl, rfl, fun k => ⟨False.elim, fun _ => inv.lookup_eq k⟩⟩
  · rw [result] at failed
    cases failed
    exact .inr ⟨rfl, rfl, rfl, beforeNodes_hidden inv small which⟩
  · rw [result] at failed
    exact .inl (spec.reinsertNodes_error _ _ (beforeNodes_pending inv small fits keeps) failed)
  · rw [result, beforeNodes, if_neg (Nat.not_lt_of_gt shrinks)] at failed
    obtain ⟨⟨cleared, -⟩, array, -⟩ := cutTo_cleared fits shrinks
    have pending := cleared.pending inv small
    rw [← array] at pending
    rcases shrinkArrayWith_cases address granted (fun point =>
      .failed moving point t.sizearray nasize) grow
      nasize t (withNodes t nhsize) with ⟨e, v, loop, run⟩ | ⟨v, loop, refused | run⟩
    · rw [bind_error run] at failed
      cases failed
      exact .inl (spec.reinsertSlice_error _ _ (vanishing_bounds inv) pending loop)
    · obtain ⟨-, -, inv', same⟩ := spec.slice_done inv small fits shrinks loop
      rw [bind_error refused] at failed
      cases failed
      exact .inr ⟨rfl, rfl, rfl, arrayContents_hidden inv' same _⟩
    · obtain ⟨rest, -⟩ := spec.slice_done inv small fits shrinks loop
      rw [bind_ok run] at failed
      exact .inl (spec.reinsertNodes_error _ _ rest failed)

theorem FailsTo.of_resize {nested : Bool} {point : FailPoint} {o n : Nat}
    (outcome : (nested = true ∧ NoNew address old t' ∧ Lost address old t') ∨
      nested = moving ∧ o = t.sizearray ∧ n = nasize ∧
        LosesHidden address old (Hidden point o n) t') :
    FailsTo address moving old nested point o n t' := by
  rcases outcome with ⟨rfl, noNew, lost⟩ | ⟨rfl, -, -, loses⟩
  · exact ⟨noNew, fun _ => rfl, fun _ _ => lost, fun _ own => nomatch own⟩
  · refine ⟨loses.noNew, id, fun own inside => ?_, fun _ _ => loses⟩
    rw [own] at inside
    cases inside

theorem GrowSpec.resize_ok (spec : GrowSpec address true grow) (inv : TableInv address t)
    (small : nasize < 2 ^ 31) (done : resizeWith address granted moving grow nasize nhsize t =
      .ok () t') :
    TableInv address t' ∧ contents address t' = contents address t ∧ KeepsArray t t' := by
  rcases resizeWith_cases address granted moving grow nasize nhsize t with
    result | ⟨point, which, result⟩ | ⟨fits, ⟨keeps, result⟩ | ⟨shrinks, result⟩⟩
  · rw [result] at done
    cases done
  · rw [result] at done
    cases done
  · rw [result] at done
    obtain ⟨inv', same, le, array⟩ :=
      spec.reinsertNodes_ok _ _ (beforeNodes_pending inv small fits keeps) done
    refine ⟨inv', same, ?_⟩
    by_cases grows : t.sizearray < nasize
    · rw [beforeNodes, if_pos grows, (withNodes_kept _ _).2.2] at le
      have later : t.arrayBlock + 1 ≤ t'.arrayBlock := le
      exact ⟨by omega, fun block => by omega⟩
    · rw [beforeNodes, if_neg grows] at array
      obtain ⟨kept, size, block⟩ := withNodes_kept t nhsize
      have first : KeepsArray t (withNodes t nhsize) := ⟨block.ge, fun _ => ⟨kept, size⟩⟩
      refine first.trans (array fun n member used => ?_)
      obtain ⟨i, -, rfl⟩ := mem_oldNodes.mp member
      rw [InArray, size]
      refine inv.apart i fun free => ?_
      rw [inv.free i free] at used
      exact used rfl
  · rw [result, beforeNodes, if_neg (Nat.not_lt_of_gt shrinks)] at done
    rcases shrinkArrayWith_cases address granted (fun point =>
      .failed moving point t.sizearray nasize) grow
      nasize t (withNodes t nhsize) with ⟨e, v, loop, run⟩ | ⟨v, loop, refused | run⟩
    · rw [bind_error run] at done
      cases done
    · rw [bind_error refused] at done
      cases done
    · obtain ⟨rest, block, -⟩ := spec.slice_done inv small fits shrinks loop
      rw [bind_ok run] at done
      obtain ⟨inv', same, le, -⟩ := spec.reinsertNodes_ok _ _ rest done
      have later : t.arrayBlock + 1 ≤ t'.arrayBlock := block ▸ le
      exact ⟨inv', same, by omega, fun block' => by omega⟩

/-! ## Growing for a key -/

theorem rehashWith_run (address : TValue → Nat) (granted : Allocator) (moving : Bool)
    (grow : TValue → TableM Slot) (key : TValue) (t : Rep) :
    rehashWith address granted moving grow key t =
      resizeWith address granted moving grow (rehashSizes t key).1 (rehashSizes t key).2 t := by
  rw [rehashWith, bind_ok (get_run t)]

theorem computesizes_small (nums : Nat → Nat) (narray : Nat) :
    (computesizes nums narray).1 < 2 ^ 31 := by
  rcases computesizes_sized nums narray with none | ⟨i, bound, some⟩
  · rw [none]
    exact Nat.two_pow_pos 31
  · rw [some]
    exact Nat.pow_lt_pow_right (by decide) (Nat.lt_of_le_of_lt bound (by decide))

theorem rehashSizes_small (t : Rep) (key : TValue) : (rehashSizes t key).1 < 2 ^ 31 :=
  computesizes_small _ _

theorem growWith_spec (address : TValue → Nat) (granted : Allocator) (depth : Nat) (moving : Bool) :
    GrowSpec address moving (growWith address granted depth moving) := by
  induction depth generalizing moving with
  | zero =>
    intro key t _ _ _
    exact ⟨fun slot t' made => (by cases made), fun nested point o n t' failed => (by cases failed)⟩
  | succ depth ih =>
    intro key t inv proper absent
    have small := rehashSizes_small t key
    have nested := ih true
    have unfolded : growWith address granted (depth + 1) moving key =
        (rehashWith address granted moving (growWith address granted depth true) key >>= fun _ =>
          luaHSet address (growWith address granted depth moving) key) := rfl
    rw [unfolded]
    cases resized : rehashWith address granted moving
      (growWith address granted depth true) key t with
    | error e u =>
      rw [bind_error resized]
      refine ⟨fun slot t' made => (by cases made), fun inner point o n t' failed => ?_⟩
      cases failed
      rw [rehashWith_run] at resized
      exact .of_resize (nested.resize_error inv small resized)
    | ok _ u =>
      rw [bind_ok resized]
      rw [rehashWith_run] at resized
      obtain ⟨inv', same, keeps⟩ := nested.resize_ok inv small resized
      refine ⟨fun slot t' made => ?_, fun inner point o n t' failed => ?_⟩
      · obtain ⟨ready, keeps'⟩ := (ih moving).luaHSet_ok inv' proper made
        exact ⟨⟨ready.inv, ready.found, ready.contents.trans same⟩, keeps.trans keeps'⟩
      · have fails := ((ih moving).luaHSet_error inv' proper failed).2
        rw [same] at fails
        exact fails

/-! ## Operations that fail -/

-- luaH_get finds for every key what it found before
def SameLookups (address : TValue → Nat) (t t' : Rep) : Prop :=
  ∀ k, lookup address t' k = lookup address t k

theorem FailsTo.sameLookups_iff {nested : Bool} {point : FailPoint} {o n : Nat}
    (inv : TableInv address t) (fails : FailsTo address false
      (contents address t) nested point o n t') :
    SameLookups address t t' ↔ nested = false ∧ ∀ k, Hidden point o n k →
      contents address t k = .nil := by
  constructor
  · intro same
    cases nested with
    | true =>
      obtain ⟨k, filled, gone⟩ := fails.lost rfl rfl
      have found := same k
      rw [inv.lookup_eq] at found
      rw [contents_of_lookup found] at gone
      exact absurd gone filled
    | false =>
      refine ⟨rfl, fun k hidden => ?_⟩
      have found := same k
      rw [(fails.hidden rfl rfl k).1 hidden, inv.lookup_eq, Option.some.injEq] at found
      exact found.symm
  · rintro ⟨rfl, none⟩ k
    obtain ⟨gone, stays⟩ := fails.hidden rfl rfl k
    rw [inv.lookup_eq]
    by_cases hidden : Hidden point o n k
    · rw [gone hidden, none k hidden]
    · exact stays hidden

-- the sizes of the arrays are ints
def IntSize : TableOp → Prop
  | .resizearray nasize => nasize < 2 ^ 31
  | _ => True

theorem store_failed {slot : TableM Slot} {v : TValue} {e : TableError}
    (failed : store slot v t = .error e t') :
    slot t = .error e t' := by
  cases made : slot t with
  | error e' u =>
    rw [store, bind_error made] at failed
    cases failed
    rfl
  | ok s u =>
    rw [store, bind_ok made] at failed
    cases failed

theorem luaHSet_fails (inv : TableInv address t) {depth : Nat} {nested : Bool}
    {point : FailPoint} {o n : Nat} (failed : luaHSet address
      (growWith address granted depth false) key t = .error (.failed nested point o n) t') :
    FailsTo address false (contents address t) nested point o n t' := by
  by_cases proper : key = .nil
  · rw [proper] at failed
    cases failed
  · exact ((growWith_spec address granted depth false).luaHSet_error inv proper failed).2

theorem runOpWith_fails (inv : TableInv address t) {depth : Nat} {op : TableOp} (int : IntSize op)
    {nested : Bool} {point : FailPoint} {o n : Nat}
    (failed : runOpWith address granted depth op t = .error (.failed nested point o n) t') :
    FailsTo address false (contents address t) nested point o n t' := by
  cases op with
  | set key v => exact luaHSet_fails inv (store_failed failed)
  | setnum key v =>
    rw [runOpWith, luaHSetnum_eq (BitVec.le_toInt key) (BitVec.toInt_lt)] at failed
    exact luaHSet_fails inv (store_failed failed)
  | setstr key v =>
    rw [runOpWith, luaHSetstr_eq] at failed
    exact luaHSet_fails inv (store_failed failed)
  | resizearray nasize =>
    have spec := growWith_spec address granted depth true
    exact .of_resize (spec.resize_error inv int failed)

/-! ## Without a refusal

What is granted everything that it asks for does what the model does that never asks. -/

def Completes (grow grow' : TValue → TableM Slot) : Prop :=
  ∀ key t slot t', grow key t = .ok slot t' → grow' key t = .ok slot t'

-- in the place of what a store may not do again
def refuseAgain : TValue → TableM Slot := fun _ => throw .tooDeep

theorem refuseAgain_completes (grow : TValue → TableM Slot) : Completes refuseAgain grow := by
  intro key t slot t' made
  cases made

variable {grow' : TValue → TableM Slot}

theorem newkey_completes (completes : Completes grow grow')
    (made : newkey address grow key t = .ok slot t') :
    newkey address grow' key t = .ok slot t' := by
  rw [newkey_eq] at made ⊢
  split
  next collides =>
    rw [if_pos collides, collide] at made
    rw [collide]
    generalize getfreepos t t.lastfree = found at made ⊢
    obtain ⟨n, lastfree⟩ := found
    cases n with
    | none => exact completes key _ slot t' made
    | some n => exact made
  next free =>
    rw [if_neg free] at made
    exact made

theorem luaHSet_completes (completes : Completes grow grow')
    (made : luaHSet address grow key t = .ok slot t') :
    luaHSet address grow' key t = .ok slot t' := by
  by_cases isNil : key = .nil
  · rw [isNil] at made
    cases made
  · cases get : luaHGet address t key with
    | none =>
      have endless : luaHSet address grow key t = .error .endless t := by
        simp only [luaHSet, bind_run, get_run, get]
        rfl
      rw [endless] at made
      cases made
    | some found =>
      cases found with
      | some slot' =>
        rw [luaHSet_found get] at made ⊢
        exact made
      | none =>
        rw [luaHSet_absent isNil get] at made ⊢
        exact newkey_completes completes made

theorem reinsertNodes_completes (completes : Completes grow grow') (ps : List Node) (t : Rep)
    (done : reinsertNodes address grow ps t = .ok () t') :
    reinsertNodes address grow' ps t = .ok () t' := by
  induction ps generalizing t with
  | nil => exact done
  | cons n ps ih =>
    by_cases unused : n.val = .nil
    · rw [reinsertNodes_skip unused] at done ⊢
      exact ih t done
    · cases made : luaHSet address grow n.key t with
      | error e u =>
        rw [reinsertNodes_raise unused ps made] at done
        cases done
      | ok slot u =>
        rw [reinsertNodes_store unused ps made] at done
        rw [reinsertNodes_store unused ps (luaHSet_completes completes made)]
        exact ih _ done

theorem luaHSetnum_completes (completes : Completes grow grow') {k : Int}
    (made : luaHSetnum address grow k t = .ok slot t') :
    luaHSetnum address grow' k t = .ok slot t' := by
  rw [luaHSetnum, bind_ok (get_run t)] at made ⊢
  cases get : luaHGetnum t k with
  | none =>
    rw [get] at made
    cases made
  | some found =>
    rw [get] at made
    cases found with
    | some slot' => exact made
    | none => exact newkey_completes completes made

theorem reinsertSlice_completes (completes : Completes grow grow') (slice : List Nat) (t : Rep)
    (done : reinsertSlice address grow slice t = .ok () t') :
    reinsertSlice address grow' slice t = .ok () t' := by
  induction slice generalizing t with
  | nil => exact done
  | cons i slice ih =>
    by_cases unused : t.array i = .nil
    · rw [reinsertSlice_skip unused] at done ⊢
      exact ih t done
    · rw [reinsertSlice_used unused] at done ⊢
      cases made : luaHSetnum address grow (i + 1) t with
      | error e u =>
        rw [made] at done
        cases done
      | ok slot u =>
        rw [made] at done
        rw [luaHSetnum_completes completes made]
        dsimp only at done ⊢
        by_cases block : u.arrayBlock ≠ t.arrayBlock
        · rw [if_pos block] at done
          cases done
        · rw [if_neg block] at done ⊢
          exact ih _ done

theorem resizeWith_completes (completes : Completes grow grow')
    (done : resizeWith address granted moving grow nasize nhsize t = .ok () t') :
    resize address grow' nasize nhsize t = .ok () t' := by
  rcases resizeWith_cases address granted moving grow nasize nhsize t with
    result | ⟨point, which, result⟩ | ⟨fits, ⟨keeps, result⟩ | ⟨shrinks, result⟩⟩
  · rw [result] at done
    cases done
  · rw [result] at done
    cases done
  · rw [result] at done
    rw [resize_keeps address grow' fits keeps]
    exact reinsertNodes_completes completes _ _ done
  · rw [result, beforeNodes, if_neg (Nat.not_lt_of_gt shrinks)] at done
    rw [resize_shrinks address grow' fits shrinks]
    rcases shrinkArrayWith_cases address granted (fun point =>
      .failed moving point t.sizearray nasize) grow
      nasize t (withNodes t nhsize) with ⟨e, v, loop, run⟩ | ⟨v, loop, refused | run⟩
    · rw [bind_error run] at done
      cases done
    · rw [bind_error refused] at done
      cases done
    · have again : reinsertSlice address grow' (vanishing t nasize) (cutTo t nasize nhsize) =
        .ok () v :=
        reinsertSlice_completes completes _ _ loop
      rw [bind_ok run] at done
      exact (bind_ok again).trans (reinsertNodes_completes completes _ _ done)

theorem growWith_completes (address : TValue → Nat) (granted : Allocator) (depth : Nat)
    (moving : Bool) :
    Completes (growWith address granted depth moving) (Lua.Ltable.grow address depth) := by
  induction depth generalizing moving with
  | zero =>
    intro key t slot t' made
    cases made
  | succ depth ih =>
    intro key t slot t' made
    have unfolded : growWith address granted (depth + 1) moving key =
        (rehashWith address granted moving (growWith address granted depth true) key >>= fun _ =>
          luaHSet address (growWith address granted depth moving) key) := rfl
    have unfolded' : Lua.Ltable.grow address (depth + 1) key =
        (rehash address (Lua.Ltable.grow address depth) key >>= fun _ =>
          luaHSet address (Lua.Ltable.grow address depth) key) := rfl
    rw [unfolded] at made
    rw [unfolded']
    cases resized : rehashWith address granted moving
      (growWith address granted depth true) key t with
    | error e u =>
      rw [bind_error resized] at made
      cases made
    | ok _ u =>
      have again : rehash address (Lua.Ltable.grow address depth) key t = .ok () u := by
        rw [rehashWith_run] at resized
        rw [rehash, bind_ok (get_run t)]
        exact resizeWith_completes (ih true) resized
      rw [bind_ok resized] at made
      rw [bind_ok again]
      exact luaHSet_completes (ih moving) made

theorem store_completes {slot slot' : TableM Slot} {v : TValue}
    (completes : ∀ s u, slot t = .ok s u → slot' t = .ok s u) (done : store slot v t = .ok () t') :
    store slot' v t = .ok () t' := by
  cases made : slot t with
  | error e u =>
    rw [store, bind_error made] at done
    cases done
  | ok s u =>
    rw [store, bind_ok made] at done
    rw [store, bind_ok (completes s u made)]
    exact done

/-- An operation that is refused nothing does what it does without requests. -/
theorem runOpWith_completes {depth : Nat} {op : TableOp}
    (done : runOpWith address granted depth op t = .ok () t') :
    runOp address depth op t = .ok () t' := by
  have completes := growWith_completes address granted depth
  cases op with
  | set key v => exact store_completes (fun s u => luaHSet_completes (completes false)) done
  | setnum key v => exact store_completes (fun s u => luaHSetnum_completes (completes false)) done
  | setstr key v =>
    rw [runOpWith, luaHSetstr_eq] at done
    rw [runOp, luaHSetstr_eq]
    exact store_completes (fun s u => luaHSet_completes (completes false)) done
  | resizearray nasize => exact resizeWith_completes (completes true) done

/-! ## Where a store fails -/

-- with a node for every key, nothing is grown for an element on its way
theorem TableInv.resizeWith_room (inv : TableInv address t) {n : Nat} (small : nasize < 2 ^ 31)
    (enough : hashedKeys nasize (liveKeys t) + n ≤ nhsize) (granted : Allocator) (moving : Bool)
    (grow : TValue → TableM Slot) :
    (∃ point u, resizeWith address granted moving grow nasize nhsize t =
        .error (.failed moving point t.sizearray nasize) u) ∨
      ∃ u, resizeWith address granted moving grow nasize nhsize t = .ok () u ∧ TableInv address u ∧
        RoomFor nasize n u := by
  rcases resizeWith_cases address granted moving grow nasize nhsize t with
    result | ⟨point, -, result⟩ | ⟨fits, loops⟩
  · exact .inl ⟨_, _, result⟩
  · exact .inl ⟨_, _, result⟩
  · obtain ⟨u, resized, inv', -, space⟩ := inv.resize_room small fits enough grow
    rcases loops with ⟨keeps, result⟩ | ⟨shrinks, result⟩
    · rw [resize_keeps address grow fits keeps] at resized
      exact .inr ⟨u, result.trans resized, inv', space⟩
    · rw [beforeNodes, if_neg (Nat.not_lt_of_gt shrinks)] at result
      rw [resize_shrinks address grow fits shrinks] at resized
      rcases shrinkArrayWith_cases address granted (fun point =>
        .failed moving point t.sizearray nasize) grow
        nasize t (withNodes t nhsize) with ⟨e, v, loop, run⟩ | ⟨v, loop, refused | run⟩
      · have stopped := (bind_error loop).symm.trans resized
        cases stopped
      · exact .inl ⟨_, _, result.trans (bind_error refused)⟩
      · have went := (bind_ok loop).symm.trans resized
        exact .inr ⟨u, result.trans ((bind_ok run).trans went), inv', space⟩

/-- Where the elements are within the array size that `rehash` counts to, only the `resize` of the store itself
fails. -/
theorem TableInv.store_fails (inv : TableInv address t)
    (within : ∀ i, maxasize ≤ i → i < t.sizearray → t.array i = .nil) {depth : Nat} {nested : Bool}
    {point : FailPoint} {o n : Nat} (failed : luaHSet address
      (growWith address granted depth false) key t = .error (.failed nested point o n) t') :
    nested = false ∧ o = t.sizearray ∧ n = (rehashSizes t key).1 := by
  by_cases proper : key = .nil
  · rw [proper] at failed
    cases failed
  · rcases inv.luaHSet_cases proper (growWith address granted depth false)
      with ⟨slot', u, result, -⟩ | ⟨-, noFree, result⟩
    · rw [result] at failed
      cases failed
    · obtain ⟨inv', -⟩ := inv.lastfree_zero noFree
      rw [result] at failed
      rw [← rehashSizes_lastfree 0]
      cases depth with
      | zero => cases failed
      | succ depth =>
        have unfolded : growWith address granted (depth + 1) false key =
            (rehashWith address granted false (growWith address granted depth true) key >>= fun _ =>
              luaHSet address (growWith address granted depth false) key) := rfl
        have small := rehashSizes_small { t with lastfree := 0 } key
        obtain ⟨nasize, -, sizes⟩ := rehashSizes_spec inv'.small within key
        rw [unfolded] at failed
        rw [sizes] at small ⊢
        have enough : hashedKeys nasize (liveKeys
          { t with lastfree := 0 }) + hashedKeys nasize [key] ≤
            hashedKeys nasize (liveKeys { t with lastfree := 0 } ++ [key]) :=
              (hashedKeys_append nasize _ _).ge
        have run := rehashWith_run address granted false (growWith address granted depth true) key
          { t with lastfree := 0 }
        rw [sizes] at run
        rcases inv'.resizeWith_room small enough granted false
          (growWith address granted depth true) with
          ⟨point', u, refused⟩ | ⟨u, resized, inv'', space⟩
        · rw [bind_error (run.trans refused)] at failed
          cases failed
          exact ⟨rfl, rfl, rfl⟩
        · rw [bind_ok (run.trans resized)] at failed
          obtain ⟨slot', v, made, -⟩ :=
            inv''.luaHSet_room (n := 0) proper space (growWith address granted depth false)
          rw [made] at failed
          cases failed

/-- After a failure all keys have what they had, if and only if the `resize` that failed was not made for
an element on its way through another one, and no element was under a key that its point hides. -/
theorem failed_growth_keeps_iff (address : TValue → Nat) (granted : Allocator) (depth : Nat)
    {t t' : Rep} (inv : TableInv address t) {op : TableOp} (int : IntSize op) {nested : Bool}
    {point : FailPoint} {oldasize nasize : Nat}
    (failed : runOpWith address granted depth op t =
      .error (.failed nested point oldasize nasize) t') :
    SameLookups address t t' ↔
      nested = false ∧ ∀ k, Hidden point oldasize nasize k → contents address t k = .nil :=
  (runOpWith_fails inv int failed).sameLookups_iff inv

-- an element with the key 1 in the nodes, and another one
def nodesOps : List TableOp := [.set (.number 1) (.number 7), .set (.boolean 1) (.number 7)]

def refuses (point : FailPoint) : Allocator := fun asked _ => asked ≠ point

theorem nodesTable_made : ∃ t, TableRun (fun _ => 0) 1 (OpFits fun _ => 0) nodesOps t ∧
    TableInv (fun _ => 0) t ∧
    lookup (fun _ => 0) t (.number 1) = some (.number 7) ∧
    (∃ u, runOpWith (fun _ => 0) (refuses .growArray) 1 (.set (.number 2) (.number 8)) t =
      .error (.failed false .growArray 0 2) u) ∧
    ∃ u, runOpWith (fun _ => 0) (refuses .newNodes) 1 (.set (.number 2) (.number 8)) t =
      .error (.failed false .newNodes 0 2) u ∧ lookup (fun _ => 0) u (.number 1) = some .nil := by
  obtain ⟨t, made⟩ : ∃ t, luaHNew 0 2 noTable = .ok () t := ⟨_, rfl⟩
  have start : TableRun (fun _ => 0) 1 (OpFits fun _ => 0) [] t := .new (by decide) made
  have one : OpFits (fun _ => 0) t (.set (.number 1) (.number 7)) := by
    cases made
    intro _ noFree
    exact absurd noFree.2 (by decide)
  have run := start.step _ one
  have two : OpFits (fun _ => 0) (resultState
    (runOp (fun _ => 0) 1 (.set (.number 1) (.number 7)) t))
      (.set (.boolean 1) (.number 7)) := by
    cases made
    intro _ noFree
    exact absurd noFree.2 (by decide)
  have run' := run.step _ two
  have inv := (tableRun_spec run').1
  cases made
  exact ⟨_, run', inv, rfl, ⟨_, rfl⟩, _, rfl, rfl⟩

-- without the larger array, the table is as it was
theorem failed_growth_keeps_array : ∃ t u, TableInv (fun _ => 0) t ∧
    runOpWith (fun _ => 0) (refuses .growArray) 1 (.set (.number 2) (.number 8)) t =
      .error (.failed false .growArray 0 2) u ∧ SameLookups (fun _ => 0) t u := by
  obtain ⟨t, -, inv, -, ⟨u, failed⟩, -⟩ := nodesTable_made
  have int : IntSize (.set (.number 2) (.number 8)) := trivial
  have kept := (failed_growth_keeps_iff _ _ _ inv int failed).mpr ⟨rfl, fun k hidden => hidden.elim⟩
  exact ⟨t, u, inv, failed, kept⟩

-- without the new nodes, the array has grown over an element of the old ones
theorem refused_nodes_hide_element : ∃ t u, TableRun (fun _ => 0) 1 (OpFits fun _ => 0) nodesOps t ∧
    TableInv (fun _ => 0) t ∧
    runOpWith (fun _ => 0) (refuses .newNodes) 1 (.set (.number 2) (.number 8)) t =
      .error (.failed false .newNodes 0 2) u ∧ ¬ SameLookups (fun _ => 0) t u := by
  obtain ⟨t, run, inv, held, -, u, failed, gone⟩ := nodesTable_made
  refine ⟨t, u, run, inv, failed, fun same => ?_⟩
  have found := same (.number 1)
  rw [held, gone] at found
  cases found

end Lunatik.Verified
