import Lunatik.Core.Result
import Mathlib.Data.List.Perm.Basic

/-! # The blocks of a result

`lunatik_result_free` finds in a result the blocks that `lunatik_result_get` has left allocated,
whatever the value is and whichever allocations fail.  A failed copy leaves a NULL pointer in the
arm of the union that the tag selects.
-/

namespace Lunatik.Verified

open Lunatik.Kernel Lunatik.Lua Lunatik.Core

/-- The block that a pointer names, if it names one. -/
def blocksOf (p : Nat) : List Nat := if p = null ∨ p = zeroSizePtr then [] else [p]

/-- The pointers that `lunatik_result_free` gives to `kfree`, in this order. -/
def freedPointers : Option LunatikResult → List Nat
  | none => []
  | some r =>
    (if r.rType = luaTstring then [r.rString]
    else if r.rType = luaTuserdata then [r.rUserdata, r.rUserdataType]
    else []) ++ [r.self]

def freedBlocks (result : Option LunatikResult) : List Nat := (freedPointers result).flatMap blocksOf

theorem lunatikResultFree_eq (result : Option LunatikResult) (mem : Memory) :
    lunatikResultFree result mem = (freedPointers result).foldl Memory.kfree mem := by
  cases result with
  | none => rfl
  | some r =>
    rw [lunatikResultFree, freedPointers]
    split_ifs <;> rfl

theorem kfree_live (mem : Memory) (p : Nat) : (mem.kfree p).live = mem.live.diff (blocksOf p) := by
  rw [Memory.kfree, blocksOf]
  split_ifs
  · rfl
  · rw [List.diff_cons, List.diff_nil]

theorem foldl_kfree_live (pointers : List Nat) (mem : Memory) :
    (pointers.foldl Memory.kfree mem).live = mem.live.diff (pointers.flatMap blocksOf) := by
  induction pointers generalizing mem with
  | nil => rfl
  | cons p rest ih => rw [List.foldl_cons, ih, kfree_live, List.flatMap_cons, List.diff_append]

/-! ## Blocks of a call -/

/-- From `mem` to `mem'` the blocks `new` are allocated, and no others come or go. -/
structure Acquired (mem mem' : Memory) (new : List Nat) : Prop where
  live : mem'.live = new ++ mem.live
  fresh : ∀ b ∈ new, mem.brk ≤ b ∧ b < mem'.brk
  once : new.Nodup
  grows : mem.brk ≤ mem'.brk

namespace Acquired

variable {mem mem' : Memory} {new : List Nat}

theorem nothing (mem : Memory) : Acquired mem mem [] :=
  ⟨rfl, fun _ member => absurd member List.not_mem_nil, List.nodup_nil, Nat.le_refl _⟩

theorem kmalloc (acquired : Acquired mem mem' new) (size : Nat) (granted : Bool) :
    Acquired mem (mem'.kmalloc size granted).2
      (blocksOf (mem'.kmalloc size granted).1 ++ new) := by
  have low := mem'.low
  rw [Memory.kmalloc]
  split
  · rw [blocksOf, if_pos (.inr rfl)]
    exact acquired
  · split
    · have names : ¬ (mem'.brk = null ∨ mem'.brk = zeroSizePtr) := by
        rw [zeroSizePtr] at low ⊢
        rw [null]
        omega
      rw [blocksOf, if_neg names]
      refine ⟨congrArg (mem'.brk :: ·) acquired.live, fun b member => ?_, ?_, ?_⟩
      · rcases List.mem_cons.mp member with rfl | earlier
        · exact ⟨acquired.grows, by dsimp only; omega⟩
        · have bounds := acquired.fresh b earlier
          exact ⟨bounds.1, by dsimp only; omega⟩
      · refine List.nodup_cons.mpr ⟨fun member => ?_, acquired.once⟩
        have bounds := acquired.fresh _ member
        omega
      · have grows := acquired.grows
        dsimp only
        omega
    · rw [blocksOf, if_pos (.inl rfl)]
      exact acquired

theorem store (acquired : Acquired mem mem' new) (a : Nat) (bytes : List UInt8) :
    Acquired mem (mem'.store a bytes) new :=
  ⟨acquired.live, acquired.fresh, acquired.once, acquired.grows⟩

-- the block that was allocated last is given back
theorem kfree {p : Nat} (acquired : Acquired mem mem' (blocksOf p ++ new)) :
    Acquired mem (mem'.kfree p) new := by
  have brk : (mem'.kfree p).brk = mem'.brk := by
    rw [Memory.kfree]
    split <;> rfl
  refine ⟨?_, fun b member => ?_, acquired.once.of_append_right, by rw [brk]; exact acquired.grows⟩
  · rw [kfree_live, acquired.live, blocksOf]
    split
    · rfl
    · rw [List.diff_cons, List.diff_nil, List.append_assoc, List.singleton_append,
        List.erase_cons_head]
  · rw [brk]
    exact acquired.fresh b (List.mem_append_right _ member)

/-- Freeing what was acquired leaves the blocks from before. -/
theorem freed (acquired : Acquired mem mem' new) {result : Option LunatikResult}
    (same : new.Perm (freedBlocks result)) :
    (lunatikResultFree result mem').live = mem.live := by
  rw [freedBlocks] at same
  rw [lunatikResultFree_eq, foldl_kfree_live, acquired.live, ← same.diff_left]
  clear acquired same
  induction new with
  | nil => rfl
  | cons b new ih => rw [List.cons_append, List.diff_cons, List.erase_cons_head, ih]

end Acquired

/-! ## The arms of the constructor -/

-- what the call has left allocated when it returns is what freeing its result frees
def ReleasedExactly (mem : Memory) : ResultOutcome → Prop
  | .returned r _ mem' => ∃ new, Acquired mem mem' new ∧ new.Perm (freedBlocks r)
  | .wildRead => True

theorem blocksOf_null : blocksOf null = [] := if_pos (.inl rfl)

-- a result of another type is its own block
theorem freedBlocks_plain {r : LunatikResult} (notString : r.rType ≠ luaTstring)
    (notUserdata : r.rType ≠ luaTuserdata) : freedBlocks (some r) = blocksOf r.self := by
  rw [freedBlocks, freedPointers, if_neg notString, if_neg notUserdata, List.nil_append,
    List.flatMap_singleton]

theorem freedBlocks_string (r p size : Nat) (w : Nat) :
    freedBlocks (some ⟨r, luaTstring, p, size, w⟩) = blocksOf p ++ blocksOf r := by
  rw [freedBlocks, freedPointers, if_pos rfl, List.flatMap_append, List.flatMap_singleton,
    List.flatMap_singleton]
  rfl

theorem freedBlocks_userdata (r p size q : Nat) :
    freedBlocks (some ⟨r, luaTuserdata, p, size, q⟩) = blocksOf p ++ blocksOf q ++ blocksOf r := by
  have other : luaTuserdata ≠ luaTstring := by decide
  rw [freedBlocks, freedPointers, if_neg other, if_pos rfl, List.flatMap_append,
    List.flatMap_cons, List.flatMap_singleton, List.flatMap_singleton]
  rfl

variable {heap : Heap} {mem mem' : Memory} {r : Nat}

theorem resultOfUserdata_released (heap : Heap) (u : Nat) (allocs : ResultAllocs)
    (stackWord : Nat) (perror : Int) (acquired : Acquired mem mem' (blocksOf r)) :
    ReleasedExactly mem (resultOfUserdata heap u allocs stackWord perror r mem') := by
  rw [resultOfUserdata]
  have data := acquired.kmalloc (heap.udata u).bytes.length allocs.userdata
  generalize mem'.kmalloc (heap.udata u).bytes.length allocs.userdata = first at data ⊢
  obtain ⟨p, mem₁⟩ := first
  dsimp only at data ⊢
  split
  next refused =>
    -- the copy is refused, and the zeroed result has no pointers
    rw [refused, blocksOf_null, List.nil_append] at data
    refine ⟨_, data, ?_⟩
    rw [zeroedResult, freedBlocks_userdata, show (0 : Nat) = null from rfl, blocksOf_null]
    exact List.Perm.refl _
  next =>
    have stored := data.store p (heap.udata u).bytes
    generalize userdataTypeSource heap u stackWord = source
    obtain ⟨bytes, size, request⟩ := source
    have name := stored.kmalloc request allocs.userdataType
    generalize (mem₁.store p (heap.udata u).bytes).kmalloc request allocs.userdataType = second
      at name ⊢
    obtain ⟨q, mem₂⟩ := second
    dsimp only at name ⊢
    split
    next refused =>
      -- the name is refused: the first copy is freed at once
      rw [refused, blocksOf_null, List.nil_append] at name
      refine ⟨_, name.kfree, ?_⟩
      rw [freedBlocks_userdata, blocksOf_null]
      exact List.Perm.refl _
    next =>
      split
      next =>
        refine ⟨_, name.store q _, ?_⟩
        rw [freedBlocks_userdata, ← List.append_assoc]
        exact List.perm_append_comm.append_right _
      next => trivial

theorem resultGet_released (heap : Heap) (v : TValue) (allocs : ResultAllocs) (stackWord : Nat)
    (perror : Int) (mem : Memory) :
    ReleasedExactly mem (lunatikResultGet heap v allocs stackWord perror mem) := by
  rw [lunatikResultGet]
  have block := (Acquired.nothing mem).kmalloc sizeofResult allocs.result
  rw [List.append_nil] at block
  generalize mem.kmalloc sizeofResult allocs.result = made at block ⊢
  obtain ⟨r, mem'⟩ := made
  dsimp only at block ⊢
  split
  next refused =>
    rw [refused, blocksOf_null] at block
    exact ⟨_, block, List.Perm.refl _⟩
  next =>
    cases v with
    | userdata u => exact resultOfUserdata_released heap u allocs stackWord perror block
    | string s =>
      dsimp only
      have copy := block.kmalloc (s.length + 1) allocs.string
      generalize mem'.kmalloc (s.length + 1) allocs.string = made at copy ⊢
      obtain ⟨p, mem₁⟩ := made
      dsimp only at copy ⊢
      split
      next refused =>
        rw [refused, blocksOf_null, List.nil_append] at copy
        refine ⟨_, copy, ?_⟩
        rw [zeroedResult, freedBlocks_string, show (0 : Nat) = null from rfl, blocksOf_null]
        exact List.Perm.refl _
      next =>
        refine ⟨_, copy.store p _, ?_⟩
        rw [freedBlocks_string]
    | nil | boolean _ | lightuserdata _ | number _ | table _ | function _ | thread _ =>
      refine ⟨_, block, ?_⟩
      rw [freedBlocks_plain]
      all_goals simp [zeroedResult, ttype, luaTnil, luaTboolean, luaTlightuserdata, luaTnumber,
        luaTstring, luaTtable, luaTfunction, luaTuserdata, luaTthread]

/-! ## The whole life of a result -/

/-- Whatever the value is and whichever allocations fail, the blocks that a call leaves allocated
are the blocks that freeing its result frees, each once; freeing NULL frees nothing. -/
theorem result_released_exactly {heap : Heap} {v : TValue} {allocs : ResultAllocs} {stackWord : Nat}
    {perror e : Int} {mem mem' : Memory} {result : Option LunatikResult}
    (returned : lunatikResultGet heap v allocs stackWord perror mem = .returned result e mem') :
    (∃ new, mem'.live = new ++ mem.live ∧ (∀ b ∈ new, mem.brk ≤ b) ∧ new.Nodup ∧
      new.Perm (freedBlocks result)) ∧
    (lunatikResultFree result mem').live = mem.live ∧
    ∀ m, lunatikResultFree none m = m := by
  have released := resultGet_released heap v allocs stackWord perror mem
  rw [returned] at released
  obtain ⟨new, acquired, same⟩ := released
  exact ⟨⟨new, acquired.live, fun b member => (acquired.fresh b member).1, acquired.once, same⟩,
    acquired.freed same, fun _ => rfl⟩

/-- The string `"x"`, with its copy refused. -/
theorem result_released_refused_copy :
    ∃ result mem', lunatikResultGet emptyHeap (.string [120]) ⟨true, false, true, true⟩ 0 0
        Memory.empty = .returned result (-enomem) mem' ∧
      (lunatikResultFree result mem').live = [] := by
  have returned : lunatikResultGet emptyHeap (.string [120]) ⟨true, false, true, true⟩ 0 0
      Memory.empty = .returned (some (zeroedResult 4096 luaTstring)) (-enomem)
        (Memory.empty.kmalloc sizeofResult true).2 := rfl
  exact ⟨_, _, returned, (result_released_exactly returned).2.1⟩

end Lunatik.Verified
