import Lunatik.Core.Result

/-! # When a returned result is well formed

A consumer of `d->result` looks at `r_type` alone.  `WellFormed` is what it may then
rely on; `resultGet_wellFormed_iff` says exactly when `lunatik_result_get` delivers it.
Two things stand in the way: a refused copy leaves a typed result with NULL pointers,
and a userdata without `__name` is copied with a size that was never set.
-/

namespace Lunatik.Verified

open Lunatik.Kernel Lunatik.Lua Lunatik.Core

/-- The type name of a userdata: its `__name` as a string, empty when there is none. -/
def typeName (heap : Heap) (u : Nat) : List UInt8 :=
  ((luaLGetmetafield heap u "__name").bind tostring).getD []

/-- The contract between `lunatik_result_get` and the consumers of its result. -/
structure WellFormed (heap : Heap) (v : TValue) (mem : Memory) (r : LunatikResult) : Prop where
  string : r.rType = luaTstring →
    ∃ s, v = .string s ∧ r.rStringSize = s.length ∧ mem.Holds r.rString (s ++ [0])
  userdata : r.rType = luaTuserdata →
    ∃ u, v = .userdata u ∧ r.rUserdataSize = (heap.udata u).bytes.length ∧
      mem.Holds r.rUserdata (heap.udata u).bytes ∧
      mem.Holds r.rUserdataType (typeName heap u ++ [0])

/-- A call that stays inside its objects and leaves NULL or a well-formed result. -/
def ResultOutcome.Ok (heap : Heap) (v : TValue) : ResultOutcome → Prop
  | .returned none _ _ => True
  | .returned (some r) _ mem => WellFormed heap v mem r
  | .wildRead => False

/-- The inputs on which nothing goes wrong: each copy that the value needs is granted, and
    a nameless userdata finds at most the size of the empty literal in the unset variable. -/
def CopiesGranted (heap : Heap) (v : TValue) (allocs : ResultAllocs) (stackWord : Nat) : Prop :=
  match v with
  | .string _ => allocs.string = true
  | .userdata u =>
    ((heap.udata u).bytes = [] ∨ allocs.userdata = true) ∧ allocs.userdataType = true ∧
      (luaLGetmetafield heap u "__name" = none → stackWord ≤ 1)
  | _ => True

/-! ## Values other than strings and userdata -/

/-- A result of another type owes its consumer nothing. -/
theorem wellFormed_of_other_type {heap : Heap} {v : TValue} {mem : Memory} {r : LunatikResult}
    (notString : r.rType ≠ luaTstring) (notUserdata : r.rType ≠ luaTuserdata) :
    WellFormed heap v mem r :=
  ⟨fun h => absurd h notString, fun h => absurd h notUserdata⟩

/-! ## Strings -/

theorem string_wellFormed {heap : Heap} {s : List UInt8} {mem : Memory} {r p : Nat}
    (pointer : p ≠ null) :
    WellFormed heap (.string s) (mem.store p (s ++ [0])) ⟨r, luaTstring, p, s.length, 0⟩ :=
  ⟨fun _ => ⟨s, rfl, rfl, Memory.store_holds _ pointer _⟩, fun h => by
    simp [luaTstring, luaTuserdata] at h⟩

theorem string_refused {heap : Heap} {s : List UInt8} {mem : Memory} {r : Nat} :
    ¬ WellFormed heap (.string s) mem (zeroedResult r luaTstring) := by
  intro h
  obtain ⟨_, _, _, pointer, _⟩ := h.string rfl
  exact pointer rfl

/-! ## Userdata -/

/-- A userdata result whose type pointer is NULL is not well formed. -/
theorem userdata_refused {heap : Heap} {v : TValue} {mem : Memory} {r p size : Nat} :
    ¬ WellFormed heap v mem ⟨r, luaTuserdata, p, size, null⟩ := by
  intro h
  obtain ⟨_, _, _, _, pointer, _⟩ := h.userdata rfl
  exact pointer rfl

/-- The copy of the type name stays inside its source unless the size is the unset word,
    and then it starts with the zero-terminated name. -/
theorem userdataTypeSource_spec (heap : Heap) (u stackWord : Nat)
    (sized : luaLGetmetafield heap u "__name" = none → stackWord ≤ 1) :
    (userdataTypeSource heap u stackWord).2.1 ≤ (userdataTypeSource heap u stackWord).1.length ∧
      (userdataTypeSource heap u stackWord).2.2 ≠ 0 ∧
      ∃ rest, (userdataTypeSource heap u stackWord).1.take (userdataTypeSource heap u stackWord).2.1
        ++ [0] = typeName heap u ++ [0] ++ rest := by
  unfold userdataTypeSource typeName
  cases field : luaLGetmetafield heap u "__name" with
  | some name =>
    cases shown : tostring name with
    | some s => exact ⟨by simp [shown], by simp [shown], [], by simp [shown]⟩
    | none => exact ⟨by simp [shown], by simp [shown], [], by simp [shown]⟩
  | none =>
    have bound := sized field
    have request : wrap (stackWord + 1) = stackWord + 1 := by
      simp only [wrap, sizeModulus]; omega
    refine ⟨by simpa using bound, by simp [request], ?_⟩
    cases stackWord with
    | zero => exact ⟨[], rfl⟩
    | succ n =>
      have : n = 0 := by omega
      exact ⟨[0], by simp [this]⟩

/-- A nameless userdata with a larger unset word makes the copy leave its source. -/
theorem userdataTypeSource_unset {heap : Heap} {u stackWord : Nat}
    (nameless : luaLGetmetafield heap u "__name" = none) (large : 1 < stackWord) :
    ¬ (userdataTypeSource heap u stackWord).2.1 ≤
      (userdataTypeSource heap u stackWord).1.length := by
  simp [userdataTypeSource, nameless, large]

theorem resultOfUserdata_ok_iff (heap : Heap) (u : Nat) (allocs : ResultAllocs) (stackWord : Nat)
    (perror : Int) (r : Nat) (mem : Memory) :
    ResultOutcome.Ok heap (.userdata u) (resultOfUserdata heap u allocs stackWord perror r mem) ↔
      CopiesGranted heap (.userdata u) allocs stackWord := by
  have dataNull := Memory.kmalloc_eq_null_iff mem (heap.udata u).bytes.length allocs.userdata
  simp only [resultOfUserdata, CopiesGranted]
  by_cases dataRefused : (mem.kmalloc (heap.udata u).bytes.length allocs.userdata).1 = null
  · -- the first copy is refused: the zeroed result has no type name
    obtain ⟨nonempty, refused⟩ := dataNull.mp dataRefused
    simp only [dataRefused, if_true, ResultOutcome.Ok]
    refine iff_of_false userdata_refused ?_
    rintro ⟨empty | granted, _⟩
    · exact nonempty (by simp [empty])
    · simp [refused] at granted
  · have dataGranted : (heap.udata u).bytes = [] ∨ allocs.userdata = true := by
      by_contra neither
      simp only [not_or, Bool.not_eq_true] at neither
      exact dataRefused (dataNull.mpr ⟨by simpa using neither.1, neither.2⟩)
    simp only [dataRefused, if_false, dataGranted, true_and]
    generalize held : (mem.kmalloc (heap.udata u).bytes.length allocs.userdata).2.store
      (mem.kmalloc (heap.udata u).bytes.length allocs.userdata).1 (heap.udata u).bytes = mem₁
    have dataHeld : mem₁.Holds (mem.kmalloc (heap.udata u).bytes.length allocs.userdata).1
        (heap.udata u).bytes := held ▸ Memory.store_holds _ dataRefused _
    have dataBelow : (mem.kmalloc (heap.udata u).bytes.length allocs.userdata).1 +
        (heap.udata u).bytes.length ≤ mem₁.brk := by
      subst held
      exact Memory.kmalloc_below mem _ _ dataRefused
    by_cases sized : luaLGetmetafield heap u "__name" = none → stackWord ≤ 1
    · obtain ⟨inside, request, rest, stored⟩ := userdataTypeSource_spec heap u stackWord sized
      cases typeAlloc : allocs.userdataType with
      | false =>
        simp only [mem₁.kmalloc_refused request, if_true, ResultOutcome.Ok, Bool.false_eq_true,
          false_and, iff_false]
        exact userdata_refused
      | true =>
        have typeGranted := mem₁.kmalloc_ne_null (userdataTypeSource heap u stackWord).2.2
        simp only [typeGranted, if_false, inside, if_true, ResultOutcome.Ok, true_and]
        refine iff_of_true ⟨fun h => by simp [luaTstring, luaTuserdata] at h, fun _ => ?_⟩ sized
        obtain ⟨address, _⟩ := Memory.kmalloc_granted mem₁ request
        refine ⟨u, rfl, rfl, ?_, ?_⟩
        · refine (dataHeld.kmalloc dataBelow _ true).store ?_
          rw [address]; exact dataBelow
        · rw [stored]
          exact (Memory.store_holds _ typeGranted _).append_left
    · -- an unset size: refused, or read past the empty literal
      simp only [Classical.not_imp, not_le] at sized
      have outside := userdataTypeSource_unset sized.1 sized.2
      refine iff_of_false ?_ fun both => absurd (both.2 sized.1) (by omega)
      simp only [outside, if_false]
      split
      · exact userdata_refused
      · exact id

/-! ## The whole function -/

theorem resultGet_ok_iff (heap : Heap) (v : TValue) (allocs : ResultAllocs) (stackWord : Nat)
    (perror : Int) (mem : Memory) :
    ResultOutcome.Ok heap v (lunatikResultGet heap v allocs stackWord perror mem) ↔
      allocs.result = false ∨ CopiesGranted heap v allocs stackWord := by
  simp only [lunatikResultGet]
  cases structAlloc : allocs.result with
  | false => simp [mem.kmalloc_refused (show sizeofResult ≠ 0 by decide), ResultOutcome.Ok]
  | true =>
    have granted := mem.kmalloc_ne_null sizeofResult
    simp only [granted, if_false, Bool.true_eq_false, false_or]
    cases v with
    | userdata u => exact resultOfUserdata_ok_iff heap u allocs stackWord perror _ _
    | string s =>
      simp only [CopiesGranted]
      cases stringAlloc : allocs.string with
      | false =>
        have refused :=
          (mem.kmalloc sizeofResult true).2.kmalloc_refused (Nat.succ_ne_zero s.length)
        simp only [Nat.succ_eq_add_one] at refused
        simp only [refused, if_true, ResultOutcome.Ok, Bool.false_eq_true, iff_false]
        exact string_refused
      | true =>
        have pointer := (mem.kmalloc sizeofResult true).2.kmalloc_ne_null (s.length + 1)
        simp only [pointer, if_false, ResultOutcome.Ok, iff_true]
        exact string_wellFormed pointer
    | nil | boolean _ | lightuserdata _ | number _ | table _ | function _ | thread _ =>
      refine iff_of_true (wellFormed_of_other_type ?_ ?_) trivial <;>
        simp [zeroedResult, ttype, luaTnil, luaTboolean, luaTlightuserdata, luaTnumber, luaTstring,
          luaTtable, luaTfunction, luaTuserdata, luaTthread]

/-- Whatever value the chunk leaves and whatever allocations fail, `loadcode_internal` leaves
    `d->result` NULL or well formed exactly when no result is wanted, the result block itself
    is refused, or every copy that the value needs is made. -/
theorem loadcodeInternal_result_wellFormed_iff (run : ChunkRun) (needResult : Bool)
    (allocs : ResultAllocs) (stackWord : Nat) (mem : Memory) :
    ResultOutcome.Ok run.heap run.top (loadcodeInternal run needResult allocs stackWord mem) ↔
      needResult = false ∨ allocs.result = false ∨
        CopiesGranted run.heap run.top allocs stackWord := by
  cases needResult with
  | false => simp [loadcodeInternal, ResultOutcome.Ok]
  | true => simpa [loadcodeInternal] using resultGet_ok_iff run.heap run.top allocs stackWord run.status mem

/-- A chunk that returns the string `"x"`. -/
def returnsString : ChunkRun := ⟨0, 0, .string [120], emptyHeap⟩

/-- With the copy of that string refused, `d->result` is typed as a string but points nowhere. -/
theorem refused_string_copy_leaves_null_string :
    ∃ r mem, loadcodeInternal returnsString true ⟨true, false, true, true⟩ 0 Memory.empty =
        .returned (some r) (-enomem) mem ∧ r.rType = luaTstring ∧ r.rString = null ∧
      ¬ WellFormed returnsString.heap returnsString.top mem r :=
  ⟨_, _, rfl, rfl, rfl, string_refused⟩

end Lunatik.Verified
