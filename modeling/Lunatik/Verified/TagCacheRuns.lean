import Lunatik.Library.Hoare
import Lunatik.Lua.TagCache
import Lunatik.Verified.BufferCalls

/-! # The cache of absent tag methods

A bit of `flags` that is set while the table has the tag method would hide it.  Every access to a table
keeps the cache free of such bits, with one exception: `luaV_settable` looks for `__newindex` after
`luaH_set` has reset the bits and before the value is stored, and what it looks in may be the table that
it stores in.
-/

namespace Lunatik.Verified

open Lunatik.Lua Lunatik.Library

variable {heap heap' : Heap} {t : Table} {h : Nat} {key v : TValue} {s : LuaState}

/-! ## Sound caches -/

/-- No bit of the table hides a tag method. -/
def TableSound (t : Table) : Prop :=
  ∀ event : FastEvent, t.flags.testBit event.val.bit →
    luaHGet t (.string (literal event.val.name)) = .nil

def CacheSound (heap : Heap) : Prop := ∀ h, TableSound (heap.tables h)

-- what a lookup without a cache finds
def plainTagMethod (heap : Heap) (et : Option Nat) (event : TMS) : Option TValue := do
  let m ← et
  if metamethod heap m event = .nil then none else some (metamethod heap m event)

theorem plainTagMethod_none {m : Nat} {event : TMS} :
    plainTagMethod heap (some m) event = none ↔ metamethod heap m event = .nil := by
  rw [plainTagMethod]
  dsimp only [bind, Option.bind]
  split
  next absent => exact iff_of_true rfl absent
  next present => exact iff_of_false (by simp) present

theorem plainTagMethod_table (heap : Heap) (h : Nat) (event : TMS) :
    plainTagMethod heap (heap.tables h).metatable event =
      if luaTGettmbyobj heap (.table h) event = .nil then none
      else some (luaTGettmbyobj heap (.table h) event) := by
  rw [luaTGettmbyobj]
  cases (heap.tables h).metatable with
  | none => rfl
  | some m => rfl

theorem bit_injective {e e' : TMS} (fast : e.isFast) (fast' : e'.isFast) (same : e.bit = e'.bit) :
    e = e' := by
  cases e <;> cases e' <;> simp_all [TMS.isFast, TMS.bit]

theorem tableSound_reset (entries : List (TValue × TValue)) (metatable : Option Nat) :
    TableSound ⟨entries, metatable, 0⟩ := by
  intro event set
  rw [Nat.zero_testBit] at set
  cases set

theorem CacheSound.setTable (sound : CacheSound heap) (table : TableSound t)
    (set : heap'.tables = setAt heap.tables h t) : CacheSound heap' := by
  intro j
  rw [set]
  by_cases here : j = h
  · rw [here, setAt_same]
    exact table
  · rw [setAt_other _ _ here]
    exact sound j

theorem CacheSound.withTable (sound : CacheSound heap) (table : TableSound t) :
    CacheSound (withTable heap h t) :=
  sound.setTable table rfl

/-! ## Lookups -/

/-- The bit of an absent tag method may be set. -/
theorem TableSound.setBit (sound : TableSound t) (event : FastEvent)
    (absent : luaHGet t (.string (literal event.val.name)) = .nil) :
    TableSound { t with flags := t.flags ||| 2 ^ event.val.bit } := by
  intro other set
  rw [Nat.testBit_or, Nat.testBit_two_pow, Bool.or_eq_true, decide_eq_true_eq] at set
  cases set with
  | inl old => exact sound other old
  | inr new =>
    rw [← bit_injective event.2 other.2 new]
    exact absent

theorem fasttm_absent {m : Nat} {event : TMS} (absent : metamethod heap m event = .nil) :
    (fasttm heap (some m) event).2 =
      withTable heap m
        { heap.tables m with flags := (heap.tables m).flags ||| 2 ^ event.bit } := by
  have absent : luaHGet (heap.tables m) (.string (literal event.name)) = .nil := absent
  rw [fasttm]
  split
  next set =>
    have same : (heap.tables m).flags ||| 2 ^ event.bit = (heap.tables m).flags := by
      refine Nat.eq_of_testBit_eq fun i => ?_
      rw [Nat.testBit_or, Nat.testBit_two_pow]
      by_cases here : event.bit = i
      · rw [← here, set, Bool.true_or]
      · rw [decide_eq_false here, Bool.or_false]
    rw [same]
    exact (withTable_self heap m).symm
  next =>
    rw [absent]
    rfl

theorem fasttm_sound (sound : CacheSound heap) (et : Option Nat) (event : FastEvent) :
    CacheSound (fasttm heap et event.val).2 := by
  cases et with
  | none => exact sound
  | some m =>
    rw [fasttm]
    split
    next => exact sound
    next =>
      split
      next absent => exact sound.withTable ((sound m).setBit event absent)
      next => exact sound

/-- With a sound cache `fasttm` finds what is there. -/
theorem fasttm_plain (sound : CacheSound heap) (et : Option Nat) (event : FastEvent) :
    (fasttm heap et event.val).1 = plainTagMethod heap et event.val := by
  cases et with
  | none => rfl
  | some m =>
    rw [fasttm, plainTagMethod]
    dsimp only [bind, Option.bind]
    split
    next set =>
      have absent : metamethod heap m event.val = .nil := sound m event set
      rw [if_pos absent]
    next =>
      split
      next absent =>
        have absent : metamethod heap m event.val = .nil := absent
        rw [if_pos absent]
      next tm found present =>
        have present : ¬ metamethod heap m event.val = .nil := present
        rw [if_neg present]
        rfl

/-! ## Accesses that keep the cache sound -/

-- the cache is a matter of the tables
theorem CacheSound.congr (sound : CacheSound heap) (same : heap'.tables = heap.tables) :
    CacheSound heap' := by
  rw [CacheSound, same]
  exact sound

@[grind] def SoundState (s : LuaState) : Prop := CacheSound s.heap

abbrev KeepsCache {α : Type} (m : VmM α) : Prop := Kept SoundState m

theorem setHeap_keepsCache (sound : CacheSound heap) : KeepsCache (setHeap heap) :=
  Kept.update fun _ _ => sound

@[grind ←] theorem push_keepsCache (v : TValue) : KeepsCache (push v) := Kept.update fun _ sound => sound

@[grind ←] theorem setSlot_keepsCache (n : Nat) (v : TValue) : KeepsCache (setSlot n v) :=
  Kept.update fun _ sound => sound

@[grind ←] theorem setTop_keepsCache (n : Nat) : KeepsCache (setTop n) := Kept.update fun _ sound => sound

@[grind ←] theorem slot_keepsCache (n : Nat) : KeepsCache (slot n) := by
  unfold slot
  grind

@[grind ←] theorem raiseError_keepsCache {α : Type} (e : VmError) : KeepsCache (raiseError e : VmM α) :=
  Kept.raise _

@[grind ←] theorem hvalue_keepsCache (o : TValue) : KeepsCache (hvalue o) := by
  cases o with
  | table h => exact Kept.ret h
  | _ => exact Kept.raise _

@[grind ←] theorem belowTop_keepsCache (n : Nat) : KeepsCache (belowTop n) := by
  unfold belowTop
  grind

@[grind ←] theorem vmPop_keepsCache (n : Nat) : KeepsCache (vmPop n) := by
  unfold vmPop
  grind

/-! ### Calls -/

/-- What `luaH_setnum` and `luaH_setstr` store is no tag method. -/
theorem argTable_sound (stack : Nat → TValue) (first nvar : Nat) :
    TableSound (argTable stack first nvar) := by
  intro event _
  have other : literal "n" ≠ literal event.val.name := by
    cases event.val <;> decide +kernel
  have absent : (argTable stack first nvar).entries.find?
      (fun e => e.1 = .string (literal event.val.name)) = none := by
    rw [List.find?_eq_none]
    intro e member
    rw [argTable, List.mem_append, List.mem_map, List.mem_singleton] at member
    rcases member with ⟨i, -, rfl⟩ | rfl
    · simp
    · simpa using other
  rw [luaHGet, absent]

@[grind ←] theorem newArgTable_keepsCache (p : Proto) (actual : Nat) : KeepsCache (newArgTable p actual) := by
  unfold newArgTable
  split
  next =>
    refine Kept.get_bind fun s sound => Kept.bind ?_ fun h => Kept.ret _
    refine Kept.get_bind fun s sound => Kept.bind (setHeap_keepsCache ?_) fun _ => Kept.ret _
    exact sound.setTable (argTable_sound _ _ _) rfl
  next => exact Kept.ret _

theorem tryfuncTM_keepsCache (func : Nat) : KeepsCache (tryfuncTM func) := by
  refine Kept.get_bind fun s sound => ?_
  cases luaTGettmbyobj s.heap (s.stack func) .call with
  | function tm => exact Kept.write sound
  | _ => exact raiseError_keepsCache _

@[grind ←] theorem callable_keepsCache (func : Nat) : KeepsCache (callable func) := by
  refine Kept.bind (slot_keepsCache func) fun o => ?_
  cases o with
  | function id => exact Kept.ret _
  | _ => exact tryfuncTM_keepsCache func

@[grind ←] theorem adjustVarargs_keepsCache (p : Proto) (actual : Int) :
    KeepsCache (adjustVarargs p actual) := by
  unfold adjustVarargs moveFixed pushArgTable
  grind

@[grind ←] theorem precallBase_keepsCache (p : Proto) (func : Nat) :
    KeepsCache (precallBase p func) := by
  unfold precallBase
  grind

@[grind ←] theorem precallLua_keepsCache (p : Proto) (id func : Nat) (nresults : Int) (kont : Kont) :
    KeepsCache (precallLua p id func nresults kont) := by
  unfold precallLua
  grind

@[grind ←] theorem precallNative_keepsCache (func : Nat) (nresults : Int) (kont : Kont) :
    KeepsCache (precallNative func nresults kont) := Kept.update fun _ sound => sound

@[grind ←] theorem luaDCall_keepsCache (func : Nat) (nresults : Int) (kont : Kont) :
    KeepsCache (luaDCall func nresults kont) := by
  have entered : KeepsCache (luaDPrecall func nresults kont) := by
    refine Kept.bind (callable_keepsCache func) fun _ => Kept.get_bind fun s sound => ?_
    cases s.stack func with
    | function id =>
      dsimp only
      cases s.heap.closures id with
      | lua p upvals env => exact precallLua_keepsCache p id func nresults kont
      | c f env => exact precallNative_keepsCache func nresults kont
    | _ => exact Kept.raise _
  unfold luaDCall
  grind

@[grind ←] theorem callTMres_keepsCache (kont : Kont) (f p1 p2 : TValue) :
    KeepsCache (callTMres kont f p1 p2) := by
  unfold callTMres
  grind

@[grind ←] theorem callTM_keepsCache (f p1 p2 p3 : TValue) : KeepsCache (callTM f p1 p2 p3) := by
  unfold callTM
  grind

/-! ### Tables -/

theorem vmFasttm_keepsCache (et : Option Nat) (event : FastEvent) :
    KeepsCache (vmFasttm et event.val) := by
  refine Kept.get_bind fun s sound => Kept.bind (setHeap_keepsCache ?_) fun _ => Kept.ret _
  exact fasttm_sound sound et event

/-- `fasttm` is `luaT_gettm` where the bit is not set. -/
theorem vmFasttm_eq (m : Nat) (event : FastEvent) (s : LuaState) :
    vmFasttm (some m) event.val s =
      if (s.heap.tables m).flags.testBit event.val.bit then .ok none s else luaTGettm m event s := by
  rw [vmFasttm, bind_ok (get_run s), fasttm]
  dsimp only
  split
  next => rfl
  next =>
    rw [luaTGettm, bind_ok (get_run s)]
    dsimp only [metamethod]
    cases luaHGet (s.heap.tables m) (.string (literal event.val.name)) <;> rfl

theorem luaTGettm_keepsCache (events : Nat) (event : FastEvent) :
    KeepsCache (luaTGettm events event) := by
  refine Kept.get_bind fun s sound => ?_
  dsimp only
  split
  next absent =>
    refine Kept.bind (setHeap_keepsCache ?_) fun _ => Kept.ret _
    exact sound.withTable ((sound events).setBit event absent)
  next => exact Kept.ret _

theorem luaVGettable_keepsCache (key : TValue) (val loop : Nat) (t : TValue) :
    KeepsCache (luaVGettable key val loop t) := by
  induction loop generalizing t with
  | zero => exact raiseError_keepsCache _
  | succ loop ih =>
    rw [luaVGettable.eq_def]
    dsimp only
    split
    next =>
      refine Kept.get_bind fun s _ => Kept.bind (hvalue_keepsCache _) fun h => ?_
      split
      next => exact setSlot_keepsCache _ _
      next =>
        refine Kept.bind (vmFasttm_keepsCache _ ⟨.index, rfl⟩) fun found => ?_
        cases found with
        | none => exact setSlot_keepsCache _ _
        | some tm =>
          dsimp only
          split
          next => exact callTMres_keepsCache _ _ _ _
          next => exact ih _
    next =>
      refine Kept.get_bind fun s _ => ?_
      split
      next => exact raiseError_keepsCache _
      next =>
        split
        next => exact callTMres_keepsCache _ _ _ _
        next => exact ih _

/-- A store is sound where it stores no tag method whose bit is set. -/
theorem TableSound.put_iff (sound : TableSound t) : TableSound (luaHPut t key v) ↔
    ∀ event : FastEvent, t.flags.testBit event.val.bit →
      key = .string (literal event.val.name) → v = .nil := by
  constructor
  · intro sound' event set same
    have absent := sound' event set
    rw [← same, luaHGet_put_same] at absent
    exact absent
  · intro absent event set
    by_cases same : key = .string (literal event.val.name)
    · rw [← same, luaHGet_put_same]
      exact absent event set same
    · rw [luaHGet_put_other _ (fun equal => same equal.symm)]
      exact sound event set

-- an int is no name
theorem TableSound.put_number (sound : TableSound t) (n : LuaNumber) (v : TValue) :
    TableSound (luaHPut t (.number n) v) := by
  rw [sound.put_iff]
  intro event _ same
  cases same

-- the heap after luaH_set has searched the table
def resetFlags (heap : Heap) (h : Nat) : Heap := withTable heap h { heap.tables h with flags := 0 }

theorem CacheSound.reset (sound : CacheSound heap) (h : Nat) : CacheSound (resetFlags heap h) :=
  sound.withTable (tableSound_reset _ _)

@[simp] theorem resetFlags_flags (heap : Heap) (h : Nat) : ((resetFlags heap h).tables h).flags = 0 := by
  rw [resetFlags, withTable_tables_same]

theorem luaHSet_run (proper : ¬ (luaHGet (s.heap.tables h) key = .nil ∧ key = .nil)) :
    luaHSet h key s = .ok ⟨⟩ { s with heap := resetFlags s.heap h } := by
  rw [luaHSet, bind_ok (get_run s), bind_ok (setHeap_run _ s), if_neg proper]
  rfl

theorem luaHSet_nil (isNil : luaHGet (s.heap.tables h) .nil = .nil) :
    luaHSet h .nil s = .error (.error (.runerror "table index is nil"))
      { s with heap := resetFlags s.heap h } := by
  rw [luaHSet, bind_ok (get_run s), bind_ok (setHeap_run _ s), if_pos ⟨isNil, rfl⟩]
  rfl

theorem luaHSet_keepsCache (h : Nat) (key : TValue) : Triple SoundState (luaHSet h key)
    (fun _ s => SoundState s ∧ (s.heap.tables h).flags = 0) fun _ => SoundState := by
  intro s sound
  have reset : SoundState { s with heap := resetFlags s.heap h } := CacheSound.reset sound h
  rw [luaHSet, bind_ok (get_run s), bind_ok (setHeap_run _ s)]
  by_cases isNil : luaHGet (s.heap.tables h) key = .nil ∧ key = .nil
  · rw [if_pos isNil]
    exact reset
  · rw [if_neg isNil]
    exact ⟨reset, resetFlags_flags _ _⟩

theorem putTable_keepsCache (h : Nat) (key v : TValue) :
    Triple (fun s => SoundState s ∧ (s.heap.tables h).flags = 0) (putTable h key v)
      (fun _ => SoundState) fun _ => SoundState := by
  rintro s ⟨sound, reset⟩
  refine CacheSound.withTable sound ?_
  rw [(sound h).put_iff, reset]
  intro event set
  rw [Nat.zero_testBit] at set
  cases set

theorem luaRawset_keepsCache (n : Nat) : KeepsCache (luaRawset n) := by
  refine Kept.bind (belowTop_keepsCache n) fun o => Kept.bind (hvalue_keepsCache o) fun h => ?_
  refine Kept.bind (belowTop_keepsCache 2) fun key => ?_
  refine Triple.bind (luaHSet_keepsCache h key) fun _ => ?_
  -- the value is read in between
  refine Triple.bind (R := fun _ s => SoundState s ∧ (s.heap.tables h).flags = 0)
    (fun s holds => holds) fun v => ?_
  exact Triple.bind (putTable_keepsCache h key v) fun _ => vmPop_keepsCache 2

theorem luaRawseti_keepsCache (n : Int) : KeepsCache (luaRawseti n) := by
  refine Kept.bind (belowTop_keepsCache 2) fun o => Kept.bind (hvalue_keepsCache o) fun h => ?_
  refine Kept.bind (belowTop_keepsCache 1) fun v => ?_
  refine Kept.bind (Kept.get_bind fun s sound => setHeap_keepsCache ?_) fun _ =>
    vmPop_keepsCache 1
  exact CacheSound.withTable sound ((sound h).put_number _ v)

theorem luaSetmetatable_keepsCache (n : Nat) : KeepsCache (luaSetmetatable n) := by
  refine Kept.bind (belowTop_keepsCache n) fun obj => Kept.bind (belowTop_keepsCache 1) fun o => ?_
  have arg : KeepsCache (metatableArg o) := by
    cases o <;> first | exact Kept.ret _ | exact Kept.bind (hvalue_keepsCache _) fun _ => Kept.ret _
  refine Kept.bind arg fun mt => Kept.get_bind fun s sound => ?_
  have sound : CacheSound s.heap := sound
  split
  next h => exact Kept.bind (setHeap_keepsCache (sound.withTable (sound h))) fun _ => vmPop_keepsCache 1
  next u =>
    exact Kept.bind (setHeap_keepsCache (sound.congr rfl)) fun _ => vmPop_keepsCache 1
  next =>
    exact Kept.bind (setHeap_keepsCache (sound.congr rfl)) fun _ => vmPop_keepsCache 1

/-- The metatable of a userdata, as `lunatik_buf_new` sets it. -/
theorem luaSetmetatable_udata {u : Nat} (obj : s.stack (s.top - 2) = .userdata u)
    (mt : s.stack (s.top - 1) = .table h) : luaSetmetatable 2 s = vmSetmetatable s := by
  have arg : hvalue (.table h) s = .ok h s := rfl
  rw [luaSetmetatable, vmSetmetatable, bind_ok (belowTop_run 2 s), bind_ok (belowTop_run 1 s),
    bind_ok (belowTop_run 1 s), obj, mt, bind_ok arg, bind_ok (belowTop_run 2 s), obj]
  rfl

/-- What a resize leaves was there before. -/
theorem find_kept (entries : List (TValue × TValue)) (lost : List TValue) (key : TValue) :
    (entries.filter fun e => e.1 ∉ lost).find? (fun e => e.1 = key) =
      if key ∈ lost then none else entries.find? (fun e => e.1 = key) := by
  rw [List.find?_filter]
  split
  next gone =>
    rw [List.find?_eq_none]
    rintro e - both
    simp only [decide_not, Bool.not_eq_eq_eq_not, Bool.not_true,
      decide_eq_false_iff_not, decide_eq_true_eq] at both
    rw [both.2] at both
    exact both.1 gone
  next stays =>
    congr 1
    funext e
    by_cases same : e.1 = key
    · simp [same, stays]
    · simp [same]

theorem TableSound.resize (sound : TableSound t) (lost : List TValue) (moved : Bool) :
    TableSound
      { t with
        entries := t.entries.filter fun e => e.1 ∉ lost
        flags := if moved then 0 else t.flags } := by
  intro event set
  cases moved with
  | true =>
    rw [if_pos rfl, Nat.zero_testBit] at set
    cases set
  | false =>
    have absent := sound event set
    rw [luaHGet] at absent ⊢
    rw [find_kept]
    by_cases gone : .string (literal event.val.name) ∈ lost
    · rw [if_pos gone]
    · rw [if_neg gone]
      exact absent

theorem resizeTable_keepsCache (h : Nat) (lost : List TValue) (moved : Bool) :
    KeepsCache (resizeTable h lost moved) := by
  refine Kept.get_bind fun s sound => setHeap_keepsCache ?_
  exact CacheSound.withTable sound ((sound h).resize lost moved)

/-! ## Assignments -/

/-- The table that an assignment to a field of `t` arrives at, along `__newindex`. -/
def storesTo (heap : Heap) (key : TValue) : Nat → TValue → Option Nat
  | 0, _ => none
  | loop + 1, t =>
    let viaTM := fun tm : TValue =>
      match tm with
      | .function _ => none
      | tm => storesTo heap key loop tm
    match t with
    | .table h =>
      if luaHGet (heap.tables h) key ≠ .nil then some h
      else
        match luaTGettmbyobj heap t .newindex with
        | .nil => some h
        | tm => viaTM tm
    | t =>
      match luaTGettmbyobj heap t .newindex with
      | .nil => none
      | tm => viaTM tm

theorem storesTo_found (found : luaHGet (heap.tables h) key ≠ .nil) (loop : Nat) :
    storesTo heap key (loop + 1) (.table h) = some h := by
  rw [storesTo, if_pos found]

theorem storesTo_last (absent : luaHGet (heap.tables h) key = .nil)
    (noMethod : luaTGettmbyobj heap (.table h) .newindex = .nil) (loop : Nat) :
    storesTo heap key (loop + 1) (.table h) = some h := by
  rw [storesTo, if_neg (not_not.mpr absent), noMethod]

theorem storesTo_none {o : TValue} (noTable : ∀ h, o ≠ .table h)
    (noMethod : luaTGettmbyobj heap o .newindex = .nil) (loop : Nat) :
    storesTo heap key (loop + 1) o = none := by
  rw [storesTo, noMethod]
  exact noTable

/-- A method that is no function is assigned to in its turn. -/
theorem storesTo_via {o : TValue} (absent : ∀ h, o = .table h → luaHGet (heap.tables h) key = .nil)
    (method : luaTGettmbyobj heap o .newindex ≠ .nil) (loop : Nat) :
    storesTo heap key (loop + 1) o =
      match luaTGettmbyobj heap o .newindex with
      | .function _ => none
      | tm => storesTo heap key loop tm := by
  have via : ∀ (tm : TValue) (last : Option Nat), tm ≠ .nil →
      (match tm with
        | .nil => last
        | tm =>
          match tm with
          | .function _ => none
          | tm => storesTo heap key loop tm) =
        match tm with
        | .function _ => none
        | tm => storesTo heap key loop tm := by
    intro tm last present
    cases tm <;> first | rfl | exact absurd rfl present
  by_cases table : ∃ h, o = .table h
  · obtain ⟨h, rfl⟩ := table
    rw [storesTo, if_neg (not_not.mpr (absent h rfl))]
    exact via _ _ method
  · rw [storesTo]
    · exact via _ _ method
    · exact fun h same => table ⟨h, same⟩

/-- A table that is its own metatable is given the tag method `__newindex` that it did not have. -/
def HidesNewindex (heap : Heap) (key v : TValue) (target : Option Nat) : Prop :=
  key = .string (literal TMS.newindex.name) ∧ v ≠ .nil ∧
    ∃ h, target = some h ∧ (heap.tables h).metatable = some h ∧ luaHGet (heap.tables h) key = .nil

/-- The heaps differ in the cache only. -/
structure SameContents (heap heap' : Heap) : Prop where
  entries : ∀ h, (heap'.tables h).entries = (heap.tables h).entries
  metatable : ∀ h, (heap'.tables h).metatable = (heap.tables h).metatable
  udata : heap'.udata = heap.udata
  mt : heap'.mt = heap.mt

namespace SameContents

variable {heap'' : Heap}

theorem refl (heap : Heap) : SameContents heap heap := ⟨fun _ => rfl, fun _ => rfl, rfl, rfl⟩

theorem trans (first : SameContents heap heap') (second : SameContents heap' heap'') :
    SameContents heap heap'' :=
  ⟨fun h => (second.entries h).trans (first.entries h),
    fun h => (second.metatable h).trans (first.metatable h),
    second.udata.trans first.udata, second.mt.trans first.mt⟩

theorem withFlags (heap : Heap) (h flags : Nat) :
    SameContents heap (withTable heap h { heap.tables h with flags }) := by
  refine ⟨fun j => ?_, fun j => ?_, rfl, rfl⟩
  · by_cases here : j = h
    · rw [here, withTable_tables_same]
    · rw [withTable_tables_other _ here]
  · by_cases here : j = h
    · rw [here, withTable_tables_same]
    · rw [withTable_tables_other _ here]

theorem fasttm (heap : Heap) (et : Option Nat) (event : TMS) :
    SameContents heap (fasttm heap et event).2 := by
  cases et with
  | none => exact refl heap
  | some m =>
    rw [Lua.fasttm]
    split
    next => exact refl heap
    next =>
      split
      next => exact withFlags heap m _
      next => exact refl heap

theorem reset (heap : Heap) (h : Nat) : SameContents heap (resetFlags heap h) := withFlags heap h 0

variable (same : SameContents heap heap')

include same

theorem get (h : Nat) (key : TValue) :
    luaHGet (heap'.tables h) key = luaHGet (heap.tables h) key := by
  rw [luaHGet, same.entries, luaHGet]

theorem tagMethod (o : TValue) (event : TMS) :
    luaTGettmbyobj heap' o event = luaTGettmbyobj heap o event := by
  cases o <;> simp only [luaTGettmbyobj, same.metatable, same.udata, same.mt, same.get]

theorem plain (et : Option Nat) (event : TMS) :
    plainTagMethod heap' et event = plainTagMethod heap et event := by
  cases et with
  | none => rfl
  | some m =>
    have value : metamethod heap' m event = metamethod heap m event := same.get m _
    rw [plainTagMethod, plainTagMethod]
    dsimp only [bind, Option.bind]
    rw [value]

theorem storesTo (key : TValue) (loop : Nat) (t : TValue) :
    storesTo heap' key loop t = storesTo heap key loop t := by
  induction loop generalizing t with
  | zero => rfl
  | succ loop ih =>
    rw [Verified.storesTo.eq_def, Verified.storesTo.eq_def]
    simp only [same.get, same.tagMethod, ih]

theorem hides (key v : TValue) (target : Option Nat) :
    HidesNewindex heap' key v target ↔ HidesNewindex heap key v target := by
  simp only [HidesNewindex, same.metatable, same.get]

end SameContents

theorem HidesNewindex.not_none : ¬ HidesNewindex heap key v none := by
  rintro ⟨-, -, h, impossible, -⟩
  cases impossible

-- the bits of the table when luaV_settable stores in it
theorem flags_lookedUp (noMethod : plainTagMethod heap (heap.tables h).metatable .newindex = none) :
    ((fasttm (resetFlags heap h) (heap.tables h).metatable .newindex).2.tables h).flags =
      if (heap.tables h).metatable = some h then 2 ^ TMS.newindex.bit else 0 := by
  cases mt : (heap.tables h).metatable with
  | none => exact resetFlags_flags heap h
  | some m =>
    have absent : metamethod (resetFlags heap h) m .newindex = .nil := by
      rw [metamethod, (SameContents.reset heap h).get]
      rw [mt] at noMethod
      exact plainTagMethod_none.mp noMethod
    by_cases own : m = h
    · rw [own] at absent ⊢
      rw [if_pos rfl, fasttm_absent absent, withTable_tables_same, resetFlags_flags,
        Nat.zero_or]
    · rw [if_neg fun same => own (Option.some.inj same), fasttm_absent absent,
        withTable_tables_other _ (Ne.symm own), resetFlags_flags]

/-- The store after the lookup of `__newindex`, which has reset the bits and may have set that one. -/
theorem store_sound_iff (sound : CacheSound heap) (absent : luaHGet (heap.tables h) key = .nil)
    (noMethod : plainTagMethod heap (heap.tables h).metatable .newindex = none)
    (lookedUp : heap' = (fasttm (resetFlags heap h) (heap.tables h).metatable .newindex).2) :
    CacheSound (withTable heap' h (luaHPut (heap'.tables h) key v)) ↔
      ¬ HidesNewindex heap key v (some h) := by
  have sound' : CacheSound heap' := by
    rw [lookedUp]
    exact fasttm_sound (sound.reset h) _ ⟨.newindex, rfl⟩
  have flags : (heap'.tables h).flags =
      if (heap.tables h).metatable = some h then 2 ^ TMS.newindex.bit else 0 := by
    rw [lookedUp, flags_lookedUp noMethod]
  have here : CacheSound (withTable heap' h (luaHPut (heap'.tables h) key v)) ↔
      TableSound (luaHPut (heap'.tables h) key v) := by
    refine ⟨fun stored => ?_, fun stored => sound'.withTable stored⟩
    rw [← withTable_tables_same heap' h (luaHPut (heap'.tables h) key v)]
    exact stored h
  rw [here, (sound' h).put_iff, flags]
  constructor
  · rintro visible ⟨name, some', j, target, own, -⟩
    obtain rfl : h = j := Option.some.inj target
    rw [if_pos own] at visible
    exact some' (visible ⟨.newindex, rfl⟩ (by simp) name)
  · intro visible event set name
    by_cases own : (heap.tables h).metatable = some h
    · rw [if_pos own, Nat.testBit_two_pow, decide_eq_true_eq] at set
      have newindex : TMS.newindex = event.val := bit_injective rfl event.2 set
      rw [← newindex] at name
      by_contra some'
      exact visible ⟨name, some', h, rfl, own, absent⟩
    · rw [if_neg own, Nat.zero_testBit] at set
      cases set

theorem luaVSettable_sound_iff (key v : TValue) (loop : Nat) (t : TValue) (sound : CacheSound s.heap) :
    CacheSound (stateAfter (luaVSettable key v loop t) s).heap ↔
      ¬ HidesNewindex s.heap key v (storesTo s.heap key loop t) := by
  induction loop generalizing t s with
  | zero => exact iff_of_true sound HidesNewindex.not_none
  | succ loop ih =>
    have viaTM : ∀ (tm : TValue) (s' : LuaState), CacheSound s'.heap → SameContents s.heap s'.heap →
        (CacheSound (stateAfter
            (match tm with
            | .function _ => callTM tm t key v
            | tm => luaVSettable key v loop tm) s').heap ↔
          ¬ HidesNewindex s.heap key v
            (match tm with
            | .function _ => none
            | tm => storesTo s.heap key loop tm)) := by
      intro tm s' sound' same
      split
      next => exact iff_of_true (Kept.after (callTM_keepsCache _ _ _ _) sound') HidesNewindex.not_none
      next => rw [ih _ sound', same.storesTo, same.hides]
    by_cases table : ∃ h, t = .table h
    · obtain ⟨h, rfl⟩ := table
      have noFault : hvalue (.table h) s = .ok h s := rfl
      obtain ⟨q, qEq⟩ : ∃ q : LuaState, q = { s with heap := resetFlags s.heap h } := ⟨_, rfl⟩
      have reset : CacheSound q.heap := by
        rw [qEq]
        exact sound.reset h
      have same : SameContents s.heap q.heap := by
        rw [qEq]
        exact SameContents.reset s.heap h
      rw [luaVSettable, stateAfter_bind noFault, stateAfter_bind (get_run s)]
      dsimp only
      by_cases isNil : luaHGet (s.heap.tables h) key = .nil
      · by_cases noKey : key = .nil
        · rw [noKey] at isNil ⊢
          rw [stateAfter, bind_error (luaHSet_nil isNil)]
          refine iff_of_true (sound.reset h) ?_
          rintro ⟨impossible, -⟩
          cases impossible
        · obtain ⟨heap', heapEq⟩ : ∃ heap', heap' =
            (fasttm q.heap (s.heap.tables h).metatable .newindex).2 := ⟨_, rfl⟩
          have lookup : vmFasttm (s.heap.tables h).metatable .newindex q = .ok
              (if luaTGettmbyobj s.heap (.table h) .newindex = .nil then none
                else some (luaTGettmbyobj s.heap (.table h) .newindex))
              { q with heap := heap' } := by
            rw [← plainTagMethod_table, ← same.plain, ← fasttm_plain reset _ ⟨.newindex, rfl⟩, heapEq]
            rfl
          have sound' : CacheSound heap' := by
            rw [heapEq]
            exact fasttm_sound reset _ ⟨.newindex, rfl⟩
          rw [stateAfter_bind (luaHSet_run fun both => noKey both.2), ← qEq,
            if_neg (not_not.mpr isNil), stateAfter_bind lookup]
          by_cases noMethod : luaTGettmbyobj s.heap (.table h) .newindex = .nil
          · rw [if_pos noMethod, storesTo_last isNil noMethod]
            rw [qEq] at heapEq
            refine store_sound_iff sound isNil ?_ heapEq
            rw [plainTagMethod_table, if_pos noMethod]
          · rw [if_neg noMethod, storesTo_via (fun j table => TValue.table.inj table ▸ isNil) noMethod]
            exact viaTM _ { q with heap := heap' } sound'
              (same.trans (by rw [heapEq]; exact SameContents.fasttm _ _ _))
      · rw [stateAfter_bind (luaHSet_run fun both => isNil both.1), ← qEq, if_pos isNil,
          storesTo_found isNil]
        refine iff_of_true ?_ ?_
        · refine CacheSound.withTable reset ?_
          rw [(reset h).put_iff]
          intro event set
          rw [qEq, resetFlags_flags, Nat.zero_testBit] at set
          cases set
        · rintro ⟨-, -, j, target, -, absent⟩
          obtain rfl : h = j := Option.some.inj target
          exact isNil absent
    · have noTable : ∀ h, t ≠ .table h := fun h same => table ⟨h, same⟩
      rw [luaVSettable, stateAfter_bind (get_run s)]
      · by_cases noMethod : luaTGettmbyobj s.heap t .newindex = .nil
        · rw [noMethod, storesTo_none noTable noMethod]
          exact iff_of_true sound HidesNewindex.not_none
        · rw [storesTo_via (fun j same => absurd same (noTable j)) noMethod,
            ← viaTM _ s sound (SameContents.refl _)]
          split
          next => contradiction
          next => rfl
      · exact noTable

/-! ## Runs -/

/-- The access hides a tag method. -/
def Hides (heap : Heap) : TableAccess → Prop
  | .settable t key v => HidesNewindex heap key v (storesTo heap key maxtagloop t)
  | _ => False

theorem program_sound_iff (sound : CacheSound s.heap) (access : TableAccess) :
    CacheSound (stateAfter access.program s).heap ↔ ¬ Hides s.heap access := by
  have kept : ∀ {m : VmM PUnit}, KeepsCache m →
      (CacheSound (stateAfter m s).heap ↔ ¬ False) := fun keeps =>
    iff_of_true (Kept.after keeps sound) id
  cases access with
  | settable t key v => exact luaVSettable_sound_iff key v maxtagloop t sound
  | gettable t key val => exact kept (luaVGettable_keepsCache key val maxtagloop t)
  | rawset n => exact kept (luaRawset_keepsCache n)
  | rawseti n => exact kept (luaRawseti_keepsCache n)
  | setmetatable n => exact kept (luaSetmetatable_keepsCache n)
  | gettm events event =>
    exact kept (Kept.bind (luaTGettm_keepsCache events event) fun _ => Kept.ret _)
  | fasttm et event => exact kept (Kept.bind (vmFasttm_keepsCache et event) fun _ => Kept.ret _)
  | resize h lost moved => exact kept (resizeTable_keepsCache h lost moved)

/-- All along a run `fasttm` finds what a plain lookup finds, if and only if no access hides a tag method. -/
theorem fasttm_agrees_iff (sound : CacheSound heap) (accesses : List (LuaState × TableAccess)) :
    (∀ n heap', accessTables.run heap (accesses.take n) = some heap' →
      CacheSound heap' ∧ ∀ et (event : FastEvent),
        (fasttm heap' et event.val).1 = plainTagMethod heap' et event.val) ↔
      accessTables.Meets (fun heap access => ¬ Hides heap access.2) heap accesses := by
  have exact : ∀ (heap : Heap) (access : LuaState × TableAccess), CacheSound heap →
      ∃ heap', accessTables.step heap access = some heap' ∧
        (CacheSound heap' ↔ ¬ Hides heap access.2) := fun heap access sound =>
    ⟨_, rfl, program_sound_iff (s := { access.1 with heap }) sound access.2⟩
  rw [← accessTables.always_iff_meets exact sound]
  constructor
  · exact fun always n heap' reaches => (always n heap' reaches).1
  · exact fun always n heap' reaches =>
      ⟨always n heap' reaches, fun et event => fasttm_plain (always n heap' reaches) et event⟩

/-! ### Runs on new tables -/

def newTables : Heap := { emptyHeap with tables := fun _ => newTable }

theorem newTables_sound : CacheSound newTables := fun _ _ _ => rfl

-- a thread with the first table twice at its top
def tableThread : LuaState where
  stack := fun _ => .table 0
  top := 2
  heap := newTables
  openupval := []
  frames := []
  mode := .native

-- t = setmetatable(t, t); t[event] = f
def setOwnMethod (event : TMS) : List (LuaState × TableAccess) :=
  [(tableThread, .setmetatable 2),
    (tableThread, .settable (.table 0) (.string (literal event.name)) (.function 0))]

theorem own_index_found : ∃ heap', accessTables.run newTables (setOwnMethod .index) = some heap' ∧
    CacheSound heap' ∧ ∀ et (event : FastEvent),
      (fasttm heap' et event.val).1 = plainTagMethod heap' et event.val := by
  have meets : accessTables.Meets (fun heap access => ¬ Hides heap access.2) newTables
      (setOwnMethod .index) := by
    refine ⟨id, fun heap _ => ⟨?_, fun _ _ => trivial⟩⟩
    rintro ⟨impossible, -⟩
    exact absurd impossible (by decide +kernel)
  exact ⟨_, rfl, (fasttm_agrees_iff newTables_sound _).mpr meets 2 _ rfl⟩

/-- `__newindex` of a table that is its own metatable. -/
theorem own_newindex_hidden : CacheSound newTables ∧ ∃ heap',
    accessTables.run newTables (setOwnMethod .newindex) = some heap' ∧ ¬ CacheSound heap' ∧
      plainTagMethod heap' (some 0) .newindex = some (.function 0) ∧
      (fasttm heap' (some 0) .newindex).1 = none := by
  refine ⟨newTables_sound, _, rfl, fun sound => ?_, by decide +kernel, by decide +kernel⟩
  have hidden := sound 0 ⟨.newindex, rfl⟩ (by decide +kernel)
  exact absurd hidden (by decide +kernel)

end Lunatik.Verified
