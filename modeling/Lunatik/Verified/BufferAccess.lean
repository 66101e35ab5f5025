import Lunatik.Verified.BufferNew
import Lunatik.Library.StoreHistory

/-! # Histories of buffer accesses

A buffer is a row of bytes: after any history of reads and writes it holds what was stored last, and
an access out of the bounds is an error that changes nothing.
-/

namespace Lunatik.Verified

open Lunatik.Lua Lunatik.Core Lunatik.Library

variable {getn : Table → Nat} {registry : Nat} {s : LuaState} {u : Nat}

/-! ## Bounds -/

/-- `key` is a number, or a string that reads as one, from 0 to `n - 1`. -/
def IndexOf (n : Nat) (key : TValue) (i : Nat) : Prop :=
  ∃ idx, luaVTonumber key = some idx ∧ 0 ≤ idx.toInt ∧ idx.toInt < n ∧ i = idx.toNat

/-- `v` is a number, or a string that reads as one, from 0 to 255. -/
def ByteOf (v : TValue) (c : UInt8) : Prop :=
  ∃ val, luaVTonumber v = some val ∧ 0 ≤ val.toInt ∧ val.toInt ≤ 255 ∧ c = UInt8.ofNat val.toNat

theorem indexOutOfRange_iff (idx : LuaNumber) (n : Nat) :
    indexOutOfRange idx n = false ↔ 0 ≤ idx.toInt ∧ idx.toInt < n := by
  rw [indexOutOfRange, Bool.or_eq_false_iff, decide_eq_false_iff_not, BitVec.slt_eq_decide,
    decide_eq_false_iff_not, show (0 : LuaNumber).toInt = 0 from rfl, Int.not_lt]
  have unsigned := BitVec.toInt_eq_toNat_cond idx
  split at unsigned <;> omega

theorem byteOutOfRange_iff (val : LuaNumber) :
    (val.slt 0 || (255 : LuaNumber).slt val) = false ↔ 0 ≤ val.toInt ∧ val.toInt ≤ 255 := by
  rw [Bool.or_eq_false_iff, BitVec.slt_eq_decide, BitVec.slt_eq_decide, decide_eq_false_iff_not,
    decide_eq_false_iff_not, show (0 : LuaNumber).toInt = 0 from rfl,
    show (255 : LuaNumber).toInt = 255 from rfl, Int.not_lt, Int.not_lt]

theorem readChecks_ok {n i : Nat} {key : TValue} : readChecks n key = .ok i ↔ IndexOf n key i := by
  rw [readChecks, IndexOf]
  cases converted : luaVTonumber key with
  | none => simp
  | some idx =>
    simp only [Option.some.injEq, exists_eq_left']
    cases outside : indexOutOfRange idx n with
    | true =>
      have no : ¬ (0 ≤ idx.toInt ∧ idx.toInt < n) := by rw [← indexOutOfRange_iff, outside]; simp
      simp only [if_true, reduceCtorEq, false_iff]
      intro yes
      exact no ⟨yes.1, yes.2.1⟩
    | false =>
      have yes := (indexOutOfRange_iff idx n).mp outside
      simp only [Bool.false_eq_true, if_false, Except.ok.injEq, yes.1, yes.2, true_and, eq_comm]

theorem writeChecks_ok {n i : Nat} {c : UInt8} {key v : TValue} :
    writeChecks n key v = .ok (i, c) ↔ IndexOf n key i ∧ ByteOf v c := by
  rw [writeChecks, IndexOf, ByteOf]
  cases converted : luaVTonumber key with
  | none => simp
  | some idx =>
    cases converted' : luaVTonumber v with
    | none => simp
    | some val =>
      simp only [Option.some.injEq, exists_eq_left']
      cases outside : indexOutOfRange idx n with
      | true =>
        have no : ¬ (0 ≤ idx.toInt ∧ idx.toInt < n) := by rw [← indexOutOfRange_iff, outside]; simp
        simp only [if_true, reduceCtorEq, false_iff]
        intro yes
        exact no ⟨yes.1.1, yes.1.2.1⟩
      | false =>
        have yes := (indexOutOfRange_iff idx n).mp outside
        cases outside' : val.slt 0 || (255 : LuaNumber).slt val with
        | true =>
          have no : ¬ (0 ≤ val.toInt ∧ val.toInt ≤ 255) := by
            rw [← byteOutOfRange_iff, outside']; simp
          simp only [Bool.false_eq_true, if_false, if_true, reduceCtorEq, false_iff]
          intro yes
          exact no ⟨yes.2.1, yes.2.2.1⟩
        | false =>
          have yes' := (byteOutOfRange_iff val).mp outside'
          simp only [Bool.false_eq_true, if_false, Except.ok.injEq, Prod.mk.injEq, yes.1, yes.2,
            yes'.1, yes'.2, true_and, eq_comm]

/-! ## Histories -/

inductive BufAccess where
  | read (key : TValue)
  | write (key v : TValue)

inductive BufReply where
  | value (v : TValue)
  | stored
  | stopped (stop : Stop)

/-- What a history of accesses to the buffer `u` makes of the heap `h`, each made by any thread in
    any state.  In between, anything may happen that leaves the buffer as it is. -/
inductive AccessRun (getn : Table → Nat) (registry u : Nat) (h : Heap) :
    List (BufAccess × BufReply) → Heap → Prop where
  | start : AccessRun getn registry u h [] h
  | elsewhere {log : List (BufAccess × BufReply)}
    {h' h'' : Heap} : AccessRun getn registry u h log h' →
      h''.udata u = h'.udata u → IsBuffer registry h'' u → AccessRun getn registry u h log h''
  | read {log : List (BufAccess × BufReply)} {s t : LuaState} {key : TValue} {val : Nat} :
      AccessRun getn registry u h log s.heap →
        bufIndex getn registry (.userdata u) key val s = .ok ⟨⟩ t →
      AccessRun getn registry u h (log ++ [(.read key, .value (t.stack val))]) t.heap
  | readStops {log : List (BufAccess × BufReply)} {s t : LuaState} {key : TValue} {val : Nat}
    {stop : Stop} :
      AccessRun getn registry u h log s.heap →
        bufIndex getn registry (.userdata u) key val s = .error stop t →
      AccessRun getn registry u h (log ++ [(.read key, .stopped stop)]) t.heap
  | write {log : List (BufAccess × BufReply)} {s t : LuaState} {key v : TValue} :
      AccessRun getn registry u h log s.heap →
        bufNewindex getn registry (.userdata u) key v s = .ok ⟨⟩ t →
      AccessRun getn registry u h (log ++ [(.write key v, .stored)]) t.heap
  | writeStops {log : List (BufAccess × BufReply)} {s t : LuaState} {key v : TValue} {stop : Stop} :
      AccessRun getn registry u h log s.heap →
        bufNewindex getn registry (.userdata u) key v s = .error stop t →
      AccessRun getn registry u h (log ++ [(.write key v, .stopped stop)]) t.heap

-- the bytes that an access has stored
def storeOf : BufAccess × BufReply → Option (Nat × UInt8)
  | (.write key v, .stored) =>
    match luaVTonumber key, luaVTonumber v with
    | some idx, some val => some (idx.toNat, UInt8.ofNat val.toNat)
    | _, _ => none
  | _ => none

def storesOf (log : List (BufAccess × BufReply)) : List (Nat × UInt8) := log.filterMap storeOf

/-! ## Single accesses -/

theorem IsBuffer.stored {h : Heap} (buffer : IsBuffer registry h u) (i : Nat) (c : UInt8) :
    IsBuffer registry (storedAt h u i c) u := by
  obtain ⟨mt, metatable, buf⟩ := buffer
  refine ⟨mt, ?_, buf.registered, buf.call, buf.len, buf.newindex, buf.index⟩
  rw [storedAt]
  dsimp only
  rw [setAt_same]
  exact metatable

@[simp] theorem storedAt_bytes (h : Heap) (i : Nat) (c : UInt8) :
    ((storedAt h u i c).udata u).bytes = (h.udata u).bytes.set i c := by
  rw [storedAt]
  dsimp only
  rw [setAt_same]

/-- A read within the bounds gives the byte. -/
theorem bufIndex_inside (getn : Table → Nat) (buffer : IsBuffer registry s.heap u)
    {key : TValue} {i : Nat} (inside : IndexOf (s.heap.udata u).bytes.length key i) (val : Nat) :
    ∃ t, bufIndex getn registry (.userdata u) key val s = .ok ⟨⟩ t ∧ t.heap = s.heap ∧
      t.stack val = .number (BitVec.ofNat 64 ((s.heap.udata u).bytes.getD i 0).toNat) := by
  have ran := bufIndex_run getn buffer key val
  rw [readChecks_ok.mpr inside] at ran
  obtain ⟨stack, -, ran⟩ := ran
  exact ⟨_, ran, rfl, setAt_same _ _ _⟩

theorem bufIndex_outside (getn : Table → Nat) (buffer : IsBuffer registry s.heap u) {key : TValue}
    (outside : ¬ ∃ i, IndexOf (s.heap.udata u).bytes.length key i) (val : Nat) :
    ∃ e t, bufIndex getn registry (.userdata u) key val s = .error (.error e) t ∧
      t.heap = s.heap := by
  have ran := bufIndex_run getn buffer key val
  cases checked : readChecks (s.heap.udata u).bytes.length key with
  | ok i => exact absurd ⟨i, readChecks_ok.mp checked⟩ outside
  | error e =>
    rw [checked] at ran
    obtain ⟨t, heap, ran⟩ := ran
    exact ⟨e, t, ran, heap⟩

/-- A write within the bounds stores the byte, and nothing else changes on the heap. -/
theorem bufNewindex_inside (getn : Table → Nat) (buffer : IsBuffer registry s.heap u)
    {key v : TValue} {i : Nat} {c : UInt8} (inside : IndexOf (s.heap.udata u).bytes.length key i)
    (byte : ByteOf v c) :
    ∃ t, bufNewindex getn registry (.userdata u) key v s = .ok ⟨⟩ t ∧
      t.heap = storedAt s.heap u i c := by
  have ran := bufNewindex_run getn buffer key v
  rw [writeChecks_ok.mpr ⟨inside, byte⟩] at ran
  obtain ⟨stack, -, ran⟩ := ran
  exact ⟨_, ran, rfl⟩

theorem bufNewindex_outside (getn : Table → Nat) (buffer : IsBuffer registry s.heap u)
    {key v : TValue} (outside : ¬ ((∃ i, IndexOf (s.heap.udata u).bytes.length key i) ∧
      ∃ c, ByteOf v c)) :
    ∃ e t, bufNewindex getn registry (.userdata u) key v s = .error (.error e) t ∧
      t.heap = s.heap := by
  have ran := bufNewindex_run getn buffer key v
  cases checked : writeChecks (s.heap.udata u).bytes.length key v with
  | ok stored =>
    obtain ⟨inside, byte⟩ := writeChecks_ok.mp checked
    exact absurd ⟨⟨_, inside⟩, _, byte⟩ outside
  | error e =>
    rw [checked] at ran
    obtain ⟨t, heap, ran⟩ := ran
    exact ⟨e, t, ran, heap⟩

-- the heap at the end of an access, however it ends
def endHeap : EStateM.Result Stop LuaState PUnit → Heap
  | .ok _ t => t.heap
  | .error _ t => t.heap

theorem bufIndex_endHeap (buffer : IsBuffer registry s.heap u) (key : TValue) (val : Nat) :
    endHeap (bufIndex getn registry (.userdata u) key val s) = s.heap := by
  by_cases inside : ∃ i, IndexOf (s.heap.udata u).bytes.length key i
  · obtain ⟨i, inside⟩ := inside
    obtain ⟨t, ran, heap, -⟩ := bufIndex_inside getn buffer inside val
    rw [ran]
    exact heap
  · obtain ⟨e, t, ran, heap⟩ := bufIndex_outside getn buffer inside val
    rw [ran]
    exact heap

theorem bufNewindex_stored (buffer : IsBuffer registry s.heap u) {key v : TValue} {t : LuaState}
    (ran : bufNewindex getn registry (.userdata u) key v s = .ok ⟨⟩ t) :
    ∃ i c, IndexOf (s.heap.udata u).bytes.length key i ∧ ByteOf v c ∧
      t.heap = storedAt s.heap u i c := by
  by_cases inside : (∃ i, IndexOf (s.heap.udata u).bytes.length key i) ∧ ∃ c, ByteOf v c
  · obtain ⟨⟨i, inside⟩, c, byte⟩ := inside
    obtain ⟨t', ran', heap⟩ := bufNewindex_inside getn buffer inside byte
    rw [ran] at ran'
    cases ran'
    exact ⟨i, c, inside, byte, heap⟩
  · obtain ⟨e, t', ran', -⟩ := bufNewindex_outside getn buffer inside
    rw [ran] at ran'
    cases ran'

theorem bufNewindex_stopped (buffer : IsBuffer registry s.heap u) {key v : TValue} {t : LuaState}
    {stop : Stop} (ran : bufNewindex getn registry (.userdata u) key v s = .error stop t) :
    t.heap = s.heap := by
  by_cases inside : (∃ i, IndexOf (s.heap.udata u).bytes.length key i) ∧ ∃ c, ByteOf v c
  · obtain ⟨⟨i, inside⟩, c, byte⟩ := inside
    obtain ⟨t', ran', -⟩ := bufNewindex_inside getn buffer inside byte
    rw [ran] at ran'
    cases ran'
  · obtain ⟨e, t', ran', heap⟩ := bufNewindex_outside getn buffer inside
    rw [ran] at ran'
    cases ran'
    exact heap

/-! ## Runs -/

theorem storesOf_concat (log : List (BufAccess × BufReply)) (e : BufAccess × BufReply) :
    storesOf (log ++ [e]) = storesOf log ++ (storeOf e).toList := by
  rw [storesOf, storesOf, List.filterMap_append]
  cases stored : storeOf e with
  | none => rw [List.filterMap_cons_none stored, List.filterMap_nil, Option.toList_none]
  | some _ => rw [List.filterMap_cons_some stored, List.filterMap_nil, Option.toList_some]

theorem storesOf_nothing (log : List (BufAccess × BufReply)) {e : BufAccess × BufReply}
    (none : storeOf e = none) :
    storesOf (log ++ [e]) = storesOf log := by
  rw [storesOf_concat, none, Option.toList_none, List.append_nil]

theorem storeOf_write {n i : Nat} {c : UInt8} {key v : TValue} (index : IndexOf n key i)
    (byte : ByteOf v c) :
    storeOf (.write key v, .stored) = some (i, c) := by
  obtain ⟨idx, converted, -, -, rfl⟩ := index
  obtain ⟨val, converted', -, -, rfl⟩ := byte
  rw [storeOf, converted, converted']

/-- After a history the buffer is a buffer still, and holds what was stored last. -/
theorem accessRun_after {h h' : Heap} {log : List (BufAccess × BufReply)}
    (buffer : IsBuffer registry h u) (run : AccessRun getn registry u h log h') :
    IsBuffer registry h' u ∧ AfterStores (h.udata u).bytes (storesOf log) (h'.udata u).bytes := by
  induction run with
  | start => exact ⟨buffer, .start _⟩
  | elsewhere _ same buffer' ih =>
    rw [same]
    exact ⟨buffer', ih.2⟩
  | read _ ran ih =>
    have heap := bufIndex_endHeap ih.1 _ _ ▸ congrArg endHeap ran
    rw [storesOf_nothing _ rfl]
    rw [endHeap] at heap
    rw [← heap]
    exact ih
  | readStops _ ran ih =>
    have heap := bufIndex_endHeap ih.1 _ _ ▸ congrArg endHeap ran
    rw [storesOf_nothing _ rfl]
    rw [endHeap] at heap
    rw [← heap]
    exact ih
  | write _ ran ih =>
    obtain ⟨i, c, inside, byte, heap⟩ := bufNewindex_stored ih.1 ran
    rw [storesOf_concat, storeOf_write inside byte, Option.toList_some, heap, storedAt_bytes]
    refine ⟨ih.1.stored i c, ih.2.store ?_ c⟩
    obtain ⟨idx, -, low, high, rfl⟩ := inside
    rw [← ih.2.length]
    have unsigned := BitVec.toInt_eq_toNat_cond idx
    split at unsigned <;> omega
  | writeStops _ ran ih =>
    rw [storesOf_nothing _ rfl, bufNewindex_stopped ih.1 ran]
    exact ih

/-- The history theorem, with what the next access does: a read within the bounds gives what was
    stored last, a write within the bounds of a byte stores it, and nothing else does anything. -/
theorem buffer_is_byte_array {h h' : Heap} {log : List (BufAccess × BufReply)}
    (buffer : IsBuffer registry h u) (run : AccessRun getn registry u h log h') :
    (h'.udata u).bytes.length = (h.udata u).bytes.length ∧
    (∀ i, i < (h.udata u).bytes.length →
      (h'.udata u).bytes.getD i 0 =
        (lastWritten (storesOf log) i).getD ((h.udata u).bytes.getD i 0)) ∧
    ∀ s : LuaState, s.heap = h' →
      (∀ key val,
        (∀ i, IndexOf (h.udata u).bytes.length key i →
          ∃ t, bufIndex getn registry (.userdata u) key val s = .ok ⟨⟩ t ∧ t.heap = h' ∧
            t.stack val = .number (BitVec.ofNat 64
              ((lastWritten (storesOf log) i).getD ((h.udata u).bytes.getD i 0)).toNat)) ∧
        ((¬ ∃ i, IndexOf (h.udata u).bytes.length key i) →
          ∃ e t, bufIndex getn registry (.userdata u) key val s = .error (.error e) t ∧
            t.heap = h')) ∧
      (∀ key v,
        (∀ i c, IndexOf (h.udata u).bytes.length key i → ByteOf v c →
          ∃ t, bufNewindex getn registry (.userdata u) key v s = .ok ⟨⟩ t ∧
            (t.heap.udata u).bytes = (h'.udata u).bytes.set i c) ∧
        (¬ ((∃ i, IndexOf (h.udata u).bytes.length key i) ∧ ∃ c, ByteOf v c) →
          ∃ e t, bufNewindex getn registry (.userdata u) key v s = .error (.error e) t ∧
            t.heap = h')) := by
  obtain ⟨buffer', after⟩ := accessRun_after buffer run
  refine ⟨after.length, fun i inside => after.content i 0 inside, ?_⟩
  intro s heap
  rw [← heap] at buffer'
  have length : (s.heap.udata u).bytes.length = (h.udata u).bytes.length := by
    rw [heap, after.length]
  refine ⟨fun key val => ⟨fun i inside => ?_, fun outside => ?_⟩,
    fun key v => ⟨fun i c inside byte => ?_, fun outside => ?_⟩⟩
  · rw [← length] at inside
    obtain ⟨t, ran, same, value⟩ := bufIndex_inside getn buffer' inside val
    refine ⟨t, ran, same.trans heap, ?_⟩
    have bound : i < (h.udata u).bytes.length := by
      obtain ⟨idx, -, low, high, rfl⟩ := inside
      have unsigned := BitVec.toInt_eq_toNat_cond idx
      split at unsigned <;> omega
    rw [value, heap, after.content i 0 bound]
  · rw [← length] at outside
    obtain ⟨e, t, ran, same⟩ := bufIndex_outside getn buffer' outside val
    exact ⟨e, t, ran, same.trans heap⟩
  · rw [← length] at inside
    obtain ⟨t, ran, same⟩ := bufNewindex_inside getn buffer' inside byte
    refine ⟨t, ran, ?_⟩
    rw [same, storedAt_bytes, heap]
  · rw [← length] at outside
    obtain ⟨e, t, ran, same⟩ := bufNewindex_outside getn buffer' outside
    exact ⟨e, t, ran, same.trans heap⟩

theorem buffer_is_byte_array_store :
    ∃ t : LuaState,
      bufNewindex (fun _ => 0) 0 (.userdata 0) (.number 1) (.number 7)
      (calledState (bufferHeap [0, 0]) .nil) = .ok ⟨⟩ t ∧
        (t.heap.udata 0).bytes.length = 2 ∧ (t.heap.udata 0).bytes.getD 1 0 = 7 := by
  have buffer : IsBuffer 0 (calledState (bufferHeap [0, 0]) .nil).heap 0 := bufferHeap_buffer [0, 0]
  have index : IndexOf ((calledState (bufferHeap [0, 0]) .nil).heap.udata 0).bytes.length
    (.number 1) 1 :=
    ⟨1, rfl, by decide, by decide, rfl⟩
  have byte : ByteOf (.number 7) 7 := ⟨7, rfl, by decide, by decide, rfl⟩
  obtain ⟨t, ran, -⟩ := bufNewindex_inside (fun _ => 0) buffer index byte
  obtain ⟨length, content, -⟩ := buffer_is_byte_array buffer (.write .start ran)
  exact ⟨t, ran, length, content 1 (by decide)⟩

end Lunatik.Verified
