import Lunatik.Verified.BufferAccess

/-! # Buffers and the conventions of Lua

The three places where a buffer is not what its documentation or its callers take it for: the index
base, the length operator and the table that a call returns.
-/

namespace Lunatik.Verified

open Lunatik.Lua Lunatik.Core Lunatik.Library

variable {getn : Table → Nat} {registry : Nat} {s t : LuaState} {u : Nat}
    {size : LuaNumber} {h : Heap}
  {log : List (BufAccess × BufReply)}

/-- What is known of a buffer that `buffer.new(size)` has returned, after any history. -/
theorem newBuffer_after (arg : luaVTonumber (s.stack (s.top - 1)) = some size)
    (nonempty : 1 ≤ s.top) (reg : BufferRegistry registry s.heap) {stale : Nat → UInt8}
    (made : lunatikBufNew registry u stale s = .ok 1 t)
    (run : AccessRun getn registry u t.heap log h) :
    IsBuffer registry h u ∧ (h.udata u).bytes.length = size.toNat := by
  obtain ⟨t', made', -, -, -, buffer, bytes⟩ := lunatikBufNew_run arg nonempty reg u stale
  rw [made] at made'
  cases made'
  obtain ⟨buffer', after⟩ := accessRun_after buffer run
  refine ⟨buffer', ?_⟩
  rw [after.length, bytes, List.length_map, List.length_range]

/-! ## The index base -/

/-- The accesses at `i` as the documentation has them, where the indexes are those of a table. -/
def FamiliarAccess (getn : Table → Nat) (registry u : Nat) (size i v : LuaNumber) (s : LuaState) :
    Prop :=
  if 1 ≤ i.toInt ∧ i.toInt ≤ size.toInt then
    ∃ t, bufNewindex getn registry (.userdata u) (.number i) (.number v) s = .ok ⟨⟩ t ∧
      ∀ val, ∃ r, bufIndex getn registry (.userdata u) (.number i) val t = .ok ⟨⟩ r ∧
        r.stack val = .number v
  else
    (∃ e t, bufNewindex getn registry (.userdata u) (.number i) (.number v) s =
      .error (.error e) t) ∧
      ∀ val, ∃ e t, bufIndex getn registry (.userdata u) (.number i) val s = .error (.error e) t

theorem indexOf_number {n j : Nat} (i : LuaNumber) :
    IndexOf n (.number i) j ↔ 0 ≤ i.toInt ∧ i.toInt < n ∧ j = i.toNat := by
  rw [IndexOf]
  simp [luaVTonumber]

theorem byteOf_number {v : LuaNumber} (low : 0 ≤ v.toInt) (high : v.toInt ≤ 255) :
    ByteOf (.number v) (UInt8.ofNat v.toNat) := ⟨v, rfl, low, high, rfl⟩

-- a byte comes back as it was stored
theorem number_of_byte {v : LuaNumber} (low : 0 ≤ v.toInt) (high : v.toInt ≤ 255) :
    BitVec.ofNat 64 (UInt8.ofNat v.toNat).toNat = v := by
  have unsigned := BitVec.toInt_eq_toNat_cond v
  have small : v.toNat ≤ 255 := by split at unsigned <;> omega
  apply BitVec.eq_of_toNat_eq
  rw [BitVec.toNat_ofNat, UInt8.toNat_ofNat']
  omega

theorem familiarAccess_iff (buffer : IsBuffer registry s.heap u)
    (length : (s.heap.udata u).bytes.length = size.toNat) (positive : 1 ≤ size.toInt)
    (i : LuaNumber) {v : LuaNumber} (low : 0 ≤ v.toInt) (high : v.toInt ≤ 255) :
    FamiliarAccess getn registry u size i v s ↔ i.toInt ≠ 0 ∧ i.toInt ≠ size.toInt := by
  have unsigned := BitVec.toInt_eq_toNat_cond size
  have same : size.toInt = size.toNat := by split at unsigned <;> omega
  have byte := byteOf_number low high
  by_cases inside : 0 ≤ i.toInt ∧ i.toInt < size.toNat
  · have index : IndexOf (s.heap.udata u).bytes.length (.number i) i.toNat := by
      rw [indexOf_number, length]
      exact ⟨inside.1, inside.2, rfl⟩
    obtain ⟨t', stored, heap'⟩ := bufNewindex_inside getn buffer index byte
    rw [FamiliarAccess]
    split
    next documented =>
      refine iff_of_true ⟨t', stored, fun val => ?_⟩ (by omega)
      have buffer' : IsBuffer registry t'.heap u := by
        rw [heap']
        exact buffer.stored _ _
      have index' : IndexOf (t'.heap.udata u).bytes.length (.number i) i.toNat := by
        rw [heap', storedAt_bytes, List.length_set]
        exact index
      obtain ⟨r', read, -, value⟩ := bufIndex_inside getn buffer' index' val
      refine ⟨r', read, ?_⟩
      have bound : i.toNat < (s.heap.udata u).bytes.length := by
        have unsigned' := BitVec.toInt_eq_toNat_cond i
        rw [length]
        split at unsigned' <;> omega
      rw [value, heap', storedAt_bytes, List.getD_eq_getElem?_getD, List.getElem?_set_self bound,
        Option.getD_some, number_of_byte low high]
    next undocumented =>
      refine iff_of_false ?_ (by omega)
      rintro ⟨⟨e, t'', raised⟩, -⟩
      rw [stored] at raised
      cases raised
  · have outside : ¬ ∃ j, IndexOf (s.heap.udata u).bytes.length (.number i) j := by
      rw [length]
      rintro ⟨j, index⟩
      rw [indexOf_number] at index
      exact inside ⟨index.1, index.2.1⟩
    have outside' : ¬ ((∃ j, IndexOf (s.heap.udata u).bytes.length (.number i) j) ∧
      ∃ c, ByteOf (.number v) c) :=
      fun both => outside both.1
    obtain ⟨e, t', raised, -⟩ := bufNewindex_outside getn buffer outside'
    rw [FamiliarAccess]
    split
    next documented =>
      refine iff_of_false ?_ (by omega)
      rintro ⟨t'', stored, -⟩
      rw [stored] at raised
      cases raised
    next undocumented =>
      refine iff_of_true ⟨⟨e, t', raised⟩, fun val => ?_⟩ (by omega)
      obtain ⟨e', t'', raised', -⟩ := bufIndex_outside getn buffer outside val
      exact ⟨e', t'', raised'⟩

/-- The indexes of a buffer begin at 0: the two ends of the documented range are wrong, and nothing
    else is. -/
theorem index_base_is_zero (arg : luaVTonumber (s.stack (s.top - 1)) = some size)
    (nonempty : 1 ≤ s.top) (reg : BufferRegistry registry s.heap) {stale : Nat → UInt8}
    (made : lunatikBufNew registry u stale s = .ok 1 t) (positive : 1 ≤ size.toInt)
    (run : AccessRun getn registry u t.heap log h) (i v : LuaNumber) (low : 0 ≤ v.toInt)
    (high : v.toInt ≤ 255) (r : LuaState) (heap : r.heap = h) :
    FamiliarAccess getn registry u size i v r ↔ i.toInt ≠ 0 ∧ i.toInt ≠ size.toInt := by
  obtain ⟨buffer, length⟩ := newBuffer_after arg nonempty reg made run
  rw [← heap] at buffer length
  exact familiarAccess_iff buffer length positive i low high

-- `buffer.new(n)` on a new context
theorem newBuffer_made (n : LuaNumber) :
    ∃ t, lunatikBufNew 0 0 (fun _ => 0) (calledState libraryHeap (.number n)) = .ok 1 t ∧
      IsBuffer 0 t.heap 0 ∧
      (t.heap.udata 0).bytes.length = n.toNat ∧ t.stack 0 = .userdata 0 := by
  have arg : luaVTonumber ((calledState libraryHeap (.number n)).stack 0) = some n := rfl
  obtain ⟨t, made, top, -, value, buffer, bytes⟩ :=
    lunatikBufNew_run arg (Nat.le_refl 1) libraryHeap_registry 0 (fun _ => 0)
  rw [top] at value
  exact ⟨t, made, buffer, by rw [bytes, List.length_map, List.length_range], value⟩

theorem index_base_is_zero_16 : ∃ t, lunatikBufNew 0 0 (fun _ => 0)
    (calledState libraryHeap (.number 16)) = .ok 1 t ∧
    (FamiliarAccess (fun _ => 0) 0 0 16 3 255 t ↔ (3 : LuaNumber).toInt ≠ 0 ∧
      (3 : LuaNumber).toInt ≠ 16) := by
  obtain ⟨t, made, -⟩ := newBuffer_made 16
  exact ⟨t, made, index_base_is_zero rfl (Nat.le_refl 1) libraryHeap_registry made
    (by decide) .start 3 255
    (by decide) (by decide) t rfl⟩

/-- The documented `buf[16]` of a buffer of 16 bytes is refused. -/
theorem last_documented_index_refused :
    ∃ t, lunatikBufNew 0 0 (fun _ => 0) (calledState libraryHeap (.number 16)) = .ok 1 t ∧
      ¬ FamiliarAccess (fun _ => 0) 0 0 16 16 255 t := by
  obtain ⟨t, made, buffer, length, -⟩ := newBuffer_made 16
  refine ⟨t, made, fun familiar => ?_⟩
  have other :=
    (familiarAccess_iff buffer length (by decide) 16 (by decide) (by decide)).mp familiar
  exact other.2 rfl

/-! ## The length operator -/

/-- `#buf` gives `n`, as `lua_objlen` does. -/
def LengthReported (getn : Table → Nat) (registry u : Nat) (n : LuaNumber) (f : Activation)
    (i : Instruction) (s : LuaState) : Prop :=
  ∃ t, bufLen getn registry f i s = .ok ⟨⟩ t ∧ t.stack (f.ci.base + getargA i) = .number n ∧
    luaObjlen getn 1 (pushed t (.userdata u)) = .ok n.toNat (pushed t (.userdata u))

theorem lengthReported_iff (buffer : IsBuffer registry s.heap u)
    (length : (s.heap.udata u).bytes.length = size.toNat) (f : Activation) (i : Instruction)
    (bound : getargB i < f.p.maxReg) (operand : s.stack (f.ci.base + getargB i) = .userdata u) :
    LengthReported getn registry u size f i s ↔ size = 0 := by
  obtain ⟨stack, -, ran⟩ := bufLen_run getn buffer f i bound operand
  obtain ⟨t, tEq⟩ : ∃ t : LuaState, t =
    { s with stack := setAt stack (f.ci.base + getargA i) (.number 0), mode := .exec } := ⟨_, rfl⟩
  rw [← tEq] at ran
  have result : t.stack (f.ci.base + getargA i) = .number 0 := by
    rw [tEq]
    exact setAt_same _ _ _
  constructor
  · rintro ⟨t', ran', result', -⟩
    rw [ran] at ran'
    cases ran'
    rw [result] at result'
    cases result'
    rfl
  · intro zero
    have value : (pushed t (.userdata u)).stack ((pushed t (.userdata u)).top - 1) =
        .userdata u := by
      rw [pushed_top, Nat.add_sub_cancel, pushed_stack_top]
    refine ⟨t, ran, by rw [result, zero], ?_⟩
    rw [luaObjlen_userdata value, pushed_heap, ← length, tEq]

/-- The length operator takes the nil behind its operand for the buffer, and gives 0. -/
theorem length_operator_gives_zero (arg : luaVTonumber (s.stack (s.top - 1)) = some size)
    (nonempty : 1 ≤ s.top) (reg : BufferRegistry registry s.heap) {stale : Nat → UInt8}
    (made : lunatikBufNew registry u stale s = .ok 1 t)
    (run : AccessRun getn registry u t.heap log h) (r : LuaState) (heap : r.heap = h)
    (f : Activation) (i : Instruction) (bound : getargB i < f.p.maxReg)
    (operand : r.stack (f.ci.base + getargB i) = .userdata u) :
    LengthReported getn registry u size f i r ↔ size = 0 := by
  obtain ⟨buffer, length⟩ := newBuffer_after arg nonempty reg made run
  rw [← heap] at buffer length
  exact lengthReported_iff buffer length f i bound operand

-- `#buf` with the buffer in the register 0
def lengthActivation : Activation where
  ci := { func := 0, base := 0, top := 2, nresults := 0, kont := .native, code := .native }
  p := { source := none, linedefined := 0, lastlinedefined := 0, nups := 0, numparams := 0, isVararg := 0,
         maxstacksize := 2, code := [], k := [], p := [], lineinfo := [],
         locvars := [], upvalues := [] }
  pc := 0
  cl := 0

theorem length_operator_gives_zero_16 :
    ∃ t, lunatikBufNew 0 0 (fun _ => 0) (calledState libraryHeap (.number 16)) = .ok 1 t ∧
      (LengthReported (fun _ => 0) 0 0 16 lengthActivation 0 t ↔ (16 : LuaNumber) = 0) := by
  obtain ⟨t, made, -, -, operand⟩ := newBuffer_made 16
  exact ⟨t, made, length_operator_gives_zero rfl
    (Nat.le_refl 1) libraryHeap_registry made .start t rfl lengthActivation 0
    (by decide) operand⟩

theorem length_of_16_not_reported :
    ∃ t, lunatikBufNew 0 0 (fun _ => 0) (calledState libraryHeap (.number 16)) = .ok 1 t ∧
      ¬ LengthReported (fun _ => 0) 0 0 16 lengthActivation 0 t := by
  obtain ⟨t, made, buffer, length, operand⟩ := newBuffer_made 16
  refine ⟨t, made, fun reported => ?_⟩
  have zero := (lengthReported_iff buffer length lengthActivation 0 (by decide) operand).mp reported
  exact absurd zero (by decide)

/-! ## The table of a call -/

/-- `buf()` gives a table with the keys 1 to n that holds what indexing gives at the call. -/
def SnapshotAgrees (getn : Table → Nat) (registry u func : Nat) (s : LuaState) : Prop :=
  ∃ t h, bufCall getn registry func s = .ok ⟨⟩ t ∧ t.stack func = .table h ∧
    (∀ key, luaHGet (t.heap.tables h) key ≠ .nil ↔
      ∃ k, 1 ≤ k ∧ k ≤ (s.heap.udata u).bytes.length ∧ key = .number (BitVec.ofNat 64 k)) ∧
    ∀ i, i < (s.heap.udata u).bytes.length → ∀ val,
      ∃ r, bufIndex getn registry (.userdata u) (.number (BitVec.ofNat 64 i)) val s = .ok ⟨⟩ r ∧
        luaHGet (t.heap.tables h) (.number (BitVec.ofNat 64 (i + 1))) = r.stack val

theorem snapshotOf_concat (bytes : List UInt8) (t : Table) (idxs : List Nat) (idx : Nat) :
    snapshotOf bytes t (idxs ++ [idx]) =
      luaHPut (snapshotOf bytes t idxs) (snapshotKey idx) (snapshotValue bytes idx) := by
  rw [snapshotOf, List.foldl_append]
  rfl

-- a key that is never stored
theorem snapshotOf_absent (bytes : List UInt8) (t : Table) (idxs : List Nat) {key : TValue}
    (other : ∀ idx ∈ idxs, key ≠ snapshotKey idx) :
    luaHGet (snapshotOf bytes t idxs) key = luaHGet t key := by
  induction idxs generalizing t with
  | nil => rfl
  | cons idx rest ih =>
    have rest' := ih (luaHPut t (snapshotKey idx) (snapshotValue bytes idx))
      (fun j mem => other j (List.mem_cons_of_mem idx mem))
    rw [luaHGet_put_other _ (other idx List.mem_cons_self)] at rest'
    exact rest'

-- no int widens to 2^31
theorem snapshotKey_int (idx : Nat) : TValue.number (BitVec.ofNat 64 (2 ^ 31))
    ≠ snapshotKey idx := by
  intro same
  rw [snapshotKey, TValue.number.injEq] at same
  have value := congrArg BitVec.toInt same
  have low : -2 ^ 32 ≤ 2 * (BitVec.ofNat 32 (idx + 1)).toInt := BitVec.le_two_mul_toInt
  have high : 2 * (BitVec.ofNat 32 (idx + 1)).toInt < 2 ^ 32 := BitVec.two_mul_toInt_lt
  rw [BitVec.toInt_ofInt, Int.bmod_eq_of_le (by omega) (by omega)] at value
  have big : (BitVec.ofNat 64 (2 ^ 31)).toInt = 2 ^ 31 := by decide
  omega

/-- The two ways to widen a byte. -/
theorem widen_iff (c : UInt8) : c.toBitVec.signExtend 64 = BitVec.ofNat 64 c.toNat ↔ c < 128 := by
  have signed := BitVec.toInt_eq_toNat_cond c.toBitVec
  have bound : c.toNat < 256 := c.toNat_lt
  have less : c < 128 ↔ c.toNat < 128 := UInt8.lt_iff_toNat_lt
  have wide : (c.toBitVec.signExtend 64).toInt = c.toBitVec.toInt :=
    BitVec.toInt_signExtend_of_le (by decide)
  have zero : (BitVec.ofNat 64 c.toNat).toInt = c.toNat := by
    rw [BitVec.toInt_eq_toNat_of_lt (by rw [BitVec.toNat_ofNat]; omega), BitVec.toNat_ofNat]
    congr 1
    omega
  rw [UInt8.toNat_toBitVec] at signed
  rw [less, ← BitVec.toInt_inj, wide, zero, signed]
  split <;> omega

theorem snapshotKey_small {idx : Nat} (small : idx + 1 < 2 ^ 31) :
    snapshotKey idx = .number (BitVec.ofNat 64 (idx + 1)) := by
  have value : (BitVec.ofNat 32 (idx + 1)).toInt = (idx + 1 : Nat) := by
    rw [BitVec.toInt_eq_toNat_of_lt (by rw [BitVec.toNat_ofNat]; omega), BitVec.toNat_ofNat]
    congr 1
    omega
  rw [snapshotKey, value, BitVec.ofInt_natCast]

theorem number_inj {a b : Nat} (smallA : a < 2 ^ 32) (smallB : b < 2 ^ 32)
    (same : TValue.number (BitVec.ofNat 64 a) = .number (BitVec.ofNat 64 b)) : a = b := by
  rw [TValue.number.injEq] at same
  have value := congrArg BitVec.toNat same
  rw [BitVec.toNat_ofNat, BitVec.toNat_ofNat] at value
  omega

/-- The entries of the table, as far as an int counts. -/
theorem snapshotOf_range (bytes : List UInt8) {m : Nat} (small : m < 2 ^ 31) :
    (∀ idx, idx < m →
      luaHGet (snapshotOf bytes newTable (List.range m))
        (.number (BitVec.ofNat 64 (idx + 1))) =
        snapshotValue bytes idx) ∧
    ∀ key, (¬ ∃ k, 1 ≤ k ∧ k ≤ m ∧ key = .number (BitVec.ofNat 64 k)) →
      luaHGet (snapshotOf bytes newTable (List.range m)) key = .nil := by
  induction m with
  | zero => exact ⟨fun idx low => absurd low (Nat.not_lt_zero idx), fun key _ => rfl⟩
  | succ m ih =>
    obtain ⟨stored, absent⟩ := ih (by omega)
    rw [List.range_succ, snapshotOf_concat, snapshotKey_small small]
    refine ⟨fun idx low => ?_, fun key none => ?_⟩
    · by_cases last : idx = m
      · rw [last, luaHGet_put_same]
      · have other : TValue.number (BitVec.ofNat 64 (idx + 1)) ≠ .number
            (BitVec.ofNat 64 (m + 1)) := by
          intro same
          have := number_inj (by omega) (by omega) same
          omega
        rw [luaHGet_put_other _ other, stored idx (by omega)]
    · have other : key ≠ .number (BitVec.ofNat 64 (m + 1)) :=
        fun same => none ⟨m + 1, by omega, by omega, same⟩
      rw [luaHGet_put_other _ other]
      refine absent key fun found => ?_
      obtain ⟨k, low, high, same⟩ := found
      exact none ⟨k, low, by omega, same⟩

theorem snapshotSize_small {bytes : List UInt8} (small : bytes.length < 2 ^ 31) :
    snapshotSize bytes = bytes.length := by
  rw [snapshotSize, BitVec.toInt_eq_toNat_of_lt (by rw [BitVec.toNat_ofNat]; omega),
    BitVec.toNat_ofNat]
  congr 1
  omega

/-- A call of a buffer that is not too large returns the snapshot. -/
theorem bufCall_small (getn : Table → Nat) (buffer : IsBuffer registry s.heap u) {func : Nat}
    (called : s.stack func = .userdata u) (last : s.top = func + 1)
    (small : (s.heap.udata u).bytes.length ≤ Ltable.maxasize) :
    ∃ t h, bufCall getn registry func s = .ok ⟨⟩ t ∧ t.stack func = .table h ∧
      t.heap.tables h =
        snapshotOf (s.heap.udata u).bytes newTable (List.range (s.heap.udata u).bytes.length) := by
  have max : Ltable.maxasize = 2 ^ 26 := rfl
  have size := snapshotSize_small (by omega : (s.heap.udata u).bytes.length < 2 ^ 31)
  have ran := bufCall_run getn buffer called last
  rw [if_neg (by omega)] at ran
  obtain ⟨stack, -, result, returned⟩ := ran
  exact ⟨_, _, returned, result, withTable_tables_same _ _ _⟩

theorem bufIndex_small (getn : Table → Nat) (buffer : IsBuffer registry s.heap u) {i : Nat}
    (inside : i < (s.heap.udata u).bytes.length)
    (small : (s.heap.udata u).bytes.length ≤ Ltable.maxasize) (val : Nat) :
    ∃ r, bufIndex getn registry (.userdata u) (.number (BitVec.ofNat 64 i)) val s = .ok ⟨⟩ r ∧
      r.stack val = .number (BitVec.ofNat 64 ((s.heap.udata u).bytes.getD i 0).toNat) := by
  have max : Ltable.maxasize = 2 ^ 26 := rfl
  have index : IndexOf (s.heap.udata u).bytes.length (.number (BitVec.ofNat 64 i)) i := by
    have value : (BitVec.ofNat 64 i).toNat = i := by
      rw [BitVec.toNat_ofNat]
      omega
    have signed : (BitVec.ofNat 64 i).toInt = i := by
      rw [BitVec.toInt_eq_toNat_of_lt (by omega), value]
    rw [indexOf_number, signed, value]
    omega
  obtain ⟨r, read, -, byte⟩ := bufIndex_inside getn buffer index val
  exact ⟨r, read, byte⟩

/-- A snapshot that agrees is one of a buffer that is not too large: the int that counts its keys
    does not overflow. -/
theorem SnapshotAgrees.length (buffer : IsBuffer registry s.heap u) {func : Nat}
    (called : s.stack func = .userdata u) (last : s.top = func + 1)
    (agrees : SnapshotAgrees getn registry u func s) :
    (s.heap.udata u).bytes.length ≤ Ltable.maxasize := by
  obtain ⟨t, h, returned, value, keys, -⟩ := agrees
  have ran := bufCall_run getn buffer called last
  split at ran
  next overflow =>
    obtain ⟨t', raised⟩ := ran
    rw [raised] at returned
    cases returned
  next fits =>
    obtain ⟨stack, -, result, returned'⟩ := ran
    rw [returned] at returned'
    cases returned'
    have found := result.symm.trans value
    cases found
    by_contra large
    by_cases int : (s.heap.udata u).bytes.length < 2 ^ 31
    · have size := snapshotSize_small int
      omega
    · -- the key 2^31 should be there, and is not
      have present :=
        (keys (.number (BitVec.ofNat 64 (2 ^ 31)))).mpr ⟨2 ^ 31, by omega, by omega, rfl⟩
      dsimp only at present
      rw [withTable_tables_same, snapshotOf_absent _ _ _ fun idx _ => snapshotKey_int idx]
        at present
      exact present rfl

theorem SnapshotAgrees.bytes (buffer : IsBuffer registry s.heap u) {func : Nat}
    (called : s.stack func = .userdata u) (last : s.top = func + 1)
    (agrees : SnapshotAgrees getn registry u func s) :
    ∀ c ∈ (s.heap.udata u).bytes, c < 128 := by
  have small := agrees.length buffer called last
  have max : Ltable.maxasize = 2 ^ 26 := rfl
  obtain ⟨t, h, returned, value, -, entries⟩ := agrees
  obtain ⟨t', h', returned', value', table⟩ := bufCall_small getn buffer called last small
  rw [returned] at returned'
  cases returned'
  rw [value] at value'
  cases value'
  obtain ⟨stored, -⟩ :=
    snapshotOf_range (s.heap.udata u).bytes (by omega : (s.heap.udata u).bytes.length < 2 ^ 31)
  intro c member
  obtain ⟨i, inside, rfl⟩ := List.mem_iff_getElem.mp member
  obtain ⟨r, read, entry⟩ := entries i inside 0
  obtain ⟨r', read', byte⟩ := bufIndex_small getn buffer inside small 0
  rw [read] at read'
  cases read'
  rw [table, stored i inside, byte, snapshotValue, TValue.number.injEq, widen_iff,
    List.getD_eq_getElem _ 0 inside] at entry
  exact entry

theorem snapshotAgrees_of_small (buffer : IsBuffer registry s.heap u) {func : Nat}
    (called : s.stack func = .userdata u) (last : s.top = func + 1)
    (small : (s.heap.udata u).bytes.length ≤ Ltable.maxasize)
    (bytes : ∀ c ∈ (s.heap.udata u).bytes, c < 128) :
    SnapshotAgrees getn registry u func s := by
  have max : Ltable.maxasize = 2 ^ 26 := rfl
  obtain ⟨t, h, returned, value, table⟩ := bufCall_small getn buffer called last small
  obtain ⟨stored, absent⟩ := snapshotOf_range (s.heap.udata u).bytes
    (by omega : (s.heap.udata u).bytes.length < 2 ^ 31)
  refine ⟨t, h, returned, value, fun key => ?_, fun i inside val => ?_⟩
  · rw [table]
    constructor
    · intro present
      by_contra none
      exact present (absent key none)
    · rintro ⟨k, low, high, rfl⟩
      obtain ⟨idx, rfl⟩ : ∃ idx, k = idx + 1 := ⟨k - 1, by omega⟩
      rw [stored idx (by omega), snapshotValue]
      intro nil
      cases nil
  · obtain ⟨r, read, byte⟩ := bufIndex_small getn buffer inside small val
    have narrow : (s.heap.udata u).bytes.getD i 0 < 128 := by
      rw [List.getD_eq_getElem _ 0 inside]
      exact bytes _ (List.getElem_mem inside)
    exact ⟨r, read, by rw [table, stored i inside, byte, snapshotValue, (widen_iff _).mpr narrow]⟩

end Lunatik.Verified
