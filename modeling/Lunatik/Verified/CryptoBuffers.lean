import Lunatik.Core.Crypto

/-! # What the crypto library hashes and fills

The byte count that `crypto.sha1` passes on is a count of list entries, and the number that
`crypto.random` takes is cut to an int.  Exactly when each does no harm.
-/

namespace Lunatik.Verified

open Lunatik.Kernel Lunatik.Lua Lunatik.Core

variable {st : ScriptState}

/-! ## Allocation of a buffer -/

-- the state after a request of `s` bytes that is granted
def withBuffer (st : ScriptState) (s : Nat) : ScriptState :=
  { st with
    mem := (st.mem.kmalloc (s + sizeofUdata) true).2
    buffers := st.buffers ++ [⟨st.mem.brk + sizeofUdata, s⟩] }

theorem luaSNewudata_granted {s : Nat} (fits : s ≤ maxSizet - sizeofUdata) :
    st.luaSNewudata s true = (.buffer st.buffers.length, withBuffer st s) := by
  have nonempty : s + sizeofUdata ≠ 0 := by
    rw [sizeofUdata]
    omega
  have pointer := Memory.kmalloc_ne_null st.mem (s + sizeofUdata)
  have fresh := (Memory.kmalloc_granted st.mem nonempty).1
  rw [ScriptState.luaSNewudata, if_neg (by omega)]
  dsimp only
  rw [if_neg pointer, fresh, withBuffer]

theorem luaSNewudata_refused (st : ScriptState) (s : Nat) :
    ∃ m, st.luaSNewudata s false = (.error m, st) := by
  have nonempty : s + sizeofUdata ≠ 0 := by
    rw [sizeofUdata]
    omega
  rw [ScriptState.luaSNewudata]
  split
  next => exact ⟨_, rfl⟩
  next =>
    dsimp only
    rw [if_pos (Memory.kmalloc_refused st.mem nonempty)]
    exact ⟨_, rfl⟩

theorem luaSNewudata_toobig {s : Nat} (big : maxSizet - sizeofUdata < s) (granted : Bool) :
    ∃ m, st.luaSNewudata s granted = (.error m, st) := by
  rw [ScriptState.luaSNewudata, if_pos big]
  exact ⟨_, rfl⟩

/-- Either a buffer of the size is made, or an error is raised and nothing is changed. -/
theorem luaSNewudata_cases (st : ScriptState) (s : Nat) (granted : Bool) :
    (granted = true ∧ s ≤ maxSizet - sizeofUdata ∧
      st.luaSNewudata s granted = (.buffer st.buffers.length, withBuffer st s)) ∨
    ((granted = false ∨ maxSizet - sizeofUdata < s) ∧
      ∃ m, st.luaSNewudata s granted = (.error m, st)) := by
  by_cases big : maxSizet - sizeofUdata < s
  · exact .inr ⟨.inr big, luaSNewudata_toobig big granted⟩
  · cases granted with
    | true => exact .inl ⟨rfl, by omega, luaSNewudata_granted (by omega)⟩
    | false => exact .inr ⟨.inl rfl, luaSNewudata_refused st s⟩

theorem withBuffer_last (st : ScriptState) (s : Nat) :
    (withBuffer st s).buffers[st.buffers.length]? = some ⟨st.mem.brk + sizeofUdata, s⟩ := by
  rw [withBuffer]
  exact List.getElem?_concat_length

theorem withBuffer_dataOf (st : ScriptState) (s : Nat) :
    (withBuffer st s).dataOf st.buffers.length = st.mem.brk + sizeofUdata := by
  rw [ScriptState.dataOf, List.getD_eq_getElem?_getD, withBuffer_last, Option.getD_some]

theorem withBuffer_brk (st : ScriptState) (s : Nat) :
    (withBuffer st s).mem.brk = st.mem.brk + (s + sizeofUdata) := by
  have nonempty : s + sizeofUdata ≠ 0 := by
    rw [sizeofUdata]
    omega
  exact (Memory.kmalloc_granted st.mem nonempty).2

-- what was allocated before is not touched
theorem withBuffer_load (st : ScriptState) (s : Nat) {a : Nat} (old : a < st.mem.brk) :
    (withBuffer st s).load a = st.load a := by
  have byte : (st.mem.kmalloc (s + sizeofUdata) true).2.byte a = st.mem.byte a := by
    rw [Memory.kmalloc, if_neg (by rw [sizeofUdata]; omega), if_pos rfl]
    dsimp only
    rw [if_neg (by omega)]
  rw [ScriptState.load, withBuffer, byte, ScriptState.load]

theorem store_load (st : ScriptState) (a : Nat) (bytes : List UInt8) {i : Nat}
    (inside : i < bytes.length) :
    (st.store a bytes).load (a + i) = bytes[i] := by
  have here : a ≤ a + i ∧ a + i < a + bytes.length := by omega
  rw [ScriptState.load, ScriptState.store]
  simp only [Memory.store, if_pos here, Nat.add_sub_cancel_left, List.getElem?_eq_getElem inside,
    Option.getD_some]

theorem store_bytesOf (st : ScriptState) (buf : BufferBlock) (bytes : List UInt8)
    (length : bytes.length = buf.len) :
    (st.store buf.data bytes).bytesOf buf = bytes := by
  rw [ScriptState.bytesOf, ← length]
  refine List.ext_getElem (by simp) fun i _ inside => ?_
  rw [List.getElem_map, List.getElem_range, store_load st buf.data bytes inside]

/-! ## States of a script -/

-- the buffers end below the next address that the allocator hands out
def BuffersInside (st : ScriptState) : Prop := ∀ buf ∈ st.buffers, buf.data + buf.len ≤ st.mem.brk

/-- The states that a script comes to, with the two functions of the library. -/
inductive ScriptReached : ScriptState → Prop where
  | start (stale : Nat → UInt8) : ScriptReached (.start stale)
  | act {st : ScriptState} (env : ScriptEnv) (n : Nat) (action : ScriptAction) : ScriptReached st →
      ScriptReached (st.act env n action).2
  | random {st : ScriptState} (x : LuaNumber) (granted : Nat → Bool) (bytes : Nat →
    UInt8) : ScriptReached st →
      ScriptReached (st.lunatikGetRandomBytes x granted bytes).2

theorem BuffersInside.withBuffer (inside : BuffersInside st) (s : Nat) :
    BuffersInside (withBuffer st s) := by
  intro buf member
  rw [withBuffer_brk]
  rcases List.mem_append.mp member with old | new
  · have := inside buf old
    omega
  · cases List.mem_singleton.mp new
    dsimp only
    omega

theorem BuffersInside.store (inside : BuffersInside st) (a : Nat) (bytes : List UInt8) :
    BuffersInside (st.store a bytes) := inside

theorem BuffersInside.luaSNewudata (inside : BuffersInside st) (s : Nat) (granted : Bool) :
    BuffersInside (st.luaSNewudata s granted).2 := by
  rcases luaSNewudata_cases st s granted with ⟨-, -, made⟩ | ⟨-, m, refused⟩
  · rw [made]
    exact inside.withBuffer s
  · rw [refused]
    exact inside

theorem BuffersInside.act (inside : BuffersInside st) (env : ScriptEnv) (n : Nat)
    (action : ScriptAction) :
    BuffersInside (st.act env n action).2 := by
  cases action with
  | bufNew size => exact inside.luaSNewudata size.toNat (env.granted n)
  | bufIndex b idx | bufCall b | bufLength b =>
    simp only [ScriptState.act]
    split <;> exact inside
  | bufNewindex b idx val =>
    simp only [ScriptState.act]
    split
    · simp only [ScriptState.lunatikBufNewindex]
      split
      · exact inside
      · split
        · exact inside
        · exact inside.store _ _
    · exact inside
  | sha1 b =>
    simp only [ScriptState.act]
    split
    next buf _ =>
      have made := inside.luaSNewudata 20 (env.granted n)
      simp only [ScriptState.lunatikSha1]
      split
      · split
        next b' st' same =>
          rw [same] at made
          exact made.store _ _
        next => exact made
      · exact inside
    next => exact inside
  | allocate size =>
    have grows : st.mem.brk ≤ (st.mem.kmalloc size (env.granted n)).2.brk := by
      rw [Memory.kmalloc]
      split
      · exact Nat.le_refl _
      · split
        · exact Nat.le_add_right _ _
        · exact Nat.le_refl _
    simp only [ScriptState.act]
    split
    · exact inside
    · exact fun buf member => Nat.le_trans (inside buf member) grows
  | finish status v => exact inside

theorem BuffersInside.random (inside : BuffersInside st) (x : LuaNumber) (granted : Nat → Bool)
    (bytes : Nat → UInt8) : BuffersInside (st.lunatikGetRandomBytes x granted bytes).2 := by
  rw [ScriptState.lunatikGetRandomBytes]
  split
  · exact inside
  · have made := inside.luaSNewudata ((x.setWidth 32).signExtend 64).toNat
      (granted (((x.setWidth 32).signExtend 64).toNat + sizeofUdata))
    rw [ScriptState.bufferNew, ScriptState.lunatikBufNew]
    split
    next b st' same =>
      rw [same] at made
      exact made.store _ _
    next => exact made

theorem scriptReached_inside (reached : ScriptReached st) : BuffersInside st := by
  induction reached with
  | start stale => exact fun buf member => nomatch member
  | act env n action _ ih => exact ih.act env n action
  | random x granted bytes _ ih => exact ih.random x granted bytes

/-! ## crypto.sha1 -/

/-- Whenever `crypto.sha1(buf)` returns, it returns the hash of the bytes of `buf`, and has read
    nothing else. -/
def HashesWhole (st : ScriptState) (buf : BufferBlock) : Prop :=
  ∀ (digest : List UInt8 → Fin 20 → UInt8) (hashGranted granted : Bool),
    match st.sha1OfBuffer digest hashGranted granted buf with
    | (.buffer b, st', desc) =>
      (∃ out, st'.buffers[b]? = some out ∧ out.len = 20 ∧
        st'.bytesOf out = List.ofFn (digest (st.bytesOf buf))) ∧
        ∀ a ∈ desc.reads, buf.data ≤ a ∧ a < buf.data + buf.len
    | (_, st', _) => st' = st

theorem sgAddresses_of_buffer (buf : BufferBlock) :
    sgAddresses [sgSetBuf buf.data buf.len] =
      (List.range (buf.len % 2 ^ 32)).map (buf.data + ·) := by
  rw [sgAddresses, List.flatMap_singleton, sgSetBuf]
  dsimp only
  rw [BitVec.toNat_ofNat]

theorem hashedBytes_length (st : ScriptState) (buf : BufferBlock) :
    (st.hashedBytes buf).length ≤ 1 := by
  rw [ScriptState.hashedBytes, List.length_take]
  exact Nat.min_le_left _ _

theorem bytesOf_length (st : ScriptState) (buf : BufferBlock) :
    (st.bytesOf buf).length = buf.len := by
  rw [ScriptState.bytesOf, List.length_map, List.length_range]

theorem hashedBytes_small (st : ScriptState) {buf : BufferBlock} (small : buf.len ≤ 1) :
    st.hashedBytes buf = st.bytesOf buf := by
  have length : buf.len % 2 ^ 32 = buf.len := by omega
  rw [ScriptState.hashedBytes, length, ← bytesOf_length st buf, List.take_length,
    List.take_of_length_le]
  rw [bytesOf_length]
  exact small

-- the bytes that the update feeds
theorem fed_eq (st : ScriptState) (buf : BufferBlock) :
    ((sgAddresses [sgSetBuf buf.data buf.len]).take 1).map st.load = st.hashedBytes buf := by
  have first : (List.range (buf.len % 2 ^ 32)) = (List.range buf.len).take (buf.len % 2 ^ 32) := by
    rw [List.take_range, Nat.min_eq_left (Nat.mod_le _ _)]
  rw [sgAddresses_of_buffer, first, ScriptState.hashedBytes, ScriptState.bytesOf, ← List.map_take,
    ← List.map_take, ← List.map_take, List.map_map]
  rfl

theorem hashed_reads {buf : BufferBlock} {a : Nat}
    (read : a ∈ (sgAddresses [sgSetBuf buf.data buf.len]).take 1) :
    buf.data ≤ a ∧ a < buf.data + buf.len := by
  have named := List.mem_of_mem_take read
  rw [sgAddresses_of_buffer] at named
  obtain ⟨i, small, rfl⟩ := List.mem_map.mp named
  have := List.mem_range.mp small
  have := Nat.mod_le buf.len (2 ^ 32)
  omega

-- the new block is behind the buffer that is read
theorem fed_withBuffer (inside : BuffersInside st) {buf : BufferBlock} (member : buf ∈ st.buffers)
    (s : Nat) :
    ((sgAddresses [sgSetBuf buf.data buf.len]).take 1).map (withBuffer st s).load =
      st.hashedBytes buf := by
  rw [← fed_eq]
  refine List.map_congr_left fun a read => withBuffer_load st s ?_
  have := hashed_reads read
  have := inside buf member
  omega

theorem bufNew_digest (st : ScriptState) :
    st.lunatikBufNew cryptoHashDigestsize true = (.buffer st.buffers.length, withBuffer st 20) :=
  luaSNewudata_granted (by decide)

/-- What `crypto.sha1` comes to when both requests are granted. -/
theorem sha1OfBuffer_granted (inside : BuffersInside st) {buf : BufferBlock}
    (member : buf ∈ st.buffers) (digest : List UInt8 → Fin 20 → UInt8) :
    ∃ st', st.sha1OfBuffer digest true true buf =
        (.buffer st.buffers.length, st', ⟨(sgAddresses [sgSetBuf buf.data buf.len]).take 1,
          st.hashedBytes buf⟩) ∧
      ∃ out, st'.buffers[st.buffers.length]? = some out ∧ out.len = 20 ∧
        st'.bytesOf out = List.ofFn (digest (st.hashedBytes buf)) := by
  obtain ⟨out, outEq⟩ : ∃ out : BufferBlock, out = ⟨st.mem.brk + sizeofUdata, 20⟩ := ⟨_, rfl⟩
  have data : (withBuffer st 20).dataOf st.buffers.length = out.data := by
    rw [withBuffer_dataOf, outEq]
  refine ⟨(withBuffer st 20).store out.data (List.ofFn (digest (st.hashedBytes buf))), ?_, out, ?_,
    by rw [outEq], ?_⟩
  · rw [ScriptState.sha1OfBuffer, if_pos rfl, bufNew_digest]
    dsimp only
    rw [cryptoHashFinal, cryptoHashUpdate, cryptoHashInit, List.length_singleton,
      fed_withBuffer inside member, List.nil_append, List.nil_append,
      data]
  · rw [outEq]
    exact withBuffer_last st 20
  · exact store_bytesOf _ out _ (by rw [List.length_ofFn, outEq])

/-- The action of a script does the same. -/
theorem lunatikSha1_eq (inside : BuffersInside st) {buf : BufferBlock} (member : buf ∈ st.buffers)
    (env : ScriptEnv) (n : Nat) :
    st.lunatikSha1 env n buf =
      ((st.sha1OfBuffer env.digest (env.hashGranted n) (env.granted n) buf).1,
        (st.sha1OfBuffer env.digest (env.hashGranted n) (env.granted n) buf).2.1) := by
  rw [ScriptState.lunatikSha1]
  cases env.hashGranted n with
  | false => rfl
  | true =>
    cases env.granted n with
    | false =>
      obtain ⟨m, refused⟩ := luaSNewudata_refused st 20
      have refused' : st.lunatikBufNew cryptoHashDigestsize false = (.error m, st) := refused
      rw [ScriptState.sha1OfBuffer, if_pos rfl, if_pos rfl, refused, refused']
    | true =>
      have made : st.luaSNewudata 20 true = (.buffer st.buffers.length, withBuffer st 20) :=
        luaSNewudata_granted (by decide)
      rw [ScriptState.sha1OfBuffer, if_pos rfl, if_pos rfl, made, bufNew_digest]
      dsimp only
      rw [cryptoHashFinal, cryptoHashUpdate, cryptoHashInit, List.length_singleton,
        fed_withBuffer inside member, List.nil_append]
      rfl

theorem hashesWhole_of_small (inside : BuffersInside st) {buf : BufferBlock}
    (member : buf ∈ st.buffers) (small : buf.len ≤ 1) : HashesWhole st buf := by
  intro digest hashGranted granted
  cases hashGranted with
  | false => rfl
  | true =>
    cases granted with
    | false =>
      obtain ⟨m, refused⟩ := luaSNewudata_refused st 20
      have refused' : st.lunatikBufNew cryptoHashDigestsize false = (.error m, st) := refused
      rw [ScriptState.sha1OfBuffer, if_pos rfl, refused']
    | true =>
      obtain ⟨st', ran, out, found, length, bytes⟩ := sha1OfBuffer_granted inside member digest
      rw [hashedBytes_small st small] at bytes
      rw [ran]
      exact ⟨⟨out, found, length, bytes⟩, fun a read => hashed_reads read⟩

/-- A buffer of two bytes or more is not hashed: only its first byte is. -/
theorem HashesWhole.small (inside : BuffersInside st) {buf : BufferBlock}
    (member : buf ∈ st.buffers) (whole : HashesWhole st buf) : buf.len ≤ 1 := by
  by_contra long
  -- a hash that tells the lengths apart
  obtain ⟨digest, digestEq⟩ : ∃ digest : List UInt8 → Fin 20 →
    UInt8, digest = fun bytes _ => if bytes.length ≤ 1 then 0 else 1 :=
    ⟨_, rfl⟩
  have holds := whole digest true true
  obtain ⟨st', ran, out, found, length, bytes⟩ := sha1OfBuffer_granted inside member digest
  rw [ran] at holds
  obtain ⟨⟨out', found', -, bytes'⟩, -⟩ := holds
  rw [found] at found'
  cases found'
  rw [bytes, digestEq] at bytes'
  have fed := hashedBytes_length st buf
  have all := bytesOf_length st buf
  simp only [if_pos fed, all, if_neg long, List.ofFn_inj] at bytes'
  exact absurd (congrFun bytes' 0) (by decide)

/-- `crypto.sha1` hashes the whole buffer when it has at most one byte. -/
theorem sha1_hashes_whole_iff (reached : ScriptReached st) {buf : BufferBlock}
    (member : buf ∈ st.buffers) : HashesWhole st buf ↔ buf.len ≤ 1 :=
  ⟨fun whole => whole.small (scriptReached_inside reached) member,
    hashesWhole_of_small (scriptReached_inside reached) member⟩

-- memory full of zero bytes, and a buffer of some of them
def zeroMemory : ScriptState := .start fun _ => 0

def zeroBuffer (n : Nat) : BufferBlock := ⟨4096 + sizeofUdata, n⟩

theorem zeroBuffer_reached {n : Nat} (fits : n ≤ maxSizet - sizeofUdata) :
    ScriptReached (withBuffer zeroMemory n) := by
  have act := ScriptReached.act
    { granted := fun _ => true, hashGranted := fun _ => true, digest := fun _ _ => 0, allocs := ⟨true, true, true, true⟩,
      stackWord := 0, rData := 0, rSize := 0, faults := ⟨false, false, false, 0, false, 0, false⟩ }
    0 (.bufNew (BitVec.ofNat 64 n)) (.start fun _ => 0)
  have max : maxSizet = 2 ^ 64 - 3 := rfl
  have size : (BitVec.ofNat 64 n).toNat = n := by
    rw [BitVec.toNat_ofNat]
    omega
  rw [ScriptState.act, ScriptState.lunatikBufNew, size, luaSNewudata_granted fits] at act
  exact act

theorem zeroBuffer_member (n : Nat) : zeroBuffer n ∈ (withBuffer zeroMemory n).buffers :=
  List.mem_singleton_self _

theorem sha1_hashes_whole_iff_1 : HashesWhole (withBuffer zeroMemory 1) (zeroBuffer 1) ↔ 1 ≤ 1 :=
  sha1_hashes_whole_iff (zeroBuffer_reached (by decide)) (zeroBuffer_member 1)

/-- Of two bytes only one is hashed. -/
theorem two_bytes_not_hashed : ¬ HashesWhole (withBuffer zeroMemory 2) (zeroBuffer 2) := by
  intro whole
  have small :=
    whole.small (scriptReached_inside (zeroBuffer_reached (by decide))) (zeroBuffer_member 2)
  exact absurd small (by decide)

/-! ## Sizes -/

/-- The request for `x` bytes is refused, or honoured in full. -/
def SizeHonoured (x : LuaNumber) (outcome : ScriptReply × ScriptState) : Prop :=
  (∃ m, outcome.1 = .error m) ∨
    ∃ b buf, outcome.1 = .buffer b ∧ outcome.2.buffers[b]? = some buf ∧ (buf.len : Int) = x.toInt ∧
      buf.len + sizeofUdata < 2 ^ 64

/-- What `crypto.random` has written is the buffer that it returns, every byte of it. -/
def FilledExactly (random : Nat → UInt8) (st : ScriptState) (outcome : ScriptReply × ScriptState) :
    Prop :=
  ∀ b buf, outcome.1 = .buffer b → outcome.2.buffers[b]? = some buf →
    outcome.2.written = (List.range buf.len).map (buf.data + ·) ++ st.written ∧
      outcome.2.bytesOf buf = (List.range buf.len).map random

-- no allocator has blocks of half the address space
def Bounded (granted : Nat → Bool) : Prop :=
  ∃ bound, bound < 2 ^ 63 ∧ ∀ size, bound < size → granted size = false

/-- `buffer.new` honours or refuses every size. -/
theorem bufferNew_honoured (st : ScriptState) (x : LuaNumber) {granted : Nat → Bool}
    (bounded : Bounded granted) :
    SizeHonoured x (st.bufferNew x granted) := by
  obtain ⟨bound, low, refuses⟩ := bounded
  rw [ScriptState.bufferNew, ScriptState.lunatikBufNew]
  rcases luaSNewudata_cases st x.toNat (granted (x.toNat + sizeofUdata))
    with ⟨given, fits, made⟩ | ⟨-, m, refused⟩
  · rw [made]
    refine .inr ⟨_, _, rfl, withBuffer_last st x.toNat, ?_, ?_⟩
    · have small : x.toNat + sizeofUdata ≤ bound := by
        by_contra large
        rw [refuses _ (by omega)] at given
        cases given
      rw [BitVec.toInt_eq_toNat_of_lt (by omega)]
    · have max : maxSizet = 2 ^ 64 - 3 := rfl
      have header : sizeofUdata = 40 := rfl
      dsimp only
      omega
  · rw [refused]
    exact .inl ⟨m, rfl⟩

-- the number that the int of `crypto.random` is widened to
def narrowed (x : LuaNumber) : LuaNumber := (x.setWidth 32).signExtend 64

/-- When `crypto.random` honours or refuses the number that it is given. -/
def RandomFits (granted : Nat → Bool) (x : LuaNumber) : Prop :=
  narrowed x = x ∨ (narrowed x).toInt < 0 ∨ granted ((narrowed x).toNat + sizeofUdata) = false

theorem narrowed_toInt (x : LuaNumber) : (narrowed x).toInt = (x.setWidth 32).toInt :=
  BitVec.toInt_signExtend_of_le (by decide)

theorem narrowed_slt (x : LuaNumber) : (x.setWidth 32).slt 0 = true ↔ (narrowed x).toInt < 0 := by
  rw [narrowed_toInt, BitVec.slt_eq_decide, decide_eq_true_iff]
  rfl

theorem narrowed_toNat {x : LuaNumber} (positive : ¬ (narrowed x).toInt < 0) :
    (narrowed x).toNat = (x.setWidth 32).toNat ∧ (narrowed x).toInt = (narrowed x).toNat := by
  have wide := BitVec.toInt_eq_toNat_cond (narrowed x)
  have narrow := BitVec.toInt_eq_toNat_cond (x.setWidth 32)
  have same := narrowed_toInt x
  have bound := (x.setWidth 32).isLt
  have bound' := (narrowed x).isLt
  split at wide <;> split at narrow <;> omega

/-- What `crypto.random` comes to: an error, or a buffer for the int that the number is cut to, with
    every byte filled. -/
theorem getRandomBytes_cases (st : ScriptState) (x : LuaNumber) (granted : Nat → Bool)
    (random : Nat → UInt8) :
    (((narrowed x).toInt < 0 ∨ granted ((narrowed x).toNat + sizeofUdata) = false) ∧
      ∃ m, (st.lunatikGetRandomBytes x granted random).1 = .error m) ∨
    (0 ≤ (narrowed x).toInt ∧ granted ((narrowed x).toNat + sizeofUdata) = true ∧
      st.lunatikGetRandomBytes x granted random =
        (.buffer st.buffers.length, (withBuffer st (narrowed x).toNat).store
          (st.mem.brk + sizeofUdata)
          ((List.range (narrowed x).toNat).map random))) := by
  rw [ScriptState.lunatikGetRandomBytes]
  by_cases negative : (narrowed x).toInt < 0
  · rw [if_pos ((narrowed_slt x).mpr negative)]
    exact .inl ⟨.inl negative, _, rfl⟩
  · obtain ⟨unsigned, -⟩ := narrowed_toNat negative
    have asked : st.bufferNew ((x.setWidth 32).signExtend 64) granted =
        st.luaSNewudata (narrowed x).toNat (granted ((narrowed x).toNat + sizeofUdata)) := rfl
    rw [if_neg (fun less => negative ((narrowed_slt x).mp less)), asked, ← unsigned]
    rcases luaSNewudata_cases st (narrowed x).toNat
      (granted ((narrowed x).toNat + sizeofUdata)) with
      ⟨given, fits, made⟩ | ⟨reason, m, refused⟩
    · rw [made]
      dsimp only
      rw [withBuffer_dataOf]
      exact .inr ⟨by omega, given, rfl⟩
    · -- an int is never too big
      have small : ¬ maxSizet - sizeofUdata < (narrowed x).toNat := by
        have bound := (x.setWidth 32).isLt
        have max : maxSizet = 2 ^ 64 - 3 := rfl
        have header : sizeofUdata = 40 := rfl
        omega
      rw [refused]
      exact .inl ⟨.inr (reason.resolve_right small), m, rfl⟩

theorem getRandomBytes_filled (st : ScriptState) (x : LuaNumber) (granted : Nat → Bool)
    (random : Nat → UInt8) :
    FilledExactly random st (st.lunatikGetRandomBytes x granted random) := by
  intro b buf made found
  rcases getRandomBytes_cases st x granted random with ⟨-, m, refused⟩ | ⟨-, -, ran⟩
  · rw [refused] at made
    cases made
  · rw [ran] at made found ⊢
    cases made
    have last : ((withBuffer st (narrowed x).toNat).store (st.mem.brk + sizeofUdata)
        ((List.range (narrowed x).toNat).map random)).buffers[st.buffers.length]? =
          some ⟨st.mem.brk + sizeofUdata, (narrowed x).toNat⟩ :=
            withBuffer_last st (narrowed x).toNat
    cases last.symm.trans found
    refine ⟨?_, store_bytesOf _ ⟨st.mem.brk + sizeofUdata, (narrowed x).toNat⟩ _ (by simp)⟩
    rw [ScriptState.store]
    dsimp only
    rw [List.length_map, List.length_range, withBuffer]

theorem getRandomBytes_honoured_iff (st : ScriptState) (x : LuaNumber) {granted : Nat → Bool}
    (random : Nat → UInt8) :
    SizeHonoured x (st.lunatikGetRandomBytes x granted random) ↔ RandomFits granted x := by
  rcases getRandomBytes_cases st x granted random with ⟨reason, m, refused⟩ | ⟨positive, given, ran⟩
  · exact iff_of_true (.inl ⟨m, refused⟩) (.inr reason)
  · obtain ⟨unsigned, same⟩ := narrowed_toNat (by omega : ¬ (narrowed x).toInt < 0)
    have last : ((withBuffer st (narrowed x).toNat).store (st.mem.brk + sizeofUdata)
        ((List.range (narrowed x).toNat).map random)).buffers[st.buffers.length]? =
          some ⟨st.mem.brk + sizeofUdata, (narrowed x).toNat⟩ :=
            withBuffer_last st (narrowed x).toNat
    rw [ran]
    constructor
    · rintro (⟨m, raised⟩ | ⟨b, buf, made, found, length, -⟩)
      · cases raised
      · cases made
        cases last.symm.trans found
        exact .inl (BitVec.eq_of_toInt_eq (by rw [same]; exact length))
    · rintro (fits | negative | refused)
      · refine .inr ⟨_, _, rfl, last, ?_, ?_⟩
        · rw [← fits]
          dsimp only
          rw [fits, ← same, fits]
        · have bound := (x.setWidth 32).isLt
          have header : sizeofUdata = 40 := rfl
          dsimp only
          omega
      · omega
      · rw [given] at refused
        cases refused

/-- Sizes are honoured or refused: by `buffer.new` always, by `crypto.random` when the number is an
    int, or is cut to one that is refused. -/
theorem sizes_honoured_iff (st : ScriptState) (x : LuaNumber) {granted : Nat → Bool}
    (bounded : Bounded granted) (random : Nat → UInt8) :
    (SizeHonoured x (st.bufferNew x granted) ∧
      SizeHonoured x (st.lunatikGetRandomBytes x granted random) ∧
      FilledExactly random st (st.lunatikGetRandomBytes x granted random)) ↔ RandomFits granted x :=
  ⟨fun all => (getRandomBytes_honoured_iff st x random).mp all.2.1, fun fits =>
    ⟨bufferNew_honoured st x bounded, (getRandomBytes_honoured_iff st x random).mpr fits,
      getRandomBytes_filled st x granted random⟩⟩

-- blocks of up to 2^20 bytes
def smallBlocks (size : Nat) : Bool := decide (size ≤ 2 ^ 20)

theorem smallBlocks_bounded : Bounded smallBlocks := ⟨2 ^ 20, by decide, fun size large => by
  rw [smallBlocks, decide_eq_false_iff_not]
  omega⟩

theorem sizes_honoured_iff_16 :
    (SizeHonoured 16 (zeroMemory.bufferNew 16 smallBlocks) ∧
      SizeHonoured 16 (zeroMemory.lunatikGetRandomBytes 16 smallBlocks fun _ => 7) ∧
      FilledExactly (fun _ => 7) zeroMemory (zeroMemory.lunatikGetRandomBytes 16 smallBlocks fun _ => 7)) ↔
    RandomFits smallBlocks 16 :=
  sizes_honoured_iff zeroMemory 16 smallBlocks_bounded fun _ => 7

/-- `crypto.random(2^32 + 16)` returns a buffer of 16 bytes. -/
theorem random_size_cut :
    ¬ (SizeHonoured (2 ^ 32 + 16) (zeroMemory.bufferNew (2 ^ 32 + 16) smallBlocks) ∧
      SizeHonoured (2 ^ 32 + 16) (zeroMemory.lunatikGetRandomBytes
        (2 ^ 32 + 16) smallBlocks fun _ => 7) ∧
      FilledExactly (fun _ => 7) zeroMemory
        (zeroMemory.lunatikGetRandomBytes (2 ^ 32 + 16) smallBlocks fun _ => 7)) := by
  rintro ⟨-, honoured, -⟩
  rcases (getRandomBytes_honoured_iff zeroMemory _ _).mp honoured with same | negative | refused
  · exact absurd same (by decide)
  · exact absurd negative (by decide)
  · exact absurd refused (by decide)

end Lunatik.Verified
