import Lunatik.Core.UserCopy
import Lunatik.Verified.ResultSoundness
import Mathlib.Data.List.TakeWhile

/-! # What user space gets of a result

`encoding` is what a result stands for as bytes.  A copy leaves as much of it in the user's buffer as
there is room for, and reports how much; a type name that is cut still ends with a zero.  From a
whole encoding the value can be read back, as far as it is encoded.
-/

namespace Lunatik.Verified

open Lunatik.Kernel Lunatik.Lua Lunatik.Core

/-! ## Encodings -/

/-- The type name of a userdata as a C string. -/
def typeCstr (heap : Heap) (u : Nat) : List UInt8 := cstr (typeName heap u)

/-- The bytes that stand for a value. -/
def encoding (heap : Heap) : TValue → List UInt8
  | .number n => littleEndian 8 n.toNat
  | .boolean b => littleEndian 4 (if lIsfalse (.boolean b) then 0 else 1)
  | .string s => s ++ [0]
  | .userdata u => typeCstr heap u ++ 0 :: (heap.udata u).bytes
  | .lightuserdata p => littleEndian 8 p
  | _ => []

/-- Strings and userdata are copied in part; numbers, booleans and pointers whole or not at all. -/
def isPartial : TValue → Bool
  | .string _ | .userdata _ => true
  | _ => false

/-- The size that is reported for a buffer of `s` bytes. -/
def reported (heap : Heap) (v : TValue) (s : Nat) : Nat :=
  if isPartial v then min s (encoding heap v).length
  else if (encoding heap v).length ≤ s then (encoding heap v).length
  else 0

-- the buffer has no room for the type name and its terminator
def nameCut (heap : Heap) (v : TValue) (s : Nat) : Bool :=
  match v with
  | .userdata u => s < (typeCstr heap u).length + 1
  | _ => false

/-- What the buffer holds then. -/
def delivered (heap : Heap) (v : TValue) (s : Nat) : List UInt8 :=
  let part := (encoding heap v).take (reported heap v s)
  if nameCut heap v s then part.set (s - 1) 0 else part

/-! ## User memory -/

-- the bytes of user memory after the stores
def userMemory (before : Nat → UInt8) (writes : List (Nat × UInt8)) : Nat → UInt8 :=
  writes.foldl (fun m w => setAt m w.1 w.2) before

/-- The stores leave `bytes` from `rData` on, and everything else as it was. -/
structure LeavesBytes (writes : List (Nat × UInt8)) (rData : Nat) (bytes : List UInt8) : Prop where
  inside : ∀ before k, (h : k < bytes.length) →
    userMemory before writes ((rData + k) % sizeModulus) = bytes[k]
  outside : ∀ before a, (∀ k < bytes.length, a ≠ (rData + k) % sizeModulus) →
    userMemory before writes a = before a

theorem userMemory_append (before : Nat → UInt8) (first second : List (Nat × UInt8)) :
    userMemory before (first ++ second) = userMemory (userMemory before first) second :=
  List.foldl_append

theorem userWrites_append (dst : Nat) (first second : List UInt8) :
    userWrites dst (first ++ second) =
      userWrites dst first ++ userWrites (dst + first.length) second := by
  induction first generalizing dst with
  | nil => rfl
  | cons b first ih =>
    rw [List.cons_append, userWrites, userWrites, ih, List.cons_append, List.length_cons,
      Nat.add_right_comm, Nat.add_assoc dst]

namespace LeavesBytes

variable {writes : List (Nat × UInt8)} {rData : Nat} {bytes : List UInt8}

theorem nothing (rData : Nat) : LeavesBytes [] rData [] where
  inside := fun _ _ h => absurd h (Nat.not_lt_zero _)
  outside := fun _ _ _ => rfl

-- addresses of one buffer are different
theorem address_inj {j k : Nat} (left : j < sizeModulus) (right : k < sizeModulus)
    (same : (rData + j) % sizeModulus = (rData + k) % sizeModulus) : j = k := by
  have step : j % sizeModulus = k % sizeModulus := Nat.ModEq.add_left_cancel' rData same
  rwa [Nat.mod_eq_of_lt left, Nat.mod_eq_of_lt right] at step

/-- One byte of the buffer is stored over. -/
theorem overwrite (leaves : LeavesBytes writes rData bytes) {k : Nat} (inside : k < bytes.length)
    (fits : bytes.length ≤ sizeModulus) (c : UInt8) :
    LeavesBytes (writes ++ [((rData + k) % sizeModulus, c)]) rData (bytes.set k c) where
  inside before j h := by
    rw [List.length_set] at h
    rw [userMemory_append]
    change setAt _ _ _ _ = _
    rw [List.getElem_set]
    split
    next same => rw [same, setAt_same]
    next other =>
      rw [setAt_other]
      · exact leaves.inside before j h
      · exact fun same => other (address_inj (by omega) (by omega) same).symm
  outside before a away := by
    rw [List.length_set] at away
    rw [userMemory_append]
    change setAt _ _ _ _ = _
    rw [setAt_other _ _ (away k inside)]
    exact leaves.outside before a away

theorem append_byte (leaves : LeavesBytes writes rData bytes) (fits : bytes.length < sizeModulus)
    (c : UInt8) :
    LeavesBytes (writes ++ [((rData + bytes.length) % sizeModulus, c)]) rData (bytes ++ [c]) where
  inside before j h := by
    rw [List.length_append, List.length_singleton] at h
    rw [userMemory_append]
    change setAt _ _ _ _ = _
    rcases Nat.lt_or_ge j bytes.length with earlier | last
    · rw [List.getElem_append_left earlier, setAt_other]
      · exact leaves.inside before j earlier
      · intro same
        have := address_inj (by omega) fits same
        omega
    · obtain rfl : j = bytes.length := by omega
      rw [setAt_same, List.getElem_append_right (Nat.le_refl _)]
      simp
  outside before a away := by
    rw [List.length_append, List.length_singleton] at away
    rw [userMemory_append]
    change setAt _ _ _ _ = _
    rw [setAt_other _ _ (away bytes.length (by omega))]
    exact leaves.outside before a fun k h => away k (by omega)

theorem of_userWrites (rData : Nat) {bytes : List UInt8} (fits : bytes.length ≤ sizeModulus) :
    LeavesBytes (userWrites rData bytes) rData bytes := by
  induction bytes using List.reverseRecOn with
  | nil => exact nothing rData
  | append_singleton bytes c ih =>
    rw [List.length_append, List.length_singleton] at fits
    rw [userWrites_append]
    exact (ih (by omega)).append_byte (by omega) c

end LeavesBytes

/-! ## Kernel memory -/

-- the bytes from `p` on are those of the list
def Stored (mem : Memory) (p : Nat) (bytes : List UInt8) : Prop :=
  ∀ i < bytes.length, mem.byte (p + i) = bytes[i]?

theorem Stored.tail {mem : Memory} {p : Nat} {b : UInt8} {bytes : List UInt8}
    (stored : Stored mem p (b :: bytes)) : mem.byte p = some b ∧ Stored mem (p + 1) bytes := by
  refine ⟨stored 0 (Nat.zero_lt_succ _), fun i inside => ?_⟩
  have next := stored (i + 1) (Nat.succ_lt_succ inside)
  rwa [Nat.add_comm i 1, ← Nat.add_assoc, Nat.add_comm 1 i, List.getElem?_cons_succ] at next

theorem readBytes_stored {mem : Memory} {p n : Nat} {bytes : List UInt8}
    (stored : Stored mem p bytes) (le : n ≤ bytes.length) :
    mem.readBytes p n = bytes.take n := by
  induction n generalizing p bytes with
  | zero => rfl
  | succ n ih =>
    cases bytes with
    | nil => cases le
    | cons b bytes =>
      obtain ⟨first, rest⟩ := stored.tail
      rw [Memory.readBytes, first, List.take_succ_cons]
      exact congrArg (b :: ·) (ih rest (Nat.le_of_succ_le_succ le))

theorem strlenWithin_stored {mem : Memory} {p fuel : Nat} {bytes : List UInt8}
    (stored : Stored mem p bytes) (ends : 0 ∈ bytes) (enough : (cstr bytes).length < fuel) :
    mem.strlenWithin fuel p = some (cstr bytes).length := by
  induction fuel generalizing p bytes with
  | zero => cases enough
  | succ fuel ih =>
    cases bytes with
    | nil => cases ends
    | cons b bytes =>
      obtain ⟨first, rest⟩ := stored.tail
      simp only [Memory.strlenWithin, first]
      by_cases zero : b = 0
      · rw [if_pos zero, cstr, List.takeWhile_cons_of_neg (by simpa using zero)]
        rfl
      · have more : cstr (b :: bytes) = b :: cstr bytes :=
          List.takeWhile_cons_of_pos (by simpa using zero)
        rw [more, List.length_cons] at enough
        have later : 0 ∈ bytes := (List.mem_cons.mp ends).resolve_left fun same => zero same.symm
        rw [if_neg zero, ih rest later (by omega), more, List.length_cons]
        rfl

theorem cstr_terminated (name : List UInt8) : cstr (name ++ [0]) = cstr name := by
  induction name with
  | nil => rfl
  | cons b name ih =>
    simp only [cstr] at ih ⊢
    rw [List.cons_append, List.takeWhile_cons, List.takeWhile_cons, ih]

-- the name and its terminator are at the start of what was stored
theorem cstr_terminated_starts (name : List UInt8) : cstr name ++ [0] <+: name ++ [0] := by
  induction name with
  | nil => exact List.prefix_refl _
  | cons b name ih =>
    rw [cstr] at ih ⊢
    by_cases zero : b = 0
    · rw [List.takeWhile_cons_of_neg (by simpa using zero), zero]
      exact ⟨name ++ [0], rfl⟩
    · rw [List.takeWhile_cons_of_pos (by simpa using zero)]
      exact List.cons_prefix_cons.mpr ⟨rfl, ih⟩

theorem copyToUser_stored {mem : Memory} {src n : Nat} {bytes : List UInt8}
    (stored : Stored mem src bytes) (le : n ≤ bytes.length) (dst : Nat) :
    copyToUser mem dst src n 0 = (0, userWrites dst (bytes.take n)) := by
  have read := readBytes_stored stored le
  have length : (bytes.take n).length = n := List.length_take_of_le le
  rw [copyToUser, read, Nat.sub_zero, List.take_of_length_le (Nat.le_of_eq length), length,
    Nat.sub_self]

theorem Stored.of_prefix {mem : Memory} {p : Nat} {bytes part : List UInt8}
    (stored : Stored mem p bytes) (isPart : part <+: bytes) : Stored mem p part := by
  obtain ⟨rest, rfl⟩ := isPart
  intro i inside
  rw [stored i (by rw [List.length_append]; omega), List.getElem?_append_left inside]

/-! ## The copies -/

def noFaults : UserFaults := ⟨false, false, false, 0, false, 0, false⟩

section Copies

variable {heap : Heap} {mem : Memory} {r : LunatikResult}

-- all of the bytes or none of them
theorem copyFixed_delivers (rData s size word : Nat) (fits : size ≤ sizeModulus) :
    ∃ writes, copyFixed rData s size word noFaults = ⟨0, writes, if size ≤ s then size else 0⟩ ∧
      LeavesBytes writes rData ((littleEndian size word).take (if size ≤ s then size else 0)) := by
  have length := littleEndian_length size word
  rw [copyFixed]
  split
  next =>
    refine ⟨_, rfl, ?_⟩
    rw [List.take_of_length_le (Nat.le_of_eq length)]
    exact LeavesBytes.of_userWrites rData (by omega)
  next =>
    refine ⟨_, rfl, ?_⟩
    rw [List.take_zero]
    exact LeavesBytes.nothing rData

theorem copyString_delivers {s : List UInt8} (length : r.rStringSize = s.length)
    (stored : Stored mem r.rString (s ++ [0])) (fits : s.length + 1 < sizeModulus)
    (rData rSize : Nat) :
    ∃ writes, copyString mem r rData rSize noFaults = ⟨0, writes, min rSize (s ++ [0]).length⟩ ∧
      LeavesBytes writes rData ((s ++ [0]).take (min rSize (s ++ [0]).length)) := by
  have size : wrap (r.rStringSize + 1) = (s ++ [0]).length := by
    rw [length, wrap, Nat.mod_eq_of_lt fits, List.length_append, List.length_singleton]
  have copied := copyToUser_stored stored (Nat.min_le_right rSize _) rData
  have small : ((s ++ [0]).take (min rSize (s ++ [0]).length)).length ≤ sizeModulus := by
    rw [List.length_take, List.length_append, List.length_singleton]
    omega
  refine ⟨_, ?_, LeavesBytes.of_userWrites rData small⟩
  rw [copyString, size, show noFaults.leftData = 0 from rfl, copied]
  rfl

-- the store of the terminator, when the name is cut
theorem terminator_address (rData : Nat) {s : Nat} (some : 1 ≤ s) :
    (rData + s + (sizeModulus - 1)) % sizeModulus = (rData + (s - 1)) % sizeModulus := by
  have split : rData + s + (sizeModulus - 1) = rData + (s - 1) + sizeModulus := by
    rw [sizeModulus]
    omega
  rw [split, Nat.add_mod_right]

theorem copyUserdata_delivers {name bytes : List UInt8} (size : r.rUserdataSize = bytes.length)
    (nameStored : Stored mem r.rUserdataType (name ++ [0]))
    (stored : Stored mem r.rUserdata bytes) (rData : Nat) {s : Nat} (some : 1 ≤ s)
    (fits : s < sizeModulus) :
    ∃ writes, copyUserdata mem r (name.length + 1) rData s noFaults =
        ⟨0, writes, min s (name ++ 0 :: bytes).length⟩ ∧
      LeavesBytes writes rData
        (if s < name.length + 1 then
          ((name ++ 0 :: bytes).take (min s (name ++ 0 :: bytes).length)).set (s - 1) 0
        else (name ++ 0 :: bytes).take (min s (name ++ 0 :: bytes).length)) := by
  have whole : name ++ 0 :: bytes = name ++ [0] ++ bytes := by simp
  have nameLength : (name ++ [0]).length = name.length + 1 := by simp
  have total : (name ++ 0 :: bytes).length = name.length + 1 + bytes.length := by
    simp only [List.length_append, List.length_cons]
    omega
  rw [total]
  have first := copyToUser_stored nameStored (n := min s (name.length + 1)) (by omega) rData
  rcases Nat.lt_trichotomy s (name.length + 1) with cut | exact' | room
  · -- the name is cut
    have least : min s (name.length + 1) = s := by omega
    have least' : min s (name.length + 1 + bytes.length) = s := by omega
    rw [least] at first
    rw [if_pos cut, least', whole, List.take_append_of_le_length (by omega)]
    have length : ((name ++ [0]).take s).length = s := List.length_take_of_le (by omega)
    have leaves : LeavesBytes (userWrites rData ((name ++ [0]).take s)) rData ((name ++ [0]).take s) :=
      LeavesBytes.of_userWrites rData (by omega)
    refine ⟨_, ?_, leaves.overwrite (k := s - 1) (by omega) (by omega) 0⟩
    simp only [copyUserdata, noFaults, least, first, Nat.sub_zero, cut, if_true, ne_eq,
      not_true_eq_false, if_false, Nat.le_of_lt cut, putUser, Bool.false_eq_true, userWrites,
      terminator_address rData some]
  · -- the name fits, and nothing more
    subst exact'
    have least : min (name.length + 1) (name.length + 1) = name.length + 1 := Nat.min_self _
    have least' : min (name.length + 1) (name.length + 1 + bytes.length) = name.length + 1 := by
      omega
    rw [least] at first
    rw [if_neg (Nat.lt_irrefl _), least', whole, List.take_append_of_le_length (by omega)]
    have length : ((name ++ [0]).take (name.length + 1)).length = name.length + 1 :=
      List.length_take_of_le (by omega)
    refine ⟨_, ?_, LeavesBytes.of_userWrites rData (by omega)⟩
    simp only [copyUserdata, noFaults, least, first, Nat.sub_zero, Nat.lt_irrefl, if_false, ne_eq,
      not_true_eq_false, Nat.le_refl, if_true]
  · -- some of the bytes follow
    have least : min s (name.length + 1) = name.length + 1 := by omega
    rw [least] at first
    have second := copyToUser_stored stored (n := min (s - (name.length + 1)) bytes.length)
      (by omega) (rData + (name.length + 1))
    have allName : (name ++ [0]).take (name.length + 1) = name ++ [0] :=
      List.take_of_length_le (by omega)
    have sum : name.length + 1 + min (s - (name.length + 1)) bytes.length =
        min s (name.length + 1 + bytes.length) := by omega
    have part : (name ++ [0] ++ bytes).take (min s (name.length + 1 + bytes.length)) =
        name ++ [0] ++ bytes.take (min (s - (name.length + 1)) bytes.length) := by
      rw [← sum, ← nameLength, List.take_length_add_append]
    rw [if_neg (by omega), whole, part]
    refine ⟨userWrites rData (name ++ [0] ++ bytes.take (min (s - (name.length + 1)) bytes.length)),
      ?_, LeavesBytes.of_userWrites rData ?_⟩
    · simp only [copyUserdata, noFaults, least, first, allName, Nat.sub_zero, Nat.lt_irrefl,
        if_false, ne_eq, not_true_eq_false, Nat.not_le.mpr room, size, second, sum,
        userWrites_append, nameLength]
    · rw [List.length_append, nameLength, List.length_take]
      omega

end Copies

/-! ## From the value to the buffer -/

section Whole

variable {heap : Heap} {v : TValue} {allocs : ResultAllocs} {stackWord : Nat} {perror e : Int}
  {mem mem' : Memory} {r : LunatikResult}

/-- `luaS_newlstr` refuses lengths near `MAX_SIZET`. -/
def LengthsFit (heap : Heap) : TValue → Prop
  | .string s => s.length + 1 < sizeModulus
  | .userdata u => (typeName heap u).length < sizeModulus
  | _ => True

-- the tag of a result, and its word where the value is one
def Tagged (v : TValue) (r : LunatikResult) : Prop :=
  r.rType = ttype v ∧
    match v with
    | .number n => r.word0 = n.toNat
    | .boolean b => r.word0 = if lIsfalse (.boolean b) then 0 else 1
    | .lightuserdata p => r.word0 = p
    | _ => True

theorem resultOfUserdata_tagged {u self : Nat}
    (got : resultOfUserdata heap u allocs stackWord perror self mem = .returned (some r) e mem') :
    r.rType = luaTuserdata := by
  simp only [resultOfUserdata] at got
  split at got
  · cases got
    rfl
  · split at got
    · cases got
      rfl
    · split at got
      · cases got
        rfl
      · cases got

theorem lunatikResultGet_tagged
    (got : lunatikResultGet heap v allocs stackWord perror mem = .returned (some r) e mem') :
    Tagged v r := by
  simp only [lunatikResultGet] at got
  split at got
  · cases got
  · cases v with
    | userdata u => exact ⟨resultOfUserdata_tagged got, trivial⟩
    | string s =>
      dsimp only at got
      split at got
      · cases got
        exact ⟨rfl, trivial⟩
      · cases got
        exact ⟨rfl, trivial⟩
    | nil | boolean _ | lightuserdata _ | number _ | table _ | function _ | thread _ =>
      cases got
      exact ⟨rfl, by first | rfl | trivial⟩

theorem copyPayload_delivers (tagged : Tagged v r) (wellFormed : WellFormed heap v mem r)
    (lengths : LengthsFit heap v) (rData : Nat) {s : Nat} (some' : 1 ≤ s) (fits : s < sizeModulus) :
    ∃ writes, copyPayload mem r rData s noFaults = some ⟨0, writes, reported heap v s⟩ ∧
      LeavesBytes writes rData (delivered heap v s) := by
  obtain ⟨type, word⟩ := tagged
  cases v with
  | number n =>
    obtain ⟨writes, copied, leaves⟩ := copyFixed_delivers rData s 8 r.word0 (by decide)
    refine ⟨writes, ?_, ?_⟩
    · simp [copyPayload, type, ttype, copied, reported, isPartial, encoding, littleEndian_length]
    · rw [word] at leaves
      simpa [delivered, nameCut, reported, isPartial, encoding, littleEndian_length] using leaves
  | boolean b =>
    obtain ⟨writes, copied, leaves⟩ := copyFixed_delivers rData s 4 r.word0 (by decide)
    refine ⟨writes, ?_, ?_⟩
    · simp [copyPayload, type, ttype, luaTnumber, luaTboolean, copied, reported, isPartial,
        encoding, littleEndian_length]
    · rw [word] at leaves
      simpa [delivered, nameCut, reported, isPartial, encoding, littleEndian_length] using leaves
  | lightuserdata p =>
    obtain ⟨writes, copied, leaves⟩ := copyFixed_delivers rData s 8 r.word0 (by decide)
    refine ⟨writes, ?_, ?_⟩
    · simp [copyPayload, type, ttype, luaTnumber, luaTboolean, luaTstring, luaTuserdata,
        luaTlightuserdata, copied, reported, isPartial, encoding, littleEndian_length]
    · rw [word] at leaves
      simpa [delivered, nameCut, reported, isPartial, encoding, littleEndian_length] using leaves
  | string text =>
    obtain ⟨s', same, length, holds⟩ := wellFormed.string type
    cases same
    obtain ⟨writes, copied, leaves⟩ := copyString_delivers length holds.2 lengths rData s
    refine ⟨writes, ?_, ?_⟩
    · simp only [copyPayload, type, ttype, luaTnumber, luaTboolean, luaTstring, copied, reported,
        isPartial, encoding]
      rfl
    · exact leaves
  | userdata u =>
    obtain ⟨u', same, size, data, name⟩ := wellFormed.userdata type
    cases same
    have nameStored : Stored mem r.rUserdataType (typeCstr heap u ++ [0]) :=
      Stored.of_prefix name.2 (cstr_terminated_starts (typeName heap u))
    have shorter : (typeCstr heap u).length ≤ (typeName heap u).length :=
      (List.takeWhile_prefix _).length_le
    have length : mem.strlen r.rUserdataType = some (typeCstr heap u).length := by
      have bound : (typeName heap u).length < sizeModulus := lengths
      have found : mem.strlenWithin sizeModulus r.rUserdataType =
          some (cstr (typeName heap u ++ [0])).length :=
        strlenWithin_stored name.2 (by simp)
          (by rw [cstr_terminated]; exact lt_of_le_of_lt shorter bound)
      rwa [cstr_terminated] at found
    obtain ⟨writes, copied, leaves⟩ :=
      copyUserdata_delivers size nameStored data.2 rData some' fits
    refine ⟨writes, ?_, ?_⟩
    · simp only [copyPayload, type, ttype, luaTnumber, luaTboolean, luaTstring, luaTuserdata,
        length, Option.map_some, copied, reported, isPartial, encoding]
      rfl
    · simpa only [delivered, nameCut, reported, isPartial, encoding, if_true, decide_eq_true_eq]
        using leaves
  | nil | table _ | function _ | thread _ =>
    refine ⟨[], ?_, LeavesBytes.nothing rData⟩
    simp [copyPayload, type, ttype, luaTnumber, luaTboolean, luaTstring, luaTuserdata,
      luaTlightuserdata, luaTnil, luaTtable, luaTfunction, luaTthread, reported, isPartial, encoding]

end Whole

/-! ## From the buffer to the value -/

theorem littleEndian_inj {n w w' : Nat} (same : littleEndian n w = littleEndian n w') :
    w % 256 ^ n = w' % 256 ^ n := by
  induction n generalizing w w' with
  | zero => rw [Nat.pow_zero, Nat.mod_one, Nat.mod_one]
  | succ n ih =>
    obtain ⟨low, high⟩ := List.cons.inj same
    have lowest : w % 256 = w' % 256 := congrArg UInt8.toNat low
    rw [Nat.pow_succ', Nat.mod_mul, Nat.mod_mul, lowest, ih high]

-- a C string ends at the first zero
theorem cstr_split {name bytes : List UInt8} (plain : 0 ∉ name) :
    cstr (name ++ 0 :: bytes) = name := by
  rw [cstr, List.takeWhile_append_of_pos]
  · rw [List.takeWhile_cons_of_neg (by simp), List.append_nil]
  · intro c member
    have nonzero : c ≠ 0 := fun zero => plain (zero ▸ member)
    simpa using nonzero

theorem zero_not_mem_cstr (s : List UInt8) : 0 ∉ cstr s := by
  intro member
  have nonzero := List.mem_takeWhile_imp (p := fun c : UInt8 => decide (c ≠ 0)) member
  simp at nonzero

/-- The values are the same as far as they are encoded: a userdata by its type name and its bytes,
and a table, function or thread not at all. -/
def SameEncoded (heap heap' : Heap) : TValue → TValue → Prop
  | .nil, .nil => True
  | .boolean b, .boolean b' => lIsfalse (.boolean b) = lIsfalse (.boolean b')
  | .number n, .number n' => n = n'
  | .string s, .string s' => s = s'
  | .lightuserdata p, .lightuserdata p' => p % sizeModulus = p' % sizeModulus
  | .userdata u, .userdata u' =>
    typeCstr heap u = typeCstr heap' u' ∧ (heap.udata u).bytes = (heap'.udata u').bytes
  | .table _, .table _ | .function _, .function _ | .thread _, .thread _ => True
  | _, _ => False

theorem encoding_decodes {heap heap' : Heap} {v v' : TValue} (type : ttype v = ttype v')
    (same : encoding heap v = encoding heap' v') : SameEncoded heap heap' v v' := by
  have names {u u' : Nat}
      (same : encoding heap (.userdata u) = encoding heap' (.userdata u')) :
      typeCstr heap u = typeCstr heap' u' := by
    have cut := congrArg cstr same
    have plain (h : Heap) (u : Nat) : 0 ∉ typeCstr h u := zero_not_mem_cstr _
    rwa [encoding, encoding, cstr_split (plain heap u), cstr_split (plain heap' u')] at cut
  cases v with
  | nil =>
    cases v' with
    | nil => trivial
    | _ => exact absurd type (by simp only [ttype]; decide)
  | boolean b =>
    cases v' with
    | boolean b' =>
      rw [encoding, encoding] at same
      rw [SameEncoded]
      cases left : lIsfalse (.boolean b) <;> cases right : lIsfalse (.boolean b')
      all_goals first | rfl | (rw [left, right] at same; cases same)
    | _ => exact absurd type (by simp only [ttype]; decide)
  | number n =>
    cases v' with
    | number n' =>
      have word := littleEndian_inj same
      have low := n.isLt
      have low' := n'.isLt
      exact BitVec.eq_of_toNat_eq (by omega)
    | _ => exact absurd type (by simp only [ttype]; decide)
  | lightuserdata p =>
    cases v' with
    | lightuserdata p' => exact littleEndian_inj same
    | _ => exact absurd type (by simp only [ttype]; decide)
  | string s =>
    cases v' with
    | string s' => exact List.append_cancel_right same
    | _ => exact absurd type (by simp only [ttype]; decide)
  | userdata u =>
    cases v' with
    | userdata u' =>
      have name := names same
      rw [encoding, encoding, name] at same
      exact ⟨name, (List.cons.inj (List.append_cancel_left same)).2⟩
    | _ => exact absurd type (by simp only [ttype]; decide)
  | table h =>
    cases v' with
    | table h' => trivial
    | _ => exact absurd type (by simp only [ttype]; decide)
  | function c =>
    cases v' with
    | function c' => trivial
    | _ => exact absurd type (by simp only [ttype]; decide)
  | thread t =>
    cases v' with
    | thread t' => trivial
    | _ => exact absurd type (by simp only [ttype]; decide)

/-! ## The whole copy -/

/-- A copy to a buffer of `s` bytes delivers the value. -/
structure Delivers (heap : Heap) (v : TValue) (rData s : Nat) (out : CopyOutcome) : Prop where
  ret : out.ret = some 0
  type : out.storedType = some (ttype v)
  size : out.storedSize = some (reported heap v s)
  data : LeavesBytes out.writes rData (delivered heap v s)

theorem delivered_whole {heap : Heap} {v : TValue} {s : Nat} (room : (encoding heap v).length ≤ s) :
    reported heap v s = (encoding heap v).length ∧ delivered heap v s = encoding heap v := by
  have size : reported heap v s = (encoding heap v).length := by
    rw [reported, if_pos room]
    split
    · exact Nat.min_eq_right room
    · rfl
  have whole : nameCut heap v s = false := by
    cases v with
    | userdata u =>
      rw [encoding, List.length_append, List.length_cons] at room
      simp only [nameCut, decide_eq_false_iff_not]
      omega
    | _ => rfl
  refine ⟨size, ?_⟩
  rw [delivered, size, List.take_length, whole]
  rfl

/-- The buffers that two copies leave, as far as they report it, are the same. -/
def SameBuffers (out out' : CopyOutcome) (rData rData' : Nat) : Prop :=
  out.storedType = out'.storedType ∧ out.storedSize = out'.storedSize ∧
    ∃ before before', ∀ n ∈ out.storedSize, ∀ k < n,
      userMemory before out.writes ((rData + k) % sizeModulus) =
        userMemory before' out'.writes ((rData' + k) % sizeModulus)

theorem Delivers.decodes {heap heap' : Heap} {v v' : TValue} {rData rData' s s' : Nat}
    {out out' : CopyOutcome} (first : Delivers heap v rData s out)
    (second : Delivers heap' v' rData' s' out') (room : (encoding heap v).length ≤ s)
    (room' : (encoding heap' v').length ≤ s') (same : SameBuffers out out' rData rData') :
    SameEncoded heap heap' v v' := by
  obtain ⟨type, size, before, before', bytes⟩ := same
  obtain ⟨reports, holds⟩ := delivered_whole room
  obtain ⟨reports', holds'⟩ := delivered_whole room'
  rw [first.type, second.type] at type
  rw [first.size, second.size, reports, reports'] at size
  have length := Option.some.inj size
  have data := first.data
  have data' := second.data
  rw [holds] at data
  rw [holds'] at data'
  refine encoding_decodes (Option.some.inj type) (List.ext_getElem length fun k inside inside' => ?_)
  rw [← data.inside before k inside, ← data'.inside before' k inside']
  exact bytes _ (by rw [first.size, reports]; rfl) k inside

/-- A well-formed result is delivered as its encoding, cut to the buffer, and what a large enough
buffer holds decodes to the value. -/
theorem result_delivered {heap : Heap} {v : TValue} {allocs : ResultAllocs} {stackWord : Nat}
    {perror e : Int} {mem mem' : Memory} {r : LunatikResult}
    (got : lunatikResultGet heap v allocs stackWord perror mem = .returned (some r) e mem')
    (wellFormed : WellFormed heap v mem' r) (lengths : LengthsFit heap v) (rData rSize : UInt64)
    (some' : 1 ≤ rSize.toNat) :
    Delivers heap v rData.toNat rSize.toNat
        (copyLunatikResultToUser mem' r rData rSize noFaults) ∧
      ∀ heap' v' rData' s' out', Delivers heap' v' rData' s' out' →
        (encoding heap v).length ≤ rSize.toNat → (encoding heap' v').length ≤ s' →
        SameBuffers (copyLunatikResultToUser mem' r rData rSize noFaults) out' rData.toNat rData' →
        SameEncoded heap heap' v v' := by
  have tagged := lunatikResultGet_tagged got
  obtain ⟨writes, copied, leaves⟩ :=
    copyPayload_delivers tagged wellFormed lengths rData.toNat some' rSize.toNat_lt
  have delivers : Delivers heap v rData.toNat rSize.toNat
      (copyLunatikResultToUser mem' r rData rSize noFaults) := by
    have outcome : copyLunatikResultToUser mem' r rData rSize noFaults =
        ⟨some 0, some r.rType, writes, some (reported heap v rSize.toNat)⟩ := by
      rw [copyLunatikResultToUser, copied]
      rfl
    rw [outcome, tagged.1]
    exact ⟨rfl, rfl, rfl, leaves⟩
  exact ⟨delivers, fun heap' v' rData' s' out' other room room' same =>
    delivers.decodes other room room' same⟩

-- every allocation is granted
def allGranted : ResultAllocs := ⟨true, true, true, true⟩

theorem wellFormed_of_granted {heap : Heap} {v : TValue} {stackWord : Nat} {perror e : Int}
    {mem mem' : Memory} {r : LunatikResult} (granted : CopiesGranted heap v allGranted stackWord)
    (got : lunatikResultGet heap v allGranted stackWord perror mem = .returned (some r) e mem') :
    WellFormed heap v mem' r := by
  have ok := (resultGet_ok_iff heap v allGranted stackWord perror mem).mpr (.inr granted)
  rwa [got] at ok

/-- The string `"x"` in a buffer of one byte. -/
theorem result_delivered_cut_string : ∃ r mem',
    lunatikResultGet emptyHeap (.string [120]) allGranted 0 0 Memory.empty =
        .returned (some r) 0 mem' ∧
      Delivers emptyHeap (.string [120]) 4096 1 (copyLunatikResultToUser mem' r 4096 1 noFaults) := by
  have got : lunatikResultGet emptyHeap (.string [120]) allGranted 0 0 Memory.empty =
      .returned (some ⟨4096, luaTstring, 4128, 1, 0⟩) 0
        (((Memory.empty.kmalloc sizeofResult true).2.kmalloc 2 true).2.store 4128 [120, 0]) := rfl
  have small : LengthsFit emptyHeap (.string [120]) := by
    rw [LengthsFit]
    decide
  exact ⟨_, _, got, (result_delivered got (wellFormed_of_granted rfl got) small 4096 1
    (by decide)).1⟩

/-- Two values whose results are well formed and are copied alike. -/
def LookAlike (v w : TValue) : Prop :=
  ∃ r e mem, lunatikResultGet emptyHeap v allGranted 0 0 Memory.empty = .returned (some r) e mem ∧
    lunatikResultGet emptyHeap w allGranted 0 0 Memory.empty = .returned (some r) e mem ∧
    WellFormed emptyHeap v mem r ∧ WellFormed emptyHeap w mem r ∧ v ≠ w

theorem LookAlike.of_results {v w : TValue} {r : LunatikResult} {e : Int} {mem : Memory}
    (got : lunatikResultGet emptyHeap v allGranted 0 0 Memory.empty = .returned (some r) e mem)
    (got' : lunatikResultGet emptyHeap w allGranted 0 0 Memory.empty = .returned (some r) e mem)
    (granted : CopiesGranted emptyHeap v allGranted 0)
    (granted' : CopiesGranted emptyHeap w allGranted 0) (differ : v ≠ w) : LookAlike v w :=
  ⟨r, e, mem, got, got', wellFormed_of_granted granted got, wellFormed_of_granted granted' got',
    differ⟩

/-- Two userdata with the same bytes, and any two tables, cannot be told apart. -/
theorem values_look_alike :
    LookAlike (.userdata 0) (.userdata 1) ∧ LookAlike (.table 0) (.table 1) := by
  have userdata (u : Nat) : lunatikResultGet emptyHeap (.userdata u) allGranted 0 0 Memory.empty =
      .returned (some ⟨4096, luaTuserdata, zeroSizePtr, 0, 4128⟩) 0
        ((((Memory.empty.kmalloc sizeofResult true).2.store zeroSizePtr []).kmalloc 1 true).2.store
          4128 [0]) := rfl
  have nameless (u : Nat) : CopiesGranted emptyHeap (.userdata u) allGranted 0 :=
    ⟨.inl rfl, rfl, fun _ => Nat.zero_le 1⟩
  have table (h : Nat) : lunatikResultGet emptyHeap (.table h) allGranted 0 0 Memory.empty =
      .returned (some (zeroedResult 4096 luaTtable)) (-einval)
        (Memory.empty.kmalloc sizeofResult true).2 := rfl
  exact ⟨.of_results (userdata 0) (userdata 1) (nameless 0) (nameless 1) (by decide),
    .of_results (table 0) (table 1) trivial trivial (by decide)⟩

end Lunatik.Verified
