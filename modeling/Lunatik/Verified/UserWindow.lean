import Lunatik.Core.UserCopy

/-! # The user-memory window

Every byte that `copy_lunatik_result_to_user` stores through `r_data` should lie in
`[r_data, r_data + s)` for the size `s` that user space put in `*r_size`.  The arms of
the switch keep to that except for one store: when nothing of the type name of a
userdata was copied, the terminator goes to `r_data - 1`.
-/

namespace Lunatik.Verified

open Lunatik.Kernel Lunatik.Lua Lunatik.Core

def InWindow (rData rSize a : Nat) : Prop := ∃ k, k < rSize ∧ a = (rData + k) % sizeModulus

def WritesInWindow (rData rSize : Nat) (writes : List (Nat × UInt8)) : Prop :=
  ∀ w ∈ writes, InWindow rData rSize w.1

/-! ## Runs of stores -/

theorem userWrites_inWindow {rData rSize off : Nat} {bytes : List UInt8}
    (fits : off + bytes.length ≤ rSize) : WritesInWindow rData rSize
      (userWrites (rData + off) bytes) := by
  induction bytes generalizing off with
  | nil => intro w member; cases member
  | cons b bs ih =>
    simp only [List.length_cons] at fits
    intro w member
    simp only [userWrites, List.mem_cons] at member
    rcases member with rfl | later
    · exact ⟨off, by omega, rfl⟩
    · have rest : off + 1 + bs.length ≤ rSize := by omega
      exact ih rest w later

theorem writesInWindow_append_iff {rData rSize : Nat} (first second : List (Nat × UInt8)) :
    WritesInWindow rData rSize (first ++ second) ↔
      WritesInWindow rData rSize first ∧ WritesInWindow rData rSize second := by
  simp only [WritesInWindow, List.mem_append]
  constructor
  · intro all
    exact ⟨fun w early => all w (.inl early), fun w late => all w (.inr late)⟩
  · rintro ⟨inFirst, inSecond⟩ w (early | late)
    · exact inFirst w early
    · exact inSecond w late

theorem putUser_inWindow {rData rSize : Nat} {bytes : List UInt8} (fits : bytes.length ≤ rSize)
    (faults : Bool) : WritesInWindow rData rSize (putUser rData bytes faults).2 := by
  cases faults with
  | true => intro w member; cases member
  | false =>
    have whole : 0 + bytes.length ≤ rSize := by omega
    exact userWrites_inWindow whole

theorem copyToUser_inWindow (mem : Memory) (rData : Nat) {rSize off n : Nat} (src left : Nat)
    (fits : off + n ≤ rSize) :
    WritesInWindow rData rSize (copyToUser mem (rData + off) src n left).2 := by
  apply userWrites_inWindow
  have := mem.readBytes_length_le src n
  simp only [List.length_take]
  omega

/-- A type name is readable, so only user memory decides how much of it is left over. -/
theorem copyToUser_type_left {mem : Memory} {p len n : Nat} (found : mem.strlen p = some len)
    (bound : n ≤ len + 1) (dst left : Nat) :
    n - (copyToUser mem dst p n left).1 = n - left := by
  have readable := Memory.readBytes_length_of_strlenWithin found bound
  simp only [copyToUser, List.length_take, readable]
  omega

/-! ## The arms of the switch -/

theorem copyFixed_spec (rData rSize size word : Nat) (faults : UserFaults) :
    WritesInWindow rData rSize (copyFixed rData rSize size word faults).writes ∧
      (copyFixed rData rSize size word faults).rSizeKern ≤ rSize := by
  unfold copyFixed
  split
  next fits =>
    have whole : (littleEndian size word).length ≤ rSize := by rw [littleEndian_length]; exact fits
    exact ⟨putUser_inWindow whole faults.putData, fits⟩
  next =>
    refine ⟨?_, Nat.zero_le _⟩
    intro w member
    cases member

theorem copyString_spec (mem : Memory) (r : LunatikResult) (rData rSize : Nat)
    (faults : UserFaults) :
    WritesInWindow rData rSize (copyString mem r rData rSize faults).writes ∧
      (copyString mem r rData rSize faults).rSizeKern ≤ rSize := by
  constructor
  · have whole : 0 + min rSize (wrap (r.rStringSize + 1)) ≤ rSize := by omega
    exact copyToUser_inWindow mem rData r.rString faults.leftData whole
  · simp only [copyString]
    omega

/-- The terminator of a truncated type name takes the place of the last byte copied of it.
    With nothing copied that place is in front of the window. -/
theorem terminator_inWindow_iff (rData : Nat) {rSize copied : Nat} (bound : rSize < sizeModulus)
    (fits : copied ≤ rSize) (faults : Bool) :
    WritesInWindow rData rSize (putUser (rData + copied + (sizeModulus - 1)) [0] faults).2 ↔
      ¬ (faults = false ∧ copied = 0) := by
  cases faults with
  | true => simp [putUser, WritesInWindow]
  | false =>
    simp only [putUser, Bool.false_eq_true, if_false, userWrites, WritesInWindow,
      List.mem_singleton, forall_eq, true_and]
    simp only [InWindow, sizeModulus] at bound ⊢
    constructor
    · rintro ⟨k, inside, same⟩ rfl
      omega
    · intro something
      exact ⟨copied - 1, by omega, by omega⟩

/-- The store that leaves the window: something of a truncated type name must have been
    copied before its terminator is placed. -/
def StepsBack (typeLen rSize : Nat) (faults : UserFaults) : Prop :=
  faults.putTerminator = false ∧ min rSize typeLen ≤ faults.leftType

theorem copyUserdata_size_le (mem : Memory) (r : LunatikResult) (typeLen rData rSize : Nat)
    (faults : UserFaults) : (copyUserdata mem r typeLen rData rSize faults).rSizeKern ≤ rSize := by
  simp only [copyUserdata]
  split
  · simp only; omega
  · split
    · simp only; omega
    · simp only; omega

theorem copyUserdata_inWindow_iff {mem : Memory} {r : LunatikResult} {len : Nat}
    (found : mem.strlen r.rUserdataType = some len) (rData : Nat) {rSize : Nat}
    (bound : rSize < sizeModulus) (faults : UserFaults) :
    WritesInWindow rData rSize (copyUserdata mem r (len + 1) rData rSize faults).writes ↔
      ¬ StepsBack (len + 1) rSize faults := by
  have whole : 0 + min rSize (len + 1) ≤ rSize := by omega
  have name := copyToUser_inWindow mem rData r.rUserdataType faults.leftType whole
  have copied := copyToUser_type_left found (Nat.min_le_right rSize (len + 1)) rData faults.leftType
  simp only [copyUserdata]
  generalize copyToUser mem rData r.rUserdataType (min rSize (len + 1)) faults.leftType = first at *
  obtain ⟨n, writes⟩ := first
  simp only at name copied
  rw [copied]
  have typeName : WritesInWindow rData rSize
      (if min rSize (len + 1) - faults.leftType < len + 1 then
        writes ++ (putUser (rData + (min rSize (len + 1) - faults.leftType) + (sizeModulus - 1)) [0]
          faults.putTerminator).2
      else writes) ↔ ¬ StepsBack (len + 1) rSize faults := by
    unfold StepsBack
    split
    next truncated =>
      rw [writesInWindow_append_iff, and_iff_right name,
        terminator_inWindow_iff rData bound (by omega), Nat.sub_eq_zero_iff_le]
    next complete =>
      refine ⟨fun _ stepsBack => ?_, fun _ => name⟩
      omega
  split
  next => exact typeName
  next =>
    split
    next => exact typeName
    next room =>
      rw [writesInWindow_append_iff, typeName]
      apply and_iff_left
      apply copyToUser_inWindow
      omega

/-! ## The whole call -/

/-- A call reaches the stepping-back store: user space supplied a size, took the type, and
    the result is a userdata with a readable type name of which nothing was copied. -/
def WritesBeforeWindow (mem : Memory) (r : LunatikResult) (rSize : UInt64) (faults : UserFaults) :
    Prop :=
  faults.getSize = false ∧ faults.putType = false ∧ r.rType = luaTuserdata ∧
    ∃ len, mem.strlen r.rUserdataType = some len ∧ StepsBack (len + 1) rSize.toNat faults

/-- Only the arm for `LUA_TUSERDATA` can leave the window. -/
theorem copyPayload_cases {mem : Memory} {r : LunatikResult} {rData rSize : Nat}
    {faults : UserFaults} {payload : Payload}
    (paid : copyPayload mem r rData rSize faults = some payload) :
    (r.rType ≠ luaTuserdata ∧ WritesInWindow rData rSize payload.writes ∧
      payload.rSizeKern ≤ rSize) ∨
      (r.rType = luaTuserdata ∧ ∃ len, mem.strlen r.rUserdataType = some len ∧
        payload = copyUserdata mem r (len + 1) rData rSize faults) := by
  unfold copyPayload at paid
  by_cases userdata : r.rType = luaTuserdata
  · simp only [userdata, luaTuserdata, luaTnumber, luaTboolean, luaTstring] at paid
    obtain ⟨len, found, rfl⟩ := Option.map_eq_some_iff.mp paid
    exact .inr ⟨userdata, len, found, rfl⟩
  · refine .inl ⟨userdata, ?_⟩
    rw [if_neg userdata] at paid
    split at paid
    · cases paid; exact copyFixed_spec ..
    · split at paid
      · cases paid; exact copyFixed_spec ..
      · split at paid
        · cases paid; exact copyString_spec ..
        · split at paid
          · cases paid; exact copyFixed_spec ..
          · cases paid
            exact ⟨fun w member => (List.not_mem_nil member).elim, Nat.zero_le _⟩

theorem copyPayload_oops {mem : Memory} {r : LunatikResult} {rData rSize : Nat}
    {faults : UserFaults} (oops : copyPayload mem r rData rSize faults = none) :
    mem.strlen r.rUserdataType = none := by
  simp only [copyPayload] at oops
  repeat' split at oops
  all_goals simp_all

theorem copyPayload_size_le {mem : Memory} {r : LunatikResult} {rData rSize : Nat}
    {faults : UserFaults} {payload : Payload}
    (paid : copyPayload mem r rData rSize faults = some payload) : payload.rSizeKern ≤ rSize := by
  obtain ⟨-, -, small⟩ | ⟨-, len, -, rfl⟩ := copyPayload_cases paid
  · exact small
  · exact copyUserdata_size_le ..

theorem copyPayload_inWindow_iff {mem : Memory} {r : LunatikResult} {rData rSize : Nat}
    {faults : UserFaults} {payload : Payload} (bound : rSize < sizeModulus)
    (paid : copyPayload mem r rData rSize faults = some payload) :
    WritesInWindow rData rSize payload.writes ↔
      ¬ (r.rType = luaTuserdata ∧
        ∃ len, mem.strlen r.rUserdataType = some len ∧ StepsBack (len + 1) rSize faults) := by
  obtain ⟨other, inside, -⟩ | ⟨userdata, len, found, rfl⟩ := copyPayload_cases paid
  · exact iff_of_true inside (fun steps => other steps.1)
  · rw [copyUserdata_inWindow_iff found rData bound, not_iff_not]
    constructor
    · intro steps
      exact ⟨userdata, len, found, steps⟩
    · rintro ⟨-, len', found', steps⟩
      rw [found, Option.some.injEq] at found'
      exact found' ▸ steps

/-- Every byte stored through `r_data` lies in the window that user space gave, and the
    size stored back is at most its size, exactly when the terminator of the type name
    is not stored in front of the window. -/
theorem copyLunatikResultToUser_inWindow_iff (mem : Memory) (r : LunatikResult)
    (rData rSize : UInt64) (faults : UserFaults) :
    (WritesInWindow rData.toNat rSize.toNat (copyLunatikResultToUser mem r rData rSize faults).writes ∧
      ∀ size, (copyLunatikResultToUser mem r rData rSize faults).storedSize = some size →
        size ≤ rSize.toNat) ↔
      ¬ WritesBeforeWindow mem r rSize faults := by
  unfold copyLunatikResultToUser WritesBeforeWindow
  cases noSize : faults.getSize with
  | true => simp [WritesInWindow]
  | false =>
    cases noType : faults.putType with
    | true => simp [WritesInWindow]
    | false =>
      simp only [Bool.false_eq_true, if_false, true_and]
      cases paid : copyPayload mem r rData.toNat rSize.toNat faults with
      | none => simp [WritesInWindow, copyPayload_oops paid]
      | some payload =>
        have bound : rSize.toNat < sizeModulus := rSize.toNat_lt
        have small : ∀ size, (if faults.putSize = true then none else some payload.rSizeKern) =
          some size →
            size ≤ rSize.toNat := by
          intro size stored
          split at stored
          · cases stored
          · cases stored
            exact copyPayload_size_le paid
        rw [copyPayload_inWindow_iff bound paid, and_iff_left small]

/-- A userdata without type name, returned to a caller that offers no room. -/
def anonymousUserdata : LunatikResult := ⟨8192, luaTuserdata, 8224, 16, 8240⟩

theorem empty_window_is_overrun :
    ¬ WritesInWindow 4096 0
      (copyLunatikResultToUser (Memory.empty.store 8240 [0]) anonymousUserdata 4096 0
        ⟨false, false, false, 0, false, 0, false⟩).writes := by
  intro inside
  obtain ⟨k, none, -⟩ := inside (4095, 0) (by decide)
  omega

end Lunatik.Verified
