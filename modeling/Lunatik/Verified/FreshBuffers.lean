import Lunatik.Core.Buffer

/-! # What a script can see of the memory it was given

Two runs of one script over different stale memory stay alike as long as the script reads only
bytes that were stored: their memories have the same blocks and agree wherever something was
written.  What `lunatik_result_get` and the copy to user space read, they have stored themselves.
-/

namespace Lunatik.Verified

open Lunatik.Core Lunatik.Kernel Lunatik.Lua

/-! ## Memories with the same blocks -/

structure SameBlocks (m₁ m₂ : Memory) : Prop where
  brk : m₁.brk = m₂.brk
  null₁ : m₁.byte null = none
  null₂ : m₂.byte null = none

namespace SameBlocks

variable {m₁ m₂ : Memory}

theorem kmalloc_fst (same : SameBlocks m₁ m₂) (size : Nat) (granted : Bool) :
    (m₂.kmalloc size granted).1 = (m₁.kmalloc size granted).1 := by
  simp only [Memory.kmalloc, same.brk]
  split
  · rfl
  · split <;> rfl

theorem kmalloc_null (m : Memory) (hole : m.byte null = none) (size : Nat) (granted : Bool) :
    (m.kmalloc size granted).2.byte null = none := by
  have above := m.low
  unfold Memory.kmalloc
  split
  · exact hole
  · split
    · have : ¬ (m.brk ≤ null ∧ null < m.brk + size) := by
        rw [null]
        omega
      simp only [this, if_false]
      exact hole
    · exact hole

theorem kmalloc (same : SameBlocks m₁ m₂) (size : Nat) (granted : Bool) :
    SameBlocks (m₁.kmalloc size granted).2 (m₂.kmalloc size granted).2 := by
  refine ⟨?_, kmalloc_null m₁ same.null₁ size granted, kmalloc_null m₂ same.null₂ size granted⟩
  simp only [Memory.kmalloc, same.brk]
  split
  · exact same.brk
  · split
    · rfl
    · exact same.brk

theorem store_null (m : Memory) (hole : m.byte null = none) {p : Nat} (pointer : p ≠ null)
    (bytes : List UInt8) :
    (m.store p bytes).byte null = none := by
  have : ¬ (p ≤ null ∧ null < p + bytes.length) := by
    rw [null] at pointer ⊢
    omega
  simp only [Memory.store, this, if_false]
  exact hole

theorem store (same : SameBlocks m₁ m₂) {p : Nat} (pointer : p ≠ null) (bytes : List UInt8) :
    SameBlocks (m₁.store p bytes) (m₂.store p bytes) :=
  ⟨same.brk, store_null m₁ same.null₁ pointer bytes, store_null m₂ same.null₂ pointer bytes⟩

theorem kfree_byte (m : Memory) (p : Nat) : (m.kfree p).byte = m.byte ∧
    (m.kfree p).brk = m.brk := by
  unfold Memory.kfree
  split <;> exact ⟨rfl, rfl⟩

theorem kfree (same : SameBlocks m₁ m₂) (p : Nat) : SameBlocks (m₁.kfree p) (m₂.kfree p) := by
  obtain ⟨byte₁, brk₁⟩ := kfree_byte m₁ p
  obtain ⟨byte₂, brk₂⟩ := kfree_byte m₂ p
  exact ⟨by rw [brk₁, brk₂, same.brk], by rw [byte₁, same.null₁], by rw [byte₂, same.null₂]⟩

/-- One request on both sides: the same answer, and memories alike again. -/
theorem kmalloc_both (same : SameBlocks m₁ m₂) (size : Nat) (granted : Bool) :
    ∃ p n₁ n₂, m₁.kmalloc size granted = (p, n₁) ∧ m₂.kmalloc size granted = (p, n₂) ∧
      SameBlocks n₁ n₂ ∧
      (p ≠ null → p + size ≤ n₁.brk) ∧ (size ≠ 0 → p ≠ null → p = m₁.brk) := by
  refine ⟨(m₁.kmalloc size granted).1, (m₁.kmalloc size granted).2, (m₂.kmalloc size granted).2,
    rfl, ?_, same.kmalloc size granted, Memory.kmalloc_below m₁ size granted, ?_⟩
  · exact Prod.ext (same.kmalloc_fst size granted) rfl
  · intro nonempty answered
    cases granted with
    | true => exact (Memory.kmalloc_granted m₁ nonempty).1
    | false => exact absurd (Memory.kmalloc_refused m₁ nonempty) answered

end SameBlocks

theorem readBytes_of_holds {m₁ m₂ : Memory} {p : Nat} {bytes : List UInt8}
    (held₁ : m₁.Holds p bytes) (held₂ : m₂.Holds p bytes) {n : Nat} (bound : n ≤ bytes.length) :
    m₁.readBytes p n = m₂.readBytes p n := by
  have same : ∀ i, i < n → m₁.byte (p + i) = m₂.byte (p + i) := by
    intro i less
    rw [held₁.2 i (by omega), held₂.2 i (by omega)]
  clear held₁ held₂ bound
  induction n generalizing p with
  | zero => rfl
  | succ n ih =>
    have first := same 0 (Nat.zero_lt_succ n)
    rw [Nat.add_zero] at first
    have rest := ih (p := p + 1) fun i less => by
      have := same (i + 1) (by omega)
      rwa [show p + 1 + i = p + (i + 1) by omega]
    simp only [Memory.readBytes, first, rest]

theorem readBytes_null {m : Memory} (hole : m.byte null = none) (n : Nat) :
    m.readBytes null n = [] := by
  cases n with
  | zero => rfl
  | succ n => simp only [Memory.readBytes, hole]

theorem strlen_eq (m : Memory) (p : Nat) : ∃ fuel, m.strlen p = m.strlenWithin (fuel + 1) p :=
  ⟨sizeModulus - 1, by rw [Memory.strlen, show sizeModulus - 1 + 1 = sizeModulus from rfl]⟩

theorem strlen_null {m : Memory} (hole : m.byte null = none) : m.strlen null = none := by
  obtain ⟨fuel, eq⟩ := strlen_eq m null
  rw [eq, Memory.strlenWithin, hole]

theorem strlen_of_zero {m : Memory} {p : Nat} (zero : m.byte p = some 0) : m.strlen p = some 0 := by
  obtain ⟨fuel, eq⟩ := strlen_eq m p
  rw [eq, Memory.strlenWithin, zero]
  rfl

/-! ## The copy to user space -/

section Copy
variable {m₁ m₂ : Memory} (rData rSize : Nat) (faults : UserFaults)

theorem copyToUser_congr {src n : Nat} (same : m₁.readBytes src n = m₂.readBytes src n)
    (dst left : Nat) :
    copyToUser m₁ dst src n left = copyToUser m₂ dst src n left := by
  rw [copyToUser, copyToUser, same]

theorem copyString_alike {r : LunatikResult} {s : List UInt8}
    (held₁ : m₁.Holds r.rString (s ++ [0])) (held₂ : m₂.Holds r.rString (s ++ [0]))
    (size : r.rStringSize = s.length) :
    copyString m₁ r rData rSize faults = copyString m₂ r rData rSize faults := by
  have bound : min rSize (wrap (r.rStringSize + 1)) ≤ (s ++ [0]).length := by
    have : wrap (s.length + 1) ≤ s.length + 1 := Nat.mod_le _ _
    rw [size, List.length_append, List.length_singleton]
    omega
  rw [copyString, copyString, copyToUser_congr (readBytes_of_holds held₁ held₂ bound)]

theorem copyString_null {r : LunatikResult} (same : SameBlocks m₁ m₂) (refused : r.rString = null) :
    copyString m₁ r rData rSize faults = copyString m₂ r rData rSize faults := by
  have nothing : ∀ n, m₁.readBytes r.rString n = m₂.readBytes r.rString n := by
    intro n
    rw [refused, readBytes_null same.null₁, readBytes_null same.null₂]
  rw [copyString, copyString, copyToUser_congr (nothing _)]

theorem copyUserdata_alike {r : LunatikResult} {name bytes : List UInt8} {typeLen : Nat}
    (name₁ : m₁.Holds r.rUserdataType name) (name₂ : m₂.Holds r.rUserdataType name)
    (bytes₁ : m₁.Holds r.rUserdata bytes) (bytes₂ : m₂.Holds r.rUserdata bytes)
    (within : typeLen ≤ name.length) (size : r.rUserdataSize = bytes.length) :
    copyUserdata m₁ r typeLen rData rSize faults =
      copyUserdata m₂ r typeLen rData rSize faults := by
  have nameBound : min rSize typeLen ≤ name.length := by omega
  have bytesBound : min (rSize - typeLen) r.rUserdataSize ≤ bytes.length := by omega
  have sameName := copyToUser_congr (readBytes_of_holds name₁ name₂ nameBound)
  have sameBytes := copyToUser_congr (readBytes_of_holds bytes₁ bytes₂ bytesBound)
  simp only [copyUserdata, sameName, sameBytes]

end Copy

/-- What `sys_lua` does after `lunatik_result_get`. -/
def viewOf (env : ScriptEnv) : ResultOutcome → SysView
  | .wildRead => .wildRead
  | .returned r ret mem =>
    .returned ret (r.map fun r => copyLunatikResultToUser mem r env.rData env.rSize env.faults)

theorem sysView_eq (env : ScriptEnv) (ended : Finished) :
    sysView env ended =
      viewOf env (lunatikResultGet ended.st.heap ended.v env.allocs env.stackWord ended.status ended.st.mem) := rfl

section Views
variable {m₁ m₂ : Memory} (env : ScriptEnv)

theorem viewOf_congr {r : LunatikResult} (ret : Int)
    (same : copyPayload m₁ r env.rData.toNat env.rSize.toNat env.faults =
      copyPayload m₂ r env.rData.toNat env.rSize.toNat env.faults) :
    viewOf env (.returned (some r) ret m₁) = viewOf env (.returned (some r) ret m₂) := by
  simp only [viewOf, Option.map_some, copyLunatikResultToUser, same]

theorem copyPayload_string {m : Memory} {r : LunatikResult} (type : r.rType = luaTstring)
    (rData rSize : Nat) (faults : UserFaults) :
    copyPayload m r rData rSize faults = some (copyString m r rData rSize faults) := by
  simp only [copyPayload, type]
  rfl

theorem copyPayload_plain (m₁ m₂ : Memory) {r : LunatikResult} (noString : r.rType ≠ luaTstring)
    (noUserdata : r.rType ≠ luaTuserdata) (rData rSize : Nat) (faults : UserFaults) :
    copyPayload m₁ r rData rSize faults = copyPayload m₂ r rData rSize faults := by
  simp only [copyPayload, noString, noUserdata, if_false]

theorem copyPayload_userdata {m : Memory} {r : LunatikResult} (type : r.rType = luaTuserdata)
    (rData rSize : Nat) (faults : UserFaults) :
    copyPayload m r rData rSize faults =
      (m.strlen r.rUserdataType).map fun len => copyUserdata m r (len + 1) rData rSize faults := by
  simp only [copyPayload, type]
  rfl

-- without a name for its type the copy of a userdata is an oops
theorem unnamed_alike (same : SameBlocks m₁ m₂) {r : LunatikResult} (type : r.rType = luaTuserdata)
    (unnamed : r.rUserdataType = null) (ret : Int) :
    viewOf env (.returned (some r) ret m₁) = viewOf env (.returned (some r) ret m₂) := by
  refine viewOf_congr env ret ?_
  rw [copyPayload_userdata type, copyPayload_userdata type, unnamed, strlen_null same.null₁,
    strlen_null same.null₂]
  rfl

/-- The arm for userdata, on two memories and two heaps that show the same bytes. -/
theorem userdata_alike (same : SameBlocks m₁ m₂) {heap₁ heap₂ : Heap} {u r stackWord : Nat}
    (bytes : (heap₁.udata u).bytes = (heap₂.udata u).bytes)
    (plain₁ : luaLGetmetafield heap₁ u "__name" = none)
    (plain₂ : luaLGetmetafield heap₂ u "__name" = none) (allocs : ResultAllocs) (perror : Int) :
    viewOf env (resultOfUserdata heap₁ u allocs stackWord perror r m₁) =
      viewOf env (resultOfUserdata heap₂ u allocs stackWord perror r m₂) := by
  simp only [resultOfUserdata, userdataTypeSource, plain₁, plain₂, ← bytes]
  generalize (heap₁.udata u).bytes = bytes
  obtain ⟨p, n₁, n₂, eq₁, eq₂, sameP, pBelow, -⟩ := same.kmalloc_both bytes.length allocs.userdata
  simp only [eq₁, eq₂]
  split
  · exact unnamed_alike env sameP rfl rfl _
  rename_i pGiven
  obtain ⟨q, k₁, k₂, eq₁, eq₂, sameQ, -, qAt⟩ :=
    (sameP.store pGiven bytes).kmalloc_both (wrap (stackWord + 1)) allocs.userdataType
  simp only [eq₁, eq₂]
  split
  · exact unnamed_alike env (sameQ.kfree p) rfl rfl _
  rename_i qGiven
  split
  · rename_i small
    have small : stackWord ≤ 1 := small
    have request : wrap (stackWord + 1) ≠ 0 := by
      rw [wrap, sizeModulus, Nat.mod_eq_of_lt (by omega)]
      omega
    have below : p + bytes.length ≤ n₁.brk := pBelow pGiven
    have atBrk : q = n₁.brk := qAt request qGiven
    have bytes₁ : (k₁.store q ([0].take stackWord ++ [0])).Holds p bytes := by
      have held :=
        (n₁.store_holds pGiven bytes).kmalloc below (wrap (stackWord + 1)) allocs.userdataType
      rw [eq₁] at held
      exact held.store (atBrk ▸ below)
    have bytes₂ : (k₂.store q ([0].take stackWord ++ [0])).Holds p bytes := by
      have held := (n₂.store_holds pGiven bytes).kmalloc (sameP.brk ▸ below)
        (wrap (stackWord + 1)) allocs.userdataType
      rw [eq₂] at held
      exact held.store (atBrk ▸ below)
    have name₁ := k₁.store_holds qGiven ([0].take stackWord ++ [0])
    have name₂ := k₂.store_holds qGiven ([0].take stackWord ++ [0])
    have nonempty : 0 < ([0].take stackWord ++ [0] : List UInt8).length := by simp
    have first : ([0].take stackWord ++ [0] : List UInt8)[0]? = some 0 := by
      cases stackWord with
      | zero => rfl
      | succ n => rfl
    have length₁ : (k₁.store q ([0].take stackWord ++ [0])).strlen q = some 0 :=
      strlen_of_zero ((name₁.2 0 nonempty).trans first)
    have length₂ : (k₂.store q ([0].take stackWord ++ [0])).strlen q = some 0 :=
      strlen_of_zero ((name₂.2 0 nonempty).trans first)
    refine viewOf_congr env perror ?_
    rw [copyPayload_userdata rfl, copyPayload_userdata rfl]
    show Option.map _ (Memory.strlen _ q) = Option.map _ (Memory.strlen _ q)
    rw [length₁, length₂]
    exact congrArg some (copyUserdata_alike _ _ _ name₁ name₂ bytes₁ bytes₂ nonempty rfl)
  · rfl

/-- Bytes that are not copied do not matter. -/
theorem uncopied_alike (same : SameBlocks m₁ m₂) {heap₁ heap₂ : Heap} {u r stackWord : Nat}
    {allocs : ResultAllocs} (lengths : (heap₁.udata u).bytes.length = (heap₂.udata u).bytes.length)
    (refused : allocs.userdata = false) (plain₁ : luaLGetmetafield heap₁ u "__name" = none)
    (plain₂ : luaLGetmetafield heap₂ u "__name" = none) (perror : Int) :
    viewOf env (resultOfUserdata heap₁ u allocs stackWord perror r m₁) =
      viewOf env (resultOfUserdata heap₂ u allocs stackWord perror r m₂) := by
  by_cases empty : (heap₁.udata u).bytes.length = 0
  · have none₁ := List.length_eq_zero_iff.mp empty
    have none₂ := List.length_eq_zero_iff.mp (lengths ▸ empty)
    exact userdata_alike env same (none₁.trans none₂.symm) plain₁ plain₂ allocs perror
  · obtain ⟨p, n₁, n₂, eq₁, eq₂, sameP, -, -⟩ :=
      same.kmalloc_both (heap₁.udata u).bytes.length allocs.userdata
    have noBlock : p = null := by
      have := Memory.kmalloc_refused m₁ empty
      rwa [← refused, eq₁] at this
    simp only [resultOfUserdata, ← lengths, eq₁, eq₂, noBlock, if_true]
    exact unnamed_alike env sameP rfl rfl _

/-- `lunatik_result_get` and the copy to user space do not look at stale memory. -/
theorem resultGet_alike (same : SameBlocks m₁ m₂) {heap₁ heap₂ : Heap} {v : TValue}
    {allocs : ResultAllocs}
    (lengths : ∀ u, (heap₁.udata u).bytes.length = (heap₂.udata u).bytes.length)
    (bytes : ∀ u, v = .userdata u → allocs.result = true → allocs.userdata = true →
      (heap₁.udata u).bytes = (heap₂.udata u).bytes)
    (plain₁ : ∀ u, luaLGetmetafield heap₁ u "__name" = none) (plain₂ : ∀ u, luaLGetmetafield heap₂ u "__name" = none)
    (stackWord : Nat) (perror : Int) :
    viewOf env (lunatikResultGet heap₁ v allocs stackWord perror m₁) =
      viewOf env (lunatikResultGet heap₂ v allocs stackWord perror m₂) := by
  obtain ⟨r, n₁, n₂, eq₁, eq₂, sameR, -, -⟩ := same.kmalloc_both sizeofResult allocs.result
  simp only [lunatikResultGet, eq₁, eq₂]
  split
  · simp only [viewOf, Option.map_none]
  · rename_i given
    have granted : allocs.result = true := by
      by_contra refused
      have := Memory.kmalloc_refused m₁ (show sizeofResult ≠ 0 by decide)
      rw [← Bool.eq_false_of_not_eq_true refused, eq₁] at this
      exact given this
    cases v with
    | string s =>
      obtain ⟨p, k₁, k₂, eq₁, eq₂, sameP, -, -⟩ := sameR.kmalloc_both (s.length + 1) allocs.string
      simp only [eq₁, eq₂]
      split
      · refine viewOf_congr env _ ?_
        rw [copyPayload_string rfl, copyPayload_string rfl, copyString_null _ _ _ sameP rfl]
      · rename_i given
        refine viewOf_congr env _ ?_
        rw [copyPayload_string rfl, copyPayload_string rfl,
          copyString_alike _ _ _ (k₁.store_holds given _) (k₂.store_holds given _) rfl]
    | userdata u =>
      cases copied : allocs.userdata with
      | true => exact userdata_alike env sameR (bytes u rfl granted copied) (plain₁ u) (plain₂ u) allocs perror
      | false => exact uncopied_alike env sameR (lengths u) copied (plain₁ u) (plain₂ u) perror
    | _ =>
      refine viewOf_congr env _ (copyPayload_plain n₁ n₂ ?_ ?_ _ _ _)
      · dsimp only [zeroedResult, ttype]
        decide
      · dsimp only [zeroedResult, ttype]
        decide

end Views

/-! ## Two runs of one script -/

/-- The addresses that an action reads. -/
def readsOf (env : ScriptEnv) (st : ScriptState) : ScriptAction → List Nat
  | .bufIndex b idx =>
    match st.buffers[b]? with
    | some buf => if ScriptState.outOfRange idx buf then [] else [buf.data + idx.toNat]
    | none => []
  | .bufCall b => ((st.buffers[b]?).map addresses).getD []
  | .sha1 b => (((st.buffers[b]?).map addresses).getD []).take 1
  | .finish _ (.userdata b) =>
    if env.allocs.result && env.allocs.userdata then
      ((st.buffers[b]?).map addresses).getD [] else []
  | _ => []
where
  addresses (buf : BufferBlock) : List Nat := (List.range buf.len).map (buf.data + ·)

theorem kmalloc_brk (m : Memory) (size : Nat) (granted : Bool) :
    m.brk ≤ (m.kmalloc size granted).2.brk := by
  unfold Memory.kmalloc
  split
  · exact le_refl _
  · split
    · exact Nat.le_add_right _ _
    · exact le_refl _

theorem kmalloc_byte {m : Memory} {a : Nat} (old : a < m.brk) {size : Nat} {granted : Bool} :
    (m.kmalloc size granted).2.byte a = m.byte a := by
  unfold Memory.kmalloc
  split
  · rfl
  · split
    · have : ¬ (m.brk ≤ a ∧ a < m.brk + size) := by omega
      simp only [this, if_false]
    · rfl

structure Alike (st₁ st₂ : ScriptState) : Prop where
  blocks : SameBlocks st₁.mem st₂.mem
  buffers : st₁.buffers = st₂.buffers
  written : st₁.written = st₂.written
  below : ∀ a ∈ st₁.written, a < st₁.mem.brk
  bytes : ∀ a ∈ st₁.written, st₁.mem.byte a = st₂.mem.byte a
  mapped : ∀ buf ∈ st₁.buffers, null < buf.data ∧ buf.data + buf.len ≤ st₁.mem.brk

theorem alike_start (stale₁ stale₂ : Nat → UInt8) : Alike (.start stale₁) (.start stale₂) :=
  ⟨⟨rfl, rfl, rfl⟩, rfl, rfl, by simp [ScriptState.start], by simp [ScriptState.start],
    by simp [ScriptState.start]⟩

namespace Alike

variable {st₁ st₂ : ScriptState}

theorem load (alike : Alike st₁ st₂) {a : Nat} (stored : a ∈ st₁.written) :
    st₁.load a = st₂.load a := by
  rw [ScriptState.load, ScriptState.load, alike.bytes a stored]

theorem bytesOf (alike : Alike st₁ st₂) {buf : BufferBlock}
    (stored : ∀ a ∈ readsOf.addresses buf, a ∈ st₁.written) :
    st₁.bytesOf buf = st₂.bytesOf buf := by
  refine List.map_congr_left fun i inside => ?_
  exact alike.load (stored _ (List.mem_map.mpr ⟨i, inside, rfl⟩))

theorem kmalloc (alike : Alike st₁ st₂) (size : Nat) (granted : Bool) :
    Alike { st₁ with mem := (st₁.mem.kmalloc size granted).2 }
      { st₂ with mem := (st₂.mem.kmalloc size granted).2 } := by
  have grows := kmalloc_brk st₁.mem size granted
  refine ⟨alike.blocks.kmalloc size granted, alike.buffers, alike.written, ?_, ?_, ?_⟩
  · exact fun a stored => Nat.lt_of_lt_of_le (alike.below a stored) grows
  · intro a stored
    have old := alike.below a stored
    show (st₁.mem.kmalloc size granted).2.byte a = (st₂.mem.kmalloc size granted).2.byte a
    rw [kmalloc_byte old, kmalloc_byte (alike.blocks.brk ▸ old)]
    exact alike.bytes a stored
  · intro buf inside
    obtain ⟨positive, bound⟩ := alike.mapped buf inside
    exact ⟨positive, Nat.le_trans bound grows⟩

theorem store (alike : Alike st₁ st₂) {a : Nat} {bytes : List UInt8} (positive : null < a)
    (bound : a + bytes.length ≤ st₁.mem.brk) : Alike (st₁.store a bytes) (st₂.store a bytes) := by
  refine ⟨alike.blocks.store positive.ne' bytes, alike.buffers, ?_, ?_, ?_, alike.mapped⟩
  · simp only [ScriptState.store, alike.written]
  · intro x stored
    show x < st₁.mem.brk
    simp only [ScriptState.store, List.mem_append, List.mem_map, List.mem_range] at stored
    cases stored with
    | inl new =>
      obtain ⟨i, less, rfl⟩ := new
      omega
    | inr old => exact alike.below x old
  · intro x stored
    simp only [ScriptState.store, Memory.store]
    split
    · rfl
    · rename_i outside
      simp only [ScriptState.store, List.mem_append, List.mem_map, List.mem_range] at stored
      cases stored with
      | inl new =>
        obtain ⟨i, less, rfl⟩ := new
        exact absurd ⟨by omega, by omega⟩ outside
      | inr old => exact alike.bytes x old

/-- `luaS_newudata` gives both runs the same new buffer. -/
theorem luaSNewudata (alike : Alike st₁ st₂) (s : Nat) (granted : Bool) :
    (st₁.luaSNewudata s granted).1 = (st₂.luaSNewudata s granted).1 ∧
      Alike (st₁.luaSNewudata s granted).2 (st₂.luaSNewudata s granted).2 := by
  simp only [ScriptState.luaSNewudata]
  split
  · exact ⟨rfl, alike⟩
  · obtain ⟨u, n₁, n₂, eq₁, eq₂, -, below, -⟩ := alike.blocks.kmalloc_both (s + sizeofUdata) granted
    have grown := alike.kmalloc (s + sizeofUdata) granted
    rw [eq₁, eq₂] at grown
    simp only [eq₁, eq₂]
    split
    · exact ⟨rfl, alike⟩
    · rename_i given
      have inside := below given
      refine ⟨by rw [alike.buffers], ⟨grown.blocks, ?_, grown.written, grown.below,
        grown.bytes, ?_⟩⟩
      · simp only [alike.buffers]
      · intro buf member
        simp only [List.mem_append, List.mem_singleton] at member
        cases member with
        | inl old => exact grown.mapped buf old
        | inr new =>
          rw [new]
          have positive : 0 < sizeofUdata := by decide
          refine ⟨Nat.lt_of_lt_of_le positive (Nat.le_add_left _ _), ?_⟩
          show u + sizeofUdata + s ≤ n₁.brk
          omega

theorem luaSNewudata_made (st : ScriptState) (s : Nat) (granted : Bool) (b : Nat)
    (reply : (st.luaSNewudata s granted).1 = .buffer b) :
    ∃ buf, (st.luaSNewudata s granted).2.buffers[b]? = some buf ∧ buf.len = s := by
  simp only [ScriptState.luaSNewudata] at reply ⊢
  split at reply
  · cases reply
  · rename_i small
    simp only [small, if_false]
    split at reply
    · cases reply
    · rename_i given
      simp only [given, if_false]
      cases reply
      exact ⟨_, List.getElem?_concat_length, rfl⟩

theorem lunatikSha1 (alike : Alike st₁ st₂) (env : ScriptEnv) (n : Nat) {buf : BufferBlock}
    (stored : ∀ a ∈ (readsOf.addresses buf).take 1, a ∈ st₁.written) :
    (st₁.lunatikSha1 env n buf).1 = (st₂.lunatikSha1 env n buf).1 ∧
      Alike (st₁.lunatikSha1 env n buf).2 (st₂.lunatikSha1 env n buf).2 := by
  have sameInput : st₁.hashedBytes buf = st₂.hashedBytes buf := by
    have first : (st₁.bytesOf buf).take 1 = (st₂.bytesOf buf).take 1 := by
      simp only [ScriptState.bytesOf, ← List.map_take]
      refine List.map_congr_left fun i inside => ?_
      refine alike.load (stored _ ?_)
      rw [readsOf.addresses, ← List.map_take]
      exact List.mem_map.mpr ⟨i, inside, rfl⟩
    rw [ScriptState.hashedBytes, ScriptState.hashedBytes, List.take_take, List.take_take,
      Nat.min_comm, ← List.take_take, ← List.take_take, first]
  simp only [ScriptState.lunatikSha1, ← sameInput]
  split
  · obtain ⟨sameReply, alike'⟩ := alike.luaSNewudata 20 (env.granted n)
    have made := luaSNewudata_made st₁ 20 (env.granted n)
    generalize st₁.luaSNewudata 20 (env.granted n) = result₁ at sameReply alike' made
    generalize st₂.luaSNewudata 20 (env.granted n) = result₂ at sameReply alike'
    obtain ⟨reply, st₁'⟩ := result₁
    obtain ⟨reply₂, st₂'⟩ := result₂
    dsimp only at sameReply
    subst sameReply
    cases reply with
    | buffer b =>
      obtain ⟨made, found, len⟩ := made b rfl
      obtain ⟨positive, bound⟩ := alike'.mapped made (List.mem_of_getElem? found)
      have data₁ : st₁'.buffers.getD b ⟨0, 0⟩ = made := by
        rw [List.getD_eq_getElem?_getD, found]
        rfl
      dsimp only
      rw [← alike'.buffers, data₁]
      refine ⟨rfl, alike'.store positive ?_⟩
      rw [List.length_ofFn, ← len]
      exact bound
    | _ => exact ⟨rfl, alike'⟩
  · exact ⟨rfl, alike⟩

/-- One action on both sides: the same reply, and runs alike again. -/
theorem act (alike : Alike st₁ st₂) (env : ScriptEnv) (n : Nat) (action : ScriptAction)
    (stored : ∀ a ∈ readsOf env st₁ action, a ∈ st₁.written) :
    (st₁.act env n action).1 = (st₂.act env n action).1 ∧
      Alike (st₁.act env n action).2 (st₂.act env n action).2 := by
  cases action with
  | bufNew size => exact alike.luaSNewudata size.toNat (env.granted n)
  | bufIndex b idx =>
    simp only [ScriptState.act, readsOf, ← alike.buffers] at stored ⊢
    cases found : st₁.buffers[b]? with
    | none => exact ⟨rfl, alike⟩
    | some buf =>
      simp only [found] at stored
      refine ⟨?_, alike⟩
      simp only [ScriptState.lunatikBufIndex]
      split
      · rfl
      · rename_i inside
        simp only [inside] at stored
        rw [alike.load (stored _ (by simp))]
  | bufNewindex b idx val =>
    simp only [ScriptState.act, ← alike.buffers]
    cases found : st₁.buffers[b]? with
    | none => exact ⟨rfl, alike⟩
    | some buf =>
      simp only [ScriptState.lunatikBufNewindex]
      split
      · exact ⟨rfl, alike⟩
      · rename_i inside
        split
        · exact ⟨rfl, alike⟩
        · obtain ⟨positive, bound⟩ := alike.mapped buf (List.mem_of_getElem? found)
          simp only [ScriptState.outOfRange, Bool.or_eq_true, decide_eq_true_eq, not_or] at inside
          refine ⟨rfl, alike.store (Nat.lt_of_lt_of_le positive (Nat.le_add_right _ _)) ?_⟩
          rw [List.length_singleton]
          omega
  | bufCall b =>
    simp only [ScriptState.act, readsOf, ← alike.buffers] at stored ⊢
    cases found : st₁.buffers[b]? with
    | none => exact ⟨rfl, alike⟩
    | some buf =>
      rw [found] at stored
      have same := alike.bytesOf stored
      refine ⟨?_, alike⟩
      simp only [ScriptState.lunatikBufCall, same]
  | bufLength b =>
    simp only [ScriptState.act, ← alike.buffers]
    cases st₁.buffers[b]? with
    | none => exact ⟨rfl, alike⟩
    | some buf => exact ⟨rfl, alike⟩
  | sha1 b =>
    simp only [ScriptState.act, readsOf, ← alike.buffers] at stored ⊢
    cases found : st₁.buffers[b]? with
    | none => exact ⟨rfl, alike⟩
    | some buf =>
      rw [found] at stored
      exact alike.lunatikSha1 env n stored
  | allocate size =>
    simp only [ScriptState.act]
    have grown := alike.kmalloc size (env.granted n)
    obtain ⟨p, n₁, n₂, eq₁, eq₂, -, -, -⟩ := alike.blocks.kmalloc_both size (env.granted n)
    rw [eq₁, eq₂] at grown
    simp only [eq₁, eq₂]
    split
    · exact ⟨rfl, alike⟩
    · exact ⟨rfl, grown⟩
  | finish status v => exact ⟨rfl, alike⟩

end Alike

/-! ## The system call -/

/-- Along the first `fuel` actions, the script reads only bytes that were stored before. -/
def WritesFirst (env : ScriptEnv) (script : Script) : Nat → ScriptState → List ScriptReply → Prop
  | 0, _, _ => True
  | fuel + 1, st, replies =>
    (∀ a ∈ readsOf env st (script replies), a ∈ st.written) ∧
      (ends (script replies) = true ∨
        WritesFirst env script fuel (st.act env replies.length (script replies)).2
          (replies ++ [(st.act env replies.length (script replies)).1]))
where
  ends : ScriptAction → Bool
    | .finish _ _ => true
    | _ => false

instance decidableWritesFirst (env : ScriptEnv) (script : Script) :
    ∀ (fuel : Nat) (st : ScriptState) (replies : List ScriptReply),
      Decidable (WritesFirst env script fuel st replies)
  | 0, _, _ => .isTrue trivial
  | fuel + 1, _, _ =>
    have := decidableWritesFirst env script fuel
    inferInstanceAs (Decidable (_ ∧ (_ ∨ _)))

theorem heap_plain (st : ScriptState) (u : Nat) : luaLGetmetafield st.heap u "__name" = none := by
  have absent : luaHGet bufferMetatable (.string (literal "__name")) = .nil := by decide +kernel
  simp only [luaLGetmetafield, ScriptState.heap, setAt_same, absent]

theorem sysView_alike (env : ScriptEnv) {st₁ st₂ : ScriptState} (alike : Alike st₁ st₂)
    (status : Int) (v : TValue) (stored : ∀ a ∈ readsOf env st₁ (.finish status v),
      a ∈ st₁.written) :
    sysView env ⟨status, v, st₁⟩ = sysView env ⟨status, v, st₂⟩ := by
  rw [sysView_eq, sysView_eq]
  refine resultGet_alike env alike.blocks ?_ ?_ (heap_plain st₁)
    (heap_plain st₂) env.stackWord status
  · intro u
    simp only [ScriptState.heap, ← alike.buffers]
    cases st₁.buffers[u]? with
    | none => rfl
    | some buf => simp [ScriptState.bytesOf]
  · rintro u rfl result userdata
    simp only [readsOf, result, userdata, Bool.and_self, if_true] at stored
    simp only [ScriptState.heap, ← alike.buffers]
    cases found : st₁.buffers[u]? with
    | none => rfl
    | some buf =>
      rw [found] at stored
      exact alike.bytesOf stored

theorem runScript_alike (env : ScriptEnv) (script : Script) (fuel : Nat) {st₁ st₂ : ScriptState}
    (alike : Alike st₁ st₂) (replies : List ScriptReply)
    (first : WritesFirst env script fuel st₁ replies) :
    (runScript env script fuel st₁ replies).elim .running (sysView env) =
      (runScript env script fuel st₂ replies).elim .running (sysView env) := by
  induction fuel generalizing st₁ st₂ replies with
  | zero => rfl
  | succ fuel ih =>
    obtain ⟨stored, later⟩ := first
    simp only [runScript]
    cases next : script replies with
    | finish status v =>
      rw [next] at stored
      exact sysView_alike env alike status v stored
    | _ =>
      rw [next] at stored later
      obtain ⟨sameReply, alike'⟩ := alike.act env replies.length _ stored
      dsimp only
      rw [← sameReply]
      exact ih alike' _ (later.resolve_left (by simp [WritesFirst.ends]))

def grantingEnv : ScriptEnv where
  granted _ := true
  hashGranted _ := true
  digest _ _ := 0
  allocs := ⟨true, true, true, true⟩
  stackWord := 0
  rData := 4096
  rSize := 64
  faults := ⟨false, false, false, 0, false, 0, false⟩

-- local buf = buffer.new(1); buf[0] = 7; return buf[0]
def storeThenRead : Script
  | [] => .bufNew 1
  | [.buffer b] => .bufNewindex b 0 7
  | [.buffer b, .nothing] => .bufIndex b 0
  | [_, _, .number n] => .finish 0 (.number n)
  | _ => .finish 0 .nil

-- return buffer.new(1)[0]
def readFresh : Script
  | [] => .bufNew 1
  | [.buffer b] => .bufIndex b 0
  | [_, .number n] => .finish 0 (.number n)
  | _ => .finish 0 .nil

-- return buffer.new(1)
def returnFresh : Script
  | [.buffer b] => .finish 0 (.userdata b)
  | _ => .bufNew 1

def SysView.writes : SysView → List (Nat × UInt8)
  | .returned _ (some copied) => copied.writes
  | _ => []

end Lunatik.Verified
