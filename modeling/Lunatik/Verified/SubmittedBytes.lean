import Lunatik.Core.LoadChunk
import Lunatik.Verified.UndumpStream

/-! # The parser sees only the bytes of the caller

The size that reaches `luaL_loadbuffer` is `code_size - 1` in `size_t`.  For every size but
zero it is inside the copied buffer, and everything that is read or delivered lies there.
For size zero it is `SIZE_MAX`, and `f_parser` itself reads behind the buffer.
-/

namespace Lunatik.Verified

open Lunatik.Kernel Lunatik.Lua Lunatik.Core Lunatik.Library

variable {code : Nat → UInt8} {S : Nat} {first : List (Nat × Nat)}

-- no access outside of the buffer, and nothing delivered but its first bytes
structure SeesOnly (code : Nat → UInt8) (size : Nat) (c : Consumed) : Prop where
  noNull : c.z.nullRead = false
  within : ∀ r ∈ c.z.reads, r.1 + r.2 ≤ size
  delivered : c.delivered <+: slice code 0 size

theorem slice_isPrefix (code : Nat → UInt8) {m n : Nat} (h : m ≤ n) :
    slice code 0 m <+: slice code 0 n := by
  have whole := slice_append code 0 m (n - m)
  rw [Nat.add_sub_cancel' h] at whole
  rw [← whole]
  exact List.prefix_append _ _

-- what a load leaves: nothing outside of the first `S` bytes, and the earlier reads
structure Confined (code : Nat → UInt8) (S : Nat) (first : List (Nat × Nat)) (c : Consumed) :
    Prop where
  reads : ReadsOk code S first c.z
  delivered : c.delivered <+: slice code 0 S

theorem Confined.seesOnly {c : Consumed} (h : Confined code S first c) {size : Nat}
    (fits : S ≤ size) :
    SeesOnly code size c where
  noNull := h.reads.noNull
  within := fun r member => Nat.le_trans (h.reads.within r member) fits
  delivered := h.delivered.trans (slice_isPrefix code fits)

/-! ## The two readers -/

theorem lexCalls_keeps (small : S < sizeModulus) (fuel : Nat) (calls : List LexCall) :
    Keeps code S first fuel (lexCalls fuel calls) := by
  induction calls with
  | nil => exact Keeps.ret _
  | cons call calls ih => exact Keeps.bind (lexCall_keeps small fuel call) fun _ => ih

theorem LexInv.confined {r : Nat} {ls : LexState} (h : LexInv code S first r ls) :
    Confined code S first ⟨ls.z, ls.delivered⟩ := by
  refine ⟨h.reads, ?_⟩
  simp only
  rw [h.delivered_eq]
  exact slice_isPrefix code h.bound

/-- From `luaX_setinput` on, whatever the parser asks for. -/
theorem lexer_run (small : S < sizeModulus) (fuel : Nat) (calls : List LexCall) {z : Zio}
    (start : ZioAt code S first 0 z) :
    Triple (fun _ => True) (do luaXSetinput z; lexCalls fuel calls : LexM PUnit)
      (fun _ => LexInv code S first S) (Fails code S first fuel S) := by
  have setinput : Triple (fun _ => True) (luaXSetinput z) (fun _ => LexInv code S first S)
      (Fails code S first fuel S) := by
    apply Triple.bind (R := fun _ ls => Ready code S first ls ∧ S - ls.delivered.length ≤ S)
    · exact Triple.update fun _ _ => ⟨⟨rfl, start⟩, Nat.sub_le _ _⟩
    · intro _
      exact next_ready small
  exact Triple.bind setinput fun _ => lexCalls_keeps small fuel calls S

theorem luaYParserInput_confined (small : S < sizeModulus) (fuel : Nat)
    (calls : List LexCall) {z : Zio} (start : ZioAt code S first 0 z) :
    Confined code S first (luaYParserInput fuel calls z) := by
  have whole := lexer_run small fuel calls start (blankLexState z) trivial
  simp only [luaYParserInput]
  split at whole
  next ran =>
    rw [ran]
    exact whole.confined
  next ran =>
    rw [ran]
    exact whole.1.confined

theorem InStep.confined {s : LoadState} {bytes : List UInt8} (h : InStep code S first s bytes) :
    Confined code S first ⟨s.z, s.delivered⟩ := by
  obtain ⟨c, here, delivered, _⟩ := h
  refine ⟨here.toReadsOk, ?_⟩
  simp only [delivered]
  exact slice_isPrefix code here.offset_le

theorem luaUUndumpInput_confined {z : Zio} (start : ZioAt code S first 0 z) :
    Confined code S first (luaUUndumpInput z) := by
  have related : InStep code S first ⟨z, []⟩ (slice code 0 S) := ⟨0, start, rfl, rfl⟩
  have after := luaUUndump_sim.related_after related
  simp only [luaUUndumpInput]
  split at after
  next ran =>
    rw [ran]
    obtain ⟨_, related'⟩ := after
    exact related'.confined
  next ran =>
    rw [ran]
    obtain ⟨_, related'⟩ := after
    exact related'.confined

/-! ## The load -/

-- the access that `f_parser` makes before it knows what the chunk is
def lookedAt (S : Nat) : List (Nat × Nat) := if S = 0 then [] else [(0, 1)]

/-- `f_parser` leaves the stream at its first byte. -/
theorem lookahead_at (code : Nat → UInt8) (S : Nat) :
    ZioAt code S (lookedAt S) 0 (Zio.luaZInit code S).luaZLookahead.2 := by
  have start := luaZInit_at code S
  by_cases empty : S = 0
  · subst empty
    rw [luaZLookahead_end start]
    exact start
  · rw [lookedAt, if_neg empty]
    obtain ⟨_, at', _, seen⟩ := luaZLookahead_at start (Nat.pos_of_ne_zero empty)
    refine ⟨⟨at'.code_eq, at'.noNull, at'.within, ?_⟩, at'.place⟩
    intro r member
    rw [List.mem_singleton.mp member]
    exact seen

/-- A load keeps inside of the size it was given, and looks at the first byte if there is one. -/
theorem luaLLoadbufferInput_confined (small : S < sizeModulus) (fuel : Nat) (calls : List LexCall)
    (code : Nat → UInt8) :
    Confined code S (lookedAt S) (luaLLoadbufferInput fuel calls code S) := by
  have looked := lookahead_at code S
  simp only [luaLLoadbufferInput, fParserInput]
  split
  · exact luaUUndumpInput_confined looked
  · exact luaYParserInput_confined small fuel calls looked

-- code_size - 1 is SIZE_MAX
theorem zero_size_not_seesOnly (fuel : Nat) (calls : List LexCall) (code : Nat → UInt8) :
    ¬ SeesOnly code 0 (loadcodeInternalInput fuel calls code 0) := by
  intro sees
  have confined := luaLLoadbufferInput_confined (S := sizeModulus - 1) (by decide) fuel calls code
  have touched := confined.reads.kept (0, 1) (by decide)
  have inside := sees.within (0, 1) touched
  omega

/-- Whatever the copied buffer holds, the lexer and the loader see a beginning of it, unless
    the submitted size is zero. -/
theorem loadcodeInternal_seesOnly_iff (fuel : Nat) (calls : List LexCall) (code : Nat → UInt8)
    (codeSize : UInt64) :
    SeesOnly code codeSize.toNat (loadcodeInternalInput fuel calls code codeSize.toNat) ↔
      codeSize ≠ 0 := by
  have small : codeSize.toNat < sizeModulus := codeSize.toNat_lt
  constructor
  · rintro sees rfl
    exact zero_size_not_seesOnly fuel calls code sees
  · intro positive
    have some_bytes : 0 < codeSize.toNat := by
      apply Nat.pos_of_ne_zero
      intro zero
      exact positive (UInt64.toNat_inj.mp zero)
    have confined :=
      luaLLoadbufferInput_confined (S := codeSize.toNat - 1) (by omega) fuel calls code
    rw [loadcodeInternalInput, wrap_pred some_bytes small]
    exact confined.seesOnly (Nat.sub_le _ _)

-- an empty submission: the buffer is `ZERO_SIZE_PTR`, and its first byte is looked at
theorem empty_submission_is_read :
    ¬ SeesOnly (fun _ => 0) (0 : UInt64).toNat
      (loadcodeInternalInput 1 [.next] (fun _ => 0) (0 : UInt64).toNat) :=
  zero_size_not_seesOnly 1 [.next] fun _ => 0

end Lunatik.Verified
