import Lunatik.Verified.SubmittedBytes

/-! # The lexer stops at the end of its input

The parser may ask for tokens as often and in whatever order it likes: `zgetc` delivers `EOZ` at most once,
and no loop of the lexer takes more rounds than there are characters.
-/

namespace Lunatik.Verified

open Lunatik.Kernel Lunatik.Lua Lunatik.Core Lunatik.Library

/-- Nothing was read outside of the buffer.  If `EOZ` has been delivered, it was delivered once, and one more
`zgetc` would read behind the buffer. -/
structure StopsAtEnd (size : Nat) (ls : LexState) : Prop where
  noNull : ls.z.nullRead = false
  within : ∀ r ∈ ls.z.reads, r.1 + r.2 ≤ size
  once : ls.current = none → ls.z.n = sizeModulus - 1
  limit : ls.current = none → ls.z.zgetc.2.nullRead = true ∨ (size, 1) ∈ ls.z.zgetc.2.reads

theorem LexInv.stopsAtEnd {code : Nat → UInt8} {S : Nat} {first : List (Nat × Nat)} {r : Nat} {ls : LexState}
    (h : LexInv code S first r ls) : StopsAtEnd S ls where
  noNull := h.reads.noNull
  within := h.reads.within
  once := fun eoz => (h.exhausted eoz).1
  limit := fun eoz => (h.exhausted eoz).zgetc

-- the calls of the parser, on what `f_parser` has looked at
def lexerRun (code : Nat → UInt8) (size fuel : Nat) (calls : List LexCall) :
    EStateM.Result LexError LexState PUnit :=
  let (_, z) := (Zio.luaZInit code size).luaZLookahead
  (do luaXSetinput z; lexCalls fuel calls : LexM PUnit) (blankLexState z)

/-- Whatever the parser asks for, the lexer stops at the end of its input, and in as many rounds as there are
bytes it is done. -/
theorem lexer_stops_at_end (code : Nat → UInt8) (size : UInt64) (calls : List LexCall) (more : Nat) :
    match lexerRun code size.toNat (size.toNat + 1 + more) calls with
    | .ok _ ls => StopsAtEnd size.toNat ls
    | .error e ls => StopsAtEnd size.toNat ls ∧ e ≠ .outOfFuel := by
  have small : size.toNat < sizeModulus := size.toNat_lt
  have start := lookahead_at code size.toNat
  have run := lexer_run small (size.toNat + 1 + more) calls start
    (blankLexState (Zio.luaZInit code size.toNat).luaZLookahead.2) trivial
  have same : lexerRun code size.toNat (size.toNat + 1 + more) calls =
      (do luaXSetinput (Zio.luaZInit code size.toNat).luaZLookahead.2
          lexCalls (size.toNat + 1 + more) calls : LexM PUnit)
        (blankLexState (Zio.luaZInit code size.toNat).luaZLookahead.2) := rfl
  rw [same]
  split at run
  next ran =>
    rw [ran]
    exact run.stopsAtEnd
  next ran =>
    rw [ran]
    exact ⟨run.1.stopsAtEnd, fun out => by have := run.2 out; omega⟩

end Lunatik.Verified
