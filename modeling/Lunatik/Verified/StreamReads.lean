import Lunatik.Library.Hoare
import Lunatik.Lua.Lexer
import Lunatik.Lua.Undump

/-! # What a stream lets its readers see

After `EOZ` the counter of a `Zio` has wrapped: one more `zgetc` would read behind the end
of the buffer.  The lexer never asks for it, because every call of `next` comes after a
test of `current` that `EOZ` does not pass.  `Live` is the state in which `next` may be
called, and `LexInv` what every lexer function leaves, an error included.  Both carry a bound on
what is left, which every round of a loop makes smaller, so no loop outlasts its fuel.
-/

namespace Lunatik.Verified

open Lunatik.Kernel Lunatik.Lua Lunatik.Library

-- the buffer, its size, and reads that have happened before
variable {code : Nat → UInt8} {S : Nat} {first : List (Nat × Nat)}

/-! ## The stream -/

structure ReadsOk (code : Nat → UInt8) (S : Nat) (first : List (Nat × Nat)) (z : Zio) : Prop where
  code_eq : z.code = code
  noNull : z.nullRead = false
  within : ∀ r ∈ z.reads, r.1 + r.2 ≤ S
  kept : ∀ r ∈ first, r ∈ z.reads

/-- The stream stands at offset `c`: before the first fill, or inside the buffer. -/
structure ZioAt (code : Nat → UInt8) (S : Nat) (first : List (Nat × Nat)) (c : Nat) (z : Zio) : Prop
    extends ReadsOk code S first z where
  place : (z.p = none ∧ z.n = 0 ∧ z.size = S ∧ c = 0) ∨
    (z.p = some c ∧ z.size = 0 ∧ z.n = S - c ∧ c ≤ S ∧ 0 < S)

theorem luaZInit_at (code : Nat → UInt8) (S : Nat) : ZioAt code S [] 0 (.luaZInit code S) where
  code_eq := rfl
  noNull := rfl
  within := by intro r member; cases member
  kept := by intro r member; cases member
  place := .inl ⟨rfl, rfl, rfl, rfl⟩

theorem ZioAt.offset_le {c : Nat} {z : Zio} (h : ZioAt code S first c z) : c ≤ S := by
  rcases h.place with ⟨_, _, _, start⟩ | ⟨_, _, _, inside, _⟩
  · omega
  · exact inside

-- one more access to the buffer
theorem ReadsOk.logged {z z' : Zio} {r : Nat × Nat} (h : ReadsOk code S first z)
    (fits : r.1 + r.2 ≤ S) (sameCode : z'.code = z.code) (sameNull : z'.nullRead = z.nullRead)
    (log : z'.reads = z.reads ++ [r]) :
    ReadsOk code S first z' where
  code_eq := sameCode.trans h.code_eq
  noNull := sameNull.trans h.noNull
  within := by
    intro r' member
    rw [log] at member
    rcases List.mem_append.mp member with old | new
    · exact h.within r' old
    · rw [List.mem_singleton.mp new]
      exact fits
  kept := by
    intro r' member
    rw [log]
    exact List.mem_append_left _ (h.kept r' member)

theorem readByte_at {c : Nat} {z : Zio} (h : ReadsOk code S first z) (position : z.p = some c)
    (empty : z.size = 0) (left : z.n = S - (c + 1)) (inside : c < S) :
    z.readByte.1 = code c ∧ ZioAt code S first (c + 1) z.readByte.2 := by
  have fits : (c, 1).1 + (c, 1).2 ≤ S := inside
  have log : z.readByte.2.reads = z.reads ++ [(c, 1)] := by simp [Zio.readByte, Zio.peek, position]
  have sameCode : z.readByte.2.code = z.code := by simp [Zio.readByte, Zio.peek, position]
  have sameNull : z.readByte.2.nullRead = z.nullRead := by simp [Zio.readByte, Zio.peek, position]
  constructor
  · simp [Zio.readByte, Zio.peek, position, h.code_eq]
  · refine ⟨h.logged fits sameCode sameNull log, .inr ?_⟩
    simp only [Zio.readByte, Zio.peek, position, Option.map_some]
    exact ⟨trivial, empty, left, inside, by omega⟩

theorem wrap_pred {n : Nat} (positive : 0 < n) (bound : n < sizeModulus) :
    wrap (n + (sizeModulus - 1)) = n - 1 := by
  simp only [wrap, sizeModulus] at *
  omega

/-- Inside the buffer `zgetc` delivers the byte at the offset and moves on. -/
theorem zgetc_at {c : Nat} {z : Zio} (bound : S < sizeModulus) (h : ZioAt code S first c z)
    (inside : c < S) :
    z.zgetc.1 = some (code c) ∧ ZioAt code S first (c + 1) z.zgetc.2 := by
  rcases h.place with ⟨start, none_left, whole, rfl⟩ | ⟨position, empty, left, _, _⟩
  · -- the first call fills: getS hands out the whole buffer
    have notEmpty : ¬ S = 0 := by omega
    simp only [Zio.zgetc, none_left, Nat.lt_irrefl, if_false, Zio.luaZFill, whole, notEmpty]
    have read := readByte_at (z := { z with size := 0, n := S - 1, p := some 0 }) (c := 0)
      ⟨h.code_eq, h.noNull, h.within, h.kept⟩ rfl rfl (by simp) inside
    exact ⟨congrArg some read.1, read.2⟩
  · have more : 0 < z.n := by omega
    simp only [Zio.zgetc, more, if_true]
    have read := readByte_at (z := { z with n := wrap (z.n + (sizeModulus - 1)) }) (c := c)
      ⟨h.code_eq, h.noNull, h.within, h.kept⟩ position empty
      (by rw [wrap_pred more (by omega)]; simp only [left]; omega) inside
    exact ⟨congrArg some read.1, read.2⟩

/-- `zgetc` has delivered `EOZ`, once. -/
def Exhausted (S : Nat) (z : Zio) : Prop := z.n = sizeModulus - 1 ∧ (z.p = none ∨ z.p = some S)

/-- At the end `zgetc` delivers `EOZ` and touches nothing, but its counter wraps. -/
theorem zgetc_end {z : Zio} (h : ZioAt code S first S z) :
    z.zgetc.1 = none ∧ ReadsOk code S first z.zgetc.2 ∧ Exhausted S z.zgetc.2 := by
  have finished : z.n = 0 ∧ z.size = 0 ∧ (z.p = none ∨ z.p = some S) := by
    rcases h.place with ⟨position, none_left, whole, empty⟩ | ⟨position, empty, left, _, _⟩
    · exact ⟨none_left, whole.trans empty, .inl position⟩
    · exact ⟨by omega, empty, .inr position⟩
  obtain ⟨none_left, empty, position⟩ := finished
  simp only [Zio.zgetc, none_left, Nat.lt_irrefl, if_false, Zio.luaZFill, empty, if_true]
  have wrapped : wrap (0 + (sizeModulus - 1)) = sizeModulus - 1 := by decide
  exact ⟨trivial, ⟨h.code_eq, h.noNull, h.within, h.kept⟩, wrapped, position⟩

/-- After that, `zgetc` takes the byte behind the buffer for the next character. -/
theorem Exhausted.zgetc {z : Zio} (h : Exhausted S z) :
    z.zgetc.2.nullRead = true ∨ (S, 1) ∈ z.zgetc.2.reads := by
  have more : 0 < z.n := by
    rw [h.1]
    decide
  rcases h.2 with null | behind
  · exact .inl (by simp [Zio.zgetc, more, Zio.readByte, Zio.peek, null])
  · exact .inr (by simp [Zio.zgetc, more, Zio.readByte, Zio.peek, behind])

theorem luaZLookahead_at {c : Nat} {z : Zio} (h : ZioAt code S first c z) (inside : c < S) :
    z.luaZLookahead.1 = some (code c) ∧ ZioAt code S first c z.luaZLookahead.2 ∧
      0 < z.luaZLookahead.2.n ∧ (c, 1) ∈ z.luaZLookahead.2.reads := by
  have fits : (c, 1).1 + (c, 1).2 ≤ S := inside
  rcases h.place with ⟨start, none_left, whole, rfl⟩ | ⟨position, empty, left, bound, positive⟩
  · have notEmpty : ¬ S = 0 := by omega
    -- luaZ_fill reads the first byte, and it is read again after it was put back
    have filled := readByte_at (z := { z with size := 0, n := S - 1, p := some 0 }) (c := 0)
      ⟨h.code_eq, h.noNull, h.within, h.kept⟩ rfl rfl (by simp) inside
    have again := filled.2.toReadsOk
    simp only [Zio.readByte, Zio.peek, Option.map_some] at again
    simp only [Zio.luaZLookahead, none_left, if_true, Zio.luaZFill, whole, notEmpty, if_false,
      Zio.readByte, Zio.peek, Option.map_some, Nat.zero_add, Nat.sub_self]
    refine ⟨by rw [h.code_eq], ⟨again.logged fits rfl rfl rfl, .inr ?_⟩, by omega, by simp⟩
    exact ⟨rfl, rfl, by simp only; omega, by omega, inside⟩
  · have more : ¬ z.n = 0 := by omega
    simp only [Zio.luaZLookahead, more, if_false, Zio.peek, position]
    refine ⟨by rw [h.code_eq], ⟨h.toReadsOk.logged fits rfl rfl rfl, .inr ?_⟩, by omega, by simp⟩
    exact ⟨rfl, empty, left, bound, positive⟩

theorem luaZLookahead_end {z : Zio} (h : ZioAt code S first S z) : z.luaZLookahead = (none, z) := by
  rcases h.place with ⟨_, none_left, whole, empty⟩ | ⟨_, empty, left, _, _⟩
  · have noMore : z.size = 0 := whole.trans empty
    simp [Zio.luaZLookahead, none_left, Zio.luaZFill, noMore]
  · have noneLeft : z.n = 0 := by omega
    simp [Zio.luaZLookahead, noneLeft, Zio.luaZFill, empty]

/-! ## `luaZ_read` -/

def slice (code : Nat → UInt8) (c m : Nat) : List UInt8 := (List.range m).map fun i => code (c + i)

theorem slice_append (code : Nat → UInt8) (a c m : Nat) :
    slice code a c ++ slice code (a + c) m = slice code a (c + m) := by
  simp only [slice, List.range_add, List.map_append, List.map_map]
  congr 1
  apply List.map_congr_left
  intro i _
  simp [Nat.add_assoc]

@[simp] theorem slice_length (code : Nat → UInt8) (c m : Nat) : (slice code c m).length = m := by
  simp [slice]

theorem copyOut_at {c m : Nat} {z : Zio} (h : ZioAt code S first c z) (filled : 0 < z.n)
    (fits : m ≤ z.n) :
    (z.copyOut m).1 = slice code c m ∧ ZioAt code S first (c + m) (z.copyOut m).2 := by
  rcases h.place with ⟨_, none_left, _, _⟩ | ⟨position, empty, left, bound, positive⟩
  · omega
  · have inside : (c, m).1 + (c, m).2 ≤ S := by simp only; omega
    simp only [Zio.copyOut, position]
    refine ⟨by rw [slice, h.code_eq], h.toReadsOk.logged inside rfl rfl rfl, .inr ?_⟩
    exact ⟨rfl, empty, by simp only; omega, inside, positive⟩

-- the loop stops when nothing is missing and when nothing is left
theorem luaZReadLoop_done {c n : Nat} {z : Zio} (h : ZioAt code S first c z) (done : n = 0 ∨ c = S)
    (rounds : Nat) : Zio.luaZReadLoop rounds n z = ([], n, z) := by
  cases rounds with
  | zero => rfl
  | succ rounds =>
    simp only [Zio.luaZReadLoop]
    split
    next zero => rw [zero]
    next positive =>
      rcases done with zero | rfl
      · exact absurd zero positive
      · rw [luaZLookahead_end h]

/-- `luaZ_read` takes what is left, up to `n` bytes. -/
theorem luaZRead_at {c : Nat} {z : Zio} (h : ZioAt code S first c z) (n : Nat) :
    ∃ z', z.luaZRead n = (slice code c (min n (S - c)), n - min n (S - c), z') ∧
      ZioAt code S first (c + min n (S - c)) z' := by
  have limit := h.offset_le
  by_cases done : n = 0 ∨ c = S
  · have nothing : min n (S - c) = 0 := by omega
    refine ⟨z, ?_, ?_⟩
    · rw [nothing]
      exact luaZReadLoop_done h done n
    · rw [nothing]
      exact h
  · obtain ⟨rounds, rfl⟩ : ∃ rounds, n = rounds + 1 := ⟨n - 1, by omega⟩
    have inside : c < S := by omega
    obtain ⟨got, at', filled, _⟩ := luaZLookahead_at h inside
    generalize look : z.luaZLookahead = looked at got at' filled
    obtain ⟨byte, z'⟩ := looked
    subst got
    have left : z'.n = S - c := by
      rcases at'.place with ⟨_, none_left, _, _⟩ | ⟨_, _, left, _, _⟩
      · exact absurd none_left (Nat.ne_of_gt filled)
      · exact left
    have copied : (if rounds + 1 ≤ z'.n then rounds + 1 else z'.n) = min (rounds + 1) (S - c) := by
      split <;> omega
    obtain ⟨bytes, after⟩ :=
      copyOut_at (m := min (rounds + 1) (S - c)) at' filled (by rw [left]; omega)
    refine ⟨_, ?_, after⟩
    simp only [Zio.luaZRead, Zio.luaZReadLoop, Nat.succ_ne_zero, if_false, look, copied]
    rw [luaZReadLoop_done after (by omega) rounds, bytes, List.append_nil]

/-! ## The lexer -/

def Ready (code : Nat → UInt8) (S : Nat) (first : List (Nat × Nat)) (ls : LexState) : Prop :=
  ls.delivered = slice code 0 ls.delivered.length ∧ ZioAt code S first ls.delivered.length ls.z

-- how many characters there are still, the current one included
def leftOf (S : Nat) (ls : LexState) : Nat :=
  S - ls.delivered.length + if ls.current = none then 0 else 1

structure LexInv (code : Nat → UInt8) (S : Nat) (first : List (Nat × Nat)) (r : Nat) (ls : LexState) :
    Prop where
  delivered_eq : ls.delivered = slice code 0 ls.delivered.length
  bound : ls.delivered.length ≤ S
  reads : ReadsOk code S first ls.z
  more : ls.current ≠ none → ZioAt code S first ls.delivered.length ls.z
  exhausted : ls.current = none → Exhausted S ls.z
  left : leftOf S ls ≤ r

def Live (code : Nat → UInt8) (S : Nat) (first : List (Nat × Nat)) (r : Nat) (ls : LexState) : Prop :=
  LexInv code S first r ls ∧ ls.current ≠ none

variable {r : Nat}

theorem LexInv.mono {ls : LexState} (h : LexInv code S first r ls) {r' : Nat} (le : r ≤ r') :
    LexInv code S first r' ls :=
  ⟨h.delivered_eq, h.bound, h.reads, h.more, h.exhausted, h.left.trans le⟩

theorem Live.ready {ls : LexState} (h : Live code S first (r + 1) ls) :
    Ready code S first ls ∧ S - ls.delivered.length ≤ r := by
  have left := h.1.left
  rw [leftOf, if_neg h.2] at left
  exact ⟨⟨h.1.delivered_eq, h.1.more h.2⟩, Nat.le_of_succ_le_succ left⟩

theorem Live.positive {ls : LexState} (h : Live code S first r ls) : 0 < r := by
  have left := h.1.left
  rw [leftOf, if_neg h.2] at left
  omega

-- after a test that `EOZ` does not pass
theorem live_of_current {ls t : LexState} (h : LexInv code S first r t ∧ t = ls) {c : UInt8}
    (seen : ls.current = some c) : Live code S first r t := by
  obtain ⟨inv, rfl⟩ := h
  exact ⟨inv, by rw [seen]; exact Option.some_ne_none c⟩

theorem live_of_beq {ls t : LexState} (h : LexInv code S first r t ∧ t = ls) {c : UInt8}
    (seen : (ls.current == some c) = true) : Live code S first r t :=
  live_of_current h (eq_of_beq seen)

theorem live_of_newline {ls t : LexState} (h : LexInv code S first r t ∧ t = ls)
    (seen : currIsNewline ls = true) : Live code S first r t := by
  simp only [currIsNewline, Bool.or_eq_true, beq_iff_eq] at seen
  rcases seen with lf | cr
  · exact live_of_current h lf
  · exact live_of_current h cr

theorem live_of_isByte {ls t : LexState} (h : LexInv code S first r t ∧ t = ls) {p : UInt8 → Bool}
    (seen : isByte p ls.current = true) : Live code S first r t := by
  cases found : ls.current with
  | none => simp [isByte, found] at seen
  | some c => exact live_of_current h found

/-- An error is raised; a loop has run out of its rounds only where there was enough left for all of them. -/
def Fails (code : Nat → UInt8) (S : Nat) (first : List (Nat × Nat)) (limit r : Nat) (e : LexError)
    (ls : LexState) : Prop :=
  LexInv code S first r ls ∧ (e = .outOfFuel → limit ≤ r)

theorem Fails.mono {e : LexError} {ls : LexState} {limit limit' r' : Nat}
    (h : Fails code S first limit r e ls) (le : r ≤ r') (limits : limit ≤ r → limit' ≤ r') :
    Fails code S first limit' r' e ls := ⟨h.1.mono le, fun out => limits (h.2 out)⟩

-- a program that any state may start, and one that needs a character and takes it
def Keeps {α : Type} (code : Nat → UInt8) (S : Nat) (first : List (Nat × Nat)) (limit : Nat)
    (m : LexM α) : Prop :=
  ∀ r, Triple (LexInv code S first r) m (fun _ => LexInv code S first r) (Fails code S first limit r)

def Takes {α : Type} (code : Nat → UInt8) (S : Nat) (first : List (Nat × Nat)) (limit : Nat)
    (m : LexM α) : Prop :=
  ∀ r, Triple (Live code S first (r + 1)) m (fun _ => LexInv code S first r)
    (Fails code S first limit (r + 1))

section Rules

variable {α β : Type} {m : LexM α} {f : α → LexM β} {limit limit' : Nat} {P : LexState → Prop}

theorem Keeps.ret (a : α) : Keeps code S first limit (pure a : LexM α) := fun _ => Triple.ret fun _ h => h

theorem Keeps.bind (first' : Keeps code S first limit m) (rest : ∀ a, Keeps code S first limit (f a)) :
    Keeps code S first limit (m >>= f) := fun r => Triple.bind (first' r) fun a => rest a r

/-- Out of rounds. -/
theorem Keeps.out : Keeps code S first 0 (throw .outOfFuel : LexM α) :=
  fun r => Triple.raise fun _ h => ⟨h, fun _ => Nat.zero_le r⟩

theorem Keeps.weaken (keeps : Keeps code S first limit m) (le : limit' ≤ limit) : Keeps code S first limit' m :=
  fun r => (keeps r).errors fun _ _ fails => fails.mono le_rfl le.trans

theorem Takes.weaken (takes : Takes code S first limit m) (le : limit' ≤ limit) : Takes code S first limit' m :=
  fun r => (takes r).errors fun _ _ fails => fails.mono le_rfl le.trans

/-- A round of a loop takes a character, and the other rounds have less left. -/
theorem Takes.round (takes : Takes code S first limit m) (rest : ∀ a, Keeps code S first limit' (f a))
    (le : limit ≤ limit' + 1) : Takes code S first limit (m >>= f) := fun r =>
  Triple.bind (takes r) fun a => (rest a r).errors fun _ _ fails =>
    fails.mono (Nat.le_succ r) fun out => le.trans (Nat.succ_le_succ out)

theorem Takes.bind (takes : Takes code S first limit m) (rest : ∀ a, Keeps code S first limit (f a)) :
    Takes code S first limit (m >>= f) := takes.round rest (Nat.le_succ limit)

/-- After a test that says that there is a character. -/
theorem Takes.tested (takes : Takes code S first limit m) (live : ∀ t, P t → Live code S first r t) :
    Triple P m (fun _ => LexInv code S first r) (Fails code S first limit r) := by
  intro t holds
  obtain ⟨r', rfl⟩ := Nat.exists_eq_succ_of_ne_zero (Nat.ne_of_gt (live t holds).positive)
  exact (takes r').conseq live (fun _ _ inv => inv.mono (Nat.le_succ r')) t holds

theorem Keeps.at (keeps : Keeps code S first limit m) (inv : ∀ t, P t → LexInv code S first r t) :
    Triple P m (fun _ => LexInv code S first r) (Fails code S first limit r) := (keeps r).pre inv

end Rules

theorem next_ready (small : S < sizeModulus) {E : LexError → LexState → Prop} :
    Triple (fun ls => Ready code S first ls ∧ S - ls.delivered.length ≤ r) next
      (fun _ => LexInv code S first r) E := by
  apply Triple.update
  rintro ls ⟨⟨same, here⟩, left⟩
  by_cases inside : ls.delivered.length < S
  · obtain ⟨byte, there⟩ := zgetc_at small here inside
    simp only [byte, Option.toList]
    have longer : (ls.delivered ++ [code ls.delivered.length]).length =
      ls.delivered.length + 1 := by simp
    refine ⟨?_, ?_, there.toReadsOk, ?_, fun none => ?_, ?_⟩
    · have step := slice_append code 0 ls.delivered.length 1
      simp only [slice, List.range_one, List.map_cons, List.map_nil, Nat.add_zero, Nat.zero_add]
        at step same ⊢
      rw [longer, ← step, ← same]
    · rw [longer]
      exact inside
    · intro _
      rw [longer]
      exact there
    · simp at none
    · simp only [leftOf, longer, reduceCtorEq, if_false]
      omega
  · have atEnd : ls.delivered.length = S := by have := here.offset_le; omega
    rw [atEnd] at here
    obtain ⟨eoz, quiet, wrapped⟩ := zgetc_end here
    simp only [eoz, Option.toList, List.append_nil]
    refine ⟨same, Nat.le_of_eq atEnd, quiet, fun more => absurd rfl more, fun _ => wrapped, ?_⟩
    simp only [leftOf, if_true]
    omega

-- the invariant speaks of three fields only
theorem LexInv.frame {ls ls' : LexState} (h : LexInv code S first r ls)
    (current : ls'.current = ls.current) (z : ls'.z = ls.z)
    (delivered : ls'.delivered = ls.delivered) : LexInv code S first r ls' := by
  refine ⟨?_, ?_, ?_, ?_, ?_, ?_⟩
  · rw [delivered]
    exact h.delivered_eq
  · rw [delivered]
    exact h.bound
  · rw [z]
    exact h.reads
  · rw [delivered, z, current]
    exact h.more
  · rw [z, current]
    exact h.exhausted
  · rw [leftOf, delivered, current]
    exact h.left

variable {limit : Nat}

theorem save_live (c : UInt8) {E : LexError → LexState → Prop} :
    Triple (Live code S first r) (save c) (fun _ => Live code S first r) E :=
  Triple.update fun _ live => ⟨live.1.frame rfl rfl rfl, live.2⟩

theorem save_keeps (c : UInt8) : Keeps code S first limit (save c) :=
  fun _ => Triple.update fun _ inv => inv.frame rfl rfl rfl

theorem resetbuffer_keeps : Keeps code S first limit resetbuffer :=
  fun _ => Triple.update fun _ inv => inv.frame rfl rfl rfl

theorem buffreplace_keeps (old new : UInt8) : Keeps code S first limit (buffreplace old new) :=
  fun _ => Triple.update fun _ inv => inv.frame rfl rfl rfl

theorem luaXLexerror_fails {α : Type} (msg : String) (near : LexState → Near)
    {Q : α → LexState → Prop} :
    Triple (LexInv code S first r) (luaXLexerror msg near) Q (Fails code S first limit r) :=
  Triple.get_bind fun _ => Triple.raise fun _ h => ⟨h.1, fun impossible => by cases impossible⟩

theorem luaXLexerror_keeps {α : Type} (msg : String) (near : LexState → Near) :
    Keeps code S first limit (luaXLexerror msg near : LexM α) := fun _ => luaXLexerror_fails msg near

theorem trydecpoint_keeps : Keeps code S first limit trydecpoint := by
  intro r
  apply Triple.get_bind
  intro ls
  refine Triple.bind (R := fun _ => LexInv code S first r) (Triple.update fun _ h =>
    h.1.frame rfl rfl rfl) ?_
  intro _
  apply Triple.bind (buffreplace_keeps _ _ r)
  intro _
  apply Triple.get_bind
  intro ls'
  split
  · exact Triple.ret fun _ h => h.1
  · exact (luaXLexerror_keeps _ _).at fun _ h => h.1

section

variable (small : S < sizeModulus)
include small

theorem next_takes : Takes code S first limit next := fun _ => (next_ready small).pre fun _ live => live.ready

theorem saveAndNext_takes : Takes code S first limit saveAndNext := by
  intro r
  apply Triple.get_bind
  intro ls
  exact Triple.bind ((save_live _).pre fun _ h => h.1) fun _ => next_takes small r

theorem inclinenumber_takes : Takes code S first limit inclinenumber := by
  intro r
  apply Triple.get_bind
  intro ls
  apply Triple.bind ((next_takes small r).pre fun _ h => h.1)
  intro _
  refine Triple.errors ?_ fun _ _ (fails : Fails code S first limit r _ _) =>
    fails.mono (Nat.le_succ r) fun out => Nat.le_succ_of_le out
  apply Triple.get_bind
  intro ls'
  apply Triple.cond_then (R := LexInv code S first r)
  · intro newline
    exact (next_takes small).tested fun _ h => live_of_newline h (Bool.and_elim_left newline)
  · intro _ s h
    exact h.1
  · refine Triple.bind (R := fun _ => LexInv code S first r) (Triple.update fun _ inv =>
      inv.frame rfl rfl rfl) ?_
    intro _
    apply Triple.get_bind
    intro ls''
    apply Triple.cond
    · intro _
      exact (luaXLexerror_keeps _ _).at fun _ h => h.1
    · intro _
      exact Triple.ret fun _ h => h.1

theorem checkNext_keeps (set : List UInt8) : Keeps code S first limit (checkNext set) := by
  intro r
  apply Triple.get_bind
  intro ls
  apply Triple.cond
  · intro found
    apply Triple.bind ((saveAndNext_takes small).tested fun _ h => live_of_isByte h found)
    intro _
    exact Triple.ret fun _ h => h
  · intro _
    exact Triple.ret fun _ h => h.1

theorem saveWhile_keeps (p : UInt8 → Bool) (fuel : Nat) :
    Keeps code S first fuel (saveWhile p fuel) := by
  induction fuel with
  | zero => exact Keeps.out
  | succ fuel ih =>
    intro r
    apply Triple.get_bind
    intro ls
    apply Triple.cond
    · intro found
      exact ((saveAndNext_takes small).round (fun _ => ih) le_rfl).tested fun _ h => live_of_isByte h found
    · intro _
      exact Triple.ret fun _ h => h.1

theorem readNumeral_takes (fuel : Nat) : Takes code S first fuel (readNumeral fuel) := by
  apply Takes.bind (saveAndNext_takes small)
  intro _
  apply Keeps.bind (saveWhile_keeps small _ fuel)
  intro _
  apply Keeps.bind (checkNext_keeps small _)
  intro exponent r
  apply Triple.cond_discard (R := LexInv code S first r)
  · intro _
    exact checkNext_keeps small _ r
  · intro _ _ h
    exact h
  · apply Triple.bind (saveWhile_keeps small _ fuel r)
    intro _
    apply Triple.bind (save_keeps 0 r)
    intro _
    apply Triple.get_bind
    intro ls
    apply Triple.bind ((buffreplace_keeps _ _).at fun _ h => h.1)
    intro _
    apply Triple.get_bind
    intro ls'
    split
    · exact Triple.ret fun _ h => h.1
    · exact Triple.bind (trydecpoint_keeps.at fun _ h => h.1) fun _ => Triple.ret fun _ h => h

theorem countEquals_keeps (fuel count : Nat) : Keeps code S first fuel (countEquals fuel count) := by
  induction fuel generalizing count with
  | zero => exact Keeps.out
  | succ fuel ih =>
    intro r
    apply Triple.get_bind
    intro ls
    apply Triple.cond
    · intro found
      exact ((saveAndNext_takes small).round (fun _ => ih (count + 1)) le_rfl).tested fun _ h =>
        live_of_beq h found
    · intro _
      exact Triple.ret fun _ h => h.1

/-- A nonnegative count says that the second bracket was seen, so there is a character left. -/
theorem skipSep_spec (fuel r : Nat) :
    Triple (Live code S first (r + 1)) (skipSep fuel)
      (fun sep ls => LexInv code S first r ls ∧ (0 ≤ sep → ls.current ≠ none))
        (Fails code S first fuel (r + 1)) := by
  apply Triple.get_bind
  intro ls
  apply Triple.given (φ := ls.current ≠ none)
  · rintro s ⟨live, rfl⟩
    exact live.2
  intro bracket
  apply Triple.bind ((saveAndNext_takes small r).pre fun _ h => h.1)
  intro _
  refine Triple.bind (R := fun _ => LexInv code S first r) ?_ ?_
  · exact (countEquals_keeps small fuel 0 r).errors fun _ _ fails =>
      fails.mono (Nat.le_succ r) fun out => Nat.le_succ_of_le out
  intro count
  apply Triple.get_bind
  intro ls'
  apply Triple.ret
  rintro t ⟨inv, rfl⟩
  refine ⟨inv, ?_⟩
  intro nonneg
  split at nonneg
  next same =>
    rw [eq_of_beq same]
    exact bracket
  next => omega

/-- What follows the bracket, whose level decides. -/
theorem skipSep_bind {α : Type} {fuel limit' : Nat} {f : Int → LexM α} (le : limit ≤ fuel)
    (le' : limit ≤ limit' + 1)
    (rest : ∀ sep r, Triple (fun ls => LexInv code S first r ls ∧ (0 ≤ sep → ls.current ≠ none)) (f sep)
      (fun _ => LexInv code S first r) (Fails code S first limit' r)) :
    Takes code S first limit (skipSep fuel >>= f) := by
  intro r
  refine Triple.bind ((skipSep_spec small fuel r).errors fun _ _ fails => fails.mono le_rfl le.trans) fun sep => ?_
  exact (rest sep r).errors fun _ _ fails =>
    fails.mono (Nat.le_succ r) fun out => le'.trans (Nat.succ_le_succ out)

theorem longStringLoop_keeps (fuel : Nat) (text : Bool) {sep : Int} (level : 0 ≤ sep)
    (rounds : Nat) :
    Keeps code S first (min fuel rounds) (longStringLoop fuel text sep rounds) := by
  induction rounds with
  | zero =>
    rw [Nat.min_zero]
    exact Keeps.out
  | succ rounds ih =>
    have le : min fuel (rounds + 1) ≤ min fuel rounds + 1 := by omega
    have newline : Takes code S first (min fuel (rounds + 1)) (do
        save 10
        inclinenumber
        if !text then resetbuffer
        longStringLoop fuel text sep rounds) := by
      intro r
      apply Triple.bind (save_live 10)
      intro _
      refine (Takes.round (inclinenumber_takes small) ?_ le) r
      intro _ r
      apply Triple.cond_then (R := LexInv code S first r)
      · intro _
        exact resetbuffer_keeps r
      · intro _ _ h
        exact h
      · exact ih r
    intro r
    apply Triple.get_bind
    intro ls
    split
    next => exact (luaXLexerror_keeps _ _).at fun _ h => h.1
    next seen =>
      -- an inner opening bracket
      refine (skipSep_bind small (Nat.min_le_left _ _) le ?_).tested fun _ h => live_of_current h seen
      intro found r
      apply Triple.cond
      · rintro rfl
        apply Triple.bind ((saveAndNext_takes small).tested fun _ h => ⟨h.1, h.2 level⟩)
        intro _
        apply Triple.cond_then (R := LexInv code S first r)
        · intro _
          exact luaXLexerror_fails _ _
        · intro _ _ h
          exact h
        · exact ih r
      · intro _
        exact ih.at fun _ h => h.1
    next seen =>
      refine (skipSep_bind small (Nat.min_le_left _ _) le ?_).tested fun _ h => live_of_current h seen
      intro found r
      apply Triple.cond
      · rintro rfl
        exact (saveAndNext_takes small).tested fun _ h => ⟨h.1, h.2 level⟩
      · intro _
        exact ih.at fun _ h => h.1
    next seen => exact newline.tested fun _ h => live_of_current h seen
    next seen => exact newline.tested fun _ h => live_of_current h seen
    next seen =>
      apply Triple.cond
      · intro _
        exact (Takes.round (saveAndNext_takes small) (fun _ => ih) le).tested fun _ h => live_of_current h seen
      · intro _
        exact (Takes.round (next_takes small) (fun _ => ih) le).tested fun _ h => live_of_current h seen

theorem readLongString_takes (fuel : Nat) (text : Bool) {sep : Int} (level : 0 ≤ sep) :
    Takes code S first fuel (readLongString fuel text sep) := by
  apply Takes.bind (saveAndNext_takes small)
  intro _ r
  apply Triple.get_bind
  intro ls
  apply Triple.cond_then (R := LexInv code S first r)
  · intro newline
    exact (inclinenumber_takes small).tested fun _ h => live_of_newline h newline
  · intro _ _ h
    exact h.1
  · have loop : Keeps code S first fuel (longStringLoop fuel text sep fuel) := by
      simpa using longStringLoop_keeps small fuel text level fuel
    apply Triple.bind (loop r)
    intro _
    apply Triple.get_bind
    intro ls'
    exact Triple.ret fun _ h => h.1

theorem escapeDigits_spec (i c r : Nat) : Triple (Live code S first r) (escapeDigits i c)
    (fun _ => LexInv code S first r) (Fails code S first limit r) := by
  induction i generalizing c r with
  | zero => exact Triple.ret fun _ live => live.1
  | succ i ih =>
    apply Triple.get_bind
    intro ls
    apply Triple.bind ((next_takes small).tested fun _ h => h.1)
    intro _
    apply Triple.get_bind
    intro ls'
    apply Triple.cond
    · intro digit
      exact (ih _ r).pre fun _ h => live_of_isByte h digit
    · intro _
      exact Triple.ret fun _ h => h.1

theorem readEscape_takes : Takes code S first limit readEscape := by
  apply Takes.bind (next_takes small)
  intro _ r
  apply Triple.get_bind
  intro ls
  split
  next => exact Triple.ret fun _ h => h.1
  next c seen =>
    apply Triple.pre (P := Live code S first r) ?_ (fun _ h => live_of_current h seen)
    split
    next => exact Triple.bind (save_live _) fun _ => (next_takes small).tested fun _ live => live
    next =>
      apply Triple.cond
      · intro _
        exact Triple.bind (save_live _) fun _ => (inclinenumber_takes small).tested fun _ live => live
      · intro _
        apply Triple.cond
        · intro _
          apply Triple.bind (escapeDigits_spec small 3 0 r)
          intro value
          apply Triple.cond_then (R := LexInv code S first r)
          · intro _
            exact luaXLexerror_fails _ _
          · intro _ _ h
            exact h
          · exact save_keeps _ r
        · intro _
          exact (saveAndNext_takes small).tested fun _ live => live

theorem stringLoop_live (del : UInt8) (rounds r : Nat) :
    Triple (LexInv code S first r) (stringLoop del rounds) (fun _ => Live code S first r)
      (Fails code S first rounds r) := by
  induction rounds generalizing r with
  | zero => exact Triple.raise fun _ h => ⟨h, fun _ => Nat.zero_le r⟩
  | succ rounds ih =>
    -- a round that takes a character
    have taken {m : LexM PUnit} (takes : Takes code S first (rounds + 1) m) :
        Triple (Live code S first r) (m >>= fun _ => stringLoop del rounds) (fun _ => Live code S first r)
          (Fails code S first (rounds + 1) r) := by
      intro t live
      obtain ⟨r, rfl⟩ := Nat.exists_eq_succ_of_ne_zero (Nat.ne_of_gt live.positive)
      refine Triple.bind (takes r) (fun _ => ?_) t live
      refine ((ih r).conseq (fun _ inv => inv) fun _ _ found => ⟨found.1.mono (Nat.le_succ r), found.2⟩).errors ?_
      exact fun _ _ fails => fails.mono (Nat.le_succ r) Nat.succ_le_succ
    apply Triple.get_bind
    intro ls
    split
    next => exact (luaXLexerror_fails _ _).pre fun _ h => h.1
    next c seen =>
      apply Triple.pre (P := Live code S first r) ?_ (fun _ h => live_of_current h seen)
      apply Triple.cond
      · intro _
        exact Triple.ret fun _ live => live
      · intro _
        apply Triple.cond
        · intro _
          exact (luaXLexerror_fails _ _).pre fun _ live => live.1
        · intro _
          apply Triple.cond
          · intro _
            exact taken (readEscape_takes small)
          · intro _
            exact taken (saveAndNext_takes small)

theorem readString_takes (fuel : Nat) (del : UInt8) : Takes code S first fuel (readString fuel del) := by
  apply Takes.bind (saveAndNext_takes small)
  intro _ r
  apply Triple.bind (stringLoop_live small del fuel r)
  intro _
  apply Triple.bind ((saveAndNext_takes small).tested fun _ live => live)
  intro _
  apply Triple.get_bind
  intro ls
  exact Triple.ret fun _ h => h.1

theorem skipLine_keeps (rounds : Nat) : Keeps code S first rounds (skipLine rounds) := by
  induction rounds with
  | zero => exact Keeps.out
  | succ rounds ih =>
    intro r
    apply Triple.get_bind
    intro ls
    apply Triple.cond
    · intro inLine
      refine ((next_takes small).round (fun _ => ih) le_rfl).tested ?_
      rintro t ⟨inv, rfl⟩
      exact ⟨inv, by simpa using (Bool.and_elim_right inLine)⟩
    · intro _
      exact Triple.ret fun _ h => h.1

theorem skipComment_keeps (fuel : Nat) : Keeps code S first fuel (skipComment fuel) := by
  intro r
  apply Triple.get_bind
  intro ls
  apply Triple.cond
  · intro bracket
    refine (skipSep_bind small le_rfl (Nat.le_succ fuel) ?_).tested fun _ h => live_of_beq h bracket
    intro sep r
    apply Triple.bind (R := fun _ s => LexInv code S first r s ∧ (0 ≤ sep → s.current ≠ none))
    · exact Triple.update fun _ h => ⟨h.1.frame rfl rfl rfl, h.2⟩
    intro _
    apply Triple.cond
    · intro level
      apply Triple.bind ((readLongString_takes small fuel false level).tested fun _ h => ⟨h.1, h.2 level⟩)
      intro _
      exact resetbuffer_keeps r
    · intro _
      exact (skipLine_keeps small fuel).at fun _ h => h.1
  · intro _
    exact (skipLine_keeps small fuel).at fun _ h => h.1

theorem readOperator_takes (c : UInt8) (withEq : Token) :
    Takes code S first limit (readOperator c withEq) := by
  apply Takes.bind (next_takes small)
  intro _ r
  apply Triple.get_bind
  intro ls
  apply Triple.cond
  · intro found
    exact Triple.bind ((next_takes small).tested fun _ h => live_of_beq h found) fun _ =>
      Triple.ret fun _ h => h
  · intro _
    exact Triple.ret fun _ h => h.1

theorem readName_takes (fuel : Nat) : Takes code S first fuel (readName fuel) := by
  apply Takes.bind (saveAndNext_takes small)
  intro _
  apply Keeps.bind (saveWhile_keeps small _ fuel)
  intro _ r
  apply Triple.get_bind
  intro ls
  dsimp only
  split
  · exact Triple.ret fun _ h => h.1
  · exact Triple.ret fun _ h => h.1

theorem llexLoop_keeps (fuel rounds : Nat) : Keeps code S first (min fuel rounds) (llexLoop fuel rounds) := by
  induction rounds with
  | zero =>
    rw [Nat.min_zero]
    exact Keeps.out
  | succ rounds ih =>
    have le : min fuel (rounds + 1) ≤ min fuel rounds + 1 := by omega
    have within : min fuel (rounds + 1) ≤ fuel := Nat.min_le_left _ _
    have newline : Takes code S first (min fuel (rounds + 1)) (do
        inclinenumber
        llexLoop fuel rounds) :=
      Takes.round (inclinenumber_takes small) (fun _ => ih) le
    intro r
    apply Triple.get_bind
    intro ls
    split
    next => exact Triple.ret fun _ h => h.1
    next seen => exact newline.tested fun _ h => live_of_current h seen
    next seen => exact newline.tested fun _ h => live_of_current h seen
    next seen =>
      refine Takes.tested (Takes.round (next_takes small) ?_ le) fun _ h => live_of_current h seen
      intro _ r
      apply Triple.get_bind
      intro ls'
      apply Triple.cond
      · intro dash
        refine Triple.bind (R := fun _ => LexInv code S first r)
          ((next_takes small).tested fun _ h => live_of_beq h dash) fun _ => ?_
        have comment : Keeps code S first (min fuel rounds) (skipComment fuel) :=
          (skipComment_keeps small fuel).weaken (Nat.min_le_left _ _)
        exact Triple.bind (comment r) fun _ => ih r
      · intro _
        exact Triple.ret fun _ h => h.1
    next seen =>
      refine (skipSep_bind small within (Nat.le_succ _) ?_).tested fun _ h => live_of_current h seen
      intro sep r
      apply Triple.cond
      · intro level
        apply Triple.bind (((readLongString_takes small fuel true level).weaken within).tested fun _ h =>
          ⟨h.1, h.2 level⟩)
        intro _
        exact Triple.ret fun _ h => h
      · intro _
        apply Triple.cond
        · intro _
          exact Triple.ret fun _ h => h.1
        · intro _
          exact (luaXLexerror_keeps _ _).at fun _ h => h.1
    next seen => exact (readOperator_takes small _ _).tested fun _ h => live_of_current h seen
    next seen => exact (readOperator_takes small _ _).tested fun _ h => live_of_current h seen
    next seen => exact (readOperator_takes small _ _).tested fun _ h => live_of_current h seen
    next seen => exact (readOperator_takes small _ _).tested fun _ h => live_of_current h seen
    next seen => exact ((readString_takes small fuel _).weaken within).tested fun _ h => live_of_current h seen
    next seen => exact ((readString_takes small fuel _).weaken within).tested fun _ h => live_of_current h seen
    next seen =>
      apply Triple.bind ((saveAndNext_takes small).tested fun _ h => live_of_current h seen)
      intro _
      apply Triple.bind (checkNext_keeps small _ r)
      intro second
      apply Triple.cond
      · intro _
        apply Triple.bind (checkNext_keeps small _ r)
        intro third
        apply Triple.cond
        · intro _
          exact Triple.ret fun _ h => h
        · intro _
          exact Triple.ret fun _ h => h
      · intro _
        apply Triple.get_bind
        intro ls'
        apply Triple.cond
        · intro digit
          exact ((readNumeral_takes small fuel).weaken within).tested fun _ h => live_of_isByte h digit
        · intro _
          exact Triple.ret fun _ h => h.1
    next c seen =>
      apply Triple.pre (P := Live code S first r) ?_ (fun _ h => live_of_current h seen)
      apply Triple.cond
      · intro _
        exact Takes.tested (Takes.round (next_takes small) (fun _ => ih) le) fun _ live => live
      · intro _
        apply Triple.cond
        · intro _
          exact ((readNumeral_takes small fuel).weaken within).tested fun _ live => live
        · intro _
          apply Triple.cond
          · intro _
            exact ((readName_takes small fuel).weaken within).tested fun _ live => live
          · intro _
            exact Takes.tested ((next_takes small).bind fun _ => .ret _) fun _ live => live

theorem llex_keeps (fuel : Nat) : Keeps code S first fuel (llex fuel) := by
  have loop : Keeps code S first fuel (llexLoop fuel fuel) := by simpa using llexLoop_keeps small fuel fuel
  exact resetbuffer_keeps.bind fun _ => loop

theorem lexCall_keeps (fuel : Nat) (call : LexCall) : Keeps code S first fuel (lexCall fuel call) := by
  intro r
  cases call with
  | next =>
    refine Triple.bind (R := fun _ => LexInv code S first r) (Triple.update fun _ inv =>
      inv.frame rfl rfl rfl) ?_
    intro _
    apply Triple.get_bind
    intro ls
    apply Triple.cond
    · intro _
      exact Triple.update fun _ h => h.1.frame rfl rfl rfl
    · intro _
      apply Triple.bind ((llex_keeps small fuel).at fun _ h => h.1)
      intro token
      exact Triple.update fun _ inv => inv.frame rfl rfl rfl
  | lookahead =>
    apply Triple.bind (llex_keeps small fuel r)
    intro token
    exact Triple.update fun _ inv => inv.frame rfl rfl rfl

end

end Lunatik.Verified
