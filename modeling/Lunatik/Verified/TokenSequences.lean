import Lunatik.Core.LoadChunk
import Lunatik.Verified.LexerGrammar

/-! # Repeated calls of `luaX_next`

The tokens that the lexer returns one after the other, each with the text that it leaves unread,
are those of the grammar, until the grammar comes to a text that the lexer misreads.
-/

namespace Lunatik.Verified

open Lunatik.Kernel Lunatik.Lua Lunatik.Lua.LexGrammar Lunatik.Core Lunatik.Library

variable {code : Nat → UInt8} {S : Nat}

/-! ## The run of the lexer -/

-- the bytes that a stream still delivers
def zioBytes : Nat → Zio → List UInt8
  | 0, _ => []
  | rounds + 1, z =>
    match z.zgetc with
    | (none, _) => []
    | (some c, z) => c :: zioBytes rounds z

/-- The text that the lexer has not passed yet. -/
def unread (ls : LexState) : List UInt8 :=
  match ls.current with
  | none => []
  | some c => unifyLineEnds (c :: zioBytes (ls.z.n + ls.z.size) ls.z)

/-- The tokens that `luaX_next` returns, each with the text behind it. -/
def lexTokens (fuel : Nat) : Nat → LexState → List (Token × List UInt8) × Ending
  | 0, _ => ([], .running)
  | rounds + 1, ls =>
    match luaXNext fuel ls with
    | .error .outOfFuel _ => ([], .running)
    | .error (.lexerror _ _ _) _ => ([], .lexicalError)
    | .ok _ ls =>
      if ls.t = .eos then ([(.eos, unread ls)], .eos)
      else
        let (more, ending) := lexTokens fuel rounds ls
        ((ls.t, unread ls) :: more, ending)

/-- All tokens of the buffer, from `luaX_setinput` on. -/
def lexBuffer (fuel rounds : Nat) (code : Nat → UInt8) (size : Nat) :
    List (Token × List UInt8) × Ending :=
  match luaXSetinput (.luaZInit code size) (blankLexState (.luaZInit code size)) with
  | .error _ _ => ([], .lexicalError)
  | .ok _ ls => lexTokens fuel rounds ls

section
variable (small : S < sizeModulus)
include small

theorem zioBytes_at (rounds : Nat) {pos : Nat} {z : Zio} (here : ZioAt code S [] pos z)
    (exact : rounds = S - pos) :
    zioBytes rounds z = slice code pos (S - pos) := by
  induction rounds generalizing pos z with
  | zero =>
    rw [← exact]
    rfl
  | succ rounds ih =>
    have inside : pos < S := by omega
    obtain ⟨byte, there⟩ := zgetc_at small here inside
    have step : zioBytes (rounds + 1) z = code pos :: zioBytes rounds z.zgetc.2 := by
      obtain ⟨read, z', got⟩ : ∃ read z', z.zgetc = (read, z') := ⟨_, _, rfl⟩
      rw [got] at byte ⊢
      obtain rfl : read = some (code pos) := byte
      simp only [zioBytes, got]
    rw [step, ih there (by omega), slice_cons inside]

theorem unread_reached {text : List UInt8} {ls : LexState} (reached : Reached code S text ls) :
    unread ls = text := by
  obtain ⟨buff, view⟩ := reached
  obtain ⟨raw, pending, unified⟩ := view.pending
  rw [unread]
  cases seen : ls.current with
  | none =>
    simp only [Pending, seen] at pending
    rw [← unified, pending]
    rfl
  | some c =>
    simp only [Pending, seen] at pending
    obtain ⟨pos, here, rfl⟩ := pending
    have left : ls.z.n + ls.z.size = S - pos := by
      rcases here.place with ⟨-, none, whole, rfl⟩ | ⟨-, empty, left, -, -⟩ <;> omega
    rw [← unified, zioBytes_at small _ here left]

theorem luaXNext_token (fuel : Nat) {text : List UInt8} (enough : text.length < fuel) :
    Triple (Reached code S text) (luaXNext fuel)
      (fun _ ls => TokenRead code S (lexedAfter text.length text) ls.t ls)
        (NoToken (lexedAfter text.length text)) := by
  refine Triple.exists_pre fun buff => ?_
  refine Triple.bind (R := fun _ => View code S text buff) ?_ fun _ => ?_
  · exact Triple.update fun t view => ⟨view.pending, view.buff_eq, view.decpoint,
      view.lookahead, view.lines⟩
  refine Triple.get_bind fun ls => ?_
  refine Triple.given (φ := ls.lookahead = .eos) ?_ fun none => ?_
  · rintro t ⟨view, rfl⟩
    exact view.lookahead
  refine Triple.pre ?_ fun _ h => h.1
  rw [none, if_neg (by decide)]
  refine Triple.bind (R := TokenRead code S (lexedAfter text.length text)) ?_ fun token => ?_
  · refine Triple.bind resetbuffer_view fun _ => ?_
    exact llexLoop_token small fuel fuel le_rfl text text.length enough le_rfl
  · refine Triple.update ?_
    rintro t ⟨rest, found, buff, view⟩
    exact ⟨rest, found, buff, view.pending, view.buff_eq, view.decpoint, view.lookahead, view.lines⟩

theorem setinput_reached (lines : (unifyLineEnds (slice code 0 S)).count 10 + 1 < maxInt)
    (ls : LexState) :
    ∃ ls', luaXSetinput (.luaZInit code S) ls = .ok ⟨⟩ ls' ∧
      Reached code S (unifyLineEnds (slice code 0 S)) ls' := by
  refine ⟨_, rfl, [], ⟨slice code 0 S, ?_, rfl⟩, rfl, rfl, rfl, ?_⟩
  · have start := luaZInit_at code S
    by_cases empty : S = 0
    · subst empty
      rfl
    · obtain ⟨byte, there⟩ := zgetc_at small start (by omega)
      simp only [Pending, byte]
      have whole : slice code 0 S = code 0 :: slice code 1 (S - 1) := slice_cons (by omega)
      exact ⟨1, there, whole⟩
  · rw [Nat.add_comm]
    exact lines

end

/-! ## Every token takes a part of the text -/

theorem quoted_shorter {del : UInt8} {n : Nat} {text s rest : List UInt8}
    (found : quoted del n text = some (s, rest)) :
    rest.length < text.length := by
  induction n generalizing text s with
  | zero => cases found
  | succ n ih =>
    cases text with
    | nil => cases found
    | cons c text =>
      rw [quoted] at found
      rw [List.length_cons]
      split at found
      · simp only [Option.some.injEq, Prod.mk.injEq] at found
        rw [← found.2]
        exact Nat.lt_succ_self _
      · split at found
        · cases found
        · split at found
          · obtain ⟨⟨e, behind⟩, escape, more⟩ := Option.bind_eq_some_iff.mp found
            obtain ⟨⟨s', rest'⟩, inner, same⟩ := Option.map_eq_some_iff.mp more
            obtain ⟨-, rfl⟩ := Prod.mk.inj same
            have shorter := escaped_shorter escape
            have shorter' := ih inner
            omega
          · obtain ⟨⟨s', rest'⟩, inner, same⟩ := Option.map_eq_some_iff.mp found
            obtain ⟨-, rfl⟩ := Prod.mk.inj same
            have shorter := ih inner
            omega

theorem numeral_shorter {text rest : List UInt8} {t : Token}
    (found : numeral text = some (t, rest)) :
    rest.length < text.length := by
  obtain ⟨n, value, same⟩ := Option.map_eq_some_iff.mp found
  obtain ⟨-, rfl⟩ := Prod.mk.inj same
  have some' : text.take (numeralLength text) ≠ [] := by
    intro none
    rw [none] at value
    cases value
  rw [List.length_drop]
  cases text with
  | nil => simp at some'
  | cons c text =>
    cases count : numeralLength (c :: text) with
    | zero => simp [count] at some'
    | succ m =>
      rw [List.length_cons]
      omega

-- a token that was read whole, and the text behind it
theorem shorter_of_some {text rest rest' : List UInt8} {t t' : Token}
    (found : some (t', rest') = some (t, rest)) (shorter : rest'.length < text.length) :
    rest.length < text.length := by
  obtain ⟨-, rfl⟩ := Prod.mk.inj (Option.some.inj found)
  exact shorter

theorem shorter_of_string {text rest : List UInt8} {t : Token}
    {string : Option (List UInt8 × List UInt8)}
    (found : (string.map fun (s, rest) => (Token.string s, rest)) = some (t, rest))
    (shorter : ∀ s rest, string = some (s, rest) → rest.length < text.length) :
    rest.length < text.length := by
  obtain ⟨⟨s, rest'⟩, inner, same⟩ := Option.map_eq_some_iff.mp found
  obtain ⟨-, rfl⟩ := Prod.mk.inj same
  exact shorter s rest' inner

theorem lexeme_shorter {text rest : List UInt8} {t : Token} (found : lexeme text = some (t, rest))
    (more : t ≠ .eos) :
    rest.length < text.length := by
  rw [lexeme.eq_def] at found
  split at found
  next =>
    simp only [Option.some.injEq, Prod.mk.injEq] at found
    exact absurd found.1.symm more
  next => exact shorter_of_some found (by simp only [List.length_cons]; omega)
  next => exact shorter_of_some found (by simp only [List.length_cons]; omega)
  next => exact shorter_of_some found (by simp only [List.length_cons]; omega)
  next => exact shorter_of_some found (by simp only [List.length_cons]; omega)
  next => exact shorter_of_some found (by simp only [List.length_cons]; omega)
  next => exact shorter_of_some found (by simp only [List.length_cons]; omega)
  next =>
    split at found
    · exact numeral_shorter found
    · exact shorter_of_some found (by simp only [List.length_cons]; omega)
  next text =>
    split at found
    next level body opened =>
      have shorter := longOpen_shorter opened
      exact shorter_of_string found fun s rest closed =>
        Nat.lt_of_lt_of_le (longBracket_shorter closed) shorter
    next =>
      split at found
      · cases found
      · exact shorter_of_some found (by simp only [List.length_cons]; omega)
  next => exact shorter_of_string found fun s rest inner => Nat.lt_succ_of_lt (quoted_shorter inner)
  next => exact shorter_of_string found fun s rest inner => Nat.lt_succ_of_lt (quoted_shorter inner)
  next c text _ _ _ _ _ _ _ _ _ _ =>
    split at found
    · exact numeral_shorter found
    · split at found
      · have shorter := (List.dropWhile_suffix (p := isNameChar) (l := text)).length_le
        exact shorter_of_some found (Nat.lt_succ_of_le shorter)
      · exact shorter_of_some found (by simp only [List.length_cons]; omega)

theorem skipBlanks_shorter {n : Nat} {text rest : List UInt8}
    (found : skipBlanks n text = some rest) :
    rest.length ≤ text.length := by
  induction n generalizing text with
  | zero =>
    obtain rfl := Option.some.inj found
    exact le_rfl
  | succ n ih =>
    rw [skipBlanks.eq_def] at found
    split at found
    next impossible => cases impossible
    next =>
      obtain rfl := Option.some.inj found
      exact le_rfl
    next rounds text same =>
      obtain rfl := Nat.succ.inj same
      obtain ⟨behind, comment, found⟩ := Option.bind_eq_some_iff.mp found
      have shorter := afterComment_shorter comment
      have shorter' := ih found
      simp only [List.length_cons]
      omega
    next rounds c text _ same =>
      obtain rfl := Nat.succ.inj same
      split at found
      · exact Nat.le_succ_of_le (ih found)
      · obtain rfl := Option.some.inj found
        exact le_rfl

theorem token_shorter {text rest : List UInt8} {t : Token} (found : token text = some (t, rest))
    (more : t ≠ .eos) :
    rest.length < text.length := by
  obtain ⟨start, skipped, found⟩ := Option.bind_eq_some_iff.mp found
  have shorter := skipBlanks_shorter skipped
  have shorter' := lexeme_shorter found more
  omega

/-! ## The sequence of tokens -/

/-- The next token starts with a text that the lexer misreads. -/
def MisreadNext (text : List UInt8) : Prop := ∃ start ∈ skipBlanks text.length text, Misread start
  deriving Decidable

theorem lexedAfter_eq_iff (text : List UInt8) :
    lexedAfter text.length text = token text ↔ ¬ MisreadNext text := by
  rw [lexedAfter, token, MisreadNext]
  cases skipBlanks text.length text with
  | none => simp
  | some start =>
    rw [Option.bind_some, Option.bind_some, lexed_eq_iff]
    simp

theorem head_tokens (rounds : Nat) (text : List UInt8) :
    (tokens (rounds + 1) text).1.head? = token text := by
  rw [tokens]
  split
  next none => rw [none]; rfl
  next rest found => rw [found]; rfl
  next t rest notEos found => rw [found]; rfl

theorem tokens_more (rounds : Nat) {text rest : List UInt8} {t : Token}
    (found : token text = some (t, rest)) (more : t ≠ .eos) :
    tokens (rounds + 1) text = ((t, rest) :: (tokens rounds rest).1, (tokens rounds rest).2) ∧
      boundaries (rounds + 1) text = text :: boundaries rounds rest := by
  rw [tokens, boundaries, found]
  cases t <;> first | exact absurd rfl more | exact ⟨rfl, rfl⟩

theorem unifyLineEnds_length (raw : List UInt8) : (unifyLineEnds raw).length ≤ raw.length := by
  fun_induction unifyLineEnds raw with
  | case1 => exact le_rfl
  | case2 => exact le_rfl
  | case3 c d cs newline pair ih =>
    simp only [List.length_cons]
    omega
  | case4 c d cs newline single ih =>
    simp only [List.length_cons] at ih ⊢
    omega
  | case5 c d cs plain ih =>
    simp only [List.length_cons] at ih ⊢
    omega

theorem tokens_ends (rounds : Nat) (text : List UInt8) (left : text.length < rounds) :
    (tokens rounds text).2 ≠ .running := by
  induction rounds generalizing text with
  | zero => omega
  | succ rounds ih =>
    rw [tokens]
    split
    next => simp
    next => simp
    next t rest notEos found =>
      have shorter := token_shorter found notEos
      exact ih rest (by omega)

section
variable (small : S < sizeModulus)
include small

-- one call of luaX_next
theorem lexTokens_step (fuel rounds : Nat) {text : List UInt8} {ls : LexState}
    (reached : Reached code S text ls) (enough : text.length < fuel) :
    (lexedAfter text.length text = none ∧ lexTokens fuel (rounds + 1) ls = ([], .lexicalError)) ∨
      ∃ rest ls', Reached code S rest ls' ∧ lexedAfter text.length text = some (ls'.t, rest) ∧
        lexTokens fuel (rounds + 1) ls =
          if ls'.t = .eos then ([(.eos, rest)], .eos)
          else ((ls'.t, rest) :: (lexTokens fuel rounds ls').1, (lexTokens fuel rounds ls').2) := by
  have result := luaXNext_token small fuel enough ls reached
  rw [lexTokens]
  split at result
  next ls' ran =>
    obtain ⟨rest, found, reached'⟩ := result
    refine .inr ⟨rest, ls', reached', found, ?_⟩
    simp only [ran, unread_reached small reached']
  next e ls' ran =>
    obtain ⟨fuelLeft, none⟩ := result
    refine .inl ⟨none, ?_⟩
    cases e with
    | outOfFuel => exact absurd rfl fuelLeft
    | lexerror line msg near => simp only [ran]

theorem lexTokens_eq_iff (fuel rounds : Nat) {text : List UInt8} {ls : LexState}
    (reached : Reached code S text ls) (enough : text.length < fuel) (left : text.length < rounds) :
    lexTokens fuel rounds ls = tokens rounds text ↔ ∀ rest ∈ boundaries rounds text,
      ¬ MisreadNext rest := by
  induction rounds generalizing text ls with
  | zero => omega
  | succ rounds ih =>
    have step := lexTokens_step small fuel rounds reached enough
    by_cases misread : MisreadNext text
    · -- the first tokens differ already
      have here : text ∈ boundaries (rounds + 1) text := List.mem_cons_self
      refine iff_of_false (fun same => ?_) fun all => all text here misread
      have head := congrArg (fun result => result.1.head?) same
      rw [head_tokens] at head
      refine (lexedAfter_eq_iff text).not.mpr (not_not.mpr misread) ?_
      rcases step with ⟨none, run⟩ | ⟨rest, ls', -, found, run⟩
      · rw [none, ← head, run]
        rfl
      · rw [found, ← head, run]
        split
        next eos => rw [eos]; rfl
        next => rfl
    · have same := (lexedAfter_eq_iff text).mpr misread
      rw [same] at step
      rcases step with ⟨none, run⟩ | ⟨rest, ls', reached', found, run⟩
      · rw [run, tokens, none, boundaries, none]
        simpa using misread
      · by_cases eos : ls'.t = .eos
        · rw [eos] at found
          rw [run, if_pos eos, tokens, found, boundaries, found]
          simpa using misread
        · have shorter := token_shorter found eos
          have more := ih reached' (by omega) (by omega)
          obtain ⟨step, next⟩ := tokens_more rounds found eos
          rw [run, if_neg eos, step, next, List.forall_mem_cons, ← more]
          simp only [List.cons.injEq, true_and, misread, not_false_eq_true, Prod.ext_iff]

end

/-- The lexer on a buffer of fewer than `MAX_INT` lines, and the grammar on its text: they read the
    same tokens, each from the same bytes, and end alike, exactly when no token of the grammar starts
    with a text that the lexer misreads. -/
theorem lexer_accepts_grammar (code : Nat → UInt8) (S fuel : Nat) (small : S < sizeModulus)
    (enough : S < fuel) (lines : (unifyLineEnds (slice code 0 S)).count 10 + 1 < maxInt) :
    (tokens (S + 1) (unifyLineEnds (slice code 0 S))).2 ≠ .running ∧
      (lexBuffer fuel (S + 1) code S = tokens (S + 1) (unifyLineEnds (slice code 0 S)) ↔
        ∀ rest ∈ boundaries (S + 1) (unifyLineEnds (slice code 0 S)), ¬ MisreadNext rest) := by
  have short : (unifyLineEnds (slice code 0 S)).length ≤ S := by
    have length := unifyLineEnds_length (slice code 0 S)
    rw [slice_length] at length
    exact length
  obtain ⟨ls, opened, reached⟩ := setinput_reached small lines (blankLexState (.luaZInit code S))
  refine ⟨tokens_ends _ _ (by omega), ?_⟩
  rw [lexBuffer, opened]
  exact lexTokens_eq_iff small fuel (S + 1) reached (by omega) (by omega)

-- the buffer with these bytes
def bufferOf (bytes : List UInt8) : Nat → UInt8 := fun i => bytes.getD i 0

-- `a..0x1F` and the rest of a line
theorem concat_accepted :
    lexBuffer 20 11 (bufferOf [97, 46, 46, 48, 120, 49, 70, 13, 10, 59]) 10 =
      ([(.name [97], [46, 46, 48, 120, 49, 70, 10, 59]), (.concat, [48, 120, 49, 70, 10, 59]),
        (.number 31, [10, 59]), (.char 59, []), (.eos, [])], .eos) := by
  have reads := (lexer_accepts_grammar (bufferOf [97, 46, 46, 48, 120, 49, 70, 13, 10, 59]) 10 20
    (by decide) (by decide) (by decide +kernel)).2.mpr (by decide +kernel)
  exact reads.trans (by decide +kernel)

-- a dot and a zero are read as `..`, a numeral takes the zero behind it, and `0x` is a number
theorem zero_bytes_misread :
    lexBuffer 9 3 (bufferOf [46, 0]) 2 ≠ tokens 3 (unifyLineEnds [46, 0]) ∧
      lexBuffer 9 3 (bufferOf [46, 0]) 2 = ([(.concat, []), (.eos, [])], .eos) ∧
      lexBuffer 9 4 (bufferOf [49, 0, 97]) 3 = ([(.number 1, []), (.eos, [])], .eos) ∧
      lexBuffer 9 3 (bufferOf [48, 120]) 2 = ([(.number 0, []), (.eos, [])], .eos) ∧
      tokens 3 (unifyLineEnds [48, 120]) = ([], .lexicalError) := by
  decide +kernel

end Lunatik.Verified
