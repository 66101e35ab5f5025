import Lunatik.Lua.LexGrammar
import Lunatik.Verified.StreamReads

/-! # The lexer on the list of its bytes

`View text buff` says that the lexer has `text` in front of it, line ends unified, and `buff` in
its token buffer.  Every function of the lexer gets a triple that moves between views, so the
stream and the forms of line ends are dealt with once.
-/

namespace Lunatik.Verified

open Lunatik.Kernel Lunatik.Lua Lunatik.Lua.LexGrammar Lunatik.Library

variable {code : Nat → UInt8} {S : Nat}

/-! ## Line ends -/

theorem unifyLineEnds_cons {c : UInt8} (plain : isNewline c = false) (raw : List UInt8) :
    unifyLineEnds (c :: raw) = c :: unifyLineEnds raw := by
  cases raw with
  | nil => simp [unifyLineEnds, plain]
  | cons d raw => simp [unifyLineEnds, plain]

-- what inclinenumber leaves behind the line end that `c` starts
def afterLineEnd (c : UInt8) : List UInt8 → List UInt8
  | [] => []
  | d :: raw => if isNewline d && d != c then raw else d :: raw

theorem unifyLineEnds_newline {c : UInt8} (newline : isNewline c = true) (raw : List UInt8) :
    unifyLineEnds (c :: raw) = 10 :: unifyLineEnds (afterLineEnd c raw) := by
  cases raw with
  | nil => simp [unifyLineEnds, newline, afterLineEnd]
  | cons d raw =>
    simp only [unifyLineEnds, newline, if_true, afterLineEnd]
    split <;> rfl

theorem unifyLineEnds_eq_nil {raw : List UInt8} (empty : unifyLineEnds raw = []) : raw = [] := by
  cases raw with
  | nil => rfl
  | cons c raw =>
    cases newline : isNewline c with
    | true => simp [unifyLineEnds_newline newline] at empty
    | false => simp [unifyLineEnds_cons newline] at empty

/-- Where the unified text goes on with `c`. -/
theorem unifyLineEnds_eq_cons {raw text : List UInt8} {c : UInt8} (plain : c ≠ 10)
    (unified : unifyLineEnds raw = c :: text) :
    ∃ rest, raw = c :: rest ∧ isNewline c = false ∧ unifyLineEnds rest = text := by
  cases raw with
  | nil => simp [unifyLineEnds] at unified
  | cons d raw =>
    cases newline : isNewline d with
    | true =>
      rw [unifyLineEnds_newline newline] at unified
      exact absurd (List.cons.inj unified).1.symm plain
    | false =>
      rw [unifyLineEnds_cons newline] at unified
      obtain ⟨rfl, rfl⟩ := List.cons.inj unified
      exact ⟨raw, rfl, newline, rfl⟩

theorem unifyLineEnds_eq_newline {raw text : List UInt8}
    (unified : unifyLineEnds raw = 10 :: text) :
    ∃ c rest, raw = c :: rest ∧ isNewline c = true ∧
      unifyLineEnds (afterLineEnd c rest) = text := by
  cases raw with
  | nil => simp [unifyLineEnds] at unified
  | cons d raw =>
    cases newline : isNewline d with
    | true =>
      rw [unifyLineEnds_newline newline] at unified
      exact ⟨d, raw, rfl, newline, (List.cons.inj unified).2⟩
    | false =>
      rw [unifyLineEnds_cons newline] at unified
      have : d = 10 := (List.cons.inj unified).1
      simp [this, isNewline] at newline

/-! ## Views -/

/-- The bytes that the lexer has not passed yet. -/
def Pending (code : Nat → UInt8) (S : Nat) (raw : List UInt8) (ls : LexState) : Prop :=
  match ls.current with
  | none => raw = []
  | some c => ∃ pos, ZioAt code S [] pos ls.z ∧ raw = c :: slice code pos (S - pos)

structure View (code : Nat → UInt8) (S : Nat) (text buff : List UInt8) (ls : LexState) : Prop where
  pending : ∃ raw, Pending code S raw ls ∧ unifyLineEnds raw = text
  buff_eq : ls.buff = buff
  decpoint : ls.decpoint = 46
  lookahead : ls.lookahead = .eos
  -- the limit on the number of lines is not reached in what is left
  lines : ls.linenumber + text.count 10 < maxInt

namespace View

variable {text buff : List UInt8} {ls : LexState} {c : UInt8}

theorem current_none (view : View code S [] buff ls) : ls.current = none := by
  obtain ⟨raw, pending, unified⟩ := view.pending
  cases seen : ls.current with
  | none => rfl
  | some c =>
    simp only [Pending, seen] at pending
    obtain ⟨pos, -, rfl⟩ := pending
    exact absurd (unifyLineEnds_eq_nil unified) (by simp)

theorem current_some (view : View code S (c :: text) buff ls) (plain : c ≠ 10) :
    ls.current = some c := by
  obtain ⟨raw, pending, unified⟩ := view.pending
  obtain ⟨rest, rfl, -, -⟩ := unifyLineEnds_eq_cons plain unified
  cases seen : ls.current with
  | none => simp [Pending, seen] at pending
  | some d =>
    simp only [Pending, seen] at pending
    obtain ⟨pos, -, eq⟩ := pending
    rw [(List.cons.inj eq).1]

theorem current_newline (view : View code S (10 :: text) buff ls) :
    ∃ c, ls.current = some c ∧ isNewline c = true := by
  obtain ⟨raw, pending, unified⟩ := view.pending
  obtain ⟨c, rest, rfl, newline, -⟩ := unifyLineEnds_eq_newline unified
  cases seen : ls.current with
  | none => simp [Pending, seen] at pending
  | some d =>
    simp only [Pending, seen] at pending
    obtain ⟨pos, -, eq⟩ := pending
    obtain ⟨rfl, -⟩ := List.cons.inj eq
    exact ⟨c, rfl, newline⟩

-- a test of the current character that treats the two line ends alike
theorem isByte_current (view : View code S text buff ls) {p : UInt8 → Bool} (alike : p 13 = p 10) :
    isByte p ls.current = isByte p text.head? := by
  cases text with
  | nil => rw [view.current_none]; rfl
  | cons c text =>
    by_cases newline : c = 10
    · subst newline
      obtain ⟨d, seen, newline⟩ := view.current_newline
      rw [seen]
      simp only [isNewline, Bool.or_eq_true, beq_iff_eq] at newline
      cases newline with
      | inl lf => rw [lf]; rfl
      | inr cr => rw [cr]; exact alike
    · rw [view.current_some newline]
      rfl

theorem beq_current (view : View code S text buff ls) {d : UInt8} (lf : d ≠ 10) (cr : d ≠ 13) :
    (ls.current == some d) = (text.head? == some d) := by
  have same := view.isByte_current (p := (· == d)) (by simp [lf.symm, cr.symm])
  cases left : ls.current <;> cases right : text.head? <;> simp_all [isByte]

theorem plain_of_ne (view : View code S (c :: text) buff ls) (plain : c ≠ 10) :
    isNewline c = false := by
  obtain ⟨raw, -, unified⟩ := view.pending
  obtain ⟨-, -, plain, -⟩ := unifyLineEnds_eq_cons plain unified
  exact plain

theorem currIsNewline_eq (view : View code S text buff ls) :
    currIsNewline ls = (text.head? == some 10) := by
  cases text with
  | nil => rw [currIsNewline, view.current_none]; rfl
  | cons c text =>
    by_cases newline : c = 10
    · subst newline
      obtain ⟨d, seen, newline⟩ := view.current_newline
      rw [currIsNewline, seen]
      simpa [isNewline] using newline
    · have plain := view.plain_of_ne newline
      rw [currIsNewline, view.current_some newline]
      simpa [isNewline, newline] using plain

theorem text_of_none (view : View code S text buff ls) (seen : ls.current = none) : text = [] := by
  cases text with
  | nil => rfl
  | cons c text =>
    by_cases newline : c = 10
    · subst newline
      obtain ⟨d, found, -⟩ := view.current_newline
      rw [seen] at found
      cases found
    · have found := view.current_some newline
      rw [seen] at found
      cases found

theorem text_of_some (view : View code S text buff ls) (seen : ls.current = some c) :
    ∃ rest, text = (if isNewline c then 10 else c) :: rest := by
  cases text with
  | nil =>
    have found := view.current_none
    rw [seen] at found
    cases found
  | cons d text =>
    by_cases newline : d = 10
    · subst newline
      obtain ⟨e, found, newline⟩ := view.current_newline
      rw [seen] at found
      obtain rfl : c = e := Option.some.inj found
      exact ⟨text, by rw [newline]; rfl⟩
    · have plain := view.plain_of_ne newline
      have found := view.current_some newline
      rw [seen] at found
      obtain rfl : c = d := Option.some.inj found
      exact ⟨text, by rw [plain]; rfl⟩

theorem save (view : View code S text buff ls) (d : UInt8) :
    View code S text (buff ++ [d]) { ls with buff := ls.buff ++ [d] } :=
  ⟨view.pending, by rw [← view.buff_eq], view.decpoint, view.lookahead, view.lines⟩

end View

/-- After a look at the current character, the text is known to start with it. -/
theorem seen_some {α : Type} {text buff : List UInt8} {ls : LexState} {c : UInt8} {m : LexM α}
    {Q : α → LexState → Prop} {E : LexError → LexState → Prop} (seen : ls.current = some c)
    (rest : ∀ rest, text = (if isNewline c then 10 else c) :: rest →
      Triple (View code S text buff) m Q E) :
    Triple (fun t => View code S text buff t ∧ t = ls) m Q E := by
  rintro t ⟨view, rfl⟩
  obtain ⟨rest', eq⟩ := view.text_of_some seen
  exact rest rest' eq t view

theorem seen_none {α : Type} {text buff : List UInt8} {ls : LexState} {m : LexM α}
    {Q : α → LexState → Prop} {E : LexError → LexState → Prop} (seen : ls.current = none)
    (rest : text = [] → Triple (View code S text buff) m Q E) :
    Triple (fun t => View code S text buff t ∧ t = ls) m Q E := by
  rintro t ⟨view, rfl⟩
  exact rest (view.text_of_none seen) t view

/-! ## Moving through the text -/

theorem slice_cons {pos : Nat} (inside : pos < S) :
    slice code pos (S - pos) = code pos :: slice code (pos + 1) (S - (pos + 1)) := by
  have split := slice_append code pos 1 (S - (pos + 1))
  rw [show 1 + (S - (pos + 1)) = S - pos by omega] at split
  rw [← split]
  rfl

section
variable (small : S < sizeModulus)
include small

theorem pending_next {c : UInt8} {raw : List UInt8} {ls : LexState}
    (pending : Pending code S (c :: raw) ls) :
    Pending code S raw
      { ls with current := ls.z.zgetc.1, z := ls.z.zgetc.2, delivered := ls.delivered ++ ls.z.zgetc.1.toList } := by
  cases seen : ls.current with
  | none => simp [Pending, seen] at pending
  | some d =>
    simp only [Pending, seen] at pending
    obtain ⟨pos, here, eq⟩ := pending
    obtain ⟨-, rfl⟩ := List.cons.inj eq
    by_cases inside : pos < S
    · obtain ⟨byte, there⟩ := zgetc_at small here inside
      simp only [Pending, byte]
      exact ⟨pos + 1, there, slice_cons inside⟩
    · have atEnd : pos = S := by
        have := here.offset_le
        omega
      subst atEnd
      obtain ⟨eoz, -⟩ := zgetc_end here
      simp only [Pending, eoz, Nat.sub_self]
      rfl

variable {text buff : List UInt8} {c : UInt8} {E : LexError → LexState → Prop}

theorem next_view (plain : c ≠ 10) :
    Triple (View code S (c :: text) buff) next (fun _ => View code S text buff) E := by
  refine Triple.update fun ls view => ?_
  obtain ⟨raw, pending, unified⟩ := view.pending
  obtain ⟨rest, rfl, -, rfl⟩ := unifyLineEnds_eq_cons plain unified
  refine ⟨⟨rest, pending_next small pending, rfl⟩, view.buff_eq, view.decpoint, view.lookahead, ?_⟩
  have lines := view.lines
  rw [List.count_cons_of_ne plain] at lines
  exact lines

omit small in
theorem save_view (d : UInt8) :
    Triple (View code S text buff) (save d) (fun _ => View code S text (buff ++ [d])) E :=
  Triple.update fun _ view => view.save d

omit small in
theorem resetbuffer_view : Triple (View code S text buff) resetbuffer (fun _ =>
    View code S text []) E :=
  Triple.update fun _ view => ⟨view.pending, rfl, view.decpoint, view.lookahead, view.lines⟩

theorem saveAndNext_view (plain : c ≠ 10) :
    Triple (View code S (c :: text) buff) saveAndNext (fun _ => View code S text (buff ++ [c]))
      E := by
  refine Triple.get_bind fun ls => ?_
  refine Triple.given (φ := currentChar ls = c) ?_ fun same => ?_
  · rintro t ⟨view, rfl⟩
    rw [currentChar, view.current_some plain]
    rfl
  · rw [same]
    refine Triple.bind ((save_view c).pre fun _ h => h.1) fun _ => ?_
    exact next_view small plain

-- the same without looking at line ends
def Rest (code : Nat → UInt8) (S : Nat) (raw buff : List UInt8) (line : Nat) (ls : LexState) :
    Prop :=
  Pending code S raw ls ∧ ls.buff = buff ∧ ls.decpoint = 46 ∧ ls.lookahead = .eos ∧
    ls.linenumber = line

omit small in
theorem Rest.current {raw : List UInt8} {line : Nat} {ls : LexState}
    (rest : Rest code S raw buff line ls) :
    ls.current = raw.head? := by
  have pending := rest.1
  cases seen : ls.current with
  | none =>
    simp only [Pending, seen] at pending
    rw [pending]
    rfl
  | some c =>
    simp only [Pending, seen] at pending
    obtain ⟨pos, -, rfl⟩ := pending
    rfl

theorem next_rest {raw : List UInt8} {line : Nat} :
    Triple (Rest code S (c :: raw) buff line) next (fun _ => Rest code S raw buff line) E :=
  Triple.update fun _ rest => ⟨pending_next small rest.1, rest.2⟩

-- the second byte of a line end is taken with the first
theorem inclinenumber_rest {raw : List UInt8} {line : Nat} (more : line + 1 < maxInt) :
    Triple (Rest code S (c :: raw) buff line) inclinenumber
      (fun _ => Rest code S (afterLineEnd c raw) buff (line + 1)) E := by
  refine Triple.get_bind fun ls => ?_
  refine Triple.given (φ := ls.current = some c) ?_ fun seen => ?_
  · rintro t ⟨rest, rfl⟩
    exact rest.current
  refine Triple.bind ((next_rest small).pre fun _ h => h.1) fun _ => ?_
  refine Triple.get_bind fun ls' => ?_
  refine Triple.given (φ := ls'.current = raw.head?) ?_ fun seen' => ?_
  · rintro t ⟨rest, rfl⟩
    exact rest.current
  refine Triple.cond_then (R := Rest code S (afterLineEnd c raw) buff line) ?_ ?_ ?_
  · intro second
    rw [currIsNewline, seen, seen'] at second
    cases raw with
    | nil => simp at second
    | cons d tail =>
      have skipped : afterLineEnd c (d :: tail) = tail := by
        simp only [afterLineEnd]
        rw [if_pos]
        simpa [isNewline] using second
      rw [skipped]
      exact (next_rest small).pre fun _ h => h.1
  · intro single t h
    rw [currIsNewline, seen, seen'] at single
    have kept : afterLineEnd c raw = raw := by
      cases raw with
      | nil => rfl
      | cons d tail =>
        simp only [afterLineEnd]
        rw [if_neg]
        simpa [isNewline] using single
    rw [kept]
    exact h.1
  · refine Triple.bind (R := fun _ => Rest code S (afterLineEnd c raw) buff (line + 1)) ?_ fun _ =>
      ?_
    · exact Triple.update fun t rest => ⟨rest.1, rest.2.1, rest.2.2.1, rest.2.2.2.1,
        congrArg (· + 1) rest.2.2.2.2⟩
    · refine Triple.get_bind fun ls'' => ?_
      refine Triple.given (φ := ls''.linenumber = line + 1) ?_ fun counted => ?_
      · rintro t ⟨rest, rfl⟩
        exact rest.2.2.2.2
      · rw [counted, if_neg (Nat.not_le.mpr more)]
        exact Triple.ret fun _ h => h.1

theorem inclinenumber_view :
    Triple (View code S (10 :: text) buff) inclinenumber (fun _ => View code S text buff) E := by
  intro ls view
  obtain ⟨raw, pending, unified⟩ := view.pending
  obtain ⟨c, rest, rfl, newline, rfl⟩ := unifyLineEnds_eq_newline unified
  have lines := view.lines
  rw [List.count_cons_self] at lines
  have start : Rest code S (c :: rest) buff ls.linenumber ls :=
    ⟨pending, view.buff_eq, view.decpoint, view.lookahead, rfl⟩
  have after : Triple (Rest code S (c :: rest) buff ls.linenumber) inclinenumber
      (fun _ => View code S (unifyLineEnds (afterLineEnd c rest)) buff) E := by
    refine (inclinenumber_rest small (by omega)).conseq (fun _ h => h) fun _ t h => ?_
    refine ⟨⟨_, h.1, rfl⟩, h.2.1, h.2.2.1, h.2.2.2.1, ?_⟩
    rw [h.2.2.2.2]
    omega
  exact after ls start

/-! ## Loops over the text -/

theorem saveWhile_view {p : UInt8 → Bool} (stops : p 10 = false) (alike : p 13 = false) (fuel : Nat)
    (enough : text.length < fuel) :
    Triple (View code S text buff) (saveWhile p fuel)
      (fun _ => View code S (text.dropWhile p) (buff ++ text.takeWhile p)) E := by
  induction fuel generalizing text buff with
  | zero => omega
  | succ fuel ih =>
    refine Triple.get_bind fun ls => ?_
    refine Triple.given (φ := isByte p ls.current = isByte p text.head?) ?_ fun seen => ?_
    · rintro t ⟨view, rfl⟩
      exact view.isByte_current (by rw [stops, alike])
    refine Triple.cond (fun found => ?_) fun stopped => ?_
    · rw [seen] at found
      cases text with
      | nil => simp [isByte] at found
      | cons c text =>
        have holds : p c = true := found
        have plain : c ≠ 10 := by
          rintro rfl
          simp [stops] at holds
        rw [List.dropWhile_cons_of_pos holds, List.takeWhile_cons_of_pos holds, List.append_cons]
        refine Triple.bind ((saveAndNext_view small plain).pre fun _ h => h.1) fun _ => ?_
        exact ih (by simpa using enough)
    · rw [seen] at stopped
      refine Triple.ret fun t h => ?_
      cases text with
      | nil => simpa using h.1
      | cons c text =>
        have fails : ¬ p c = true := stopped
        rw [List.dropWhile_cons_of_neg fails, List.takeWhile_cons_of_neg fails, List.append_nil]
        exact h.1

-- what check_next(ls, set) looks for: the zero that ends `set` is found as well
def inSet (set : List UInt8) (c : Option UInt8) : Bool := isByte (fun c => c ∈ set || c == 0) c

theorem checkNext_view {set : List UInt8} (lf : 10 ∉ set) (cr : 13 ∉ set) :
    Triple (View code S text buff) (checkNext set)
      (fun found ls => found = inSet set text.head? ∧
        View code S (if found then text.tail else text)
          (buff ++ if found then text.head?.toList else []) ls) E := by
  refine Triple.get_bind fun ls => ?_
  refine Triple.given (φ := isByte (fun c => c ∈ set || c == 0) ls.current =
    inSet set text.head?) ?_ fun seen => ?_
  · rintro t ⟨view, rfl⟩
    exact view.isByte_current (by simp [lf, cr])
  refine Triple.cond (fun found => ?_) fun absent => ?_
  · rw [seen] at found
    cases text with
    | nil => simp [inSet, isByte] at found
    | cons c text =>
      have plain : c ≠ 10 := by
        rintro rfl
        simp [inSet, isByte, lf] at found
      refine Triple.bind ((saveAndNext_view small plain).pre fun _ h => h.1) fun _ => ?_
      exact Triple.ret fun _ h => ⟨found.symm, h⟩
  · rw [seen] at absent
    refine Triple.ret fun t h => ⟨(Bool.eq_false_of_not_eq_true absent).symm, ?_⟩
    simpa using h.1

end

end Lunatik.Verified
