import Lunatik.Library.Hoare
import Lunatik.Lua.Concat
import Lunatik.Verified.NumberStrings

/-! # Concatenation joins its operands

`strs` are the string forms of the operands that are left, from the slot `first` on.  Every pass leaves
operands with the same text: it drops an empty last operand, or makes all of them one string.  A pass that
fails says something about the text, or a request was refused.
-/

namespace Lunatik.Verified.Concatenation

open Lunatik.Lua Lunatik.Library
open Lunatik.Lua.Concat

/-! ## Operands -/

/-- The longest string that is ever made, with its terminating zero. -/
def maxString : Nat := maxSizet - StringTable.sizeofTString

def joinable : TValue → Bool
  | .string _ | .number _ => true
  | _ => false

/-- The strings on the stack have been made. -/
def Stored (stack : Nat → TValue) : Prop := ∀ k str, stack k = .string str → str.length + 1 ≤ maxString

/-- The string forms of the operands. -/
def stringForms (stack : Nat → TValue) (first total : Nat) : List (List UInt8) :=
  (List.range total).map fun i => (tostring (stack (first + i))).getD []

/-- The operands from `first` on read as `strs`, and those from the `i`-th one on are strings.  The other
slots are those of `stack₀`. -/
structure Operands (stack₀ : Nat → TValue) (first last : Nat) (strs : List (List UInt8)) (i : Nat)
    (stack : Nat → TValue) : Prop where
  forms : ∀ j str, strs[j]? = some str → tostring (stack (first + j)) = some str
  strings : ∀ j str, i ≤ j → strs[j]? = some str → stack (first + j) = .string str
  small : ∀ str ∈ strs, str.length + 1 ≤ maxString
  others : ∀ k, k < first ∨ last < k → stack k = stack₀ k

/-- What an error says of the text of the operands. -/
def Raised (mem : Allocator) (text : List UInt8) : ConcatError → ConcatState → Prop
  | .overflow, _ => maxSizet ≤ text.length
  | .toobig, _ => text.length < maxSizet ∧ maxString < text.length + 1
  | .memory, s => 0 < s.requests ∧ mem.granted (s.requests - 1) = false
  | _, _ => False

section Requests

variable {mem : Allocator} {text : List UInt8} {P : (Nat → TValue) → Prop}

theorem request_granted : Triple (fun s => P s.stack) (request mem) (fun _ s => P s.stack) (Raised mem text) := by
  intro s holds
  simp only [request, bind_run, get_run, set_run]
  by_cases granted : mem.granted s.requests
  · simpa [granted, pure_run] using holds
  · simp [granted, throw_run, Raised]

theorem luaSNewlstr_made {str : List UInt8}
    (long : maxString < str.length + 1 → text.length < maxSizet ∧ maxString < text.length + 1) :
    Triple (fun s => P s.stack) (luaSNewlstr mem str)
      (fun _ s => P s.stack ∧ str.length + 1 ≤ maxString) (Raised mem text) := by
  rw [luaSNewlstr]
  apply Triple.cond
  · intro big
    apply Triple.raise
    intro s _
    exact long big
  · intro small
    apply request_granted.conseq (fun _ holds => holds)
    intro _ s holds
    exact ⟨holds, Nat.le_of_not_lt small⟩

theorem setsvalue_sets {k : Nat} {str : List UInt8} {Q : (Nat → TValue) → Prop}
    (set : ∀ stack, P stack → Q (setAt stack k (.string str))) :
    Triple (fun s => P s.stack) (setsvalue k str) (fun _ s => Q s.stack) (Raised mem text) :=
  Triple.update fun s holds => set s.stack holds

-- a number is never too long
theorem luaNumber2str_small (n : LuaNumber) : (luaNumber2str n).length + 1 ≤ maxString := by
  have short := luaNumber2str_length n
  simp only [luaiMaxnumber2str] at short
  simp only [maxString, maxSizet, StringTable.sizeofTString]
  omega

end Requests

/-! ## Conversions -/

section Conversions

variable {mem : Allocator} {text : List UInt8} {stack₀ : Nat → TValue} {first last i : Nat}
  {strs : List (List UInt8)} {str : List UInt8}

theorem Operands.convert {stack : Nat → TValue} (held : Operands stack₀ first last strs (i + 1) stack)
    (here : strs[i]? = some str) (below : first + i ≤ last) :
    Operands stack₀ first last strs i (setAt stack (first + i) (.string str)) where
  forms := by
    intro j form found
    by_cases same : j = i
    · subst same
      rw [here] at found
      cases found
      rw [setAt_same, tostring]
    · rw [setAt_other _ _ (by omega)]
      exact held.forms j form found
  strings := by
    intro j form above found
    by_cases same : j = i
    · subst same
      rw [here] at found
      cases found
      rw [setAt_same]
    · rw [setAt_other _ _ (by omega)]
      exact held.strings j form (by omega) found
  small := held.small
  others := by
    intro k out
    rw [setAt_other _ _ (by omega)]
    exact held.others k out

theorem Operands.string {stack : Nat → TValue} (held : Operands stack₀ first last strs (i + 1) stack)
    (here : strs[i]? = some str) {form : List UInt8} (found : stack (first + i) = .string form) :
    Operands stack₀ first last strs i stack where
  forms := held.forms
  strings := by
    intro j form' above at'
    by_cases same : j = i
    · subst same
      have form := held.forms j form' at'
      rw [found, tostring] at form
      cases form
      exact found
    · exact held.strings j form' (by omega) at'
  small := held.small
  others := held.others

theorem luaVTostring_number {n : LuaNumber} (here : strs[i]? = some (luaNumber2str n))
    (below : first + i ≤ last) :
    Triple (fun s => Operands stack₀ first last strs (i + 1) s.stack ∧ s.stack (first + i) = .number n)
      (luaVTostring mem (first + i))
      (fun converted s => converted = true ∧ Operands stack₀ first last strs i s.stack)
      (Raised mem text) := by
  apply Triple.get_bind
  intro s
  apply Triple.given (φ := s.stack (first + i) = .number n)
  · rintro t ⟨⟨_, number⟩, rfl⟩
    exact number
  intro number
  rw [number]
  apply Triple.bind (R := fun _ s => Operands stack₀ first last strs (i + 1) s.stack)
  · apply (luaSNewlstr_made (P := Operands stack₀ first last strs (i + 1)) _).conseq
    · rintro t ⟨⟨held, _⟩, _⟩
      exact held
    · rintro _ t ⟨held, _⟩
      exact held
    · intro long
      have short := luaNumber2str_small n
      omega
  intro _
  apply Triple.bind (R := fun _ s => Operands stack₀ first last strs i s.stack)
  · exact setsvalue_sets fun stack held => held.convert here below
  intro _
  exact Triple.ret fun t held => ⟨rfl, held⟩

theorem tostringAt_operand (here : strs[i]? = some str) (below : first + i ≤ last) :
    Triple (fun s => Operands stack₀ first last strs (i + 1) s.stack) (tostringAt mem (first + i))
      (fun converted s => converted = true ∧ Operands stack₀ first last strs i s.stack)
      (Raised mem text) := by
  apply Triple.get_bind
  intro s
  apply Triple.given (φ := tostring (s.stack (first + i)) = some str)
  · rintro t ⟨held, rfl⟩
    exact held.forms i str here
  intro form
  cases found : s.stack (first + i) with
  | string form' =>
    apply Triple.ret
    rintro t ⟨held, rfl⟩
    exact ⟨rfl, held.string here found⟩
  | number n =>
    rw [found, tostring] at form
    cases form
    apply (luaVTostring_number here below).pre
    rintro t ⟨held, rfl⟩
    exact ⟨held, found⟩
  | nil | boolean | lightuserdata | table | function | userdata | thread =>
    rw [found] at form
    cases form

theorem svalue_operand (here : strs[i]? = some str) {P : ConcatState → Prop}
    (held : ∀ s, P s → Operands stack₀ first last strs i s.stack) :
    Triple P (svalue (first + i)) (fun got s => got = str ∧ P s) (Raised mem text) := by
  apply Triple.get_bind
  intro s
  apply Triple.given (φ := s.stack (first + i) = .string str)
  · rintro t ⟨holds, rfl⟩
    exact (held t holds).strings i str le_rfl here
  intro found
  rw [found]
  exact Triple.ret fun t ⟨holds, _⟩ => ⟨rfl, holds⟩

end Conversions

/-! ## The buffer -/

section Buffer

variable {mem : Allocator} {text : List UInt8} {P : (Nat → TValue) → Prop}

theorem luaZResizebuffer_grows {n size : Nat} (enough : n ≤ size) (fits : size + 1 ≤ maxSizet) :
    Triple (fun s => P s.stack) (luaZResizebuffer mem size) (fun _ s => P s.stack ∧ n ≤ s.buffer.length)
      (Raised mem text) := by
  rw [luaZResizebuffer, if_pos fits]
  apply Triple.bind request_granted
  intro _
  apply Triple.update
  intro s holds
  have grown : n ≤ s.buffer.length + (size - s.buffer.length) := by omega
  simpa using And.intro holds grown

theorem luaZOpenspace_room {n : Nat} (fits : n < maxSizet) :
    Triple (fun s => P s.stack) (luaZOpenspace mem n) (fun _ s => P s.stack ∧ n ≤ s.buffer.length)
      (Raised mem text) := by
  apply Triple.get_bind
  intro s
  apply Triple.cond
  · intro _
    apply (luaZResizebuffer_grows (P := P) (n := n) _ _).pre
    · rintro t ⟨holds, _⟩
      exact holds
    · split <;> omega
    · have large : luaMinbuffer + 1 ≤ maxSizet := by simp [luaMinbuffer, maxSizet]
      split <;> omega
  · intro there
    apply Triple.ret
    rintro t ⟨holds, rfl⟩
    exact ⟨holds, Nat.le_of_not_lt there⟩

theorem memcpy_writes {room : Nat} {done str : List UInt8} (fits : done.length + str.length ≤ room) :
    Triple (fun s => P s.stack ∧ room ≤ s.buffer.length ∧ s.buffer.take done.length = done)
      (memcpy done.length str)
      (fun _ s => P s.stack ∧ room ≤ s.buffer.length ∧
        s.buffer.take (done.length + str.length) = done ++ str)
      (Raised mem text) := by
  apply Triple.get_bind
  intro s
  apply Triple.given (φ := room ≤ s.buffer.length ∧ s.buffer.take done.length = done)
  · rintro t ⟨⟨_, known⟩, rfl⟩
    exact known
  rintro ⟨enough, before⟩
  rw [if_pos (by omega)]
  intro t ⟨⟨holds, _⟩, same⟩
  subst same
  rw [set_run]
  have length : (done ++ str ++ t.buffer.drop (done.length + str.length)).length = t.buffer.length := by
    simp
    omega
  refine ⟨holds, ?_, ?_⟩
  · rw [before, length]
    exact enough
  · rw [before, ← List.length_append, List.take_left]

theorem bufferBytes_read {done : List UInt8} :
    Triple (fun s => P s.stack ∧ done.length ≤ s.buffer.length ∧ s.buffer.take done.length = done)
      (bufferBytes done.length) (fun got s => got = done ∧ P s.stack) (Raised mem text) := by
  apply Triple.get_bind
  intro s
  apply Triple.given (φ := done.length ≤ s.buffer.length ∧ s.buffer.take done.length = done)
  · rintro t ⟨⟨_, known⟩, rfl⟩
    exact known
  rintro ⟨enough, there⟩
  rw [if_pos enough]
  exact Triple.ret fun t ⟨⟨holds, _⟩, _⟩ => ⟨there, holds⟩

end Buffer

/-! ## The loops of a pass -/

section Pass

variable {mem : Allocator} {stack₀ : Nat → TValue} {first last : Nat} {strs : List (List UInt8)}

theorem operand_at {i : Nat} (inside : i < strs.length) : ∃ str, strs[i]? = some str :=
  ⟨_, List.getElem?_eq_getElem inside⟩

-- one more operand belongs to the last ones
theorem drop_flatten {k : Nat} {str : List UInt8} (here : strs[k]? = some str) :
    (strs.drop k).flatten = str ++ (strs.drop (k + 1)).flatten := by
  obtain ⟨inside, same⟩ := List.getElem?_eq_some_iff.mp here
  rw [List.drop_eq_getElem_cons inside, List.flatten_cons, same]

theorem take_flatten {k : Nat} {str : List UInt8} (here : strs[k]? = some str) :
    (strs.take (k + 1)).flatten = (strs.take k).flatten ++ str := by
  rw [List.take_add_one, here, List.flatten_append]
  simp

theorem take_found {j k : Nat} {str : List UInt8} (found : (strs.take k)[j]? = some str) :
    strs[j]? = some str := by
  rw [List.getElem?_take] at found
  split at found
  · exact found
  · cases found

theorem drop_shorter (strs : List (List UInt8)) (k : Nat) : (strs.drop k).flatten.length ≤ strs.flatten.length := by
  conv_rhs => rw [← List.take_append_drop k strs, List.flatten_append, List.length_append]
  omega

/-- `n` operands are strings, and are `tl` bytes long. -/
structure Collected (stack₀ : Nat → TValue) (first last : Nat) (strs : List (List UInt8)) (n tl : Nat)
    (stack : Nat → TValue) : Prop where
  operands : Operands stack₀ first last strs (strs.length - n) stack
  length : tl = (strs.drop (strs.length - n)).flatten.length
  fits : tl < maxSizet

variable (stack₀) in
theorem collectLength_collects (inside : last + 1 = first + strs.length) (rounds n tl : Nat)
    (some : 0 < n) (enough : n + rounds = strs.length + 1) (more : 0 < rounds) :
    Triple (fun s => Collected stack₀ first last strs n tl s.stack)
      (collectLength mem (last + 1) strs.length rounds n tl)
      (fun got s => got = (strs.length, strs.flatten.length) ∧
        Collected stack₀ first last strs strs.length strs.flatten.length s.stack)
      (Raised mem strs.flatten) := by
  induction rounds generalizing n tl with
  | zero => omega
  | succ rounds ih =>
    rw [collectLength]
    by_cases left : n < strs.length
    · rw [if_pos left]
      obtain ⟨i, at'⟩ : ∃ i, strs.length - n = i + 1 := ⟨strs.length - n - 1, by omega⟩
      obtain ⟨str, here⟩ : ∃ str, strs[i]? = Option.some str := operand_at (by omega)
      have slot : last + 1 - n - 1 = first + i := by omega
      have next : strs.length - (n + 1) = i := by omega
      apply Triple.given (φ := tl = (strs.drop (i + 1)).flatten.length ∧ tl < maxSizet)
      · intro s held
        rw [← at']
        exact ⟨held.length, held.fits⟩
      rintro ⟨length, fits⟩
      rw [slot]
      apply Triple.bind (R := fun converted s => converted = true ∧
        Operands stack₀ first last strs i s.stack)
      · apply (tostringAt_operand here (by omega)).pre
        intro s held
        rw [← at']
        exact held.operands
      intro converted
      apply Triple.given (φ := converted = true) fun _ holds => holds.1
      rintro rfl
      rw [if_pos rfl]
      apply Triple.bind (R := fun got s => got = str ∧ Operands stack₀ first last strs i s.stack)
      · exact (svalue_operand here (P := fun s => Operands stack₀ first last strs i s.stack)
          fun _ holds => holds).pre fun _ holds => holds.2
      intro got
      apply Triple.given (φ := got = str) fun _ holds => holds.1
      rintro rfl
      have longer := drop_flatten here
      have within := drop_shorter strs i
      rw [longer, List.length_append] at within
      apply Triple.cond
      · intro tooLong
        apply Triple.raise
        intro s _
        simp only [Raised]
        omega
      · intro under
        apply (ih (n + 1) (tl + got.length) (by omega) (by omega) (by omega)).pre
        intro s held
        refine ⟨?_, ?_, by omega⟩
        · rw [next]
          exact held.2
        · rw [next, longer, List.length_append, length, Nat.add_comm]
    · have all : n = strs.length := by omega
      rw [if_neg left]
      apply Triple.ret
      intro s held
      have length : tl = strs.flatten.length := by simpa [all] using held.length
      rw [all, length] at held
      exact ⟨by rw [all, length], held⟩

variable (stack₀) in
theorem copyStrings_copies (inside : last + 1 = first + strs.length) (i k : Nat)
    (split : k + i = strs.length) :
    Triple (fun s => Operands stack₀ first last strs 0 s.stack ∧
        strs.flatten.length ≤ s.buffer.length ∧
        s.buffer.take (strs.take k).flatten.length = (strs.take k).flatten)
      (copyStrings (last + 1) i (strs.take k).flatten.length)
      (fun got s => got = strs.flatten.length ∧ Operands stack₀ first last strs 0 s.stack ∧
        strs.flatten.length ≤ s.buffer.length ∧
        s.buffer.take strs.flatten.length = strs.flatten)
      (Raised mem strs.flatten) := by
  induction i generalizing k with
  | zero =>
    rw [copyStrings, List.take_of_length_le (by omega)]
    exact Triple.ret fun s holds => ⟨rfl, holds⟩
  | succ i ih =>
    obtain ⟨str, here⟩ : ∃ str, strs[k]? = some str := operand_at (by omega)
    have slot : last + 1 - (i + 1) = first + k := by omega
    have grown := take_flatten here
    rw [copyStrings, slot]
    apply Triple.bind
    · apply svalue_operand here
      intro s holds
      exact ⟨holds.1.forms, fun j str above at' => holds.1.strings j str (by omega) at',
        holds.1.small, holds.1.others⟩
    intro got
    apply Triple.given (φ := got = str) fun _ holds => holds.1
    rintro rfl
    have fits : (strs.take k).flatten.length + got.length ≤ strs.flatten.length := by
      rw [← List.length_append, ← grown]
      conv_rhs => rw [← List.take_append_drop (k + 1) strs, List.flatten_append, List.length_append]
      omega
    apply Triple.bind ((memcpy_writes (P := Operands stack₀ first last strs 0) fits).pre
      fun _ holds => holds.2)
    intro _
    rw [← List.length_append, ← grown]
    exact ih (k + 1) (by omega)

/-- What a pass leaves that makes `n` operands one. -/
structure Passed (stack₀ : Nat → TValue) (first last : Nat) (strs : List (List UInt8)) (n : Nat)
    (left : List (List UInt8)) (stack : Nat → TValue) : Prop where
  operands : Operands stack₀ first last left (left.length - 1) stack
  text : left.flatten = strs.flatten
  count : left.length = strs.length - (n - 1)
  two : 2 ≤ n
  most : n ≤ strs.length

theorem Operands.joined {stack : Nat → TValue} (held : Operands stack₀ first last strs 0 stack)
    (inside : last + 1 = first + strs.length) (two : 2 ≤ strs.length)
    (small : strs.flatten.length + 1 ≤ maxString) :
    Passed stack₀ first last strs strs.length [strs.flatten]
      (setAt stack first (.string strs.flatten)) := by
  have only : ∀ j str, [strs.flatten][j]? = some str →
      setAt stack first (.string strs.flatten) (first + j) = .string str := by
    intro j str found
    cases j with
    | zero =>
      cases found
      exact setAt_same _ _ _
    | succ j => simp at found
  refine ⟨⟨?_, fun j str _ => only j str, ?_, ?_⟩, by simp, ?_, two, le_rfl⟩
  · intro j str found
    rw [only j str found, tostring]
  · simpa using small
  · intro k out
    rw [setAt_other _ _ (by omega)]
    exact held.others k out
  · rw [List.length_singleton]
    omega

theorem joinStrings_joins {str : List UInt8} {i : Nat} (inside : last + 1 = first + strs.length)
    (two : 2 ≤ strs.length) (at' : i + 1 = strs.length) (here : strs[i]? = some str) :
    Triple (fun s => Operands stack₀ first last strs i s.stack)
      (joinStrings mem (last + 1) strs.length)
      (fun n s => ∃ left, Passed stack₀ first last strs n left s.stack)
      (Raised mem strs.flatten) := by
  have slot : last + 1 - 1 = first + i := by omega
  rw [joinStrings, slot]
  apply Triple.bind (svalue_operand here fun _ holds => holds)
  intro got
  apply Triple.given (φ := got = str ∧ str.length + 1 ≤ maxString)
  · rintro s ⟨same, held⟩
    exact ⟨same, held.small str (List.mem_of_getElem? here)⟩
  rintro ⟨rfl, short⟩
  apply Triple.bind
  · apply (collectLength_collects stack₀ inside strs.length 1 got.length (by omega) (by omega) (by omega)).pre
    rintro s ⟨_, held⟩
    have back : strs.length - 1 = i := by omega
    refine ⟨?_, ?_, ?_⟩
    · rw [back]
      exact held
    · rw [back, drop_flatten here, List.drop_of_length_le (by omega)]
      simp
    · simp only [maxString] at short
      omega
  intro collected
  apply Triple.given (φ := collected = (strs.length, strs.flatten.length) ∧
    strs.flatten.length < maxSizet)
  · rintro s ⟨same, held⟩
    exact ⟨same, held.fits⟩
  rintro ⟨rfl, fits⟩
  apply Triple.bind
  · apply (luaZOpenspace_room (P := Operands stack₀ first last strs 0) fits).pre
    rintro s ⟨_, held⟩
    have all := held.operands
    rwa [Nat.sub_self] at all
  intro _
  apply Triple.bind
  · apply (copyStrings_copies stack₀ inside strs.length 0 (Nat.zero_add _)).pre
    rintro s ⟨held, room⟩
    exact ⟨held, room, rfl⟩
  intro copied
  apply Triple.given (φ := copied = strs.flatten.length) fun _ holds => holds.1
  rintro rfl
  apply Triple.bind ((bufferBytes_read (P := Operands stack₀ first last strs 0)).pre
    fun _ holds => holds.2)
  intro read
  apply Triple.given (φ := read = strs.flatten) fun _ holds => holds.1
  rintro rfl
  apply Triple.bind
  · apply (luaSNewlstr_made (P := Operands stack₀ first last strs 0) _).pre
    · exact fun _ holds => holds.2
    · exact fun long => ⟨fits, long⟩
  intro _
  apply Triple.given (φ := strs.flatten.length + 1 ≤ maxString) fun _ holds => holds.2
  intro small
  have start : last + 1 - strs.length = first := by omega
  rw [start]
  apply Triple.bind (R := fun _ s =>
    Passed stack₀ first last strs strs.length [strs.flatten] s.stack)
  · apply (setsvalue_sets (P := Operands stack₀ first last strs 0) _).pre
    · exact fun _ holds => holds.1
    · exact fun stack held => held.joined inside two small
  intro _
  exact Triple.ret fun s passed => ⟨_, passed⟩

-- the last operand is empty, and the one before it has been converted
theorem Operands.dropLast {stack : Nat → TValue} {i : Nat}
    (held : Operands stack₀ first last strs i stack) (at' : i + 2 = strs.length)
    (empty : strs[i + 1]? = some []) :
    Passed stack₀ first last strs 2 (strs.take (i + 1)) stack := by
  have length : (strs.take (i + 1)).length = i + 1 := by
    rw [List.length_take]
    omega
  refine ⟨⟨?_, ?_, ?_, held.others⟩, ?_, ?_, le_rfl, by omega⟩
  · intro j str found
    exact held.forms j str (take_found found)
  · intro j str above found
    exact held.strings j str (by omega) (take_found found)
  · exact fun str found => held.small str (List.mem_of_mem_take found)
  · have grown := take_flatten empty
    rw [List.take_of_length_le (by omega), List.append_nil] at grown
    exact grown.symm
  · rw [length]
    omega

theorem bothStrings_both {i : Nat} {str : List UInt8} (inside : last + 1 = first + strs.length)
    (at' : i + 2 = strs.length) (here : strs[i + 1]? = some str) :
    Triple (fun s => Operands stack₀ first last strs strs.length s.stack) (bothStrings mem (last + 1))
      (fun both s => both = true ∧ Operands stack₀ first last strs (i + 1) s.stack)
      (Raised mem strs.flatten) := by
  obtain ⟨form, before⟩ : ∃ form, strs[i]? = some form := operand_at (by omega)
  have slot : last + 1 - 1 = first + (i + 1) := by omega
  have slot' : last + 1 - 2 = first + i := by omega
  rw [bothStrings, slot, slot']
  apply Triple.get_bind
  intro s
  apply Triple.given (φ := tostring (s.stack (first + i)) = some form)
  · rintro t ⟨held, rfl⟩
    exact held.forms i form before
  intro found
  cases kind : s.stack (first + i) with
  | string _ | number _ =>
    apply (tostringAt_operand here (by omega)).pre
    rintro t ⟨held, _⟩
    rwa [at']
  | nil | boolean | lightuserdata | table | function | userdata | thread =>
    rw [kind] at found
    cases found

theorem concatPass_passes (inside : last + 1 = first + strs.length) (two : 2 ≤ strs.length) :
    Triple (fun s => Operands stack₀ first last strs strs.length s.stack)
      (concatPass mem (last + 1) strs.length)
      (fun n s => ∃ left, Passed stack₀ first last strs n left s.stack)
      (Raised mem strs.flatten) := by
  obtain ⟨i, at'⟩ : ∃ i, i + 2 = strs.length := ⟨strs.length - 2, by omega⟩
  obtain ⟨str, here⟩ : ∃ str, strs[i + 1]? = some str := operand_at (by omega)
  obtain ⟨form, before⟩ : ∃ form, strs[i]? = some form := operand_at (by omega)
  have slot : last + 1 - 1 = first + (i + 1) := by omega
  have slot' : last + 1 - 2 = first + i := by omega
  rw [concatPass, slot, slot']
  apply Triple.bind (bothStrings_both inside at' here)
  intro both
  apply Triple.given (φ := both = true) fun _ holds => holds.1
  rintro rfl
  rw [if_pos rfl]
  apply Triple.bind ((svalue_operand here fun _ holds => holds).pre fun _ holds => holds.2)
  intro got
  apply Triple.given (φ := got = str) fun _ holds => holds.1
  rintro rfl
  apply Triple.cond
  · intro none
    have empty : got = [] := List.eq_nil_of_length_eq_zero none
    subst empty
    apply Triple.bind ((tostringAt_operand before (by omega)).pre fun _ holds => holds.2)
    intro converted
    exact Triple.ret fun s ⟨_, held⟩ => ⟨_, held.dropLast at' here⟩
  · intro _
    exact (joinStrings_joins inside two (by omega) here).pre fun _ holds => holds.2

end Pass

/-! ## The whole call -/

/-- The text is in the slot of the first operand, and the slots of the operands are the only ones that
have changed. -/
structure Joined (stack₀ : Nat → TValue) (first last : Nat) (text : List UInt8) (stack : Nat → TValue) :
    Prop where
  result : stack first = .string text
  small : text.length + 1 ≤ maxString
  others : ∀ k, k < first ∨ last < k → stack k = stack₀ k

section Whole

variable {mem : Allocator} {stack₀ : Nat → TValue} {first last base n : Nat}
  {strs left : List (List UInt8)} {stack : Nat → TValue}

-- the next pass starts where this one has ended
theorem Passed.next (passed : Passed stack₀ first last strs n left stack) (last' : Nat) :
    Operands stack first last' left left.length stack where
  forms := passed.operands.forms
  strings := by
    intro j str above found
    rw [List.getElem?_eq_none above] at found
    cases found
  small := passed.operands.small
  others := fun _ _ => rfl

theorem Passed.joined (passed : Passed stack₀ first last strs n left stack) (one : left.length = 1) :
    Joined stack₀ first last strs.flatten stack := by
  obtain ⟨str, only⟩ := List.length_eq_one_iff.mp one
  have text : strs.flatten = str := by rw [← passed.text, only, List.flatten_singleton]
  have here : left[0]? = some str := by
    rw [only]
    rfl
  rw [text]
  exact ⟨passed.operands.strings 0 str (by omega) here,
    passed.operands.small str (List.mem_of_getElem? here), passed.operands.others⟩

theorem Joined.before {stack' : Nat → TValue} {last' : Nat} {text : List UInt8}
    (joined : Joined stack first last' text stack') (shorter : last' ≤ last)
    (others : ∀ k, k < first ∨ last < k → stack k = stack₀ k) :
    Joined stack₀ first last text stack' where
  result := joined.result
  small := joined.small
  others := by
    intro k out
    rw [joined.others k (by omega), others k out]

variable (mem) in
theorem concatLoop_joins {total : Nat} (rounds : Nat) (count : strs.length = total)
    (enough : total ≤ rounds) (two : 2 ≤ total) (inside : base + last + 1 = first + total)
    (above : base ≤ first) :
    Triple (fun s => Operands stack₀ first (base + last) strs total s.stack)
      (concatLoop mem base rounds total last)
      (fun _ s => Joined stack₀ first (base + last) strs.flatten s.stack)
      (Raised mem strs.flatten) := by
  induction rounds generalizing strs stack₀ last total with
  | zero => omega
  | succ rounds ih =>
    subst count
    apply Triple.bind (concatPass_passes inside two)
    intro n s ⟨left, passed⟩
    have two' := passed.two
    have most := passed.most
    have count := passed.count
    have shorter : base + (last - (n - 1)) ≤ base + last := by omega
    by_cases more : strs.length - (n - 1) > 1
    · rw [if_pos more]
      have rest := ih count (by omega) more (by omega) s
        (count ▸ passed.next (base + (last - (n - 1))))
      rw [passed.text] at rest
      cases ran : concatLoop mem base rounds (strs.length - (n - 1)) (last - (n - 1)) s with
      | ok _ t =>
        rw [ran] at rest
        exact rest.before shorter passed.operands.others
      | error e t =>
        rw [ran] at rest
        exact rest
    · rw [if_neg more]
      exact passed.joined (by omega)

/-! ## Strings and numbers -/

theorem stringForms_length (stack : Nat → TValue) (first total : Nat) :
    (stringForms stack first total).length = total := by
  rw [stringForms, List.length_map, List.length_range]

theorem stringForms_some {total i : Nat} {str : List UInt8}
    (found : (stringForms stack first total)[i]? = some str) :
    i < total ∧ (tostring (stack (first + i))).getD [] = str := by
  rw [stringForms, List.getElem?_map, Option.map_eq_some_iff] at found
  obtain ⟨j, at', same⟩ := found
  obtain ⟨inside, here⟩ := List.getElem?_eq_some_iff.mp at'
  rw [List.getElem_range] at here
  rw [List.length_range] at inside
  subst here
  exact ⟨inside, same⟩

theorem joinable_tostring {o : TValue} (joinable : joinable o = true) :
    tostring o = some ((tostring o).getD []) := by
  cases o with
  | string | number => rfl
  | nil | boolean | lightuserdata | table | function | userdata | thread => cases joinable

theorem joinable_small {o : TValue} (stored : ∀ str, o = .string str → str.length + 1 ≤ maxString)
    (joinable : joinable o = true) : ((tostring o).getD []).length + 1 ≤ maxString := by
  cases o with
  | string str => exact stored str rfl
  | number n => exact luaNumber2str_small n
  | nil | boolean | lightuserdata | table | function | userdata | thread => cases joinable

theorem stringForms_operands {total : Nat} (stored : Stored stack)
    (operands : ∀ k, first ≤ k → k < first + total → joinable (stack k) = true) :
    Operands stack first last (stringForms stack first total) total stack where
  forms := by
    intro j str found
    obtain ⟨inside, rfl⟩ := stringForms_some found
    exact joinable_tostring (operands (first + j) (by omega) (by omega))
  strings := by
    intro j str above found
    have inside := (stringForms_some found).1
    omega
  small := by
    intro str found
    obtain ⟨j, found⟩ := List.mem_iff_getElem?.mp found
    obtain ⟨inside, rfl⟩ := stringForms_some found
    exact joinable_small (stored (first + j)) (operands (first + j) (by omega) (by omega))
  others := fun _ _ => rfl

variable (mem) in
theorem luaVConcat_joins (total : Nat) (s : ConcatState) (two : 2 ≤ total) (inFrame : total ≤ last + 1)
    (at' : base + last + 1 = first + total) (stored : Stored s.stack)
    (operands : ∀ k, first ≤ k → k < first + total → joinable (s.stack k) = true) :
    Triple (fun t => t = s) (Concat.luaVConcat mem base total last)
      (fun _ t => Joined s.stack first (base + last) (stringForms s.stack first total).flatten t.stack)
      (Raised mem (stringForms s.stack first total).flatten) := by
  have length := stringForms_length s.stack first total
  apply (concatLoop_joins mem total length le_rfl two at' (by omega)).pre
  rintro t rfl
  exact stringForms_operands stored operands

/-- `luaV_concat` joins strings and numbers.  It fails when the text is as long as `MAX_SIZET`, when its
block would be too big, or when the last request for memory is refused; it writes outside the buffer
never, and it ends. -/
theorem concat_joins_operands (mem : Allocator) (base total last : Nat) (s : ConcatState)
    (two : 2 ≤ total) (inFrame : total ≤ last + 1) (stored : Stored s.stack)
    (operands : ∀ k, base + last + 1 - total ≤ k → k ≤ base + last → joinable (s.stack k) = true) :
    let first := base + last + 1 - total
    let text := (stringForms s.stack first total).flatten
    match Concat.luaVConcat mem base total last s with
    | .ok _ t =>
      t.stack first = .string text ∧ text.length + 1 ≤ maxString ∧
        ∀ k, k < first ∨ base + last < k → t.stack k = s.stack k
    | .error .overflow _ => maxSizet ≤ text.length
    | .error .toobig _ => text.length < maxSizet ∧ maxString < text.length + 1
    | .error .memory t => 0 < t.requests ∧ mem.granted (t.requests - 1) = false
    | .error _ _ => False := by
  intro first text
  have at' : base + last + 1 = first + total := by omega
  have outcome := luaVConcat_joins mem total s two inFrame at' stored
    (fun k above below => operands k above (by omega)) s rfl
  cases ran : Concat.luaVConcat mem base total last s with
  | ok _ t =>
    rw [ran] at outcome
    exact ⟨outcome.result, outcome.small, outcome.others⟩
  | error e t =>
    rw [ran] at outcome
    cases e <;> exact outcome

def granting : Allocator := ⟨fun _ => true, 0⟩

-- "a" and 7
def letterAndNumber : ConcatState := ⟨fun k => if k = 0 then .string [97] else .number 7, [], 0⟩

theorem letterAndNumber_joined :
    match Concat.luaVConcat granting 0 2 1 letterAndNumber with
    | .ok _ t => t.stack 0 = .string [97, 55]
    | .error _ _ => False := by
  have stored : Stored letterAndNumber.stack := by
    intro k str found
    simp only [letterAndNumber] at found
    split at found <;> cases found
    decide
  have operands : ∀ k, 0 ≤ k → k ≤ 1 → joinable (letterAndNumber.stack k) = true := by
    intro k _ _
    simp only [letterAndNumber]
    split <;> rfl
  have joined := concat_joins_operands granting 0 2 1 letterAndNumber (by decide) (by decide) stored
    operands
  have ends : ∃ t, Concat.luaVConcat granting 0 2 1 letterAndNumber = .ok ⟨⟩ t := ⟨_, rfl⟩
  obtain ⟨t, ran⟩ := ends
  rw [ran] at joined ⊢
  exact joined.1

-- the same string twice
def twice (str : List UInt8) : ConcatState := ⟨fun _ => .string str, [], 0⟩

theorem twice_toobig {str : List UInt8} (small : str.length + 1 ≤ maxString)
    (short : str.length + str.length < maxSizet) (long : maxString < str.length + str.length + 1) :
    match Concat.luaVConcat granting 0 2 1 (twice str) with
    | .error .toobig _ => True
    | _ => False := by
  have stored : Stored (twice str).stack := by
    intro k form found
    cases found
    exact small
  have length : (stringForms (twice str).stack 0 2).flatten.length = str.length + str.length := by
    have forms : stringForms (twice str).stack 0 2 = [str, str] := rfl
    rw [forms, List.flatten_cons, List.flatten_singleton, List.length_append]
  have outcome := luaVConcat_joins granting 2 (twice str) (by decide) (by decide)
    (show 0 + 1 + 1 = 0 + 2 from rfl) stored (fun k _ _ => rfl) (twice str) rfl
  cases ran : Concat.luaVConcat granting 0 2 1 (twice str) with
  | ok _ t =>
    rw [ran] at outcome
    have small := outcome.small
    omega
  | error e t =>
    rw [ran] at outcome
    cases e with
    | toobig => trivial
    | overflow =>
      simp only [Raised] at outcome
      omega
    | memory =>
      obtain ⟨_, refused⟩ := outcome
      cases refused
    | outside | endless | tagMethod => exact outcome

/-- A call also fails where memory is refused, and where the text is shorter than `MAX_SIZET` but too
long for a string. -/
theorem concat_also_fails :
    (match Concat.luaVConcat ⟨fun _ => false, 0⟩ 0 2 1 letterAndNumber with
      | .error .memory _ => True
      | _ => False) ∧
    ∃ str : List UInt8, str.length + 1 ≤ maxString ∧ str.length + str.length < maxSizet ∧
      match Concat.luaVConcat granting 0 2 1 (twice str) with
      | .error .toobig _ => True
      | _ => False := by
  have max : maxSizet = 2 ^ 64 - 3 := rfl
  have longest : maxString = 2 ^ 64 - 27 := rfl
  have length : (List.replicate (2 ^ 63 - 12) (97 : UInt8)).length = 2 ^ 63 - 12 := List.length_replicate
  generalize List.replicate (2 ^ 63 - 12) (97 : UInt8) = str at length
  exact ⟨trivial, str, by omega, by omega, twice_toobig (by omega) (by omega) (by omega)⟩

end Whole

end Lunatik.Verified.Concatenation
