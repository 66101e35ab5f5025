import Lunatik.Lua.Chunkid

/-! # Names of chunks fit their buffers

`Ended out text` says that `out` holds `text` and that the zero behind it was the last byte to be written.
The string functions take one such buffer to the next, as long as there is room (`strcat_ended`).
-/

namespace Lunatik.Verified

open Lunatik.Kernel Lunatik.Lua Lunatik.Lua.Chunkid Lunatik.Lua.Strcoll

/-! ## String functions -/

/-- What was written last is at `i`, and nothing was written behind it. -/
structure LastAt (out : Out) (i : Nat) (c : UInt8) : Prop where
  last : out.written.getLast? = some (i, c)
  highest : ∀ w ∈ out.written, w.1 ≤ i

structure Ended (size : Nat) (out : Out) (text : List UInt8) : Prop where
  length : out.bytes.length = size
  holds : ∃ rest, out.bytes = text ++ 0 :: rest
  zeroFree : 0 ∉ text
  last : LastAt out text.length 0

theorem puts_spec (out : Out) (i : Nat) (s : List UInt8) (room : i + s.length ≤ out.bytes.length) :
    ∃ out', puts out i s = some out' ∧
      out'.bytes = out.bytes.take i ++ s ++ out.bytes.drop (i + s.length) ∧
      ∀ w ∈ out'.written, w ∈ out.written ∨ w.1 < i + s.length := by
  induction s generalizing out i with
  | nil => exact ⟨out, rfl, by simp, fun w member => .inl member⟩
  | cons c rest ih =>
    simp only [List.length_cons] at room
    have inside : i < out.bytes.length := by omega
    obtain ⟨out', ran, bytes, written⟩ := ih ⟨out.bytes.set i c, out.written ++ [(i, c)]⟩ (i + 1)
      (by simp only [List.length_set]; omega)
    refine ⟨out', by simp [puts, putc, inside, ran], ?_, fun w member => ?_⟩
    · rw [bytes, List.take_add_one, List.take_set_of_le (Nat.le_refl i), List.drop_set_of_lt (by omega)]
      simp [inside, Nat.add_assoc, Nat.add_comm 1]
    · rcases written w member with before | new
      · rcases List.mem_append.mp before with old | here
        · exact .inl old
        · simp only [List.mem_singleton] at here
          simp [here]
      · exact .inr (by simp only [List.length_cons]; omega)

theorem puts_after (out : Out) (i : Nat) (s t : List UInt8) :
    puts out i (s ++ t) = (puts out i s).bind fun out => puts out (i + s.length) t := by
  induction s generalizing out i with
  | nil => simp [puts]
  | cons c rest ih =>
    cases stored : putc out i c with
    | none => simp [puts, stored]
    | some out' => simp [puts, stored, ih, Nat.add_assoc, Nat.add_comm 1]

/-- A string and the zero behind it are written over what is in the buffer. -/
theorem puts_ended {size : Nat} {out : Out} (capacity : out.bytes.length = size) (front text : List UInt8)
    (holds : out.bytes.take front.length = front) (zeroFree : 0 ∉ front ++ text)
    (before : ∀ w ∈ out.written, w.1 ≤ front.length) (room : front.length + text.length < size) :
    ∃ out', puts out front.length (text ++ [0]) = some out' ∧ Ended size out' (front ++ text) := by
  obtain ⟨mid, ran, bytes, written⟩ := puts_spec out front.length text (by omega)
  have midSize : mid.bytes.length = size := by
    rw [bytes]
    simp
    omega
  have inside : front.length + text.length < mid.bytes.length := by omega
  refine ⟨⟨mid.bytes.set (front.length + text.length) 0, mid.written ++ [(front.length + text.length, 0)]⟩,
    by simp [puts_after, ran, puts, putc, inside], by simp [midSize], ?_, zeroFree, ?_⟩
  · obtain ⟨c, rest, behind⟩ : ∃ c rest, out.bytes.drop (front.length + text.length) = c :: rest :=
      List.exists_cons_of_length_pos (by simp only [List.length_drop]; omega)
    exact ⟨rest, by simp [bytes, holds, behind, List.set_append_right]⟩
  · refine ⟨by simp, fun w member => ?_⟩
    simp only [List.length_append]
    rcases List.mem_append.mp member with earlier | last
    · rcases written w earlier with old | new
      · exact (before w old).trans (Nat.le_add_right _ _)
      · exact Nat.le_of_lt new
    · simp only [List.mem_singleton] at last
      simp [last]

variable {size : Nat} {out : Out} {text : List UInt8}

theorem strcpy_ended (capacity : out.bytes.length = size) (fresh : out.written = []) {s : List UInt8}
    (zeroFree : 0 ∉ s) (room : s.length < size) : ∃ out', strcpy out s = some out' ∧ Ended size out' s := by
  have written := puts_ended capacity [] s rfl zeroFree (by simp [fresh]) (by simpa using room)
  simpa [strcpy] using written

theorem Ended.outlen (ended : Ended size out text) : outlen out = some text.length := by
  obtain ⟨rest, holds⟩ := ended.holds
  rw [Chunkid.outlen, holds, List.findIdx?_eq_some_iff_getElem]
  refine ⟨by simp, by simp, fun j low => ?_⟩
  have other : text[j] ≠ 0 := fun zero => ended.zeroFree (zero ▸ List.getElem_mem low)
  simpa [List.getElem_append_left low] using other

theorem Ended.append (ended : Ended size out text) {s : List UInt8} (zeroFree : 0 ∉ s)
    (room : text.length + s.length < size) :
    ∃ out', puts out text.length (s ++ [0]) = some out' ∧ Ended size out' (text ++ s) := by
  obtain ⟨rest, holds⟩ := ended.holds
  exact puts_ended ended.length text s (by simp [holds]) (by simp [ended.zeroFree, zeroFree]) ended.last.highest room

theorem strcat_ended (ended : Ended size out text) {s : List UInt8} (zeroFree : 0 ∉ s)
    (room : text.length + s.length < size) :
    ∃ out', strcat out s = some out' ∧ Ended size out' (text ++ s) := by
  obtain ⟨out', ran, ended'⟩ := ended.append zeroFree room
  exact ⟨out', by simp [strcat, ended.outlen, ran], ended'⟩

theorem strncat_ended (ended : Ended size out text) {s : List UInt8} (zeroFree : 0 ∉ s) {count : Nat}
    (short : count ≤ s.length) (room : text.length + count < size) :
    ∃ out', strncat out s count = some out' ∧ Ended size out' (text ++ s.take count) := by
  by_cases none : count = 0
  · exact ⟨out, by simp [strncat, none], by simpa [none] using ended⟩
  · have zeroFree' : 0 ∉ s.take count := fun member => zeroFree (List.mem_of_mem_take member)
    obtain ⟨out', ran, ended'⟩ := ended.append zeroFree' (by simpa [short] using room)
    exact ⟨out', by simp [strncat, none, ended.outlen, ran], ended'⟩

/-! ## The name -/

/-- The buffer holds a string, and its last write was the zero at its end. -/
structure Terminated (size : Nat) (out : Out) : Prop where
  length : out.bytes.length = size
  inside : ∀ w ∈ out.written, w.1 < size
  ends : ∃ i, LastAt out i 0
  zero : 0 ∈ out.bytes

theorem Ended.terminated (ended : Ended size out text) : Terminated size out := by
  obtain ⟨rest, holds⟩ := ended.holds
  have room := congrArg List.length holds
  simp only [ended.length, List.length_append, List.length_cons] at room
  exact ⟨ended.length, fun w member => (ended.last.highest w member).trans_lt (by omega), ⟨_, ended.last⟩, by simp [holds]⟩

/-! The literals of `luaO_chunkid`. -/

theorem sizeof_file : sizeof " '...' " = 8 := by decide +kernel

theorem sizeof_string : sizeof " [string \"...\"] " = 17 := by decide +kernel

theorem literal_dots : literal "..." = [46, 46, 46] := by decide +kernel

theorem literal_open : literal "[string \"" = [91, 115, 116, 114, 105, 110, 103, 32, 34] := by decide +kernel

theorem literal_close : literal "\"]" = [34, 93] := by decide +kernel

/-- `=name`: the buffer is filled up with zeros. -/
theorem chunkid_literal {bufflen : Nat} (large : 20 ≤ bufflen) (fits : bufflen < sizeModulus)
    (capacity : out.bytes.length = bufflen) (fresh : out.written = []) (source : List UInt8) :
    ∃ out', luaOChunkid out (61 :: source) bufflen = some out' ∧ Terminated bufflen out' := by
  have filled : (source.take bufflen ++ List.replicate (bufflen - source.length) 0).length = bufflen := by
    simp only [List.length_append, List.length_take, List.length_replicate]
    omega
  obtain ⟨mid, ran, bytes, written⟩ := puts_spec out 0
    (source.take bufflen ++ List.replicate (bufflen - source.length) 0) (by omega)
  have midSize : mid.bytes.length = bufflen := by
    rw [bytes]
    simp only [List.take_zero, List.nil_append, Nat.zero_add, filled]
    rw [List.length_append, filled, List.length_drop]
    omega
  have inside : bufflen - 1 < mid.bytes.length := by omega
  have bound (w : Nat × UInt8) (member : w ∈ mid.written ++ [(bufflen - 1, 0)]) : w.1 ≤ bufflen - 1 := by
    rcases List.mem_append.mp member with earlier | last
    · have low := (written w earlier).resolve_left (by simp [fresh])
      omega
    · simp only [List.mem_singleton] at last
      simp [last]
  refine ⟨⟨mid.bytes.set (bufflen - 1) 0, mid.written ++ [(bufflen - 1, 0)]⟩, ?_, by simp [midSize],
    fun w member => (bound w member).trans_lt (by omega), ⟨bufflen - 1, by simp, bound⟩,
    List.mem_set (by omega) 0⟩
  simp [luaOChunkid, strncpy, ran, sizeSub_eq fits (show 1 ≤ bufflen by omega), putc, inside]

/-- `@name`: the last part of a file name. -/
theorem chunkid_file {bufflen : Nat} (large : 20 ≤ bufflen) (fits : bufflen < sizeModulus)
    (capacity : out.bytes.length = bufflen) (fresh : out.written = []) {source : List UInt8} (zeroFree : 0 ∉ source) :
    ∃ out', luaOChunkid out (64 :: source) bufflen = some out' ∧ Terminated bufflen out' := by
  have sub : sizeSub bufflen (sizeof " '...' ") = bufflen - 8 := by
    rw [sizeof_file]
    exact sizeSub_eq fits (by omega)
  obtain ⟨empty, ran, ended⟩ := strcpy_ended capacity fresh (s := []) (by simp) (by simp; omega)
  by_cases long : bufflen - 8 < source.length
  · obtain ⟨dotted, ran', ended'⟩ := strcat_ended ended (s := literal "...") (by simp [literal_dots])
      (by simp only [literal_dots, List.length_cons, List.length_nil]; omega)
    have room : ([] ++ literal "...").length + (source.drop (source.length - (bufflen - 8))).length < bufflen := by
      simp only [literal_dots, List.nil_append, List.length_cons, List.length_nil, List.length_drop]
      omega
    obtain ⟨out', ran'', ended''⟩ := strcat_ended ended' (fun member => zeroFree (List.mem_of_mem_drop member)) room
    exact ⟨out', by simp [luaOChunkid, sub, ran, long, ran', ran''], ended''.terminated⟩
  · obtain ⟨out', ran', ended'⟩ := strcat_ended ended zeroFree (by simp; omega)
    exact ⟨out', by simp [luaOChunkid, sub, ran, long, ran'], ended'.terminated⟩

/-- The text of a chunk, up to the end of its first line. -/
theorem chunkid_string {bufflen : Nat} (large : 20 ≤ bufflen) (fits : bufflen < sizeModulus)
    (capacity : out.bytes.length = bufflen) (fresh : out.written = []) {source : List UInt8} (zeroFree : 0 ∉ source)
    (plain : ∀ rest, source ≠ 61 :: rest) (plain' : ∀ rest, source ≠ 64 :: rest) :
    ∃ out', luaOChunkid out source bufflen = some out' ∧ Terminated bufflen out' := by
  have sub : sizeSub bufflen (sizeof " [string \"...\"] ") = bufflen - 17 := by
    rw [sizeof_string]
    exact sizeSub_eq fits (by omega)
  obtain ⟨opened, ran, ended⟩ := strcpy_ended capacity fresh (s := literal "[string \"") (by simp [literal_open])
    (by simp only [literal_open, List.length_cons, List.length_nil]; omega)
  let len := if bufflen - 17 < lineLength source then bufflen - 17 else lineLength source
  have short : len ≤ bufflen - 17 := by
    dsimp only [len]
    split <;> omega
  have inside : len ≤ source.length := by
    have line : lineLength source ≤ source.length := (List.takeWhile_sublist _).length_le
    dsimp only [len]
    split <;> omega
  obtain ⟨c, next⟩ : ∃ c, byteAt source len = some c := by
    have bound : len < (source ++ [0]).length := by
      simp only [List.length_append, List.length_singleton]
      omega
    exact ⟨_, List.getElem?_eq_getElem bound⟩
  have filled : ∃ text name, (do
      if c ≠ 0 then do
        let out ← strncat opened source len
        strcat out (literal "...")
      else strcat opened source) = some text ∧ Ended bufflen text name ∧ name.length + 2 < bufflen := by
    by_cases more : c ≠ 0
    · obtain ⟨cut, ran', ended'⟩ := strncat_ended ended zeroFree inside
        (by simp only [literal_open, List.length_cons, List.length_nil]; omega)
      obtain ⟨dotted, ran'', ended''⟩ := strcat_ended ended' (s := literal "...") (by simp [literal_dots])
        (by simp only [literal_open, literal_dots, List.length_append, List.length_take, List.length_cons,
              List.length_nil]; omega)
      refine ⟨dotted, _, by simp [more, ran', ran''], ended'', ?_⟩
      simp only [literal_open, literal_dots, List.length_append, List.length_take, List.length_cons, List.length_nil]
      omega
    · -- the line is the whole source
      have whole : len = source.length := by
        by_contra shorter
        have low : len < source.length := Nat.lt_of_le_of_ne inside shorter
        have zero : source[len] = 0 := by
          have here : byteAt source len = some source[len] := by
            rw [byteAt, List.getElem?_append_left low, List.getElem?_eq_getElem low]
          rw [next] at here
          exact (Option.some.inj here).symm.trans (not_not.mp more)
        exact zeroFree (zero ▸ List.getElem_mem low)
      obtain ⟨full, ran', ended'⟩ := strcat_ended ended zeroFree
        (by simp only [literal_open, List.length_cons, List.length_nil]; omega)
      refine ⟨full, _, by simp [not_not.mp more, ran'], ended', ?_⟩
      simp only [literal_open, List.length_append, List.length_cons, List.length_nil]
      omega
  obtain ⟨text, name, written, ended', room⟩ := filled
  obtain ⟨out', ran', ended''⟩ := strcat_ended ended' (s := literal "\"]") (by simp [literal_close])
    (by simp only [literal_close, List.length_cons, List.length_nil]; omega)
  refine ⟨out', ?_, ended''.terminated⟩
  unfold luaOChunkid
  split
  · exact absurd rfl (plain _)
  · exact absurd rfl (plain' _)
  · dsimp only
    rw [sub, ran]
    simp only [Option.bind_eq_bind, Option.bind_some]
    rw [show byteAt source (if bufflen - 17 < lineLength source then bufflen - 17 else lineLength source) = some c from next]
    rw [Option.bind_some]
    by_cases more : c ≠ 0
    · rw [if_pos more] at written ⊢
      simp only [Option.bind_eq_bind] at written
      rw [← Option.bind_assoc, written, Option.bind_some, ran']
    · rw [if_neg more] at written ⊢
      rw [written, Option.bind_some, ran']

/-- Every name fits into its buffer. -/
theorem chunkid_terminated (source : CString) {bufflen : Nat} (large : 20 ≤ bufflen)
    (fits : bufflen < sizeModulus) (capacity : out.bytes.length = bufflen) (fresh : out.written = []) :
    ∃ out', luaOChunkid out source.bytes bufflen = some out' ∧ Terminated bufflen out' := by
  obtain ⟨bytes, zeroFree, -⟩ := source
  by_cases equals : ∃ rest, bytes = 61 :: rest
  · obtain ⟨rest, rfl⟩ := equals
    exact chunkid_literal large fits capacity fresh rest
  · by_cases file : ∃ rest, bytes = 64 :: rest
    · obtain ⟨rest, rfl⟩ := file
      exact chunkid_file large fits capacity fresh (fun member => zeroFree (List.mem_cons_of_mem _ member))
    · exact chunkid_string large fits capacity fresh zeroFree (fun rest same => equals ⟨rest, same⟩)
        fun rest same => file ⟨rest, same⟩

/-- `luaO_chunkid` writes no more than `bufflen` bytes, the last of them a zero, also in the buffers of its
callers. -/
theorem chunk_names_fit (source : CString) :
    (∀ bufflen garbage, 20 ≤ bufflen → bufflen < sizeModulus →
      ∃ out, luaOChunkid (onStack garbage bufflen) source.bytes bufflen = some out ∧ Terminated bufflen out) ∧
    (∀ garbage, ∃ out, addinfoChunk garbage source = some out ∧ Terminated luaIdsize out) ∧
    ∀ garbage, ∃ out, lexerrorChunk garbage source = some out ∧ Terminated maxsrc out := by
  have named (bufflen : Nat) (garbage : Nat → UInt8) (large : 20 ≤ bufflen) (fits : bufflen < sizeModulus) :
      ∃ out, luaOChunkid (onStack garbage bufflen) source.bytes bufflen = some out ∧ Terminated bufflen out :=
    chunkid_terminated source large fits (by simp [onStack]) rfl
  exact ⟨named, fun garbage => named luaIdsize garbage (by decide) (by decide),
    fun garbage => named maxsrc garbage (by decide) (by decide)⟩

-- a file name of 30 bytes in a buffer of 20
theorem long_file_name_fits : ∃ out,
    luaOChunkid (onStack (fun _ => 255) 20) (64 :: List.replicate 30 97) 20 = some out ∧ Terminated 20 out :=
  (chunk_names_fit ⟨64 :: List.replicate 30 97, by decide, by decide⟩).1 20 (fun _ => 255) (by decide) (by decide)

end Lunatik.Verified
