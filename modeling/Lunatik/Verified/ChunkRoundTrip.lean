import Lunatik.Library.Codec
import Lunatik.Lua.Dump
import Lunatik.Verified.CheckedCode

/-! # Precompiled chunks survive a dump

`luaU_undump` reads back what `luaU_dump` wrote, field by field.  A function is `Storable`
when its sizes and positions are those of C integers, its code is checked, and its source is
there: a NULL source stands for the source of the enclosing function, so it does not come back
as NULL.  What was loaded is always storable.
-/

namespace Lunatik.Verified

open Lunatik.Kernel Lunatik.Lua Lunatik.Library

/-! ## Storable functions -/

-- an `int` that is not negative; the size of a string with its '\0' in a `size_t`
def IntFits (x : Nat) : Prop := x < 2 ^ 31

def StringFits (s : Option (List UInt8)) : Prop := ∀ bytes ∈ s, bytes.length + 1 < 2 ^ 64

def ConstantFits : Constant → Prop
  | .string s => StringFits s
  | _ => True

structure LocVarFits (v : LocVar) : Prop where
  varname : StringFits v.varname
  startpc : IntFits v.startpc
  endpc : IntFits v.endpc

/-- The fields of a function are values of their C types. -/
structure FieldsFit (f : Proto) : Prop where
  source : StringFits f.source
  linedefined : IntFits f.linedefined
  lastlinedefined : IntFits f.lastlinedefined
  sizecode : IntFits f.code.length
  sizek : IntFits f.k.length
  constants : ∀ k ∈ f.k, ConstantFits k
  sizep : IntFits f.p.length
  sizelineinfo : IntFits f.lineinfo.length
  sizelocvars : IntFits f.locvars.length
  locvars : ∀ v ∈ f.locvars, LocVarFits v
  sizeupvalues : IntFits f.upvalues.length
  upvalues : ∀ u ∈ f.upvalues, StringFits u

/-- Functions nested at most `depth` deep that can be dumped and loaded. -/
def Storable : Nat → Proto → Prop
  | 0, _ => False
  | depth + 1, f =>
    luaGCheckcode f = true ∧ FieldsFit f ∧ f.source.isSome = true ∧ ∀ q ∈ f.p, Storable depth q

/-! ## Primitive types -/

theorem loadBlock_decodes {n : Nat} {bytes : List UInt8} (size : bytes.length = n) :
    Decodes (loadBlock listRead n) bytes bytes := by
  intro rest
  rw [loadBlock_eq]
  subst size
  simp [listRead]

theorem leNat_littleEndian {n w : Nat} (fits : w < 256 ^ n) : leNat (littleEndian n w) = w := by
  induction n generalizing w with
  | zero =>
    simp only [Nat.pow_zero, Nat.lt_one_iff] at fits
    simp [littleEndian, leNat, fits]
  | succ n ih =>
    have high : w / 256 < 256 ^ n := by
      rw [Nat.div_lt_iff_lt_mul (by decide), ← Nat.pow_succ]
      exact fits
    simp only [littleEndian, leNat, ih high, UInt8.toNat_ofNat']
    omega

theorem loadWord_decodes {n w : Nat} (fits : w < 256 ^ n) :
    Decodes (loadBlock listRead n) (littleEndian n w) (littleEndian n w) ∧
      leNat (littleEndian n w) = w :=
  ⟨loadBlock_decodes (littleEndian_length n w), leNat_littleEndian fits⟩

theorem loadChar_decodes (y : UInt8) : Decodes (loadChar listRead) (dumpChar y) y :=
  (loadBlock_decodes (show [y].length = 1 from rfl)).map rfl

theorem loadInt_decodes {x : Nat} (fits : IntFits x) :
    Decodes (loadInt listRead) (dumpInt x) x := by
  unfold IntFits at fits
  have small : x < 256 ^ 4 := by omega
  obtain ⟨block, value⟩ := loadWord_decodes small
  apply block.map
  simp only [value]
  rw [if_neg (by omega)]

theorem loadNumber_decodes (x : LuaNumber) : Decodes (loadNumber listRead) (dumpNumber x) x := by
  have small : x.toNat < 256 ^ 8 := x.isLt
  obtain ⟨block, value⟩ := loadWord_decodes small
  apply block.map
  rw [value, BitVec.ofNat_toNat, BitVec.setWidth_eq]

theorem loadString_decodes {s : Option (List UInt8)} (fits : StringFits s) :
    Decodes (loadString listRead) (dumpString s) s := by
  cases s with
  | none =>
    obtain ⟨block, value⟩ := loadWord_decodes (n := 8) (w := 0) (by decide)
    apply block.map
    simp [value]
  | some bytes =>
    have small : bytes.length + 1 < 256 ^ 8 := fits bytes rfl
    obtain ⟨block, value⟩ := loadWord_decodes small
    simp only [dumpString, List.append_assoc]
    apply block.bind
    simp only [value, Nat.add_eq_zero_iff, Nat.one_ne_zero, and_false, if_false]
    apply (loadBlock_decodes (by simp)).map
    rw [List.dropLast_concat]

theorem words_littleEndian (ws : List (BitVec 32)) :
    words (ws.flatMap fun w => littleEndian 4 w.toNat) = ws := by
  induction ws with
  | nil => rfl
  | cons w ws ih =>
    have value : leNat (littleEndian 4 w.toNat) = w.toNat := leNat_littleEndian w.isLt
    simp only [List.flatMap_cons]
    simp only [littleEndian] at value ⊢
    simp only [List.cons_append, List.nil_append, words]
    simp only [littleEndian] at ih
    rw [value, ih, BitVec.ofNat_toNat, BitVec.setWidth_eq]

theorem loadWords_decodes {ws : List (BitVec 32)} (fits : IntFits ws.length) :
    Decodes (loadWords listRead) (dumpVector ws) ws := by
  apply (loadInt_decodes fits).bind
  have size : (ws.flatMap fun w => littleEndian 4 w.toNat).length = ws.length * 4 := by
    simp [List.length_flatMap, littleEndian_length]
  apply (loadBlock_decodes size).map
  rw [words_littleEndian]

/-! ## Functions -/

theorem loadConstant_decodes {k : Constant} (fits : ConstantFits k) :
    Decodes (loadConstant listRead) (dumpConstant k) k := by
  cases k with
  | nil => exact (loadChar_decodes 0).map rfl
  | boolean b =>
    apply (loadChar_decodes 1).bind
    apply (loadChar_decodes b.toUInt8).map
    cases b <;> rfl
  | number n =>
    apply (loadChar_decodes 3).bind
    exact (loadNumber_decodes n).map rfl
  | string s =>
    apply (loadChar_decodes 4).bind
    exact (loadString_decodes fits).map rfl

theorem loadLocVar_decodes {v : LocVar} (fits : LocVarFits v) :
    Decodes (loadLocVar listRead) (dumpLocVar v) v := by
  unfold dumpLocVar
  rw [List.append_assoc]
  apply (loadString_decodes fits.varname).bind
  apply (loadInt_decodes fits.startpc).bind
  exact (loadInt_decodes fits.endpc).map rfl

theorem loadMany_decodes {α : Type} {load : LoadM (List UInt8) α} {dump : α → List UInt8}
    {xs : List α} (each : ∀ x ∈ xs, Decodes load (dump x) x) :
    Decodes (loadMany load xs.length) (xs.flatMap dump) xs := by
  induction xs with
  | nil => exact Decodes.ret []
  | cons x xs ih =>
    simp only [List.flatMap_cons, List.length_cons]
    apply (each x (by simp)).bind
    exact (ih fun y member => each y (by simp [member])).map rfl

theorem loadDebug_decodes {f : Proto} (fits : FieldsFit f) :
    Decodes (loadDebug listRead) (dumpDebug false f.lineinfo f.locvars f.upvalues)
      (f.lineinfo, f.locvars, f.upvalues) := by
  simp only [dumpDebug, Bool.false_eq_true, if_false, List.append_assoc]
  apply (loadWords_decodes fits.sizelineinfo).bind
  apply (loadInt_decodes fits.sizelocvars).bind
  apply (loadMany_decodes fun v member => loadLocVar_decodes (fits.locvars v member)).bind
  apply (loadInt_decodes fits.sizeupvalues).bind
  exact (loadMany_decodes fun u member => loadString_decodes (fits.upvalues u member)).map rfl

theorem dumpFunctions_eq (strip : Bool) (source : Option (List UInt8)) (fs : List Proto) :
    dumpFunctions strip source fs = fs.flatMap (dumpFunction strip source) := by
  induction fs with
  | nil => rfl
  | cons f fs ih => rw [dumpFunctions, ih, List.flatMap_cons]

theorem dumpFunction_eq (p : Option (List UInt8)) (f : Proto) :
    dumpFunction false p f =
      dumpString (if f.source = p then none else f.source) ++
        (dumpInt f.linedefined ++ (dumpInt f.lastlinedefined ++
          (dumpChar f.nups ++ (dumpChar f.numparams ++
        (dumpChar f.isVararg ++ (dumpChar f.maxstacksize ++ (dumpCode f.code ++
        ((dumpInt f.k.length ++ (f.k.flatMap dumpConstant ++
          (dumpInt f.p.length ++ f.p.flatMap (dumpFunction false f.source)))) ++
        dumpDebug false f.lineinfo f.locvars f.upvalues)))))))) := by
  cases f
  simp [dumpFunction, dumpFunctions_eq, List.append_assoc]

-- the name of the source is dumped, or it is that of the enclosing function
theorem loadSource_decodes {source p parent : Option (List UInt8)} (fits : StringFits source)
    (same : source = p → source = parent) :
    Decodes (loadString listRead) (dumpString (if source = p then none else source))
      (if source = p then none else source)
      ∧ (source.isSome = true → (if source = p then none else source).or parent = source) := by
  split
  next elided =>
    refine ⟨loadString_decodes ?_, ?_⟩
    · simp [StringFits]
    · intro _
      rw [Option.none_or, same elided]
  next => exact ⟨loadString_decodes fits, fun given => Option.or_of_isSome given⟩

/-- A function is read back inside any enclosing function, and at the top. -/
theorem loadFunction_decodes (depth : Nat) {f : Proto} (storable : Storable depth f)
    {p parent : Option (List UInt8)} (same : f.source = p → f.source = parent) :
    Decodes (loadFunction listRead depth parent) (dumpFunction false p f) f := by
  induction depth generalizing f p parent with
  | zero => exact storable.elim
  | succ depth ih =>
    obtain ⟨checked, fits, named, nested⟩ := storable
    obtain ⟨sourceReads, sourceIs⟩ := loadSource_decodes fits.source same
    have constants : Decodes (loadConstants listRead (loadFunction listRead depth f.source))
        (dumpInt f.k.length ++ (f.k.flatMap dumpConstant ++
          (dumpInt f.p.length ++ f.p.flatMap (dumpFunction false f.source)))) (f.k, f.p) := by
      apply (loadInt_decodes fits.sizek).bind
      apply (loadMany_decodes fun k member => loadConstant_decodes (fits.constants k member)).bind
      apply (loadInt_decodes fits.sizep).bind
      exact (loadMany_decodes fun q member => ih (nested q member) fun elided => elided).map rfl
    rw [dumpFunction_eq]
    apply sourceReads.bind
    simp only [sourceIs named]
    apply (loadInt_decodes fits.linedefined).bind
    apply (loadInt_decodes fits.lastlinedefined).bind
    apply (loadChar_decodes f.nups).bind
    apply (loadChar_decodes f.numparams).bind
    apply (loadChar_decodes f.isVararg).bind
    apply (loadChar_decodes f.maxstacksize).bind
    apply Decodes.bind (m := loadCode listRead) (loadWords_decodes fits.sizecode)
    apply constants.bind
    apply (loadDebug_decodes fits).map
    cases f
    exact if_pos checked

theorem undumped_luaUDump {f : Proto} (storable : Storable luaiMaxccalls f) :
    undumped (luaUDump f false) = some f := by
  have named : f.source.isSome = true := storable.2.2.1
  have notNull : f.source = none → f.source = some (literal "=?") := by
    intro null
    rw [null] at named
    cases named
  have header : Decodes (loadHeader listRead) luaUHeader ⟨⟩ := by
    apply (loadBlock_decodes (show luaUHeader.length = 12 from rfl)).map
    rw [if_neg (by simp)]
  have whole : Decodes (luaUUndump listRead) (luaUDump f false) f :=
    header.bind (loadFunction_decodes luaiMaxccalls storable notNull)
  rw [undumped_eq_some_iff]
  refine ⟨[], ?_⟩
  have result := whole []
  rw [List.append_nil] at result
  exact result

/-! ## What was loaded -/

-- every result of `m` has the property, whatever is read
def Yields {α : Type} (m : LoadM (List UInt8) α) (ok : α → Prop) : Prop :=
  Triple (fun _ => True) m (fun x _ => ok x) (fun _ _ => True)

theorem Yields.bind {α β : Type} {m : LoadM (List UInt8) α} {f : α → LoadM (List UInt8) β}
    {ok : α → Prop} {ok' : β → Prop} (first : Yields m ok) (rest : ∀ x, ok x → Yields (f x) ok') :
    Yields (m >>= f) ok' := by
  apply Triple.bind first
  intro x
  apply Triple.given (φ := ok x) (fun _ found => found)
  intro found
  exact (rest x found).pre fun _ _ => trivial

theorem Yields.ret {α : Type} {x : α} {ok : α → Prop} (h : ok x) : Yields (pure x) ok :=
  Triple.ret fun _ _ => h

theorem Yields.any {α : Type} (m : LoadM (List UInt8) α) : Yields m fun _ => True := any_outcome m

theorem loadBlock_yields (n : Nat) : Yields (loadBlock listRead n) fun bytes =>
    bytes.length = n := by
  intro bytes _
  rw [loadBlock_eq]
  by_cases missing : n - bytes.length ≠ 0
  · simp [listRead, missing]
  · have enough : n ≤ bytes.length := by omega
    simp [listRead, enough, Nat.sub_eq_zero_of_le enough]

theorem leNat_lt (bytes : List UInt8) : leNat bytes < 256 ^ bytes.length := by
  induction bytes with
  | nil => simp [leNat]
  | cons b bytes ih =>
    have low : b.toNat < 256 := b.toNat_lt
    simp only [leNat, List.length_cons, Nat.pow_succ]
    omega

theorem loadInt_yields : Yields (loadInt listRead) IntFits := by
  apply (loadBlock_yields 4).bind
  intro bytes _
  apply Triple.cond
  · intro _
    exact Triple.bind (R := fun _ _ => False) (Triple.raise fun _ _ => trivial) fun _ =>
      Triple.ret fun _ h => h.elim
  · intro small
    exact Triple.ret fun _ _ => Nat.lt_of_not_le small

theorem loadString_yields : Yields (loadString listRead) StringFits := by
  apply (loadBlock_yields 8).bind
  intro bytes size
  have bound : leNat bytes < 2 ^ 64 := by
    have := leNat_lt bytes
    rw [size] at this
    omega
  apply Triple.cond
  · intro _
    exact Yields.ret (by simp [StringFits])
  · intro nonzero
    apply (loadBlock_yields _).bind
    intro block blockSize
    apply Yields.ret
    intro content found
    rw [Option.mem_some_iff] at found
    subst found
    rw [List.length_dropLast, blockSize]
    omega

theorem words_length (n : Nat) {bytes : List UInt8} (size : bytes.length = n * 4) :
    (words bytes).length = n := by
  induction n generalizing bytes with
  | zero =>
    rw [Nat.zero_mul, List.length_eq_zero_iff] at size
    subst size
    rfl
  | succ n ih =>
    match bytes with
    | b₀ :: b₁ :: b₂ :: b₃ :: rest =>
      simp only [List.length_cons] at size
      simp only [words, List.length_cons, ih (show rest.length = n * 4 by omega)]
    | [] | [_] | [_, _] | [_, _, _] =>
      simp only [List.length_cons, List.length_nil] at size
      omega

theorem loadWords_yields : Yields (loadWords listRead) fun ws => IntFits ws.length := by
  apply loadInt_yields.bind
  intro n fits
  apply (loadBlock_yields _).bind
  intro bytes size
  apply Yields.ret
  rw [words_length n size]
  exact fits

theorem loadConstant_yields : Yields (loadConstant listRead) ConstantFits := by
  apply (Yields.any _).bind
  intro t _
  apply Triple.cond
  · intro _
    exact Yields.ret trivial
  · intro _
    apply Triple.cond
    · intro _
      exact (Yields.any _).bind fun _ _ => Yields.ret trivial
    · intro _
      apply Triple.cond
      · intro _
        exact (Yields.any _).bind fun _ _ => Yields.ret trivial
      · intro _
        apply Triple.cond
        · intro _
          exact loadString_yields.bind fun _ fits => Yields.ret fits
        · intro _
          exact Triple.raise fun _ _ => trivial

theorem loadLocVar_yields : Yields (loadLocVar listRead) LocVarFits := by
  apply loadString_yields.bind
  intro varname name
  apply loadInt_yields.bind
  intro startpc start
  apply loadInt_yields.bind
  intro endpc stop
  exact Yields.ret ⟨name, start, stop⟩

theorem loadMany_yields {α : Type} {load : LoadM (List UInt8) α} {ok : α → Prop}
    (each : Yields load ok) (n : Nat) :
    Yields (loadMany load n) fun xs => xs.length = n ∧ ∀ x ∈ xs, ok x := by
  induction n with
  | zero => exact Yields.ret ⟨rfl, by simp⟩
  | succ n ih =>
    apply each.bind
    intro x first
    apply ih.bind
    rintro xs ⟨size, rest⟩
    apply Yields.ret
    refine ⟨by simp [size], ?_⟩
    intro y member
    rcases List.mem_cons.mp member with rfl | later
    · exact first
    · exact rest y later

theorem loadFunction_yields (depth : Nat) {parent : Option (List UInt8)}
    (named : parent.isSome = true) (parentFits : StringFits parent) :
    Yields (loadFunction listRead depth parent) (Storable depth) := by
  induction depth generalizing parent with
  | zero => exact Triple.raise fun _ _ => trivial
  | succ depth ih =>
    apply loadString_yields.bind
    intro own ownFits
    have sourceNamed : (own.or parent).isSome = true := by simp [named]
    have sourceFits : StringFits (own.or parent) := by
      cases own with
      | none => exact parentFits
      | some s => exact ownFits
    apply loadInt_yields.bind
    intro linedefined first
    apply loadInt_yields.bind
    intro lastlinedefined last
    apply (Yields.any _).bind
    intro nups _
    apply (Yields.any _).bind
    intro numparams _
    apply (Yields.any _).bind
    intro isVararg _
    apply (Yields.any _).bind
    intro maxstacksize _
    apply loadWords_yields.bind
    intro code codeFits
    have constants : Yields (loadConstants listRead (loadFunction listRead depth (own.or parent)))
        fun c => (IntFits c.1.length ∧ ∀ k ∈ c.1, ConstantFits k) ∧ IntFits c.2.length ∧
            ∀ q ∈ c.2, Storable depth q := by
      apply loadInt_yields.bind
      intro sizek kFits
      apply (loadMany_yields loadConstant_yields sizek).bind
      rintro k ⟨rfl, kAll⟩
      apply loadInt_yields.bind
      intro sizep pFits
      apply (loadMany_yields (ih sourceNamed sourceFits) sizep).bind
      rintro p ⟨rfl, pAll⟩
      exact Yields.ret ⟨⟨kFits, kAll⟩, pFits, pAll⟩
    apply constants.bind
    rintro ⟨k, p⟩ ⟨⟨kFits, kAll⟩, pFits, pAll⟩
    have debug : Yields (loadDebug listRead) fun d => IntFits d.1.length ∧
        (IntFits d.2.1.length ∧ ∀ v ∈ d.2.1, LocVarFits v) ∧ IntFits d.2.2.length ∧
            ∀ u ∈ d.2.2, StringFits u := by
      apply loadWords_yields.bind
      intro lineinfo lineFits
      apply loadInt_yields.bind
      intro sizelocvars locFits
      apply (loadMany_yields loadLocVar_yields sizelocvars).bind
      rintro locvars ⟨rfl, locAll⟩
      apply loadInt_yields.bind
      intro sizeupvalues upFits
      apply (loadMany_yields loadString_yields sizeupvalues).bind
      rintro upvalues ⟨rfl, upAll⟩
      exact Yields.ret ⟨lineFits, ⟨locFits, locAll⟩, upFits, upAll⟩
    apply debug.bind
    rintro ⟨lineinfo, locvars, upvalues⟩ ⟨lineFits, ⟨locFits, locAll⟩, upFits, upAll⟩
    apply Triple.cond
    · intro checked
      apply Yields.ret
      exact ⟨checked, ⟨sourceFits, first, last, codeFits, kFits, kAll, pFits, lineFits, locFits,
        locAll, upFits, upAll⟩,
        sourceNamed, pAll⟩
    · intro _
      exact Triple.raise fun _ _ => trivial

theorem undumped_storable {bytes : List UInt8} {f : Proto} (accepted : undumped bytes = some f) :
    Storable luaiMaxccalls f := by
  rw [undumped_eq_some_iff] at accepted
  obtain ⟨rest, loaded⟩ := accepted
  have whole : Yields (luaUUndump listRead) (Storable luaiMaxccalls) := by
    apply (Yields.any _).bind
    intro _ _
    apply loadFunction_yields luaiMaxccalls rfl
    intro name found
    cases found
    decide +kernel
  have result := whole bytes trivial
  rw [loaded] at result
  exact result

/-! ## Round trips -/

/-- A storable function survives a dump, and so does everything that was ever loaded. -/
theorem chunk_round_trip (f : Proto) :
    (Storable luaiMaxccalls f → undumped (luaUDump f false) = some f) ∧
    ∀ bytes, undumped bytes = some f → undumped (luaUDump f false) = some f := by
  constructor
  · exact undumped_luaUDump
  · intro bytes accepted
    exact undumped_luaUDump (undumped_storable accepted)

-- a function that only returns
def emptyFunction (source : Option (List UInt8)) (k : List Constant) (p : List Proto) : Proto :=
  { source, linedefined := 0, lastlinedefined := 0, nups := 0, numparams := 0, isVararg := varargIsvararg,
    maxstacksize := 2, code := [createABC 30 0 1 0], k, p, lineinfo := [],
    locvars := [], upvalues := [] }

def someConstants : List Constant := [.string (some [97, 0, 98]), .boolean true, .nil, .number (-1)]

def nestedChunk : List UInt8 :=
  luaUDump (emptyFunction (some (literal "=x")) someConstants [emptyFunction
    (some (literal "=x")) [] []]) false

theorem nestedChunk_round_trip :
    Loads nestedChunk fun f => f.k = someConstants ∧ f.sizep = 1 ∧ Storable luaiMaxccalls f ∧
      undumped (luaUDump f false) = some f ∧
        undumped (luaUDump f false) = undumped nestedChunk := by
  have loaded : Loads nestedChunk fun f => f.k = someConstants ∧ f.sizep = 1 := by decide +kernel
  obtain ⟨f, accepted, constants, nested⟩ := loaded
  have storable : Storable luaiMaxccalls f := undumped_storable accepted
  obtain ⟨survives, again⟩ := chunk_round_trip f
  exact ⟨f, accepted, constants, nested, storable, survives storable,
    (again nestedChunk accepted).trans accepted.symm⟩

/-- A source that is NULL comes back as the name that stands for none. -/
theorem sourceless_function_changes :
    luaGCheckcode (emptyFunction none [] []) = true ∧
      (Loads (luaUDump (emptyFunction none [] []) false) fun f => f.source = some (literal "=?")) ∧
      undumped (luaUDump (emptyFunction none [] []) false) ≠ some (emptyFunction none [] []) := by
  have loaded : Loads (luaUDump (emptyFunction none [] []) false) fun f =>
      f.source = some (literal "=?") := by
    decide +kernel
  refine ⟨by decide +kernel, loaded, ?_⟩
  obtain ⟨f, accepted, named⟩ := loaded
  intro same
  rw [accepted, Option.some.injEq] at same
  subst same
  cases named

end Lunatik.Verified
