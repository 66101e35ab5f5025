import Lunatik.Core.BindingFrames
import Lunatik.Library.Hoare

/-! # How high the frames of the bindings get

`Inside F h` says that the frame holds `h` values, that every index since the events `old` was
one of the frame, and that the slots below it are as they were.  Each API function gets one rule about the
height of the frame before and after; those of the bindings are made of them.
-/

namespace Lunatik.Verified

open Lunatik.Lua Lunatik.Lua.Frame Lunatik.Core.Frames Lunatik.Library

variable {W α β : Type}

/-- What lies below a frame from `base` on: the slots, and the events so far. -/
structure Floor (W : Type) where
  base : Nat
  below : Nat → TValue
  old : List (Event W)
  -- whether a pointer to the memory of a userdata may be taken or followed from now on
  pointers : Prop

/-- An index is one of the slots from `base` on, and a collection finds the slots below as they were. -/
def Floor.Valid (F : Floor W) : Event W → Prop
  | .below n top => F.base + n ≤ top
  | .collect stack top _ => F.base ≤ top ∧ ∀ j < F.base, stack j = F.below j
  | .take _ => F.pointers
  | .access _ => F.pointers

/-- The events after `old` are of a kind. -/
def Since (P : Event W → Prop) (old events : List (Event W)) : Prop :=
  ∃ new, events = new ++ old ∧ ∀ e ∈ new, P e

theorem Since.refl (P : Event W → Prop) (old : List (Event W)) : Since P old old := ⟨[], rfl, by simp⟩

theorem Since.cons {P : Event W → Prop} {old events : List (Event W)} (since : Since P old events)
    {e : Event W} (holds : P e) : Since P old (e :: events) := by
  obtain ⟨new, rfl, kind⟩ := since
  refine ⟨e :: new, rfl, fun e' member => ?_⟩
  rcases List.mem_cons.mp member with rfl | before
  · exact holds
  · exact kind e' before

/-- The top is `h` slots above the base, and nothing below the base was touched. -/
structure Inside (F : Floor W) (h : Nat) (s : FrameState W) : Prop where
  top_eq : s.top = F.base + h
  valid : Since F.Valid F.old s.events
  kept : ∀ j < F.base, s.stack j = F.below j

variable {F : Floor W} {h h' : Nat}

/-- From the height `h` to `h'`, or to an error. -/
def Climbs (F : Floor W) (h : Nat) (m : FrameM W α) (h' : Nat) : Prop :=
  Triple (Inside F h) m (fun _ => Inside F h') fun _ s => ∃ k, Inside F k s

namespace Climbs

theorem bind {m : FrameM W α} {f : α → FrameM W β} {k : Nat} (first : Climbs F h m k)
    (rest : ∀ a, Climbs F k (f a) h') : Climbs F h (m >>= f) h' :=
  Triple.bind first rest

theorem ret (a : α) : Climbs F h (pure a) h := Triple.ret fun _ inside => inside

theorem raise (e : Raised) : Climbs (α := α) F h (throw e) h' :=
  Triple.raise fun _ inside => ⟨h, inside⟩

theorem get_bind {f : FrameState W → FrameM W α} (rest : ∀ s, Climbs F h (f s) h') :
    Climbs F h (get >>= f) h' := fun s inside => rest s s inside

theorem cond {c : Prop} [Decidable c] {m₁ m₂ : FrameM W α} (pos : c → Climbs F h m₁ h')
    (neg : ¬ c → Climbs F h m₂ h') : Climbs F h (if c then m₁ else m₂) h' :=
  Triple.cond pos neg

/-- What may end at any height does not end. -/
theorem raises {m : FrameM W α} (climbs : ∀ h', Climbs F h m h') :
    Triple (Inside F h) m (fun _ _ => False) fun _ s => ∃ k, Inside F k s := by
  intro s inside
  have low := climbs 0 s inside
  have high := climbs 1 s inside
  cases ran : m s with
  | ok a t =>
    rw [ran] at low high
    have top := low.top_eq.symm.trans high.top_eq
    omega
  | error e t =>
    rw [ran] at low
    exact low

-- a part of the state that does not count
theorem world (f : W → W) : Climbs F h (modify fun s => { s with world := f s.world }) h :=
  Triple.update fun _ inside => ⟨inside.top_eq, inside.valid, inside.kept⟩

end Climbs

section Api

variable (R : Runtime W)

theorem observe_climbs {e : Event W} (valid : F.Valid e) : Climbs F h (observe e) h :=
  Triple.update fun _ inside => ⟨inside.top_eq, inside.valid.cons valid, inside.kept⟩

theorem index2adr_inside {n : Nat} (fits : n ≤ h) :
    Triple (Inside F h) (index2adr n)
      (fun o s => Inside F h s ∧ o = F.base + h - n) fun _ s => ∃ k, Inside F k s := by
  intro s inside
  have valid : F.Valid (.below n s.top) := by
    rw [Floor.Valid, inside.top_eq]
    omega
  refine ⟨observe_climbs valid s inside, ?_⟩
  rw [← inside.top_eq]

theorem index2adr_climbs {n : Nat} (fits : n ≤ h) : Climbs F h (index2adr n) h :=
  (index2adr_inside fits).conseq (fun _ inside => inside) fun _ _ result => result.1

theorem topValue_climbs {n : Nat} (fits : n ≤ h) : Climbs F h (topValue n) h :=
  (index2adr_climbs fits).bind fun _ => .get_bind fun _ => .ret _

theorem luaPop_climbs {n : Nat} (fits : n ≤ h) : Climbs F h (luaPop n) (h - n) := by
  refine Triple.bind (index2adr_inside fits) fun top => Triple.update ?_
  rintro s ⟨inside, rfl⟩
  exact ⟨by dsimp only; omega, inside.valid, inside.kept⟩

theorem push_climbs (v : TValue) : Climbs F h (Frame.push v) (h + 1) := by
  refine Triple.update fun s inside => ⟨?_, inside.valid, fun j low => ?_⟩
  · exact congrArg (· + 1) inside.top_eq
  · have other : j ≠ s.top := by
      rw [inside.top_eq]
      omega
    exact (setAt_other _ _ other).trans (inside.kept j low)

theorem checkGC_climbs : Climbs F h (checkGC R) h := by
  refine Triple.get_bind fun s => Triple.given (φ := Inside F h s) ?_ fun inside => ?_
  · rintro _ ⟨inside, rfl⟩
    exact inside
  refine Triple.pre ?_ fun _ both => both.1
  have valid : F.Valid (.collect s.stack s.top s.world) := by
    refine ⟨?_, inside.kept⟩
    rw [inside.top_eq]
    exact Nat.le_add_right F.base h
  exact (observe_climbs valid).bind fun _ => .world R.gcStep

theorem orRaise_climbs (f : W → Option (α × W)) : Climbs F h (Frame.orRaise f) h := by
  refine Climbs.get_bind fun s => ?_
  split
  next a world _ => exact (Climbs.world fun _ => world).bind fun _ => .ret a
  next => exact .raise _

theorem orRaiseUnit_climbs (f : W → Option W) : Climbs F h (orRaiseUnit f) h :=
  orRaise_climbs _

/-! ## Access functions -/

theorem luaTouserdata_climbs (pointers : F.pointers) {n : Nat} (fits : n ≤ h) :
    Climbs F h (luaTouserdata n) h := by
  refine (topValue_climbs fits).bind fun o => ?_
  split
  next u => exact (observe_climbs (e := .take u) pointers).bind fun _ => .ret _
  next => exact .ret _
  next => exact .ret _

theorem luaTointeger_climbs {n : Nat} (fits : n ≤ h) :
    Climbs F h (Frame.luaTointeger n) h :=
  (topValue_climbs fits).bind fun _ => .ret _

theorem luaIsnumber_climbs {n : Nat} (fits : n ≤ h) :
    Climbs F h (Frame.luaIsnumber n) h :=
  (topValue_climbs fits).bind fun _ => .ret _

theorem luaRawequal_climbs {i j : Nat} (fits : i ≤ h) (fits' : j ≤ h) :
    Climbs F h (luaRawequal i j) h :=
  (topValue_climbs fits).bind fun _ => (topValue_climbs fits').bind fun _ => .ret _

theorem luaType_climbs {n : Nat} (fits : n ≤ h) : Climbs F h (luaType n) h :=
  (topValue_climbs fits).bind fun _ => .ret _

-- a value of the frame is replaced by its text
theorem tostringAt_climbs {o : Nat} (inFrame : F.base ≤ o) :
    Climbs F h (Frame.tostringAt R o) h := by
  refine Climbs.get_bind fun s => ?_
  split
  next => exact .ret _
  next n =>
    refine (orRaiseUnit_climbs _).bind fun _ => Climbs.bind (k := h) ?_ fun _ => .ret _
    refine Triple.update fun t inside => ⟨inside.top_eq, inside.valid, fun j low => ?_⟩
    exact (setAt_other _ _ (by omega)).trans (inside.kept j low)
  next => exact .ret _

theorem luaTolstring_climbs {n : Nat} (fits : n ≤ h) :
    Climbs F h (Frame.luaTolstring R n) h := by
  refine Triple.bind (index2adr_inside fits) fun o => Triple.given (φ := F.base ≤ o) ?_ fun inFrame => ?_
  · rintro s ⟨-, rfl⟩
    omega
  refine Triple.pre ?_ fun _ both => both.1
  refine Climbs.get_bind fun s => ?_
  split
  next => exact Climbs.ret _
  next =>
    refine (tostringAt_climbs R inFrame).bind fun text => ?_
    cases text with
    | none => exact .ret _
    | some s => exact (checkGC_climbs R).bind fun _ => (index2adr_climbs fits).bind fun _ => .ret _

theorem luaObjlen_climbs {n : Nat} (fits : n ≤ h) :
    Climbs F h (Frame.luaObjlen R n) h := by
  refine Triple.bind (index2adr_inside fits) fun o => Triple.given (φ := F.base ≤ o) ?_ fun inFrame => ?_
  · rintro s ⟨-, rfl⟩
    omega
  refine Triple.pre ?_ fun _ both => both.1
  refine Climbs.get_bind fun s => ?_
  split
  next => exact Climbs.ret _
  next => exact (tostringAt_climbs R inFrame).bind fun _ => .ret _
  next => exact Climbs.get_bind fun _ => .ret _
  next => exact Climbs.get_bind fun _ => .ret _
  next => exact Climbs.ret _

/-! ## Push, get and set functions -/

theorem luaPushlstring_climbs (s : List UInt8) :
    Climbs F h (Frame.luaPushlstring R s) (h + 1) :=
  (checkGC_climbs R).bind fun _ => (orRaiseUnit_climbs _).bind fun _ => push_climbs _

theorem luaPushcfunction_climbs (f : Nat) : Climbs F h (luaPushcfunction R f) (h + 1) :=
  (checkGC_climbs R).bind fun _ => (orRaise_climbs _).bind fun _ => push_climbs _

theorem luaGetRegistryField_climbs (k : String) :
    Climbs F h (luaGetRegistryField R k) (h + 1) :=
  (orRaiseUnit_climbs _).bind fun _ => (orRaise_climbs _).bind fun _ => push_climbs _

theorem luaCreatetable_climbs (nrec : Int) :
    Climbs F h (Frame.luaCreatetable R nrec) (h + 1) :=
  (checkGC_climbs R).bind fun _ => (orRaise_climbs _).bind fun _ => push_climbs _

theorem luaNewuserdata_climbs (pointers : F.pointers) (size : Nat) :
    Climbs F h (luaNewuserdata R size) (h + 1) := by
  refine (checkGC_climbs R).bind fun _ => (orRaise_climbs _).bind fun u => ?_
  exact (push_climbs _).bind fun _ => observe_climbs (e := .take u) pointers

-- L->top--
theorem dropTop_climbs : Climbs F (h + 1)
    (modify fun s => { s with top := s.top - 1 }) h := by
  refine Triple.update fun s inside => ⟨?_, inside.valid, inside.kept⟩
  have top := inside.top_eq
  dsimp only
  omega

theorem storeField_climbs (t : TValue) (k : String) :
    Climbs F (h + 1) (storeField R t k) h := by
  refine (orRaiseUnit_climbs _).bind fun _ => (topValue_climbs (by omega)).bind fun v => ?_
  exact (orRaiseUnit_climbs _).bind fun _ => dropTop_climbs

theorem luaSetfield_climbs {n : Nat} (fits : n ≤ h + 1) (k : String) :
    Climbs F (h + 1) (Frame.luaSetfield R n k) h :=
  (topValue_climbs fits).bind fun t => storeField_climbs R t k

theorem luaSetRegistryField_climbs (k : String) :
    Climbs F (h + 1) (luaSetRegistryField R k) h :=
  .get_bind fun _ => storeField_climbs R _ k

theorem luaRawseti_climbs {n : Nat} (fits : n ≤ h + 1) (i : Int) :
    Climbs F (h + 1) (Frame.luaRawseti R n i) h := by
  refine (topValue_climbs fits).bind fun t => (topValue_climbs (by omega)).bind fun v => ?_
  exact (orRaiseUnit_climbs _).bind fun _ => dropTop_climbs

theorem luaSetmetatable_climbs {n : Nat} (fits : n ≤ h + 1) :
    Climbs F (h + 1) (Frame.luaSetmetatable R n) h := by
  refine (topValue_climbs (by omega)).bind fun mt => (topValue_climbs fits).bind fun o => ?_
  refine Triple.update fun s inside => ⟨?_, inside.valid, inside.kept⟩
  have top := inside.top_eq
  dsimp only
  omega

/-! ## Errors -/

theorem luaError_climbs : Climbs (α := α) F (h + 1) luaError h' :=
  (index2adr_climbs (by omega)).bind fun _ => .raise _

theorem luaConcat_climbs (first second : List UInt8) :
    Climbs F (h + 2) (luaConcat R first second) (h + 1) := by
  refine Triple.bind (index2adr_inside (by omega)) fun o => Triple.given (φ := F.base ≤ o) ?_ fun inFrame => ?_
  · rintro s ⟨-, rfl⟩
    omega
  refine Triple.pre ?_ fun _ both => both.1
  refine (checkGC_climbs R).bind fun _ => (orRaiseUnit_climbs _).bind fun _ => Triple.update ?_
  refine fun s inside => ⟨?_, inside.valid, fun j low => ?_⟩
  · have top := inside.top_eq
    dsimp only
    omega
  · exact (setAt_other _ _ (by omega)).trans (inside.kept j low)

theorem luaLError_climbs (message : List UInt8) :
    Climbs (α := α) F h (luaLError R message) h' := by
  refine .get_bind fun s => (luaPushlstring_climbs R _).bind fun _ => ?_
  refine (luaPushlstring_climbs R _).bind fun _ => (luaConcat_climbs R _ _).bind fun _ => ?_
  exact luaError_climbs

theorem luaLTyperror_climbs {narg : Nat} (fits : narg ≤ h) (tname : String) :
    Climbs (α := α) F h (Frame.luaLTyperror R narg tname) h' := by
  refine (luaType_climbs fits).bind fun t => (luaPushlstring_climbs R _).bind fun _ => ?_
  exact .get_bind fun s => luaLError_climbs R _

/-! ## `lauxlib.c` -/

theorem luaLCheckinteger_climbs {narg : Nat} (fits : narg ≤ h) :
    Climbs F h (Frame.luaLCheckinteger R narg) h := by
  refine (luaTointeger_climbs fits).bind fun d => .cond (fun _ => ?_) fun _ => .ret _
  refine (luaIsnumber_climbs fits).bind fun isNumber => .cond (fun _ => .ret _) fun _ => ?_
  exact luaLTyperror_climbs R fits _

theorem luaGetmetatable_climbs {n : Nat} (fits : n ≤ h) :
    Triple (Inside F h) (Frame.luaGetmetatable R n)
      (fun found => Inside F (if found then h + 1 else h))
      fun _ s => ∃ k, Inside F k s := by
  refine Triple.bind (topValue_climbs fits) fun o => Triple.get_bind fun s => ?_
  refine Triple.pre ?_ fun _ both => both.1
  split
  next => exact Triple.ret fun _ inside => inside
  next mt _ => exact Triple.bind (push_climbs mt) fun _ => Triple.ret fun _ inside => inside

theorem luaLCheckudata_climbs (pointers : F.pointers) {ud : Nat} (fits : ud ≤ h) (tname : String) :
    Climbs F h (Frame.luaLCheckudata R ud tname) h := by
  refine (luaTouserdata_climbs pointers fits).bind fun p => ?_
  split
  next p =>
    refine Triple.bind (luaGetmetatable_climbs R fits) fun found => ?_
    cases found with
    | false => exact luaLTyperror_climbs R fits tname
    | true =>
      refine Triple.bind (luaGetRegistryField_climbs R (h := h + 1) tname) fun _ => ?_
      refine (luaRawequal_climbs (by omega) (by omega)).bind fun correct => .cond (fun _ => ?_) fun _ => ?_
      · exact (luaPop_climbs (by omega)).bind fun _ => .ret _
      · exact luaLTyperror_climbs R (by omega) tname
  next => exact luaLTyperror_climbs R fits tname

theorem luaLNewmetatable_climbs (tname : String) :
    Climbs F h (Frame.luaLNewmetatable R tname) (h + 1) := by
  refine (luaGetRegistryField_climbs R tname).bind fun _ => ?_
  refine (luaType_climbs (by omega)).bind fun t => .cond (fun _ => ?_) fun _ => .ret _
  refine (luaPop_climbs (by omega)).bind fun _ => (luaCreatetable_climbs R 0).bind fun _ => ?_
  refine (luaPushlstring_climbs R _).bind fun _ => (luaSetfield_climbs R (by omega) _).bind fun _ => ?_
  refine (topValue_climbs (by omega)).bind fun mt => (push_climbs mt).bind fun _ => ?_
  exact luaSetRegistryField_climbs R tname

end Api

/-! ## The bindings -/

section Bindings

variable (H : Host W)

theorem accessBlock_climbs (pointers : F.pointers) (buf : TValue) : Climbs F h (accessBlock buf) h := by
  unfold accessBlock
  split
  next u => exact observe_climbs (e := .access u) pointers
  next => exact .ret _

theorem modifyWorld_climbs (f : W → W) : Climbs F h (modifyWorld f) h := Climbs.world f

theorem raiseMessage_climbs (message : String) :
    Climbs (α := α) F h (raiseMessage H message) h' :=
  (luaPushlstring_climbs _ _).bind fun _ => luaError_climbs

theorem lunatikBufLength_climbs : Climbs F (h + 1) (lunatikBufLength H) (h + 2) :=
  (luaObjlen_climbs _ (by omega)).bind fun _ => (push_climbs _).bind fun _ => .ret _

theorem loadAt_climbs (pointers : F.pointers) (buf : TValue) (idx : Nat) : Climbs F h (loadAt H buf idx) h :=
  (accessBlock_climbs pointers buf).bind fun _ => .get_bind fun _ => .ret _

theorem bufCallLoop_climbs (pointers : F.pointers) (buf : TValue) (idxs : List Nat) :
    Climbs F (h + 1) (bufCallLoop H buf idxs) (h + 1) := by
  induction idxs with
  | nil => exact .ret _
  | cons idx rest ih =>
    refine (loadAt_climbs H pointers buf idx).bind fun c => (push_climbs _).bind fun _ => ?_
    exact (luaRawseti_climbs _ (by omega) _).bind fun _ => ih

theorem lunatikBufCall_climbs (pointers : F.pointers) : Climbs F (h + 1) (lunatikBufCall H) (h + 1) := by
  refine (luaLCheckudata_climbs _ pointers (by omega) _).bind fun buf => ?_
  refine (luaObjlen_climbs _ (by omega)).bind fun len => (luaPop_climbs (by omega)).bind fun _ => ?_
  refine (luaCreatetable_climbs _ _).bind fun _ => ?_
  exact (bufCallLoop_climbs H pointers buf _).bind fun _ => .ret _

-- a condition under which an error is raised
theorem guard_climbs {c : Prop} [Decidable c] (message : String) {m : FrameM W α}
    (rest : Climbs F h m h') :
    Climbs F h (if c then raiseMessage H message >>= fun _ : PUnit => m else m) h' :=
  .cond (fun _ => (raiseMessage_climbs H message).bind fun _ => rest) fun _ => rest

theorem storeAt_climbs (pointers : F.pointers) (buf : TValue) (idx : Nat) (val : UInt8) :
    Climbs F h (storeAt H buf idx val) h :=
  (accessBlock_climbs pointers buf).bind fun _ => modifyWorld_climbs _

theorem lunatikBufNewindex_climbs (pointers : F.pointers) : Climbs F (h + 3) (lunatikBufNewindex H) (h + 3) := by
  refine (luaLCheckudata_climbs _ pointers (by omega) _).bind fun buf => ?_
  refine (luaLCheckinteger_climbs _ (by omega)).bind fun idx => ?_
  refine (luaLCheckinteger_climbs _ (by omega)).bind fun val => ?_
  refine (luaObjlen_climbs _ (by omega)).bind fun len => guard_climbs H _ (guard_climbs H _ ?_)
  exact (storeAt_climbs H pointers buf _ _).bind fun _ => .ret _

theorem lunatikBufIndex_climbs (pointers : F.pointers) : Climbs F (h + 2) (lunatikBufIndex H) (h + 3) := by
  refine (luaLCheckudata_climbs _ pointers (by omega) _).bind fun buf => ?_
  refine (luaLCheckinteger_climbs _ (by omega)).bind fun idx => ?_
  refine (luaObjlen_climbs _ (by omega)).bind fun len => guard_climbs H _ ?_
  exact (loadAt_climbs H pointers buf _).bind fun c => (push_climbs _).bind fun _ => .ret _

theorem setMetamethod_climbs (event : TMS) (f : Nat) :
    Climbs F (h + 1) (setMetamethod H event f) (h + 1) :=
  (luaPushcfunction_climbs _ f).bind fun _ => luaSetfield_climbs _ (by omega) _

theorem newBuffer_climbs (pointers : F.pointers) (size : Nat) : Climbs F h (newBuffer H size) (h + 1) := by
  refine (luaNewuserdata_climbs _ pointers _).bind fun _ => (luaLNewmetatable_climbs _ _).bind fun _ => ?_
  refine (setMetamethod_climbs H .call _).bind fun _ => (setMetamethod_climbs H .len _).bind fun _ => ?_
  refine (setMetamethod_climbs H .newindex _).bind fun _ => ?_
  exact (setMetamethod_climbs H .index _).bind fun _ => luaSetmetatable_climbs _ (by omega)

theorem lunatikBufNew_climbs (pointers : F.pointers) : Climbs F (h + 1) (lunatikBufNew H) (h + 1) := by
  refine (luaLCheckinteger_climbs _ (by omega)).bind fun size => ?_
  exact (luaPop_climbs (by omega)).bind fun _ => (newBuffer_climbs H pointers _).bind fun _ => .ret _

theorem resultBlock_climbs (pointers : F.pointers) : Climbs F (h + 1) resultBlock (h + 1) :=
  (luaTouserdata_climbs pointers (by omega)).bind fun _ => .ret _

theorem lunatikSha1_climbs (pointers : F.pointers) : Climbs F (h + 1) (lunatikSha1 H) (h + 2) := by
  refine (luaLCheckudata_climbs _ pointers (by omega) _).bind fun buf => ?_
  refine (luaObjlen_climbs _ (by omega)).bind fun len => .get_bind fun s => .cond (fun _ => ?_) fun _ => ?_
  · refine (push_climbs _).bind fun _ => (lunatikBufNew_climbs H pointers).bind fun _ => ?_
    refine (resultBlock_climbs pointers).bind fun result => (accessBlock_climbs pointers buf).bind fun _ => ?_
    exact (accessBlock_climbs pointers result).bind fun _ => (modifyWorld_climbs _).bind fun _ => .ret _
  · exact raiseMessage_climbs H _

theorem lunatikGetRandomBytes_climbs (pointers : F.pointers) :
    Climbs F (h + 1) (lunatikGetRandomBytes H) (h + 2) := by
  refine (luaLCheckinteger_climbs _ (by omega)).bind fun x => guard_climbs H _ ?_
  refine (push_climbs _).bind fun _ => (lunatikBufNew_climbs H pointers).bind fun _ => ?_
  refine (resultBlock_climbs pointers).bind fun buf => (accessBlock_climbs pointers buf).bind fun _ => ?_
  exact (modifyWorld_climbs _).bind fun _ => .ret _

theorem printkLoop_climbs {n : Nat} (fits : n ≤ h) : Climbs F h (printkLoop H n) h := by
  induction n with
  | zero => exact .ret _
  | succ i ih =>
    refine (luaTolstring_climbs _ fits).bind fun s => (modifyWorld_climbs _).bind fun _ => ?_
    exact ih (by omega)

theorem lunatikPrintk_climbs :
    Triple (fun s => Inside F h s ∧ s.base = F.base) (lunatikPrintk H)
      (fun _ => Inside F 0) fun _ s => ∃ k, Inside F k s := by
  refine Triple.bind (R := fun n s => Inside F h s ∧ n = h) ?_ fun n => ?_
  · rintro s ⟨inside, base'⟩
    have count : s.top - s.base = h := by
      rw [inside.top_eq, base', Nat.add_sub_cancel_left]
    exact ⟨inside, count⟩
  refine Triple.given (φ := n = h) (fun _ both => both.2) ?_
  rintro rfl
  refine Triple.pre ?_ fun _ both => both.1
  have popped : Climbs F n (luaPop n >>= fun _ => (pure 0 : FrameM W Nat)) 0 := by
    have pop : Climbs F n (luaPop n) (n - n) := luaPop_climbs le_rfl
    rw [Nat.sub_self] at pop
    exact pop.bind fun _ => .ret 0
  refine Climbs.bind (printkLoop_climbs H le_rfl) fun _ => .cond (fun _ => ?_) fun _ => popped
  exact (modifyWorld_climbs _).bind fun _ => popped

theorem lunatikType_climbs : Climbs F (h + 1) (lunatikType H) (h + 1) :=
  (luaType_climbs (by omega)).bind fun t => (luaPop_climbs (by omega)).bind fun _ =>
    (luaPushlstring_climbs _ _).bind fun _ => .ret _

theorem lunatikGcCount_climbs : Climbs F h (lunatikGcCount H) (h + 1) :=
  .get_bind fun _ => (push_climbs _).bind fun _ => .ret _

end Bindings

end Lunatik.Verified
