import Lunatik.Verified.BufferCalls
import Lunatik.Verified.FrameHeights

/-! # The bindings stay on their frames

A binding that looks at its last argument without a look at their number needs one: without it, the index
is the slot below the frame.  All others stay on their frames for every number of arguments.
-/

namespace Lunatik.Verified

open Lunatik.Lua Lunatik.Lua.Frame Lunatik.Core.Frames Lunatik.Library

variable {W α β : Type} {F : Floor W}

/-! ## Without arguments -/

-- what was observed stays observed
@[grind] def Recorded (e : Event W) (s : FrameState W) : Prop := e ∈ s.events

abbrev Records (e : Event W) (m : FrameM W α) : Prop := Kept (Recorded e) m

section Records

variable {e : Event W} (R : Runtime W)

@[grind ←] theorem observe_records (e' : Event W) : Records e (observe e') :=
  Kept.update fun _ before => List.mem_cons_of_mem e' before

@[grind ←] theorem index2adr_records (n : Nat) : Records e (index2adr n) := by
  unfold Frame.index2adr
  grind

@[grind ←] theorem topValue_records (n : Nat) : Records e (topValue n) := by
  unfold topValue
  grind

@[grind ←] theorem luaPop_records (n : Nat) : Records e (luaPop n) := by
  unfold Frame.luaPop
  grind

@[grind ←] theorem push_records (v : TValue) : Records e (Frame.push v) := by
  unfold Frame.push
  grind

@[grind ←] theorem checkGC_records : Records e (checkGC R) := by
  unfold checkGC
  grind

@[grind ←] theorem orRaise_records (f : W → Option (α × W)) : Records e (Frame.orRaise f) := by
  unfold Frame.orRaise
  grind

@[grind ←] theorem orRaiseUnit_records (f : W → Option W) : Records e (orRaiseUnit f) :=
  orRaise_records _

@[grind ←] theorem luaType_records (n : Nat) : Records e (luaType n) := by
  unfold luaType
  grind

@[grind ←] theorem luaTouserdata_records (n : Nat) : Records e (luaTouserdata n) := by
  unfold luaTouserdata
  grind

@[grind ←] theorem luaIsnumber_records (n : Nat) : Records e (Frame.luaIsnumber n) := by
  unfold Frame.luaIsnumber
  grind

@[grind ←] theorem luaRawequal_records (i j : Nat) : Records e (luaRawequal i j) := by
  unfold luaRawequal
  grind

@[grind ←] theorem tostringAt_records (o : Nat) : Records e (Frame.tostringAt R o) := by
  unfold Frame.tostringAt
  grind

@[grind ←] theorem luaObjlen_records (n : Nat) : Records e (Frame.luaObjlen R n) := by
  unfold Frame.luaObjlen
  grind

@[grind ←] theorem luaPushlstring_records (s : List UInt8) : Records e (Frame.luaPushlstring R s) := by
  unfold Frame.luaPushlstring
  grind

@[grind ←] theorem luaPushcfunction_records (f : Nat) : Records e (luaPushcfunction R f) := by
  unfold luaPushcfunction
  grind

@[grind ←] theorem luaGetRegistryField_records (k : String) : Records e (luaGetRegistryField R k) := by
  unfold luaGetRegistryField
  grind

@[grind ←] theorem luaCreatetable_records (nrec : Int) : Records e (Frame.luaCreatetable R nrec) := by
  unfold Frame.luaCreatetable
  grind

@[grind ←] theorem luaNewuserdata_records (size : Nat) : Records e (luaNewuserdata R size) := by
  unfold luaNewuserdata
  grind

@[grind ←] theorem luaGetmetatable_records (n : Nat) : Records e (Frame.luaGetmetatable R n) := by
  unfold Frame.luaGetmetatable
  grind

@[grind ←] theorem storeField_records (t : TValue) (k : String) : Records e (storeField R t k) := by
  unfold storeField
  grind

@[grind ←] theorem luaSetfield_records (n : Nat) (k : String) : Records e (Frame.luaSetfield R n k) := by
  unfold Frame.luaSetfield
  grind

@[grind ←] theorem luaSetRegistryField_records (k : String) : Records e (luaSetRegistryField R k) := by
  unfold luaSetRegistryField
  grind

@[grind ←] theorem luaSetmetatable_records (n : Nat) : Records e (Frame.luaSetmetatable R n) := by
  unfold Frame.luaSetmetatable
  grind

@[grind ←] theorem luaError_records : Records e (luaError : FrameM W α) := by
  unfold Frame.luaError
  grind

@[grind ←] theorem luaConcat_records (s s' : List UInt8) : Records e (luaConcat R s s') := by
  unfold luaConcat
  grind

@[grind ←] theorem luaLTyperror_records (narg : Nat) (tname : String) : Records e (Frame.luaLTyperror R narg tname : FrameM W α) := by
  unfold Frame.luaLTyperror luaLArgerror Frame.luaLError
  grind

theorem luaLNewmetatable_records (tname : String) : Records e (Frame.luaLNewmetatable R tname) := by
  refine Kept.bind (luaGetRegistryField_records R tname) fun _ => ?_
  refine Kept.bind (luaType_records 1) fun t => ?_
  split
  next =>
    refine Kept.bind (luaPop_records 1) fun _ => Kept.bind (luaCreatetable_records R 0) fun _ => ?_
    refine Kept.bind (luaPushlstring_records R _) fun _ => ?_
    refine Kept.bind (luaSetfield_records R 2 _) fun _ => Kept.bind (topValue_records 1) fun mt => ?_
    exact Kept.bind (push_records mt) fun _ => luaSetRegistryField_records R tname
  next => exact Kept.ret _

variable (H : Host W)

@[grind ←] theorem accessBlock_records (buf : TValue) : Records e (accessBlock buf) := by
  unfold accessBlock
  grind

@[grind ←] theorem modifyWorld_records (f : W → W) : Records e (modifyWorld f) := by
  unfold modifyWorld
  grind

@[grind ←] theorem raiseMessage_records (message : String) : Records e (raiseMessage H message : FrameM W α) := by
  unfold raiseMessage luaPushstring
  grind

@[grind ←] theorem setMetamethod_records (event : TMS) (f : Nat) : Records e (setMetamethod H event f) := by
  unfold setMetamethod
  grind

end Records

/-- The function begins with a look at its last argument. -/
def ReadsLast (m : FrameM W α) : Prop :=
  ∀ top, Triple (fun s => s.top = top) m (fun _ => Recorded (.below 1 top)) fun _ => Recorded (.below 1 top)

theorem ReadsLast.bind {m : FrameM W α} {f : α → FrameM W β} (reads : ReadsLast m)
    (rest : ∀ (e : Event W) a, Records e (f a)) : ReadsLast (m >>= f) :=
  fun top => Triple.bind (reads top) fun a => rest (.below 1 top) a

theorem index2adr_readsLast : ReadsLast (W := W) (index2adr 1) := by
  rintro _ s rfl
  exact List.mem_cons_self

theorem topValue_readsLast : ReadsLast (W := W) (topValue 1) :=
  index2adr_readsLast.bind fun e o => by grind

section ReadsLast

variable (R : Runtime W) (H : Host W)

theorem luaLCheckinteger_readsLast : ReadsLast (Frame.luaLCheckinteger R 1) := by
  have first : ReadsLast (W := W) (Frame.luaTointeger 1) := topValue_readsLast.bind fun e o => by grind
  exact first.bind fun e d => by grind

theorem luaLCheckudata_readsLast (tname : String) : ReadsLast (Frame.luaLCheckudata R 1 tname) := by
  have first : ReadsLast (W := W) (luaTouserdata 1) := topValue_readsLast.bind fun e o => by grind
  exact first.bind fun e d => by grind

theorem newBuffer_records (e : Event W) (size : Nat) : Records e (newBuffer H size) := by
  refine Kept.bind (luaNewuserdata_records _ _) fun _ => ?_
  refine Kept.bind (luaLNewmetatable_records _ _) fun _ => ?_
  refine Kept.bind (setMetamethod_records H .call _) fun _ => ?_
  refine Kept.bind (setMetamethod_records H .len _) fun _ => ?_
  refine Kept.bind (setMetamethod_records H .newindex _) fun _ => ?_
  exact Kept.bind (setMetamethod_records H .index _) fun _ => luaSetmetatable_records _ 2

theorem lunatikBufNew_readsLast : ReadsLast (lunatikBufNew H) := by
  refine (luaLCheckinteger_readsLast _).bind fun e size => Kept.bind (luaPop_records 1) fun _ => ?_
  exact Kept.bind (newBuffer_records H e _) fun _ => Kept.ret _

@[grind ←] theorem lunatikBufNew_records (e : Event W) : Records e (lunatikBufNew H) := by
  refine Kept.bind ?_ fun size => Kept.bind (luaPop_records 1) fun _ => ?_
  · unfold Frame.luaLCheckinteger Frame.luaTointeger
    grind
  · exact Kept.bind (newBuffer_records H e _) fun _ => Kept.ret _

@[grind ←] theorem resultBlock_records (e : Event W) : Records e resultBlock := by
  unfold resultBlock
  grind

theorem lunatikSha1_readsLast : ReadsLast (lunatikSha1 H) := by
  refine (luaLCheckudata_readsLast _ _).bind fun e buf => Kept.bind (luaObjlen_records _ 1) fun _ => ?_
  refine Kept.get_bind fun s _ => ?_
  split
  next =>
    refine Kept.bind (push_records _) fun _ => Kept.bind (lunatikBufNew_records H e) fun _ => ?_
    refine Kept.bind (resultBlock_records e) fun result => ?_
    grind
  next => exact raiseMessage_records H _

theorem lunatikGetRandomBytes_readsLast : ReadsLast (lunatikGetRandomBytes H) := by
  refine (luaLCheckinteger_readsLast _).bind fun e x => ?_
  have rest : Records e (do
      luaPushinteger ((x.setWidth 32).signExtend 64)
      let _ ← lunatikBufNew H
      let buf ← resultBlock
      accessBlock buf
      modifyWorld fun w => H.getRandomBytes w buf (x.setWidth 32).toNat
      return 1) := by
    refine Kept.bind (push_records _) fun _ => Kept.bind (lunatikBufNew_records H e) fun _ => ?_
    refine Kept.bind (resultBlock_records e) fun result => ?_
    grind
  dsimp only
  split
  next => exact Kept.bind (raiseMessage_records H _) fun _ => rest
  next => exact rest

theorem lunatikType_readsLast : ReadsLast (lunatikType H) := by
  have first : ReadsLast (W := W) (luaType 1) := topValue_readsLast.bind fun e o => by grind
  refine first.bind fun e t => Kept.bind (luaPop_records 1) fun _ => ?_
  exact Kept.bind (luaPushlstring_records _ _) fun _ => Kept.ret _

end ReadsLast

/-! ## Every number of arguments -/

/-- The functions that look at their last argument whether there is one or not. -/
def needsArgument : Binding → Prop
  | .bufNew | .sha1 | .getRandomBytes | .type => True
  | _ => False

/-- Every index was one of the frame, the slots below it are as they were, and the top is not below it. -/
structure Contained (s t : FrameState W) : Prop where
  valid : ∀ n top, .below n top ∈ t.events → s.base + n ≤ top
  kept : ∀ j < s.base, t.stack j = s.stack j
  top : s.base ≤ t.top

section Contained

variable (H : Host W)

theorem body_climbs (pointers : F.pointers) (b : Binding) (n : Nat) (enough : needsArgument b → n ≠ 0) :
    Triple (fun s => Inside F (b.height n) s ∧ s.base = F.base) (b.body H)
      (fun _ s => ∃ k, Inside F k s) fun _ s => ∃ k, Inside F k s := by
  have climbs : ∀ {m : FrameM W Nat} {h'}, Climbs F (b.height n) m h' →
      Triple (fun s => Inside F (b.height n) s ∧ s.base = F.base) m
        (fun _ s => ∃ k, Inside F k s) fun _ s => ∃ k, Inside F k s :=
    fun climbs => Triple.conseq climbs (fun _ both => both.1) fun _ _ inside => ⟨_, inside⟩
  have positive : needsArgument b → ∃ m, n = m + 1 :=
    fun needs => Nat.exists_eq_succ_of_ne_zero (enough needs)
  cases b with
  | bufNew =>
    obtain ⟨m, rfl⟩ := positive trivial
    exact climbs (lunatikBufNew_climbs H pointers)
  | bufCall => exact climbs (lunatikBufCall_climbs H pointers)
  | bufLength => exact climbs (lunatikBufLength_climbs (h := 1) H)
  | bufNewindex => exact climbs (lunatikBufNewindex_climbs (h := 0) H pointers)
  | bufIndex => exact climbs (lunatikBufIndex_climbs (h := 0) H pointers)
  | sha1 =>
    obtain ⟨m, rfl⟩ := positive trivial
    exact climbs (lunatikSha1_climbs H pointers)
  | getRandomBytes =>
    obtain ⟨m, rfl⟩ := positive trivial
    exact climbs (lunatikGetRandomBytes_climbs H pointers)
  | printk =>
    exact (lunatikPrintk_climbs H).conseq (fun _ both => both) fun _ _ inside => ⟨_, inside⟩
  | type =>
    obtain ⟨m, rfl⟩ := positive trivial
    exact climbs (lunatikType_climbs H)
  | gcCount => exact climbs (lunatikGcCount_climbs H)

theorem body_readsLast {b : Binding} (needs : needsArgument b) : ReadsLast (b.body H) := by
  cases b with
  | bufNew => exact lunatikBufNew_readsLast H
  | sha1 => exact lunatikSha1_readsLast H
  | getRandomBytes => exact lunatikGetRandomBytes_readsLast H
  | type => exact lunatikType_readsLast H
  | _ => exact needs.elim

end Contained

/-! ### A call of `type` -/

-- type(...) on a stack of functions
def typeFrame (n : Nat) : FrameState Unit := ⟨fun _ => .function 0, 1, n + 1, (), []⟩

-- the values on the innermost frame
def onFrame (s : LuaState) : Nat :=
  match s.frames with
  | ci :: _ => s.top - ci.base
  | [] => 0

section Interpreter

variable {s : LuaState} {f : Nat} {tm : TValue} (native : CFunctionAt s.heap tm f)

include native

theorem callTM_height (p1 p2 p3 : TValue) (n : Nat) :
    ∃ t, callTM tm p1 p2 p3 s = .ok ⟨⟩ t ∧ onFrame t = Binding.bufNewindex.height n := by
  refine ⟨_, callTM_native native p1 p2 p3, ?_⟩
  exact Nat.add_sub_cancel_left (s.top + 1) 3

theorem callTMres_height (kont : Kont) (p1 p2 : TValue) (n : Nat) :
    ∃ t, callTMres kont tm p1 p2 s = .ok ⟨⟩ t ∧ onFrame t = Binding.bufIndex.height n ∧
      onFrame t = Binding.bufLength.height n := by
  refine ⟨_, callTMres_native native kont p1 p2, ?_⟩
  have two : s.top + 1 + 1 + 1 - (s.top + 1) = 2 := Nat.add_sub_cancel_left (s.top + 1) 2
  exact ⟨two, two⟩

end Interpreter

/-- A buffer called with `n` arguments. -/
theorem luaDCall_height {s : LuaState} {registry mt u func n : Nat}
    (metatable : (s.heap.udata u).metatable = some mt) (buf : BufferMeta registry s.heap mt)
    (called : s.stack func = .userdata u) (args : s.top = func + 1 + n) (nresults : Int) (kont : Kont) :
    ∃ t, luaDCall func nresults kont s = .ok ⟨⟩ t ∧ onFrame t = Binding.bufCall.height n ∧
      t.stack (func + 1) = .userdata u := by
  obtain ⟨r, entry, -, -, first, top, -⟩ :=
    luaDCall_buffer metatable buf called (by omega) nresults kont
  refine ⟨_, entry, ?_, first⟩
  have height : r.top - (func + 1) = n + 1 := by omega
  exact height

end Lunatik.Verified
