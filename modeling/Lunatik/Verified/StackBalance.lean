import Lunatik.Core.BaseStack
import Lunatik.Library.StateRuns

/-! # The base stack of a context

`At st p` says that the frame holds exactly `st` and never held more than `p` values.  Each API
function gets one triple over it; an operation is balanced when it returns to the stack it
started from.
-/

namespace Lunatik.Verified

open Lunatik.Core Lunatik.Library Lunatik.Lua

variable {W : Type}

def At (st : List TValue) (p : Nat) (s : ApiState W) : Prop := s.stack = st ∧ s.peak ≤ p

/-- From `st` to `st'`, unless an error is raised outside a protected call. -/
def Moves {α : Type} (p : Nat) (st : List TValue) (m : Api W α) (Q : α → ApiState W → Prop) :
    Prop :=
  Triple (At st p) m Q fun _ _ => True

section Primitives
variable {st : List TValue} {p : Nat}

theorem incrTop_moves (v : TValue) (room : st.length ≤ p) :
    Moves (W := W) p st (incrTop v) fun _ => At (v :: st) p := by
  rintro s ⟨rfl, low⟩
  exact ⟨rfl, max_le low room⟩

theorem luaPop_moves (n : Nat) : Moves (W := W) p st (luaPop n) fun _ => At (st.drop n) p := by
  rintro s ⟨rfl, low⟩
  exact ⟨rfl, low⟩

theorem luaRemove_moves (n : Nat) : Moves (W := W) p st (luaRemove n) fun _ =>
    At (st.eraseIdx (n - 1)) p := by
  rintro s ⟨rfl, low⟩
  exact ⟨rfl, low⟩

theorem replaceTop_moves (v : TValue) : Moves (W := W) p st (replaceTop v) fun _ =>
    At (v :: st.tail) p := by
  rintro s ⟨rfl, low⟩
  exact ⟨rfl, low⟩

theorem topSlot_moves (n : Nat) : Moves (W := W) p st (topSlot n) fun _ => At st p :=
  fun _ holds => holds

theorem orRaise_moves {α : Type} (f : W → Option (α × W)) :
    Moves p st (orRaise f) fun _ => At st p := by
  rintro s ⟨rfl, low⟩
  simp only [orRaise, bind_run, get_run]
  cases f s.world with
  | none => trivial
  | some result => exact ⟨rfl, low⟩

variable (I : Interpreter W)

theorem index2adr_moves (idx : Index) : Moves p st (index2adr I idx) fun _ => At st p := by
  cases idx with
  | below n => exact topSlot_moves n
  | registry => exact fun _ holds => holds
  | globals => exact fun _ holds => holds

/-! ## The API functions -/

theorem luaPushlstring_moves (s : List UInt8) (room : st.length ≤ p) :
    Moves p st (luaPushlstring I s) fun _ => At (.string s :: st) p := by
  refine (orRaise_moves _).bind fun _ => ?_
  exact incrTop_moves _ room

theorem luaPushcclosure_moves (fn : CFunction) (room : st.length ≤ p) :
    Moves p st (luaPushcclosure I fn 0) fun _ s => ∃ cl, At (cl :: st) p s := by
  refine Triple.get_bind fun s => ?_
  refine Triple.bind (R := fun _ => At st p) ?_ fun cl => ?_
  · exact (orRaise_moves _).pre fun _ holds => holds.1
  refine (luaPop_moves 0).bind fun _ => ?_
  exact (incrTop_moves cl room).conseq (fun _ holds => holds) fun _ _ holds => ⟨cl, holds⟩

theorem luaSetfield_moves (idx : Index) (k : List UInt8) :
    Moves p st (luaSetfield I idx k) fun _ => At (st.drop 1) p := by
  refine (index2adr_moves I idx).bind fun t => ?_
  refine (orRaise_moves _).bind fun _ => ?_
  refine (topSlot_moves 1).bind fun v => ?_
  refine (orRaise_moves _).bind fun _ => ?_
  exact luaPop_moves 1

theorem luaRawget_moves (idx : Index) : Moves p st (luaRawget I idx) fun _ s => ∃ v,
    At (v :: st.tail) p s := by
  refine (index2adr_moves I idx).bind fun t => ?_
  refine (topSlot_moves 1).bind fun key => ?_
  refine Triple.get_bind fun s => ?_
  refine (replaceTop_moves (I.rawget s.world t key)).conseq (fun _ holds =>
    holds.1) fun _ _ holds => ⟨_, holds⟩

theorem luaGetmetatable_moves (idx : Index) (room : st.length ≤ p) :
    Moves p st (luaGetmetatable I idx) fun found s => if found then
      ∃ mt, At (mt :: st) p s else At st p s := by
  refine (index2adr_moves I idx).bind fun o => ?_
  refine Triple.get_bind fun s => ?_
  cases I.getmetatable s.world o with
  | none => exact Triple.ret fun _ holds => holds.1
  | some mt =>
    refine Triple.bind (R := fun _ => At (mt :: st) p) ((incrTop_moves mt room).pre fun _ holds =>
      holds.1) fun _ => ?_
    exact Triple.ret fun _ holds => ⟨mt, holds⟩

theorem luaPcall_moves (f : TValue) : Moves p (f :: st) (luaPcall I) fun _ s => ∃ v,
    At (v :: st) p s := by
  refine (topSlot_moves 1).bind fun g => ?_
  refine Triple.get_bind fun s => ?_
  have below : ∀ t, At (f :: st) p t ∧ t = s → s.stack.tail = st ∧ s.peak ≤ p := by
    rintro t ⟨⟨stack, low⟩, rfl⟩
    exact ⟨by rw [stack]; rfl, low⟩
  generalize I.call s.world g = outcome
  obtain ⟨ended, w⟩ := outcome
  cases ended with
  | returned results =>
    intro t holds
    obtain ⟨tail, low⟩ := below t holds
    cases results with
    | nil => exact ⟨.nil, by rw [tail]; rfl, low⟩
    | cons r rs => exact ⟨r, by rw [tail]; rfl, low⟩
  | failed status message =>
    intro t holds
    obtain ⟨tail, low⟩ := below t holds
    exact ⟨message, by rw [tail], low⟩

theorem luaLLoadbuffer_moves (code : List UInt8) (name : String) (room : st.length ≤ p) :
    Moves p st (luaLLoadbuffer I code name) fun _ s => ∃ v, At (v :: st) p s := by
  rintro s ⟨rfl, low⟩
  exact ⟨_, rfl, max_le low room⟩

theorem luaTolstring_moves (v : TValue) :
    Moves p (v :: st) (luaTolstring I) fun _ s => ∃ v', At (v' :: st) p s := by
  refine (topSlot_moves 1).bind fun o => ?_
  cases o with
  | string s => exact Triple.ret fun _ holds => ⟨v, holds⟩
  | number n =>
    refine (orRaise_moves _).bind fun _ => ?_
    refine (replaceTop_moves (.string (luaNumber2str n))).bind fun _ => ?_
    exact Triple.ret fun _ holds => ⟨_, holds⟩
  | _ => exact Triple.ret fun _ holds => ⟨v, holds⟩

theorem luaRegister_moves (n : String) (f : CFunction) (room : st.length ≤ p) :
    Moves p st (luaRegister I n f) fun _ => At st p := by
  refine (luaPushcclosure_moves I f room).bind fun _ => ?_
  refine Triple.exists_pre fun cl => ?_
  exact luaSetfield_moves I .globals (literal n)

theorem luaLGetmetafieldTop_moves (v : TValue) (event : String) (room : st.length + 2 ≤ p) :
    Moves p (v :: st) (luaLGetmetafieldTop I event) fun found s =>
      if found then ∃ field, At (field :: v :: st) p s else At (v :: st) p s := by
  have room1 : (v :: st).length ≤ p := by
    rw [List.length_cons]
    omega
  refine (luaGetmetatable_moves I (.below 1) room1).bind fun found => ?_
  cases found with
  | false => exact Triple.ret fun _ holds => holds
  | true =>
    refine Triple.exists_pre fun mt => ?_
    have room2 : (mt :: v :: st).length ≤ p := room
    refine (luaPushlstring_moves I (literal event) room2).bind fun _ => ?_
    refine (luaRawget_moves I (.below 2)).bind fun _ => ?_
    refine Triple.exists_pre fun field => ?_
    refine (topSlot_moves 1).bind fun top => ?_
    refine Triple.cond (fun _ => ?_) fun _ => ?_
    · refine (luaPop_moves 2).bind fun _ => ?_
      exact Triple.ret fun _ holds => holds
    · refine (luaRemove_moves 2).bind fun _ => ?_
      exact Triple.ret fun _ holds => ⟨field, holds⟩

end Primitives

/-! ## The operations -/

section Operations
variable (I : Interpreter W) {st : List TValue} {p : Nat}

theorem resultGetStack_moves (v : TValue) (allocs : ResultAllocs) (room : st.length + 2 ≤ p) :
    Moves p (v :: st) (resultGetStack I allocs) fun _ => At (v :: st) p := by
  refine Triple.cond (fun _ => ?_) fun _ => Triple.ret fun _ holds => holds
  refine (topSlot_moves 1).bind fun o => ?_
  cases o with
  | userdata u =>
    refine Triple.cond (fun _ => ?_) fun _ => Triple.ret fun _ holds => holds
    refine (luaLGetmetafieldTop_moves I v "__name" room).bind fun found => ?_
    cases found with
    | false => exact Triple.ret fun _ holds => holds
    | true =>
      refine Triple.exists_pre fun field => ?_
      refine (luaTolstring_moves I field).bind fun _ => ?_
      refine Triple.exists_pre fun text => ?_
      exact luaPop_moves 1
  | _ => exact Triple.ret fun _ holds => holds

theorem loadcodeStack_moves (code : List UInt8) (needResult : Bool) (allocs : ResultAllocs)
    (room : st.length + 2 ≤ p) : Moves p st (loadcodeStack I code needResult allocs) fun _ =>
      At st p := by
  refine (luaLLoadbuffer_moves I code "loadcode" (by omega)).bind fun status => ?_
  refine Triple.exists_pre fun loaded => ?_
  have popped : ∀ v, Moves p (v :: st) (luaPop (W := W) 1) fun _ => At st p :=
    fun v => luaPop_moves 1
  have result : ∀ v, Moves p (v :: st)
      (do if needResult then resultGetStack I allocs
          luaPop 1) fun _ => At st p := by
    intro v
    cases needResult with
    | false => exact popped v
    | true => exact (resultGetStack_moves I v allocs room).bind fun _ => popped v
  refine Triple.cond_discard (R := fun s => ∃ v, At (v :: st) p s) (fun _ =>
    luaPcall_moves I loaded)
    (fun _ s holds => ⟨loaded, holds⟩) (Triple.exists_pre result)

/-- A library is opened at the price of one slot. -/
theorem openlib_moves (luaopenFunc : CFunction) (room : st.length ≤ p) :
    Moves p st (openlib I luaopenFunc) fun _ s => ∃ v, At (v :: st) p s := by
  refine (luaPushcclosure_moves I luaopenFunc room).bind fun _ => ?_
  refine Triple.exists_pre fun cl => ?_
  refine (luaPcall_moves I cl).bind fun _ => ?_
  exact Triple.ret fun _ holds => holds

def Global : RegFunc → Prop
  | .printk | .inspect => True
  | .buffer | .crypto => False

theorem regFunc_moves {f : RegFunc} (global : Global f) (room : st.length ≤ p) :
    Moves p st (f.run I) fun _ => At st p := by
  cases f with
  | printk => exact luaRegister_moves I "print" .printk room
  | inspect =>
    refine (luaRegister_moves I "type" .type room).bind fun _ => ?_
    exact luaRegister_moves I "gc_count" .gcCount room
  | buffer => exact global.elim
  | crypto => exact global.elim

theorem runRegfuncs_moves (regfunc : Nat → RegFunc) (bs : List Binding)
    (global : ∀ b ∈ bs, Global (regfunc b.ptr)) (room : st.length ≤ p) :
    Moves p st (BaseContext.runRegfuncs I regfunc bs) fun _ => At st p := by
  induction bs with
  | nil => exact Triple.ret fun _ holds => holds
  | cons b bs ih =>
    refine (regFunc_moves I (global b List.mem_cons_self) room).bind fun _ => ?_
    exact ih fun c later => global c (List.mem_cons_of_mem b later)

end Operations

/-! ## Runs -/

section Runs
variable (I : Interpreter W)

/-- No library is opened, and no register function that makes a library table is run. -/
def LeavesNothing (c : BaseContext W) : BaseOp → Prop
  | .bindingsLoad bindings regfunc got granted =>
    ∀ b ∈ (c.loadResult bindings got granted).taken, Global (regfunc b.ptr)
  | .openlib _ => False
  | .loadcode _ _ _ => True

theorem step_moves {c c' : BaseContext W} {op : BaseOp} {st : List TValue}
    {Q : Unit → ApiState W → Prop} (moves : Moves luaMinstack st (c.perform I op) Q)
    (before : At st luaMinstack c.api) (stepped : (BaseContext.system I).step c op = some c') :
    Q () c'.api := by
  have after := moves c.api before
  simp only [BaseContext.system, BaseContext.step] at stepped
  split at stepped
  next u api ran =>
    rw [ran] at after
    cases stepped
    exact after
  next => cases stepped

theorem at_step {c c' : BaseContext W} {op : BaseOp} {st : List TValue}
    (room : st.length + 2 ≤ luaMinstack) (before : At st luaMinstack c.api)
    (ok : LeavesNothing c op) (stepped : (BaseContext.system I).step c op = some c') :
    At st luaMinstack c'.api := by
  cases op with
  | bindingsLoad bindings regfunc got granted =>
    exact step_moves I (runRegfuncs_moves I regfunc _ ok (by omega)) before stepped
  | openlib luaopenFunc => exact ok.elim
  | loadcode code needResult allocs =>
    exact step_moves I (loadcodeStack_moves I code needResult allocs room) before stepped

/-- The base stack stays empty, and the unchecked pushes fit, as long as nothing leaves a value. -/
theorem base_stack_balanced (world : W) {ops : List BaseOp} {c : BaseContext W}
    (meets : (BaseContext.system I).Meets LeavesNothing (.created world) ops)
    (reaches : (BaseContext.system I).run (.created world) ops = some c) :
    c.api.gettop = (BaseContext.created world).api.gettop ∧ c.api.peak ≤ luaMinstack := by
  have start : At [.nil] luaMinstack (BaseContext.created world).api := ⟨rfl, Nat.zero_le _⟩
  have room : [TValue.nil].length + 2 ≤ luaMinstack := by decide
  have held : At [.nil] luaMinstack c.api :=
    (BaseContext.system I).invariant_of_meets (fun _ _ _ before ok stepped =>
      at_step I room before ok stepped)
      start meets reaches
  exact ⟨by rw [ApiState.gettop, held.1]; rfl, held.2⟩

/-- Every library that is opened takes a slot for good. -/
theorem openlib_leaves_one {c c' : BaseContext W} {luaopenFunc : CFunction}
    (room : c.api.stack.length ≤ luaMinstack) (low : c.api.peak ≤ luaMinstack)
    (stepped : (BaseContext.system I).step c (.openlib luaopenFunc) = some c') :
    c'.api.stack.length = c.api.stack.length + 1 := by
  obtain ⟨v, stack, -⟩ := step_moves I (openlib_moves I luaopenFunc room) ⟨rfl, low⟩ stepped
  rw [stack, List.length_cons]

end Runs

/-! ## A state in which nothing was loaded -/

-- empty tables, functions without results, and a counter that names new objects
def quietInterpreter : Interpreter Nat where
  registry _ := .table 0
  globals _ := .table 1
  gettable w _ _ := some (.nil, w)
  settable w _ _ _ := some w
  rawget _ _ _ := .nil
  getmetatable _ _ := none
  newtable w := some (.table w, w + 1)
  newclosure w _ _ := some (.function w, w + 1)
  newlstr w _ := some w
  call w _ := (.returned [], w)
  load w _ _ := (0, .function w, w + 1)

def loadOne (regfunc : RegFunc) : BaseOp :=
  .bindingsLoad [⟨1, none⟩] (fun _ => regfunc) (fun _ => true) fun _ => true

def inspectedOps : List BaseOp := [loadOne .inspect, .loadcode [] true ⟨true, true, true, true⟩]

theorem inspected_stack_balanced :
    ∃ c, (BaseContext.system quietInterpreter).run (.created 2) inspectedOps = some c ∧
      c.active = [1] ∧ c.api.gettop = (BaseContext.created 2).api.gettop ∧
        c.api.peak ≤ luaMinstack := by
  have meets : (BaseContext.system quietInterpreter).Meets LeavesNothing
    (.created 2) inspectedOps :=
    ⟨fun _ _ => trivial, fun _ _ => ⟨trivial, fun _ _ => trivial⟩⟩
  exact ⟨_, rfl, rfl, base_stack_balanced quietInterpreter 2 meets rfl⟩

-- one library, or one named binding, leaves a value; the base frame has no room for 21
theorem openlib_and_named_libraries_leak :
    ((BaseContext.system quietInterpreter).step (.created 2) (.openlib (.luaopen 0))).map
      (·.api.gettop) = some 1 ∧
      ((BaseContext.system quietInterpreter).step (.created 2) (loadOne .buffer)).map
        (·.api.gettop) = some 1 ∧
      ((BaseContext.system quietInterpreter).step (.created 2) (loadOne .crypto)).map
        (·.api.gettop) = some 1 ∧
      ((BaseContext.system quietInterpreter).run (.created 2)
        (.replicate 21 (.openlib (.luaopen 0)))).map
        (·.api.peak) = some (luaMinstack + 1) := by
  decide +kernel

end Lunatik.Verified
