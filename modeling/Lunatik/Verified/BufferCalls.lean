import Lunatik.Core.BufferLib
import Lunatik.Library.StateRuns

/-! # Calls of the buffer functions

What an access to a buffer comes to, from the instruction through the tag method to its end: one
lemma for each function of the API that the library uses, one for the call of a C function, and one
for each metamethod.
-/

namespace Lunatik.Verified

open Lunatik.Lua Lunatik.Core Lunatik.Library

variable {getn : Table → Nat} {registry : Nat} {s : LuaState} {u : Nat}

/-! ## Stack operations -/

-- setobj2s(L, L->top, v); L->top++
def pushed (s : LuaState) (v : TValue) : LuaState :=
  { s with stack := setAt s.stack s.top v, top := s.top + 1 }

@[simp] theorem pushed_heap (s : LuaState) (v : TValue) : (pushed s v).heap = s.heap := rfl

@[simp] theorem pushed_openupval (s : LuaState) (v : TValue) :
    (pushed s v).openupval = s.openupval := rfl

@[simp] theorem pushed_frames (s : LuaState) (v : TValue) : (pushed s v).frames = s.frames := rfl

@[simp] theorem pushed_top (s : LuaState) (v : TValue) : (pushed s v).top = s.top + 1 := rfl

@[simp] theorem pushed_stack_top (s : LuaState) (v : TValue) : (pushed s v).stack s.top = v :=
  setAt_same _ _ _

theorem pushed_stack_below (s : LuaState) (v : TValue) {j : Nat} (below : j < s.top) :
    (pushed s v).stack j = s.stack j := setAt_other _ _ (by omega)

theorem push_run (v : TValue) (s : LuaState) : push v s = .ok ⟨⟩ (pushed s v) := rfl

theorem slot_run (n : Nat) (s : LuaState) : slot n s = .ok (s.stack n) s := rfl

theorem setSlot_run (n : Nat) (v : TValue) (s : LuaState) :
    setSlot n v s = .ok ⟨⟩ { s with stack := setAt s.stack n v } := rfl

theorem setTop_run (n : Nat) (s : LuaState) : setTop n s = .ok ⟨⟩ { s with top := n } := rfl

theorem setHeap_run (h : Heap) (s : LuaState) : setHeap h s = .ok ⟨⟩ { s with heap := h } := rfl

theorem belowTop_run (n : Nat) (s : LuaState) : belowTop n s = .ok (s.stack (s.top - n)) s := rfl

theorem vmPop_run (n : Nat) (s : LuaState) : vmPop n s = .ok ⟨⟩ { s with top := s.top - n } := rfl

theorem luaPushinteger_run (n : LuaNumber) (s : LuaState) :
    luaPushinteger n s = .ok ⟨⟩ (pushed s (.number n)) := rfl

-- the slots below the top are as they were
def SameBelow (n : Nat) (stack stack' : Nat → TValue) : Prop := ∀ j, j < n → stack' j = stack j

theorem SameBelow.refl {n : Nat} {stack : Nat → TValue} : SameBelow n stack stack := fun _ _ => rfl

theorem SameBelow.trans {n : Nat} {a b c : Nat → TValue} (first : SameBelow n a b)
    (second : SameBelow n b c) :
    SameBelow n a c := fun j below => (second j below).trans (first j below)

theorem SameBelow.mono {n m : Nat} {a b : Nat → TValue} (same : SameBelow n a b) (le : m ≤ n) :
    SameBelow m a b :=
  fun j below => same j (by omega)

theorem SameBelow.setAt {n i : Nat} {stack : Nat → TValue} (above : n ≤ i) (v : TValue) :
    SameBelow n stack (setAt stack i v) := fun j below => setAt_other stack v (by omega)

/-! ## Arguments -/

theorem luaTointeger_run (n : Nat) (s : LuaState) :
    luaTointeger n s = .ok ((luaVTonumber (s.stack (s.top - n))).getD 0) s := rfl

theorem luaIsnumber_run (n : Nat) (s : LuaState) :
    luaIsnumber n s = .ok (luaVTonumber (s.stack (s.top - n))).isSome s := rfl

def notNumber : VmError := .runerror "number expected"

theorem luaLCheckinteger_run (n : Nat) (s : LuaState) :
    luaLCheckinteger n s =
      match luaVTonumber (s.stack (s.top - n)) with
      | some d => .ok d s
      | none => .error (.error notNumber) s := by
  rw [luaLCheckinteger, bind_ok (luaTointeger_run n s)]
  cases converted : luaVTonumber (s.stack (s.top - n)) with
  | none =>
    rw [Option.getD_none, if_pos rfl, bind_ok (luaIsnumber_run n s), converted]
    rfl
  | some d =>
    rw [Option.getD_some]
    split
    · rw [bind_ok (luaIsnumber_run n s), converted]
      rfl
    · rfl

theorem luaObjlen_userdata {n : Nat} (value : s.stack (s.top - n) = .userdata u) :
    luaObjlen getn n s = .ok (s.heap.udata u).bytes.length s := by
  rw [luaObjlen, bind_ok (belowTop_run n s), value]
  rfl

theorem luaObjlen_nil {n : Nat} (value : s.stack (s.top - n) = .nil) :
    luaObjlen getn n s = .ok 0 s := by
  rw [luaObjlen, bind_ok (belowTop_run n s), value]
  rfl

/-! ## Buffers -/

/-- `v` is the C function at the address `f`. -/
def CFunctionAt (h : Heap) (v : TValue) (f : Nat) : Prop :=
  ∃ id upvalues env, v = .function id ∧ h.closures id = .c f upvalues env

/-- `mt` is the metatable that `lunatik_buf_new` makes. -/
structure BufferMeta (registry : Nat) (h : Heap) (mt : Nat) : Prop where
  registered : luaHGet (h.tables registry) (.string (literal "buffer")) = .table mt
  call : CFunctionAt h (metamethod h mt .call) addrBufCall
  len : CFunctionAt h (metamethod h mt .len) addrBufLength
  newindex : CFunctionAt h (metamethod h mt .newindex) addrBufNewindex
  index : CFunctionAt h (metamethod h mt .index) addrBufIndex

/-- The userdata `u` is a buffer. -/
def IsBuffer (registry : Nat) (h : Heap) (u : Nat) : Prop :=
  ∃ mt, (h.udata u).metatable = some mt ∧ BufferMeta registry h mt

theorem luaVGettable_found {h val loop : Nat} {key : TValue}
    (found : luaHGet (s.heap.tables h) key ≠ .nil) :
    luaVGettable key val (loop + 1) (.table h) s =
      .ok ⟨⟩ { s with stack := setAt s.stack val (luaHGet (s.heap.tables h) key) } := by
  simp only [luaVGettable, bind_run, get_run, hvalue, pure_run, if_pos found, setSlot_run]

theorem vmGetfield_found {h : Nat} {k : String}
    (found : luaHGet (s.heap.tables h) (.string (literal k)) ≠ .nil) :
    vmGetfield (.table h) k s =
      .ok ⟨⟩ (pushed s (luaHGet (s.heap.tables h) (.string (literal k)))) := by
  have loop : maxtagloop = 99 + 1 := rfl
  rw [vmGetfield, bind_ok (get_run s), loop, bind_ok (luaVGettable_found found)]
  rfl

/-- `luaL_checkudata` finds a buffer, and leaves only slots above the top changed. -/
theorem luaLCheckudata_buffer {n : Nat} (buffer : IsBuffer registry s.heap u)
    (value : s.stack (s.top - n) = .userdata u) :
    ∃ stack, SameBelow s.top s.stack stack ∧
      luaLCheckudata registry n "buffer" s = .ok (.userdata u) { s with stack } := by
  obtain ⟨mt, metatable, registered, -⟩ := buffer
  obtain ⟨a, aEq⟩ : ∃ a, a = pushed s (.table mt) := ⟨_, rfl⟩
  obtain ⟨b, bEq⟩ : ∃ b, b = pushed a (.table mt) := ⟨_, rfl⟩
  have got : vmGetmetatable n s = .ok true a := by
    simp only [vmGetmetatable, bind_run, get_run, value, metatable, push_run, pure_run, aEq]
  have field : vmGetfield (.table registry) "buffer" a = .ok ⟨⟩ b := by
    have heap : a.heap = s.heap := by rw [aEq, pushed_heap]
    have some : luaHGet (a.heap.tables registry) (.string (literal "buffer")) ≠ .nil := by
      intro none
      rw [heap, registered] at none
      cases none
    rw [vmGetfield_found some, heap, registered, bEq]
  have top : b.top = s.top + 2 := by rw [bEq, pushed_top, aEq, pushed_top]
  have second : b.stack s.top = .table mt := by
    rw [bEq, pushed_stack_below _ _ (by rw [aEq, pushed_top]; omega), aEq, pushed_stack_top]
  have first : b.stack (s.top + 1) = .table mt := by
    have last : a.top = s.top + 1 := by rw [aEq, pushed_top]
    rw [← last, bEq, pushed_stack_top]
  refine ⟨b.stack, fun j below => ?_, ?_⟩
  · rw [bEq, pushed_stack_below _ _ (by rw [aEq, pushed_top]; omega), aEq,
      pushed_stack_below _ _ below]
  · rw [luaLCheckudata, bind_ok (belowTop_run n s), value]
    dsimp only
    rw [if_pos rfl, bind_ok got, if_pos rfl, bind_ok field, bind_ok (belowTop_run 1 b),
      bind_ok (belowTop_run 2 b), top, show s.top + 2 - 1 = s.top + 1 from rfl, Nat.add_sub_cancel,
      first, second, rawequalObj, if_pos (beq_self_eq_true _),
      bind_ok (vmPop_run 2 b), top, Nat.add_sub_cancel, bEq, aEq]
    rfl

/-! ## Calls of C functions -/

-- the frame of a C function called with what is from `func` to the top
def nativeFrame (s : LuaState) (func : Nat) (nresults : Int) (kont : Kont) : CallInfo :=
  { func, base := func + 1, top := s.top + luaMinstack, nresults, kont, code := .native }

def entered (s : LuaState) (func : Nat) (nresults : Int) (kont : Kont) : LuaState :=
  { s with frames := nativeFrame s func nresults kont :: s.frames, mode := .native }

theorem luaDPrecall_native {func f : Nat} {nresults : Int} {kont : Kont}
    (native : CFunctionAt s.heap (s.stack func) f) :
    luaDPrecall func nresults kont s = .ok ⟨⟩ (entered s func nresults kont) := by
  obtain ⟨id, upvalues, env, value, code⟩ := native
  have isFunction : callable func s = .ok ⟨⟩ s := by
    rw [callable, bind_ok (slot_run func s), value]
    rfl
  rw [luaDPrecall, bind_ok isFunction, bind_ok (get_run s), value]
  dsimp only
  rw [code]
  rfl

/-- A called C function of the library runs its body and returns. -/
theorem runNative_entered {func f : Nat} {nresults : Int} {kont : Kont} {body : VmM Nat}
    (native : CFunctionAt s.heap (s.stack func) f)
    (code : bufferFunction getn registry f = some body) :
    runNative getn registry (entered s func nresults kont) =
      (body >>= nativeReturn) (entered s func nresults kont) := by
  obtain ⟨id, upvalues, env, value, closure⟩ := native
  have value' : (entered s func nresults kont).stack func = .function id := value
  have closure' : (entered s func nresults kont).heap.closures id = .c f upvalues env := closure
  rw [runNative, bind_ok (get_run _)]
  dsimp only [entered, nativeFrame]
  rw [value]
  dsimp only
  rw [closure]
  dsimp only
  rw [code]

theorem nativeReturn_run {n : Nat} {ci : CallInfo} {rest : List CallInfo}
    (frames : s.frames = ci :: rest) :
    nativeReturn n s =
      resume ci { s with toShared := moveResults s.toShared ci.func ci.nresults (s.top - n), frames := rest } := by
  have popped : luaDPoscall (s.top - n) s =
      .ok ci { s with toShared := moveResults s.toShared ci.func ci.nresults (s.top - n), frames := rest } := by
    rw [luaDPoscall, bind_ok (get_run s), frames]
    rfl
  rw [nativeReturn, bind_ok (get_run s), bind_ok popped]

/-- The end of a tag method without results. -/
theorem nativeReturn_tm {ci : CallInfo} {rest : List CallInfo} (frames : s.frames = ci :: rest)
    (kont : ci.kont = .tm) (none : ci.nresults = 0) :
    nativeReturn 0 s = .ok ⟨⟩ { s with top := ci.func, frames := rest, mode := .exec } := by
  have results : moveResults s.toShared ci.func 0 (s.top - 0) =
      { s.toShared with top := ci.func } := by
    rw [moveResults]
    simp only [show ¬ ((0 : Int) < 0) by omega, if_false, Int.toNat_zero, Nat.zero_min,
      Nat.add_zero]
    congr 1
    funext j
    rw [if_neg (by omega), if_neg (by omega)]
  rw [nativeReturn_run frames, none, results, resume, kont]
  rfl

/-- The end of a tag method with one result, which goes to `res`. -/
theorem nativeReturn_tmres {ci : CallInfo} {rest : List CallInfo} {res : Nat}
    (frames : s.frames = ci :: rest) (kont : ci.kont = .tmres res) (one : ci.nresults = 1)
    (above : ci.func < s.top) :
    ∃ stack, SameBelow ci.func s.stack stack ∧
      nativeReturn 1 s = .ok ⟨⟩
        { s with
          stack := setAt stack res (s.stack (s.top - 1))
          top := ci.func
          frames := rest
          mode := .exec } := by
  obtain ⟨moved, movedEq⟩ : ∃ moved,
    moved = (moveResults s.toShared ci.func 1 (s.top - 1)).stack := ⟨_, rfl⟩
  have count : s.top - (s.top - 1) = 1 := by omega
  have results : moveResults s.toShared ci.func 1 (s.top - 1) =
      { s.toShared with stack := moved, top := ci.func + 1 } := by
    rw [movedEq, moveResults]
    simp
  have first : moved ci.func = s.stack (s.top - 1) := by
    rw [movedEq, moveResults]
    simp [count]
  refine ⟨moved, fun j below => ?_, ?_⟩
  · rw [movedEq, moveResults]
    dsimp only
    rw [if_neg (by omega), if_neg (by omega)]
  · rw [nativeReturn_run frames, one, results, resume, kont]
    simp only [bind_run, setMode, modify_run, popResult, get_run, setTop_run, pure_run,
      setSlot_run, Nat.add_sub_cancel, first]

/-! ## Tag methods of a userdata -/

theorem gettmbyobj_userdata {h : Heap} {mt : Nat} (metatable : (h.udata u).metatable = some mt)
    (event : TMS) :
    luaTGettmbyobj h (.userdata u) event = metamethod h mt event := by
  rw [luaTGettmbyobj, metatable, metamethod]

/-- `callTM` of a C function leaves its frame with the three arguments. -/
theorem callTM_native {f : Nat} {tm : TValue} (native : CFunctionAt s.heap tm f)
    (p1 p2 p3 : TValue) :
    callTM tm p1 p2 p3 s =
      .ok ⟨⟩ (entered (pushed (pushed (pushed (pushed s tm) p1) p2) p3) s.top 0 .tm) := by
  obtain ⟨t, tEq⟩ : ∃ t, t = pushed (pushed (pushed (pushed s tm) p1) p2) p3 := ⟨_, rfl⟩
  have top : t.top - 4 = s.top := by
    rw [tEq]
    exact Nat.add_sub_cancel s.top 4
  have func : t.stack s.top = tm := by
    rw [tEq, pushed_stack_below _ _ (by simp only [pushed_top]; omega),
      pushed_stack_below _ _ (by simp only [pushed_top]; omega),
      pushed_stack_below _ _ (by simp only [pushed_top]; omega),
      pushed_stack_top]
  have native' : CFunctionAt t.heap (t.stack s.top) f := by
    rw [func, tEq]
    exact native
  rw [callTM, bind_ok (push_run tm s), bind_ok (push_run p1 _), bind_ok (push_run p2 _),
    bind_ok (push_run p3 _), bind_ok (get_run _), ← tEq, top]
  exact luaDPrecall_native native'

theorem callTMres_native {f : Nat} {tm : TValue} (native : CFunctionAt s.heap tm f) (kont : Kont)
    (p1 p2 : TValue) :
    callTMres kont tm p1 p2 s =
      .ok ⟨⟩ (entered (pushed (pushed (pushed s tm) p1) p2) s.top 1 kont) := by
  obtain ⟨t, tEq⟩ : ∃ t, t = pushed (pushed (pushed s tm) p1) p2 := ⟨_, rfl⟩
  have top : t.top - 3 = s.top := by
    rw [tEq]
    exact Nat.add_sub_cancel s.top 3
  have func : t.stack s.top = tm := by
    rw [tEq, pushed_stack_below _ _ (by simp only [pushed_top]; omega),
      pushed_stack_below _ _ (by simp only [pushed_top]; omega), pushed_stack_top]
  have native' : CFunctionAt t.heap (t.stack s.top) f := by
    rw [func, tEq]
    exact native
  rw [callTMres, bind_ok (push_run tm s), bind_ok (push_run p1 _), bind_ok (push_run p2 _),
    bind_ok (get_run _), ← tEq, top]
  exact luaDPrecall_native native'

/-! ## The metamethods -/

-- what decides whether a write goes through, and where it goes
def writeChecks (len : Nat) (key v : TValue) : Except VmError (Nat × UInt8) :=
  match luaVTonumber key, luaVTonumber v with
  | some idx, some val =>
    if indexOutOfRange idx len then .error (.runerror "index out of range")
    else if val.slt 0 || (255 : LuaNumber).slt val then
      .error (.runerror "value must be between 0 and 255")
    else .ok (idx.toNat, UInt8.ofNat val.toNat)
  | _, _ => .error notNumber

def readChecks (len : Nat) (key : TValue) : Except VmError Nat :=
  match luaVTonumber key with
  | some idx =>
    if indexOutOfRange idx len then .error (.runerror "index out of  range") else .ok idx.toNat
  | none => .error notNumber

-- the heap with one byte of the userdata `u` replaced
def storedAt (h : Heap) (u i : Nat) (c : UInt8) : Heap :=
  { h with udata := setAt h.udata u { h.udata u with bytes := (h.udata u).bytes.set i c } }

theorem inRange_of_not {idx : LuaNumber} {len : Nat} (inside : indexOutOfRange idx len = false) :
    idx.toNat < len := by
  simp only [indexOutOfRange, Bool.or_eq_false_iff, decide_eq_false_iff_not, Nat.not_le] at inside
  exact inside.2

theorem lunatikBufNewindex_run (getn : Table → Nat) {key v : TValue}
    (buffer : IsBuffer registry s.heap u) (first : s.stack (s.top - 3) = .userdata u)
    (second : s.stack (s.top - 2) = key) (third : s.stack (s.top - 1) = v)
    (three : 3 ≤ s.top) :
    ∃ stack, SameBelow s.top s.stack stack ∧
      lunatikBufNewindex getn registry s =
        match writeChecks (s.heap.udata u).bytes.length key v with
        | .ok (i, c) => .ok 0 { s with stack, heap := storedAt s.heap u i c }
        | .error e => .error (.error e) { s with stack } := by
  obtain ⟨stack, same, checked⟩ := luaLCheckudata_buffer buffer first
  refine ⟨stack, same, ?_⟩
  obtain ⟨t, tEq⟩ : ∃ t : LuaState, t = { s with stack } := ⟨_, rfl⟩
  have slots : ∀ n, 1 ≤ n → n ≤ 3 → t.stack (t.top - n) = s.stack (s.top - n) := by
    intro n low high
    rw [tEq]
    exact same (s.top - n) (by omega)
  have idx := luaLCheckinteger_run 2 t
  have val := luaLCheckinteger_run 1 t
  have len : luaObjlen getn 3 t = .ok (s.heap.udata u).bytes.length t := by
    have value : t.stack (t.top - 3) = .userdata u := by rw [slots 3 (by omega) (by omega), first]
    rw [luaObjlen_userdata value, tEq]
  rw [slots 2 (by omega) (by omega), second] at idx
  rw [slots 1 (by omega) (by omega), third] at val
  rw [lunatikBufNewindex, bind_ok checked, ← tEq, writeChecks]
  cases converted : luaVTonumber key with
  | none =>
    rw [converted] at idx
    rw [bind_error idx]
  | some i =>
    rw [converted] at idx
    rw [bind_ok idx]
    cases converted' : luaVTonumber v with
    | none =>
      rw [converted'] at val
      rw [bind_error val]
    | some c =>
      rw [converted'] at val
      rw [bind_ok val, bind_ok len]
      dsimp only
      split
      next outside => rfl
      next inside =>
        split
        next => rfl
        next =>
          have bound : i.toNat < (s.heap.udata u).bytes.length :=
            inRange_of_not (by simpa using inside)
          have bound' : i.toNat < (t.heap.udata u).bytes.length := by
            rw [tEq]
            exact bound
          have stored : storeByte (.userdata u) i.toNat (UInt8.ofNat c.toNat) t =
              .ok ⟨⟩ { t with heap := storedAt t.heap u i.toNat (UInt8.ofNat c.toNat) } := by
            rw [storeByte, bind_ok (get_run t), if_pos bound']
            rfl
          rw [bind_ok stored, tEq]
          rfl

theorem lunatikBufIndex_run (getn : Table → Nat) {key : TValue}
    (buffer : IsBuffer registry s.heap u) (first : s.stack (s.top - 2) = .userdata u)
    (second : s.stack (s.top - 1) = key) (two : 2 ≤ s.top) :
    ∃ stack, SameBelow s.top s.stack stack ∧
      lunatikBufIndex getn registry s =
        match readChecks (s.heap.udata u).bytes.length key with
        | .ok i =>
          .ok 1 (pushed { s with stack } (.number
            (BitVec.ofNat 64 ((s.heap.udata u).bytes.getD i 0).toNat)))
        | .error e => .error (.error e) { s with stack } := by
  obtain ⟨stack, same, checked⟩ := luaLCheckudata_buffer buffer first
  refine ⟨stack, same, ?_⟩
  obtain ⟨t, tEq⟩ : ∃ t : LuaState, t = { s with stack } := ⟨_, rfl⟩
  have slots : ∀ n, 1 ≤ n → n ≤ 2 → t.stack (t.top - n) = s.stack (s.top - n) := by
    intro n low high
    rw [tEq]
    exact same (s.top - n) (by omega)
  have idx := luaLCheckinteger_run 1 t
  have len : luaObjlen getn 2 t = .ok (s.heap.udata u).bytes.length t := by
    have value : t.stack (t.top - 2) = .userdata u := by rw [slots 2 (by omega) (by omega), first]
    rw [luaObjlen_userdata value, tEq]
  rw [slots 1 (by omega) (by omega), second] at idx
  rw [lunatikBufIndex, bind_ok checked, ← tEq, readChecks]
  cases converted : luaVTonumber key with
  | none =>
    rw [converted] at idx
    rw [bind_error idx]
  | some i =>
    rw [converted] at idx
    rw [bind_ok idx, bind_ok len]
    dsimp only
    split
    next outside => rfl
    next inside =>
      have bound : i.toNat < (s.heap.udata u).bytes.length := inRange_of_not (by simpa using inside)
      have byte : (t.heap.udata u).bytes[i.toNat]? =
          some ((s.heap.udata u).bytes.getD i.toNat 0) := by
        rw [tEq, List.getD_eq_getElem?_getD, List.getElem?_eq_getElem bound]
        rfl
      have loaded : loadByte (.userdata u) i.toNat t =
          .ok ((s.heap.udata u).bytes.getD i.toNat 0) t := by
        rw [loadByte, bind_ok (get_run t), byte]
        rfl
      rw [bind_ok loaded, bind_ok (luaPushinteger_run _ t)]
      rfl

/-! ## Whole accesses -/

-- the state in which a C function starts that was called with the values of `args`
def calledWith (s : LuaState) (f : TValue) (args : List TValue) (nresults : Int) (kont : Kont) :
    LuaState :=
  entered (args.foldl pushed (pushed s f)) s.top nresults kont

theorem foldl_pushed_heap (args : List TValue) (s : LuaState) :
    (args.foldl pushed s).heap = s.heap := by
  induction args generalizing s with
  | nil => rfl
  | cons arg rest ih => rw [List.foldl_cons, ih, pushed_heap]

theorem foldl_pushed_frames (args : List TValue) (s : LuaState) :
    (args.foldl pushed s).frames = s.frames := by
  induction args generalizing s with
  | nil => rfl
  | cons arg rest ih => rw [List.foldl_cons, ih, pushed_frames]

theorem foldl_pushed_top (args : List TValue) (s : LuaState) :
    (args.foldl pushed s).top = s.top + args.length := by
  induction args generalizing s with
  | nil => rfl
  | cons arg rest ih =>
    rw [List.foldl_cons, ih, pushed_top, List.length_cons]
    omega

theorem foldl_pushed_below (args : List TValue) (s : LuaState) {j : Nat} (below : j < s.top) :
    (args.foldl pushed s).stack j = s.stack j := by
  induction args generalizing s with
  | nil => rfl
  | cons arg rest ih =>
    rw [List.foldl_cons, ih _ (by rw [pushed_top]; omega), pushed_stack_below _ _ below]

theorem foldl_pushed_arg (args : List TValue) (s : LuaState) {n : Nat} (bound : n < args.length) :
    (args.foldl pushed s).stack (s.top + n) = args[n] := by
  induction args generalizing s n with
  | nil => exact absurd bound (Nat.not_lt_zero n)
  | cons arg rest ih =>
    rw [List.foldl_cons]
    cases n with
    | zero => rw [foldl_pushed_below _ _ (by rw [pushed_top]; omega), Nat.add_zero,
      pushed_stack_top, List.getElem_cons_zero]
    | succ n =>
      have next := ih (pushed s arg) (by simpa using bound)
      rw [pushed_top, Nat.add_assoc, Nat.add_comm 1 n] at next
      rw [next, List.getElem_cons_succ]

@[simp] theorem calledWith_heap (f : TValue) (args : List TValue) (nresults : Int) (kont : Kont) :
    (calledWith s f args nresults kont).heap = s.heap := foldl_pushed_heap args (pushed s f)

@[simp] theorem calledWith_top (f : TValue) (args : List TValue) (nresults : Int) (kont : Kont) :
    (calledWith s f args nresults kont).top = s.top + 1 + args.length :=
  foldl_pushed_top args (pushed s f)

theorem calledWith_func (f : TValue) (args : List TValue) (nresults : Int) (kont : Kont) :
    (calledWith s f args nresults kont).stack s.top = f := by
  have kept := foldl_pushed_below args (pushed s f) (j := s.top) (by rw [pushed_top]; omega)
  rw [pushed_stack_top] at kept
  exact kept

theorem calledWith_below (f : TValue) (args : List TValue) (nresults : Int) (kont : Kont) :
    SameBelow s.top s.stack (calledWith s f args nresults kont).stack := by
  intro j below
  have kept := foldl_pushed_below args (pushed s f) (j := j) (by rw [pushed_top]; omega)
  rw [pushed_stack_below _ _ below] at kept
  exact kept

/-- The arguments are found from the top down. -/
theorem calledWith_arg (f : TValue) (args : List TValue) (nresults : Int) (kont : Kont) {n : Nat}
    (low : 1 ≤ n) (high : n ≤ args.length) :
    (calledWith s f args nresults kont).stack ((calledWith s f args nresults kont).top - n) =
      args.getD (args.length - n) .nil := by
  have arg := foldl_pushed_arg args (pushed s f) (n := args.length - n) (by omega)
  have slot : s.top + 1 + args.length - n = (pushed s f).top + (args.length - n) := by
    rw [pushed_top]
    omega
  rw [List.getD_eq_getElem _ _ (by omega), calledWith_top, slot, ← arg]
  rfl

theorem foldl_pushed_openupval (args : List TValue) (s : LuaState) :
    (args.foldl pushed s).openupval = s.openupval := by
  induction args generalizing s with
  | nil => rfl
  | cons arg rest ih =>
    rw [List.foldl_cons, ih]
    rfl

@[simp] theorem calledWith_openupval (f : TValue) (args : List TValue) (nresults : Int)
    (kont : Kont) :
    (calledWith s f args nresults kont).openupval = s.openupval :=
  foldl_pushed_openupval args (pushed s f)

theorem calledWith_frames (f : TValue) (args : List TValue) (nresults : Int) (kont : Kont) :
    ∃ ci, (calledWith s f args nresults kont).frames = ci :: s.frames ∧ ci.func = s.top ∧
      ci.nresults = nresults ∧
      ci.kont = kont := by
  refine ⟨_, congrArg (List.cons _) (foldl_pushed_frames args (pushed s f)), rfl, rfl, rfl⟩

theorem callTM_called {f : Nat} {tm : TValue} (native : CFunctionAt s.heap tm f)
    (p1 p2 p3 : TValue) :
    callTM tm p1 p2 p3 s = .ok ⟨⟩ (calledWith s tm [p1, p2, p3] 0 .tm) :=
  callTM_native native p1 p2 p3

theorem callTMres_called {f : Nat} {tm : TValue} (native : CFunctionAt s.heap tm f) (kont : Kont)
    (p1 p2 : TValue) :
    callTMres kont tm p1 p2 s = .ok ⟨⟩ (calledWith s tm [p1, p2] 1 kont) :=
  callTMres_native native kont p1 p2

theorem runNative_called {f : Nat} {tm : TValue} {args : List TValue} {nresults : Int}
    {kont : Kont} {body : VmM Nat} (native : CFunctionAt s.heap tm f)
    (code : bufferFunction getn registry f = some body) :
    runNative getn registry (calledWith s tm args nresults kont) =
      (body >>= nativeReturn) (calledWith s tm args nresults kont) := by
  obtain ⟨p, pEq⟩ : ∃ p, p = args.foldl pushed (pushed s tm) := ⟨_, rfl⟩
  have func : p.stack s.top = tm := by
    rw [pEq]
    exact calledWith_func tm args nresults kont
  have native' : CFunctionAt p.heap (p.stack s.top) f := by
    rw [func, pEq, foldl_pushed_heap]
    exact native
  rw [calledWith, ← pEq]
  exact runNative_entered native' code

/-- `buf[key] = v`: one byte is stored, or an error is raised and the heap is as it was. -/
theorem bufNewindex_run (getn : Table → Nat) (buffer : IsBuffer registry s.heap u)
    (key v : TValue) :
    match writeChecks (s.heap.udata u).bytes.length key v with
    | .ok (i, c) =>
      ∃ stack, SameBelow s.top s.stack stack ∧
        bufNewindex getn registry (.userdata u) key v s =
          .ok ⟨⟩ { s with stack, heap := storedAt s.heap u i c, mode := .exec }
    | .error e => ∃ t, t.heap = s.heap ∧
        bufNewindex getn registry (.userdata u) key v s = .error (.error e) t := by
  obtain ⟨mt, metatable, buf⟩ := id buffer
  obtain ⟨t, tEq⟩ : ∃ t, t = calledWith s (metamethod s.heap mt .newindex) [.userdata u, key,
    v] 0 .tm := ⟨_, rfl⟩
  have heap : t.heap = s.heap := by rw [tEq, calledWith_heap]
  have set : luaVSettable key v maxtagloop (.userdata u) s = .ok ⟨⟩ t := by
    have loop : maxtagloop = 99 + 1 := rfl
    have method : ∃ id, metamethod s.heap mt .newindex = .function id := by
      obtain ⟨id, upvalues, env, method, closure⟩ := buf.newindex
      exact ⟨id, method⟩
    obtain ⟨id, method⟩ := method
    rw [loop, luaVSettable, bind_ok (get_run s), gettmbyobj_userdata metatable, tEq,
      ← callTM_called buf.newindex, method]
    intro h impossible
    cases impossible
  have arg : ∀ n, (low : 1 ≤ n) → (high : n ≤ 3) → 
      t.stack (t.top - n) = [TValue.userdata u, key, v].getD (3 - n) .nil := by
    intro n low high
    rw [tEq]
    exact calledWith_arg _ _ _ _ low high
  have ran : runNative getn registry t = (lunatikBufNewindex getn registry >>= nativeReturn) t := by
    rw [tEq]
    exact runNative_called buf.newindex rfl
  have below : SameBelow s.top s.stack t.stack := by
    rw [tEq]
    exact calledWith_below _ _ _ _
  have first : t.stack (t.top - 3) = .userdata u := arg 3 (by omega) (by omega)
  have second : t.stack (t.top - 2) = key := arg 2 (by omega) (by omega)
  have third : t.stack (t.top - 1) = v := arg 1 (by omega) (by omega)
  have top : t.top = s.top + 4 := by
    rw [tEq, calledWith_top]
    rfl
  rw [← heap] at buffer
  obtain ⟨stack, same, body⟩ := lunatikBufNewindex_run getn buffer first second third (by omega)
  rw [heap] at body
  rw [bufNewindex, bind_ok set, ran]
  cases checked : writeChecks (s.heap.udata u).bytes.length key v with
  | error e =>
    rw [checked] at body
    refine ⟨_, ?_, bind_error body⟩
    rfl
  | ok stored =>
    rw [checked] at body
    refine ⟨stack, below.trans (same.mono (by omega)), ?_⟩
    obtain ⟨ci, frames, func, none, kont⟩ :=
      calledWith_frames (s := s) (metamethod s.heap mt .newindex)
      [.userdata u, key, v] 0 .tm
    rw [← tEq] at frames
    have upvals : t.openupval = s.openupval := by rw [tEq, calledWith_openupval]
    rw [bind_ok body, nativeReturn_tm (s := { t with stack, heap := storedAt s.heap u stored.1 stored.2 }) frames kont none,
      func, upvals]

/-- A tag method with one result, from its body to the end of the call. -/
theorem runNative_tmres {f val : Nat} {tm : TValue} {args : List TValue} {body : VmM Nat}
    {p : LuaState} (native : CFunctionAt s.heap tm f)
    (code : bufferFunction getn registry f = some body)
    (ran : body (calledWith s tm args 1 (.tmres val)) = .ok 1 p)
    (frames : p.frames = (calledWith s tm args 1 (.tmres val)).frames)
    (upvals : p.openupval = (calledWith s tm args 1 (.tmres val)).openupval)
    (above : s.top < p.top) (same : SameBelow s.top s.stack p.stack) :
    ∃ stack, SameBelow s.top s.stack stack ∧
      runNative getn registry (calledWith s tm args 1 (.tmres val)) =
        .ok ⟨⟩ { s with stack := setAt stack val (p.stack
          (p.top - 1)), heap := p.heap, mode := .exec } := by
  obtain ⟨ci, called, func, one, kont⟩ := calledWith_frames (s := s) tm args 1 (.tmres val)
  rw [called] at frames
  rw [calledWith_openupval] at upvals
  obtain ⟨stack, same', returned⟩ := nativeReturn_tmres frames kont one (by omega)
  rw [func] at same' returned
  refine ⟨stack, same.trans same', ?_⟩
  rw [runNative_called native code, bind_ok ran, returned, upvals]

/-- `buf[key]`: the byte goes to the slot `val`, or an error is raised; the heap is as it was. -/
theorem bufIndex_run (getn : Table → Nat) (buffer : IsBuffer registry s.heap u) (key : TValue)
    (val : Nat) :
    match readChecks (s.heap.udata u).bytes.length key with
    | .ok i =>
      ∃ stack, SameBelow s.top s.stack stack ∧
        bufIndex getn registry (.userdata u) key val s =
          .ok ⟨⟩
            { s with
              stack := setAt stack val (.number
                (BitVec.ofNat 64 ((s.heap.udata u).bytes.getD i 0).toNat))
              mode := .exec }
    | .error e => ∃ t, t.heap = s.heap ∧
        bufIndex getn registry (.userdata u) key val s = .error (.error e) t := by
  obtain ⟨mt, metatable, buf⟩ := id buffer
  obtain ⟨t, tEq⟩ : ∃ t,
    t = calledWith s (metamethod s.heap mt .index) [.userdata u, key] 1 (.tmres val) := ⟨_, rfl⟩
  have heap : t.heap = s.heap := by rw [tEq, calledWith_heap]
  have get : luaVGettable key val maxtagloop (.userdata u) s = .ok ⟨⟩ t := by
    have loop : maxtagloop = 99 + 1 := rfl
    have method : ∃ id, metamethod s.heap mt .index = .function id := by
      obtain ⟨id, upvalues, env, method, closure⟩ := buf.index
      exact ⟨id, method⟩
    obtain ⟨id, method⟩ := method
    rw [loop, luaVGettable, bind_ok (get_run s), gettmbyobj_userdata metatable, tEq,
      ← callTMres_called buf.index, method]
    intro h impossible
    cases impossible
  have arg : ∀ n, (low : 1 ≤ n) → (high : n ≤ 2) →
      t.stack (t.top - n) = [TValue.userdata u, key].getD (2 - n) .nil := by
    intro n low high
    rw [tEq]
    exact calledWith_arg _ _ _ _ low high
  have ran : runNative getn registry t = (lunatikBufIndex getn registry >>= nativeReturn) t := by
    rw [tEq]
    exact runNative_called buf.index rfl
  have below : SameBelow s.top s.stack t.stack := by
    rw [tEq]
    exact calledWith_below _ _ _ _
  have first : t.stack (t.top - 2) = .userdata u := arg 2 (by omega) (by omega)
  have second : t.stack (t.top - 1) = key := arg 1 (by omega) (by omega)
  have top : t.top = s.top + 3 := by
    rw [tEq, calledWith_top]
    rfl
  rw [← heap] at buffer
  obtain ⟨stack, same, body⟩ := lunatikBufIndex_run getn buffer first second (by omega)
  rw [heap] at body
  rw [bufIndex, bind_ok get, ran]
  cases checked : readChecks (s.heap.udata u).bytes.length key with
  | error e =>
    rw [checked] at body
    refine ⟨_, ?_, bind_error body⟩
    rfl
  | ok i =>
    rw [checked] at body
    dsimp only at body
    obtain ⟨p, pEq⟩ : ∃ p, p = pushed { t with stack, heap := s.heap }
      (.number (BitVec.ofNat 64 ((s.heap.udata u).bytes.getD i 0).toNat)) := ⟨_, rfl⟩
    rw [← pEq, tEq] at body
    have frames : p.frames = t.frames := by rw [pEq, pushed_frames]
    have upvals : p.openupval = t.openupval := by rw [pEq, pushed_openupval]
    have top' : p.top = s.top + 4 := by rw [pEq, pushed_top, top]
    have same' : SameBelow s.top s.stack p.stack := by
      intro j low
      rw [pEq, pushed_stack_below _ _ (by dsimp only; omega)]
      exact (same j (by omega)).trans (below j low)
    have last : p.stack (p.top - 1) =
        .number (BitVec.ofNat 64 ((s.heap.udata u).bytes.getD i 0).toNat) := by
      rw [pEq, pushed_top, Nat.add_sub_cancel, pushed_stack_top]
    rw [tEq] at frames upvals
    have returned := runNative_tmres buf.index rfl body frames upvals (by omega) same'
    rw [last, pEq, pushed_heap, ← tEq, ran] at returned
    exact returned

/-- `#buf`: the function is called with the buffer and a nil, and takes the nil. -/
theorem bufLen_run (getn : Table → Nat) (buffer : IsBuffer registry s.heap u) (f : Activation)
    (i : Instruction) (bound : getargB i < f.p.maxReg)
    (operand : s.stack (f.ci.base + getargB i) = .userdata u) :
    ∃ stack, SameBelow s.top s.stack stack ∧
      bufLen getn registry f i s =
        .ok ⟨⟩ { s with stack := setAt stack (f.ci.base + getargA i) (.number 0), mode := .exec } := by
  obtain ⟨mt, metatable, buf⟩ := buffer
  obtain ⟨val, valEq⟩ : ∃ val, val = f.ci.base + getargA i := ⟨_, rfl⟩
  obtain ⟨t, tEq⟩ : ∃ t,
    t = calledWith s (metamethod s.heap mt .len) [.userdata u, .nil] 1 (.tmres val) := ⟨_, rfl⟩
  have method : luaTGettmbyobj s.heap (.userdata u) .len = metamethod s.heap mt .len :=
    gettmbyobj_userdata metatable .len
  have some : metamethod s.heap mt .len ≠ .nil := by
    obtain ⟨id, upvalues, env, function, closure⟩ := buf.len
    rw [function]
    intro nil
    cases nil
  have called : callBinTM (.userdata u) .nil (.tmres val) .len s = .ok true t := by
    rw [callBinTM, bind_ok (get_run s), method]
    rw [if_neg some, if_neg some, bind_ok (callTMres_called buf.len _ _ _), tEq]
    rfl
  have op : opLen getn f i s = .ok ⟨⟩ t := by
    rw [opLen, bind_ok (Activation.reg_run bound s), operand]
    dsimp only
    rw [← valEq, bind_ok called, if_pos rfl]
    rfl
  have nil : t.stack (t.top - 1) = .nil := by
    rw [tEq]
    exact calledWith_arg _ _ _ _ (by omega) (Nat.le_add_left 1 1)
  obtain ⟨p, pEq⟩ : ∃ p, p = pushed t (.number 0) := ⟨_, rfl⟩
  have body : lunatikBufLength getn t = .ok 1 p := by
    rw [lunatikBufLength, bind_ok (luaObjlen_nil nil), bind_ok (luaPushinteger_run _ _), pEq]
    rfl
  have top : p.top = s.top + 4 := by
    rw [pEq, pushed_top, tEq, calledWith_top]
    rfl
  have same : SameBelow s.top s.stack p.stack := by
    intro j low
    rw [pEq, pushed_stack_below _ _ (by rw [tEq, calledWith_top]; omega), tEq]
    exact calledWith_below _ _ _ _ j low
  have last : p.stack (p.top - 1) = .number 0 := by
    rw [pEq, pushed_top, Nat.add_sub_cancel, pushed_stack_top]
  have frames : p.frames = t.frames := by rw [pEq, pushed_frames]
  have upvals : p.openupval = t.openupval := by rw [pEq, pushed_openupval]
  rw [tEq] at frames upvals body
  obtain ⟨stack, same', returned⟩ := runNative_tmres buf.len rfl body frames upvals (by omega) same
  refine ⟨stack, same', ?_⟩
  rw [bufLen, bind_ok op, tEq, returned, last, pEq, pushed_heap, tEq, calledWith_heap, valEq]

/-! ## The snapshot -/

-- the key and the value of the byte at `idx`
def snapshotKey (idx : Nat) : TValue := .number (BitVec.ofInt 64 (BitVec.ofNat 32 (idx + 1)).toInt)

def snapshotValue (bytes : List UInt8) (idx : Nat) : TValue :=
  .number ((bytes.getD idx 0).toBitVec.signExtend 64)

def snapshotOf (bytes : List UInt8) (t : Table) (idxs : List Nat) : Table :=
  idxs.foldl (fun t idx => luaHPut t (snapshotKey idx) (snapshotValue bytes idx)) t

theorem luaRawseti_run {h : Nat} {n : Int} {v : TValue} (table : s.stack (s.top - 2) = .table h)
    (value : s.stack (s.top - 1) = v) :
    luaRawseti n s =
      .ok ⟨⟩
        { s with
          heap := withTable s.heap h (luaHPut (s.heap.tables h) (.number (BitVec.ofInt 64 n)) v)
          top := s.top - 1 } := by
  have isTable : hvalue (.table h) s = .ok h s := rfl
  rw [luaRawseti, bind_ok (belowTop_run 2 s), table, bind_ok isTable, bind_ok (belowTop_run 1 s),
    value]
  rfl

/-- The loop stores one entry for each byte in the table at the top. -/
theorem bufCallLoop_run {h : Nat} {bytes : List UInt8} (idxs : List Nat)
    (inside : ∀ idx ∈ idxs, idx < bytes.length) (s : LuaState)
    (block : (s.heap.udata u).bytes = bytes) (nonempty : 1 ≤ s.top)
    (table : s.stack (s.top - 1) = .table h) :
    ∃ stack, SameBelow s.top s.stack stack ∧
      bufCallLoop (.userdata u) idxs s =
        .ok ⟨⟩ { s with stack, heap := withTable s.heap h (snapshotOf bytes
          (s.heap.tables h) idxs) } := by
  induction idxs generalizing s with
  | nil =>
    refine ⟨s.stack, .refl, ?_⟩
    rw [bufCallLoop, pure_run, snapshotOf, List.foldl_nil, withTable_self]
  | cons idx rest ih =>
    obtain ⟨c, cEq⟩ : ∃ c, c = bytes.getD idx 0 := ⟨_, rfl⟩
    have bound : idx < bytes.length := inside idx List.mem_cons_self
    have loaded : loadByte (.userdata u) idx s = .ok c s := by
      have byte : (s.heap.udata u).bytes[idx]? = some c := by
        rw [block, cEq, List.getD_eq_getElem?_getD, List.getElem?_eq_getElem bound]
        rfl
      rw [loadByte, bind_ok (get_run s), byte]
      rfl
    obtain ⟨p, pEq⟩ : ∃ p, p = pushed s (.number (c.toBitVec.signExtend 64)) := ⟨_, rfl⟩
    have top : p.top = s.top + 1 := by rw [pEq, pushed_top]
    have second : p.stack (p.top - 2) = .table h := by
      rw [top, pEq, pushed_stack_below _ _ (by omega), ← table]
      rfl
    have first : p.stack (p.top - 1) = snapshotValue bytes idx := by
      rw [top, Nat.add_sub_cancel, pEq, pushed_stack_top, snapshotValue, cEq]
    have stored := luaRawseti_run (n := (BitVec.ofNat 32 (idx + 1)).toInt) second first
    obtain ⟨q, qEq⟩ : ∃ q : LuaState, q =
        { p with
          heap := withTable p.heap h (luaHPut (p.heap.tables h) (snapshotKey idx)
            (snapshotValue bytes idx))
          top := p.top - 1 } := ⟨_, rfl⟩
    have stored' : luaRawseti (BitVec.ofNat 32 (idx + 1)).toInt p = .ok ⟨⟩ q := by
      rw [stored, qEq, snapshotKey]
    have qtop : q.top = s.top := by
      rw [qEq]
      exact (by omega : p.top - 1 = s.top)
    have below : SameBelow s.top s.stack q.stack := by
      intro j low
      rw [qEq, pEq]
      exact pushed_stack_below s _ low
    obtain ⟨stack, same, ran⟩ := ih (fun j mem => inside j (List.mem_cons_of_mem idx mem)) q
      (by rw [qEq, pEq]; exact block) (by omega) (by rw [qtop, below _ (by omega), table])
    refine ⟨stack, below.trans (same.mono (by omega)), ?_⟩
    have heap : withTable q.heap h (snapshotOf bytes (q.heap.tables h) rest) =
        withTable s.heap h (snapshotOf bytes (s.heap.tables h) (idx :: rest)) := by
      rw [qEq, pEq]
      dsimp only [pushed_heap]
      rw [withTable_tables_same, withTable_twice, snapshotOf, snapshotOf, List.foldl_cons]
    rw [bufCallLoop, bind_ok loaded, bind_ok (luaPushinteger_run _ s), ← pEq, bind_ok stored', ran,
      heap, qtop, qEq, pEq, pushed_openupval, pushed_frames]
    rfl

-- the heap with a new empty table
def withNewTable (heap : Heap) : Heap :=
  { heap with tables := setAt heap.tables heap.nextTable newTable, nextTable := heap.nextTable + 1 }

theorem vmCreatetable_overflow {nrec : Int} (overflow : nrec < 0 ∨ (Ltable.maxasize : Int) < nrec)
    (s : LuaState) :
    vmCreatetable nrec s = .error (.error (.runerror "table overflow")) s := by
  rw [vmCreatetable, if_pos overflow]
  rfl

theorem vmCreatetable_run {nrec : Int} (fits : ¬ (nrec < 0 ∨ (Ltable.maxasize : Int) < nrec))
    (s : LuaState) :
    vmCreatetable nrec s = .ok ⟨⟩ (pushed { s with heap := withNewTable s.heap } (.table s.heap.nextTable)) := by
  rw [vmCreatetable, if_neg fits]
  rfl

/-- A value that is no function is called through the function under `__call`, of which it
    becomes the argument. -/
theorem luaDCall_buffer {mt func : Nat} (metatable : (s.heap.udata u).metatable = some mt)
    (buf : BufferMeta registry s.heap mt) (called : s.stack func = .userdata u)
    (onStack : func < s.top) (nresults : Int) (kont : Kont) :
    ∃ r : LuaState, luaDCall func nresults kont s = .ok ⟨⟩ (entered r func nresults kont) ∧
      CFunctionAt r.heap (r.stack func) addrBufCall ∧ r.heap = s.heap ∧
        r.stack (func + 1) = .userdata u ∧
      r.top = s.top + 1 ∧ SameBelow func s.stack r.stack ∧ r.frames = s.frames ∧
        r.openupval = s.openupval := by
  obtain ⟨id, upvalues, env, method, closure⟩ := buf.call
  obtain ⟨moved, movedEq⟩ : ∃ moved, moved = fun j => if func < j ∧ j ≤ s.top then
    s.stack (j - 1) else s.stack j :=
    ⟨_, rfl⟩
  obtain ⟨r, rEq⟩ : ∃ r : LuaState,
    r = { s with stack := setAt moved func (.function id), top := s.top + 1 } :=
    ⟨_, rfl⟩
  have hole : callable func s = .ok ⟨⟩ r := by
    have tm : luaTGettmbyobj s.heap (s.stack func) .call = .function id := by
      rw [called, gettmbyobj_userdata metatable, method]
    rw [callable, bind_ok (slot_run func s), called]
    dsimp only
    rw [tryfuncTM, bind_ok (get_run s), tm, rEq, movedEq]
    rfl
  have function : r.stack func = .function id := by
    rw [rEq]
    exact setAt_same _ _ _
  have heap : r.heap = s.heap := by rw [rEq]
  refine ⟨r, ?_, ⟨id, upvalues, env, function, by rw [heap]; exact closure⟩, heap, ?_, ?_, ?_,
    by rw [rEq], by rw [rEq]⟩
  · rw [luaDCall, luaDPrecall, bind_ok hole, bind_ok (get_run r), function]
    dsimp only
    rw [heap, closure]
    rfl
  · rw [rEq]
    dsimp only
    rw [setAt_other _ _ (by omega), movedEq]
    dsimp only
    rw [if_pos (by omega), Nat.add_sub_cancel, called]
  · rw [rEq]
  · intro j low
    rw [rEq]
    dsimp only
    rw [setAt_other _ _ (by omega), movedEq]
    dsimp only
    rw [if_neg (by omega)]

/-- The end of a call from C code with one result, which replaces the function. -/
theorem nativeReturn_one {ci : CallInfo} {rest : List CallInfo} (frames : s.frames = ci :: rest)
    (kont : ci.kont = .native) (one : ci.nresults = 1) (top : s.top = ci.func + 2) :
    ∃ stack, SameBelow ci.func s.stack stack ∧ stack ci.func = s.stack (ci.func + 1) ∧
      nativeReturn 1 s = .ok ⟨⟩ { s with stack, top := ci.func + 1, frames := rest, mode := .native } := by
  obtain ⟨moved, movedEq⟩ : ∃ moved,
    moved = (moveResults s.toShared ci.func 1 (s.top - 1)).stack := ⟨_, rfl⟩
  have count : s.top - (s.top - 1) = 1 := by omega
  have results : moveResults s.toShared ci.func 1 (s.top - 1) =
      { s.toShared with stack := moved, top := ci.func + 1 } := by
    rw [movedEq, moveResults]
    simp
  have first : moved ci.func = s.stack (ci.func + 1) := by
    rw [movedEq, moveResults]
    simp [top]
  refine ⟨moved, fun j below => ?_, first, ?_⟩
  · rw [movedEq, moveResults]
    dsimp only
    rw [if_neg (by omega), if_neg (by omega)]
  · rw [nativeReturn_run frames, one, results, resume, kont]
    rfl

-- what `lua_createtable` is asked for, the length as an int
def snapshotSize (bytes : List UInt8) : Int := (BitVec.ofNat 32 bytes.length).toInt

/-- The body of a call: an error, or a table with one entry for each byte at the top. -/
theorem lunatikBufCall_run (getn : Table → Nat) (buffer : IsBuffer registry s.heap u)
    (value : s.stack (s.top - 1) = .userdata u) (nonempty : 1 ≤ s.top) :
    if snapshotSize (s.heap.udata u).bytes < 0 ∨
      (Ltable.maxasize : Int) < snapshotSize (s.heap.udata u).bytes then
      ∃ t, lunatikBufCall getn registry s = .error (.error (.runerror "table overflow")) t
    else
      ∃ stack, SameBelow (s.top - 1) s.stack stack ∧ stack (s.top - 1) = .table s.heap.nextTable ∧
        lunatikBufCall getn registry s =
          .ok 1
            { s with
              stack
              heap := withTable (withNewTable s.heap) s.heap.nextTable
                (snapshotOf (s.heap.udata u).bytes newTable (List.range (s.heap.udata u).bytes.length)) } := by
  obtain ⟨bytes, block⟩ : ∃ bytes, bytes = (s.heap.udata u).bytes := ⟨_, rfl⟩
  rw [← block]
  obtain ⟨stack, same, checked⟩ := luaLCheckudata_buffer buffer value
  obtain ⟨t, tEq⟩ : ∃ t : LuaState, t = { s with stack } := ⟨_, rfl⟩
  rw [← tEq] at checked
  have top : t.top = s.top := by rw [tEq]
  have heap : t.heap = s.heap := by rw [tEq]
  have value' : t.stack (t.top - 1) = .userdata u := by
    rw [top, tEq]
    exact (same _ (by omega)).trans value
  obtain ⟨p, pEq⟩ : ∃ p : LuaState, p = { t with top := t.top - 1 } := ⟨_, rfl⟩
  have popped : vmPop 1 t = .ok ⟨⟩ p := by rw [vmPop_run, pEq]
  have size : (BitVec.ofNat 32 (t.heap.udata u).bytes.length).toInt = snapshotSize bytes := by
    rw [heap, ← block, snapshotSize]
  have start : lunatikBufCall getn registry s =
      (do
        vmCreatetable (snapshotSize bytes)
        bufCallLoop (.userdata u) (List.range bytes.length)
        return 1 : VmM Nat) p := by
    rw [lunatikBufCall, bind_ok checked, bind_ok (luaObjlen_userdata value'), bind_ok popped, size,
      heap, ← block]
  rw [start]
  split
  next overflow => exact ⟨p, bind_error (vmCreatetable_overflow overflow p)⟩
  next fits =>
    obtain ⟨q, qEq⟩ : ∃ q,
      q = pushed { p with heap := withNewTable p.heap } (.table p.heap.nextTable) := ⟨_, rfl⟩
    have created : vmCreatetable (snapshotSize bytes) p = .ok ⟨⟩ q := by
      rw [vmCreatetable_run fits, qEq]
    have qtop : q.top = s.top := by
      rw [qEq, pushed_top, pEq]
      exact (by omega : t.top - 1 + 1 = s.top)
    have pheap : p.heap = s.heap := by rw [pEq, heap]
    have table : q.stack (q.top - 1) = .table s.heap.nextTable := by
      rw [qEq, pushed_top, Nat.add_sub_cancel, pushed_stack_top, pheap]
    have qheap : q.heap = withNewTable s.heap := by rw [qEq, pushed_heap, pheap]
    obtain ⟨last, same', ran⟩ :=
      bufCallLoop_run (List.range bytes.length) (fun idx mem => List.mem_range.mp mem) q
      (by rw [qheap, block]; rfl) (by omega) table
    refine ⟨last, ?_, ?_, ?_⟩
    · intro j low
      rw [same' j (by omega), qEq, pushed_stack_below _ _ (by rw [pEq]; dsimp only; omega), pEq,
        tEq]
      exact same j (by omega)
    · rw [same' _ (by omega), ← table, qtop]
    · have fresh : q.heap.tables s.heap.nextTable = newTable := by
        rw [qheap]
        exact setAt_same _ _ _
      rw [bind_ok created, bind_ok ran, fresh, qheap, qtop, qEq, pushed_openupval,
        pushed_frames, pEq, tEq]
      rfl

/-- `buf()`: an error, or a table with one entry for each byte. -/
theorem bufCall_run (getn : Table → Nat) (buffer : IsBuffer registry s.heap u) {func : Nat}
    (called : s.stack func = .userdata u) (last : s.top = func + 1) :
    if snapshotSize (s.heap.udata u).bytes < 0 ∨
      (Ltable.maxasize : Int) < snapshotSize (s.heap.udata u).bytes then
      ∃ t, bufCall getn registry func s = .error (.error (.runerror "table overflow")) t
    else
      ∃ stack, SameBelow func s.stack stack ∧ stack func = .table s.heap.nextTable ∧
        bufCall getn registry func s =
          .ok ⟨⟩
            { s with
              stack
              heap := withTable (withNewTable s.heap) s.heap.nextTable
                (snapshotOf (s.heap.udata u).bytes newTable (List.range (s.heap.udata u).bytes.length))
              mode := .native } := by
  obtain ⟨mt, metatable, buf⟩ := id buffer
  obtain ⟨r, entry, native, heap, first, top, same, frames, upvals⟩ :=
    luaDCall_buffer metatable buf called (by omega) 1 .native
  obtain ⟨t, tEq⟩ : ∃ t, t = entered r func 1 .native := ⟨_, rfl⟩
  have theap : t.heap = s.heap := by
    rw [tEq]
    exact heap
  have ttop : t.top = func + 2 := by
    rw [tEq]
    exact top.trans (by omega)
  have value : t.stack (t.top - 1) = .userdata u := by
    rw [ttop, tEq]
    exact first
  have tframes : t.frames = nativeFrame r func 1 .native :: s.frames := by
    rw [tEq, ← frames]
    rfl
  have tupvals : t.openupval = s.openupval := by
    rw [tEq]
    exact upvals
  have below : SameBelow func s.stack t.stack := by
    rw [tEq]
    exact same
  have body := lunatikBufCall_run getn (by rw [theap]; exact buffer) value (by omega)
  have ran : bufCall getn registry func s = (lunatikBufCall getn registry >>= nativeReturn) t := by
    rw [bufCall, bind_ok entry, runNative_entered native rfl, tEq]
  rw [theap, ttop] at body
  rw [ran]
  split
  next overflow =>
    rw [if_pos overflow] at body
    obtain ⟨t', raised⟩ := body
    exact ⟨t', bind_error raised⟩
  next fits =>
    rw [if_neg fits] at body
    obtain ⟨stack, same', table, ran'⟩ := body
    obtain ⟨p, pEq⟩ : ∃ p : LuaState, p =
        { t with
          stack
          heap := withTable (withNewTable s.heap) s.heap.nextTable
            (snapshotOf (s.heap.udata u).bytes newTable (List.range (s.heap.udata u).bytes.length)) } := ⟨_, rfl⟩
    have ptop : p.top = func + 2 := by
      rw [pEq]
      exact ttop
    have pframes : p.frames = nativeFrame r func 1 .native :: s.frames := by
      rw [pEq]
      exact tframes
    have result : p.stack (func + 1) = .table s.heap.nextTable := by
      rw [pEq]
      exact table
    have body' : lunatikBufCall getn registry t = .ok 1 p := by rw [ran', pEq, ttop]
    obtain ⟨stack', same'', returned, returned'⟩ := nativeReturn_one pframes rfl rfl ptop
    refine ⟨stack', below.trans ?_, returned.trans result, ?_⟩
    · intro j low
      rw [same'' j low, pEq]
      exact same' j (by omega)
    · rw [bind_ok body', returned', pEq, tupvals, last]
      rfl

end Lunatik.Verified
