import Lunatik.Library.TransitionSystem
import Lunatik.Lua.Dump
import Lunatik.Verified.VmSwitch

/-! # Runs of accepted chunks

`luaG_checkcode` and `luaV_execute` against each other, over whole runs: of every chunk that
`luaU_undump` accepts, with every sequence of calls, returns, errors and finalizers that the
C code around the interpreter makes.

The C code is bound by two rules of the API: it leaves closures as they are (but for their
environment), and new ones come from the loader.  `ExecOk` is what the verifier fails to see
to, instruction by instruction, and that the slot of a running function still holds it when
`luaV_execute` reads it again.
-/

namespace Lunatik.Verified

open Lunatik.Lua Lunatik.Library

variable (getn : Table → Nat)

def vmSystem : System LuaState Act := ⟨vmStep getn⟩

/-! ## Conditions on a step -/

-- the instruction that comes next is covered by the verifier
def NextCovered (s : LuaState) (ci : CallInfo) : Prop :=
  match ci.code with
  | .lua p pc _ =>
    match getOpcode (p.codeAt pc) with
    | some op => Covered p pc ci.base s op
    | none => True
  | .native => True

-- the function to be entered is still where it was called
def FunctionKept (s : LuaState) (ci : CallInfo) : Prop :=
  match ci.code with
  | .lua _ _ cl => s.stack ci.func = .function cl
  | .native => True

def ExecOk (s : LuaState) : Prop :=
  match s.mode, s.frames with
  | .exec, ci :: _ => NextCovered s ci
  | .reentry, ci :: _ => FunctionKept s ci
  | _, _ => True

def StepOk (s : LuaState) : Act → Prop
  | .exec => ExecOk s
  | .touch mem | .catch _ mem => HeapOk mem.heap ∧ ClosuresKept s.heap mem.heap
  | _ => True

/-! ## Steps -/

theorem Sane.some_frame {s : LuaState} (sane : Sane s) : ∃ ci rest, s.frames = ci :: rest := by
  have frames := sane.frames
  cases split : s.frames with
  | nil =>
    rw [split] at frames
    exact frames.elim
  | cons ci rest => exact ⟨ci, rest, rfl⟩

theorem runVm_inv {P : LuaState → Prop} {m : VmM PUnit} (h : Triple P m (fun _ => VmInv) Failed)
    {s : LuaState} (holds : P s) : VmInv (runVm m s) := by
  have result := h s holds
  unfold runVm
  split at result
  next t ran =>
    rw [ran]
    exact result
  next e t ran =>
    rw [ran]
    obtain ⟨kind, sane⟩ := result
    obtain ⟨ci, rest, split⟩ := sane.some_frame
    rcases kind with ⟨err, rfl⟩ | rfl
    · exact ⟨⟨sane.heap, sane.frames⟩, ci, rest, split, trivial⟩
    · exact ⟨⟨sane.heap, sane.frames⟩, ci, rest, split, rfl⟩

theorem VmInv.frameAt {s : LuaState} (h : VmInv s) (runs : s.mode = .exec ∨ s.mode = .reentry)
    {ci : CallInfo} {rest : List CallInfo} (split : s.frames = ci :: rest) :
    ∃ p pc cl, FrameAt s.heap ci p pc cl := by
  obtain ⟨head, rest', split', headOk⟩ := h.head
  have same := split.symm.trans split'
  rw [List.cons.injEq] at same
  rw [← same.1] at headOk
  rcases runs with mode | mode
  · rw [mode] at headOk
    exact headOk
  · rw [mode] at headOk
    exact headOk

theorem Covered.of_stack {p : Proto} {pc base : Nat} {s s' : LuaState} {op : OpCode}
    (h : Covered p pc base s op) (same : s'.stack = s.stack) : Covered p pc base s' op := by
  refine ⟨h.1, ?_⟩
  have rest := h.2
  cases op with
  | forloop =>
    simp only [NumberAt, same]
    exact rest
  | _ => exact rest

theorem fetch_spec {f : Activation} (real : Real f.p f.pc) (op : OpCode) :
    Triple (fun s => During f f.pc s ∧ Covered f.p f.pc f.ci.base s op) (fetch f)
      (fun i s => (During f (f.pc + 1) s ∧ Covered f.p f.pc f.ci.base s op) ∧
        i = f.p.codeAt f.pc) Failed := by
  apply Triple.bind (word_value real.inside)
  intro i
  apply Triple.given (φ := i = f.p.codeAt f.pc) (fun _ h => h.2)
  rintro rfl
  simp only [real.notCount, Bool.false_eq_true, if_false]
  apply Triple.bind (R := fun _ s => During f (f.pc + 1) s ∧ Covered f.p f.pc f.ci.base s op)
  · rintro s ⟨⟨during, covered⟩, _⟩
    refine ⟨setPc_during (f.pc + 1) s during, covered.of_stack ?_⟩
    obtain ⟨caller, rest, split⟩ := during.head
    simp only [split]
  · intro _
    exact Triple.ret fun _ h => ⟨h, rfl⟩

/-- The main loop: fetch and switch. -/
theorem execute_inv :
    Triple (fun s => VmInv s ∧ s.mode = .exec ∧ ExecOk s) (execute getn)
      (fun _ => VmInv) Failed := by
  rintro s ⟨inv, mode, ok⟩
  obtain ⟨ci, rest, split⟩ := inv.toSane.some_frame
  obtain ⟨p, pc, cl, at'⟩ := inv.frameAt (.inl mode) split
  obtain ⟨op, facts⟩ := facts_of_checked at'.checked.code at'.real
  have covered : Covered p pc ci.base s op := by
    simp only [ExecOk, mode, split, NextCovered, at'.code, facts.opcode] at ok
    exact ok
  have mayCall : MayCall .tm s := ⟨inv.toSane, ci, rest, split, .inr ⟨p, pc, cl, at', trivial⟩⟩
  -- the locals of the activation are those of the innermost call
  have locals : currentActivation s = .ok ⟨ci, p, pc, cl⟩ s := by
    simp only [currentActivation, bind_run, get_run,
      split, at'.code]
    rfl
  obtain ⟨f, found, _, _, _, during⟩ := mayCall.activation (by simp)
  have same : f = ⟨ci, p, pc, cl⟩ := by
    rw [locals] at found
    exact (EStateM.Result.ok.inj found).1.symm
  subst same
  have body : Triple (fun s => During ⟨ci, p, pc, cl⟩ pc s ∧ Covered p pc ci.base s op)
      (do
        let i ← fetch ⟨ci, p, pc, cl⟩
        match getOpcode i with
        | some op => executeOp getn ⟨ci, p, pc + 1, cl⟩ i op
        | none => return) (fun _ => VmInv) Failed := by
    apply Triple.bind (fetch_spec (f := ⟨ci, p, pc, cl⟩) at'.real op)
    intro i
    apply Triple.given (φ := i = p.codeAt pc) (fun _ h => h.2)
    rintro rfl
    rw [facts.opcode]
    apply (executeOp_inv getn (f := ⟨ci, p, pc + 1, cl⟩) ⟨rfl, at'.checked, at'.real, facts⟩).pre
    rintro t ⟨⟨fetched, stillCovered⟩, _⟩
    exact ⟨⟨fetched.toSane, fetched.mode, fetched.closure, fetched.head⟩, stillCovered⟩
  have result := body s ⟨during mode, covered⟩
  simp only [execute, bind, EStateM.bind, locals]
  exact result

theorem reentry_inv :
    Triple (fun s => VmInv s ∧ s.mode = .reentry ∧ ExecOk s) reentry (fun _ => VmInv) Failed := by
  rintro s ⟨inv, mode, ok⟩
  obtain ⟨ci, rest, split⟩ := inv.toSane.some_frame
  obtain ⟨p, pc, cl, at'⟩ := inv.frameAt (.inr mode) split
  obtain ⟨upvals, env, closure⟩ := at'.closure
  have kept : s.stack ci.func = .function cl := by
    simp only [ExecOk, mode, split, FunctionKept, at'.code] at ok
    exact ok
  have sameCi : { ci with code := .lua p pc cl } = ci := by rw [← at'.code]
  have ran : reentry s = .ok ⟨⟩ { s with mode := .exec } := by
    simp only [reentry, bind_run, get_run, split,
      at'.code, kept, closure, sameCi, set_run]
  rw [ran]
  exact ⟨⟨inv.toSane.heap, inv.toSane.frames⟩, ci, rest, split, p, pc, cl, at'⟩

/-! ## The C code around -/

theorem VmInv.native {s : LuaState} (inv : VmInv s) (mode : s.mode = .native) :
    MayCall .native s := by
  obtain ⟨ci, rest, split, head⟩ := inv.head
  rw [mode] at head
  exact ⟨inv.toSane, ci, rest, split, .inl ⟨rfl, head⟩⟩

theorem touch_inv {s : LuaState} (inv : VmInv s) (mode : s.mode = .native) {mem : Shared}
    (heap : HeapOk mem.heap) (kept : ClosuresKept s.heap mem.heap) :
    VmInv { s with toShared := mem } := by
  obtain ⟨ci, rest, split, head⟩ := inv.head
  refine ⟨⟨heap, inv.frames.keep kept⟩, ci, rest, split, ?_⟩
  rw [mode] at head
  simp only [mode]
  exact head

theorem FramesOk.drop {h : Heap} {frames : List CallInfo} (ok : FramesOk h frames) {n : Nat}
    {ci : CallInfo} {rest : List CallInfo} (left : frames.drop n = ci :: rest) :
    FramesOk h (ci :: rest) := by
  induction n generalizing frames with
  | zero =>
    rw [List.drop_zero] at left
    rw [← left]
    exact ok
  | succ n ih =>
    match frames with
    | [] | [_] => simp at left
    | _ :: caller :: frames => exact ih ok.2 left

theorem catchError_inv {s t : LuaState} (sane : Sane s) {drop : Nat} {mem : Shared}
    (heap : HeapOk mem.heap) (kept : ClosuresKept s.heap mem.heap)
    (caught : catchError s drop mem = some t) : VmInv t := by
  unfold catchError at caught
  split at caught
  next ci rest left =>
    split at caught
    next native =>
      cases caught
      refine ⟨⟨heap, (sane.frames.drop left).keep kept⟩, ci, rest, rfl, ?_⟩
      unfold CallInfo.isNative at native
      split at native
      next code => exact code
      next => cases native
    next => cases caught
  next => cases caught

-- a finalizer may be called wherever the interpreter stands
theorem gctm_inv (tm udata : TValue) :
    Triple (fun s => VmInv s ∧ s.mode = .exec) (gctm tm udata) (fun _ => VmInv) Failed := by
  have hP := mayCall_frozen .gctm
  apply Triple.pre (P := MayCall .gctm)
  · apply Triple.bind (push_quiet hP _)
    intro _
    apply Triple.bind (push_quiet hP _)
    intro _
    apply Triple.get_bind
    intro s
    exact (luaDCall_inv _ _ _).pre fun _ h => h.1
  · rintro s ⟨inv, mode⟩
    obtain ⟨ci, rest, split, head⟩ := inv.head
    rw [mode] at head
    obtain ⟨p, pc, cl, at'⟩ := head
    exact ⟨inv.toSane, ci, rest, split, .inr ⟨p, pc, cl, at', trivial⟩⟩

theorem nativeReturn_inv (n : Nat) :
    Triple (fun s => Sane s ∧ 2 ≤ s.frames.length) (nativeReturn n) (fun _ => VmInv) Failed := by
  apply Triple.get_bind
  intro s
  apply Triple.bind ((luaDPoscall_spec _).pre fun _ h => h.1)
  exact resume_inv

/-- Every step keeps the invariant. -/
theorem vmStep_inv (s : LuaState) (act : Act) (t : LuaState) (inv : VmInv s) (ok : StepOk s act)
    (step : vmStep getn s act = some t) : VmInv t := by
  obtain ⟨ci, rest, split, _⟩ := inv.head
  cases act with
  | exec =>
    simp only [vmStep] at step
    split at step
    next mode =>
      cases step
      exact runVm_inv (execute_inv getn) ⟨inv, mode, ok⟩
    next mode =>
      cases step
      exact runVm_inv reentry_inv ⟨inv, mode, ok⟩
    next => cases step
  | touch mem =>
    simp only [vmStep, Option.ite_none_right_eq_some, Option.some.injEq] at step
    obtain ⟨mode, rfl⟩ := step
    exact touch_inv inv mode ok.1 ok.2
  | call func nresults =>
    simp only [vmStep, Option.ite_none_right_eq_some, Option.some.injEq] at step
    obtain ⟨mode, rfl⟩ := step
    exact runVm_inv (luaDCall_inv func nresults .native) (inv.native mode)
  | ret n =>
    simp only [vmStep, Option.ite_none_right_eq_some, Option.some.injEq] at step
    obtain ⟨⟨_, many⟩, rfl⟩ := step
    exact runVm_inv (nativeReturn_inv n) ⟨inv.toSane, many⟩
  | raise e =>
    simp only [vmStep, Option.ite_none_right_eq_some, Option.some.injEq] at step
    obtain ⟨_, rfl⟩ := step
    exact ⟨⟨inv.heap, inv.frames⟩, ci, rest, split, trivial⟩
  | refuse =>
    simp only [vmStep, Option.ite_none_right_eq_some, Option.some.injEq] at step
    obtain ⟨_, rfl⟩ := step
    exact ⟨⟨inv.heap, inv.frames⟩, ci, rest, split, trivial⟩
  | «catch» drop mem =>
    simp only [vmStep] at step
    split at step
    next => exact catchError_inv inv.toSane ok.1 ok.2 step
    next => exact catchError_inv inv.toSane ok.1 ok.2 step
    next => cases step
  | finalize tm udata =>
    simp only [vmStep, Option.ite_none_right_eq_some, Option.some.injEq] at step
    obtain ⟨mode, rfl⟩ := step
    exact runVm_inv (gctm_inv tm udata) ⟨inv, mode⟩

/-! ## Accepted chunks -/

theorem started_inv {h : Heap} (heapOk : HeapOk h) {f : Proto} (checked : Checked f) (env : Nat)
    (args : List TValue) : VmInv (started h f env args) := by
  have loaded : HeapOk (fParser h f env) := by
    apply HeapOk.addClosure
    · exact heapOk.of_eq rfl rfl
    · exact checked
    · simp
  exact ⟨⟨loaded, rfl⟩, baseCi, [], rfl, rfl⟩

-- the running function stands on an instruction
def PcInside (s : LuaState) : Prop :=
  ∃ ci rest p pc cl, s.frames = ci :: rest ∧ ci.code = .lua p pc cl ∧ pc < p.sizecode ∧
    countWord p pc = false

/-- Every access so far was where it should be.  The trap of a division is not an access. -/
structure StaysInside (s : LuaState) : Prop where
  position : s.mode = .exec → PcInside s
  accesses : ∀ fault, s.mode = .faulted fault → fault = .divide

theorem VmInv.staysInside {s : LuaState} (inv : VmInv s) : StaysInside s := by
  obtain ⟨ci, rest, split, head⟩ := inv.head
  constructor
  · intro mode
    rw [mode] at head
    obtain ⟨p, pc, cl, at'⟩ := head
    exact ⟨ci, rest, p, pc, cl, split, at'.code, at'.real.inside, at'.real.notCount⟩
  · intro fault mode
    rw [mode] at head
    exact head

/-- Whatever an accepted chunk is called with and whatever the C code around it does, the
    interpreter stays inside its arrays and reads values by their tags. -/
theorem accepted_chunk_stays_inside {bytes : List UInt8} {f : Proto}
    (accepted : undumped bytes = some f) {h : Heap} (heapOk : HeapOk h) (env : Nat)
    (args : List TValue) {acts : List Act} {s : LuaState}
    (meets : (vmSystem getn).Meets StepOk (started h f env args) acts)
    (reached : (vmSystem getn).run (started h f env args) acts = some s) : StaysInside s := by
  have start : VmInv (started h f env args) :=
    started_inv heapOk (undumped_checked accepted) env args
  have inv : VmInv s :=
    System.invariant_of_meets (vmSystem getn) (vmStep_inv getn) start meets reached
  exact inv.staysInside

/-! ## Runs that can be evaluated -/

instance (p : Proto) (pc : Nat) : Decidable (Real p pc) :=
  decidable_of_iff (pc < p.sizecode ∧ countWord p pc = false)
    ⟨fun both => ⟨both.1, both.2⟩, fun real => ⟨real.inside, real.notCount⟩⟩

instance (s : LuaState) (n : Nat) : Decidable (NumberAt s n) := inferInstanceAs (Decidable (_ = _))

instance (p : Proto) (op : OpCode) (i : Instruction) : Decidable (NullFree p op i) :=
  inferInstanceAs (Decidable (∀ j ∈ constOperands op i, _))

instance (p : Proto) (pc base : Nat) (s : LuaState) (op : OpCode) :
    Decidable (Covered p pc base s op) := by
  unfold Covered
  dsimp only
  split <;> infer_instance

instance (s : LuaState) (ci : CallInfo) : Decidable (NextCovered s ci) := by
  unfold NextCovered
  split
  · split <;> infer_instance
  · infer_instance

instance (s : LuaState) (ci : CallInfo) : Decidable (FunctionKept s ci) := by
  unfold FunctionKept
  split <;> infer_instance

instance (s : LuaState) : Decidable (ExecOk s) := by
  unfold ExecOk
  split <;> infer_instance

-- C code that does nothing but call
def CallsOnly (s : LuaState) : Act → Prop
  | .exec => ExecOk s
  | .call _ _ => True
  | _ => False

instance (s : LuaState) (act : Act) : Decidable (CallsOnly s act) := by
  unfold CallsOnly
  split <;> infer_instance

theorem CallsOnly.stepOk (s : LuaState) (act : Act) (h : CallsOnly s act) : StepOk s act := by
  cases act with
  | exec => exact h
  | call func nresults => trivial
  | _ => exact h.elim

theorem heapOk_emptyHeap : HeapOk emptyHeap := by
  intro id p upvals env found
  cases found

-- a vararg function without parameters
def varargFunction (nups maxstacksize : UInt8) (code : List Instruction) (k : List Constant)
    (p : List Proto) : Proto :=
  { source := none, linedefined := 0, lastlinedefined := 0, nups, numparams := 0, isVararg := varargIsvararg,
    maxstacksize, code, k, p, lineinfo := [], locvars := [], upvalues := [] }

-- the loaded function is called, and the interpreter moves `n` times
def callActs (n : Nat) : List Act := .call 1 luaMultret :: List.replicate n .exec

def called (f : Proto) (args : List TValue) (n : Nat) : Option LuaState :=
  (vmSystem fun _ => 0).run (started emptyHeap f 0 args) (callActs n)

-- for i = 1, 2 do end
def forLoopChunk : List UInt8 :=
  luaUDump (varargFunction 0 4
    [createABx 1 0 0, createABx 1 1 1, createABx 1 2 0, createABx 32 0 131071,
      createABx 31 0 131070, createABC 30 0 1 0]
    [.number 1, .number 2] []) false

theorem forLoopChunk_stays_inside :
    Loads forLoopChunk fun f => ∃ s, called f [] 9 = some s ∧ s.mode = .native ∧ StaysInside s := by
  have evaluated : Loads forLoopChunk fun f =>
      ((called f [] 9).map (·.mode)) = some .native ∧
        (vmSystem fun _ => 0).Meets CallsOnly (started emptyHeap f 0 []) (callActs 9) := by
    decide +kernel
  obtain ⟨f, accepted, ran, meets⟩ := evaluated
  rw [Option.map_eq_some_iff] at ran
  obtain ⟨s, reached, mode⟩ := ran
  refine ⟨f, accepted, s, reached, mode, ?_⟩
  exact accepted_chunk_stays_inside _ accepted heapOk_emptyHeap 0 []
    (meets.mono _ CallsOnly.stepOk) reached

/-! ## What leaves the frame or the code -/

def calledMode (f : Proto) (args : List TValue) (n : Nat) : Option Mode :=
  (called f args n).map (·.mode)

-- a register of the innermost call
def calledRegister (f : Proto) (args : List TValue) (n r : Nat) : Option TValue := do
  let s ← called f args n
  let ci ← s.frames.head?
  return s.stack (ci.base + r)

-- return ...
def openListChunk : List UInt8 :=
  luaUDump (varargFunction 0 2 [createABC 37 0 0 0, createABC 30 0 0 0] [] []) false

-- LOADBOOL 0 0 2 in front of the last instruction
def skipChunk : List UInt8 :=
  luaUDump (varargFunction 0 2 [createABC 2 0 0 2, createABC 30 0 1 0] [] []) false

-- TFORLOOP 0 1 in a frame of four registers
def narrowChunk : List UInt8 :=
  luaUDump (varargFunction 0 4 [createABC 33 0 0 1, createABx 22 0 131071,
    createABC 30 0 1 0] [] []) false

-- LOADK of a string of size 0
def nullStringChunk : List UInt8 :=
  luaUDump (varargFunction 0 2 [createABx 1 0 0, createABC 30 0 1 0] [.string none] []) false

-- FORLOOP over registers that hold nil
def unpreparedChunk : List UInt8 :=
  luaUDump (varargFunction 0 4 [createABx 31 0 131071, createABC 30 0 1 0] [] []) false

-- a function whose upvalue is the slot it was called in stores nil there and calls another
def overwritingFunction : Proto :=
  varargFunction 1 2 [createABx 36 0 0, createABC 8 1 0 0, createABC 28 0 1 1,
    createABC 30 0 1 0] []
    [varargFunction 0 2 [createABC 30 0 1 0] [] []]

def overwritingChunk : List UInt8 :=
  luaUDump (varargFunction 0 2 [createABx 36 0 0, createABC 0 0 0 0, createABC 28 0 1 1,
    createABC 30 0 1 0] []
    [overwritingFunction]) false

/-- Accepted chunks write behind `maxstacksize` (an open list, which makes room for itself),
    run past the end of the code, reach registers they do not have, load a NULL string, read a
    nil as a number and go on in a function that is no longer on the stack. -/
theorem accepted_chunks_leave_frame_and_code :
    (Loads openListChunk fun f =>
      calledRegister f [.number 1, .number 2, .number 3] 1 f.maxReg = some .nil ∧
        calledRegister f [.number 1, .number 2, .number 3] 2 f.maxReg = some (.number 3)) ∧
    (Loads skipChunk fun f => calledMode f [] 3 = some (.faulted .pc)) ∧
    (Loads narrowChunk fun f => calledMode f [] 2 = some (.faulted (.register 5))) ∧
    (Loads nullStringChunk fun f => calledMode f [] 2 = some (.faulted .nullString)) ∧
    (Loads unpreparedChunk fun f => calledMode f [] 2 = some (.faulted .tag)) ∧
    (Loads overwritingChunk fun f => calledMode f [] 10 = some (.faulted .closure)) := by
  decide +kernel

end Lunatik.Verified
