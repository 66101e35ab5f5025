import Lunatik.Lua.Code
import Lunatik.Verified.BytecodeSafety

/-! # Divisions that trap

`luai_numdiv` and `luai_nummod` are evaluated by `arith_op`, by `Arith` and by the compiler.
Only the compiler looks at the divisor first, and it looks only for 0.  The rest of the
interpreter never divides: all its functions keep the machine untrapped, and `vmNum` does on
the operands on which the division instruction does not trap.
-/

namespace Lunatik.Verified

open Lunatik.Lua Lunatik.Library

@[grind] def Untrapped (s : LuaState) : Prop := s.mode ≠ .faulted .divide

@[grind] def NotTrap (e : Stop) : Prop := e ≠ .fault .divide

abbrev TrapFree {α : Type} (m : VmM α) : Prop := Stable Untrapped NotTrap m

variable {α : Type} (f : Activation) (i : Instruction)

/-! ## State -/

@[grind ←] theorem raiseError_trapFree (e : VmError) : TrapFree (raiseError e : VmM α) := by
  unfold raiseError
  grind

@[grind ←] theorem luaGTyperror_trapFree (o : TValue) (op : String) :
    TrapFree (luaGTyperror o op : VmM α) := by
  unfold luaGTyperror
  grind

@[grind ←] theorem luaGRunerror_trapFree (msg : String) : TrapFree (luaGRunerror msg : VmM α) := by
  unfold luaGRunerror
  grind

@[grind ←] theorem slot_trapFree (n : Nat) : TrapFree (slot n) := by
  unfold slot
  grind

@[grind ←] theorem setSlot_trapFree (n : Nat) (v : TValue) : TrapFree (setSlot n v) := by
  unfold setSlot
  grind

@[grind ←] theorem setTop_trapFree (n : Nat) : TrapFree (setTop n) := by
  unfold setTop
  grind

@[grind ←] theorem setHeap_trapFree (h : Heap) : TrapFree (setHeap h) := by
  unfold setHeap
  grind

@[grind ←] theorem push_trapFree (v : TValue) : TrapFree (push v) := by
  unfold push
  grind

@[grind ←] theorem setPc_trapFree (pc : Nat) : TrapFree (setPc pc) := by
  unfold setPc
  grind

@[grind ←] theorem setMode_trapFree {mode : Mode} (h : mode ≠ .faulted .divide) :
    TrapFree (setMode mode) := by
  unfold setMode
  grind

@[grind ←] theorem nvalue_trapFree (v : TValue) : TrapFree (nvalue v) := by
  unfold nvalue
  grind

@[grind ←] theorem hvalue_trapFree (v : TValue) : TrapFree (hvalue v) := by
  unfold hvalue
  grind

@[grind ←] theorem rawtsvalue_trapFree (v : TValue) : TrapFree (rawtsvalue v) := by
  unfold rawtsvalue
  grind

@[grind ←] theorem reg_trapFree (r : Nat) : TrapFree (f.reg r) := by
  unfold Activation.reg
  grind

@[grind ←] theorem setReg_trapFree (r : Nat) (v : TValue) : TrapFree (f.setReg r v) := by
  unfold Activation.setReg
  grind

@[grind ←] theorem checkRegs_trapFree (a n : Nat) : TrapFree (f.checkRegs a n) := by
  unfold Activation.checkRegs
  grind

@[grind ←] theorem word_trapFree (pc : Nat) : TrapFree (f.word pc) := by
  unfold Activation.word
  grind

@[grind ←] theorem lclosure_trapFree : TrapFree f.lclosure := by
  unfold Activation.lclosure
  grind

@[grind ←] theorem kst_trapFree (j : Nat) : TrapFree (f.kst j) := by
  unfold Activation.kst
  grind

@[grind ←] theorem rk_trapFree (x : Nat) : TrapFree (f.rk x) := by
  unfold Activation.rk
  grind

@[grind ←] theorem upval_trapFree (b : Nat) : TrapFree (f.upval b) := by
  unfold Activation.upval
  grind

@[grind ←] theorem upvalGet_trapFree (id : Nat) : TrapFree (upvalGet id) := by
  unfold upvalGet
  grind

@[grind ←] theorem upvalSet_trapFree (id : Nat) (v : TValue) : TrapFree (upvalSet id v) := by
  unfold upvalSet
  grind

@[grind ←] theorem luaFFindupval_trapFree (level : Nat) : TrapFree (luaFFindupval level) := by
  unfold luaFFindupval
  grind

@[grind ←] theorem luaFClose_trapFree (level : Nat) : TrapFree (luaFClose level) := by
  unfold luaFClose
  grind

@[grind ←] theorem luaFNewLclosure_trapFree (p : Proto) (upvals : List Nat) (env : Nat) :
    TrapFree (luaFNewLclosure p upvals env) := by
  unfold luaFNewLclosure
  grind

/-! ## Calls -/

@[grind ←] theorem callable_trapFree (func : Nat) : TrapFree (callable func) := by
  unfold callable tryfuncTM
  grind

@[grind ←] theorem luaHNew_trapFree (t : Table) : TrapFree (luaHNew t) := by
  unfold luaHNew
  grind

@[grind ←] theorem adjustVarargs_trapFree (p : Proto) (actual : Int) :
    TrapFree (adjustVarargs p actual) := by
  unfold adjustVarargs newArgTable moveFixed pushArgTable
  grind

@[grind ←] theorem precallBase_trapFree (p : Proto) (func : Nat) :
    TrapFree (precallBase p func) := by
  unfold precallBase
  grind

@[grind ←] theorem precallLua_trapFree (p : Proto) (id func : Nat) (nresults : Int) (kont : Kont) :
    TrapFree (precallLua p id func nresults kont) := by
  unfold precallLua
  grind

@[grind ←] theorem precallNative_trapFree (func : Nat) (nresults : Int) (kont : Kont) :
    TrapFree (precallNative func nresults kont) := by
  unfold precallNative
  grind

@[grind ←] theorem luaDPrecall_trapFree (func : Nat) (nresults : Int) (kont : Kont) :
    TrapFree (luaDPrecall func nresults kont) := by
  unfold luaDPrecall
  grind

@[grind ←] theorem luaDCall_trapFree (func : Nat) (nresults : Int) (kont : Kont) :
    TrapFree (luaDCall func nresults kont) := luaDPrecall_trapFree func nresults kont

@[grind ←] theorem luaDPoscall_trapFree (firstResult : Nat) :
    TrapFree (luaDPoscall firstResult) := by
  unfold luaDPoscall
  grind

@[grind ←] theorem replaceFrame_trapFree : TrapFree replaceFrame := by
  unfold replaceFrame mergeFrames
  grind

/-! ## Tag methods -/

@[grind ←] theorem callTMres_trapFree (kont : Kont) (tm p1 p2 : TValue) :
    TrapFree (callTMres kont tm p1 p2) := by
  unfold callTMres
  grind

@[grind ←] theorem callTM_trapFree (tm p1 p2 p3 : TValue) : TrapFree (callTM tm p1 p2 p3) := by
  unfold callTM
  grind

@[grind ←] theorem callBinTM_trapFree (p1 p2 : TValue) (kont : Kont) (event : TMS) :
    TrapFree (callBinTM p1 p2 kont event) := by
  unfold callBinTM
  grind

@[grind ←] theorem callOrderTM_trapFree (kont : Kont) (p1 p2 : TValue) (event : TMS) :
    TrapFree (callOrderTM kont p1 p2 event) := by
  unfold callOrderTM
  grind

@[grind ←] theorem vmFasttm_trapFree (mt : Option Nat) (event : TMS) :
    TrapFree (vmFasttm mt event) := by
  unfold vmFasttm
  grind

@[grind ←] theorem luaVGettable_trapFree (key : TValue) (val loop : Nat) (t : TValue) :
    TrapFree (luaVGettable key val loop t) := by
  fun_induction luaVGettable with grind

@[grind ←] theorem luaHSet_trapFree (h : Nat) (key : TValue) : TrapFree (luaHSet h key) := by
  unfold luaHSet
  grind

@[grind ←] theorem putTable_trapFree (h : Nat) (key v : TValue) : TrapFree (putTable h key v) := by
  unfold putTable
  grind

@[grind ←] theorem luaVSettable_trapFree (key val : TValue) (loop : Nat) (t : TValue) :
    TrapFree (luaVSettable key val loop t) := by
  fun_induction luaVSettable with
  | case2 loop viaTM h ih =>
    apply Stable.bind (hvalue_trapFree _)
    intro h
    apply Stable.get_bind
    intro s untrapped
    grind
  | _ => grind

@[grind ←] theorem luaVLessthan_trapFree (l r : TValue) : TrapFree (luaVLessthan i l r) := by
  unfold luaVLessthan
  grind

@[grind ←] theorem lessequal_trapFree (l r : TValue) : TrapFree (lessequal i l r) := by
  unfold lessequal
  grind

@[grind ←] theorem getCompTM_trapFree (mt1 mt2 : Option Nat) (event : TMS) :
    TrapFree (getCompTM mt1 mt2 event) := by
  unfold getCompTM
  grind

@[grind ←] theorem equalByTM_trapFree (t1 t2 : TValue) (mt1 mt2 : Option Nat) :
    TrapFree (equalByTM i t1 t2 mt1 mt2) := by
  unfold equalByTM
  grind

@[grind ←] theorem equalobj_trapFree (t1 t2 : TValue) : TrapFree (equalobj i t1 t2) := by
  unfold equalobj
  grind

/-! ## Concatenation -/

@[grind ←] theorem tostringAt_trapFree (r : Nat) : TrapFree (tostringAt f r) := by
  unfold tostringAt
  grind

@[grind ←] theorem concatCollect_trapFree (last total rounds n : Nat) (acc : List UInt8) :
    TrapFree (concatCollect f last total rounds n acc) := by
  fun_induction concatCollect with grind

@[grind ←] theorem concatResult_trapFree : TrapFree (concatResult f i) := by
  unfold concatResult
  grind

@[grind ←] theorem concatStrings_trapFree (last : Nat) (v : TValue) :
    TrapFree (concatStrings f last v) := by
  unfold concatStrings
  grind

@[grind ←] theorem concatJoin_trapFree (total last : Nat) : TrapFree (concatJoin f total last) := by
  unfold concatJoin
  grind

@[grind ←] theorem luaVConcat_trapFree (rounds total last : Nat) :
    TrapFree (luaVConcat f i rounds total last) := by
  fun_induction luaVConcat with grind

/-! ## Returning -/

@[grind ←] theorem dojump_trapFree (pc : Nat) (n : Int) : TrapFree (dojump pc n) := by
  unfold dojump
  grind

@[grind ←] theorem branch_trapFree (taken : Bool) : TrapFree (branch f taken) := by
  unfold branch
  grind

@[grind ←] theorem compareOp_trapFree (res : Option Bool) : TrapFree (compareOp f i res) := by
  unfold compareOp compareBranch
  grind

@[grind ←] theorem currentActivation_trapFree : TrapFree currentActivation := by
  unfold currentActivation
  grind

@[grind ←] theorem popResult_trapFree : TrapFree popResult := by
  unfold popResult
  grind

@[grind ←] theorem tforloopResult_trapFree : TrapFree (tforloopResult f i) := by
  unfold tforloopResult
  grind

@[grind ←] theorem resume_trapFree (ci : CallInfo) : TrapFree (resume ci) := by
  unfold resume compareBranch
  grind

/-! ## Instructions -/

@[grind ←] theorem setlistLoop_trapFree (h : Nat) {value : Nat → VmM TValue}
    (reads : ∀ j, TrapFree (value j)) (n : Nat) (last : BitVec 32) :
    TrapFree (setlistLoop h value n last) := by
  fun_induction setlistLoop with grind

@[grind ←] theorem opSetlist_trapFree : TrapFree (opSetlist f i) := by
  unfold opSetlist setlistLength setlistBlock setlistStore
  grind

@[grind ←] theorem captureUpval_trapFree : TrapFree (captureUpval f i) := by
  unfold captureUpval
  grind

@[grind ←] theorem captureUpvals_trapFree (nup pc : Nat) : TrapFree (captureUpvals f nup pc) := by
  fun_induction captureUpvals with grind

@[grind ←] theorem opClosure_trapFree : TrapFree (opClosure f i) := by
  unfold opClosure
  grind

@[grind ←] theorem varargLoop_trapFree (n : Int) {store : Nat → TValue → VmM PUnit}
    (stores : ∀ j v, TrapFree (store j v)) (count j : Nat) :
    TrapFree (varargLoop f n store count j) := by
  fun_induction varargLoop with grind

@[grind ←] theorem opVararg_trapFree : TrapFree (opVararg f i) := by
  unfold opVararg
  grind

@[grind ←] theorem loadnilLoop_trapFree (a rounds b : Nat) :
    TrapFree (loadnilLoop f a rounds b) := by
  fun_induction loadnilLoop with grind

@[grind ←] theorem setOperandTop_trapFree (n : Nat) : TrapFree (setOperandTop f i n) := by
  unfold setOperandTop
  grind

@[grind ←] theorem opCall_trapFree : TrapFree (opCall f i) := by
  unfold opCall
  grind

@[grind ←] theorem opTailcall_trapFree : TrapFree (opTailcall f i) := by
  unfold opTailcall
  grind

@[grind ←] theorem opReturn_trapFree : TrapFree (opReturn f i) := by
  unfold opReturn
  grind

@[grind ←] theorem opForloop_trapFree : TrapFree (opForloop f i) := by
  unfold opForloop
  apply Stable.bind (reg_trapFree f _)
  intro v
  apply Stable.bind (nvalue_trapFree v)
  intro step
  apply Stable.bind (reg_trapFree f _)
  intro v
  apply Stable.bind (nvalue_trapFree v)
  intro idx
  grind

@[grind ←] theorem tonumberAt_trapFree (r : Nat) (msg : String) :
    TrapFree (tonumberAt f r msg) := by
  unfold tonumberAt
  grind

@[grind ←] theorem opForprep_trapFree : TrapFree (opForprep f i) := by
  unfold opForprep
  apply Stable.bind (tonumberAt_trapFree f _ _)
  intro _
  apply Stable.bind (tonumberAt_trapFree f _ _)
  intro _
  apply Stable.bind (tonumberAt_trapFree f _ _)
  intro _
  apply Stable.bind (reg_trapFree f _)
  intro v
  apply Stable.bind (nvalue_trapFree v)
  intro init
  grind

@[grind ←] theorem opTforloop_trapFree : TrapFree (opTforloop f i) := by
  unfold opTforloop
  apply Stable.bind (reg_trapFree f _)
  intro control
  apply Stable.bind (setReg_trapFree f _ control)
  intro _
  apply Stable.bind (reg_trapFree f _)
  intro state
  apply Stable.bind (setReg_trapFree f _ state)
  intro _
  grind

@[grind ←] theorem opLen_trapFree (getn : Table → Nat) : TrapFree (opLen getn f i) := by
  unfold opLen
  grind

@[grind ←] theorem gettableTo_trapFree (t key : TValue) (a : Nat) :
    TrapFree (gettableTo f t key a) := by
  unfold gettableTo
  grind

/-! ## Arithmetic -/

def IsDivision (op : ArithOp) : Prop := op = .div ∨ op = .mod

theorem vmNum_trapFree {op : ArithOp} {nb nc : LuaNumber} (ok : IsDivision op → ¬ DivTraps nb nc) :
    TrapFree (vmNum op nb nc) := by
  have total : ∃ n, luaiNum op nb nc = some n := by
    cases op with
    | div => simp [luaiNum, luaiNumdiv, ok (.inl rfl)]
    | mod => simp [luaiNum, luaiNummod, ok (.inr rfl)]
    | _ => simp [luaiNum]
  obtain ⟨n, found⟩ := total
  unfold vmNum
  rw [found]
  exact Stable.ret n

-- the operands of a division are numbers on which it does not trap, or none
def DivisionSafe (op : ArithOp) (rb rc : TValue) : Prop :=
  IsDivision op → ∀ nb ∈ luaVTonumber rb, ∀ nc ∈ luaVTonumber rc, ¬ DivTraps nb nc

theorem arith_trapFree (a : Nat) {rb rc : TValue} {op : ArithOp} (ok : DivisionSafe op rb rc) :
    TrapFree (arith f a rb rc op) := by
  unfold arith
  split
  next nb nc left right =>
    apply Stable.bind (vmNum_trapFree fun division => ok division nb left nc right)
    grind
  next => grind

theorem arithOp_trapFree (a : Nat) {rb rc : TValue} {op : ArithOp} (ok : DivisionSafe op rb rc) :
    TrapFree (arithOp f a rb rc op) := by
  unfold arithOp
  split
  next nb nc =>
    -- both numbers are read by their tag
    change TrapFree (vmNum op nb nc >>= fun n => f.setReg a (.number n))
    apply Stable.bind (vmNum_trapFree fun division => ok division nb rfl nc rfl)
    grind
  next => exact arith_trapFree f a ok

theorem opUnm_trapFree : TrapFree (opUnm f i) := by
  have notDivision : ¬ IsDivision .unm := by simp [IsDivision]
  unfold opUnm
  apply Stable.bind (reg_trapFree f _)
  intro rb
  split
  next => grind
  next => exact arith_trapFree f _ fun division => absurd division notDivision

theorem opArith_trapFree {op : ArithOp} (other : ¬ IsDivision op) : TrapFree (opArith f i op) := by
  unfold opArith
  apply Stable.bind (rk_trapFree f _)
  intro rb
  apply Stable.bind (rk_trapFree f _)
  intro rc
  exact arithOp_trapFree f _ fun division => absurd division other

/-- Every other instruction. -/
theorem executeOp_trapFree (getn : Table → Nat) {op : OpCode} (notDiv : op ≠ .div)
    (notMod : op ≠ .mod) :
    TrapFree (executeOp getn f i op) := by
  cases op with
  | div => exact absurd rfl notDiv
  | mod => exact absurd rfl notMod
  | add | sub | mul | pow => exact opArith_trapFree f i (by simp [IsDivision])
  | unm => exact opUnm_trapFree f i
  | _ =>
    unfold executeOp
    grind

/-! ## Divisions -/

-- the number that an operand stands for
def numberOperand (x : Nat) (s : LuaState) : Option LuaNumber :=
  match f.rk x s with
  | .ok v _ => luaVTonumber v
  | .error _ _ => none

/-- If the next instruction divides, its operands are not those on which the CPU traps. -/
def DivisionOk (s : LuaState) : Prop :=
  match currentActivation s with
  | .ok f _ =>
    let i := f.p.codeAt f.pc
    getOpcode i = some .div ∨ getOpcode i = some .mod →
      ∀ nb ∈ numberOperand f (getargB i) s, ∀ nc ∈ numberOperand f (getargC i) s, ¬ DivTraps nb nc
  | .error _ _ => True

def DivideOk (s : LuaState) : Act → Prop
  | .exec => DivisionOk s
  | _ => True

-- operands are read from the stack and the constants of the closure
theorem rk_frame (x : Nat) {s t : LuaState} (stack : t.stack = s.stack) (heap : t.heap = s.heap) :
    (∃ v, f.rk x s = .ok v s ∧ f.rk x t = .ok v t) ∨ ∃ e, f.rk x s = .error e s ∧
      f.rk x t = .error e t := by
  have reads : ∀ u : LuaState, f.rk x u =
      if isK x then f.kst (indexK x) u
      else if x < f.p.maxReg then
          .ok (u.stack (f.ci.base + x)) u else .error (.fault (.register x)) u := by
    intro u
    unfold Activation.rk Activation.reg
    split
    · rfl
    · split <;> rfl
  rw [reads s, reads t, stack]
  split
  · simp only [Activation.kst, Activation.lclosure, bind_run, get_run, heap]
    cases s.heap.closures f.cl with
    | c => exact .inr ⟨_, rfl, rfl⟩
    | lua p upvals env =>
      simp only [pure, EStateM.pure]
      rcases p.k[indexK x]? with _ | (_ | b | n | (_ | str))
      · exact .inr ⟨_, rfl, rfl⟩
      · exact .inl ⟨_, rfl, rfl⟩
      · exact .inl ⟨_, rfl, rfl⟩
      · exact .inl ⟨_, rfl, rfl⟩
      · exact .inr ⟨_, rfl, rfl⟩
      · exact .inl ⟨_, rfl, rfl⟩
  · split
    · exact .inl ⟨_, rfl, rfl⟩
    · exact .inr ⟨_, rfl, rfl⟩

theorem numberOperand_frame (x : Nat) {s t : LuaState} (stack : t.stack = s.stack)
    (heap : t.heap = s.heap) :
    numberOperand f x t = numberOperand f x s := by
  unfold numberOperand
  rcases rk_frame f x stack heap with ⟨v, left, right⟩ | ⟨e, left, right⟩
  · rw [left, right]
  · rw [left, right]

theorem rk_number (x : Nat) (s : LuaState) :
    Triple (fun t => t = s) (f.rk x) (fun v t => t = s ∧ luaVTonumber v = numberOperand f x s)
      (fun e _ => NotTrap e) := by
  rintro t rfl
  have safe := rk_trapFree f x
  rcases rk_frame f x (s := t) (t := t) rfl rfl with ⟨v, left, _⟩ | ⟨e, left, _⟩
  · simp [numberOperand, left]
  · rw [left]
    have result := safe { t with mode := .exec } (by simp [Untrapped])
    rcases rk_frame f x (s := t) (t := { t with mode := .exec }) rfl rfl
      with ⟨v, other, _⟩ | ⟨e', first, second⟩
    · rw [left] at other
      cases other
    · rw [left] at first
      cases first
      rw [second] at result
      exact result

theorem opArith_untrapped {op : ArithOp} {s : LuaState} (untrapped : Untrapped s)
    (ok : ∀ nb ∈ numberOperand f (getargB i) s, ∀ nc ∈ numberOperand f (getargC i) s,
      ¬ DivTraps nb nc) :
    Triple (fun t => t = s) (opArith f i op) (fun _ => Untrapped) (fun e _ => NotTrap e) := by
  unfold opArith
  apply Triple.bind (rk_number f (getargB i) s)
  intro rb
  apply Triple.given (φ := luaVTonumber rb = numberOperand f (getargB i) s) (fun _ h => h.2)
  intro left
  apply Triple.bind ((rk_number f (getargC i) s).pre fun _ h => h.1)
  intro rc
  apply Triple.given (φ := luaVTonumber rc = numberOperand f (getargC i) s) (fun _ h => h.2)
  intro right
  have safe : DivisionSafe op rb rc := by
    intro _
    rw [left, right]
    exact ok
  apply Triple.pre (arithOp_trapFree f (getargA i) safe)
  rintro t ⟨rfl, _⟩
  exact untrapped

theorem fetch_reads {s : LuaState} (untrapped : Untrapped s) :
    Triple (fun t => t = s) (fetch f)
      (fun i t => i = f.p.codeAt f.pc ∧ Untrapped t ∧ t.stack = s.stack ∧ t.heap = s.heap)
        (fun e _ => NotTrap e) := by
  unfold fetch
  apply Triple.bind (R := fun i t => t = s ∧ i = f.p.codeAt f.pc)
  · rintro t rfl
    cases found : f.p.code[f.pc]? with
    | none =>
      have ran : f.word f.pc t = .error (.fault .pc) t := by
        simp only [Activation.word, found]
        rfl
      rw [ran]
      simp [NotTrap]
    | some i =>
      have ran : f.word f.pc t = .ok i t := by
        simp only [Activation.word, found]
        rfl
      rw [ran]
      simp [Proto.codeAt, List.getD, found]
  · intro i
    apply Triple.given (φ := i = f.p.codeAt f.pc) (fun _ h => h.2)
    intro read
    apply Triple.cond_then (R := fun t => t = s)
    · intro _
      exact Triple.raise fun _ _ => by simp [NotTrap]
    · intro _ t h
      exact h.1
    · apply Triple.bind (R := fun _ t => Untrapped t ∧ t.stack = s.stack ∧ t.heap = s.heap)
      · apply Triple.update
        rintro t rfl
        split
        · exact ⟨untrapped, rfl, rfl⟩
        · exact ⟨untrapped, rfl, rfl⟩
      · intro _
        exact Triple.ret fun _ h => ⟨read, h⟩

theorem currentActivation_cases (s : LuaState) :
    (∃ f, currentActivation s = .ok f s) ∨ currentActivation s = .error (.fault .closure) s := by
  unfold currentActivation
  simp only [bind_run, get_run]
  rcases s.frames with _ | ⟨ci, rest⟩
  · exact .inr rfl
  · dsimp only
    rcases ci.code with ⟨p, pc, cl⟩ | _
    · exact .inl ⟨_, rfl⟩
    · exact .inr rfl

theorem execute_untrapped (getn : Table → Nat) :
    Triple (fun s => Untrapped s ∧ DivisionOk s) (execute getn) (fun _ => Untrapped)
      (fun e _ => NotTrap e) := by
  rintro s ⟨untrapped, ok⟩
  rcases currentActivation_cases s with ⟨f, found⟩ | stuck
  · have current : Triple (fun t => t = s) currentActivation (fun g t => g = f ∧ t = s) fun e _ => NotTrap e := by
      rintro t rfl
      rw [found]
      exact ⟨rfl, rfl⟩
    have body : Triple (fun t => t = s) (execute getn) (fun _ => Untrapped) (fun e _ => NotTrap e) := by
      apply Triple.bind current
      intro g
      apply Triple.given (φ := g = f) (fun _ h => h.1)
      intro same
      rw [same]
      apply Triple.bind ((fetch_reads f untrapped).pre fun _ h => h.2)
      intro i
      apply Triple.given (φ := i = f.p.codeAt f.pc) (fun _ h => h.1)
      rintro rfl
      split
      next op opcode =>
        by_cases division : op = .div ∨ op = .mod
        · -- the operands are as they were before the fetch
          rintro t ⟨_, calm, stack, heap⟩
          simp only [DivisionOk, found, opcode, Option.some.injEq, division, true_imp_iff] at ok
          have operands : ∀ nb ∈ numberOperand f (getargB (f.p.codeAt f.pc)) t,
              ∀ nc ∈ numberOperand f (getargC (f.p.codeAt f.pc)) t, ¬ DivTraps nb nc := by
            rw [numberOperand_frame f _ stack heap, numberOperand_frame f _ stack heap]
            exact ok
          rcases division with rfl | rfl
          · exact opArith_untrapped { f with pc := f.pc + 1 } _ calm operands t rfl
          · exact opArith_untrapped { f with pc := f.pc + 1 } _ calm operands t rfl
        · rw [not_or] at division
          exact Triple.pre (executeOp_trapFree _ _ getn division.1 division.2) fun _ h => h.2.1
      next => exact Triple.ret fun _ h => h.2.1
    exact body s rfl
  · simp only [execute, bind, EStateM.bind, stuck]
    simp [NotTrap]

/-! ## Runs -/

theorem runVm_untrapped {P : LuaState → Prop} {m : VmM PUnit}
    (h : Triple P m (fun _ => Untrapped) (fun e _ => NotTrap e)) {s : LuaState} (holds : P s) :
    Untrapped (runVm m s) := by
  have result := h s holds
  unfold runVm
  split at result
  next t ran =>
    rw [ran]
    exact result
  next e t ran =>
    rw [ran]
    cases e with
    | fault f =>
      intro trapped
      cases trapped
      exact result rfl
    | error err => simp [Untrapped]

theorem reentry_trapFree : TrapFree reentry := by
  unfold reentry
  apply Stable.get_bind
  intro s _
  split
  · split
    · grind
    · grind
  · grind

theorem gctm_trapFree (tm udata : TValue) : TrapFree (gctm tm udata) := by
  unfold gctm
  grind

theorem nativeReturn_trapFree (n : Nat) : TrapFree (nativeReturn n) := by
  unfold nativeReturn
  grind

theorem catchError_untrapped {s t : LuaState} {drop : Nat} {mem : Shared}
    (caught : catchError s drop mem = some t) :
    Untrapped t := by
  unfold catchError at caught
  grind

theorem vmStep_untrapped (getn : Table → Nat) (s : LuaState) (act : Act) (t : LuaState)
    (untrapped : Untrapped s) (ok : DivideOk s act) (step : vmStep getn s act = some t) :
    Untrapped t := by
  cases act with
  | exec =>
    simp only [vmStep] at step
    split at step
    next =>
      cases step
      exact runVm_untrapped (execute_untrapped getn) ⟨untrapped, ok⟩
    next =>
      cases step
      exact runVm_untrapped reentry_trapFree untrapped
    next => cases step
  | touch mem =>
    simp only [vmStep, Option.ite_none_right_eq_some, Option.some.injEq] at step
    obtain ⟨_, rfl⟩ := step
    exact untrapped
  | call func nresults =>
    simp only [vmStep, Option.ite_none_right_eq_some, Option.some.injEq] at step
    obtain ⟨_, rfl⟩ := step
    exact runVm_untrapped (luaDCall_trapFree func nresults .native) untrapped
  | ret n =>
    simp only [vmStep, Option.ite_none_right_eq_some, Option.some.injEq] at step
    obtain ⟨_, rfl⟩ := step
    exact runVm_untrapped (nativeReturn_trapFree n) untrapped
  | raise e =>
    simp only [vmStep, Option.ite_none_right_eq_some, Option.some.injEq] at step
    obtain ⟨_, rfl⟩ := step
    simp [Untrapped]
  | refuse =>
    simp only [vmStep, Option.ite_none_right_eq_some, Option.some.injEq] at step
    obtain ⟨_, rfl⟩ := step
    simp [Untrapped]
  | «catch» drop mem =>
    simp only [vmStep] at step
    split at step
    next => exact catchError_untrapped step
    next => exact catchError_untrapped step
    next => cases step
  | finalize tm udata =>
    simp only [vmStep, Option.ite_none_right_eq_some, Option.some.injEq] at step
    obtain ⟨_, rfl⟩ := step
    exact runVm_untrapped (gctm_trapFree tm udata) untrapped

/-! ## The compiler -/

-- the only two numerals that the guard for 0 lets through to a trap
def FoldTraps (op : OpCode) (e1 e2 : Expdesc) : Prop :=
  (op = .div ∨ op = .mod) ∧ isnumeral e1 = true ∧ isnumeral e2 = true ∧ e1.nval = longMin ∧
    e2.nval = -1

theorem divTraps_of_ne_zero {a b : LuaNumber} (nonzero : b ≠ 0) :
    DivTraps a b ↔ a = longMin ∧ b = -1 := by
  unfold DivTraps
  constructor
  · rintro (zero | both)
    · exact absurd zero nonzero
    · exact both
  · exact Or.inr

theorem constfolding_eq_none_iff (op : OpCode) (e1 e2 : Expdesc) :
    constfolding op e1 e2 = none ↔ FoldTraps op e1 e2 := by
  unfold constfolding FoldTraps
  by_cases numerals : isnumeral e1 = true ∧ isnumeral e2 = true
  · obtain ⟨first, second⟩ := numerals
    simp only [first, second, Bool.not_true, Bool.or_false, Bool.false_eq_true, if_false, true_and]
    cases op with
    | div | mod =>
      simp only [reduceCtorEq, or_false, false_or, true_and]
      split
      next zero =>
        rw [zero]
        simp
      next nonzero =>
        rw [Option.map_eq_none_iff]
        simp only [luaiNumdiv_eq_none, luaiNummod_eq_none, divTraps_of_ne_zero nonzero]
    | _ => simp
  · rw [not_and_or, Bool.not_eq_true, Bool.not_eq_true] at numerals
    rcases numerals with no | no <;> simp [no]

/-! ## Every site -/

/-- A trap needs a division whose operands are those of `DivTraps`, in a run, or the one pair
    that the compiler lets through. -/
theorem divisions_trap_only_on_bad_operands (op : OpCode) (e1 e2 : Expdesc) (getn : Table → Nat)
    {s t : LuaState} {acts : List Act} (start : Untrapped s)
    (meets : (vmSystem getn).Meets DivideOk s acts)
    (reached : (vmSystem getn).run s acts = some t) :
    (constfolding op e1 e2 ≠ none ↔ ¬ FoldTraps op e1 e2) ∧ Untrapped t := by
  constructor
  · exact not_congr (constfolding_eq_none_iff op e1 e2)
  · exact System.invariant_of_meets (vmSystem getn) (vmStep_untrapped getn) start meets reached

-- over the members of the two options, not over all numbers
instance (left right : Option LuaNumber) : Decidable (∀ nb ∈ left, ∀ nc ∈ right,
    ¬ DivTraps nb nc) :=
  have : DecidablePred fun nb => ∀ nc ∈ right, ¬ DivTraps nb nc :=
    fun _ => Option.decidableForallMem right
  Option.decidableForallMem left

instance (s : LuaState) : Decidable (DivisionOk s) := by
  unfold DivisionOk
  split <;> infer_instance

instance (s : LuaState) (act : Act) : Decidable (DivideOk s act) := by
  unfold DivideOk
  split <;> infer_instance

-- an arithmetic instruction on two constants
def divisionChunk (op : Nat) (k1 k2 : Constant) : List UInt8 :=
  luaUDump (varargFunction 0 2 [createABC op 0 256 257, createABC 30 0 1 0] [k1, k2] []) false

def numeral (n : LuaNumber) : Expdesc :=
  { k := .vknum, info := 0, aux := 0, nval := n, t := noJump, f := noJump }

theorem seven_by_two_does_not_trap :
    Loads (divisionChunk 15 (.number 7) (.number 2)) fun f =>
      ∃ s, called f [] 2 = some s ∧ Untrapped s ∧ constfolding .div (numeral 7)
        (numeral 2) ≠ none := by
  have evaluated : Loads (divisionChunk 15 (.number 7) (.number 2)) fun f =>
      (called f [] 2).isSome ∧
          (vmSystem fun _ => 0).Meets DivideOk (started emptyHeap f 0 []) (callActs 2) := by
    decide +kernel
  have other : (numeral 2).nval ≠ -1 := by decide +kernel
  obtain ⟨f, accepted, ran, meets⟩ := evaluated
  obtain ⟨s, reached⟩ := Option.isSome_iff_exists.mp ran
  have start : Untrapped (started emptyHeap f 0 []) := by simp [Untrapped, started]
  obtain ⟨folds, untrapped⟩ :=
    divisions_trap_only_on_bad_operands .div (numeral 7) (numeral 2) (fun _ =>
      0) start meets reached
  exact ⟨f, accepted, s, reached, untrapped, folds.mpr fun traps => other traps.2.2.2.2⟩

/-- `1 / 0`, `1 % "0"` and `LONG_MIN % -1` in a chunk, and `LONG_MIN / -1` in the compiler. -/
theorem accepted_chunks_trap :
    (Loads (divisionChunk 15 (.number 1) (.number 0)) fun f =>
      calledMode f [] 2 = some (.faulted .divide)) ∧
    (Loads (divisionChunk 16 (.number 1) (.string (some [48]))) fun f =>
      calledMode f [] 2 = some (.faulted .divide)) ∧
    (Loads (divisionChunk 16 (.number longMin) (.number (-1))) fun f =>
      calledMode f [] 2 = some (.faulted .divide)) ∧
    constfolding .div (numeral longMin) (numeral (-1)) = none := by
  decide +kernel

end Lunatik.Verified
