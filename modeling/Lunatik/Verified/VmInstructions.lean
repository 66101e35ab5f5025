import Lunatik.Verified.VmOperations

/-! # The instructions keep the invariant

One lemma per instruction: with what `symbexec` has checked of it, no access of the
instruction faults, and the invariant holds after it.  Where `symbexec` checks less than the
instruction needs, the lemma has the missing condition as a hypothesis.
-/

namespace Lunatik.Verified

open Lunatik.Lua Lunatik.Library

variable {f : Activation} {pc : Nat}

/-! ## Accesses -/

-- the value of a register
theorem reg_value {P : LuaState → Prop} {r : Nat} (inside : r < f.p.maxReg) :
    Triple P (f.reg r) (fun v s => P s ∧ v = s.stack (f.ci.base + r)) Failed := by
  rw [Activation.reg, if_pos inside]
  apply Triple.get_bind
  intro s
  apply Triple.ret
  rintro t ⟨holds, rfl⟩
  exact ⟨holds, rfl⟩

theorem reg_quiet {P : LuaState → Prop} {r : Nat} (inside : r < f.p.maxReg) :
    Triple P (f.reg r) (fun _ => P) Failed :=
  (reg_value inside).conseq (fun _ h => h) fun _ _ h => h.1

theorem setReg_quiet {P : LuaState → Prop} (hP : Frozen P) {r : Nat} (inside : r < f.p.maxReg)
    (v : TValue) :
    Triple P (f.setReg r v) (fun _ => P) Failed := by
  rw [Activation.setReg, if_pos inside]
  exact setSlot_quiet hP _ _

theorem checkRegs_quiet {P : LuaState → Prop} {a n : Nat} (inside : a + n ≤ f.p.maxReg) :
    Triple P (f.checkRegs a n) (fun _ => P) Failed := by
  rw [Activation.checkRegs, if_pos inside]
  exact Triple.ret fun _ h => h

theorem word_value {P : LuaState → Prop} {q : Nat} (inside : q < f.p.sizecode) :
    Triple P (f.word q) (fun i s => P s ∧ i = f.p.codeAt q) Failed := by
  have found : f.p.code[q]? = some (f.p.codeAt q) := by
    simp only [Proto.codeAt, List.getD_eq_getElem?_getD]
    rw [List.getElem?_eq_getElem inside]
    rfl
  simp only [Activation.word, found]
  exact Triple.ret fun _ h => ⟨h, rfl⟩

theorem lclosure_value :
    Triple (During f pc) f.lclosure
      (fun c s => During f pc s ∧ c.1 = f.p ∧ c.2.1.length = f.p.nups.toNat) Failed := by
  apply Triple.get_bind
  intro s
  apply Triple.given (φ := ∃ upvals env, s.heap.closures f.cl = .lua f.p upvals env ∧
    upvals.length = f.p.nups.toNat)
  · rintro t ⟨h, rfl⟩
    obtain ⟨upvals, env, found⟩ := h.closure
    exact ⟨upvals, env, found, (h.heap f.cl f.p upvals env found).2.1⟩
  rintro ⟨upvals, env, found, size⟩
  rw [found]
  exact Triple.ret fun _ h => ⟨h.1, rfl, size⟩

-- a constant that can be read
def ConstOk (p : Proto) (j : Nat) : Prop := j < p.sizek ∧ p.k[j]? ≠ some (.string none)

theorem kst_quiet {j : Nat} (ok : ConstOk f.p j) :
    Triple (During f pc) (f.kst j) (fun _ => During f pc) Failed := by
  apply Triple.bind lclosure_value
  rintro ⟨p, upvals, env⟩
  apply Triple.given (φ := p = f.p) (fun _ h => h.2.1)
  rintro rfl
  apply Triple.pre (P := During f pc) ?_ (fun _ h => h.1)
  have found := List.getElem?_eq_getElem ok.1
  dsimp only
  split
  · exact Triple.ret fun _ h => h
  · exact Triple.ret fun _ h => h
  · exact Triple.ret fun _ h => h
  · exact Triple.ret fun _ h => h
  next null => exact absurd null ok.2
  next missing =>
    rw [found] at missing
    cases missing

-- an operand that may be a constant
def RkOk (p : Proto) (x : Nat) : Prop := if isK x then ConstOk p (indexK x) else x < p.maxReg

theorem rk_quiet {x : Nat} (ok : RkOk f.p x) :
    Triple (During f pc) (f.rk x) (fun _ => During f pc) Failed := by
  unfold RkOk at ok
  rw [Activation.rk]
  split at ok
  next constant =>
    rw [if_pos constant]
    exact kst_quiet ok
  next register =>
    rw [if_neg register]
    exact reg_quiet ok

theorem upval_quiet {b : Nat} (inside : b < f.p.nups.toNat) :
    Triple (During f pc) (f.upval b) (fun _ => During f pc) Failed := by
  apply Triple.bind lclosure_value
  rintro ⟨p, upvals, env⟩
  apply Triple.given (φ := upvals.length = f.p.nups.toNat) (fun _ h => h.2.2)
  intro size
  have bound : b < upvals.length := by omega
  simp only [List.getElem?_eq_getElem bound]
  exact Triple.ret fun _ h => h.1

theorem setPc_during (pc' : Nat) : Triple (During f pc) (setPc pc')
    (fun _ => During f pc') Failed := by
  apply Triple.update
  intro s h
  obtain ⟨caller, rest, split⟩ := h.head
  have frames := h.frames
  rw [split] at frames
  simp only [split]
  exact ⟨⟨h.toSane.heap, frames.replace_head rfl⟩, h.mode, h.closure, caller, rest, rfl⟩

theorem luaFNewLclosure_during {p : Proto} {upvals : List Nat} (checked : Checked p)
    (size : upvals.length = p.nups.toNat) (env : Nat) :
    Triple (During f pc) (luaFNewLclosure p upvals env) (fun _ => During f pc) Failed := by
  apply Triple.get_bind
  intro s
  refine Triple.bind (R := fun _ => During f pc) (Triple.update ?_) fun _ => Triple.ret fun _ h => h
  rintro t ⟨h, rfl⟩
  have kept := h.heap.addClosure_kept (.lua p upvals env)
  obtain ⟨ids, env', found⟩ := h.closure
  obtain ⟨env'', found'⟩ := kept f.cl f.p ids env' found
  exact ⟨⟨h.heap.addClosure checked size env, h.frames.keep kept⟩, h.mode,
    ⟨ids, env'', found'⟩, h.head⟩

/-! ## Arithmetic and concatenation -/

theorem vmNum_quiet {P : LuaState → Prop} (hP : Frozen P) (op : ArithOp) (nb nc : LuaNumber) :
    Triple P (vmNum op nb nc) (fun _ => P) Failed := by
  unfold vmNum
  split
  · exact Triple.ret fun _ h => h
  · exact Triple.raise fun s h => ⟨.inr rfl, hP.sane s h⟩

def StringAt (n : Nat) (s : LuaState) : Prop := ∃ str, s.stack n = .string str

theorem tostringAt_spec {r : Nat} (inside : r < f.p.maxReg) :
    Triple (During f pc) (tostringAt f r)
      (fun isString s => During f pc s ∧ (isString = true → StringAt (f.ci.base + r) s))
        Failed := by
  apply Triple.bind (reg_quiet inside)
  intro v
  split
  next str _ =>
    apply Triple.bind (R := fun _ s => During f pc s ∧ StringAt (f.ci.base + r) s)
    · rw [Activation.setReg, if_pos inside]
      apply Triple.update
      intro s h
      exact ⟨(during_frozen f pc).frame s _ h rfl rfl rfl rfl, str, by simp⟩
    intro _
    exact Triple.ret fun _ h => ⟨h.1, fun _ => h.2⟩
  next => exact Triple.ret fun _ h => ⟨h, fun absurd => Bool.noConfusion absurd⟩

/-- Reading a string that is known to be there. -/
theorem readString_bind {α : Type} {P : LuaState → Prop} {r : Nat} (inside : r < f.p.maxReg)
    {rest : List UInt8 → VmM α} {Q : α → LuaState → Prop}
    (h : ∀ str, Triple P (rest str) Q Failed) :
    Triple (fun s => P s ∧ StringAt (f.ci.base + r) s)
      (f.reg r >>= fun v => rawtsvalue v >>= rest) Q Failed := by
  apply Triple.bind (reg_value inside)
  intro v
  apply Triple.given (φ := ∃ str, v = .string str)
  · rintro s ⟨⟨_, str, found⟩, same⟩
    exact ⟨str, same.trans found⟩
  intro isString
  exact Triple.bind ((rawtsvalue_quiet (P := P) isString).pre fun _ h => h.1.1) h

theorem concatCollect_spec {last : Nat} (inside : last < f.p.maxReg) (total rounds : Nat) {n : Nat}
    (acc : List UInt8) (positive : 1 ≤ n) :
    Triple (During f pc) (concatCollect f last total rounds n acc)
      (fun joined s => During f pc s ∧ 1 ≤ joined.1) Failed := by
  induction rounds generalizing n acc with
  | zero => exact Triple.ret fun _ h => ⟨h, positive⟩
  | succ rounds ih =>
    have lower : last - n < f.p.maxReg := by omega
    apply Triple.cond
    · intro _
      apply Triple.bind (tostringAt_spec lower)
      intro isString
      apply Triple.cond
      · intro yes
        apply Triple.pre (readString_bind (P := During f pc) lower ?_) fun _ h => ⟨h.1, h.2 yes⟩
        intro str
        apply Triple.cond
        · intro _
          exact raiseError_failed (during_frozen f pc) _
        · intro _
          exact ih _ (Nat.le_succ_of_le positive)
      · intro _
        exact Triple.ret fun _ h => ⟨h.1, positive⟩
    · intro _
      exact Triple.ret fun _ h => ⟨h, positive⟩

theorem concatStrings_spec {last : Nat} (inside : last < f.p.maxReg) (v2 : TValue) :
    Triple (During f pc) (concatStrings f last v2)
      (fun both s => During f pc s ∧ (both = true → StringAt (f.ci.base + last) s)) Failed := by
  unfold concatStrings
  split
  · exact tostringAt_spec inside
  · exact tostringAt_spec inside
  · exact Triple.ret fun _ h => ⟨h, fun absurd => Bool.noConfusion absurd⟩

theorem concatJoin_quiet {last : Nat} (inside : last < f.p.maxReg) (total : Nat) :
    Triple (fun s => During f pc s ∧ StringAt (f.ci.base + last) s) (concatJoin f total last)
      (fun _ => During f pc) Failed := by
  apply readString_bind inside
  intro str
  apply Triple.cond
  · intro _
    have lower : last - 1 < f.p.maxReg := by omega
    exact Triple.bind (tostringAt_spec lower) fun _ => Triple.ret fun _ h => h.1
  · intro _
    apply Triple.bind (concatCollect_spec inside total total str (Nat.le_refl 1))
    rintro ⟨n, all⟩
    apply Triple.given (φ := 1 ≤ n) (fun _ h => h.2)
    intro positive
    have lower : last + 1 - n < f.p.maxReg := by omega
    apply Triple.bind ((setReg_quiet (during_frozen f pc) lower _).pre fun _ h => h.1)
    intro _
    exact Triple.ret fun _ h => h

section

variable (checked : Checked f.p) (real : Real f.p pc)
include checked real

theorem setReg_inv {r : Nat} (inside : r < f.p.maxReg) (v : TValue) :
    Triple (During f pc) (f.setReg r v) (fun _ => VmInv) Failed :=
  (setReg_quiet (during_frozen f pc) inside v).conseq (fun _ h => h) fun _ _ h => h.inv checked real

theorem arith_inv {a : Nat} (inside : a < f.p.maxReg) (rb rc : TValue) (op : ArithOp) :
    Triple (During f pc) (arith f a rb rc op) (fun _ => VmInv) Failed := by
  have hP := during_frozen f pc
  unfold arith
  split
  · apply Triple.bind (vmNum_quiet hP op _ _)
    intro n
    exact setReg_inv checked real inside _
  · refine callBinTM_or_error hP (fun _ h => h.mayCall checked real ?_) rb rc _ _
    exact trivial

theorem arithOp_inv {a : Nat} (inside : a < f.p.maxReg) (rb rc : TValue) (op : ArithOp) :
    Triple (During f pc) (arithOp f a rb rc op) (fun _ => VmInv) Failed := by
  unfold arithOp
  split
  next nb nc =>
    apply Triple.bind (nvalue_quiet ⟨nb, rfl⟩)
    intro _
    apply Triple.bind (nvalue_quiet ⟨nc, rfl⟩)
    intro _
    apply Triple.bind (vmNum_quiet (during_frozen f pc) op _ _)
    intro n
    exact setReg_inv checked real inside _
  next => exact arith_inv checked real inside rb rc op

theorem concatResult_inv {i : Instruction} (aInside : getargA i < f.p.maxReg)
    (bInside : getargB i < f.p.maxReg) :
    Triple (During f pc) (concatResult f i) (fun _ => VmInv) Failed :=
  Triple.bind (reg_quiet bInside) fun _ => setReg_inv checked real aInside _

theorem luaVConcat_inv {i : Instruction} (aInside : getargA i < f.p.maxReg)
    (bInside : getargB i < f.p.maxReg) (rounds total : Nat) {last : Nat}
    (inside : last < f.p.maxReg) :
    Triple (During f pc) (luaVConcat f i rounds total last) (fun _ => VmInv) Failed := by
  have hP := during_frozen f pc
  induction rounds generalizing total last with
  | zero => exact concatResult_inv checked real aInside bInside
  | succ rounds ih =>
    have lower : last - 1 < f.p.maxReg := by omega
    apply Triple.bind (reg_quiet lower)
    intro v2
    apply Triple.bind (reg_quiet inside)
    intro v1
    apply Triple.bind (concatStrings_spec inside v2)
    intro both
    apply Triple.cond
    · intro yes
      apply Triple.bind ((concatJoin_quiet inside total).pre fun _ h => ⟨h.1, h.2 yes⟩)
      intro n
      apply Triple.cond
      · intro _
        exact ih _ (by omega)
      · intro _
        exact concatResult_inv checked real aInside bInside
    · intro _
      apply (callBinTM_or_error hP (fun _ h =>
        h.mayCall checked real ?_) v2 v1 .concat _).pre fun _ h => h.1
      exact ⟨aInside, bInside, inside⟩

end

/-! ## Jumps -/

theorem dojump_during {from' : Nat} {n : Int} (nonneg : 0 ≤ (from' : Int) + n) :
    Triple (During f pc) (dojump from' n) (fun _ => During f ((from' : Int) + n).toNat) Failed := by
  simp only [dojump, if_pos nonneg]
  exact setPc_during _

theorem dojump_inv (checked : Checked f.p) {from' : Nat} {n : Int} (nonneg : 0 ≤ (from' : Int) + n)
    (real : Real f.p ((from' : Int) + n).toNat) :
    Triple (During f pc) (dojump from' n) (fun _ => VmInv) Failed :=
  (dojump_during nonneg).conseq (fun _ h => h) fun _ _ h => h.inv checked real

/-- Both ways out of a test lead to instructions. -/
theorem branch_inv (checked : Checked f.p) (real : Real f.p f.pc) (at' : BranchAt f.p f.pc)
    (taken : Bool) :
    Triple (During f pc) (branch f taken) (fun _ => VmInv) Failed := by
  obtain ⟨op, facts⟩ := facts_of_checked checked.code real
  have isJump : op = .jmp := Option.some.inj (facts.opcode.symm.trans at'.jump)
  subst isJump
  obtain ⟨nonneg, target⟩ :=
    checkJump_real (by simpa [checkOperands, luaPOpmodes] using facts.operands)
  cases taken with
  | true =>
    apply Triple.bind (word_value real.inside)
    intro jump
    apply Triple.given (φ := jump = f.p.codeAt f.pc) (fun _ h => h.2)
    rintro rfl
    apply Triple.pre (P := During f pc) ?_ (fun _ h => h.1)
    exact dojump_inv checked (by push_cast; exact nonneg) (by push_cast; exact target)
  | false => exact (setPc_during _).conseq (fun _ h => h) fun _ _ h => h.inv checked at'.skip

theorem compareOp_inv (checked : Checked f.p) (real : Real f.p f.pc) (at' : BranchAt f.p f.pc)
    (i : Instruction) (res : Option Bool) : Triple (Compared f pc res) (compareOp f i res)
    (fun _ => VmInv) Failed := by
  cases res with
  | some res => exact branch_inv checked real at' _
  | none => exact Triple.ret fun _ h => h

/-! ## Returning -/

theorem vmInv_frozen : Frozen VmInv where
  sane := fun _ h => h.toSane
  frame := by
    intro s s' h frames mode closures next
    obtain ⟨ci, rest, split, head⟩ := h.head
    refine ⟨h.toSane.frame frames closures next, ci, rest, frames.trans split, ?_⟩
    rw [mode]
    revert head
    cases s.mode with
    | exec | reentry =>
      rintro ⟨p, pc, cl, at'⟩
      exact ⟨p, pc, cl, at'.keep (.of_eq closures)⟩
    | _ => exact fun head => head

theorem popResult_quiet {P : LuaState → Prop} (hP : Frozen P) :
    Triple P popResult (fun _ => P) Failed := by
  apply Triple.get_bind
  intro s
  exact Triple.bind ((setTop_quiet hP _).pre fun _ h => h.1) fun _ => Triple.ret fun _ h => h

-- the caller of a function that returns to an instruction
theorem MayCall.frameAt {kont : Kont} {s : LuaState} (h : MayCall kont s) (lua : kont ≠ .native) :
    ∃ ci rest p pc cl, s.frames = ci :: rest ∧ FrameAt s.heap ci p pc cl ∧ KontAt p pc kont := by
  obtain ⟨ci, rest, split, ok⟩ := h.caller
  rcases ok with ⟨native, _⟩ | ⟨p, pc, cl, at', fits⟩
  · exact absurd native lua
  · exact ⟨ci, rest, p, pc, cl, split, at', fits⟩

/-- The caller runs again. -/
theorem setMode_exec_inv {kont : Kont} (lua : kont ≠ .native) :
    Triple (MayCall kont) (setMode .exec) (fun _ s => VmInv s ∧ MayCall kont s ∧
      s.mode = .exec) Failed := by
  apply Triple.update
  intro s h
  obtain ⟨ci, rest, p, pc, cl, split, at', fits⟩ := h.frameAt lua
  have sane : Sane { s with mode := .exec } := ⟨h.heap, h.frames⟩
  exact ⟨⟨sane, ci, rest, split, p, pc, cl, at'⟩, ⟨sane, h.caller⟩, rfl⟩

theorem MayCall.activation {kont : Kont} {s : LuaState} (h : MayCall kont s)
    (lua : kont ≠ .native) :
    ∃ f, currentActivation s = .ok f s ∧ Checked f.p ∧ Real f.p f.pc ∧ KontAt f.p f.pc kont ∧
      (s.mode = .exec → During f f.pc s) := by
  obtain ⟨ci, frames, p, pc, cl, split, at', fits⟩ := h.frameAt lua
  refine ⟨⟨ci, p, pc, cl⟩, ?_, at'.checked, at'.real, fits, ?_⟩
  · simp only [currentActivation, bind_run, get_run,
      split, at'.code]
    rfl
  · intro mode
    have ok := h.frames
    rw [split] at ok
    refine ⟨h.toSane, mode, at'.closure, ?_⟩
    cases frames with
    | nil =>
      have native : ci.code = .native := ok
      rw [at'.code] at native
      cases native
    | cons caller frames =>
      refine ⟨caller, frames, ?_⟩
      rw [split]
      simp only [← at'.code]

/-- An interrupted instruction goes on where it was. -/
theorem currentActivation_bind (kont : Kont) (lua : kont ≠ .native) {k : Activation → VmM PUnit}
    {Q : PUnit → LuaState → Prop}
    (rest : ∀ f : Activation, Checked f.p → Real f.p f.pc → KontAt f.p f.pc kont →
      Triple (During f f.pc) (k f) Q Failed) :
    Triple (fun s => MayCall kont s ∧ s.mode = .exec) (currentActivation >>= k) Q Failed := by
  rintro s ⟨h, mode⟩
  obtain ⟨f, found, checked, real, fits, during⟩ := h.activation lua
  have after := rest f checked real fits s (during mode)
  simp only [bind, EStateM.bind, found]
  exact after

theorem currentActivation_quiet {kont : Kont} (lua : kont ≠ .native) :
    Triple (MayCall kont) currentActivation (fun _ => MayCall kont) Failed := by
  intro s h
  obtain ⟨f, found, _⟩ := h.activation lua
  rw [found]
  exact h

theorem tforloopResult_inv {i : Instruction} (checked : Checked f.p) (real : Real f.p f.pc)
    (at' : BranchAt f.p f.pc) (inside : getargA i + 3 < f.p.maxReg) :
    Triple (During f pc) (tforloopResult f i) (fun _ => VmInv) Failed := by
  have hP := during_frozen f pc
  have lower : getargA i + 2 < f.p.maxReg := by omega
  apply Triple.bind (setTop_quiet hP _)
  intro _
  apply Triple.bind (reg_quiet inside)
  intro control
  apply Triple.cond
  · intro _
    exact Triple.bind (setReg_quiet hP lower _) fun _ => branch_inv checked real at' true
  · intro _
    exact branch_inv checked real at' false

theorem resume_inv (ci : CallInfo) : Triple (MayCall ci.kont) (resume ci)
    (fun _ => VmInv) Failed := by
  unfold resume
  cases kont : ci.kont with
  | native =>
    apply Triple.update
    intro s h
    obtain ⟨caller, rest, split, ok⟩ := h.caller
    rcases ok with ⟨_, native⟩ | ⟨_, _, _, _, fits⟩
    · exact ⟨⟨h.heap, h.frames⟩, caller, rest, split, native⟩
    · exact fits.elim
  | opCall =>
    have hP := mayCall_frozen .opCall
    apply Triple.bind (currentActivation_quiet (by simp))
    intro f
    apply Triple.cond_then (R := MayCall .opCall)
    · intro _
      exact setTop_quiet hP _
    · intro _ _ h
      exact h
    · dsimp only
      split
      · apply Triple.update
        intro s h
        obtain ⟨caller, rest, p, pc, cl, split, at', _⟩ := h.frameAt (by simp)
        exact ⟨⟨h.heap, h.frames⟩, caller, rest, split, p, pc, cl, at'⟩
      · exact (setMode_exec_inv (by simp)).conseq (fun _ h => h) fun _ _ h => h.1
  | opTailcall | tm | gctm =>
    exact (setMode_exec_inv (by simp)).conseq (fun _ h => h) fun _ _ h => h.1
  | tmres res =>
    apply Triple.bind (setMode_exec_inv (by simp))
    intro _
    apply Triple.bind ((popResult_quiet vmInv_frozen).pre fun _ h => h.1)
    intro v
    exact setSlot_quiet vmInv_frozen _ _
  | compare i negate =>
    apply Triple.bind (setMode_exec_inv (by simp))
    intro _
    apply Triple.pre (currentActivation_bind (.compare i negate) (by simp) ?_) fun _ h => h.2
    intro f checked real fits
    apply Triple.bind (popResult_quiet (during_frozen f f.pc))
    intro res
    exact branch_inv checked real fits _
  | concat i total last =>
    apply Triple.bind (setMode_exec_inv (by simp))
    intro _
    apply Triple.pre (currentActivation_bind (.concat i total last) (by simp) ?_) fun _ h => h.2
    rintro f checked real ⟨aInside, bInside, inside⟩
    have lower : last - 1 < f.p.maxReg := by omega
    apply Triple.bind (popResult_quiet (during_frozen f f.pc))
    intro res
    apply Triple.bind (setReg_quiet (during_frozen f f.pc) lower _)
    intro _
    apply Triple.cond
    · intro _
      exact luaVConcat_inv checked real aInside bInside _ _ lower
    · intro _
      exact concatResult_inv checked real aInside bInside
  | tforloop i =>
    apply Triple.bind (setMode_exec_inv (by simp))
    intro _
    apply Triple.pre (currentActivation_bind (.tforloop i) (by simp) ?_) fun _ h => h.2
    rintro f checked real ⟨at', inside⟩
    exact tforloopResult_inv checked real at' inside

/-- The innermost call is gone and its caller goes on. -/
theorem luaDPoscall_spec (firstResult : Nat) :
    Triple (fun s => Sane s ∧ 2 ≤ s.frames.length) (luaDPoscall firstResult)
      (fun ci s => MayCall ci.kont s)
      Failed := by
  apply Triple.get_bind
  intro s
  match split : s.frames with
  | ci :: caller :: rest =>
    apply Triple.bind (R := fun _ => MayCall ci.kont)
    · rintro t ⟨⟨sane, _⟩, rfl⟩
      have frames := sane.frames
      rw [split] at frames
      exact ⟨⟨sane.heap, frames.2⟩, caller, rest, rfl, frames.1⟩
    · intro _
      exact Triple.ret fun _ h => h
  | [_] | [] =>
    apply Triple.given (φ := 2 ≤ s.frames.length)
    · rintro t ⟨⟨_, many⟩, rfl⟩
      exact many
    intro many
    simp [split] at many

end Lunatik.Verified
