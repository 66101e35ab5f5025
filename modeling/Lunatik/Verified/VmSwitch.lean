import Lunatik.Verified.VmInstructions

/-! # The switch of `luaV_execute` on checked code

For each opcode the conditions of `symbexec` cover what the instruction does, except in the
cases that `Covered` names.  `executeOp_inv` puts the lemmas together.
-/

namespace Lunatik.Verified

open Lunatik.Lua Lunatik.Library

variable {f : Activation} {pc : Nat} {op : OpCode}

/-! ## What `symbexec` does not check -/

def kOperand (mask : OpArgMask) (x : Nat) : List Nat :=
  if mask = .argK ∧ isK x then [indexK x] else []

-- the constants that an instruction names
def constOperands (op : OpCode) (i : Instruction) : List Nat :=
  let modes := luaPOpmodes op
  match modes.format with
  | .iABC => kOperand modes.b (getargB i) ++ kOperand modes.c (getargC i)
  | .iABx => if modes.b = .argK then [getargBx i] else []
  | .iAsBx => []

def NullFree (p : Proto) (op : OpCode) (i : Instruction) : Prop :=
  ∀ j ∈ constOperands op i, p.k[j]? ≠ some (.string none)

def NumberAt (s : LuaState) (n : Nat) : Prop := ttisnumber (s.stack n) = true

theorem numberAt_iff {s : LuaState} {n : Nat} : NumberAt s n ↔ ∃ v, s.stack n = .number v := by
  unfold NumberAt
  cases s.stack n with
  | number v => simp [ttisnumber, ttype]
  | _ => simp [ttisnumber, ttype, luaTnil, luaTboolean, luaTlightuserdata, luaTstring, luaTtable,
      luaTfunction, luaTuserdata, luaTthread, luaTnumber]

/-- The instruction at `pc` is not one of those that the verifier lets through and the
    interpreter does not guard: a NULL string, a LOADBOOL that skips with another C than 1, a
    TFORLOOP without room for its call, a FORLOOP that FORPREP has not prepared. -/
def Covered (p : Proto) (pc base : Nat) (s : LuaState) (op : OpCode) : Prop :=
  let i := p.codeAt pc
  NullFree p op i ∧
    match op with
    | .loadbool => 2 ≤ getargC i → Real p (pc + 2)
    | .tforloop => getargA i + 5 < p.maxReg
    | .forloop =>
      NumberAt s (base + getargA i) ∧ NumberAt s (base + (getargA i + 1)) ∧
        NumberAt s (base + (getargA i + 2))
    | _ => True

/-! ## Fetched instructions -/

structure Fetched (f : Activation) (pc : Nat) (op : OpCode) : Prop where
  position : f.pc = pc + 1
  checked : Checked f.p
  real : Real f.p pc
  facts : Facts f.p pc op

theorem Fetched.next (h : Fetched f pc op) (goesOn : op ≠ .return)
    (uncounted : looksCounted (f.p.codeAt pc) = false) : Real f.p f.pc := by
  rw [h.position]
  exact real_succ h.checked.code h.real h.facts.opcode goesOn uncounted

theorem Fetched.next_of_ne (h : Fetched f pc op) (goesOn : op ≠ .return) (notList : op ≠ .setlist) :
    Real f.p f.pc := by
  apply h.next goesOn
  rw [looksCounted_of_opcode h.facts.opcode]
  simp [notList]

theorem Fetched.branchAt (h : Fetched f pc op) (tests : (luaPOpmodes op).test = true) :
    BranchAt f.p f.pc := by
  obtain ⟨skip, jump⟩ := h.facts.test tests
  have notReturn : op ≠ .return := by rintro rfl; simp [luaPOpmodes] at tests
  have notList : op ≠ .setlist := by rintro rfl; simp [luaPOpmodes] at tests
  have real := h.next_of_ne notReturn notList
  rw [h.position] at real ⊢
  exact ⟨jump, real_succ h.checked.code real jump (by simp) (by simp [looksCounted, jump])⟩

/-! ## Operands -/

theorem argR_lt {p : Proto} {r : Nat} (h : checkArgMode p r .argR = true) : r < p.maxReg := by
  simpa [checkArgMode] using h

theorem argK_ok {p : Proto} {x : Nat} (h : checkArgMode p x .argK = true)
    (notNull : isK x = true → p.k[indexK x]? ≠ some (.string none)) : RkOk p x := by
  unfold RkOk
  simp only [checkArgMode] at h
  split at h
  next constant =>
    rw [if_pos constant]
    exact ⟨by simpa using h, notNull constant⟩
  next register =>
    rw [if_neg register]
    simpa using h

theorem Fetched.modes (h : Fetched f pc op) (format : (luaPOpmodes op).format = .iABC) :
    checkArgMode f.p (getargB (f.p.codeAt pc)) (luaPOpmodes op).b = true ∧
      checkArgMode f.p (getargC (f.p.codeAt pc)) (luaPOpmodes op).c = true := by
  have operands := h.facts.operands
  simpa only [checkOperands, format, Bool.and_eq_true] using operands

theorem Fetched.rkB (h : Fetched f pc op) (format : (luaPOpmodes op).format = .iABC)
    (mask : (luaPOpmodes op).b = .argK) (notNull : NullFree f.p op (f.p.codeAt pc)) :
    RkOk f.p (getargB (f.p.codeAt pc)) := by
  have checks := (h.modes format).1
  rw [mask] at checks
  refine argK_ok checks fun constant => notNull _ ?_
  simp [constOperands, format, kOperand, mask, constant]

theorem Fetched.rkC (h : Fetched f pc op) (format : (luaPOpmodes op).format = .iABC)
    (mask : (luaPOpmodes op).c = .argK) (notNull : NullFree f.p op (f.p.codeAt pc)) :
    RkOk f.p (getargC (f.p.codeAt pc)) := by
  have checks := (h.modes format).2
  rw [mask] at checks
  refine argK_ok checks fun constant => notNull _ ?_
  simp [constOperands, format, kOperand, mask, constant]

theorem Fetched.regB (h : Fetched f pc op) (format : (luaPOpmodes op).format = .iABC)
    (mask : (luaPOpmodes op).b = .argR) : getargB (f.p.codeAt pc) < f.p.maxReg := by
  have checks := (h.modes format).1
  rw [mask] at checks
  exact argR_lt checks

theorem Fetched.kBx (h : Fetched f pc op) (format : (luaPOpmodes op).format = .iABx)
    (mask : (luaPOpmodes op).b = .argK) (notNull : NullFree f.p op (f.p.codeAt pc)) :
    ConstOk f.p (getargBx (f.p.codeAt pc)) := by
  have operands := h.facts.operands
  simp only [checkOperands, format, mask, if_true, decide_eq_true_eq] at operands
  refine ⟨operands, notNull _ ?_⟩
  simp [constOperands, format, mask]

theorem Fetched.jump (h : Fetched f pc op) (format : (luaPOpmodes op).format = .iAsBx)
    (mask : (luaPOpmodes op).b = .argR) :
    0 ≤ (f.pc : Int) + getargSBx (f.p.codeAt pc) ∧
      Real f.p ((f.pc : Int) + getargSBx (f.p.codeAt pc)).toNat := by
  have operands := h.facts.operands
  simp only [checkOperands, format, mask, if_true] at operands
  rw [h.position]
  push_cast
  exact checkJump_real operands

/-! ## Loops over registers -/

theorem loadnilLoop_quiet {P : LuaState → Prop} (hP : Frozen P) (a rounds : Nat) {b : Nat}
    (inside : b < f.p.maxReg) : Triple P (loadnilLoop f a rounds b) (fun _ => P) Failed := by
  induction rounds generalizing b with
  | zero => exact Triple.ret fun _ h => h
  | succ rounds ih =>
    apply Triple.bind (setReg_quiet hP inside _)
    intro _
    apply Triple.cond
    · intro _
      exact ih (by omega)
    · intro _
      exact Triple.ret fun _ h => h

theorem varargLoop_quiet {P : LuaState → Prop} (n : Int) {store : Nat → TValue → VmM PUnit}
    (count start : Nat) (stores : ∀ j v, j < start + count →
      Triple P (store j v) (fun _ => P) Failed) :
    Triple P (varargLoop f n store count start) (fun _ => P) Failed := by
  induction count generalizing start with
  | zero => exact Triple.ret fun _ h => h
  | succ count ih =>
    apply Triple.bind (slot_quiet _)
    intro extra
    apply Triple.bind (stores start _ (by omega))
    intro _
    exact ih (start + 1) fun j v bound => stores j v (by omega)

theorem setlistLoop_quiet {P : LuaState → Prop} (hP : Frozen P) (h : Nat)
    {value : Nat → VmM TValue} (n : Nat) (reads : ∀ j, j ≤ n →
      Triple P (value j) (fun _ => P) Failed) (last : BitVec 32) :
    Triple P (setlistLoop h value n last) (fun _ => P) Failed := by
  induction n generalizing last with
  | zero => exact Triple.ret fun _ h => h
  | succ n ih =>
    apply Triple.bind (reads (n + 1) (Nat.le_refl _))
    intro v
    apply Triple.bind (putTable_quiet hP _ _ _)
    intro _
    exact ih (fun j bound => reads j (Nat.le_succ_of_le bound)) _

theorem opVararg_inv (h : Fetched f pc .vararg) :
    Triple (During f f.pc) (opVararg f (f.p.codeAt pc)) (fun _ => VmInv) Failed := by
  have hP := during_frozen f f.pc
  have real := h.next_of_ne (by simp) (by simp)
  have room : getargA (f.p.codeAt pc) + getargB (f.p.codeAt pc) < f.p.maxReg + 2 := h.facts.checked
  have done : ∀ s, During f f.pc s → VmInv s := fun s during => during.inv h.checked real
  apply Triple.bind lclosure_value
  rintro ⟨p, upvals, env⟩
  apply Triple.pre (P := During f f.pc) ?_ (fun _ h => h.1)
  apply Triple.cond
  · intro _
    apply Triple.bind (setTop_quiet hP _)
    intro _
    exact (varargLoop_quiet _ _ _ fun j v _ => setSlot_quiet hP _ v).conseq (fun _ h =>
      h) fun _ s h => done s h
  · intro counted
    refine (varargLoop_quiet _ _ _ fun j v bound => setReg_quiet hP ?_ v).conseq (fun _ h =>
      h) fun _ s h => done s h
    omega

/-! ## SETLIST -/

theorem setlistLength_spec (i : Instruction) :
    Triple (During f pc) (setlistLength f i)
      (fun n s => During f pc s ∧ (getargB i ≠ 0 → n = getargB i)) Failed := by
  apply Triple.cond
  · intro isOpen
    apply Triple.get_bind
    intro s
    apply Triple.bind ((setTop_quiet (during_frozen f pc) _).pre fun _ h => h.1)
    intro _
    exact Triple.ret fun _ h => ⟨h, fun counted => absurd isOpen counted⟩
  · intro _
    exact Triple.ret fun _ h => ⟨h, fun _ => rfl⟩

theorem setlistStore_inv (h : Fetched f pc .setlist) {q : Nat} (real : Real f.p q) {n : Int}
    (size : getargB (f.p.codeAt pc) ≠ 0 → n = getargB (f.p.codeAt pc)) (c : BitVec 32) :
    Triple (During f q) (setlistStore f (f.p.codeAt pc) n c) (fun _ => VmInv) Failed := by
  have hP := during_frozen f q
  obtain ⟨room, _⟩ := h.facts.checked
  have done : ∀ s, During f q s → VmInv s := fun s during => during.inv h.checked real
  apply Triple.bind (reg_quiet h.facts.a_lt)
  intro ra
  split
  next t =>
    apply Triple.bind (hvalue_quiet t)
    intro id
    refine (setlistLoop_quiet hP _ _ ?_ _).conseq (fun _ h => h) fun _ s h => done s h
    intro j bound
    apply Triple.cond
    · intro _
      exact slot_quiet _
    · intro counted
      have last := room (Nat.pos_of_ne_zero counted)
      rw [size counted] at bound
      exact reg_quiet (by omega)
  next => exact Triple.ret done

theorem opSetlist_inv (h : Fetched f pc .setlist) :
    Triple (During f f.pc) (opSetlist f (f.p.codeAt pc)) (fun _ => VmInv) Failed := by
  have isList := looksCounted_of_opcode h.facts.opcode
  apply Triple.bind (setlistLength_spec _)
  intro n
  apply Triple.given (φ := getargB (f.p.codeAt pc) ≠ 0 →
    n = getargB (f.p.codeAt pc)) (fun _ h => h.2)
  intro size
  apply Triple.pre (P := During f f.pc) ?_ (fun _ h => h.1)
  by_cases counted : getargC (f.p.codeAt pc) = 0
  · -- the count is stepped over
    have inside : pc + 1 < f.p.sizecode - 1 := h.facts.checked.2 counted
    have isCount : countWord f.p (pc + 1) = true := by
      rw [countWord_succ_of_real h.real.notCount, isList, counted]
      rfl
    have real : Real f.p (f.pc + 1) := by
      rw [h.position]
      refine ⟨by omega, ?_⟩
      show (!countWord f.p (pc + 1) && looksCounted (f.p.codeAt (pc + 1))) = false
      rw [isCount]
      rfl
    apply Triple.bind (R := fun _ => During f (f.pc + 1))
    · simp only [setlistBlock, if_pos counted]
      apply Triple.bind ((word_value (by rw [h.position]; omega)).conseq (fun _ h =>
        h) fun _ _ h => h.1)
      intro c
      exact Triple.bind (setPc_during _) fun _ => Triple.ret fun _ h => h
    · intro c
      exact setlistStore_inv h real size c
  · have real : Real f.p f.pc := by
      apply h.next (by simp)
      rw [isList]
      simp [counted]
    apply Triple.bind (R := fun _ => During f f.pc)
    · simp only [setlistBlock, if_neg counted]
      exact Triple.ret fun _ h => h
    · intro c
      exact setlistStore_inv h real size c

/-! ## CLOSURE -/

theorem captureUpvals_spec (n : Nat) {q : Nat}
    (capture : ∀ j < n, q + j < f.p.sizecode ∧
      if getOpcode (f.p.codeAt (q + j)) = some .getupval then
        getargB (f.p.codeAt (q + j)) < f.p.nups.toNat
      else getargB (f.p.codeAt (q + j)) < f.p.maxReg) :
    Triple (During f pc) (captureUpvals f n q)
      (fun ids s => During f pc s ∧ ids.length = n) Failed := by
  induction n generalizing q with
  | zero => exact Triple.ret fun _ h => ⟨h, rfl⟩
  | succ n ih =>
    obtain ⟨inside, operand⟩ := capture 0 (Nat.succ_pos n)
    rw [Nat.add_zero] at inside operand
    apply Triple.bind (word_value inside)
    intro i
    apply Triple.given (φ := i = f.p.codeAt q) (fun _ h => h.2)
    rintro rfl
    apply Triple.bind (R := fun _ => During f pc)
    · apply Triple.pre (P := During f pc) ?_ (fun _ h => h.1)
      apply Triple.cond
      · intro upvalue
        rw [if_pos upvalue] at operand
        exact upval_quiet operand
      · intro register
        rw [if_neg register] at operand
        exact Triple.bind (checkRegs_quiet operand) fun _ =>
          luaFFindupval_quiet (during_frozen f pc) _
    intro id
    refine Triple.bind (R := fun ids s => During f pc s ∧ ids.length = n) (ih ?_) ?_
    · intro j bound
      have same : q + 1 + j = q + (j + 1) := by omega
      rw [same]
      exact capture (j + 1) (by omega)
    · intro ids
      exact Triple.ret fun _ h => ⟨h.1, by rw [List.length_cons, h.2]⟩

-- the pseudo-instructions are instructions
theorem pseudo_real (h : Fetched f pc .closure) {j : Nat}
    (bound : j ≤ nupsOf f.p (getargBx (f.p.codeAt pc))) :
    Real f.p (pc + 1 + j) := by
  obtain ⟨_, _, pseudo⟩ := h.facts.checked
  induction j with
  | zero =>
    have next := h.next_of_ne (by simp) (by simp)
    rwa [h.position] at next
  | succ j ih =>
    have real := ih (by omega)
    have kind := pseudo j (by omega)
    simp only [isPseudo, Bool.or_eq_true, beq_iff_eq] at kind
    rcases kind with upvalue | move
    · exact real_succ h.checked.code real upvalue (by simp) (by simp [looksCounted, upvalue])
    · exact real_succ h.checked.code real move (by simp) (by simp [looksCounted, move])

theorem pseudo_operand (h : Fetched f pc .closure) {j : Nat}
    (bound : j < nupsOf f.p (getargBx (f.p.codeAt pc))) :
    if getOpcode (f.p.codeAt (pc + 1 + j)) = some .getupval then
      getargB (f.p.codeAt (pc + 1 + j)) < f.p.nups.toNat
    else getargB (f.p.codeAt (pc + 1 + j)) < f.p.maxReg := by
  obtain ⟨_, _, pseudo⟩ := h.facts.checked
  have real := pseudo_real h (Nat.le_of_lt bound)
  obtain ⟨op, facts⟩ := facts_of_checked h.checked.code real
  have kind := pseudo j bound
  simp only [isPseudo, Bool.or_eq_true, beq_iff_eq] at kind
  rcases kind with upvalue | move
  · rw [if_pos upvalue]
    have isGetupval : op = .getupval := Option.some.inj (facts.opcode.symm.trans upvalue)
    subst isGetupval
    exact facts.checked
  · have isMove : op = .move := Option.some.inj (facts.opcode.symm.trans move)
    subst isMove
    rw [if_neg (by rw [move]; simp)]
    have operands := facts.operands
    simp only [checkOperands, luaPOpmodes, Bool.and_eq_true] at operands
    exact argR_lt operands.1

theorem opClosure_inv (h : Fetched f pc .closure) :
    Triple (During f f.pc) (opClosure f (f.p.codeAt pc)) (fun _ => VmInv) Failed := by
  obtain ⟨inside, _, _⟩ := h.facts.checked
  have found : f.p.p[getargBx (f.p.codeAt pc)]? = some f.p.p[getargBx (f.p.codeAt pc)] :=
    List.getElem?_eq_getElem inside
  generalize nested : f.p.p[getargBx (f.p.codeAt pc)] = q at found
  have checkedNested : Checked q := by
    apply h.checked.nested
    rw [← nested]
    exact List.getElem_mem inside
  have nup : nupsOf f.p (getargBx (f.p.codeAt pc)) = q.nups.toNat := by simp [nupsOf, found]
  have next : Real f.p (f.pc + q.nups.toNat) := by
    rw [h.position, ← nup]
    exact pseudo_real h (Nat.le_refl _)
  apply Triple.bind lclosure_value
  rintro ⟨p, upvals, env⟩
  apply Triple.given (φ := p = f.p) (fun _ h => h.2.1)
  rintro rfl
  apply Triple.pre (P := During f f.pc) ?_ (fun _ h => h.1)
  simp only [found]
  apply Triple.bind (captureUpvals_spec q.nups.toNat ?_)
  · intro ids
    apply Triple.given (φ := ids.length = q.nups.toNat) (fun _ h => h.2)
    intro size
    apply Triple.bind ((setPc_during _).pre fun _ h => h.1)
    intro _
    apply Triple.bind (luaFNewLclosure_during checkedNested size env)
    intro id
    exact setReg_inv h.checked next h.facts.a_lt _
  · intro j bound
    rw [← nup] at bound
    rw [h.position]
    exact ⟨(pseudo_real h (Nat.le_of_lt bound)).inside, pseudo_operand h bound⟩

/-! ## Calls -/

theorem setOperandTop_quiet {i : Instruction} {n : Nat}
    (inside : getargB i ≠ 0 → getargA i + n ≤ f.p.maxReg) :
    Triple (During f pc) (setOperandTop f i n) (fun _ => During f pc) Failed := by
  apply Triple.cond
  · intro counted
    exact Triple.bind (checkRegs_quiet (inside counted)) fun _ =>
      setTop_quiet (during_frozen f pc) _
  · intro _
    exact Triple.ret fun _ h => h

theorem opCall_inv (h : Fetched f pc .call) :
    Triple (During f f.pc) (opCall f (f.p.codeAt pc)) (fun _ => VmInv) Failed := by
  have real := h.next_of_ne (by simp) (by simp)
  have a_lt := h.facts.a_lt
  obtain ⟨args, results⟩ := h.facts.checked
  have resultRoom : getargA (f.p.codeAt pc) + max 1 (getargC (f.p.codeAt pc) - 1) ≤ f.p.maxReg := by
    by_cases noResult : getargC (f.p.codeAt pc) = 0 ∨ getargC (f.p.codeAt pc) = 1
    · omega
    · have room := results (fun zero => noResult (.inl zero)) (fun one => noResult (.inr one))
      omega
  apply Triple.bind (setOperandTop_quiet fun counted => ?_)
  · intro _
    apply Triple.bind (checkRegs_quiet resultRoom)
    intro _
    exact (luaDCall_inv _ _ _).pre fun _ during => during.mayCall h.checked real trivial
  · have room := args counted
    omega

-- a new Lua call, and the calls below it
def Replacing (frames : List CallInfo) (s : LuaState) : Prop :=
  VmInv s ∧ s.mode = .reentry ∧ s.frames = frames

theorem replacing_frozen (frames : List CallInfo) : Frozen (Replacing frames) where
  sane := fun _ h => h.1.toSane
  frame := fun s s' h same mode closures next =>
    ⟨vmInv_frozen.frame s s' h.1 same mode closures next, mode.trans h.2.1, same.trans h.2.2⟩

theorem Replacing.frameAt {new : CallInfo} {frames : List CallInfo} {s : LuaState}
    (h : Replacing (new :: frames) s) :
    ∃ p pc cl, FrameAt s.heap new p pc cl := by
  obtain ⟨inv, mode, split⟩ := h
  obtain ⟨head, rest, split', headOk⟩ := inv.head
  have same := split.symm.trans split'
  rw [List.cons.injEq] at same
  rw [mode, ← same.1] at headOk
  exact headOk

/-- The frame that takes the place of another returns to where that one would have. -/
theorem mergeFrames_inv {new ci caller : CallInfo} {rest : List CallInfo} {s : LuaState}
    (h : Replacing (new :: ci :: caller :: rest) s) :
    VmInv (mergeFrames s new ci (caller :: rest)) := by
  obtain ⟨p, pc, cl, at'⟩ := h.frameAt
  obtain ⟨inv, mode, split⟩ := h
  have frames := inv.frames
  rw [split] at frames
  refine ⟨⟨inv.toSane.heap, frames.2.replace_head rfl⟩, _, _, rfl, ?_⟩
  simp only [mergeFrames, mode]
  exact ⟨p, pc, cl, at'.code, at'.checked, at'.real, at'.closure⟩

theorem replaceFrame_inv :
    Triple (fun s => Entered .opTailcall s ∧ s.mode = .reentry) replaceFrame (fun _ => VmInv)
      Failed := by
  apply Triple.get_bind
  intro s
  apply Triple.given (φ := Entered .opTailcall s ∧ s.mode = .reentry)
  · rintro t ⟨h, rfl⟩
    exact h
  rintro ⟨⟨inv, new, frames, split, continued⟩, reenters⟩
  have replacing : Replacing (new :: frames) s := ⟨inv, reenters, split⟩
  obtain ⟨p, pc, cl, at'⟩ := replacing.frameAt
  have ok := inv.frames
  rw [split] at ok
  match frames with
  | ci :: caller :: rest =>
    rw [split]
    apply Triple.bind ((luaFClose_quiet (replacing_frozen
      (new :: ci :: caller :: rest)) ci.base).pre ?_)
    · intro _
      exact Triple.update fun t h => mergeFrames_inv h
    · rintro t ⟨_, rfl⟩
      exact replacing
  | [ci] =>
    -- the caller of a tail call is a Lua function, so it is not the outermost call
    obtain ⟨kontOk, native⟩ := ok
    rw [continued] at kontOk
    rcases kontOk with ⟨absurd', _⟩ | ⟨_, _, _, below, _⟩
    · cases absurd'
    · have code := below.code
      rw [show ci.code = .native from native] at code
      cases code
  | [] =>
    have native : new.code = .native := ok
    rw [at'.code] at native
    cases native

theorem opTailcall_inv (h : Fetched f pc .tailcall) :
    Triple (During f f.pc) (opTailcall f (f.p.codeAt pc)) (fun _ => VmInv) Failed := by
  have real := h.next_of_ne (by simp) (by simp)
  obtain ⟨args, _⟩ := h.facts.checked
  apply Triple.bind (setOperandTop_quiet fun counted => ?_)
  · intro _
    apply Triple.bind (checkRegs_quiet h.facts.a_lt)
    intro _
    apply Triple.bind ((luaDPrecall_entered _ _ .opTailcall).pre fun _ during =>
      during.mayCall h.checked real trivial)
    intro _
    apply Triple.get_bind
    intro s
    apply Triple.cond
    · intro mode
      apply replaceFrame_inv.pre
      rintro t ⟨entered, rfl⟩
      exact ⟨entered, mode⟩
    · intro _
      exact Triple.ret fun _ h => h.1.1
  · have room := args counted
    omega

theorem opReturn_inv (h : Fetched f pc .return) :
    Triple (During f f.pc) (opReturn f (f.p.codeAt pc)) (fun _ => VmInv) Failed := by
  have a_lt := h.facts.a_lt
  have room : 1 < getargB (f.p.codeAt pc) →
      getargA (f.p.codeAt pc) + getargB (f.p.codeAt pc) - 2 < f.p.maxReg := h.facts.checked
  apply Triple.bind (setOperandTop_quiet fun _ => ?_)
  · intro _
    apply Triple.bind (luaFClose_quiet (during_frozen f f.pc) _)
    intro _
    apply Triple.bind ((luaDPoscall_spec _).pre ?_)
    · intro ci
      exact resume_inv ci
    · intro s during
      obtain ⟨caller, rest, split⟩ := during.head
      refine ⟨during.toSane, ?_⟩
      rw [split]
      simp
  · by_cases several : 1 < getargB (f.p.codeAt pc)
    · have := room several
      omega
    · omega

/-! ## Loops of the language -/

-- registers that are known to hold numbers
def NumbersAt (f : Activation) (known : List Nat) (s : LuaState) : Prop :=
  ∀ r ∈ known, NumberAt s (f.ci.base + r)

theorem tonumberAt_spec {r : Nat} (inside : r < f.p.maxReg) (known : List Nat) (msg : String) :
    Triple (fun s => During f pc s ∧ NumbersAt f known s) (tonumberAt f r msg)
      (fun _ s => During f pc s ∧ NumbersAt f (r :: known) s) Failed := by
  apply Triple.bind (reg_quiet inside)
  intro v
  split
  next n _ =>
    rw [Activation.setReg, if_pos inside]
    apply Triple.update
    rintro s ⟨during, numbers⟩
    refine ⟨(during_frozen f pc).frame s _ during rfl rfl rfl rfl, ?_⟩
    intro r' member
    by_cases same : r' = r
    · subst same
      exact numberAt_iff.mpr ⟨n, by simp⟩
    · have old : r' ∈ known := by simpa [same] using member
      obtain ⟨n', found⟩ := numberAt_iff.mp (numbers r' old)
      refine numberAt_iff.mpr ⟨n', ?_⟩
      simp only
      rw [setAt_other _ _ (by omega)]
      exact found
  next => exact (raiseError_failed (during_frozen f pc) _).pre fun _ h => h.1

/-- Reading a number that is known to be there. -/
theorem readNumber_bind {α : Type} {P : LuaState → Prop} {r : Nat} (inside : r < f.p.maxReg)
    (known : ∀ s, P s → NumberAt s (f.ci.base + r)) {rest : LuaNumber → VmM α}
    {Q : α → LuaState → Prop} (h : ∀ n, Triple P (rest n) Q Failed) :
    Triple P (f.reg r >>= fun v => nvalue v >>= rest) Q Failed := by
  apply Triple.bind (reg_value inside)
  intro v
  apply Triple.given (φ := ∃ n, v = .number n)
  · rintro s ⟨holds, same⟩
    obtain ⟨n, found⟩ := numberAt_iff.mp (known s holds)
    exact ⟨n, same.trans found⟩
  intro isNumber
  exact Triple.bind ((nvalue_quiet (P := P) isNumber).pre fun _ h => h.1) h

theorem opForloop_inv (h : Fetched f pc .forloop) :
    Triple (fun s => During f f.pc s ∧ Covered f.p pc f.ci.base s .forloop)
      (opForloop f (f.p.codeAt pc)) (fun _ => VmInv) Failed := by
  have next := h.next_of_ne (by simp) (by simp)
  have room : getargA (f.p.codeAt pc) + 3 < f.p.maxReg := h.facts.checked
  obtain ⟨nonneg, target⟩ := h.jump rfl rfl
  apply readNumber_bind (by omega) fun s covered => covered.2.2.2.2
  intro step
  apply readNumber_bind h.facts.a_lt fun s covered => covered.2.2.1
  intro init
  apply readNumber_bind (by omega) fun s covered => covered.2.2.2.1
  intro limit
  apply Triple.pre (P := During f f.pc) ?_ (fun _ h => h.1)
  apply Triple.cond
  · intro _
    apply Triple.bind (dojump_during nonneg)
    intro _
    apply Triple.bind (setReg_quiet (during_frozen f _) h.facts.a_lt _)
    intro _
    exact setReg_inv h.checked target room _
  · intro _
    exact Triple.ret fun _ during => during.inv h.checked next

theorem opForprep_inv (h : Fetched f pc .forprep) :
    Triple (During f f.pc) (opForprep f (f.p.codeAt pc)) (fun _ => VmInv) Failed := by
  have room : getargA (f.p.codeAt pc) + 3 < f.p.maxReg := h.facts.checked
  obtain ⟨nonneg, target⟩ := h.jump rfl rfl
  apply Triple.bind ((tonumberAt_spec h.facts.a_lt [] _).pre fun _ during =>
    ⟨during, by intro r member; cases member⟩)
  intro _
  apply Triple.bind (tonumberAt_spec (by omega) _ _)
  intro _
  apply Triple.bind (tonumberAt_spec (by omega) _ _)
  intro _
  apply readNumber_bind h.facts.a_lt fun s holds => holds.2 _ (by simp)
  intro init
  apply readNumber_bind (by omega) fun s holds => holds.2 _ (by simp)
  intro step
  apply Triple.bind ((setReg_quiet (during_frozen f f.pc) h.facts.a_lt _).pre fun _ h => h.1)
  intro _
  exact dojump_inv h.checked nonneg target

theorem opTforloop_inv (h : Fetched f pc .tforloop)
    (room : getargA (f.p.codeAt pc) + 5 < f.p.maxReg) :
    Triple (During f f.pc) (opTforloop f (f.p.codeAt pc)) (fun _ => VmInv) Failed := by
  have hP := during_frozen f f.pc
  have next := h.next_of_ne (by simp) (by simp)
  obtain ⟨_, results⟩ := h.facts.checked
  apply Triple.bind (reg_quiet (by omega))
  intro control
  apply Triple.bind (setReg_quiet hP room _)
  intro _
  apply Triple.bind (reg_quiet (by omega))
  intro state
  apply Triple.bind (setReg_quiet hP (by omega) _)
  intro _
  apply Triple.bind (reg_quiet h.facts.a_lt)
  intro iterator
  apply Triple.bind (setReg_quiet hP (by omega) _)
  intro _
  apply Triple.bind (setTop_quiet hP _)
  intro _
  apply Triple.bind (checkRegs_quiet (by omega))
  intro _
  apply (luaDCall_inv _ _ _).pre
  intro s during
  exact during.mayCall h.checked next ⟨h.branchAt rfl, by omega⟩

/-! ## The other instructions -/

theorem gettableTo_inv (checked : Checked f.p) (real : Real f.p pc) {a : Nat}
    (inside : a < f.p.maxReg) (t key : TValue) :
    Triple (During f pc) (gettableTo f t key a) (fun _ => VmInv) Failed :=
  Triple.bind (checkRegs_quiet inside) fun _ => luaVGettable_inv checked real _ _ _ _

theorem opArith_inv (h : Fetched f pc op) (goesOn : op ≠ .return) (notList : op ≠ .setlist)
    (format : (luaPOpmodes op).format = .iABC) (maskB : (luaPOpmodes op).b = .argK)
    (maskC : (luaPOpmodes op).c = .argK) (notNull : NullFree f.p op (f.p.codeAt pc))
    (arith : ArithOp) :
    Triple (During f f.pc) (opArith f (f.p.codeAt pc) arith) (fun _ => VmInv) Failed := by
  apply Triple.bind (rk_quiet (h.rkB format maskB notNull))
  intro rb
  apply Triple.bind (rk_quiet (h.rkC format maskC notNull))
  intro rc
  exact arithOp_inv h.checked (h.next_of_ne goesOn notList) h.facts.a_lt _ _ _

theorem opUnm_inv (h : Fetched f pc .unm) :
    Triple (During f f.pc) (opUnm f (f.p.codeAt pc)) (fun _ => VmInv) Failed := by
  have next := h.next_of_ne (by simp) (by simp)
  apply Triple.bind (reg_quiet (h.regB rfl rfl))
  intro rb
  split
  next n =>
    apply Triple.bind (nvalue_quiet ⟨n, rfl⟩)
    intro _
    exact setReg_inv h.checked next h.facts.a_lt _
  next => exact arith_inv h.checked next h.facts.a_lt _ _ _

theorem opLen_inv (getn : Table → Nat) (h : Fetched f pc .len) :
    Triple (During f f.pc) (opLen getn f (f.p.codeAt pc)) (fun _ => VmInv) Failed := by
  have next := h.next_of_ne (by simp) (by simp)
  apply Triple.bind (reg_quiet (h.regB rfl rfl))
  intro rb
  split
  next t =>
    apply Triple.bind (hvalue_quiet t)
    intro id
    apply Triple.get_bind
    intro s
    exact (setReg_inv h.checked next h.facts.a_lt _).pre fun _ h => h.1
  next str =>
    apply Triple.bind (rawtsvalue_quiet ⟨str, rfl⟩)
    intro _
    exact setReg_inv h.checked next h.facts.a_lt _
  next =>
    refine callBinTM_or_error (during_frozen f f.pc) (fun _ during =>
      during.mayCall h.checked next ?_) _ _ _ _
    exact trivial

theorem opComparison_inv (h : Fetched f pc op) (tests : (luaPOpmodes op).test = true)
    (goesOn : op ≠ .return) (notList : op ≠ .setlist)
    (format : (luaPOpmodes op).format = .iABC) (maskB : (luaPOpmodes op).b = .argK)
    (maskC : (luaPOpmodes op).c = .argK) (notNull : NullFree f.p op (f.p.codeAt pc))
    {compare : TValue → TValue → VmM (Option Bool)}
    (compares : ∀ l r, Triple (During f f.pc) (compare l r) (Compared f f.pc) Failed) :
    Triple (During f f.pc)
      (do
        let l ← f.rk (getargB (f.p.codeAt pc))
        let r ← f.rk (getargC (f.p.codeAt pc))
        let res ← compare l r
        compareOp f (f.p.codeAt pc) res) (fun _ => VmInv) Failed := by
  apply Triple.bind (rk_quiet (h.rkB format maskB notNull))
  intro l
  apply Triple.bind (rk_quiet (h.rkC format maskC notNull))
  intro r
  apply Triple.bind (compares l r)
  intro res
  exact compareOp_inv h.checked (h.next_of_ne goesOn notList) (h.branchAt tests) _ res

theorem opLoadbool_inv (getn : Table → Nat) (h : Fetched f pc .loadbool)
    (skip : 2 ≤ getargC (f.p.codeAt pc) → Real f.p (pc + 2)) :
    Triple (During f f.pc) (executeOp getn f (f.p.codeAt pc) .loadbool)
      (fun _ => VmInv) Failed := by
  have next := h.next_of_ne (by simp) (by simp)
  apply Triple.bind (setReg_quiet (during_frozen f f.pc) h.facts.a_lt _)
  intro _
  apply Triple.cond
  · intro skips
    have target : Real f.p (f.pc + 1) := by
      rw [h.position] at next ⊢
      by_cases one : getargC (f.p.codeAt pc) = 1
      · obtain ⟨inside, uncounted⟩ := h.facts.checked one
        exact ⟨inside, by rw [countWord_succ_of_real next.notCount, uncounted]⟩
      · exact skip (by omega)
    exact (setPc_during _).conseq (fun _ h => h) fun _ _ during => during.inv h.checked target
  · intro _
    exact Triple.ret fun _ during => during.inv h.checked next

theorem opTestset_inv (getn : Table → Nat) (h : Fetched f pc .testset) :
    Triple (During f f.pc) (executeOp getn f (f.p.codeAt pc) .testset) (fun _ => VmInv) Failed := by
  have next := h.next_of_ne (by simp) (by simp)
  apply Triple.bind (reg_quiet (h.regB rfl rfl))
  intro rb
  apply Triple.cond
  · intro _
    apply Triple.bind (setReg_quiet (during_frozen f f.pc) h.facts.a_lt _)
    intro _
    exact branch_inv h.checked next (h.branchAt rfl) true
  · intro _
    exact branch_inv h.checked next (h.branchAt rfl) false

theorem opGlobal_inv {key : Nat} (readable : ConstOk f.p key) {k : TValue → TValue → VmM PUnit}
    (rest : ∀ key env, Triple (During f pc) (k key env) (fun _ => VmInv) Failed) :
    Triple (During f pc)
      (do
        let key ← f.kst key
        let (_, _, env) ← f.lclosure
        k key (.table env)) (fun _ => VmInv) Failed := by
  apply Triple.bind (kst_quiet readable)
  intro key
  apply Triple.bind lclosure_value
  rintro ⟨p, upvals, env⟩
  exact (rest key (.table env)).pre fun _ h => h.1

theorem opSelf_inv (getn : Table → Nat) (h : Fetched f pc .self)
    (notNull : NullFree f.p .self (f.p.codeAt pc)) :
    Triple (During f f.pc) (executeOp getn f (f.p.codeAt pc) .self) (fun _ => VmInv) Failed := by
  have next := h.next_of_ne (by simp) (by simp)
  have room : getargA (f.p.codeAt pc) + 1 < f.p.maxReg := h.facts.checked
  apply Triple.bind (reg_quiet (h.regB rfl rfl))
  intro rb
  apply Triple.bind (setReg_quiet (during_frozen f f.pc) room _)
  intro _
  apply Triple.bind (rk_quiet (h.rkC rfl rfl notNull))
  intro key
  exact gettableTo_inv h.checked next h.facts.a_lt _ _

/-- The instructions that `symbexec` covers, but for NULL strings. -/
theorem executeOp_covered (getn : Table → Nat) (h : Fetched f pc op)
    (notNull : NullFree f.p op (f.p.codeAt pc)) (known : op ≠ .loadbool ∧ op ≠ .tforloop ∧ op ≠ .forloop) :
    Triple (During f f.pc) (executeOp getn f (f.p.codeAt pc) op) (fun _ => VmInv) Failed := by
  have hP := during_frozen f f.pc
  have a_lt := h.facts.a_lt
  have next : op ≠ .return → op ≠ .setlist → Real f.p f.pc := fun goesOn notList => h.next_of_ne goesOn notList
  have ends : op ≠ .return → op ≠ .setlist → ∀ s, During f f.pc s → VmInv s :=
    fun goesOn notList _ during => during.inv h.checked (next goesOn notList)
  cases op with
  | forloop => exact absurd rfl known.2.2
  | loadbool => exact absurd rfl known.1
  | tforloop => exact absurd rfl known.2.1
  | move => exact Triple.bind (reg_quiet (h.regB rfl rfl)) fun _ => setReg_inv h.checked (next (by simp) (by simp)) a_lt _
  | loadk =>
    apply Triple.bind (kst_quiet (h.kBx rfl rfl notNull))
    intro v
    exact setReg_inv h.checked (next (by simp) (by simp)) a_lt _
  | loadnil =>
    apply (loadnilLoop_quiet hP _ _ (h.regB rfl rfl)).conseq (fun _ h => h)
    intro _ s during
    exact ends (by simp) (by simp) s during
  | getupval =>
    apply Triple.bind (upval_quiet h.facts.checked)
    intro id
    apply Triple.bind (upvalGet_quiet id)
    intro v
    exact setReg_inv h.checked (next (by simp) (by simp)) a_lt _
  | getglobal =>
    exact opGlobal_inv (h.kBx rfl rfl notNull) fun key env =>
      gettableTo_inv h.checked (next (by simp) (by simp)) a_lt env key
  | gettable =>
    apply Triple.bind (reg_quiet (h.regB rfl rfl))
    intro t
    apply Triple.bind (rk_quiet (h.rkC rfl rfl notNull))
    intro key
    exact gettableTo_inv h.checked (next (by simp) (by simp)) a_lt t key
  | setglobal =>
    refine opGlobal_inv (h.kBx rfl rfl notNull)
      (k := fun key env => f.reg (getargA (f.p.codeAt pc)) >>= fun v =>
        luaVSettable key v maxtagloop env) ?_
    intro key env
    apply Triple.bind (reg_quiet a_lt)
    intro v
    exact luaVSettable_inv h.checked (next (by simp) (by simp)) key v _ env
  | setupval =>
    apply Triple.bind (upval_quiet h.facts.checked)
    intro uv
    apply Triple.bind (reg_quiet a_lt)
    intro v
    exact (upvalSet_quiet hP uv v).conseq (fun _ h => h) fun _ s during =>
      ends (by simp) (by simp) s during
  | settable =>
    apply Triple.bind (reg_quiet a_lt)
    intro t
    apply Triple.bind (rk_quiet (h.rkB rfl rfl notNull))
    intro key
    apply Triple.bind (rk_quiet (h.rkC rfl rfl notNull))
    intro v
    exact luaVSettable_inv h.checked (next (by simp) (by simp)) key v _ t
  | newtable =>
    apply Triple.bind (luaHNew_quiet hP _)
    intro t
    exact setReg_inv h.checked (next (by simp) (by simp)) a_lt _
  | self => exact opSelf_inv getn h notNull
  | add | sub | mul | div | mod | pow =>
    exact opArith_inv h (by simp) (by simp) rfl rfl rfl notNull _
  | unm => exact opUnm_inv h
  | not =>
    apply Triple.bind (reg_quiet (h.regB rfl rfl))
    intro v
    exact setReg_inv h.checked (next (by simp) (by simp)) a_lt _
  | len => exact opLen_inv getn h
  | concat =>
    have operands := h.modes rfl
    exact luaVConcat_inv h.checked (next (by simp) (by simp)) a_lt (argR_lt operands.1) _ _
      (argR_lt operands.2)
  | jmp =>
    obtain ⟨nonneg, target⟩ := h.jump rfl rfl
    exact dojump_inv h.checked nonneg target
  | eq =>
    exact opComparison_inv h rfl (by simp) (by simp) rfl rfl rfl notNull fun l r =>
      equalobj_inv h.checked (next (by simp) (by simp)) (h.branchAt rfl) _ l r
  | lt =>
    exact opComparison_inv h rfl (by simp) (by simp) rfl rfl rfl notNull fun l r =>
      luaVLessthan_inv h.checked (next (by simp) (by simp)) (h.branchAt rfl) _ l r
  | le =>
    exact opComparison_inv h rfl (by simp) (by simp) rfl rfl rfl notNull fun l r =>
      lessequal_inv h.checked (next (by simp) (by simp)) (h.branchAt rfl) _ l r
  | test =>
    apply Triple.bind (reg_quiet a_lt)
    intro v
    exact branch_inv h.checked (next (by simp) (by simp)) (h.branchAt rfl) _
  | testset => exact opTestset_inv getn h
  | call => exact opCall_inv h
  | tailcall => exact opTailcall_inv h
  | «return» => exact opReturn_inv h
  | forprep => exact opForprep_inv h
  | setlist => exact opSetlist_inv h
  | close => exact (luaFClose_quiet hP _).conseq (fun _ h => h) fun _ s during => ends (by simp) (by simp) s during
  | closure => exact opClosure_inv h
  | vararg => exact opVararg_inv h

/-- One instruction of checked code. -/
theorem executeOp_inv (getn : Table → Nat) (h : Fetched f pc op) :
    Triple (fun s => During f f.pc s ∧ Covered f.p pc f.ci.base s op)
      (executeOp getn f (f.p.codeAt pc) op) (fun _ => VmInv) Failed := by
  cases op with
  | forloop => exact opForloop_inv h
  | loadbool =>
    apply Triple.given (φ := 2 ≤ getargC (f.p.codeAt pc) →
      Real f.p (pc + 2)) (fun _ holds => holds.2.2)
    intro skip
    exact (opLoadbool_inv getn h skip).pre fun _ holds => holds.1
  | tforloop =>
    apply Triple.given (φ := getargA (f.p.codeAt pc) + 5 < f.p.maxReg) (fun _ holds => holds.2.2)
    intro room
    exact (opTforloop_inv h room).pre fun _ holds => holds.1
  | _ =>
    apply Triple.given (fun _ holds => holds.2.1)
    intro notNull
    exact (executeOp_covered getn h notNull (by simp)).pre fun _ holds => holds.1

end Lunatik.Verified
