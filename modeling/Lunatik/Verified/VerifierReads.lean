import Lunatik.Library.StateRuns
import Lunatik.Lua.CheckReads
import Lunatik.Verified.ChunkRoundTrip

/-! # The verifier reads only what is there

`Follows pt m o` says that `m` reads in range and has the outcome of `o`, the verifier without the log.  The
last instruction is a RETURN (`precheck`), so an instruction of another kind has one behind it.
-/

namespace Lunatik.Verified.VerifierReads

open Lunatik.Lua Lunatik.Library
open CheckReads (Access Stop CheckM access verify quiet int32 readCode readModes)

/-! ## Accesses in range -/

def InRange (pt : Proto) : Access → Prop
  | .code i => 0 ≤ i ∧ i < pt.sizecode
  | .k i => i < pt.sizek
  | .p i => i < pt.sizep
  | .opmodes op => op < opcodes.length

def AllInRange (pt : Proto) (reads : List Access) : Prop := ∀ a ∈ reads, InRange pt a

/-- `m` reads in range, and a `check` fails in it where it fails in `o`. -/
structure Follows {α : Type} (pt : Proto) (m : CheckM α) (o : Option α) : Prop where
  run : ∀ reads, AllInRange pt reads →
    match m reads with
    | .ok a reads' => AllInRange pt reads' ∧ o = some a
    | .error e reads' => AllInRange pt reads' ∧ e = .rejected ∧ o = none

section Rules

variable {α β : Type} {pt : Proto} {m : CheckM α} {o : Option α}

theorem Follows.ret (a : α) : Follows pt (pure a) (some a) := ⟨fun _ sound => ⟨sound, rfl⟩⟩

theorem Follows.bind {f : α → CheckM β} {g : α → Option β} (first : Follows pt m o)
    (rest : ∀ a, o = some a → Follows pt (f a) (g a)) : Follows pt (m >>= f) (o >>= g) := by
  constructor
  intro reads sound
  have result := first.run reads sound
  cases ran : m reads with
  | ok a reads' =>
    rw [ran] at result
    rw [bind_ok ran, result.2]
    exact (rest a result.2).run reads' result.1
  | error e reads' =>
    rw [ran] at result
    rw [bind_error ran, result.2.2]
    exact ⟨result.1, result.2.1, rfl⟩

theorem Follows.then {a : α} {f : α → CheckM β} {o : Option β} (first : Follows pt m (some a))
    (rest : Follows pt (f a) o) : Follows pt (m >>= f) o := by
  have both : Follows pt (m >>= f) (some a >>= fun _ => o) := first.bind fun b found => by
    cases found
    exact rest
  exact both

theorem Follows.fails {f : α → CheckM β} (first : Follows pt m none) : Follows pt (m >>= f) none := by
  have both : Follows pt (m >>= f) (none >>= fun _ : α => none) := first.bind fun _ found => by
    simp at found
  exact both

theorem follows_verify (c : Bool) : Follows pt (verify c) (check c) := by
  constructor
  intro reads sound
  cases c with
  | true => exact ⟨sound, rfl⟩
  | false => exact ⟨sound, rfl, rfl⟩

theorem follows_quiet (o : Option α) : Follows pt (quiet o) o := by
  constructor
  intro reads sound
  cases o with
  | some a => exact ⟨sound, rfl⟩
  | none => exact ⟨sound, rfl, rfl⟩

/-- One more access, which is in range. -/
theorem Follows.access {a : Access} {f : PUnit → CheckM β} {o : Option β} (inside : InRange pt a)
    (rest : Follows pt (f ⟨⟩) o) : Follows pt (CheckReads.access a >>= f) o := by
  constructor
  intro reads sound
  have entered : AllInRange pt (reads ++ [a]) := by
    intro b member
    simp only [List.mem_append, List.mem_singleton] at member
    cases member with
    | inl old => exact sound b old
    | inr new =>
      rw [new]
      exact inside
  exact rest.run (reads ++ [a]) entered

theorem Follows.readCode {i : Int} {f : Instruction → CheckM β} {o : Option β}
    (inside : 0 ≤ i ∧ i < pt.sizecode) (rest : Follows pt (f (pt.codeAt i.toNat)) o) :
    Follows pt (CheckReads.readCode pt i >>= f) o := by
  rw [CheckReads.readCode, bind_assoc]
  exact Follows.access inside rest

end Rules

variable {pt : Proto}

theorem int32_eq {x : Int} (low : -2 ^ 31 ≤ x) (high : x < 2 ^ 31) : int32 x = x := by
  simp only [int32]
  omega

theorem check_and (a b : Bool) : check (a && b) = check a >>= fun _ => check b := by
  cases a <;> rfl

/-! ## The parts of `symbexec` -/

theorem follows_precheck : Follows pt (CheckReads.precheck pt) (check (precheck pt)) := by
  simp only [precheck, check_and, bind_assoc]
  refine (follows_verify _).bind fun _ _ => ?_
  refine (follows_verify _).bind fun _ _ => ?_
  refine (follows_verify _).bind fun _ _ => ?_
  refine (follows_verify _).bind fun _ _ => ?_
  refine (follows_verify _).bind fun _ _ => ?_
  refine (follows_verify _).bind fun _ some_code => ?_
  have nonempty : 0 < pt.sizecode := by simpa using some_code
  have last : ((pt.sizecode : Int) - 1).toNat = pt.sizecode - 1 := by omega
  refine Follows.readCode (by omega) ?_
  rw [last]
  exact follows_verify _

/-- The last instruction is a RETURN. -/
structure EndsInReturn (pt : Proto) : Prop where
  int : pt.sizecode < 2 ^ 31
  code : 0 < pt.sizecode
  last : getOpcode (pt.codeAt (pt.sizecode - 1)) = some .return

theorem EndsInReturn.next (ends : EndsInReturn pt) {pc : Nat} (inside : pc < pt.sizecode) {op : OpCode}
    (opcode : getOpcode (pt.codeAt pc) = some op) (other : op ≠ .return) : pc + 1 < pt.sizecode := by
  by_contra beyond
  have same : pc = pt.sizecode - 1 := by omega
  rw [same, ends.last] at opcode
  exact other (Option.some.inj opcode).symm

theorem follows_readModes (i : Instruction) : Follows pt (readModes i)
    ((getOpcode i).map fun op => (op, luaPOpmodes op)) := by
  have split : (getOpcode i).map (fun op => (op, luaPOpmodes op)) =
      check (i.toNat % 64 < opcodes.length) >>= fun _ =>
        opcodes[i.toNat % 64]? >>= fun op => some (op, luaPOpmodes op) := by
    by_cases inside : i.toNat % 64 < opcodes.length
    · simp [getOpcode, check, inside]
    · simp [getOpcode, check, inside]
  rw [split]
  refine (follows_verify _).bind fun _ inside => ?_
  simp only [check_eq_some, decide_eq_true_eq] at inside
  refine Follows.access inside ?_
  exact (follows_quiet _).bind fun op _ => Follows.ret _

theorem follows_setlistsBefore (dest : Nat) (inside : dest ≤ pt.sizecode) :
    Follows pt (CheckReads.setlistsBefore pt dest) (some (setlistsBefore pt dest)) := by
  induction dest with
  | zero => exact Follows.ret 0
  | succ dest ih =>
    refine Follows.readCode (by omega) ?_
    simp only [Int.toNat_natCast, setlistsBefore]
    by_cases counted : looksCounted (pt.codeAt dest) = true
    · rw [if_pos counted, if_pos counted]
      exact (ih (by omega)).then (Follows.ret _)
    · rw [if_neg counted, if_neg counted]
      exact Follows.ret 0

theorem follows_checkJump (int : pt.sizecode < 2 ^ 31) {pc : Nat} (inside : pc < pt.sizecode) {sbx : Int}
    (low : -2 ^ 31 ≤ sbx) (high : sbx < 2 ^ 30) :
    Follows pt (CheckReads.checkJump pt pc sbx) (check (checkJump pt pc sbx)) := by
  simp only [CheckReads.checkJump, checkJump]
  by_cases fits : (pc : Int) + 1 + sbx < 2 ^ 31
  · rw [int32_eq (by omega) fits, check_and]
    refine (follows_verify _).bind fun _ bounds => ?_
    simp only [check_eq_some, Bool.and_eq_true, decide_eq_true_eq] at bounds
    by_cases positive : 0 < (pc : Int) + 1 + sbx
    · rw [if_pos positive]
      have target : ((pc : Int) + 1 + sbx).toNat ≤ pt.sizecode := by omega
      exact (follows_setlistsBefore _ target).then (follows_verify _)
    · have start : (pc : Int) + 1 + sbx = 0 := by omega
      rw [start]
      exact Follows.ret _
  · have wrapped : int32 (pc + 1 + sbx) = pc + 1 + sbx - 2 ^ 32 := by
      simp only [int32]
      omega
    have outside : ¬ 0 ≤ int32 (pc + 1 + sbx) := by omega
    have beyond : ¬ (pc : Int) + 1 + sbx < pt.sizecode := by omega
    simp only [outside, beyond, decide_false, Bool.false_and, Bool.and_false]
    exact (follows_verify false).fails

theorem getargSBx_bounds (i : Instruction) : -2 ^ 31 ≤ getargSBx i ∧ getargSBx i < 2 ^ 30 := by
  have field : getargBx i < 2 ^ 18 := Nat.mod_lt _ (by decide)
  simp only [getargSBx, maxArgSBx]
  omega

theorem follows_checkOperands (int : pt.sizecode < 2 ^ 31) {pc : Nat} (inside : pc < pt.sizecode)
    (i : Instruction) (modes : OpModes) :
    Follows pt (CheckReads.checkOperands pt pc i modes) (check (checkOperands pt pc i modes)) := by
  obtain ⟨low, high⟩ := getargSBx_bounds i
  cases format : modes.format with
  | iABC | iABx =>
    simp only [CheckReads.checkOperands, format]
    exact follows_verify _
  | iAsBx =>
    simp only [CheckReads.checkOperands, checkOperands, format]
    by_cases jumps : modes.b = .argR
    · rw [if_pos jumps, if_pos jumps]
      exact follows_checkJump int inside low high
    · rw [if_neg jumps, if_neg jumps]
      exact Follows.ret _

theorem follows_checkopenop {pc : Nat} (inside : pc + 1 < pt.sizecode) :
    Follows pt (CheckReads.checkopenop pt pc) (check (luaGCheckopenop (pt.codeAt (pc + 1)))) :=
  Follows.readCode (by omega) (follows_verify _)

/-- Every pseudo-instruction that is read lies before the last instruction or is it. -/
theorem follows_checkPseudo (int : pt.sizecode < 2 ^ 31) {pc : Nat} (js : List Nat)
    (inside : ∀ j ∈ js, pc + j < pt.sizecode) :
    Follows pt (CheckReads.checkPseudo pt pc js)
      (check (js.all fun j => isPseudo (pt.codeAt (pc + j)))) := by
  induction js with
  | nil => exact Follows.ret _
  | cons j rest ih =>
    have here := inside j (by simp)
    rw [List.all_cons, check_and]
    simp only [CheckReads.checkPseudo]
    rw [int32_eq (by omega) (by omega)]
    refine Follows.readCode (by omega) ?_
    have position : ((pc : Int) + j).toNat = pc + j := by omega
    rw [position]
    refine (follows_verify _).bind fun _ _ => ?_
    exact ih fun k member => inside k (by simp [member])

/-- Where the pseudo-instructions would reach beyond the code, the last instruction is among them. -/
theorem follows_checkPseudo_beyond (ends : EndsInReturn pt) {pc : Nat} (n first : Nat)
    (inside : pc + first < pt.sizecode) (beyond : pt.sizecode ≤ pc + first + n) :
    Follows pt (CheckReads.checkPseudo pt pc (List.range' first n)) none := by
  have int := ends.int
  induction n generalizing first with
  | zero => omega
  | succ n ih =>
    rw [List.range'_succ]
    simp only [CheckReads.checkPseudo]
    rw [int32_eq (by omega) (by omega)]
    have position : ((pc : Int) + first).toNat = pc + first := by omega
    refine Follows.readCode (by omega) ?_
    rw [position]
    by_cases last : pc + first = pt.sizecode - 1
    · have notPseudo : isPseudo (pt.codeAt (pc + first)) = false := by
        simp [isPseudo, last, ends.last]
      rw [notPseudo]
      exact (follows_verify false).fails
    · cases pseudo : isPseudo (pt.codeAt (pc + first)) with
      | true => exact Follows.then (follows_verify true) (ih (first + 1) (by omega) (by omega))
      | false => exact (follows_verify false).fails

theorem follows_closure (ends : EndsInReturn pt) {pc : Nat} (next : pc + 1 < pt.sizecode) (nup : Nat)
    (small : nup < 2 ^ 8) {α : Type} (a : α) :
    Follows pt
      (do
        verify (int32 (pc + nup) < pt.sizecode)
        CheckReads.checkPseudo pt pc (List.range' 1 nup)
        return a)
      (do
        check (pc + nup < pt.sizecode)
        check ((List.range nup).all fun j => isPseudo (pt.codeAt (pc + 1 + j)))
        return a) := by
  have int := ends.int
  cases Nat.lt_or_ge (pc + nup) pt.sizecode with
  | inl fits =>
    rw [int32_eq (by omega) (by omega)]
    have same : (pc : Int) + nup < pt.sizecode ↔ pc + nup < pt.sizecode := by omega
    simp only [same]
    refine (follows_verify _).bind fun _ _ => ?_
    have shifted : ((List.range nup).all fun j => isPseudo (pt.codeAt (pc + 1 + j))) =
        (List.range' 1 nup).all fun j => isPseudo (pt.codeAt (pc + j)) := by
      rw [List.range'_eq_map_range, List.all_map]
      simp only [Function.comp_def, Nat.add_assoc]
    rw [shifted]
    refine (follows_checkPseudo ends.int _ fun j member => ?_).bind fun _ _ => Follows.ret _
    have bounds := List.mem_range'_1.mp member
    omega
  | inr beyond =>
    have rejected : check (pc + nup < pt.sizecode) = none := by simp [check, beyond]
    rw [rejected]
    have reads := follows_checkPseudo_beyond ends nup 1 next (by omega)
    cases passes : decide (int32 (pc + nup) < pt.sizecode) with
    | true => exact (follows_verify true).then reads.fails
    | false => exact (follows_verify false).fails

/-! ## The switch on the opcode -/

variable {pc : Nat} {op : OpCode}

theorem follows_loadbool (ends : EndsInReturn pt) (next : pc + 1 < pt.sizecode) (lastpc reg last : Nat)
    (i : Instruction) :
    Follows pt (CheckReads.symbexecOp pt lastpc reg i .loadbool pc last)
      (symbexecOp pt lastpc reg i .loadbool pc last) := by
  have int := ends.int
  simp only [CheckReads.symbexecOp, symbexecOp]
  by_cases jumps : (getargC i == 1) = true
  · rw [if_pos jumps, if_pos jumps, int32_eq (by omega) (by omega)]
    have same : (pc : Int) + 2 < pt.sizecode ↔ pc + 2 < pt.sizecode := by omega
    simp only [same]
    refine (follows_verify _).bind fun _ _ => ?_
    refine Follows.readCode (by omega) ?_
    exact (follows_verify _).bind fun _ _ => Follows.ret _
  · rw [if_neg jumps, if_neg jumps]
    exact Follows.ret _

theorem nupsOf_lt (pt : Proto) (b : Nat) : nupsOf pt b < 2 ^ 8 := by
  simp only [nupsOf]
  cases pt.p[b]? with
  | none => simp
  | some p => exact p.nups.toNat_lt

theorem follows_closure_op (ends : EndsInReturn pt) (next : pc + 1 < pt.sizecode) (lastpc reg last : Nat)
    (i : Instruction) :
    Follows pt (CheckReads.symbexecOp pt lastpc reg i .closure pc last)
      (symbexecOp pt lastpc reg i .closure pc last) := by
  simp only [CheckReads.symbexecOp, symbexecOp]
  refine (follows_verify _).bind fun _ sub => ?_
  simp only [check_eq_some, decide_eq_true_eq] at sub
  have small := nupsOf_lt pt (getargBx i)
  have captures := follows_closure ends next (nupsOf pt (getargBx i)) small
    (if reg = noReg then pc else pc + nupsOf pt (getargBx i), last)
  exact Follows.access sub captures

theorem follows_call (next : pc + 1 < pt.sizecode) (lastpc reg last : Nat)
    (i : Instruction) :
    Follows pt (CheckReads.symbexecOp pt lastpc reg i .call pc last)
      (symbexecOp pt lastpc reg i .call pc last) := by
  have results : Follows pt
      (do
        if getargC i = 0 then CheckReads.checkopenop pt pc
        else if getargC i ≠ 1 then verify (getargA i + getargC i - 2 < pt.maxReg)
        return (pc, if getargA i ≤ reg then pc else last))
      (do
        if getargC i = 0 then check (luaGCheckopenop (pt.codeAt (pc + 1)))
        else if getargC i ≠ 1 then check (getargA i + getargC i - 2 < pt.maxReg)
        return (pc, if getargA i ≤ reg then pc else last)) := by
    by_cases open_call : getargC i = 0
    · simp only [if_pos open_call]
      exact (follows_checkopenop next).bind fun _ _ => Follows.ret _
    · by_cases none_left : getargC i ≠ 1
      · simp only [if_neg open_call, if_pos none_left]
        exact (follows_verify _).bind fun _ _ => Follows.ret _
      · simp only [if_neg open_call, if_neg none_left]
        exact Follows.ret _
  simp only [CheckReads.symbexecOp, symbexecOp]
  by_cases arguments : getargB i ≠ 0
  · simp only [if_pos arguments]
    exact (follows_verify _).bind fun _ _ => results
  · simp only [if_neg arguments]
    exact results

theorem follows_vararg (next : pc + 1 < pt.sizecode) (lastpc reg last : Nat) (i : Instruction) :
    Follows pt (CheckReads.symbexecOp pt lastpc reg i .vararg pc last)
      (symbexecOp pt lastpc reg i .vararg pc last) := by
  simp only [CheckReads.symbexecOp, symbexecOp]
  refine (follows_verify _).bind fun _ _ => ?_
  by_cases open_list : getargB i = 0
  · simp only [if_pos open_list]
    refine (follows_checkopenop next).bind fun _ _ => ?_
    exact (follows_verify _).bind fun _ _ => Follows.ret _
  · simp only [if_neg open_list]
    exact (follows_verify _).bind fun _ _ => Follows.ret _

theorem follows_symbexecOp (ends : EndsInReturn pt) (inside : pc < pt.sizecode)
    (opcode : getOpcode (pt.codeAt pc) = some op)
    (operands : checkOperands pt pc (pt.codeAt pc) (luaPOpmodes op) = true) (lastpc reg last : Nat) :
    Follows pt (CheckReads.symbexecOp pt lastpc reg (pt.codeAt pc) op pc last)
      (symbexecOp pt lastpc reg (pt.codeAt pc) op pc last) := by
  have next : op ≠ .return → pc + 1 < pt.sizecode := ends.next inside opcode
  cases op with
  | loadbool => exact follows_loadbool ends (next (by simp)) lastpc reg last _
  | getglobal | setglobal =>
    have constant : getargBx (pt.codeAt pc) < pt.sizek := by
      simpa [checkOperands, luaPOpmodes] using operands
    refine Follows.access constant ?_
    exact (follows_verify _).bind fun _ _ => Follows.ret _
  | closure => exact follows_closure_op ends (next (by simp)) lastpc reg last _
  | call | tailcall => exact follows_call (next (by simp)) lastpc reg last _
  | vararg => exact follows_vararg (next (by simp)) lastpc reg last _
  | _ =>
    simp only [CheckReads.symbexecOp]
    exact follows_quiet _

/-! ## The loop -/

/-- The next position is not before `pc`, and the last change was where it was or is at `pc`. -/
def MovesOn (pc last : Nat) (o : Option (Nat × Nat)) : Prop :=
  ∀ r, o = some r → pc ≤ r.1 ∧ (r.2 = last ∨ r.2 = pc)

section MovesOn

variable {last : Nat}

theorem MovesOn.to {pc' last' : Nat} (forward : pc ≤ pc') (change : last' = last ∨ last' = pc) :
    MovesOn pc last (some (pc', last')) := by
  intro r found
  cases found
  exact ⟨forward, change⟩

theorem MovesOn.stay : MovesOn pc last (some (pc, last)) := MovesOn.to le_rfl (.inl rfl)

theorem MovesOn.change (c : Prop) [Decidable c] : MovesOn pc last (some (pc, if c then pc else last)) := by
  by_cases holds : c
  · rw [if_pos holds]
    exact MovesOn.to le_rfl (.inr rfl)
  · rw [if_neg holds]
    exact MovesOn.stay

theorem MovesOn.check {c : Bool} {f : PUnit → Option (Nat × Nat)} (rest : MovesOn pc last (f ⟨⟩)) :
    MovesOn pc last (check c >>= f) := by
  cases c with
  | true => exact rest
  | false => exact fun _ found => by cases found

theorem MovesOn.ite {c : Prop} [Decidable c] {o o' : Option (Nat × Nat)} (yes : MovesOn pc last o)
    (no : MovesOn pc last o') : MovesOn pc last (if c then o else o') := by
  by_cases holds : c
  · rw [if_pos holds]
    exact yes
  · rw [if_neg holds]
    exact no

-- jumps are followed forwards only
theorem MovesOn.jump {lastpc reg : Nat} {dest : Int} :
    MovesOn pc last (if reg ≠ noReg ∧ (pc : Int) < dest ∧ dest ≤ lastpc then some ((dest - 1).toNat, last)
      else some (pc, last)) := by
  by_cases taken : reg ≠ noReg ∧ (pc : Int) < dest ∧ dest ≤ lastpc
  · rw [if_pos taken]
    exact .to (by omega) (.inl rfl)
  · rw [if_neg taken]
    exact .stay

theorem symbexecOp_movesOn (lastpc reg : Nat) (i : Instruction) :
    MovesOn pc last (symbexecOp pt lastpc reg i op pc last) := by
  cases op with
  | loadbool => exact .ite (.check (.check .stay)) .stay
  | loadnil => exact .change _
  | getupval | setupval | getglobal | setglobal | concat => exact .check .stay
  | self => exact .check (.change _)
  | tforloop => exact .check (.check (.change _))
  | jmp => exact .jump
  | forloop | forprep => exact .check .jump
  | call | tailcall =>
    refine .ite (.check ?_) ?_
    · exact .ite (.check (.change _)) (.ite (.check (.change _)) (.change _))
    · exact .ite (.check (.change _)) (.ite (.check (.change _)) (.change _))
  | «return» => exact .ite (.check .stay) .stay
  | setlist =>
    have counted : MovesOn pc last (some (pc + 1, last)) := .to (by omega) (.inl rfl)
    refine .ite (.check ?_) ?_
    · exact .ite (.check counted) .stay
    · exact .ite (.check counted) .stay
  | closure =>
    refine .check (.check (.check ?_))
    by_cases tracing : reg = noReg
    · simp only [if_pos tracing]
      exact .stay
    · simp only [if_neg tracing]
      exact .to (by omega) (.inl rfl)
  | vararg => exact .check (.ite (.check (.check .stay)) (.check .stay))
  | _ => exact .stay

end MovesOn

theorem follows_symbexecStep (ends : EndsInReturn pt) (inside : pc < pt.sizecode)
    (lastpc reg last : Nat) :
    Follows pt (CheckReads.symbexecStep pt lastpc reg pc last) (symbexecStep pt lastpc reg pc last) := by
  have int := ends.int
  refine Follows.readCode (by omega) ?_
  simp only [Int.toNat_natCast, symbexecStep]
  cases opcode : getOpcode (pt.codeAt pc) with
  | none =>
    have modes := @follows_readModes pt (pt.codeAt pc)
    rw [opcode] at modes
    exact modes.fails
  | some op =>
    have modes := @follows_readModes pt (pt.codeAt pc)
    rw [opcode] at modes
    refine modes.then ?_
    refine (follows_verify _).bind fun _ _ => ?_
    refine (follows_checkOperands ends.int inside _ _).bind fun _ operands => ?_
    simp only [check_eq_some] at operands
    by_cases tests : (luaPOpmodes op).test = true
    · have next := ends.next inside opcode (by
        rintro rfl
        cases tests)
      rw [if_pos tests, if_pos tests, int32_eq (by omega) (by omega)]
      have same : (pc : Int) + 2 < pt.sizecode ↔ pc + 2 < pt.sizecode := by omega
      simp only [same]
      refine (follows_verify _).bind fun _ _ => ?_
      refine Follows.readCode (by omega) ?_
      refine (follows_verify _).bind fun _ _ => ?_
      exact (follows_symbexecOp ends inside opcode operands _ _ _).bind fun _ _ => Follows.ret _
    · rw [if_neg tests, if_neg tests]
      exact (follows_symbexecOp ends inside opcode operands _ _ _).bind fun _ _ => Follows.ret _

theorem symbexecStep_movesOn {lastpc reg last : Nat} {r : Nat × Nat}
    (h : symbexecStep pt lastpc reg pc last = some r) : pc < r.1 ∧ (r.2 = last ∨ r.2 = pc) := by
  simp only [symbexecStep, Option.bind_eq_bind, Option.pure_def] at h
  obtain ⟨op, opcode, h⟩ := Option.bind_eq_some_iff.mp h
  obtain ⟨_, _, h⟩ := Option.bind_eq_some_iff.mp h
  obtain ⟨_, _, h⟩ := Option.bind_eq_some_iff.mp h
  -- the change of `a` that the modes tell of
  generalize changed : (if (luaPOpmodes op).setsA = true ∧ getargA (pt.codeAt pc) = reg then pc else last) =
    last' at h
  have before : last' = last ∨ last' = pc := by
    by_cases sets : (luaPOpmodes op).setsA = true ∧ getargA (pt.codeAt pc) = reg
    · rw [if_pos sets] at changed
      exact .inr changed.symm
    · rw [if_neg sets] at changed
      exact .inl changed.symm
  have switch : ∃ r', symbexecOp pt lastpc reg (pt.codeAt pc) op pc last' = some r' ∧
      some (r'.1 + 1, r'.2) = some r := by
    by_cases tests : (luaPOpmodes op).test = true
    · rw [if_pos tests] at h
      obtain ⟨_, _, h⟩ := Option.bind_eq_some_iff.mp h
      obtain ⟨_, _, h⟩ := Option.bind_eq_some_iff.mp h
      exact Option.bind_eq_some_iff.mp h
    · rw [if_neg tests] at h
      exact Option.bind_eq_some_iff.mp h
  obtain ⟨r', ran, result⟩ := switch
  cases result
  obtain ⟨forward, change⟩ := symbexecOp_movesOn lastpc reg (pt.codeAt pc) r' ran
  refine ⟨Nat.lt_succ_of_le forward, ?_⟩
  cases change with
  | inl same =>
    rw [same]
    exact before
  | inr here => exact .inr here

theorem symbexecLoop_stop {lastpc reg rounds last : Nat} (done : ¬ pc < lastpc) :
    symbexecLoop pt lastpc reg rounds pc last = some last := by
  cases rounds with
  | zero => rfl
  | succ rounds => simp only [symbexecLoop, if_neg done]

theorem symbexecLoop_round {lastpc reg rounds last : Nat} (more : pc < lastpc) :
    symbexecLoop pt lastpc reg (rounds + 1) pc last =
      symbexecStep pt lastpc reg pc last >>= fun r => symbexecLoop pt lastpc reg rounds r.1 r.2 := by
  simp only [symbexecLoop, if_pos more]
  cases symbexecStep pt lastpc reg pc last <;> rfl

/-- Each round goes on by at least one instruction, and `last` stays a position of the code. -/
theorem follows_symbexecLoop (ends : EndsInReturn pt) {lastpc : Nat} (within : lastpc ≤ pt.sizecode)
    (reg rounds : Nat) {pc last : Nat} (enough : lastpc ≤ pc + rounds) :
    Follows pt (CheckReads.symbexecLoop pt lastpc reg rounds pc last)
      (symbexecLoop pt lastpc reg rounds pc last) := by
  induction rounds generalizing pc last with
  | zero =>
    have done : ¬ pc < lastpc := by omega
    rw [symbexecLoop_stop done, CheckReads.symbexecLoop, if_neg done]
    exact Follows.ret last
  | succ rounds ih =>
    by_cases more : pc < lastpc
    · rw [symbexecLoop_round more, CheckReads.symbexecLoop, if_pos more]
      refine (follows_symbexecStep ends (by omega) lastpc reg last).bind fun r ran => ih ?_
      have forward := (symbexecStep_movesOn ran).1
      omega
    · rw [symbexecLoop_stop more, CheckReads.symbexecLoop, if_neg more]
      exact Follows.ret last

theorem symbexecLoop_last {lastpc reg rounds last last' : Nat} (within : lastpc ≤ pt.sizecode)
    (inside : last < pt.sizecode) (ran : symbexecLoop pt lastpc reg rounds pc last = some last') :
    last' < pt.sizecode := by
  induction rounds generalizing pc last with
  | zero =>
    cases ran
    exact inside
  | succ rounds ih =>
    by_cases more : pc < lastpc
    · rw [symbexecLoop_round more] at ran
      obtain ⟨r, step, ran⟩ := Option.bind_eq_some_iff.mp ran
      refine ih ?_ ran
      cases (symbexecStep_movesOn step).2 with
      | inl same => omega
      | inr here => omega
    · rw [symbexecLoop_stop more] at ran
      cases ran
      exact inside

/-! ## The verifier -/

/-- `symbexec` without the log, before it gives 0 for a failed `check`. -/
def symbexecResult (pt : Proto) (lastpc reg : Nat) : Option Instruction := do
  check (precheck pt)
  let last ← symbexecLoop pt lastpc reg lastpc 0 (pt.sizecode - 1)
  return pt.codeAt last

theorem symbexec_eq (pt : Proto) (lastpc reg : Nat) :
    symbexec pt lastpc reg = (symbexecResult pt lastpc reg).getD 0 := by
  simp only [symbexec, symbexecResult]
  by_cases passed : precheck pt = true
  · simp only [passed, check, if_true, Option.bind_eq_bind, Option.bind_some]
    cases symbexecLoop pt lastpc reg lastpc 0 (pt.sizecode - 1) <;> rfl
  · simp [passed, check]

theorem follows_symbexec (int : pt.sizecode < 2 ^ 31) {lastpc : Nat} (within : lastpc ≤ pt.sizecode)
    (reg : Nat) : Follows pt (CheckReads.symbexec pt lastpc reg) (symbexecResult pt lastpc reg) := by
  refine follows_precheck.bind fun _ passed => ?_
  simp only [check_eq_some, precheck, Bool.and_eq_true, decide_eq_true_eq, beq_iff_eq] at passed
  obtain ⟨_, code, last⟩ := passed
  have ends : EndsInReturn pt := ⟨int, code, last⟩
  refine (follows_symbexecLoop ends within reg lastpc (by omega)).bind fun last ran => ?_
  have inside := symbexecLoop_last within (by omega) ran
  exact Follows.readCode (by omega) (Follows.ret _)

theorem luaGCheckcode_reads (pt : Proto) (int : pt.sizecode < 2 ^ 31) :
    (CheckReads.luaGCheckcode pt).1 = some (luaGCheckcode pt) ∧
      AllInRange pt (CheckReads.luaGCheckcode pt).2 := by
  have run := (follows_symbexec int le_rfl noReg).run [] (by simp [AllInRange])
  simp only [CheckReads.luaGCheckcode, luaGCheckcode, symbexec_eq]
  cases ran : CheckReads.symbexec pt pt.sizecode noReg [] with
  | ok i reads =>
    rw [ran] at run
    rw [run.2]
    exact ⟨rfl, run.1⟩
  | error e reads =>
    rw [ran] at run
    obtain ⟨sound, rejected, none_left⟩ := run
    rw [rejected, none_left]
    exact ⟨rfl, sound⟩

/-- A function whose code comes out of a stream of any bytes gets a verdict, and the verifier reads nothing of
it that is not there. -/
theorem verifier_reads_in_range (bytes rest : List UInt8) (pt : Proto)
    (loaded : loadCode listRead bytes = .ok pt.code rest) :
    (CheckReads.luaGCheckcode pt).1 = some (luaGCheckcode pt) ∧
      AllInRange pt (CheckReads.luaGCheckcode pt).2 := by
  have fits := loadWords_yields bytes trivial
  rw [loadCode] at loaded
  rw [loaded] at fits
  exact luaGCheckcode_reads pt fits

-- one word, a RETURN
def returnAlone : Proto where
  source := none
  linedefined := 0
  lastlinedefined := 0
  nups := 0
  numparams := 0
  isVararg := 0
  maxstacksize := 2
  code := [30]
  k := []
  p := []
  lineinfo := []
  locvars := []
  upvalues := []

theorem returnAlone_reads_in_range :
    (CheckReads.luaGCheckcode returnAlone).1 = some (luaGCheckcode returnAlone) ∧
      AllInRange returnAlone (CheckReads.luaGCheckcode returnAlone).2 :=
  verifier_reads_in_range [1, 0, 0, 0, 30, 0, 0, 0] [] returnAlone rfl

end Lunatik.Verified.VerifierReads
