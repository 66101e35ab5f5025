import Lunatik.Lua.Vm
import Lunatik.Verified.UndumpStream

/-! # What the verifier has checked

`symbexec` looks at the positions of a function one after the other and steps over the count
of a SETLIST.  So on accepted code it has looked at every position that holds an instruction
(`Real`), and `Facts` collects what it found there.  A count word is one that follows a real
SETLIST with C = 0; the parity that `symbexec` computes for a jump target decides that.
-/

namespace Lunatik.Verified

open Lunatik.Lua Lunatik.Library

variable {p : Proto} {pc : Nat}

/-! ## Positions -/

structure Real (p : Proto) (pc : Nat) : Prop where
  inside : pc < p.sizecode
  notCount : countWord p pc = false

theorem countWord_eq (p : Proto) (pc : Nat) : countWord p pc = (setlistsBefore p pc % 2 == 1) := by
  induction pc with
  | zero => rfl
  | succ pc ih =>
    simp only [countWord, setlistsBefore, ih]
    by_cases looks : looksCounted (p.codeAt pc) = true
    · simp only [looks, Bool.and_true, if_true]
      by_cases odd : setlistsBefore p pc % 2 = 1
      · have even : (setlistsBefore p pc + 1) % 2 = 0 := by omega
        simp [odd, even]
      · have next : (setlistsBefore p pc + 1) % 2 = 1 := by omega
        simp [odd, next]
    · simp [looks]

theorem checkJump_real {sbx : Int} (h : checkJump p pc sbx = true) :
    0 ≤ (pc : Int) + 1 + sbx ∧ Real p ((pc : Int) + 1 + sbx).toNat := by
  simp only [checkJump, Bool.and_eq_true, decide_eq_true_eq, beq_iff_eq] at h
  obtain ⟨⟨nonneg, inside⟩, even⟩ := h
  refine ⟨nonneg, by omega, ?_⟩
  rw [countWord_eq, even]
  rfl

theorem countWord_succ_of_real (real : countWord p pc = false) :
    countWord p (pc + 1) = looksCounted (p.codeAt pc) := by
  simp [countWord, real]

/-! ## One round of `symbexec` -/

-- the conditions that the switch on the opcode adds
def OpChecked (p : Proto) (pc : Nat) (i : Instruction) : OpCode → Prop
  | .loadbool => getargC i = 1 → pc + 2 < p.sizecode ∧ looksCounted (p.codeAt (pc + 1)) = false
  | .getupval | .setupval => getargB i < p.nups.toNat
  | .self => getargA i + 1 < p.maxReg
  | .concat => getargB i < getargC i
  | .tforloop => 1 ≤ getargC i ∧ getargA i + 2 + getargC i < p.maxReg
  | .forloop | .forprep => getargA i + 3 < p.maxReg
  | .call | .tailcall =>
    (getargB i ≠ 0 → getargA i + getargB i - 1 < p.maxReg) ∧
      (getargC i ≠ 0 → getargC i ≠ 1 → getargA i + getargC i - 2 < p.maxReg)
  | .return => 1 < getargB i → getargA i + getargB i - 2 < p.maxReg
  | .setlist =>
    (0 < getargB i → getargA i + getargB i < p.maxReg) ∧ (getargC i = 0 → pc + 1 < p.sizecode - 1)
  | .closure =>
    getargBx i < p.sizep ∧ pc + nupsOf p (getargBx i) < p.sizecode ∧
      ∀ j < nupsOf p (getargBx i), isPseudo (p.codeAt (pc + 1 + j)) = true
  | .vararg => getargA i + getargB i < p.maxReg + 2
  | _ => True

theorem looksCounted_of_opcode {i : Instruction} {op : OpCode} (opcode : getOpcode i = some op) :
    looksCounted i = (op == .setlist && getargC i == 0) := by
  simp [looksCounted, opcode]

theorem symbexecOp_call_inv {lastpc last : Nat} {i : Instruction} {r : Nat × Nat}
    (h : symbexecOp p lastpc noReg i .call pc last = some r) :
    OpChecked p pc i .call ∧ r.1 = pc := by
  simp only [symbexecOp, Option.bind_eq_bind, Option.pure_def] at h
  simp only [OpChecked]
  by_cases noB : getargB i = 0
  · by_cases noC : getargC i = 0
    · simp [noB, noC, Option.bind_eq_some_iff] at h
      simp [noB, noC, ← h.2]
    · by_cases oneC : getargC i = 1
      · simp [noB, oneC] at h
        simp [noB, oneC, ← h]
      · simp [noB, noC, oneC, Option.bind_eq_some_iff] at h
        simp [noB, noC, oneC, h.1, ← h.2]
  · by_cases noC : getargC i = 0
    · simp [noB, noC, Option.bind_eq_some_iff] at h
      simp [noB, noC, h.1, ← h.2.2]
    · by_cases oneC : getargC i = 1
      · simp [noB, oneC, Option.bind_eq_some_iff] at h
        simp [noB, oneC, h.1, ← h.2]
      · simp [noB, noC, oneC, Option.bind_eq_some_iff] at h
        simp [noB, noC, oneC, h.1, h.2.1, ← h.2.2]

theorem symbexecOp_setlist_inv {lastpc last : Nat} {i : Instruction} {r : Nat × Nat}
    (h : symbexecOp p lastpc noReg i .setlist pc last = some r) :
    OpChecked p pc i .setlist ∧ r.1 = if getargC i = 0 then pc + 1 else pc := by
  simp only [symbexecOp, Option.bind_eq_bind, Option.pure_def] at h
  simp only [OpChecked]
  by_cases someB : 0 < getargB i
  · by_cases noC : getargC i = 0
    · simp [someB, noC, Option.bind_eq_some_iff] at h
      simp [someB, noC, h.1, h.2.1, ← h.2.2]
    · simp [someB, noC, Option.bind_eq_some_iff] at h
      simp [someB, noC, h.1, ← h.2]
  · by_cases noC : getargC i = 0
    · simp [someB, noC, Option.bind_eq_some_iff] at h
      simp [someB, noC, h.1, ← h.2]
    · simp [someB, noC] at h
      simp [someB, noC, ← h]

theorem symbexecOp_vararg_inv {lastpc last : Nat} {i : Instruction} {r : Nat × Nat}
    (h : symbexecOp p lastpc noReg i .vararg pc last = some r) :
    OpChecked p pc i .vararg ∧ r.1 = pc := by
  simp only [symbexecOp, Option.bind_eq_bind, Option.pure_def] at h
  simp only [OpChecked]
  by_cases noB : getargB i = 0
  · simp [noB, Option.bind_eq_some_iff] at h
    rw [noB]
    exact ⟨h.2.2.1, by rw [← h.2.2.2]⟩
  · simp [noB, Option.bind_eq_some_iff] at h
    exact ⟨h.2.1, by rw [← h.2.2]⟩

/-- The switch on the opcode: what it checks, and that it steps over a count and nothing else. -/
theorem symbexecOp_inv {lastpc last : Nat} {i : Instruction} {op : OpCode} {r : Nat × Nat}
    (opcode : getOpcode i = some op) (h : symbexecOp p lastpc noReg i op pc last = some r) :
    OpChecked p pc i op ∧ r.1 = if looksCounted i then pc + 1 else pc := by
  rw [looksCounted_of_opcode opcode]
  cases op with
  | setlist => simpa using symbexecOp_setlist_inv h
  | call => simpa using symbexecOp_call_inv h
  | tailcall =>
    have checked : OpChecked p pc i .call ∧ r.1 = pc := @symbexecOp_call_inv p pc lastpc last i r h
    exact ⟨checked.1, by simpa using checked.2⟩
  | vararg => simpa using symbexecOp_vararg_inv h
  | loadbool =>
    simp only [symbexecOp, Option.bind_eq_bind, Option.pure_def] at h
    by_cases skips : getargC i = 1
    · simp [skips, Option.bind_eq_some_iff] at h
      refine ⟨fun _ => ⟨h.1, ?_⟩, by simp [← h.2.2]⟩
      simpa using h.2.1
    · simp [skips] at h
      exact ⟨fun one => absurd one skips, by simp [← h]⟩
  | forloop | forprep =>
    simp [symbexecOp, Option.bind_eq_some_iff] at h
    exact ⟨h.1, by simp [← h.2]⟩
  | «return» =>
    simp only [symbexecOp, Option.bind_eq_bind, Option.pure_def] at h
    by_cases some_values : 1 < getargB i
    · simp [some_values, Option.bind_eq_some_iff] at h
      exact ⟨fun _ => h.1, by simp [← h.2]⟩
    · simp [some_values] at h
      exact ⟨fun more => absurd more some_values, by simp [← h]⟩
  | tforloop =>
    simp [symbexecOp, Option.bind_eq_some_iff] at h
    exact ⟨⟨h.1, h.2.1⟩, by simp [← h.2.2]⟩
  | closure =>
    simp [symbexecOp, Option.bind_eq_some_iff] at h
    exact ⟨⟨h.1, h.2.1, h.2.2.1⟩, by simp [← h.2.2.2]⟩
  | getupval | setupval | self | concat =>
    simp [symbexecOp, Option.bind_eq_some_iff] at h
    exact ⟨h.1, by simp [← h.2]⟩
  | getglobal | setglobal =>
    simp [symbexecOp, Option.bind_eq_some_iff] at h
    exact ⟨trivial, by simp [← h.2]⟩
  | _ =>
    simp [symbexecOp] at h
    exact ⟨trivial, by simp [← h]⟩

/-- What is known of an instruction that `symbexec` has passed. -/
structure Facts (p : Proto) (pc : Nat) (op : OpCode) : Prop where
  opcode : getOpcode (p.codeAt pc) = some op
  a_lt : getargA (p.codeAt pc) < p.maxReg
  operands : checkOperands p pc (p.codeAt pc) (luaPOpmodes op) = true
  test : (luaPOpmodes op).test = true → pc + 2 < p.sizecode ∧
    getOpcode (p.codeAt (pc + 1)) = some .jmp
  checked : OpChecked p pc (p.codeAt pc) op

theorem symbexecStep_inv {lastpc last : Nat} {r : Nat × Nat}
    (h : symbexecStep p lastpc noReg pc last = some r) :
    (∃ op, Facts p pc op) ∧ r.1 = if looksCounted (p.codeAt pc) then pc + 2 else pc + 1 := by
  simp only [symbexecStep, Option.bind_eq_bind, Option.pure_def] at h
  obtain ⟨op, opcode, h⟩ := Option.bind_eq_some_iff.mp h
  obtain ⟨_, a_lt, h⟩ := Option.bind_eq_some_iff.mp h
  obtain ⟨_, operands, h⟩ := Option.bind_eq_some_iff.mp h
  simp only [check_eq_some, decide_eq_true_eq] at a_lt operands
  have rest : ((luaPOpmodes op).test = true → pc + 2 < p.sizecode ∧
    getOpcode (p.codeAt (pc + 1)) = some .jmp) ∧
      ∃ last' r', symbexecOp p lastpc noReg (p.codeAt pc) op pc last' = some r' ∧
          r.1 = r'.1 + 1 := by
    by_cases tests : (luaPOpmodes op).test = true
    · simp only [tests, if_true] at h
      obtain ⟨_, skip, h⟩ := Option.bind_eq_some_iff.mp h
      obtain ⟨_, jump, h⟩ := Option.bind_eq_some_iff.mp h
      obtain ⟨r', ran, next⟩ := Option.bind_eq_some_iff.mp h
      simp only [check_eq_some, decide_eq_true_eq, beq_iff_eq] at skip jump
      exact ⟨fun _ => ⟨skip, jump⟩, _, r', ran, by rw [← Option.some.inj next]⟩
    · simp only [tests] at h
      obtain ⟨r', ran, next⟩ := Option.bind_eq_some_iff.mp h
      exact ⟨fun yes => absurd yes tests, _, r', ran, by rw [← Option.some.inj next]⟩
  obtain ⟨test, last', r', ran, next⟩ := rest
  obtain ⟨checked, position⟩ := symbexecOp_inv opcode ran
  refine ⟨⟨op, opcode, a_lt, operands, test, checked⟩, ?_⟩
  rw [next, position]
  split <;> rfl

/-! ## The whole function -/

/-- Every position that holds an instruction is visited. -/
theorem symbexecLoop_visits {rounds last result : Nat}
    (h : symbexecLoop p p.sizecode noReg rounds pc last = some result)
    (enough : p.sizecode ≤ pc + rounds) (start : countWord p pc = false) {q : Nat} (later : pc ≤ q)
    (real : Real p q) : ∃ op, Facts p q op := by
  induction rounds generalizing pc last with
  | zero =>
    have := real.inside
    omega
  | succ rounds ih =>
    have inside : pc < p.sizecode := Nat.lt_of_le_of_lt later real.inside
    simp only [symbexecLoop, inside, if_true] at h
    split at h
    next r stepped =>
      obtain ⟨found, next⟩ := symbexecStep_inv stepped
      have follows := countWord_succ_of_real start
      rcases Nat.eq_or_lt_of_le later with rfl | beyond
      · exact found
      · by_cases counted : looksCounted (p.codeAt pc) = true
        · -- the word after it is a count, so `q` is not that word
          rw [if_pos counted] at next
          have skipped : q ≠ pc + 1 := by
            rintro rfl
            rw [real.notCount, counted] at follows
            exact Bool.noConfusion follows
          simp only at next
          subst next
          refine ih h (by omega) ?_ (by omega)
          show (!countWord p (pc + 1) && looksCounted (p.codeAt (pc + 1))) = false
          rw [follows, counted]
          rfl
        · rw [if_neg counted] at next
          simp only at next
          subst next
          exact ih h (by omega) (by rw [follows]; simpa using counted) beyond
    next => exact absurd h (by simp)

theorem luaGCheckcode_inv (h : luaGCheckcode p = true) :
    precheck p = true ∧ ∃ last, symbexecLoop p p.sizecode noReg p.sizecode 0 (p.sizecode - 1) =
      some last := by
  simp only [luaGCheckcode, symbexec, bne_iff_ne, ne_eq] at h
  by_cases pre : precheck p = true
  · refine ⟨pre, ?_⟩
    simp only [pre, if_true] at h
    split at h
    next last ran => exact ⟨last, ran⟩
    next => exact absurd rfl h
  · simp [pre] at h

theorem facts_of_checked (h : luaGCheckcode p = true) (real : Real p pc) : ∃ op, Facts p pc op := by
  obtain ⟨_, last, ran⟩ := luaGCheckcode_inv h
  exact symbexecLoop_visits ran (by omega) rfl (Nat.zero_le pc) real

/-- Accepted code ends with a RETURN. -/
theorem last_is_return (h : luaGCheckcode p = true) :
    0 < p.sizecode ∧ getOpcode (p.codeAt (p.sizecode - 1)) = some .return := by
  obtain ⟨pre, -⟩ := luaGCheckcode_inv h
  simp only [precheck, Bool.and_eq_true, decide_eq_true_eq, beq_iff_eq] at pre
  exact pre.2

theorem real_zero (h : luaGCheckcode p = true) : Real p 0 := ⟨(last_is_return h).1, rfl⟩

/-- The next position holds an instruction, behind anything but a RETURN or a counted SETLIST. -/
theorem real_succ (h : luaGCheckcode p = true) (real : Real p pc) {op : OpCode}
    (opcode : getOpcode (p.codeAt pc) = some op) (goesOn : op ≠ .return)
    (uncounted : looksCounted (p.codeAt pc) = false) : Real p (pc + 1) := by
  obtain ⟨_, ends⟩ := last_is_return h
  refine ⟨?_, by rw [countWord_succ_of_real real.notCount, uncounted]⟩
  have notLast : pc ≠ p.sizecode - 1 := by
    rintro rfl
    rw [opcode, Option.some.injEq] at ends
    exact goesOn ends
  have := real.inside
  omega

/-! ## Prototypes and the chunk -/

/-- A prototype that the verifier accepts, with all the prototypes inside it. -/
inductive Checked : Proto → Prop where
  | intro {p : Proto} (code : luaGCheckcode p = true) (nested : ∀ q ∈ p.p, Checked q) : Checked p

theorem Checked.code (h : Checked p) : luaGCheckcode p = true := by
  cases h with
  | intro code nested => exact code

theorem Checked.nested (h : Checked p) {q : Proto} (member : q ∈ p.p) : Checked q := by
  cases h with
  | intro code nested => exact nested q member

section

variable {σ : Type} (read : StreamRead σ)

theorem loadMany_all {α : Type} {load : LoadM σ α} {ok : α → Prop}
    (h : Triple (fun _ => True) load (fun x _ => ok x) (fun _ _ => True)) (n : Nat) :
    Triple (fun _ => True) (loadMany load n) (fun xs _ => ∀ x ∈ xs, ok x) (fun _ _ => True) := by
  induction n with
  | zero =>
    refine Triple.ret fun _ _ x member => ?_
    cases member
  | succ n ih =>
    apply Triple.bind h
    intro x
    apply Triple.given (φ := ok x) (fun _ found => found)
    intro first
    refine Triple.bind (R := fun xs _ => ∀ x ∈ xs, ok x) (ih.pre fun _ _ => trivial) ?_
    intro xs
    apply Triple.ret
    intro _ rest y member
    rcases List.mem_cons.mp member with rfl | later
    · exact first
    · exact rest y later

theorem any_outcome {α : Type} (m : LoadM σ α) :
    Triple (fun _ => True) m (fun _ _ => True) (fun _ _ => True) := by
  intro s _
  split <;> trivial

/-- `LoadFunction` returns only functions that it has checked, and so were those inside. -/
theorem loadFunction_checked (depth : Nat) (parent : Option (List UInt8)) :
    Triple (fun _ => True) (loadFunction read depth parent) (fun f _ => Checked f)
      (fun _ _ => True) := by
  induction depth generalizing parent with
  | zero => exact Triple.raise fun _ _ => trivial
  | succ depth ih =>
    have constants : ∀ source,
      Triple (fun _ => True) (loadConstants read (loadFunction read depth source))
        (fun c _ => ∀ q ∈ c.2, Checked q) (fun _ _ => True) := by
      intro source
      apply Triple.bind (any_outcome _)
      intro sizek
      apply Triple.bind (any_outcome _)
      intro k
      apply Triple.bind (any_outcome _)
      intro sizep
      exact Triple.bind (loadMany_all (ih source) sizep) fun _ => Triple.ret fun _ all => all
    apply Triple.bind (any_outcome _)
    intro source
    apply Triple.bind (any_outcome _)
    intro linedefined
    apply Triple.bind (any_outcome _)
    intro lastlinedefined
    apply Triple.bind (any_outcome _)
    intro nups
    apply Triple.bind (any_outcome _)
    intro numparams
    apply Triple.bind (any_outcome _)
    intro isVararg
    apply Triple.bind (any_outcome _)
    intro maxstacksize
    apply Triple.bind (any_outcome _)
    intro code
    apply Triple.bind (constants _)
    intro c
    apply Triple.given (φ := ∀ q ∈ c.2, Checked q) (fun _ all => all)
    intro nested
    apply Triple.bind ((any_outcome _).pre fun _ _ => trivial)
    intro debug
    apply Triple.cond
    · intro accepted
      exact Triple.ret fun _ _ => .intro accepted nested
    · intro _
      exact Triple.raise fun _ _ => trivial

end

theorem undumped_checked {bytes : List UInt8} {f : Proto} (h : undumped bytes = some f) :
    Checked f := by
  have whole : Triple (fun _ => True) (luaUUndump zioRead) (fun f _ => Checked f)
    (fun _ _ => True) :=
    Triple.bind (any_outcome _) fun _ => loadFunction_checked zioRead _ _
  have result := whole ⟨Zio.luaZInit (bytes.getD · 0) bytes.length, []⟩ trivial
  simp only [undumped] at h
  split at h
  next g s ran =>
    rw [ran] at result
    rw [← Option.some.inj h]
    exact result
  next => cases h

end Lunatik.Verified
