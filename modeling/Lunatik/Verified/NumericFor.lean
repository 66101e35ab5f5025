import Lunatik.Lua.Vm
import Lunatik.Library.SignedWords
import Lunatik.Library.StateRuns

/-! # The numeric `for`

The two instructions of the loop around a body that leaves the control registers alone.  The index
is a word: the loop visits its progression, and ends, if a value beyond the limit fits in a word.
Otherwise the index comes round and the loop goes on.
-/

namespace Lunatik.Verified

open Lunatik.Lua Lunatik.Library

/-- A call of `p` with the registers at `base` is about to execute the instruction at `pc`. -/
def RunsAt (p : Proto) (base pc : Nat) (s : LuaState) : Prop :=
  ∃ ci rest cl, s.frames = ci :: rest ∧ ci.code = .lua p pc cl ∧ ci.base = base

/-- The code of `forbody`: `FORPREP` jumps to `FORLOOP`, which jumps behind `FORPREP`. -/
structure ForCode (p : Proto) (a prep loop : Nat) : Prop where
  order : prep < loop
  forprep : ∃ i, p.code[prep]? = some i ∧ getOpcode i = some .forprep ∧ getargA i = a ∧
    getargSBx i = (loop : Int) - (prep + 1)
  forloop : ∃ i, p.code[loop]? = some i ∧ getOpcode i = some .forloop ∧ getargA i = a ∧
    getargSBx i = (prep : Int) - loop
  notCounts : countWord p prep = false ∧ countWord p loop = false
  registers : a + 3 < p.maxReg

/-- The control registers. -/
structure Controls (base a : Nat) (s : LuaState) (idx limit step : LuaNumber) : Prop where
  idx : s.stack (base + a) = .number idx
  limit : s.stack (base + (a + 1)) = .number limit
  step : s.stack (base + (a + 2)) = .number step

section Instructions

variable {p : Proto} {base a prep loop pc : Nat} {s : LuaState}

theorem setPc_moves (runs : RunsAt p base pc s) (pc' : Nat) :
    ∃ t, setPc pc' s = .ok ⟨⟩ t ∧ RunsAt p base pc' t ∧ t.stack = s.stack := by
  obtain ⟨ci, rest, cl, frames, code, rfl⟩ := runs
  refine ⟨{ s with frames := ci.atPc pc' :: rest }, ?_, ⟨ci.atPc pc', rest, cl, rfl, ?_, ?_⟩, rfl⟩
  · rw [setPc, modify_run, frames]
  · rw [CallInfo.atPc, code]
  · rw [CallInfo.atPc, code]

theorem dojump_moves (runs : RunsAt p base pc s) {pc' dest : Nat} {n : Int}
    (distance : n = (dest : Int) - pc') :
    ∃ t, dojump pc' n s = .ok ⟨⟩ t ∧ RunsAt p base dest t ∧ t.stack = s.stack := by
  have target : (pc' : Int) + n = dest := by omega
  rw [dojump]
  simp only [target, Int.natCast_nonneg, if_true, Int.toNat_natCast]
  exact setPc_moves runs dest

theorem RunsAt.unique {pc' : Nat} (here : RunsAt p base pc s) (there : RunsAt p base pc' s) :
    pc = pc' := by
  obtain ⟨ci, rest, cl, frames, code, -⟩ := here
  obtain ⟨ci', rest', cl', frames', code', -⟩ := there
  rw [frames] at frames'
  obtain ⟨rfl, -⟩ := List.cons.inj frames'
  rw [code] at code'
  injection code'

-- the instruction is fetched, and executed with `pc` behind it
theorem execute_fetched (getn : Table → Nat) (runs : RunsAt p base pc s) {i : Instruction}
    {op : OpCode} (here : p.code[pc]? = some i) (notCount : countWord p pc = false)
    (opcode : getOpcode i = some op) :
    ∃ f t, execute getn s = executeOp getn f i op t ∧ f.p = p ∧ f.ci.base = base ∧
      f.pc = pc + 1 ∧ RunsAt p base (pc + 1) t ∧ t.stack = s.stack := by
  obtain ⟨t, moved, runs', stack⟩ := setPc_moves runs (pc + 1)
  obtain ⟨ci, rest, cl, frames, code, rfl⟩ := runs
  have current : currentActivation s = .ok ⟨ci, p, pc, cl⟩ s := by
    rw [currentActivation, bind_ok (get_run s), frames]
    dsimp only
    rw [code]
    rfl
  have word : Activation.word ⟨ci, p, pc, cl⟩ pc s = .ok i s := by
    rw [Activation.word, here]
    rfl
  have fetched : fetch ⟨ci, p, pc, cl⟩ s = .ok i t := by
    rw [fetch, bind_ok word]
    simp only [notCount, Bool.false_eq_true, if_false]
    exact bind_ok moved
  refine ⟨⟨ci, p, pc + 1, cl⟩, t, ?_, rfl, rfl, rfl, runs', stack⟩
  rw [execute, bind_ok current, bind_ok fetched, opcode]

theorem nvalue_run (n : LuaNumber) (s : LuaState) : nvalue (.number n) s = .ok n s := rfl

-- the test of `FORLOOP`
theorem passes_iff (idx limit step : LuaNumber) :
    (if luaiNumlt 0 step then luaiNumle idx limit else luaiNumle limit idx) = true ↔
      Within limit.toInt step.toInt idx.toInt := by
  have sign : luaiNumlt 0 step = true ↔ 0 < step.toInt := by
    rw [luaiNumlt, BitVec.slt_eq_decide, decide_eq_true_eq]
    rfl
  have le (x y : LuaNumber) : luaiNumle x y = true ↔ x.toInt ≤ y.toInt := by
    rw [luaiNumle, BitVec.sle_eq_decide, decide_eq_true_eq]
  rw [Within]
  by_cases up : luaiNumlt 0 step = true
  · rw [if_pos up, if_pos (sign.mp up)]
    exact le idx limit
  · rw [if_neg up, if_neg fun positive => up (sign.mpr positive)]
    exact le limit idx

/-- `FORLOOP`: the body is entered with the next index, or the loop is left. -/
theorem execute_forloop (getn : Table → Nat) (code : ForCode p a prep loop)
    (runs : RunsAt p base loop s) {idx limit step : LuaNumber}
    (controls : Controls base a s idx limit step) :
    ∃ t, execute getn s = .ok ⟨⟩ t ∧
      if Within limit.toInt step.toInt (idx + step).toInt then
        RunsAt p base (prep + 1) t ∧ Controls base a t (idx + step) limit step ∧
          t.stack (base + (a + 3)) = .number (idx + step)
      else RunsAt p base (loop + 1) t := by
  obtain ⟨i, here, opcode, argA, jump⟩ := code.forloop
  obtain ⟨f, s', ran, rfl, rfl, pcEq, runs', stack⟩ :=
    execute_fetched getn runs here code.notCounts.2 opcode
  have registers := code.registers
  have read (r : Nat) (inside : r ≤ a + 2) :
      f.reg r s' = .ok (s.stack (f.ci.base + r)) s' := by
    rw [Activation.reg_run (by omega) _, stack]
  have first := read (a + 2) (by omega)
  have second := read a (by omega)
  have third := read (a + 1) (by omega)
  rw [controls.step] at first
  rw [controls.idx] at second
  rw [controls.limit] at third
  have body : execute getn s = (if (if luaiNumlt 0 step then luaiNumle (idx + step) limit
      else luaiNumle limit (idx + step)) = true then do
        dojump f.pc (getargSBx i)
        f.setReg a (.number (idx + step))
        f.setReg (a + 3) (.number (idx + step))
      else pure ⟨⟩ : VmM PUnit) s' := by
    rw [ran]
    change opForloop f i s' = _
    rw [opForloop]
    simp only [argA]
    rw [bind_ok first, bind_ok (nvalue_run step s'), bind_ok second, bind_ok (nvalue_run idx s'),
      bind_ok third, bind_ok (nvalue_run limit s')]
    rfl
  by_cases within : Within limit.toInt step.toInt (idx + step).toInt
  · obtain ⟨t, jumped, runs'', stack'⟩ := dojump_moves runs'
      (show getargSBx i = ((prep + 1 : Nat) : Int) - f.pc by omega)
    have low : a < f.p.maxReg := by omega
    refine ⟨{ t with
      stack := setAt (setAt t.stack (f.ci.base + a) (.number (idx + step))) (f.ci.base + (a + 3))
        (.number (idx + step)) }, ?_, ?_⟩
    · rw [body, if_pos ((passes_iff _ _ _).mpr within), bind_ok jumped, bind_ok (Activation.setReg_run low _ _),
        Activation.setReg_run code.registers]
    · rw [if_pos within]
      refine ⟨runs'', ⟨?_, ?_, ?_⟩, setAt_same _ _ _⟩
      · exact (setAt_other _ _ (by omega)).trans (setAt_same _ _ _)
      · refine (setAt_other _ _ (by omega)).trans ((setAt_other _ _ (by omega)).trans ?_)
        rw [stack', stack, controls.limit]
      · refine (setAt_other _ _ (by omega)).trans ((setAt_other _ _ (by omega)).trans ?_)
        rw [stack', stack, controls.step]
  · refine ⟨s', ?_, ?_⟩
    · rw [body, if_neg fun passes => within ((passes_iff _ _ _).mp passes)]
      rfl
    · rw [if_neg within]
      exact runs'

/-- `FORPREP`: the operands become numbers, and the index is one step before the first value. -/
theorem execute_forprep (getn : Table → Nat) (code : ForCode p a prep loop)
    (runs : RunsAt p base prep s) {init limit step : LuaNumber}
    (first : luaVTonumber (s.stack (base + a)) = some init)
    (second : luaVTonumber (s.stack (base + (a + 1))) = some limit)
    (third : luaVTonumber (s.stack (base + (a + 2))) = some step) :
    ∃ t, execute getn s = .ok ⟨⟩ t ∧ RunsAt p base loop t ∧
      Controls base a t (init - step) limit step := by
  obtain ⟨i, here, opcode, argA, jump⟩ := code.forprep
  obtain ⟨f, s', ran, rfl, rfl, pcEq, runs', stack⟩ :=
    execute_fetched getn runs here code.notCounts.1 opcode
  have registers := code.registers
  have converts {r : Nat} {n : LuaNumber} {u : LuaState} (inside : r < f.p.maxReg)
      (value : luaVTonumber (u.stack (f.ci.base + r)) = some n) (msg : String) :
      tonumberAt f r msg u =
        .ok ⟨⟩ { u with stack := setAt u.stack (f.ci.base + r) (.number n) } := by
    rw [tonumberAt, bind_ok (Activation.reg_run inside _), value]
    exact Activation.setReg_run inside _ _
  obtain ⟨s1, s1Eq⟩ : ∃ s1 : LuaState,
    s1 = { s' with stack := setAt s'.stack (f.ci.base + a) (.number init) } := ⟨_, rfl⟩
  obtain ⟨s2, s2Eq⟩ : ∃ s2 : LuaState,
    s2 = { s1 with stack := setAt s1.stack (f.ci.base + (a + 1)) (.number limit) } := ⟨_, rfl⟩
  obtain ⟨s3, s3Eq⟩ : ∃ s3 : LuaState,
    s3 = { s2 with stack := setAt s2.stack (f.ci.base + (a + 2)) (.number step) } := ⟨_, rfl⟩
  obtain ⟨s4, s4Eq⟩ : ∃ s4 : LuaState,
    s4 = { s3 with stack := setAt s3.stack (f.ci.base + a) (.number (init - step)) } := ⟨_, rfl⟩
  have low : a < f.p.maxReg := by omega
  have middle : a + 1 < f.p.maxReg := by omega
  have high : a + 2 < f.p.maxReg := by omega
  have conv1 := converts (u := s') low (by rw [stack, first])
  have at1 {r : Nat} (other : r ≠ a) : s1.stack (f.ci.base + r) = s.stack (f.ci.base + r) := by
    rw [s1Eq, ← stack]
    exact setAt_other _ _ (by omega)
  have conv2 := converts (u := s1) middle (by rw [at1 (by omega), second])
  have at2 {r : Nat} (other : r ≠ a + 1) :
      s2.stack (f.ci.base + r) = s1.stack (f.ci.base + r) := by
    rw [s2Eq]
    exact setAt_other _ _ (by omega)
  have conv3 := converts (u := s2) high (by rw [at2 (by omega), at1 (by omega), third])
  have at3 {r : Nat} (other : r ≠ a + 2) :
      s3.stack (f.ci.base + r) = s2.stack (f.ci.base + r) := by
    rw [s3Eq]
    exact setAt_other _ _ (by omega)
  rw [← s1Eq] at conv1
  rw [← s2Eq] at conv2
  rw [← s3Eq] at conv3
  have index : f.reg a s3 = .ok (.number init) s3 := by
    rw [Activation.reg_run low _, at3 (by omega), at2 (by omega), s1Eq]
    exact congrArg (EStateM.Result.ok · s3) (setAt_same _ _ _)
  have stepAt : f.reg (a + 2) s3 = .ok (.number step) s3 := by
    rw [Activation.reg_run high _, s3Eq]
    exact congrArg (EStateM.Result.ok · _) (setAt_same _ _ _)
  have runs4 : RunsAt f.p f.ci.base (prep + 1) s4 := by
    rw [s4Eq, s3Eq, s2Eq, s1Eq]
    exact runs'
  obtain ⟨t, jumped, runs'', stack'⟩ := dojump_moves runs4
    (show getargSBx i = (loop : Int) - f.pc by omega)
  refine ⟨t, ?_, runs'', ?_⟩
  · rw [ran]
    change opForprep f i s' = _
    rw [opForprep]
    simp only [argA]
    rw [bind_ok (conv1 _), bind_ok (conv2 _), bind_ok (conv3 _), bind_ok index,
      bind_ok (nvalue_run init s3), bind_ok stepAt, bind_ok (nvalue_run step s3),
      bind_ok (Activation.setReg_run low _ _), luaiNumsub, ← s4Eq]
    exact jumped
  · have same {r : Nat} (other : r ≠ a) :
        t.stack (f.ci.base + r) = s3.stack (f.ci.base + r) := by
      rw [stack', s4Eq]
      exact setAt_other _ _ (by omega)
    constructor
    · rw [stack', s4Eq]
      exact setAt_same _ _ _
    · rw [same (by omega), at3 (by omega), s2Eq]
      exact setAt_same _ _ _
    · rw [same (by omega), s3Eq]
      exact setAt_same _ _ _

end Instructions

/-! ## Runs of the loop -/

section Runs

variable (getn : Table → Nat) (p : Proto) (base a prep loop : Nat)

/-- The body goes from behind `FORPREP` to `FORLOOP` and does not touch the control registers. -/
def LeavesControls (body : LuaState → LuaState → Prop) : Prop :=
  ∀ t u idx limit step, body t u → RunsAt p base (prep + 1) t → Controls base a t idx limit step →
    RunsAt p base loop u ∧ Controls base a u idx limit step

/-- The body is entered from `t`, with `v` for the loop variable. -/
def Enters (t t' : LuaState) (v : LuaNumber) : Prop :=
  execute getn t = .ok ⟨⟩ t' ∧ RunsAt p base (prep + 1) t' ∧
    t'.stack (base + (a + 3)) = .number v

/-- `vs` are the values that the body has run for, from the state `s` at `FORLOOP` to `u`. -/
inductive Rounds (body : LuaState → LuaState → Prop) (s : LuaState) :
    List LuaNumber → LuaState → Prop where
  | start : Rounds body s [] s
  | round {vs : List LuaNumber} {v : LuaNumber} {t t' u : LuaState} : Rounds body s vs t →
      Enters getn p base a prep t t' v → body t' u → Rounds body s (vs ++ [v]) u

/-- After the values `vs`, the loop visits the next one, or ends if that is beyond the limit. -/
def NextRound (init limit step : Int) (n : Nat) (u : LuaState) : Prop :=
  if Within limit step (init + n * step) then
    ∃ t v, Enters getn p base a prep u t v ∧ v.toInt = init + n * step
  else ∃ t, execute getn u = .ok ⟨⟩ t ∧ RunsAt p base (loop + 1) t

/-- From `FORPREP` in the state `s`, the body runs for `init`, `init + step`, ... up to the limit,
in this order, and then the loop ends, whatever the body is. -/
def VisitsProgression (s : LuaState) (init limit step : Int) : Prop :=
  ∃ s', execute getn s = .ok ⟨⟩ s' ∧ RunsAt p base loop s' ∧
    ∀ body, LeavesControls p base a prep loop body →
      ∀ vs u, Rounds getn p base a prep body s' vs u →
        (∀ k, (inside : k < vs.length) → vs[k].toInt = init + k * step ∧
          Within limit step (init + k * step)) ∧
        NextRound getn p base a prep loop init limit step vs.length u

end Runs

section Invariant

variable {getn : Table → Nat} {p : Proto} {base a prep loop : Nat} {s u : LuaState}
  {body : LuaState → LuaState → Prop} {init limit step : LuaNumber} {vs : List LuaNumber}

-- the word that the loop has for its value number `n`
def counted (init step : LuaNumber) (n : Nat) : LuaNumber :=
  BitVec.ofInt 64 (init.toInt + n * step.toInt)

theorem counted_zero (init step : LuaNumber) : init - step + step = counted init step 0 := by
  rw [counted, Nat.cast_zero, zero_mul, add_zero, BitVec.ofInt_toInt, BitVec.sub_add_cancel]

theorem counted_succ (init step : LuaNumber) (n : Nat) :
    counted init step n + step = counted init step (n + 1) := by
  rw [counted, counted, Nat.cast_succ, add_mul, one_mul, ← add_assoc]
  conv_rhs => rw [BitVec.ofInt_add, BitVec.ofInt_toInt]

/-- What holds at `FORLOOP` after `n` rounds: the index is one step before the value number `n`. -/
structure AfterRounds (p : Proto) (base a loop : Nat) (init limit step : LuaNumber)
    (vs : List LuaNumber) (u : LuaState) : Prop where
  runs : RunsAt p base loop u
  controls : ∃ idx, Controls base a u idx limit step ∧ idx + step = counted init step vs.length
  values : ∀ k, (inside : k < vs.length) → vs[k] = counted init step k ∧
    Within limit.toInt step.toInt (counted init step k).toInt

theorem Enters.next {t : LuaState} {v idx : LuaNumber} (code : ForCode p a prep loop)
    (runs : RunsAt p base loop u) (controls : Controls base a u idx limit step)
    (enters : Enters getn p base a prep u t v) :
    v = idx + step ∧ Within limit.toInt step.toInt (idx + step).toInt ∧
      Controls base a t (idx + step) limit step := by
  obtain ⟨ran, behind, var⟩ := enters
  obtain ⟨t', ran', after⟩ := execute_forloop getn code runs controls
  obtain rfl : t' = t := by
    rw [ran] at ran'
    cases ran'
    rfl
  split at after
  next within =>
    obtain ⟨-, controls', var'⟩ := after
    rw [var] at var'
    exact ⟨TValue.number.inj var', within, controls'⟩
  next =>
    have same := behind.unique after
    have order := code.order
    omega

theorem Rounds.after (code : ForCode p a prep loop)
    (leaves : LeavesControls p base a prep loop body) (runs : RunsAt p base loop s)
    (controls : Controls base a s (init - step) limit step)
    (rounds : Rounds getn p base a prep body s vs u) :
    AfterRounds p base a loop init limit step vs u := by
  induction rounds with
  | start => exact ⟨runs, ⟨_, controls, counted_zero init step⟩, fun k inside => by cases inside⟩
  | round _ enters ran ih =>
    rename_i vs v t t' u _
    obtain ⟨idx, before, index⟩ := ih.controls
    obtain ⟨rfl, within, inBody⟩ := Enters.next code ih.runs before enters
    obtain ⟨runs', after⟩ := leaves _ _ _ _ _ ran enters.2.1 inBody
    refine ⟨runs', ⟨_, after, ?_⟩, fun k inside => ?_⟩
    · rw [index, List.length_append, List.length_singleton, counted_succ]
    · rw [List.length_append, List.length_singleton] at inside
      rcases Nat.lt_or_ge k vs.length with earlier | last
      · rw [List.getElem_append_left earlier]
        exact ih.values k earlier
      · obtain rfl : k = vs.length := by omega
        rw [List.getElem_append_right (Nat.le_refl _), ← index]
        simp only [Nat.sub_self, List.getElem_cons_zero]
        exact ⟨trivial, within⟩

theorem counted_toInt {n : Nat} (fits : Fits 64 (init.toInt + n * step.toInt)) :
    (counted init step n).toInt = init.toInt + n * step.toInt :=
  toInt_ofInt_of_fits (by decide) fits

-- a value of the progression that is not beyond the limit fits, as all before it do
theorem fits_of_within {n : Nat}
    (within : Within limit.toInt step.toInt (init.toInt + n * step.toInt)) :
    Fits 64 (init.toInt + n * step.toInt) := by
  have first := fits_toInt init
  have last := fits_toInt limit
  have count : 0 ≤ (n : Int) := Int.natCast_nonneg n
  rw [Within] at within
  rw [Fits] at first last ⊢
  split at within
  next up =>
    have forward : 0 ≤ (n : Int) * step.toInt := mul_nonneg count up.le
    omega
  next down =>
    have backward : (n : Int) * step.toInt ≤ 0 :=
      mul_nonpos_of_nonneg_of_nonpos count (not_lt.mp down)
    omega

/-- The next value of a run, as an integer, is within the limit exactly if the word is. -/
theorem nextRound_of_within (code : ForCode p a prep loop)
    (after : AfterRounds p base a loop init limit step vs u)
    (same : Within limit.toInt step.toInt (counted init step vs.length).toInt ↔
      Within limit.toInt step.toInt (init.toInt + vs.length * step.toInt)) :
    NextRound getn p base a prep loop init.toInt limit.toInt step.toInt vs.length u := by
  obtain ⟨idx, controls, index⟩ := after.controls
  obtain ⟨t, ran, result⟩ := execute_forloop getn code after.runs controls
  rw [index] at result
  rw [NextRound]
  by_cases within : Within limit.toInt step.toInt (init.toInt + vs.length * step.toInt)
  · rw [if_pos (same.mpr within)] at result
    rw [if_pos within]
    exact ⟨t, _, ⟨ran, result.1, result.2.2⟩, counted_toInt (fits_of_within within)⟩
  · rw [if_neg fun h => within (same.mp h)] at result
    rw [if_neg within]
    exact ⟨t, ran, result⟩

/-- A value of the progression that is beyond the limit and fits in a word. -/
def StopsInRange (init limit step : Int) : Prop :=
  ∃ n : Nat, Fits 64 (init + n * step) ∧ ¬ Within limit step (init + n * step)

-- up to that value the words are the integers
theorem StopsInRange.word_iff (stops : StopsInRange init.toInt limit.toInt step.toInt)
    {n : Nat} (before : ∀ k < n, Within limit.toInt step.toInt (counted init step k).toInt) :
    (counted init step n).toInt = init.toInt + n * step.toInt := by
  obtain ⟨m, fits, beyond⟩ := stops
  refine counted_toInt (fits_before (fits_toInt init) fits ?_)
  by_contra later
  have within := before m (by omega)
  rw [counted_toInt fits] at within
  exact beyond within

theorem visits_of_stops (code : ForCode p a prep loop) (runs : RunsAt p base prep s)
    (first : luaVTonumber (s.stack (base + a)) = some init)
    (second : luaVTonumber (s.stack (base + (a + 1))) = some limit)
    (third : luaVTonumber (s.stack (base + (a + 2))) = some step)
    (stops : StopsInRange init.toInt limit.toInt step.toInt) :
    VisitsProgression getn p base a prep loop s init.toInt limit.toInt step.toInt := by
  obtain ⟨s', ran, runs', controls⟩ := execute_forprep getn code runs first second third
  refine ⟨s', ran, runs', fun body leaves vs u rounds => ?_⟩
  have after := rounds.after code leaves runs' controls
  have word (n : Nat) (le : n ≤ vs.length) :
      (counted init step n).toInt = init.toInt + n * step.toInt :=
    stops.word_iff fun k less => (after.values k (by omega)).2
  refine ⟨fun k inside => ?_, nextRound_of_within code after ?_⟩
  · obtain ⟨value, within⟩ := after.values k inside
    rw [word k (by omega)] at within
    exact ⟨by rw [value, word k (by omega)], within⟩
  · rw [word _ (Nat.le_refl _)]

-- the first value beyond the limit is out of range, and its word is within the limit
theorem within_round_trip {n : Nat} (never : ¬ StopsInRange init.toInt limit.toInt step.toInt)
    (beyond : ¬ Within limit.toInt step.toInt (init.toInt + n * step.toInt))
    (least : ∀ k < n, Within limit.toInt step.toInt (init.toInt + k * step.toInt)) :
    Within limit.toInt step.toInt (counted init step n).toInt := by
  have outside : ¬ Fits 64 (init.toInt + n * step.toInt) := fun fits => never ⟨n, fits, beyond⟩
  cases n with
  | zero =>
    rw [Nat.cast_zero, zero_mul, add_zero] at outside
    exact absurd (fits_toInt init) outside
  | succ m =>
    have within := least m (Nat.lt_succ_self m)
    have next : init.toInt + (m + 1 : Nat) * step.toInt =
        init.toInt + m * step.toInt + step.toInt := by
      rw [Nat.cast_succ, add_mul, one_mul, add_assoc]
    rw [next] at outside
    rw [counted, next]
    exact within_wrapped (by decide) (fits_of_within within) (fits_toInt step) within outside

-- the body that does nothing but go to `FORLOOP`
def idle (p : Proto) (base prep loop : Nat) (t u : LuaState) : Prop :=
  RunsAt p base (prep + 1) t ∧ RunsAt p base loop u ∧ u.stack = t.stack

theorem idle_leavesControls : LeavesControls p base a prep loop (idle p base prep loop) := by
  rintro t u idx limit step ⟨-, runs, stack⟩ - controls
  refine ⟨runs, ⟨?_, ?_, ?_⟩⟩
  · rw [stack, controls.idx]
  · rw [stack, controls.limit]
  · rw [stack, controls.step]

theorem exists_idle (loop : Nat) {t : LuaState} (runs : RunsAt p base (prep + 1) t) :
    ∃ u, idle p base prep loop t u := by
  obtain ⟨u, -, runs', stack⟩ := setPc_moves runs loop
  exact ⟨u, runs, runs', stack⟩

theorem stops_of_visits (code : ForCode p a prep loop) (runs : RunsAt p base prep s)
    (first : luaVTonumber (s.stack (base + a)) = some init)
    (second : luaVTonumber (s.stack (base + (a + 1))) = some limit)
    (third : luaVTonumber (s.stack (base + (a + 2))) = some step) (moves : step ≠ 0)
    (visits : VisitsProgression getn p base a prep loop s init.toInt limit.toInt step.toInt) :
    StopsInRange init.toInt limit.toInt step.toInt := by
  by_contra never
  have moves' : step.toInt ≠ 0 := by
    intro zero
    exact moves (BitVec.eq_of_toInt_eq zero)
  obtain ⟨s', ran, runs', all⟩ := visits
  obtain ⟨s'', ran', -, controls⟩ := execute_forprep getn code runs first second third
  obtain rfl : s'' = s' := by
    rw [ran] at ran'
    cases ran'
    rfl
  have exists' := exists_beyond init.toInt limit.toInt moves'
  obtain ⟨n, beyond, least⟩ : ∃ n : Nat,
      ¬ Within limit.toInt step.toInt (init.toInt + n * step.toInt) ∧
      ∀ k < n, Within limit.toInt step.toInt (init.toInt + k * step.toInt) := by
    classical
    exact ⟨Nat.find exists', Nat.find_spec exists', fun k less =>
      not_not.mp (Nat.find_min exists' less)⟩
  -- the idle body runs for every value up to the limit
  have rounds (m : Nat) (le : m ≤ n) : ∃ vs u, vs.length = m ∧
      Rounds getn p base a prep (idle p base prep loop) s'' vs u := by
    induction m with
    | zero => exact ⟨[], s'', rfl, .start⟩
    | succ m ih =>
      obtain ⟨vs, u, rfl, rounds⟩ := ih (by omega)
      have next := (all _ idle_leavesControls vs u rounds).2
      rw [NextRound, if_pos (least _ (by omega))] at next
      obtain ⟨t, v, enters, -⟩ := next
      obtain ⟨u', idles⟩ := exists_idle loop enters.2.1
      exact ⟨vs ++ [v], u', List.length_append, .round rounds enters idles⟩
  obtain ⟨vs, u, rfl, lastRound⟩ := rounds n (Nat.le_refl n)
  -- there the index comes round, and the loop goes on
  obtain ⟨t, ended, behind⟩ : ∃ t, execute getn u = .ok ⟨⟩ t ∧ RunsAt p base (loop + 1) t := by
    have ends := (all _ idle_leavesControls vs u lastRound).2
    rwa [NextRound, if_neg beyond] at ends
  have after := lastRound.after code idle_leavesControls runs' controls
  obtain ⟨idx, atLoop, index⟩ := after.controls
  obtain ⟨t', ended', result⟩ := execute_forloop getn code after.runs atLoop
  obtain rfl : t' = t := by
    rw [ended] at ended'
    cases ended'
    rfl
  rw [index, if_pos (within_round_trip never beyond least)] at result
  have same := behind.unique result.1
  have order := code.order
  omega

end Invariant

-- for i = init, limit, step do end
def emptyFor : Proto where
  source := none
  linedefined := 0
  lastlinedefined := 0
  nups := 0
  numparams := 0
  isVararg := 0
  maxstacksize := 4
  code := [createABx 32 0 131071, createABx 31 0 131070, createABC 30 0 1 0]
  k := []
  p := []
  lineinfo := []
  locvars := []
  upvalues := []

theorem emptyFor_code : ForCode emptyFor 0 0 1 where
  order := Nat.zero_lt_one
  forprep := ⟨createABx 32 0 131071, rfl, by decide, by decide, by decide⟩
  forloop := ⟨createABx 31 0 131070, rfl, by decide, by decide, by decide⟩
  notCounts := by decide
  registers := by decide

def atFor (init limit step : LuaNumber) : LuaState where
  stack := fun n => .number (if n = 1 then init else if n = 2 then limit else step)
  top := 5
  heap := emptyHeap
  openupval := []
  frames := [{ func := 0, base := 1, top := 5, nresults := 0, kont := .native,
               code := .lua emptyFor 0 0 }]
  mode := .exec

theorem atFor_runs (init limit step : LuaNumber) :
    RunsAt emptyFor 1 0 (atFor init limit step) := ⟨_, _, _, rfl, rfl, rfl⟩

/-- The loop visits exactly its progression and ends if, and only if, a value of the progression
that is beyond the limit fits in a `long`. -/
theorem numericFor_visits_iff (getn : Table → Nat) {p : Proto} {base a prep loop : Nat}
    {s : LuaState} {init limit step : LuaNumber} (code : ForCode p a prep loop)
    (runs : RunsAt p base prep s) (first : luaVTonumber (s.stack (base + a)) = some init)
    (second : luaVTonumber (s.stack (base + (a + 1))) = some limit)
    (third : luaVTonumber (s.stack (base + (a + 2))) = some step) (moves : step ≠ 0) :
    VisitsProgression getn p base a prep loop s init.toInt limit.toInt step.toInt ↔
      StopsInRange init.toInt limit.toInt step.toInt :=
  ⟨stops_of_visits code runs first second third moves, visits_of_stops code runs first second third⟩

theorem numericFor_visits_to_three : VisitsProgression (fun _ => 0) emptyFor 1 0 0 1
    (atFor 1 3 1) (1 : LuaNumber).toInt (3 : LuaNumber).toInt (1 : LuaNumber).toInt :=
  (numericFor_visits_iff (fun _ => 0) emptyFor_code (atFor_runs 1 3 1) rfl rfl rfl
    (by decide)).mpr ⟨3, by decide, by decide⟩

/-- `for i = 9223372036854775807, 9223372036854775807 do end` does not end. -/
theorem numericFor_to_the_last_word : ¬ VisitsProgression (fun _ => 0) emptyFor 1 0 0 1
    (atFor (BitVec.intMax 64) (BitVec.intMax 64) 1) (BitVec.intMax 64).toInt
    (BitVec.intMax 64).toInt (1 : LuaNumber).toInt := by
  intro visits
  obtain ⟨n, fits, beyond⟩ : StopsInRange (BitVec.intMax 64).toInt (BitVec.intMax 64).toInt
      (1 : LuaNumber).toInt :=
    stops_of_visits emptyFor_code (atFor_runs _ _ _) rfl rfl rfl (by decide) visits
  have last : (BitVec.intMax 64).toInt = 2 ^ 63 - 1 := by decide
  have one : (1 : LuaNumber).toInt = 1 := by decide
  rw [last, one, mul_one] at fits beyond
  rw [Fits] at fits
  rw [Within, if_pos (by decide)] at beyond
  omega

end Lunatik.Verified
