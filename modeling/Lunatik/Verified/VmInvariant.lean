import Lunatik.Library.Hoare
import Lunatik.Verified.CheckedCode

/-! # The invariant of the interpreter

All that keeps the interpreter inside its arrays is: every Lua closure is over checked code
and has its upvalues, every `CallInfo` of a Lua function stands on an instruction of the code
its closure has, and what an interrupted instruction still has to do fits the place it was
interrupted at.  Nothing is said about the contents of the stack.

`Frozen` predicates look only at the calls and the closures.  Most operations change neither,
so one lemma about each of them serves all such predicates.
-/

namespace Lunatik.Verified

open Lunatik.Lua Lunatik.Library

/-! ## Definitions -/

def HeapOk (h : Heap) : Prop :=
  ∀ id p upvals env, h.closures id = .lua p upvals env →
    Checked p ∧ upvals.length = p.nups.toNat ∧ id < h.nextClosure

-- a closure may get another environment, nothing else
def ClosuresKept (h h' : Heap) : Prop :=
  ∀ id p upvals env, h.closures id = .lua p upvals env → ∃ env', h'.closures id = .lua p upvals env'

/-- A Lua function that stands at `pc`. -/
structure FrameAt (h : Heap) (ci : CallInfo) (p : Proto) (pc cl : Nat) : Prop where
  code : ci.code = .lua p pc cl
  checked : Checked p
  real : Real p pc
  closure : ∃ upvals env, h.closures cl = .lua p upvals env

-- the position after a test
structure BranchAt (p : Proto) (pc : Nat) : Prop where
  jump : getOpcode (p.codeAt pc) = some .jmp
  skip : Real p (pc + 1)

def KontAt (p : Proto) (pc : Nat) : Kont → Prop
  | .compare _ _ => BranchAt p pc
  | .tforloop i => BranchAt p pc ∧ getargA i + 3 < p.maxReg
  | .concat i _ last => getargA i < p.maxReg ∧ getargB i < p.maxReg ∧ last < p.maxReg
  | .native => False
  | _ => True

/-- The caller can do what is left to do. -/
def KontOk (h : Heap) (kont : Kont) (caller : CallInfo) : Prop :=
  (kont = .native ∧ caller.code = .native) ∨ ∃ p pc cl, FrameAt h caller p pc cl ∧ KontAt p pc kont

def FramesOk (h : Heap) : List CallInfo → Prop
  | [] => False
  | [ci] => ci.code = .native
  | ci :: caller :: rest => KontOk h ci.kont caller ∧ FramesOk h (caller :: rest)

structure Sane (s : LuaState) : Prop where
  heap : HeapOk s.heap
  frames : FramesOk s.heap s.frames

def HeadOk (h : Heap) (mode : Mode) (ci : CallInfo) : Prop :=
  match mode with
  | .exec | .reentry => ∃ p pc cl, FrameAt h ci p pc cl
  | .native => ci.code = .native
  | .raised _ | .refused => True
  -- the trap of a division is another matter
  | .faulted f => f = .divide

structure VmInv (s : LuaState) : Prop extends Sane s where
  head : ∃ ci rest, s.frames = ci :: rest ∧ HeadOk s.heap s.mode ci

-- an error was raised, or a division trapped
def Failed (e : Stop) (s : LuaState) : Prop :=
  ((∃ err, e = .error err) ∨ e = .fault .divide) ∧ Sane s

/-! ## More closures -/

theorem ClosuresKept.of_eq {h h' : Heap} (same : h'.closures = h.closures) : ClosuresKept h h' := by
  intro id p upvals env found
  exact ⟨env, by rw [same]; exact found⟩

theorem FrameAt.keep {h h' : Heap} (kept : ClosuresKept h h') {ci : CallInfo} {p : Proto}
    {pc cl : Nat} (at' : FrameAt h ci p pc cl) : FrameAt h' ci p pc cl := by
  obtain ⟨upvals, env, found⟩ := at'.closure
  obtain ⟨env', found'⟩ := kept cl p upvals env found
  exact ⟨at'.code, at'.checked, at'.real, upvals, env', found'⟩

theorem KontOk.keep {h h' : Heap} (kept : ClosuresKept h h') {kont : Kont} {caller : CallInfo}
    (ok : KontOk h kont caller) : KontOk h' kont caller := by
  rcases ok with native | ⟨p, pc, cl, at', fits⟩
  · exact .inl native
  · exact .inr ⟨p, pc, cl, at'.keep kept, fits⟩

theorem FramesOk.keep {h h' : Heap} (kept : ClosuresKept h h') {frames : List CallInfo}
    (ok : FramesOk h frames) : FramesOk h' frames := by
  induction frames with
  | nil => exact ok
  | cons ci rest ih =>
    cases rest with
    | nil => exact ok
    | cons caller rest => exact ⟨ok.1.keep kept, ih ok.2⟩

theorem HeapOk.of_eq {h h' : Heap} (ok : HeapOk h) (same : h'.closures = h.closures)
    (next : h'.nextClosure = h.nextClosure) : HeapOk h' := by
  intro id p upvals env found
  rw [same] at found
  rw [next]
  exact ok id p upvals env found

theorem HeapOk.addClosure {h : Heap} (ok : HeapOk h) {p : Proto} {upvals : List Nat}
    (checked : Checked p) (size : upvals.length = p.nups.toNat) (env : Nat) :
    HeapOk (h.addClosure (.lua p upvals env)) := by
  intro id q ids env' found
  rw [Heap.addClosure_closures] at found
  rw [Heap.addClosure_nextClosure]
  by_cases new : id = h.nextClosure
  · subst new
    simp only [setAt_same, Closure.lua.injEq] at found
    obtain ⟨rfl, rfl, rfl⟩ := found
    exact ⟨checked, size, Nat.lt_succ_self _⟩
  · rw [setAt_other _ _ new] at found
    obtain ⟨old, bound, older⟩ := ok id q ids env' found
    exact ⟨old, bound, Nat.lt_succ_of_lt older⟩

/-- A new closure does not touch the others. -/
theorem HeapOk.addClosure_kept {h : Heap} (ok : HeapOk h) (c : Closure) :
    ClosuresKept h (h.addClosure c) := by
  intro id p upvals env found
  have older := (ok id p upvals env found).2.2
  refine ⟨env, ?_⟩
  rw [Heap.addClosure_closures, setAt_other _ _ (Nat.ne_of_lt older)]
  exact found

-- what is below the innermost call does not depend on where that call stands
theorem FramesOk.replace_head {h : Heap} {ci ci' caller : CallInfo} {rest : List CallInfo}
    (ok : FramesOk h (ci :: caller :: rest)) (same : ci'.kont = ci.kont) :
    FramesOk h (ci' :: caller :: rest) := by
  refine ⟨?_, ok.2⟩
  rw [same]
  exact ok.1

/-! ## Frozen predicates -/

structure Frozen (P : LuaState → Prop) : Prop where
  sane : ∀ s, P s → Sane s
  frame : ∀ s s', P s → s'.frames = s.frames → s'.mode = s.mode →
    s'.heap.closures = s.heap.closures →
    s'.heap.nextClosure = s.heap.nextClosure → P s'

theorem Sane.frame {s s' : LuaState} (ok : Sane s) (frames : s'.frames = s.frames)
    (closures : s'.heap.closures = s.heap.closures)
    (next : s'.heap.nextClosure = s.heap.nextClosure) : Sane s' := by
  refine ⟨ok.heap.of_eq closures next, ?_⟩
  rw [frames]
  exact ok.frames.keep (.of_eq closures)

/-- In the middle of an instruction of `f`, with `pc` as the saved position. -/
structure During (f : Activation) (pc : Nat) (s : LuaState) : Prop extends Sane s where
  mode : s.mode = .exec
  closure : ∃ upvals env, s.heap.closures f.cl = .lua f.p upvals env
  head : ∃ caller rest, s.frames = { f.ci with code := .lua f.p pc f.cl } :: caller :: rest

theorem during_frozen (f : Activation) (pc : Nat) : Frozen (During f pc) where
  sane := fun _ h => h.toSane
  frame := by
    intro s s' h frames mode closures next
    refine ⟨h.toSane.frame frames closures next, mode.trans h.mode, ?_, ?_⟩
    · rw [closures]
      exact h.closure
    · rw [frames]
      exact h.head

/-- A call may be made that is continued by `kont`. -/
structure MayCall (kont : Kont) (s : LuaState) : Prop extends Sane s where
  caller : ∃ ci rest, s.frames = ci :: rest ∧ KontOk s.heap kont ci

theorem mayCall_frozen (kont : Kont) : Frozen (MayCall kont) where
  sane := fun _ h => h.toSane
  frame := by
    intro s s' h frames _ closures next
    obtain ⟨ci, rest, split, ok⟩ := h.caller
    exact ⟨h.toSane.frame frames closures next, ci, rest, frames.trans split,
      ok.keep (.of_eq closures)⟩

theorem During.mayCall {f : Activation} {pc : Nat} {s : LuaState} (h : During f pc s)
    (checked : Checked f.p) (real : Real f.p pc) {kont : Kont} (fits : KontAt f.p pc kont) :
    MayCall kont s := by
  obtain ⟨caller, rest, split⟩ := h.head
  exact ⟨h.toSane, _, _, split, .inr ⟨f.p, pc, f.cl, ⟨rfl, checked, real, h.closure⟩, fits⟩⟩

theorem During.inv {f : Activation} {pc : Nat} {s : LuaState} (h : During f pc s)
    (checked : Checked f.p) (real : Real f.p pc) : VmInv s := by
  obtain ⟨caller, rest, split⟩ := h.head
  refine ⟨h.toSane, _, _, split, ?_⟩
  rw [h.mode]
  exact ⟨f.p, pc, f.cl, rfl, checked, real, h.closure⟩

end Lunatik.Verified
