import Lunatik.Library.Hoare
import Lunatik.Lua.Pcall
import Lunatik.Verified.OpenUpvalues

/-! # A function keeps to its frame

`Inside` is what holds in the frame of a function while it runs, whatever it has called; `Jumped` is what
is left of it when an error is raised.  `body_keeps` is an induction on what the function does: a call
gives back the `CallInfo`s, the counters and the open upvalues of its caller (`luaDPrecall_returned`), and
a tail call the frame that it takes over (`replaceFrame_inside`).
-/

namespace Lunatik.Verified.CallFrames

open Lunatik.Lua Lunatik.Library

variable {α β : Type} {isLua : Bool}

open Protected (LuaThread RunM Callee Body ErrCode)

/-- The fields that a function leaves as they are. -/
structure SameThread (s t : LuaThread) : Prop where
  ci : t.ci = s.ci
  nCcalls : t.nCcalls = s.nCcalls
  errfunc : t.errfunc = s.errfunc
  allowhook : t.allowhook = s.allowhook
  status : t.status = s.status
  errorJmp : t.errorJmp = s.errorJmp
  sizeCi : s.sizeCi ≤ luaiMaxcalls → t.sizeCi ≤ luaiMaxcalls

theorem SameThread.refl (s : LuaThread) : SameThread s s := ⟨rfl, rfl, rfl, rfl, rfl, rfl, id⟩

theorem SameThread.trans {s t r : LuaThread} (first : SameThread s t) (second : SameThread t r) :
    SameThread s r :=
  ⟨second.ci.trans first.ci, second.nCcalls.trans first.nCcalls, second.errfunc.trans first.errfunc,
    second.allowhook.trans first.allowhook, second.status.trans first.status,
    second.errorJmp.trans first.errorJmp, fun le => second.sizeCi (first.sizeCi le)⟩

/-- How many `CallInfo`s a function leaves alone: a Lua function may hand its own to a tail call. -/
def frozen (isLua : Bool) (s : LuaThread) : Nat := if isLua then s.ci else s.ci + 1

/-- `t` is reached in the function that runs in `s`.  Of the upvalues, some were open before, and a Lua
function may have opened others in its frame. -/
structure Inside (isLua : Bool) (s t : LuaThread) : Prop where
  same : SameThread s t
  calls : ∀ j < frozen isLua s, t.baseCi j = s.baseCi j
  func : (t.baseCi s.ci).func = (s.baseCi s.ci).func
  nresults : (t.baseCi s.ci).nresults = (s.baseCi s.ci).nresults
  base : t.base = (t.baseCi s.ci).base
  guarded : s.errorJmp ≠ []
  chain : OpenChain t.toShared
  opened : ∀ id ∈ t.openupval,
    OldUpval s.toShared t.toShared id ∨ isLua = true ∧ t.base ≤ levelOf t.toShared id

/-- An error was raised: the first `n` `CallInfo`s are those of `s`. -/
structure Jumped (n : Nat) (s t : LuaThread) : Prop where
  calls : ∀ j < n, t.baseCi j = s.baseCi j
  status : t.status = s.status
  errorJmp : ∃ code : ErrCode, t.errorJmp = code.status :: s.errorJmp.tail
  chain : OpenChain t.toShared

/-- The function goes on, or an error is raised. -/
def Keeps (isLua : Bool) (m : RunM α) : Prop :=
  ∀ s, Triple (Inside isLua s) m (fun _ => Inside isLua s) fun _ => Jumped (frozen isLua s) s

/-- A state in which a protected function runs. -/
structure Running (s : LuaThread) : Prop where
  base : s.base = (s.baseCi s.ci).base
  guarded : s.errorJmp ≠ []
  chain : OpenChain s.toShared

theorem Running.inside {s : LuaThread} (running : Running s) : Inside isLua s s :=
  ⟨.refl s, fun _ _ => rfl, rfl, rfl, running.base, running.guarded, running.chain,
    fun _ member => .inl ⟨member, rfl⟩⟩

theorem frozen_le (isLua : Bool) (s : LuaThread) : frozen isLua s ≤ s.ci + 1 := by
  cases isLua with
  | true => exact Nat.le_succ _
  | false => exact le_rfl

namespace Inside

variable {s t r : LuaThread}

theorem running (inside : Inside isLua s t) : Running t where
  base := by rw [inside.same.ci, inside.base]
  guarded := by
    rw [inside.same.errorJmp]
    exact inside.guarded
  chain := inside.chain

-- what C code does in the frame
theorem trans (inside : Inside isLua s t) (later : Inside false t r) : Inside isLua s r := by
  have ci := inside.same.ci
  have kept : ∀ j < s.ci + 1, r.baseCi j = t.baseCi j := by
    rw [← ci]
    exact later.calls
  have own := kept s.ci (Nat.lt_succ_self _)
  have base : r.base = t.base := by
    rw [later.base, ci, own, ← inside.base]
  refine ⟨inside.same.trans later.same, fun j low => ?_, ?_, ?_, ?_, inside.guarded, later.chain, ?_⟩
  · exact (kept j (Nat.lt_of_lt_of_le low (frozen_le isLua s))).trans (inside.calls j low)
  · rw [own, inside.func]
  · rw [own, inside.nresults]
  · rw [base, inside.base, own]
  · intro id member
    rcases later.opened id member with old | ⟨impossible, -⟩
    · rcases inside.opened id old.1 with older | ⟨lua, high⟩
      · exact .inl (older.trans old)
      · refine .inr ⟨lua, ?_⟩
        rw [base, old.2]
        exact high
    · cases impossible

theorem jumped (inside : Inside isLua s t) {n : Nat} (le : t.ci + 1 ≤ n) (later : Jumped n t r) :
    Jumped (frozen isLua s) s r := by
  refine ⟨fun j low => ?_, later.status.trans inside.same.status, ?_, later.chain⟩
  · have bound : j < n := by
      have top := frozen_le isLua s
      have ci := inside.same.ci
      omega
    exact (later.calls j bound).trans (inside.calls j low)
  · rw [← inside.same.errorJmp]
    exact later.errorJmp

end Inside

/-- It is enough to look at what C code does from a state on. -/
theorem Keeps.of_running {m : RunM α} (h : ∀ t, Running t →
    Triple (fun r => r = t) m (fun _ r => Inside false t r) fun _ r => Jumped (t.ci + 1) t r) :
    Keeps isLua m := by
  intro s t inside
  have result := h t inside.running t rfl
  cases ran : m t with
  | ok a r =>
    rw [ran] at result
    exact inside.trans result
  | error e r =>
    rw [ran] at result
    exact inside.jumped le_rfl result

theorem Keeps.bind {m : RunM α} {f : α → RunM β} (first : Keeps isLua m) (rest : ∀ a, Keeps isLua (f a)) :
    Keeps isLua (m >>= f) := fun s => Triple.bind (first s) fun a => rest a s

theorem Keeps.ret (a : α) : Keeps isLua (pure a : RunM α) := fun _ => Triple.ret fun _ inside => inside

theorem Keeps.get_bind {f : LuaThread → RunM α} (rest : ∀ s, Keeps isLua (f s)) :
    Keeps isLua (get >>= f) := fun s t inside => rest t s t inside

/-! ## Stack and upvalues -/

section Operations

/-- The stack and the heap change, and the list of open upvalues in order. -/
theorem Inside.withShared {s t : LuaThread} (inside : Inside isLua s t) {new : Shared} (chain : OpenChain new)
    (opened : ∀ id ∈ new.openupval,
      OldUpval t.toShared new id ∨ isLua = true ∧ t.base ≤ levelOf new id) :
    Inside isLua s { t with toShared := new } where
  same := ⟨inside.same.ci, inside.same.nCcalls, inside.same.errfunc, inside.same.allowhook,
    inside.same.status, inside.same.errorJmp, inside.same.sizeCi⟩
  calls := inside.calls
  func := inside.func
  nresults := inside.nresults
  base := inside.base
  guarded := inside.guarded
  chain := chain
  opened := fun id member => by
    rcases opened id member with old | high
    · rcases inside.opened id old.1 with older | ⟨lua, high⟩
      · exact .inl (older.trans old)
      · exact .inr ⟨lua, high.trans_eq old.2.symm⟩
    · exact .inr high

theorem withOpen_level {s new : Shared} {id : Nat} (member : id ∈ s.openupval) :
    levelOf (Protected.withOpen s new) id = levelOf s id := by
  dsimp only [levelOf, Protected.withOpen]
  rw [if_pos member]

theorem withOpen_chain {s : Shared} (chain : OpenChain s) (new : Shared) :
    OpenChain (Protected.withOpen s new) := by
  refine ⟨chain.sorted.imp_of_mem fun {a b} member member' le => ?_, chain.nodup, chain.fresh⟩
  have first : levelOf (Protected.withOpen s new) a = levelOf s a := withOpen_level member
  have second : levelOf (Protected.withOpen s new) b = levelOf s b := withOpen_level member'
  rw [first, second]
  exact le

theorem compute_keeps (f : Shared → Shared) : Keeps isLua (Protected.compute f) := fun _ _ inside =>
  inside.withShared (withOpen_chain inside.chain _) fun _ member => .inl ⟨member, withOpen_level member⟩

theorem push_keeps (v : TValue) : Keeps isLua (Protected.push v) := compute_keeps _

theorem luaFClose_run {t : LuaThread} (chain : OpenChain t.toShared) (level : Nat) : ∃ new : Shared,
    Protected.luaFClose level t = .ok ⟨⟩ { t with toShared := new } ∧ OpenChain new ∧
      ∀ id ∈ new.openupval, OldUpval t.toShared new id ∧ levelOf new id < level := by
  obtain ⟨suffix, -, below⟩ := closeOpen_spec t.stack level chain.sorted chain.nodup
  refine ⟨_, rfl, chain.close t.stack level, fun id member => ?_⟩
  obtain ⟨same, lower⟩ := below id member
  have kept := congrArg UpVal.level same
  exact ⟨⟨suffix.subset member, kept⟩, kept.trans_lt lower⟩

theorem luaFClose_keeps (level : Nat) : Keeps isLua (Protected.luaFClose level) := by
  intro s t inside
  obtain ⟨new, ran, chain, below⟩ := luaFClose_run inside.chain level
  rw [ran]
  exact inside.withShared chain fun id member => .inl (below id member).1

/-- What a Lua function has opened is closed from its base on. -/
theorem Inside.closed {s t : LuaThread} (inside : Inside isLua s t) {new : Shared} {id : Nat}
    (old : OldUpval t.toShared new id) (below : levelOf new id < t.base) : OldUpval s.toShared new id := by
  rcases inside.opened id old.1 with older | ⟨-, high⟩
  · exact older.trans old
  · rw [old.2] at below
    exact (Nat.not_lt_of_le high below).elim

/-- A Lua function opens upvalues in its frame. -/
theorem luaFFindupval_inside {s t : LuaThread} (inside : Inside true s t) (r : Nat) :
    ∃ t', Protected.luaFFindupval (t.base + r) t = .ok ⟨⟩ t' ∧ Inside true s t' := by
  have fresh : t.heap.nextUpval ∉ t.openupval := fun member => Nat.lt_irrefl _ (inside.chain.fresh _ member)
  rw [Protected.luaFFindupval, modify_run]
  refine ⟨_, rfl, ?_⟩
  cases findOpen t.heap (t.base + r) t.openupval with
  | some id => exact inside
  | none =>
    refine inside.withShared (inside.chain.link (t.base + r)) fun id member => ?_
    rcases linkOpen_mem.mp member with rfl | before
    · have here := congrArg UpVal.level
        (setAt_same t.heap.upvals t.heap.nextUpval (.openAt (t.base + r)))
      exact .inr ⟨rfl, (Nat.le_add_right t.base r).trans_eq here.symm⟩
    · have kept : setAt t.heap.upvals t.heap.nextUpval (.openAt (t.base + r)) id = t.heap.upvals id :=
        setAt_other _ _ fun same => fresh (same ▸ before)
      exact .inl ⟨before, congrArg UpVal.level kept⟩

theorem luaFNewupvals_keeps (n : Nat) : Keeps isLua (Protected.luaFNewupvals n) := by
  intro s t inside
  have kept {id : Nat} (member : id ∈ t.openupval) :
      (if t.heap.nextUpval ≤ id then UpVal.closed .nil else t.heap.upvals id) = t.heap.upvals id :=
    if_neg (Nat.not_le_of_lt (inside.chain.fresh id member))
  refine inside.withShared ⟨?_, inside.chain.nodup, ?_⟩ fun id member => .inl ⟨member, ?_⟩
  · refine inside.chain.sorted.imp_of_mem fun member member' le => ?_
    dsimp only [levelOf]
    rwa [kept member, kept member']
  · exact fun id member => (inside.chain.fresh id member).trans_le (Nat.le_add_right _ _)
  · exact congrArg UpVal.level (kept member)

/-! ## Errors -/

/-- Under a protected call, an error does not return. -/
theorem luaDThrow_jumps (code : ErrCode) (s : LuaThread) :
    Triple (Inside isLua s) (Protected.luaDThrow code) (fun _ _ => False) fun _ => Jumped (frozen isLua s) s := by
  intro t inside
  have guarded := inside.running.guarded
  obtain ⟨status, previous, chain⟩ := List.exists_cons_of_ne_nil guarded
  have thrown : Protected.luaDThrow code t =
      .error ⟨⟩ { t with errorJmp := code.status :: previous } := by
    rw [Protected.luaDThrow, bind_ok (get_run t), chain]
    rfl
  rw [thrown]
  refine ⟨inside.calls, inside.same.status, ⟨code, ?_⟩, inside.chain⟩
  rw [← inside.same.errorJmp, chain]
  rfl

theorem luaDThrow_keeps (code : ErrCode) : Keeps isLua (Protected.luaDThrow code) :=
  fun s => (luaDThrow_jumps code s).conseq (fun _ inside => inside) fun _ _ impossible => impossible.elim

theorem luaGRunerror_jumps {message : RunM Nat} (kept : Keeps isLua message) (s : LuaThread) :
    Triple (Inside isLua s) (Protected.luaGRunerror message) (fun _ _ => False)
      fun _ => Jumped (frozen isLua s) s :=
  Triple.bind (kept s) fun _ => luaDThrow_jumps _ s

/-! ## Calls -/

variable {t : LuaThread} {message : RunM Nat}

theorem Running.raised (running : Running t) {m : RunM α}
    (jumps : Triple (Inside false t) m (fun _ _ => False) fun _ => Jumped (t.ci + 1) t) :
    ∃ r, m t = .error ⟨⟩ r ∧ Jumped (t.ci + 1) t r := by
  have result := jumps t running.inside
  cases ran : m t with
  | ok a r =>
    rw [ran] at result
    exact result.elim
  | error e r =>
    rw [ran] at result
    exact ⟨r, rfl, result⟩

theorem luaDReallocCI_spec (running : Running t) (granted : Bool) (newsize : Nat) :
    Triple (fun r => r = t) (Protected.luaDReallocCI granted newsize)
      (fun _ r => r = { t with sizeCi := newsize }) fun _ => Jumped (t.ci + 1) t := by
  intro r same
  rw [same]
  cases granted with
  | true => exact rfl
  | false =>
    obtain ⟨r, thrown, jumped⟩ := running.raised (luaDThrow_jumps .errMem t)
    have refused : Protected.luaDReallocCI false newsize t =
        (Protected.luaDThrow .errMem >>= fun _ => modify fun s => { s with sizeCi := newsize }) t := rfl
    rw [refused, bind_error thrown]
    exact jumped

theorem growCI_spec (running : Running t) (kept : Keeps false message) (granted : Bool) :
    Triple (fun r => r = t) (Protected.growCI granted message)
      (fun _ r => ∃ sizeCi, r = { t with sizeCi } ∧ sizeCi ≤ luaiMaxcalls) fun _ => Jumped (t.ci + 1) t := by
  intro r same
  rw [same, Protected.growCI, bind_ok (get_run t)]
  by_cases handling : luaiMaxcalls < t.sizeCi
  · rw [if_pos handling]
    obtain ⟨r, thrown, jumped⟩ := running.raised (luaDThrow_jumps .errErr t)
    rw [thrown]
    exact jumped
  · rw [if_neg handling, bind_ok (get_run t)]
    refine Triple.bind (luaDReallocCI_spec running granted _) (fun _ r same => ?_) t rfl
    rw [same, bind_ok (get_run _)]
    by_cases overflow : luaiMaxcalls < 2 * t.sizeCi
    · rw [if_pos overflow]
      have running' : Running { t with sizeCi := 2 * t.sizeCi } := ⟨running.base, running.guarded, running.chain⟩
      obtain ⟨r, raised, jumped⟩ := running'.raised (luaGRunerror_jumps kept _)
      rw [raised]
      exact ⟨jumped.calls, jumped.status, jumped.errorJmp, jumped.chain⟩
    · rw [if_neg overflow]
      exact ⟨_, rfl, Nat.le_of_not_lt overflow⟩

theorem incCi_spec (running : Running t) (kept : Keeps false message) (granted : Bool) :
    Triple (fun r => r = t) (Protected.incCi granted message)
      (fun _ r => ∃ sizeCi, r = { t with ci := t.ci + 1, sizeCi } ∧ (t.sizeCi ≤ luaiMaxcalls → sizeCi ≤ luaiMaxcalls))
      fun _ => Jumped (t.ci + 1) t := by
  intro r same
  rw [same, Protected.incCi, bind_ok (get_run t)]
  by_cases full : t.ci = t.sizeCi - 1
  · rw [if_pos full]
    refine Triple.bind (growCI_spec running kept granted) (fun _ r grown => ?_) t rfl
    obtain ⟨sizeCi, same, le⟩ := grown
    rw [same]
    exact ⟨sizeCi, rfl, fun _ => le⟩
  · rw [if_neg full]
    exact ⟨t.sizeCi, rfl, id⟩

/-- `e` is the start of a function that was called in `t`. -/
structure Entered (func : Nat) (nresults : Int) (t e : LuaThread) : Prop where
  ci : e.ci = t.ci + 1
  calls : ∀ j ≤ t.ci, e.baseCi j = t.baseCi j
  func : (e.baseCi e.ci).func = func
  nresults : (e.baseCi e.ci).nresults = nresults
  base : e.base = (e.baseCi e.ci).base
  nCcalls : e.nCcalls = t.nCcalls
  errfunc : e.errfunc = t.errfunc
  allowhook : e.allowhook = t.allowhook
  status : e.status = t.status
  errorJmp : e.errorJmp = t.errorJmp
  sizeCi : t.sizeCi ≤ luaiMaxcalls → e.sizeCi ≤ luaiMaxcalls
  chain : OpenChain e.toShared
  opened : ∀ id ∈ e.openupval, OldUpval t.toShared e.toShared id

theorem Entered.running {func : Nat} {nresults : Int} {e : LuaThread} (entered : Entered func nresults t e)
    (running : Running t) : Running e where
  base := entered.base
  guarded := by
    rw [entered.errorJmp]
    exact running.guarded
  chain := entered.chain

-- after the CallInfo is taken
theorem entered_next {t' : LuaThread} (inside : Inside false t t') {sizeCi : Nat}
    (le : t'.sizeCi ≤ luaiMaxcalls → sizeCi ≤ luaiMaxcalls) (ci : Protected.CallInfo) {new : Shared}
    (chain : OpenChain new) (opened : ∀ id ∈ new.openupval, OldUpval t'.toShared new id) :
    Entered ci.func ci.nresults t { t' with
      toShared := new
      ci := t'.ci + 1
      sizeCi
      base := ci.base
      baseCi := setAt t'.baseCi (t'.ci + 1) ci } where
  ci := congrArg (· + 1) inside.same.ci
  calls := fun j low => by
    have ci := inside.same.ci
    exact (setAt_other _ _ (by omega)).trans (inside.calls j (Nat.lt_succ_of_le low))
  func := congrArg Protected.CallInfo.func (setAt_same _ _ _)
  nresults := congrArg Protected.CallInfo.nresults (setAt_same _ _ _)
  base := (congrArg Protected.CallInfo.base (setAt_same _ _ _)).symm
  nCcalls := inside.same.nCcalls
  errfunc := inside.same.errfunc
  allowhook := inside.same.allowhook
  status := inside.same.status
  errorJmp := inside.same.errorJmp
  sizeCi := fun small => le (inside.same.sizeCi small)
  chain := chain
  opened := fun id member => by
    have old := opened id member
    rcases inside.opened id old.1 with older | ⟨impossible, -⟩
    · exact older.trans old
    · cases impossible

theorem arguments_inside (running : Running t) (f : Shared → Shared) :
    Triple (fun r => r = t) (Protected.compute f) (fun _ => Inside false t) fun _ => Jumped (t.ci + 1) t := by
  refine (compute_keeps f t).pre fun r same => ?_
  rw [same]
  exact running.inside

theorem enterLua_spec (running : Running t) (kept : Keeps false message) (func : Nat) (nresults : Int)
    (callee : Callee) :
    Triple (fun r => r = t) (Protected.enterLua func nresults callee message)
      (fun _ => Entered func nresults t) fun _ => Jumped (t.ci + 1) t := by
  refine Triple.bind (arguments_inside running _) fun _ t' inside => ?_
  have entry := (incCi_spec inside.running kept callee.granted).errors
    (E := fun _ => Jumped (t.ci + 1) t) fun _ _ => inside.jumped le_rfl
  refine Triple.bind entry (fun _ r grown => ?_) t' rfl
  obtain ⟨sizeCi, same, le⟩ := grown
  rw [same]
  exact entered_next inside le ⟨func, func + 1 + callee.moved t'.toShared, _, nresults⟩
    (withOpen_chain inside.chain _) fun id member => ⟨member, withOpen_level member⟩

theorem enterC_spec (running : Running t) (kept : Keeps false message) (func : Nat) (nresults : Int)
    (callee : Callee) :
    Triple (fun r => r = t) (Protected.enterC func nresults callee message)
      (fun _ => Entered func nresults t) fun _ => Jumped (t.ci + 1) t := by
  refine Triple.bind (arguments_inside running _) fun _ t' inside => ?_
  have entry := (incCi_spec inside.running kept callee.granted).errors
    (E := fun _ => Jumped (t.ci + 1) t) fun _ _ => inside.jumped le_rfl
  refine Triple.bind entry (fun _ r grown => ?_) t' rfl
  obtain ⟨sizeCi, same, le⟩ := grown
  rw [same]
  exact entered_next inside le ⟨func, func + 1, t'.top + luaMinstack, nresults⟩ inside.chain
    fun id member => ⟨member, rfl⟩

/-- The results are where the function was, and the caller is as it was. -/
structure Returned (func : Nat) (nresults : Int) (t r : LuaThread) : Prop where
  inside : Inside false t r
  top : 0 ≤ nresults → r.top = func + nresults.toNat

theorem luaDPoscall_returned (running : Running t) {func : Nat} {nresults : Int} {e e' : LuaThread}
    (entered : Entered func nresults t e) (inside : Inside isLua e e')
    (old : ∀ id ∈ e'.openupval, OldUpval e.toShared e'.toShared id) (firstResult : Nat) :
    ∃ r, Protected.luaDPoscall firstResult e' = .ok ⟨⟩ r ∧ Returned func nresults t r := by
  have ci : e'.ci = t.ci + 1 := inside.same.ci.trans entered.ci
  have calls : ∀ j < t.ci + 1, e'.baseCi j = t.baseCi j := by
    intro j low
    have below : j < frozen isLua e := by
      have entry := entered.ci
      cases isLua with
      | true => exact low.trans_eq entry.symm
      | false => exact Nat.lt_succ_of_lt (low.trans_eq entry.symm)
    exact (inside.calls j below).trans (entered.calls j (Nat.le_of_lt_succ low))
  have own := calls t.ci (Nat.lt_succ_self _)
  have down : e'.ci - 1 = t.ci := by rw [ci, Nat.add_sub_cancel]
  let moved := moveResults e'.toShared (e'.baseCi e'.ci).func (e'.baseCi e'.ci).nresults firstResult
  let r : LuaThread :=
    { e' with
      toShared := Protected.withOpen e'.toShared moved
      ci := e'.ci - 1
      base := (e'.baseCi (e'.ci - 1)).base }
  have same : SameThread t r :=
    ⟨down, inside.same.nCcalls.trans entered.nCcalls, inside.same.errfunc.trans entered.errfunc,
      inside.same.allowhook.trans entered.allowhook, inside.same.status.trans entered.status,
      inside.same.errorJmp.trans entered.errorJmp, fun le => inside.same.sizeCi (entered.sizeCi le)⟩
  have base : r.base = (r.baseCi t.ci).base := congrArg (fun j => (e'.baseCi j).base) down
  refine ⟨r, rfl, ⟨same, calls, congrArg _ own, congrArg _ own, base, running.guarded,
    withOpen_chain inside.chain moved, fun id member => .inl ?_⟩, fun positive => ?_⟩
  · have kept := old id member
    exact (entered.opened id kept.1).trans (kept.trans ⟨member, withOpen_level member⟩)
  · have func' : (e'.baseCi e'.ci).func = func := by
      rw [inside.same.ci, inside.func, entered.func]
    have nresults' : (e'.baseCi e'.ci).nresults = nresults := by
      rw [inside.same.ci, inside.nresults, entered.nresults]
    have top : r.top = moved.top := rfl
    rw [top]
    dsimp only [moved, moveResults]
    rw [func', nresults', if_neg (Int.not_lt.mpr positive)]

/-- `luaD_precall` runs a function that keeps to its frame. -/
theorem luaDPrecall_returned (running : Running t) (kept : Keeps false message) {body : RunM Nat}
    (runs : Keeps isLua body) (func : Nat) (nresults : Int) (callee : Callee) :
    Triple (fun r => r = t) (Protected.luaDPrecall isLua func nresults callee message body)
      (fun _ => Returned func nresults t) fun _ => Jumped (t.ci + 1) t := by
  have outside {e r : LuaThread} (entered : Entered func nresults t e) (jumped : Jumped (frozen isLua e) e r) :
      Jumped (t.ci + 1) t r := by
    refine ⟨fun j low => ?_, jumped.status.trans entered.status, ?_, jumped.chain⟩
    · have below : j < frozen isLua e := by
        have entry := entered.ci
        cases isLua with
        | true => exact low.trans_eq entry.symm
        | false => exact Nat.lt_succ_of_lt (low.trans_eq entry.symm)
      exact (jumped.calls j below).trans (entered.calls j (Nat.le_of_lt_succ low))
    · rw [← entered.errorJmp]
      exact jumped.errorJmp
  have whole {e : LuaThread} (entered : Entered func nresults t e) :
      Triple (fun r => r = e) body (fun _ => Inside isLua e) fun _ => Jumped (t.ci + 1) t := by
    refine ((runs e).errors fun _ _ => outside entered).pre fun r same => ?_
    rw [same]
    exact (entered.running running).inside
  cases isLua with
  | true =>
    refine Triple.bind (enterLua_spec running kept func nresults callee) fun _ e entered => ?_
    refine Triple.bind (whole entered) (fun first e' inside => ?_) e rfl
    obtain ⟨new, closed, chain, below⟩ := luaFClose_run inside.chain e'.base
    have inside' : Inside true e { e' with toShared := new } :=
      inside.withShared chain fun id member => .inl (below id member).1
    obtain ⟨r, ran, returned⟩ := luaDPoscall_returned running entered inside'
      (fun id member => inside.closed (below id member).1 (below id member).2) first
    rw [bind_ok (get_run e'), bind_ok closed, ran]
    exact returned
  | false =>
    refine Triple.bind (enterC_spec running kept func nresults callee) fun _ e entered => ?_
    refine Triple.bind (whole entered) (fun first e' inside => ?_) e rfl
    have old : ∀ id ∈ e'.openupval, OldUpval e.toShared e'.toShared id := fun id member =>
      (inside.opened id member).resolve_right nofun
    obtain ⟨r, ran, returned⟩ := luaDPoscall_returned running entered inside old first
    rw [ran]
    exact returned

/-- What was counted on the way in is taken off on the way out. -/
theorem Inside.uncount {t r : LuaThread} (inside : Inside false { t with nCcalls := t.nCcalls + 1 } r) :
    Inside false t { r with nCcalls := r.nCcalls - 1 } where
  same := by
    have same := inside.same
    have count : r.nCcalls - 1 = t.nCcalls := by rw [same.nCcalls, Nat.add_sub_cancel]
    exact ⟨same.ci, count, same.errfunc, same.allowhook, same.status, same.errorJmp, same.sizeCi⟩
  calls := inside.calls
  func := inside.func
  nresults := inside.nresults
  base := inside.base
  guarded := inside.guarded
  chain := inside.chain
  opened := inside.opened

/-- A call counts up and down, or it is one too many. -/
theorem luaDCall_returned (running : Running t) (kept : Keeps false message) {body : RunM Nat}
    (runs : Keeps isLua body) (func : Nat) (nresults : Int) (callee : Callee) :
    Triple (fun r => r = t) (Protected.luaDCall isLua func nresults callee message body)
      (fun _ => Returned func nresults t) fun _ => Jumped (t.ci + 1) t := by
  intro r same
  rw [same]
  let t' : LuaThread := { t with nCcalls := t.nCcalls + 1 }
  have counted : (modify fun s => { s with nCcalls := s.nCcalls + 1 } : RunM PUnit) t = .ok ⟨⟩ t' := rfl
  have running' : Running t' := ⟨running.base, running.guarded, running.chain⟩
  have jumped {r : LuaThread} (jumped : Jumped (t'.ci + 1) t' r) : Jumped (t.ci + 1) t r :=
    ⟨jumped.calls, jumped.status, jumped.errorJmp, jumped.chain⟩
  have called : Triple (fun r => r = t') (do
      Protected.luaDPrecall isLua func nresults callee message body
      modify fun s => { s with nCcalls := s.nCcalls - 1 } : RunM PUnit)
      (fun _ => Returned func nresults t) fun _ => Jumped (t.ci + 1) t := by
    refine Triple.bind ((luaDPrecall_returned running' kept runs func nresults callee).errors
      fun _ _ => jumped) fun _ => Triple.update fun r returned => ?_
    exact ⟨returned.inside.uncount, returned.top⟩
  rw [Protected.luaDCall, bind_ok counted, bind_ok (get_run t')]
  by_cases many : Protected.luaiMaxccalls ≤ t'.nCcalls
  · rw [if_pos many]
    by_cases limit : t'.nCcalls = Protected.luaiMaxccalls
    · rw [if_pos limit]
      obtain ⟨r, raised, after⟩ := running'.raised (luaGRunerror_jumps kept _)
      rw [bind_error raised]
      exact jumped after
    · rw [if_neg limit]
      by_cases beyond : Protected.luaiMaxccalls + Protected.luaiMaxccalls / 8 ≤ t'.nCcalls
      · rw [if_pos beyond]
        obtain ⟨r, raised, after⟩ := running'.raised (luaDThrow_jumps .errErr t')
        rw [bind_error raised]
        exact jumped after
      · rw [if_neg beyond]
        exact called t' rfl
  · rw [if_neg many]
    exact called t' rfl

/-- The frame of a tail call is the one of its caller. -/
theorem replaceFrame_inside {s e : LuaThread} (inside : Inside true s t) {func : Nat} {nresults : Int}
    (entered : Entered func nresults t e) :
    ∃ r, Protected.replaceFrame e = .ok ⟨⟩ r ∧ Inside true s r := by
  have down : e.ci - 1 = s.ci := by rw [entered.ci, Nat.add_sub_cancel, inside.same.ci]
  have previous : e.baseCi (e.ci - 1) = t.baseCi s.ci := by
    rw [down]
    exact entered.calls s.ci inside.same.ci.symm.le
  obtain ⟨new, closed, chain, below⟩ := luaFClose_run entered.chain (e.baseCi (e.ci - 1)).base
  have old {id : Nat} (member : id ∈ new.openupval) : OldUpval s.toShared new id := by
    obtain ⟨kept, lower⟩ := below id member
    rw [previous, ← inside.base] at lower
    exact inside.closed ((entered.opened id kept.1).trans kept) lower
  rw [Protected.replaceFrame, bind_ok (get_run e), bind_ok closed]
  refine ⟨_, rfl, ⟨down, entered.nCcalls.trans inside.same.nCcalls, entered.errfunc.trans inside.same.errfunc,
    entered.allowhook.trans inside.same.allowhook, entered.status.trans inside.same.status,
    entered.errorJmp.trans inside.same.errorJmp, fun le => entered.sizeCi (inside.same.sizeCi le)⟩,
    fun j low => ?_, ?_, ?_, ?_, inside.guarded, withOpen_chain chain _, fun id member => .inl ?_⟩
  · have other : j ≠ e.ci - 1 := by
      rw [down]
      exact Nat.ne_of_lt low
    have lower : j ≤ t.ci := by
      rw [inside.same.ci]
      exact Nat.le_of_lt low
    exact (setAt_other _ _ other).trans ((entered.calls j lower).trans (inside.calls j low))
  · rw [← down]
    refine (congrArg Protected.CallInfo.func (setAt_same _ _ _)).trans ?_
    rw [previous, down]
    exact inside.func
  · rw [← down]
    refine (congrArg Protected.CallInfo.nresults (setAt_same _ _ _)).trans ?_
    rw [previous, down]
    exact inside.nresults
  · rw [← down]
    refine Eq.symm ?_
    exact congrArg Protected.CallInfo.base (setAt_same _ _ _)
  · exact (old member).trans ⟨member, withOpen_level member⟩

/-! ## Garbage collection -/

theorem traversestack_spec (running : Running t) (granted : Bool) :
    Triple (fun r => r = t) (Protected.traversestack granted)
      (fun _ r => Inside false t r ∧ r.toShared = t.toShared) fun _ => Jumped (t.ci + 1) t := by
  intro r same
  rw [same, Protected.traversestack, bind_ok (get_run t)]
  by_cases shrinks : t.sizeCi ≤ luaiMaxcalls ∧ 4 * t.ci < t.sizeCi ∧ 2 * basicCiSize < t.sizeCi
  · rw [if_pos shrinks]
    refine (luaDReallocCI_spec running granted _).conseq (fun _ same => same) (fun _ r same => ?_) t rfl
    rw [same]
    have inside : Inside false t t := running.inside
    have small : t.sizeCi / 2 ≤ luaiMaxcalls := (Nat.div_le_self _ _).trans shrinks.1
    exact ⟨⟨⟨rfl, rfl, rfl, rfl, rfl, rfl, fun _ => small⟩, inside.calls, inside.func, inside.nresults,
      inside.base, inside.guarded, inside.chain, inside.opened⟩, rfl⟩
  · rw [if_neg shrinks]
    exact ⟨running.inside, rfl⟩

/-- A finalizer takes its two values off the stack again. -/
theorem gctm_spec (running : Running t) (kept : Keeps false message) {body : RunM Nat}
    (runs : Keeps isLua body) (callee : Callee) (tm udata : TValue) :
    Triple (fun r => r = t) (Protected.gctm isLua callee tm udata message body)
      (fun _ r => Inside false t r ∧ r.top = t.top) fun _ => Jumped (t.ci + 1) t := by
  intro r same
  rw [same]
  let t₁ : LuaThread := { t with allowhook := false }
  have running₁ : Running t₁ := ⟨running.base, running.guarded, running.chain⟩
  obtain ⟨t₂, pushed, top₂⟩ : ∃ t₂, Protected.push tm t₁ = .ok ⟨⟩ t₂ ∧ t₂.top = t₁.top + 1 := ⟨_, rfl, rfl⟩
  obtain ⟨t₃, pushed', top₃⟩ : ∃ t₃, Protected.push udata t₂ = .ok ⟨⟩ t₃ ∧ t₃.top = t₂.top + 1 := ⟨_, rfl, rfl⟩
  have inside₂ := push_keeps tm t₁ t₁ (running₁.inside : Inside false t₁ t₁)
  rw [pushed] at inside₂
  have inside₃ := push_keeps udata t₁ t₂ inside₂
  rw [pushed'] at inside₃
  have jumped {r : LuaThread} (jumped : Jumped (t₃.ci + 1) t₃ r) : Jumped (t.ci + 1) t r := by
    have after := inside₃.jumped le_rfl jumped
    exact ⟨after.calls, after.status, after.errorJmp, after.chain⟩
  have called := (luaDCall_returned inside₃.running kept runs (t₃.top - 2) 0 callee).errors
    (E := fun _ => Jumped (t.ci + 1) t) fun _ _ => jumped
  have disabled : (modify fun s => { s with allowhook := false } : RunM PUnit) t = .ok ⟨⟩ t₁ := rfl
  rw [Protected.gctm, bind_ok (get_run t), bind_ok disabled, bind_ok pushed, bind_ok pushed', bind_ok (get_run t₃)]
  refine Triple.bind called (fun _ => Triple.update fun r returned => ?_) t₃ rfl
  have inside := inside₃.trans returned.inside
  refine ⟨⟨⟨inside.same.ci, inside.same.nCcalls, inside.same.errfunc, rfl, inside.same.status,
    inside.same.errorJmp, inside.same.sizeCi⟩, inside.calls, inside.func, inside.nresults, inside.base,
    inside.guarded, inside.chain, inside.opened⟩, ?_⟩
  have top := returned.top le_rfl
  rw [top₃, top₂] at top
  exact top

/-! ## What runs -/

theorem Keeps.shared {f : Shared → RunM α} (rest : ∀ sh, Keeps isLua (f sh)) :
    Keeps isLua (Protected.getShared >>= f) := fun s t inside => rest t.toShared s t inside

/-- A function keeps to its frame. -/
theorem body_keeps (b : Body isLua) : Keeps isLua b.run := by
  induction b with
  | ret firstResult => exact .shared fun _ => .ret _
  | compute f next ih => exact (compute_keeps f).bind fun _ => .shared ih
  | findupval r next ih =>
    intro s t inside
    obtain ⟨t', ran, inside'⟩ := luaFFindupval_inside inside r
    rw [Body.run, bind_ok (get_run t), bind_ok ran]
    exact ih t'.toShared s t' inside'
  | close r next ih =>
    rw [Body.run]
    exact .get_bind fun t => (luaFClose_keeps _).bind fun _ => .shared ih
  | call counted calleeIsLua func nresults callee message body next messageIh bodyIh ih =>
    rw [Body.run]
    refine .shared fun sh => ?_
    cases counted with
    | true =>
      refine Keeps.bind (.of_running fun t running => ?_) fun _ => .shared ih
      exact (luaDCall_returned running messageIh bodyIh _ _ _).conseq (fun _ same => same)
        fun _ _ returned => returned.inside
    | false =>
      refine Keeps.bind (.of_running fun t running => ?_) fun _ => .shared ih
      exact (luaDPrecall_returned running messageIh bodyIh _ _ _).conseq (fun _ same => same)
        fun _ _ returned => returned.inside
  | tailcall func callee message body messageIh bodyIh =>
    intro s t inside
    have entry := (enterLua_spec inside.running messageIh (func t.toShared) luaMultret callee).errors
      (E := fun _ => Jumped (frozen true s) s) fun _ _ => inside.jumped le_rfl
    refine Triple.bind entry (fun _ e entered => ?_) t rfl
    obtain ⟨r, ran, inside'⟩ := replaceFrame_inside inside entered
    rw [bind_ok ran]
    exact bodyIh s r inside'
  | traversestack granted next ih =>
    refine Keeps.bind (.of_running fun t running => ?_) fun _ => .shared ih
    exact (traversestack_spec running granted).conseq (fun _ same => same) fun _ _ both => both.1
  | gctm calleeIsLua callee tm udata message body next messageIh bodyIh ih =>
    refine Keeps.bind (.of_running fun t running => ?_) fun _ => .shared ih
    exact (gctm_spec running messageIh bodyIh callee tm udata).conseq (fun _ same => same) fun _ _ both => both.1
  | raise errcode next ih => exact (luaDThrow_keeps errcode).bind fun _ => .shared ih

end Operations

end Lunatik.Verified.CallFrames
