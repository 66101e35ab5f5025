import Lunatik.Core.JobRun
import Lunatik.Verified.CallFrames

/-! # A job leaves its context as it found it

What runs under a protected call leaves the first `CallInfo`s and the chain of jump buffers alone, so
`luaD_pcall` can go back to where it was, after a return and after an error.  A job is two protected calls,
a look at the result and a pop.
-/

namespace Lunatik.Verified.CallFrames

open Lunatik.Lua Lunatik.Core.JobRun Lunatik.Library
open Protected (LuaThread RunM Callee Body ErrCode GcStep Parser Chunk)

variable {α : Type}

/-! ## C code in the frame of its caller -/

/-- `t` is reached by C code from `s`, with its top at `n`. -/
def At (s : LuaThread) (n : Nat) (t : LuaThread) : Prop := Inside false s t ∧ t.top = n

/-- The code takes the top from `n` to `k`, or raises an error. -/
def Moves (s : LuaThread) (n : Nat) (m : RunM α) (k : Nat) : Prop :=
  Triple (At s n) m (fun _ => At s k) fun _ => Jumped (s.ci + 1) s

theorem Moves.bind {s : LuaThread} {n k l : Nat} {β : Type} {m : RunM α} {f : α → RunM β}
    (first : Moves s n m k) (rest : ∀ a, Moves s k (f a) l) : Moves s n (m >>= f) l := Triple.bind first rest

theorem Moves.ret {s : LuaThread} {n : Nat} (a : α) : Moves s n (pure a : RunM α) n := Triple.ret fun _ here => here

theorem Moves.shared {s : LuaThread} {n k : Nat} {f : Shared → RunM α} (rest : ∀ sh, Moves s n (f sh) k) :
    Moves s n (Protected.getShared >>= f) k := fun t here => rest t.toShared t here

/-- It is enough to look at what happens from a state on. -/
theorem Moves.of_running {s : LuaThread} {n : Nat} {m : RunM α} (h : ∀ t, Running t →
    Triple (fun r => r = t) m (fun _ r => Inside false t r ∧ r.top = t.top) fun _ => Jumped (t.ci + 1) t) :
    Moves s n m n := by
  rintro t ⟨inside, top⟩
  have result := h t inside.running t rfl
  cases ran : m t with
  | ok a r =>
    rw [ran] at result
    exact ⟨inside.trans result.1, result.2.trans top⟩
  | error e r =>
    rw [ran] at result
    exact inside.jumped le_rfl result

variable {s : LuaThread} {n : Nat}

theorem compute_moves {f : Shared → Shared} {k : Nat} (top : ∀ sh, sh.top = n → (f sh).top = k) :
    Moves s n (Protected.compute f) k :=
  fun t here => ⟨compute_keeps f s t here.1, top t.toShared here.2⟩

theorem push_moves (v : TValue) : Moves s n (Protected.push v) (n + 1) :=
  compute_moves fun _ top => congrArg (· + 1) top

theorem pop_moves (k : Nat) : Moves s n (Protected.pop k) (n - k) :=
  compute_moves fun _ top => congrArg (· - k) top

theorem pushAll_moves (values : List TValue) : Moves s n (Protected.pushAll values) (n + values.length) := by
  induction values generalizing n with
  | nil => exact .ret _
  | cons v rest ih =>
    have moved := (push_moves (s := s) (n := n) v).bind fun _ => ih
    rwa [Nat.add_right_comm] at moved

theorem luaDThrow_moves (code : ErrCode) (k : Nat) : Moves s n (Protected.luaDThrow code) k :=
  Triple.conseq (luaDThrow_jumps code s) (fun _ here => here.1) fun _ _ impossible => impossible.elim

theorem luaXLexerror_moves (message : List TValue) (code : ErrCode) (k : Nat) :
    Moves s n (Protected.luaXLexerror message code) k :=
  (pushAll_moves message).bind fun _ => luaDThrow_moves code k

theorem luaCCheckGC_moves (gc : List GcStep) : Moves s n (Protected.luaCCheckGC gc) n := by
  induction gc with
  | nil => exact .ret _
  | cons step rest ih =>
    refine Moves.bind (.of_running fun t running => ?_) fun _ => ih
    cases step with
    | traversestack granted =>
      exact (traversestack_spec running granted).conseq (fun _ same => same)
        fun _ _ both => ⟨both.1, congrArg Shared.top both.2⟩
    | gctm calleeIsLua callee tm udata message body =>
      exact gctm_spec running (body_keeps message) (body_keeps body) callee tm udata

/-! ## The parser -/

theorem luaFNewupvals_moves (count : Nat) : Moves s n (Protected.luaFNewupvals count) n :=
  fun t here => ⟨luaFNewupvals_keeps count s t here.1, here.2⟩

/-- A level that the parser has entered is left, or an error is raised. -/
theorem level_moves (message : TValue) {inner : RunM PUnit} (runs : ∀ s n, Moves s n inner n) :
    Moves s n (do
      Protected.enterlevel message
      inner
      Protected.leavelevel) n := by
  refine .of_running fun t running => ?_
  intro r same
  rw [same]
  let t' : LuaThread := { t with nCcalls := t.nCcalls + 1 }
  have running' : Running t' := ⟨running.base, running.guarded, running.chain⟩
  have here : At t' t'.top t' := ⟨running'.inside, rfl⟩
  have counted : (modify fun s => { s with nCcalls := s.nCcalls + 1 } : RunM PUnit) t = .ok ⟨⟩ t' := rfl
  have jumped (e : PUnit) (r : LuaThread) (jumped : Jumped (t'.ci + 1) t' r) : Jumped (t.ci + 1) t r :=
    ⟨jumped.calls, jumped.status, jumped.errorJmp, jumped.chain⟩
  have limited : Moves t' t'.top
      (if Protected.luaiMaxccalls < t'.nCcalls then Protected.luaXLexerror [message] .errSyntax else pure ⟨⟩)
      t'.top := by
    by_cases many : Protected.luaiMaxccalls < t'.nCcalls
    · rw [if_pos many]
      exact luaXLexerror_moves _ _ _
    · rw [if_neg many]
      exact .ret _
  have whole := Triple.bind (limited.errors jumped) fun _ =>
    Triple.bind ((runs t' t'.top).errors jumped) fun _ =>
      Triple.update (f := fun s => { s with nCcalls := s.nCcalls - 1 })
        (Q := fun _ r => Inside false t r ∧ r.top = t.top) fun _ inner => ⟨inner.1.uncount, inner.2⟩
  rw [Protected.enterlevel, bind_assoc, bind_ok counted, bind_assoc, bind_ok (get_run t')]
  exact whole t' here

theorem parser_moves (p : Parser) : Moves s n p.run n := by
  induction p generalizing s n with
  | done => exact .ret _
  | compute f next ih =>
    refine Moves.bind (compute_moves (f := fun s => { f s with top := s.top }) fun _ top => top) fun _ => ?_
    exact .shared fun sh => ih sh
  | level message inner next innerIh ih =>
    have level := level_moves (s := s) (n := n) message fun s n => innerIh (s := s) (n := n)
    have whole := level.bind fun _ => Moves.shared fun sh => ih sh (s := s) (n := n)
    simp only [bind_assoc] at whole
    exact whole
  | anchored values inner next innerIh ih =>
    refine (pushAll_moves values).bind fun _ => innerIh.bind fun _ => ?_
    have popped := pop_moves (s := s) (n := n + values.length) values.length
    rw [Nat.add_sub_cancel] at popped
    exact popped.bind fun _ => .shared fun sh => ih sh
  | checkGC gc next ih => exact (luaCCheckGC_moves gc).bind fun _ => .shared fun sh => ih sh
  | raise message errcode next ih =>
    exact (luaXLexerror_moves message errcode n).bind fun _ => .shared fun sh => ih sh

theorem fParser_moves (chunk : Chunk) : Moves s n (Protected.fParser chunk) (n + 1) := by
  have built : Moves s n (do
      let made := chunk.closure (← Protected.getShared)
      Protected.compute fun s => { made.1 with stack := s.stack, top := s.top }
      Protected.luaFNewupvals chunk.nups
      Protected.push made.2) (n + 1) := by
    refine .shared fun sh => ?_
    refine Moves.bind (compute_moves (f := fun s => { (chunk.closure sh).1 with stack := s.stack, top := s.top })
      fun _ top => top) fun _ => ?_
    exact (luaFNewupvals_moves _).bind fun _ => push_moves _
  refine (luaCCheckGC_moves _).bind fun _ => (parser_moves _).bind fun _ => ?_
  cases chunk.granted with
  | true => exact built
  | false => exact (luaDThrow_moves .errMem n).bind fun _ => built

/-- The main function is called, and its results are adjusted. -/
theorem fCall_spec (chunk : Chunk) (func results : Nat) {t : LuaThread} (running : Running t) :
    Triple (fun r => r = t) (Protected.fCall chunk func results)
      (fun _ => At t (func + results)) fun _ => Jumped (t.ci + 1) t := by
  have called := luaDCall_returned running (body_keeps chunk.message) (body_keeps chunk.main) func results chunk.callee
  refine Triple.bind (called.conseq (fun _ same => same) fun _ r returned => ?_) fun _ => luaCCheckGC_moves chunk.after
  exact ⟨returned.inside, returned.top (Int.natCast_nonneg results)⟩

/-! ## Protected calls -/

/-- Between two jobs, and between the two protected calls of one. -/
structure Idle (limit : Nat) (s : LuaThread) : Prop where
  base : s.base = (s.baseCi s.ci).base
  depth : s.ci + 1 < luaiMaxcalls
  sizeCi : s.sizeCi ≤ luaiMaxcalls
  chain : OpenChain s.toShared
  opened : ∀ id ∈ s.openupval, levelOf s.toShared id < limit

/-- The fields that a job leaves as they are. -/
structure AsBefore (s r : LuaThread) : Prop where
  ci : r.ci = s.ci
  base : r.base = s.base
  nCcalls : r.nCcalls = s.nCcalls
  errfunc : r.errfunc = s.errfunc
  errorJmp : r.errorJmp = s.errorJmp
  allowhook : r.allowhook = s.allowhook
  status : r.status = s.status

theorem AsBefore.refl (s : LuaThread) : AsBefore s s := ⟨rfl, rfl, rfl, rfl, rfl, rfl, rfl⟩

-- the other fields do not matter
theorem AsBefore.same {s t r : LuaThread} (before : AsBefore s t)
    (same : (r.ci, r.base, r.nCcalls, r.errfunc, r.errorJmp, r.allowhook, r.status) =
      (t.ci, t.base, t.nCcalls, t.errfunc, t.errorJmp, t.allowhook, t.status)) : AsBefore s r := by
  simp only [Prod.mk.injEq] at same
  obtain ⟨ci, base, nCcalls, errfunc, errorJmp, allowhook, status⟩ := same
  exact ⟨ci.trans before.ci, base.trans before.base, nCcalls.trans before.nCcalls,
    errfunc.trans before.errfunc, errorJmp.trans before.errorJmp, allowhook.trans before.allowhook,
    status.trans before.status⟩

theorem AsBefore.trans {s t r : LuaThread} (first : AsBefore s t) (second : AsBefore t r) : AsBefore s r :=
  ⟨second.ci.trans first.ci, second.base.trans first.base, second.nCcalls.trans first.nCcalls,
    second.errfunc.trans first.errfunc, second.errorJmp.trans first.errorJmp,
    second.allowhook.trans first.allowhook, second.status.trans first.status⟩

theorem restoreStackLimit_spec {t : LuaThread} (depth : t.ci + 1 < luaiMaxcalls) : ∃ sizeCi,
    Protected.restoreStackLimit t = .ok ⟨⟩ { t with sizeCi } ∧ sizeCi ≤ luaiMaxcalls := by
  rw [Protected.restoreStackLimit, modify_run]
  by_cases overflow : luaiMaxcalls < t.sizeCi
  · rw [if_pos ⟨overflow, depth⟩]
    exact ⟨_, rfl, le_rfl⟩
  · rw [if_neg fun both => overflow both.1]
    exact ⟨_, rfl, Nat.le_of_not_lt overflow⟩

theorem compute_run (f : Shared → Shared) (t : LuaThread) : Protected.compute f t =
    .ok ⟨⟩ { t with toShared := Protected.withOpen t.toShared (f t.toShared) } := rfl

theorem luaDSeterrorobj_run (errcode oldtop : Nat) (t : LuaThread) : ∃ new : Shared,
    Protected.luaDSeterrorobj errcode oldtop t = .ok ⟨⟩ { t with toShared := Protected.withOpen t.toShared new } ∧
    new.top = oldtop + 1 := by
  rw [Protected.luaDSeterrorobj, compute_run]
  exact ⟨_, rfl, rfl⟩

/-- After an error, what `luaD_pcall` has saved is there again. -/
theorem recover_spec {limit : Nat} {s t : LuaThread} (idle : Idle limit s)
    (calls : ∀ j < s.ci + 1, t.baseCi j = s.baseCi j) (chain : OpenChain t.toShared) (status : Nat) :
    ∃ r, Protected.recover s status limit t = .ok ⟨⟩ r ∧ Idle limit r ∧ r.top = limit + 1 ∧
      AsBefore { t with ci := s.ci, base := s.base, nCcalls := s.nCcalls, allowhook := s.allowhook } r := by
  obtain ⟨new, closed, chain', below⟩ := luaFClose_run chain limit
  obtain ⟨new', set, top⟩ := luaDSeterrorobj_run status limit { t with toShared := new }
  let back : LuaThread :=
    { t with
      toShared := Protected.withOpen new new'
      nCcalls := s.nCcalls
      ci := s.ci
      base := (t.baseCi s.ci).base
      allowhook := s.allowhook }
  obtain ⟨sizeCi, restored, small⟩ := restoreStackLimit_spec (t := back) idle.depth
  have own : (t.baseCi s.ci).base = s.base := by rw [calls s.ci (Nat.lt_succ_self _), idle.base]
  refine ⟨{ back with sizeCi }, ?_, ?_, top, ?_⟩
  · rw [Protected.recover, bind_ok closed, bind_ok set]
    exact restored
  · refine ⟨rfl, idle.depth, small, withOpen_chain chain' _, fun id member => ?_⟩
    have kept : levelOf (Protected.withOpen new new') id = levelOf new id := withOpen_level member
    exact kept.trans_lt (below id member).2
  · exact ⟨rfl, own, rfl, rfl, rfl, rfl, rfl⟩

/-- `luaD_pcall` runs a function that leaves one value, and ends with one value in any case. -/
theorem luaDPcall_spec {limit : Nat} {s : LuaThread} (idle : Idle limit s) {f : RunM PUnit} (ef : Nat)
    (runs : ∀ t, Running t → t.toShared = s.toShared →
      Triple (fun r => r = t) f (fun _ => At t (limit + 1)) fun _ => Jumped (t.ci + 1) t) :
    ∃ status r, Protected.luaDPcall f limit ef s = .ok status r ∧ AsBefore s r ∧ Idle limit r ∧
      r.top = limit + 1 := by
  let t : LuaThread := { s with errfunc := ef, errorJmp := 0 :: s.errorJmp }
  have running : Running t := ⟨idle.base, List.cons_ne_nil _ _, idle.chain⟩
  have result := runs t running rfl t rfl
  have armed : (modify fun s => { s with errfunc := ef } : RunM PUnit) s = .ok ⟨⟩ { s with errfunc := ef } := rfl
  cases ran : f t with
  | ok a r =>
    rw [ran] at result
    obtain ⟨inside, top⟩ := result
    have same := inside.same
    have caught : Protected.luaDRawrunprotected f { s with errfunc := ef } =
        .ok 0 { r with errorJmp := s.errorJmp } := by
      dsimp only [Protected.luaDRawrunprotected]
      rw [ran]
      have status : r.errorJmp.headD 0 = 0 := by
        rw [same.errorJmp]
        rfl
      exact congrArg (EStateM.Result.ok · _) status
    refine ⟨0, { r with errorJmp := s.errorJmp, errfunc := s.errfunc }, ?_, ?_, ?_, top⟩
    · rw [Protected.luaDPcall, bind_ok (get_run s), bind_ok armed, bind_ok caught]
      rfl
    · have base : r.base = s.base := by
        rw [inside.base, inside.calls s.ci (Nat.lt_succ_self _), idle.base]
      exact ⟨same.ci, base, same.nCcalls, rfl, rfl, same.allowhook, same.status⟩
    · have depth : r.ci + 1 < luaiMaxcalls := by
        rw [same.ci]
        exact idle.depth
      have base : r.base = (r.baseCi r.ci).base := inside.running.base
      refine ⟨base, depth, same.sizeCi idle.sizeCi, inside.chain, fun id member => ?_⟩
      have old := (inside.opened id member).resolve_right nofun
      exact old.2.trans_lt (idle.opened id old.1)
  | error e r =>
    rw [ran] at result
    obtain ⟨code, chain⟩ := result.errorJmp
    have caught : Protected.luaDRawrunprotected f { s with errfunc := ef } =
        .ok code.status { r with errorJmp := s.errorJmp } := by
      dsimp only [Protected.luaDRawrunprotected]
      rw [ran]
      have status : r.errorJmp.headD 0 = code.status := by
        rw [chain]
        rfl
      exact congrArg (EStateM.Result.ok · _) status
    have failed : code.status ≠ 0 := by
      cases code with
      | _ => decide
    obtain ⟨r', recovered, idle', top, same⟩ :=
      recover_spec (t := { r with errorJmp := s.errorJmp }) idle result.calls result.chain code.status
    refine ⟨code.status, { r' with errfunc := s.errfunc }, ?_, ?_, ?_, top⟩
    · rw [Protected.luaDPcall, bind_ok (get_run s), bind_ok armed, bind_ok caught, if_pos failed]
      rw [bind_ok recovered]
      rfl
    · exact ⟨same.ci, same.base, same.nCcalls, rfl, same.errorJmp, same.allowhook, same.status.trans result.status⟩
    · exact ⟨idle'.base, idle'.depth, idle'.sizeCi, idle'.chain, idle'.opened⟩

/-! ## Between the protected calls -/

/-- `t` is `s` again, with its top at `n`. -/
structure Settled (limit : Nat) (s : LuaThread) (n : Nat) (t : LuaThread) : Prop where
  before : AsBefore s t
  idle : Idle limit t
  top : t.top = n

/-- Code that raises no error and takes the top from `n` to `k`. -/
def Stays (limit : Nat) (s : LuaThread) (n : Nat) (m : RunM α) (k : Nat) : Prop :=
  Triple (Settled limit s n) m (fun _ => Settled limit s k) fun _ _ => False

variable {limit : Nat}

theorem Stays.bind {k l : Nat} {β : Type} {m : RunM α} {f : α → RunM β} (first : Stays limit s n m k)
    (rest : ∀ a, Stays limit s k (f a) l) : Stays limit s n (m >>= f) l := Triple.bind first rest

theorem Stays.ret (a : α) : Stays limit s n (pure a : RunM α) n := Triple.ret fun _ settled => settled

theorem Stays.get_bind {k : Nat} {f : LuaThread → RunM α} (rest : ∀ t, Stays limit s n (f t) k) :
    Stays limit s n (get >>= f) k := fun t settled => rest t t settled

theorem Stays.runs {k : Nat} {m : RunM α} {t : LuaThread} (stays : Stays limit s n m k)
    (settled : Settled limit s n t) : ∃ a r, m t = .ok a r ∧ Settled limit s k r := by
  have result := stays t settled
  cases ran : m t with
  | ok a r =>
    rw [ran] at result
    exact ⟨a, r, rfl, result⟩
  | error e r =>
    rw [ran] at result
    exact result.elim

theorem compute_stays {f : Shared → Shared} {k : Nat} (top : ∀ sh, sh.top = n → (f sh).top = k) :
    Stays limit s n (Protected.compute f) k := by
  intro t settled
  refine ⟨settled.before.same rfl, ⟨settled.idle.base, settled.idle.depth, settled.idle.sizeCi,
    withOpen_chain settled.idle.chain _, fun id member => ?_⟩, top t.toShared settled.top⟩
  have kept : levelOf (Protected.withOpen t.toShared (f t.toShared)) id = levelOf t.toShared id :=
    withOpen_level member
  exact kept.trans_lt (settled.idle.opened id member)

theorem push_stays (v : TValue) : Stays limit s n (Protected.push v) (n + 1) :=
  compute_stays fun _ top => congrArg (· + 1) top

theorem pop_stays (k : Nat) : Stays limit s n (Protected.pop k) (n - k) :=
  compute_stays fun _ top => congrArg (· - k) top

theorem traverses_stays (count : Nat) : Stays limit s n (traverses count) n := by
  induction count with
  | zero => exact .ret _
  | succ count ih =>
    refine Stays.bind (fun t settled => ?_) fun _ => ih
    rw [Protected.traversestack, bind_ok (get_run t)]
    by_cases shrinks : t.sizeCi ≤ luaiMaxcalls ∧ 4 * t.ci < t.sizeCi ∧ 2 * basicCiSize < t.sizeCi
    · rw [if_pos shrinks]
      have small : t.sizeCi / 2 ≤ luaiMaxcalls := (Nat.div_le_self _ _).trans shrinks.1
      exact ⟨settled.before.same rfl, ⟨settled.idle.base, settled.idle.depth, small, settled.idle.chain,
        settled.idle.opened⟩, settled.top⟩
    · rw [if_neg shrinks]
      exact settled

theorem luaTolstring_stays (outer : Surroundings) : Stays limit s n (luaTolstring outer) n := by
  refine .get_bind fun t => ?_
  split
  · refine Stays.bind (k := n) (compute_stays fun _ top => ?_) fun _ => traverses_stays _
    exact top
  · exact .ret _

theorem luaRawget_stays : Stays limit s n luaRawget n := compute_stays fun sh top => by
  split
  · exact top
  · exact top

theorem luaGetmetatable_stays {f : Bool → RunM α} {k : Nat} (found : Stays limit s (n + 1) (f true) k)
    (missing : Stays limit s n (f false) k) : Stays limit s n (luaGetmetatable >>= f) k := by
  rw [Core.JobRun.luaGetmetatable, bind_assoc]
  refine .get_bind fun t => ?_
  split
  · split
    · exact missing
    · rw [bind_assoc]
      exact (push_stays _).bind fun _ => found
  · exact missing

/-- The field is one value more, if there is one. -/
theorem luaLGetmetafield_stays (outer : Surroundings) (event : String) {f : Bool → RunM α} {k : Nat}
    (found : Stays limit s (n + 1) (f true) k) (missing : Stays limit s n (f false) k) :
    Stays limit s n (luaLGetmetafield outer event >>= f) k := by
  rw [luaLGetmetafield, bind_assoc]
  refine luaGetmetatable_stays ?_ missing
  rw [if_pos rfl, luaPushstring]
  simp only [bind_assoc]
  refine (traverses_stays _).bind fun _ => (push_stays _).bind fun _ => luaRawget_stays.bind fun _ =>
    .get_bind fun t => ?_
  split
  · rw [bind_assoc]
    exact (pop_stays 2).bind fun _ => missing
  · rw [Core.JobRun.luaRemove]
    simp only [bind_assoc]
    refine Stays.bind (k := n + 1 + 1) (compute_stays fun _ top => top) fun _ => (pop_stays 1).bind fun _ => found

theorem lunatikResultGet_stays (outer : Surroundings) : Stays limit s n (lunatikResultGet outer) n := by
  refine .get_bind fun t => ?_
  split
  · cases outer.granted with
    | true =>
      refine luaLGetmetafield_stays outer "__name" ?_ ?_
      · exact (luaTolstring_stays outer).bind fun _ => pop_stays 1
      · exact .ret _
    | false => exact .ret _
  · exact luaTolstring_stays outer
  · exact .ret _

/-! ## A job -/

theorem Idle.settled {s : LuaThread} (idle : Idle limit s) : Settled limit s s.top s := ⟨.refl s, idle, rfl⟩

theorem luaDProtectedparser_settles (chunk : Chunk) {s : LuaThread} (idle : Idle s.top s) :
    ∃ status r, Protected.luaDProtectedparser chunk s = .ok status r ∧ Settled s.top s (s.top + 1) r := by
  obtain ⟨status, r, ran, before, idle', top⟩ := luaDPcall_spec idle s.errfunc (f := Protected.fParser chunk)
    fun t running same => by
      have here : t.top = s.top := congrArg Shared.top same
      refine Triple.pre (fParser_moves (s := t) (n := s.top) chunk) fun r same => ?_
      rw [same]
      exact ⟨running.inside, here⟩
  exact ⟨status, r, ran, before, idle', top⟩

/-- The function is taken off the stack, and its result or the message of an error is left. -/
theorem luaPcall_settles (chunk : Chunk) {s t : LuaThread} (settled : Settled limit s (limit + 1) t) :
    ∃ status r, Protected.luaPcall chunk 0 1 t = .ok status r ∧ Settled limit s (limit + 1) r := by
  have func : t.top - (0 + 1) = limit := by
    rw [settled.top]
    exact Nat.add_sub_cancel _ _
  obtain ⟨status, r, ran, before, idle, top⟩ := luaDPcall_spec settled.idle 0 (f := Protected.fCall chunk limit 1)
    fun t running _ => fCall_spec chunk limit 1 running
  refine ⟨status, r, ?_, settled.before.trans before, idle, top⟩
  rw [Protected.luaPcall, bind_ok (get_run t), func, bind_ok ran]
  rfl

/-- What holds of the thread when a job starts holds when it is done, and the job leaves the thread as it
found it. -/
theorem job_settles (chunk : Chunk) (needResult debug : Bool) (outer : Surroundings) {s : LuaThread}
    (idle : Idle s.top s) : ∃ ret r, loadcodeInternal chunk needResult debug outer s = .ok ret r ∧
      Settled s.top s s.top r := by
  have looked (ret : Nat) : Stays s.top s (s.top + 1) (do
      if needResult || debug then lunatikResultGet outer
      Protected.pop 1
      return ret) s.top := by
    by_cases looks : (needResult || debug) = true
    · rw [if_pos looks]
      exact (lunatikResultGet_stays outer).bind fun _ => (pop_stays 1).bind fun _ => .ret _
    · rw [if_neg looks]
      exact (pop_stays 1).bind fun _ => .ret _
  obtain ⟨status, t, parsed, settled⟩ := luaDProtectedparser_settles chunk idle
  rw [loadcodeInternal, bind_ok parsed]
  by_cases ok : status = 0
  · obtain ⟨status', t', called, settled'⟩ := luaPcall_settles chunk settled
    rw [if_pos ok, bind_ok called]
    exact (looked status').runs settled'
  · rw [if_neg ok]
    exact (looked status).runs settled

/-- A job leaves the thread as it found it. -/
theorem job_restores_thread (chunk : Chunk) (needResult debug : Bool) (outer : Surroundings) {s : LuaThread}
    (idle : Idle s.top s) : ∃ ret r, loadcodeInternal chunk needResult debug outer s = .ok ret r ∧
      AsBefore s r ∧ r.top - r.base = s.top - s.base ∧
      (∀ id ∈ r.openupval, levelOf r.toShared id < s.top) ∧ r.sizeCi ≤ luaiMaxcalls ∧ Idle r.top r := by
  obtain ⟨ret, r, ran, settled⟩ := job_settles chunk needResult debug outer idle
  have height : r.top - r.base = s.top - s.base := by rw [settled.top, settled.before.base]
  refine ⟨ret, r, ran, settled.before, height, settled.idle.opened, settled.idle.sizeCi, ?_⟩
  rw [settled.top]
  exact settled.idle

/-- However many jobs there were, the thread is the one that they started on. -/
theorem loadcodes_settle (jobs : List (Chunk × Bool × Bool × Surroundings)) {s : LuaThread}
    (idle : Idle s.top s) : ∃ r, loadcodes jobs s = .ok ⟨⟩ r ∧ Settled s.top s s.top r := by
  induction jobs generalizing s with
  | nil => exact ⟨s, rfl, idle.settled⟩
  | cons job rest ih =>
    obtain ⟨chunk, needResult, debug, outer⟩ := job
    obtain ⟨ret, t, ran, settled⟩ := job_settles chunk needResult debug outer idle
    have idle' : Idle t.top t := by
      rw [settled.top]
      exact settled.idle
    obtain ⟨r, ran', settled'⟩ := ih idle'
    rw [settled.top] at settled'
    rw [loadcodes, bind_ok ran]
    exact ⟨r, ran', settled.before.trans settled'.before, settled'.idle, settled'.top⟩

theorem luaNewstate_idle (heap : Heap) (panic : Bool) :
    Idle (Protected.luaNewstate heap panic).top (Protected.luaNewstate heap panic) := by
  have depth : 0 + 1 < luaiMaxcalls := by decide
  have sizeCi : basicCiSize ≤ luaiMaxcalls := by decide
  exact ⟨rfl, depth, sizeCi, ⟨.nil, .nil, nofun⟩, nofun⟩

/-- The main function grows the stack by two values, calls the first one, and the callee raises an error
for memory after it has called a function that raises nothing. -/
def failingChunk : Chunk where
  gc := []
  parser := .level (.string (literal "")) (.anchored [.nil] .done fun _ => .done) fun _ => .done
  closure := fun s => (s, .nil)
  nups := 0
  granted := true
  callee := { arguments := id, moved := fun _ => 0, maxstacksize := 2, granted := true }
  message := .ret fun s => s.top
  main :=
    .findupval 0 fun _ =>
      .call false true (fun s => s.top - 1) 1
        { arguments := id, moved := fun _ => 0, maxstacksize := 2, granted := true } (.ret fun s => s.top)
        (.findupval 1 fun _ => .raise .errMem fun _ => .ret fun s => s.top) fun _ => .ret fun s => s.top
  after := []

theorem failing_job_restores : ∃ ret r,
    loadcodeInternal failingChunk true false ⟨true, 0, 0⟩ (Protected.luaNewstate emptyHeap false) = .ok ret r ∧
      AsBefore (Protected.luaNewstate emptyHeap false) r ∧
      r.top - r.base = (Protected.luaNewstate emptyHeap false).top - (Protected.luaNewstate emptyHeap false).base ∧
      (∀ id ∈ r.openupval, levelOf r.toShared id < (Protected.luaNewstate emptyHeap false).top) ∧
      r.sizeCi ≤ luaiMaxcalls ∧ Idle r.top r :=
  job_restores_thread failingChunk true false ⟨true, 0, 0⟩
    ⟨rfl, by decide, by decide, ⟨.nil, .nil, nofun⟩, nofun⟩

end Lunatik.Verified.CallFrames
