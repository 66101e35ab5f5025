import Lunatik.Lua.Throw
import Lunatik.Library.StateRuns

/-! # Errors that fall through

Every place that raises an error is written as if `luaD_throw` did not return.  Under a protected
call it does not; without one it does, since `exit` is `return` and the panic function returns.
-/

namespace Lunatik.Verified

open Lunatik.Lua Lunatik.Library

variable {α β : Type} {s : ErrState}

/-! ## How a program ends -/

/-- The program restores the chain of jump buffers when it returns, and jumps only when there is a
    buffer.  It passes no point of `luaI_openlib`. -/
structure Disciplined (m : ThrowM α) : Prop where
  returned : ∀ s a t, m s = .ok a t → t.errorJmp = s.errorJmp ∧ t.log = s.log
  jumped : ∀ s e t, m s = .error e t → s.errorJmp ≠ [] ∧ t.log = s.log

/-- Under a protected call the program does not return. -/
def Leaves (m : ThrowM α) : Prop := ∀ s, s.errorJmp ≠ [] → ∃ t, m s = .error ⟨⟩ t ∧ t.log = s.log

theorem Disciplined.pure (a : α) : Disciplined (pure a : ThrowM α) where
  returned := fun s b t ran => by
    cases ran
    exact ⟨rfl, rfl⟩
  jumped := fun s e t ran => by cases ran

theorem Disciplined.bind {m : ThrowM α} {f : α → ThrowM β} (first : Disciplined m)
    (second : ∀ a, Disciplined (f a)) :
    Disciplined (m >>= f) where
  returned := by
    intro s b t ran
    rw [bind_run] at ran
    cases here : m s with
    | ok a s' =>
      rw [here] at ran
      obtain ⟨jmp, log⟩ := first.returned s a s' here
      obtain ⟨jmp', log'⟩ := (second a).returned s' b t ran
      exact ⟨jmp'.trans jmp, log'.trans log⟩
    | error e s' =>
      rw [here] at ran
      cases ran
  jumped := by
    intro s e t ran
    rw [bind_run] at ran
    cases here : m s with
    | ok a s' =>
      rw [here] at ran
      obtain ⟨jmp, log⟩ := first.returned s a s' here
      obtain ⟨some, log'⟩ := (second a).jumped s' e t ran
      exact ⟨jmp ▸ some, log'.trans log⟩
    | error e' s' =>
      rw [here] at ran
      cases ran
      exact first.jumped s _ _ here

theorem Disciplined.get : Disciplined (MonadState.get : ThrowM ErrState) where
  returned := fun s b t ran => by
    cases ran
    exact ⟨rfl, rfl⟩
  jumped := fun s e t ran => by cases ran

theorem Disciplined.act (f : Thread → Thread) :
    Disciplined (modify fun s => { s with toThread := f s.toThread } : ThrowM PUnit) where
  returned := fun s b t ran => by
    cases ran
    exact ⟨rfl, rfl⟩
  jumped := fun s e t ran => by cases ran

theorem luaDThrow_jumps {e : Nat} {previous : List Nat} (buffer : s.errorJmp = e :: previous)
    (errcode : Nat) :
    luaDThrow errcode s = .error ⟨⟩ { s with errorJmp := errcode :: previous } := by
  rw [luaDThrow, bind_ok (get_run s), buffer]
  rfl

/-- Without a jump buffer `luaD_throw` returns. -/
theorem luaDThrow_returns (none : s.errorJmp = []) (errcode : Nat) :
    ∃ t, luaDThrow errcode s = .ok ⟨⟩ t ∧ t.errorJmp = [] ∧ t.log = s.log := by
  rw [luaDThrow, bind_ok (get_run s), none]
  cases panic : s.panic with
  | false =>
    exact ⟨{ s with status := errcode }, by simp [bind_run, set_run, pure_run, panic, none], none,
      rfl⟩
  | true =>
    exact ⟨resetstack errcode { s with status := errcode },
      by simp [bind_run, set_run, modify_run, lpanic, panic, none], rfl, rfl⟩

theorem luaDThrow_disciplined (errcode : Nat) : Disciplined (luaDThrow errcode) where
  returned := by
    intro s a t ran
    cases chain : s.errorJmp with
    | nil =>
      obtain ⟨t', ran', none, log⟩ := luaDThrow_returns chain errcode
      rw [ran] at ran'
      cases ran'
      exact ⟨none, log⟩
    | cons e previous =>
      rw [luaDThrow_jumps chain] at ran
      cases ran
  jumped := by
    intro s e t ran
    cases chain : s.errorJmp with
    | nil =>
      obtain ⟨t', ran', -⟩ := luaDThrow_returns chain errcode
      rw [ran] at ran'
      cases ran'
    | cons e' previous =>
      rw [luaDThrow_jumps chain] at ran
      cases ran
      exact ⟨List.cons_ne_nil _ _, rfl⟩

theorem luaDThrow_leaves (errcode : Nat) : Leaves (luaDThrow errcode) := by
  intro s some
  cases chain : s.errorJmp with
  | nil => exact absurd chain some
  | cons e previous => exact ⟨_, luaDThrow_jumps chain errcode, rfl⟩

theorem Leaves.bind {m : ThrowM α} (leaves : Leaves m) (f : α → ThrowM β) : Leaves (m >>= f) := by
  intro s some
  obtain ⟨t, ran, log⟩ := leaves s some
  exact ⟨t, bind_error ran, log⟩

theorem Disciplined.leaves {m : ThrowM α} {f : α → ThrowM β} (first : Disciplined m)
    (second : ∀ a, Leaves (f a)) :
    Leaves (m >>= f) := by
  intro s some
  cases here : m s with
  | ok a s' =>
    obtain ⟨jmp, log⟩ := first.returned s a s' here
    obtain ⟨t, ran, log'⟩ := second a s' (jmp ▸ some)
    exact ⟨t, by rw [bind_ok here, ran], log'.trans log⟩
  | error e s' => exact ⟨s', bind_error here, (first.jumped s e s' here).2⟩

/-- Without a jump buffer a disciplined program returns. -/
theorem Disciplined.returns {m : ThrowM α} (disciplined : Disciplined m) (none : s.errorJmp = []) :
    ∃ a t, m s = .ok a t ∧ t.errorJmp = [] ∧ t.log = s.log := by
  cases here : m s with
  | ok a t =>
    obtain ⟨jmp, log⟩ := disciplined.returned s a t here
    exact ⟨a, t, rfl, jmp.trans none, log⟩
  | error e t => exact absurd none (disciplined.jumped s e t here).1

/-- A protected call restores the chain, whatever happens under it. -/
theorem luaDRawrunprotected_disciplined {f : ThrowM PUnit} (body : Disciplined f) :
    Disciplined (luaDRawrunprotected f) where
  returned := by
    intro s a t ran
    rw [luaDRawrunprotected] at ran
    cases here : f { s with errorJmp := 0 :: s.errorJmp } with
    | ok b s' =>
      rw [here] at ran
      cases ran
      exact ⟨rfl, (body.returned _ b s' here).2⟩
    | error e s' =>
      rw [here] at ran
      cases ran
      exact ⟨rfl, (body.jumped _ e s' here).2⟩
  jumped := by
    intro s e t ran
    rw [luaDRawrunprotected] at ran
    split at ran <;> cases ran

theorem program_disciplined (p : Program) : Disciplined p.run := by
  induction p with
  | done => exact .pure _
  | act f next ih => exact (Disciplined.act f).bind fun _ => ih
  | branch c yes no yesIh noIh =>
    refine Disciplined.get.bind fun s => ?_
    split
    · exact yesIh
    · exact noIh
  | raise errcode next ih => exact (luaDThrow_disciplined errcode).bind fun _ => ih
  | protect body next bodyIh nextIh => exact (luaDRawrunprotected_disciplined bodyIh).bind nextIh

/-! ## The functions that raise -/

theorem callErrfunc_disciplined (handler : Program) : Disciplined (callErrfunc handler) := by
  refine Disciplined.get.bind fun s => ?_
  split
  · split
    · exact program_disciplined handler
    · exact (luaDThrow_disciplined luaErrerr).bind fun _ => program_disciplined handler
  · exact .pure _

theorem luaGErrormsg_disciplined (handler : Program) : Disciplined (luaGErrormsg handler) :=
  (callErrfunc_disciplined handler).bind fun _ => luaDThrow_disciplined luaErrrun

theorem luaGErrormsg_leaves (handler : Program) : Leaves (luaGErrormsg handler) :=
  (callErrfunc_disciplined handler).leaves fun _ => luaDThrow_leaves luaErrrun

theorem luaGRunerrorAt_disciplined (message handler : Program) :
    Disciplined (luaGRunerrorAt message handler) :=
  (program_disciplined message).bind fun _ => luaGErrormsg_disciplined handler

theorem luaGRunerrorAt_leaves (message handler : Program) :
    Leaves (luaGRunerrorAt message handler) :=
  (program_disciplined message).leaves fun _ => luaGErrormsg_leaves handler

theorem luaLError_disciplined (message handler : Program) :
    Disciplined (luaLError message handler) :=
  (program_disciplined message).bind fun _ => (luaGErrormsg_disciplined handler).bind fun _ =>
    .pure _

theorem luaLError_leaves (message handler : Program) : Leaves (luaLError message handler) :=
  (program_disciplined message).leaves fun _ => (luaGErrormsg_leaves handler).bind _

/-- A place that raises an error, with all that decides how. -/
inductive RaiseSite where
  | luaDThrow (errcode : Nat)
  | luaGErrormsg (handler : Program)
  | luaGRunerror (message handler : Program)
  | luaError (handler : Program)
  | luaLError (message handler : Program)
  | luaMToobig (message handler : Program)
  -- an allocation that is refused
  | luaMRealloc (osize nsize : Nat) (positive : 0 < nsize)

/-- The program after which the raising function goes on. -/
def RaiseSite.raise : RaiseSite → ThrowM PUnit
  | .luaDThrow errcode => Lua.luaDThrow errcode
  | .luaGErrormsg handler => Lua.luaGErrormsg handler
  | .luaGRunerror message handler => luaGRunerrorAt message handler
  | .luaError handler => do let _ ← Lua.luaError handler
  | .luaLError message handler => do let _ ← Lua.luaLError message handler
  | .luaMToobig message handler => do let _ ← Lua.luaMToobig message handler
  | .luaMRealloc osize nsize _ => do let _ ← Lua.luaMRealloc none osize nsize

def FallsThrough (site : RaiseSite) (s : ErrState) : Prop := ∃ t, site.raise s = .ok ⟨⟩ t

theorem luaMRealloc_refused (osize : Nat) {nsize : Nat} (positive : 0 < nsize) :
    luaMRealloc none osize nsize =
      luaDThrow luaErrmem >>= fun _ => (do
        modify fun s => { s with totalbytes := s.totalbytes - osize + nsize }
        return none : ThrowM (Option Nat)) := by
  have null : lAlloc none nsize = none ∧ nsize > 0 := ⟨by rw [lAlloc]; split <;> rfl, positive⟩
  rw [luaMRealloc]
  dsimp only
  rw [if_pos null, null.1]

theorem raise_leaves (site : RaiseSite) : Leaves site.raise := by
  cases site with
  | luaDThrow errcode => exact luaDThrow_leaves errcode
  | luaGErrormsg handler => exact luaGErrormsg_leaves handler
  | luaGRunerror message handler => exact luaGRunerrorAt_leaves message handler
  | luaError handler => exact ((luaGErrormsg_leaves handler).bind _).bind _
  | luaLError message handler => exact (luaLError_leaves message handler).bind _
  | luaMToobig message handler => exact ((luaGRunerrorAt_leaves message handler).bind _).bind _
  | luaMRealloc osize nsize positive =>
    rw [RaiseSite.raise, luaMRealloc_refused osize positive]
    exact ((luaDThrow_leaves luaErrmem).bind _).bind _

theorem luaMRealloc_disciplined (osize : Nat) {nsize : Nat} (positive : 0 < nsize) :
    Disciplined (luaMRealloc none osize nsize) := by
  rw [luaMRealloc_refused osize positive]
  exact (luaDThrow_disciplined luaErrmem).bind fun _ =>
    (Disciplined.act fun s => { s with totalbytes := s.totalbytes - osize + nsize }).bind fun _ =>
      .pure _

theorem raise_disciplined (site : RaiseSite) : Disciplined site.raise := by
  cases site with
  | luaDThrow errcode => exact luaDThrow_disciplined errcode
  | luaGErrormsg handler => exact luaGErrormsg_disciplined handler
  | luaGRunerror message handler => exact luaGRunerrorAt_disciplined message handler
  | luaError handler =>
    exact ((luaGErrormsg_disciplined handler).bind fun _ => .pure _).bind fun _ => .pure _
  | luaLError message handler => exact (luaLError_disciplined message handler).bind fun _ => .pure _
  | luaMToobig message handler =>
    exact ((luaGRunerrorAt_disciplined message handler).bind fun _ => .pure _).bind fun _ => .pure _
  | luaMRealloc osize nsize positive =>
    exact (luaMRealloc_disciplined osize positive).bind fun _ => .pure _

theorem fallsThrough_iff (site : RaiseSite) (s : ErrState) :
    ¬ FallsThrough site s ↔ s.errorJmp ≠ [] := by
  constructor
  · intro stays none
    obtain ⟨a, t, ran, -⟩ := (raise_disciplined site).returns none
    exact stays ⟨t, ran⟩
  · rintro some ⟨t, ran⟩
    obtain ⟨t', jumped, -⟩ := raise_leaves site s some
    rw [ran] at jumped
    cases jumped

/-- `luaM_realloc_` returns NULL for a block of some size when no error can be raised. -/
theorem luaMRealloc_null_iff (osize : Nat) {nsize : Nat} (positive : 0 < nsize) (s : ErrState) :
    (¬ ∃ t, luaMRealloc none osize nsize s = .ok none t) ↔ s.errorJmp ≠ [] := by
  constructor
  · intro never none
    obtain ⟨t, thrown, -⟩ := luaDThrow_returns none luaErrmem
    refine never ⟨{ t with totalbytes := t.totalbytes - osize + nsize }, ?_⟩
    rw [luaMRealloc_refused osize positive, bind_ok thrown]
    rfl
  · rintro some ⟨t, ran⟩
    rw [luaMRealloc_refused osize positive] at ran
    obtain ⟨t', jumped, -⟩ := luaDThrow_leaves luaErrmem s some
    rw [bind_error jumped] at ran
    cases ran

/-! ## `luaI_openlib` -/

-- the log at the end of a run
def endLog : EStateM.Result PUnit ErrState PUnit → List OpenlibPoint
  | .ok _ t | .error _ t => t.log

/-- Something was done after the name conflict. -/
def GoesOn (log : List OpenlibPoint) : Prop := .conflict ∈ log ∧ log.getLast? ≠ some .conflict

/-- Under a protected call the program stops at the conflict. -/
def StopsAtConflict (m : ThrowM α) : Prop :=
  ∀ s, s.errorJmp ≠ [] → .conflict ∉ s.log →
    match m s with
    | .ok _ t => t.errorJmp ≠ [] ∧ .conflict ∉ t.log
    | .error _ t => ¬ GoesOn t.log

theorem StopsAtConflict.bind {m : ThrowM α} {f : α → ThrowM β} (first : StopsAtConflict m)
    (second : ∀ a, StopsAtConflict (f a)) : StopsAtConflict (m >>= f) := by
  intro s some none
  have here := first s some none
  rw [bind_run]
  cases ran : m s with
  | ok a t =>
    rw [ran] at here
    exact second a t here.1 here.2
  | error e t =>
    rw [ran] at here
    exact here

theorem Disciplined.stopsAtConflict {m : ThrowM α} (disciplined : Disciplined m) :
    StopsAtConflict m := by
  intro s some none
  cases ran : m s with
  | ok a t =>
    obtain ⟨jmp, log⟩ := disciplined.returned s a t ran
    exact ⟨jmp ▸ some, log ▸ none⟩
  | error e t =>
    intro goesOn
    rw [(disciplined.jumped s e t ran).2] at goesOn
    exact none goesOn.1

theorem atPoint_stopsAtConflict {point : OpenlibPoint} (other : point ≠ .conflict) :
    StopsAtConflict (atPoint point) := by
  intro s some none
  refine ⟨some, fun member => ?_⟩
  rcases List.mem_append.mp member with old | new
  · exact none old
  · exact other (List.mem_singleton.mp new).symm

theorem openlibConflict_stopsAtConflict (lib : OpenlibCalls) :
    StopsAtConflict (openlibConflict lib) := by
  refine Disciplined.get.stopsAtConflict.bind fun s' => ?_
  split
  · intro s some none
    obtain ⟨marked, markedEq⟩ : ∃ marked : ErrState,
      marked = { s with log := s.log ++ [.conflict] } := ⟨_, rfl⟩
    have mark : atPoint .conflict s = .ok ⟨⟩ marked := by
      rw [markedEq]
      rfl
    have some' : marked.errorJmp ≠ [] := by
      rw [markedEq]
      exact some
    obtain ⟨t, jumped, log⟩ := luaLError_leaves lib.message lib.handler marked some'
    rw [bind_ok mark, bind_error jumped]
    intro goesOn
    rw [log, markedEq] at goesOn
    exact goesOn.2 List.getLast?_concat
  · exact (Disciplined.pure _).stopsAtConflict

theorem openlibNamed_stopsAtConflict (lib : OpenlibCalls) : StopsAtConflict (openlibNamed lib) := by
  have find : StopsAtConflict (openlibFind lib) := by
    refine Disciplined.get.stopsAtConflict.bind fun s => ?_
    split
    · exact (program_disciplined lib.findtable).stopsAtConflict.bind fun _ =>
        (openlibConflict_stopsAtConflict lib).bind fun _ =>
          (atPoint_stopsAtConflict (by decide)).bind fun _ =>
            (program_disciplined lib.setLoaded).stopsAtConflict
    · exact (Disciplined.pure _).stopsAtConflict
  exact (program_disciplined lib.getLoaded).stopsAtConflict.bind fun _ => find.bind fun _ =>
    (atPoint_stopsAtConflict (by decide)).bind fun _ =>
      (program_disciplined lib.register).stopsAtConflict

/-- Without a jump buffer the program returns, and there is none afterwards. -/
def Returns (m : ThrowM α) : Prop := ∀ s, s.errorJmp = [] → ∃ a t, m s = .ok a t ∧ t.errorJmp = []

theorem Returns.bind {m : ThrowM α} {f : α → ThrowM β} (first : Returns m)
    (second : ∀ a, Returns (f a)) :
    Returns (m >>= f) := by
  intro s none
  obtain ⟨a, t, ran, none'⟩ := first s none
  obtain ⟨b, t', ran', none''⟩ := second a t none'
  exact ⟨b, t', by rw [bind_ok ran, ran'], none''⟩

theorem Disciplined.toReturns {m : ThrowM α} (disciplined : Disciplined m) : Returns m := by
  intro s none
  obtain ⟨a, t, ran, none', -⟩ := disciplined.returns none
  exact ⟨a, t, ran, none'⟩

theorem atPoint_returns (point : OpenlibPoint) : Returns (atPoint point) :=
  fun _ none => ⟨_, _, rfl, none⟩

theorem openlibFind_returns (lib : OpenlibCalls) : Returns (openlibFind lib) := by
  have conflict : Returns (openlibConflict lib) := by
    refine Disciplined.get.toReturns.bind fun s => ?_
    split
    · exact (atPoint_returns .conflict).bind fun _ =>
        (luaLError_disciplined lib.message lib.handler).toReturns.bind fun _ =>
          (Disciplined.pure _).toReturns
    · exact (Disciplined.pure _).toReturns
  refine Disciplined.get.toReturns.bind fun s => ?_
  split
  · exact (program_disciplined lib.findtable).toReturns.bind fun _ => conflict.bind fun _ =>
      (atPoint_returns .stored).bind fun _ => (program_disciplined lib.setLoaded).toReturns
  · exact (Disciplined.pure _).toReturns

/-- Without a protected call `luaI_openlib` registers the functions in any case. -/
theorem openlibNamed_registers (lib : OpenlibCalls) (none : s.errorJmp = []) :
    ∃ log, endLog (openlibNamed lib s) = log ++ [.registered] := by
  obtain ⟨_, a, loaded, none₁⟩ := (program_disciplined lib.getLoaded).toReturns s none
  obtain ⟨_, b, found, none₂⟩ := openlibFind_returns lib a none₁
  obtain ⟨c, cEq⟩ : ∃ c : ErrState, c = { b with log := b.log ++ [.registered] } := ⟨_, rfl⟩
  have marked : atPoint .registered b = .ok ⟨⟩ c := by
    rw [cEq]
    rfl
  have none₃ : c.errorJmp = [] := by
    rw [cEq]
    exact none₂
  obtain ⟨_, d, registered, -, log⟩ := (program_disciplined lib.register).returns none₃
  refine ⟨b.log, ?_⟩
  rw [openlibNamed, bind_ok loaded, bind_ok found, bind_ok marked, registered, endLog, log, cEq]

theorem goesOn_iff (lib : OpenlibCalls) (start : s.log = [])
    (conflict : .conflict ∈ endLog (openlibNamed lib s)) :
    ¬ GoesOn (endLog (openlibNamed lib s)) ↔ s.errorJmp ≠ [] := by
  constructor
  · intro stops none
    obtain ⟨log, ends⟩ := openlibNamed_registers lib none
    refine stops ⟨conflict, ?_⟩
    rw [ends, List.getLast?_concat]
    decide
  · intro some
    have stops := openlibNamed_stopsAtConflict lib s some (by rw [start]; exact List.not_mem_nil)
    cases ran : openlibNamed lib s with
    | ok a t =>
      rw [ran] at stops conflict
      exact absurd conflict stops.2
    | error e t =>
      rw [ran] at stops
      exact stops

/-- Control does not return from a raised error, no NULL comes for a refused block, and a library is
    not registered after its name conflict: each exactly under a protected call. -/
theorem errors_stay_raised_iff (s : ErrState) :
    (∀ site, ¬ FallsThrough site s ↔ s.errorJmp ≠ []) ∧
      (∀ osize nsize, 0 < nsize → ((¬ ∃ t, luaMRealloc none osize nsize s = .ok none t) ↔
        s.errorJmp ≠ [])) ∧
      ∀ lib, .conflict ∈ endLog (openlibNamed lib { s with log := [] }) →
        (¬ GoesOn (endLog (openlibNamed lib { s with log := [] })) ↔ s.errorJmp ≠ []) :=
  ⟨fun site => fallsThrough_iff site s, fun osize _ positive =>
    luaMRealloc_null_iff osize positive s,
    fun lib conflict => goesOn_iff lib rfl conflict⟩

-- a context whose bindings are being loaded: no protected call is active
def unprotected : ErrState where
  vm :=
    { stack := fun _ => .nil
      top := 1
      heap :=
        { tables := fun _ => ⟨[], none, 0⟩, closures := fun _ => .c 0 [] 0, upvals := fun _ => .closed .nil,
          udata := fun _ => ⟨[], none⟩, mt := fun _ => none, nextTable := 0,
          nextClosure := 0, nextUpval := 0 }
      openupval := []
      frames := []
      mode := .native }
  status := 0
  errfunc := 0
  nCcalls := 0
  baseCcalls := 0
  allowhook := true
  panic := true
  totalbytes := 0
  errorJmp := []
  log := []

-- the global of the library's name holds a value that is no table
def conflictingLibrary : OpenlibCalls where
  getLoaded := .done
  isTable := fun _ => false
  findtable := .done
  nameConflict := fun _ => true
  message := .done
  handler := .done
  setLoaded := .done
  register := .done

/-- The register function of a binding meets a name conflict: it goes on.  So does a refused
    allocation, with a NULL. -/
theorem unprotected_errors_fall_through :
    GoesOn (endLog (openlibNamed conflictingLibrary unprotected)) ∧
      (∃ t, luaMRealloc none 0 8 unprotected = .ok none t) ∧
        FallsThrough (.luaDThrow luaErrmem) unprotected :=
  ⟨⟨by decide, by decide⟩, ⟨_, rfl⟩, ⟨_, rfl⟩⟩

end Lunatik.Verified
