import Lunatik.Core.ContextQueue

/-! # A context outlives the work that still needs it

A work item needs its context until its handler has released the mutex.  A `sys_lua` that was
woken, and the callback `sys_lua_async_cleanup`, destroy the context of an item that is still
running but past that point: the queue is ordered and nothing is submitted after the job of
the call, so no other item can be pending then.  The other calls of `lunatik_context_destroy`
look at no item at all.
-/

namespace Lunatik.Verified

open Lunatik.Core Lunatik.Library

/-! ## The property and the condition -/

def needsContext : HandlerPc → Bool
  | .entered | .locked => true
  | _ => false

def HasPending (ctx : Ctx) : Prop :=
  ctx.queue ≠ [] ∨ (ctx.running.map fun item => needsContext item.2) = some true

instance (ctx : Ctx) : Decidable (HasPending ctx) := by
  unfold HasPending
  infer_instance

/-- No access to a destroyed context was made, and none is ahead. -/
structure Outlives (ctx : Ctx) : Prop where
  noBadAccess : ctx.badAccess = false
  noPending : ctx.status = .destroyed → ¬ HasPending ctx

/-- The stronger reading: a destroyed context has no queued and no running item at all. -/
def OutlivesEveryItem (ctx : Ctx) : Prop :=
  ctx.status = .destroyed → ctx.queue = [] ∧ ctx.running = none

def DestroysIdle (s : Nat → Ctx) : Nat × CtxMove → Prop
  | (i, .sysDestroy) => (∀ async, (s i).owner ≠ .sysLua async .woken) → ¬ HasPending (s i)
  | (i, .kernelSubmit _) => (s i).status = .alive
  | (i, .kernelDestroy) => (s i).status = .alive ∧ ¬ HasPending (s i)
  | _ => True

instance (s : Nat → Ctx) (label : Nat × CtxMove) : Decidable (DestroysIdle s label) := by
  unfold DestroysIdle
  split <;> infer_instance

/-! ## The invariant of one context -/

def isOwn : WorkKind → Bool
  | .sysSync | .sysAsync => true
  | _ => false

-- the job of the call, if there will be one, is not submitted yet
def beforeJob : CtxOwner → Bool
  | .kernel | .sysLua _ .loading | .sysLua _ .submitting | .sysLua _ .failed => true
  | _ => false

def holdsContext : CtxOwner → Bool
  | .kernel | .sysLua _ .returned => false
  | _ => true

-- the item that runs and those that wait, in the order in which they are run
def items (ctx : Ctx) : List WorkKind := (ctx.running.map Prod.fst).toList ++ ctx.queue

/-- The job of a call is the last item of its context. -/
structure QueueInv (ctx : Ctx) : Prop where
  ownLast : ∀ work ∈ (items ctx).dropLast, isOwn work = false
  early : beforeJob ctx.owner = true → (∀ work ∈ items ctx, isOwn work = false) ∧
    ctx.complete = false
  async : .sysAsync ∈ items ctx → ctx.owner = .sysLua true .returned

structure StatusInv (ctx : Ctx) : Prop where
  safe : ctx.badAccess = false
  gone : ctx.status = .destroyed → ¬ HasPending ctx
  unborn : ctx.status = .absent → items ctx = []
  alive : holdsContext ctx.owner = true → ctx.status = .alive
  complete : ctx.complete = true → ¬ HasPending ctx
  woken : ∀ async, ctx.owner = .sysLua async .woken → ctx.complete = true
  cleaning : ∀ pc, ctx.running = some (.sysAsync, pc) → pc ≠ .calledBack → ctx.status = .alive

structure CtxInv (ctx : Ctx) : Prop where
  queue : QueueInv ctx
  status : StatusInv ctx

theorem ctxInv_absent : CtxInv .absent := by
  constructor <;> constructor <;> simp [Ctx.absent, HasPending, holdsContext, items]

/-! ## The queue -/

theorem QueueInv.keep {ctx ctx' : Ctx} (inv : QueueInv ctx) (same : items ctx' = items ctx)
    (owner : ctx'.owner = ctx.owner) (complete : beforeJob ctx.owner = true →
      ctx'.complete = ctx.complete) :
    QueueInv ctx' := by
  obtain ⟨ownLast, early, async⟩ := inv
  constructor
  · rwa [same]
  · intro before
    rw [owner] at before
    rw [same, complete before]
    exact early before
  · rwa [same, owner]

theorem QueueInv.finish {ctx ctx' : Ctx} (inv : QueueInv ctx)
    (removed : items ctx' = (items ctx).tail) (owner : ctx'.owner = ctx.owner)
    (complete : ctx'.complete = ctx.complete) : QueueInv ctx' := by
  obtain ⟨ownLast, early, async⟩ := inv
  constructor
  · intro work member
    rw [removed, ← List.tail_dropLast] at member
    exact ownLast work (List.mem_of_mem_tail member)
  · intro before
    rw [owner] at before
    rw [removed, complete]
    exact ⟨fun work member => (early before).1 work (List.mem_of_mem_tail member), (early before).2⟩
  · intro member
    rw [removed] at member
    rw [owner]
    exact async (List.mem_of_mem_tail member)

/-- While a job of the call runs, nothing waits behind it. -/
theorem QueueInv.alone {ctx : Ctx} (inv : QueueInv ctx) {work : WorkKind} {pc : HandlerPc}
    (running : ctx.running = some (work, pc)) (own : isOwn work = true) : ctx.queue = [] := by
  cases queue : ctx.queue with
  | nil => rfl
  | cons next rest =>
    have foreign := inv.ownLast work (by simp [items, running, queue])
    simp [own] at foreign

/-! ## Steps of the worker -/

/-- An item that needs its context finds it alive. -/
theorem StatusInv.alive_of_pending {ctx : Ctx} (inv : StatusInv ctx) (pending : HasPending ctx) :
    ctx.status = .alive := by
  cases status : ctx.status with
  | alive => rfl
  | destroyed => exact absurd pending (inv.gone status)
  | absent =>
    have none := inv.unborn status
    simp only [items, List.append_eq_nil_iff, Option.toList_eq_nil_iff, Option.map_eq_none_iff]
      at none
    simp [HasPending, none] at pending

theorem CtxInv.dequeue {ctx : Ctx} {work : WorkKind} {rest : List WorkKind} (inv : CtxInv ctx)
    (idle : ctx.running = none) (queue : ctx.queue = work :: rest) :
    CtxInv { ctx with queue := rest, running := some (work, .entered) } := by
  have pending : HasPending ctx := .inl (by simp [queue])
  have status := inv.status.alive_of_pending pending
  refine ⟨inv.queue.keep (by simp [items, idle, queue]) rfl fun _ => rfl, ?_⟩
  refine ⟨inv.status.safe, ?_, ?_, fun _ => status, ?_, inv.status.woken, fun _ _ _ => status⟩
  · simp [status]
  · simp [status]
  · intro complete
    exact absurd pending (inv.status.complete complete)

/-- The two steps of a handler that need the context. -/
theorem CtxInv.advance {ctx : Ctx} {work : WorkKind} {pc pc' : HandlerPc} (inv : CtxInv ctx)
    (running : ctx.running = some (work, pc)) (needs : needsContext pc = true) :
    CtxInv { ctx.access with running := some (work, pc') } := by
  have pending : HasPending ctx := .inr (by simp [running, needs])
  have status := inv.status.alive_of_pending pending
  refine ⟨inv.queue.keep (by simp [items, running, Ctx.access]) rfl fun _ => rfl, ?_⟩
  refine ⟨?_, ?_, ?_, fun _ => status, ?_, inv.status.woken, fun _ _ _ => status⟩
  · simp [Ctx.access, inv.status.safe, status]
  · simp [Ctx.access, status]
  · simp [Ctx.access, status]
  · intro complete
    exact absurd pending (inv.status.complete complete)

theorem hasPending_iff_of_running {ctx : Ctx} {work : WorkKind} {pc : HandlerPc}
    (running : ctx.running = some (work, pc)) (past : needsContext pc = false) :
    HasPending ctx ↔ ctx.queue ≠ [] := by
  simp [HasPending, running, past]

/-- A handler past its last access moves on; the job of a waiting call signals on the way. -/
theorem CtxInv.pass {ctx : Ctx} {work : WorkKind} {pc pc' : HandlerPc} {signal : Bool}
    (inv : CtxInv ctx) (running : ctx.running = some (work, pc)) (past : needsContext pc = false)
    (past' : needsContext pc' = false) (notCleaned : work = .sysAsync → pc ≠ .calledBack)
    (own : signal = true → work = .sysSync) :
    CtxInv { ctx with running := some (work, pc'), complete := ctx.complete || signal } := by
  have pending := hasPending_iff_of_running running past
  have ownWork : signal = true → isOwn work = true := fun signals => by rw [own signals]; rfl
  refine ⟨inv.queue.keep (by simp [items, running]) rfl ?_, ?_⟩
  · intro before
    have foreign := (inv.queue.early before).1 work (by simp [items, running])
    cases signal with
    | false => simp
    | true => simp [ownWork rfl] at foreign
  refine ⟨inv.status.safe, ?_, ?_, inv.status.alive, ?_, ?_, ?_⟩
  · intro destroyed
    rw [hasPending_iff_of_running rfl past', ← pending]
    exact inv.status.gone destroyed
  · intro absent
    have none := inv.status.unborn absent
    simp [items, running] at none
  · intro complete
    rw [hasPending_iff_of_running rfl past', ← pending]
    rcases Bool.or_eq_true_iff.mp complete with already | signals
    · exact inv.status.complete already
    · rw [pending, not_not]
      exact inv.queue.alone running (ownWork signals)
  · intro async owner
    simp [inv.status.woken async owner]
  · intro pc'' same _
    simp only [Option.some.injEq, Prod.mk.injEq] at same
    exact inv.status.cleaning pc (by rw [running, same.1]) (notCleaned same.1)

theorem CtxInv.finish {ctx : Ctx} {work : WorkKind} {pc : HandlerPc} (inv : CtxInv ctx)
    (running : ctx.running = some (work, pc)) (past : needsContext pc = false) :
    CtxInv { ctx with running := none } := by
  have pending := hasPending_iff_of_running running past
  have pending' : HasPending { ctx with running := none } ↔ ctx.queue ≠ [] := by simp [HasPending]
  refine ⟨inv.queue.finish (by simp [items, running]) rfl rfl, ?_⟩
  refine ⟨inv.status.safe, ?_, ?_, inv.status.alive, ?_, inv.status.woken, ?_⟩
  · intro destroyed
    rw [pending', ← pending]
    exact inv.status.gone destroyed
  · intro absent
    have none := inv.status.unborn absent
    simp [items, running] at none
  · intro complete
    rw [pending', ← pending]
    exact inv.status.complete complete
  · simp

/-- `sys_lua_async_cleanup` destroys the context of the last item, which is past its last access. -/
theorem CtxInv.cleanup {ctx : Ctx} (inv : CtxInv ctx)
    (running : ctx.running = some (.sysAsync, .signalled)) :
    CtxInv { ctx.lunatikContextDestroy with running := some (.sysAsync, .calledBack) } := by
  have status := inv.status.cleaning .signalled running (by simp)
  have alone := inv.queue.alone running rfl
  have owner := inv.queue.async (by simp [items, running])
  refine ⟨inv.queue.keep (by simp [items, running, Ctx.lunatikContextDestroy, Ctx.access]) rfl fun _ => rfl, ?_⟩
  constructor
  · simp [Ctx.lunatikContextDestroy, Ctx.access, inv.status.safe, status]
  · simp [HasPending, Ctx.lunatikContextDestroy, Ctx.access, alone, needsContext]
  · simp [Ctx.lunatikContextDestroy]
  · simp [Ctx.lunatikContextDestroy, Ctx.access, owner, holdsContext]
  · simp [HasPending, Ctx.lunatikContextDestroy, Ctx.access, alone, needsContext]
  · simp [Ctx.lunatikContextDestroy, Ctx.access, owner]
  · simp

theorem CtxInv.worker {ctx ctx' : Ctx} (inv : CtxInv ctx) (stepped : ctx.workerStep = some ctx') :
    CtxInv ctx' := by
  unfold Ctx.workerStep at stepped
  split at stepped
  next idle =>
    split at stepped
    next => cases stepped
    next work rest queue =>
      cases stepped
      exact inv.dequeue idle queue
  next work running =>
    cases stepped
    exact inv.advance running rfl
  next work running =>
    cases stepped
    exact inv.advance running rfl
  next running =>
    cases stepped
    exact inv.finish running rfl
  next work _ running =>
    cases stepped
    exact inv.pass running rfl rfl (by simp) (by simp)
  next running =>
    cases stepped
    exact inv.cleanup running
  next work _ running =>
    cases stepped
    have moved : CtxInv { ctx with running := some (work, .calledBack), complete := ctx.complete || false } :=
      inv.pass running rfl rfl (by simp) (by simp)
    simpa using moved
  next work running =>
    cases stepped
    exact inv.finish running rfl

/-! ## Steps of the callers -/

theorem not_woken_of_beforeJob {owner : CtxOwner} (early : beforeJob owner = true) (async : Bool) :
    owner ≠ .sysLua async .woken := by
  rintro rfl
  simp [beforeJob] at early

theorem CtxInv.created (owner : CtxOwner) (early : beforeJob owner = true) :
    CtxInv { Ctx.absent with status := .alive, owner } := by
  constructor
  · constructor <;> simp [Ctx.absent, items]
  · refine ⟨rfl, by simp, by simp, fun _ => rfl, by simp [Ctx.absent], ?_, by simp [Ctx.absent]⟩
    exact fun async owner => absurd owner (not_woken_of_beforeJob early async)

theorem CtxInv.submitForeign {ctx : Ctx} {work : WorkKind} (inv : CtxInv ctx)
    (status : ctx.status = .alive) (early : beforeJob ctx.owner = true)
    (foreign : isOwn work = false) : CtxInv (ctx.submit work) := by
  obtain ⟨others, incomplete⟩ := inv.queue.early early
  have all : ∀ w ∈ items (ctx.submit work), isOwn w = false := by
    intro w member
    simp only [items, Ctx.submit, Ctx.access, ← List.append_assoc, List.mem_append,
      List.mem_singleton] at member
    rcases member with old | rfl
    · exact others w (by simpa [items] using old)
    · exact foreign
  constructor
  · refine ⟨fun w member => all w (List.dropLast_subset _ member), fun _ => ⟨all, incomplete⟩,
      fun member => ?_⟩
    simpa [isOwn] using all _ member
  · refine ⟨?_, ?_, ?_, fun _ => status, ?_, inv.status.woken, fun _ _ _ => status⟩
    all_goals simp [Ctx.submit, Ctx.access, status, inv.status.safe, incomplete]

theorem CtxInv.submitOwn {ctx : Ctx} {work : WorkKind} {owner : CtxOwner} (inv : CtxInv ctx)
    (status : ctx.status = .alive) (early : beforeJob ctx.owner = true)
    (late : beforeJob owner = false) (asleep : ∀ async, owner ≠ .sysLua async .woken)
    (async : work = .sysAsync → owner = .sysLua true .returned) :
    CtxInv { ctx.submit work with owner } := by
  obtain ⟨others, incomplete⟩ := inv.queue.early early
  have appended : items { ctx.submit work with owner } = items ctx ++ [work] := by
    simp [items, Ctx.submit, Ctx.access]
  constructor
  · refine ⟨fun w member => ?_, fun before => ?_, fun member => ?_⟩
    · rw [appended, List.dropLast_concat] at member
      exact others w member
    · simp [late] at before
    · rw [appended, List.mem_append, List.mem_singleton] at member
      rcases member with old | same
      · simpa [isOwn] using others _ old
      · exact async same.symm
  · constructor <;> simp [Ctx.submit, Ctx.access, status, inv.status.safe, incomplete, asleep]

theorem CtxInv.setOwner {ctx : Ctx} {owner : CtxOwner} (inv : CtxInv ctx)
    (status : ctx.status = .alive) (early : beforeJob owner = true → beforeJob ctx.owner = true)
    (async : ctx.owner = .sysLua true .returned → owner = .sysLua true .returned)
    (woken : ∀ async, owner = .sysLua async .woken → ctx.complete = true) :
    CtxInv { ctx with owner } := by
  obtain ⟨ownLast, queueEarly, queueAsync⟩ := inv.queue
  obtain ⟨safe, gone, unborn, alive, complete, -, cleaning⟩ := inv.status
  exact ⟨⟨ownLast, fun before => queueEarly (early before),
    fun member => async (queueAsync member)⟩,
    ⟨safe, gone, unborn, fun _ => status, complete, woken, cleaning⟩⟩

theorem CtxInv.destroy {ctx : Ctx} {owner : CtxOwner} (inv : CtxInv ctx)
    (status : ctx.status = .alive) (idle : ¬ HasPending ctx)
    (notAsync : ctx.owner ≠ .sysLua true .returned) (early : beforeJob owner = true →
      beforeJob ctx.owner = true) (released : holdsContext owner = false) :
    CtxInv { ctx.lunatikContextDestroy with owner } := by
  obtain ⟨ownLast, queueEarly, queueAsync⟩ := inv.queue
  obtain ⟨safe, gone, unborn, alive, complete, -, cleaning⟩ := inv.status
  refine ⟨⟨ownLast, fun before => queueEarly (early before),
    fun member => absurd (queueAsync member) notAsync⟩, ?_⟩
  refine ⟨?_, fun _ => idle, ?_, ?_, complete, ?_, ?_⟩
  · simp [Ctx.lunatikContextDestroy, Ctx.access, safe, status]
  · simp [Ctx.lunatikContextDestroy]
  · simp [released]
  · rintro async rfl
    simp [holdsContext] at released
  · intro pc running _
    have same : ctx.running = some (.sysAsync, pc) := running
    exact absurd (queueAsync (by simp [items, same])) notAsync

theorem ctxInv_step {s : Nat → Ctx} {i : Nat} {move : CtxMove} {ctx : Ctx} (inv : CtxInv (s i))
    (idle : DestroysIdle s (i, move)) (stepped : (s i).step move = some ctx) : CtxInv ctx := by
  cases move with
  | worker => exact inv.worker stepped
  | sysCreate async =>
    simp only [Ctx.step] at stepped
    split at stepped
    · cases stepped
      exact .created _ rfl
    · cases stepped
  | kernelCreate =>
    simp only [Ctx.step] at stepped
    split at stepped
    · cases stepped
      exact .created _ rfl
    · cases stepped
  | regfuncSubmit openlib =>
    simp only [Ctx.step] at stepped
    split at stepped
    next async owner =>
      cases stepped
      refine inv.submitForeign (inv.status.alive (by rw [owner]; rfl)) (by rw [owner]; rfl) ?_
      cases openlib <;> rfl
    next => cases stepped
  | loaded ok =>
    simp only [Ctx.step] at stepped
    split at stepped
    next async owner =>
      cases stepped
      refine inv.setOwner (inv.status.alive (by rw [owner]; rfl)) (fun _ => by
        rw [owner]; rfl) ?_ ?_
      · simp [owner]
      · cases ok <;> simp
    next => cases stepped
  | sysSubmit granted =>
    simp only [Ctx.step] at stepped
    split at stepped
    next owner =>
      cases stepped
      have status := inv.status.alive (by rw [owner]; rfl)
      cases granted with
      | true => exact inv.submitOwn status (by rw [owner]; rfl) rfl (by simp) fun _ => rfl
      | false => exact inv.setOwner status (by simp [beforeJob]) (fun _ => rfl) (by simp)
    next owner =>
      have status := inv.status.alive (by rw [owner]; rfl)
      split at stepped
      · cases stepped
        exact inv.submitOwn status (by rw [owner]; rfl) rfl (by simp) (by simp)
      · cases stepped
        exact inv.setOwner status (fun _ => by rw [owner]; rfl) (by simp [owner]) (by simp)
    next => cases stepped
  | wake =>
    simp only [Ctx.step] at stepped
    split at stepped
    next async owner =>
      split at stepped
      next complete =>
        cases stepped
        have status := inv.status.alive (by rw [owner]; rfl)
        exact inv.setOwner status (by simp [beforeJob]) (by simp [owner]) fun _ _ => complete
      next => cases stepped
    next => cases stepped
  | interrupt =>
    simp only [Ctx.step] at stepped
    split at stepped
    next async owner =>
      cases stepped
      have status := inv.status.alive (by rw [owner]; rfl)
      exact inv.setOwner status (by simp [beforeJob]) (by simp [owner]) (by simp)
    next => cases stepped
  | sysDestroy =>
    simp only [Ctx.step] at stepped
    split at stepped
    next =>
      split at stepped
      next async owner =>
        cases stepped
        have done := inv.status.complete (inv.status.woken async owner)
        exact inv.destroy (inv.status.alive (by rw [owner]; rfl)) done (by simp [owner])
          (by simp [beforeJob]) rfl
      next async owner =>
        cases stepped
        have done := idle (by simp [owner])
        exact inv.destroy (inv.status.alive (by rw [owner]; rfl)) done (by simp [owner])
          (by simp [beforeJob]) rfl
      next async owner =>
        cases stepped
        have done := idle (by simp [owner])
        exact inv.destroy (inv.status.alive (by rw [owner]; rfl)) done (by simp [owner])
          (by simp [beforeJob]) rfl
      next => cases stepped
    next => cases stepped
  | kernelSubmit openlib =>
    simp only [Ctx.step] at stepped
    split at stepped
    next known =>
      cases stepped
      refine inv.submitForeign idle (by rw [known.1]; rfl) ?_
      cases openlib <;> rfl
    next => cases stepped
  | kernelDestroy =>
    simp only [Ctx.step] at stepped
    split at stepped
    next known =>
      cases stepped
      have destroyed : CtxInv { (s i).lunatikContextDestroy with owner := (s i).owner } :=
        inv.destroy idle.1 idle.2 (by simp [known.1]) id (by rw [known.1]; rfl)
      exact destroyed
    next => cases stepped

/-! ## Runs -/

theorem ctxSystem_inv (s : Nat → Ctx) (label : Nat × CtxMove) (t : Nat → Ctx)
    (inv : ∀ i, CtxInv (s i)) (idle : DestroysIdle s label)
    (stepped : ctxSystem.step s label = some t) : ∀ i, CtxInv (t i) := by
  obtain ⟨i, move⟩ := label
  obtain ⟨ctx, moved, rfl⟩ := Option.map_eq_some_iff.mp stepped
  intro j
  by_cases same : j = i
  · simpa [same] using ctxInv_step (inv i) idle moved
  · simpa [same] using inv j

/-- In every interleaving in which an unsuccessful or interrupted `sys_lua` and kernel code
    destroy only contexts without pending work, and kernel code submits only to contexts that
    exist, no item accesses or is going to access a destroyed context. -/
theorem contexts_outlive_pending_work {labels : List (Nat × CtxMove)} {t : Nat → Ctx}
    (idle : ctxSystem.Meets DestroysIdle noContexts labels)
    (reaches : ctxSystem.run noContexts labels = some t) (i : Nat) : Outlives (t i) := by
  have inv := ctxSystem.invariant_of_meets ctxSystem_inv (fun _ => ctxInv_absent) idle reaches i
  exact ⟨inv.status.safe, inv.status.gone⟩

-- a sys_lua that waits and is woken
def wokenCall : List (Nat × CtxMove) :=
  [(0, .sysCreate false), (0, .loaded true), (0, .sysSubmit true), (0, .worker), (0, .worker),
    (0, .worker), (0, .worker), (0, .wake), (0, .sysDestroy)]

theorem wokenCall_outlives :
    ∃ t, ctxSystem.run noContexts wokenCall = some t ∧ (t 0).status = .destroyed ∧
      Outlives (t 0) := by
  obtain ⟨t, reaches⟩ := Option.isSome_iff_exists.mp
    (show (ctxSystem.run noContexts wokenCall).isSome = true by decide)
  have done : (ctxSystem.run noContexts wokenCall).map (fun t => (t 0).status) =
    some .destroyed := by decide
  rw [reaches, Option.map_some, Option.some.injEq] at done
  exact ⟨t, reaches, done, contexts_outlive_pending_work (by decide) reaches 0⟩

-- a sys_lua that does not wait: its job destroys the context in its own callback
def asyncCall : List (Nat × CtxMove) :=
  [(0, .sysCreate true), (0, .loaded true), (0, .sysSubmit true), (0, .worker), (0, .worker),
    (0, .worker), (0, .worker), (0, .worker)]

-- a signal arrives before the job has started
def interruptedWait : List (Nat × CtxMove) :=
  [(0, .sysCreate false), (0, .loaded true), (0, .sysSubmit true), (0, .interrupt),
    (0, .sysDestroy)]

/-- Items of a destroyed context: the one that destroyed it, and one that is still queued. -/
theorem destroyed_contexts_with_items :
    (∃ t, ctxSystem.run noContexts asyncCall = some t ∧
      (t 0).running = some (.sysAsync, .calledBack) ∧
      ¬ OutlivesEveryItem (t 0)) ∧
    (∃ t, ctxSystem.run noContexts interruptedWait = some t ∧ (t 0).queue = [.sysSync] ∧
      ¬ OutlivesEveryItem (t 0)) := by
  refine ⟨⟨_, rfl, rfl, fun outlives => ?_⟩, ⟨_, rfl, rfl, fun outlives => ?_⟩⟩
  · exact absurd (outlives rfl).2 (by decide)
  · exact absurd (outlives rfl).1 (by decide)

end Lunatik.Verified
