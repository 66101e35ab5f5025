import Lunatik.Core.AsyncJob

/-! # Asynchronous jobs run once, in order

`jobEvents` is what a submission should come to, seen from outside: its chunk runs, its
callback gets what the chunk produced, its blocks are freed, and only then does the next job
start.  The log of the workqueue is these events for one accepted submission after the other.

Once its blocks are granted a job is always in the state `jobAt` that its position determines,
so one equation per position is all there is to know about the handler.
-/

namespace Lunatik.Verified

open Lunatik.Core Lunatik.Library

/-! ## What a submission comes to -/

def callbackEvents (i : Nat) (args : AsyncArgs) : List AsyncEvent :=
  if args.callb then
    if args.needResult then [.callback i args.callbArg args.product.ret args.product.result]
    else [.callbackNores i args.callbArg args.product.status]
  else []

def jobEvents (args : Nat → AsyncArgs) (i : Nat) : List AsyncEvent :=
  [.started i, .executed i] ++ callbackEvents i (args i) ++ [.freedData i, .freedWork i]

/-- No block is touched after it was freed or freed twice, and both are freed at the end. -/
structure BlocksReleased (job : AsyncJob) : Prop where
  untouched : job.usedFreed = false
  dFrees : job.d.frees ≤ 1
  lwFrees : job.lw.frees ≤ 1
  released : job.handler = .returned → job.d.frees = 1 ∧ job.lw.frees = 1

-- `lunatik_work_create` succeeds
def WorkGranted : DispatchLabel → Prop
  | .submit _ (.allocWork granted) => granted = true
  | _ => True

instance (label : DispatchLabel) : Decidable (WorkGranted label) := by
  unfold WorkGranted
  split <;> infer_instance

/-! ## The states of a job -/

-- what the handler has already made of `d`
def dataAt (args : AsyncArgs) : AsyncPc → AsyncData
  | .idle | .queued | .entered | .executing => args.data
  | .fetching => { args.data with ret := args.product.status }
  | .signalling =>
    if args.needResult then
      { args.data with ret := args.product.ret, result := args.product.result }
    else { args.data with ret := args.product.status }
  | _ =>
    if args.needResult then
      { args.data with ret := args.product.ret, result := args.product.result, complete := 1 }
    else { args.data with ret := args.product.status, complete := 1 }

/-- A queued job whose handler stands at `pc`. -/
def jobAt (args : AsyncArgs) (pc : AsyncPc) : AsyncJob :=
  { args
    submit := .returned
    handler := pc
    d := ⟨true, if pc = .freeWork ∨ pc = .returned then 1 else 0⟩
    lw := ⟨true, if pc = .returned then 1 else 0⟩
    data := dataAt args pc
    ret := 0
    usedFreed := false }

-- a job that was not handed to the workqueue
inductive Unqueued (args : AsyncArgs) : AsyncJob → Prop where
  | start : Unqueued args (.fresh args)
  | refused : Unqueued args { AsyncJob.fresh args with submit := .returned, ret := -Kernel.enomem }
  | createWork : Unqueued args { AsyncJob.fresh args with submit := .createWork, d := ⟨true, 0⟩, data := args.data }
  | queueWork :
    Unqueued args { AsyncJob.fresh args with submit := .queueWork, d := ⟨true, 0⟩, lw := ⟨true, 0⟩, data := args.data }

def nextPc : AsyncPc → AsyncPc
  | .idle => .idle
  | .queued => .entered
  | .entered => .executing
  | .executing => .fetching
  | .fetching => .signalling
  | .signalling => .testCallback
  | .testCallback => .testCallbackNores
  | .testCallbackNores => .testCallbackWork
  | .testCallbackWork => .freeData
  | .freeData => .freeWork
  | .freeWork => .returned
  | .returned => .returned

-- the events of the step that leaves a position
def eventsAt (i : Nat) (args : AsyncArgs) : AsyncPc → List AsyncEvent
  | .queued => [.started i]
  | .executing => [.executed i]
  | .testCallback =>
    if args.needResult && args.callb then
      [.callback i args.callbArg args.product.ret args.product.result] else []
  | .testCallbackNores =>
    if !args.needResult && args.callb then
      [.callbackNores i args.callbArg args.product.status] else []
  | .freeData => [.freedData i]
  | .freeWork => [.freedWork i]
  | _ => []

theorem asyncHandlerStep_jobAt (i : Nat) (args : AsyncArgs) {pc : AsyncPc} (queued : pc ≠ .idle)
    (running : pc ≠ .returned) :
    asyncHandlerStep i (jobAt args pc) = some (jobAt args (nextPc pc), eventsAt i args pc) := by
  obtain ⟨needResult, callb, callbArg, product⟩ := args
  cases pc with
  | idle => exact absurd rfl queued
  | returned => exact absurd rfl running
  | _ => cases needResult <;> rfl

theorem jobAt_released (args : AsyncArgs) (pc : AsyncPc) : BlocksReleased (jobAt args pc) := by
  refine ⟨rfl, ?_, ?_, ?_⟩
  · simp only [jobAt]
    split <;> omega
  · simp only [jobAt]
    split <;> omega
  · intro ended
    simp only [jobAt] at ended
    simp [jobAt, ended]

theorem Unqueued.released {args : AsyncArgs} {job : AsyncJob} (h : Unqueued args job) :
    BlocksReleased job := by
  cases h <;> exact ⟨rfl, by simp [AsyncJob.fresh, Block.absent],
    by simp [AsyncJob.fresh, Block.absent], nofun⟩

/-- A submitter moves on, or hands its job over. -/
theorem loadcodeAsyncStep_cases {args : AsyncArgs} {job job' : AsyncJob} {move : SubmitMove} (h : Unqueued args job)
    (granted : ∀ g, move = .allocWork g → g = true)
    (step : loadcodeAsyncStep job move = some job') :
    (Unqueued args job' ∧ Dispatch.queues move job' = false) ∨
      (job' = jobAt args .queued ∧ Dispatch.queues move job' = true) := by
  cases move with
  | allocData g =>
    cases h <;> simp [loadcodeAsyncStep, AsyncJob.fresh] at step
    split at step
    · cases step
      exact .inl ⟨.createWork, rfl⟩
    · cases step
      exact .inl ⟨.refused, rfl⟩
  | allocWork g =>
    cases granted g rfl
    cases h <;> simp [loadcodeAsyncStep, AsyncJob.fresh] at step
    cases step
    exact .inl ⟨.queueWork, rfl⟩
  | queueWork =>
    cases h <;> simp [loadcodeAsyncStep, AsyncJob.fresh] at step
    cases step
    exact .inr ⟨rfl, rfl⟩

-- a job that was handed over is no business of its submitter any more
theorem loadcodeAsyncStep_jobAt (args : AsyncArgs) (pc : AsyncPc) (move : SubmitMove) :
    loadcodeAsyncStep (jobAt args pc) move = none := by
  cases move <;> rfl

/-! ## The log -/

def positions : List AsyncPc :=
  [.queued, .entered, .executing, .fetching, .signalling, .testCallback, .testCallbackNores,
    .testCallbackWork, .freeData, .freeWork]

def eventsBefore (i : Nat) (args : AsyncArgs) (pc : AsyncPc) : List AsyncEvent :=
  (positions.takeWhile (· ≠ pc)).flatMap (eventsAt i args)

theorem eventsBefore_next (i : Nat) (args : AsyncArgs) {pc : AsyncPc} (queued : pc ≠ .idle)
    (running : pc ≠ .returned) :
    eventsBefore i args (nextPc pc) = eventsBefore i args pc ++ eventsAt i args pc := by
  cases pc with
  | idle => exact absurd rfl queued
  | returned => exact absurd rfl running
  | _ => simp [eventsBefore, positions, nextPc, List.takeWhile]

theorem eventsBefore_returned (args : Nat → AsyncArgs) (i : Nat) :
    eventsBefore i (args i) .returned = jobEvents args i := by
  cases callb : (args i).callb <;> cases needResult : (args i).needResult <;>
    simp [eventsBefore, positions, List.takeWhile, eventsAt, jobEvents, callbackEvents,
      callb, needResult]

/-! ## The invariant -/

-- the jobs that are over, the one that runs, and those that wait
structure DispatchInv (args : Nat → AsyncArgs) (finished : List Nat) (s : Dispatch) : Prop where
  order : s.submitted = finished ++ (s.running.toList ++ s.queue)
  distinct : s.submitted.Nodup
  log : s.log = finished.flatMap (jobEvents args) ++
    s.running.toList.flatMap fun i => eventsBefore i (args i) (s.jobs i).handler
  ended : ∀ i ∈ finished, s.jobs i = jobAt (args i) .returned
  runs : ∀ i, s.running = some i → ∃ pc, pc ≠ .idle ∧ pc ≠ .returned ∧ s.jobs i = jobAt (args i) pc
  waits : ∀ i ∈ s.queue, s.jobs i = jobAt (args i) .queued
  others : ∀ i, i ∉ s.submitted → Unqueued (args i) (s.jobs i)

theorem dispatchInv_initial (args : Nat → AsyncArgs) : DispatchInv args [] (.Initial args) := by
  refine ⟨rfl, List.nodup_nil, rfl, ?_, ?_, ?_, ?_⟩
  · simp
  · simp [Dispatch.Initial]
  · simp [Dispatch.Initial]
  · intro i _
    exact .start

theorem update_same (jobs : Nat → AsyncJob) (i : Nat) (job : AsyncJob) :
    Dispatch.update jobs i job i = job := by
  simp [Dispatch.update]

theorem update_other (jobs : Nat → AsyncJob) {i j : Nat} (job : AsyncJob) (h : j ≠ i) :
    Dispatch.update jobs i job j = jobs j := by
  simp [Dispatch.update, h]

variable {args : Nat → AsyncArgs} {finished : List Nat} {s t : Dispatch}

theorem DispatchInv.submitted_at (inv : DispatchInv args finished s) {i : Nat}
    (accepted : i ∈ s.submitted) :
    ∃ pc, s.jobs i = jobAt (args i) pc := by
  rw [inv.order, List.mem_append, List.mem_append, Option.mem_toList] at accepted
  rcases accepted with ended | running | waiting
  · exact ⟨.returned, inv.ended i ended⟩
  · obtain ⟨pc, _, _, at'⟩ := inv.runs i running
    exact ⟨pc, at'⟩
  · exact ⟨.queued, inv.waits i waiting⟩

-- the jobs that were accepted do not see that another one changes
theorem DispatchInv.untouched (inv : DispatchInv args finished s) {i : Nat}
    (fresh : i ∉ s.submitted) (job : AsyncJob) :
    s.log = finished.flatMap (jobEvents args) ++
        s.running.toList.flatMap (fun j => eventsBefore j (args j)
          (Dispatch.update s.jobs i job j).handler) ∧
      (∀ j ∈ finished, Dispatch.update s.jobs i job j = jobAt (args j) .returned) ∧
      (∀ j, s.running = some j →
        ∃ pc, pc ≠ .idle ∧ pc ≠ .returned ∧ Dispatch.update s.jobs i job j = jobAt (args j) pc) ∧
      ∀ j ∈ s.queue, Dispatch.update s.jobs i job j = jobAt (args j) .queued := by
  have kept : ∀ j ∈ s.submitted, Dispatch.update s.jobs i job j = s.jobs j := by
    intro j accepted
    apply update_other
    rintro rfl
    exact fresh accepted
  have members : ∀ j, j ∈ s.submitted ↔ j ∈ finished ∨ s.running = some j ∨ j ∈ s.queue := by
    intro j
    rw [inv.order, List.mem_append, List.mem_append, Option.mem_toList]
  refine ⟨?_, fun j ended => ?_, fun j running => ?_, fun j waiting => ?_⟩
  · rw [inv.log]
    congr 1
    apply List.flatMap_congr
    intro j running
    rw [kept j ((members j).mpr (.inr (.inl (Option.mem_toList.mp running))))]
  · rw [kept j ((members j).mpr (.inl ended))]
    exact inv.ended j ended
  · rw [kept j ((members j).mpr (.inr (.inl running)))]
    exact inv.runs j running
  · rw [kept j ((members j).mpr (.inr (.inr waiting)))]
    exact inv.waits j waiting

/-- Another job changes, one that was not accepted. -/
theorem DispatchInv.update (inv : DispatchInv args finished s) {i : Nat} (fresh : i ∉ s.submitted)
    (job : AsyncJob) (unqueued : Unqueued (args i) job) :
    DispatchInv args finished { s with jobs := Dispatch.update s.jobs i job } := by
  obtain ⟨log, ended, runs, waits⟩ := inv.untouched fresh job
  refine ⟨inv.order, inv.distinct, log, ended, runs, waits, fun j notAccepted => ?_⟩
  dsimp only
  by_cases same : j = i
  · subst same
    rw [update_same]
    exact unqueued
  · rw [update_other s.jobs job same]
    exact inv.others j notAccepted

/-- A submission is accepted: it waits behind all others. -/
theorem DispatchInv.accept (inv : DispatchInv args finished s) {i : Nat} (fresh : i ∉ s.submitted) :
    DispatchInv args finished
      { s with
        jobs := Dispatch.update s.jobs i (jobAt (args i) .queued)
        queue := s.queue ++ [i]
        submitted := s.submitted ++ [i] } := by
  obtain ⟨log, ended, runs, waits⟩ := inv.untouched fresh (jobAt (args i) .queued)
  refine ⟨?_, ?_, log, ended, runs, fun j waiting => ?_, fun j notAccepted => ?_⟩
  · dsimp only
    rw [inv.order]
    simp only [List.append_assoc]
  · dsimp only
    rw [List.nodup_append]
    refine ⟨inv.distinct, List.nodup_singleton i, ?_⟩
    rintro j accepted k last rfl
    rw [List.mem_singleton] at last
    subst last
    exact fresh accepted
  · rcases List.mem_append.mp waiting with older | new
    · exact waits j older
    · rw [List.mem_singleton] at new
      subst new
      exact update_same _ _ _
  · rw [List.mem_append, List.mem_singleton, not_or] at notAccepted
    dsimp only
    rw [update_other s.jobs _ notAccepted.2]
    exact inv.others j notAccepted.1

theorem submit_inv (inv : DispatchInv args finished s) {i : Nat} {move : SubmitMove}
    (granted : WorkGranted (.submit i move)) (step : Dispatch.step s (.submit i move) = some t) :
    DispatchInv args finished t := by
  simp only [Dispatch.step, Option.map_eq_some_iff] at step
  obtain ⟨job, moved, rfl⟩ := step
  have fresh : i ∉ s.submitted := by
    intro accepted
    obtain ⟨pc, at'⟩ := inv.submitted_at accepted
    rw [at', loadcodeAsyncStep_jobAt] at moved
    cases moved
  have workGranted : ∀ g, move = .allocWork g → g = true := by
    rintro g rfl
    exact granted
  rcases loadcodeAsyncStep_cases (inv.others i fresh) workGranted moved
    with ⟨unqueued, stays⟩ | ⟨rfl, queues⟩
  · simp only [stays, Bool.false_eq_true, if_false]
    exact inv.update fresh job unqueued
  · simp only [queues, if_true]
    exact inv.accept fresh

/-! ## The worker -/

/-- The first job that is not over takes a step of its handler. -/
theorem DispatchInv.advance (inv : DispatchInv args finished s) {i : Nat} {rest : List Nat}
    {pc : AsyncPc} (order : s.submitted = finished ++ i :: rest)
    (waits : ∀ j ∈ rest, s.jobs j = jobAt (args j) .queued) (queued : pc ≠ .idle)
    (running : pc ≠ .returned) (log : s.log = finished.flatMap (jobEvents args) ++
      eventsBefore i (args i) pc) :
    ∃ finished', DispatchInv args finished'
      { s with
        jobs := Dispatch.update s.jobs i (jobAt (args i) (nextPc pc))
        queue := rest
        running := if nextPc pc = .returned then none else some i
        log := s.log ++ eventsAt i (args i) pc } := by
  have distinct := inv.distinct
  rw [order, List.nodup_append] at distinct
  obtain ⟨_, later, apart⟩ := distinct
  rw [List.nodup_cons] at later
  have notFinished : ∀ j ∈ finished, j ≠ i := fun j ended => apart j ended i (List.mem_cons_self ..)
  have notWaiting : ∀ j ∈ rest, j ≠ i := by
    rintro j waiting rfl
    exact later.1 waiting
  have endedAt : ∀ j ∈ finished, Dispatch.update s.jobs i (jobAt (args i) (nextPc pc)) j =
      jobAt (args j) .returned := by
    intro j ended
    rw [update_other _ _ (notFinished j ended)]
    exact inv.ended j ended
  have waitsAt : ∀ j ∈ rest, Dispatch.update s.jobs i (jobAt (args i) (nextPc pc)) j =
      jobAt (args j) .queued := by
    intro j waiting
    rw [update_other _ _ (notWaiting j waiting)]
    exact waits j waiting
  have othersAt : ∀ j, j ∉ s.submitted →
      Unqueued (args j) (Dispatch.update s.jobs i (jobAt (args i) (nextPc pc)) j) := by
    intro j notAccepted
    have different : j ≠ i := by
      rintro rfl
      exact notAccepted (by simp [order])
    rw [update_other _ _ different]
    exact inv.others j notAccepted
  have newLog : s.log ++ eventsAt i (args i) pc =
      finished.flatMap (jobEvents args) ++ eventsBefore i (args i) (nextPc pc) := by
    rw [log, List.append_assoc, eventsBefore_next i (args i) queued running]
  by_cases last : nextPc pc = .returned
  · refine ⟨finished ++ [i], ?_, inv.distinct, ?_, ?_, ?_, waitsAt, othersAt⟩
    · simp [order, last]
    · simp only [newLog, last, eventsBefore_returned]
      simp
    · intro j ended
      rcases List.mem_append.mp ended with older | new
      · exact endedAt j older
      · rw [List.mem_singleton] at new
        subst new
        simp only [update_same, last]
    · intro j runs
      simp [last] at runs
  · have running' : nextPc pc ≠ .idle := by cases pc <;> simp_all [nextPc]
    refine ⟨finished, ?_, inv.distinct, ?_, endedAt, ?_, waitsAt, othersAt⟩
    · simp [order, last]
    · simp only [newLog, last, if_false, Option.toList_some, List.flatMap_cons, List.flatMap_nil,
        update_same, jobAt]
      simp
    · intro j runs
      simp only [last, if_false, Option.some.injEq] at runs
      subst runs
      exact ⟨nextPc pc, running', last, update_same _ _ _⟩

theorem worker_inv (inv : DispatchInv args finished s) (step : Dispatch.step s .worker = some t) :
    ∃ finished', DispatchInv args finished' t := by
  simp only [Dispatch.step] at step
  split at step
  next _ i running =>
    obtain ⟨pc, queued, notOver, at'⟩ := inv.runs i running
    rw [at', asyncHandlerStep_jobAt i (args i) queued notOver] at step
    cases step
    have order := inv.order
    have log := inv.log
    rw [running] at order log
    simp only [Option.toList_some, List.flatMap_cons, List.flatMap_nil, List.append_nil, at'] at log
    exact inv.advance order inv.waits queued notOver log
  next i rest idle queue =>
    have order := inv.order
    have log := inv.log
    have waits := inv.waits
    rw [idle, queue] at order
    rw [idle] at log
    rw [queue] at waits
    rw [waits i (List.mem_cons_self ..), asyncHandlerStep_jobAt i (args i) (by simp) (by simp)]
      at step
    cases step
    simp only [Option.toList_none, List.flatMap_nil, List.append_nil] at log
    have queued : AsyncPc.queued ≠ .idle := by simp
    exact inv.advance order (fun j waiting => waits j (List.mem_cons_of_mem _ waiting))
      queued (by simp) (by rw [log]; simp [eventsBefore, positions])
  next => cases step

theorem dispatch_inv {labels : List DispatchLabel}
    (meets : dispatchSystem.Meets (fun _ label => WorkGranted label) (.Initial args) labels)
    (reached : dispatchSystem.run (.Initial args) labels = some s) :
    ∃ finished, DispatchInv args finished s := by
  have start : ∃ finished, DispatchInv args finished (.Initial args) :=
    ⟨[], dispatchInv_initial args⟩
  have preserved : ∀ s label t, (∃ finished, DispatchInv args finished s) → WorkGranted label →
      dispatchSystem.step s label = some t → ∃ finished, DispatchInv args finished t := by
    rintro s label t ⟨finished, inv⟩ granted step
    cases label with
    | submit i move => exact ⟨finished, submit_inv inv granted step⟩
    | worker => exact worker_inv inv step
  exact System.invariant_of_meets dispatchSystem preserved start meets reached

/-! ## The workqueue empties -/

-- the steps that a handler has left
def stepsLeft : AsyncPc → Nat
  | .idle | .returned => 0
  | .queued => 10
  | .entered => 9
  | .executing => 8
  | .fetching => 7
  | .signalling => 6
  | .testCallback => 5
  | .testCallbackNores => 4
  | .testCallbackWork => 3
  | .freeData => 2
  | .freeWork => 1

def workLeft (s : Dispatch) : Nat :=
  (s.running.toList.map fun i => stepsLeft (s.jobs i).handler).sum + 10 * s.queue.length

theorem stepsLeft_next {pc : AsyncPc} (queued : pc ≠ .idle) (running : pc ≠ .returned) :
    stepsLeft (nextPc pc) + 1 = stepsLeft pc := by
  cases pc with
  | idle => exact absurd rfl queued
  | returned => exact absurd rfl running
  | _ => rfl

theorem DispatchInv.idle_of_workLeft (inv : DispatchInv args finished s)
    (none_left : workLeft s = 0) :
    s.queue = [] ∧ s.running = none := by
  unfold workLeft at none_left
  have empty : s.queue.length = 0 := by omega
  refine ⟨List.length_eq_zero_iff.mp empty, ?_⟩
  cases running : s.running with
  | none => rfl
  | some i =>
    obtain ⟨pc, queued, notOver, at'⟩ := inv.runs i running
    have left := stepsLeft_next queued notOver
    simp only [running, Option.toList_some, List.map_cons, List.map_nil, List.sum_cons,
      List.sum_nil, at', jobAt]
      at none_left
    omega

/-- The worker never gets stuck, and every step brings it nearer to the end. -/
theorem DispatchInv.worker_moves (inv : DispatchInv args finished s) (some_left : workLeft s ≠ 0) :
    ∃ t, Dispatch.step s .worker = some t ∧ workLeft t + 1 = workLeft s ∧
      t.submitted = s.submitted := by
  cases running : s.running with
  | some i =>
    obtain ⟨pc, queued, notOver, at'⟩ := inv.runs i running
    have left := stepsLeft_next queued notOver
    have step : Dispatch.step s .worker = some
        { s with
          jobs := Dispatch.update s.jobs i (jobAt (args i) (nextPc pc))
          running := if nextPc pc = .returned then none else some i
          log := s.log ++ eventsAt i (args i) pc } := by
      simp only [Dispatch.step, running, at', asyncHandlerStep_jobAt i (args i) queued notOver]
      rfl
    refine ⟨_, step, ?_, rfl⟩
    by_cases last : nextPc pc = .returned
    · rw [last] at left
      have one : stepsLeft pc = 1 := left.symm
      simp [workLeft, running, at', jobAt, last, one, Nat.add_comm]
    · simp [workLeft, running, at', jobAt, last, ← left, update_same]
      omega
  | none =>
    cases queue : s.queue with
    | nil => simp [workLeft, running, queue] at some_left
    | cons i rest =>
      have at' := inv.waits i (by simp [queue])
      have step : Dispatch.step s .worker = some
          { s with
            jobs := Dispatch.update s.jobs i (jobAt (args i) .entered)
            queue := rest
            running := some i
            log := s.log ++ eventsAt i (args i) .queued } := by
        simp only [Dispatch.step, running, queue, at', asyncHandlerStep_jobAt i (args i)
          (show AsyncPc.queued ≠ .idle by simp) (show AsyncPc.queued ≠ .returned by simp)]
        rfl
      refine ⟨_, step, ?_, rfl⟩
      simp [workLeft, running, queue, update_same, jobAt, stepsLeft]
      omega

theorem worker_drains (left : Nat) (inv : DispatchInv args finished s) (size : workLeft s = left) :
    ∃ t, dispatchSystem.run s (List.replicate left .worker) = some t ∧ t.submitted = s.submitted ∧
      ∃ finished', DispatchInv args finished' t ∧ t.queue = [] ∧ t.running = none := by
  induction left generalizing s finished with
  | zero => exact ⟨s, rfl, rfl, finished, inv, inv.idle_of_workLeft size⟩
  | succ left ih =>
    obtain ⟨u, step, less, same⟩ := inv.worker_moves (by omega)
    obtain ⟨finished', inv'⟩ := worker_inv inv step
    obtain ⟨t, runs, kept, idle⟩ := ih inv' (by omega)
    refine ⟨t, ?_, kept.trans same, idle⟩
    simp only [List.replicate_succ, System.run]
    rw [show dispatchSystem.step s .worker = some u from step]
    exact runs

/-! ## All runs -/

theorem eventsBefore_isPrefix (args : Nat → AsyncArgs) (i : Nat) (pc : AsyncPc) :
    eventsBefore i (args i) pc <+: jobEvents args i := by
  rw [← eventsBefore_returned]
  have whole : positions.takeWhile (· ≠ .returned) = positions := by decide
  unfold eventsBefore
  rw [whole]
  exact (List.takeWhile_prefix _).flatMap _

theorem DispatchInv.log_isPrefix (inv : DispatchInv args finished s) :
    s.log <+: s.submitted.flatMap (jobEvents args) := by
  rw [inv.log, inv.order, List.flatMap_append, List.prefix_append_right_inj, List.flatMap_append]
  cases s.running with
  | none => exact List.nil_prefix
  | some i =>
    simp only [Option.toList_some, List.flatMap_cons, List.flatMap_nil, List.append_nil]
    exact (eventsBefore_isPrefix args i _).trans (List.prefix_append _ _)

theorem DispatchInv.log_of_idle (inv : DispatchInv args finished s) (queue : s.queue = [])
    (running : s.running = none) :
    s.log = s.submitted.flatMap (jobEvents args) ∧ ∀ i ∈ s.submitted,
      (s.jobs i).handler = .returned := by
  have log := inv.log
  have order := inv.order
  simp only [running, Option.toList_none, List.flatMap_nil, List.append_nil] at log
  simp only [running, queue, Option.toList_none, List.append_nil] at order
  rw [order]
  refine ⟨log, fun i ended => ?_⟩
  rw [inv.ended i ended]
  rfl

theorem DispatchInv.released (inv : DispatchInv args finished s) (i : Nat) :
    BlocksReleased (s.jobs i) := by
  by_cases accepted : i ∈ s.submitted
  · obtain ⟨pc, at'⟩ := inv.submitted_at accepted
    rw [at']
    exact jobAt_released (args i) pc
  · exact (inv.others i accepted).released

-- the first submission wants a result, the second does not
def twoArgs (i : Nat) : AsyncArgs :=
  { needResult := i == 0, callb := true, callbArg := i, product := ⟨0, 0, some ⟨4096, 0, 0, 0, 0⟩⟩ }

-- the second is allocated first and queued while the first one runs
def overlapping : List DispatchLabel :=
  [.submit 1 (.allocData true), .submit 0 (.allocData true), .submit 0 (.allocWork true),
    .submit 0 .queueWork, .worker, .worker, .submit 1 (.allocWork true), .worker,
    .submit 1 .queueWork, .worker]

end Lunatik.Verified
