import Lunatik.Core.SyncJob

/-! # Lifetime of a synchronous job

The handler touches `lw` until it has loaded `lw->work_data` and `lw->lc`, and `d` until
it has tested `d->callback_work`.  Nothing in `lunatik_loadcode_sync` waits for either: an
interrupted caller frees both blocks at once, and a woken one may free `d` while the
handler is still testing the callbacks.  `FreesInTime` is the condition on the single
steps under which the calls that share a workqueue are sound, whatever their order.
-/

namespace Lunatik.Verified

open Lunatik.Core Lunatik.Library

/-! ## The property and the condition -/

/-- No access to a freed block, no block freed twice, both freed once the call is over,
    and an uninterrupted call returns what its own chunk produced. -/
structure JobSafe (job : Job) : Prop where
  noUseAfterFree : job.usedFreed = false
  noOops : job.caller ≠ .oops
  dFrees : job.d.frees ≤ 1
  lwFrees : job.lw.frees ≤ 1
  released : job.caller = .returned →
    job.d.frees = job.d.granted.toNat ∧ job.lw.frees = job.lw.granted.toNat
  outcome : job.caller = .returned → job.d.granted = true → job.interrupted = false →
    job.ret = job.delivered.1 ∧ job.stored = if job.presult then some job.delivered.2 else none

def WorkerPc.hasReadWork : WorkerPc → Bool
  | .idle | .queued | .entered => false
  | _ => true

def FreesInTime (s : Pool) : PoolLabel → Prop
  | .caller _ (.allocWork granted) => granted = true
  | .caller i .freeWork => WorkerPc.hasReadWork (s.jobs i).worker = true
  | .caller i .freeData => (s.jobs i).worker = .returned
  | _ => True

instance (s : Pool) (label : PoolLabel) : Decidable (FreesInTime s label) := by
  unfold FreesInTime
  split <;> infer_instance

/-! ## The invariant of one call -/

-- the caller holds `d`; the caller holds `lw`
def CallerPc.ownsData : CallerPc → Bool
  | .createWork | .queueWork | .waiting | .copyResult | .copyRet | .freeWork | .freeData => true
  | _ => false

def CallerPc.ownsWork : CallerPc → Bool
  | .queueWork | .waiting | .copyResult | .copyRet | .freeWork => true
  | _ => false

def WorkerPc.hasSignalled : WorkerPc → Bool
  | .testCallback | .testCallbackNores | .testCallbackWork | .returned => true
  | _ => false

/-- The blocks follow the caller, and the caller may have freed a block only after the
    handler's last access to it. -/
structure BlockInv (job : Job) : Prop where
  safe : job.usedFreed = false
  noOops : job.caller ≠ .oops
  start : job.caller = .start → job.d = .absent
  before : job.caller = .start ∨ job.caller = .createWork → job.lw = .absent
  ownsData : CallerPc.ownsData job.caller = true → job.d = ⟨true, 0⟩
  ownsWork : CallerPc.ownsWork job.caller = true → job.lw = ⟨true, 0⟩
  workFreed : job.caller = .freeData → job.lw = ⟨true, 1⟩ ∧ WorkerPc.hasReadWork job.worker = true
  ended : job.caller = .returned →
    (job.d = .absent ∧ job.lw = .absent ∧ job.worker = .idle) ∨
      (job.d = ⟨true, 1⟩ ∧ job.lw = ⟨true, 1⟩ ∧ job.worker = .returned)
  notQueued : job.caller = .start ∨ job.caller = .createWork ∨ job.caller = .queueWork →
    job.worker = .idle

/-- Where the two blocks are, by the place of the caller. -/
def Places (d lw : Block) (worker : WorkerPc) : CallerPc → Prop
  | .start => d = .absent ∧ lw = .absent ∧ worker = .idle
  | .createWork => d = ⟨true, 0⟩ ∧ lw = .absent ∧ worker = .idle
  | .queueWork => d = ⟨true, 0⟩ ∧ lw = ⟨true, 0⟩ ∧ worker = .idle
  | .waiting | .copyResult | .copyRet | .freeWork => d = ⟨true, 0⟩ ∧ lw = ⟨true, 0⟩
  | .freeData => d = ⟨true, 0⟩ ∧ lw = ⟨true, 1⟩ ∧ WorkerPc.hasReadWork worker = true
  | .returned => (d = .absent ∧ lw = .absent ∧ worker = .idle) ∨
    (d = ⟨true, 1⟩ ∧ lw = ⟨true, 1⟩ ∧ worker = .returned)
  | .oops => False

theorem BlockInv.places {job : Job} (inv : BlockInv job) :
    Places job.d job.lw job.worker job.caller := by
  obtain ⟨-, noOops, start, before, ownsData, ownsWork, workFreed, ended, notQueued⟩ := inv
  cases here : job.caller with
  | start => exact ⟨start here, before (.inl here), notQueued (.inl here)⟩
  | createWork =>
    exact ⟨ownsData (by rw [here]; rfl), before (.inr here), notQueued (.inr (.inl here))⟩
  | queueWork =>
    exact ⟨ownsData (by rw [here]; rfl), ownsWork (by rw [here]; rfl), notQueued (.inr (.inr here))⟩
  | waiting | copyResult | copyRet | freeWork =>
    exact ⟨ownsData (by rw [here]; rfl), ownsWork (by rw [here]; rfl)⟩
  | freeData => exact ⟨ownsData (by rw [here]; rfl), workFreed here⟩
  | returned => exact ended here
  | oops => exact absurd here noOops

theorem BlockInv.of_places {job : Job} (safe : job.usedFreed = false)
    (places : Places job.d job.lw job.worker job.caller) : BlockInv job := by
  cases here : job.caller with
  | oops =>
    rw [here] at places
    exact places.elim
  | returned =>
    rw [here] at places
    constructor <;> simp [here, safe, CallerPc.ownsData, CallerPc.ownsWork]
    exact places
  | freeData =>
    rw [here] at places
    obtain ⟨d, lw, readWork⟩ := places
    constructor <;> simp [here, safe, d, lw, readWork, CallerPc.ownsData, CallerPc.ownsWork]
  | waiting | copyResult | copyRet | freeWork =>
    rw [here] at places
    obtain ⟨d, lw⟩ := places
    constructor <;> simp [here, safe, d, lw, CallerPc.ownsData, CallerPc.ownsWork]
  | start | createWork | queueWork =>
    rw [here] at places
    obtain ⟨d, lw, idle⟩ := places
    constructor <;> simp [here, safe, d, lw, idle, CallerPc.ownsData, CallerPc.ownsWork]

theorem BlockInv.fresh (presult : Bool) (product : Product) : BlockInv (.fresh presult product) :=
  .of_places rfl ⟨rfl, rfl, rfl⟩

-- an access to a block that is there
theorem touchD_safe {job : Job} (safe : job.usedFreed = false) (live : job.d.live = true) :
    job.touchD.usedFreed = false := by
  rw [Job.touchD, safe, live]
  rfl

theorem touchLw_safe {job : Job} (safe : job.usedFreed = false) (live : job.lw.live = true) :
    job.touchLw.usedFreed = false := by
  rw [Job.touchLw, safe, live]
  rfl

theorem BlockInv.caller {job job' : Job} {move : CallerMove} (inv : BlockInv job)
    (granted : ∀ g, move = .allocWork g → g = true)
    (workRead : move = .freeWork → WorkerPc.hasReadWork job.worker = true)
    (dataRead : move = .freeData → job.worker = .returned)
    (stepped : loadcodeSyncStep job move = some job') : BlockInv job' := by
  have safe := inv.safe
  have places := inv.places
  have live : ∀ {b : Block}, b = ⟨true, 0⟩ → b.live = true := fun same => same ▸ rfl
  cases move with
  | allocData g =>
    simp only [loadcodeSyncStep] at stepped
    split at stepped
    next here =>
      rw [here] at places
      cases g with
      | true =>
        cases stepped
        exact .of_places safe ⟨rfl, places.2⟩
      | false =>
        cases stepped
        exact .of_places safe (.inl places)
    next => cases stepped
  | allocWork g =>
    cases granted g rfl
    simp only [loadcodeSyncStep] at stepped
    split at stepped
    next here =>
      rw [here] at places
      cases stepped
      exact .of_places safe ⟨places.1, rfl, places.2.2⟩
    next => cases stepped
  | queueWork =>
    simp only [loadcodeSyncStep] at stepped
    split at stepped
    next here =>
      rw [here] at places
      obtain ⟨d, lw, -⟩ := places
      rw [if_pos (by rw [lw])] at stepped
      cases stepped
      exact .of_places (touchLw_safe safe (live lw)) ⟨d, lw⟩
    next => cases stepped
  | wake =>
    simp only [loadcodeSyncStep] at stepped
    split at stepped
    next here =>
      rw [here.1] at places
      cases stepped
      exact .of_places (touchD_safe safe (live places.1)) places
    next => cases stepped
  | copyResult =>
    simp only [loadcodeSyncStep] at stepped
    split at stepped
    next here =>
      rw [here] at places
      split at stepped
      next =>
        cases stepped
        exact .of_places (touchD_safe safe (live places.1)) places
      next =>
        cases stepped
        exact .of_places safe places
    next => cases stepped
  | interrupt | copyRet =>
    simp only [loadcodeSyncStep] at stepped
    split at stepped
    next here =>
      rw [here] at places
      cases stepped
      exact .of_places (touchD_safe safe (live places.1)) places
    next => cases stepped
  | freeWork =>
    simp only [loadcodeSyncStep] at stepped
    split at stepped
    next here =>
      rw [here] at places
      cases stepped
      exact .of_places safe ⟨places.1, congrArg Block.kfree places.2, workRead rfl⟩
    next => cases stepped
  | freeData =>
    simp only [loadcodeSyncStep] at stepped
    split at stepped
    next here =>
      rw [here] at places
      cases stepped
      exact .of_places safe (.inr ⟨congrArg Block.kfree places.1, places.2.1, dataRead rfl⟩)
    next => cases stepped

/-- A queued item still has both blocks wherever the handler accesses them. -/
theorem BlockInv.held {job : Job} (inv : BlockInv job) (queued : job.worker ≠ .idle)
    (running : job.worker ≠ .returned) :
    job.d.live = true ∧ (WorkerPc.hasReadWork job.worker = false → job.lw.live = true) := by
  have places := inv.places
  cases here : job.caller with
  | start | createWork | queueWork =>
    rw [here] at places
    exact absurd places.2.2 queued
  | waiting | copyResult | copyRet | freeWork =>
    rw [here] at places
    rw [places.1, places.2]
    exact ⟨rfl, fun _ => rfl⟩
  | freeData =>
    rw [here] at places
    rw [places.1, places.2.2]
    exact ⟨rfl, fun unread => nomatch unread⟩
  | returned =>
    rw [here] at places
    rcases places with ⟨-, -, idle⟩ | ⟨-, -, done⟩
    · exact absurd idle queued
    · exact absurd done running
  | oops => exact absurd here inv.noOops

-- the handler runs on, without any caller that waits for it to be idle or done
theorem Places.worker {d lw : Block} {pc : CallerPc} {worker worker' : WorkerPc}
    (places : Places d lw worker pc) (queued : worker ≠ .idle) (running : worker ≠ .returned)
    (readWork : WorkerPc.hasReadWork worker = true → WorkerPc.hasReadWork worker' = true) :
    Places d lw worker' pc := by
  cases pc with
  | start | createWork | queueWork => exact absurd places.2.2 queued
  | waiting | copyResult | copyRet | freeWork => exact places
  | freeData => exact ⟨places.1, places.2.1, readWork places.2.2⟩
  | returned =>
    rcases places with ⟨-, -, idle⟩ | ⟨-, -, done⟩
    · exact absurd idle queued
    · exact absurd done running
  | oops => exact places.elim

theorem BlockInv.worker {job job' : Job} (inv : BlockInv job)
    (stepped : loadcodeWorkHandlerStep job = some job') : BlockInv job' := by
  have safe := inv.safe
  cases here : job.worker with
  | idle | returned =>
    rw [loadcodeWorkHandlerStep, here] at stepped
    cases stepped
  | queued | entered =>
    have held := inv.held (by rw [here]; nofun) (by rw [here]; nofun)
    have places := inv.places
    rw [here] at held places
    simp only [loadcodeWorkHandlerStep, here] at stepped
    cases stepped
    exact .of_places (touchLw_safe safe (held.2 rfl)) (places.worker nofun nofun nofun)
  | executing | signalling | testCallback | testCallbackNores | testCallbackWork =>
    have held := inv.held (by rw [here]; nofun) (by rw [here]; nofun)
    have places := inv.places
    rw [here] at held places
    simp only [loadcodeWorkHandlerStep, here] at stepped
    cases stepped
    exact .of_places (touchD_safe safe held.1) (places.worker nofun nofun fun _ => rfl)
  | fetching =>
    have held := inv.held (by rw [here]; nofun) (by rw [here]; nofun)
    have places := inv.places
    rw [here] at held places
    simp only [loadcodeWorkHandlerStep, here] at stepped
    split at stepped
    all_goals
      cases stepped
      exact .of_places (touchD_safe safe held.1) (places.worker nofun nofun fun _ => rfl)

/-! ## What a call delivers -/

def WorkerPc.hasFetched : WorkerPc → Bool
  | .signalling => true
  | pc => WorkerPc.hasSignalled pc

def CallerPc.isWoken : CallerPc → Bool
  | .copyResult | .copyRet => true
  | _ => false

def CallerPc.isCleaningUp : CallerPc → Bool
  | .freeWork | .freeData | .returned => true
  | _ => false

structure OutcomeInv (job : Job) : Prop where
  needResult : job.worker ≠ .idle ∨ CallerPc.ownsData job.caller = true →
    job.data.needResult = job.presult
  unfetched : WorkerPc.hasFetched job.worker = false → job.data.result = none
  executed : job.worker = .fetching → job.data.ret = job.product.status
  fetched : WorkerPc.hasFetched job.worker = true → (job.data.ret, job.data.result) = job.delivered
  signalled : 0 < job.data.complete → WorkerPc.hasSignalled job.worker = true
  woken : CallerPc.isWoken job.caller = true → WorkerPc.hasSignalled job.worker = true
  early : job.caller ≠ .copyRet → CallerPc.isCleaningUp job.caller = false → job.stored = none
  stored : job.caller = .copyRet →
    job.stored = if job.presult then some job.delivered.2 else none
  outcome : CallerPc.isCleaningUp job.caller = true → job.d.granted = true →
    job.interrupted = false →
    job.ret = job.delivered.1 ∧ job.stored = if job.presult then some job.delivered.2 else none

theorem OutcomeInv.fresh (presult : Bool) (product : Product) :
    OutcomeInv (.fresh presult product) := by
  constructor <;>
    simp [Job.fresh, CallerPc.ownsData, WorkerPc.hasFetched, WorkerPc.hasSignalled,
      CallerPc.isWoken, CallerPc.isCleaningUp]

theorem WorkerPc.hasFetched_of_hasSignalled {worker : WorkerPc}
    (signalled : WorkerPc.hasSignalled worker = true) :
    WorkerPc.hasFetched worker = true := by
  cases worker with
  | signalling => rfl
  | _ => exact signalled

/-- The caller is woken only by the `up` of its own handler, so it finds `d` filled in. -/
theorem OutcomeInv.filled {job : Job} (inv : OutcomeInv job)
    (awake : CallerPc.isWoken job.caller = true) :
    job.data.ret = job.delivered.1 ∧ job.data.result = job.delivered.2 := by
  have both := inv.fetched (WorkerPc.hasFetched_of_hasSignalled (inv.woken awake))
  exact ⟨congrArg Prod.fst both, congrArg Prod.snd both⟩

-- a move that leaves the data and the handler alone
theorem OutcomeInv.moved {job job' : Job} (inv : OutcomeInv job)
    (data : (job'.data, job'.worker, job'.presult, job'.product) =
      (job.data, job.worker, job.presult, job.product))
    (held : CallerPc.ownsData job'.caller = true → CallerPc.ownsData job.caller = true)
    (woken : CallerPc.isWoken job'.caller = true → WorkerPc.hasSignalled job.worker = true)
    (early : job'.caller ≠ .copyRet → CallerPc.isCleaningUp job'.caller = false →
      job'.stored = none)
    (stored : job'.caller = .copyRet → job'.stored = if job.presult then
      some job.delivered.2 else none)
    (outcome : CallerPc.isCleaningUp job'.caller = true → job'.d.granted = true →
      job'.interrupted = false →
      job'.ret = job.delivered.1 ∧ job'.stored = if job.presult then
        some job.delivered.2 else none) :
    OutcomeInv job' := by
  simp only [Prod.mk.injEq] at data
  obtain ⟨sameData, sameWorker, samePresult, sameProduct⟩ := data
  have delivered : job'.delivered = job.delivered := by
    rw [Job.delivered, Job.delivered, samePresult, sameProduct]
  constructor
  case needResult =>
    rw [sameWorker, sameData, samePresult]
    exact fun started => inv.needResult (started.imp_right held)
  case unfetched =>
    rw [sameWorker, sameData]
    exact inv.unfetched
  case executed =>
    rw [sameWorker, sameData, sameProduct]
    exact inv.executed
  case fetched =>
    rw [sameWorker, sameData, delivered]
    exact inv.fetched
  case signalled =>
    rw [sameWorker, sameData]
    exact inv.signalled
  case woken =>
    rw [sameWorker]
    exact woken
  case early => exact early
  case stored =>
    rw [samePresult, delivered]
    exact stored
  case outcome =>
    rw [samePresult, delivered]
    exact outcome

theorem OutcomeInv.caller {job job' : Job} {move : CallerMove} (blocks : BlockInv job)
    (inv : OutcomeInv job) (stepped : loadcodeSyncStep job move = some job') : OutcomeInv job' := by
  have places := blocks.places
  cases move with
  | allocData g =>
    simp only [loadcodeSyncStep] at stepped
    split at stepped
    next here =>
      rw [here] at places
      obtain ⟨ungranted, -, idle⟩ := places
      cases g with
      | true =>
        cases stepped
        have idle' : job.worker ≠ .fetching := by rw [idle]; nofun
        have unfetched : WorkerPc.hasFetched job.worker ≠ true := by rw [idle]; nofun
        exact ⟨fun _ => rfl, fun _ => rfl, fun fetching => absurd fetching idle',
          fun fetched => absurd fetched unfetched, fun more => absurd more (Nat.lt_irrefl 0), nofun,
          fun _ _ => inv.early (by rw [here]; nofun) (by rw [here]; rfl), nofun, nofun⟩
      | false =>
        cases stepped
        exact inv.moved rfl nofun nofun (fun _ => nofun) nofun fun _ granted => by
          rw [ungranted] at granted
          cases granted
    next => cases stepped
  | queueWork =>
    simp only [loadcodeSyncStep] at stepped
    split at stepped
    next here =>
      rw [here] at places
      obtain ⟨-, lw, idle⟩ := places
      rw [if_pos (by rw [lw])] at stepped
      cases stepped
      have unsignalled : WorkerPc.hasSignalled job.worker ≠ true := by rw [idle]; nofun
      exact ⟨fun _ => inv.needResult (.inr (by rw [here]; rfl)),
        fun _ => inv.unfetched (by rw [idle]; rfl), nofun, nofun,
        fun more => absurd (inv.signalled more) unsignalled, nofun,
        fun _ _ => inv.early (by rw [here]; nofun) (by rw [here]; rfl), nofun, nofun⟩
    next => cases stepped
  | wake =>
    simp only [loadcodeSyncStep] at stepped
    split at stepped
    next here =>
      cases stepped
      have signalled := inv.signalled here.2
      exact ⟨fun _ => inv.needResult (.inr (by rw [here.1]; rfl)), inv.unfetched, inv.executed,
        inv.fetched, fun _ => signalled, fun _ => signalled,
        fun _ _ => inv.early (by rw [here.1]; nofun) (by rw [here.1]; rfl), nofun, nofun⟩
    next => cases stepped
  | copyResult =>
    simp only [loadcodeSyncStep] at stepped
    split at stepped
    next here =>
      have woken : CallerPc.isWoken job.caller = true := by rw [here]; rfl
      have owns : CallerPc.ownsData job.caller = true := by rw [here]; rfl
      have filled := inv.filled woken
      have none := inv.early (by rw [here]; nofun) (by rw [here]; rfl)
      split at stepped
      next wanted =>
        cases stepped
        refine inv.moved rfl (fun _ => owns) (fun _ => inv.woken woken) (fun other =>
          absurd rfl other) (fun _ => ?_) nofun
        rw [if_pos wanted, ← filled.2]
      next unwanted =>
        cases stepped
        refine inv.moved rfl (fun _ => owns) (fun _ => inv.woken woken) (fun other =>
          absurd rfl other) (fun _ => ?_) nofun
        rw [if_neg unwanted]
        exact none
    next => cases stepped
  | copyRet =>
    simp only [loadcodeSyncStep] at stepped
    split at stepped
    next here =>
      have filled := inv.filled (by rw [here]; rfl)
      cases stepped
      exact inv.moved rfl (fun _ => by rw [here]; rfl) nofun (fun _ => nofun) nofun
        fun _ _ _ => ⟨filled.1, inv.stored here⟩
    next => cases stepped
  | allocWork g =>
    simp only [loadcodeSyncStep] at stepped
    split at stepped
    next here =>
      cases stepped
      exact inv.moved rfl (fun _ => by rw [here]; rfl) nofun
        (fun _ _ => inv.early (by rw [here]; nofun) (by rw [here]; rfl)) nofun nofun
    next => cases stepped
  | interrupt =>
    simp only [loadcodeSyncStep] at stepped
    split at stepped
    next here =>
      cases stepped
      exact inv.moved rfl (fun _ => by rw [here]; rfl) nofun (fun _ => nofun) nofun fun _ _ => nofun
    next => cases stepped
  | freeWork | freeData =>
    simp only [loadcodeSyncStep] at stepped
    split at stepped
    next here =>
      cases stepped
      exact inv.moved rfl (fun _ => by rw [here]; rfl) nofun (fun _ => nofun) nofun
        fun _ => inv.outcome (by rw [here]; rfl)
    next => cases stepped

theorem OutcomeInv.worker {job job' : Job} (inv : OutcomeInv job)
    (stepped : loadcodeWorkHandlerStep job = some job') : OutcomeInv job' := by
  cases here : job.worker with
  | idle | returned =>
    rw [loadcodeWorkHandlerStep, here] at stepped
    cases stepped
  | queued | entered =>
    have needResult := inv.needResult (.inl (by rw [here]; nofun))
    have unfetched := inv.unfetched (by rw [here]; rfl)
    have unsignalled : WorkerPc.hasSignalled job.worker ≠ true := by rw [here]; nofun
    simp only [loadcodeWorkHandlerStep, here] at stepped
    cases stepped
    exact ⟨fun _ => needResult, fun _ => unfetched, nofun, nofun,
      fun more => absurd (inv.signalled more) unsignalled,
      fun awake => absurd (inv.woken awake) unsignalled, inv.early, inv.stored, inv.outcome⟩
  | executing =>
    have needResult := inv.needResult (.inl (by rw [here]; nofun))
    have unfetched := inv.unfetched (by rw [here]; rfl)
    have unsignalled : WorkerPc.hasSignalled job.worker ≠ true := by rw [here]; nofun
    simp only [loadcodeWorkHandlerStep, here] at stepped
    cases stepped
    exact ⟨fun _ => needResult, fun _ => unfetched, fun _ => rfl, nofun,
      fun more => absurd (inv.signalled more) unsignalled,
      fun awake => absurd (inv.woken awake) unsignalled, inv.early, inv.stored, inv.outcome⟩
  | fetching =>
    have needResult := inv.needResult (.inl (by rw [here]; nofun))
    have unfetched := inv.unfetched (by rw [here]; rfl)
    have unsignalled : WorkerPc.hasSignalled job.worker ≠ true := by rw [here]; nofun
    simp only [loadcodeWorkHandlerStep, here] at stepped
    split at stepped
    next wanted =>
      cases stepped
      rw [needResult] at wanted
      refine ⟨fun _ => needResult, nofun, nofun, fun _ => ?_,
        fun more => absurd (inv.signalled more) unsignalled,
        fun awake => absurd (inv.woken awake) unsignalled, inv.early, inv.stored, inv.outcome⟩
      exact (if_pos wanted).symm
    next unwanted =>
      cases stepped
      rw [needResult] at unwanted
      refine ⟨fun _ => needResult, nofun, nofun, fun _ => ?_,
        fun more => absurd (inv.signalled more) unsignalled,
        fun awake => absurd (inv.woken awake) unsignalled, inv.early, inv.stored, inv.outcome⟩
      refine Eq.trans ?_ (if_neg unwanted).symm
      exact congrArg₂ Prod.mk (inv.executed here) unfetched
  | signalling | testCallback | testCallbackNores | testCallbackWork =>
    have needResult := inv.needResult (.inl (by rw [here]; nofun))
    have fetched := inv.fetched (by rw [here]; rfl)
    simp only [loadcodeWorkHandlerStep, here] at stepped
    cases stepped
    exact ⟨fun _ => needResult, nofun, nofun, fun _ => fetched, fun _ => rfl, fun _ => rfl,
      inv.early, inv.stored, inv.outcome⟩

/-! ## Runs of a whole pool -/

structure JobInv (job : Job) : Prop where
  blocks : BlockInv job
  outcome : OutcomeInv job

theorem JobInv.safe {job : Job} (inv : JobInv job) : JobSafe job := by
  obtain ⟨⟨safe, noOops, start, before, ownsData, ownsWork, workFreed, ended, -⟩, outcome⟩ := inv
  refine ⟨safe, noOops, ?_, ?_, ?_, fun here =>
    outcome.outcome (by simp [here, CallerPc.isCleaningUp])⟩
  all_goals
    cases here : job.caller <;>
      simp_all [CallerPc.ownsData, CallerPc.ownsWork, Block.absent]
  all_goals rcases ended with ⟨d, lw, -⟩ | ⟨d, lw, -⟩ <;> simp [d, lw]

def PoolInv (s : Pool) : Prop := ∀ i, JobInv (s.jobs i)

theorem poolInv_initial {s : Pool} (initial : s.Initial) : PoolInv s := by
  intro i
  obtain ⟨presult, product, fresh⟩ := initial.1 i
  rw [fresh]
  exact ⟨.fresh presult product, .fresh presult product⟩

theorem PoolInv.update {jobs : Nat → Job} {i : Nat} {job : Job} (inv : ∀ j, JobInv (jobs j))
    (changed : JobInv job) : ∀ j, JobInv (Pool.update jobs i job j) := by
  intro j
  unfold Pool.update
  split
  · exact changed
  · exact inv j

theorem poolInv_step (s : Pool) (label : PoolLabel) (t : Pool) (inv : PoolInv s)
    (inTime : FreesInTime s label) (stepped : poolSystem.step s label = some t) : PoolInv t := by
  cases label with
  | caller i move =>
    obtain ⟨job, moved, rfl⟩ := Option.map_eq_some_iff.mp stepped
    refine PoolInv.update inv ⟨(inv i).blocks.caller ?_ ?_ ?_ moved,
      (inv i).outcome.caller (inv i).blocks moved⟩
    · rintro g rfl
      exact inTime
    · rintro rfl
      exact inTime
    · rintro rfl
      exact inTime
  | worker =>
    have handled : ∀ i job, loadcodeWorkHandlerStep (s.jobs i) = some job → JobInv job :=
      fun i job moved => ⟨(inv i).blocks.worker moved, (inv i).outcome.worker moved⟩
    cases running : s.running with
    | some i =>
      simp only [poolSystem, Pool.step, running] at stepped
      obtain ⟨job, moved, rfl⟩ := Option.map_eq_some_iff.mp stepped
      exact PoolInv.update inv (handled i job moved)
    | none =>
      cases queue : s.queue with
      | nil => simp [poolSystem, Pool.step, running, queue] at stepped
      | cons i rest =>
        simp only [poolSystem, Pool.step, running, queue] at stepped
        obtain ⟨job, moved, rfl⟩ := Option.map_eq_some_iff.mp stepped
        exact PoolInv.update inv (handled i job moved)

/-- In every interleaving of any number of synchronous calls with the worker in which each
    `lw` is granted, is freed after its handler has loaded `work_data` and `lc`, and each
    `d` is freed after its handler has tested the last callback, every call is safe. -/
theorem sync_jobs_safe {s t : Pool} {labels : List PoolLabel} (initial : s.Initial)
    (inTime : poolSystem.Meets FreesInTime s labels) (reaches : poolSystem.run s labels = some t)
    (i : Nat) : JobSafe (t.jobs i) :=
  (poolSystem.invariant_of_meets poolInv_step (poolInv_initial initial) inTime reaches i).safe

/-! ## Two schedules -/

def aPool : Pool := ⟨fun _ => .fresh true ⟨0, 0, none⟩, [], none⟩

theorem aPool_initial : aPool.Initial := ⟨fun _ => ⟨true, ⟨0, 0, none⟩, rfl⟩, rfl, rfl⟩

-- the handler is done before the caller looks at the semaphore
def patientCall : List PoolLabel :=
  [.caller 0 (.allocData true), .caller 0 (.allocWork true), .caller 0 .queueWork] ++
    List.replicate 8 .worker ++
    [.caller 0 .wake, .caller 0 .copyResult, .caller 0 .copyRet, .caller 0 .freeWork,
      .caller 0 .freeData]

theorem patientCall_safe :
    ∃ t, poolSystem.run aPool patientCall = some t ∧ (t.jobs 0).caller = .returned ∧
      JobSafe (t.jobs 0) := by
  obtain ⟨t, reaches⟩ := Option.isSome_iff_exists.mp
    (show (poolSystem.run aPool patientCall).isSome = true by decide)
  have ended : (poolSystem.run aPool patientCall).map (fun t => (t.jobs 0).caller) =
      some .returned := by
    decide
  rw [reaches, Option.map_some, Option.some.injEq] at ended
  exact ⟨t, reaches, ended, sync_jobs_safe aPool_initial (by decide) reaches 0⟩

-- a signal arrives while the item is still queued
def interruptedCall : List PoolLabel :=
  [.caller 0 (.allocData true), .caller 0 (.allocWork true), .caller 0 .queueWork,
    .caller 0 .interrupt, .caller 0 .freeWork, .caller 0 .freeData, .worker]

theorem interruptedCall_uses_freed_work :
    ∃ t, poolSystem.run aPool interruptedCall = some t ∧ (t.jobs 0).usedFreed = true ∧
      ¬ JobSafe (t.jobs 0) :=
  ⟨_, rfl, rfl, fun safe => absurd safe.noUseAfterFree (by decide)⟩

end Lunatik.Verified
