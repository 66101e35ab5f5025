import Lunatik.Core.Submission
import Lunatik.Library.StateRuns

/-! # What a failed submission leaves behind

`lunatik_work_create` reports a failure by an error pointer, and its callers test for NULL.  A
submission whose first allocation fails leaves nothing behind; one whose second allocation fails
does not even return.
-/

namespace Lunatik.Verified

open Lunatik.Kernel Lunatik.Core Lunatik.Library

/-! ## What a refusal leaves -/

-- an allocation that the call makes is refused
def Refused (allocs : SubmitAllocs) (call : Submission) : Prop :=
  (call.needsData = true ∧ allocs.data = false) ∨ allocs.work = false

/-- A call that is refused memory returns -ENOMEM, has queued nothing, has freed what it allocated
    and has left the code alone; any other queues one work. -/
def LeavesNoTrace (allocs : SubmitAllocs) (call : Submission) : Prop :=
  match call.run allocs [] with
  | .error _ _ => False
  | .ok outcome events =>
    (Refused allocs call → outcome = .returned (-enomem) ∧ (∀ lw, .queued lw ∉ events) ∧
      (∀ b, events.count (.allocated b) = events.count (.freed b))) ∧
    .freedCode ∉ events ∧
    (¬ Refused allocs call → ∃ lw, .queued lw ∈ events)

/-! ## The calls -/

-- no pointer that lunatik_work_create returns is NULL
theorem submitLoadcode_run (allocs : SubmitAllocs) (d : SubmittedData) (accepted : SubmitOutcome) :
    submitLoadcode allocs d accepted [] =
      if allocs.data then
        if allocs.work then
          .ok accepted [.allocated .data, .allocated .work,
            .queued ⟨.loadcodeWorkHandler, .loadcode d⟩]
        else .error .badPointer [.allocated .data]
      else .ok (.returned (-enomem)) [] := by
  obtain ⟨data, work⟩ := allocs
  cases data with
  | false => rfl
  | true =>
    cases work with
    | false => rfl
    | true => rfl

theorem lunatikOpenlib_run (allocs : SubmitAllocs) (func : Nat) :
    lunatikOpenlib allocs func [] =
      if allocs.work then
        .ok (.returned 0) [.allocated .work, .queued ⟨.openlibWorkHandler, .luaopen func⟩]
      else .error .badPointer [] := by
  obtain ⟨data, work⟩ := allocs
  cases work with
  | false => rfl
  | true => rfl

/-- The five calls are one: what they hand over and how they go on is all that differs. -/
theorem submission_run (allocs : SubmitAllocs) (call : Submission) :
    ∃ lw accepted, call.run allocs [] =
      if call.needsData && !allocs.data then .ok (.returned (-enomem)) []
      else if allocs.work then
        .ok accepted ((if call.needsData then [.allocated .data] else []) ++
          [.allocated .work, .queued lw])
      else .error .badPointer (if call.needsData then [.allocated .data] else []) := by
  have loadcode : ∀ (d : SubmittedData) (accepted : SubmitOutcome),
      submitLoadcode allocs d accepted [] =
        if true && !allocs.data then .ok (.returned (-enomem)) []
        else if allocs.work then
          .ok accepted ([.allocated .data] ++
            [.allocated .work, .queued ⟨.loadcodeWorkHandler, .loadcode d⟩])
        else .error .badPointer [.allocated .data] := by
    intro d accepted
    rw [submitLoadcode_run]
    cases allocs.data with
    | false => rfl
    | true => rfl
  cases call with
  | loadcode code szCode presult =>
    cases presult with
    | false => exact ⟨_, _, loadcode _ _⟩
    | true => exact ⟨_, _, loadcode _ _⟩
  | loadcodeSync code szCode presult => exact ⟨_, _, loadcode _ _⟩
  | loadcodeAsync code szCode callb callbArg => exact ⟨_, _, loadcode _ _⟩
  | loadcodeAsyncNores code szCode callb callbArg => exact ⟨_, _, loadcode _ _⟩
  | openlib func => exact ⟨_, _, lunatikOpenlib_run allocs func⟩

theorem leavesNothing_of_work {allocs : SubmitAllocs} {call : Submission}
    (work : allocs.work = true ∨ (call.needsData = true ∧ allocs.data = false)) :
    LeavesNoTrace allocs call := by
  obtain ⟨lw, accepted, ran⟩ := submission_run allocs call
  rw [LeavesNoTrace, ran]
  by_cases refused : call.needsData = true ∧ allocs.data = false
  · rw [if_pos (by simp [refused])]
    refine ⟨fun _ => ⟨rfl, by simp, by simp⟩, by simp,
      fun accepted => absurd (.inl refused) accepted⟩
  · have given := work.resolve_right refused
    have notRefused : ¬ Refused allocs call := by simp [Refused, refused, given]
    rw [if_neg (by simpa using refused), if_pos given]
    refine ⟨fun refused => absurd refused notRefused, ?_, fun _ => ⟨lw, by simp⟩⟩
    split <;> simp

theorem LeavesNoTrace.work {allocs : SubmitAllocs} {call : Submission}
    (leaves : LeavesNoTrace allocs call) :
    allocs.work = true ∨ (call.needsData = true ∧ allocs.data = false) := by
  obtain ⟨lw, accepted, ran⟩ := submission_run allocs call
  rw [LeavesNoTrace, ran] at leaves
  by_cases refused : call.needsData = true ∧ allocs.data = false
  · exact .inr refused
  · rw [if_neg (by simpa using refused)] at leaves
    split at leaves
    next => cases leaves
    next =>
      cases given : allocs.work with
      | true => exact .inl rfl
      | false => simp_all

/-! ## The moves of an asynchronous job -/

-- what the caller does with these answers
def asyncMoves (allocs : SubmitAllocs) : List SubmitMove :=
  if allocs.data then [.allocData true, .allocWork allocs.work, .queueWork] else [.allocData false]

/-- The two asynchronous functions are the moves of an `AsyncJob`. -/
theorem submitLoadcode_moves (allocs : SubmitAllocs) (d : SubmittedData) (args : AsyncArgs) :
    ∃ job, (asyncMoves allocs).foldlM loadcodeAsyncStep (.fresh args) = some job ∧
      match submitLoadcode allocs d (.returned 0) [] with
      | .error _ _ => job.submit = .oops
      | .ok outcome events =>
        job.submit = .returned ∧ outcome = .returned job.ret ∧
          (job.handler = .queued ↔ ∃ lw, .queued lw ∈ events) := by
  rw [submitLoadcode_run]
  obtain ⟨data, work⟩ := allocs
  cases data with
  | false =>
    refine ⟨_, rfl, rfl, rfl, ?_⟩
    simp [AsyncJob.fresh]
  | true =>
    cases work with
    | false => exact ⟨_, rfl, rfl⟩
    | true =>
      refine ⟨_, rfl, rfl, rfl, ?_⟩
      simp

/-- A failed submission leaves nothing behind unless it is the work that is refused. -/
theorem failed_submission_iff (allocs : SubmitAllocs) (call : Submission) :
    LeavesNoTrace allocs call ↔ allocs.work = true ∨
      (call.needsData = true ∧ allocs.data = false) :=
  ⟨fun leaves => leaves.work, leavesNothing_of_work⟩

/-- The second allocation of `lunatik_loadcode_async` fails: the error pointer is queued. -/
theorem refused_work_is_used : ¬ LeavesNoTrace ⟨true, false⟩ (.loadcodeAsync 4096 8 none 0) := by
  intro leaves
  exact absurd leaves.work (by decide)

end Lunatik.Verified
