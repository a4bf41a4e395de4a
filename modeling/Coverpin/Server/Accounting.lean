import Coverpin.Server.LastCommit
import Coverpin.Server.RecordedOutcome

namespace Coverpin.Server

open Coverpin.Data Coverpin.Database Coverpin.Upload Coverpin.Validation

/-! # Where every accepted upload is

A batch of rows goes from hand to hand: from a request to its write, or to a new job,
from the job to the process that claims it.  It is never in two hands, and the steps
at which one is dropped are known.
-/

/-- The batch that a process is going to store or to write. -/
def Process.inHand : Process → List UploadBatchRows
  | .write upload => [toUploadBatchRows upload]
  | .create rows | .run _ _ (.write rows) => [rows]
  | _ => []

def UploadJob.waiting (job : UploadJob) : List UploadBatchRows :=
  if job.status = .queued then [job.payload] else []

def UploadJobs.waiting (jobs : UploadJobs) : List UploadBatchRows :=
  jobs.entries.flatMap fun entry => UploadJob.waiting entry.2

/-- What may still be written: batches in the hand of a process, and queued jobs. -/
def pending (state : State) : List UploadBatchRows :=
  state.running.flatMap Process.inHand ++ UploadJobs.waiting state.shared.jobs

/-- What a process lets go of without writing or storing it. -/
def Process.drops (choice : Choice) (event : Option Event) : Process → List UploadBatchRows
  | .create rows => if choice = .fail then [rows] else []
  | process => if event.isNone then process.inHand else []

variable [Platform] {limits : Limits} {trace : List (State × Action)} {state after : State} {action : Action}
  {shared : Shared} {process : Process} {choice : Choice} {result : Outcome} {jobs : UploadJobs} {jobId : JobId}

def acceptedRows (limits : Limits) (state : State) (action : Action) : List UploadBatchRows :=
  match validated? limits state.shared action with
  | none => []
  | some upload => if upload.errors = [] then [toUploadBatchRows upload] else []

/-- A write that fails or is rolled back, a job that could not be created, and
whatever a restart finds in the memory of the server. -/
def droppedRows (limits : Limits) (state : State) (action : Action) : List UploadBatchRows :=
  match action with
  | .restart => state.running.flatMap Process.inHand
  | .advance i choice =>
      match state.running[i]? with
      | none => []
      | some process => process.drops choice (event limits state action)
  | _ => []

def acceptedLog (limits : Limits) (trace : List (State × Action)) : List UploadBatchRows :=
  trace.flatMap fun entry => acceptedRows limits entry.1 entry.2

def droppedLog (limits : Limits) (trace : List (State × Action)) : List UploadBatchRows :=
  trace.flatMap fun entry => droppedRows limits entry.1 entry.2

section Jobs

variable {job : UploadJob} {rows : UploadBatchRows}

omit [Platform] in
theorem count_waiting_set (found : jobs.get? jobId = some job) (next : UploadJob) (rows : UploadBatchRows) :
    (UploadJobs.waiting (jobs.set jobId next)).count rows + job.waiting.count rows =
      (UploadJobs.waiting jobs).count rows + next.waiting.count rows := by
  simp only [UploadJobs.waiting, List.count_flatMap]
  exact InsertionMap.sum_set (fun job => job.waiting.count rows) found

theorem count_waiting_create (payload : UploadBatchRows) : (UploadJobs.waiting (jobs.create payload).2).count rows =
    (UploadJobs.waiting jobs).count rows + [payload].count rows := by
  have fresh : jobs.get? (jobs.create payload).1 = none := Option.map_eq_none_iff.mp (jobs.create_fresh payload)
  simp only [UploadJobs.waiting, List.count_flatMap]
  exact InsertionMap.sum_set_of_absent (fun job => job.waiting.count rows) fresh

omit [Platform] in
theorem count_waiting_update {change : UploadJob → UploadJob}
    (kept : ∀ job, jobs.get? jobId = some job → (change job).waiting = job.waiting) :
    (UploadJobs.waiting (jobs.update jobId change)).count rows = (UploadJobs.waiting jobs).count rows := by
  unfold UploadJobs.update
  split
  · rfl
  · rename_i job found
    have counts := count_waiting_set found (change job) rows
    rw [kept job found] at counts
    omega

omit [Platform] in
/-- A claim takes the payload of its job out of the queue. -/
theorem count_waiting_claim (payload : jobs.payloadOf jobId = some rows) (queued : jobs.statusOf jobId = some .queued)
    (other : UploadBatchRows) : (UploadJobs.waiting (jobs.claim jobId).1).count other + [rows].count other =
      (UploadJobs.waiting jobs).count other := by
  obtain ⟨job, found, status⟩ := Option.map_eq_some_iff.mp queued
  rw [UploadJobs.payloadOf, found, Option.map_some, Option.some.injEq] at payload
  subst payload
  have counts := count_waiting_set found { job with status := .processing } other
  simp only [UploadJobs.claim, found, status, if_true]
  simp only [UploadJob.waiting, status, if_true, reduceCtorEq, if_false, List.count_nil] at counts
  omega

end Jobs

/-- Whatever a process had in hand it writes, stores, passes on or drops. -/
theorem advance_accounted (taken : advance limits shared process choice = some result)
    (carried : ∀ jobId rows, process.carries = some (jobId, rows) → shared.jobs.payloadOf jobId = some rows)
    (holding : ∀ jobId, process.holds jobId = true → shared.jobs.statusOf jobId = some .processing)
    (rows : UploadBatchRows) :
    process.inHand.count rows + (UploadJobs.waiting shared.jobs).count rows =
      (result.event.bind Event.rows?).toList.count rows + (result.next.map fun next => next.inHand.count rows).sum +
        (UploadJobs.waiting result.shared.jobs).count rows + (process.drops choice result.event).count rows := by
  have settled : ∀ jobId (change : UploadJob → UploadJob), process.holds jobId = true →
      (∀ job, (change job).status ≠ .queued) →
        (UploadJobs.waiting (shared.jobs.update jobId change)).count rows = (UploadJobs.waiting shared.jobs).count rows := by
    intro jobId change holds settles
    refine count_waiting_update fun job found => ?_
    have processing := holding jobId holds
    rw [UploadJobs.statusOf, found, Option.map_some, Option.some.injEq] at processing
    simp [UploadJob.waiting, settles job, processing]
  have effect := advance_effect taken
  cases effect with
  | created payload => simp [Process.inHand, Process.drops, count_waiting_create, Nat.add_comm]
  | dispatched other payload published dispatchMethod =>
      have kept : (UploadJobs.waiting (shared.jobs.setDispatchMethod other dispatchMethod)).count rows =
          (UploadJobs.waiting shared.jobs).count rows := count_waiting_update fun _ _ => rfl
      cases published <;> simp [Process.inHand, Process.drops, kept]
  | claimed dispatcher other payload queued moved same =>
      have counts := count_waiting_claim (carried other payload rfl) queued rows
      simp [Process.inHand, Process.drops, same, Event.rows?]
      omega
  | completed dispatcher other counts =>
      have kept := settled other (fun job => { job with status := .completed, result := some counts })
        (by simp [Process.holds, Stage.claimed]) fun _ => by simp
      simp [Process.inHand, Process.drops, UploadJobs.markCompleted, kept]
  | failed dispatcher other cause =>
      have kept := settled other (fun job => { job with status := .failed, error := some cause })
        (by simp [Process.holds, Stage.claimed]) fun _ => by simp
      simp [Process.inHand, Process.drops, UploadJobs.markFailed, kept]
  | ended other =>
      cases process with
      | create payload =>
          cases choice with
          | fail => simp [Process.inHand, Process.drops, Nat.add_comm]
          | _ => simp [advance, afterSuccess] at taken
      | _ => simp [Process.drops, Nat.add_comm]
  | rolledBack dispatcher other payload reason => simp [Process.inHand, Process.drops, Nat.add_comm]
  | _ => simp [Process.inHand, Process.drops, Event.rows?]

omit [Platform] in
theorem count_pending (state : State) (rows : UploadBatchRows) : (pending state).count rows =
    (state.running.map fun process => process.inHand.count rows).sum +
      (UploadJobs.waiting state.shared.jobs).count rows := by
  rw [pending, List.count_append, List.count_flatMap]
  rfl

theorem step_accounted (run : Run (step limits) State.initial trace state) (taken : step limits state action = some after)
    (rows : UploadBatchRows) :
    (acceptedRows limits state action).count rows + (pending state).count rows =
      (committedRows limits state action).toList.count rows + (pending after).count rows +
        (droppedRows limits state action).count rows := by
  cases action with
  | advance i choice =>
      obtain ⟨result, found, rfl⟩ := Option.map_eq_some_iff.mp taken
      obtain ⟨process, running, advanced⟩ := Option.bind_eq_some_iff.mp found
      have member := List.mem_of_getElem? running
      have same : event limits state (.advance i choice) = result.event := by rw [event, found, Option.bind_some]
      have committed : committedRows limits state (.advance i choice) = result.event.bind Event.rows? := by
        rw [committedRows, same]
      have parts : ((replaceAt state.running i result.next).map fun process => process.inHand.count rows).sum +
          process.inHand.count rows = (state.running.map fun process => process.inHand.count rows).sum +
            (result.next.map fun process => process.inHand.count rows).sum := sum_replaceAt _ running
      have accounted := advance_accounted advanced ((payloadsKept run).carried process member)
        (fun jobId holds => (jobView_sound run jobId).processing (List.countP_pos_iff.mpr ⟨process, member, holds⟩)) rows
      simp only [acceptedRows, validated?, committed, droppedRows, running, same, count_pending, List.count_nil]
      omega
  | restart =>
      cases taken
      simp [acceptedRows, validated?, committedRows, event, outcome, droppedRows, pending]
      omega
  | upload today files | uploadAsync today files =>
      cases taken
      by_cases accepted : (validateUpload state.shared.db today limits.maxUploadRowsPerFile files).errors = [] <;>
        simp [acceptedRows, validated?, committedRows, event, outcome, droppedRows, count_pending, started, accepted,
          Process.inHand]
      omega
  | callback jobId =>
      cases taken
      simp [acceptedRows, validated?, committedRows, event, outcome, droppedRows, count_pending, started, Process.inHand]
  | sweepStaleJobs old =>
      cases taken
      simp [acceptedRows, validated?, committedRows, event, outcome, droppedRows, count_pending, started, Process.inHand,
        Function.comp_def]
  | getAnalytics =>
      cases taken
      simp only [acceptedRows, validated?, committedRows, event, outcome, droppedRows, count_pending, started]
      split <;> simp [Process.inHand]

/-- In every run, each accepted upload is in one place, as often as it was accepted:
committed, still pending, or dropped by a step that is known.  So none is committed
twice, and none that was not accepted is committed. -/
theorem uploads_accounted (run : Run (step limits) State.initial trace state) :
    (acceptedLog limits trace).Perm (committedLog limits trace ++ pending state ++ droppedLog limits trace) := by
  refine List.perm_iff_count.mpr fun rows => ?_
  induction run with
  | start => rfl
  | @next trace before after action run taken induction =>
      have accounted := step_accounted run taken rows
      have committed : (committedLog limits (trace ++ [(before, action)])).count rows =
          (committedLog limits trace).count rows + (committedRows limits before action).toList.count rows := by
        rw [committedLog, List.filterMap_append, List.count_append, committedLog]
        cases found : committedRows limits before action <;> simp [found]
      simp only [List.count_append, acceptedLog, droppedLog, List.flatMap_append, List.flatMap_cons, List.flatMap_nil,
        List.append_nil] at induction ⊢
      omega

omit [Platform] in
/-- A job is queued and overtaken by an upload; a second one has been claimed when the
server restarts. -/
def droppedActions : List Action := [
  .uploadAsync ⟨0⟩ firstFiles, .upload ⟨0⟩ secondFiles,
  .advance 1 .succeed, .advance 1 .succeed,
  .advance 0 .succeed, .advance 0 .succeed, .advance 0 .succeed,
  .uploadAsync ⟨0⟩ firstFiles,
  .advance 0 .succeed, .advance 0 .fail, .advance 0 .succeed, .advance 0 .succeed,
  .restart]

omit [Platform] in
theorem dropped_accounted :
    letI := asciiPlatform
    ∃ trace state, trace.map Prod.snd = droppedActions ∧ Run (step Limits.default) State.initial trace state ∧
      (acceptedLog Limits.default trace).length = 3 ∧ (committedLog Limits.default trace).length = 1 ∧
      (pending state).length = 1 ∧ (droppedLog Limits.default trace).length = 1 ∧
      (acceptedLog Limits.default trace).Perm
        (committedLog Limits.default trace ++ pending state ++ droppedLog Limits.default trace) := by
  have facts : letI := asciiPlatform
      let trace := steps (step Limits.default) State.initial droppedActions
      (acceptedLog Limits.default trace).length = 3 ∧ (committedLog Limits.default trace).length = 1 ∧
      (droppedLog Limits.default trace).length = 1 ∧
      (execute (step Limits.default) State.initial droppedActions).map (fun state => (pending state).length) = some 1 := by
    decide +kernel
  let _ := asciiPlatform
  obtain ⟨accepted, committed, dropped, held⟩ := facts
  obtain ⟨state, executed, waiting⟩ := Option.map_eq_some_iff.mp held
  exact ⟨_, state, steps_actions executed, run_steps executed, accepted, committed, waiting, dropped,
    uploads_accounted (run_steps executed)⟩

end Coverpin.Server
