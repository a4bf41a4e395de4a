import Coverpin.Server.JobLifecycle

namespace Coverpin.Server

open Coverpin.Data Coverpin.Database Coverpin.Upload Coverpin.Validation

/-! # Jobs that nobody holds

A sweep looks at queued jobs only.  Once a job is claimed, the runner that holds
it is all that brings it to an end, and it lives in memory.
-/

variable {limits : Limits} {jobId : JobId} {shared : Shared} {process : Process} {choice : Choice}
  {result : Outcome} {trace : List (State × Action)} {state after : State} {action : Action}

/-- Every job that is not settled waits for a sweep or is held by a runner. -/
def NoOrphan (state : State) : Prop :=
  ∀ jobId job, state.shared.jobs.get? jobId = some job → job.status ≠ .completed → job.status ≠ .failed →
    (job.status = .queued ∧ ∀ old, jobId ∈ old → (jobId, job) ∈ state.shared.jobs.findStaleQueued old) ∨
    ∃ process ∈ state.running, process.holds jobId

def Process.pastClaim : Process → Bool
  | .run _ _ stage => stage.claimed
  | _ => false

/-- The last status update of a runner, whose failure nobody catches. -/
def Process.lastUpdate : Process → Bool
  | .run _ _ (.markFailed _) | .run .fallback _ (.markCompleted _) => true
  | _ => false

/-- A restart while a runner is past its claim, or a last update that fails. -/
def dropsJob (state : State) : Action → Bool
  | .restart => state.running.any Process.pastClaim
  | .advance i .fail => (state.running[i]?).any Process.lastUpdate
  | _ => false

theorem pastClaim_iff : process.pastClaim = true ↔ ∃ jobId, process.holds jobId = true := by
  cases process with
  | run dispatcher other stage =>
      constructor
      · intro past
        exact ⟨other, by simpa [Process.holds, Process.pastClaim] using past⟩
      · intro held
        obtain ⟨jobId, holds⟩ := held
        simp only [Process.holds, Bool.and_eq_true] at holds
        exact holds.2
  | _ => simp [Process.pastClaim, Process.holds]

/-- A runner before its last update is past its claim. -/
theorem Process.lastUpdate.holds (last : process.lastUpdate = true) : ∃ jobId, process.holds jobId = true := by
  apply pastClaim_iff.mp
  unfold Process.lastUpdate at last
  split at last
  · rfl
  · rfl
  · cases last

theorem noOrphan_iff : NoOrphan state ↔ ∀ jobId, state.shared.jobs.statusOf jobId = some .processing →
    ∃ process ∈ state.running, process.holds jobId := by
  constructor
  · intro cared jobId processing
    obtain ⟨job, stored, status⟩ := Option.map_eq_some_iff.mp processing
    rcases cared jobId job stored (by rw [status]; decide) (by rw [status]; decide) with ⟨queued, _⟩ | held
    · rw [status] at queued
      cases queued
    · exact held
  · intro held jobId job stored notCompleted notFailed
    match status : job.status with
    | .queued =>
        refine .inl ⟨rfl, fun old listed => ?_⟩
        exact List.mem_filter.mpr ⟨InsertionMap.get?_eq_some.mp stored, by simp [status, listed]⟩
    | .processing => exact .inr (held jobId (by rw [UploadJobs.statusOf, stored, Option.map_some, status]))
    | .completed => exact absurd status notCompleted
    | .failed => exact absurd status notFailed

variable [Platform]

/-- What becomes of a job when its runner goes on. -/
theorem holder_goes_on (taken : advance limits shared process choice = some result)
    (holds : process.holds jobId = true) :
    (∃ next ∈ result.next, next.holds jobId = true) ∨ result.shared.jobs.statusOf jobId ≠ some .processing ∨
      choice = .fail ∧ process.lastUpdate = true := by
  cases process with
  | run dispatcher other stage =>
      simp only [Process.holds, Bool.and_eq_true, beq_iff_eq] at holds
      obtain ⟨rfl, claimed⟩ := holds
      have stays : ∀ {stage : Stage}, stage.claimed = true → (Process.run dispatcher other stage).holds other = true := by
        intro stage claimed
        simp [Process.holds, claimed]
      cases stage with
      | claim rows => cases claimed
      | write rows =>
          cases choice with
          | succeed =>
              simp only [advance, afterSuccess] at taken
              split at taken
              · cases taken
                exact .inl ⟨_, List.mem_singleton.mpr rfl, stays rfl⟩
              · cases taken
                exact .inl ⟨_, List.mem_singleton.mpr rfl, stays rfl⟩
          | fail =>
              cases taken
              exact .inl ⟨_, List.mem_singleton.mpr rfl, stays rfl⟩
          | readEntities | readEdges => cases taken
      | clear counts =>
          cases choice with
          | succeed =>
              cases taken
              exact .inl ⟨_, List.mem_singleton.mpr rfl, stays rfl⟩
          | fail | readEntities | readEdges => cases taken
      | markCompleted counts =>
          cases choice with
          | succeed =>
              cases taken
              refine .inr (.inl ?_)
              simp [UploadJobs.statusOf_markCompleted]
          | fail =>
              cases dispatcher with
              | callback =>
                  cases taken
                  exact .inl ⟨_, List.mem_singleton.mpr rfl, stays rfl⟩
              | fallback => exact .inr (.inr ⟨rfl, rfl⟩)
          | readEntities | readEdges => cases taken
      | markFailed cause =>
          cases choice with
          | succeed =>
              cases taken
              refine .inr (.inl ?_)
              simp [UploadJobs.statusOf_markFailed]
          | fail => exact .inr (.inr ⟨rfl, rfl⟩)
          | readEntities | readEdges => cases taken
  | _ => cases holds

/-- Only a claim makes a job processing, and the process that has won it holds it. -/
theorem Effect.processing (effect : Effect limits shared process choice result)
    (processing : result.shared.jobs.statusOf jobId = some .processing) :
    shared.jobs.statusOf jobId = some .processing ∨ ∃ next ∈ result.next, next.holds jobId = true := by
  cases effect with
  | created rows =>
      rw [UploadJobs.statusOf_create] at processing
      split at processing
      · cases processing
      · exact .inl processing
  | dispatched other rows published dispatchMethod =>
      rw [UploadJobs.statusOf_setDispatchMethod] at processing
      exact .inl processing
  | claimed dispatcher other rows queued moved =>
      by_cases same : jobId = other
      · exact .inr ⟨_, List.mem_singleton.mpr rfl, by simp [Process.holds, Stage.claimed, same]⟩
      · rw [moved, if_neg same] at processing
        exact .inl processing
  | completed dispatcher other counts =>
      rw [UploadJobs.statusOf_markCompleted] at processing
      split at processing
      · simp at processing
      · exact .inl processing
  | failed dispatcher other cause =>
      rw [UploadJobs.statusOf_markFailed] at processing
      split at processing
      · simp at processing
      · exact .inl processing
  | _ => exact .inl processing

theorem NoOrphan.step (cared : NoOrphan state) (keeps : dropsJob state action = false)
    (taken : step limits state action = some after) : NoOrphan after := by
  refine noOrphan_iff.mpr fun jobId processing => ?_
  have held := noOrphan_iff.mp cared jobId
  cases action with
  | restart =>
      cases taken
      obtain ⟨process, inside, holds⟩ := held processing
      have past := pastClaim_iff.mpr ⟨jobId, holds⟩
      simp only [dropsJob, List.any_eq_false] at keeps
      exact absurd past (keeps process inside)
  | advance i choice =>
      obtain ⟨result, found, rfl⟩ := Option.map_eq_some_iff.mp taken
      obtain ⟨process, running, advanced⟩ := Option.bind_eq_some_iff.mp found
      have new : (∃ next ∈ result.next, next.holds jobId = true) →
          ∃ other ∈ replaceAt state.running i result.next, other.holds jobId = true := by
        intro goesOn
        obtain ⟨next, listed, holds⟩ := goesOn
        exact ⟨next, List.mem_append_right _ listed, holds⟩
      rcases (advance_effect advanced).processing processing with before | won
      · obtain ⟨other, inside, holds⟩ := held before
        rcases List.mem_cons.mp ((perm_eraseIdx running).mem_iff.mp inside) with rfl | beside
        · rcases holder_goes_on advanced holds with goesOn | settled | ⟨rfl, last⟩
          · exact new goesOn
          · exact absurd processing settled
          · rw [dropsJob, running, Option.any_some, last] at keeps
            cases keeps
        · exact ⟨other, List.mem_append_left _ beside, holds⟩
      · exact new won
  | _ =>
      cases taken
      obtain ⟨process, inside, holds⟩ := held processing
      exact ⟨process, List.mem_append_left _ inside, holds⟩

/-- A job that loses its only runner stays processing. -/
theorem orphaned (run : Run (step limits) State.initial trace state) (drops : dropsJob state action = true)
    (taken : step limits state action = some after) : ¬ NoOrphan after := by
  intro cared
  have kept := noOrphan_iff.mp cared
  -- Every job that is held is processing.
  have processing : ∀ {process jobId}, process ∈ state.running → process.holds jobId = true →
      state.shared.jobs.statusOf jobId = some .processing := by
    intro process jobId inside holds
    exact (jobView_sound run jobId).processing (List.countP_pos_iff.mpr ⟨process, inside, holds⟩)
  unfold dropsJob at drops
  split at drops
  · cases taken
    obtain ⟨process, inside, past⟩ := List.any_eq_true.mp drops
    obtain ⟨jobId, holds⟩ := pastClaim_iff.mp past
    obtain ⟨_, none, _⟩ := kept jobId (processing inside holds)
    cases none
  · rename_i i
    obtain ⟨process, found, last⟩ := (Option.any_eq_true _ _).mp drops
    obtain ⟨jobId, holds⟩ := Process.lastUpdate.holds last
    have lost : after = { state with running := replaceAt state.running i [] } := by
      rw [step, outcome, found, Option.bind_some] at taken
      unfold Process.lastUpdate at last
      split at last
      · cases taken
        rfl
      · cases taken
        rfl
      · cases last
    rw [lost] at kept
    obtain ⟨other, inside, others⟩ := kept jobId (processing (List.mem_of_getElem? found) holds)
    rw [replaceAt, List.append_nil] at inside
    have alone := eraseIdx_alone (jobView_sound run jobId).holders found holds other inside
    rw [others] at alone
    cases alone
  · cases drops

/-- No job is orphaned in any state of a run exactly when every restart finds no
runner past its claim and every last status update of a runner succeeds. -/
theorem noOrphan_iff_kept (run : Run (step limits) State.initial trace state) :
    (∀ reached ∈ visited trace state, NoOrphan reached) ↔ ∀ entry ∈ trace, dropsJob entry.1 entry.2 = false := by
  refine run.visited_iff (fun state => ∃ trace, Run (step limits) State.initial trace state) NoOrphan
    (fun state action => dropsJob state action = false) ⟨[], .start⟩ ?_ ?_ ?_
  · intro before action after reached taken
    obtain ⟨trace, run⟩ := reached
    exact ⟨_, run.next taken⟩
  · exact noOrphan_iff.mpr fun jobId processing => nomatch processing
  · intro before action after reached cared taken
    obtain ⟨trace, run⟩ := reached
    constructor
    · intro kept
      exact Bool.eq_false_iff.mpr fun drops => orphaned run drops taken kept
    · exact fun keeps => cared.step keeps taken

omit [Platform] in
/-- A job is published, delivered and claimed; then the process restarts. -/
def interruptedActions : List Action := [
  .uploadAsync ⟨0⟩ (ownershipFiles [("Acme", "Entity", "")] []),
  .advance 0 .succeed, .advance 0 .succeed, .advance 0 .succeed,
  .callback 1, .advance 0 .succeed, .advance 0 .succeed,
  .restart]

omit [Platform] in
theorem interrupted_job_orphaned : ¬ ∀ [Platform] (limits : Limits) (trace : List (State × Action)) (state : State),
    Run (step limits) State.initial trace state → NoOrphan state := by
  intro claimed
  have reached : letI := asciiPlatform
      ((execute (step Limits.default) State.initial interruptedActions).map fun state =>
        (state.running, state.shared.jobs.statusOf 1)) = some ([], some .processing) := by
    decide +kernel
  let _ := asciiPlatform
  obtain ⟨state, executed, same⟩ := Option.map_eq_some_iff.mp reached
  obtain ⟨running, processing⟩ := Prod.mk.inj same
  obtain ⟨process, inside, _⟩ := noOrphan_iff.mp (claimed _ _ _ (run_steps executed)) 1 processing
  rw [running] at inside
  cases inside

omit [Platform] in
theorem raced_job_not_orphaned :
    letI := asciiPlatform
    ∃ trace state, trace.map Prod.snd = racedActions ∧ Run (step Limits.default) State.initial trace state ∧
      ∀ reached ∈ visited trace state, NoOrphan reached := by
  have facts : letI := asciiPlatform
      (execute (step Limits.default) State.initial racedActions).isSome = true ∧
        ∀ entry ∈ steps (step Limits.default) State.initial racedActions, dropsJob entry.1 entry.2 = false := by
    decide +kernel
  let _ := asciiPlatform
  obtain ⟨finishes, keeps⟩ := facts
  obtain ⟨state, executed⟩ := Option.isSome_iff_exists.mp finishes
  exact ⟨_, state, steps_actions executed, run_steps executed, (noOrphan_iff_kept (run_steps executed)).mpr keeps⟩

end Coverpin.Server
