import Coverpin.Upload.UploadWriter

namespace Coverpin.Server

open Coverpin.Data Coverpin.Upload

/-! # `UploadJobsService`: the reads and writes of `upload_jobs`

A payload is held as its rows: `ofJson_toJson` says that they survive the column.
-/

abbrev JobId := Nat

inductive JobStatus where
  | queued
  | processing
  | completed
  | failed
deriving DecidableEq, Repr

inductive DispatchMethod where
  | qstash
  | localFallback
deriving DecidableEq, Repr

/-- The error whose message is recorded on a failed job: of the write, or of
recording its result. -/
inductive FailureCause where
  | write (reason : DbError)
  | markCompleted
deriving DecidableEq, Repr

structure UploadJob where
  status : JobStatus
  dispatchMethod : Option DispatchMethod
  payload : UploadBatchRows
  result : Option UploadBatchResult
  error : Option FailureCause
deriving DecidableEq, Repr

abbrev UploadJobs := InsertionMap JobId UploadJob

namespace UploadJobs

def create [Platform] (jobs : UploadJobs) (payload : UploadBatchRows) : JobId × UploadJobs :=
  let jobId := Platform.newId jobs.keys
  (jobId, jobs.set jobId { status := .queued, dispatchMethod := none, payload, result := none, error := none })

/-- `UPDATE upload_jobs SET ... WHERE id = jobId`. -/
def update (jobs : UploadJobs) (jobId : JobId) (change : UploadJob → UploadJob) : UploadJobs :=
  match jobs.get? jobId with
  | none => jobs
  | some job => jobs.set jobId (change job)

def setDispatchMethod (jobs : UploadJobs) (jobId : JobId) (dispatchMethod : DispatchMethod) : UploadJobs :=
  jobs.update jobId fun job => { job with dispatchMethod := some dispatchMethod }

/-- Atomically transitions 'queued' to 'processing', and says whether this call
won the race. -/
def claim (jobs : UploadJobs) (jobId : JobId) : UploadJobs × Bool :=
  match jobs.get? jobId with
  | none => (jobs, false)
  | some job =>
      if job.status = .queued then (jobs.set jobId { job with status := .processing }, true) else (jobs, false)

def markCompleted (jobs : UploadJobs) (jobId : JobId) (result : UploadBatchResult) : UploadJobs :=
  jobs.update jobId fun job => { job with status := .completed, result := some result }

def markFailed (jobs : UploadJobs) (jobId : JobId) (cause : FailureCause) : UploadJobs :=
  jobs.update jobId fun job => { job with status := .failed, error := some cause }

def findStaleQueued (jobs : UploadJobs) (old : List JobId) : List (JobId × UploadJob) :=
  jobs.entries.filter fun (jobId, job) => job.status = .queued && old.contains jobId

def statusOf (jobs : UploadJobs) (jobId : JobId) : Option JobStatus :=
  (jobs.get? jobId).map UploadJob.status

variable {jobs : UploadJobs} {jobId other : JobId}

theorem create_fresh [Platform] (jobs : UploadJobs) (payload : UploadBatchRows) :
    jobs.statusOf (jobs.create payload).1 = none := by
  rw [statusOf, Option.map_eq_none_iff, InsertionMap.get?_eq_none]
  exact Platform.newId_fresh _

theorem statusOf_create [Platform] (payload : UploadBatchRows) (jobId : JobId) :
    (jobs.create payload).2.statusOf jobId =
      if jobId = (jobs.create payload).1 then some .queued else jobs.statusOf jobId := by
  split
  · rename_i same
    subst same
    exact congrArg (Option.map UploadJob.status) InsertionMap.get?_set_self
  · rename_i different
    exact congrArg (Option.map UploadJob.status) (InsertionMap.get?_set_other different)

theorem get?_update (change : UploadJob → UploadJob) :
    (jobs.update jobId change).get? other = if other = jobId then (jobs.get? jobId).map change else jobs.get? other := by
  unfold update
  split
  · rename_i none
    split
    · rename_i same
      rw [same, none, Option.map_none]
    · rfl
  · rename_i job found
    split
    · rename_i same
      rw [same, InsertionMap.get?_set_self, found, Option.map_some]
    · rename_i different
      rw [InsertionMap.get?_set_other different]

@[simp] theorem statusOf_setDispatchMethod (dispatchMethod : DispatchMethod) :
    (jobs.setDispatchMethod jobId dispatchMethod).statusOf other = jobs.statusOf other := by
  rw [statusOf, setDispatchMethod, get?_update]
  split
  · rename_i same
    rw [same, statusOf, Option.map_map]
    rfl
  · rfl

theorem statusOf_update {change : UploadJob → UploadJob} {status : JobStatus} (sets : ∀ job, (change job).status = status) :
    (jobs.update jobId change).statusOf other =
      if other = jobId then (jobs.statusOf jobId).map fun _ => status else jobs.statusOf other := by
  rw [statusOf, get?_update]
  split
  · rw [statusOf, Option.map_map, Option.map_map]
    congr 1
    funext job
    exact sets job
  · rfl

theorem statusOf_markCompleted (result : UploadBatchResult) : (jobs.markCompleted jobId result).statusOf other =
    if other = jobId then (jobs.statusOf jobId).map fun _ => .completed else jobs.statusOf other :=
  statusOf_update fun _ => rfl

theorem statusOf_markFailed (cause : FailureCause) : (jobs.markFailed jobId cause).statusOf other =
    if other = jobId then (jobs.statusOf jobId).map fun _ => .failed else jobs.statusOf other :=
  statusOf_update fun _ => rfl

/-- A claim wins exactly on a queued job, and then only moves that job. -/
theorem claim_cases (jobs : UploadJobs) (jobId : JobId) :
    (jobs.claim jobId = (jobs, false) ∧ jobs.statusOf jobId ≠ some .queued) ∨
      ((jobs.claim jobId).2 = true ∧ jobs.statusOf jobId = some .queued ∧
        ∀ other, (jobs.claim jobId).1.statusOf other =
          if other = jobId then some .processing else jobs.statusOf other) := by
  unfold claim statusOf
  cases found : jobs.get? jobId with
  | none => exact .inl ⟨rfl, by simp⟩
  | some job =>
      by_cases queued : job.status = .queued
      · refine .inr ⟨by simp [queued], by simp [queued], fun other => ?_⟩
        simp only [queued, if_true]
        split
        · rename_i same
          rw [same, InsertionMap.get?_set_self, Option.map_some]
        · rename_i different
          rw [InsertionMap.get?_set_other different]
      · exact .inl ⟨by simp [queued], by simpa using queued⟩

def payloadOf (jobs : UploadJobs) (jobId : JobId) : Option UploadBatchRows :=
  (jobs.get? jobId).map UploadJob.payload

theorem payloadOf_create [Platform] (payload : UploadBatchRows) (jobId : JobId) :
    (jobs.create payload).2.payloadOf jobId =
      if jobId = (jobs.create payload).1 then some payload else jobs.payloadOf jobId := by
  split
  · rename_i same
    subst same
    exact congrArg (Option.map UploadJob.payload) InsertionMap.get?_set_self
  · rename_i different
    exact congrArg (Option.map UploadJob.payload) (InsertionMap.get?_set_other different)

theorem payloadOf_create_kept [Platform] {payload rows : UploadBatchRows} (known : jobs.payloadOf jobId = some rows) :
    (jobs.create payload).2.payloadOf jobId = some rows := by
  have different : jobId ≠ (jobs.create payload).1 := by
    intro same
    subst same
    have absent := create_fresh jobs payload
    rw [statusOf, Option.map_eq_none_iff] at absent
    simp [payloadOf, absent] at known
  rw [payloadOf_create, if_neg different, known]

theorem payloadOf_update {change : UploadJob → UploadJob} (keeps : ∀ job, (change job).payload = job.payload) :
    (jobs.update jobId change).payloadOf other = jobs.payloadOf other := by
  rw [payloadOf, get?_update]
  split
  · rename_i same
    rw [same, payloadOf, Option.map_map]
    congr 1
    funext job
    exact keeps job
  · rfl

theorem payloadOf_setDispatchMethod (dispatchMethod : DispatchMethod) :
    (jobs.setDispatchMethod jobId dispatchMethod).payloadOf other = jobs.payloadOf other :=
  payloadOf_update fun _ => rfl

theorem payloadOf_markCompleted (result : UploadBatchResult) :
    (jobs.markCompleted jobId result).payloadOf other = jobs.payloadOf other :=
  payloadOf_update fun _ => rfl

theorem payloadOf_markFailed (cause : FailureCause) :
    (jobs.markFailed jobId cause).payloadOf other = jobs.payloadOf other :=
  payloadOf_update fun _ => rfl

theorem payloadOf_claim : (jobs.claim jobId).1.payloadOf other = jobs.payloadOf other := by
  have claimed : (jobs.claim jobId).1 = jobs ∨
      (jobs.claim jobId).1 = jobs.update jobId fun job => { job with status := .processing } := by
    unfold claim update
    cases jobs.get? jobId with
    | none => exact .inl rfl
    | some job =>
        by_cases queued : job.status = .queued
        · exact .inr (by simp [queued])
        · exact .inl (by simp [queued])
  rcases claimed with same | updated
  · rw [same]
  · rw [updated]
    exact payloadOf_update fun _ => rfl

end UploadJobs

end Coverpin.Server
