import Coverpin.Server.Processes

namespace Coverpin.Server

open Coverpin.Data Coverpin.Database Coverpin.Upload Coverpin.Validation

/-! # Everything that a step can do

The step function read backwards: one constructor for each way in which a process
goes on, and for each kind of process that an action starts.
-/

/-- A process between the commit of its write and its clearing of the cache. -/
def Process.clears : Process → Bool
  | .clear | .run _ _ (.clear _) => true
  | _ => false

variable [Platform] {limits : Limits} {shared : Shared} {process : Process} {choice : Choice} {result : Outcome}
  {state after : State} {action : Action}

inductive Effect (limits : Limits) (shared : Shared) : Process → Choice → Outcome → Prop where
  | committed (upload : ValidatedUpload) {db : Database} {counts : UploadBatchResult}
      (written : processUploadTransaction limits.uploadBatchChunkSize upload shared.db = .ok (db, counts)) :
      Effect limits shared (.write upload) .succeed
        ⟨{ shared with db }, [.clear], some (.committed upload)⟩
  | cleared : Effect limits shared .clear .succeed ⟨{ shared with analyticsBaseCache := none }, [], none⟩
  | created (rows : UploadBatchRows) :
      Effect limits shared (.create rows) .succeed
        ⟨{ shared with jobs := (shared.jobs.create rows).2 }, [.publish (shared.jobs.create rows).1 rows], none⟩
  | published (jobId : JobId) (rows : UploadBatchRows) (published : Bool) {choice : Choice} :
      Effect limits shared (.publish jobId rows) choice ⟨shared, [.setDispatchMethod jobId rows published], none⟩
  | dispatched (jobId : JobId) (rows : UploadBatchRows) (published : Bool) (dispatchMethod : DispatchMethod) :
      Effect limits shared (.setDispatchMethod jobId rows published) .succeed
        ⟨{ shared with jobs := shared.jobs.setDispatchMethod jobId dispatchMethod },
          if published then [] else [.run .fallback jobId (.claim rows)], none⟩
  | found (jobId : JobId) {job : UploadJob} (stored : shared.jobs.get? jobId = some job) :
      Effect limits shared (.find jobId) .succeed ⟨shared, [.run .callback jobId (.claim job.payload)], none⟩
  | claimed (dispatcher : Dispatcher) (jobId : JobId) (rows : UploadBatchRows) {jobs : UploadJobs}
      (queued : shared.jobs.statusOf jobId = some .queued)
      (moved : ∀ other, jobs.statusOf other = if other = jobId then some .processing else shared.jobs.statusOf other)
      (same : jobs = (shared.jobs.claim jobId).1) :
      Effect limits shared (.run dispatcher jobId (.claim rows)) .succeed
        ⟨{ shared with jobs }, [.run dispatcher jobId (.write rows)], some (.claimed jobId)⟩
  | wrote (dispatcher : Dispatcher) (jobId : JobId) (rows : UploadBatchRows) {db : Database}
      {counts : UploadBatchResult}
      (written : writeUploadBatch rows limits.uploadBatchChunkSize shared.db = .ok (db, counts)) :
      Effect limits shared (.run dispatcher jobId (.write rows)) .succeed
        ⟨{ shared with db }, [.run dispatcher jobId (.clear counts)], some (.jobCommitted jobId rows)⟩
  | rolledBack (dispatcher : Dispatcher) (jobId : JobId) (rows : UploadBatchRows) (reason : DbError) {choice : Choice} :
      Effect limits shared (.run dispatcher jobId (.write rows)) choice
        ⟨shared, [.run dispatcher jobId (.markFailed (.write reason))], none⟩
  | jobCleared (dispatcher : Dispatcher) (jobId : JobId) (counts : UploadBatchResult) :
      Effect limits shared (.run dispatcher jobId (.clear counts)) .succeed
        ⟨{ shared with analyticsBaseCache := none }, [.run dispatcher jobId (.markCompleted counts)], none⟩
  | completed (dispatcher : Dispatcher) (jobId : JobId) (counts : UploadBatchResult) :
      Effect limits shared (.run dispatcher jobId (.markCompleted counts)) .succeed
        ⟨{ shared with jobs := shared.jobs.markCompleted jobId counts }, [], none⟩
  | caught (jobId : JobId) (counts : UploadBatchResult) :
      Effect limits shared (.run .callback jobId (.markCompleted counts)) .fail
        ⟨shared, [.run .callback jobId (.markFailed .markCompleted)], none⟩
  | failed (dispatcher : Dispatcher) (jobId : JobId) (cause : FailureCause) :
      Effect limits shared (.run dispatcher jobId (.markFailed cause)) .succeed
        ⟨{ shared with jobs := shared.jobs.markFailed jobId cause }, [], none⟩
  | stored (entities : List EntityRecord) (edges : List OwnershipEdge) :
      Effect limits shared (.fill (some entities) (some edges)) .succeed
        ⟨{ shared with analyticsBaseCache := some { entities, edges } }, [], none⟩
  | readEntities (edges : Option (List OwnershipEdge)) :
      Effect limits shared (.fill none edges) .readEntities
        ⟨shared, [.fill (some shared.db.entities.records) edges], none⟩
  | readEdges (entities : Option (List EntityRecord)) :
      Effect limits shared (.fill entities none) .readEdges
        ⟨shared, [.fill entities (some shared.db.ownershipEdges.records)], none⟩
  | ended {process : Process} {choice : Choice} (other : process.clears = false) :
      Effect limits shared process choice ⟨shared, [], none⟩

theorem afterSuccess_effect (taken : afterSuccess limits shared process = some result) :
    Effect limits shared process .succeed result := by
  unfold afterSuccess at taken
  split at taken
  · split at taken
    · rename_i written
      cases taken
      exact .committed _ (transaction_ok written)
    · cases taken
      exact .ended rfl
  · cases taken
    exact .cleared
  · cases taken
    exact .created _
  · cases taken
    exact .published _ _ true
  · cases taken
    exact .dispatched _ _ _ _
  · split at taken
    · cases taken
      exact .ended rfl
    · rename_i stored
      split at taken
      · cases taken
        exact .found _ stored
      · cases taken
        exact .ended rfl
  · rename_i jobId rows
    split at taken
    · rename_i jobs won
      cases taken
      rcases shared.jobs.claim_cases jobId with ⟨lost, _⟩ | ⟨_, queued, moved⟩
      · rw [lost] at won
        cases won
      · rw [won] at moved
        exact .claimed _ _ _ queued moved (by rw [won])
    · cases taken
      exact .ended rfl
  · split at taken
    · rename_i written
      cases taken
      exact .wrote _ _ _ (transaction_ok written)
    · cases taken
      exact .rolledBack _ _ _ _
  · cases taken
    exact .jobCleared _ _ _
  · cases taken
    exact .completed _ _ _
  · cases taken
    exact .failed _ _ _
  · cases taken
    exact .stored _ _
  · cases taken

theorem afterFailure_effect {next : List Process} (taken : afterFailure process = some next) :
    Effect limits shared process .fail ⟨shared, next, none⟩ := by
  unfold afterFailure at taken
  split at taken
  · cases taken
  · cases taken
  · cases taken
  · cases taken
    exact .published _ _ false
  · cases taken
    exact .rolledBack _ _ _ _
  · cases taken
    exact .caught _ _
  · rename_i noClear noRunClear _ _ _ _
    cases taken
    apply Effect.ended
    unfold Process.clears
    split
    · exact absurd rfl noClear
    · exact absurd rfl (noRunClear _ _ _)
    · rfl

theorem advance_effect (taken : advance limits shared process choice = some result) :
    Effect limits shared process choice result := by
  cases choice with
  | succeed => exact afterSuccess_effect taken
  | fail =>
      obtain ⟨next, found, rfl⟩ := Option.map_eq_some_iff.mp taken
      exact afterFailure_effect found
  | readEntities =>
      simp only [advance] at taken
      split at taken
      · cases taken
        exact .readEntities _
      · cases taken
  | readEdges =>
      simp only [advance] at taken
      split at taken
      · cases taken
        exact .readEdges _
      · cases taken

inductive Started (limits : Limits) (shared : Shared) : Action → Process → Prop where
  | write (today : Date) (files : UploadFiles)
      (accepted : (validateUpload shared.db today limits.maxUploadRowsPerFile files).errors = []) :
      Started limits shared (.upload today files)
        (.write (validateUpload shared.db today limits.maxUploadRowsPerFile files))
  | create (today : Date) (files : UploadFiles)
      (accepted : (validateUpload shared.db today limits.maxUploadRowsPerFile files).errors = []) :
      Started limits shared (.uploadAsync today files)
        (.create (toUploadBatchRows (validateUpload shared.db today limits.maxUploadRowsPerFile files)))
  | find (jobId : JobId) : Started limits shared (.callback jobId) (.find jobId)
  | fallback (old : List JobId) {jobId : JobId} {job : UploadJob} (stored : shared.jobs.get? jobId = some job) :
      Started limits shared (.sweepStaleJobs old) (.run .fallback jobId (.claim job.payload))
  | fill : Started limits shared .getAnalytics (.fill none none)

theorem started_of_mem (member : process ∈ started limits shared action) : Started limits shared action process := by
  cases action with
  | upload today files =>
      simp only [started] at member
      split at member
      · cases member
      · rename_i accepted
        rw [List.mem_singleton.mp member]
        exact .write today files (Classical.not_not.mp accepted)
  | uploadAsync today files =>
      simp only [started] at member
      split at member
      · cases member
      · rename_i accepted
        rw [List.mem_singleton.mp member]
        exact .create today files (Classical.not_not.mp accepted)
  | callback jobId =>
      rw [List.mem_singleton.mp member]
      exact .find jobId
  | sweepStaleJobs old =>
      obtain ⟨⟨jobId, job⟩, stale, rfl⟩ := List.mem_map.mp member
      exact .fallback old (InsertionMap.get?_eq_some.mpr (List.mem_filter.mp stale).1)
  | getAnalytics =>
      simp only [started] at member
      split at member
      · cases member
      · rw [List.mem_singleton.mp member]
        exact .fill
  | advance i choice => cases member
  | restart => cases member

/-- What a step of the system is: new processes, a restart, or one process that
goes on. -/
theorem step_cases (taken : step limits state action = some after) :
    (event limits state action = none ∧ ∃ new, (∀ process ∈ new, Started limits state.shared action process) ∧
      after = { state with running := state.running ++ new }) ∨
    (event limits state action = none ∧
      after = { shared := { state.shared with analyticsBaseCache := none }, running := [] }) ∨
    ∃ i choice process result, action = .advance i choice ∧ state.running[i]? = some process ∧
      Effect limits state.shared process choice result ∧ event limits state action = result.event ∧
      after = { shared := result.shared, running := replaceAt state.running i result.next } := by
  cases action with
  | restart =>
      cases taken
      exact .inr (.inl ⟨rfl, rfl⟩)
  | advance i choice =>
      obtain ⟨result, found, rfl⟩ := Option.map_eq_some_iff.mp taken
      obtain ⟨process, running, advanced⟩ := Option.bind_eq_some_iff.mp found
      refine .inr (.inr ⟨i, choice, process, result, rfl, running, advance_effect advanced, ?_, rfl⟩)
      rw [event, found, Option.bind_some]
  | _ =>
      cases taken
      exact .inl ⟨rfl, _, fun process member => started_of_mem member, rfl⟩

end Coverpin.Server
