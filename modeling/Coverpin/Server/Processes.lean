import Coverpin.Data.Pool
import Coverpin.Data.Run
import Coverpin.Server.UploadJobs

namespace Coverpin.Server

open Coverpin.Data Coverpin.Database Coverpin.Upload Coverpin.Validation

/-! # The server as a transition system

Requests, deliveries and sweeps start processes.  A process takes one step for
each call that it waits for, so that steps of different processes interleave in
any order; a transaction and a conditional update are one step each.  Validation
is one step too: a request starts its process with what was validated.
-/

/-- Who runs a job: the QStash callback, or the local fallback. -/
inductive Dispatcher where
  | callback
  | fallback
deriving DecidableEq, Repr

/-- The next step of a process that runs a job. -/
inductive Stage where
  | claim (rows : UploadBatchRows)
  | write (rows : UploadBatchRows)
  | clear (result : UploadBatchResult)
  | markCompleted (result : UploadBatchResult)
  | markFailed (cause : FailureCause)
deriving DecidableEq, Repr

inductive Process where
  | write (upload : ValidatedUpload)  -- `processUpload` after a validation without errors
  | clear  -- `processUpload` after its commit
  -- `UploadAsyncController.upload`, call by call
  | create (rows : UploadBatchRows)
  | publish (jobId : JobId) (rows : UploadBatchRows)
  | setDispatchMethod (jobId : JobId) (rows : UploadBatchRows) (published : Bool)
  | find (jobId : JobId)  -- `UploadAsyncController.callback` before it has found its job
  -- the callback with a queued job, or `runFallback`
  | run (dispatcher : Dispatcher) (jobId : JobId) (stage : Stage)
  -- `getAnalyticsBase` on an empty cache, with what it has read so far
  | fill (entities : Option (List EntityRecord)) (edges : Option (List OwnershipEdge))
deriving DecidableEq, Repr

structure AnalyticsBase where
  entities : List EntityRecord
  edges : List OwnershipEdge
deriving DecidableEq, Repr

/-- The database and the field of `RegistryService` that all processes share. -/
structure Shared where
  db : Database
  jobs : UploadJobs
  analyticsBaseCache : Option AnalyticsBase

structure State where
  shared : Shared
  running : List Process

def State.initial : State where
  shared := { db := Database.initial, jobs := .empty, analyticsBaseCache := none }
  running := []

/-- How the call that a process waits for ends; the two reads of
`getAnalyticsBase` come in either order. -/
inductive Choice where
  | succeed
  | fail
  | readEntities
  | readEdges
deriving DecidableEq, Repr

/-- What a step is remembered for: a claim that won, and a write that committed. -/
inductive Event where
  | claimed (jobId : JobId)
  | committed (upload : ValidatedUpload)
  | jobCommitted (jobId : JobId) (rows : UploadBatchRows)
deriving DecidableEq, Repr

structure Outcome where
  shared : Shared
  next : List Process
  event : Option Event

/-- What becomes of a process whose call fails without an effect: the callback
catches an error of `markCompleted` like one of the write, and a failed publish
leads to the fallback.  The other errors end the process.  Assigning the cache is
not a call. -/
def afterFailure : Process → Option (List Process)
  | .clear | .run _ _ (.clear _) | .fill (some _) (some _) => none
  | .publish jobId rows => some [.setDispatchMethod jobId rows false]
  | .run dispatcher jobId (.write _) => some [.run dispatcher jobId (.markFailed (.write .unavailable))]
  | .run .callback jobId (.markCompleted _) => some [.run .callback jobId (.markFailed .markCompleted)]
  | _ => some []

variable [Platform] (limits : Limits) (shared : Shared)

def afterSuccess : Process → Option Outcome
  | .write upload =>
      match transaction (processUploadTransaction limits.uploadBatchChunkSize upload) shared.db with
      | (db, .ok _) => some ⟨{ shared with db }, [.clear], some (.committed upload)⟩
      | (_, .error _) => some ⟨shared, [], none⟩
  | .clear => some ⟨{ shared with analyticsBaseCache := none }, [], none⟩
  | .create rows =>
      let (jobId, jobs) := shared.jobs.create rows
      some ⟨{ shared with jobs }, [.publish jobId rows], none⟩
  | .publish jobId rows => some ⟨shared, [.setDispatchMethod jobId rows true], none⟩
  | .setDispatchMethod jobId rows published =>
      some ⟨{ shared with jobs := shared.jobs.setDispatchMethod jobId (if published then .qstash else .localFallback) },
        if published then [] else [.run .fallback jobId (.claim rows)], none⟩
  | .find jobId =>
      match shared.jobs.get? jobId with
      | none => some ⟨shared, [], none⟩
      | some job =>
          if job.status = .queued then some ⟨shared, [.run .callback jobId (.claim job.payload)], none⟩
          else some ⟨shared, [], none⟩
  | .run dispatcher jobId (.claim rows) =>
      match shared.jobs.claim jobId with
      | (jobs, true) => some ⟨{ shared with jobs }, [.run dispatcher jobId (.write rows)], some (.claimed jobId)⟩
      | (_, false) => some ⟨shared, [], none⟩
  | .run dispatcher jobId (.write rows) =>
      match transaction (writeUploadBatch rows limits.uploadBatchChunkSize) shared.db with
      | (db, .ok result) =>
          some ⟨{ shared with db }, [.run dispatcher jobId (.clear result)], some (.jobCommitted jobId rows)⟩
      | (_, .error reason) => some ⟨shared, [.run dispatcher jobId (.markFailed (.write reason))], none⟩
  | .run dispatcher jobId (.clear result) =>
      some ⟨{ shared with analyticsBaseCache := none }, [.run dispatcher jobId (.markCompleted result)], none⟩
  | .run _ jobId (.markCompleted result) =>
      some ⟨{ shared with jobs := shared.jobs.markCompleted jobId result }, [], none⟩
  | .run _ jobId (.markFailed cause) => some ⟨{ shared with jobs := shared.jobs.markFailed jobId cause }, [], none⟩
  | .fill (some entities) (some edges) =>
      some ⟨{ shared with analyticsBaseCache := some { entities, edges } }, [], none⟩
  | .fill _ _ => none

def advance (process : Process) : Choice → Option Outcome
  | .succeed => afterSuccess limits shared process
  | .fail => (afterFailure process).map fun next => ⟨shared, next, none⟩
  | .readEntities =>
      match process with
      | .fill none edges => some ⟨shared, [.fill (some shared.db.entities.records) edges], none⟩
      | _ => none
  | .readEdges =>
      match process with
      | .fill entities none => some ⟨shared, [.fill entities (some shared.db.ownershipEdges.records)], none⟩
      | _ => none

/-- A restart loses whatever is only in memory. -/
inductive Action where
  | upload (today : Date) (files : UploadFiles)
  | uploadAsync (today : Date) (files : UploadFiles)
  | callback (jobId : JobId)
  | sweepStaleJobs (old : List JobId)
  | getAnalytics
  | advance (i : Nat) (choice : Choice)
  | restart
deriving DecidableEq, Repr

/-- The processes that a request, a delivery or a sweep starts. -/
def started : Action → List Process
  | .upload today files =>
      let upload := validateUpload shared.db today limits.maxUploadRowsPerFile files
      if upload.errors ≠ [] then [] else [.write upload]
  | .uploadAsync today files =>
      let upload := validateUpload shared.db today limits.maxUploadRowsPerFile files
      if upload.errors ≠ [] then [] else [.create (toUploadBatchRows upload)]
  | .callback jobId => [.find jobId]
  | .sweepStaleJobs old =>
      (shared.jobs.findStaleQueued old).map fun (jobId, job) => .run .fallback jobId (.claim job.payload)
  | .getAnalytics => if shared.analyticsBaseCache.isSome then [] else [.fill none none]
  | .advance _ _ | .restart => []

def outcome (state : State) : Action → Option Outcome
  | .advance i choice => (state.running[i]?).bind fun process => advance limits state.shared process choice
  | _ => none

def step (state : State) (action : Action) : Option State :=
  match action with
  | .restart => some { shared := { state.shared with analyticsBaseCache := none }, running := [] }
  | .advance i _ => (outcome limits state action).map fun outcome =>
      { shared := outcome.shared, running := replaceAt state.running i outcome.next }
  | _ => some { state with running := state.running ++ started limits state.shared action }

def event (state : State) (action : Action) : Option Event :=
  (outcome limits state action).bind Outcome.event

end Coverpin.Server
