import Coverpin.Server.Interleaving
import Coverpin.Upload.CommitLog

namespace Coverpin.Server

open Coverpin.Data Coverpin.Database Coverpin.Upload Coverpin.Validation

/-! # The last commit of a row wins

Uploads are written in the order of their commits, which need not be the order in
which they were accepted.
-/

variable [Platform] {limits : Limits} {trace : List (State × Action)} {state after : State} {action : Action}

/-- What was committed, in the order of the commits. -/
def committedLog (limits : Limits) (trace : List (State × Action)) : List UploadBatchRows :=
  trace.filterMap fun entry => committedRows limits entry.1 entry.2

structure CheckedUpload (upload : ValidatedUpload) : Prop where
  consistent : ConsistentUpload upload
  accepted : AcceptedUpload upload

theorem accepts_checked (shared : Shared) (action : Action) : Accepts CheckedUpload limits shared action := by
  intro upload validated accepted
  cases action with
  | upload today files | uploadAsync today files =>
      cases validated
      exact ⟨(validateUpload_accepted accepted).1, (validateUpload_storable accepted).1⟩
  | _ => cases validated

/-- The tables are the replay of the log, and only checked uploads will be added to it. -/
structure Logged (limits : Limits) (trace : List (State × Action)) (state : State) : Prop where
  normalized : NamesNormalized state.shared.db
  writes : WritesFrom CheckedUpload state
  replays : Replays (committedLog limits trace) state.shared.db

theorem Logged.initial : Logged limits [] State.initial where
  normalized := namesNormalized_initial
  writes := ⟨List.forall_mem_nil _, fun _ _ stored => nomatch stored⟩
  replays := .initial

theorem Logged.step (logged : Logged limits trace state) (taken : step limits state action = some after) :
    Logged limits (trace ++ [(state, action)]) after := by
  have writes := logged.writes.step (accepts_checked state.shared action) taken
  have log : committedLog limits (trace ++ [(state, action)]) =
      committedLog limits trace ++ (committedRows limits state action).toList := by
    rw [committedLog, List.filterMap_append]
    cases committed : committedRows limits state action <;> simp [committedLog, committed]
  rcases step_committed logged.writes logged.normalized taken with ⟨same, none⟩ |
    ⟨upload, registered, checked, rows, committed⟩
  · refine ⟨same ▸ logged.normalized, writes, ?_⟩
    rw [log, none, Option.toList_none, List.append_nil, same]
    exact logged.replays
  · refine ⟨committed.namesNormalized logged.normalized, writes, ?_⟩
    rw [log, rows, Option.toList_some]
    exact logged.replays.commit committed logged.normalized checked.consistent checked.accepted

theorem logged (run : Run (step limits) State.initial trace state) : Logged limits trace state :=
  run.invariant_trace (Logged limits) (fun _ _ => True) .initial
    (fun _ _ _ _ logged _ taken => logged.step taken) fun _ _ => trivial

/-- In every run the record of a natural key holds the values of the upload that
was committed last among those with a row for the key. -/
theorem last_commit_wins (run : Run (step limits) State.initial trace state) {earlier later : List UploadBatchRows}
    {rows : UploadBatchRows} (log : committedLog limits trace = earlier ++ rows :: later) :
    (∀ key view, (InsertionMap.ofPairs rows.entityEntries).get? key = some view →
      (∀ batch ∈ later, key ∉ batch.entityEntries.map Prod.fst) →
      (entitiesByName state.shared.db).get? key = some view) ∧
    (∀ ends pct, (InsertionMap.ofPairs rows.edgeEntries).get? ends = some pct →
      (∀ batch ∈ later, ends ∉ batch.edgeEntries.map Prod.fst) →
      (edgesByName state.shared.db).get? ends = some pct) ∧
    ∀ key values, (InsertionMap.ofPairs rows.filingEntries).get? key = some values →
      (∀ batch ∈ later, key ∉ batch.filingEntries.map Prod.fst) →
      (filingsByName state.shared.db).get? key = some values := by
  have replays := (logged run).replays
  rw [log] at replays
  refine ⟨fun key view found absent => ?_, fun ends pct found absent => ?_, fun key values found absent => ?_⟩
  · rw [replays.entities]
    exact InsertionMap.get?_ofPairs_last found absent
  · rw [replays.edges]
    exact InsertionMap.get?_ofPairs_last found absent
  · rw [replays.filings]
    exact InsertionMap.get?_ofPairs_last found absent

omit [Platform] in
def firstFiles : UploadFiles :=
  ownershipFiles [("Acme", "Entity", "")] []

omit [Platform] in
def secondFiles : UploadFiles :=
  ownershipFiles [("ACME", "Entity", "")] []

omit [Platform] in
/-- The first upload waits as a job until the second one is written. -/
def lateJobActions : List Action := [
  .uploadAsync ⟨0⟩ firstFiles, .upload ⟨0⟩ secondFiles,
  .advance 1 .succeed,
  .advance 0 .succeed, .advance 1 .fail, .advance 1 .succeed, .advance 1 .succeed, .advance 1 .succeed]

omit [Platform] in
theorem late_job_overwrites : ¬ ∀ [Platform] (limits : Limits) (trace : List (State × Action)) (state : State),
    Run (step limits) State.initial trace state →
    ∀ (earlier between later : List (State × Action)) (first second : State × Action) (accepted next : ValidatedUpload),
      trace = earlier ++ first :: (between ++ second :: later) →
      validated? limits first.1.shared first.2 = some accepted → accepted.errors = [] →
      validated? limits second.1.shared second.2 = some next → next.errors = [] →
      toUploadBatchRows accepted ∈ committedLog limits trace → toUploadBatchRows next ∈ committedLog limits trace →
      ∀ key view, key ∈ (toUploadBatchRows accepted).entityEntries.map Prod.fst →
        (InsertionMap.ofPairs (toUploadBatchRows next).entityEntries).get? key = some view →
        (entitiesByName state.shared.db).get? key = some view := by
  intro claimed
  have facts : letI := asciiPlatform
      let first := validateUpload Database.initial ⟨0⟩ Limits.default.maxUploadRowsPerFile firstFiles
      let second := validateUpload Database.initial ⟨0⟩ Limits.default.maxUploadRowsPerFile secondFiles
      let log := committedLog Limits.default (steps (step Limits.default) State.initial lateJobActions)
      let view := (InsertionMap.ofPairs (toUploadBatchRows second).entityEntries).get? "acme"
      first.errors = [] ∧ second.errors = [] ∧ view.isSome = true ∧
      "acme" ∈ (toUploadBatchRows first).entityEntries.map Prod.fst ∧
      toUploadBatchRows first ∈ log ∧ toUploadBatchRows second ∈ log ∧
      (execute (step Limits.default) State.initial lateJobActions).map
        (fun state => decide ((entitiesByName state.shared.db).get? "acme" = view)) = some false := by
    decide +kernel
  let _ := asciiPlatform
  obtain ⟨first, second, known, named, firstWritten, secondWritten, lost⟩ := facts
  obtain ⟨state, executed, differs⟩ := Option.map_eq_some_iff.mp lost
  obtain ⟨view, found⟩ := Option.isSome_iff_exists.mp known
  have stored := claimed Limits.default _ state (run_steps executed) [] [] _ (_, _) (_, _) _ _ rfl rfl first rfl second
    firstWritten secondWritten "acme" view named found
  rw [found] at differs
  exact of_decide_eq_false differs stored

omit [Platform] in
theorem late_job_stored :
    letI := asciiPlatform
    let first := toUploadBatchRows (validateUpload Database.initial ⟨0⟩ Limits.default.maxUploadRowsPerFile firstFiles)
    ∃ trace state, trace.map Prod.snd = lateJobActions ∧ Run (step Limits.default) State.initial trace state ∧
      ∀ view, (InsertionMap.ofPairs first.entityEntries).get? "acme" = some view →
        (entitiesByName state.shared.db).get? "acme" = some view := by
  have facts : letI := asciiPlatform
      let first := toUploadBatchRows (validateUpload Database.initial ⟨0⟩ Limits.default.maxUploadRowsPerFile firstFiles)
      let second := toUploadBatchRows (validateUpload Database.initial ⟨0⟩ Limits.default.maxUploadRowsPerFile secondFiles)
      committedLog Limits.default (steps (step Limits.default) State.initial lateJobActions) = [second] ++ [first] ∧
        (execute (step Limits.default) State.initial lateJobActions).isSome = true := by
    decide +kernel
  let _ := asciiPlatform
  obtain ⟨log, finishes⟩ := facts
  obtain ⟨state, executed⟩ := Option.isSome_iff_exists.mp finishes
  exact ⟨_, state, steps_actions executed, run_steps executed, fun view found =>
    (last_commit_wins (run_steps executed) log).1 "acme" view found (List.forall_mem_nil _)⟩

end Coverpin.Server
