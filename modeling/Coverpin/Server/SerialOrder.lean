import Coverpin.Server.LastCommit
import Coverpin.Upload.ChunkSizes

namespace Coverpin.Server

open Coverpin.Data Coverpin.Database Coverpin.Upload Coverpin.Validation

/-! # Uploads served one at a time

The server validates an upload in one moment and writes it in a later one.  Its
tables are those of a server that validates and writes in one go, in the order of
the commits, as long as every upload would still be accepted when it is committed.
-/

variable [Platform] {limits : Limits} {trace : List (State × Action)} {state after : State} {action : Action}
  {p q : ValidatedUpload → Prop}

omit [Platform] in
def requestOf (limits : Limits) : Action → Option UploadRequest
  | .upload today files | .uploadAsync today files => some { limits, today, files }
  | _ => none

/-- An upload that a request of the trace got accepted. -/
def Received (limits : Limits) (trace : List (State × Action)) (upload : ValidatedUpload) : Prop :=
  ∃ received ∈ trace, ∃ request, requestOf limits received.2 = some request ∧
    request.validated received.1.shared.db = upload ∧ upload.errors = []

/-- The tables that every commit meets, and the rows that it writes into them. -/
def commits (limits : Limits) (trace : List (State × Action)) : List (Database × UploadBatchRows) :=
  trace.filterMap fun entry => (committedRows limits entry.1 entry.2).map fun rows => (entry.1.shared.db, rows)

/-- What the step commits would be accepted next to the tables it meets.  Only the
edges and the business ids that are stored matter for this. -/
def StillValid (limits : Limits) (state : State) (action : Action) : Prop :=
  StillAccepted limits state action ∧ ∀ rows ∈ committedRows limits state action, ∀ row ∈ rows.entityRows,
    ∀ businessId ∈ row.businessId, ∀ record ∈ state.shared.db.entities.records,
      record.businessId = some businessId → record.entityNameKey = normalizeName row.entityName

instance : Decidable (StillValid limits state action) :=
  inferInstanceAs (Decidable (StillAccepted limits state action ∧
    ∀ rows ∈ committedRows limits state action, ∀ row ∈ rows.entityRows, _))

omit [Platform] in
theorem Process.From.mono [Platform] {process : Process} (source : process.From p) (weaker : ∀ upload, p upload → q upload) :
    process.From q := by
  have rowsFrom : ∀ {rows}, RowsFrom p rows → RowsFrom q rows := by
    intro rows from_
    obtain ⟨upload, meets, same⟩ := from_
    exact ⟨upload, weaker upload meets, same⟩
  unfold Process.From at source ⊢
  split at source
  · exact weaker _ source
  · exact rowsFrom source
  · exact rowsFrom source
  · exact rowsFrom source
  · exact rowsFrom source
  · exact rowsFrom source
  · trivial

theorem WritesFrom.mono (writes : WritesFrom p state) (weaker : ∀ upload, p upload → q upload) : WritesFrom q state where
  processes process member := (writes.processes process member).mono weaker
  payloads jobId rows stored := by
    obtain ⟨upload, meets, same⟩ := writes.payloads jobId rows stored
    exact ⟨upload, weaker upload meets, same⟩

theorem Received.later {upload : ValidatedUpload} (received : Received limits trace upload) (more : List (State × Action)) :
    Received limits (trace ++ more) upload := by
  obtain ⟨entry, member, asked⟩ := received
  exact ⟨entry, List.mem_append_left _ member, asked⟩

theorem received_accepts (trace : List (State × Action)) (state : State) (action : Action) :
    Accepts (Received limits (trace ++ [(state, action)])) limits state.shared action := by
  intro upload validated accepted
  have last : (state, action) ∈ trace ++ [(state, action)] := List.mem_append_right _ (List.mem_singleton_self _)
  cases action with
  | upload today files | uploadAsync today files =>
      cases validated
      exact ⟨_, last, { limits, today, files }, rfl, rfl, accepted⟩
  | _ => cases validated

/-- Everything that is stored or on its way came with a request. -/
structure Sourced (limits : Limits) (trace : List (State × Action)) (state : State) : Prop where
  stored : NamesStored state.shared.db
  writes : WritesFrom (Received limits trace) state

theorem Sourced.initial : Sourced limits [] State.initial where
  stored := .initial
  writes := ⟨List.forall_mem_nil _, fun _ _ stored => nomatch stored⟩

theorem Sourced.step (sourced : Sourced limits trace state) (taken : step limits state action = some after) :
    Sourced limits (trace ++ [(state, action)]) after := by
  refine ⟨?_, (sourced.writes.mono fun _ received => received.later _).step (received_accepts trace state action) taken⟩
  rcases step_committed sourced.writes sourced.stored.normalized taken with ⟨same, _⟩ |
    ⟨upload, registered, ⟨entry, _, request, _, rfl, accepted⟩, _, committed⟩
  · exact same ▸ sourced.stored
  · exact sourced.stored.written committed.toWritten (validateUpload_storable accepted).1

theorem sourced (run : Run (step limits) State.initial trace state) : Sourced limits trace state :=
  run.invariant_trace (Sourced limits) (fun _ _ => True) .initial
    (fun _ _ _ _ sourced _ taken => sourced.step taken) fun _ _ => trivial

theorem commits_next : commits limits (trace ++ [(state, action)]) = commits limits trace ++
    ((committedRows limits state action).map fun rows => (state.shared.db, rows)).toList := by
  rw [commits, List.filterMap_append]
  cases committed : committedRows limits state action <;> simp [commits, committed]

/-- Where it is still valid, the upload that a step commits is the one that its
request asks for now. -/
theorem StillValid.validated {upload : ValidatedUpload} {request : UploadRequest} {db : Database}
    (valid : StillValid limits state action) (rows : committedRows limits state action = some (toUploadBatchRows upload))
    (stored : NamesStored state.shared.db) (same : request.validated db = upload) (accepted : upload.errors = []) :
    request.validated state.shared.db = upload := by
  obtain ⟨graph, owners⟩ := valid
  obtain ⟨_, sheets, _, _⟩ := validateUpload_accepted_iff.mp ⟨same, accepted⟩
  refine (validateUpload_accepted_iff.mpr ⟨accepted, sheets, businessIds_accepted ?_, ?_⟩).1
  · intro row listed businessId named record member owned
    rw [← stored.normalized record member]
    exact owners _ rows _ (List.mem_map_of_mem listed) businessId named record member owned
  · exact checkedRows_accepted.mp (graph _ rows)

/-- An upload that is accepted in the moment of its commit is still valid there. -/
theorem StillValid.of_validated {request : UploadRequest} (stored : NamesStored state.shared.db)
    (accepted : (request.validated state.shared.db).errors = [])
    (rows : committedRows limits state action = some (toUploadBatchRows (request.validated state.shared.db))) :
    StillValid limits state action := by
  obtain ⟨_, _, businessIds, graph⟩ := validateUpload_accepted_iff.mp ⟨rfl, accepted⟩
  refine ⟨fun committed same => ?_, fun committed same row listed businessId named record member owned => ?_⟩
  · cases rows.symm.trans same
    exact checkedRows_accepted.mpr graph
  · cases rows.symm.trans same
    obtain ⟨source, inside, rfl⟩ := List.mem_map.mp listed
    exact businessId_owner stored businessIds inside named member owned

/-- A serial run that serves the commits goes through the tables that they meet and
writes their rows there, each for an accepted request of the trace. -/
def Serves (limits : Limits) (trace : List (State × Action)) (serial : List (Database × UploadRequest)) : Prop :=
  serial.map (fun served => (served.1, toUploadBatchRows (served.2.validated served.1))) = commits limits trace ∧
  ∀ served ∈ serial, (served.2.validated served.1).errors = [] ∧
    ∃ received ∈ trace, requestOf limits received.2 = some served.2

theorem serves_step {serial : List (Database × UploadRequest)} (sourced : Sourced limits trace state)
    (run : Run uploadStep Database.initial serial state.shared.db) (serves : Serves limits trace serial)
    (taken : step limits state action = some after) (valid : StillValid limits state action) :
    ∃ serial, Run uploadStep Database.initial serial after.shared.db ∧
      Serves limits (trace ++ [(state, action)]) serial := by
  obtain ⟨shown, served⟩ := serves
  have earlier : ∀ entry ∈ serial, (entry.2.validated entry.1).errors = [] ∧
      ∃ received ∈ trace ++ [(state, action)], requestOf limits received.2 = some entry.2 := by
    intro entry member
    obtain ⟨accepted, received, inside, asked⟩ := served entry member
    exact ⟨accepted, received, List.mem_append_left _ inside, asked⟩
  rcases step_written sourced.writes sourced.stored.normalized taken with ⟨same, none⟩ |
    ⟨upload, counts, ⟨entry, inside, request, asked, validated, accepted⟩, rows, written⟩
  · refine ⟨serial, same ▸ run, ?_, earlier⟩
    rw [commits_next, none, Option.map_none, Option.toList_none, List.append_nil, shown]
  · have again := valid.validated rows sourced.stored validated accepted
    have taken : uploadStep state.shared.db request = some after.shared.db := by
      have limited : request.limits = limits := by
        unfold requestOf at asked
        split at asked <;> cases asked <;> rfl
      have created : processUpload request.limits request.today request.files state.shared.db =
          (after.shared.db, .created counts) := by
        refine processUpload_created_iff.mpr ⟨?_, ?_⟩
        · exact (congrArg ValidatedUpload.errors again).trans accepted
        · rw [limited]
          exact (congrArg (processUploadTransaction limits.uploadBatchChunkSize · state.shared.db)
            (limited ▸ again)).trans written
      rw [uploadStep, created]
    refine ⟨serial ++ [(state.shared.db, request)], run.next taken, ?_, ?_⟩
    · rw [commits_next, rows, List.map_append, shown]
      simp [again]
    · refine List.forall_mem_append.mpr ⟨earlier, List.forall_mem_singleton.mpr ?_⟩
      exact ⟨(congrArg ValidatedUpload.errors again).trans accepted, entry, List.mem_append_left _ inside, asked⟩

/-- A run of the server does what one of its requests at a time does, validated and
written in one go in the order of the commits and through the same tables, exactly
when every upload would still be accepted in the moment of its commit. -/
theorem serializable_iff (run : Run (step limits) State.initial trace state) :
    (∃ serial, Run uploadStep Database.initial serial state.shared.db ∧ Serves limits trace serial) ↔
      ∀ entry ∈ trace, StillValid limits entry.1 entry.2 := by
  constructor
  · intro serialized
    obtain ⟨serial, _, shown, served⟩ := serialized
    intro entry member
    cases committed : committedRows limits entry.1 entry.2 with
    | none => exact ⟨by simp [StillAccepted, committed], by simp [committed]⟩
    | some rows =>
        obtain ⟨part, after, shorter, _⟩ := run.entry member
        have listed : (entry.1.shared.db, rows) ∈ commits limits trace :=
          List.mem_filterMap.mpr ⟨entry, member, by rw [committed, Option.map_some]⟩
        rw [← shown] at listed
        obtain ⟨request, inside, same⟩ := List.mem_map.mp listed
        obtain ⟨tables, rfl⟩ := Prod.mk.inj same
        rw [tables] at committed
        exact .of_validated (sourced shorter).stored (tables ▸ (served request inside).1) committed
  · intro valid
    refine (run.invariant_trace (fun trace state => Sourced limits trace state ∧
      ∃ serial, Run uploadStep Database.initial serial state.shared.db ∧ Serves limits trace serial)
      (StillValid limits) ⟨.initial, [], .start, rfl, List.forall_mem_nil _⟩ ?_ valid).2
    intro trace before action after held valid taken
    obtain ⟨sourced, serial, run, serves⟩ := held
    exact ⟨sourced.step taken, serves_step sourced run serves taken valid⟩

omit [Platform] in
/-- The late job is served after the upload that overtook it.  Two uploads that close
a cycle between them have no such order. -/
theorem late_job_served :
    letI := asciiPlatform
    let cycle := racingActions [("Acme", "Beta", "100")] [("Beta", "Acme", "100")]
    (∃ trace state, trace.map Prod.snd = lateJobActions ∧ Run (step Limits.default) State.initial trace state ∧
      ∃ serial, Run uploadStep Database.initial serial state.shared.db ∧ Serves Limits.default trace serial) ∧
    ∃ trace state, trace.map Prod.snd = cycle ∧ Run (step Limits.default) State.initial trace state ∧
      ¬ ∃ serial, Run uploadStep Database.initial serial state.shared.db ∧ Serves Limits.default trace serial := by
  have facts : letI := asciiPlatform
      let cycle := racingActions [("Acme", "Beta", "100")] [("Beta", "Acme", "100")]
      ((execute (step Limits.default) State.initial lateJobActions).isSome = true ∧
        ∀ entry ∈ steps (step Limits.default) State.initial lateJobActions, StillValid Limits.default entry.1 entry.2) ∧
      (execute (step Limits.default) State.initial cycle).isSome = true ∧
        ¬ ∀ entry ∈ steps (step Limits.default) State.initial cycle, StillValid Limits.default entry.1 entry.2 := by
    decide +kernel
  let _ := asciiPlatform
  obtain ⟨⟨lateRuns, valid⟩, cycleRuns, invalid⟩ := facts
  obtain ⟨late, lateExecuted⟩ := Option.isSome_iff_exists.mp lateRuns
  obtain ⟨cycled, cycleExecuted⟩ := Option.isSome_iff_exists.mp cycleRuns
  constructor
  · exact ⟨_, late, steps_actions lateExecuted, run_steps lateExecuted,
      (serializable_iff (run_steps lateExecuted)).mpr valid⟩
  · exact ⟨_, cycled, steps_actions cycleExecuted, run_steps cycleExecuted, fun served =>
      invalid ((serializable_iff (run_steps cycleExecuted)).mp served)⟩

end Coverpin.Server
