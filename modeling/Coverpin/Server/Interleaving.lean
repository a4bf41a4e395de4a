import Coverpin.Server.Effects
import Coverpin.Upload.OwnershipInvariant
import Coverpin.Upload.StoredValues
import Coverpin.Upload.WritersAgree

namespace Coverpin.Server

open Coverpin.Data Coverpin.Database Coverpin.Upload Coverpin.Validation Coverpin.Validation.Graph
  Coverpin.Validation.Ownership

/-! # Ownership under interleaved uploads

An upload is validated against the tables of one moment and written into those of
another one.  Whatever lies in between, the rows that are written are rows that
were accepted; whether the tables stay sound is decided by the check that these
rows would meet at their commit, and nobody makes it.
-/

def RowsFrom [Platform] (p : ValidatedUpload → Prop) (rows : UploadBatchRows) : Prop :=
  ∃ upload, p upload ∧ toUploadBatchRows upload = rows

/-- What a process is going to write comes from an upload that meets `p`. -/
def Process.From [Platform] (p : ValidatedUpload → Prop) : Process → Prop
  | .write upload => p upload
  | .create rows | .publish _ rows | .setDispatchMethod _ rows _ => RowsFrom p rows
  | .run _ _ (.claim rows) | .run _ _ (.write rows) => RowsFrom p rows
  | _ => True

structure WritesFrom [Platform] (p : ValidatedUpload → Prop) (state : State) : Prop where
  processes : ∀ process ∈ state.running, process.From p
  payloads : ∀ jobId rows, state.shared.jobs.payloadOf jobId = some rows → RowsFrom p rows

variable [Platform] {limits : Limits} {trace : List (State × Action)} {state after : State} {action : Action}
  {shared : Shared} {process : Process} {choice : Choice} {result : Outcome} {p : ValidatedUpload → Prop}

def validated? (limits : Limits) (shared : Shared) : Action → Option ValidatedUpload
  | .upload today files | .uploadAsync today files =>
      some (validateUpload shared.db today limits.maxUploadRowsPerFile files)
  | _ => none

/-- Uploads that an action gets accepted meet `p`. -/
def Accepts (p : ValidatedUpload → Prop) (limits : Limits) (shared : Shared) (action : Action) : Prop :=
  ∀ upload ∈ validated? limits shared action, upload.errors = [] → p upload

instance [DecidablePred p] : Decidable (Accepts p limits shared action) :=
  inferInstanceAs (Decidable (∀ upload ∈ validated? limits shared action, _))

theorem Started.from (new : Started limits shared action process) (accepts : Accepts p limits shared action)
    (payloads : ∀ jobId rows, shared.jobs.payloadOf jobId = some rows → RowsFrom p rows) : process.From p := by
  cases new with
  | write today files accepted => exact accepts _ rfl accepted
  | create today files accepted => exact ⟨_, accepts _ rfl accepted, rfl⟩
  | fallback old stored => exact payloads _ _ (by rw [UploadJobs.payloadOf, stored, Option.map_some])
  | find | fill => trivial

theorem Effect.from (effect : Effect limits shared process choice result) (source : process.From p)
    (payloads : ∀ jobId rows, shared.jobs.payloadOf jobId = some rows → RowsFrom p rows) :
    (∀ next ∈ result.next, next.From p) ∧
      ∀ jobId rows, result.shared.jobs.payloadOf jobId = some rows → RowsFrom p rows := by
  cases effect with
  | created rows =>
      refine ⟨fun next member => by rw [List.mem_singleton.mp member]; exact source, fun jobId other stored => ?_⟩
      simp only [UploadJobs.payloadOf_create] at stored
      split at stored
      · cases stored
        exact source
      · exact payloads jobId other stored
  | published => exact ⟨fun next member => by rw [List.mem_singleton.mp member]; exact source, payloads⟩
  | dispatched jobId rows published dispatchMethod =>
      refine ⟨fun next member => ?_, fun other rows stored => ?_⟩
      · cases published
        · simp only [Bool.false_eq_true, if_false, List.mem_singleton] at member
          rw [member]
          exact source
        · cases member
      · exact payloads other rows ((UploadJobs.payloadOf_setDispatchMethod _).symm.trans stored)
  | found jobId stored =>
      refine ⟨fun next member => ?_, payloads⟩
      rw [List.mem_singleton.mp member]
      exact payloads jobId _ (by rw [UploadJobs.payloadOf, stored, Option.map_some])
  | claimed dispatcher jobId rows queued moved same =>
      refine ⟨fun next member => by rw [List.mem_singleton.mp member]; exact source, fun other rows stored => ?_⟩
      rw [same] at stored
      exact payloads other rows (UploadJobs.payloadOf_claim.symm.trans stored)
  | completed =>
      exact ⟨List.forall_mem_nil _, fun other rows stored =>
        payloads other rows ((UploadJobs.payloadOf_markCompleted _).symm.trans stored)⟩
  | failed =>
      exact ⟨List.forall_mem_nil _, fun other rows stored =>
        payloads other rows ((UploadJobs.payloadOf_markFailed _).symm.trans stored)⟩
  | committed | wrote | rolledBack | jobCleared | caught | readEntities | readEdges =>
      exact ⟨fun next member => by rw [List.mem_singleton.mp member]; trivial, payloads⟩
  | cleared | stored | ended => exact ⟨List.forall_mem_nil _, payloads⟩

theorem WritesFrom.step (writes : WritesFrom p state) (accepts : Accepts p limits state.shared action)
    (taken : step limits state action = some after) : WritesFrom p after := by
  rcases step_cases taken with ⟨_, new, starts, rfl⟩ | ⟨_, rfl⟩ |
    ⟨i, choice, source, result, _, found, effect, _, rfl⟩
  · refine ⟨fun process member => ?_, writes.payloads⟩
    rcases List.mem_append.mp member with old | started
    · exact writes.processes process old
    · exact (starts process started).from accepts writes.payloads
  · exact ⟨List.forall_mem_nil _, writes.payloads⟩
  · obtain ⟨next, payloads⟩ := effect.from (writes.processes source (List.mem_of_getElem? found)) writes.payloads
    exact ⟨forall_replaceAt writes.processes next, payloads⟩

def Event.rows? : Event → Option UploadBatchRows
  | .committed upload => some (toUploadBatchRows upload)
  | .jobCommitted _ rows => some rows
  | .claimed _ => none

def committedRows (limits : Limits) (state : State) (action : Action) : Option UploadBatchRows :=
  (event limits state action).bind Event.rows?

omit [Platform] in
/-- The ownership rows of a batch as the graph check takes them.  Line numbers are
lost in a batch; they only appear in the texts of errors. -/
def checkedRows (rows : UploadBatchRows) : List ParsedOwnershipRow :=
  rows.ownershipRows.map fun row =>
    { line := 0, parentEntity := row.parentEntity, childEntity := row.childEntity, ownershipPct := row.ownershipPct }

theorem checkedRows_accepted {upload : ValidatedUpload} {existingEdges : List ExistingEdge} :
    validateOwnershipGraph (checkedRows (toUploadBatchRows upload)) existingEdges = [] ↔
      validateOwnershipGraph upload.ownershipRows existingEdges = [] := by
  have same : checkedRows (toUploadBatchRows upload) = upload.ownershipRows.map fun row => { row with line := 0 } := by
    simp [checkedRows, toUploadBatchRows, toUploadOwnershipRow, Function.comp_def]
  rw [same]
  exact validateOwnershipGraph_map (fun _ => rfl) (fun _ => rfl) (fun _ => rfl)

/-- What the step commits passes the graph check against the edges it meets. -/
def StillAccepted (limits : Limits) (state : State) (action : Action) : Prop :=
  ∀ rows ∈ committedRows limits state action,
    validateOwnershipGraph (checkedRows rows) (loadExistingEdges state.shared.db) = []

instance : Decidable (StillAccepted limits state action) :=
  inferInstanceAs (Decidable (∀ rows ∈ committedRows limits state action, _))

/-- A step that commits writes an upload, and every other one leaves the tables
alone. -/
theorem step_written (writes : WritesFrom p state) (normalized : NamesNormalized state.shared.db)
    (taken : step limits state action = some after) :
    (after.shared.db = state.shared.db ∧ committedRows limits state action = none) ∨
    ∃ upload counts, p upload ∧ committedRows limits state action = some (toUploadBatchRows upload) ∧
      processUploadTransaction limits.uploadBatchChunkSize upload state.shared.db = .ok (after.shared.db, counts) := by
  rcases step_cases taken with ⟨silent, new, starts, rfl⟩ | ⟨silent, rfl⟩ |
    ⟨i, choice, source, result, _, found, effect, same, rfl⟩
  · exact .inl ⟨rfl, by rw [committedRows, silent, Option.bind_none]⟩
  · exact .inl ⟨rfl, by rw [committedRows, silent, Option.bind_none]⟩
  · have from_ := writes.processes source (List.mem_of_getElem? found)
    rw [committedRows, same]
    cases effect with
    | committed upload written => exact .inr ⟨upload, _, from_, rfl, written⟩
    | wrote dispatcher jobId rows written =>
        obtain ⟨upload, meets, rfl⟩ := from_
        rw [writeUploadBatch_eq normalized limits.chunkSizePositive] at written
        exact .inr ⟨upload, _, meets, rfl, written⟩
    | _ => exact .inl ⟨rfl, rfl⟩

theorem step_committed (writes : WritesFrom p state) (normalized : NamesNormalized state.shared.db)
    (taken : step limits state action = some after) :
    (after.shared.db = state.shared.db ∧ committedRows limits state action = none) ∨
    ∃ upload registered, p upload ∧ committedRows limits state action = some (toUploadBatchRows upload) ∧
      Committed upload state.shared.db registered after.shared.db := by
  rcases step_written writes normalized taken with unchanged | ⟨upload, counts, meets, rows, written⟩
  · exact .inl unchanged
  · obtain ⟨registered, committed⟩ := processUploadTransaction_committed limits.chunkSizePositive written
    exact .inr ⟨upload, registered, meets, rows, committed⟩

/-- An accepted upload over names that keep clear of the key separator. -/
structure ClearUpload (upload : ValidatedUpload) : Prop where
  consistent : ConsistentUpload upload
  safe : ∀ row ∈ upload.ownershipRows, KeySafe row.parentEntity row.childEntity

/-- What holds in every state, sound or not, as long as names are clear. -/
structure ClearTables (state : State) : Prop where
  normalized : NamesNormalized state.shared.db
  readable : EdgesReadable state.shared.db
  writes : WritesFrom ClearUpload state

theorem ClearTables.initial : ClearTables State.initial where
  normalized := namesNormalized_initial
  readable := OwnershipInvariant.initial.readable
  writes := ⟨List.forall_mem_nil _, by rintro jobId rows ⟨⟩⟩

theorem clear_accepts (clear : Accepts ClearNames limits shared action) : Accepts ClearUpload limits shared action := by
  intro upload validated accepted
  have names := clear upload validated accepted
  refine ⟨?_, fun row member => keySafe_iff.mpr (names row member)⟩
  cases action with
  | upload today files | uploadAsync today files =>
      cases validated
      exact (validateUpload_accepted accepted).1
  | _ => cases validated

theorem ClearTables.step (tables : ClearTables state) (clear : Accepts ClearNames limits state.shared action)
    (taken : step limits state action = some after) : ClearTables after := by
  have writes := tables.writes.step (clear_accepts clear) taken
  rcases step_committed tables.writes tables.normalized taken with ⟨same, _⟩ | ⟨upload, registered, meets, _, committed⟩
  · exact ⟨same ▸ tables.normalized, same ▸ tables.readable, writes⟩
  · have written := committed.toWritten
    exact ⟨written.namesNormalized tables.normalized,
      (written.storedGraph tables.normalized meets.consistent tables.readable meets.safe).1, writes⟩

/-- A step from sound tables leads to sound tables exactly when what it commits is
still accepted. -/
theorem sound_step (tables : ClearTables state) (sound : OwnershipSound state.shared.db)
    (taken : step limits state action = some after) :
    OwnershipSound after.shared.db ↔ StillAccepted limits state action := by
  have graph := sound.graph tables.normalized tables.readable
  rcases step_committed tables.writes tables.normalized taken with ⟨same, none⟩ |
    ⟨upload, registered, meets, rows, committed⟩
  · simp [same, sound, StillAccepted, none]
  · have written := committed.toWritten
    obtain ⟨readable, merged⟩ := written.storedGraph tables.normalized meets.consistent tables.readable meets.safe
    have normalized := written.namesNormalized tables.normalized
    simp only [StillAccepted, rows, Option.mem_some_iff, forall_eq', checkedRows_accepted]
    constructor
    · exact fun sound => accepted_of_sound (merged ▸ sound.graph normalized readable)
    · intro accepted
      exact OwnershipInvariant.sound ⟨normalized, readable, merged ▸ mergedEdges_sound graph meets.safe accepted⟩

/-- However uploads are interleaved, the ownership table is sound in every state on
the way exactly when every commit would have passed the graph check against the
edges that it met. -/
theorem interleaved_sound_iff (run : Run (step limits) State.initial trace state)
    (clear : ∀ entry ∈ trace, Accepts ClearNames limits entry.1.shared entry.2) :
    (∀ reached ∈ visited trace state, OwnershipSound reached.shared.db) ↔
      ∀ entry ∈ trace, StillAccepted limits entry.1 entry.2 := by
  have tables := run.invariant_visited ClearTables (fun state action => Accepts ClearNames limits state.shared action)
    .initial (fun _ _ _ tables clear taken => tables.step clear taken) clear
  clear clear
  induction run with
  | start =>
      have sound : OwnershipSound State.initial.shared.db := OwnershipInvariant.initial.sound
      simpa [visited] using sound
  | @next trace before after action run taken induction =>
      rw [visited_next] at tables
      have earlier := induction fun other member => tables other (List.mem_append_left _ member)
      have last : before ∈ visited trace before := List.mem_append_right _ (List.mem_singleton_self _)
      have step := fun sound => sound_step (tables before (List.mem_append_left _ last)) sound taken
      rw [visited_next, List.forall_mem_append, List.forall_mem_append, List.forall_mem_singleton,
        List.forall_mem_singleton]
      constructor
      · intro reached
        obtain ⟨sound, final⟩ := reached
        exact ⟨earlier.mp sound, (step (sound before last)).mp final⟩
      · intro commits
        obtain ⟨accepted, final⟩ := commits
        have sound := earlier.mpr accepted
        exact ⟨sound, (step (sound before last)).mpr final⟩

omit [Platform] in
/-- Two uploads that are validated on empty tables, and both written then. -/
def racingActions (first second : List (String × String × String)) : List Action :=
  let entities := [("Acme", "Entity", ""), ("Beta", "Entity", ""), ("Gamma", "Entity", "")]
  [.upload ⟨0⟩ (ownershipFiles entities first), .upload ⟨0⟩ (ownershipFiles entities second),
    .advance 0 .succeed, .advance 0 .succeed]

omit [Platform] in
theorem racing_uploads_cycle : ¬ ∀ [Platform] (limits : Limits) (trace : List (State × Action)) (state : State),
    Run (step limits) State.initial trace state → OwnershipSound state.shared.db := by
  intro claimed
  let actions := racingActions [("Acme", "Beta", "100")] [("Beta", "Acme", "100")]
  have reached : letI := asciiPlatform
      ((execute (step Limits.default) State.initial actions).map fun state =>
        state.shared.db.ownershipEdges.records.map fun edge => (edge.parentEntityId, edge.childEntityId)) =
      some [(1, 2), (2, 1)] := by
    decide +kernel
  let _ := asciiPlatform
  obtain ⟨state, executed, edges⟩ := Option.map_eq_some_iff.mp reached
  have owns : ∀ ends ∈ [(1, 2), (2, 1)], state.shared.db.Owns ends.1 ends.2 := by
    intro ends member
    rw [← edges] at member
    obtain ⟨edge, inside, rfl⟩ := List.mem_map.mp member
    exact ⟨edge, inside, rfl, rfl⟩
  have sound := claimed _ _ _ (run_steps executed)
  exact sound.acyclic 1 (.tail (.single (owns (1, 2) (by simp))) (owns (2, 1) (by simp)))

omit [Platform] in
theorem racing_uploads_sound :
    letI := asciiPlatform
    let actions := racingActions [("Acme", "Beta", "40")] [("Gamma", "Beta", "60")]
    let trace := steps (step Limits.default) State.initial actions
    trace.map Prod.snd = actions ∧ ∃ state, Run (step Limits.default) State.initial trace state ∧
      ∀ reached ∈ visited trace state, OwnershipSound reached.shared.db := by
  let actions := racingActions [("Acme", "Beta", "40")] [("Gamma", "Beta", "60")]
  have facts : letI := asciiPlatform
      (execute (step Limits.default) State.initial actions).isSome = true ∧
      (∀ entry ∈ steps (step Limits.default) State.initial actions,
        Accepts ClearNames Limits.default entry.1.shared entry.2) ∧
      ∀ entry ∈ steps (step Limits.default) State.initial actions, StillAccepted Limits.default entry.1 entry.2 := by
    decide +kernel
  let _ := asciiPlatform
  obtain ⟨finishes, clear, accepted⟩ := facts
  obtain ⟨state, executed⟩ := Option.isSome_iff_exists.mp finishes
  exact ⟨steps_actions executed, state, run_steps executed, (interleaved_sound_iff (run_steps executed) clear).mpr accepted⟩

end Coverpin.Server
