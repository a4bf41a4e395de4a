import Coverpin.Server.LastCommit

namespace Coverpin.Server

open Coverpin.Data Coverpin.Database Coverpin.Upload Coverpin.Validation Coverpin.Validation.Entities

/-! # Ids are permanent

Clients keep ids: of an entity that they expand, of a parent that they select.  An
upload updates a record in place or adds one at the end, so an id always means the
same entity, edge or filing, and nothing that was stored goes away.
-/

def entityIds (db : Database) : List (EntityId × String) :=
  db.entities.records.map fun record => (record.id, record.entityNameKey)

def edgeIds (db : Database) : List (EntityId × EntityId × EntityId) :=
  db.ownershipEdges.records.map fun edge => (edge.id, edge.parentEntityId, edge.childEntityId)

def filingIds (db : Database) : List (EntityId × FilingKey) :=
  db.filings.records.map fun filing => (filing.id, storedFilingKey filing)

/-- Every table has the ids it had, each with its natural key, and maybe more. -/
structure Extends (before after : Database) : Prop where
  entities : entityIds before <+: entityIds after
  edges : edgeIds before <+: edgeIds after
  filings : filingIds before <+: filingIds after

theorem Extends.refl (db : Database) : Extends db db :=
  ⟨List.prefix_rfl, List.prefix_rfl, List.prefix_rfl⟩

theorem Extends.trans {first second third : Database} (earlier : Extends first second) (later : Extends second third) :
    Extends first third :=
  ⟨earlier.entities.trans later.entities, earlier.edges.trans later.edges, earlier.filings.trans later.filings⟩

variable [Platform] {limits : Limits} {trace more : List (State × Action)} {state after : State} {action : Action}
  {chunkSize : Nat} {db next : Database}

theorem upsertEntityRows_ids {rows : List ParsedEntityRow} (positive : 0 < chunkSize)
    (written : upsertEntityRows chunkSize rows db = .ok next) : entityIds db <+: entityIds next := by
  refine KeyedView.rest_extended EntityRecord.entityNameKey ?_ entityRows_proper (upsertEntityRows_upserted positive written)
  intro record values updated proper built
  obtain ⟨row, rfl⟩ := proper
  exact (entity_updated built).2.1

theorem upsertEdgeRecords_ids {records : List EdgeRow} (positive : 0 < chunkSize)
    (written : upsertEdgeRecords chunkSize records db = .ok next) : edgeIds db <+: edgeIds next := by
  refine KeyedView.rest_extended (fun edge => (edge.parentEntityId, edge.childEntityId)) ?_ edgeRows_proper
    (upsertEdgeRecords_upserted positive written)
  intro edge values updated proper built
  obtain ⟨row, rfl⟩ := proper
  exact congrArg Prod.fst (edgeEntry_of_build built)

theorem upsertFilingRecords_ids {records : List FilingRow} (positive : 0 < chunkSize)
    (written : upsertFilingRecords chunkSize records db = .ok next) : filingIds db <+: filingIds next := by
  refine KeyedView.rest_extended storedFilingKey ?_ filingRows_proper (upsertFilingRecords_upserted positive written)
  intro filing values updated proper built
  obtain ⟨row, rfl⟩ := proper
  have entry := filingEntry_read updated
  rw [Filing.read_of_build built] at entry
  exact (congrArg Prod.fst entry).symm.trans (congrArg Prod.fst (filingEntry_read filing))

theorem transaction_extends {upload : ValidatedUpload} {result : UploadBatchResult} (positive : 0 < chunkSize)
    (written : processUploadTransaction chunkSize upload db = .ok (next, result)) : Extends db next := by
  obtain ⟨registered, wired, owned, first, second, third, fourth⟩ := processUploadTransaction_passes written
  have rewired : entityIds wired = entityIds registered := by
    rw [entityIds, (wireDomesticEntities_ok second).1, List.map_map]
    exact List.map_congr_left fun record _ => by simp
  have edgesKept : owned.entities = wired.entities := (upsertEdgeRecords_ok positive third).2
  obtain ⟨entitiesKept, ownedKept⟩ := upsertFilingRecords_ok fourth
  refine ⟨?_, ?_, ?_⟩
  · have same : entityIds next = entityIds registered := by
      rw [← rewired, entityIds, entitiesKept, edgesKept, entityIds]
    exact same ▸ upsertEntityRows_ids positive first
  · have before : edgeIds wired = edgeIds db := by
      rw [edgeIds, (wireDomesticEntities_ok second).2, (upsertEntityRows_ok positive first).2, edgeIds]
    have same : edgeIds next = edgeIds owned := by
      rw [edgeIds, ownedKept, edgeIds]
    exact same ▸ before ▸ upsertEdgeRecords_ids positive third
  · have before : filingIds owned = filingIds db := by
      rw [filingIds, upsertEdgeRecords_filings third, wireDomesticEntities_filings second,
        upsertEntityRows_filings first, filingIds]
    exact before ▸ upsertFilingRecords_ids positive fourth

theorem step_extends (run : Run (step limits) State.initial trace state) (taken : step limits state action = some after) :
    Extends state.shared.db after.shared.db := by
  rcases step_written (logged run).writes (logged run).normalized taken with ⟨same, _⟩ | ⟨upload, counts, _, _, written⟩
  · exact same ▸ .refl _
  · exact transaction_extends limits.chunkSizePositive written

theorem run_extends (run : Run (step limits) State.initial trace state) (later : Run (step limits) state more after) :
    Extends state.shared.db after.shared.db := by
  induction later with
  | start => exact .refl _
  | next later taken induction => exact induction.trans (step_extends (run.trans later) taken)

/-- However uploads, jobs and restarts are interleaved, from one state of a run to a
later one every table only gets records at its end: ids stay with their natural keys,
and an entity has the same id in both states exactly when it has the same name. -/
theorem ids_permanent (run : Run (step limits) State.initial trace state) (later : Run (step limits) state more after) :
    Extends state.shared.db after.shared.db ∧
    ∀ record ∈ state.shared.db.entities.records, ∀ other ∈ after.shared.db.entities.records,
      record.id = other.id ↔ normalizeName record.entityName = normalizeName other.entityName := by
  have grown := run_extends run later
  refine ⟨grown, fun record member other otherMember => ?_⟩
  have kept : (record.id, record.entityNameKey) ∈ entityIds after.shared.db :=
    grown.entities.subset (List.mem_map_of_mem (f := fun record : EntityRecord => (record.id, record.entityNameKey)) member)
  obtain ⟨same, inside, pair⟩ := List.mem_map.mp kept
  obtain ⟨id, key⟩ := Prod.mk.inj pair
  rw [← (logged run).normalized record member, ← (logged (run.trans later)).normalized other otherMember, ← id, ← key]
  constructor
  · exact fun sameId => congrArg EntityRecord.entityNameKey (Table.eq_of_id inside otherMember sameId)
  · exact fun sameKey => congrArg EntityRecord.id (eq_of_entityKey inside otherMember sameKey)

omit [Platform] in
/-- An upload is stored; then a job spells its entity in another way and adds one. -/
def extendedActions : List Action := [
  .upload ⟨0⟩ (ownershipFiles [("Acme", "Entity", "")] []),
  .advance 0 .succeed, .advance 0 .succeed,
  .uploadAsync ⟨0⟩ (ownershipFiles [("Beta", "Entity", ""), ("ACME ", "Entity", "")] [("acme", "Beta", "40")]),
  .advance 0 .succeed, .advance 0 .fail, .advance 0 .succeed, .advance 0 .succeed, .advance 0 .succeed]

omit [Platform] in
theorem extended_ids :
    letI := asciiPlatform
    ∃ more, ∃ state after : State, Run (step Limits.default) state more after ∧
      entityIds state.shared.db = [(1, "acme")] ∧ entityIds after.shared.db = [(1, "acme"), (2, "beta")] ∧
      Extends state.shared.db after.shared.db ∧
      ∀ record ∈ state.shared.db.entities.records, ∀ other ∈ after.shared.db.entities.records,
        record.id = other.id ↔ normalizeName record.entityName = normalizeName other.entityName := by
  have facts : letI := asciiPlatform
      (execute (step Limits.default) State.initial (extendedActions.take 3)).map (fun state => entityIds state.shared.db) =
        some [(1, "acme")] ∧
      ((execute (step Limits.default) State.initial (extendedActions.take 3)).bind fun state =>
        (execute (step Limits.default) state (extendedActions.drop 3)).map fun after => entityIds after.shared.db) =
        some [(1, "acme"), (2, "beta")] := by
    decide +kernel
  let _ := asciiPlatform
  obtain ⟨first, second⟩ := facts
  obtain ⟨state, executed, ids⟩ := Option.map_eq_some_iff.mp first
  rw [executed, Option.bind_some] at second
  obtain ⟨after, continued, laterIds⟩ := Option.map_eq_some_iff.mp second
  exact ⟨_, state, after, run_steps continued, ids, laterIds,
    ids_permanent (run_steps executed) (run_steps continued)⟩

end Coverpin.Server
