import Coverpin.Upload.UploadWriter

namespace Coverpin.Upload

open Coverpin.Data Coverpin.Database Coverpin.Validation Coverpin.Validation.Entities

/-! # What the first two passes do to `entities`

A record keeps its id and its name key; the rows of the upload decide the name
and the registration type under their keys, and the domestic entity of FQ rows.
-/

variable [Platform]

/-- The stored key of every entity is its normalized name. -/
def NamesNormalized (db : Database) : Prop :=
  ∀ record ∈ db.entities.records, record.entityNameKey = normalizeName record.entityName

theorem namesNormalized_initial : NamesNormalized Database.initial :=
  List.forall_mem_nil _

omit [Platform] in
theorem entityKeys_nodup (table : Table entitySchema) : (table.records.map EntityRecord.entityNameKey).Nodup := by
  refine List.pairwise_map.mpr ((table.unique.2 [.entityNameKey] (by simp [entitySchema])).imp ?_)
  intro record other apart same
  exact apart (by simp [agree, entitySchema, EntityRecord.read, same])

omit [Platform] in
theorem eq_of_entityKey {table : Table entitySchema} {record other : EntityRecord} (member : record ∈ table.records)
    (otherMember : other ∈ table.records) (same : record.entityNameKey = other.entityNameKey) : record = other :=
  List.inj_on_of_nodup_map (entityKeys_nodup table) member otherMember same

abbrev entityConflict : OnConflict EntityColumn :=
  repositoryUpsert entityObjectColumns [.entityNameKey]

theorem agree_entityObject {record : EntityRecord} {row : ParsedEntityRow} :
    agree entityConflict.target (entitySchema.read record) (assigned (entityObject row)) = true ↔
      record.entityNameKey = normalizeName row.entityName := by
  have value : assigned (entityObject row) .entityNameKey = some (.text (normalizeName row.entityName)) := rfl
  simp [agree, repositoryUpsert, entitySchema, EntityRecord.read, value]

structure WrittenBy (row : ParsedEntityRow) (record : EntityRecord) : Prop where
  entityName : record.entityName = row.entityName
  registrationType : SqlValue.registrationType? (.text row.registrationType) = some record.registrationType

theorem entity_inserted {row : ParsedEntityRow} {id : EntityId} {record : EntityRecord}
    (built : entitySchema.build id (assigned (entityObject row)) = .ok record) :
    record.id = id ∧ record.entityNameKey = normalizeName row.entityName ∧ record.domesticEntityId = none ∧
      WrittenBy row record := by
  obtain ⟨id, name, key, type, domestic⟩ := EntityRecord.build_ok built
  rw [required_ok] at name key type
  exact ⟨id, (Option.some.inj key).symm, (Except.ok.inj domestic).symm, (Option.some.inj name).symm, type⟩

theorem entity_updated {row : ParsedEntityRow} {record updated : EntityRecord}
    (built : entitySchema.build (entitySchema.id record)
      (overlay entityConflict.updates (assigned (entityObject row)) (entitySchema.read record)) = .ok updated) :
    updated.id = record.id ∧ updated.entityNameKey = record.entityNameKey ∧
      updated.domesticEntityId = record.domesticEntityId ∧ WrittenBy row updated := by
  obtain ⟨id, name, key, type, domestic⟩ := EntityRecord.build_ok built
  rw [required_ok] at name key type
  refine ⟨id, (Option.some.inj key).symm, ?_, (Option.some.inj name).symm, type⟩
  exact (Except.ok.inj ((optional_uuid record.domesticEntityId).symm.trans domestic)).symm

/-- Id, name key and domestic entity stay. -/
structure SameEntity (old new : EntityRecord) : Prop where
  id : new.id = old.id
  key : new.entityNameKey = old.entityNameKey
  domestic : new.domesticEntityId = old.domesticEntityId

/-- What the rows of an upload have made of the entities before it. -/
structure Registered (rows : List ParsedEntityRow) (before after : Table entitySchema) : Prop where
  kept : ∀ old ∈ before.records, ∃ new ∈ after.records, SameEntity old new
  origin : ∀ new ∈ after.records, (∃ old ∈ before.records, SameEntity old new) ∨
    (new.id ∉ before.ids ∧ new.domesticEntityId = none)
  written : ∀ new ∈ after.records,
    (∃ row ∈ rows, new.entityNameKey = normalizeName row.entityName ∧ WrittenBy row new) ∨
    new ∈ before.records ∧ ∀ row ∈ rows, normalizeName row.entityName ≠ new.entityNameKey
  present : ∀ row ∈ rows, ∃ new ∈ after.records, new.entityNameKey = normalizeName row.entityName

theorem Registered.namesNormalized {rows : List ParsedEntityRow} {before after : Database}
    (registered : Registered rows before.entities after.entities) (normalized : NamesNormalized before) :
    NamesNormalized after := by
  intro record member
  rcases registered.written record member with ⟨row, _, key, by_⟩ | ⟨old, _⟩
  · rw [key, by_.entityName]
  · exact normalized record old

theorem Registered.refl (table : Table entitySchema) : Registered [] table table where
  kept old member := ⟨old, member, rfl, rfl, rfl⟩
  origin new member := .inl ⟨new, member, rfl, rfl, rfl⟩
  written new member := .inr ⟨member, by simp⟩
  present := by simp

theorem Registered.trans {first second : List ParsedEntityRow} {before middle after : Table entitySchema}
    (left : Registered first before middle) (right : Registered second middle after) :
    Registered (first ++ second) before after where
  kept old member := by
    obtain ⟨between, inside, same⟩ := left.kept old member
    obtain ⟨new, final, again⟩ := right.kept between inside
    exact ⟨new, final, again.id.trans same.id, again.key.trans same.key, again.domestic.trans same.domestic⟩
  origin new member := by
    rcases right.origin new member with ⟨between, inside, same⟩ | ⟨fresh, none⟩
    · rcases left.origin between inside with ⟨old, earlier, again⟩ | ⟨fresh, none⟩
      · exact .inl ⟨old, earlier, same.id.trans again.id, same.key.trans again.key, same.domestic.trans again.domestic⟩
      · exact .inr ⟨same.id ▸ fresh, same.domestic.trans none⟩
    · refine .inr ⟨fun old => ?_, none⟩
      obtain ⟨record, inside, same⟩ := List.mem_map.mp old
      obtain ⟨between, later, again⟩ := left.kept record inside
      exact fresh (List.mem_map.mpr ⟨between, later, again.id.trans same⟩)
  written new member := by
    rcases right.written new member with ⟨row, inside, key, by_⟩ | ⟨between, others⟩
    · exact .inl ⟨row, List.mem_append_right _ inside, key, by_⟩
    · rcases left.written new between with ⟨row, inside, key, by_⟩ | ⟨old, earlier⟩
      · exact .inl ⟨row, List.mem_append_left _ inside, key, by_⟩
      · refine .inr ⟨old, fun row inside => ?_⟩
        exact (List.mem_append.mp inside).elim (earlier row) (others row)
  present row member := by
    rcases List.mem_append.mp member with inside | inside
    · obtain ⟨between, found, key⟩ := left.present row inside
      obtain ⟨new, final, same⟩ := right.kept between found
      exact ⟨new, final, same.key.trans key⟩
    · exact right.present row inside

theorem Registered.of_upserted {row : ParsedEntityRow} {before after : Table entitySchema}
    (written : Upserted Platform.newId entityConflict before (assigned (entityObject row)) after) :
    Registered [row] before after := by
  cases written with
  | updated record updated member agrees built records =>
      obtain ⟨id, key, domestic, by_⟩ := entity_updated built
      have rowKey := agree_entityObject.mp agrees
      have changed : ∀ old ∈ before.records, SameEntity old
          (if entitySchema.id old = entitySchema.id record then updated else old) := by
        intro old inside
        split
        · rename_i same
          rw [Table.eq_of_id inside member same]
          exact ⟨id, key, domestic⟩
        · exact ⟨rfl, rfl, rfl⟩
      constructor
      · intro old inside
        exact ⟨_, records ▸ List.mem_map_of_mem inside, changed old inside⟩
      · intro new inside
        rw [records] at inside
        obtain ⟨old, earlier, rfl⟩ := List.mem_map.mp inside
        exact .inl ⟨old, earlier, changed old earlier⟩
      · intro new inside
        rw [records] at inside
        obtain ⟨old, earlier, rfl⟩ := List.mem_map.mp inside
        split
        · exact .inl ⟨row, by simp, key.trans rowKey, by_⟩
        · rename_i different
          refine .inr ⟨earlier, fun other inside same => different ?_⟩
          rw [List.mem_singleton.mp inside, ← rowKey] at same
          rw [eq_of_entityKey member earlier same]
      · intro other inside
        rw [List.mem_singleton.mp inside, records]
        refine ⟨updated, List.mem_map.mpr ⟨record, member, if_pos rfl⟩, key.trans rowKey⟩
  | inserted record absent built records =>
      obtain ⟨id, key, domestic, by_⟩ := entity_inserted built
      constructor
      · intro old inside
        exact ⟨old, records ▸ List.mem_append_left _ inside, rfl, rfl, rfl⟩
      · intro new inside
        rw [records, List.mem_append, List.mem_singleton] at inside
        rcases inside with old | rfl
        · exact .inl ⟨new, old, rfl, rfl, rfl⟩
        · exact .inr ⟨by rw [id]; exact Platform.newId_fresh _, domestic⟩
      · intro new inside
        rw [records, List.mem_append, List.mem_singleton] at inside
        rcases inside with old | rfl
        · refine .inr ⟨old, fun other inside same => absent new old (agree_entityObject.mpr ?_)⟩
          rw [← same, List.mem_singleton.mp inside]
        · exact .inl ⟨row, by simp, key, by_⟩
      · intro other inside
        rw [List.mem_singleton.mp inside]
        exact ⟨record, by rw [records]; simp, key⟩

theorem Registered.of_upsertedAll {rows : List ParsedEntityRow} {before after : Table entitySchema}
    (written : UpsertedAll Platform.newId entityConflict before (rows.map fun row => assigned (entityObject row)) after) :
    Registered rows before after := by
  induction rows generalizing before with
  | nil => cases written; exact .refl _
  | cons row rows induction =>
      cases written with
      | cons first rest => exact (Registered.of_upserted first).trans (induction rest)

/-- The first pass upserts all rows in their order, however they are chunked. -/
theorem upsertEntityRows_upserted {chunkSize : Nat} {rows : List ParsedEntityRow} {before after : Database}
    (positive : 0 < chunkSize) (written : upsertEntityRows chunkSize rows before = .ok after) :
    UpsertedAll Platform.newId entityConflict before.entities (rows.map fun row => assigned (entityObject row))
      after.entities := by
  have statements := foldlM_upsert_ok Platform.newId entityConflict
    (fun db : Database => db.entities) (fun batch => batch.map fun row => assigned (entityObject row))
    (fun state batch next upserted => by
      have effect := (Database.upsertEntities_ok upserted).1
      rwa [List.map_map] at effect) written
  rwa [← List.map_flatMap, List.flatMap_id', chunk_flatten rows positive] at statements

theorem upsertEntityRows_ok {chunkSize : Nat} {rows : List ParsedEntityRow} {before after : Database}
    (positive : 0 < chunkSize) (written : upsertEntityRows chunkSize rows before = .ok after) :
    Registered rows before.entities after.entities ∧ after.ownershipEdges = before.ownershipEdges :=
  ⟨.of_upsertedAll (upsertEntityRows_upserted positive written), foldlM_preserves Database.ownershipEdges
    (fun _ _ _ upserted => (Database.upsertEntities_ok upserted).2) written⟩

omit [Platform] in
/-- What the second pass makes of a record: FQ rows decide their domestic entity. -/
def rewire (updates : List (String × Option EntityId)) (record : EntityRecord) : EntityRecord :=
  match updates.find? fun update => update.1 = record.entityNameKey with
  | none => record
  | some update => { record with domesticEntityId := update.2 }

omit [Platform] in
def domesticRow (update : String × Option EntityId) : List (Database.DomesticColumn × Option SqlValue) :=
  [Database.DomesticColumn.key, .domesticId].zip [some (.text update.1), update.2.map .uuid]

omit [Platform] in
theorem setDomestic_rows (updates : List (String × Option EntityId)) (record : EntityRecord) :
    Database.setDomestic (updates.map domesticRow) record = .ok (rewire updates record) := by
  have found : (updates.map domesticRow).find? (fun v => assigned v .key == some (.text record.entityNameKey)) =
      (updates.find? fun update => update.1 = record.entityNameKey).map domesticRow := by
    rw [List.find?_map]
    congr 2
    funext update
    have key : assigned (domesticRow update) .key = some (.text update.1) := rfl
    rw [Function.comp_apply, key, Bool.eq_iff_iff]
    simp
  rw [Database.setDomestic, found, rewire]
  cases updates.find? fun update => update.1 = record.entityNameKey with
  | none => rfl
  | some update =>
      have domestic : assigned (domesticRow update) .domesticId = update.2.map .uuid := rfl
      simp only [Option.map_some, domestic, optional_uuid]
      rfl

omit [Platform] in
theorem wireDomesticEntities_ok {updates : List (String × Option EntityId)} {before after : Database}
    (written : wireDomesticEntities updates before = .ok after) :
    after.entities.records = before.entities.records.map (rewire updates) ∧
    after.ownershipEdges = before.ownershipEdges := by
  unfold wireDomesticEntities at written
  split at written
  · rename_i empty
    cases written
    refine ⟨?_, rfl⟩
    rw [empty]
    exact (List.map_id' _).symm
  · obtain ⟨values, bound, written⟩ := bind_eq_ok.mp written
    obtain ⟨records, wired, written⟩ := bind_eq_ok.mp written
    obtain ⟨entities, checked, written⟩ := bind_eq_ok.mp written
    obtain ⟨rfl, edges, _⟩ := Database.withTables_ok written
    have rows := bindTuples_batch [Database.DomesticColumn.key, .domesticId] updates
      (fun update => [some (SqlValue.text update.1), update.2.map .uuid]) (fun _ => rfl)
    cases bound.symm.trans rows
    have each : Database.setDomestic (updates.map domesticRow) = fun record => pure (rewire updates record) :=
      funext (setDomestic_rows updates)
    change before.entities.records.mapM (Database.setDomestic (updates.map domesticRow)) = .ok records at wired
    rw [each, List.mapM_pure] at wired
    cases wired
    exact ⟨Table.check_ok checked, edges⟩

end Coverpin.Upload
