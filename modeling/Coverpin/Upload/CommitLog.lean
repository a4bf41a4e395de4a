import Coverpin.Upload.Overlay

namespace Coverpin.Upload

open Coverpin.Data Coverpin.Database Coverpin.Validation Coverpin.Validation.Entities Coverpin.Validation.Filings
  Coverpin.Validation.Ownership

/-! # The tables as the replay of the commits

Read by names, a commit sets one entry for each of its rows.  So the tables hold,
for every natural key, what the last commit with a row for it has written.
-/

variable [Platform]

/-- The key of the domestic entity of an FQ.  On an entity the column is not read. -/
def domesticName (db : Database) (record : EntityRecord) : Option String :=
  if record.registrationType = .fq then record.domesticEntityId.map fun id => normalizeName (nameOf db id) else none

def entitiesByName (db : Database) : InsertionMap String (EntityValues × Option String) :=
  .ofPairs (db.entities.records.map fun record =>
    (record.entityNameKey, storedEntityValues record, domesticName db record))

def edgeNames (db : Database) (ends : EntityId × EntityId) : String × String :=
  (normalizeName (nameOf db ends.1), normalizeName (nameOf db ends.2))

def edgesByName (db : Database) : InsertionMap (String × String) Nat :=
  (edgeMap db).rename (edgeNames db)

def filingNames (db : Database) (key : FilingKey) : String × String × String :=
  (normalizeName (nameOf db key.1), key.2)

def filingsByName (db : Database) : InsertionMap (String × String × String) FilingValues :=
  (filingMap db).rename (filingNames db)

def UploadEntityRow.entry (row : UploadEntityRow) : String × EntityValues × Option String :=
  (normalizeName row.entityName,
    { entityName := row.entityName
      registrationType := row.registrationType
      jurisdiction := row.jurisdiction
      entityType := row.entityType
      entityStatus := row.entityStatus
      statusDate := row.statusDate
      formationDate := row.formationDate
      businessId := row.businessId
      globalRegion := row.globalRegion },
    if row.registrationType = "FQ" then row.domesticEntity.map normalizeName else none)

def UploadOwnershipRow.entry (row : UploadOwnershipRow) : (String × String) × Nat :=
  ((normalizeName row.parentEntity, normalizeName row.childEntity), row.ownershipPct)

def UploadFilingRow.entry (row : UploadFilingRow) : (String × String × String) × FilingValues :=
  ((normalizeName row.entityName, row.filingType, row.dueDate),
    { jurisdiction := row.jurisdiction
      filingAuthority := row.filingAuthority
      filedDate := row.filedDate
      status := row.status })

def UploadBatchRows.entityEntries (rows : UploadBatchRows) : List (String × EntityValues × Option String) :=
  rows.entityRows.map UploadEntityRow.entry

def UploadBatchRows.edgeEntries (rows : UploadBatchRows) : List ((String × String) × Nat) :=
  rows.ownershipRows.map UploadOwnershipRow.entry

def UploadBatchRows.filingEntries (rows : UploadBatchRows) : List ((String × String × String) × FilingValues) :=
  rows.filingRows.map UploadFilingRow.entry

section Commit

variable {upload : ValidatedUpload} {before registered after db : Database}

theorem get?_entitiesByName {key : String} {view : EntityValues × Option String} :
    (entitiesByName db).get? key = some view ↔ ∃ record ∈ db.entities.records,
      record.entityNameKey = key ∧ (storedEntityValues record, domesticName db record) = view := by
  rw [entitiesByName, InsertionMap.get?_ofPairs]
  · simp only [List.mem_map, Prod.mk.injEq]
  · rw [List.map_map]
    exact entityKeys_nodup db.entities

/-- A record that the commit leaves alone has the same domestic entity under the
same name. -/
theorem Written.domesticName_kept (written : Written upload before registered after) (normalized : NamesNormalized before)
    {record : EntityRecord} (member : record ∈ before.entities.records) :
    domesticName after record = domesticName before record := by
  unfold domesticName
  split
  · refine Option.map_congr fun id linked => ?_
    exact written.nameOf_kept normalized (before.references.domestic record member id linked)
  · rfl

/-- The record of a row shows the domestic entity of the row. -/
theorem Committed.domesticName_row (committed : Committed upload before registered after)
    (normalized : NamesNormalized before)
    (consistent : ConsistentUpload upload) {row : ParsedEntityRow} (listed : row ∈ upload.entityRows)
    {record : EntityRecord} (key : record.entityNameKey = normalizeName row.entityName)
    (values : storedEntityValues record = entityRowValues row) :
    domesticName after (rewire (fqUpdates upload.entityRows (idByName registered upload)) record) =
      if row.registrationType = "FQ" then row.domesticEntity.map normalizeName else none := by
  have type : record.registrationType.text = row.registrationType := congrArg EntityValues.registrationType values
  rw [domesticName, rewire_registrationType]
  by_cases fq : row.registrationType = "FQ"
  · have isFq : record.registrationType = .fq := by
      rw [fq] at type
      cases stored : record.registrationType with
      | entity => rw [stored] at type; exact absurd type (by decide)
      | fq => rfl
    obtain ⟨name, named, domestic, member, domesticKey, link⟩ := committed.fqLink normalized consistent listed fq key
    rw [if_pos isFq, if_pos fq, link, named, Option.map_some, Option.map_some,
      normalizeName_nameOf (committed.namesNormalized normalized) member, domesticKey]
  · have notFq : record.registrationType ≠ .fq := by
      intro stored
      rw [stored] at type
      exact fq type.symm
    rw [if_neg notFq, if_neg fq]

theorem Committed.entitiesByName (committed : Committed upload before registered after) (normalized : NamesNormalized before)
    (consistent : ConsistentUpload upload) (accepted : AcceptedUpload upload) (key : String) :
    (entitiesByName after).get? key =
      ((entitiesByName before).setAll (toUploadBatchRows upload).entityEntries).get? key := by
  have keys : (toUploadBatchRows upload).entityEntries.map Prod.fst =
      upload.entityRows.map fun row => normalizeName row.entityName := by
    simp only [UploadBatchRows.entityEntries, toUploadBatchRows, List.map_map]
    rfl
  by_cases named : ∃ row ∈ upload.entityRows, normalizeName row.entityName = key
  · obtain ⟨row, listed, rfl⟩ := named
    have entry : (toUploadEntityRow row).entry ∈ (toUploadBatchRows upload).entityEntries :=
      List.mem_map_of_mem (List.mem_map_of_mem listed)
    obtain ⟨record, inside, recordKey, values⟩ := committed.rowValues accepted listed
    refine Eq.trans ?_ (InsertionMap.get?_setAll_of_mem (keys ▸ accepted.entityNames) entry).symm
    refine get?_entitiesByName.mpr
      ⟨rewire (fqUpdates upload.entityRows (idByName registered upload)) record, ?_, ?_, ?_⟩
    · rw [committed.entities]
      exact List.mem_map_of_mem inside
    · rw [rewire_entityNameKey, recordKey]
    · rw [storedEntityValues_rewire, committed.domesticName_row normalized consistent listed recordKey values, values]
      rfl
  · have absent : ∀ row ∈ upload.entityRows, normalizeName row.entityName ≠ key := by
      intro row listed same
      exact named ⟨row, listed, same⟩
    rw [InsertionMap.get?_setAll_of_absent (by simpa [keys] using absent)]
    apply Option.ext
    intro view
    rw [get?_entitiesByName, get?_entitiesByName]
    constructor
    · intro stored
      obtain ⟨record, member, rfl, rfl⟩ := stored
      have old := (committed.others absent).mp member
      exact ⟨record, old, rfl, by rw [committed.domesticName_kept normalized old]⟩
    · intro stored
      obtain ⟨record, member, rfl, rfl⟩ := stored
      exact ⟨record, (committed.others absent).mpr member, rfl, by rw [committed.domesticName_kept normalized member]⟩

theorem edgeNames_injective (normalized : NamesNormalized db) :
    Set.InjOn (edgeNames db) {ends | ends.1 ∈ db.entities.ids ∧ ends.2 ∈ db.entities.ids} := by
  intro ends known other otherKnown same
  obtain ⟨parent, child⟩ := Prod.mk.inj same
  exact Prod.ext (id_of_name normalized known.1 otherKnown.1 parent) (id_of_name normalized known.2 otherKnown.2 child)

theorem Written.edgesByName (written : Written upload before registered after) (normalized : NamesNormalized before)
    (consistent : ConsistentUpload upload) :
    Upload.edgesByName after = (Upload.edgesByName before).setAll (toUploadBatchRows upload).edgeEntries := by
  have names := written.namesNormalized normalized
  have kept : (edgeMap before).rename (edgeNames after) = Upload.edgesByName before := by
    refine InsertionMap.rename_congr fun ends member => ?_
    obtain ⟨_, _, _, parent, child⟩ := edgeMap_known member
    exact Prod.ext (written.nameOf_kept normalized parent) (written.nameOf_kept normalized child)
  have entries := written.edgeRecords_entries normalized consistent (edgeNames after)
    (fun row => (normalizeName row.parentEntity, normalizeName row.childEntity)) fun row record resolves =>
      Prod.ext (resolves.parent.nameOf names).2 (resolves.child.nameOf names).2
  rw [Upload.edgesByName, written.edges, InsertionMap.rename_setAll (edgeNames_injective names), kept, entries]
  · rw [UploadBatchRows.edgeEntries, toUploadBatchRows, List.map_map]
    rfl
  · intro ends member
    obtain ⟨_, _, _, parent, child⟩ := edgeMap_known member
    exact ⟨written.ids_kept parent, written.ids_kept child⟩
  · intro pair member
    obtain ⟨record, inside, rfl⟩ := List.mem_map.mp member
    obtain ⟨row, _, resolves⟩ := resolves_of_mem (written.edgeRecords_resolve normalized consistent) inside
    rw [resolves.entry]
    exact ⟨(resolves.parent.nameOf names).1, (resolves.child.nameOf names).1⟩

theorem filingNames_injective (normalized : NamesNormalized db) :
    Set.InjOn (filingNames db) {key | key.1 ∈ db.entities.ids} := by
  intro key known other otherKnown same
  obtain ⟨entity, rest⟩ := Prod.mk.inj same
  exact Prod.ext (id_of_name normalized known otherKnown entity) rest

omit [Platform] in
theorem filingMap_known {key : FilingKey} (member : key ∈ (filingMap db).keys) : key.1 ∈ db.entities.ids := by
  obtain ⟨entry, inside, rfl⟩ := List.mem_map.mp member
  obtain ⟨filing, stored, rfl⟩ := List.mem_map.mp inside
  have view : filingKeyed.view filing = (storedFilingKey filing, storedFilingValues filing) := filingEntry_read filing
  rw [view]
  exact db.references.filings filing stored

/-- Every filing row of an accepted upload becomes a record of the entity that it names. -/
theorem Committed.filing_named (committed : Committed upload before registered after) (normalized : NamesNormalized before)
    (accepted : AcceptedUpload upload) {row : ParsedFilingRow} (listed : row ∈ upload.filingRows) :
    ∃ id ∈ after.entities.ids, (idByName registered upload).get? (normalizeName row.entityName) = some id ∧
      normalizeName (nameOf after id) = normalizeName row.entityName := by
  obtain ⟨record, inside, key, found⟩ :=
    committed.rows.resolve normalized (referencedNames_filings listed) (accepted.registered row listed)
  obtain ⟨new, member, id, _, newKey, _⟩ := committed.committed inside
  refine ⟨record.id, List.mem_map.mpr ⟨new, member, id⟩, found, ?_⟩
  rw [← id, normalizeName_nameOf (committed.namesNormalized normalized) member, newKey, key]

theorem Committed.filingsByName (committed : Committed upload before registered after) (normalized : NamesNormalized before)
    (accepted : AcceptedUpload upload) :
    Upload.filingsByName after = (Upload.filingsByName before).setAll (toUploadBatchRows upload).filingEntries := by
  have kept : (filingMap before).rename (filingNames after) = Upload.filingsByName before :=
    InsertionMap.rename_congr fun key member =>
      Prod.ext (committed.nameOf_kept normalized (filingMap_known member)) rfl
  have entries : ((filingRecords upload.filingRows (idByName registered upload)).map FilingRow.entry).map
      (fun entry => (filingNames after entry.1, entry.2)) = (toUploadBatchRows upload).filingEntries := by
    rw [UploadBatchRows.filingEntries, toUploadBatchRows, List.map_map, List.map_map, filingRecords, List.map_filterMap,
      ← List.filterMap_eq_map]
    refine List.filterMap_congr fun row listed => ?_
    obtain ⟨id, _, found, name⟩ := committed.filing_named normalized accepted listed
    rw [found]
    simp only [bind, Option.bind_some, pure, Option.map_some, Function.comp_apply, FilingRow.entry, filingNames,
      FilingRow.key, FilingRow.values, name]
    rfl
  rw [Upload.filingsByName, committed.filingValues,
    InsertionMap.rename_setAll (filingNames_injective (committed.namesNormalized normalized)), kept, entries]
  · exact fun key member => committed.ids_kept (filingMap_known member)
  · intro pair member
    obtain ⟨record, inside, rfl⟩ := List.mem_map.mp member
    obtain ⟨row, listed, built⟩ := List.mem_filterMap.mp inside
    obtain ⟨id, known, found, _⟩ := committed.filing_named normalized accepted listed
    rw [found] at built
    cases built
    exact known

end Commit

/-- Each table holds for every natural key the last value that the log has for it. -/
structure Replays (log : List UploadBatchRows) (db : Database) : Prop where
  entities : ∀ key, (entitiesByName db).get? key =
    (InsertionMap.ofPairs (log.flatMap UploadBatchRows.entityEntries)).get? key
  edges : edgesByName db = .ofPairs (log.flatMap UploadBatchRows.edgeEntries)
  filings : filingsByName db = .ofPairs (log.flatMap UploadBatchRows.filingEntries)

theorem Replays.initial : Replays [] Database.initial :=
  ⟨fun _ => rfl, rfl, rfl⟩

theorem Replays.commit {log : List UploadBatchRows} {upload : ValidatedUpload} {before registered after : Database}
    (replays : Replays log before) (committed : Committed upload before registered after)
    (normalized : NamesNormalized before) (consistent : ConsistentUpload upload) (accepted : AcceptedUpload upload) :
    Replays (log ++ [toUploadBatchRows upload]) after where
  entities key := by
    rw [List.flatMap_append, List.flatMap_singleton, InsertionMap.ofPairs_append,
      committed.entitiesByName normalized consistent accepted, InsertionMap.get?_setAll, InsertionMap.get?_setAll,
      replays.entities]
  edges := by
    rw [List.flatMap_append, List.flatMap_singleton, InsertionMap.ofPairs_append,
      committed.edgesByName normalized consistent, replays.edges]
  filings := by
    rw [List.flatMap_append, List.flatMap_singleton, InsertionMap.ofPairs_append,
      committed.filingsByName normalized accepted, replays.filings]

end Coverpin.Upload
