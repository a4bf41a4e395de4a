import Coverpin.Data.TableWrites
import Coverpin.Upload.WriteEffect

namespace Coverpin

open Coverpin.Data Coverpin.Database Coverpin.Validation Coverpin.Validation.Entities Coverpin.Validation.Filings

/-! # The values that the rows of an upload write

A record reads back the column values it was built from.  So each table is a map
from its conflict key to the values that an upload gives for that key.
-/

namespace Database

variable {value : Option SqlValue} {allowed : List String}

theorem required_text {text : String} (decoded : required value SqlValue.text? = .ok text) : value = some (.text text) := by
  rw [required_ok] at decoded
  cases value with
  | none => cases decoded
  | some value => cases value <;> cases decoded; rfl

theorem required_oneOf {text : OneOf allowed} (decoded : required value (SqlValue.oneOf? allowed) = .ok text) :
    value = some (.text text) := by
  rw [required_ok] at decoded
  cases value with
  | none => cases decoded
  | some value =>
      cases value with
      | uuid id => cases decoded
      | text value =>
          simp only [Option.bind_some, SqlValue.oneOf?, Option.dite_none_right_eq_some] at decoded
          obtain ⟨_, same⟩ := decoded
          cases same
          rfl

theorem required_date {date : DateText} (decoded : required value SqlValue.date? = .ok date) :
    value = some (.text date) := by
  rw [required_ok] at decoded
  cases value with
  | none => cases decoded
  | some value =>
      cases value with
      | uuid id => cases decoded
      | text value =>
          simp only [Option.bind_some, SqlValue.date?, Option.dite_none_right_eq_some] at decoded
          obtain ⟨_, same⟩ := decoded
          cases same
          rfl

theorem required_uuid {id : EntityId} (decoded : required value SqlValue.uuid? = .ok id) : value = some (.uuid id) := by
  rw [required_ok] at decoded
  cases value with
  | none => cases decoded
  | some value => cases value <;> cases decoded; rfl

theorem required_registrationType {type : RegistrationType}
    (decoded : required value SqlValue.registrationType? = .ok type) : value = some (.text type.text) := by
  rw [required_ok] at decoded
  cases value with
  | none => cases decoded
  | some value =>
      simp only [Option.bind_some, SqlValue.registrationType?] at decoded
      split at decoded <;> cases decoded <;> rfl

/-- A nullable column is read like a required one when it is not NULL. -/
theorem optional_inverse {α : Type} {decode : SqlValue → Option α} {encode : α → SqlValue}
    (inverse : ∀ {value : Option SqlValue} {a : α}, required value decode = .ok a → value = some (encode a))
    {decoded : Option α} (same : optional value decode = .ok decoded) : value = decoded.map encode := by
  unfold optional at same
  split at same
  · cases same
    rfl
  · rename_i value
    cases read : required (some value) decode with
    | error reason => rw [read] at same; cases same
    | ok a =>
        rw [read] at same
        cases same
        exact inverse read

end Database

theorem Database.EntityRecord.read_of_build {id : EntityId} {values : EntityColumn → Option SqlValue}
    {record : EntityRecord} (built : EntityRecord.build id values = .ok record) : record.read = values := by
  obtain ⟨entityName, name, built⟩ := bind_eq_ok.mp built
  obtain ⟨entityNameKey, key, built⟩ := bind_eq_ok.mp built
  obtain ⟨registrationType, type, built⟩ := bind_eq_ok.mp built
  obtain ⟨jurisdiction, inJurisdiction, built⟩ := bind_eq_ok.mp built
  obtain ⟨entityType, kind, built⟩ := bind_eq_ok.mp built
  obtain ⟨entityStatus, status, built⟩ := bind_eq_ok.mp built
  obtain ⟨statusDate, since, built⟩ := bind_eq_ok.mp built
  obtain ⟨domesticEntityId, domestic, built⟩ := bind_eq_ok.mp built
  obtain ⟨formationDate, formed, built⟩ := bind_eq_ok.mp built
  obtain ⟨businessId, business, built⟩ := bind_eq_ok.mp built
  obtain ⟨globalRegion, region, built⟩ := bind_eq_ok.mp built
  cases built
  funext column
  cases column with
  | entityName => exact (required_text name).symm
  | entityNameKey => exact (required_text key).symm
  | registrationType => exact (required_registrationType type).symm
  | jurisdiction => exact (required_text inJurisdiction).symm
  | entityType => exact (required_oneOf kind).symm
  | entityStatus => exact (required_oneOf status).symm
  | statusDate => cases statusDate <;> exact (optional_inverse required_date since).symm
  | domesticEntityId => exact (optional_inverse required_uuid domestic).symm
  | formationDate => cases formationDate <;> exact (optional_inverse required_date formed).symm
  | businessId => exact (optional_inverse required_text business).symm
  | globalRegion => cases globalRegion <;> exact (optional_inverse required_oneOf region).symm

theorem Database.Filing.read_of_build {id : EntityId} {values : FilingColumn → Option SqlValue} {filing : Filing}
    (built : Filing.build id values = .ok filing) : filing.read = values := by
  obtain ⟨entityId, entity, built⟩ := bind_eq_ok.mp built
  obtain ⟨filingType, type, built⟩ := bind_eq_ok.mp built
  obtain ⟨jurisdiction, inJurisdiction, built⟩ := bind_eq_ok.mp built
  obtain ⟨filingAuthority, authority, built⟩ := bind_eq_ok.mp built
  obtain ⟨dueDate, due, built⟩ := bind_eq_ok.mp built
  obtain ⟨filedDate, filed, built⟩ := bind_eq_ok.mp built
  obtain ⟨status, current, built⟩ := bind_eq_ok.mp built
  cases built
  funext column
  cases column with
  | entityId => exact (required_uuid entity).symm
  | filingType => exact (required_oneOf type).symm
  | jurisdiction => exact (required_text inJurisdiction).symm
  | filingAuthority => exact (optional_inverse required_text authority).symm
  | dueDate => exact (required_date due).symm
  | filedDate => cases filedDate <;> exact (optional_inverse required_date filed).symm
  | status => exact (required_oneOf current).symm

namespace Upload

/-- The columns that a row of entities.csv writes besides its key, with dates and
enumerations as texts. -/
structure EntityValues where
  entityName : String
  registrationType : String
  jurisdiction : String
  entityType : String
  entityStatus : String
  statusDate : Option String
  formationDate : Option String
  businessId : Option String
  globalRegion : Option String
deriving DecidableEq, Repr

def storedEntityValues (record : EntityRecord) : EntityValues where
  entityName := record.entityName
  registrationType := record.registrationType.text
  jurisdiction := record.jurisdiction
  entityType := record.entityType.val
  entityStatus := record.entityStatus.val
  statusDate := record.statusDate.map Subtype.val
  formationDate := record.formationDate.map Subtype.val
  businessId := record.businessId
  globalRegion := record.globalRegion.map Subtype.val

def entityRowValues (row : ParsedEntityRow) : EntityValues where
  entityName := row.entityName
  registrationType := row.registrationType
  jurisdiction := row.jurisdiction
  entityType := row.entityType
  entityStatus := row.entityStatus
  statusDate := row.statusDate.map toDateOnlyString
  formationDate := row.formationDate.map toDateOnlyString
  businessId := row.businessId
  globalRegion := row.globalRegion

/-- The columns of a filing outside of its key. -/
structure FilingValues where
  jurisdiction : String
  filingAuthority : Option String
  filedDate : Option String
  status : String
deriving DecidableEq, Repr

abbrev FilingKey : Type := EntityId × String × String

def storedFilingKey (filing : Filing) : FilingKey :=
  (filing.entityId, filing.filingType.val, filing.dueDate.val)

def storedFilingValues (filing : Filing) : FilingValues where
  jurisdiction := filing.jurisdiction
  filingAuthority := filing.filingAuthority
  filedDate := filing.filedDate.map Subtype.val
  status := filing.status.val

def FilingRow.key (row : FilingRow) : FilingKey :=
  (row.entityId, row.filingType, row.dueDate)

def FilingRow.values (row : FilingRow) : FilingValues where
  jurisdiction := row.jurisdiction
  filingAuthority := row.filingAuthority
  filedDate := row.filedDate
  status := row.status

def textOf? (value : Option SqlValue) : Option String :=
  value.bind SqlValue.text?

def textOf (value : Option SqlValue) : String :=
  (textOf? value).getD ""

def entityEntry (values : EntityColumn → Option SqlValue) : String × EntityValues :=
  (textOf (values .entityNameKey), {
    entityName := textOf (values .entityName)
    registrationType := textOf (values .registrationType)
    jurisdiction := textOf (values .jurisdiction)
    entityType := textOf (values .entityType)
    entityStatus := textOf (values .entityStatus)
    statusDate := textOf? (values .statusDate)
    formationDate := textOf? (values .formationDate)
    businessId := textOf? (values .businessId)
    globalRegion := textOf? (values .globalRegion) })

theorem entityEntry_read (record : EntityRecord) :
    entityEntry record.read = (record.entityNameKey, storedEntityValues record) := by
  cases record with
  | mk id name key type jurisdiction kind status since domestic formed business region =>
      cases since <;> cases formed <;> cases business <;> cases region <;> rfl

abbrev filingConflict : OnConflict FilingColumn :=
  repositoryUpsert [.entityId, .filingType, .jurisdiction, .filingAuthority, .dueDate, .filedDate, .status]
    [.entityId, .filingType, .dueDate]

def filingEntry (values : FilingColumn → Option SqlValue) : FilingKey × FilingValues :=
  ((idValue (values .entityId), textOf (values .filingType), textOf (values .dueDate)), {
    jurisdiction := textOf (values .jurisdiction)
    filingAuthority := textOf? (values .filingAuthority)
    filedDate := textOf? (values .filedDate)
    status := textOf (values .status) })

theorem filingEntry_read (filing : Filing) : filingEntry filing.read =
    (storedFilingKey filing, storedFilingValues filing) := by
  cases filing with
  | mk id entityId type jurisdiction authority due filed status =>
      cases authority <;> cases filed <;> rfl

theorem filingEntry_row (row : FilingRow) : filingEntry (assigned (filingObject row)) = (row.key, row.values) := by
  cases row with
  | mk entityId type jurisdiction authority due filed status =>
      cases authority <;> cases filed <;> rfl

theorem agree_filingObject {filing : Filing} {row : FilingRow} :
    agree filingConflict.target (filingSchema.read filing) (assigned (filingObject row)) = true ↔
      storedFilingKey filing = row.key := by
  have entity : assigned (filingObject row) .entityId = some (.uuid row.entityId) := rfl
  have type : assigned (filingObject row) .filingType = some (.text row.filingType) := rfl
  have due : assigned (filingObject row) .dueDate = some (.text row.dueDate) := rfl
  simp [agree, repositoryUpsert, filingSchema, Filing.read, storedFilingKey, FilingRow.key, entity, type, due]

/-- The filings of a table by entity, filing type and due date. -/
def filingKeyed : KeyedView filingSchema filingConflict FilingKey FilingValues where
  view filing := filingEntry filing.read
  entryOf := filingEntry
  proper values := ∃ row, values = assigned (filingObject row)
  unique := by simp [filingSchema, repositoryUpsert]
  agree_of_key filing other same := by
    simp only [filingEntry_read, storedFilingKey, Prod.mk.injEq] at same
    simp [agree, repositoryUpsert, filingSchema, Filing.read, same]
  agree_iff filing values proper := by
    obtain ⟨row, rfl⟩ := proper
    rw [agree_filingObject, filingEntry_read, filingEntry_row]
  view_updated filing values updated proper key built := by
    obtain ⟨row, rfl⟩ := proper
    rw [filingEntry_read, filingEntry_row] at key
    rw [Filing.read_of_build built]
    exact Prod.ext key rfl
  view_inserted newId values inserted proper built := by
    rw [Filing.read_of_build built]

def filingMap (db : Database) : InsertionMap FilingKey FilingValues :=
  filingKeyed.toMap db.filings

variable [Platform]

theorem entityEntry_row (row : ParsedEntityRow) :
    entityEntry (assigned (entityObject row)) = (normalizeName row.entityName, entityRowValues row) := by
  cases row with
  | mk line name type jurisdiction kind status since domestic formed business region =>
      cases since <;> cases formed <;> cases business <;> cases region <;> rfl

/-- The entities of a table by their name keys. -/
def entityKeyed : KeyedView entitySchema entityConflict String EntityValues where
  view record := entityEntry record.read
  entryOf := entityEntry
  proper values := ∃ row, values = assigned (entityObject row)
  unique := by simp [entitySchema, repositoryUpsert]
  agree_of_key record other same := by
    simp only [entityEntry_read] at same
    simp [agree, repositoryUpsert, entitySchema, EntityRecord.read, same]
  agree_iff record values proper := by
    obtain ⟨row, rfl⟩ := proper
    rw [agree_entityObject, entityEntry_read, entityEntry_row]
  view_updated record values updated proper key built := by
    obtain ⟨row, rfl⟩ := proper
    rw [entityEntry_read, entityEntry_row] at key
    rw [EntityRecord.read_of_build built]
    exact Prod.ext key rfl
  view_inserted newId values inserted proper built := by
    rw [EntityRecord.read_of_build built]

def entityMap (db : Database) : InsertionMap String EntityValues :=
  entityKeyed.toMap db.entities

def ParsedEntityRow.entry (row : ParsedEntityRow) : String × EntityValues :=
  (normalizeName row.entityName, entityRowValues row)

omit [Platform] in
def FilingRow.entry (row : FilingRow) : FilingKey × FilingValues :=
  (row.key, row.values)

theorem entityRows_proper {rows : List ParsedEntityRow} :
    ∀ values ∈ rows.map (fun row => assigned (entityObject row)), entityKeyed.proper values := by
  intro values member
  obtain ⟨row, _, rfl⟩ := List.mem_map.mp member
  exact ⟨row, rfl⟩

theorem entityRows_entries (rows : List ParsedEntityRow) :
    (rows.map fun row => assigned (entityObject row)).map entityKeyed.entryOf = rows.map ParsedEntityRow.entry := by
  rw [List.map_map]
  exact List.map_congr_left fun row _ => entityEntry_row row

theorem upsertEntityRows_values {chunkSize : Nat} {rows : List ParsedEntityRow} {before after : Database}
    (positive : 0 < chunkSize) (written : upsertEntityRows chunkSize rows before = .ok after) :
    entityMap after = (entityMap before).setAll (rows.map ParsedEntityRow.entry) := by
  rw [← entityRows_entries]
  exact InsertionMap.ext (entityKeyed.toMap_upsertedAll entityRows_proper (upsertEntityRows_upserted positive written))

theorem upsertEntityRows_filings {chunkSize : Nat} {rows : List ParsedEntityRow} {before after : Database}
    (written : upsertEntityRows chunkSize rows before = .ok after) : after.filings = before.filings := by
  refine foldlM_preserves Database.filings (fun db batch next upserted => ?_) written
  obtain ⟨entities, _, built⟩ := bind_eq_ok.mp upserted
  exact (Database.withTables_ok built).2.2

theorem upsertFilings_written {before after : Database} {conflict : OnConflict FilingColumn}
    {rows : List (List (FilingColumn × Option SqlValue))} (written : before.upsertFilings conflict rows = .ok after) :
    UpsertedAll Platform.newId conflict before.filings (rows.map assigned) after.filings := by
  obtain ⟨filings, upserted, built⟩ := bind_eq_ok.mp written
  obtain ⟨_, _, rfl⟩ := Database.withTables_ok built
  exact Table.upsert_ok upserted

theorem upsertFilingRecords_upserted {chunkSize : Nat} {records : List FilingRow} {before after : Database}
    (positive : 0 < chunkSize) (written : upsertFilingRecords chunkSize records before = .ok after) :
    UpsertedAll Platform.newId filingConflict before.filings (records.map fun row => assigned (filingObject row))
      after.filings := by
  have statements := foldlM_upsert_ok Platform.newId filingConflict
    (fun db : Database => db.filings) (fun batch => batch.map fun row => assigned (filingObject row))
    (fun state batch next upserted => by
      have effect := upsertFilings_written upserted
      rwa [List.map_map] at effect) written
  rwa [← List.map_flatMap, List.flatMap_id', chunk_flatten records positive] at statements

omit [Platform] in
theorem filingRows_proper {records : List FilingRow} :
    ∀ values ∈ records.map (fun row => assigned (filingObject row)), filingKeyed.proper values := by
  intro values member
  obtain ⟨row, _, rfl⟩ := List.mem_map.mp member
  exact ⟨row, rfl⟩

omit [Platform] in
theorem filingRows_entries (records : List FilingRow) :
    (records.map fun row => assigned (filingObject row)).map filingKeyed.entryOf = records.map FilingRow.entry := by
  rw [List.map_map]
  exact List.map_congr_left fun row _ => filingEntry_row row

theorem upsertFilingRecords_values {chunkSize : Nat} {records : List FilingRow} {before after : Database}
    (positive : 0 < chunkSize) (written : upsertFilingRecords chunkSize records before = .ok after) :
    filingMap after = (filingMap before).setAll (records.map FilingRow.entry) := by
  rw [← filingRows_entries]
  exact InsertionMap.ext (filingKeyed.toMap_upsertedAll filingRows_proper (upsertFilingRecords_upserted positive written))

omit [Platform] in
theorem wireDomesticEntities_filings {updates : List (String × Option EntityId)} {before after : Database}
    (written : wireDomesticEntities updates before = .ok after) : after.filings = before.filings := by
  unfold wireDomesticEntities at written
  split at written
  · cases written
    rfl
  · obtain ⟨values, _, written⟩ := bind_eq_ok.mp written
    obtain ⟨records, _, written⟩ := bind_eq_ok.mp written
    obtain ⟨entities, _, written⟩ := bind_eq_ok.mp written
    exact (Database.withTables_ok written).2.2

theorem upsertEdgeRecords_filings {chunkSize : Nat} {records : List EdgeRow} {before after : Database}
    (written : upsertEdgeRecords chunkSize records before = .ok after) : after.filings = before.filings := by
  refine foldlM_preserves Database.filings (fun db batch next upserted => ?_) written
  obtain ⟨edges, _, built⟩ := bind_eq_ok.mp upserted
  exact (Database.withTables_ok built).2.2

/-- What a committed upload has done to all three tables. -/
structure Committed (upload : ValidatedUpload) (before registered after : Database) : Prop extends
    Written upload before registered after where
  entityValues : entityMap registered = (entityMap before).setAll (upload.entityRows.map ParsedEntityRow.entry)
  filingValues : filingMap after = (filingMap before).setAll
    ((filingRecords upload.filingRows (idByName registered upload)).map FilingRow.entry)

section Transaction

variable {chunkSize : Nat} {upload : ValidatedUpload} {before registered wired owned after : Database}
  {result : UploadBatchResult}

theorem Committed.of_passes (positive : 0 < chunkSize)
    (first : upsertEntityRows chunkSize upload.entityRows before = .ok registered)
    (second : wireDomesticEntities (fqUpdates upload.entityRows (idByName registered upload)) registered = .ok wired)
    (third : upsertEdgeRecords chunkSize (edgeRecords upload.ownershipRows (idByName registered upload)) wired = .ok owned)
    (fourth : upsertFilingRecords chunkSize (filingRecords upload.filingRows (idByName registered upload)) owned =
      .ok after) : Committed upload before registered after := by
  have sameFilings : filingMap owned = filingMap before := by
    rw [filingMap, upsertEdgeRecords_filings third, wireDomesticEntities_filings second,
      upsertEntityRows_filings first, filingMap]
  refine ⟨.of_passes positive first second third fourth, upsertEntityRows_values positive first, ?_⟩
  rw [upsertFilingRecords_values positive fourth, sameFilings]

theorem processUploadTransaction_committed (positive : 0 < chunkSize)
    (committed : processUploadTransaction chunkSize upload before = .ok (after, result)) :
    ∃ registered, Committed upload before registered after := by
  obtain ⟨registered, _, _, first, second, third, fourth⟩ := processUploadTransaction_passes committed
  exact ⟨registered, .of_passes positive first second third fourth⟩

end Transaction

end Upload

end Coverpin
