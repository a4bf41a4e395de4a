import Coverpin.Util
import Coverpin.Validation.ValidationService

namespace Coverpin.Upload

open Coverpin.Data Coverpin.Database Coverpin.Validation Coverpin.Validation.Entities
  Coverpin.Validation.Filings Coverpin.Validation.Ownership

/-! # `RegistryService.processUpload`

The validated rows are written in four passes in one transaction, through
TypeORM repositories.
-/

structure UploadBatchResult where
  entities : Nat
  ownershipEdges : Nat
  filings : Nat
deriving DecidableEq, Repr

/-- `repository.upsert`: on a conflict every given column outside the conflict
paths is overwritten. -/
def repositoryUpsert [DecidableEq γ] (given conflictPaths : List γ) : OnConflict γ where
  target := conflictPaths
  updates := given.filter fun column => !conflictPaths.contains column

/-- A JavaScript text is truthy when it is there and not empty. -/
def truthy (text : Option String) : Option String :=
  text.filter (· ≠ "")

variable [Platform]

def entityObject (row : ParsedEntityRow) : List (EntityColumn × Option SqlValue) := [
  (.entityName, some (.text row.entityName)),
  (.entityNameKey, some (.text (normalizeName row.entityName))),
  (.registrationType, some (.text row.registrationType)),
  (.jurisdiction, some (.text row.jurisdiction)),
  (.entityType, some (.text row.entityType)),
  (.entityStatus, some (.text row.entityStatus)),
  (.statusDate, row.statusDate.map fun date => .text (toDateOnlyString date)),
  (.formationDate, row.formationDate.map fun date => .text (toDateOnlyString date)),
  (.businessId, row.businessId.map .text),
  (.globalRegion, row.globalRegion.map .text)]

omit [Platform] in
def entityObjectColumns : List EntityColumn :=
  [.entityName, .entityNameKey, .registrationType, .jurisdiction, .entityType, .entityStatus, .statusDate,
    .formationDate, .businessId, .globalRegion]

/-- Pass 1: every row of entities.csv, by its name key and without the domestic
entity, which might not have an id yet. -/
def upsertEntityRows (chunkSize : Nat) (rows : List ParsedEntityRow) (db : Database) : Except DbError Database :=
  (chunk rows chunkSize).foldlM (fun db batch =>
    db.upsertEntities (repositoryUpsert entityObjectColumns [.entityNameKey]) (batch.map entityObject)) db

/-- Every name a row of the batch could resolve to. -/
def referencedNames (upload : ValidatedUpload) : List String :=
  (upload.entityRows.flatMap fun row =>
    normalizeName row.entityName :: ((truthy row.domesticEntity).map normalizeName).toList) ++
  (upload.ownershipRows.flatMap fun row => [normalizeName row.parentEntity, normalizeName row.childEntity]) ++
  upload.filingRows.map fun row => normalizeName row.entityName

/-- Ids by the normalized stored name of the entities that are referenced. -/
def idByName (db : Database) (upload : ValidatedUpload) : InsertionMap String EntityId :=
  let names := referencedNames upload
  let relevantEntities := if names = [] then [] else db.entitiesByKey names
  .ofPairs (relevantEntities.map fun record => (normalizeName record.entityName, record.id))

/-- The name key of an FQ and the id of its domestic entity. -/
def fqUpdates (rows : List ParsedEntityRow) (ids : InsertionMap String EntityId) : List (String × Option EntityId) :=
  (rows.filter fun row => row.registrationType = "FQ").map fun row =>
    (normalizeName row.entityName, (truthy row.domesticEntity).bind fun name => ids.get? (normalizeName name))

omit [Platform] in
/-- Pass 2: the domestic entities of all FQ rows, in one statement. -/
def wireDomesticEntities (updates : List (String × Option EntityId)) (db : Database) : Except DbError Database :=
  if updates = [] then .ok db
  else db.updateDomesticEntities (updates.mapIdx fun i _ => [i * 2 + 1, i * 2 + 2])
    (updates.flatMap fun update => [some (.text update.1), update.2.map .uuid])

structure EdgeRow where
  parentEntityId : EntityId
  childEntityId : EntityId
  ownershipPct : String
deriving DecidableEq, Repr

/-- Rows whose ends do not both have an id are dropped. -/
def edgeRecords (rows : List ParsedOwnershipRow) (ids : InsertionMap String EntityId) : List EdgeRow :=
  rows.filterMap fun row => do
    let parentEntityId ← ids.get? (normalizeName row.parentEntity)
    let childEntityId ← ids.get? (normalizeName row.childEntity)
    return { parentEntityId, childEntityId, ownershipPct := toFixed2 row.ownershipPct }

omit [Platform] in
def edgeObject (row : EdgeRow) : List (EdgeColumn × Option SqlValue) := [
  (.parentEntityId, some (.uuid row.parentEntityId)),
  (.childEntityId, some (.uuid row.childEntityId)),
  (.ownershipPct, some (.text row.ownershipPct))]

/-- Pass 3: ownership edges, by parent and child. -/
def upsertEdgeRecords (chunkSize : Nat) (records : List EdgeRow) (db : Database) : Except DbError Database :=
  (chunk records chunkSize).foldlM (fun db batch =>
    db.upsertOwnershipEdges (repositoryUpsert [.parentEntityId, .childEntityId, .ownershipPct]
      [.parentEntityId, .childEntityId]) (batch.map edgeObject)) db

structure FilingRow where
  entityId : EntityId
  filingType : String
  jurisdiction : String
  filingAuthority : Option String
  dueDate : String
  filedDate : Option String
  status : String
deriving DecidableEq, Repr

def filingRecords (rows : List ParsedFilingRow) (ids : InsertionMap String EntityId) : List FilingRow :=
  rows.filterMap fun row => do
    let entityId ← ids.get? (normalizeName row.entityName)
    return {
      entityId
      filingType := row.filingType
      jurisdiction := row.jurisdiction
      filingAuthority := row.filingAuthority
      dueDate := toDateOnlyString row.dueDate
      filedDate := row.filedDate.map toDateOnlyString
      status := row.status }

omit [Platform] in
def filingObject (row : FilingRow) : List (FilingColumn × Option SqlValue) := [
  (.entityId, some (.uuid row.entityId)),
  (.filingType, some (.text row.filingType)),
  (.jurisdiction, some (.text row.jurisdiction)),
  (.filingAuthority, row.filingAuthority.map .text),
  (.dueDate, some (.text row.dueDate)),
  (.filedDate, row.filedDate.map .text),
  (.status, some (.text row.status))]

/-- Pass 4: filings, by entity, filing type and due date. -/
def upsertFilingRecords (chunkSize : Nat) (records : List FilingRow) (db : Database) : Except DbError Database :=
  (chunk records chunkSize).foldlM (fun db batch =>
    db.upsertFilings (repositoryUpsert
      [.entityId, .filingType, .jurisdiction, .filingAuthority, .dueDate, .filedDate, .status]
      [.entityId, .filingType, .dueDate]) (batch.map filingObject)) db

/-- The body of the transaction.  A rejected statement rolls all of it back. -/
def processUploadTransaction (chunkSize : Nat) (upload : ValidatedUpload) (db : Database) :
    Except DbError (Database × UploadBatchResult) := do
  let registered ← upsertEntityRows chunkSize upload.entityRows db
  let ids := idByName registered upload
  let wired ← wireDomesticEntities (fqUpdates upload.entityRows ids) registered
  let owned ← upsertEdgeRecords chunkSize (edgeRecords upload.ownershipRows ids) wired
  let filed ← upsertFilingRecords chunkSize (filingRecords upload.filingRows ids) owned
  return (filed, {
    entities := upload.entityRows.length
    ownershipEdges := upload.ownershipRows.length
    filings := upload.filingRows.length })

/-- What a client of `POST /upload` gets. -/
inductive UploadOutcome where
  | unprocessable (errors : List ValidationError)
  | failed (reason : DbError)
  | created (result : UploadBatchResult)
deriving DecidableEq, Repr

structure Limits where
  maxUploadRowsPerFile : Nat
  uploadBatchChunkSize : Nat
  chunkSizePositive : 0 < uploadBatchChunkSize

def Limits.default : Limits where
  maxUploadRowsPerFile := 50000
  uploadBatchChunkSize := 500
  chunkSizePositive := by decide

/-- One upload, validated and written without another one in between. -/
def processUpload (limits : Limits) (today : Date) (files : UploadFiles) (db : Database) : Database × UploadOutcome :=
  let upload := validateUpload db today limits.maxUploadRowsPerFile files
  if upload.errors ≠ [] then (db, .unprocessable upload.errors)
  else match transaction (processUploadTransaction limits.uploadBatchChunkSize upload) db with
    | (unchanged, .error reason) => (unchanged, .failed reason)
    | (written, .ok result) => (written, .created result)

theorem processUpload_cases (limits : Limits) (today : Date) (files : UploadFiles) (db : Database) :
    (∃ outcome, (∀ result, outcome ≠ .created result) ∧ processUpload limits today files db = (db, outcome)) ∨
      (validateUpload db today limits.maxUploadRowsPerFile files).errors = [] ∧
      ∃ after result, processUploadTransaction limits.uploadBatchChunkSize
        (validateUpload db today limits.maxUploadRowsPerFile files) db = .ok (after, result) ∧
        processUpload limits today files db = (after, .created result) := by
  unfold processUpload
  by_cases accepted : (validateUpload db today limits.maxUploadRowsPerFile files).errors = []
  · simp only [accepted, ne_eq, not_true_eq_false, if_false, transaction]
    cases processUploadTransaction limits.uploadBatchChunkSize
        (validateUpload db today limits.maxUploadRowsPerFile files) db with
    | error reason => exact .inl ⟨.failed reason, by simp, rfl⟩
    | ok committed => exact .inr ⟨trivial, committed.1, committed.2, rfl, rfl⟩
  · refine .inl ⟨.unprocessable (validateUpload db today limits.maxUploadRowsPerFile files).errors, by simp, ?_⟩
    simp only [accepted, ne_eq, not_false_eq_true, if_true]

end Coverpin.Upload
