import Coverpin.Upload.ProcessUpload

namespace Coverpin.Upload

open Coverpin.Data Coverpin.Database Coverpin.Validation Coverpin.Validation.Entities
  Coverpin.Validation.Filings Coverpin.Validation.Ownership

/-! # `upload-writer.ts`: the write of a stored batch

The rows of a job's payload hold dates as texts, and no line numbers.
-/

structure UploadEntityRow where
  entityName : String
  registrationType : String
  jurisdiction : String
  entityType : String
  entityStatus : String
  statusDate : Option String
  domesticEntity : Option String
  formationDate : Option String
  businessId : Option String
  globalRegion : Option String
deriving DecidableEq, Repr

/-- The percentage is held in hundredths. -/
structure UploadOwnershipRow where
  parentEntity : String
  childEntity : String
  ownershipPct : Nat
deriving DecidableEq, Repr

structure UploadFilingRow where
  entityName : String
  filingType : String
  jurisdiction : String
  filingAuthority : Option String
  dueDate : String
  filedDate : Option String
  status : String
deriving DecidableEq, Repr

structure UploadBatchRows where
  entityRows : List UploadEntityRow
  ownershipRows : List UploadOwnershipRow
  filingRows : List UploadFilingRow
deriving DecidableEq, Repr

def toUploadEntityRow (row : ParsedEntityRow) : UploadEntityRow where
  entityName := row.entityName
  registrationType := row.registrationType
  jurisdiction := row.jurisdiction
  entityType := row.entityType
  entityStatus := row.entityStatus
  statusDate := row.statusDate.map toDateOnlyString
  domesticEntity := row.domesticEntity
  formationDate := row.formationDate.map toDateOnlyString
  businessId := row.businessId
  globalRegion := row.globalRegion

def toUploadOwnershipRow (row : ParsedOwnershipRow) : UploadOwnershipRow where
  parentEntity := row.parentEntity
  childEntity := row.childEntity
  ownershipPct := row.ownershipPct

def toUploadFilingRow (row : ParsedFilingRow) : UploadFilingRow where
  entityName := row.entityName
  filingType := row.filingType
  jurisdiction := row.jurisdiction
  filingAuthority := row.filingAuthority
  dueDate := toDateOnlyString row.dueDate
  filedDate := row.filedDate.map toDateOnlyString
  status := row.status

/-- Called once, right after validation succeeds. -/
def toUploadBatchRows (rows : ValidatedUpload) : UploadBatchRows where
  entityRows := rows.entityRows.map toUploadEntityRow
  ownershipRows := rows.ownershipRows.map toUploadOwnershipRow
  filingRows := rows.filingRows.map toUploadFilingRow

def valuesTuple (cols : List γ) (base : Nat) : List Nat :=
  numberedTuple cols base

/-- The `VALUES` list over the parameters of a batch, numbered row by row. -/
def valuesClause (cols : List γ) (batch : List α) : List (List Nat) :=
  batch.mapIdx fun i _ => valuesTuple cols (i * cols.length)

variable [Platform]

def entityCols : List EntityColumn :=
  [.entityName, .entityNameKey, .registrationType, .jurisdiction, .entityType, .entityStatus, .statusDate,
    .formationDate, .businessId, .globalRegion]

def entityValues (row : UploadEntityRow) : List (Option SqlValue) := [
  some (.text row.entityName),
  some (.text (normalizeName row.entityName)),
  some (.text row.registrationType),
  some (.text row.jurisdiction),
  some (.text row.entityType),
  some (.text row.entityStatus),
  row.statusDate.map .text,
  row.formationDate.map .text,
  row.businessId.map .text,
  row.globalRegion.map .text]

omit [Platform] in
def insertEntities (batch : List UploadEntityRow) : Insert EntityColumn where
  columns := entityCols
  tuples := valuesClause entityCols batch
  conflict := {
    target := [.entityNameKey]
    updates := [.entityName, .registrationType, .jurisdiction, .entityType, .entityStatus, .statusDate,
      .formationDate, .businessId, .globalRegion] }

/-- Pass 1. -/
def writeEntityRows (chunkSize : Nat) (rows : List UploadEntityRow) (db : Database) : Except DbError Database :=
  (chunk rows chunkSize).foldlM (fun db batch => do
    let statement := insertEntities batch
    let bound ← bindTuples statement.columns statement.tuples (batch.flatMap entityValues)
    db.upsertEntities statement.conflict bound) db

def batchReferencedNames (rows : UploadBatchRows) : List String :=
  (rows.entityRows.flatMap fun row =>
    normalizeName row.entityName :: ((truthy row.domesticEntity).map normalizeName).toList) ++
  (rows.ownershipRows.flatMap fun row => [normalizeName row.parentEntity, normalizeName row.childEntity]) ++
  rows.filingRows.map fun row => normalizeName row.entityName

/-- Ids by the stored name key of the entities that are referenced. -/
def batchIdByName (db : Database) (rows : UploadBatchRows) : InsertionMap String EntityId :=
  let names := batchReferencedNames rows
  let relevant := if names = [] then [] else db.entitiesByKey names
  .ofPairs (relevant.map fun record => (record.entityNameKey, record.id))

def batchFqUpdates (rows : List UploadEntityRow) (ids : InsertionMap String EntityId) :
    List (String × Option EntityId) :=
  (rows.filter fun row => row.registrationType = "FQ").map fun row =>
    (normalizeName row.entityName, (truthy row.domesticEntity).bind fun name => ids.get? (normalizeName name))

omit [Platform] in
def edgeCols : List EdgeColumn :=
  [.parentEntityId, .childEntityId, .ownershipPct]

def batchEdgeRecords (rows : List UploadOwnershipRow) (ids : InsertionMap String EntityId) : List EdgeRow :=
  rows.filterMap fun row => do
    let parentEntityId ← ids.get? (normalizeName row.parentEntity)
    let childEntityId ← ids.get? (normalizeName row.childEntity)
    return { parentEntityId, childEntityId, ownershipPct := toFixed2 row.ownershipPct }

omit [Platform] in
def edgeValues (row : EdgeRow) : List (Option SqlValue) :=
  [some (.uuid row.parentEntityId), some (.uuid row.childEntityId), some (.text row.ownershipPct)]

omit [Platform] in
def insertOwnershipEdges (batch : List EdgeRow) : Insert EdgeColumn where
  columns := edgeCols
  tuples := valuesClause edgeCols batch
  conflict := { target := [.parentEntityId, .childEntityId], updates := [.ownershipPct] }

/-- Pass 3. -/
def writeEdgeRecords (chunkSize : Nat) (records : List EdgeRow) (db : Database) : Except DbError Database :=
  (chunk records chunkSize).foldlM (fun db batch => do
    let statement := insertOwnershipEdges batch
    let bound ← bindTuples statement.columns statement.tuples (batch.flatMap edgeValues)
    db.upsertOwnershipEdges statement.conflict bound) db

omit [Platform] in
def filingCols : List FilingColumn :=
  [.entityId, .filingType, .jurisdiction, .filingAuthority, .dueDate, .filedDate, .status]

def batchFilingRecords (rows : List UploadFilingRow) (ids : InsertionMap String EntityId) : List FilingRow :=
  rows.filterMap fun row => do
    let entityId ← ids.get? (normalizeName row.entityName)
    return {
      entityId
      filingType := row.filingType
      jurisdiction := row.jurisdiction
      filingAuthority := row.filingAuthority
      dueDate := row.dueDate
      filedDate := row.filedDate
      status := row.status }

omit [Platform] in
def filingValues (row : FilingRow) : List (Option SqlValue) := [
  some (.uuid row.entityId),
  some (.text row.filingType),
  some (.text row.jurisdiction),
  row.filingAuthority.map .text,
  some (.text row.dueDate),
  row.filedDate.map .text,
  some (.text row.status)]

omit [Platform] in
def insertFilings (batch : List FilingRow) : Insert FilingColumn where
  columns := filingCols
  tuples := valuesClause filingCols batch
  conflict := {
    target := [.entityId, .filingType, .dueDate]
    updates := [.jurisdiction, .filingAuthority, .filedDate, .status] }

/-- Pass 4. -/
def writeFilingRecords (chunkSize : Nat) (records : List FilingRow) (db : Database) : Except DbError Database :=
  (chunk records chunkSize).foldlM (fun db batch => do
    let statement := insertFilings batch
    let bound ← bindTuples statement.columns statement.tuples (batch.flatMap filingValues)
    db.upsertFilings statement.conflict bound) db

/-- The four passes over the rows of a payload. -/
def writeUploadBatch (rows : UploadBatchRows) (chunkSize : Nat) (db : Database) :
    Except DbError (Database × UploadBatchResult) := do
  let registered ← writeEntityRows chunkSize rows.entityRows db
  let ids := batchIdByName registered rows
  let wired ← wireDomesticEntities (batchFqUpdates rows.entityRows ids) registered
  let owned ← writeEdgeRecords chunkSize (batchEdgeRecords rows.ownershipRows ids) wired
  let filed ← writeFilingRecords chunkSize (batchFilingRecords rows.filingRows ids) owned
  return (filed, {
    entities := rows.entityRows.length
    ownershipEdges := rows.ownershipRows.length
    filings := rows.filingRows.length })

end Coverpin.Upload
