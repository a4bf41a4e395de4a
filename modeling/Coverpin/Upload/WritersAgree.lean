import Coverpin.Upload.EntityPass
import Coverpin.Upload.Payload

namespace Coverpin.Upload

open Coverpin.Data Coverpin.Database Coverpin.Validation Coverpin.Validation.Entities
  Coverpin.Validation.Filings Coverpin.Validation.Ownership

/-! # The two writers do the same

Pass by pass, `writeUploadBatch` on the rows of a payload issues the statements
that the transaction of `processUpload` issues on the parsed rows.
-/

variable [Platform] {db : Database} {upload : ValidatedUpload} {chunkSize : Nat}

theorem entityCols_zip (row : ParsedEntityRow) :
    entityCols.zip (entityValues (toUploadEntityRow row)) = entityObject row := by
  simp [entityCols, entityValues, toUploadEntityRow, entityObject, Function.comp_def]

theorem bindTuples_entities (batch : List ParsedEntityRow) :
    bindTuples entityCols (valuesClause entityCols (batch.map toUploadEntityRow))
      ((batch.map toUploadEntityRow).flatMap entityValues) = .ok (batch.map entityObject) := by
  have bound := bindTuples_batch entityCols (batch.map toUploadEntityRow) entityValues (fun _ => rfl)
  rw [List.map_map] at bound
  exact bound.trans (congrArg Except.ok (List.map_congr_left fun row _ => entityCols_zip row))

theorem writeEntityRows_eq (rows : List ParsedEntityRow) :
    writeEntityRows chunkSize (rows.map toUploadEntityRow) db = upsertEntityRows chunkSize rows db := by
  rw [writeEntityRows, upsertEntityRows, chunk_map, List.foldlM_map]
  congr 1
  funext db batch
  have bound := bindTuples_entities batch
  simp only [insertEntities, bound, bind, Except.bind]
  rfl

theorem writeEdgeRecords_eq (records : List EdgeRow) :
    writeEdgeRecords chunkSize records db = upsertEdgeRecords chunkSize records db := by
  rw [writeEdgeRecords, upsertEdgeRecords]
  congr 1
  funext db batch
  have bound := bindTuples_batch edgeCols batch edgeValues (fun _ => rfl)
  simp only [insertOwnershipEdges, valuesClause, valuesTuple, bound, bind, Except.bind]
  rfl

theorem writeFilingRecords_eq (records : List FilingRow) :
    writeFilingRecords chunkSize records db = upsertFilingRecords chunkSize records db := by
  rw [writeFilingRecords, upsertFilingRecords]
  congr 1
  funext db batch
  have bound := bindTuples_batch filingCols batch filingValues (fun _ => rfl)
  simp only [insertFilings, valuesClause, valuesTuple, bound, bind, Except.bind]
  rfl

theorem batchReferencedNames_eq : batchReferencedNames (toUploadBatchRows upload) = referencedNames upload := by
  simp [batchReferencedNames, referencedNames, toUploadBatchRows, List.flatMap_map, toUploadEntityRow,
    toUploadOwnershipRow, toUploadFilingRow]

/-- Resolving by the stored key is resolving by the normalized stored name. -/
theorem batchIdByName_eq (upload : ValidatedUpload) (normalized : NamesNormalized db) :
    batchIdByName db (toUploadBatchRows upload) = idByName db upload := by
  rw [batchIdByName, idByName, batchReferencedNames_eq]
  split
  · rfl
  · congr 1
    apply List.map_congr_left
    intro record member
    rw [normalized record (List.mem_filter.mp member).1]

theorem batchFqUpdates_eq (rows : List ParsedEntityRow) (ids : InsertionMap String EntityId) :
    batchFqUpdates (rows.map toUploadEntityRow) ids = fqUpdates rows ids := by
  rw [batchFqUpdates, fqUpdates, List.filter_map, List.map_map]
  rfl

theorem batchEdgeRecords_eq (rows : List ParsedOwnershipRow) (ids : InsertionMap String EntityId) :
    batchEdgeRecords (rows.map toUploadOwnershipRow) ids = edgeRecords rows ids := by
  rw [batchEdgeRecords, edgeRecords, List.filterMap_map]
  rfl

theorem batchFilingRecords_eq (rows : List ParsedFilingRow) (ids : InsertionMap String EntityId) :
    batchFilingRecords (rows.map toUploadFilingRow) ids = filingRecords rows ids := by
  rw [batchFilingRecords, filingRecords, List.filterMap_map]
  rfl

/-- The two writers have one outcome on the rows of one upload. -/
theorem writeUploadBatch_eq (normalized : NamesNormalized db) (positive : 0 < chunkSize) :
    writeUploadBatch (toUploadBatchRows upload) chunkSize db = processUploadTransaction chunkSize upload db := by
  rw [writeUploadBatch, processUploadTransaction]
  simp only [toUploadBatchRows, writeEntityRows_eq, List.length_map]
  cases written : upsertEntityRows chunkSize upload.entityRows db with
  | error reason => rfl
  | ok registered =>
      have names := (upsertEntityRows_ok positive written).1.namesNormalized normalized
      have ids := batchIdByName_eq upload names
      simp only [toUploadBatchRows] at ids
      simp only [bind, Except.bind, ids, batchFqUpdates_eq, batchEdgeRecords_eq, batchFilingRecords_eq,
        writeEdgeRecords_eq, writeFilingRecords_eq]

end Coverpin.Upload
