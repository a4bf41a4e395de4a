import Coverpin.Upload.Idempotence
import Coverpin.Validation.FilingKeys

namespace Coverpin

open Coverpin.Data Coverpin.Database

namespace Database

theorem ext {db other : Database} (entities : db.entities.records = other.entities.records)
    (ownershipEdges : db.ownershipEdges.records = other.ownershipEdges.records)
    (filings : db.filings.records = other.filings.records) : db = other := by
  obtain ⟨_, _, _, _⟩ := db
  obtain ⟨_, _, _, _⟩ := other
  cases Table.ext entities
  cases Table.ext ownershipEdges
  cases Table.ext filings
  rfl

end Database

namespace Upload

open Coverpin.Validation Coverpin.Validation.Entities Coverpin.Validation.Filings Coverpin.Validation.Ownership

/-! # The size of the batches

Batches save round trips.  What they may not change is what is stored; whether
anything is stored at all depends on the size in one way only, a batch of filings
that has a key twice.
-/

variable [Platform]

section Stored

variable {size other : Nat} {db after after' : Database}

theorem upsertEntityRows_size {rows : List ParsedEntityRow} (positive : 0 < size) (otherPositive : 0 < other)
    (written : upsertEntityRows size rows db = .ok after) (again : upsertEntityRows other rows db = .ok after') :
    after = after' := by
  have entities := (upsertEntityRows_upserted positive written).functional entityKeyed.unique
    (upsertEntityRows_upserted otherPositive again)
  refine Database.ext (congrArg Table.records entities) ?_ ?_
  · rw [(upsertEntityRows_ok positive written).2, (upsertEntityRows_ok otherPositive again).2]
  · rw [upsertEntityRows_filings written, upsertEntityRows_filings again]

theorem upsertEdgeRecords_size {records : List EdgeRow} (positive : 0 < size) (otherPositive : 0 < other)
    (written : upsertEdgeRecords size records db = .ok after) (again : upsertEdgeRecords other records db = .ok after') :
    after = after' := by
  have edges := (upsertEdgeRecords_upserted positive written).functional edgeKeyed.unique
    (upsertEdgeRecords_upserted otherPositive again)
  refine Database.ext ?_ (congrArg Table.records edges) ?_
  · rw [(upsertEdgeRecords_ok positive written).2, (upsertEdgeRecords_ok otherPositive again).2]
  · rw [upsertEdgeRecords_filings written, upsertEdgeRecords_filings again]

theorem upsertFilingRecords_size {records : List FilingRow} (positive : 0 < size) (otherPositive : 0 < other)
    (written : upsertFilingRecords size records db = .ok after)
    (again : upsertFilingRecords other records db = .ok after') : after = after' := by
  have filings := (upsertFilingRecords_upserted positive written).functional filingKeyed.unique
    (upsertFilingRecords_upserted otherPositive again)
  obtain ⟨entities, edges⟩ := upsertFilingRecords_ok written
  obtain ⟨entitiesAgain, edgesAgain⟩ := upsertFilingRecords_ok again
  refine Database.ext ?_ ?_ (congrArg Table.records filings)
  · rw [entities, entitiesAgain]
  · rw [edges, edgesAgain]

theorem transaction_size {upload : ValidatedUpload} (positive : 0 < size) (otherPositive : 0 < other)
    {result result' : UploadBatchResult} (committed : processUploadTransaction size upload db = .ok (after, result))
    (again : processUploadTransaction other upload db = .ok (after', result')) : after = after' ∧ result = result' := by
  obtain ⟨registered, first, committed⟩ := bind_eq_ok.mp committed
  obtain ⟨wired, second, committed⟩ := bind_eq_ok.mp committed
  obtain ⟨owned, third, committed⟩ := bind_eq_ok.mp committed
  obtain ⟨filed, fourth, committed⟩ := bind_eq_ok.mp committed
  obtain ⟨registered', first', again⟩ := bind_eq_ok.mp again
  obtain rfl := upsertEntityRows_size positive otherPositive first first'
  obtain ⟨wired', second', again⟩ := bind_eq_ok.mp again
  cases second.symm.trans second'
  obtain ⟨owned', third', again⟩ := bind_eq_ok.mp again
  obtain rfl := upsertEdgeRecords_size positive otherPositive third third'
  obtain ⟨filed', fourth', again⟩ := bind_eq_ok.mp again
  obtain rfl := upsertFilingRecords_size positive otherPositive fourth fourth'
  cases committed
  cases again
  exact ⟨rfl, rfl⟩

end Stored

section Committed

variable {upload : ValidatedUpload} {db registered : Database}

/-- The records of the last pass are one for each row, with the keys of the rows. -/
theorem filingRecords_keys (written : Registered upload.entityRows db.entities registered.entities)
    (normalized : NamesNormalized db) (accepted : AcceptedUpload upload) :
    ∃ recordOf : ParsedFilingRow → FilingRow,
      filingRecords upload.filingRows (idByName registered upload) = upload.filingRows.map recordOf ∧
      ∀ row ∈ upload.filingRows, ∀ other ∈ upload.filingRows,
        (recordOf row).key = (recordOf other).key ↔ naturalKey row = naturalKey other := by
  let ids := idByName registered upload
  let recordOf := fun row : ParsedFilingRow => FilingRow.mk ((ids.get? (normalizeName row.entityName)).getD 0) row.filingType
    row.jurisdiction row.filingAuthority (toDateOnlyString row.dueDate) (row.filedDate.map toDateOnlyString) row.status
  have names := written.namesNormalized normalized
  have resolved : ∀ row ∈ upload.filingRows, ∃ record ∈ registered.entities.records,
      record.entityNameKey = normalizeName row.entityName ∧ ids.get? (normalizeName row.entityName) = some record.id :=
    fun row member => written.resolve normalized (referencedNames_filings member) (accepted.registered row member)
  refine ⟨recordOf, ?_, fun row member other otherMember => ?_⟩
  · rw [filingRecords, ← List.filterMap_eq_map]
    refine List.filterMap_congr fun row member => ?_
    obtain ⟨record, _, _, found⟩ := resolved row member
    simp [recordOf, ids, found]
  · obtain ⟨record, inside, name, found⟩ := resolved row member
    obtain ⟨record', inside', name', found'⟩ := resolved other otherMember
    simp only [FilingRow.key, recordOf, found, found', Option.getD_some, naturalKey, Prod.mk.injEq]
    refine and_congr_left fun _ => ?_
    rw [← name, ← name']
    constructor
    · intro same
      rw [Table.eq_of_id inside inside' same]
    · intro same
      rw [eq_of_entityKey inside inside' same]

/-- The first three passes of an accepted upload go through, and so does the last
one unless a batch of it has a key twice. -/
theorem transaction_iff_keys {chunkSize : Nat} (positive : 0 < chunkSize) (accepted : AcceptedUpload upload)
    (stored : NamesStored db) (fit : EntityRowsFit db.entities upload.entityRows) :
    (∃ committed, processUploadTransaction chunkSize upload db = .ok committed) ↔
      ∀ batch ∈ chunk upload.filingRows chunkSize, (batch.map naturalKey).Nodup := by
  obtain ⟨registered, wired, owned, first, second, third, _⟩ := passes_exist positive accepted stored fit
  obtain ⟨rows, _⟩ := upsertEntityRows_ok positive first
  obtain ⟨recordOf, records, keys⟩ := filingRecords_keys rows stored.normalized accepted
  have inside : ∀ batch ∈ chunk upload.filingRows chunkSize, ∀ row ∈ batch, row ∈ upload.filingRows := by
    intro batch member row listed
    rw [← chunk_flatten upload.filingRows positive]
    exact List.mem_flatten.mpr ⟨batch, member, listed⟩
  have batches : (∀ batch ∈ chunk (upload.filingRows.map recordOf) chunkSize, (batch.map FilingRow.key).Nodup) ↔
      ∀ batch ∈ chunk upload.filingRows chunkSize, (batch.map naturalKey).Nodup := by
    rw [chunk_map, List.forall_mem_map]
    refine forall₂_congr fun batch member => ?_
    rw [List.map_map, List.Nodup, List.pairwise_map, List.Nodup, List.pairwise_map]
    refine List.Pairwise.iff_of_mem fun rowMember otherMember => not_congr ?_
    exact keys _ (inside batch member _ rowMember) _ (inside batch member _ otherMember)
  rw [← batches, ← records]
  constructor
  · intro committed
    obtain ⟨⟨after, result⟩, committed⟩ := committed
    obtain ⟨registered', wired', owned', first', second', third', fourth⟩ := processUploadTransaction_passes committed
    cases first.symm.trans first'
    exact filingKeys_of_written fourth
  · intro distinct
    have ids : owned.entities.ids = registered.entities.ids := by
      rw [(upsertEdgeRecords_ok positive third).2, Table.ids, (wireDomesticEntities_ok second).1, List.map_map]
      exact List.map_congr_left fun record _ => rewire_id _ record
    have fits := filingRecords_fit accepted (rows.namesNormalized stored.normalized)
    obtain ⟨filed, fourth⟩ := upsertFilingRecords_exists positive (ids ▸ fits) distinct
    exact ⟨_, bind_eq_ok.mpr ⟨registered, first, bind_eq_ok.mpr ⟨wired, second,
      bind_eq_ok.mpr ⟨owned, third, bind_eq_ok.mpr ⟨filed, fourth, rfl⟩⟩⟩⟩⟩

end Committed

theorem processUpload_created_iff {limits : Limits} {today : Date} {files : UploadFiles} {db after : Database}
    {result : UploadBatchResult} : processUpload limits today files db = (after, .created result) ↔
      (validateUpload db today limits.maxUploadRowsPerFile files).errors = [] ∧
      processUploadTransaction limits.uploadBatchChunkSize (validateUpload db today limits.maxUploadRowsPerFile files) db =
        .ok (after, result) := by
  unfold processUpload
  by_cases accepted : (validateUpload db today limits.maxUploadRowsPerFile files).errors = []
  · simp only [accepted, ne_eq, not_true_eq_false, if_false, transaction, true_and]
    cases processUploadTransaction limits.uploadBatchChunkSize
        (validateUpload db today limits.maxUploadRowsPerFile files) db with
    | error reason => simp
    | ok committed => simp [Prod.ext_iff]
  · simp [accepted]

theorem processUpload_outcome {limits : Limits} {today : Date} {files : UploadFiles} {db : Database}
    (accepted : (validateUpload db today limits.maxUploadRowsPerFile files).errors = []) :
    (∃ after result, processUpload limits today files db = (after, .created result)) ∨
      ∃ reason, processUpload limits today files db = (db, .failed reason) := by
  unfold processUpload
  simp only [accepted, ne_eq, not_true_eq_false, if_false, transaction]
  cases processUploadTransaction limits.uploadBatchChunkSize
      (validateUpload db today limits.maxUploadRowsPerFile files) db with
  | error reason => exact .inr ⟨reason, rfl⟩
  | ok committed => exact .inl ⟨_, _, rfl⟩

/-- After any uploads processed one at a time the next one is stored only when it is
accepted and no batch of its filings has a key twice; if one has, nothing is stored.
With any other batch size that stores it, it stores the same. -/
theorem created_keys {trace : List (Database × UploadRequest)} {db : Database}
    (run : Run uploadStep Database.initial trace db) (request : UploadRequest) :
    (∀ after result, processUpload request.limits request.today request.files db = (after, .created result) →
      (request.validated db).errors = [] ∧ ∀ batch ∈
        chunk (request.validated db).filingRows request.limits.uploadBatchChunkSize, (batch.map naturalKey).Nodup) ∧
    (∀ batch ∈ chunk (request.validated db).filingRows request.limits.uploadBatchChunkSize, ¬ (batch.map naturalKey).Nodup →
      (request.validated db).errors = [] →
        ∃ reason, processUpload request.limits request.today request.files db = (db, .failed reason)) ∧
    ∀ (limits : Limits) (after other : Database) (result counts : UploadBatchResult),
      limits.maxUploadRowsPerFile = request.limits.maxUploadRowsPerFile →
      processUpload request.limits request.today request.files db = (after, .created result) →
      processUpload limits request.today request.files db = (other, .created counts) →
        after = other ∧ result = counts := by
  have stored := NamesStored.reachable run
  have keys : ∀ after result, processUpload request.limits request.today request.files db = (after, .created result) →
      (request.validated db).errors = [] ∧ ∀ batch ∈
        chunk (request.validated db).filingRows request.limits.uploadBatchChunkSize, (batch.map naturalKey).Nodup := by
    intro after result created
    obtain ⟨accepted, committed⟩ := processUpload_created_iff.mp created
    obtain ⟨storable, businessIds⟩ := validateUpload_storable accepted
    exact ⟨accepted, (transaction_iff_keys request.limits.chunkSizePositive storable stored
      (AcceptedUpload.entityRowsFit storable stored businessIds)).mp ⟨_, committed⟩⟩
  refine ⟨keys, fun batch member repeated accepted => ?_, fun limits after other result counts rows created again => ?_⟩
  · rcases processUpload_outcome accepted with ⟨after, result, created⟩ | failed
    · exact absurd ((keys after result created).2 batch member) repeated
    · exact failed
  · obtain ⟨_, committed⟩ := processUpload_created_iff.mp created
    obtain ⟨_, recommitted⟩ := processUpload_created_iff.mp again
    rw [rows] at recommitted
    exact transaction_size request.limits.chunkSizePositive limits.chunkSizePositive committed recommitted

omit [Platform] in
/-- One filing under two spellings of its due date, written in batches of `size`. -/
def respelledRequest (size : Nat) (positive : 0 < size) : UploadRequest where
  limits := ⟨10, size, positive⟩
  today := ⟨0⟩
  files := {
    entities := csvFile .entities [["Acme", "Entity", "US", "Corporation", "Active", "", "", "", "", ""]]
    ownership := csvFile .ownership []
    filings := csvFile .filings [["Acme", "Annual Report", "US", "", "2024-01-05", "", "Not Started"],
      ["acme", "Annual Report", "US", "", "1/5/2024", "", "Rejected"]] }

omit [Platform] in
example : letI := asciiPlatform
    let request := respelledRequest 2 (by decide)
    (processUpload request.limits request.today request.files Database.initial).2 = .failed .touchedTwice := by
  decide +kernel

omit [Platform] in
/-- In one batch nothing of it is stored. -/
theorem respelled_refused : letI := asciiPlatform
    ∃ reason, processUpload (respelledRequest 2 (by decide)).limits ⟨0⟩ (respelledRequest 2 (by decide)).files
      Database.initial = (Database.initial, .failed reason) := by
  have repeated : letI := asciiPlatform
      ∃ batch ∈ chunk ((respelledRequest 2 (by decide)).validated Database.initial).filingRows 2,
        ¬ (batch.map naturalKey).Nodup := by
    decide +kernel
  have accepted : letI := asciiPlatform
      ((respelledRequest 2 (by decide)).validated Database.initial).errors = [] := by
    decide +kernel
  let _ := asciiPlatform
  obtain ⟨batch, member, repeated⟩ := repeated
  exact (created_keys .start (respelledRequest 2 (by decide))).2.1 batch member repeated accepted

end Upload

end Coverpin
