import Coverpin.Database.SameRows
import Coverpin.Upload.Overlay
import Coverpin.Validation.LaterDays

namespace Coverpin.Upload

open Coverpin.Data Coverpin.Database Coverpin.Validation Coverpin.Validation.Entities Coverpin.Validation.Filings
  Coverpin.Validation.Graph Coverpin.Validation.Ownership

/-! # Uploading the same files again

After a commit every table holds what the upload writes, so writing it again
changes nothing; and what the checks against the database look at, the graph and
the owners of business ids, is what the upload has left there itself.
-/

variable [Platform]

section Unchanged

variable {chunkSize : Nat} {db next : Database}

theorem upsertEntityRows_unchanged {rows : List ParsedEntityRow} (positive : 0 < chunkSize)
    (written : upsertEntityRows chunkSize rows db = .ok next)
    (fixed : (entityMap db).setAll (rows.map ParsedEntityRow.entry) = entityMap db) :
    next.entities.records = db.entities.records := by
  refine KeyedView.records_eq EntityRecord.domesticEntityId ?_ ?_ entityRows_proper
    (upsertEntityRows_upserted positive written) ((congrArg _ (entityRows_entries rows)).trans fixed)
  · intro record values updated proper built
    obtain ⟨row, rfl⟩ := proper
    exact (entity_updated built).2.2.1
  · intro record other id domestic view
    simp only [entityKeyed, entityEntry_read, Prod.mk.injEq] at view
    exact EntityRecord.ext_values id view.1 domestic view.2

theorem upsertEdgeRecords_unchanged {rows : List EdgeRow} (positive : 0 < chunkSize)
    (written : upsertEdgeRecords chunkSize rows db = .ok next)
    (fixed : (edgeMap db).setAll (rows.map EdgeRow.entry) = edgeMap db) :
    next.ownershipEdges.records = db.ownershipEdges.records := by
  refine KeyedView.records_eq (fun _ => ()) (fun _ _ _ _ _ => rfl) ?_ edgeRows_proper
    (upsertEdgeRecords_upserted positive written) ?_
  · intro edge other id _ view
    obtain ⟨_, _, _, _⟩ := edge
    obtain ⟨_, _, _, _⟩ := other
    simp only [edgeKeyed, edgeView, Prod.mk.injEq] at view
    obtain ⟨⟨rfl, rfl⟩, rfl⟩ := view
    simp only [OwnershipEdge.mk.injEq, and_true]
    exact id
  · rw [List.map_map]
    exact fixed

theorem upsertFilingRecords_unchanged {rows : List FilingRow} (positive : 0 < chunkSize)
    (written : upsertFilingRecords chunkSize rows db = .ok next)
    (fixed : (filingMap db).setAll (rows.map FilingRow.entry) = filingMap db) :
    next.filings.records = db.filings.records := by
  refine KeyedView.records_eq (fun _ => ()) (fun _ _ _ _ _ => rfl) ?_ filingRows_proper
    (upsertFilingRecords_upserted positive written) ((congrArg _ (filingRows_entries rows)).trans fixed)
  intro filing other id _ view
  obtain ⟨_, _, _, _, _, _, _, _⟩ := filing
  obtain ⟨_, _, _, _, _, _, _, _⟩ := other
  simp only [filingKeyed, filingEntry_read, storedFilingKey, storedFilingValues, Prod.mk.injEq,
    FilingValues.mk.injEq] at view
  obtain ⟨⟨entity, type, due⟩, jurisdiction, authority, filed, status⟩ := view
  simp only [Filing.mk.injEq]
  exact ⟨id, entity, Subtype.ext type, jurisdiction, authority, Subtype.ext due,
    Option.map_injective Subtype.val_injective filed, Subtype.ext status⟩

end Unchanged

section Fixed

variable {upload : ValidatedUpload} {before registered after listed rewritten : Database}

omit [Platform] in
theorem SameRows.ids {db listed : Database} (same : SameRows db listed) (id : EntityId) :
    id ∈ listed.entities.ids ↔ id ∈ db.entities.ids :=
  (same.entities.map _).mem_iff

omit [Platform] in
theorem SameRows.nameOf {db listed : Database} (same : SameRows db listed) {id : EntityId} (exists_ : id ∈ db.entities.ids) :
    nameOf listed id = nameOf db id := by
  obtain ⟨record, member, rfl⟩ := List.mem_map.mp exists_
  change Validation.nameOf listed record.id = Validation.nameOf db record.id
  rw [nameOf_eq member, nameOf_eq (same.entities.mem_iff.mpr member)]

theorem entityMap_committed (committed : Committed upload before registered after) (same : SameRows after listed)
    (key : String) : (entityMap listed).get? key = (entityMap registered).get? key := by
  rw [entityMap, KeyedView.get?_perm same.entities]
  congr 1
  apply InsertionMap.ext
  rw [KeyedView.toMap, entityMap, KeyedView.toMap]
  simp only [committed.entities, List.map_map]
  refine List.map_congr_left fun record _ => ?_
  simp [entityKeyed, entityEntry_read]

theorem Committed.entities_fixed (committed : Committed upload before registered after) (same : SameRows after listed) :
    (entityMap listed).setAll (upload.entityRows.map ParsedEntityRow.entry) = entityMap listed := by
  refine InsertionMap.setAll_eq_self fun key values last => ?_
  rw [entityMap_committed committed same, committed.entityValues, InsertionMap.get?_setAll, last, Option.some_or]

theorem Committed.edges_fixed (committed : Committed upload before registered after) (same : SameRows after listed) :
    (edgeMap listed).setAll ((edgeRecords upload.ownershipRows (idByName registered upload)).map EdgeRow.entry) =
      edgeMap listed := by
  refine InsertionMap.setAll_eq_self fun key pct last => ?_
  rw [edgeMap, KeyedView.get?_perm same.ownershipEdges, ← edgeMap, committed.edges, InsertionMap.get?_setAll, last,
    Option.some_or]

theorem Committed.filings_fixed (committed : Committed upload before registered after) (same : SameRows after listed) :
    (filingMap listed).setAll ((filingRecords upload.filingRows (idByName registered upload)).map FilingRow.entry) =
      filingMap listed := by
  refine InsertionMap.setAll_eq_self fun key values last => ?_
  rw [filingMap, KeyedView.get?_perm same.filings, ← filingMap, committed.filingValues, InsertionMap.get?_setAll, last,
    Option.some_or]

/-- Names resolve to the same ids when the same rows are written again. -/
theorem Committed.idByName_again (committed : Committed upload before registered after)
    (normalized : NamesNormalized before) (same : SameRows after listed) (unchanged : rewritten.entities.records =
      listed.entities.records) (name : String) :
    (idByName rewritten upload).get? name = (idByName registered upload).get? name := by
  have names := committed.namesNormalized normalized
  have members : ∀ record, record ∈ rewritten.entities.records ↔ record ∈ after.entities.records := by
    intro record
    rw [unchanged]
    exact same.entities.mem_iff
  apply Option.ext
  intro id
  rw [get?_idByName fun record member => names record ((members record).mp member),
    get?_idByName (committed.namesNormalized_registered normalized)]
  constructor
  · intro resolved
    obtain ⟨referenced, record, member, key, recordId⟩ := resolved
    have final := (members record).mp member
    rw [committed.entities] at final
    obtain ⟨old, inside, rfl⟩ := List.mem_map.mp final
    exact ⟨referenced, old, inside, by rw [← key, rewire_entityNameKey], by rw [← recordId, rewire_id]⟩
  · intro resolved
    obtain ⟨referenced, record, member, key, recordId⟩ := resolved
    obtain ⟨new, final, newId, _, newKey, _⟩ := committed.committed member
    exact ⟨referenced, new, (members new).mpr final, newKey.trans key, newId.trans recordId⟩

omit [Platform] in
theorem rewire_rewire (updates : List (String × Option EntityId)) (record : EntityRecord) :
    rewire updates (rewire updates record) = rewire updates record := by
  cases found : updates.find? fun update => update.1 = record.entityNameKey with
  | none => simp [rewire, found]
  | some update => simp [rewire, found]

theorem Committed.rewire_again (committed : Committed upload before registered after) (same : SameRows after listed) :
    listed.entities.records.map (rewire (fqUpdates upload.entityRows (idByName registered upload))) =
      listed.entities.records := by
  refine (List.map_congr_left fun record member => ?_).trans (List.map_id' _)
  have final := same.entities.mem_iff.mp member
  rw [committed.entities] at final
  obtain ⟨old, _, rfl⟩ := List.mem_map.mp final
  exact rewire_rewire _ old

end Fixed

section Again

variable {upload : ValidatedUpload} {before registered after listed : Database}

omit [Platform] in
/-- Nothing is reported when every owner of an id of the rows is the row's own entity. -/
theorem businessIds_accepted [Platform] {db : Database} {rows : List ParsedEntityRow}
    (owners : ∀ row ∈ rows, ∀ businessId ∈ row.businessId, ∀ record ∈ db.entities.records,
      record.businessId = some businessId → normalizeName record.entityName = normalizeName row.entityName) :
    validateBusinessIdsAgainstDb db rows = [] := by
  unfold validateBusinessIdsAgainstDb
  refine List.filterMap_eq_nil_iff.mpr fun candidate member => ?_
  obtain ⟨row, listed, named⟩ := List.mem_filterMap.mp member
  obtain ⟨businessId, rowId, rfl⟩ := Option.map_eq_some_iff.mp named
  simp only
  split
  · rfl
  · rename_i owner found
    obtain ⟨record, inside, owned⟩ := List.mem_filterMap.mp (InsertionMap.mem_of_get?_ofPairs found)
    obtain ⟨ownedId, recordId, same⟩ := Option.map_eq_some_iff.mp owned
    cases same
    have own := owners row listed businessId rowId record (List.mem_filter.mp inside).1 recordId
    rw [if_neg fun differs => differs.2 own]

theorem Committed.businessIds_again (committed : Committed upload before registered after)
    (normalized : NamesNormalized before) (accepted : AcceptedUpload upload) (same : SameRows after listed) :
    validateBusinessIdsAgainstDb listed upload.entityRows = [] := by
  refine businessIds_accepted fun row listedRow businessId named record member owned => ?_
  obtain ⟨own, inside, key, values⟩ := committed.rowValues accepted listedRow
  have final : rewire (fqUpdates upload.entityRows (idByName registered upload)) own ∈ after.entities.records := by
    rw [committed.entities]
    exact List.mem_map_of_mem inside
  have ownValues := (storedEntityValues_rewire (fqUpdates upload.entityRows (idByName registered upload)) own).trans values
  have ownId := (congrArg EntityValues.businessId ownValues).trans named
  have stored := same.entities.mem_iff.mp member
  have only : record = rewire (fqUpdates upload.entityRows (idByName registered upload)) own := by
    refine after.entities.unique.eq_of_agree (by simp [entitySchema] : [.businessId] ∈ entitySchema.uniques) stored final ?_
    simp only [storedEntityValues] at ownId
    simp [agree, entitySchema, EntityRecord.read, owned, ownId]
  rw [← committed.namesNormalized normalized record stored, only, rewire_entityNameKey, key]

theorem OwnershipSound.sameRows {db listed : Database} (sound : OwnershipSound db) (same : SameRows db listed) :
    OwnershipSound listed where
  acyclic := sound.acyclic.mono fun parent child owns => by
    obtain ⟨edge, member, ends⟩ := owns
    exact ⟨edge, same.ownershipEdges.mem_iff.mp member, ends⟩
  totals child := by
    have total : listed.totalOwnership child = db.totalOwnership child :=
      ((same.ownershipEdges.filter _).map _).sum_nat
    rw [total]
    exact sound.totals child
  names record member other otherMember :=
    sound.names record (same.entities.mem_iff.mp member) other (same.entities.mem_iff.mp otherMember)

theorem EdgesReadable.sameRows {db listed : Database} (readable : EdgesReadable db) (same : SameRows db listed) :
    EdgesReadable listed := by
  intro edge member
  have stored := same.ownershipEdges.mem_iff.mp member
  obtain ⟨parent, child⟩ := db.references.edges edge stored
  rw [SameRows.nameOf same parent, SameRows.nameOf same child]
  exact readable edge stored

/-- The stored graph holds the same edges for any order of the rows. -/
theorem storedGraph_get? {db listed : Database} (normalized : NamesNormalized db) (readable : EdgesReadable db)
    (same : SameRows db listed) (key : String) : (storedGraph listed).get? key = (storedGraph db).get? key := by
  have names : NamesNormalized listed := fun record member => normalized record (same.entities.mem_iff.mp member)
  have keys : ∀ entry ∈ (edgeMap listed).entries,
      (storedEdgeKey listed entry.1, entry.2) = (storedEdgeKey db entry.1, entry.2) := by
    intro entry member
    obtain ⟨edge, inside, rfl⟩ := mem_edgeMap member
    obtain ⟨parent, child⟩ := db.references.edges edge (same.ownershipEdges.mem_iff.mp inside)
    rw [storedEdgeKey, storedEdgeKey, SameRows.nameOf same parent, SameRows.nameOf same child]
  apply Option.ext
  intro pct
  rw [InsertionMap.get?_eq_some, InsertionMap.get?_eq_some, storedGraph_entries names (readable.sameRows same),
    storedGraph_entries normalized readable, List.map_congr_left keys]
  exact ((same.ownershipEdges.map edgeKeyed.view).map _).mem_iff

/-- The check meets the edges of its own rows and finds the graph it has made. -/
theorem Committed.graph_again (committed : Committed upload before registered after) (invariant : OwnershipInvariant before)
    (consistent : ConsistentUpload upload) (safe : ∀ row ∈ upload.ownershipRows, KeySafe row.parentEntity row.childEntity)
    (checked : validateOwnershipGraph upload.ownershipRows (loadExistingEdges before) = []) (same : SameRows after listed) :
    validateOwnershipGraph upload.ownershipRows (loadExistingEdges listed) = [] := by
  have final := committed.toWritten.invariant invariant consistent safe checked
  obtain ⟨_, merged⟩ := committed.storedGraph invariant.normalized consistent invariant.readable safe
  have names : NamesNormalized listed := fun record member => final.normalized record (same.entities.mem_iff.mp member)
  have sound := (final.sound.sameRows same).graph names (final.readable.sameRows same)
  have unchanged : mergedEdges upload.ownershipRows (loadExistingEdges listed) = storedGraph listed := by
    refine InsertionMap.setAll_eq_self fun key pct last => ?_
    change (storedGraph listed).get? key = some pct
    rw [storedGraph_get? final.normalized final.readable same, merged, mergedEdges, InsertionMap.get?_setAll, last,
      Option.some_or]
  exact accepted_of_sound (unchanged ▸ sound)

end Again

/-- No record of any table is new or different. -/
structure Unchanged (before after : Database) : Prop where
  entities : after.entities.records = before.entities.records
  ownershipEdges : after.ownershipEdges.records = before.ownershipEdges.records
  filings : after.filings.records = before.filings.records

section Rewrite

variable {upload : ValidatedUpload} {before after listed db : Database} {chunkSize : Nat} {result : UploadBatchResult}

theorem filingRecords_fit (accepted : AcceptedUpload upload) (normalized : NamesNormalized db) :
    ∀ record ∈ filingRecords upload.filingRows (idByName db upload), FilingRowFits db.entities.ids record := by
  intro record member
  obtain ⟨row, listedRow, built⟩ := List.mem_filterMap.mp member
  obtain ⟨entityId, found, built⟩ := Option.bind_eq_some_iff.mp built
  cases built
  have storable := accepted.filingRows row listedRow
  refine ⟨idByName_known normalized found, storable.filingType, ⟨row.dueDate, storable.dueDate, rfl⟩, ?_, storable.status⟩
  intro text filed
  obtain ⟨date, filedDate, rfl⟩ := Option.map_eq_some_iff.mp filed
  exact ⟨date, storable.filedDate date filedDate, rfl⟩

/-- Names that resolve alike make the same records. -/
theorem records_congr (upload : ValidatedUpload) {ids again : InsertionMap String EntityId}
    (same : ∀ name, again.get? name = ids.get? name) :
    fqUpdates upload.entityRows again = fqUpdates upload.entityRows ids ∧
    edgeRecords upload.ownershipRows again = edgeRecords upload.ownershipRows ids ∧
    filingRecords upload.filingRows again = filingRecords upload.filingRows ids := by
  simp only [fqUpdates, edgeRecords, filingRecords, same, and_self]

/-- Writing the rows of a commit again goes through and changes nothing. -/
theorem write_again (positive : 0 < chunkSize) (accepted : AcceptedUpload upload) (normalized : NamesNormalized before)
    (committed : processUploadTransaction chunkSize upload before = .ok (after, result)) (same : SameRows after listed)
    (stored : NamesStored listed) (fit : EntityRowsFit listed.entities upload.entityRows) :
    ∃ rewritten counts, processUploadTransaction chunkSize upload listed = .ok (rewritten, counts) ∧
      Unchanged listed rewritten := by
  obtain ⟨registered, wired, owned, first, second, third, fourth⟩ := processUploadTransaction_passes committed
  have effect : Committed upload before registered after := .of_passes positive first second third fourth
  obtain ⟨registeredAgain, wiredAgain, ownedAgain, firstAgain, secondAgain, thirdAgain, _⟩ :=
    passes_exist positive accepted stored fit
  have entities := upsertEntityRows_unchanged positive firstAgain (effect.entities_fixed same)
  obtain ⟨updates, edges, filings⟩ := records_congr upload (effect.idByName_again normalized same entities)
  obtain ⟨rowsAgain, registeredEdges⟩ := upsertEntityRows_ok positive firstAgain
  obtain ⟨rewired, wiredEdges⟩ := wireDomesticEntities_ok secondAgain
  rw [updates, entities, effect.rewire_again same] at rewired
  have sameEdges : wiredAgain.ownershipEdges = listed.ownershipEdges := wiredEdges.trans registeredEdges
  have sameFilings : ownedAgain.filings = listed.filings := by
    rw [upsertEdgeRecords_filings thirdAgain, wireDomesticEntities_filings secondAgain, upsertEntityRows_filings firstAgain]
  have ownedEntities := (upsertEdgeRecords_ok positive thirdAgain).2
  have ids : ownedAgain.entities.ids = registeredAgain.entities.ids := by
    rw [ownedEntities, Table.ids, Table.ids, rewired, entities]
  have fits := filingRecords_fit accepted (rowsAgain.namesNormalized stored.normalized)
  obtain ⟨filedAgain, fourthAgain⟩ := upsertFilingRecords_exists positive (ids ▸ fits)
    (by rw [filings]; exact filingKeys_of_written fourth)
  obtain ⟨filedEntities, filedEdges⟩ := upsertFilingRecords_ok fourthAgain
  refine ⟨filedAgain, _, bind_eq_ok.mpr ⟨registeredAgain, firstAgain, bind_eq_ok.mpr ⟨wiredAgain, secondAgain,
    bind_eq_ok.mpr ⟨ownedAgain, thirdAgain, bind_eq_ok.mpr ⟨filedAgain, fourthAgain, rfl⟩⟩⟩⟩, ?_, ?_, ?_⟩
  · rw [filedEntities, ownedEntities, rewired]
  · rw [edges] at thirdAgain
    have sameMap : edgeMap wiredAgain = edgeMap listed := by rw [edgeMap, sameEdges, edgeMap]
    rw [filedEdges, upsertEdgeRecords_unchanged positive thirdAgain (sameMap ▸ effect.edges_fixed same), sameEdges]
  · rw [filings] at fourthAgain
    have sameMap : filingMap ownedAgain = filingMap listed := by rw [filingMap, sameFilings, filingMap]
    rw [upsertFilingRecords_unchanged positive fourthAgain (sameMap ▸ effect.filings_fixed same), sameFilings]

end Rewrite

theorem OwnershipInvariant.reachable {trace : List (Database × UploadRequest)} {db : Database}
    (run : Run uploadStep Database.initial trace db)
    (pipeFree : ∀ entry ∈ trace, (entry.2.validated entry.1).errors = [] → PipeFree (entry.2.validated entry.1)) :
    OwnershipInvariant db :=
  run.invariant OwnershipInvariant
    (fun before request => (request.validated before).errors = [] → PipeFree (request.validated before)) .initial
    (fun _ _ _ held free step => held.upload
      (fun accepted => (free accepted).safe (validateUpload_accepted accepted).1) step) pipeFree

theorem NamesStored.sameRows {db listed : Database} (stored : NamesStored db) (same : SameRows db listed) :
    NamesStored listed :=
  ⟨fun record member => stored.normalized record (same.entities.mem_iff.mp member),
    fun record member => stored.present record (same.entities.mem_iff.mp member)⟩

theorem validated_again {before registered after listed : Database} {request : UploadRequest} {later : Date}
    (committed : Committed (request.validated before) before registered after) (invariant : OwnershipInvariant before)
    (accepted : (request.validated before).errors = []) (free : PipeFree (request.validated before))
    (same : SameRows after listed) (day : LaterDay request.today later) :
    ({ request with today := later } : UploadRequest).validated listed = request.validated before := by
  obtain ⟨consistent, checked⟩ := validateUpload_accepted accepted
  have storable := (validateUpload_storable accepted).1
  obtain ⟨_, ⟨entities, ownership, filings, sheets, rows⟩, _⟩ := validateUpload_accepted_iff.mp ⟨rfl, accepted⟩
  refine (validateUpload_accepted_iff.mpr ⟨accepted, ⟨entities, ownership, filings, sheets, ?_⟩, ?_, ?_⟩).1
  · exact ⟨validateEntitiesSheet_later day rows.entityRows, rows.ownershipRows, validateFilingsSheet_later day rows.filingRows⟩
  · exact committed.businessIds_again invariant.normalized storable same
  · exact committed.graph_again invariant consistent (free.safe consistent) checked same

/-- Over names without `|`, an upload that was accepted and written is accepted
again on every later day up to the end of the year 9999, in whatever order the
tables list their rows, and writing it again changes no record and adds none. -/
theorem reupload_idempotent {trace : List (Database × UploadRequest)} {before : Database}
    (run : Run uploadStep Database.initial trace before)
    (pipeFree : ∀ entry ∈ trace, (entry.2.validated entry.1).errors = [] → PipeFree (entry.2.validated entry.1))
    {request : UploadRequest} (accepted : (request.validated before).errors = [])
    (free : PipeFree (request.validated before)) {after : Database} {result : UploadBatchResult}
    (committed :
      processUploadTransaction request.limits.uploadBatchChunkSize (request.validated before) before = .ok (after, result) ∨
      writeUploadBatch (toUploadBatchRows (request.validated before)) request.limits.uploadBatchChunkSize before =
        .ok (after, result))
    {listed : Database} (same : SameRows after listed) {later : Date} (day : LaterDay request.today later) :
    let again : UploadRequest := { request with today := later }
    (again.validated listed).errors = [] ∧ ∃ rewritten counts,
      processUploadTransaction again.limits.uploadBatchChunkSize (again.validated listed) listed = .ok (rewritten, counts) ∧
      writeUploadBatch (toUploadBatchRows (again.validated listed)) again.limits.uploadBatchChunkSize listed =
        .ok (rewritten, counts) ∧ Unchanged listed rewritten := by
  have invariant := OwnershipInvariant.reachable run pipeFree
  have stored := NamesStored.reachable run
  have positive := request.limits.chunkSizePositive
  rw [writeUploadBatch_eq invariant.normalized positive, or_self] at committed
  obtain ⟨registered, effect⟩ := processUploadTransaction_committed positive committed
  have storable := (validateUpload_storable accepted).1
  have present : NamesStored after := by
    refine ⟨effect.namesNormalized invariant.normalized, fun record member => ?_⟩
    rw [effect.entities] at member
    obtain ⟨old, inside, rfl⟩ := List.mem_map.mp member
    rw [rewire_entityName]
    rcases effect.rows.written old inside with ⟨row, listedRow, _, by_⟩ | ⟨earlier, _⟩
    · rw [by_.entityName]
      exact (storable.entityRows row listedRow).entityName
    · exact stored.present old earlier
  have listedNames := present.sameRows same
  have revalidated := validated_again effect invariant accepted free same day
  have fit := AcceptedUpload.entityRowsFit storable listedNames (effect.businessIds_again invariant.normalized storable same)
  obtain ⟨rewritten, counts, written, unchanged⟩ :=
    write_again positive storable invariant.normalized committed same listedNames fit
  intro again
  rw [revalidated]
  refine ⟨accepted, rewritten, counts, written, ?_, unchanged⟩
  rw [writeUploadBatch_eq listedNames.normalized positive]
  exact written

omit [Platform] in
/-- One entity with a formation date and one filing, on the first day of 2024. -/
def foundedRequest : UploadRequest where
  limits := .default
  today := Date.utc 2024 0 1
  files := {
    entities := csvFile .entities
      [["Acme", "Entity", "US", "Corporation", "Active", "", "", "2020-01-01", "", ""]]
    ownership := csvFile .ownership []
    filings := csvFile .filings [["Acme", "Annual Report", "US", "SEC", "2024-03-31", "", "Not Started"]] }

omit [Platform] in
/-- From the year 10000 on the text of a day starts with a sign, so that every
date of a file counts as a future one. -/
theorem year_10000_rejects : ¬ ∀ [Platform] (trace : List (Database × UploadRequest)) (before after : Database)
    (request : UploadRequest) (later : Date) (result : UploadBatchResult),
    Run uploadStep Database.initial trace before →
    (∀ entry ∈ trace, (entry.2.validated entry.1).errors = [] → PipeFree (entry.2.validated entry.1)) →
    (request.validated before).errors = [] → PipeFree (request.validated before) →
    processUploadTransaction request.limits.uploadBatchChunkSize (request.validated before) before = .ok (after, result) →
    request.today.time ≤ later.time → (({ request with today := later } : UploadRequest).validated after).errors = [] := by
  intro claimed
  have facts : letI := asciiPlatform
      let upload := foundedRequest.validated Database.initial
      let written := processUpload foundedRequest.limits foundedRequest.today foundedRequest.files Database.initial
      let again : UploadRequest := { foundedRequest with today := Date.utc 10000 0 1 }
      upload.errors = [] ∧ PipeFree upload ∧ written.2 = .created ⟨1, 0, 1⟩ ∧
        foundedRequest.today.time ≤ again.today.time ∧ (again.validated written.1).errors ≠ [] := by
    decide +kernel
  let _ := asciiPlatform
  obtain ⟨accepted, free, created, later, rejected⟩ := facts
  exact rejected (claimed [] _ _ foundedRequest _ _ .start (fun _ none => nomatch none) accepted free
    (processUpload_transaction created) later)

omit [Platform] in
/-- Two owners of an entity with a business id, an FQ and a filing. -/
def groupRequest : UploadRequest where
  limits := ⟨50000, 2, by decide⟩
  today := Date.utc 2024 0 1
  files := {
    entities := csvFile .entities [
      ["Acme", "Entity", "US", "Corporation", "Active", "", "", "2020-01-01", "AC-1", ""],
      ["Crown", "Entity", "US", "Trust", "Active", "2021-06-30", "", "", "", ""],
      ["Beta", "Entity", "US", "Corporation", "Active", "", "", "", "BE-2", ""],
      ["Beta FQ", "FQ", "US", "Corporation", "Active", "", "Beta", "", "", ""]]
    ownership := csvFile .ownership [["Acme", "Beta", "60"], ["Crown", "Beta", "40"]]
    filings := csvFile .filings [["Beta", "Annual Report", "US", "SEC", "2024-03-31", "2023-12-01", "Filed"]] }

omit [Platform] in
/-- After an upload of Acme alone, to tables that are listed from their ends on the
last day. -/
theorem group_idempotent :
    letI := asciiPlatform
    let before := (processUpload foundedRequest.limits foundedRequest.today foundedRequest.files Database.initial).1
    let after := (processUpload groupRequest.limits groupRequest.today groupRequest.files before).1
    let again : UploadRequest := { groupRequest with today := Date.utc 9999 11 31 }
    (again.validated after.reversed).errors = [] ∧ ∃ rewritten counts,
      processUploadTransaction again.limits.uploadBatchChunkSize (again.validated after.reversed) after.reversed =
        .ok (rewritten, counts) ∧
      writeUploadBatch (toUploadBatchRows (again.validated after.reversed)) again.limits.uploadBatchChunkSize
        after.reversed = .ok (rewritten, counts) ∧ Unchanged after.reversed rewritten := by
  have first : letI := asciiPlatform
      PipeFree (foundedRequest.validated Database.initial) := by
    decide +kernel
  have facts : letI := asciiPlatform
      let before := (processUpload foundedRequest.limits foundedRequest.today foundedRequest.files Database.initial).1
      let upload := groupRequest.validated before
      upload.errors = [] ∧ PipeFree upload ∧
        (processUpload groupRequest.limits groupRequest.today groupRequest.files before).2 = .created ⟨4, 2, 1⟩ := by
    decide +kernel
  let _ := asciiPlatform
  obtain ⟨accepted, free, created⟩ := facts
  have pipeFree : ∀ entry ∈ [(Database.initial, foundedRequest)],
      (entry.2.validated entry.1).errors = [] → PipeFree (entry.2.validated entry.1) := by
    intro entry member _
    rw [List.mem_singleton.mp member]
    exact first
  exact reupload_idempotent (.next .start rfl) pipeFree accepted free (.inl (processUpload_transaction created))
    (.reversed _) ⟨by decide, by decide⟩

end Coverpin.Upload
