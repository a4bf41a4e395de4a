import Coverpin.Data.Rearranged
import Coverpin.Upload.ChunkSizes
import Coverpin.Upload.CommitLog
import Coverpin.Upload.UploadRules

namespace Coverpin.Upload

open Coverpin.Data Coverpin.Database Coverpin.Parsing Coverpin.Validation Coverpin.Validation.Entities
  Coverpin.Validation.Filings Coverpin.Validation.Ownership

/-! # The layout of the files

None of the rules looks at the order in which the rows of a file stand, an FQ may
come before its domestic entity and a child before its parent; and cells are found
by the names of their columns.  Nor does what is stored depend on any of this, as
long as no filing is in the file twice.
-/

/-- The same text in each column that the slot requires. -/
def SameFields (slot : UploadSlot) (sheet other : ParsedSheet) (row moved : ParsedRow) : Prop :=
  ∀ column ∈ (SLOT_SCHEMAS slot).requiredColumns,
    get other.header moved.cells column = get sheet.header row.cells column

instance (slot : UploadSlot) (sheet other : ParsedSheet) (row moved : ParsedRow) :
    Decidable (SameFields slot sheet other row moved) :=
  inferInstanceAs (Decidable (∀ column ∈ (SLOT_SCHEMAS slot).requiredColumns, _))

/-- The same table in another layout: rows moved, columns moved, others added. -/
structure SameTable (slot : UploadSlot) (sheet other : ParsedSheet) : Prop where
  columns : HasColumns slot other ↔ HasColumns slot sheet
  rows : Rearranged (SameFields slot sheet other) sheet.rows other.rows

theorem SameTable.symm {slot : UploadSlot} {sheet other : ParsedSheet} (same : SameTable slot sheet other) :
    SameTable slot other sheet := by
  refine ⟨same.columns.symm, ?_⟩
  obtain ⟨ordered, perm, related⟩ := same.rows.symm
  exact ⟨ordered, perm, related.imp fun _ _ fields column required => (fields column required).symm⟩

variable [Platform]

section Rules

variable {db : Database} {today : Date} {entities ownership filings entities' ownership' filings' : ParsedSheet}

section Entities

variable (same : SameTable .entities entities entities')

include same

theorem entityRules_layout (rules : Entities.SheetRules today entities) : Entities.SheetRules today entities' where
  fields := by
    refine same.rows.forall_related (fun row moved reads fields => ?_) rules.fields
    obtain ⟨name, type, jurisdiction, entityType, status, statusDate, domestic, formation, _, region, _⟩ := by
      simpa only [SameFields, SLOT_SCHEMAS, List.forall_mem_cons] using reads
    constructor <;> simp only [name, type, jurisdiction, entityType, status, statusDate, domestic, formation, region]
    · exact fields.entityName
    · exact fields.registrationType
    · exact fields.jurisdiction
    · exact fields.entityType
    · exact fields.entityStatus
    · exact fields.statusDate
    · exact fields.terminal
    · exact fields.domesticPresent
    · exact fields.domesticAbsent
    · exact fields.formationDate
    · exact fields.globalRegion
  names := (same.rows.map fun row moved reads => by rw [reads "Entity Name" (by decide)]).nodup_iff.mpr rules.names
  businessIds := ((same.rows.map fun row moved reads => reads "Entity/Business ID" (by decide)).filter _).nodup_iff.mpr
    rules.businessIds
  domestic := by
    refine same.rows.forall_related (fun row moved reads domestic fq => ?_) rules.domestic
    rw [reads "Registration Type" (by decide)] at fq
    obtain ⟨other, inside, type, name⟩ := domestic fq
    obtain ⟨otherMoved, listed, otherReads⟩ := same.rows.exists_related inside
    refine ⟨otherMoved, listed, (otherReads _ (by decide)).trans type, ?_⟩
    rw [otherReads "Entity Name" (by decide), reads "Domestic Entity" (by decide), name]

theorem ownerNamed_layout {name : String} (named : OwnerNamed entities name) : OwnerNamed entities' name := by
  obtain ⟨row, member, type, rfl⟩ := named
  obtain ⟨moved, inside, reads⟩ := same.rows.exists_related member
  exact ⟨moved, inside, (reads _ (by decide)).trans type, congrArg normalizeName (reads _ (by decide))⟩

theorem registeredIn_layout {name jurisdiction : String} (registered : RegisteredIn entities name jurisdiction) :
    RegisteredIn entities' name jurisdiction := by
  obtain ⟨row, member, rfl, rfl⟩ := registered
  obtain ⟨moved, inside, reads⟩ := same.rows.exists_related member
  exact ⟨moved, inside, congrArg normalizeName (reads _ (by decide)), reads _ (by decide)⟩

end Entities

section Ownership

variable (same : SameTable .ownership ownership ownership')

include same

theorem ownershipRules_layout {named : String → Prop} (rules : Ownership.SheetRules named ownership) :
    Ownership.SheetRules named ownership' where
  fields := by
    refine same.rows.forall_related (fun row moved reads fields => ?_) rules.fields
    obtain ⟨parent, child, pct, _⟩ := by simpa only [SameFields, SLOT_SCHEMAS, List.forall_mem_cons] using reads
    constructor <;> simp only [parent, child, pct]
    · exact fields.parentPresent
    · exact fields.childPresent
    · exact fields.parentEntity
    · exact fields.childEntity
    · exact fields.apart
    · exact fields.ownershipPct
  pairs := (same.rows.map fun row moved reads => by
    rw [reads "Parent Entity" (by decide), reads "Child Entity" (by decide)]).nodup_iff.mpr rules.pairs

theorem uploads_layout {parent child : String} (uploaded : ∃ row ∈ ownership.rows, Uploads ownership row parent child) :
    ∃ row ∈ ownership'.rows, Uploads ownership' row parent child := by
  obtain ⟨row, member, rfl, rfl⟩ := uploaded
  obtain ⟨moved, inside, reads⟩ := same.rows.exists_related member
  exact ⟨moved, inside, congrArg normalizeName (reads _ (by decide)), congrArg normalizeName (reads _ (by decide))⟩

theorem totalAfter_layout (child : String) : totalAfter ownership' db child = totalAfter ownership db child := by
  have untouched : ∀ edge, Untouched ownership' db edge ↔ Untouched ownership db edge := by
    intro edge
    have uploaded : ∀ parent child, (∃ row ∈ ownership'.rows, Uploads ownership' row parent child) ↔
        ∃ row ∈ ownership.rows, Uploads ownership row parent child :=
      fun _ _ => ⟨uploads_layout same.symm, uploads_layout same⟩
    have denied := not_congr (uploaded (normalizeName (nameOf db edge.parentEntityId))
      (normalizeName (nameOf db edge.childEntityId)))
    simpa only [not_exists, not_and, Untouched] using denied
  have rows : ((ownership'.rows.filter fun row =>
        normalizeName (get ownership'.header row.cells "Child Entity") = child).map fun row =>
          (Ownership.candidateRow ownership'.header row).ownershipPct).Perm
      ((ownership.rows.filter fun row => normalizeName (get ownership.header row.cells "Child Entity") = child).map
        fun row => (Ownership.candidateRow ownership.header row).ownershipPct) := by
    apply same.rows.filter_map
    · intro row moved reads
      rw [reads "Child Entity" (by decide)]
    · intro row moved reads
      simp only [Ownership.candidateRow, reads "Ownership %" (by decide)]
  rw [totalAfter, totalAfter, rows.sum_nat]
  simp only [untouched]

end Ownership

theorem filingRules_layout {registered : String → String → Prop} (same : SameTable .filings filings filings')
    (rules : Filings.SheetRules today registered filings) : Filings.SheetRules today registered filings' where
  fields := by
    refine same.rows.forall_related (fun row moved reads fields => ?_) rules.fields
    obtain ⟨name, type, jurisdiction, _, due, filed, status, _⟩ := by
      simpa only [SameFields, SLOT_SCHEMAS, List.forall_mem_cons] using reads
    constructor <;> simp only [name, type, jurisdiction, due, filed, status]
    · exact fields.entityName
    · exact fields.filingType
    · exact fields.jurisdiction
    · exact fields.registered
    · exact fields.dueDate
    · exact fields.status
    · exact fields.filedDate
    · exact fields.filed
  keys := (same.rows.map fun row moved reads => by
    rw [writtenKey, writtenKey, reads "Entity Name" (by decide), reads "Filing Type" (by decide),
      reads "Due Date" (by decide)]).nodup_iff.mpr rules.keys

theorem UploadRules.layout (sameEntities : SameTable .entities entities entities')
    (sameOwnership : SameTable .ownership ownership ownership') (sameFilings : SameTable .filings filings filings')
    (rules : UploadRules db today entities ownership filings) : UploadRules db today entities' ownership' filings' where
  entityColumns := sameEntities.columns.mpr rules.entityColumns
  ownershipColumns := sameOwnership.columns.mpr rules.ownershipColumns
  filingColumns := sameFilings.columns.mpr rules.filingColumns
  entityRows := entityRules_layout sameEntities rules.entityRows
  ownershipRows := (ownershipRules_layout sameOwnership rules.ownershipRows).imp fun _ => ownerNamed_layout sameEntities
  filingRows := (filingRules_layout sameFilings rules.filingRows).imp fun _ _ => registeredIn_layout sameEntities
  businessIds := by
    refine sameEntities.rows.forall_related (fun row moved reads owners => ?_) rules.businessIds
    rw [reads "Entity/Business ID" (by decide), reads "Entity Name" (by decide)]
    exact owners
  acyclic := rules.acyclic.mono fun _ _ owns => owns.imp_right (uploads_layout sameOwnership.symm)
  totals child := (totalAfter_layout sameOwnership child).symm ▸ rules.totals child

end Rules

/-- The same rows in each part, in any order. -/
structure SameRowsInBatch (rows others : UploadBatchRows) : Prop where
  entityRows : others.entityRows.Perm rows.entityRows
  ownershipRows : others.ownershipRows.Perm rows.ownershipRows
  filingRows : others.filingRows.Perm rows.filingRows

/-- Read by natural keys, the tables hold the same. -/
structure SameContents (db other : Database) : Prop where
  entities : ∀ key, (entitiesByName other).get? key = (entitiesByName db).get? key
  edges : ∀ key, (edgesByName other).get? key = (edgesByName db).get? key
  filings : ∀ key, (filingsByName other).get? key = (filingsByName db).get? key

section Contents

variable {upload other : ValidatedUpload} {before registered after registered' after' : Database}

theorem Committed.sameContents (committed : Committed upload before registered after)
    (recommitted : Committed other before registered' after') (normalized : NamesNormalized before)
    (consistent : ConsistentUpload upload) (accepted : AcceptedUpload upload) (otherConsistent : ConsistentUpload other)
    (otherAccepted : AcceptedUpload other) (keys : (upload.filingRows.map naturalKey).Nodup)
    (same : SameRowsInBatch (toUploadBatchRows upload) (toUploadBatchRows other)) : SameContents after after' where
  entities key := by
    have distinct : ((toUploadBatchRows upload).entityEntries.map Prod.fst).Nodup := by
      rw [UploadBatchRows.entityEntries, toUploadBatchRows, List.map_map, List.map_map]
      exact accepted.entityNames
    rw [committed.entitiesByName normalized consistent accepted,
      recommitted.entitiesByName normalized otherConsistent otherAccepted]
    exact InsertionMap.get?_setAll_perm distinct (same.entityRows.map _)
  edges key := by
    have distinct : ((toUploadBatchRows upload).edgeEntries.map Prod.fst).Nodup := by
      rw [UploadBatchRows.edgeEntries, toUploadBatchRows, List.map_map, List.map_map]
      refine List.pairwise_map.mpr ((List.pairwise_map.mp accepted.pairs).imp fun apart same => apart ?_)
      obtain ⟨parent, child⟩ := Prod.mk.inj same
      exact Graph.edgeKey_congr parent child
    rw [committed.edgesByName normalized consistent, recommitted.edgesByName normalized otherConsistent]
    exact InsertionMap.get?_setAll_perm distinct (same.ownershipRows.map _)
  filings key := by
    have distinct : ((toUploadBatchRows upload).filingEntries.map Prod.fst).Nodup := by
      rw [UploadBatchRows.filingEntries, toUploadBatchRows, List.map_map, List.map_map]
      exact keys
    rw [committed.filingsByName normalized accepted, recommitted.filingsByName normalized otherAccepted]
    exact InsertionMap.get?_setAll_perm distinct (same.filingRows.map _)

end Contents

section Batch

variable {db : Database} {today : Date} {entities ownership filings entities' ownership' filings' : ParsedSheet}

/-- Every filing row of the sheet is in the batch, as its cells say. -/
theorem ruled_filingRows (rules : UploadRules db today entities ownership filings) :
    (toUploadBatchRows (ruledUpload today entities ownership filings)).filingRows =
      (filings.rows.map fun row =>
        ((Filings.candidateRow filings.header .empty today row).parsed).map toUploadFilingRow).filterMap id := by
  have accepted := Filings.validateFilingsSheet_iff_rules.mpr ⟨rules.filingColumns,
    rules.filingRows.imp fun name jurisdiction => (registered_iff_registeredIn rules.entityRows name jurisdiction).mpr⟩
  obtain ⟨_, _, returned⟩ := Filings.validateFilingsSheet_accepted accepted
  simp only [toUploadBatchRows, ruledUpload]
  rw [returned, List.filterMap_map, List.map_filterMap, List.filterMap_map]
  refine List.filterMap_congr fun row _ => ?_
  simp only [Function.comp_apply, CandidateRow.parsed, Filings.candidateRow, Option.map_map]
  rfl

/-- The batch of the same tables in another layout is the batch with its rows moved. -/
theorem ruledUpload_layout (sameEntities : SameTable .entities entities entities')
    (sameOwnership : SameTable .ownership ownership ownership') (sameFilings : SameTable .filings filings filings')
    (rules : UploadRules db today entities ownership filings) :
    SameRowsInBatch (toUploadBatchRows (ruledUpload today entities ownership filings))
      (toUploadBatchRows (ruledUpload today entities' ownership' filings')) where
  entityRows := by
    simp only [toUploadBatchRows, ruledUpload, List.map_map]
    refine sameEntities.rows.map fun row moved reads => ?_
    obtain ⟨name, type, jurisdiction, entityType, status, statusDate, domestic, formation, id, region, _⟩ := by
      simpa only [SameFields, SLOT_SCHEMAS, List.forall_mem_cons] using reads
    simp only [Function.comp_apply, toUploadEntityRow, Entities.candidateRow, name, type, jurisdiction, entityType, status,
      statusDate, domestic, formation, id, region]
  ownershipRows := by
    simp only [toUploadBatchRows, ruledUpload, List.map_map]
    refine sameOwnership.rows.map fun row moved reads => ?_
    obtain ⟨parent, child, pct, _⟩ := by simpa only [SameFields, SLOT_SCHEMAS, List.forall_mem_cons] using reads
    simp only [Function.comp_apply, toUploadOwnershipRow, Ownership.candidateRow, parent, child, pct]
  filingRows := by
    rw [ruled_filingRows rules, ruled_filingRows (rules.layout sameEntities sameOwnership sameFilings)]
    refine (sameFilings.rows.map fun row moved reads => ?_).filterMap id
    obtain ⟨name, type, jurisdiction, authority, due, filed, status, _⟩ := by
      simpa only [SameFields, SLOT_SCHEMAS, List.forall_mem_cons] using reads
    simp only [CandidateRow.parsed, Filings.candidateRow, Option.map_map, name, type, jurisdiction, authority, due, filed,
      status]
    rfl

end Batch

omit [Platform] in
def ValidatedUpload.counts (upload : ValidatedUpload) : UploadBatchResult where
  entities := upload.entityRows.length
  ownershipEdges := upload.ownershipRows.length
  filings := upload.filingRows.length

omit [Platform] in
theorem SameRowsInBatch.counts {upload other : ValidatedUpload}
    (same : SameRowsInBatch (toUploadBatchRows upload) (toUploadBatchRows other)) :
    ValidatedUpload.counts other = ValidatedUpload.counts upload := by
  have entities := same.entityRows.length_eq
  have edges := same.ownershipRows.length_eq
  have filings := same.filingRows.length_eq
  simp only [toUploadBatchRows, List.length_map] at entities edges filings
  rw [ValidatedUpload.counts, ValidatedUpload.counts, entities, edges, filings]

theorem transaction_counts {chunkSize : Nat} {upload : ValidatedUpload} {db after : Database} {result : UploadBatchResult}
    (committed : processUploadTransaction chunkSize upload db = .ok (after, result)) :
    result = ValidatedUpload.counts upload := by
  obtain ⟨_, _, committed⟩ := bind_eq_ok.mp committed
  obtain ⟨_, _, committed⟩ := bind_eq_ok.mp committed
  obtain ⟨_, _, committed⟩ := bind_eq_ok.mp committed
  obtain ⟨_, _, committed⟩ := bind_eq_ok.mp committed
  cases committed
  rfl

/-- What is stored was accepted and committed, and counted as validated. -/
theorem committed_of_created {db after : Database} {request : UploadRequest} {result : UploadBatchResult}
    (created : processUpload request.limits request.today request.files db = (after, .created result)) :
    (request.validated db).errors = [] ∧ result = ValidatedUpload.counts (request.validated db) ∧
      ∃ registered, Committed (request.validated db) db registered after := by
  obtain ⟨accepted, committed⟩ := processUpload_created_iff.mp created
  obtain ⟨registered, effect⟩ := processUploadTransaction_committed request.limits.chunkSizePositive committed
  exact ⟨accepted, transaction_counts committed, registered, effect⟩

theorem exists_after {limits : Limits} {today : Date} {files : UploadFiles} {db : Database} {result : UploadBatchResult}
    (created : (processUpload limits today files db).2 = .created result) :
    ∃ after, processUpload limits today files db = (after, .created result) :=
  ⟨_, Prod.ext rfl created⟩

/-- Files that are read as the given sheets, and others that hold the same tables. -/
structure Relaid (maxRows : Nat) (files others : UploadFiles) (entities ownership filings : ParsedSheet) : Prop where
  sheets : Sheets maxRows files entities ownership filings
  others : ∃ entities' ownership' filings', Sheets maxRows others entities' ownership' filings' ∧
    SameTable .entities entities entities' ∧ SameTable .ownership ownership ownership' ∧
    SameTable .filings filings filings'

/-- After any uploads over names without `|`, moving the rows and columns of the next
one within its files and adding columns to them changes neither whether it is
accepted nor, if it has no filing twice and both are stored, what they store. -/
theorem layout_irrelevant {trace : List (Database × UploadRequest)} {db : Database}
    (run : Run uploadStep Database.initial trace db)
    (pipeFree : ∀ entry ∈ trace, (entry.2.validated entry.1).errors = [] → PipeFree (entry.2.validated entry.1))
    (request : UploadRequest) (files : UploadFiles) {entities ownership filings : ParsedSheet}
    (relaid : Relaid request.limits.maxUploadRowsPerFile request.files files entities ownership filings)
    (free : ∀ row ∈ entities.rows, '|' ∉ (get entities.header row.cells "Entity Name").toList) :
    let other : UploadRequest := { request with files }
    ((other.validated db).errors = [] ↔ (request.validated db).errors = []) ∧
    (((request.validated db).filingRows.map naturalKey).Nodup → ∀ after after' result counts,
      processUpload request.limits request.today request.files db = (after, .created result) →
      processUpload other.limits other.today other.files db = (after', .created counts) →
        result = counts ∧ SameContents after after') := by
  intro other
  have invariant := OwnershipInvariant.reachable run pipeFree
  have stored := NamesStored.reachable run
  obtain ⟨sheets, entities', ownership', filings', moved, sameEntities, sameOwnership, sameFilings⟩ := relaid
  have freeMoved : ∀ row ∈ entities'.rows, '|' ∉ (get entities'.header row.cells "Entity Name").toList := by
    refine sameEntities.rows.forall_related (fun row moved reads free => ?_) free
    rw [reads "Entity Name" (by decide)]
    exact free
  have rules : (request.validated db).errors = [] ↔ UploadRules db request.today entities ownership filings :=
    Sheets.accepted_iff sheets invariant stored free
  have movedRules : (other.validated db).errors = [] ↔ UploadRules db request.today entities' ownership' filings' :=
    Sheets.accepted_iff moved invariant stored freeMoved
  refine ⟨?_, fun keys after after' result counts created recreated => ?_⟩
  · refine movedRules.trans (Iff.trans ?_ rules.symm)
    exact ⟨fun ruled => ruled.layout sameEntities.symm sameOwnership.symm sameFilings.symm,
      fun ruled => ruled.layout sameEntities sameOwnership sameFilings⟩
  · obtain ⟨accepted, counted, registered, committed⟩ := committed_of_created created
    obtain ⟨movedAccepted, recounted, registered', recommitted⟩ := committed_of_created recreated
    have ruled := rules.mp accepted
    have upload := accepted_of_rules invariant stored free sheets ruled
    have movedUpload := accepted_of_rules invariant stored freeMoved moved
      (ruled.layout sameEntities sameOwnership sameFilings)
    have same : SameRowsInBatch (toUploadBatchRows (request.validated db)) (toUploadBatchRows (other.validated db)) := by
      rw [UploadRequest.validated, upload, UploadRequest.validated, movedUpload]
      exact ruledUpload_layout sameEntities sameOwnership sameFilings ruled
    have contents : SameContents after after' := by
      obtain ⟨consistent, _⟩ := validateUpload_accepted accepted
      obtain ⟨movedConsistent, _⟩ := validateUpload_accepted movedAccepted
      obtain ⟨storable, _⟩ := validateUpload_storable accepted
      obtain ⟨movedStorable, _⟩ := validateUpload_storable movedAccepted
      exact committed.sameContents recommitted stored.normalized consistent storable movedConsistent movedStorable keys same
    exact ⟨by rw [counted, recounted, same.counts], contents⟩

omit [Platform] in
/-- The owners of one child, in the columns of the schema. -/
def owners : ParsedSheet := slotSheet .ownership [
  { line := 2, cells := ["Acme", "Beta", "60"] }, { line := 3, cells := ["Crown", "Beta", "40"] }]

omit [Platform] in
/-- The same owners turned around, with a column that no check reads. -/
def relaidOwners : ParsedSheet where
  header := ["Notes", "Ownership %", "Child Entity", "Parent Entity"]
  rows := [{ line := 2, cells := ["", "40", "Beta", "Crown"] }, { line := 3, cells := ["main", "60", "Beta", "Acme"] }]

omit [Platform] in
def relaidFile : UploadedFile where
  originalname := "owners.csv"
  content := .matrix (relaidOwners.header :: relaidOwners.rows.map ParsedRow.cells)

omit [Platform] in
theorem owners_relaid : SameTable .ownership owners relaidOwners where
  columns := by decide
  rows := ⟨relaidOwners.rows.reverse, relaidOwners.rows.reverse_perm.symm,
    .cons (by decide) (.cons (by decide) .nil)⟩

omit [Platform] in
theorem relaid_stored : letI := asciiPlatform
    let request := ownershipRequest [("Acme", "Entity", ""), ("Beta", "Entity", ""), ("Crown", "Entity", "")]
      [("Acme", "Beta", "60"), ("Crown", "Beta", "40")]
    let files := { request.files with ownership := some relaidFile }
    let other : UploadRequest := { request with files }
    ((other.validated Database.initial).errors = [] ↔ (request.validated Database.initial).errors = []) ∧
    ∃ after after' result,
      processUpload request.limits request.today request.files Database.initial = (after, .created result) ∧
      processUpload other.limits other.today other.files Database.initial = (after', .created result) ∧
      SameContents after after' := by
  intro request files other
  have keys : letI := asciiPlatform
      ((request.validated Database.initial).filingRows.map naturalKey).Nodup := by
    decide +kernel
  have created : letI := asciiPlatform
      (processUpload request.limits request.today request.files Database.initial).2 = .created ⟨3, 2, 0⟩ := by
    decide +kernel
  have recreated : letI := asciiPlatform
      (processUpload other.limits other.today other.files Database.initial).2 = .created ⟨3, 2, 0⟩ := by
    decide +kernel
  let _ := asciiPlatform
  obtain ⟨after, created⟩ := exists_after created
  obtain ⟨after', recreated⟩ := exists_after recreated
  have sheets : Sheets request.limits.maxUploadRowsPerFile request.files _ owners (slotSheet .filings []) :=
    ownershipFiles_sheets (by decide) (by decide) (by decide)
  have read : parseSlot 50000 files.ownership .ownership = .ok relaidOwners := by decide +kernel
  have unmoved : ∀ slot sheet, SameTable slot sheet sheet := fun slot sheet =>
    ⟨Iff.rfl, .of_perm (.refl _) fun _ _ _ _ => rfl⟩
  have relaid := layout_irrelevant .start (List.forall_mem_nil _) request files
    ⟨sheets, _, _, _, ⟨sheets.entities, read, sheets.filings⟩, unmoved _ _, owners_relaid, unmoved _ _⟩ (by decide +kernel)
  exact ⟨relaid.1, after, after', _, created, recreated, (relaid.2 keys _ _ _ _ created recreated).2⟩

end Coverpin.Upload
