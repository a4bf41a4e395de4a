import Coverpin.Validation.DateTexts
import Coverpin.Validation.ValidationService

namespace Coverpin.Validation

open Coverpin.Data Coverpin.Parsing

/-! # What is known of the rows of an accepted upload

Row by row: the values that the columns of the tables accept.  Across rows: the
names, business ids and pairs that occur once, and the names that are registered
in the same upload.
-/

/-- The text of the date is read back as the date. -/
def ReadsBack (date : Date) : Prop :=
  parseDate (toDateOnlyString date) = some date

theorem readsBack_of_optionalDate {raw : String} {date : Date} (parsed : optionalDate raw = some date) :
    ReadsBack date := by
  unfold optionalDate at parsed
  split at parsed
  · cases parsed
  · exact parseDate_toDateOnlyString parsed

theorem not_isBlank_of_requiredErrors {file column value : String} {line : Nat}
    (accepted : requiredErrors file line column value = []) : isBlank value = false := by
  apply Bool.eq_false_iff.mpr
  intro blank
  simp [requiredErrors, blank] at accepted

variable [Platform]

namespace Entities

structure StorableRow (row : ParsedEntityRow) : Prop where
  entityName : row.entityName ≠ ""
  registrationType : row.registrationType ∈ REGISTRATION_TYPES
  entityType : row.entityType ∈ ENTITY_TYPES
  entityStatus : row.entityStatus ∈ ENTITY_STATUSES
  statusDate : ∀ date ∈ row.statusDate, ReadsBack date
  formationDate : ∀ date ∈ row.formationDate, ReadsBack date
  globalRegion : ∀ region ∈ row.globalRegion, region ∈ GLOBAL_REGIONS

theorem rowErrors_storable {header : List String} {today : Date} {row : ParsedRow}
    (accepted : rowErrors header today row = []) : StorableRow (candidateRow header row) := by
  simp only [rowErrors, List.append_eq_nil_iff] at accepted
  obtain ⟨⟨⟨⟨⟨⟨⟨⟨name, type⟩, _⟩, entityType⟩, entityStatus⟩, _⟩, _⟩, _⟩, region⟩ := accepted
  have present := not_isBlank_of_requiredErrors name
  constructor <;> simp only [candidateRow, Option.mem_def]
  · intro empty
    have blank : isBlank "" = true := by decide
    rw [empty, blank] at present
    cases present
  · exact (requiredOneOfErrors_accepted type).2
  · exact (requiredOneOfErrors_accepted entityType).2
  · exact (requiredOneOfErrors_accepted entityStatus).2
  · exact fun date parsed => readsBack_of_optionalDate parsed
  · exact fun date parsed => readsBack_of_optionalDate parsed
  · intro value written
    unfold nonBlank at written
    split at written
    · cases written
    · rename_i notBlank
      cases written
      simpa [globalRegionErrors, notBlank] using region

theorem validateEntitiesSheet_eq_nil {sheet : ParsedSheet} {today : Date} :
    (validateEntitiesSheet sheet today).1 = [] ↔ checkHeaderSchema .entities sheet.header = [] ∧
      (∀ row ∈ sheet.rows, rowErrors sheet.header today row = []) ∧
      duplicateNameErrors (sheet.rows.map (candidateRow sheet.header)) = [] ∧
      duplicateBusinessIdErrors (sheet.rows.map (candidateRow sheet.header)) = [] ∧
      domesticReferenceErrors (sheet.rows.map (candidateRow sheet.header)) = [] := by
  by_cases complete : checkHeaderSchema .entities sheet.header = []
  · simp only [validateEntitiesSheet, complete, ne_eq, not_true_eq_false, if_false, List.append_eq_nil_iff,
      List.flatMap_eq_nil_iff, true_and, and_assoc]
  · simp [validateEntitiesSheet, complete]

omit [Platform] in
theorem businessIds_distinct {rows : List ParsedEntityRow} (accepted : duplicateBusinessIdErrors rows = []) :
    (rows.filterMap ParsedEntityRow.businessId).Nodup := by
  have distinct := InsertionMap.groupBy_reports_eq_nil.mp accepted
  rw [List.map_filterMap] at distinct
  simpa [Option.map_map, Function.comp_def] using distinct

end Entities

namespace Ownership

structure StorableRow (row : ParsedOwnershipRow) : Prop where
  positive : 0 < row.ownershipPct
  atMost : row.ownershipPct ≤ 100 * 100
  apart : normalizeName row.parentEntity ≠ normalizeName row.childEntity

variable {header : List String} {entityTypeByName : InsertionMap String String}

theorem endErrors_present {line : Nat} {column fqRule value : String}
    (accepted : endErrors entityTypeByName line column fqRule value = []) : isBlank value = false := by
  apply Bool.eq_false_iff.mpr
  intro blank
  simp [endErrors, blank] at accepted

omit [Platform] in
theorem pctErrors_accepted {line : Nat} {pctRaw : String} (accepted : pctErrors line pctRaw = []) :
    0 < (parsePct pctRaw).getD 0 ∧ (parsePct pctRaw).getD 0 ≤ 100 * 100 := by
  unfold pctErrors at accepted
  split at accepted
  · cases accepted
  · cases parsed : parsePct pctRaw with
    | none => simp [parsed] at accepted
    | some ownershipPct =>
        simp only [parsed] at accepted
        split at accepted
        · rename_i bounds
          exact bounds
        · cases accepted

theorem rowErrors_storable {row : ParsedRow} (accepted : rowErrors header entityTypeByName row = []) :
    StorableRow (candidateRow header row) := by
  simp only [rowErrors, List.append_eq_nil_iff] at accepted
  obtain ⟨⟨⟨parent, child⟩, apart⟩, pct⟩ := accepted
  obtain ⟨positive, atMost⟩ := pctErrors_accepted pct
  constructor <;> simp only [candidateRow]
  · exact positive
  · exact atMost
  · intro same
    simp [selfEdgeErrors, endErrors_present parent, endErrors_present child, same] at apart

theorem rowErrors_present {row : ParsedRow} (accepted : rowErrors header entityTypeByName row = []) :
    isBlank (candidateRow header row).parentEntity = false ∧ isBlank (candidateRow header row).childEntity = false := by
  simp only [rowErrors, List.append_eq_nil_iff] at accepted
  simp only [candidateRow]
  exact ⟨endErrors_present accepted.1.1.1, endErrors_present accepted.1.1.2⟩

theorem acceptedOwnership {sheet : ParsedSheet} (accepted : (validateOwnershipSheet sheet entityTypeByName).1 = []) :
    (∀ row ∈ (validateOwnershipSheet sheet entityTypeByName).2, StorableRow row) ∧
    ((validateOwnershipSheet sheet entityTypeByName).2.map fun row =>
      edgeKey row.parentEntity row.childEntity).Nodup := by
  by_cases complete : checkHeaderSchema .ownership sheet.header = []
  · simp only [validateOwnershipSheet, complete, ne_eq, not_true_eq_false, if_false] at accepted ⊢
    have parts := accepted
    simp only [List.append_eq_nil_iff, List.flatMap_eq_nil_iff] at parts
    obtain ⟨rowsOk, pairsOk⟩ := parts
    let checked := sheet.rows.map fun row =>
      (candidateRow sheet.header row, decide (rowErrors sheet.header entityTypeByName row ≠ []))
    have firsts : checked.map Prod.fst = sheet.rows.map (candidateRow sheet.header) := by
      rw [List.map_map]
      rfl
    have kept : (checked.filter fun entry => !entry.2 && !([] : List Nat).contains entry.1.line).map Prod.fst =
        sheet.rows.map (candidateRow sheet.header) := by
      rw [← firsts, List.filter_eq_self.mpr]
      intro entry member
      obtain ⟨row, inside, rfl⟩ := List.mem_map.mp member
      simp [rowsOk row inside]
    have storable : ∀ row ∈ sheet.rows.map (candidateRow sheet.header), StorableRow row := by
      intro row member
      obtain ⟨source, inside, rfl⟩ := List.mem_map.mp member
      exact rowErrors_storable (rowsOk source inside)
    have all : (checked.map Prod.fst).filter (fun row => !isBlank row.parentEntity && !isBlank row.childEntity &&
        normalizeName row.parentEntity != normalizeName row.childEntity) = sheet.rows.map (candidateRow sheet.header) := by
      rw [firsts, List.filter_eq_self]
      intro row member
      obtain ⟨source, inside, rfl⟩ := List.mem_map.mp member
      obtain ⟨parent, child⟩ := rowErrors_present (rowsOk source inside)
      have apart := (rowErrors_storable (rowsOk source inside)).apart
      simp [parent, child, apart]
    have distinct := InsertionMap.groupBy_reports_eq_nil.mp pairsOk
    rw [all] at distinct
    rw [accepted]
    change (∀ row ∈ (checked.filter fun entry => !entry.2 && !([] : List Nat).contains entry.1.line).map Prod.fst, _) ∧
      (((checked.filter fun entry => !entry.2 && !([] : List Nat).contains entry.1.line).map Prod.fst).map _).Nodup
    rw [kept]
    exact ⟨storable, distinct⟩
  · simp [validateOwnershipSheet, complete] at accepted

end Ownership

namespace Filings

structure StorableRow (row : ParsedFilingRow) : Prop where
  filingType : row.filingType ∈ FILING_TYPES
  dueDate : ReadsBack row.dueDate
  filedDate : ∀ date ∈ row.filedDate, ReadsBack date
  status : row.status ∈ FILING_STATUSES

variable {sheet : ParsedSheet} {entityJurisdictionByName : InsertionMap String String} {today : Date}

theorem rowErrors_storable {header : List String} {source : ParsedRow} {row : ParsedFilingRow}
    (accepted : rowErrors header entityJurisdictionByName today source = [])
    (parsed : (candidateRow header entityJurisdictionByName today source).parsed = some row) : StorableRow row := by
  simp only [rowErrors, List.append_eq_nil_iff] at accepted
  obtain ⟨⟨⟨⟨_, filingType⟩, _⟩, _⟩, status⟩ := accepted.1
  simp only [CandidateRow.parsed, candidateRow, Option.map_eq_some_iff] at parsed
  obtain ⟨dueDate, due, rfl⟩ := parsed
  constructor <;> simp only [Option.mem_def]
  · exact (Entities.requiredOneOfErrors_accepted filingType).2
  · exact readsBack_of_optionalDate due
  · exact fun date filed => readsBack_of_optionalDate filed
  · exact (Entities.requiredOneOfErrors_accepted status).2

theorem rowErrors_registered {header : List String} {source : ParsedRow} {row : ParsedFilingRow}
    (accepted : rowErrors header entityJurisdictionByName today source = [])
    (parsed : (candidateRow header entityJurisdictionByName today source).parsed = some row) :
    (entityJurisdictionByName.get? (normalizeName row.entityName)).isSome = true := by
  have name := (rowErrors_accepted accepted).1
  simp only [rowErrors, List.append_eq_nil_iff] at accepted
  have registered := accepted.1.1.1.1.1
  simp only [CandidateRow.parsed, candidateRow, Option.map_eq_some_iff] at parsed
  obtain ⟨dueDate, _, rfl⟩ := parsed
  simp only
  rw [← Option.not_isNone, Bool.not_eq_true']
  apply Bool.eq_false_iff.mpr
  intro unknown
  simp [entityNameErrors, name, unknown] at registered

theorem validateFilingsSheet_eq_nil : (validateFilingsSheet sheet entityJurisdictionByName today).1 = [] ↔
    checkHeaderSchema .filings sheet.header = [] ∧
      (∀ row ∈ sheet.rows, rowErrors sheet.header entityJurisdictionByName today row = []) ∧
      duplicateErrors (sheet.rows.map (candidateRow sheet.header entityJurisdictionByName today)) = [] := by
  by_cases complete : checkHeaderSchema .filings sheet.header = []
  · simp only [validateFilingsSheet, complete, ne_eq, not_true_eq_false, if_false, List.append_eq_nil_iff,
      List.flatMap_eq_nil_iff, true_and]
  · simp [validateFilingsSheet, complete]

theorem acceptedFilings (accepted : (validateFilingsSheet sheet entityJurisdictionByName today).1 = [])
    {row : ParsedFilingRow} (member : row ∈ (validateFilingsSheet sheet entityJurisdictionByName today).2) :
    StorableRow row ∧ (entityJurisdictionByName.get? (normalizeName row.entityName)).isSome = true := by
  obtain ⟨rowsOk, _, returned⟩ := validateFilingsSheet_accepted accepted
  rw [returned] at member
  obtain ⟨candidate, inside, parsed⟩ := List.mem_filterMap.mp member
  obtain ⟨source, listed, rfl⟩ := List.mem_map.mp inside
  exact ⟨rowErrors_storable (rowsOk source listed) parsed, rowErrors_registered (rowsOk source listed) parsed⟩

end Filings

section Upload

open Entities Ownership Filings Coverpin.Validation.Graph

variable {db : Database} {today : Date} {maxRows : Nat} {files : UploadFiles}

/-- The sheets that the three files are read as. -/
structure Sheets (maxRows : Nat) (files : UploadFiles) (entities ownership filings : ParsedSheet) : Prop where
  entities : parseSlot maxRows files.entities .entities = .ok entities
  ownership : parseSlot maxRows files.ownership .ownership = .ok ownership
  filings : parseSlot maxRows files.filings .filings = .ok filings

/-- What the sheet validators make of the sheets, without the database. -/
structure Checked (today : Date) (entities ownership filings : ParsedSheet) (upload : ValidatedUpload) : Prop where
  entityRows : validateEntitiesSheet entities today = ([], upload.entityRows)
  ownershipRows : validateOwnershipSheet ownership (entityTypeByName upload.entityRows) = ([], upload.ownershipRows)
  filingRows : validateFilingsSheet filings (entityJurisdictionByName upload.entityRows) today = ([], upload.filingRows)

/-- An upload is accepted when the files are readable, each sheet is accepted and
neither check against the database reports anything. -/
theorem validateUpload_accepted_iff {upload : ValidatedUpload} :
    validateUpload db today maxRows files = upload ∧ upload.errors = [] ↔
      upload.errors = [] ∧ (∃ entities ownership filings, Sheets maxRows files entities ownership filings ∧
        Checked today entities ownership filings upload) ∧
      validateBusinessIdsAgainstDb db upload.entityRows = [] ∧
      validateOwnershipGraph upload.ownershipRows (loadExistingEdges db) = [] := by
  constructor
  · intro validated
    obtain ⟨rfl, accepted⟩ := validated
    have silent := sortErrors_eq_nil.mp accepted
    refine ⟨accepted, ?_⟩
    simp only [List.append_eq_nil_iff] at silent
    obtain ⟨⟨⟨⟨⟨⟨⟨entitiesParsed, ownershipParsed⟩, filingsParsed⟩, entities⟩, businessIds⟩, ownership⟩, graph⟩, filings⟩ :=
      silent
    obtain ⟨_, entitiesSheet⟩ := parsed_of_silent entitiesParsed
    obtain ⟨_, ownershipSheet⟩ := parsed_of_silent ownershipParsed
    obtain ⟨_, filingsSheet⟩ := parsed_of_silent filingsParsed
    refine ⟨⟨_, _, _, ⟨entitiesSheet, ownershipSheet, filingsSheet⟩, ?_⟩, businessIds, graph⟩
    simp only [entitiesSheet, ownershipSheet, filingsSheet] at entities ownership filings
    simp only [validateUpload, entitiesSheet, ownershipSheet, filingsSheet, onSheet]
    exact ⟨Prod.ext entities rfl, Prod.ext ownership rfl, Prod.ext filings rfl⟩
  · intro parts
    obtain ⟨none, ⟨entities, ownership, filings, sheets, checked⟩, businessIds, graph⟩ := parts
    refine ⟨?_, none⟩
    obtain ⟨errors, entityRows, ownershipRows, filingRows⟩ := upload
    cases none
    simp only [validateUpload, sheets.entities, sheets.ownership, sheets.filings, onSheet, structuralErrors,
      checked.entityRows, checked.ownershipRows, checked.filingRows]
    simp only at businessIds graph
    rw [businessIds, graph]
    rfl

/-- The rows of an upload can be stored, as far as the upload alone decides it. -/
structure AcceptedUpload (upload : ValidatedUpload) : Prop where
  entityNames : (upload.entityRows.map fun row => normalizeName row.entityName).Nodup
  entityRows : ∀ row ∈ upload.entityRows, Entities.StorableRow row
  businessIds : (upload.entityRows.filterMap ParsedEntityRow.businessId).Nodup
  ownershipRows : ∀ row ∈ upload.ownershipRows, Ownership.StorableRow row
  pairs : (upload.ownershipRows.map fun row => edgeKey row.parentEntity row.childEntity).Nodup
  ends : ∀ row ∈ upload.ownershipRows, ∀ name ∈ [row.parentEntity, row.childEntity],
    ∃ entity ∈ upload.entityRows, normalizeName entity.entityName = normalizeName name
  filingRows : ∀ row ∈ upload.filingRows, Filings.StorableRow row
  registered : ∀ row ∈ upload.filingRows, ∃ entity ∈ upload.entityRows,
    normalizeName entity.entityName = normalizeName row.entityName

theorem validateUpload_storable (accepted : (validateUpload db today maxRows files).errors = []) :
    AcceptedUpload (validateUpload db today maxRows files) ∧
    validateBusinessIdsAgainstDb db (validateUpload db today maxRows files).entityRows = [] := by
  obtain ⟨consistent, _⟩ := validateUpload_accepted accepted
  generalize same : validateUpload db today maxRows files = upload at accepted consistent
  obtain ⟨_, ⟨entities, ownership, filings, _, checked⟩, businessIds, _⟩ := validateUpload_accepted_iff.mp ⟨same, accepted⟩
  obtain ⟨entityRows, ownershipRows, filingRows⟩ := checked
  have entityErrors : (validateEntitiesSheet entities today).1 = [] := by rw [entityRows]
  obtain ⟨rowsOk, _, _, returned⟩ := validateEntitiesSheet_accepted entityErrors
  obtain ⟨_, _, _, idsOk, _⟩ := validateEntitiesSheet_eq_nil.mp entityErrors
  rw [entityRows] at returned
  simp only at returned
  have ownershipOk := acceptedOwnership (by rw [ownershipRows] : (validateOwnershipSheet ownership _).1 = [])
  rw [ownershipRows] at ownershipOk
  have filingsOk : ∀ row ∈ upload.filingRows, Filings.StorableRow row ∧
      ((entityJurisdictionByName upload.entityRows).get? (normalizeName row.entityName)).isSome = true := by
    intro row member
    refine acceptedFilings (by rw [filingRows] : (validateFilingsSheet filings _ today).1 = []) ?_
    rw [filingRows]
    exact member
  refine ⟨?_, businessIds⟩
  exact {
    entityNames := consistent.entities.names
    entityRows := by
      rw [returned]
      intro row member
      obtain ⟨source, inside, rfl⟩ := List.mem_map.mp member
      exact Entities.rowErrors_storable (rowsOk source inside)
    businessIds := by
      rw [returned]
      exact businessIds_distinct idsOk
    ownershipRows := ownershipOk.1
    pairs := ownershipOk.2
    ends := by
      intro row member name listed
      obtain ⟨parent, child⟩ := consistent.ends row member
      have named : NamesEntity (entityTypeByName upload.entityRows) name := by
        rcases List.mem_cons.mp listed with rfl | last
        · exact parent
        · rw [List.mem_singleton.mp last]
          exact child
      obtain ⟨entity, inside, same, _⟩ := named.row consistent.entities
      exact ⟨entity, inside, same⟩
    filingRows := fun row member => (filingsOk row member).1
    registered := by
      intro row member
      obtain ⟨jurisdiction, found⟩ := Option.isSome_iff_exists.mp (filingsOk row member).2
      obtain ⟨entity, inside, same⟩ := List.mem_map.mp (InsertionMap.mem_of_get?_ofPairs found)
      exact ⟨entity, inside, (Prod.mk.inj same).1⟩ }

/-- Nothing in it depends on the order of the rows. -/
theorem AcceptedUpload.perm {upload reordered : ValidatedUpload} (accepted : AcceptedUpload upload)
    (entities : reordered.entityRows.Perm upload.entityRows) (ownership : reordered.ownershipRows.Perm upload.ownershipRows)
    (filings : reordered.filingRows.Perm upload.filingRows) : AcceptedUpload reordered where
  entityNames := (entities.map _).nodup_iff.mpr accepted.entityNames
  entityRows row member := accepted.entityRows row (entities.mem_iff.mp member)
  businessIds := (entities.filterMap _).nodup_iff.mpr accepted.businessIds
  ownershipRows row member := accepted.ownershipRows row (ownership.mem_iff.mp member)
  pairs := (ownership.map _).nodup_iff.mpr accepted.pairs
  ends row member name listed := by
    obtain ⟨entity, inside, same⟩ := accepted.ends row (ownership.mem_iff.mp member) name listed
    exact ⟨entity, entities.mem_iff.mpr inside, same⟩
  filingRows row member := accepted.filingRows row (filings.mem_iff.mp member)
  registered row member := by
    obtain ⟨entity, inside, same⟩ := accepted.registered row (filings.mem_iff.mp member)
    exact ⟨entity, entities.mem_iff.mpr inside, same⟩

end Upload

end Coverpin.Validation
