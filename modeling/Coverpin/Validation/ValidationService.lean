import Mathlib.Data.List.Sort
import Coverpin.Database.Statements
import Coverpin.Validation.GraphValidator

namespace Coverpin.Validation

open Coverpin.Data Coverpin.Database Coverpin.Parsing Coverpin.Validation.Entities
  Coverpin.Validation.Filings Coverpin.Validation.Graph Coverpin.Validation.Ownership

/-! # `ValidationService.validateUpload` -/

structure UploadFiles where
  entities : Option UploadedFile
  ownership : Option UploadedFile
  filings : Option UploadedFile
deriving DecidableEq, Repr

structure ValidatedUpload where
  errors : List ValidationError
  entityRows : List ParsedEntityRow
  ownershipRows : List ParsedOwnershipRow
  filingRows : List ParsedFilingRow
deriving DecidableEq, Repr

def FILE_ORDER : List String :=
  [(SLOT_SCHEMAS .entities).file, (SLOT_SCHEMAS .ownership).file, (SLOT_SCHEMAS .filings).file]

variable [Platform]

def rowLimitError (slotFile originalname : String) (rows maxRows : Nat) : ValidationError :=
  makeError slotFile 1 "File"
    s!"'{originalname}' has {rows} rows, which exceeds the {maxRows}-row limit per file."

def parseSlot (maxRows : Nat) (file : Option UploadedFile) (slot : UploadSlot) : Except ValidationError ParsedSheet :=
  let expected := SLOT_SCHEMAS slot
  match file with
  | none => .error (makeError expected.file 1 "File" "This file is required but was not uploaded.")
  | some file =>
      match parseSheetSync file expected.file with
      | .error failure => .error failure
      | .ok sheet =>
          if maxRows < sheet.rows.length then
            .error (rowLimitError expected.file file.originalname sheet.rows.length maxRows)
          else .ok sheet

omit [Platform] in
def structuralErrors (parsed : Except ValidationError ParsedSheet) : List ValidationError :=
  match parsed with
  | .error failure => [failure]
  | .ok _ => []

omit [Platform] in
theorem parsed_of_silent {parsed : Except ValidationError ParsedSheet} (silent : structuralErrors parsed = []) :
    ∃ sheet, parsed = .ok sheet := by
  cases parsed with
  | error failure => cases silent
  | ok sheet => exact ⟨sheet, rfl⟩

omit [Platform] in
/-- What a validator makes of a slot; without a sheet there is nothing to check. -/
def onSheet (parsed : Except ValidationError ParsedSheet)
    (validate : ParsedSheet → List ValidationError × List α) : List ValidationError × List α :=
  match parsed with
  | .error _ => ([], [])
  | .ok sheet => validate sheet

/-- The order of the reported errors; the sort is stable. -/
def errorLe (a b : ValidationError) : Bool :=
  let file := compare (FILE_ORDER.idxOf a.file) (FILE_ORDER.idxOf b.file)
  (file.then ((compare a.line b.line).then (Platform.localeCompare a.column b.column))) != .gt

def sortErrors (errors : List ValidationError) : List ValidationError :=
  errors.insertionSort fun a b => errorLe a b = true

omit [Platform] in
/-- The name of an entity that a foreign key refers to. -/
def nameOf (db : Database) (id : EntityId) : String :=
  ((db.entities.records.find? (·.id = id)).map EntityRecord.entityName).getD ""

omit [Platform] in
def loadExistingEdges (db : Database) : List ExistingEdge :=
  db.ownershipEdges.records.map fun edge => {
    parentName := nameOf db edge.parentEntityId
    childName := nameOf db edge.childEntityId
    pct := edge.ownershipPct }

/-- A Business ID must not belong to an entity of another name already. -/
def validateBusinessIdsAgainstDb (db : Database) (rows : List ParsedEntityRow) : List ValidationError :=
  let candidates := rows.filterMap fun row => row.businessId.map fun businessId => (row, businessId)
  let existing := db.entities.records.filter fun record =>
    record.businessId.any fun businessId => (candidates.map Prod.snd).contains businessId
  let ownerNameByBusinessId := InsertionMap.ofPairs
    (existing.filterMap fun record => record.businessId.map fun businessId => (businessId, record.entityName))
  candidates.filterMap fun (row, businessId) =>
    match ownerNameByBusinessId.get? businessId with
    | none => none
    | some owner =>
        if owner ≠ "" ∧ normalizeName owner ≠ normalizeName row.entityName then
          some (makeError "entities.csv" row.line "Entity/Business ID"
            s!"Entity/Business ID '{businessId}' is already used by a different entity ('{owner}').")
        else none

def entityTypeByName (entityRows : List ParsedEntityRow) : InsertionMap String String :=
  .ofPairs (entityRows.map fun row => (normalizeName row.entityName, row.registrationType))

def entityJurisdictionByName (entityRows : List ParsedEntityRow) : InsertionMap String String :=
  .ofPairs (entityRows.map fun row => (normalizeName row.entityName, row.jurisdiction))

/-- Validates the three files against each other and against the database. -/
def validateUpload (db : Database) (today : Date) (maxRows : Nat) (files : UploadFiles) : ValidatedUpload :=
  let entitiesSheet := parseSlot maxRows files.entities .entities
  let ownershipSheet := parseSlot maxRows files.ownership .ownership
  let filingsSheet := parseSlot maxRows files.filings .filings
  let (entityErrors, entityRows) := onSheet entitiesSheet fun sheet => validateEntitiesSheet sheet today
  let (ownershipErrors, ownershipRows) := onSheet ownershipSheet fun sheet =>
    validateOwnershipSheet sheet (entityTypeByName entityRows)
  let (filingErrors, filingRows) := onSheet filingsSheet fun sheet =>
    validateFilingsSheet sheet (entityJurisdictionByName entityRows) today
  let businessIdErrors := validateBusinessIdsAgainstDb db entityRows
  let graphErrors := validateOwnershipGraph ownershipRows (loadExistingEdges db)
  { errors := sortErrors (structuralErrors entitiesSheet ++ structuralErrors ownershipSheet ++
      structuralErrors filingsSheet ++ entityErrors ++ businessIdErrors ++ ownershipErrors ++ graphErrors ++
      filingErrors)
    entityRows, ownershipRows, filingRows }

/-- The rows of an upload agree with each other. -/
structure ConsistentUpload (upload : ValidatedUpload) : Prop where
  entities : AcceptedEntities upload.entityRows
  ends : ∀ row ∈ upload.ownershipRows, NamesEntity (entityTypeByName upload.entityRows) row.parentEntity ∧
    NamesEntity (entityTypeByName upload.entityRows) row.childEntity

variable {db : Database} {today : Date} {maxRows : Nat} {files : UploadFiles}

theorem sortErrors_eq_nil {errors : List ValidationError} : sortErrors errors = [] ↔ errors = [] := by
  have reordered : (sortErrors errors).Perm errors := List.perm_insertionSort _ errors
  constructor
  · intro empty
    exact List.nil_perm.mp (empty ▸ reordered)
  · intro same
    subst same
    rfl

theorem Ownership.NamesEntity.row {entityRows : List ParsedEntityRow} (accepted : AcceptedEntities entityRows)
    {name : String}
    (named : NamesEntity (entityTypeByName entityRows) name) :
    ∃ row ∈ entityRows, normalizeName row.entityName = normalizeName name ∧ row.registrationType = "Entity" := by
  obtain ⟨registrationType, found, notFq⟩ := named
  obtain ⟨row, member, same⟩ := List.mem_map.mp (InsertionMap.mem_of_get?_ofPairs found)
  rw [Prod.mk.injEq] at same
  obtain ⟨name, rfl⟩ := same
  exact ⟨row, member, name, (accepted.types row member).resolve_right notFq⟩

/-- The rows of an accepted upload agree with each other and, as far as the
ownership graph goes, with the edges of the database. -/
theorem validateUpload_accepted (accepted : (validateUpload db today maxRows files).errors = []) :
    ConsistentUpload (validateUpload db today maxRows files) ∧
    validateOwnershipGraph (validateUpload db today maxRows files).ownershipRows (loadExistingEdges db) = [] := by
  have silent := sortErrors_eq_nil.mp accepted
  simp only [List.append_eq_nil_iff] at silent
  obtain ⟨⟨⟨⟨⟨⟨⟨entitiesParsed, ownershipParsed⟩, _⟩, entities⟩, _⟩, ownership⟩, graph⟩, _⟩ := silent
  obtain ⟨_, entitiesSheet⟩ := parsed_of_silent entitiesParsed
  obtain ⟨_, ownershipSheet⟩ := parsed_of_silent ownershipParsed
  simp only [entitiesSheet, ownershipSheet] at entities ownership graph
  refine ⟨⟨?_, fun row member => ?_⟩, ?_⟩
  · simpa only [validateUpload, entitiesSheet, onSheet] using acceptedEntities entities
  · simp only [validateUpload, entitiesSheet, ownershipSheet, onSheet] at member ⊢
    exact validateOwnershipSheet_accepted ownership member
  · simpa only [validateUpload, entitiesSheet, ownershipSheet, onSheet] using graph

omit [Platform] in
/-- A file with the required columns of its slot. -/
def csvFile (slot : UploadSlot) (rows : List (List String)) : Option UploadedFile :=
  some {
    originalname := (SLOT_SCHEMAS slot).file
    content := .matrix ((SLOT_SCHEMAS slot).requiredColumns :: rows) }

omit [Platform] in
/-- A sheet with the required columns of its slot. -/
def slotSheet (slot : UploadSlot) (rows : List ParsedRow) : ParsedSheet where
  header := (SLOT_SCHEMAS slot).requiredColumns
  rows

omit [Platform] in
/-- Entities by name, registration type and domestic entity; ownership rows by
parent, child and percentage; no filings. -/
def ownershipFiles (entities ownership : List (String × String × String)) : UploadFiles where
  entities := csvFile .entities (entities.map fun (name, registrationType, domesticEntity) =>
    [name, registrationType, "US", "Corporation", "Active", "", domesticEntity, "", "", ""])
  ownership := csvFile .ownership (ownership.map fun (parent, child, pct) => [parent, child, pct])
  filings := csvFile .filings []

end Coverpin.Validation
