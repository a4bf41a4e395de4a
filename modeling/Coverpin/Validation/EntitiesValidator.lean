import Coverpin.Parsing.ParseSheet
import Coverpin.Validation.SchemaRegistry

namespace Coverpin.Validation.Entities

open Coverpin.Data Coverpin.Parsing

def FILE : String := "entities.csv"

def REGISTRATION_TYPES : List String := ["Entity", "FQ"]

def ENTITY_TYPES : List String :=
  ["Corporation", "Limited Liability Company", "Limited Partnership", "General Partnership", "Nonprofit", "Trust"]

def ENTITY_STATUSES : List String :=
  ["In Formation", "Active", "Revoked/Terminated", "Merged/Acquired", "Divested/Sold", "Dormant", "Dissolved"]

def TERMINAL_ENTITY_STATUSES : List String :=
  ["Revoked/Terminated", "Merged/Acquired", "Divested/Sold", "Dormant", "Dissolved"]

def GLOBAL_REGIONS : List String :=
  ["North America", "Asia Pacific", "Europe Middle East Africa", "Latin America", "European Economic Area"]

/-- One row of entities.csv.  `registrationType` is the text of the cell: the
source casts it to `'Entity' | 'FQ'` before any check has run. -/
structure ParsedEntityRow where
  line : Nat
  entityName : String
  registrationType : String
  jurisdiction : String
  entityType : String
  entityStatus : String
  statusDate : Option Date
  domesticEntity : Option String
  formationDate : Option Date
  businessId : Option String
  globalRegion : Option String
deriving DecidableEq, Repr

def nonBlank (value : String) : Option String :=
  if isBlank value then none else some value

/-- The row the validator builds whether or not its fields pass their checks. -/
def candidateRow (header : List String) (row : ParsedRow) : ParsedEntityRow :=
  let get := get header row.cells
  let registrationType := get "Registration Type"
  { line := row.line
    entityName := get "Entity Name"
    registrationType
    jurisdiction := get "Jurisdiction"
    entityType := get "Entity Type"
    entityStatus := get "Entity Status"
    statusDate := optionalDate (get "Status Date")
    domesticEntity := if trim registrationType = "FQ" then nonBlank (get "Domestic Entity") else none
    formationDate := optionalDate (get "Formation Date")
    businessId := nonBlank (get "Entity/Business ID")
    globalRegion := nonBlank (get "Global Region") }

def jurisdictionErrors (line : Nat) (jurisdiction : String) : List ValidationError :=
  if isBlank jurisdiction then [requiredError FILE line "Jurisdiction"]
  else if isValidJurisdictionFormat jurisdiction then []
  else [jurisdictionFormatError FILE line jurisdiction]

/-- Status Date may be any date, but a terminal status needs one. -/
def statusDateErrors (line : Nat) (entityStatus statusDateRaw : String) : List ValidationError :=
  (if isBlank statusDateRaw then []
    else if (parseDate statusDateRaw).isNone then [invalidDateError FILE line "Status Date" statusDateRaw] else []) ++
  (if ENTITY_STATUSES.contains entityStatus && TERMINAL_ENTITY_STATUSES.contains entityStatus &&
      isBlank statusDateRaw then
    [makeError FILE line "Status Date" s!"Status Date is required when Entity Status is '{entityStatus}'."]
  else [])

def domesticEntityErrors (line : Nat) (registrationType domesticEntity : String) : List ValidationError :=
  (if trim registrationType = "FQ" ∧ isBlank domesticEntity then
    [makeError FILE line "Domestic Entity" "Domestic Entity is required when Registration Type is 'FQ'."]
  else []) ++
  (if trim registrationType = "Entity" ∧ ¬ isBlank domesticEntity then
    [makeError FILE line "Domestic Entity" "Domestic Entity must be empty when Registration Type is 'Entity'."]
  else [])

def globalRegionErrors (line : Nat) (globalRegion : String) : List ValidationError :=
  if isBlank globalRegion || GLOBAL_REGIONS.contains globalRegion then []
  else [oneOfError FILE line "Global Region" GLOBAL_REGIONS globalRegion]

def rowErrors [Platform] (header : List String) (today : Date) (row : ParsedRow) : List ValidationError :=
  let get := get header row.cells
  requiredErrors FILE row.line "Entity Name" (get "Entity Name") ++
  requiredOneOfErrors FILE row.line "Registration Type" REGISTRATION_TYPES (get "Registration Type") ++
  jurisdictionErrors row.line (get "Jurisdiction") ++
  requiredOneOfErrors FILE row.line "Entity Type" ENTITY_TYPES (get "Entity Type") ++
  requiredOneOfErrors FILE row.line "Entity Status" ENTITY_STATUSES (get "Entity Status") ++
  statusDateErrors row.line (get "Entity Status") (get "Status Date") ++
  domesticEntityErrors row.line (get "Registration Type") (get "Domestic Entity") ++
  pastDateErrors FILE row.line "Formation Date" (get "Formation Date") today ++
  globalRegionErrors row.line (get "Global Region")

variable [Platform]

def duplicateNameError (row : ParsedEntityRow) (count : Nat) : ValidationError :=
  let entityName := row.entityName
  makeError FILE row.line "Entity Name"
    s!"Entity Name '{entityName}' appears {count} times in this file (matching is case-insensitive); it must be unique."

/-- Entity Name must be unique within the sheet (trimmed, case-insensitive). -/
def duplicateNameErrors (rows : List ParsedEntityRow) : List ValidationError :=
  let rowsByNormalizedName := InsertionMap.groupBy (rows.filter fun row => !isBlank row.entityName)
    fun row => normalizeName row.entityName
  rowsByNormalizedName.entries.flatMap fun (_, rows) =>
    if 1 < rows.length then rows.map fun row => duplicateNameError row rows.length else []

omit [Platform] in
def duplicateBusinessIdError (businessId : String) (line count : Nat) : ValidationError :=
  makeError FILE line "Entity/Business ID"
    s!"Entity/Business ID '{businessId}' appears {count} times in this file; it must be unique."

/-- Entity/Business ID must be unique where present, within the sheet. -/
def duplicateBusinessIdErrors (rows : List ParsedEntityRow) : List ValidationError :=
  let linesByBusinessId := InsertionMap.groupBy
    (rows.filterMap fun row => row.businessId.map fun businessId => (businessId, row.line)) Prod.fst
  linesByBusinessId.entries.flatMap fun (businessId, lines) =>
    if 1 < lines.length then lines.map fun (_, line) => duplicateBusinessIdError businessId line lines.length
    else []

/-- The registration type under each name; a repeated name counts as its last row. -/
def typeByName (rows : List ParsedEntityRow) : InsertionMap String String :=
  .ofPairs ((rows.filter fun row => !isBlank row.entityName && REGISTRATION_TYPES.contains row.registrationType).map
    fun row => (normalizeName row.entityName, row.registrationType))

/-- Domestic Entity must reference an existing Entity-type row within this same file. -/
def domesticReferenceErrors (rows : List ParsedEntityRow) : List ValidationError :=
  rows.flatMap fun row =>
    match row.domesticEntity with
    | none => []
    | some domesticEntity =>
        match (typeByName rows).get? (normalizeName domesticEntity) with
        | none => [makeError FILE row.line "Domestic Entity"
            s!"Domestic Entity '{domesticEntity}' does not match any Entity Name in entities.csv."]
        | some refType =>
            if refType = "Entity" then []
            else [makeError FILE row.line "Domestic Entity"
              s!"Domestic Entity '{domesticEntity}' must reference a row with Registration Type 'Entity', not 'FQ'."]

/-- All errors of the sheet, and the rows whose line carries none. -/
def validateEntitiesSheet (sheet : ParsedSheet) (today : Date) :
    List ValidationError × List ParsedEntityRow :=
  let schemaErrors := checkHeaderSchema .entities sheet.header
  if schemaErrors ≠ [] then (schemaErrors, [])
  else
    let candidateRows := sheet.rows.map (candidateRow sheet.header)
    let errors := sheet.rows.flatMap (rowErrors sheet.header today) ++ duplicateNameErrors candidateRows ++
      duplicateBusinessIdErrors candidateRows ++ domesticReferenceErrors candidateRows
    let erroredLines := errors.map ValidationError.line
    (errors, candidateRows.filter fun row => !erroredLines.contains row.line)

section Accepted

variable {sheet : ParsedSheet} {today : Date}

/-- What the rows of an accepted sheet are known to satisfy together. -/
structure AcceptedEntities (rows : List ParsedEntityRow) : Prop where
  names : (rows.map fun row => normalizeName row.entityName).Nodup
  types : ∀ row ∈ rows, row.registrationType = "Entity" ∨ row.registrationType = "FQ"
  domestic : ∀ row ∈ rows, row.registrationType = "FQ" → ∃ domesticEntity, row.domesticEntity = some domesticEntity ∧
    domesticEntity ≠ "" ∧ ∃ other ∈ rows, normalizeName other.entityName = normalizeName domesticEntity ∧
      other.registrationType = "Entity"

theorem validateEntitiesSheet_accepted (accepted : (validateEntitiesSheet sheet today).1 = []) :
    (∀ row ∈ sheet.rows, rowErrors sheet.header today row = []) ∧
    duplicateNameErrors (sheet.rows.map (candidateRow sheet.header)) = [] ∧
    domesticReferenceErrors (sheet.rows.map (candidateRow sheet.header)) = [] ∧
    (validateEntitiesSheet sheet today).2 = sheet.rows.map (candidateRow sheet.header) := by
  by_cases complete : checkHeaderSchema .entities sheet.header = []
  · simp only [validateEntitiesSheet, complete, ne_eq, not_true_eq_false, if_false] at accepted ⊢
    have parts := accepted
    simp only [List.append_eq_nil_iff, List.flatMap_eq_nil_iff] at parts
    obtain ⟨⟨⟨rows, names⟩, _⟩, domestic⟩ := parts
    refine ⟨rows, names, domestic, ?_⟩
    rw [accepted]
    simp
  · simp [validateEntitiesSheet, complete] at accepted

omit [Platform] in
theorem requiredOneOfErrors_accepted {file column value : String} {line : Nat} {allowed : List String}
    (accepted : requiredOneOfErrors file line column allowed value = []) : isBlank value = false ∧ value ∈ allowed := by
  unfold requiredOneOfErrors at accepted
  split at accepted
  · cases accepted
  · rename_i present
    split at accepted
    · rename_i listed
      exact ⟨by simpa using present, by simpa using listed⟩
    · cases accepted

theorem rowErrors_accepted {header : List String} {row : ParsedRow} (accepted : rowErrors header today row = []) :
    isBlank (candidateRow header row).entityName = false ∧
    (candidateRow header row).registrationType ∈ REGISTRATION_TYPES ∧
    ((candidateRow header row).registrationType = "FQ" →
      ∃ domesticEntity, (candidateRow header row).domesticEntity = some domesticEntity ∧ domesticEntity ≠ "") := by
  simp only [rowErrors, List.append_eq_nil_iff] at accepted
  obtain ⟨⟨⟨⟨⟨⟨⟨⟨name, type⟩, _⟩, _⟩, _⟩, _⟩, domestic⟩, _⟩, _⟩ := accepted
  refine ⟨?_, (requiredOneOfErrors_accepted type).2, fun fq => ?_⟩
  · apply Bool.eq_false_iff.mpr
    intro blank
    simp only [candidateRow] at blank
    simp [requiredErrors, blank] at name
  · have isFq : get header row.cells "Registration Type" = "FQ" := fq
    have trimmed : trim "FQ" = "FQ" := by decide
    simp only [domesticEntityErrors, isFq, trimmed, true_and, List.append_eq_nil_iff, ite_eq_right_iff] at domestic
    have present : ¬ isBlank (get header row.cells "Domestic Entity") = true := fun blank => by
      have reported := domestic.1 blank
      cases reported
    refine ⟨get header row.cells "Domestic Entity", ?_, fun empty => present (by rw [empty]; decide)⟩
    simp [candidateRow, isFq, trimmed, nonBlank, present]

theorem domesticReferenceErrors_accepted {rows : List ParsedEntityRow} (accepted : domesticReferenceErrors rows = [])
    {row : ParsedEntityRow} (member : row ∈ rows) {domesticEntity : String}
    (named : row.domesticEntity = some domesticEntity) :
    ∃ other ∈ rows, normalizeName other.entityName = normalizeName domesticEntity ∧
      other.registrationType = "Entity" := by
  have silent := List.flatMap_eq_nil_iff.mp accepted row member
  simp only [named] at silent
  split at silent
  · cases silent
  · rename_i refType found
    split at silent
    · rename_i entity
      obtain ⟨other, inside, same⟩ := List.mem_map.mp (InsertionMap.mem_of_get?_ofPairs found)
      rw [Prod.mk.injEq] at same
      exact ⟨other, (List.mem_filter.mp inside).1, same.1, same.2.trans entity⟩
    · cases silent

theorem acceptedEntities (accepted : (validateEntitiesSheet sheet today).1 = []) :
    AcceptedEntities (validateEntitiesSheet sheet today).2 := by
  obtain ⟨rowsOk, namesOk, domesticOk, returned⟩ := validateEntitiesSheet_accepted accepted
  rw [returned]
  constructor
  · have all : (sheet.rows.map (candidateRow sheet.header)).filter (fun row => !isBlank row.entityName) =
        sheet.rows.map (candidateRow sheet.header) := by
      rw [List.filter_eq_self]
      intro row member
      obtain ⟨source, inside, rfl⟩ := List.mem_map.mp member
      simp [(rowErrors_accepted (rowsOk source inside)).1]
    have distinct := InsertionMap.groupBy_reports_eq_nil.mp namesOk
    rwa [all] at distinct
  · intro row member
    obtain ⟨source, inside, rfl⟩ := List.mem_map.mp member
    simpa [REGISTRATION_TYPES] using (rowErrors_accepted (rowsOk source inside)).2.1
  · intro row member fq
    obtain ⟨source, inside, rfl⟩ := List.mem_map.mp member
    obtain ⟨domesticEntity, named, present⟩ := (rowErrors_accepted (rowsOk source inside)).2.2 fq
    exact ⟨domesticEntity, named, present, domesticReferenceErrors_accepted domesticOk member named⟩

end Accepted

end Coverpin.Validation.Entities
