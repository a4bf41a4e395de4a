import Coverpin.Parsing.ParseSheet
import Coverpin.Validation.SchemaRegistry

namespace Coverpin.Validation.Filings

open Coverpin.Data Coverpin.Parsing

def FILE : String := "filings.csv"

def FILING_TYPES : List String :=
  ["Annual Report", "Statement of Information", "Franchise Tax", "Biennial Statement"]

def FILING_STATUSES : List String :=
  ["Not Started", "In Progress", "Submitted", "Filed", "Rejected", "Canceled"]

structure ParsedFilingRow where
  line : Nat
  entityName : String
  filingType : String
  jurisdiction : String
  filingAuthority : Option String
  dueDate : Date
  filedDate : Option Date
  status : String
deriving DecidableEq, Repr

/-- The row the validator builds first; its due date is missing where the cell
does not parse. -/
structure CandidateRow where
  line : Nat
  entityName : String
  filingType : String
  jurisdiction : String
  filingAuthority : Option String
  dueDate : Option Date
  filedDate : Option Date
  status : String
  dueDateRaw : String
  hasError : Bool

variable [Platform]

def entityNameErrors (entityJurisdictionByName : InsertionMap String String) (line : Nat) (entityName : String) :
    List ValidationError :=
  if isBlank entityName then [requiredError FILE line "Entity Name"]
  else if (entityJurisdictionByName.get? (normalizeName entityName)).isNone then
    [makeError FILE line "Entity Name" s!"Entity Name '{entityName}' does not match any row in entities.csv."]
  else []

/-- The jurisdiction must be the one the entity is registered with. -/
def jurisdictionErrors (entityJurisdictionByName : InsertionMap String String) (line : Nat)
    (entityName jurisdiction : String) : List ValidationError :=
  if isBlank jurisdiction then [requiredError FILE line "Jurisdiction"]
  else if !isValidJurisdictionFormat jurisdiction then [jurisdictionFormatError FILE line jurisdiction]
  else
    let registeredJurisdiction :=
      if isBlank entityName then none else entityJurisdictionByName.get? (normalizeName entityName)
    match registeredJurisdiction with
    | none => []
    | some registered =>
        if jurisdiction ≠ registered then
          [makeError FILE line "Jurisdiction"
            s!"Jurisdiction '{jurisdiction}' does not match the Jurisdiction '{registered}' registered for '{entityName}' in entities.csv."]
        else []

omit [Platform] in
def dueDateErrors (line : Nat) (dueDateRaw : String) : List ValidationError :=
  if isBlank dueDateRaw then [requiredError FILE line "Due Date"]
  else if (parseDate dueDateRaw).isNone then [invalidDateError FILE line "Due Date" dueDateRaw] else []

omit [Platform] in
def filedDateErrors (line : Nat) (status filedDateRaw : String) (today : Date) : List ValidationError :=
  pastDateErrors FILE line "Filed Date" filedDateRaw today ++
  (if FILING_STATUSES.contains status && status == "Filed" && isBlank filedDateRaw then
    [makeError FILE line "Filed Date" "Filed Date is required when Status is 'Filed'."]
  else [])

def rowErrors (header : List String) (entityJurisdictionByName : InsertionMap String String) (today : Date)
    (row : ParsedRow) : List ValidationError :=
  let get := get header row.cells
  entityNameErrors entityJurisdictionByName row.line (get "Entity Name") ++
  requiredOneOfErrors FILE row.line "Filing Type" FILING_TYPES (get "Filing Type") ++
  jurisdictionErrors entityJurisdictionByName row.line (get "Entity Name") (get "Jurisdiction") ++
  dueDateErrors row.line (get "Due Date") ++
  requiredOneOfErrors FILE row.line "Status" FILING_STATUSES (get "Status") ++
  filedDateErrors row.line (get "Status") (get "Filed Date") today

def candidateRow (header : List String) (entityJurisdictionByName : InsertionMap String String) (today : Date)
    (row : ParsedRow) : CandidateRow :=
  let get := get header row.cells
  { line := row.line
    entityName := get "Entity Name"
    filingType := get "Filing Type"
    jurisdiction := get "Jurisdiction"
    filingAuthority := if isBlank (get "Filing Authority") then none else some (get "Filing Authority")
    dueDate := optionalDate (get "Due Date")
    filedDate := optionalDate (get "Filed Date")
    status := get "Status"
    dueDateRaw := get "Due Date"
    hasError := rowErrors header entityJurisdictionByName today row ≠ [] }

/-- The key of the duplicate check: the due date counts as it is written in the
file, not as the date it denotes. -/
def seenKey (row : CandidateRow) : String :=
  normalizeName row.entityName ++ "|||" ++ row.filingType ++ "|||" ++ trim row.dueDateRaw

def seenKeys (rows : List CandidateRow) : InsertionMap String (List CandidateRow) :=
  .groupBy (rows.filter fun row => !isBlank row.entityName && !isBlank row.filingType && row.dueDate.isSome) seenKey

omit [Platform] in
def duplicateError (row : CandidateRow) (line count : Nat) : ValidationError :=
  let entityName := row.entityName
  let filingType := row.filingType
  makeError FILE line "Due Date"
    s!"Duplicate filing row for ('{entityName}', '{filingType}', same Due Date, matching is case-insensitive on Entity Name) — appears {count} times in this file."

/-- Rows are looked up again by their line, as the source does. -/
def duplicateErrors (rows : List CandidateRow) : List ValidationError :=
  let rowByLine := InsertionMap.ofPairs (rows.map fun row => (row.line, row))
  (seenKeys rows).entries.flatMap fun (_, group) =>
    if 1 < group.length then group.map fun row =>
      duplicateError ((rowByLine.get? row.line).getD row) row.line group.length
    else []

omit [Platform] in
/-- The row that is returned; a row without a due date carries an error. -/
def CandidateRow.parsed (row : CandidateRow) : Option ParsedFilingRow :=
  row.dueDate.map fun dueDate => {
    line := row.line
    entityName := row.entityName
    filingType := row.filingType
    jurisdiction := row.jurisdiction
    filingAuthority := row.filingAuthority
    dueDate
    filedDate := row.filedDate
    status := row.status }

/-- All errors of the sheet, and the rows whose line carries none.
`entityJurisdictionByName` comes from the validated rows of entities.csv in the
same upload, keyed by normalized Entity Name. -/
def validateFilingsSheet (sheet : ParsedSheet) (entityJurisdictionByName : InsertionMap String String)
    (today : Date) : List ValidationError × List ParsedFilingRow :=
  let schemaErrors := checkHeaderSchema .filings sheet.header
  if schemaErrors ≠ [] then (schemaErrors, [])
  else
    let candidateRows := sheet.rows.map (candidateRow sheet.header entityJurisdictionByName today)
    let errors := sheet.rows.flatMap (rowErrors sheet.header entityJurisdictionByName today) ++
      duplicateErrors candidateRows
    let erroredLines := errors.map ValidationError.line
    (errors, (candidateRows.filter fun row => !row.hasError && !erroredLines.contains row.line).filterMap
      CandidateRow.parsed)

section Accepted

variable {sheet : ParsedSheet} {entityJurisdictionByName : InsertionMap String String} {today : Date}

theorem validateFilingsSheet_accepted
    (accepted : (validateFilingsSheet sheet entityJurisdictionByName today).1 = []) :
    (∀ row ∈ sheet.rows, rowErrors sheet.header entityJurisdictionByName today row = []) ∧
    duplicateErrors (sheet.rows.map (candidateRow sheet.header entityJurisdictionByName today)) = [] ∧
    (validateFilingsSheet sheet entityJurisdictionByName today).2 =
      (sheet.rows.map (candidateRow sheet.header entityJurisdictionByName today)).filterMap CandidateRow.parsed := by
  by_cases complete : checkHeaderSchema .filings sheet.header = []
  · simp only [validateFilingsSheet, complete, ne_eq, not_true_eq_false, if_false] at accepted ⊢
    have parts := accepted
    simp only [List.append_eq_nil_iff, List.flatMap_eq_nil_iff] at parts
    refine ⟨parts.1, parts.2, ?_⟩
    simp only [accepted, List.map_nil, List.contains_nil, Bool.not_false, Bool.and_true]
    congr 1
    rw [List.filter_eq_self]
    intro row member
    obtain ⟨source, inside, rfl⟩ := List.mem_map.mp member
    simp [candidateRow, parts.1 source inside]
  · simp [validateFilingsSheet, complete] at accepted

omit [Platform] in
theorem dueDateErrors_accepted {line : Nat} {dueDateRaw : String} (accepted : dueDateErrors line dueDateRaw = []) :
    ∃ date, parseDate dueDateRaw = some date ∧ optionalDate dueDateRaw = some date := by
  unfold dueDateErrors at accepted
  split at accepted
  · cases accepted
  · rename_i present
    cases parsed : parseDate dueDateRaw with
    | none => simp [parsed] at accepted
    | some date => exact ⟨date, rfl, by simp [optionalDate, present, parsed]⟩

theorem rowErrors_accepted {header : List String} {row : ParsedRow}
    (accepted : rowErrors header entityJurisdictionByName today row = []) :
    isBlank (get header row.cells "Entity Name") = false ∧
    isBlank (get header row.cells "Filing Type") = false ∧
    ∃ date, parseDate (get header row.cells "Due Date") = some date ∧
      optionalDate (get header row.cells "Due Date") = some date := by
  simp only [rowErrors, List.append_eq_nil_iff] at accepted
  obtain ⟨⟨⟨⟨⟨name, filingType⟩, _⟩, dueDate⟩, _⟩, _⟩ := accepted
  refine ⟨?_, ?_, dueDateErrors_accepted dueDate⟩
  · apply Bool.eq_false_iff.mpr
    intro blank
    simp [entityNameErrors, blank] at name
  · apply Bool.eq_false_iff.mpr
    intro blank
    simp [requiredOneOfErrors, blank] at filingType

end Accepted

end Coverpin.Validation.Filings
