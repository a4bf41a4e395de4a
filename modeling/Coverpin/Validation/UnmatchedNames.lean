import Coverpin.Validation.EntitiesRules
import Coverpin.Validation.ErrorSources

namespace Coverpin.Validation

open Coverpin.Data Coverpin.Database Coverpin.Parsing

/-! # Names that are reported to match no row of entities.csv

Ownership rows and filings are resolved against the validated rows of
entities.csv: a row that carries an error of its own is not there for them.
-/

section Rows

variable [Platform] {entities : ParsedSheet} {today : Date} {name : String}

/-- A data row has the name, as names are compared. -/
def RowNamed (entities : ParsedSheet) (name : String) : Prop :=
  ∃ row ∈ entities.rows, normalizeName (get entities.header row.cells "Entity Name") = normalizeName name

/-- A data row has the name, and entities.csv carries no error on its line. -/
def ValidRowNamed (today : Date) (entities : ParsedSheet) (name : String) : Prop :=
  ∃ row ∈ entities.rows, (∀ error ∈ (Entities.validateEntitiesSheet entities today).1, error.line ≠ row.line) ∧
    normalizeName (get entities.header row.cells "Entity Name") = normalizeName name

theorem mem_validatedRows (complete : HasColumns .entities entities) {row : Entities.ParsedEntityRow} :
    row ∈ (Entities.validateEntitiesSheet entities today).2 ↔
      ∃ source ∈ entities.rows, (∀ error ∈ (Entities.validateEntitiesSheet entities today).1, error.line ≠ source.line) ∧
        Entities.candidateRow entities.header source = row := by
  have header := checkHeaderSchema_eq_nil.mpr complete
  simp only [Entities.validateEntitiesSheet, header, ne_eq, not_true_eq_false, if_false]
  rw [List.mem_filter, Bool.not_eq_true', ← Bool.not_eq_true, List.contains_iff_mem, List.mem_map]
  constructor
  · intro kept
    obtain ⟨⟨source, inside, rfl⟩, free⟩ := kept
    exact ⟨source, inside, fun error member same => free (List.mem_map.mpr ⟨error, member, same⟩), rfl⟩
  · intro kept
    obtain ⟨source, inside, free, rfl⟩ := kept
    refine ⟨⟨source, inside, rfl⟩, fun listed => ?_⟩
    obtain ⟨error, member, same⟩ := List.mem_map.mp listed
    exact free error member same

/-- Both tables that are made of the validated rows hold exactly their names. -/
theorem unregistered_iff (value : Entities.ParsedEntityRow → String) (complete : HasColumns .entities entities) :
    (InsertionMap.ofPairs ((Entities.validateEntitiesSheet entities today).2.map fun row =>
      (normalizeName row.entityName, value row))).get? (normalizeName name) = none ↔ ¬ ValidRowNamed today entities name := by
  rw [InsertionMap.get?_eq_none, InsertionMap.mem_keys_ofPairs, List.map_map, List.mem_map, not_iff_not]
  constructor
  · intro registered
    obtain ⟨row, member, same⟩ := registered
    obtain ⟨source, inside, free, rfl⟩ := (mem_validatedRows complete).mp member
    exact ⟨source, inside, free, same⟩
  · intro named
    obtain ⟨source, inside, free, same⟩ := named
    exact ⟨_, (mem_validatedRows complete).mpr ⟨source, inside, free, rfl⟩, same⟩

end Rows

namespace Ownership

variable [Platform] {entityTypeByName : InsertionMap String String} {line : Nat} {column fqRule value : String}

theorem unmatched_mem_endErrors : unmatchedError line column value ∈ endErrors entityTypeByName line column fqRule value ↔
    isBlank value = false ∧ entityTypeByName.get? (normalizeName value) = none := by
  unfold endErrors
  by_cases blank : isBlank value = true
  · simp [blank, unmatchedError, requiredError, makeError, ← String.toList_inj, toString]
  · rw [if_neg blank]
    cases found : entityTypeByName.get? (normalizeName value) with
    | none => simp [unmatchedError, blank]
    | some registrationType =>
        by_cases fq : registrationType = "FQ"
        · simp [fq, unmatchedError, makeError, ← String.toList_inj, toString]
        · simp [fq]

omit [Platform] in
theorem unmatchedError_column : (unmatchedError line column value).column = column := rfl

omit [Platform] in
/-- Its text begins with the name of the column. -/
theorem unmatchedError_text (line : Nat) (value : String) (isEnd : column ∈ ["Parent Entity", "Child Entity"]) :
    (unmatchedError line column value).message.toList.head? = column.toList.head? := by
  simp only [List.mem_cons, List.not_mem_nil, or_false] at isEnd
  rcases isEnd with rfl | rfl
  · simp [unmatchedError, makeError, toString]
  · simp [unmatchedError, makeError, toString]

theorem selfEdgeErrors_text {parentEntity childEntity : String} {error : ValidationError}
    (member : error ∈ selfEdgeErrors line parentEntity childEntity) : error.message.toList.head? = some 'P' := by
  unfold selfEdgeErrors at member
  split at member
  · rw [List.mem_singleton.mp member]
    simp [makeError, toString]
  · cases member

variable {sheet : ParsedSheet} {row : ParsedRow}

/-- The report on an end is made by the check of that end and by no other. -/
theorem unmatched_mem_sheet (complete : HasColumns .ownership sheet) (lines : (sheet.rows.map ParsedRow.line).Nodup)
    (member : row ∈ sheet.rows) (isEnd : column ∈ ["Parent Entity", "Child Entity"]) :
    unmatchedError row.line column (get sheet.header row.cells column) ∈ (validateOwnershipSheet sheet entityTypeByName).1 ↔
      isBlank (get sheet.header row.cells column) = false ∧
        entityTypeByName.get? (normalizeName (get sheet.header row.cells column)) = none := by
  have first := unmatchedError_text row.line (get sheet.header row.cells column) isEnd
  rw [mem_validateOwnershipSheet (checkHeaderSchema_eq_nil.mpr complete)]
  simp only [List.mem_cons, List.not_mem_nil, or_false] at isEnd
  constructor
  · intro reported
    rcases reported with ⟨other, inside, reported⟩ | duplicate
    · obtain rfl : other = row :=
        List.inj_on_of_nodup_map lines inside member (rowErrors_at reported).2.symm
      rcases isEnd with rfl | rfl
      · rcases mem_rowErrors.mp reported with parent | (child | self) | pct
        · exact unmatched_mem_endErrors.mp parent
        · exact absurd child (endErrors_placed.not_mem unmatchedError_column (by decide))
        · exact absurd self (selfEdgeErrors_placed.not_mem unmatchedError_column (by decide))
        · exact absurd pct (pctErrors_placed.not_mem unmatchedError_column (by decide))
      · rcases mem_rowErrors.mp reported with parent | (child | self) | pct
        · exact absurd parent (endErrors_placed.not_mem unmatchedError_column (by decide))
        · exact unmatched_mem_endErrors.mp child
        · have text := selfEdgeErrors_text self
          rw [first] at text
          exact absurd text (by decide)
        · exact absurd pct (pctErrors_placed.not_mem unmatchedError_column (by decide))
    · have text := (duplicateErrors_text duplicate).2
      rw [first] at text
      rcases isEnd with rfl | rfl
      · exact absurd text (by decide)
      · exact absurd text (by decide)
  · intro unmatched
    refine .inl ⟨row, member, mem_rowErrors.mpr ?_⟩
    rcases isEnd with rfl | rfl
    · exact .inl (unmatched_mem_endErrors.mpr unmatched)
    · exact .inr (.inl (.inl (unmatched_mem_endErrors.mpr unmatched)))

end Ownership

namespace Filings

variable [Platform] {entityJurisdictionByName : InsertionMap String String} {today : Date}

/-- The report of a name that resolves to nothing. -/
def unmatchedError (line : Nat) (entityName : String) : ValidationError :=
  makeError FILE line "Entity Name" s!"Entity Name '{entityName}' does not match any row in entities.csv."

theorem unmatched_mem_entityNameErrors (line : Nat) {entityName : String} :
    unmatchedError line entityName ∈ entityNameErrors entityJurisdictionByName line entityName ↔
      isBlank entityName = false ∧ entityJurisdictionByName.get? (normalizeName entityName) = none := by
  unfold entityNameErrors
  by_cases blank : isBlank entityName = true
  · simp [blank, unmatchedError, requiredError, makeError, ← String.toList_inj, toString]
  · rw [if_neg blank]
    cases entityJurisdictionByName.get? (normalizeName entityName) with
    | none => simp [unmatchedError, blank]
    | some registered => simp

theorem unmatched_mem_sheet {sheet : ParsedSheet} {row : ParsedRow} (complete : HasColumns .filings sheet)
    (lines : (sheet.rows.map ParsedRow.line).Nodup) (member : row ∈ sheet.rows) :
    unmatchedError row.line (get sheet.header row.cells "Entity Name") ∈
        (validateFilingsSheet sheet entityJurisdictionByName today).1 ↔
      isBlank (get sheet.header row.cells "Entity Name") = false ∧
        entityJurisdictionByName.get? (normalizeName (get sheet.header row.cells "Entity Name")) = none := by
  rw [mem_validateFilingsSheet (checkHeaderSchema_eq_nil.mpr complete), ← unmatched_mem_entityNameErrors row.line]
  constructor
  · intro reported
    rcases reported with ⟨other, inside, reported⟩ | duplicate
    · obtain ⟨_, line, name | apart⟩ := rowErrors_cases reported
      · obtain rfl : other = row := List.inj_on_of_nodup_map lines inside member line.symm
        exact name
      · exact absurd rfl apart
    · exact absurd (duplicateErrors_at duplicate).2 (show "Entity Name" ≠ "Due Date" by decide)
  · intro unmatched
    refine .inl ⟨row, member, ?_⟩
    simp only [rowErrors, List.mem_append]
    exact .inl (.inl (.inl (.inl (.inl unmatched))))

end Filings

section Upload

variable [Platform]

/-- Three sheets that were read from the files and have the columns of their slots. -/
structure ValidSheets (maxRows : Nat) (files : UploadFiles) (entities ownership filings : ParsedSheet) : Prop where
  read : Sheets maxRows files entities ownership filings
  entitiesColumns : HasColumns .entities entities
  ownershipColumns : HasColumns .ownership ownership
  filingsColumns : HasColumns .filings filings

/-- A row is reported to match nothing exactly when the name it gives is not blank
and `named` does not have it. -/
structure ReportsUnmatched (named : String → Prop) (errors : List ValidationError)
    (ownership filings : ParsedSheet) : Prop where
  ends : ∀ row ∈ ownership.rows, ∀ column ∈ ["Parent Entity", "Child Entity"],
    Ownership.unmatchedError row.line column (get ownership.header row.cells column) ∈ errors ↔
      get ownership.header row.cells column ≠ "" ∧ ¬ named (get ownership.header row.cells column)
  filings : ∀ row ∈ filings.rows,
    Filings.unmatchedError row.line (get filings.header row.cells "Entity Name") ∈ errors ↔
      get filings.header row.cells "Entity Name" ≠ "" ∧ ¬ named (get filings.header row.cells "Entity Name")

variable {maxRows : Nat} {files : UploadFiles} {entities ownership filings : ParsedSheet}

/-- Names are resolved against the rows of entities.csv on whose lines it carries no
error. -/
theorem unmatched_reported (sheets : ValidSheets maxRows files entities ownership filings) (db : Database) (today : Date) :
    ReportsUnmatched (ValidRowNamed today entities) (validateUpload db today maxRows files).errors ownership filings := by
  have present : ∀ header cells column, isBlank (get header cells column) = false ↔ get header cells column ≠ "" := by
    intro header cells column
    rw [← Bool.not_eq_true, Entities.isBlank_trimmed (trim_get _ _ _)]
  constructor
  · intro row member column isEnd
    rw [sheets.read.mem_ownershipErrors rfl, ← present,
      ← unregistered_iff Entities.ParsedEntityRow.registrationType sheets.entitiesColumns]
    have lines := parseSlot_lines sheets.read.ownership
    refine Iff.trans ?_ (Ownership.unmatched_mem_sheet sheets.ownershipColumns lines member isEnd)
    refine or_iff_left fun graph => ?_
    have text := Ownership.unmatchedError_text row.line (get ownership.header row.cells column) isEnd
    obtain ⟨_, ⟨_, other⟩ | other⟩ := validateOwnershipGraph_text graph
    · rw [other] at text
      simp only [List.mem_cons, List.not_mem_nil, or_false] at isEnd
      rcases isEnd with rfl | rfl
      · exact absurd text (by decide)
      · exact absurd text (by decide)
    · rw [Ownership.unmatchedError_column] at other
      subst other
      exact absurd isEnd (by decide)
  · intro row member
    rw [sheets.read.mem_filingErrors rfl, ← present,
      ← unregistered_iff Entities.ParsedEntityRow.jurisdiction sheets.entitiesColumns]
    exact Filings.unmatched_mem_sheet sheets.filingsColumns (parseSlot_lines sheets.read.filings) member

omit [Platform] in
/-- An owner with a filing, whose row has a registration type that does not exist. -/
def misspelledFiles : UploadFiles :=
  { ownershipFiles [("Acme", "Entty", ""), ("Beta", "Entity", "")] [("Acme", "Beta", "50")] with
    filings := csvFile .filings [["Acme", "Annual Report", "US", "", "2024-03-31", "", "Not Started"]] }

omit [Platform] in
def misspelledEntities : ParsedSheet := slotSheet .entities [
  { line := 2, cells := ["Acme", "Entty", "US", "Corporation", "Active", "", "", "", "", ""] },
  { line := 3, cells := ["Beta", "Entity", "US", "Corporation", "Active", "", "", "", "", ""] }]

omit [Platform] in
def misspelledOwnership : ParsedSheet := slotSheet .ownership [{ line := 2, cells := ["Acme", "Beta", "50"] }]

omit [Platform] in
def misspelledFilings : ParsedSheet := slotSheet .filings [
  { line := 2, cells := ["Acme", "Annual Report", "US", "", "2024-03-31", "", "Not Started"] }]

omit [Platform] in
theorem misspelled_sheets : letI := asciiPlatform
    ValidSheets 10 misspelledFiles misspelledEntities misspelledOwnership misspelledFilings := by
  have filings : letI := asciiPlatform
      parseSlot 10 misspelledFiles.filings .filings = .ok misspelledFilings := by
    decide +kernel
  let _ := asciiPlatform
  have plain : Sheets 10 (ownershipFiles [("Acme", "Entty", ""), ("Beta", "Entity", "")] [("Acme", "Beta", "50")])
      misspelledEntities misspelledOwnership (slotSheet .filings []) := by
    apply ownershipFiles_sheets
    · decide
    · decide
    · intro edge member
      rw [List.mem_singleton.mp member]
      decide
  exact ⟨⟨plain.entities, plain.ownership, filings⟩, fun _ => id, fun _ => id, fun _ => id⟩

omit [Platform] in
/-- The ownership row is reported although entities.csv has a row of that name. -/
theorem misspelled_unmatched : letI := asciiPlatform
    ValidSheets 10 misspelledFiles misspelledEntities misspelledOwnership misspelledFilings ∧
    ¬ ReportsUnmatched (RowNamed misspelledEntities) (validateUpload .initial ⟨0⟩ 10 misspelledFiles).errors
      misspelledOwnership misspelledFilings := by
  let _ := asciiPlatform
  refine ⟨misspelled_sheets, fun claimed => ?_⟩
  have reported : Ownership.unmatchedError 2 "Parent Entity" "Acme" ∈
      (validateUpload .initial ⟨0⟩ 10 misspelledFiles).errors := by
    decide +kernel
  have named : RowNamed misspelledEntities "Acme" := ⟨_, List.mem_cons_self .., by decide +kernel⟩
  have unmatched := claimed.ends { line := 2, cells := ["Acme", "Beta", "50"] } (by decide) "Parent Entity" (by decide)
  exact (unmatched.mp reported).2 named

omit [Platform] in
theorem misspelled_reported : letI := asciiPlatform
    ReportsUnmatched (ValidRowNamed ⟨0⟩ misspelledEntities) (validateUpload .initial ⟨0⟩ 10 misspelledFiles).errors
      misspelledOwnership misspelledFilings :=
  letI := asciiPlatform
  unmatched_reported misspelled_sheets .initial ⟨0⟩

end Upload

end Coverpin.Validation
