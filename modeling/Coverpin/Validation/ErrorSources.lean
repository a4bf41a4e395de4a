import Coverpin.Validation.AcceptedRows

namespace Coverpin.Validation

open Coverpin.Data Coverpin.Database Coverpin.Parsing

/-! # Which check an error comes from

Every field check reports under the column of its field, so file, line and column
of an error lead back to the row and to the few checks that may have made it.
-/

/-- All of the errors stand in one column of one line. -/
def Placed (file : String) (line : Nat) (column : String) (errors : List ValidationError) : Prop :=
  ∀ error ∈ errors, error.file = file ∧ error.line = line ∧ error.column = column

section Placed

variable {file column message : String} {line : Nat} {errors others : List ValidationError}

theorem Placed.none : Placed file line column [] :=
  List.forall_mem_nil _

theorem Placed.single : Placed file line column [makeError file line column message] := by
  simp [Placed, makeError]

theorem Placed.append (first : Placed file line column errors) (second : Placed file line column others) :
    Placed file line column (errors ++ others) :=
  List.forall_mem_append.mpr ⟨first, second⟩

theorem Placed.ite {condition : Prop} [Decidable condition] (yes : condition → Placed file line column errors)
    (no : ¬ condition → Placed file line column others) : Placed file line column (if condition then errors else others) := by
  split
  · exact yes ‹_›
  · exact no ‹_›

/-- An error that stands elsewhere is none of them. -/
theorem Placed.not_mem (placed : Placed file line column errors) {error : ValidationError} {other : String}
    (standing : error.column = other) (apart : other ≠ column) : error ∉ errors :=
  fun member => apart (standing.symm.trans (placed error member).2.2)

end Placed

section Fields

variable {file column value : String} {line : Nat} {allowed : List String} {today : Date}

theorem requiredErrors_placed : Placed file line column (requiredErrors file line column value) :=
  .ite (fun _ => .single) fun _ => .none

theorem requiredOneOfErrors_placed : Placed file line column (requiredOneOfErrors file line column allowed value) :=
  .ite (fun _ => .single) fun _ => .ite (fun _ => .none) fun _ => .single

theorem pastDateErrors_placed : Placed file line column (pastDateErrors file line column value today) := by
  refine .ite (fun _ => .none) fun _ => ?_
  cases parseDate value with
  | none => exact .single
  | some date => exact .ite (fun _ => .single) fun _ => .none

end Fields

theorem checkHeaderSchema_file {slot : UploadSlot} {header : List String} :
    ∀ error ∈ checkHeaderSchema slot header, error.file = (SLOT_SCHEMAS slot).file := by
  intro error member
  unfold checkHeaderSchema at member
  simp only at member
  split at member
  · cases member
  · split at member
    · rw [List.mem_singleton.mp member]
      rfl
    · obtain ⟨_, _, rfl⟩ := List.mem_map.mp member
      rfl

theorem checkHeaderSchema_text {slot : UploadSlot} {header : List String} {error : ValidationError}
    (member : error ∈ checkHeaderSchema slot header) :
    error.message.toList.head? = some 'T' ∨ error.message.toList.head? = some 'M' := by
  unfold checkHeaderSchema at member
  simp only at member
  split at member
  · cases member
  · split at member
    · rw [List.mem_singleton.mp member]
      exact .inl (by simp [makeError, toString])
    · obtain ⟨_, _, rfl⟩ := List.mem_map.mp member
      exact .inr (by simp [makeError, toString])

namespace Entities

variable {line : Nat} {value : String}

theorem jurisdictionErrors_placed : Placed FILE line "Jurisdiction" (jurisdictionErrors line value) :=
  .ite (fun _ => .single) fun _ => .ite (fun _ => .none) fun _ => .single

theorem statusDateErrors_placed {entityStatus : String} :
    Placed FILE line "Status Date" (statusDateErrors line entityStatus value) :=
  .append (.ite (fun _ => .none) fun _ => .ite (fun _ => .single) fun _ => .none) (.ite (fun _ => .single) fun _ => .none)

theorem domesticEntityErrors_placed {registrationType : String} :
    Placed FILE line "Domestic Entity" (domesticEntityErrors line registrationType value) :=
  .append (.ite (fun _ => .single) fun _ => .none) (.ite (fun _ => .single) fun _ => .none)

theorem globalRegionErrors_placed : Placed FILE line "Global Region" (globalRegionErrors line value) :=
  .ite (fun _ => .none) fun _ => .single

variable [Platform]

theorem rowErrors_file {header : List String} {today : Date} {row : ParsedRow} {error : ValidationError}
    (member : error ∈ rowErrors header today row) : error.file = FILE := by
  simp only [rowErrors, List.mem_append] at member
  rcases member with (((((((name | type) | jurisdiction) | entityType) | status) | statusDate) | domestic) | formation) | region
  · exact (requiredErrors_placed error name).1
  · exact (requiredOneOfErrors_placed error type).1
  · exact (jurisdictionErrors_placed error jurisdiction).1
  · exact (requiredOneOfErrors_placed error entityType).1
  · exact (requiredOneOfErrors_placed error status).1
  · exact (statusDateErrors_placed error statusDate).1
  · exact (domesticEntityErrors_placed error domestic).1
  · exact (pastDateErrors_placed error formation).1
  · exact (globalRegionErrors_placed error region).1

/-- The reports on groups of rows. -/
theorem duplicateErrors_file {rows : List ParsedEntityRow} {error : ValidationError}
    (member : error ∈ duplicateNameErrors rows ++ duplicateBusinessIdErrors rows ++ domesticReferenceErrors rows) :
    error.file = FILE := by
  simp only [duplicateNameErrors, duplicateBusinessIdErrors, domesticReferenceErrors, List.mem_append, List.mem_flatMap]
    at member
  rcases member with (⟨_, _, name⟩ | ⟨_, _, businessId⟩) | ⟨row, _, domestic⟩
  · split at name
    · obtain ⟨_, _, rfl⟩ := List.mem_map.mp name
      rfl
    · cases name
  · split at businessId
    · obtain ⟨_, _, rfl⟩ := List.mem_map.mp businessId
      rfl
    · cases businessId
  · split at domestic
    · cases domestic
    · split at domestic
      · rw [List.mem_singleton.mp domestic]
        rfl
      · split at domestic
        · cases domestic
        · rw [List.mem_singleton.mp domestic]
          rfl

theorem validateEntitiesSheet_file {sheet : ParsedSheet} {today : Date} {error : ValidationError}
    (member : error ∈ (validateEntitiesSheet sheet today).1) : error.file = FILE := by
  unfold validateEntitiesSheet at member
  simp only at member
  split at member
  · exact checkHeaderSchema_file error member
  · simp only [List.append_assoc, List.mem_append, List.mem_flatMap] at member
    rcases member with ⟨row, _, inside⟩ | across
    · exact rowErrors_file inside
    · exact duplicateErrors_file (by simpa only [List.append_assoc, List.mem_append] using across)

end Entities

theorem validateBusinessIdsAgainstDb_file [Platform] {db : Database} {rows : List Entities.ParsedEntityRow}
    {error : ValidationError} (member : error ∈ validateBusinessIdsAgainstDb db rows) : error.file = Entities.FILE := by
  obtain ⟨⟨row, businessId⟩, _, reported⟩ := List.mem_filterMap.mp member
  simp only at reported
  split at reported
  · cases reported
  · split at reported
    · cases reported
      rfl
    · cases reported

namespace Ownership

variable {line : Nat}

theorem pctErrors_placed {pctRaw : String} : Placed FILE line "Ownership %" (pctErrors line pctRaw) := by
  refine .ite (fun _ => .single) fun _ => ?_
  cases parsePct pctRaw with
  | none => exact .single
  | some ownershipPct => exact .ite (fun _ => .none) fun _ => .single

variable [Platform] {entityTypeByName : InsertionMap String String}

theorem endErrors_placed {column fqRule value : String} :
    Placed FILE line column (endErrors entityTypeByName line column fqRule value) := by
  refine .ite (fun _ => .single) fun _ => ?_
  cases entityTypeByName.get? (normalizeName value) with
  | none => exact .single
  | some registrationType => exact .ite (fun _ => .single) fun _ => .none

theorem selfEdgeErrors_placed {parentEntity childEntity : String} :
    Placed FILE line "Child Entity" (selfEdgeErrors line parentEntity childEntity) :=
  .ite (fun _ => .single) fun _ => .none

/-- The errors of a row, by their column. -/
theorem mem_rowErrors {header : List String} {row : ParsedRow} {error : ValidationError} :
    error ∈ rowErrors header entityTypeByName row ↔
      error ∈ parentErrors entityTypeByName row.line (get header row.cells "Parent Entity") ∨
      (error ∈ childErrors entityTypeByName row.line (get header row.cells "Child Entity") ∨
        error ∈ selfEdgeErrors row.line (get header row.cells "Parent Entity") (get header row.cells "Child Entity")) ∨
      error ∈ pctErrors row.line (get header row.cells "Ownership %") := by
  simp only [rowErrors, List.mem_append, or_assoc]

theorem rowErrors_at {header : List String} {row : ParsedRow} {error : ValidationError}
    (member : error ∈ rowErrors header entityTypeByName row) : error.file = FILE ∧ error.line = row.line := by
  rcases mem_rowErrors.mp member with parent | (child | self) | pct
  · exact ⟨(endErrors_placed error parent).1, (endErrors_placed error parent).2.1⟩
  · exact ⟨(endErrors_placed error child).1, (endErrors_placed error child).2.1⟩
  · exact ⟨(selfEdgeErrors_placed error self).1, (selfEdgeErrors_placed error self).2.1⟩
  · exact ⟨(pctErrors_placed error pct).1, (pctErrors_placed error pct).2.1⟩

/-- The report of an end that resolves to nothing. -/
def unmatchedError (line : Nat) (column value : String) : ValidationError :=
  makeError FILE line column s!"{column} '{value}' does not match any Entity Name in entities.csv."

theorem duplicateErrors_text {rows : List ParsedOwnershipRow} {error : ValidationError}
    (member : error ∈ duplicateErrors rows) : error.file = FILE ∧ error.message.toList.head? = some 'D' := by
  simp only [duplicateErrors, List.mem_flatMap] at member
  obtain ⟨_, _, reported⟩ := member
  split at reported
  · obtain ⟨_, _, rfl⟩ := List.mem_map.mp reported
    exact ⟨rfl, by simp [duplicateError, makeError, toString]⟩
  · cases reported

theorem mem_validateOwnershipSheet {sheet : ParsedSheet} (complete : checkHeaderSchema .ownership sheet.header = [])
    {error : ValidationError} : error ∈ (validateOwnershipSheet sheet entityTypeByName).1 ↔
      (∃ row ∈ sheet.rows, error ∈ rowErrors sheet.header entityTypeByName row) ∨
      error ∈ duplicateErrors (sheet.rows.map (candidateRow sheet.header)) := by
  simp only [validateOwnershipSheet, complete, ne_eq, not_true_eq_false, if_false, List.mem_append, List.mem_flatMap,
    List.map_map]
  rfl

theorem validateOwnershipSheet_incomplete {sheet : ParsedSheet}
    (incomplete : checkHeaderSchema .ownership sheet.header ≠ []) :
    validateOwnershipSheet sheet entityTypeByName = (checkHeaderSchema .ownership sheet.header, []) := by
  simp only [validateOwnershipSheet, if_pos incomplete]

theorem validateOwnershipSheet_file {sheet : ParsedSheet} {error : ValidationError}
    (member : error ∈ (validateOwnershipSheet sheet entityTypeByName).1) : error.file = FILE := by
  by_cases complete : checkHeaderSchema .ownership sheet.header = []
  · rcases (mem_validateOwnershipSheet complete).mp member with ⟨row, _, inside⟩ | duplicate
    · exact (rowErrors_at inside).1
    · exact (duplicateErrors_text duplicate).1
  · rw [validateOwnershipSheet_incomplete complete] at member
    exact checkHeaderSchema_file error member

end Ownership

theorem validateOwnershipGraph_text [Platform] {rows : List Ownership.ParsedOwnershipRow}
    {existingEdges : List Graph.ExistingEdge}
    {error : ValidationError} (member : error ∈ Graph.validateOwnershipGraph rows existingEdges) :
    error.file = Ownership.FILE ∧
      (error.column = "Parent Entity" ∧ error.message.toList.head? = some 'O' ∨ error.column = "Ownership %") := by
  simp only [Graph.validateOwnershipGraph, Graph.cycleErrors, Graph.totalErrors, List.mem_append, List.mem_map] at member
  rcases member with ⟨row, _, rfl⟩ | ⟨row, _, rfl⟩
  · exact ⟨rfl, .inl ⟨rfl, by simp [Graph.cycleError, makeError, toString]⟩⟩
  · exact ⟨rfl, .inr rfl⟩

namespace Filings

variable {line : Nat} {value : String}

theorem dueDateErrors_placed : Placed FILE line "Due Date" (dueDateErrors line value) := by
  unfold dueDateErrors
  exact .ite (fun _ => .single) fun _ => .ite (fun _ => .single) fun _ => .none

theorem filedDateErrors_placed {status : String} {today : Date} :
    Placed FILE line "Filed Date" (filedDateErrors line status value today) :=
  .append pastDateErrors_placed (.ite (fun _ => .single) fun _ => .none)

variable [Platform] {entityJurisdictionByName : InsertionMap String String}

theorem entityNameErrors_placed : Placed FILE line "Entity Name" (entityNameErrors entityJurisdictionByName line value) :=
  .ite (fun _ => .single) fun _ => .ite (fun _ => .single) fun _ => .none

theorem jurisdictionErrors_placed {entityName : String} :
    Placed FILE line "Jurisdiction" (jurisdictionErrors entityJurisdictionByName line entityName value) := by
  unfold jurisdictionErrors
  refine .ite (fun _ => .single) fun _ => ?_
  refine .ite (fun _ => .single) fun _ => ?_
  cases (if isBlank entityName then none else entityJurisdictionByName.get? (normalizeName entityName)) with
  | none => exact .none
  | some registered => exact .ite (fun _ => .single) fun _ => .none

/-- The errors of a row, those on its name first. -/
theorem rowErrors_cases {header : List String} {today : Date} {row : ParsedRow} {error : ValidationError}
    (member : error ∈ rowErrors header entityJurisdictionByName today row) :
    error.file = FILE ∧ error.line = row.line ∧
      (error ∈ entityNameErrors entityJurisdictionByName row.line (get header row.cells "Entity Name") ∨
        error.column ≠ "Entity Name") := by
  have elsewhere : ∀ {column : String} {errors : List ValidationError}, Placed FILE row.line column errors →
      column ≠ "Entity Name" → error ∈ errors → error.file = FILE ∧ error.line = row.line ∧
        (error ∈ entityNameErrors entityJurisdictionByName row.line (get header row.cells "Entity Name") ∨
          error.column ≠ "Entity Name") := by
    intro column errors placed apart inside
    obtain ⟨file, line, same⟩ := placed error inside
    exact ⟨file, line, .inr (same ▸ apart)⟩
  simp only [rowErrors, List.mem_append] at member
  rcases member with ((((name | filingType) | jurisdiction) | dueDate) | status) | filedDate
  · obtain ⟨file, line, _⟩ := entityNameErrors_placed error name
    exact ⟨file, line, .inl name⟩
  · exact elsewhere requiredOneOfErrors_placed (by decide) filingType
  · exact elsewhere jurisdictionErrors_placed (by decide) jurisdiction
  · exact elsewhere dueDateErrors_placed (by decide) dueDate
  · exact elsewhere requiredOneOfErrors_placed (by decide) status
  · exact elsewhere filedDateErrors_placed (by decide) filedDate

theorem duplicateErrors_at {rows : List CandidateRow} {error : ValidationError} (member : error ∈ duplicateErrors rows) :
    error.file = FILE ∧ error.column = "Due Date" := by
  simp only [duplicateErrors, List.mem_flatMap] at member
  obtain ⟨_, _, reported⟩ := member
  split at reported
  · obtain ⟨_, _, rfl⟩ := List.mem_map.mp reported
    exact ⟨rfl, rfl⟩
  · cases reported

theorem mem_validateFilingsSheet {sheet : ParsedSheet} {today : Date}
    (complete : checkHeaderSchema .filings sheet.header = [])
    {error : ValidationError} : error ∈ (validateFilingsSheet sheet entityJurisdictionByName today).1 ↔
      (∃ row ∈ sheet.rows, error ∈ rowErrors sheet.header entityJurisdictionByName today row) ∨
      error ∈ duplicateErrors (sheet.rows.map (candidateRow sheet.header entityJurisdictionByName today)) := by
  simp only [validateFilingsSheet, complete, ne_eq, not_true_eq_false, if_false, List.mem_append, List.mem_flatMap]

theorem validateFilingsSheet_file {sheet : ParsedSheet} {today : Date} {error : ValidationError}
    (member : error ∈ (validateFilingsSheet sheet entityJurisdictionByName today).1) :
    error.file = FILE := by
  by_cases complete : checkHeaderSchema .filings sheet.header = []
  · rcases (mem_validateFilingsSheet complete).mp member with ⟨row, _, inside⟩ | duplicate
    · exact (rowErrors_cases inside).1
    · exact (duplicateErrors_at duplicate).1
  · simp only [validateFilingsSheet, if_pos complete] at member
    exact checkHeaderSchema_file error member

end Filings

abbrev HasColumns (slot : UploadSlot) (sheet : ParsedSheet) : Prop :=
  ∀ column ∈ (SLOT_SCHEMAS slot).requiredColumns, column ∈ sheet.header

section Upload

variable [Platform] {db : Database} {today : Date} {maxRows : Nat} {files : UploadFiles}
  {entities ownership filings : ParsedSheet}

theorem parseSlot_ok {file : Option UploadedFile} {slot : UploadSlot} {sheet : ParsedSheet} :
    parseSlot maxRows file slot = .ok sheet ↔ ∃ uploaded, file = some uploaded ∧
      parseSheetSync uploaded (SLOT_SCHEMAS slot).file = .ok sheet ∧ sheet.rows.length ≤ maxRows := by
  constructor
  · intro parsed
    unfold parseSlot at parsed
    simp only at parsed
    split at parsed
    · cases parsed
    · rename_i uploaded
      split at parsed
      · cases parsed
      · rename_i read
        split at parsed
        · cases parsed
        · rename_i within
          cases parsed
          exact ⟨uploaded, rfl, read, Nat.le_of_not_lt within⟩
  · intro parsed
    obtain ⟨uploaded, rfl, read, within⟩ := parsed
    simp only [parseSlot, read, if_neg (Nat.not_lt.mpr within)]

theorem parseSlot_lines {file : Option UploadedFile} {slot : UploadSlot} {sheet : ParsedSheet}
    (parsed : parseSlot maxRows file slot = .ok sheet) : (sheet.rows.map ParsedRow.line).Nodup := by
  obtain ⟨_, _, read, _⟩ := parseSlot_ok.mp parsed
  exact parseSheetSync_lines read

/-- The types and jurisdictions that the rows of a sheet register. -/
abbrev typesOf (entities : ParsedSheet) (today : Date) : InsertionMap String String :=
  entityTypeByName (Entities.validateEntitiesSheet entities today).2

abbrev jurisdictionsOf (entities : ParsedSheet) (today : Date) : InsertionMap String String :=
  entityJurisdictionByName (Entities.validateEntitiesSheet entities today).2

theorem mem_sortErrors {errors : List ValidationError} {error : ValidationError} :
    error ∈ sortErrors errors ↔ error ∈ errors :=
  (List.perm_insertionSort _ errors).mem_iff

/-- The errors of an upload are those of its sheets, of the names already in the
database and of the merged graph. -/
theorem Sheets.mem_errors (sheets : Sheets maxRows files entities ownership filings) {error : ValidationError} :
    error ∈ (validateUpload db today maxRows files).errors ↔
      (error ∈ (Entities.validateEntitiesSheet entities today).1 ∨
        error ∈ validateBusinessIdsAgainstDb db (Entities.validateEntitiesSheet entities today).2) ∨
      (error ∈ (Ownership.validateOwnershipSheet ownership (typesOf entities today)).1 ∨
        error ∈ Graph.validateOwnershipGraph (Ownership.validateOwnershipSheet ownership (typesOf entities today)).2
          (loadExistingEdges db)) ∨
      error ∈ (Filings.validateFilingsSheet filings (jurisdictionsOf entities today) today).1 := by
  simp only [validateUpload, sheets.entities, sheets.ownership, sheets.filings, onSheet, structuralErrors,
    List.nil_append, mem_sortErrors, List.mem_append, or_assoc]

/-- An error of ownership.csv comes from the sheet or from the graph. -/
theorem Sheets.mem_ownershipErrors (sheets : Sheets maxRows files entities ownership filings)
    {error : ValidationError} (file : error.file = Ownership.FILE) : error ∈ (validateUpload db today maxRows files).errors ↔
      error ∈ (Ownership.validateOwnershipSheet ownership (typesOf entities today)).1 ∨
        error ∈ Graph.validateOwnershipGraph (Ownership.validateOwnershipSheet ownership (typesOf entities today)).2
          (loadExistingEdges db) := by
  rw [sheets.mem_errors]
  constructor
  · intro reported
    rcases reported with (entity | businessId) | found | filing
    · have other := Entities.validateEntitiesSheet_file entity
      rw [file] at other
      exact absurd other (by decide)
    · have other := validateBusinessIdsAgainstDb_file businessId
      rw [file] at other
      exact absurd other (by decide)
    · exact found
    · have other := Filings.validateFilingsSheet_file filing
      rw [file] at other
      exact absurd other (by decide)
  · exact fun found => .inr (.inl found)

theorem Sheets.mem_filingErrors (sheets : Sheets maxRows files entities ownership filings)
    {error : ValidationError} (file : error.file = Filings.FILE) : error ∈ (validateUpload db today maxRows files).errors ↔
      error ∈ (Filings.validateFilingsSheet filings (jurisdictionsOf entities today) today).1 := by
  rw [sheets.mem_errors]
  constructor
  · intro reported
    rcases reported with (entity | businessId) | (edge | graph) | found
    · have other := Entities.validateEntitiesSheet_file entity
      rw [file] at other
      exact absurd other (by decide)
    · have other := validateBusinessIdsAgainstDb_file businessId
      rw [file] at other
      exact absurd other (by decide)
    · have other := Ownership.validateOwnershipSheet_file edge
      rw [file] at other
      exact absurd other (by decide)
    · have other := (validateOwnershipGraph_text graph).1
      rw [file] at other
      exact absurd other (by decide)
    · exact found
  · exact fun found => .inr (.inr found)

omit [Platform] in
/-- The rows of a file in their lines. -/
def numbered (rows : List (List String)) : List ParsedRow :=
  rows.zipIdx.map fun (cells, idx) => { line := idx + 2, cells }

omit [Platform] in
theorem map_numbered {β : Type} (f : List String → β) (rows : List (List String)) :
    (numbered rows).map (fun row => f row.cells) = rows.map f := by
  rw [numbered, List.map_map]
  conv_rhs => rw [← List.zipIdx_map_fst 0 rows, List.map_map]
  rfl

omit [Platform] in
theorem mem_numbered {rows : List (List String)} {row : ParsedRow} (member : row ∈ numbered rows) : row.cells ∈ rows := by
  have listed : id row.cells ∈ (numbered rows).map fun row => id row.cells := List.mem_map_of_mem member
  rw [map_numbered id rows, List.map_id] at listed
  exact listed

omit [Platform] in
theorem parseSlot_csvFile (slot : UploadSlot) {maxRows : Nat} {rows : List (List String)} (few : rows.length ≤ maxRows)
    (kept : ∀ cells ∈ rows, cells.any (fun cell => trim cell != "") = true) : letI := asciiPlatform
    parseSlot maxRows (csvFile slot rows) slot = .ok (slotSheet slot (numbered rows)) := by
  let _ := asciiPlatform
  have csv : endsWith ".xlsx" (Platform.toLowerCase (SLOT_SCHEMAS slot).file) = false ∧
      endsWith ".csv" (Platform.toLowerCase (SLOT_SCHEMAS slot).file) = true ∧
      (SLOT_SCHEMAS slot).requiredColumns.map trim = (SLOT_SCHEMAS slot).requiredColumns := by
    cases slot <;> decide +kernel
  have all : (numbered rows).filter (fun row => row.cells.any fun cell => trim cell != "") = numbered rows :=
    List.filter_eq_self.mpr fun row member => kept row.cells (mem_numbered member)
  refine parseSlot_ok.mpr ⟨_, rfl, ?_, ?_⟩
  · rw [parseSheetSync, readMatrix]
    simp only [csv.1, csv.2.1, csv.2.2, Bool.false_eq_true, if_false, if_true]
    rw [← all]
    rfl
  · rw [slotSheet, numbered, List.length_map, List.length_zipIdx]
    exact few

omit [Platform] in
/-- The cells of an entity row of `ownershipFiles`. -/
def plainCells (entity : String × String × String) : List String :=
  [entity.1, entity.2.1, "US", "Corporation", "Active", "", entity.2.2, "", "", ""]

omit [Platform] in
theorem ownershipFiles_sheets {maxRows : Nat} {entities ownership : List (String × String × String)}
    (few : entities.length ≤ maxRows) (fewEdges : ownership.length ≤ maxRows)
    (owned : ∀ edge ∈ ownership, trim edge.1 ≠ "") : letI := asciiPlatform
    Sheets maxRows (ownershipFiles entities ownership) (slotSheet .entities (numbered (entities.map plainCells)))
      (slotSheet .ownership (numbered (ownership.map fun edge => [edge.1, edge.2.1, edge.2.2])))
      (slotSheet .filings []) := by
  let _ := asciiPlatform
  refine ⟨?_, ?_, parseSlot_csvFile .filings (Nat.zero_le _) (List.forall_mem_nil _)⟩
  · apply parseSlot_csvFile .entities
    · rw [List.length_map]
      exact few
    · intro cells member
      obtain ⟨entity, _, rfl⟩ := List.mem_map.mp member
      exact List.any_eq_true.mpr ⟨"US", by simp, by decide⟩
  · apply parseSlot_csvFile .ownership
    · rw [List.length_map]
      exact fewEdges
    · intro cells member
      obtain ⟨edge, inside, rfl⟩ := List.mem_map.mp member
      exact List.any_eq_true.mpr ⟨edge.1, List.mem_cons_self .., bne_iff_ne.mpr (owned edge inside)⟩

end Upload

end Coverpin.Validation
