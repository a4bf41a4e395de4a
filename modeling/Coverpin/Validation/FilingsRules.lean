import Coverpin.Validation.OwnershipRules
import Coverpin.Validation.FilingKeys

namespace Coverpin.Validation.Filings

open Coverpin.Data Coverpin.Parsing Coverpin.Validation.Entities

/-! # The rules of filings.csv

What a sheet has to satisfy, said of its cells and of the jurisdictions that the
entities of the upload are registered in, and that the validator reports nothing
exactly then.
-/

/-- The rules for the cells of one row, `cell` giving the trimmed text in a column
and `registered` relating a name to its jurisdiction. -/
structure FieldRules [Platform] (today : Date) (registered : String → String → Prop) (cell : String → String) : Prop where
  entityName : cell "Entity Name" ≠ ""
  filingType : cell "Filing Type" ∈ FILING_TYPES
  jurisdiction : CountryOrState (cell "Jurisdiction")
  registered : registered (normalizeName (cell "Entity Name")) (cell "Jurisdiction")
  dueDate : ∃ date, parseDate (cell "Due Date") = some date
  status : cell "Status" ∈ FILING_STATUSES
  filedDate : cell "Filed Date" ≠ "" →
    ∃ date, parseDate (cell "Filed Date") = some date ∧ isFutureDate date today = false
  filed : cell "Status" = "Filed" → cell "Filed Date" ≠ ""

/-- The due date counts as it is written. -/
def writtenKey [Platform] (header : List String) (row : ParsedRow) : String × String × String :=
  (normalizeName (get header row.cells "Entity Name"), get header row.cells "Filing Type",
    get header row.cells "Due Date")

structure SheetRules [Platform] (today : Date) (registered : String → String → Prop) (sheet : ParsedSheet) : Prop where
  fields : ∀ row ∈ sheet.rows, FieldRules today registered (get sheet.header row.cells)
  keys : (sheet.rows.map (writtenKey sheet.header)).Nodup

theorem SheetRules.imp [Platform] {today : Date} {registered other : String → String → Prop} {sheet : ParsedSheet}
    (rules : SheetRules today registered sheet) (maps : ∀ name jurisdiction, registered name jurisdiction → other name jurisdiction) :
    SheetRules today other sheet where
  fields row member :=
    let fields := rules.fields row member
    { fields with registered := maps _ _ fields.registered }
  keys := rules.keys

theorem dueDateErrors_eq_nil {line : Nat} {dueDateRaw : String} (trimmed : trim dueDateRaw = dueDateRaw) :
    dueDateErrors line dueDateRaw = [] ↔ ∃ date, parseDate dueDateRaw = some date := by
  rw [dueDateErrors]
  cases blank : isBlank dueDateRaw with
  | true =>
      obtain rfl := (isBlank_trimmed trimmed).mp blank
      have unread : parseDate "" = none := by decide
      simp [unread]
  | false => cases parsed : parseDate dueDateRaw <;> simp

theorem filedDateErrors_eq_nil {line : Nat} {status filedDateRaw : String} {today : Date}
    (trimmed : trim filedDateRaw = filedDateRaw) : filedDateErrors line status filedDateRaw today = [] ↔
      (filedDateRaw ≠ "" → ∃ date, parseDate filedDateRaw = some date ∧ isFutureDate date today = false) ∧
      (status = "Filed" → filedDateRaw ≠ "") := by
  have listed : status = "Filed" → FILING_STATUSES.contains status = true := by
    intro filed
    rw [filed]
    decide
  rw [filedDateErrors, List.append_eq_nil_iff, pastDateErrors_eq_nil trimmed]
  refine and_congr_right fun _ => ?_
  rw [ne_eq, ← isBlank_trimmed trimmed]
  by_cases filed : status = "Filed"
  · rw [listed filed, filed]
    cases isBlank filedDateRaw <;> simp
  · simp [filed]

section Rows

variable [Platform] {entityJurisdictionByName : InsertionMap String String} {today : Date}

def Registered (entityJurisdictionByName : InsertionMap String String) (name jurisdiction : String) : Prop :=
  entityJurisdictionByName.get? name = some jurisdiction

/-- The name and the jurisdiction are checked one after the other. -/
theorem registrationErrors_eq_nil {line : Nat} {entityName jurisdiction : String}
    (nameTrimmed : trim entityName = entityName)
    (trimmed : trim jurisdiction = jurisdiction) :
    (entityNameErrors entityJurisdictionByName line entityName = [] ∧
        jurisdictionErrors entityJurisdictionByName line entityName jurisdiction = []) ↔
      entityName ≠ "" ∧ CountryOrState jurisdiction ∧
        Registered entityJurisdictionByName (normalizeName entityName) jurisdiction := by
  rw [← isValidJurisdictionFormat_iff trimmed, ne_eq, ← isBlank_trimmed nameTrimmed, entityNameErrors,
    jurisdictionErrors, Registered]
  have unnamed : isBlank jurisdiction = true → isValidJurisdictionFormat jurisdiction = false := by
    intro blank
    obtain rfl := (isBlank_trimmed trimmed).mp blank
    decide
  cases isBlank entityName with
  | true => simp
  | false =>
      cases entityJurisdictionByName.get? (normalizeName entityName) with
      | none => simp
      | some registered =>
          cases blank : isBlank jurisdiction with
          | true => simp [unnamed blank]
          | false =>
              by_cases same : jurisdiction = registered
              · cases isValidJurisdictionFormat jurisdiction <;> simp [same]
              · have other : registered ≠ jurisdiction := fun equal => same equal.symm
                cases isValidJurisdictionFormat jurisdiction <;> simp [same, other]

theorem rowErrors_eq_nil {header : List String} {row : ParsedRow} :
    rowErrors header entityJurisdictionByName today row = [] ↔
      FieldRules today (Registered entityJurisdictionByName) (get header row.cells) := by
  have trimmed := trim_get header row.cells
  simp only [rowErrors, List.append_eq_nil_iff,
    requiredOneOfErrors_eq_nil (by decide : ∀ value ∈ FILING_TYPES, isBlank value = false),
    requiredOneOfErrors_eq_nil (by decide : ∀ value ∈ FILING_STATUSES, isBlank value = false),
    dueDateErrors_eq_nil (trimmed _), filedDateErrors_eq_nil (trimmed _)]
  constructor
  · intro accepted
    obtain ⟨⟨⟨⟨⟨name, filingType⟩, jurisdiction⟩, dueDate⟩, status⟩, filedDate, filed⟩ := accepted
    obtain ⟨present, format, registered⟩ :=
      (registrationErrors_eq_nil (trimmed _) (trimmed _)).mp ⟨name, jurisdiction⟩
    exact ⟨present, filingType, format, registered, dueDate, status, filedDate, filed⟩
  · intro rules
    obtain ⟨name, jurisdiction⟩ := (registrationErrors_eq_nil (trimmed _) (trimmed _)).mpr
      ⟨rules.entityName, rules.jurisdiction, rules.registered⟩
    exact ⟨⟨⟨⟨⟨name, rules.filingType⟩, jurisdiction⟩, rules.dueDate⟩, rules.status⟩, rules.filedDate, rules.filed⟩

omit [Platform] in
theorem append_inj_of_free {sep : Char} {left right left' right' : List Char} (free : sep ∉ right) (free' : sep ∉ right')
    (same : left ++ sep :: right = left' ++ sep :: right') : left = left' ∧ right = right' := by
  induction left generalizing left' with
  | nil =>
      cases left' with
      | nil => simpa using same
      | cons first left' =>
          obtain ⟨rfl, rfl⟩ := List.cons.inj same
          simp at free
  | cons first left induction =>
      cases left' with
      | nil =>
          obtain ⟨rfl, rfl⟩ := List.cons.inj same
          simp at free'
      | cons other left' =>
          obtain ⟨rfl, rest⟩ := List.cons.inj same
          obtain ⟨rfl, rfl⟩ := induction rest
          exact ⟨rfl, rfl⟩

omit [Platform] in
theorem parsed_pipeFree {raw : String} {date : Date} (parsed : parseDate raw = some date) : '|' ∉ (trim raw).toList := by
  obtain ⟨year, month, day, spelled, _⟩ := parseDate_eq_some.mp parsed
  have free : ∀ {low high : Nat} {text : String}, isDigits low high text = true → '|' ∉ text.toList :=
    fun digits => isDigits_free digits (by decide)
  generalize trim raw = text at spelled ⊢
  cases spelled with
  | iso yearDigits monthDigits dayDigits => simp [free yearDigits, free monthDigits, free dayDigits]
  | us monthDigits dayDigits yearDigits => simp [free yearDigits, free monthDigits, free dayDigits]

/-- With a listed filing type and a readable due date the key can be read back. -/
theorem seenKey_inj {sheet : ParsedSheet}
    (fields : ∀ row ∈ sheet.rows, FieldRules today (Registered entityJurisdictionByName) (get sheet.header row.cells))
    {first second : ParsedRow} (firstMember : first ∈ sheet.rows) (secondMember : second ∈ sheet.rows) :
    seenKey (candidateRow sheet.header entityJurisdictionByName today first) =
        seenKey (candidateRow sheet.header entityJurisdictionByName today second) ↔
      writtenKey sheet.header first = writtenKey sheet.header second := by
  have dueFree : ∀ row ∈ sheet.rows, '|' ∉ (get sheet.header row.cells "Due Date").toList := by
    intro row member
    obtain ⟨date, parsed⟩ := (fields row member).dueDate
    rw [← trim_get]
    exact parsed_pipeFree parsed
  have typeFree : ∀ row ∈ sheet.rows, '|' ∉ (get sheet.header row.cells "Filing Type").toList := by
    intro row member
    have listed : ∀ filingType ∈ FILING_TYPES, '|' ∉ filingType.toList := by decide
    exact listed _ (fields row member).filingType
  have key : ∀ row, (seenKey (candidateRow sheet.header entityJurisdictionByName today row)).toList =
      ((normalizeName (get sheet.header row.cells "Entity Name")).toList ++ ['|', '|'] ++
        '|' :: (get sheet.header row.cells "Filing Type").toList) ++ ['|', '|'] ++
          '|' :: (get sheet.header row.cells "Due Date").toList := by
    intro row
    simp [seenKey, candidateRow, trim_get]
  constructor
  · intro same
    have chars := congrArg String.toList same
    rw [key, key] at chars
    obtain ⟨before, dueDate⟩ := append_inj_of_free (dueFree first firstMember) (dueFree second secondMember) chars
    obtain ⟨name, filingType⟩ := append_inj_of_free (typeFree first firstMember) (typeFree second secondMember)
      (List.append_cancel_right before)
    rw [writtenKey, writtenKey, String.toList_inj.mp (List.append_cancel_right name), String.toList_inj.mp filingType,
      String.toList_inj.mp dueDate]
  · intro same
    simp only [writtenKey, Prod.mk.injEq] at same
    simp only [seenKey, candidateRow, same.1, same.2.1, same.2.2]

omit [Platform] in
/-- What is returned for a row: its cells, with the dates they spell. -/
structure Returned (header : List String) (source : ParsedRow) (row : ParsedFilingRow) : Prop where
  line : row.line = source.line
  entityName : row.entityName = get header source.cells "Entity Name"
  filingType : row.filingType = get header source.cells "Filing Type"
  jurisdiction : row.jurisdiction = get header source.cells "Jurisdiction"
  filingAuthority : row.filingAuthority = nonBlank (get header source.cells "Filing Authority")
  dueDate : parseDate (get header source.cells "Due Date") = some row.dueDate
  filedDate : row.filedDate = optionalDate (get header source.cells "Filed Date")
  status : row.status = get header source.cells "Status"

theorem returned_rows {header : List String} {rows : List ParsedRow}
    (fields : ∀ row ∈ rows, FieldRules today (Registered entityJurisdictionByName) (get header row.cells)) :
    List.Forall₂ (Returned header) rows
      ((rows.map (candidateRow header entityJurisdictionByName today)).filterMap CandidateRow.parsed) := by
  induction rows with
  | nil => exact .nil
  | cons row rows induction =>
      have rest := induction fun other member => fields other (List.mem_cons_of_mem _ member)
      obtain ⟨_, _, date, parsed, optional⟩ := rowErrors_accepted (rowErrors_eq_nil.mpr (fields row (by simp)))
      have found : (candidateRow header entityJurisdictionByName today row).parsed = some {
          line := row.line
          entityName := get header row.cells "Entity Name"
          filingType := get header row.cells "Filing Type"
          jurisdiction := get header row.cells "Jurisdiction"
          filingAuthority := nonBlank (get header row.cells "Filing Authority")
          dueDate := date
          filedDate := optionalDate (get header row.cells "Filed Date")
          status := get header row.cells "Status" } := by
        simp [CandidateRow.parsed, candidateRow, optional, nonBlank]
      rw [List.map_cons, List.filterMap_cons_some found]
      refine .cons ?_ rest
      constructor <;> simp only [parsed]

theorem duplicateErrors_eq_nil {sheet : ParsedSheet}
    (fields : ∀ row ∈ sheet.rows, FieldRules today (Registered entityJurisdictionByName) (get sheet.header row.cells)) :
    duplicateErrors (sheet.rows.map (candidateRow sheet.header entityJurisdictionByName today)) = [] ↔
      (sheet.rows.map (writtenKey sheet.header)).Nodup := by
  have all : (sheet.rows.map (candidateRow sheet.header entityJurisdictionByName today)).filter (fun row =>
      !isBlank row.entityName && !isBlank row.filingType && row.dueDate.isSome) =
      sheet.rows.map (candidateRow sheet.header entityJurisdictionByName today) := by
    refine List.filter_eq_self.mpr (List.forall_mem_map.mpr fun row member => ?_)
    obtain ⟨name, filingType, date, _, parsed⟩ := rowErrors_accepted (rowErrors_eq_nil.mpr (fields row member))
    simp [candidateRow, name, filingType, parsed]
  rw [duplicateErrors, seenKeys, all]
  simp only [InsertionMap.groupBy_reports_eq_nil, List.map_map]
  rw [List.Nodup, List.pairwise_map, List.Nodup, List.pairwise_map]
  refine List.Pairwise.iff_of_mem fun firstMember secondMember => ?_
  exact not_congr (seenKey_inj fields firstMember secondMember)

theorem validateFilingsSheet_iff_rules {sheet : ParsedSheet} :
    (validateFilingsSheet sheet entityJurisdictionByName today).1 = [] ↔
      (∀ column ∈ (SLOT_SCHEMAS .filings).requiredColumns, column ∈ sheet.header) ∧
        SheetRules today (Registered entityJurisdictionByName) sheet := by
  rw [validateFilingsSheet_eq_nil, checkHeaderSchema_eq_nil]
  simp only [rowErrors_eq_nil]
  refine and_congr_right fun _ => ?_
  constructor
  · intro accepted
    obtain ⟨fields, keys⟩ := accepted
    exact ⟨fields, (duplicateErrors_eq_nil fields).mp keys⟩
  · intro rules
    exact ⟨rules.fields, (duplicateErrors_eq_nil rules.fields).mpr rules.keys⟩

/-- A sheet with all columns is accepted exactly when it satisfies the rules, and
then it returns one row for each of its rows, in their order, with the dates that
the cells spell. -/
theorem filingSheets_exact (sheet : ParsedSheet) (entityJurisdictionByName : InsertionMap String String) (today : Date)
    (complete : ∀ column ∈ (SLOT_SCHEMAS .filings).requiredColumns, column ∈ sheet.header) :
    ((validateFilingsSheet sheet entityJurisdictionByName today).1 = [] ↔
        SheetRules today (Registered entityJurisdictionByName) sheet) ∧
      (SheetRules today (Registered entityJurisdictionByName) sheet →
        List.Forall₂ (Returned sheet.header) sheet.rows (validateFilingsSheet sheet entityJurisdictionByName today).2) := by
  have exact_ : (validateFilingsSheet sheet entityJurisdictionByName today).1 = [] ↔
      SheetRules today (Registered entityJurisdictionByName) sheet :=
    validateFilingsSheet_iff_rules.trans ⟨And.right, fun rules => ⟨complete, rules⟩⟩
  refine ⟨exact_, fun rules => ?_⟩
  obtain ⟨_, _, returned⟩ := validateFilingsSheet_accepted (exact_.mpr rules)
  rw [returned]
  exact returned_rows rules.fields

omit [Platform] in
example : letI := asciiPlatform
    (validateFilingsSheet (annualReports ["2024-01-05", "1/6/2024"]) (.ofPairs [("acme", "US")]) ⟨0⟩).2.map
      (fun row => toDateOnlyString row.dueDate) = ["2024-01-05", "2024-01-06"] := by
  decide +kernel

omit [Platform] in
theorem annualReports_exact : letI := asciiPlatform
    let sheet := annualReports ["2024-01-05", "1/6/2024"]
    let jurisdictions : InsertionMap String String := .ofPairs [("acme", "US")]
    ((validateFilingsSheet sheet jurisdictions ⟨0⟩).1 = [] ↔ SheetRules ⟨0⟩ (Registered jurisdictions) sheet) ∧
      (SheetRules ⟨0⟩ (Registered jurisdictions) sheet →
        List.Forall₂ (Returned sheet.header) sheet.rows (validateFilingsSheet sheet jurisdictions ⟨0⟩).2) :=
  letI := asciiPlatform
  filingSheets_exact (annualReports ["2024-01-05", "1/6/2024"]) (.ofPairs [("acme", "US")]) ⟨0⟩ fun _ => id

end Rows

end Coverpin.Validation.Filings
