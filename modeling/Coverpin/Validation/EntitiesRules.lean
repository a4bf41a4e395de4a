import Coverpin.Validation.AcceptedRows
import Coverpin.Validation.CalendarDays

namespace Coverpin.Validation.Entities

open Coverpin.Data Coverpin.Parsing

/-! # The rules of entities.csv

What a sheet has to satisfy, said of its cells alone, and that the validator
reports nothing exactly then.
-/

/-- One name, or two with a single slash between them, neither of them blank. -/
inductive CountryOrState : String → Prop where
  | country {country : String} (free : '/' ∉ country.toList) (named : isBlank country = false) : CountryOrState country
  | state {country state : String} (countryFree : '/' ∉ country.toList) (stateFree : '/' ∉ state.toList)
      (countryNamed : isBlank country = false) (stateNamed : isBlank state = false) :
      CountryOrState (country ++ "/" ++ state)

/-- The rules for the cells of one row, `cell` giving the trimmed text in a column. -/
structure FieldRules (today : Date) (cell : String → String) : Prop where
  entityName : cell "Entity Name" ≠ ""
  registrationType : cell "Registration Type" ∈ REGISTRATION_TYPES
  jurisdiction : CountryOrState (cell "Jurisdiction")
  entityType : cell "Entity Type" ∈ ENTITY_TYPES
  entityStatus : cell "Entity Status" ∈ ENTITY_STATUSES
  statusDate : cell "Status Date" ≠ "" → ∃ date, parseDate (cell "Status Date") = some date
  terminal : cell "Entity Status" ∈ TERMINAL_ENTITY_STATUSES → cell "Status Date" ≠ ""
  domesticPresent : cell "Registration Type" = "FQ" → cell "Domestic Entity" ≠ ""
  domesticAbsent : cell "Registration Type" = "Entity" → cell "Domestic Entity" = ""
  formationDate : cell "Formation Date" ≠ "" →
    ∃ date, parseDate (cell "Formation Date") = some date ∧ isFutureDate date today = false
  globalRegion : cell "Global Region" ≠ "" → cell "Global Region" ∈ GLOBAL_REGIONS

/-- The rules for the rows of a sheet, within each row and across the rows. -/
structure SheetRules [Platform] (today : Date) (sheet : ParsedSheet) : Prop where
  fields : ∀ row ∈ sheet.rows, FieldRules today (get sheet.header row.cells)
  names : (sheet.rows.map fun row => normalizeName (get sheet.header row.cells "Entity Name")).Nodup
  businessIds : ((sheet.rows.map fun row => get sheet.header row.cells "Entity/Business ID").filter (· ≠ "")).Nodup
  domestic : ∀ row ∈ sheet.rows, get sheet.header row.cells "Registration Type" = "FQ" →
    ∃ other ∈ sheet.rows, get sheet.header other.cells "Registration Type" = "Entity" ∧
      normalizeName (get sheet.header other.cells "Entity Name") =
        normalizeName (get sheet.header row.cells "Domestic Entity")

theorem isBlank_trimmed {value : String} (trimmed : trim value = value) : isBlank value = true ↔ value = "" := by
  rw [isBlank, trimmed, beq_iff_eq]

theorem requiredErrors_eq_nil {file column value : String} {line : Nat} (trimmed : trim value = value) :
    requiredErrors file line column value = [] ↔ value ≠ "" := by
  rw [requiredErrors, ne_eq, ← isBlank_trimmed trimmed]
  split <;> simp [*]

/-- None of the values to choose from is blank. -/
theorem requiredOneOfErrors_eq_nil {file column value : String} {line : Nat} {allowed : List String}
    (named : ∀ value ∈ allowed, isBlank value = false) :
    requiredOneOfErrors file line column allowed value = [] ↔ value ∈ allowed := by
  constructor
  · exact fun accepted => (requiredOneOfErrors_accepted accepted).2
  · intro member
    simp [requiredOneOfErrors, named value member, member]

theorem isValidJurisdictionFormat_iff {value : String} (trimmed : trim value = value) :
    isValidJurisdictionFormat value = true ↔ CountryOrState value := by
  have slash : "/".toList = ['/'] := rfl
  have unblank : ∀ part : String, (trim part != "") = true ↔ isBlank part = false := by simp [isBlank]
  have ofParts : isValidJurisdictionFormat value = true ↔
      (split "/" value).length ≤ 2 ∧ ∀ part ∈ split "/" value, isBlank part = false := by
    by_cases empty : value = ""
    · subst empty
      decide
    · simp [isValidJurisdictionFormat, trimmed, empty, isBlank]
  rw [ofParts]
  constructor
  · intro valid
    obtain ⟨short, named⟩ := valid
    have joined := split_intercalate (by decide : "/".toList ≠ []) value
    have free : ∀ part ∈ split "/" value, '/' ∉ part.toList := fun part => split_part_free slash
    match parts : split "/" value with
    | [] => exact absurd parts (split_ne_nil _ _)
    | [country] =>
        rw [parts] at joined named free
        obtain rfl : value = country := String.toList_inj.mp (by simpa [List.intercalate] using joined)
        exact .country (free value (by simp)) (named value (by simp))
    | [country, state] =>
        rw [parts] at joined named free
        obtain rfl : value = country ++ "/" ++ state := by
          rw [← String.toList_inj, joined]
          simp [List.intercalate]
        exact .state (free country (by simp)) (free state (by simp)) (named country (by simp)) (named state (by simp))
    | _ :: _ :: _ :: _ => simp [parts] at short
  · intro valid
    cases valid with
    | country free named =>
        rw [split_clean slash free]
        simp [named]
    | state countryFree stateFree countryNamed stateNamed =>
        rw [split_two "/" slash countryFree stateFree]
        simp [countryNamed, stateNamed]

theorem jurisdictionErrors_eq_nil {line : Nat} {value : String} (trimmed : trim value = value) :
    jurisdictionErrors line value = [] ↔ CountryOrState value := by
  rw [← isValidJurisdictionFormat_iff trimmed, jurisdictionErrors, isBlank, trimmed]
  split
  · rename_i blank
    simp only [isValidJurisdictionFormat, trimmed, blank]
    simp
  · split <;> simp [*]

theorem statusDateErrors_eq_nil {line : Nat} {entityStatus raw : String} (trimmed : trim raw = raw)
    (listed : entityStatus ∈ ENTITY_STATUSES) : statusDateErrors line entityStatus raw = [] ↔
      (raw ≠ "" → ∃ date, parseDate raw = some date) ∧ (entityStatus ∈ TERMINAL_ENTITY_STATUSES → raw ≠ "") := by
  rw [statusDateErrors, List.append_eq_nil_iff, ne_eq, ← isBlank_trimmed trimmed, List.contains_iff_mem.mpr listed]
  cases isBlank raw <;> cases parseDate raw <;> simp

theorem domesticEntityErrors_eq_nil {line : Nat} {registrationType domesticEntity : String}
    (typeTrimmed : trim registrationType = registrationType) (trimmed : trim domesticEntity = domesticEntity) :
    domesticEntityErrors line registrationType domesticEntity = [] ↔
      (registrationType = "FQ" → domesticEntity ≠ "") ∧ (registrationType = "Entity" → domesticEntity = "") := by
  simp only [domesticEntityErrors, List.append_eq_nil_iff, typeTrimmed, isBlank_trimmed trimmed]
  simp

theorem pastDateErrors_eq_nil {file column raw : String} {line : Nat} {today : Date} (trimmed : trim raw = raw) :
    pastDateErrors file line column raw today = [] ↔
      (raw ≠ "" → ∃ date, parseDate raw = some date ∧ isFutureDate date today = false) := by
  rw [pastDateErrors, ne_eq, ← isBlank_trimmed trimmed]
  cases isBlank raw <;> cases parsed : parseDate raw <;> simp

theorem globalRegionErrors_eq_nil {line : Nat} {value : String} (trimmed : trim value = value) :
    globalRegionErrors line value = [] ↔ (value ≠ "" → value ∈ GLOBAL_REGIONS) := by
  rw [globalRegionErrors, ne_eq, ← isBlank_trimmed trimmed]
  cases isBlank value <;> simp

theorem FieldRules.candidate_named {today : Date} {header : List String} {row : ParsedRow}
    (rules : FieldRules today (get header row.cells)) : isBlank (candidateRow header row).entityName = false := by
  rw [Bool.eq_false_iff, ne_eq, candidateRow, isBlank_trimmed (trim_get _ _ _)]
  exact rules.entityName

theorem FieldRules.candidate_domestic {today : Date} {header : List String} {row : ParsedRow}
    (rules : FieldRules today (get header row.cells)) {domesticEntity : String} :
    (candidateRow header row).domesticEntity = some domesticEntity ↔
      get header row.cells "Registration Type" = "FQ" ∧ get header row.cells "Domestic Entity" = domesticEntity := by
  have trimmed := trim_get header row.cells
  simp only [candidateRow, trimmed, nonBlank, isBlank_trimmed (trimmed _)]
  by_cases fq : get header row.cells "Registration Type" = "FQ"
  · simp [fq, rules.domesticPresent fq]
  · simp [fq]

variable [Platform]

theorem rowErrors_eq_nil {header : List String} {today : Date} {row : ParsedRow} :
    rowErrors header today row = [] ↔ FieldRules today (get header row.cells) := by
  have trimmed := trim_get header row.cells
  simp only [rowErrors, List.append_eq_nil_iff, requiredErrors_eq_nil (trimmed _), jurisdictionErrors_eq_nil (trimmed _),
    requiredOneOfErrors_eq_nil (by decide : ∀ value ∈ REGISTRATION_TYPES, isBlank value = false),
    requiredOneOfErrors_eq_nil (by decide : ∀ value ∈ ENTITY_TYPES, isBlank value = false),
    requiredOneOfErrors_eq_nil (by decide : ∀ value ∈ ENTITY_STATUSES, isBlank value = false),
    domesticEntityErrors_eq_nil (trimmed _) (trimmed _), pastDateErrors_eq_nil (trimmed _),
    globalRegionErrors_eq_nil (trimmed _)]
  constructor
  · intro accepted
    obtain ⟨⟨⟨⟨⟨⟨⟨⟨name, type⟩, jurisdiction⟩, entityType⟩, entityStatus⟩, status⟩, domestic⟩, formation⟩, region⟩ :=
      accepted
    obtain ⟨statusDate, terminal⟩ := (statusDateErrors_eq_nil (trimmed _) entityStatus).mp status
    exact ⟨name, type, jurisdiction, entityType, entityStatus, statusDate, terminal, domestic.1, domestic.2, formation, region⟩
  · intro rules
    exact ⟨⟨⟨⟨⟨⟨⟨⟨rules.entityName, rules.registrationType⟩, rules.jurisdiction⟩, rules.entityType⟩, rules.entityStatus⟩,
      (statusDateErrors_eq_nil (trimmed _) rules.entityStatus).mpr ⟨rules.statusDate, rules.terminal⟩⟩,
      rules.domesticPresent, rules.domesticAbsent⟩, rules.formationDate⟩, rules.globalRegion⟩

section Rows

variable {sheet : ParsedSheet} {today : Date}

theorem duplicateNameErrors_eq_nil (fields : ∀ row ∈ sheet.rows, FieldRules today (get sheet.header row.cells)) :
    duplicateNameErrors (sheet.rows.map (candidateRow sheet.header)) = [] ↔
      (sheet.rows.map fun row => normalizeName (get sheet.header row.cells "Entity Name")).Nodup := by
  have all : (sheet.rows.map (candidateRow sheet.header)).filter (fun row => !isBlank row.entityName) =
      sheet.rows.map (candidateRow sheet.header) := by
    refine List.filter_eq_self.mpr (List.forall_mem_map.mpr fun row member => ?_)
    rw [(fields row member).candidate_named]
    rfl
  rw [duplicateNameErrors, all]
  simp only [InsertionMap.groupBy_reports_eq_nil, List.map_map]
  rfl

omit [Platform] in
theorem duplicateBusinessIdErrors_eq_nil : duplicateBusinessIdErrors (sheet.rows.map (candidateRow sheet.header)) = [] ↔
    ((sheet.rows.map fun row => get sheet.header row.cells "Entity/Business ID").filter (· ≠ "")).Nodup := by
  rw [duplicateBusinessIdErrors]
  simp only [InsertionMap.groupBy_reports_eq_nil]
  have ids : ((sheet.rows.map (candidateRow sheet.header)).filterMap fun row =>
      row.businessId.map fun businessId => (businessId, row.line)).map Prod.fst =
      (sheet.rows.map fun row => get sheet.header row.cells "Entity/Business ID").filter (· ≠ "") := by
    rw [List.map_filterMap, List.filterMap_map, ← List.filterMap_eq_filter, List.filterMap_map]
    apply List.filterMap_congr
    intro row _
    by_cases blank : get sheet.header row.cells "Entity/Business ID" = ""
    · simp [candidateRow, nonBlank, blank, (by decide : isBlank "" = true), Option.guard]
    · have named : isBlank (get sheet.header row.cells "Entity/Business ID") = false := by
        rw [Bool.eq_false_iff, ne_eq, isBlank_trimmed (trim_get _ _ _)]
        exact blank
      simp [candidateRow, nonBlank, blank, named, Option.guard]
  rw [ids]

/-- Every row has its own name and type in the table of types. -/
theorem typeByName_iff (fields : ∀ row ∈ sheet.rows, FieldRules today (get sheet.header row.cells))
    (names : (sheet.rows.map fun row => normalizeName (get sheet.header row.cells "Entity Name")).Nodup)
    {name type : String} : (typeByName (sheet.rows.map (candidateRow sheet.header))).get? name = some type ↔
      ∃ row ∈ sheet.rows, normalizeName (get sheet.header row.cells "Entity Name") = name ∧
        get sheet.header row.cells "Registration Type" = type := by
  have all : (sheet.rows.map (candidateRow sheet.header)).filter (fun row =>
      !isBlank row.entityName && REGISTRATION_TYPES.contains row.registrationType) =
      sheet.rows.map (candidateRow sheet.header) := by
    refine List.filter_eq_self.mpr (List.forall_mem_map.mpr fun row member => ?_)
    rw [(fields row member).candidate_named, Bool.not_false, Bool.true_and, List.contains_iff_mem]
    exact (fields row member).registrationType
  rw [typeByName, all, List.map_map, InsertionMap.get?_ofPairs]
  · simp only [List.mem_map, Function.comp_apply, Prod.mk.injEq, candidateRow]
  · rw [List.map_map]
    exact names

theorem domesticReferenceErrors_eq_nil (fields : ∀ row ∈ sheet.rows, FieldRules today (get sheet.header row.cells))
    (names : (sheet.rows.map fun row => normalizeName (get sheet.header row.cells "Entity Name")).Nodup) :
    domesticReferenceErrors (sheet.rows.map (candidateRow sheet.header)) = [] ↔
      ∀ row ∈ sheet.rows, get sheet.header row.cells "Registration Type" = "FQ" →
        ∃ other ∈ sheet.rows, get sheet.header other.cells "Registration Type" = "Entity" ∧
          normalizeName (get sheet.header other.cells "Entity Name") =
            normalizeName (get sheet.header row.cells "Domestic Entity") := by
  constructor
  · intro accepted row member fq
    obtain ⟨other, inside, name, type⟩ := domesticReferenceErrors_accepted accepted (List.mem_map_of_mem member)
      ((fields row member).candidate_domestic.mpr ⟨fq, rfl⟩)
    obtain ⟨source, listed, rfl⟩ := List.mem_map.mp inside
    exact ⟨source, listed, type, name⟩
  · intro references
    rw [domesticReferenceErrors, List.flatMap_eq_nil_iff]
    intro row member
    obtain ⟨source, inside, rfl⟩ := List.mem_map.mp member
    cases domestic : (candidateRow sheet.header source).domesticEntity with
    | none => rfl
    | some domesticEntity =>
        obtain ⟨fq, rfl⟩ := (fields source inside).candidate_domestic.mp domestic
        obtain ⟨other, listed, type, name⟩ := references source inside fq
        have found := (typeByName_iff fields names).mpr ⟨other, listed, name, type⟩
        simp only [found, if_true]

theorem validateEntitiesSheet_iff_rules : (validateEntitiesSheet sheet today).1 = [] ↔
    (∀ column ∈ (SLOT_SCHEMAS .entities).requiredColumns, column ∈ sheet.header) ∧ SheetRules today sheet := by
  rw [validateEntitiesSheet_eq_nil, checkHeaderSchema_eq_nil, duplicateBusinessIdErrors_eq_nil]
  simp only [rowErrors_eq_nil]
  refine and_congr_right fun _ => ?_
  constructor
  · intro accepted
    obtain ⟨fields, names, businessIds, domestic⟩ := accepted
    have distinct := (duplicateNameErrors_eq_nil fields).mp names
    exact ⟨fields, distinct, businessIds, (domesticReferenceErrors_eq_nil fields distinct).mp domestic⟩
  · intro rules
    exact ⟨rules.fields, (duplicateNameErrors_eq_nil rules.fields).mpr rules.names, rules.businessIds,
      (domesticReferenceErrors_eq_nil rules.fields rules.names).mpr rules.domestic⟩

/-- A sheet with all columns is accepted exactly when it satisfies the rules, and
then each of its rows is returned in its place. -/
theorem acceptedSheets_exact (sheet : ParsedSheet) (today : Date)
    (complete : ∀ column ∈ (SLOT_SCHEMAS .entities).requiredColumns, column ∈ sheet.header) :
    ((validateEntitiesSheet sheet today).1 = [] ↔ SheetRules today sheet) ∧
      (SheetRules today sheet → (validateEntitiesSheet sheet today).2 = sheet.rows.map (candidateRow sheet.header)) := by
  have exact_ : (validateEntitiesSheet sheet today).1 = [] ↔ SheetRules today sheet :=
    validateEntitiesSheet_iff_rules.trans ⟨And.right, fun rules => ⟨complete, rules⟩⟩
  refine ⟨exact_, fun rules => ?_⟩
  obtain ⟨_, _, _, returned⟩ := validateEntitiesSheet_accepted (exact_.mpr rules)
  exact returned

/-- An FQ whose domestic entity comes in a later row, under another spelling. -/
def forwardReference : ParsedSheet where
  header := (SLOT_SCHEMAS .entities).requiredColumns
  rows := [
    { line := 2, cells := ["Acme Texas", "FQ", "United States/Texas", "Trust", "Dormant", "1/2/2020", " ACME ", "", "", ""] },
    { line := 3, cells := ["Acme", "Entity", "France", "Trust", "Active", "", "", "2019-12-31", "17", "Latin America"] }]

omit [Platform] in
example : letI := asciiPlatform
    ((validateEntitiesSheet forwardReference ⟨1700000000000⟩).2.map ParsedEntityRow.line) = [2, 3] := by
  decide +kernel

omit [Platform] in
theorem forwardReference_exact : letI := asciiPlatform
    ((validateEntitiesSheet forwardReference ⟨1700000000000⟩).1 = [] ↔ SheetRules ⟨1700000000000⟩ forwardReference) ∧
      (SheetRules ⟨1700000000000⟩ forwardReference → (validateEntitiesSheet forwardReference ⟨1700000000000⟩).2 =
        forwardReference.rows.map (candidateRow forwardReference.header)) :=
  letI := asciiPlatform
  acceptedSheets_exact forwardReference ⟨1700000000000⟩ fun _ => id

end Rows

end Coverpin.Validation.Entities
