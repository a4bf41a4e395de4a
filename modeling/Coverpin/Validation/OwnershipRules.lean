import Coverpin.Validation.EntitiesRules

namespace Coverpin.Validation.Ownership

open Coverpin.Data Coverpin.Parsing Coverpin.Validation.Entities

/-! # The rules of ownership.csv

What a sheet has to satisfy, said of its cells and of the entities of the upload,
and that the validator reports nothing exactly then.
-/

/-- A number with at most two decimals, and how many hundredths it is. -/
inductive PctText : String → Nat → Prop where
  | whole {whole : String} (digits : isDigits 1 whole.toList.length whole = true) :
      PctText whole (100 * digitsValue whole)
  | tenths {whole tenth : String} (digits : isDigits 1 whole.toList.length whole = true)
      (decimal : isDigits 1 1 tenth = true) :
      PctText (whole ++ "." ++ tenth) (100 * digitsValue whole + 10 * digitsValue tenth)
  | hundredths {whole decimals : String} (digits : isDigits 1 whole.toList.length whole = true)
      (decimal : isDigits 2 2 decimals = true) :
      PctText (whole ++ "." ++ decimals) (100 * digitsValue whole + digitsValue decimals)

/-- The rules for the cells of one row, `cell` giving the trimmed text in a column. -/
structure FieldRules [Platform] (named : String → Prop) (cell : String → String) : Prop where
  parentPresent : cell "Parent Entity" ≠ ""
  childPresent : cell "Child Entity" ≠ ""
  parentEntity : named (normalizeName (cell "Parent Entity"))
  childEntity : named (normalizeName (cell "Child Entity"))
  apart : normalizeName (cell "Parent Entity") ≠ normalizeName (cell "Child Entity")
  ownershipPct : ∃ hundredths, PctText (cell "Ownership %") hundredths ∧ 0 < hundredths ∧ hundredths ≤ 100 * 100

/-- The rules for the rows of a sheet, `named` holding of the names it may refer to. -/
structure SheetRules [Platform] (named : String → Prop) (sheet : ParsedSheet) : Prop where
  fields : ∀ row ∈ sheet.rows, FieldRules named (get sheet.header row.cells)
  pairs : (sheet.rows.map fun row =>
    edgeKey (get sheet.header row.cells "Parent Entity") (get sheet.header row.cells "Child Entity")).Nodup

theorem SheetRules.imp [Platform] {named other : String → Prop} {sheet : ParsedSheet} (rules : SheetRules named sheet)
    (maps : ∀ name, named name → other name) : SheetRules other sheet where
  fields row member :=
    let fields := rules.fields row member
    { fields with parentEntity := maps _ fields.parentEntity, childEntity := maps _ fields.childEntity }
  pairs := rules.pairs

theorem isDigits_two {text : String} : isDigits 1 2 text = true ↔ isDigits 1 1 text = true ∨ isDigits 2 2 text = true := by
  simp only [isDigits, Bool.and_eq_true, decide_eq_true_eq]
  constructor
  · intro digits
    obtain ⟨⟨low, high⟩, all⟩ := digits
    rcases Nat.lt_or_ge text.toList.length 2 with short | long
    · exact .inl ⟨⟨low, by omega⟩, all⟩
    · exact .inr ⟨⟨long, high⟩, all⟩
  · intro digits
    rcases digits with one | two
    · exact ⟨⟨one.1.1, by omega⟩, one.2⟩
    · exact ⟨⟨by omega, two.1.2⟩, two.2⟩

theorem isDigits_length {count : Nat} {text : String} (digits : isDigits count count text = true) :
    text.toList.length = count := by
  simp only [isDigits, Bool.and_eq_true, decide_eq_true_eq] at digits
  omega

/-- The parser reads exactly the numbers with at most two decimals. -/
theorem parsePct_eq_some {pctRaw : String} {hundredths : Nat} :
    parsePct pctRaw = some hundredths ↔ PctText pctRaw hundredths := by
  have point : ".".toList = ['.'] := rfl
  constructor
  · intro parsed
    have joined := split_intercalate (by decide : ".".toList ≠ []) pctRaw
    match parts : split "." pctRaw with
    | [] => exact absurd parts (split_ne_nil _ _)
    | [whole] =>
        rw [parts] at joined
        obtain rfl : pctRaw = whole := String.toList_inj.mp (by simpa [List.intercalate] using joined)
        simp only [parsePct, parts] at parsed
        split at parsed
        · rename_i digits
          cases parsed
          exact .whole digits
        · cases parsed
    | [whole, decimals] =>
        rw [parts] at joined
        obtain rfl : pctRaw = whole ++ "." ++ decimals := by
          rw [← String.toList_inj, joined]
          simp [List.intercalate]
        simp only [parsePct, parts] at parsed
        split at parsed
        · rename_i digits
          rw [Bool.and_eq_true, isDigits_two] at digits
          obtain ⟨wholeDigits, tenth | hundredth⟩ := digits
          · rw [if_pos (isDigits_length tenth)] at parsed
            cases parsed
            exact .tenths wholeDigits tenth
          · rw [if_neg (by rw [isDigits_length hundredth]; decide)] at parsed
            cases parsed
            exact .hundredths wholeDigits hundredth
        · cases parsed
    | _ :: _ :: _ :: _ => simp [parsePct, parts] at parsed
  · intro text
    cases text with
    | whole digits =>
        rw [parsePct, split_clean point (isDigits_free digits (by decide))]
        simp only [digits, if_true]
    | tenths digits decimal =>
        rw [parsePct, split_two "." point (isDigits_free digits (by decide)) (isDigits_free decimal (by decide))]
        simp only [digits, isDigits_two.mpr (.inl decimal), Bool.and_self, if_true, if_pos (isDigits_length decimal)]
    | hundredths digits decimal =>
        rw [parsePct, split_two "." point (isDigits_free digits (by decide)) (isDigits_free decimal (by decide))]
        simp only [digits, isDigits_two.mpr (.inr decimal), Bool.and_self, if_true, isDigits_length decimal]
        rfl

theorem pctErrors_eq_nil {line : Nat} {pctRaw : String} (trimmed : trim pctRaw = pctRaw) :
    pctErrors line pctRaw = [] ↔ ∃ hundredths, PctText pctRaw hundredths ∧ 0 < hundredths ∧ hundredths ≤ 100 * 100 := by
  simp only [← parsePct_eq_some]
  rw [pctErrors]
  cases blank : isBlank pctRaw with
  | true =>
      obtain rfl := (isBlank_trimmed trimmed).mp blank
      have unread : parsePct "" = none := by decide
      simp [unread]
  | false =>
      cases parsed : parsePct pctRaw with
      | none => simp
      | some hundredths =>
          simp only [Bool.false_eq_true, if_false, Option.some.injEq, exists_eq_left']
          split <;> simp [*]

section Rows

variable [Platform] {entityTypeByName : InsertionMap String String}

/-- The name of an entity that is not an FQ. -/
def Registered (entityTypeByName : InsertionMap String String) (name : String) : Prop :=
  ∃ registrationType, entityTypeByName.get? name = some registrationType ∧ registrationType ≠ "FQ"

theorem endErrors_eq_nil {line : Nat} {column fqRule value : String} (trimmed : trim value = value) :
    endErrors entityTypeByName line column fqRule value = [] ↔
      value ≠ "" ∧ Registered entityTypeByName (normalizeName value) := by
  rw [endErrors, ne_eq, ← isBlank_trimmed trimmed, Registered]
  cases isBlank value with
  | true => simp
  | false =>
      cases entityTypeByName.get? (normalizeName value) with
      | none => simp
      | some registrationType =>
          simp only [Bool.false_eq_true, if_false, not_false_eq_true, Option.some.injEq, exists_eq_left', true_and]
          split <;> simp [*]

theorem selfEdgeErrors_eq_nil {line : Nat} {parentEntity childEntity : String} (parent : isBlank parentEntity = false)
    (child : isBlank childEntity = false) : selfEdgeErrors line parentEntity childEntity = [] ↔
      normalizeName parentEntity ≠ normalizeName childEntity := by
  rw [selfEdgeErrors, parent, child]
  simp

omit [Platform] in
theorem not_isBlank {value : String} (trimmed : trim value = value) (present : value ≠ "") : isBlank value = false := by
  rw [Bool.eq_false_iff, ne_eq, isBlank_trimmed trimmed]
  exact present

theorem rowErrors_eq_nil {header : List String} {row : ParsedRow} : rowErrors header entityTypeByName row = [] ↔
    FieldRules (Registered entityTypeByName) (get header row.cells) := by
  have trimmed := trim_get header row.cells
  simp only [rowErrors, parentErrors, childErrors, List.append_eq_nil_iff, endErrors_eq_nil (trimmed _),
    pctErrors_eq_nil (trimmed _)]
  constructor
  · intro accepted
    obtain ⟨⟨⟨⟨parentPresent, parent⟩, childPresent, child⟩, apart⟩, pct⟩ := accepted
    have distinct := (selfEdgeErrors_eq_nil (not_isBlank (trimmed _) parentPresent)
      (not_isBlank (trimmed _) childPresent)).mp apart
    exact ⟨parentPresent, childPresent, parent, child, distinct, pct⟩
  · intro rules
    have distinct : selfEdgeErrors row.line _ _ = [] := (selfEdgeErrors_eq_nil
      (not_isBlank (trimmed _) rules.parentPresent) (not_isBlank (trimmed _) rules.childPresent)).mpr rules.apart
    exact ⟨⟨⟨⟨rules.parentPresent, rules.parentEntity⟩, rules.childPresent, rules.childEntity⟩, distinct⟩,
      rules.ownershipPct⟩

variable {sheet : ParsedSheet}

theorem duplicateErrors_eq_nil
    (fields : ∀ row ∈ sheet.rows, FieldRules (Registered entityTypeByName) (get sheet.header row.cells)) :
    duplicateErrors (sheet.rows.map (candidateRow sheet.header)) = [] ↔ (sheet.rows.map fun row =>
      edgeKey (get sheet.header row.cells "Parent Entity") (get sheet.header row.cells "Child Entity")).Nodup := by
  have all : (sheet.rows.map (candidateRow sheet.header)).filter (fun row => !isBlank row.parentEntity &&
      !isBlank row.childEntity && normalizeName row.parentEntity != normalizeName row.childEntity) =
      sheet.rows.map (candidateRow sheet.header) := by
    refine List.filter_eq_self.mpr (List.forall_mem_map.mpr fun row member => ?_)
    have rules := fields row member
    have trimmed := trim_get sheet.header row.cells
    simp only [candidateRow, not_isBlank (trimmed _) rules.parentPresent, not_isBlank (trimmed _) rules.childPresent]
    simpa using rules.apart
  rw [duplicateErrors, seenPairs, all]
  simp only [InsertionMap.groupBy_reports_eq_nil, List.map_map]
  rfl

theorem validateOwnershipSheet_iff_rules : (validateOwnershipSheet sheet entityTypeByName).1 = [] ↔
    (∀ column ∈ (SLOT_SCHEMAS .ownership).requiredColumns, column ∈ sheet.header) ∧
      SheetRules (Registered entityTypeByName) sheet := by
  have parts : (validateOwnershipSheet sheet entityTypeByName).1 = [] ↔ checkHeaderSchema .ownership sheet.header = [] ∧
      (∀ row ∈ sheet.rows, rowErrors sheet.header entityTypeByName row = []) ∧
      duplicateErrors (sheet.rows.map (candidateRow sheet.header)) = [] := by
    by_cases complete : checkHeaderSchema .ownership sheet.header = []
    · simp only [validateOwnershipSheet, complete, ne_eq, not_true_eq_false, if_false, List.append_eq_nil_iff,
        List.flatMap_eq_nil_iff, true_and, List.map_map]
      rfl
    · simp [validateOwnershipSheet, complete]
  rw [parts, checkHeaderSchema_eq_nil]
  simp only [rowErrors_eq_nil]
  refine and_congr_right fun _ => ?_
  constructor
  · intro accepted
    obtain ⟨fields, pairs⟩ := accepted
    exact ⟨fields, (duplicateErrors_eq_nil fields).mp pairs⟩
  · intro rules
    exact ⟨rules.fields, (duplicateErrors_eq_nil rules.fields).mpr rules.pairs⟩

/-- Without errors no row is left out. -/
theorem validateOwnershipSheet_returned (accepted : (validateOwnershipSheet sheet entityTypeByName).1 = []) :
    (validateOwnershipSheet sheet entityTypeByName).2 = sheet.rows.map (candidateRow sheet.header) := by
  obtain ⟨columns, rules⟩ := validateOwnershipSheet_iff_rules.mp accepted
  have complete := checkHeaderSchema_eq_nil.mpr columns
  simp only [validateOwnershipSheet, complete, ne_eq, not_true_eq_false, if_false] at accepted ⊢
  rw [accepted, List.filter_eq_self.mpr, List.map_map]
  · rfl
  · intro entry member
    obtain ⟨row, inside, rfl⟩ := List.mem_map.mp member
    simp [rowErrors_eq_nil.mpr (rules.fields row inside)]

/-- A sheet with all columns is accepted exactly when it satisfies the rules, and
then each of its rows is returned in its place, with the percentage it spells. -/
theorem ownershipSheets_exact (sheet : ParsedSheet) (entityTypeByName : InsertionMap String String)
    (complete : ∀ column ∈ (SLOT_SCHEMAS .ownership).requiredColumns, column ∈ sheet.header) :
    ((validateOwnershipSheet sheet entityTypeByName).1 = [] ↔ SheetRules (Registered entityTypeByName) sheet) ∧
      (SheetRules (Registered entityTypeByName) sheet →
        (validateOwnershipSheet sheet entityTypeByName).2 = sheet.rows.map (candidateRow sheet.header) ∧
        ∀ row ∈ sheet.rows,
          PctText (get sheet.header row.cells "Ownership %") (candidateRow sheet.header row).ownershipPct) := by
  have exact_ : (validateOwnershipSheet sheet entityTypeByName).1 = [] ↔
      SheetRules (Registered entityTypeByName) sheet :=
    validateOwnershipSheet_iff_rules.trans ⟨And.right, fun rules => ⟨complete, rules⟩⟩
  refine ⟨exact_, fun rules => ⟨validateOwnershipSheet_returned (exact_.mpr rules), fun row member => ?_⟩⟩
  obtain ⟨hundredths, text, _, _⟩ := (rules.fields row member).ownershipPct
  rw [candidateRow, parsePct_eq_some.mpr text]
  exact text

/-- Percentages in all three spellings, each end written in its own case. -/
def spelledPercentages : ParsedSheet where
  header := (SLOT_SCHEMAS .ownership).requiredColumns
  rows := [
    { line := 2, cells := ["Acme", "beta", "60"] },
    { line := 3, cells := ["ACME", "Gamma", "0.5"] },
    { line := 5, cells := [" Beta ", "Gamma", "99.05"] }]

def threeEntities : InsertionMap String String :=
  .ofPairs [("acme", "Entity"), ("beta", "Entity"), ("gamma", "Entity")]

omit [Platform] in
example : letI := asciiPlatform
    ((validateOwnershipSheet spelledPercentages threeEntities).2.map ParsedOwnershipRow.ownershipPct) =
      [6000, 50, 9905] := by
  decide +kernel

omit [Platform] in
theorem spelledPercentages_exact : letI := asciiPlatform
    ((validateOwnershipSheet spelledPercentages threeEntities).1 = [] ↔
        SheetRules (Registered threeEntities) spelledPercentages) ∧
      (SheetRules (Registered threeEntities) spelledPercentages →
        (validateOwnershipSheet spelledPercentages threeEntities).2 =
          spelledPercentages.rows.map (candidateRow spelledPercentages.header) ∧
        ∀ row ∈ spelledPercentages.rows, PctText (get spelledPercentages.header row.cells "Ownership %")
          (candidateRow spelledPercentages.header row).ownershipPct) :=
  letI := asciiPlatform
  ownershipSheets_exact spelledPercentages threeEntities fun _ => id

end Rows

end Coverpin.Validation.Ownership
