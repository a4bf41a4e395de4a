import Coverpin.Parsing.ParseSheet
import Coverpin.Validation.SchemaRegistry

namespace Coverpin.Validation.Ownership

open Coverpin.Data Coverpin.Parsing

def FILE : String := "ownership.csv"

/-- One row of ownership.csv; the percentage is held in exact hundredths. -/
structure ParsedOwnershipRow where
  line : Nat
  parentEntity : String
  childEntity : String
  ownershipPct : Nat
deriving DecidableEq, Repr

/-- `Number(pctRaw)` in hundredths, where `pctRaw` has the form
`\d+(\.\d{1,2})?`. -/
def parsePct (pctRaw : String) : Option Nat :=
  match split "." pctRaw with
  | [whole] => if isDigits 1 whole.toList.length whole then some (100 * digitsValue whole) else none
  | [whole, decimals] =>
      if isDigits 1 whole.toList.length whole && isDigits 1 2 decimals then
        some (100 * digitsValue whole +
          if decimals.toList.length = 1 then 10 * digitsValue decimals else digitsValue decimals)
      else none
  | _ => none

/-- A number of hundredths with all its digits; of long ones JavaScript prints the nearest double. -/
def numberText (hundredths : Nat) : String :=
  let whole := hundredths / 100
  let rest := hundredths % 100
  if rest = 0 then s!"{whole}"
  else if rest % 10 = 0 then s!"{whole}.{rest / 10}"
  else s!"{whole}." ++ String.ofList (padded 2 rest)

/-- `toFixed(2)` of a number of hundredths. -/
def toFixed2 (hundredths : Nat) : String :=
  let whole := hundredths / 100
  s!"{whole}." ++ String.ofList (padded 2 (hundredths % 100))

theorem isDigits_toDigits (n : Nat) :
    isDigits 1 (Nat.toDigits 10 n).length (String.ofList (Nat.toDigits 10 n)) = true := by
  have positive : 1 ≤ (Nat.toDigits 10 n).length := Nat.length_toDigits_pos
  have digits : ∀ char ∈ Nat.toDigits 10 n, char.isDigit = true := fun char member =>
    Nat.isDigit_of_mem_toDigits (by decide) (by decide) member
  simpa [isDigits] using ⟨positive, digits⟩

theorem digitsValue_toDigits (n : Nat) : digitsValue (String.ofList (Nat.toDigits 10 n)) = n := by
  rw [digitsValue, String.toList_ofList]
  exact Nat.ofDigitChars_eq_foldl.symm.trans Nat.ofDigitChars_ten_toDigits

theorem padded_two : ∀ rest < 100, isDigits 1 2 (String.ofList (padded 2 rest)) = true ∧
    digitsValue (String.ofList (padded 2 rest)) = rest ∧ '.' ∉ padded 2 rest := by
  decide +kernel

theorem parsePct_toFixed2 (hundredths : Nat) : parsePct (toFixed2 hundredths) = some hundredths := by
  let whole := Nat.toDigits 10 (hundredths / 100)
  let decimals := padded 2 (hundredths % 100)
  have small : hundredths % 100 < 100 := Nat.mod_lt _ (by decide)
  have point : ∀ digits : List Char, (∀ char ∈ digits, char.isDigit = true) → '.' ∉ digits :=
    fun digits all member => absurd (all '.' member) (by decide)
  have wholeDigits : ∀ char ∈ whole, char.isDigit = true := fun char member =>
    Nat.isDigit_of_mem_toDigits (by decide) (by decide) member
  obtain ⟨decimalDigits, decimalValue, decimalPoint⟩ := padded_two _ small
  have text : (toFixed2 hundredths).toList = whole ++ ['.'] ++ decimals := by
    simp [toFixed2, whole, decimals, toString, Nat.repr]
  have parts : split "." (toFixed2 hundredths) = [String.ofList whole, String.ofList decimals] := by
    have clean : NoSeparatorWithin ['.'] whole (['.'] ++ decimals) := by
      intro before inside same present starts
      obtain ⟨rest, found⟩ := starts
      cases inside with
      | nil => exact present rfl
      | cons first inside =>
          simp only [List.cons_append, List.nil_append, List.cons.injEq] at found
          exact point whole wholeDigits (by rw [same, ← found.1]; simp)
    have free : ¬ ['.'] <:+: decimals := fun inside => decimalPoint (inside.subset (by simp))
    have separator : ".".toList = ['.'] := rfl
    rw [split, text, separator, splitAt, splitFrom_append (by simp) clean, splitAt, splitFrom_clean free]
    rfl
  have length : decimals.length ≠ 1 := by simp [decimals, padded]
  simp only [parsePct, parts, String.toList_ofList, isDigits_toDigits, digitsValue_toDigits, whole, decimals,
    decimalDigits, decimalValue, Bool.and_self, if_true, if_neg length, Option.some.injEq]
  omega

variable [Platform]

/-- One end of an edge must name an Entity row of the same upload. -/
def endErrors (entityTypeByName : InsertionMap String String) (line : Nat) (column fqRule value : String) :
    List ValidationError :=
  if isBlank value then [requiredError FILE line column]
  else match entityTypeByName.get? (normalizeName value) with
    | none => [makeError FILE line column s!"{column} '{value}' does not match any Entity Name in entities.csv."]
    | some registrationType =>
        if registrationType = "FQ" then
          [makeError FILE line column s!"{column} '{value}' is a Foreign Qualification (FQ); {fqRule}."]
        else []

def parentErrors (entityTypeByName : InsertionMap String String) (line : Nat) (parentEntity : String) :
    List ValidationError :=
  endErrors entityTypeByName line "Parent Entity" "an FQ cannot own other entities" parentEntity

def childErrors (entityTypeByName : InsertionMap String String) (line : Nat) (childEntity : String) :
    List ValidationError :=
  endErrors entityTypeByName line "Child Entity" "an FQ can never be a Child Entity" childEntity

def selfEdgeErrors (line : Nat) (parentEntity childEntity : String) : List ValidationError :=
  if !isBlank parentEntity && !isBlank childEntity && normalizeName parentEntity == normalizeName childEntity then
    [makeError FILE line "Child Entity"
      s!"Parent Entity and Child Entity cannot be the same entity ('{parentEntity}')."]
  else []

omit [Platform] in
def pctErrors (line : Nat) (pctRaw : String) : List ValidationError :=
  if isBlank pctRaw then [requiredError FILE line "Ownership %"]
  else match parsePct pctRaw with
    | none => [makeError FILE line "Ownership %"
        s!"Ownership % '{pctRaw}' must be a positive number with at most 2 decimal places."]
    | some ownershipPct =>
        if 0 < ownershipPct ∧ ownershipPct ≤ 100 * 100 then []
        else
          let got := numberText ownershipPct
          [makeError FILE line "Ownership %" s!"Ownership % must be greater than 0 and at most 100 (got {got})."]

def rowErrors (header : List String) (entityTypeByName : InsertionMap String String) (row : ParsedRow) :
    List ValidationError :=
  let get := get header row.cells
  parentErrors entityTypeByName row.line (get "Parent Entity") ++
  childErrors entityTypeByName row.line (get "Child Entity") ++
  selfEdgeErrors row.line (get "Parent Entity") (get "Child Entity") ++
  pctErrors row.line (get "Ownership %")

omit [Platform] in
/-- The row the validator builds; without a readable percentage it holds 0. -/
def candidateRow (header : List String) (row : ParsedRow) : ParsedOwnershipRow :=
  let get := get header row.cells
  { line := row.line
    parentEntity := get "Parent Entity"
    childEntity := get "Child Entity"
    ownershipPct := (parsePct (get "Ownership %")).getD 0 }

/-- The string that stands for an edge, here and in the graph check. -/
def edgeKey (parentEntity childEntity : String) : String :=
  normalizeName parentEntity ++ "|||" ++ normalizeName childEntity

/-- The lines on which each pair of different names occurs. -/
def seenPairs (rows : List ParsedOwnershipRow) : InsertionMap String (List ParsedOwnershipRow) :=
  .groupBy (rows.filter fun row => !isBlank row.parentEntity && !isBlank row.childEntity &&
    normalizeName row.parentEntity != normalizeName row.childEntity)
    fun row => edgeKey row.parentEntity row.childEntity

omit [Platform] in
def duplicateError (row : ParsedOwnershipRow) (line count : Nat) : ValidationError :=
  let parentEntity := row.parentEntity
  let childEntity := row.childEntity
  makeError FILE line "Parent Entity"
    s!"Duplicate ownership row for ('{parentEntity}' -> '{childEntity}', matching is case-insensitive) — appears {count} times in this file."

/-- Rows are looked up again by their line, as the source does. -/
def duplicateErrors (rows : List ParsedOwnershipRow) : List ValidationError :=
  let rowByLine := InsertionMap.ofPairs (rows.map fun row => (row.line, row))
  (seenPairs rows).entries.flatMap fun (_, group) =>
    if 1 < group.length then group.map fun row =>
      duplicateError ((rowByLine.get? row.line).getD row) row.line group.length
    else []

/-- All errors of the sheet, and the rows whose line carries none. -/
def validateOwnershipSheet (sheet : ParsedSheet) (entityTypeByName : InsertionMap String String) :
    List ValidationError × List ParsedOwnershipRow :=
  let schemaErrors := checkHeaderSchema .ownership sheet.header
  if schemaErrors ≠ [] then (schemaErrors, [])
  else
    let candidateRows := sheet.rows.map fun row =>
      (candidateRow sheet.header row, decide (rowErrors sheet.header entityTypeByName row ≠ []))
    let errors := sheet.rows.flatMap (rowErrors sheet.header entityTypeByName) ++
      duplicateErrors (candidateRows.map Prod.fst)
    let erroredLines := errors.map ValidationError.line
    (errors, (candidateRows.filter fun (row, hasError) => !hasError && !erroredLines.contains row.line).map Prod.fst)

section Accepted

variable {sheet : ParsedSheet} {entityTypeByName : InsertionMap String String}

/-- An accepted end of an edge names an entity that is not an FQ. -/
def NamesEntity (entityTypeByName : InsertionMap String String) (name : String) : Prop :=
  ∃ registrationType, entityTypeByName.get? (normalizeName name) = some registrationType ∧ registrationType ≠ "FQ"

theorem endErrors_accepted {line : Nat} {column fqRule value : String}
    (accepted : endErrors entityTypeByName line column fqRule value = []) : NamesEntity entityTypeByName value := by
  unfold endErrors at accepted
  split at accepted
  · cases accepted
  · split at accepted
    · cases accepted
    · rename_i registrationType found
      split at accepted
      · cases accepted
      · rename_i notFq
        exact ⟨registrationType, found, notFq⟩

theorem validateOwnershipSheet_accepted (accepted : (validateOwnershipSheet sheet entityTypeByName).1 = [])
    {row : ParsedOwnershipRow} (member : row ∈ (validateOwnershipSheet sheet entityTypeByName).2) :
    NamesEntity entityTypeByName row.parentEntity ∧ NamesEntity entityTypeByName row.childEntity := by
  by_cases complete : checkHeaderSchema .ownership sheet.header = []
  · simp only [validateOwnershipSheet, complete, ne_eq, not_true_eq_false, if_false] at accepted member
    simp only [List.append_eq_nil_iff, List.flatMap_eq_nil_iff] at accepted
    obtain ⟨⟨built, _⟩, kept, rfl⟩ := List.mem_map.mp member
    obtain ⟨source, inside, same⟩ := List.mem_map.mp (List.mem_filter.mp kept).1
    have rowOk := accepted.1 source inside
    simp only [rowErrors, List.append_eq_nil_iff] at rowOk
    cases same
    exact ⟨endErrors_accepted rowOk.1.1.1, endErrors_accepted rowOk.1.1.2⟩
  · simp [validateOwnershipSheet, complete] at accepted

end Accepted

end Coverpin.Validation.Ownership
