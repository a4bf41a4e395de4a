import Coverpin.Util
import Coverpin.Validation.FilingsValidator

namespace Coverpin.Validation.Filings

open Coverpin.Data Coverpin.Parsing

/-! # Natural keys of filings

`filings` is unique on the entity, the filing type and the due date, and upserts
conflict on these columns.  The duplicate check of the sheet compares due dates
as they are written; this file says exactly which accepted sheets have rows with
distinct keys.
-/

variable [Platform]

/-- The columns of the UNIQUE constraint, with the entity under its name. -/
def naturalKey (row : ParsedFilingRow) : String × String × String :=
  (normalizeName row.entityName, row.filingType, toDateOnlyString row.dueDate)

/-- No two rows share a key, and cut into upsert batches of any size, no batch
touches a key twice and no batch touches a key of another one. -/
structure KeysDistinct (rows : List ParsedFilingRow) : Prop where
  distinct : (rows.map naturalKey).Nodup
  withinBatch : ∀ size, 0 < size → ∀ batch ∈ chunk rows size, (batch.map naturalKey).Nodup
  acrossBatches : ∀ size, 0 < size → (chunk rows size).Pairwise fun earlier later =>
    ∀ row ∈ earlier, ∀ other ∈ later, naturalKey row ≠ naturalKey other

theorem keysDistinct_iff {rows : List ParsedFilingRow} : KeysDistinct rows ↔ (rows.map naturalKey).Nodup := by
  refine ⟨KeysDistinct.distinct, fun distinct => ?_⟩
  have batches : ∀ size, 0 < size →
      (∀ batch ∈ chunk rows size, batch.Pairwise fun row other => naturalKey row ≠ naturalKey other) ∧
        (chunk rows size).Pairwise fun earlier later =>
          ∀ row ∈ earlier, ∀ other ∈ later, naturalKey row ≠ naturalKey other := by
    intro size positive
    have flat : ((chunk rows size).flatten.map naturalKey).Nodup := by rwa [chunk_flatten rows positive]
    exact List.pairwise_flatten.mp (List.pairwise_map.mp flat)
  exact {
    distinct
    withinBatch := fun size positive batch member => List.pairwise_map.mpr ((batches size positive).1 batch member)
    acrossBatches := fun size positive => (batches size positive).2 }

def storedKey (header : List String) (row : ParsedRow) : String × String × Option String :=
  (normalizeName (get header row.cells "Entity Name"), get header row.cells "Filing Type",
    (parseDate (get header row.cells "Due Date")).map toDateOnlyString)

/-- Rows of one entity and one filing type whose due dates denote one day have
these due dates written alike. -/
def DueDatesSpelledAlike (sheet : ParsedSheet) : Prop :=
  ∀ first ∈ sheet.rows, ∀ second ∈ sheet.rows,
    storedKey sheet.header first = storedKey sheet.header second →
    get sheet.header first.cells "Due Date" = get sheet.header second.cells "Due Date"

variable {sheet : ParsedSheet} {entityJurisdictionByName : InsertionMap String String} {today : Date}

instance (sheet : ParsedSheet) : Decidable (DueDatesSpelledAlike sheet) :=
  inferInstanceAs (Decidable (∀ first ∈ sheet.rows, ∀ second ∈ sheet.rows,
    storedKey sheet.header first = storedKey sheet.header second →
    get sheet.header first.cells "Due Date" = get sheet.header second.cells "Due Date"))

/-- Rows with one spelling of the due date have distinct keys in an accepted
sheet: this is all that the duplicate check looks at. -/
theorem accepted_seenKeys
    (accepted : (validateFilingsSheet sheet entityJurisdictionByName today).1 = []) :
    sheet.rows.Pairwise fun first second =>
      seenKey (candidateRow sheet.header entityJurisdictionByName today first) ≠
        seenKey (candidateRow sheet.header entityJurisdictionByName today second) := by
  obtain ⟨rowsOk, keysOk, _⟩ := validateFilingsSheet_accepted accepted
  let candidates := sheet.rows.map (candidateRow sheet.header entityJurisdictionByName today)
  have all : candidates.filter (fun row => !isBlank row.entityName && !isBlank row.filingType && row.dueDate.isSome) =
      candidates := by
    rw [List.filter_eq_self]
    intro row member
    obtain ⟨source, inside, rfl⟩ := List.mem_map.mp member
    obtain ⟨name, filingType, date, _, parsed⟩ := rowErrors_accepted (rowsOk source inside)
    simp [candidateRow, name, filingType, parsed]
  have distinct := InsertionMap.groupBy_reports_eq_nil.mp keysOk
  rw [all, List.map_map] at distinct
  exact List.pairwise_map.mp distinct

theorem accepted_naturalKeys
    (accepted : (validateFilingsSheet sheet entityJurisdictionByName today).1 = []) :
    (validateFilingsSheet sheet entityJurisdictionByName today).2.map
        (fun row => ((naturalKey row).1, (naturalKey row).2.1, some (naturalKey row).2.2)) =
      sheet.rows.map (storedKey sheet.header) := by
  obtain ⟨rowsOk, _, returned⟩ := validateFilingsSheet_accepted accepted
  rw [returned]
  clear returned accepted
  generalize rows : sheet.rows = items at rowsOk
  clear rows
  induction items with
  | nil => rfl
  | cons row items induction =>
      obtain ⟨_, _, date, parsed, optional⟩ := rowErrors_accepted (rowsOk row (by simp))
      have rest := induction fun other member => rowsOk other (List.mem_cons_of_mem _ member)
      have built : (candidateRow sheet.header entityJurisdictionByName today row).parsed = some {
          line := row.line
          entityName := get sheet.header row.cells "Entity Name"
          filingType := get sheet.header row.cells "Filing Type"
          jurisdiction := get sheet.header row.cells "Jurisdiction"
          filingAuthority := (candidateRow sheet.header entityJurisdictionByName today row).filingAuthority
          dueDate := date
          filedDate := optionalDate (get sheet.header row.cells "Filed Date")
          status := get sheet.header row.cells "Status" } := by
        simp [CandidateRow.parsed, candidateRow, optional]
      rw [List.map_cons, List.map_cons, List.filterMap_cons, built, List.map_cons, rest]
      simp [naturalKey, storedKey, parsed]

/-- The rows of an accepted filings sheet have distinct natural keys, in the file
and within and across upsert batches of any size, exactly when due dates that
denote one day for one entity and filing type are written alike. -/
theorem keysDistinct_iff_spelledAlike
    (accepted : (validateFilingsSheet sheet entityJurisdictionByName today).1 = []) :
    KeysDistinct (validateFilingsSheet sheet entityJurisdictionByName today).2 ↔ DueDatesSpelledAlike sheet := by
  have injective : Function.Injective fun key : String × String × String => (key.1, key.2.1, some key.2.2) := by
    intro left right same
    obtain ⟨_, _, _⟩ := left
    obtain ⟨_, _, _⟩ := right
    simpa using same
  have keys : ((validateFilingsSheet sheet entityJurisdictionByName today).2.map naturalKey).Nodup ↔
      (sheet.rows.map (storedKey sheet.header)).Nodup := by
    rw [← accepted_naturalKeys accepted, ← List.nodup_map_iff injective, List.map_map]
    rfl
  rw [keysDistinct_iff, keys]
  constructor
  · intro distinct first firstMember second secondMember same
    rw [List.inj_on_of_nodup_map distinct firstMember secondMember same]
  · intro alike
    refine List.pairwise_map.mpr ((accepted_seenKeys accepted).imp_of_mem ?_)
    intro first second firstMember secondMember different same
    have written := alike first firstMember second secondMember same
    simp only [storedKey, Prod.mk.injEq] at same
    exact different (by simp only [seenKey, candidateRow, same.1, same.2.1, written])

/-- A filings sheet with one row for each given due date, all of one entity and
one filing type. -/
def annualReports (dueDates : List String) : ParsedSheet where
  header := (SLOT_SCHEMAS .filings).requiredColumns
  rows := dueDates.zipIdx.map fun (dueDate, idx) =>
    { line := idx + 2, cells := ["Acme", "Annual Report", "US", "", dueDate, "", "Not Started"] }

omit [Platform] in
/-- The sheet is accepted with one due date in its two spellings, and both rows
have the same key. -/
theorem spellings_share_key : ¬ ∀ [Platform] (sheet : ParsedSheet)
    (entityJurisdictionByName : InsertionMap String String) (today : Date),
    (validateFilingsSheet sheet entityJurisdictionByName today).1 = [] →
      KeysDistinct (validateFilingsSheet sheet entityJurisdictionByName today).2 := by
  intro claimed
  let _ := asciiPlatform
  let sheet := annualReports ["2024-01-05", "1/5/2024"]
  let registered : InsertionMap String String := .ofPairs [("acme", "US")]
  have distinct := (claimed sheet registered ⟨0⟩ (by decide +kernel)).distinct
  exact absurd distinct (by decide +kernel)

omit [Platform] in
theorem keysDistinct_two_days :
    letI := asciiPlatform
    KeysDistinct (validateFilingsSheet (annualReports ["2024-01-05", "1/6/2024"])
      (.ofPairs [("acme", "US")]) ⟨0⟩).2 :=
  letI := asciiPlatform
  (keysDistinct_iff_spelledAlike (by decide +kernel)).mpr (by decide +kernel)

end Coverpin.Validation.Filings
