import Coverpin.Validation.AcceptedRows
import Coverpin.Validation.DateOrder

namespace Coverpin.Validation

open Coverpin.Data Coverpin.Parsing

/-! # Sheets that are validated again on a later day

The day counts for one rule only, that formation and filed dates are not in the
future.
-/

/-- A later day, up to the end of the year 9999. -/
structure LaterDay (today later : Date) : Prop where
  order : today.time ≤ later.time
  bound : later.getUTCFullYear ≤ 9999

variable {today later : Date} {sheet : ParsedSheet}

theorem pastDateErrors_later (day : LaterDay today later) {file column raw : String} {line : Nat}
    (accepted : pastDateErrors file line column raw today = []) : pastDateErrors file line column raw later = [] := by
  unfold pastDateErrors at accepted ⊢
  split at accepted
  · rename_i blank
    rw [if_pos blank]
  · rename_i notBlank
    rw [if_neg notBlank]
    cases parsed : parseDate raw with
    | none => simp [parsed] at accepted
    | some date =>
        obtain ⟨lower, upper⟩ := parseDate_year parsed
        by_cases future : isFutureDate date today = true
        · simp [parsed, future] at accepted
        · simp [isFutureDate_later lower upper day.order day.bound (Bool.eq_false_iff.mpr future)]

variable [Platform]

theorem validateEntitiesSheet_later (day : LaterDay today later) {rows : List Entities.ParsedEntityRow}
    (accepted : Entities.validateEntitiesSheet sheet today = ([], rows)) :
    Entities.validateEntitiesSheet sheet later = ([], rows) := by
  have none : (Entities.validateEntitiesSheet sheet today).1 = [] := by rw [accepted]
  obtain ⟨header, rowsOk, names, businessIds, domestic⟩ := Entities.validateEntitiesSheet_eq_nil.mp none
  have later_none : (Entities.validateEntitiesSheet sheet later).1 = [] := by
    refine Entities.validateEntitiesSheet_eq_nil.mpr ⟨header, fun row member => ?_, names, businessIds, domestic⟩
    have rowOk := rowsOk row member
    simp only [Entities.rowErrors, List.append_eq_nil_iff] at rowOk ⊢
    obtain ⟨⟨others, formation⟩, region⟩ := rowOk
    exact ⟨⟨others, pastDateErrors_later day formation⟩, region⟩
  obtain ⟨_, _, _, returned⟩ := Entities.validateEntitiesSheet_accepted none
  obtain ⟨_, _, _, again⟩ := Entities.validateEntitiesSheet_accepted later_none
  rw [accepted] at returned
  exact Prod.ext later_none (again.trans returned.symm)

theorem validateFilingsSheet_later (day : LaterDay today later) {rows : List Filings.ParsedFilingRow}
    {jurisdictions : InsertionMap String String}
    (accepted : Filings.validateFilingsSheet sheet jurisdictions today = ([], rows)) :
    Filings.validateFilingsSheet sheet jurisdictions later = ([], rows) := by
  have none : (Filings.validateFilingsSheet sheet jurisdictions today).1 = [] := by rw [accepted]
  obtain ⟨header, rowsOk, keys⟩ := Filings.validateFilingsSheet_eq_nil.mp none
  have laterOk : ∀ row ∈ sheet.rows, Filings.rowErrors sheet.header jurisdictions later row = [] := by
    intro row member
    have rowOk := rowsOk row member
    simp only [Filings.rowErrors, Filings.filedDateErrors, List.append_eq_nil_iff] at rowOk ⊢
    obtain ⟨others, filed, required⟩ := rowOk
    exact ⟨others, pastDateErrors_later day filed, required⟩
  have candidates : sheet.rows.map (Filings.candidateRow sheet.header jurisdictions later) =
      sheet.rows.map (Filings.candidateRow sheet.header jurisdictions today) :=
    List.map_congr_left fun row member => by simp [Filings.candidateRow, laterOk row member, rowsOk row member]
  have later_none : (Filings.validateFilingsSheet sheet jurisdictions later).1 = [] :=
    Filings.validateFilingsSheet_eq_nil.mpr ⟨header, laterOk, by rw [candidates, keys]⟩
  obtain ⟨_, _, returned⟩ := Filings.validateFilingsSheet_accepted none
  obtain ⟨_, _, again⟩ := Filings.validateFilingsSheet_accepted later_none
  rw [accepted] at returned
  exact Prod.ext later_none (by rw [again, candidates, ← returned])

end Coverpin.Validation
