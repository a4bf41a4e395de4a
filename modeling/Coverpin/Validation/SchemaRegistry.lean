import Coverpin.Validation.Common

namespace Coverpin.Validation

inductive UploadSlot where
  | entities
  | ownership
  | filings
deriving DecidableEq, Repr

structure SlotSchema where
  file : String
  requiredColumns : List String

def SLOT_SCHEMAS : UploadSlot → SlotSchema
  | .entities => {
      file := "entities.csv"
      requiredColumns := ["Entity Name", "Registration Type", "Jurisdiction", "Entity Type",
        "Entity Status", "Status Date", "Domestic Entity", "Formation Date", "Entity/Business ID",
        "Global Region"] }
  | .ownership => {
      file := "ownership.csv"
      requiredColumns := ["Parent Entity", "Child Entity", "Ownership %"] }
  | .filings => {
      file := "filings.csv"
      requiredColumns := ["Entity Name", "Filing Type", "Jurisdiction", "Filing Authority", "Due Date",
        "Filed Date", "Status"] }

def UploadSlot.name : UploadSlot → String
  | .entities => "entities"
  | .ownership => "ownership"
  | .filings => "filings"

/-- Checks an uploaded sheet's header against the schema expected for `slot`.
A header that fully matches a different slot's schema is reported as one
swapped file instead of a list of missing columns. -/
def checkHeaderSchema (slot : UploadSlot) (header : List String) : List ValidationError :=
  let expected := SLOT_SCHEMAS slot
  let missing := findMissingColumns header expected.requiredColumns
  if missing = [] then []
  else
    let others := [UploadSlot.entities, .ownership, .filings].filter (· ≠ slot)
    match others.find? fun key => (SLOT_SCHEMAS key).requiredColumns.all header.contains with
    | some swapped =>
        let found := (SLOT_SCHEMAS swapped).file
        let wanted := expected.file
        let slotName := slot.name
        [makeError wanted 1 "File"
          s!"This file's columns match {found}, not {wanted}. Check that you selected the right file for the {slotName} slot."]
    | none => missing.map fun column =>
        makeError expected.file 1 column s!"Missing required column '{column}'."

theorem checkHeaderSchema_eq_nil {slot : UploadSlot} {header : List String} :
    checkHeaderSchema slot header = [] ↔ ∀ column ∈ (SLOT_SCHEMAS slot).requiredColumns, column ∈ header := by
  have present : findMissingColumns header (SLOT_SCHEMAS slot).requiredColumns = [] ↔
      ∀ column ∈ (SLOT_SCHEMAS slot).requiredColumns, column ∈ header := by
    simp [findMissingColumns, List.filter_eq_nil_iff]
  rw [← present]
  constructor
  · intro accepted
    apply Classical.byContradiction
    intro missing
    simp only [checkHeaderSchema, if_neg missing] at accepted
    split at accepted
    · cases accepted
    · exact missing (List.map_eq_nil_iff.mp accepted)
  · intro complete
    simp [checkHeaderSchema, complete]

end Coverpin.Validation
