import Coverpin.Validation.EntitiesValidator
import Coverpin.Database.Schema

namespace Coverpin.Registry

open Coverpin.Database Coverpin.Validation Coverpin.Validation.Entities

/-! # Compliance status

`compliance.util.ts`: the earliest unresolved due date of an entity, and the
ladder from it to a status.
-/

inductive ComplianceStatus where
  | notApplicable
  | tbd
  | goodStanding
  | filingDue
  | overdue
  | suspended
deriving DecidableEq, Repr

def ComplianceStatus.text : ComplianceStatus → String
  | .notApplicable => "NOT_APPLICABLE"
  | .tbd => "TBD"
  | .goodStanding => "GOOD_STANDING"
  | .filingDue => "FILING_DUE"
  | .overdue => "OVERDUE"
  | .suspended => "SUSPENDED"

def INELIGIBLE_FILING_STATUSES : List String := ["Filed", "Canceled"]

structure FilingForDueDate where
  dueDate : Date
  status : String
deriving DecidableEq, Repr

/-- `new Date(text + 'T00:00:00Z')` on the text of a date column. -/
def midnight (text : DateText) : Date :=
  (parseDate text).get (by
    have valid := text.property
    cases parsed : parseDate text.val with
    | none => simp [parsed] at valid
    | some date => rfl)

def Filing.forDueDate (filing : Filing) : FilingForDueDate where
  dueDate := midnight filing.dueDate
  status := filing.status

/-- A date whose UTC fields are the local fields of the given one. -/
def localFields [Platform] (date : Date) : Date :=
  ⟨date.time + Platform.localOffset date.time⟩

def localDay [Platform] (date : Date) : Date :=
  Date.utc (localFields date).getUTCFullYear (localFields date).getUTCMonth (localFields date).getUTCDate

/-- Calendar-day difference, positive if `finish` is later.  Both days begin at
midnight, so there is nothing to round. -/
def daysBetween [Platform] (start finish : Date) : Int :=
  ((localDay finish).time - (localDay start).time) / msPerDay

def earlierDate (earliest : Date) (filing : FilingForDueDate) : Date :=
  if filing.dueDate.time < earliest.time then filing.dueDate else earliest

/-- Earliest Due Date among filings not Filed and not Canceled, or none. -/
def computeNextDueDate (filings : List FilingForDueDate) : Option Date :=
  match filings.filter fun filing => !INELIGIBLE_FILING_STATUSES.contains filing.status with
  | [] => none
  | first :: rest => some ((first :: rest).foldl earlierDate first.dueDate)

/-- Entity Status is checked first and wins outright. -/
def computeComplianceStatus [Platform] (entityStatus : String) (nextDueDate : Option Date) (today : Date) :
    ComplianceStatus :=
  if TERMINAL_ENTITY_STATUSES.contains entityStatus then .notApplicable
  else match nextDueDate with
    | none => .tbd
    | some nextDueDate =>
        let days := daysBetween today nextDueDate
        if 90 ≤ days then .goodStanding
        else if 0 ≤ days then .filingDue
        else if -364 ≤ days then .overdue
        else .suspended

end Coverpin.Registry
