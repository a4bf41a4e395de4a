import Coverpin.Date
import Coverpin.Data.InsertionMap

namespace Coverpin.Validation

open Coverpin Coverpin.Data

structure ValidationError where
  file : String
  line : Nat
  column : String
  message : String
deriving DecidableEq, Repr

def makeError (file : String) (line : Nat) (column message : String) : ValidationError :=
  { file, line, column, message }

def isBlank (value : String) : Bool :=
  trim value == ""

/-- Entity Name matching is trimmed and case-insensitive everywhere it's compared. -/
def normalizeName [Platform] (value : String) : String :=
  Platform.toLowerCase (trim value)

/-- `\d{low,high}` over the whole of `text`. -/
def isDigits (low high : Nat) (text : String) : Bool :=
  low ≤ text.toList.length && text.toList.length ≤ high && text.toList.all Char.isDigit

/-- `Number(text)` for a string of digits. -/
def digitsValue (text : String) : Nat :=
  text.toList.foldl (fun value digit => 10 * value + (digit.toNat - 48)) 0

/-- The date with these UTC fields, unless `Date.UTC` rolled one of them over. -/
def exactDate (year month date : Nat) : Option Date :=
  let built := Date.utc year (month - 1 : Int) date
  if built.getUTCFullYear ≠ year ∨ built.getUTCMonth ≠ (month - 1 : Int) ∨ built.getUTCDate ≠ date then none
  else some built

/-- Accepts YYYY-MM-DD or MM/DD/YYYY, both interpreted as UTC calendar dates. -/
def parseDate (raw : String) : Option Date :=
  let value := trim raw
  match split "-" value, split "/" value with
  | [year, month, date], _ =>
      if isDigits 4 4 year && isDigits 2 2 month && isDigits 2 2 date then
        exactDate (digitsValue year) (digitsValue month) (digitsValue date)
      else none
  | _, [month, date, year] =>
      if isDigits 1 2 month && isDigits 1 2 date && isDigits 4 4 year then
        exactDate (digitsValue year) (digitsValue month) (digitsValue date)
      else none
  | _, _ => none

def toDateOnlyString (date : Date) : String :=
  String.ofList (date.toISOString.toList.take 10)

def isFutureDate (date today : Date) : Bool :=
  toDateOnlyString today < toDateOnlyString date

/-- 'Country' or 'Country/State' — non-empty segments either side of at most one '/'. -/
def isValidJurisdictionFormat (value : String) : Bool :=
  let trimmed := trim value
  if trimmed == "" then false
  else
    let parts := split "/" trimmed
    if 2 < parts.length then false else parts.all fun part => trim part != ""

def findMissingColumns (header required : List String) : List String :=
  required.filter fun column => !header.contains column

/-! The sheet validators repeat a few field checks; each takes the column's own
name and bounds and reports under it. -/

def requiredError (file : String) (line : Nat) (column : String) : ValidationError :=
  makeError file line column s!"{column} is required."

def requiredErrors (file : String) (line : Nat) (column value : String) : List ValidationError :=
  if isBlank value then [requiredError file line column] else []

def oneOfError (file : String) (line : Nat) (column : String) (allowed : List String) (value : String) :
    ValidationError :=
  let listed := ", ".intercalate allowed
  makeError file line column s!"{column} must be one of: {listed} (got '{value}')."

def requiredOneOfErrors (file : String) (line : Nat) (column : String) (allowed : List String)
    (value : String) : List ValidationError :=
  if isBlank value then [requiredError file line column]
  else if allowed.contains value then [] else [oneOfError file line column allowed value]

def jurisdictionFormatError (file : String) (line : Nat) (value : String) : ValidationError :=
  makeError file line "Jurisdiction"
    s!"Jurisdiction must be 'Country' or 'Country/State' (e.g. 'United States/Delaware'), got '{value}'."

def invalidDateError (file : String) (line : Nat) (column raw : String) : ValidationError :=
  makeError file line column s!"{column} '{raw}' is not a valid date (use YYYY-MM-DD or MM/DD/YYYY)."

def futureDateError (file : String) (line : Nat) (column : String) : ValidationError :=
  makeError file line column s!"{column} cannot be in the future."

/-- A cell with an optional date: blank, or a date the parser accepts. -/
def optionalDate (raw : String) : Option Date :=
  if isBlank raw then none else parseDate raw

/-- An optional date that must parse and must not be later than today. -/
def pastDateErrors (file : String) (line : Nat) (column raw : String) (today : Date) :
    List ValidationError :=
  if isBlank raw then []
  else match parseDate raw with
    | none => [invalidDateError file line column raw]
    | some date => if isFutureDate date today then [futureDateError file line column] else []

end Coverpin.Validation
