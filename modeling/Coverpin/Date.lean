import Coverpin.Platform

namespace Coverpin

/-! # Dates

The part of ECMAScript's `Date` that the program uses, on the proleptic
Gregorian calendar.  A `Date` is its time value, in milliseconds since the
epoch; every date the program builds is far inside the valid range.
-/

structure Date where
  time : Int
deriving DecidableEq, Repr

def msPerDay : Int := 86400000

def dayFromYear (year : Int) : Int :=
  365 * (year - 1970) + (year - 1969) / 4 - (year - 1901) / 100 + (year - 1601) / 400

def isLeapYear (year : Int) : Bool :=
  year % 4 == 0 && (year % 100 != 0 || year % 400 == 0)

/-- Days of a year before the first of the month, counted from month 0. -/
def daysBeforeMonth (leap : Bool) : Nat → Int
  | 0 => 0
  | 1 => 31
  | month => ([59, 90, 120, 151, 181, 212, 243, 273, 304, 334].getD (month - 2) 365) + if leap then 1 else 0

/-- MakeDay: months outside 0..11 roll over into the years around. -/
def makeDay (year month date : Int) : Int :=
  let year := year + month / 12
  dayFromYear year + daysBeforeMonth (isLeapYear year) (month % 12).toNat + date - 1

/-- `Date.UTC(year, month, date)`; the years 0 to 99 stand for 1900 to 1999. -/
def Date.utc (year month date : Int) : Date :=
  let year := if 0 ≤ year ∧ year ≤ 99 then 1900 + year else year
  ⟨makeDay year month date * msPerDay⟩

def Date.day (date : Date) : Int :=
  date.time / msPerDay

/-- YearFromTime: an estimate from the mean length of a year, corrected by one
year where it is too high or too low. -/
def yearFromDay (day : Int) : Int :=
  let estimate := 1970 + day * 400 / 146097
  if day < dayFromYear estimate then estimate - 1
  else if dayFromYear (estimate + 1) ≤ day then estimate + 1
  else estimate

def Date.getUTCFullYear (date : Date) : Int :=
  yearFromDay date.day

def monthFromDayInYear (leap : Bool) (day : Int) : Nat :=
  ((List.range 12).filter fun month => daysBeforeMonth leap month ≤ day).length - 1

def Date.dayInYear (date : Date) : Int :=
  date.day - dayFromYear date.getUTCFullYear

def Date.getUTCMonth (date : Date) : Int :=
  monthFromDayInYear (isLeapYear date.getUTCFullYear) date.dayInYear

def Date.getUTCDate (date : Date) : Int :=
  date.dayInYear - daysBeforeMonth (isLeapYear date.getUTCFullYear) date.getUTCMonth.toNat + 1

def digitChar (value : Nat) : Char :=
  Char.ofNat (48 + value % 10)

/-- `value` in decimal with leading zeros, on exactly `width` digits. -/
def padded : (width value : Nat) → List Char
  | 0, _ => []
  | width + 1, value => padded width (value / 10) ++ [digitChar value]

/-- The year as `toISOString` prints it: four digits, or a sign and six digits
outside 0..9999. -/
def isoYear (year : Int) : List Char :=
  if 0 ≤ year ∧ year ≤ 9999 then padded 4 year.toNat
  else (if year < 0 then '-' else '+') :: padded 6 year.natAbs

def Date.toISOString (date : Date) : String :=
  let ms := (date.time % msPerDay).toNat
  String.ofList (isoYear date.getUTCFullYear ++ ['-'] ++ padded 2 (date.getUTCMonth + 1).toNat ++ ['-'] ++
    padded 2 date.getUTCDate.toNat ++ ['T'] ++ padded 2 (ms / 3600000) ++ [':'] ++ padded 2 (ms / 60000 % 60) ++
    [':'] ++ padded 2 (ms / 1000 % 60) ++ ['.'] ++ padded 3 (ms % 1000) ++ ['Z'])

end Coverpin
