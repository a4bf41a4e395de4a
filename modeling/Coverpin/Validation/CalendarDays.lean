import Coverpin.Validation.DateOrder

namespace Coverpin

/-! # The days that `parseDate` accepts

A day of the proleptic Gregorian calendar is a year, a month of 12 and a day
within the month's length.  `Date.UTC` rolls over everything else, and it takes
the years 0 to 99 for another century, so that comparing the fields back keeps
exactly the calendar days from the year 100 on.
-/

def monthLength (year month : Nat) : Nat :=
  if month = 2 then if year % 4 = 0 ∧ (year % 100 ≠ 0 ∨ year % 400 = 0) then 29 else 28
  else if month = 4 ∨ month = 6 ∨ month = 9 ∨ month = 11 then 30
  else 31

structure CalendarDay where
  year : Nat
  month : Nat
  day : Nat
  month_range : 1 ≤ month ∧ month ≤ 12
  day_range : 1 ≤ day ∧ day ≤ monthLength year month
deriving DecidableEq

namespace CalendarDay

def Before (date later : CalendarDay) : Prop :=
  date.year < later.year ∨ date.year = later.year ∧
    (date.month < later.month ∨ date.month = later.month ∧ date.day < later.day)

/-- Zero-padded YYYY-MM-DD. -/
def text (date : CalendarDay) : String :=
  String.ofList (padded 4 date.year ++ ['-'] ++ (padded 2 date.month ++ ['-'] ++ padded 2 date.day))

/-- The UTC midnight at which the day begins. -/
def midnight (date : CalendarDay) : Date :=
  Date.utc date.year (date.month - 1) date.day

end CalendarDay

theorem dayFromYear_succ (year : Int) :
    dayFromYear (year + 1) = dayFromYear year + if isLeapYear year then 366 else 365 := by
  unfold dayFromYear isLeapYear
  simp only [Bool.and_eq_true, Bool.or_eq_true, beq_iff_eq, bne_iff_ne]
  split <;> omega

theorem dayFromYear_mono {year later : Int} (order : year ≤ later) : dayFromYear year ≤ dayFromYear later := by
  unfold dayFromYear
  omega

theorem yearFromDay_eq {day year : Int} (lower : dayFromYear year ≤ day) (upper : day < dayFromYear (year + 1)) :
    yearFromDay day = year := by
  obtain ⟨first, last⟩ := yearFromDay_spec day
  have notEarlier : ¬ yearFromDay day < year := fun earlier => by
    have order := dayFromYear_mono (Int.add_one_le_of_lt earlier)
    omega
  have notLater : ¬ year < yearFromDay day := fun later => by
    have order := dayFromYear_mono (Int.add_one_le_of_lt later)
    omega
  omega

theorem isLeapYear_natCast (year : Nat) :
    isLeapYear (year : Int) = decide (year % 4 = 0 ∧ (year % 100 ≠ 0 ∨ year % 400 = 0)) := by
  rw [Bool.eq_iff_iff]
  simp only [isLeapYear, Bool.and_eq_true, Bool.or_eq_true, beq_iff_eq, bne_iff_ne, decide_eq_true_eq]
  omega

theorem monthLength_bounds (year month : Nat) : 1 ≤ monthLength year month ∧ monthLength year month ≤ 31 := by
  unfold monthLength
  split
  · split <;> omega
  · split <;> omega

/-- The days of a year in their months, with the length of a month as the calendar has it. -/
theorem monthFromDayInYear_exact (leap : Bool) (day : Int) (lower : 0 ≤ day) (upper : day < if leap then 366 else 365) :
    ∃ month < 12, monthFromDayInYear leap day = month ∧ 1 ≤ day - daysBeforeMonth leap month + 1 ∧
      day - daysBeforeMonth leap month + 1 ≤ monthLength (if leap then 4 else 1) (month + 1) := by
  have each : ∀ leap : Bool, ∀ day : Fin (if leap then 366 else 365), ∃ month < 12,
      monthFromDayInYear leap day = month ∧ 1 ≤ (day : Int) - daysBeforeMonth leap month + 1 ∧
      (day : Int) - daysBeforeMonth leap month + 1 ≤ monthLength (if leap then 4 else 1) (month + 1) := by
    decide +kernel
  obtain ⟨index, rfl⟩ := Int.eq_ofNat_of_zero_le lower
  exact each leap ⟨index, by cases leap <;> simp at upper ⊢ <;> omega⟩

theorem monthFromDayInYear_before (leap : Bool) (month day : Nat) (months : month < 12) (lower : 1 ≤ day)
    (upper : day ≤ monthLength (if leap then 4 else 1) (month + 1)) :
    monthFromDayInYear leap (daysBeforeMonth leap month + day - 1) = month ∧ 0 ≤ daysBeforeMonth leap month ∧
      daysBeforeMonth leap month + day ≤ if leap then 366 else 365 := by
  have each : ∀ leap : Bool, ∀ month < 12, ∀ day < 32, 1 ≤ day → day ≤ monthLength (if leap then 4 else 1) (month + 1) →
      monthFromDayInYear leap (daysBeforeMonth leap month + day - 1) = month ∧ 0 ≤ daysBeforeMonth leap month ∧
        daysBeforeMonth leap month + day ≤ if leap then 366 else 365 := by
    decide +kernel
  exact each leap month months day (Nat.lt_succ_of_le (Nat.le_trans upper (monthLength_bounds _ _).2)) lower upper

theorem monthLength_leap (year month : Nat) :
    monthLength year month = monthLength (if isLeapYear year then 4 else 1) month := by
  rw [isLeapYear_natCast]
  unfold monthLength
  by_cases leap : year % 4 = 0 ∧ (year % 100 ≠ 0 ∨ year % 400 = 0)
  · simp [leap]
  · simp [leap]

namespace Date

theorem dayInYear_exact (date : Date) :
    0 ≤ date.dayInYear ∧ date.dayInYear < if isLeapYear date.getUTCFullYear then 366 else 365 := by
  obtain ⟨lower, upper⟩ := yearFromDay_spec date.day
  rw [dayFromYear_succ] at upper
  unfold dayInYear getUTCFullYear
  omega

/-- The fields of an instant are a calendar day. -/
theorem fields_exact (date : Date) {year : Nat} (sameYear : date.getUTCFullYear = year) :
    ∃ month day : Nat, date.getUTCMonth = (month : Int) ∧ month < 12 ∧ date.getUTCDate = (day : Int) ∧ 1 ≤ day ∧
      day ≤ monthLength year (month + 1) := by
  obtain ⟨lower, upper⟩ := date.dayInYear_exact
  obtain ⟨month, months, found, first, last⟩ := monthFromDayInYear_exact _ _ lower upper
  refine ⟨month, date.getUTCDate.toNat, by rw [getUTCMonth, found], months, ?_⟩
  have dayField : date.getUTCDate = date.dayInYear - daysBeforeMonth (isLeapYear date.getUTCFullYear) month + 1 := by
    rw [getUTCDate, getUTCMonth, found, Int.toNat_natCast]
  rw [monthLength_leap, ← sameYear]
  omega

/-- The fields of an instant give its day back. -/
theorem makeDay_fields (date : Date) : makeDay date.getUTCFullYear date.getUTCMonth date.getUTCDate = date.day := by
  obtain ⟨lower, upper, _⟩ := date.fields_bounds
  have months : date.getUTCMonth / 12 = 0 ∧ date.getUTCMonth % 12 = date.getUTCMonth := by omega
  rw [makeDay, months.1, months.2, Int.add_zero, getUTCDate, dayInYear]
  omega

@[simp] theorem day_utc {year month date : Int} (century : ¬ (0 ≤ year ∧ year ≤ 99)) :
    (utc year month date).day = makeDay year month date := by
  rw [utc, if_neg century, day]
  exact Int.mul_ediv_cancel _ (by decide)

/-- A calendar day from the year 100 on is not rolled over. -/
theorem fields_utc {year month day : Nat} (century : 100 ≤ year) (months : 1 ≤ month ∧ month ≤ 12)
    (days : 1 ≤ day ∧ day ≤ monthLength year month) :
    (utc year (month - 1) day).getUTCFullYear = year ∧ (utc year (month - 1) day).getUTCMonth = (month : Int) - 1 ∧
      (utc year (month - 1) day).getUTCDate = day := by
  obtain ⟨index, rfl⟩ : ∃ index, month = index + 1 := ⟨month - 1, by omega⟩
  have length := days.2
  rw [monthLength_leap] at length
  obtain ⟨found, nonnegative, within⟩ := monthFromDayInYear_before (isLeapYear year) index day (by omega) days.1 length
  have built : (utc year ((index + 1 : Nat) - 1 : Int) day).day =
      dayFromYear year + (daysBeforeMonth (isLeapYear year) index + day - 1) := by
    have same : ((index + 1 : Nat) - 1 : Int) / 12 = 0 ∧ ((index + 1 : Nat) - 1 : Int) % 12 = index := by omega
    rw [day_utc (by omega), makeDay, same.1, same.2, Int.add_zero, Int.toNat_natCast]
    omega
  have yearField : (utc year ((index + 1 : Nat) - 1 : Int) day).getUTCFullYear = year := by
    rw [getUTCFullYear, built]
    apply yearFromDay_eq
    · omega
    · rw [dayFromYear_succ]
      omega
  have inYear : (utc year ((index + 1 : Nat) - 1 : Int) day).dayInYear =
      daysBeforeMonth (isLeapYear year) index + day - 1 := by
    rw [dayInYear, yearField, built]
    omega
  have monthField : (utc year ((index + 1 : Nat) - 1 : Int) day).getUTCMonth = index := by
    rw [getUTCMonth, yearField, inYear, found]
  refine ⟨yearField, by rw [monthField]; omega, ?_⟩
  rw [getUTCDate, yearField, monthField, inYear, Int.toNat_natCast]
  omega

end Date

namespace CalendarDay

variable {date later : CalendarDay}

theorem before_trichotomy (date later : CalendarDay) : date.Before later ∨ date = later ∨ later.Before date := by
  cases date
  cases later
  simp only [Before, mk.injEq]
  omega

theorem time_midnight (century : 100 ≤ date.year) : date.midnight.time = date.midnight.day * msPerDay := by
  rw [midnight, Date.day_utc (by omega), Date.utc, if_neg (by omega)]

theorem Before.midnight_lt (before : date.Before later) (century : 100 ≤ date.year) :
    date.midnight.time < later.midnight.time := by
  have laterCentury : 100 ≤ later.year := by
    unfold Before at before
    omega
  have days : date.midnight.day < later.midnight.day := by
    apply Int.lt_of_not_ge
    intro order
    obtain ⟨year, month, day⟩ := Date.fields_utc century date.month_range date.day_range
    obtain ⟨laterYear, laterMonth, laterDay⟩ := Date.fields_utc laterCentury later.month_range later.day_range
    have fields := Date.fields_mono order
    rw [midnight, midnight, year, month, day, laterYear, laterMonth, laterDay] at fields
    unfold Before at before
    omega
  rw [time_midnight century, time_midnight laterCentury]
  exact Int.mul_lt_mul_of_pos_right days (by decide)

theorem Before.text_lt (before : date.Before later) (small : later.year < 10 ^ 4) : date.text < later.text := by
  have months := later.month_range
  have days := (Nat.le_trans later.day_range.2 (monthLength_bounds _ _).2)
  rw [String.lt_iff, text, text, String.toList_ofList, String.toList_ofList]
  rcases before with year | ⟨year, month | ⟨month, day⟩⟩
  · simp only [List.append_assoc]
    exact padded_append_lt small year _ _
  · rw [year]
    simp only [List.append_assoc]
    exact List.append_left_lt (List.append_left_lt (padded_append_lt (by omega) month _ _))
  · rw [year, month]
    refine List.append_left_lt (List.append_left_lt ?_)
    have digits : padded 2 date.day ++ [] < padded 2 later.day ++ [] := padded_append_lt (by omega) day [] []
    simpa using digits

theorem midnight_lt_iff (century : 100 ≤ date.year) (laterCentury : 100 ≤ later.year) :
    date.midnight.time < later.midnight.time ↔ date.Before later := by
  constructor
  · intro order
    rcases before_trichotomy date later with before | rfl | after
    · exact before
    · exact absurd order (Int.lt_irrefl _)
    · exact absurd (after.midnight_lt laterCentury) (Int.lt_asymm order)
  · exact fun before => before.midnight_lt century

theorem text_lt_iff (small : date.year < 10 ^ 4) (laterSmall : later.year < 10 ^ 4) :
    date.text < later.text ↔ date.Before later := by
  constructor
  · intro order
    rcases before_trichotomy date later with before | rfl | after
    · exact before
    · exact absurd order (String.lt_irrefl _)
    · exact absurd (String.lt_trans order (after.text_lt small)) (String.lt_irrefl _)
  · exact fun before => before.text_lt laterSmall

end CalendarDay

namespace Validation

open Coverpin.Data

/-- The fields are those of a calendar day from the year 100 on. -/
theorem exactDate_eq_some {year month day : Nat} {date : Date} : exactDate year month day = some date ↔
    100 ≤ year ∧ (1 ≤ month ∧ month ≤ 12) ∧ (1 ≤ day ∧ day ≤ monthLength year month) ∧
      date = Date.utc year (month - 1) day := by
  constructor
  · intro built
    obtain ⟨yearField, monthField, dayField⟩ := exactDate_fields built
    obtain ⟨index, dayNumber, sameMonth, months, sameDay, first, last⟩ := date.fields_exact yearField
    obtain rfl : month = index + 1 := by omega
    obtain rfl : day = dayNumber := by omega
    have from_ : date = Date.utc year ((index + 1 : Nat) - 1 : Int) day := by
      unfold exactDate at built
      simp only at built
      split at built
      · cases built
      · exact (Option.some.inj built).symm
    refine ⟨?_, by omega, ⟨first, last⟩, from_⟩
    -- The years 0 to 99 are dates of the twentieth century.
    apply Nat.le_of_not_lt
    intro early
    have upper := (yearFromDay_spec date.day).2
    have yearIs : yearFromDay date.day = year := yearField
    have dayIs : date.day = makeDay (1900 + year) ((index + 1 : Nat) - 1 : Int) day := by
      rw [from_, Date.utc, if_pos ⟨by omega, by omega⟩, Date.day]
      exact Int.mul_ediv_cancel _ (by decide)
    have same : ((index + 1 : Nat) - 1 : Int) / 12 = 0 ∧ ((index + 1 : Nat) - 1 : Int) % 12 = index := by omega
    rw [makeDay, same.1, same.2, Int.add_zero, Int.toNat_natCast] at dayIs
    have later : dayFromYear (year + 1) ≤ dayFromYear (1900 + year) := dayFromYear_mono (by omega)
    have before := (monthFromDayInYear_before (isLeapYear (1900 + year)) index 1 months (by decide)
      (monthLength_bounds _ _).1).2.1
    rw [yearIs] at upper
    omega
  · intro valid
    obtain ⟨century, months, days, rfl⟩ := valid
    obtain ⟨yearField, monthField, dayField⟩ := Date.fields_utc century months days
    rw [exactDate]
    simp only [yearField, monthField, dayField, ne_eq, not_true_eq_false, or_self, if_false]

/-- A text dddd-dd-dd or d{1,2}/d{1,2}/dddd, with the three numbers it holds. -/
inductive Spells : String → Nat → Nat → Nat → Prop where
  | iso {year month day : String} (yearDigits : isDigits 4 4 year = true) (monthDigits : isDigits 2 2 month = true)
      (dayDigits : isDigits 2 2 day = true) :
      Spells (year ++ "-" ++ month ++ "-" ++ day) (digitsValue year) (digitsValue month) (digitsValue day)
  | us {month day year : String} (monthDigits : isDigits 1 2 month = true) (dayDigits : isDigits 1 2 day = true)
      (yearDigits : isDigits 4 4 year = true) :
      Spells (month ++ "/" ++ day ++ "/" ++ year) (digitsValue year) (digitsValue month) (digitsValue day)

theorem isDigits_free {low high : Nat} {text : String} {sep : Char} (digits : isDigits low high text = true)
    (other : sep.isDigit = false) : sep ∉ text.toList := by
  simp only [isDigits, Bool.and_eq_true, List.all_eq_true] at digits
  intro member
  rw [digits.2 sep member] at other
  cases other

theorem split_three (separator : String) {first second third : String} {sep : Char} (single : separator.toList = [sep])
    (firstFree : sep ∉ first.toList) (secondFree : sep ∉ second.toList) (thirdFree : sep ∉ third.toList) :
    split separator (first ++ separator ++ second ++ separator ++ third) = [first, second, third] := by
  have text : (first ++ separator ++ second ++ separator ++ third).toList =
      first.toList ++ [sep] ++ (second.toList ++ [sep] ++ third.toList) := by
    simp [single]
  rw [split, text, single, split_once firstFree, split_once secondFree, split_free thirdFree]
  simp

theorem split_two (separator : String) {first second : String} {sep : Char} (single : separator.toList = [sep])
    (firstFree : sep ∉ first.toList) (secondFree : sep ∉ second.toList) :
    split separator (first ++ separator ++ second) = [first, second] := by
  have text : (first ++ separator ++ second).toList = first.toList ++ [sep] ++ second.toList := by
    simp [single]
  rw [split, text, single, split_once firstFree, split_free secondFree]
  simp

theorem three_of_split {separator text first second third : String} (nonempty : separator.toList ≠ [])
    (parts : split separator text = [first, second, third]) :
    text = first ++ separator ++ second ++ separator ++ third := by
  rw [← String.toList_inj, split_intercalate nonempty text, parts]
  simp [List.intercalate]

theorem split_clean {separator text : String} {sep : Char} (single : separator.toList = [sep])
    (free : sep ∉ text.toList) : split separator text = [text] := by
  rw [split, single, split_free free]
  simp

/-- What is parsed is spelled in one of the two ways. -/
theorem parseDate_eq_some {raw : String} {date : Date} : parseDate raw = some date ↔
    ∃ year month day, Spells (trim raw) year month day ∧ exactDate year month day = some date := by
  constructor
  · intro parsed
    unfold parseDate at parsed
    simp only at parsed
    split at parsed
    · rename_i year month day _ parts
      split at parsed
      · rename_i digits
        simp only [Bool.and_eq_true] at digits
        refine ⟨_, _, _, ?_, parsed⟩
        rw [three_of_split (by decide) parts]
        exact .iso digits.1.1 digits.1.2 digits.2
      · cases parsed
    · rename_i month day year parts _
      split at parsed
      · rename_i digits
        simp only [Bool.and_eq_true] at digits
        refine ⟨_, _, _, ?_, parsed⟩
        rw [three_of_split (by decide) parts]
        exact .us digits.1.1 digits.1.2 digits.2
      · cases parsed
    · cases parsed
  · intro spelled
    obtain ⟨year, month, day, spelling, built⟩ := spelled
    unfold parseDate
    generalize trim raw = text at spelling ⊢
    cases spelling with
    | iso yearDigits monthDigits dayDigits =>
        have parts := split_three "-" rfl (isDigits_free yearDigits rfl) (isDigits_free monthDigits rfl)
          (isDigits_free dayDigits rfl)
        simp only [parts, yearDigits, monthDigits, dayDigits, Bool.and_self, if_true, built]
    | @us month day year monthDigits dayDigits yearDigits =>
        have parts := split_three "/" rfl (isDigits_free monthDigits rfl) (isDigits_free dayDigits rfl)
          (isDigits_free yearDigits rfl)
        have noDash : ∀ {low high : Nat} {text : String}, isDigits low high text = true → '-' ∉ text.toList :=
          fun digits => isDigits_free digits rfl
        have free : '-' ∉ (month ++ "/" ++ day ++ "/" ++ year).toList := by
          simp only [String.toList_append, List.mem_append, not_or]
          exact ⟨⟨⟨⟨noDash monthDigits, by decide⟩, noDash dayDigits⟩, by decide⟩, noDash yearDigits⟩
        have clean : split "-" (month ++ "/" ++ day ++ "/" ++ year) = [month ++ "/" ++ day ++ "/" ++ year] :=
          split_clean rfl free
        simp only [parts, clean, yearDigits, monthDigits, dayDigits, Bool.and_self, if_true, built]

theorem Spells.year_lt {text : String} {year month day : Nat} (spelling : Spells text year month day) : year < 10 ^ 4 := by
  cases spelling with
  | iso yearDigits _ _ => exact digitsValue_lt yearDigits
  | us _ _ yearDigits => exact digitsValue_lt yearDigits

/-- The day itself is spelled. -/
abbrev SpellsDay (text : String) (date : CalendarDay) : Prop :=
  Spells text date.year date.month date.day

theorem exactDate_midnight {date : CalendarDay} (century : 100 ≤ date.year) :
    exactDate date.year date.month date.day = some date.midnight :=
  exactDate_eq_some.mpr ⟨century, date.month_range, date.day_range, rfl⟩

theorem toDateOnlyString_midnight {date : CalendarDay} (century : 100 ≤ date.year) (small : date.year < 10 ^ 4) :
    toDateOnlyString date.midnight = date.text := by
  rw [← String.toList_inj, toDateOnlyString_exactDate small (exactDate_midnight century), CalendarDay.text,
    String.toList_ofList]

theorem parseDate_day {raw : String} {date : Date} : parseDate raw = some date ↔
    ∃ day : CalendarDay, 100 ≤ day.year ∧ SpellsDay (trim raw) day ∧ date = day.midnight := by
  rw [parseDate_eq_some]
  constructor
  · intro accepted
    obtain ⟨year, month, day, spelling, built⟩ := accepted
    obtain ⟨century, months, days, same⟩ := exactDate_eq_some.mp built
    exact ⟨⟨year, month, day, months, days⟩, century, spelling, same⟩
  · intro spelled
    obtain ⟨day, century, spelling, rfl⟩ := spelled
    exact ⟨_, _, _, spelling, exactDate_midnight century⟩

/-- The spellings of the calendar days from the year 100 on are accepted and no
other text is.  A day is printed and read back as itself, and the order of the
printed texts is the order of the days and of their midnights. -/
theorem acceptedDates_exact :
    (∀ raw, (parseDate raw).isSome = true ↔ ∃ day : CalendarDay, 100 ≤ day.year ∧ SpellsDay (trim raw) day) ∧
    (∀ raw (day : CalendarDay), 100 ≤ day.year → SpellsDay (trim raw) day →
      parseDate raw = some day.midnight ∧ toDateOnlyString day.midnight = day.text ∧
      parseDate day.text = some day.midnight) ∧
    ∀ raw other (date later : CalendarDay), 100 ≤ date.year → 100 ≤ later.year →
      SpellsDay (trim raw) date → SpellsDay (trim other) later →
        (isFutureDate later.midnight date.midnight = true ↔ date.Before later) ∧
        (date.Before later ↔ date.midnight.time < later.midnight.time) := by
  have accepted : ∀ raw (day : CalendarDay), 100 ≤ day.year → SpellsDay (trim raw) day →
      parseDate raw = some day.midnight :=
    fun raw day century spelling => parseDate_day.mpr ⟨day, century, spelling, rfl⟩
  refine ⟨?_, ?_, ?_⟩
  · intro raw
    constructor
    · intro parsed
      obtain ⟨date, parsed⟩ := Option.isSome_iff_exists.mp parsed
      obtain ⟨day, century, spelling, _⟩ := parseDate_day.mp parsed
      exact ⟨day, century, spelling⟩
    · intro spelled
      obtain ⟨day, century, spelling⟩ := spelled
      rw [accepted raw day century spelling]
      rfl
  · intro raw day century spelling
    have printed := toDateOnlyString_midnight century spelling.year_lt
    have again := parseDate_toDateOnlyString (accepted raw day century spelling)
    rw [printed] at again
    exact ⟨accepted raw day century spelling, printed, again⟩
  · intro raw other date later century laterCentury spelling laterSpelling
    refine ⟨?_, (CalendarDay.midnight_lt_iff century laterCentury).symm⟩
    rw [isFutureDate, decide_eq_true_eq, toDateOnlyString_midnight century spelling.year_lt,
      toDateOnlyString_midnight laterCentury laterSpelling.year_lt]
    exact CalendarDay.text_lt_iff spelling.year_lt laterSpelling.year_lt

end Validation

end Coverpin
