import Coverpin.Registry.SearchTree
import Coverpin.Validation.CalendarDays

namespace Coverpin.Registry

open Coverpin.Data Coverpin.Database Coverpin.Upload Coverpin.Validation

/-! # Local dates and UTC dates

`daysBetween` counts the days between the local dates of two instants.  They
are as many as between the UTC dates when the zone moves both dates alike.
-/

/-- A day of the years 0 to 99. -/
abbrev TwoDigitYear (day : Int) : Prop :=
  dayFromYear 0 ≤ day ∧ day < dayFromYear 100

/-- The day that `Date.UTC` makes of the date of a day: the years 0 to 99 are read
as 1900 to 1999. -/
def readDay (day : Int) : Int :=
  let date : Date := ⟨day * msPerDay⟩
  if 0 ≤ date.getUTCFullYear ∧ date.getUTCFullYear ≤ 99 then
    makeDay (1900 + date.getUTCFullYear) date.getUTCMonth date.getUTCDate
  else day

theorem day_mul (day : Int) : (⟨day * msPerDay⟩ : Date).day = day :=
  Int.mul_ediv_cancel _ (by decide)

theorem fields_of_day {date other : Date} (same : date.day = other.day) : date.getUTCFullYear = other.getUTCFullYear ∧
    date.getUTCMonth = other.getUTCMonth ∧ date.getUTCDate = other.getUTCDate := by
  simp only [Date.getUTCDate, Date.getUTCMonth, Date.dayInYear, Date.getUTCFullYear, same, and_self]

theorem twoDigitYear_iff {day : Int} : TwoDigitYear day ↔ 0 ≤ yearFromDay day ∧ yearFromDay day ≤ 99 := by
  obtain ⟨lower, upper⟩ := yearFromDay_spec day
  constructor
  · intro days
    obtain ⟨start, finish⟩ := days
    constructor
    · apply Int.le_of_not_gt
      intro earlier
      have order := dayFromYear_mono (Int.add_one_le_of_lt earlier)
      omega
    · apply Int.le_of_not_gt
      intro later
      have order : dayFromYear 100 ≤ dayFromYear (yearFromDay day) := dayFromYear_mono (by omega)
      omega
  · intro years
    have first := dayFromYear_mono years.1
    have last : dayFromYear (yearFromDay day + 1) ≤ dayFromYear 100 := dayFromYear_mono (by omega)
    exact ⟨by omega, by omega⟩

theorem readDay_outside {day : Int} (outside : ¬ TwoDigitYear day) : readDay day = day := by
  rw [readDay]
  refine if_neg ?_
  rw [Date.getUTCFullYear, day_mul, ← twoDigitYear_iff]
  exact outside

/-- A valid month and day stay within the year, be it leap or not. -/
theorem dayOfYear_within (leap leapThere : Bool) (month day : Nat) (months : month < 12) (lower : 1 ≤ day)
    (upper : day ≤ monthLength (if leap then 4 else 1) (month + 1)) :
    1 ≤ daysBeforeMonth leapThere month + day ∧ daysBeforeMonth leapThere month + day ≤ if leapThere then 366 else 365 := by
  have each : ∀ leap leapThere : Bool, ∀ month < 12, ∀ day < 32, 1 ≤ day →
      day ≤ monthLength (if leap then 4 else 1) (month + 1) → 1 ≤ daysBeforeMonth leapThere month + day ∧
        daysBeforeMonth leapThere month + day ≤ if leapThere then 366 else 365 := by
    decide +kernel
  exact each leap leapThere month months day (Nat.lt_succ_of_le (Nat.le_trans upper (monthLength_bounds _ _).2)) lower upper

theorem readDay_inside {day : Int} (inside : TwoDigitYear day) :
    dayFromYear 1900 ≤ readDay day ∧ readDay day < dayFromYear 2000 := by
  obtain ⟨date, rfl⟩ : ∃ date : Date, date.day = day := ⟨_, day_mul day⟩
  have years : 0 ≤ date.getUTCFullYear ∧ date.getUTCFullYear ≤ 99 := twoDigitYear_iff.mp inside
  obtain ⟨year, sameYear⟩ := Int.eq_ofNat_of_zero_le years.1
  obtain ⟨month, dayNumber, sameMonth, months, sameDay, first, last⟩ := date.fields_exact sameYear
  obtain ⟨sameYears, sameMonths, sameDays⟩ := fields_of_day (day_mul date.day)
  have read : readDay date.day = makeDay (1900 + year) month dayNumber := by
    rw [readDay]
    simp only [sameYears, sameMonths, sameDays]
    rw [if_pos years, sameMonth, sameDay, ← sameYear]
  have noRoll : (month : Int) / 12 = 0 ∧ (month : Int) % 12 = month := by omega
  rw [monthLength_leap] at last
  obtain ⟨lower, upper⟩ := dayOfYear_within (isLeapYear year) (isLeapYear (1900 + year)) month dayNumber months first last
  have start := dayFromYear_mono (show (1900 : Int) ≤ 1900 + year by omega)
  have finish := dayFromYear_mono (show 1900 + (year : Int) + 1 ≤ 2000 by omega)
  rw [dayFromYear_succ] at finish
  rw [read, makeDay, noRoll.1, noRoll.2, Int.add_zero, Int.toNat_natCast]
  omega

/-- The ladder from the days left to a status. -/
def statusOfDays (days : Int) : ComplianceStatus :=
  if 90 ≤ days then .goodStanding
  else if 0 ≤ days then .filingDue
  else if -364 ≤ days then .overdue
  else .suspended

/-- The status that the UTC dates of today and of the next due date call for. -/
def utcStatus (entityStatus : String) (nextDueDate : Option Date) (today : Date) : ComplianceStatus :=
  if Entities.TERMINAL_ENTITY_STATUSES.contains entityStatus then .notApplicable
  else match nextDueDate with
    | none => .tbd
    | some nextDueDate => statusOfDays (nextDueDate.day - today.day)

/-- The due date that counts for an entity. -/
def ownNextDueDate (db : Database) (id : EntityId) : Option Date :=
  computeNextDueDate ((db.filings.records.filter (·.entityId = id)).map Filing.forDueDate)

/-- The due dates of the filings that are neither Filed nor Canceled. -/
def openDueDates (filings : List FilingForDueDate) : List Date :=
  (filings.filter fun filing => filing.status ≠ "Filed" ∧ filing.status ≠ "Canceled").map FilingForDueDate.dueDate

theorem eligible_eq (filings : List FilingForDueDate) :
    (filings.filter fun filing => !INELIGIBLE_FILING_STATUSES.contains filing.status).map FilingForDueDate.dueDate =
      openDueDates filings := by
  refine congrArg (List.map _) (List.filter_congr fun filing _ => ?_)
  simp [INELIGIBLE_FILING_STATUSES]

theorem foldl_earlierDate (filings : List FilingForDueDate) (start : Date) :
    (filings.foldl earlierDate start = start ∨ filings.foldl earlierDate start ∈ filings.map FilingForDueDate.dueDate) ∧
      (filings.foldl earlierDate start).time ≤ start.time ∧
      ∀ date ∈ filings.map FilingForDueDate.dueDate, (filings.foldl earlierDate start).time ≤ date.time := by
  induction filings generalizing start with
  | nil => simp
  | cons filing rest induction =>
      obtain ⟨source, bound, least⟩ := induction (earlierDate start filing)
      have step : (earlierDate start filing = start ∨ earlierDate start filing = filing.dueDate) ∧
          (earlierDate start filing).time ≤ start.time ∧ (earlierDate start filing).time ≤ filing.dueDate.time := by
        unfold earlierDate
        split
        · exact ⟨.inr rfl, by omega, by omega⟩
        · exact ⟨.inl rfl, by omega, by omega⟩
      obtain ⟨origin, fromStart, fromFiling⟩ := step
      rw [List.foldl_cons, List.map_cons]
      refine ⟨?_, by omega, ?_⟩
      · rcases source with same | later
        · rw [same]
          exact origin.imp_right fun first => by rw [first]; exact List.mem_cons_self ..
        · exact .inr (List.mem_cons_of_mem _ later)
      · intro date member
        rcases List.mem_cons.mp member with rfl | later
        · omega
        · exact least date later

/-- The date found is open, and no open date is earlier. -/
theorem computeNextDueDate_spec (filings : List FilingForDueDate) :
    (computeNextDueDate filings = none ∧ openDueDates filings = []) ∨
    ∃ next ∈ openDueDates filings, computeNextDueDate filings = some next ∧
      ∀ date ∈ openDueDates filings, next.time ≤ date.time := by
  rw [← eligible_eq, computeNextDueDate]
  cases filings.filter fun filing => !INELIGIBLE_FILING_STATUSES.contains filing.status with
  | nil => exact .inl ⟨rfl, rfl⟩
  | cons first rest =>
      obtain ⟨source, _, least⟩ := foldl_earlierDate (first :: rest) first.dueDate
      refine .inr ⟨_, ?_, rfl, least⟩
      rcases source with same | member
      · rw [same]
        exact List.mem_cons_self ..
      · exact member

theorem computeNextDueDate_least {filings : List FilingForDueDate} {date : Date} (isOpen : date ∈ openDueDates filings)
    (least : ∀ other ∈ openDueDates filings, date.time ≤ other.time) : computeNextDueDate filings = some date := by
  rcases computeNextDueDate_spec filings with ⟨_, empty⟩ | ⟨next, nextOpen, found, first⟩
  · rw [empty] at isOpen
    cases isOpen
  · have same : next.time = date.time := Int.le_antisymm (first date isOpen) (least next nextOpen)
    cases next
    cases date
    rw [found, Option.some.injEq, Date.mk.injEq]
    exact same

section Zone

variable [Platform]

/-- The days by which the local date is ahead of the UTC date. -/
def zoneDays (date : Date) : Int :=
  (date.time % msPerDay + Platform.localOffset date.time) / msPerDay

theorem day_localFields (date : Date) : (localFields date).day = date.day + zoneDays date := by
  simp only [localFields, Date.day, zoneDays, msPerDay]
  omega

theorem time_localDay (date : Date) : (localDay date).time = readDay (date.day + zoneDays date) * msPerDay := by
  obtain ⟨years, months, days⟩ := fields_of_day (day_mul (localFields date).day)
  rw [← day_localFields, localDay, Date.utc, readDay]
  simp only [years, months, days]
  split
  · rfl
  · rw [Date.makeDay_fields]

theorem daysBetween_eq (start finish : Date) :
    daysBetween start finish = readDay (finish.day + zoneDays finish) - readDay (start.day + zoneDays start) := by
  rw [daysBetween, time_localDay, time_localDay, ← Int.sub_mul]
  exact Int.mul_ediv_cancel _ (by decide)

/-- Local time, and the reading of the years 0 to 99, move both dates by the same
number of days. -/
def MovedAlike (today due : Date) : Prop :=
  readDay (due.day + zoneDays due) - due.day = readDay (today.day + zoneDays today) - today.day

instance (today due : Date) : Decidable (MovedAlike today due) :=
  inferInstanceAs (Decidable (_ = _))

theorem daysBetween_utc_iff {today due : Date} : daysBetween today due = due.day - today.day ↔ MovedAlike today due := by
  rw [daysBetween_eq, MovedAlike]
  omega

theorem computeComplianceStatus_of_moved {today : Date} {nextDueDate : Option Date} (entityStatus : String)
    (moved : ∀ due ∈ nextDueDate, MovedAlike today due) :
    computeComplianceStatus entityStatus nextDueDate today = utcStatus entityStatus nextDueDate today := by
  cases nextDueDate with
  | none => rfl
  | some due =>
      have days := daysBetween_utc_iff.mpr (moved due rfl)
      rw [computeComplianceStatus, utcStatus]
      simp only [days, statusOfDays]

theorem ownNextDueDate_moved {db : Database} {today : Date}
    (moved : ∀ filing ∈ db.filings.records, MovedAlike today (midnight filing.dueDate)) (id : EntityId) :
    ∀ due ∈ ownNextDueDate db id, MovedAlike today due := by
  intro due found
  rcases computeNextDueDate_spec ((db.filings.records.filter (·.entityId = id)).map Filing.forDueDate) with
    ⟨none, _⟩ | ⟨next, isOpen, some, _⟩
  · rw [ownNextDueDate, none] at found
    cases found
  · obtain rfl : next = due := by
      rw [ownNextDueDate, some] at found
      exact Option.some.inj found
    obtain ⟨due, listed, rfl⟩ := List.mem_map.mp isOpen
    obtain ⟨filing, own, rfl⟩ := List.mem_map.mp (List.mem_filter.mp listed).1
    simp only [Filing.forDueDate]
    exact moved filing (List.mem_of_mem_filter own)

/-- Outside the years 0 to 99 the offsets decide. -/
theorem movedAlike_iff_zoneDays {today due : Date} (todayYear : ¬ TwoDigitYear (today.day + zoneDays today))
    (dueYear : ¬ TwoDigitYear (due.day + zoneDays due)) : MovedAlike today due ↔ zoneDays due = zoneDays today := by
  rw [MovedAlike, readDay_outside todayYear, readDay_outside dueYear]
  omega

/-- An offset within a day, in milliseconds. -/
def WithinDay (offset : Int) : Prop :=
  -msPerDay ≤ offset ∧ offset < msPerDay

/-- An offset of less than a day moves a UTC midnight to the day before or not at all. -/
theorem movedAlike_iff_offsets {today due : Date} (todayYear : ¬ TwoDigitYear (today.day + zoneDays today))
    (dueYear : ¬ TwoDigitYear (due.day + zoneDays due)) (startsDay : due.time % msPerDay = 0)
    (todayOffset : WithinDay (Platform.localOffset today.time)) (dueOffset : WithinDay (Platform.localOffset due.time)) :
    let localTime := today.time % msPerDay + Platform.localOffset today.time
    MovedAlike today due ↔ 0 ≤ Platform.localOffset due.time ∧ 0 ≤ localTime ∧ localTime < msPerDay ∨
      Platform.localOffset due.time < 0 ∧ localTime < 0 := by
  have timeOfDay : 0 ≤ today.time % msPerDay ∧ today.time % msPerDay < msPerDay :=
    ⟨Int.emod_nonneg _ (by decide), Int.emod_lt_of_pos _ (by decide)⟩
  intro localTime
  rw [movedAlike_iff_zoneDays todayYear dueYear, zoneDays, zoneDays, startsDay, Int.zero_add]
  simp only [WithinDay, msPerDay, localTime] at *
  omega

/-- Days and statuses are those of the UTC dates exactly when both dates are moved
alike: for offsets of less than a day, when local time is neither behind UTC at the
due date nor on another day than UTC today, or behind UTC at the due date and on the
day before UTC today.  Where that is so for all filings, it is so for the filter. -/
theorem utcDates_exact :
    (∀ today due : Date, (daysBetween today due = due.day - today.day ∧ ∀ entityStatus,
        computeComplianceStatus entityStatus (some due) today = utcStatus entityStatus (some due) today) ↔
      MovedAlike today due) ∧
    (∀ today due : Date, ¬ TwoDigitYear (today.day + zoneDays today) → ¬ TwoDigitYear (due.day + zoneDays due) →
      due.time % msPerDay = 0 → WithinDay (Platform.localOffset today.time) → WithinDay (Platform.localOffset due.time) →
        let localTime := today.time % msPerDay + Platform.localOffset today.time
        (MovedAlike today due ↔ 0 ≤ Platform.localOffset due.time ∧ 0 ≤ localTime ∧ localTime < msPerDay ∨
          Platform.localOffset due.time < 0 ∧ localTime < 0)) ∧
    ∀ (db : Database) (today : Date) (query : EntitiesQuery) (candidates kept : List CandidateRoot),
      (∀ filing ∈ db.filings.records, MovedAlike today (midnight filing.dueDate)) →
        filterByCompliance db today query candidates = some kept → ∀ candidate, candidate ∈ kept ↔
          candidate ∈ candidates ∧ ∀ complianceStatus ∈ truthy query.complianceStatus,
            (utcStatus candidate.entityStatus (ownNextDueDate db candidate.id) today).text = complianceStatus := by
  refine ⟨?_, ?_, ?_⟩
  · intro today due
    constructor
    · intro agree
      exact daysBetween_utc_iff.mp agree.1
    · intro moved
      refine ⟨daysBetween_utc_iff.mpr moved, fun entityStatus => computeComplianceStatus_of_moved entityStatus ?_⟩
      intro other same
      rw [← Option.some.inj same]
      exact moved
  · intro today due todayYear dueYear startsDay todayOffset dueOffset
    exact movedAlike_iff_offsets todayYear dueYear startsDay todayOffset dueOffset
  · intro db today query candidates kept moved filtered candidate
    rw [mem_filterByCompliance filtered, PassesCompliance]
    have status := computeComplianceStatus_of_moved candidate.entityStatus (ownNextDueDate_moved moved candidate.id)
    simp only [← status]
    rfl

end Zone

/-- A zone five hours behind UTC. -/
@[reducible] def westernPlatform : Platform :=
  { asciiPlatform with localOffset := fun _ => -18000000 }

/-- At noon of the due date, 2026-01-01, the filing is a day late. -/
theorem western_overdue : letI := westernPlatform
    let due := midnight ⟨"2026-01-01", by decide⟩
    let noon : Date := ⟨1767268800000⟩
    due.time % msPerDay = 0 ∧ due.day - noon.day = 0 ∧ daysBetween noon due = -1 ∧
      computeComplianceStatus "Active" (some due) noon = .overdue ∧ utcStatus "Active" (some due) noon = .filingDue := by
  decide +kernel

/-- Acme and Beta have an annual report to file, Beta two weeks before Acme. -/
def reportRequest : UploadRequest where
  limits := .default
  today := ⟨0⟩
  files := {
    entities := csvFile .entities [["Acme", "Entity", "US", "Corporation", "Active", "", "", "", "", ""],
      ["Beta", "Entity", "US", "Corporation", "Active", "", "", "", "", ""]]
    ownership := csvFile .ownership []
    filings := csvFile .filings [["Acme", "Annual Report", "US", "", "2026-01-01", "", "Not Started"],
      ["Beta", "Annual Report", "US", "", "2025-12-18", "", "Filed"]] }

def reportState : Database :=
  letI := asciiPlatform
  (processUpload reportRequest.limits reportRequest.today reportRequest.files Database.initial).1

def filingDueQuery : EntitiesQuery :=
  { search := none, page := none, pageSize := none, entityStatus := none, complianceStatus := some "Filing Due",
    jurisdiction := none }

/-- At 3:00 UTC on 2025-12-15 the zone is on the day before, as it is at the UTC
midnights of the due dates. -/
theorem western_filingDue : letI := westernPlatform
    let due := midnight ⟨"2026-01-01", by decide⟩
    let early : Date := ⟨1765767600000⟩
    let query := filingDueQuery
    (daysBetween early due = due.day - early.day ∧ ∀ entityStatus,
      computeComplianceStatus entityStatus (some due) early = utcStatus entityStatus (some due) early) ∧
    (MovedAlike early due ↔ 0 ≤ Platform.localOffset due.time ∧ 0 ≤ early.time % msPerDay + Platform.localOffset early.time ∧
        early.time % msPerDay + Platform.localOffset early.time < msPerDay ∨
      Platform.localOffset due.time < 0 ∧ early.time % msPerDay + Platform.localOffset early.time < 0) ∧
    ∃ kept, filterByCompliance reportState early query (fetchCandidateRoots reportState query) = some kept ∧
      ∀ candidate, candidate ∈ kept ↔ candidate ∈ fetchCandidateRoots reportState query ∧
        ∀ complianceStatus ∈ truthy query.complianceStatus,
          (utcStatus candidate.entityStatus (ownNextDueDate reportState candidate.id) early).text = complianceStatus := by
  intro due early query
  have filings : letI := westernPlatform
      ∀ filing ∈ reportState.filings.records, MovedAlike ⟨1765767600000⟩ (midnight filing.dueDate) := by
    decide +kernel
  let _ := westernPlatform
  have moved : MovedAlike early due := by decide +kernel
  have years : ¬ TwoDigitYear (early.day + zoneDays early) ∧ ¬ TwoDigitYear (due.day + zoneDays due) := by decide +kernel
  have few : (fetchCandidateRoots reportState filingDueQuery).length ≤ maxParameters := by decide +kernel
  obtain ⟨kept, filtered⟩ := exists_filterByCompliance reportState early query few
  exact ⟨(utcDates_exact.1 _ _).mpr moved,
    utcDates_exact.2.1 _ _ years.1 years.2 (by decide) ⟨by decide, by decide⟩ ⟨by decide, by decide⟩,
    kept, filtered, utcDates_exact.2.2 _ _ _ _ _ filings filtered⟩

end Coverpin.Registry
