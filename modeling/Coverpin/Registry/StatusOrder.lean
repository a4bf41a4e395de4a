import Coverpin.Registry.LocalDates

namespace Coverpin.Registry

open Coverpin.Data Coverpin.Database Coverpin.Validation

/-! # The order of the statuses

In UTC, open filings and the passing of time make a status worse or leave it as
it is.  `Date.UTC` keeps the order of the days but for the years 0 to 99, which it
puts behind the years that follow them.
-/

/-- NOT_APPLICABLE is not on the ladder. -/
def ComplianceStatus.severity : ComplianceStatus → Nat
  | .notApplicable => 0
  | .tbd => 1
  | .goodStanding => 2
  | .filingDue => 3
  | .overdue => 4
  | .suspended => 5

theorem severity_statusOfDays (days : Int) : (statusOfDays days).severity =
    if 90 ≤ days then 2 else if 0 ≤ days then 3 else if -364 ≤ days then 4 else 5 := by
  unfold statusOfDays
  split_ifs <;> rfl

/-- The ladder steps at these numbers of days. -/
theorem severity_statusOfDays_le {days later : Int} :
    (statusOfDays days).severity ≤ (statusOfDays later).severity ↔
      ∀ threshold ∈ [(90 : Int), 0, -364], threshold ≤ later → threshold ≤ days := by
  simp only [List.mem_cons, List.not_mem_nil, or_false, forall_eq_or_imp, forall_eq, severity_statusOfDays]
  split_ifs <;> omega

/-- Below 100 years the days are read within the twentieth century, and as they are
everywhere else. -/
theorem readDay_cases (day : Int) :
    (day < -719528 ∨ -683003 ≤ day) ∧ readDay day = day ∨
    (-719528 ≤ day ∧ day < -683003) ∧ -25567 ≤ readDay day ∧ readDay day < 10957 := by
  have years : dayFromYear 0 = -719528 ∧ dayFromYear 100 = -683003 ∧ dayFromYear 1900 = -25567 ∧
      dayFromYear 2000 = 10957 := by
    decide
  by_cases inside : TwoDigitYear day
  · have read := readDay_inside inside
    simp only [TwoDigitYear, years] at inside read
    exact .inr ⟨inside, read⟩
  · have read := readDay_outside inside
    simp only [TwoDigitYear, years] at inside
    exact .inl ⟨by omega, read⟩

/-- The order of two days is kept as far as the ladder goes: before the year 0, or
from 2000-12-30 on; in the year 100, from the year 2000 on; on the first day of the
year 100, from 1999-10-03 on. -/
def LadderOrdered (today later : Int) : Prop :=
  today < dayFromYear 0 ∨ makeDay 2000 11 30 ≤ later ∨
  dayFromYear 100 ≤ today ∧ today < dayFromYear 101 ∧ dayFromYear 2000 ≤ later ∨
  today = dayFromYear 100 ∧ makeDay 1999 9 3 ≤ later

theorem ladderOrdered_iff {today later : Int} (order : today ≤ later) : LadderOrdered today later ↔
    ∀ threshold ∈ [(90 : Int), 0, -364], ∀ due earlier, earlier ≤ due →
      threshold ≤ readDay earlier - readDay later → threshold ≤ readDay due - readDay today := by
  have years : dayFromYear 0 = -719528 ∧ dayFromYear 100 = -683003 ∧ dayFromYear 101 = -682638 ∧ dayFromYear 2000 = 10957 ∧
      makeDay 2000 11 30 = 11321 ∧ makeDay 1999 9 3 = 10867 := by
    decide
  have todayRead := readDay_cases today
  have laterRead := readDay_cases later
  simp only [LadderOrdered, years, List.mem_cons, List.not_mem_nil, or_false, forall_eq_or_imp, forall_eq]
  constructor
  · intro ordered
    have each : ∀ due earlier, earlier ≤ due → ∀ threshold ∈ [(90 : Int), 0, -364],
        threshold ≤ readDay earlier - readDay later → threshold ≤ readDay due - readDay today := by
      intro due earlier before threshold member
      have dueRead := readDay_cases due
      have earlierRead := readDay_cases earlier
      simp only [List.mem_cons, List.not_mem_nil, or_false] at member
      omega
    refine ⟨fun due earlier before => ?_, fun due earlier before => ?_, fun due earlier before => ?_⟩
    · exact each due earlier before 90 (by decide)
    · exact each due earlier before 0 (by decide)
    · exact each due earlier before (-364) (by decide)
  · intro ladder
    -- The last day of the year 99 is read as the last day of 1999.
    have last : readDay (-683004) = 10956 := by decide +kernel
    have first : readDay (-683003) = -683003 := by decide +kernel
    obtain ⟨good, due, overdue⟩ := ladder
    have good := good (-683003) (-683004) (by decide)
    have due := due (-683003) (-683004) (by decide)
    have overdue := overdue (-683003) (-683004) (by decide)
    rw [last, first] at good due overdue
    omega

section Utc

variable [Platform]

theorem daysBetween_utc (utc : ∀ time, Platform.localOffset time = 0) (start finish : Date) :
    daysBetween start finish = readDay finish.day - readDay start.day := by
  have still : ∀ date : Date, zoneDays date = 0 := by
    intro date
    rw [zoneDays, utc, Int.add_zero]
    exact Int.ediv_eq_zero_of_lt (Int.emod_nonneg _ (by decide)) (Int.emod_lt_of_pos _ (by decide))
  rw [daysBetween_eq, still, still, Int.add_zero, Int.add_zero]

theorem severity_computeComplianceStatus {entityStatus : String} (active : entityStatus ∉ Entities.TERMINAL_ENTITY_STATUSES)
    (nextDueDate : Option Date) (today : Date) : (computeComplianceStatus entityStatus nextDueDate today).severity =
      match nextDueDate with
      | none => 1
      | some due => (statusOfDays (daysBetween today due)).severity := by
  have ladder : Entities.TERMINAL_ENTITY_STATUSES.contains entityStatus = false := by
    rw [← Bool.not_eq_true, List.contains_iff_mem]
    exact active
  cases nextDueDate with
  | none => simp only [computeComplianceStatus, ladder, Bool.false_eq_true, if_false, ComplianceStatus.severity]
  | some due => simp only [computeComplianceStatus, ladder, Bool.false_eq_true, if_false, statusOfDays]

/-- More open filings and a later instant never give a better status. -/
def NeverImproves (today later : Date) : Prop :=
  ∀ entityStatus ∉ Entities.TERMINAL_ENTITY_STATUSES, ∀ filings more : List FilingForDueDate,
    (openDueDates filings).Subperm (openDueDates more) →
      (computeComplianceStatus entityStatus (computeNextDueDate filings) today).severity ≤
        (computeComplianceStatus entityStatus (computeNextDueDate more) later).severity

/-- It is the earliest dates that are compared. -/
theorem neverImproves_iff {today later : Date} : NeverImproves today later ↔
    ∀ due earlier : Date, earlier.time ≤ due.time →
      (statusOfDays (daysBetween today due)).severity ≤ (statusOfDays (daysBetween later earlier)).severity := by
  constructor
  · intro never due earlier before
    have active : "Active" ∉ Entities.TERMINAL_ENTITY_STATUSES := by decide
    have contained : (openDueDates [⟨due, "Not Started"⟩]).Subperm
        (openDueDates [⟨due, "Not Started"⟩, ⟨earlier, "Not Started"⟩]) :=
      List.Sublist.subperm (List.sublist_append_left [due] [earlier])
    have single : computeNextDueDate [⟨due, "Not Started"⟩] = some due :=
      computeNextDueDate_least (List.mem_singleton_self due) fun other member => by
        rw [List.mem_singleton.mp member]
    have pair : computeNextDueDate [⟨due, "Not Started"⟩, ⟨earlier, "Not Started"⟩] = some earlier :=
      computeNextDueDate_least (List.mem_pair.mpr (.inr rfl)) fun other member => by
        rcases List.mem_pair.mp member with rfl | rfl
        · exact before
        · exact Int.le_refl _
    have order := never "Active" active _ _ contained
    rw [single, pair, severity_computeComplianceStatus active, severity_computeComplianceStatus active] at order
    exact order
  · intro ladder entityStatus active filings more contained
    rw [severity_computeComplianceStatus active, severity_computeComplianceStatus active]
    rcases computeNextDueDate_spec filings with ⟨none, _⟩ | ⟨due, isOpen, some, _⟩
    · rw [none]
      rcases computeNextDueDate_spec more with ⟨found, _⟩ | ⟨earlier, _, found, _⟩
      · rw [found]
      · simp only [found, severity_statusOfDays]
        split_ifs <;> decide
    · rcases computeNextDueDate_spec more with ⟨_, empty⟩ | ⟨earlier, _, found, least⟩
      · have member := contained.subset isOpen
        rw [empty] at member
        cases member
      · rw [some, found]
        exact ladder due earlier (least due (contained.subset isOpen))

/-- In UTC a status never improves exactly between days whose order is kept. -/
theorem neverImproves_exact (utc : ∀ time, Platform.localOffset time = 0) {today later : Date}
    (order : today.time ≤ later.time) :
    NeverImproves today later ↔ LadderOrdered today.day later.day := by
  have days : ∀ {date other : Date}, date.time ≤ other.time → date.day ≤ other.day := by
    intro date other before
    exact Int.ediv_le_ediv (by decide) before
  rw [neverImproves_iff, ladderOrdered_iff (days order)]
  simp only [severity_statusOfDays_le, daysBetween_utc utc]
  constructor
  · intro ladder threshold member due earlier before
    have instants := Int.mul_le_mul_of_nonneg_right before (by decide : 0 ≤ msPerDay)
    have step := ladder ⟨due * msPerDay⟩ ⟨earlier * msPerDay⟩ instants threshold member
    rw [day_mul, day_mul] at step
    exact step
  · intro ladder due earlier before threshold member
    exact ladder threshold member due.day earlier.day (days before)

end Utc

/-- A filing due in the year 1000 is late on the first day of the year 50, which is
read as 1950, and in good standing a century later. -/
theorem early_improves : letI := asciiPlatform
    let filings : List FilingForDueDate := [⟨midnight ⟨"1000-01-01", by decide⟩, "Not Started"⟩]
    let today : Date := ⟨-60589296000000⟩
    let later : Date := ⟨-57433622400000⟩
    today.time ≤ later.time ∧ computeComplianceStatus "Active" (computeNextDueDate filings) today = .suspended ∧
      computeComplianceStatus "Active" (computeNextDueDate filings) later = .goodStanding ∧ ¬ NeverImproves today later := by
  let _ := asciiPlatform
  intro filings today later
  have suspended : computeComplianceStatus "Active" (computeNextDueDate filings) today = .suspended := by
    decide +kernel
  have goodStanding : computeComplianceStatus "Active" (computeNextDueDate filings) later = .goodStanding := by
    decide +kernel
  refine ⟨by decide, suspended, goodStanding, fun never => ?_⟩
  have order := never "Active" (by decide) filings filings (List.Subperm.refl _)
  rw [suspended, goodStanding] at order
  exact absurd order (by decide)

theorem modern_neverImproves : letI := asciiPlatform
    NeverImproves ⟨1767268800000⟩ ⟨1800000000000⟩ := by
  let _ := asciiPlatform
  exact (neverImproves_exact (fun _ => rfl) (by decide)).mpr (.inr (.inl (by decide)))

end Coverpin.Registry
