import Coverpin.Validation.DateTexts

namespace Coverpin

/-! # The order of dates and of their texts

Up to the year 9999 a later date has a later ISO text.  From the year 10000 on
the text starts with a sign, which comes before every digit.
-/

theorem yearFromDay_spec (day : Int) :
    dayFromYear (yearFromDay day) ≤ day ∧ day < dayFromYear (yearFromDay day + 1) := by
  unfold yearFromDay
  simp only
  split
  · rename_i early
    rw [Int.sub_add_cancel]
    refine ⟨?_, early⟩
    unfold dayFromYear
    omega
  · split
    · rename_i late
      refine ⟨late, ?_⟩
      unfold dayFromYear at *
      omega
    · omega

theorem yearFromDay_mono {day later : Int} (order : day ≤ later) : yearFromDay day ≤ yearFromDay later := by
  obtain ⟨lower, _⟩ := yearFromDay_spec day
  obtain ⟨_, upper⟩ := yearFromDay_spec later
  apply Int.le_of_not_gt
  intro earlier
  have years : dayFromYear (yearFromDay later + 1) ≤ dayFromYear (yearFromDay day) := by
    unfold dayFromYear
    omega
  omega

theorem monthFromDayInYear_mono (leap : Bool) {day later : Int} (order : day ≤ later) :
    monthFromDayInYear leap day ≤ monthFromDayInYear leap later := by
  unfold monthFromDayInYear
  have started : ((List.range 12).filter fun month => daysBeforeMonth leap month ≤ day).length ≤
      ((List.range 12).filter fun month => daysBeforeMonth leap month ≤ later).length := by
    refine (List.monotone_filter_right (List.range 12) fun month begun => ?_).length_le
    simp only [decide_eq_true_eq] at begun ⊢
    omega
  omega

theorem monthFromDayInYear_spec (leap : Bool) {day : Int} (lower : 0 ≤ day) (upper : day < 366) :
    monthFromDayInYear leap day ≤ 11 ∧ 1 ≤ day - daysBeforeMonth leap (monthFromDayInYear leap day) + 1 ∧
      day - daysBeforeMonth leap (monthFromDayInYear leap day) + 1 ≤ 32 := by
  have each : ∀ leap : Bool, ∀ day : Fin 366, monthFromDayInYear leap day ≤ 11 ∧
      1 ≤ (day : Int) - daysBeforeMonth leap (monthFromDayInYear leap day) + 1 ∧
      (day : Int) - daysBeforeMonth leap (monthFromDayInYear leap day) + 1 ≤ 32 := by
    decide +kernel
  obtain ⟨index, rfl⟩ := Int.eq_ofNat_of_zero_le lower
  exact each leap ⟨index, by omega⟩

namespace Date

theorem dayInYear_bounds (date : Date) : 0 ≤ date.dayInYear ∧ date.dayInYear < 366 := by
  obtain ⟨lower, upper⟩ := yearFromDay_spec date.day
  unfold dayInYear getUTCFullYear
  have length : dayFromYear (yearFromDay date.day + 1) ≤ dayFromYear (yearFromDay date.day) + 366 := by
    unfold dayFromYear
    omega
  omega

/-- Month and day of the month have at most two digits. -/
theorem fields_bounds (date : Date) : 0 ≤ date.getUTCMonth ∧ date.getUTCMonth ≤ 11 ∧
    1 ≤ date.getUTCDate ∧ date.getUTCDate ≤ 32 := by
  obtain ⟨lower, upper⟩ := date.dayInYear_bounds
  obtain ⟨month, first, last⟩ := monthFromDayInYear_spec (isLeapYear date.getUTCFullYear) lower upper
  simp only [getUTCMonth, getUTCDate, Int.toNat_natCast]
  omega

/-- Year, month and day of the month grow with the day. -/
theorem fields_mono {date later : Date} (order : date.day ≤ later.day) :
    date.getUTCFullYear < later.getUTCFullYear ∨ date.getUTCFullYear = later.getUTCFullYear ∧
      (date.getUTCMonth < later.getUTCMonth ∨ date.getUTCMonth = later.getUTCMonth ∧ date.getUTCDate ≤ later.getUTCDate) := by
  have years : date.getUTCFullYear ≤ later.getUTCFullYear := yearFromDay_mono order
  by_cases sameYear : date.getUTCFullYear = later.getUTCFullYear
  · refine .inr ⟨sameYear, ?_⟩
    have days : date.dayInYear ≤ later.dayInYear := by
      unfold dayInYear
      rw [sameYear]
      omega
    have months : date.getUTCMonth ≤ later.getUTCMonth := by
      unfold getUTCMonth
      rw [sameYear]
      exact Int.ofNat_le.mpr (monthFromDayInYear_mono _ days)
    by_cases sameMonth : date.getUTCMonth = later.getUTCMonth
    · refine .inr ⟨sameMonth, ?_⟩
      unfold getUTCDate
      rw [sameYear, sameMonth]
      omega
    · exact .inl (by omega)
  · exact .inl (by omega)

end Date

theorem digitChar_lt {a b : Nat} (less : a % 10 < b % 10) : digitChar a < digitChar b := by
  have each : ∀ low < 10, ∀ high < 10, low < high → Char.ofNat (48 + low) < Char.ofNat (48 + high) := by decide
  exact each _ (Nat.mod_lt _ (by decide)) _ (Nat.mod_lt _ (by decide)) less

/-- Numbers of one width compare like their digits. -/
theorem padded_append_lt {width a b : Nat} (small : b < 10 ^ width) (less : a < b) (x y : List Char) :
    padded width a ++ x < padded width b ++ y := by
  induction width generalizing a b x y with
  | zero => omega
  | succ width induction =>
      simp only [padded, List.append_assoc, List.singleton_append]
      by_cases front : a / 10 = b / 10
      · rw [front]
        apply List.append_left_lt
        exact List.Lex.rel (digitChar_lt (by omega))
      · refine induction ?_ (by omega) _ _
        rw [Nat.pow_succ] at small
        omega

namespace Validation

theorem toDateOnlyString_fields {date : Date} (lower : 0 ≤ date.getUTCFullYear) (upper : date.getUTCFullYear ≤ 9999) :
    (toDateOnlyString date).toList = padded 4 date.getUTCFullYear.toNat ++ ['-'] ++
      (padded 2 (date.getUTCMonth + 1).toNat ++ ['-'] ++ padded 2 date.getUTCDate.toNat) := by
  rw [toDateOnlyString, Date.toISOString, String.toList_ofList, String.toList_ofList, isoYear, if_pos ⟨lower, upper⟩]
  simp [padded]

theorem toDateOnlyString_le {date later : Date} (order : date.day ≤ later.day) (lower : 0 ≤ date.getUTCFullYear)
    (upper : later.getUTCFullYear ≤ 9999) :
    toDateOnlyString date = toDateOnlyString later ∨ toDateOnlyString date < toDateOnlyString later := by
  have fields := Date.fields_mono order
  obtain ⟨month, _, day, _⟩ := date.fields_bounds
  obtain ⟨laterMonth, monthBound, laterDay, dayBound⟩ := later.fields_bounds
  have text := toDateOnlyString_fields lower (by omega)
  have laterText : (toDateOnlyString later).toList = _ := toDateOnlyString_fields (by omega) upper
  rw [← String.toList_inj, String.lt_iff, text, laterText]
  rcases fields with year | ⟨year, month | ⟨month, day⟩⟩
  · simp only [List.append_assoc]
    exact .inr (padded_append_lt (by omega) (by omega) _ _)
  · rw [year]
    simp only [List.append_assoc]
    exact .inr (List.append_left_lt (List.append_left_lt (padded_append_lt (by omega) (by omega) _ _)))
  · rw [year, month]
    rcases Int.lt_or_eq_of_le day with day | day
    · refine .inr (List.append_left_lt (List.append_left_lt ?_))
      have digits : padded 2 date.getUTCDate.toNat ++ [] < padded 2 later.getUTCDate.toNat ++ [] :=
        padded_append_lt (by omega) (by omega) [] []
      simpa using digits
    · exact .inl (by rw [day])

/-- Before the year 0 the text starts with a minus sign, which comes before digits. -/
theorem isFutureDate_of_negative {date today : Date} (lower : 0 ≤ date.getUTCFullYear) (upper : date.getUTCFullYear ≤ 9999)
    (negative : today.getUTCFullYear < 0) : isFutureDate date today = true := by
  have text := toDateOnlyString_fields lower upper
  have signed : ∃ rest, (toDateOnlyString today).toList = '-' :: rest := by
    rw [toDateOnlyString, Date.toISOString, String.toList_ofList, String.toList_ofList, isoYear,
      if_neg fun within => absurd within.1 (by omega), if_pos negative]
    exact ⟨_, rfl⟩
  obtain ⟨rest, signed⟩ := signed
  rw [isFutureDate, decide_eq_true_eq, String.lt_iff, text, signed]
  have digits := padded_length 4 date.getUTCFullYear.toNat
  cases year : padded 4 date.getUTCFullYear.toNat with
  | nil => simp [year] at digits
  | cons first others =>
      have digit : first.isDigit = true := padded_digits first (year ▸ List.mem_cons_self ..)
      simp only [Char.isDigit, Bool.and_eq_true, decide_eq_true_eq] at digit
      have after : '-' < first := Nat.lt_of_lt_of_le (by decide : '-'.toNat < 48) digit.1
      exact List.Lex.rel after

/-- What is not in the future on one day is not in the future on any later day up
to the end of the year 9999. -/
theorem isFutureDate_later {date today later : Date} (lower : 0 ≤ date.getUTCFullYear) (upper : date.getUTCFullYear ≤ 9999)
    (order : today.time ≤ later.time) (bound : later.getUTCFullYear ≤ 9999) (past : isFutureDate date today = false) :
    isFutureDate date later = false := by
  have days : today.day ≤ later.day := Int.ediv_le_ediv (by decide) order
  by_cases negative : today.getUTCFullYear < 0
  · rw [isFutureDate_of_negative lower upper negative] at past
    cases past
  · rw [isFutureDate, decide_eq_false_iff_not] at past ⊢
    intro future
    rcases toDateOnlyString_le days (by omega) bound with same | earlier
    · rw [same] at past
      exact past future
    · exact past (String.lt_trans earlier future)

theorem parseDate_year {raw : String} {date : Date} (parsed : parseDate raw = some date) :
    0 ≤ date.getUTCFullYear ∧ date.getUTCFullYear ≤ 9999 := by
  obtain ⟨year, month, day, small, _, _, exact_⟩ := parseDate_fields parsed
  have same := (exactDate_fields exact_).1
  rw [same]
  omega

end Validation

end Coverpin
