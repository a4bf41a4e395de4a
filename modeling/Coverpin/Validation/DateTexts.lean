import Coverpin.Validation.Common

namespace Coverpin.Validation

open Coverpin Coverpin.Data

/-! # Dates that are printed and read back

A date that `parseDate` accepts has four digits for its year, so `toDateOnlyString`
prints it in the ISO form that `parseDate` reads as the same date.
-/

theorem digitChar_spec (value : Nat) :
    (digitChar value).isDigit = true ∧ (digitChar value).toNat = 48 + value % 10 := by
  have each : ∀ digit < 10, (Char.ofNat (48 + digit)).isDigit = true ∧ (Char.ofNat (48 + digit)).toNat = 48 + digit := by
    decide
  exact each _ (Nat.mod_lt _ (by decide))

@[simp] theorem padded_length (width value : Nat) : (padded width value).length = width := by
  induction width generalizing value with
  | zero => rfl
  | succ width induction => simp [padded, induction]

theorem padded_digits {width value : Nat} : ∀ char ∈ padded width value, char.isDigit = true := by
  induction width generalizing value with
  | zero => exact List.forall_mem_nil _
  | succ width induction =>
      intro char member
      rcases List.mem_append.mp member with front | last
      · exact induction char front
      · rw [List.mem_singleton.mp last]
        exact (digitChar_spec value).1

theorem digitsValue_padded (width value : Nat) :
    digitsValue (String.ofList (padded width value)) = value % 10 ^ width := by
  rw [digitsValue, String.toList_ofList]
  induction width generalizing value with
  | zero => simp [padded, Nat.mod_one]
  | succ width induction =>
      rw [padded, List.foldl_append, induction, List.foldl_cons, List.foldl_nil, (digitChar_spec value).2,
        Nat.pow_succ', Nat.mod_mul]
      omega

theorem isDigits_padded {low high width value : Nat} (atLeast : low ≤ width) (atMost : width ≤ high) :
    isDigits low high (String.ofList (padded width value)) = true := by
  simp only [isDigits, String.toList_ofList, padded_length, Bool.and_eq_true, decide_eq_true_eq, List.all_eq_true]
  exact ⟨⟨atLeast, atMost⟩, padded_digits⟩

theorem digitsValue_lt {low high : Nat} {text : String} (digits : isDigits low high text = true) :
    digitsValue text < 10 ^ high := by
  simp only [isDigits, Bool.and_eq_true, decide_eq_true_eq, List.all_eq_true] at digits
  obtain ⟨⟨_, short⟩, each⟩ := digits
  suffices general : ∀ (chars : List Char) (start width : Nat), (∀ char ∈ chars, char.isDigit = true) → start < 10 ^ width →
      chars.foldl (fun value digit => 10 * value + (digit.toNat - 48)) start < 10 ^ (width + chars.length) by
    have bound := general text.toList 0 0 each (by decide)
    rw [Nat.zero_add] at bound
    exact Nat.lt_of_lt_of_le bound (Nat.pow_le_pow_right (by decide) short)
  intro chars
  induction chars with
  | nil => exact fun start width _ small => small
  | cons char chars induction =>
      intro start width each small
      have digit : char.toNat ≤ 57 := by
        have isDigit := each char (by simp)
        simp only [Char.isDigit, Bool.and_eq_true, decide_eq_true_eq] at isDigit
        exact isDigit.2
      have next : 10 * start + (char.toNat - 48) < 10 ^ (width + 1) := by
        rw [Nat.pow_succ]
        omega
      have bound := induction _ (width + 1) (fun other member => each other (List.mem_cons_of_mem _ member)) next
      rwa [List.foldl_cons, List.length_cons, Nat.add_comm chars.length, ← Nat.add_assoc]

theorem exactDate_fields {year month day : Nat} {date : Date} (exact_ : exactDate year month day = some date) :
    date.getUTCFullYear = year ∧ date.getUTCMonth = (month : Int) - 1 ∧ date.getUTCDate = day := by
  unfold exactDate at exact_
  simp only at exact_
  split at exact_
  · cases exact_
  · rename_i kept
    cases exact_
    simp only [not_or, ne_eq, Classical.not_not] at kept
    exact kept

theorem parseDate_fields {raw : String} {date : Date} (parsed : parseDate raw = some date) :
    ∃ year month day, year < 10 ^ 4 ∧ month < 10 ^ 2 ∧ day < 10 ^ 2 ∧ exactDate year month day = some date := by
  unfold parseDate at parsed
  simp only at parsed
  split at parsed
  · split at parsed
    · rename_i digits
      simp only [Bool.and_eq_true] at digits
      exact ⟨_, _, _, digitsValue_lt digits.1.1, digitsValue_lt digits.1.2, digitsValue_lt digits.2, parsed⟩
    · cases parsed
  · split at parsed
    · rename_i digits
      simp only [Bool.and_eq_true] at digits
      exact ⟨_, _, _, digitsValue_lt digits.2, digitsValue_lt digits.1.1, digitsValue_lt digits.1.2, parsed⟩
    · cases parsed
  · cases parsed

theorem toDateOnlyString_exactDate {year month day : Nat} {date : Date} (small : year < 10 ^ 4)
    (exact_ : exactDate year month day = some date) :
    (toDateOnlyString date).toList = padded 4 year ++ ['-'] ++ (padded 2 month ++ ['-'] ++ padded 2 day) := by
  obtain ⟨yearField, monthField, dayField⟩ := exactDate_fields exact_
  have iso : isoYear date.getUTCFullYear = padded 4 year := by
    rw [yearField, isoYear, if_pos (by omega), Int.toNat_natCast]
  rw [toDateOnlyString, Date.toISOString, String.toList_ofList, String.toList_ofList, iso, monthField, dayField,
    Int.sub_add_cancel, Int.toNat_natCast, Int.toNat_natCast]
  simp [padded]

theorem split_once {sep : Char} {left right : List Char} (free : sep ∉ left) :
    splitAt [sep] (left ++ [sep] ++ right) = left :: splitAt [sep] right := by
  have clean : NoSeparatorWithin [sep] left ([sep] ++ right) := by
    intro before inside same present starts
    obtain ⟨rest, found⟩ := starts
    cases inside with
    | nil => exact present rfl
    | cons first inside =>
        simp only [List.cons_append, List.nil_append, List.cons.injEq] at found
        exact free (by rw [same, found.1]; simp)
  rw [splitAt, splitFrom_append (by simp) clean]
  rfl

theorem split_free {sep : Char} {items : List Char} (free : sep ∉ items) : splitAt [sep] items = [items] := by
  rw [splitAt, splitFrom_clean fun inside => free (inside.subset (by simp))]
  rfl

theorem trimChars_solid {chars : List Char} (solid : ∀ char ∈ chars, isWhitespace char = false) :
    trimChars chars = chars := by
  have keep : ∀ items : List Char, (∀ char ∈ items, isWhitespace char = false) → items.dropWhile isWhitespace = items := by
    intro items each
    cases items with
    | nil => rfl
    | cons first items => rw [List.dropWhile_cons_of_neg (by simp [each first (by simp)])]
  rw [trimChars, keep chars solid, keep chars.reverse fun char member => solid char (List.mem_reverse.mp member),
    List.reverse_reverse]

theorem isWhitespace_digit {char : Char} (digit : char.isDigit = true) : isWhitespace char = false := by
  simp only [Char.isDigit, Bool.and_eq_true, decide_eq_true_eq] at digit
  have lower : 48 ≤ char.toNat := digit.1
  have upper : char.toNat ≤ 57 := digit.2
  simp only [isWhitespace, Bool.or_eq_false_iff, Bool.and_eq_false_iff, decide_eq_false_iff_not, beq_eq_false_iff_ne]
  omega

/-- Printing a parsed date and parsing the text gives the date back. -/
theorem parseDate_toDateOnlyString {raw : String} {date : Date} (parsed : parseDate raw = some date) :
    parseDate (toDateOnlyString date) = some date := by
  obtain ⟨year, month, day, yearBound, monthBound, dayBound, exact_⟩ := parseDate_fields parsed
  have text := toDateOnlyString_exactDate yearBound exact_
  have noDash : ∀ {width value : Nat}, '-' ∉ padded width value :=
    fun member => absurd (padded_digits _ member) (by decide)
  have solid : ∀ char ∈ (toDateOnlyString date).toList, isWhitespace char = false := by
    intro char member
    simp only [text, List.mem_append, List.mem_singleton] at member
    rcases member with (front | rfl) | ((middle | rfl) | last)
    · exact isWhitespace_digit (padded_digits _ front)
    · decide
    · exact isWhitespace_digit (padded_digits _ middle)
    · decide
    · exact isWhitespace_digit (padded_digits _ last)
  have trimmed : trim (toDateOnlyString date) = toDateOnlyString date := by
    rw [trim, trimChars_solid solid, String.ofList_toList]
  have dash : "-".toList = ['-'] := rfl
  have parts : split "-" (toDateOnlyString date) =
      [String.ofList (padded 4 year), String.ofList (padded 2 month), String.ofList (padded 2 day)] := by
    rw [split, text, dash, split_once noDash, split_once noDash, split_free noDash]
    rfl
  have digits : (isDigits 4 4 (String.ofList (padded 4 year)) && isDigits 2 2 (String.ofList (padded 2 month)) &&
      isDigits 2 2 (String.ofList (padded 2 day))) = true := by
    simp [isDigits_padded]
  simp only [parseDate, trimmed, parts, digits, if_true, digitsValue_padded, Nat.mod_eq_of_lt yearBound,
    Nat.mod_eq_of_lt monthBound, Nat.mod_eq_of_lt dayBound, exact_]

end Coverpin.Validation
