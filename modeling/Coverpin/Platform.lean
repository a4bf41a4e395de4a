import Coverpin.Data.Split

namespace Coverpin

/-! # What the runtime and the database supply

String functions of the JavaScript runtime that the program calls, on `String`
as a sequence of Unicode scalar values, and the platform services whose
tables are not part of the program: case mapping and collation.  So are the time
zone of the process and the database's `gen_random_uuid()`, which is any function
that returns an id not in use.
-/

open Coverpin.Data

abbrev EntityId := Nat

/-- `toLowerCase` and `localeCompare` follow tables of the runtime, and ids come
from the database.  Results about the program hold for each choice of them. -/
class Platform where
  toLowerCase : String → String
  -- No case mapping produces the separator character.
  toLowerCase_pipe : ∀ text, '|' ∈ (toLowerCase text).toList → '|' ∈ text.toList
  localeCompare : String → String → Ordering
  foldChar : Char → Char  -- case folding of the database, as ILIKE uses it
  localOffset : Int → Int  -- what local time is ahead of UTC at an instant, in milliseconds
  newId : List EntityId → EntityId
  newId_fresh : ∀ ids, newId ids ∉ ids

theorem le_foldl_max (ids : List Nat) (start : Nat) :
    start ≤ ids.foldl max start ∧ ∀ id ∈ ids, id ≤ ids.foldl max start := by
  induction ids generalizing start with
  | nil => simp
  | cons id ids induction =>
      obtain ⟨lower, upper⟩ := induction (max start id)
      refine ⟨by simp only [List.foldl_cons]; omega, ?_⟩
      intro other member
      rcases List.mem_cons.mp member with rfl | later
      · simp only [List.foldl_cons]; omega
      · exact upper other later

theorem toLower_pipe {char : Char} (lowered : char.toLower = '|') : char = '|' := by
  unfold Char.toLower at lowered
  split at lowered
  · rename_i upper
    have value := congrArg Char.val lowered
    have bound : char.val + 32 = 124 := value
    exact absurd upper.2 (by rw [show char.val = 92 by grind]; decide)
  · exact lowered

/-- A platform to evaluate the program on: it folds the case of ASCII letters,
compares names by code points and numbers the ids. -/
@[reducible] def asciiPlatform : Platform where
  toLowerCase text := String.ofList (text.toList.map Char.toLower)
  toLowerCase_pipe text member := by
    simp only [String.toList_ofList, List.mem_map] at member
    obtain ⟨char, inside, lowered⟩ := member
    exact toLower_pipe lowered ▸ inside
  localeCompare left right := compare left right
  foldChar := Char.toLower
  localOffset _ := 0
  newId ids := ids.foldl max 0 + 1
  newId_fresh ids member := by
    exact Nat.not_succ_le_self _ ((le_foldl_max ids 0).2 _ member)

/-- WhiteSpace and LineTerminator of the ECMAScript grammar. -/
def isWhitespace (char : Char) : Bool :=
  let code := char.toNat
  (9 ≤ code && code ≤ 13) || code == 0x20 || code == 0xA0 || code == 0x1680 ||
    (0x2000 ≤ code && code ≤ 0x200A) || code == 0x2028 || code == 0x2029 || code == 0x202F ||
    code == 0x205F || code == 0x3000 || code == 0xFEFF

def trimChars (chars : List Char) : List Char :=
  ((chars.dropWhile isWhitespace).reverse.dropWhile isWhitespace).reverse

/-- `String.prototype.trim`. -/
def trim (text : String) : String :=
  String.ofList (trimChars text.toList)

/-- `String.prototype.split` with a separator that is not empty. -/
def split (separator text : String) : List String :=
  (splitAt separator.toList text.toList).map String.ofList

/-- `String.prototype.endsWith`. -/
def endsWith (suffix text : String) : Bool :=
  suffix.toList.isSuffixOf text.toList

/-- `String.prototype.includes`. -/
def includes (part text : String) : Bool :=
  text.toList.tails.any part.toList.isPrefixOf

@[simp] theorem toList_trim (text : String) : (trim text).toList = trimChars text.toList := by
  simp [trim]

theorem trimChars_subset (chars : List Char) : trimChars chars ⊆ chars := by
  intro char member
  rw [trimChars, List.mem_reverse] at member
  have inner := (List.dropWhile_sublist _).subset member
  exact (List.dropWhile_sublist _).subset (List.mem_reverse.mp inner)

theorem dropWhile_idempotent (p : α → Bool) (items : List α) :
    (items.dropWhile p).dropWhile p = items.dropWhile p := by
  induction items with
  | nil => rfl
  | cons item items induction =>
      by_cases holds : p item
      · simp [holds, induction]
      · simp [holds]

theorem dropWhile_reverse_dropWhile (p : α → Bool) (items : List α) :
    (((items.dropWhile p).reverse.dropWhile p).reverse).dropWhile p =
      ((items.dropWhile p).reverse.dropWhile p).reverse := by
  cases kept : items.dropWhile p with
  | nil => rfl
  | cons first rest =>
      have solid : ¬ p first = true := by
        have head := List.head?_dropWhile_not p items
        rw [kept] at head
        simpa using head
      have survives : ∀ tail : List α, ((first :: rest).reverse.dropWhile p).reverse = tail →
          ∃ others, tail = first :: others := by
        intro tail same
        subst same
        rw [List.reverse_cons, List.dropWhile_append]
        split
        · simp [solid]
        · simp
      obtain ⟨others, same⟩ := survives _ rfl
      rw [same]
      simp [solid]

theorem trimChars_trimChars (chars : List Char) : trimChars (trimChars chars) = trimChars chars := by
  have front : (trimChars chars).dropWhile isWhitespace = trimChars chars :=
    dropWhile_reverse_dropWhile isWhitespace chars
  have back : (trimChars chars).reverse.dropWhile isWhitespace = (trimChars chars).reverse := by
    rw [trimChars, List.reverse_reverse, dropWhile_idempotent]
  calc trimChars (trimChars chars)
      = (((trimChars chars).dropWhile isWhitespace).reverse.dropWhile isWhitespace).reverse := rfl
    _ = trimChars chars := by rw [front, back, List.reverse_reverse]

theorem toList_split (separator text : String) :
    (split separator text).map String.toList = splitAt separator.toList text.toList := by
  simp [split]

theorem split_intercalate {separator : String} (nonempty : separator.toList ≠ []) (text : String) :
    text.toList = separator.toList.intercalate ((split separator text).map String.toList) := by
  rw [toList_split, splitAt_intercalate nonempty]

theorem split_part_free {separator text part : String} {sep : Char} (single : separator.toList = [sep])
    (listed : part ∈ split separator text) : sep ∉ part.toList := by
  have inside : part.toList ∈ splitAt [sep] text.toList := by
    rw [← single, ← toList_split]
    exact List.mem_map_of_mem listed
  exact splitAt_single_free text.toList part.toList inside

theorem split_ne_nil (separator text : String) : split separator text ≠ [] := by
  rw [split, ne_eq, List.map_eq_nil_iff]
  exact splitFrom_ne_nil _ _ _ _

@[simp] theorem trim_trim (text : String) : trim (trim text) = trim text := by
  rw [trim, toList_trim, trimChars_trimChars, trim]

end Coverpin
