import Coverpin.Data.PatternItems
import Coverpin.Util

namespace Coverpin.Registry

open Coverpin.Data

/-! # User text in a LIKE pattern

A pattern is a list of literals and wildcards once its escapes are read.  The
escaped text of a user is literals only, whatever it contains.
-/

/-- The items of a pattern; none when it ends with an escape character. -/
def likeItems : List Char → Option (List (PatternItem Char))
  | [] => some []
  | '%' :: pattern => (likeItems pattern).map (.anySequence :: ·)
  | '_' :: pattern => (likeItems pattern).map (.anyOne :: ·)
  | ['\\'] => none
  | '\\' :: char :: pattern => (likeItems pattern).map (.literal char :: ·)
  | char :: pattern => (likeItems pattern).map (.literal char :: ·)

theorem likeItems_plain {char : Char} (plain : ¬ IsLikeSymbol char) (pattern : List Char) :
    likeItems (char :: pattern) = (likeItems pattern).map (.literal char :: ·) := by
  rw [likeItems]
  · exact fun percent => plain (.inr (.inl percent))
  · exact fun underscore => plain (.inr (.inr underscore))
  · exact fun backslash => absurd (.inl backslash) plain
  · exact fun _ _ backslash => absurd (.inl backslash) plain

theorem any_tails {p : List Char → Bool} {text : List Char} : text.tails.any p = true ↔
    ∃ skipped rest, text = skipped ++ rest ∧ p rest = true := by
  rw [List.any_eq_true]
  constructor
  · intro found
    obtain ⟨rest, member, holds⟩ := found
    obtain ⟨skipped, same⟩ := (List.mem_tails rest text).mp member
    exact ⟨skipped, rest, same.symm, holds⟩
  · intro found
    obtain ⟨skipped, rest, rfl, holds⟩ := found
    exact ⟨rest, (List.mem_tails rest _).mpr (List.suffix_append skipped rest), holds⟩

theorem like_literal_iff {matched : List Char → Bool} {char : Char} {text : List Char} :
    (text.head? == some char && matched text.tail) = true ↔
      ∃ other rest, text = other :: rest ∧ char = other ∧ matched rest = true := by
  cases text with
  | nil => simp
  | cons other rest =>
      simp only [List.head?_cons, List.tail_cons, Bool.and_eq_true, beq_iff_eq, Option.some.injEq, List.cons.injEq]
      constructor
      · intro found
        exact ⟨other, rest, ⟨rfl, rfl⟩, found.1.symm, found.2⟩
      · intro found
        obtain ⟨_, _, ⟨rfl, rfl⟩, same, holds⟩ := found
        exact ⟨same.symm, holds⟩

/-- LIKE matches what the items of its pattern match. -/
theorem like_iff {pattern : List Char} {items : List (PatternItem Char)} (read : likeItems pattern = some items)
    {text : List Char} : like pattern text = true ↔ Matches Eq items text := by
  fun_induction likeItems pattern generalizing items text with
  | case1 =>
      cases read
      rw [like, matches_nil, List.isEmpty_iff]
  | case2 pattern induction =>
      obtain ⟨rest, later, rfl⟩ := Option.map_eq_some_iff.mp read
      rw [like, any_tails, matches_anySequence]
      simp only [induction later]
  | case3 pattern induction =>
      obtain ⟨rest, later, rfl⟩ := Option.map_eq_some_iff.mp read
      rw [like, matches_anyOne]
      cases text with
      | nil => simp
      | cons item text => simp [induction later]
  | case4 => cases read
  | case5 char pattern induction =>
      obtain ⟨rest, later, rfl⟩ := Option.map_eq_some_iff.mp read
      rw [like, like_literal_iff, matches_literal]
      simp only [induction later]
  | case6 char pattern percent underscore dangling escape induction =>
      obtain ⟨rest, later, rfl⟩ := Option.map_eq_some_iff.mp read
      rw [like, like_literal_iff, matches_literal]
      simp only [induction later]
      · exact percent
      · exact underscore
      · exact escape

/-- Escaped text reads as its own characters, before any other pattern. -/
theorem likeItems_escapeChars (term pattern : List Char) :
    likeItems (escapeChars term ++ pattern) = (likeItems pattern).map (term.map .literal ++ ·) := by
  induction term with
  | nil => simp [escapeChars]
  | cons char term induction =>
      have first : likeItems (escapeChars (char :: term) ++ pattern) =
          (likeItems (escapeChars term ++ pattern)).map (.literal char :: ·) := by
        by_cases symbol : IsLikeSymbol char
        · simp [escapeChars, symbol, likeItems]
        · simp [escapeChars, symbol, likeItems_plain]
      rw [first, induction, Option.map_map]
      rfl

/-- The pattern of a search has an item for each character of the term between
two wildcards, and none of its escapes is left open.  It matches the names that
contain the term, also where both are folded by the same function. -/
theorem likePattern_contains (term name : String) :
    let pattern := ("%" ++ escapeLikePattern term ++ "%").toList
    let items := .anySequence :: (term.toList.map .literal ++ [.anySequence])
    likeItems pattern = some items ∧
    (like pattern name.toList = true ↔ ∃ before after, name.toList = before ++ term.toList ++ after) ∧
    ∀ fold : Char → Char, Matches (fun char other => fold char = fold other) items name.toList ↔
      ∃ before middle after, name.toList = before ++ middle ++ after ∧ middle.map fold = term.toList.map fold := by
  intro pattern items
  have chars : pattern = '%' :: (escapeChars term.toList ++ ['%']) := by
    simp only [pattern]
    rw [String.toList_append, String.toList_append, toList_escapeLikePattern]
    rfl
  have read : likeItems pattern = some items := by
    rw [chars, likeItems, likeItems_escapeChars]
    rfl
  refine ⟨read, ?_, fun fold => ?_⟩
  · rw [like_iff read, matches_contains]
    constructor
    · intro found
      obtain ⟨before, middle, after, cut, run⟩ := found
      rw [List.forall₂_eq_eq_eq] at run
      exact ⟨before, after, run ▸ cut⟩
    · intro found
      obtain ⟨before, after, cut⟩ := found
      exact ⟨before, term.toList, after, cut, List.forall₂_eq_eq_eq ▸ rfl⟩
  · rw [matches_contains]
    have folded : ∀ middle : List Char, List.Forall₂ (fun char other => fold char = fold other) term.toList middle ↔
        middle.map fold = term.toList.map fold := by
      intro middle
      rw [eq_comm, ← List.forall₂_eq_eq_eq, List.forall₂_map_left_iff, List.forall₂_map_right_iff]
    simp only [folded]

end Coverpin.Registry
