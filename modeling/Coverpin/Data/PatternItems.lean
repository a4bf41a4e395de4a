import Mathlib.Data.List.Forall2

namespace Coverpin.Data

/-! Patterns of literals and wildcards, and the texts that they match.

Literals are compared up to a relation, so that a pattern can be read with and
without regard to case.
-/

variable {α : Type u} {same : α → α → Prop}

inductive PatternItem (α : Type u) where
  | anySequence
  | anyOne
  | literal (item : α)
deriving DecidableEq, Repr

inductive Matches (same : α → α → Prop) : List (PatternItem α) → List α → Prop where
  | nil : Matches same [] []
  | anySequence {items : List (PatternItem α)} {text : List α} (skipped : List α) (rest : Matches same items text) :
      Matches same (.anySequence :: items) (skipped ++ text)
  | anyOne {items : List (PatternItem α)} {text : List α} (item : α) (rest : Matches same items text) :
      Matches same (.anyOne :: items) (item :: text)
  | literal {items : List (PatternItem α)} {text : List α} {item other : α} (agrees : same item other)
      (rest : Matches same items text) : Matches same (.literal item :: items) (other :: text)

variable {items : List (PatternItem α)} {text : List α}

theorem matches_nil : Matches same [] text ↔ text = [] := by
  constructor
  · intro matched
    cases matched
    rfl
  · intro empty
    subst empty
    exact .nil

theorem matches_anySequence : Matches same (.anySequence :: items) text ↔
    ∃ skipped rest, text = skipped ++ rest ∧ Matches same items rest := by
  constructor
  · intro matched
    cases matched with
    | anySequence skipped rest => exact ⟨skipped, _, rfl, rest⟩
  · intro cut
    obtain ⟨skipped, rest, rfl, matched⟩ := cut
    exact .anySequence skipped matched

theorem matches_anyOne : Matches same (.anyOne :: items) text ↔
    ∃ item rest, text = item :: rest ∧ Matches same items rest := by
  constructor
  · intro matched
    cases matched with
    | anyOne item rest => exact ⟨item, _, rfl, rest⟩
  · intro cut
    obtain ⟨item, rest, rfl, matched⟩ := cut
    exact .anyOne item matched

theorem matches_literal {item : α} : Matches same (.literal item :: items) text ↔
    ∃ other rest, text = other :: rest ∧ same item other ∧ Matches same items rest := by
  constructor
  · intro matched
    cases matched with
    | literal agrees rest => exact ⟨_, _, rfl, agrees, rest⟩
  · intro cut
    obtain ⟨other, rest, rfl, agrees, matched⟩ := cut
    exact .literal agrees matched

/-- A run of literals takes an equal run off the text. -/
theorem matches_literals {term : List α} : Matches same (term.map .literal ++ items) text ↔
    ∃ front rest, text = front ++ rest ∧ List.Forall₂ same term front ∧ Matches same items rest := by
  induction term generalizing text with
  | nil =>
      constructor
      · exact fun matched => ⟨[], text, rfl, .nil, matched⟩
      · intro cut
        obtain ⟨front, rest, rfl, none, matched⟩ := cut
        cases none
        exact matched
  | cons item term induction =>
      rw [List.map_cons, List.cons_append, matches_literal]
      constructor
      · intro cut
        obtain ⟨other, rest, rfl, agrees, matched⟩ := cut
        obtain ⟨front, rest, rfl, run, matched⟩ := induction.mp matched
        exact ⟨other :: front, rest, rfl, .cons agrees run, matched⟩
      · intro cut
        obtain ⟨front, rest, rfl, run, matched⟩ := cut
        cases run with
        | cons agrees run => exact ⟨_, _, rfl, agrees, induction.mpr ⟨_, rest, rfl, run, matched⟩⟩

/-- Between two wildcards literals match the texts that contain them. -/
theorem matches_contains {term : List α} : Matches same (.anySequence :: (term.map .literal ++ [.anySequence])) text ↔
    ∃ before middle after, text = before ++ middle ++ after ∧ List.Forall₂ same term middle := by
  rw [matches_anySequence]
  constructor
  · intro cut
    obtain ⟨before, rest, rfl, matched⟩ := cut
    obtain ⟨middle, after, rfl, run, _⟩ := matches_literals.mp matched
    exact ⟨before, middle, after, (List.append_assoc ..).symm, run⟩
  · intro found
    obtain ⟨before, middle, after, rfl, run⟩ := found
    refine ⟨before, middle ++ after, List.append_assoc .., matches_literals.mpr ⟨middle, after, rfl, run, ?_⟩⟩
    exact matches_anySequence.mpr ⟨after, [], (List.append_nil after).symm, .nil⟩

end Coverpin.Data
