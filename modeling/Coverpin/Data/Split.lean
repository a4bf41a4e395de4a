import Mathlib.Data.List.Infix
import Mathlib.Data.List.Basic

namespace Coverpin.Data

/-! Splitting a sequence at every occurrence of a separator, from the left and
without overlaps, and when a pair joined by the separator can be read back.
-/

variable {α : Type u} [DecidableEq α]

/-- `skip` counts the elements of a separator that are still to be dropped and
`part` is the current part, reversed. -/
def splitFrom (sep : List α) : List α → Nat → List α → List (List α)
  | [], _, part => [part.reverse]
  | _ :: rest, skip + 1, part => splitFrom sep rest skip part
  | item :: rest, 0, part =>
      if sep.isPrefixOf (item :: rest) then part.reverse :: splitFrom sep rest (sep.length - 1) []
      else splitFrom sep rest 0 (item :: part)

def splitAt (sep items : List α) : List (List α) :=
  splitFrom sep items 0 []

/-- No separator begins inside `left` when `left` is followed by `right`. -/
def NoSeparatorWithin (sep left right : List α) : Prop :=
  ∀ before inside, left = before ++ inside → inside ≠ [] → ¬ sep <+: inside ++ right

theorem splitFrom_skip (sep items dropped part : List α) :
    splitFrom sep (dropped ++ items) dropped.length part = splitFrom sep items 0 part := by
  induction dropped with
  | nil => rfl
  | cons item dropped induction => simpa [splitFrom] using induction

theorem splitFrom_append {sep left right part : List α} (nonempty : sep ≠ [])
    (clean : NoSeparatorWithin sep left (sep ++ right)) :
    splitFrom sep (left ++ sep ++ right) 0 part =
      (part.reverse ++ left) :: splitAt sep right := by
  induction left generalizing part with
  | nil =>
      obtain ⟨first, rest, rfl⟩ := List.exists_cons_of_ne_nil nonempty
      have found : (first :: rest).isPrefixOf (first :: (rest ++ right)) = true := by
        rw [List.isPrefixOf_iff_prefix]
        exact ⟨right, rfl⟩
      simp only [List.nil_append, List.cons_append, splitFrom, found, if_true, List.length_cons,
        Nat.add_sub_cancel, splitFrom_skip, List.append_nil, splitAt]
  | cons item left induction =>
      have absent : ¬ sep.isPrefixOf (item :: (left ++ sep ++ right)) = true := by
        rw [List.isPrefixOf_iff_prefix]
        simpa using clean [] (item :: left) rfl (by simp)
      have rest : NoSeparatorWithin sep left (sep ++ right) := fun before inside same =>
        clean (item :: before) inside (by rw [same]; rfl)
      simp only [List.cons_append, splitFrom, absent]
      simpa using @induction (item :: part) rest

theorem splitFrom_clean {sep items part : List α} (clean : ¬ sep <:+: items) :
    splitFrom sep items 0 part = [part.reverse ++ items] := by
  induction items generalizing part with
  | nil => simp [splitFrom]
  | cons item items induction =>
      have absent : ¬ sep.isPrefixOf (item :: items) = true := by
        rw [List.isPrefixOf_iff_prefix]
        exact fun found => clean found.isInfix
      have rest : ¬ sep <:+: items := fun found => clean (found.trans (List.suffix_cons item items).isInfix)
      simp only [splitFrom, absent]
      simpa using @induction (item :: part) rest

theorem splitFrom_ne_nil (sep items part : List α) (skip : Nat) : splitFrom sep items skip part ≠ [] := by
  induction items generalizing skip part with
  | nil => simp [splitFrom]
  | cons item items induction =>
      cases skip with
      | succ skip => simpa [splitFrom] using induction part skip
      | zero =>
          rw [splitFrom]
          split
          · simp
          · exact induction (item :: part) 0

theorem splitFrom_intercalate {sep : List α} (nonempty : sep ≠ []) (items part : List α) (skip : Nat) :
    sep.intercalate (splitFrom sep items skip part) = part.reverse ++ items.drop skip := by
  induction items generalizing part skip with
  | nil => cases skip <;> simp [splitFrom]
  | cons item items induction =>
      cases skip with
      | succ skip => simpa [splitFrom] using induction part skip
      | zero =>
          rw [splitFrom]
          split
          · rename_i found
            obtain ⟨rest, same⟩ := List.isPrefixOf_iff_prefix.mp found
            obtain ⟨first, others, rfl⟩ := List.exists_cons_of_ne_nil nonempty
            rw [List.intercalate_cons_of_ne_nil (splitFrom_ne_nil _ _ _ _), induction]
            rw [List.cons_append, List.cons.injEq] at same
            obtain ⟨rfl, rfl⟩ := same
            simp
          · rw [induction]
            simp

/-- Joining the parts gives the sequence back. -/
theorem splitAt_intercalate {sep : List α} (nonempty : sep ≠ []) (items : List α) :
    sep.intercalate (splitAt sep items) = items :=
  splitFrom_intercalate nonempty items [] 0
theorem splitFrom_single_free {sep : α} {items part : List α} (clean : sep ∉ part) :
    ∀ piece ∈ splitFrom [sep] items 0 part, sep ∉ piece := by
  induction items generalizing part with
  | nil => simpa [splitFrom] using clean
  | cons item items induction =>
      rw [splitFrom]
      split
      · intro piece listed
        rcases List.mem_cons.mp listed with rfl | later
        · simpa using clean
        · exact induction List.not_mem_nil piece later
      · rename_i differs
        refine induction ?_
        intro member
        rcases List.mem_cons.mp member with rfl | inside
        · simp at differs
        · exact clean inside

/-- No part holds a separator of one element. -/
theorem splitAt_single_free {sep : α} (items : List α) : ∀ piece ∈ splitAt [sep] items, sep ∉ piece :=
  splitFrom_single_free List.not_mem_nil
/-- An occurrence of the separator makes two parts at least. -/
theorem splitFrom_parts {sep after : List α} (before part : List α) (nonempty : sep ≠ []) (found : sep <+: after) :
    ∃ first second rest, splitFrom sep (before ++ after) 0 part = first :: second :: rest := by
  induction before generalizing part with
  | nil =>
      obtain ⟨item, items, rfl⟩ : ∃ item items, after = item :: items :=
        List.exists_cons_of_ne_nil fun empty => nonempty (List.prefix_nil.mp (empty ▸ found))
      obtain ⟨second, rest, tail⟩ := List.exists_cons_of_ne_nil (splitFrom_ne_nil sep items [] (sep.length - 1))
      exact ⟨part.reverse, second, rest, by
        simp only [List.nil_append, splitFrom, List.isPrefixOf_iff_prefix.mpr found, if_true, tail]⟩
  | cons item before induction =>
      simp only [List.cons_append, splitFrom]
      split
      · obtain ⟨second, rest, tail⟩ :=
          List.exists_cons_of_ne_nil (splitFrom_ne_nil sep (before ++ after) [] (sep.length - 1))
        exact ⟨part.reverse, second, rest, by rw [tail]⟩
      · exact induction (item :: part)

/-- The first part ends where the first separator begins, or earlier. -/
theorem splitFrom_head_length {sep before after part first : List α} {rest : List (List α)}
    (nonempty : sep ≠ []) (found : sep <+: after)
    (split : splitFrom sep (before ++ after) 0 part = first :: rest) :
    first.length ≤ part.length + before.length := by
  induction before generalizing part with
  | nil =>
      obtain ⟨item, items, rfl⟩ : ∃ item items, after = item :: items :=
        List.exists_cons_of_ne_nil fun empty =>
          nonempty (List.prefix_nil.mp (empty ▸ found))
      have here := List.isPrefixOf_iff_prefix.mpr found
      simp only [List.nil_append, splitFrom, here, if_true, List.cons.injEq] at split
      rw [← split.1]
      simp
  | cons item before induction =>
      simp only [List.cons_append, splitFrom] at split
      split at split
      · rw [List.cons.injEq] at split
        rw [← split.1]
        simp only [List.length_reverse, List.length_cons]
        omega
      · have shorter := induction split
        simp only [List.length_cons] at shorter ⊢
        omega

/-- No separator begins inside the first of several parts. -/
theorem splitAt_first {sep items first second : List α} {rest : List (List α)} (nonempty : sep ≠ [])
    (parts : splitAt sep items = first :: second :: rest) :
    ∃ right, items = first ++ sep ++ right ∧ NoSeparatorWithin sep first (sep ++ right) := by
  have joined := splitAt_intercalate nonempty items
  rw [parts, List.intercalate_cons_cons] at joined
  refine ⟨sep.intercalate (second :: rest), joined.symm, ?_⟩
  intro before inside same present found
  have split : splitFrom sep (before ++ (inside ++ (sep ++ sep.intercalate (second :: rest)))) 0 [] =
      first :: second :: rest := by
    rw [← parts, splitAt, ← joined, same]
    simp only [List.append_assoc]
  have bound := splitFrom_head_length nonempty found split
  have positive := List.length_pos_of_ne_nil present
  rw [same, List.length_append, List.length_nil] at bound
  omega

/-- A joined pair is read back exactly when no separator begins inside its left
component and none occurs in its right component. -/
theorem splitAt_join {sep left right : List α} (nonempty : sep ≠ []) :
    (∃ rest, splitAt sep (left ++ sep ++ right) = left :: right :: rest) ↔
      NoSeparatorWithin sep left (sep ++ right) ∧ ¬ sep <:+: right := by
  constructor
  · intro starts
    obtain ⟨rest, split⟩ := starts
    have clean : NoSeparatorWithin sep left (sep ++ right) := by
      intro before inside same present found
      rw [same, List.append_assoc, List.append_assoc] at split
      have bound := splitFrom_head_length nonempty found split
      have positive := List.length_pos_of_ne_nil present
      simp only [List.length_nil, Nat.zero_add, List.length_append] at bound
      omega
    refine ⟨clean, ?_⟩
    intro contained
    obtain ⟨before, after, same⟩ := contained
    rw [splitAt, splitFrom_append nonempty clean, List.cons.injEq] at split
    have tail : splitFrom sep (before ++ (sep ++ after)) 0 [] = right :: rest := by
      rw [← List.append_assoc, same]
      exact split.2
    have bound := splitFrom_head_length nonempty (List.prefix_append sep after) tail
    have positive := List.length_pos_of_ne_nil nonempty
    have total := congrArg List.length same
    simp only [List.length_append, List.length_nil, Nat.zero_add] at bound total
    omega
  · intro clear
    obtain ⟨clean, free⟩ := clear
    exact ⟨[], by
      rw [splitAt, splitFrom_append nonempty clean, splitAt, splitFrom_clean free]
      simp⟩

end Coverpin.Data
