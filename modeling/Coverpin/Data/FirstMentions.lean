import Mathlib.Data.List.Nodup
import Mathlib.Data.List.Induction
import Mathlib.Data.List.Perm.Subperm

namespace Coverpin.Data

/-! Lists up to later mentions of their elements.

A set that keeps the order of insertion is the list of the first mentions.  What
is mentioned, and what is mentioned before an element, can be read of either list.
-/

variable {α : Type u} {β : Type v} [DecidableEq α] [DecidableEq β]

/-- Insertion into a set that keeps the order of insertion. -/
def addNew (items : List α) (item : α) : List α :=
  if item ∈ items then items else items ++ [item]

@[simp] theorem mem_addNew {items : List α} {item other : α} : other ∈ addNew items item ↔ other ∈ items ∨ other = item := by
  unfold addNew
  split
  · rename_i present
    constructor
    · exact .inl
    · exact fun either => either.elim id fun same => same ▸ present
  · simp

theorem addNew_nodup {items : List α} (distinct : items.Nodup) (item : α) : (addNew items item).Nodup := by
  unfold addNew
  split
  · exact distinct
  · rename_i fresh
    exact List.nodup_append.mpr ⟨distinct, List.nodup_singleton item, by grind⟩

theorem mem_foldl_addNew {items more : List α} {other : α} :
    other ∈ more.foldl addNew items ↔ other ∈ items ∨ other ∈ more := by
  induction more generalizing items with
  | nil => simp
  | cons item more induction => rw [List.foldl_cons, induction, mem_addNew, List.mem_cons, or_assoc]

theorem foldl_addNew_nodup {items : List α} (distinct : items.Nodup) (more : List α) :
    (more.foldl addNew items).Nodup := by
  induction more generalizing items with
  | nil => exact distinct
  | cons item more induction => exact induction (addNew_nodup distinct item)

theorem foldl_addNew_of_subset {items more : List α} (known : more ⊆ items) : more.foldl addNew items = items := by
  induction more with
  | nil => rfl
  | cons item more induction =>
      obtain ⟨present, later⟩ := List.cons_subset.mp known
      rw [List.foldl_cons, addNew, if_pos present, induction later]

/-- The first mentions, in order. -/
def firsts (items : List α) : List α :=
  items.foldl addNew []

variable {items others : List α} {item other : α}

@[simp] theorem mem_firsts : item ∈ firsts items ↔ item ∈ items := by
  simp [firsts, mem_foldl_addNew]

theorem firsts_nodup (items : List α) : (firsts items).Nodup :=
  foldl_addNew_nodup List.nodup_nil items

/-- There are no more first mentions than elements to choose from. -/
theorem length_firsts_le (known : items ⊆ others) : (firsts items).length ≤ others.length :=
  (List.subperm_of_subset (firsts_nodup items) fun _ member => known (mem_firsts.mp member)).length_le

theorem firsts_append (items more : List α) : firsts (items ++ more) = more.foldl addNew (firsts items) :=
  List.foldl_append

theorem firsts_concat (items : List α) (item : α) : firsts (items ++ [item]) = addNew (firsts items) item :=
  firsts_append items [item]

theorem foldl_addNew_firsts (start items : List α) : items.foldl addNew start = (firsts items).foldl addNew start := by
  induction items using List.reverseRecOn with
  | nil => rfl
  | append_singleton items item induction =>
      rw [List.foldl_append, induction, firsts_concat, addNew]
      split
      · exact foldl_addNew_of_subset (by simp_all [mem_foldl_addNew])
      · exact List.foldl_append.symm

theorem foldl_addNew_congr (same : firsts items = firsts others) (start : List α) :
    items.foldl addNew start = others.foldl addNew start := by
  rw [foldl_addNew_firsts, same, ← foldl_addNew_firsts]

theorem firsts_cons_congr (same : firsts items = firsts others) (item : α) :
    firsts (item :: items) = firsts (item :: others) :=
  foldl_addNew_congr same [item]

theorem firsts_flatMap (f : α → List β) (items : List α) : firsts (items.flatMap f) = firsts ((firsts items).flatMap f) := by
  induction items using List.reverseRecOn with
  | nil => rfl
  | append_singleton items item induction =>
      rw [List.flatMap_append, List.flatMap_singleton, firsts_append, induction, firsts_concat, addNew]
      split
      · rename_i present
        exact foldl_addNew_of_subset fun value member => mem_firsts.mpr (List.mem_flatMap.mpr ⟨item, present, member⟩)
      · rw [List.flatMap_append, List.flatMap_singleton, firsts_append]

omit [DecidableEq α] in
theorem firsts_flatMap_congr {f g : α → List β} (same : ∀ item, firsts (f item) = firsts (g item)) (items : List α) :
    firsts (items.flatMap f) = firsts (items.flatMap g) := by
  induction items using List.reverseRecOn with
  | nil => rfl
  | append_singleton items item induction =>
      rw [List.flatMap_append, List.flatMap_append, List.flatMap_singleton, List.flatMap_singleton, firsts_append,
        firsts_append, induction, foldl_addNew_congr (same item)]

theorem takeWhile_append_ne (items more : List α) (item : α) : (items ++ more).takeWhile (· ≠ item) =
    if item ∈ items then items.takeWhile (· ≠ item) else items ++ more.takeWhile (· ≠ item) := by
  induction items with
  | nil => simp
  | cons first items induction =>
      by_cases same : first = item
      · simp [same]
      · have different : item ≠ first := fun equal => same equal.symm
        simp only [List.cons_append, List.takeWhile_cons, ne_eq, same, not_false_eq_true, decide_true, if_true, induction,
          List.mem_cons, different, false_or]
        split <;> rfl

/-- What is mentioned before an element. -/
theorem mem_takeWhile_firsts : other ∈ (firsts items).takeWhile (· ≠ item) ↔ other ∈ items.takeWhile (· ≠ item) := by
  induction items using List.reverseRecOn with
  | nil => rfl
  | append_singleton items last induction =>
      have absent : item ∉ items → (firsts items).takeWhile (· ≠ item) = firsts items := by
        intro absent
        have whole := takeWhile_append_ne (firsts items) [] item
        rwa [if_neg (by simpa using absent), List.append_nil, List.takeWhile_nil, List.append_nil] at whole
      rw [firsts_concat, addNew, takeWhile_append_ne]
      by_cases known : item ∈ items
      · rw [if_pos known]
        by_cases again : last ∈ firsts items
        · rw [if_pos again, induction]
        · rw [if_neg again, takeWhile_append_ne, if_pos (mem_firsts.mpr known), induction]
      · rw [if_neg known]
        by_cases again : last ∈ firsts items
        · have different : last ≠ item := fun same => known (same ▸ mem_firsts.mp again)
          rw [if_pos again, absent known]
          simp only [List.takeWhile_cons, ne_eq, different, not_false_eq_true, decide_true, if_true, List.takeWhile_nil,
            List.mem_append, List.mem_singleton, mem_firsts]
          exact ⟨.inl, fun either => either.elim id fun same => same ▸ mem_firsts.mp again⟩
        · rw [if_neg again, takeWhile_append_ne, if_neg (by simpa using known), List.mem_append, List.mem_append, mem_firsts]

end Coverpin.Data
