import Mathlib.Data.List.Sort

namespace Coverpin.Data

/-! The first items of a list in some order of rank, and how a sort that is cut off
finds them. -/

variable {α : Type u} {before other : α → α → Prop} {limit : Nat} {items listed chosen others : List α}

/-- `chosen` are the first `limit` items: they stand in order, and no item that is
left out belongs before one of them. -/
structure Best (before : α → α → Prop) (limit : Nat) (items chosen : List α) : Prop where
  sorted : chosen.Pairwise before
  length : chosen.length = min limit items.length
  first : ∃ rest, items.Perm (chosen ++ rest) ∧ ∀ item ∈ chosen, ∀ later ∈ rest, before item later

theorem Best.subset (best : Best before limit items chosen) : chosen ⊆ items := by
  obtain ⟨rest, perm, _⟩ := best.first
  exact fun item member => perm.mem_iff.mpr (List.mem_append_left _ member)

theorem Best.perm (best : Best before limit items chosen) (same : items.Perm listed) : Best before limit listed chosen where
  sorted := best.sorted
  length := same.length_eq ▸ best.length
  first := by
    obtain ⟨rest, perm, first⟩ := best.first
    exact ⟨rest, same.symm.trans perm, first⟩

/-- The order only matters between the items. -/
theorem Best.imp (best : Best before limit items chosen)
    (weaker : ∀ item ∈ items, ∀ later ∈ items, before item later → other item later) : Best other limit items chosen where
  sorted := best.sorted.imp_of_mem fun inside later => weaker _ (best.subset inside) _ (best.subset later)
  length := best.length
  first := by
    obtain ⟨rest, perm, first⟩ := best.first
    refine ⟨rest, perm, fun item member later left => weaker item (best.subset member) later ?_ (first item member later left)⟩
    exact perm.mem_iff.mpr (List.mem_append_right _ left)

theorem best_of_sorted (sorted : items.Pairwise before) (limit : Nat) : Best before limit items (items.take limit) where
  sorted := sorted.sublist (List.take_sublist _ _)
  length := List.length_take
  first := by
    refine ⟨items.drop limit, by rw [List.take_append_drop], ?_⟩
    rw [← List.take_append_drop limit items, List.pairwise_append] at sorted
    exact sorted.2.2

section Sorted

variable [DecidableRel before] [Std.Total before] [IsTrans α before]

theorem best_of_insertionSort (limit : Nat) (items : List α) :
    Best before limit items ((items.insertionSort before).take limit) :=
  (best_of_sorted (List.pairwise_insertionSort before items) limit).perm (List.perm_insertionSort before items)

omit [DecidableRel before] in
/-- There is one such list where the order tells the items apart. -/
theorem Best.eq (best : Best before limit items chosen) (another : Best before limit items others)
    (separates : ∀ item ∈ items, ∀ later ∈ items, before item later → before later item → item = later) :
    chosen = others := by
  classical
  have extended : ∀ {chosen : List α}, Best before limit items chosen → ∃ rest, (chosen ++ rest).Pairwise before ∧
      (chosen ++ rest).Perm items := by
    intro chosen best
    obtain ⟨rest, perm, first⟩ := best.first
    have ranked := List.perm_insertionSort before rest
    refine ⟨rest.insertionSort before, List.pairwise_append.mpr ⟨best.sorted, List.pairwise_insertionSort _ _, ?_⟩,
      (ranked.append_left chosen).trans perm.symm⟩
    exact fun item member later left => first item member later (ranked.mem_iff.mp left)
  obtain ⟨rest, sorted, perm⟩ := extended best
  obtain ⟨otherRest, otherSorted, otherPerm⟩ := extended another
  have same : chosen ++ rest = others ++ otherRest := by
    refine List.Perm.eq_of_pairwise (fun item later inside otherInside => ?_) sorted otherSorted (perm.trans otherPerm.symm)
    exact separates item (perm.subset inside) later (otherPerm.subset otherInside)
  exact (List.append_inj same (best.length.trans another.length.symm)).1

end Sorted

section Comparison

variable {β : Type v} {cmp : α → α → Ordering} [Std.TransCmp cmp]

theorem total_of_cmp : Std.Total fun a b => cmp a b ≠ .gt := by
  refine ⟨fun a b => ?_⟩
  have swapped : cmp b a = (cmp a b).swap := Std.OrientedCmp.eq_swap
  rw [swapped]
  cases cmp a b <;> simp

theorem trans_of_cmp : IsTrans α fun a b => cmp a b ≠ .gt := by
  refine ⟨fun a b c first second => ?_⟩
  have both := Std.TransCmp.isLE_trans (Ordering.isLE_iff_ne_gt.mpr first) (Ordering.isLE_iff_ne_gt.mpr second)
  exact Ordering.isLE_iff_ne_gt.mp both

/-- A comparison of what is read off two items. -/
theorem transCmp_on (f : β → α) : Std.TransCmp fun a b => cmp (f a) (f b) where
  eq_swap := Std.OrientedCmp.eq_swap
  isLE_trans first second := Std.TransCmp.isLE_trans first second

theorem eq_of_cmp [Std.LawfulEqCmp cmp] {a b : α} (before : cmp a b ≠ .gt) (after : cmp b a ≠ .gt) : a = b :=
  Std.LawfulEqCmp.eq_of_compare
    (Std.OrientedCmp.isLE_antisymm (Ordering.isLE_iff_ne_gt.mpr before) (Ordering.isLE_iff_ne_gt.mpr after))

end Comparison

end Coverpin.Data
