import Mathlib.Data.List.Perm.Basic

namespace Coverpin.Data

/-! Lists whose items correspond to each other, in whatever order they stand.

What is computed from the single items, and alike from items that correspond to
each other, is then the same up to its order.
-/

/-- The items of `others`, in some order, are related to those of `items` one by one. -/
def Rearranged (R : α → β → Prop) (items : List α) (others : List β) : Prop :=
  ∃ ordered, others.Perm ordered ∧ List.Forall₂ R items ordered

variable {R : α → β → Prop} {items : List α} {others : List β}

theorem Rearranged.of_perm {items others : List α} {R : α → α → Prop} (perm : others.Perm items)
    (related : ∀ item ∈ items, R item item) : Rearranged R items others :=
  ⟨items, perm, List.forall₂_same.mpr related⟩

theorem Rearranged.symm (rearranged : Rearranged R items others) : Rearranged (fun b a => R a b) others items := by
  obtain ⟨ordered, perm, related⟩ := rearranged
  obtain ⟨moved, flipped, back⟩ := List.perm_comp_forall₂ perm related.flip
  exact ⟨moved, back.symm, flipped⟩

theorem Rearranged.exists_related (rearranged : Rearranged R items others) {item : α} (member : item ∈ items) :
    ∃ other ∈ others, R item other := by
  obtain ⟨ordered, perm, related⟩ := rearranged
  have inside : ∃ other ∈ ordered, R item other := by
    clear perm
    induction related with
    | nil => cases member
    | cons holds _ induction =>
        rcases List.mem_cons.mp member with rfl | later
        · exact ⟨_, List.mem_cons_self .., holds⟩
        · obtain ⟨other, listed, found⟩ := induction later
          exact ⟨other, List.mem_cons_of_mem _ listed, found⟩
  obtain ⟨other, listed, found⟩ := inside
  exact ⟨other, perm.mem_iff.mpr listed, found⟩

/-- What holds of the items and passes on to related ones holds of the others. -/
theorem Rearranged.forall_related (rearranged : Rearranged R items others) {p : α → Prop} {q : β → Prop}
    (passes : ∀ item other, R item other → p item → q other) (all : ∀ item ∈ items, p item) : ∀ other ∈ others, q other := by
  intro other member
  obtain ⟨item, inside, holds⟩ := rearranged.symm.exists_related member
  exact passes item other holds (all item inside)

theorem Rearranged.map {γ : Type w} (rearranged : Rearranged R items others) {f : α → γ} {g : β → γ}
    (same : ∀ item other, R item other → g other = f item) : (others.map g).Perm (items.map f) := by
  obtain ⟨ordered, perm, related⟩ := rearranged
  have mapped : ordered.map g = items.map f := by
    clear perm
    induction related with
    | nil => rfl
    | cons holds _ induction => rw [List.map_cons, List.map_cons, same _ _ holds, induction]
  exact mapped ▸ perm.map g

theorem Rearranged.filter_map {γ : Type w} (rearranged : Rearranged R items others) {p : α → Bool} {q : β → Bool}
    {f : α → γ} {g : β → γ} (kept : ∀ item other, R item other → q other = p item)
    (same : ∀ item other, R item other → g other = f item) :
    ((others.filter q).map g).Perm ((items.filter p).map f) := by
  have pairs := rearranged.map (f := fun item => (p item, f item)) (g := fun other => (q other, g other))
    fun item other holds => by rw [kept item other holds, same item other holds]
  have chosen := (pairs.filter Prod.fst).map Prod.snd
  rwa [List.filter_map, List.filter_map, List.map_map, List.map_map] at chosen

end Coverpin.Data
