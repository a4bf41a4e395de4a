import Coverpin.Data.InsertionMap
import Mathlib.Algebra.BigOperators.Group.List.Lemmas
import Mathlib.Data.Set.Card

namespace Coverpin.Data

/-! How often each key occurs among some items, counted in one pass. -/

variable {ι : Type u} {κ : Type v} [DecidableEq κ] {items others : List ι} {keyFn : ι → κ} {key : κ} {count : Nat}

/-- `counts` has every key that occurs, once, with the number of its items. -/
structure Counts (keyFn : ι → κ) (items : List ι) (counts : List (κ × Nat)) : Prop where
  once : (counts.map Prod.fst).Nodup
  mem_iff : ∀ key count, (key, count) ∈ counts ↔ 0 < count ∧ count = items.countP (keyFn · = key)
  total : (counts.map Prod.snd).sum = items.length

theorem Counts.perm {counts : List (κ × Nat)} (counted : Counts keyFn items counts) (same : items.Perm others) :
    Counts keyFn others counts where
  once := counted.once
  mem_iff key count := by rw [counted.mem_iff, same.countP_eq]
  total := counted.total.trans same.length_eq

/-- What is reported for a key, also for one that does not occur. -/
theorem Counts.reported {counts : List (κ × Nat)} (counted : Counts keyFn items counts) (key : κ) :
    ((counts.find? (·.1 = key)).map Prod.snd).getD 0 = items.countP (keyFn · = key) := by
  cases found : counts.find? (·.1 = key) with
  | none =>
      refine (Nat.eq_zero_of_not_pos fun occurs => ?_).symm
      have listed := (counted.mem_iff key _).mpr ⟨occurs, rfl⟩
      have absent := List.find?_eq_none.mp found _ listed
      simp at absent
  | some entry =>
      have same : entry.1 = key := by simpa using List.find?_some found
      obtain ⟨_, exact_⟩ := (counted.mem_iff entry.1 entry.2).mp (List.mem_of_find?_eq_some found)
      rw [Option.map_some, Option.getD_some, exact_, same]

/-- A list without repetition is as long as its set is large. -/
theorem encard_of_nodup {set : Set ι} (distinct : items.Nodup) (same : ∀ item, item ∈ items ↔ item ∈ set) :
    set.encard = items.length := by
  classical
  have listed : set = (items.toFinset : Set ι) := by
    ext item
    simp [same]
  rw [listed, Set.encard_coe_eq_coe_finsetCard, List.toFinset_card_of_nodup distinct]

namespace InsertionMap

def tally (items : List ι) (keyFn : ι → κ) : InsertionMap κ Nat :=
  items.foldl (fun counts item => counts.add (keyFn item) 1) empty

theorem keys_tally : (tally items keyFn).keys = firsts (items.map keyFn) :=
  keys_foldl_set items keyFn _ empty

theorem getD_tally : ((tally items keyFn).get? key).getD 0 = items.countP (keyFn · = key) := by
  rw [tally, getD_foldl_add keyFn fun _ => 1, List.countP_eq_length_filter]
  simp

theorem tally_counts : Counts keyFn items (tally items keyFn).entries where
  once := (tally items keyFn).distinct
  mem_iff key count := by
    have occurs : key ∈ (tally items keyFn).keys ↔ 0 < items.countP (keyFn · = key) := by
      rw [keys_tally, mem_firsts, List.mem_map, List.countP_pos_iff]
      simp only [decide_eq_true_eq]
    have counted : ((tally items keyFn).get? key).getD 0 = items.countP (keyFn · = key) := getD_tally
    rw [← get?_eq_some]
    cases found : (tally items keyFn).get? key with
    | none =>
        have never := get?_eq_none.mp found
        rw [occurs] at never
        constructor
        · exact fun absurd => nomatch absurd
        · exact fun counts => absurd (counts.2 ▸ counts.1) never
    | some value =>
        rw [found, Option.getD_some] at counted
        have positive := occurs.mp (List.mem_map.mpr ⟨(key, value), get?_eq_some.mp found, rfl⟩)
        rw [Option.some.injEq, ← counted]
        rw [← counted] at positive
        constructor
        · intro same
          exact ⟨same ▸ positive, same.symm⟩
        · exact fun counts => counts.2.symm
  total := by
    have values : (tally items keyFn).entries.map Prod.snd =
        (tally items keyFn).keys.map fun key => (items.map keyFn).count key := by
      rw [keys, List.map_map]
      refine List.map_congr_left fun entry member => ?_
      have counted : ((tally items keyFn).get? entry.1).getD 0 = items.countP (keyFn · = entry.1) := getD_tally
      rw [get?_eq_some.mpr member, Option.getD_some] at counted
      rw [counted, Function.comp_apply, List.count, List.countP_map]
      rfl
    have each : (tally items keyFn).keys.Perm (items.map keyFn).dedup := by
      refine (List.perm_ext_iff_of_nodup (tally items keyFn).distinct (List.nodup_dedup _)).mpr fun key => ?_
      change key ∈ (tally items keyFn).keys ↔ _
      rw [keys_tally, mem_firsts, List.mem_dedup]
    rw [values, (each.map _).sum_eq, List.sum_map_count_dedup_eq_length, List.length_map]

section Names

variable {κ' : Type w} [DecidableEq κ'] {name : κ → κ'} (injective : name.Injective)
include injective

theorem get?_rename {ν : Type x} {map : InsertionMap κ ν} : (map.rename name).get? (name key) = map.get? key := by
  ext value
  rw [get?_eq_some, get?_eq_some, rename_entries injective.injOn fun _ _ => Set.mem_univ _, List.mem_map]
  constructor
  · intro listed
    obtain ⟨entry, member, same⟩ := listed
    obtain ⟨sameName, rfl⟩ := Prod.mk.inj same
    rw [← injective sameName]
    exact member
  · exact fun member => ⟨(key, value), member, rfl⟩

/-- Counting under other names for the keys. -/
theorem tally_rename : tally items (name ∘ keyFn) = (tally items keyFn).rename name := by
  suffices general : ∀ counts : InsertionMap κ Nat,
      items.foldl (fun counts item => counts.add (name (keyFn item)) 1) (counts.rename name) =
        (items.foldl (fun counts item => counts.add (keyFn item) 1) counts).rename name from
    general empty
  induction items with
  | nil => exact fun _ => rfl
  | cons item items induction =>
      intro counts
      rw [List.foldl_cons, List.foldl_cons, ← induction, add, add, get?_rename injective,
        rename_set injective.injOn (fun _ _ => Set.mem_univ _) (Set.mem_univ _)]

theorem tally_rename_entries : (tally items (name ∘ keyFn)).entries =
    (tally items keyFn).entries.map fun entry => (name entry.1, entry.2) := by
  rw [tally_rename injective, rename_entries injective.injOn fun _ _ => Set.mem_univ _]

end Names

end InsertionMap

end Coverpin.Data
