import Coverpin.Validation.CycleReports

namespace Coverpin.Validation.Graph

open Coverpin.Data Coverpin.Validation.Ownership Relation

/-! # What the graph check accepts

Over names that can be read back from the keys, and next to a stored graph that is
sound itself: no cycle through stored and uploaded edges together, and no child
above 100%, where an uploaded row counts instead of the stored edge it replaces.
-/

variable [Platform] {rows : List ParsedOwnershipRow} {existingEdges : List ExistingEdge}

/-- A stored edge that no row replaces. -/
def Kept (rows : List ParsedOwnershipRow) (edge : ExistingEdge) : Prop :=
  ∀ row ∈ rows, ¬ (normalizeName row.parentEntity = normalizeName edge.parentName ∧
    normalizeName row.childEntity = normalizeName edge.childName)

instance (rows : List ParsedOwnershipRow) (edge : ExistingEdge) : Decidable (Kept rows edge) :=
  inferInstanceAs (Decidable (∀ row ∈ rows, _))

def mergedTotal (rows : List ParsedOwnershipRow) (existingEdges : List ExistingEdge) (child : String) : Nat :=
  ((rows.filter fun row => normalizeName row.childEntity = child).map ParsedOwnershipRow.ownershipPct).sum +
  ((existingEdges.filter fun edge => normalizeName edge.childName = child ∧ Kept rows edge).map ExistingEdge.pct).sum

/-- Both lists can be read back from their keys, and neither repeats a pair. -/
structure Mergeable (rows : List ParsedOwnershipRow) (existingEdges : List ExistingEdge) : Prop where
  rowsSafe : ∀ row ∈ rows, KeySafe row.parentEntity row.childEntity
  edgesSafe : ∀ edge ∈ existingEdges, KeySafe edge.parentName edge.childName
  rowsDistinct : (rows.map fun row => edgeKey row.parentEntity row.childEntity).Nodup
  edgesDistinct : (existingEdges.map fun edge => edgeKey edge.parentName edge.childName).Nodup

section Merged

variable {parent child : String}

theorem Mergeable.edge_iff (mergeable : Mergeable rows existingEdges) :
    Edge (adjacencyOf (mergedEdges rows existingEdges)) parent child ↔ MergedEdge rows existingEdges parent child := by
  rw [edge_adjacencyOf, MergedEdge]
  simp only [mergedEdges, InsertionMap.mem_keys_setAll, InsertionMap.mem_keys_ofPairs, List.map_map, List.mem_map,
    Function.comp_apply, ExistingEdge.entry, rowEntry]
  constructor
  · intro keyed
    obtain ⟨key, ⟨edge, member, rfl⟩ | ⟨row, member, rfl⟩, ends⟩ := keyed
    · rw [mergeable.edgesSafe edge member, Prod.mk.injEq] at ends
      exact .inl ⟨edge, member, ends⟩
    · rw [mergeable.rowsSafe row member, Prod.mk.injEq] at ends
      exact .inr ⟨row, member, ends⟩
  · intro merged
    rcases merged with ⟨edge, member, rfl, rfl⟩ | ⟨row, member, rfl, rfl⟩
    · exact ⟨_, .inl ⟨edge, member, rfl⟩, mergeable.edgesSafe edge member⟩
    · exact ⟨_, .inr ⟨row, member, rfl⟩, mergeable.rowsSafe row member⟩

theorem Mergeable.acyclic_iff (mergeable : Mergeable rows existingEdges) :
    Acyclic (Edge (adjacencyOf (mergedEdges rows existingEdges))) ↔ Acyclic (MergedEdge rows existingEdges) :=
  ⟨fun acyclic => acyclic.mono fun _ _ => mergeable.edge_iff.mpr,
    fun acyclic => acyclic.mono fun _ _ => mergeable.edge_iff.mp⟩

/-- Keys that can be read back tell the same pairs apart as the names. -/
theorem Mergeable.kept_iff (mergeable : Mergeable rows existingEdges) {edge : ExistingEdge} (member : edge ∈ existingEdges) :
    edge.entry.1 ∉ (rows.map rowEntry).map Prod.fst ↔ Kept rows edge := by
  have keys : edge.entry.1 ∈ (rows.map rowEntry).map Prod.fst ↔
      ∃ row ∈ rows, normalizeName row.parentEntity = normalizeName edge.parentName ∧
        normalizeName row.childEntity = normalizeName edge.childName := by
    simp only [List.map_map, List.mem_map, Function.comp_apply, rowEntry, ExistingEdge.entry]
    constructor
    · intro replaced
      obtain ⟨row, listed, same⟩ := replaced
      exact ⟨row, listed, (mergeable.rowsSafe row listed).inj (mergeable.edgesSafe edge member) same⟩
    · intro replaced
      obtain ⟨row, listed, parent, child⟩ := replaced
      exact ⟨row, listed, edgeKey_congr parent child⟩
  rw [keys, Kept]
  simp only [not_exists, not_and]

theorem Mergeable.totalOf_eq (mergeable : Mergeable rows existingEdges) (child : String) :
    totalOf (mergedEdges rows existingEdges) child = mergedTotal rows existingEdges child := by
  have rowKeys : ((rows.map rowEntry).map Prod.fst).Nodup := by
    rw [List.map_map]
    exact mergeable.rowsDistinct
  have edgeKeys : ((existingEdges.map ExistingEdge.entry).map Prod.fst).Nodup := by
    rw [List.map_map]
    exact mergeable.edgesDistinct
  let edges := InsertionMap.ofPairs (existingEdges.map ExistingEdge.entry)
  have entries : (edges.setAll (rows.map rowEntry)).entries.Perm (rows.map rowEntry ++ edges.entries.filter fun entry =>
      decide (entry.1 ∉ (rows.map rowEntry).map Prod.fst)) := InsertionMap.setAll_perm rowKeys
  rw [InsertionMap.ofPairs_entries edgeKeys] at entries
  rw [Graph.totalOf_eq, mergedEdges, ((entries.filter _).map _).sum_nat, List.filter_append, List.map_append,
    List.sum_append, mergedTotal]
  congr 2
  · rw [List.filter_map, List.map_map]
    congr 1
    refine List.filter_congr fun row member => ?_
    have ends : splitKey (rowEntry row).1 = _ := mergeable.rowsSafe row member
    simp [ends]
  · rw [List.filter_map, List.filter_map, List.map_map, List.filter_filter]
    congr 1
    refine List.filter_congr fun edge member => ?_
    have ends : splitKey edge.entry.1 = _ := mergeable.edgesSafe edge member
    simp only [Function.comp_apply, ends, Bool.decide_and, mergeable.kept_iff member]

/-- Next to a sound graph the check accepts exactly the sound ones. -/
theorem validateOwnershipGraph_iff_rules (mergeable : Mergeable rows existingEdges)
    (before : GraphSound (.ofPairs (existingEdges.map ExistingEdge.entry))) :
    validateOwnershipGraph rows existingEdges = [] ↔
      Acyclic (MergedEdge rows existingEdges) ∧ ∀ child, mergedTotal rows existingEdges child ≤ 100 * 100 := by
  constructor
  · intro accepted
    have sound := mergedEdges_sound before mergeable.rowsSafe accepted
    exact ⟨mergeable.acyclic_iff.mp sound.acyclic, fun child => mergeable.totalOf_eq child ▸ sound.totals child⟩
  · intro rules
    obtain ⟨acyclic, totals⟩ := rules
    exact accepted_of_sound ⟨mergeable.acyclic_iff.mpr acyclic, fun child => (mergeable.totalOf_eq child).symm ▸ totals child⟩

end Merged

end Coverpin.Validation.Graph
