import Coverpin.Validation.GraphValidator
import Coverpin.Validation.SearchPaths

namespace Coverpin.Validation.Graph

open Coverpin.Data Coverpin.Parsing Coverpin.Validation.Ownership Relation

/-! # Which rows are reported to be part of a cycle

A row is reported when both of its ends were collected.  What is collected
depends on the order of the edges, and the ends of a row may owe it to other
cycles than one through the row.
-/

variable [Platform] {rows : List ParsedOwnershipRow} {existingEdges : List ExistingEdge}

/-- The edges that are persisted, and those of the rows. -/
def MergedEdge (rows : List ParsedOwnershipRow) (existingEdges : List ExistingEdge) (parent child : String) : Prop :=
  (∃ edge ∈ existingEdges, normalizeName edge.parentName = parent ∧ normalizeName edge.childName = child) ∨
    ∃ row ∈ rows, normalizeName row.parentEntity = parent ∧ normalizeName row.childEntity = child

instance (rows : List ParsedOwnershipRow) (existingEdges : List ExistingEdge) (parent child : String) :
    Decidable (MergedEdge rows existingEdges parent child) :=
  inferInstanceAs (Decidable (_ ∨ _))

/-- The edge of a row lies on a directed cycle of the merged graph. -/
def OnCycle (rows : List ParsedOwnershipRow) (existingEdges : List ExistingEdge) (row : ParsedOwnershipRow) : Prop :=
  ReflTransGen (MergedEdge rows existingEdges) (normalizeName row.childEntity) (normalizeName row.parentEntity)

/-- The rows with a cycle error are those on a cycle. -/
def ReportsCycles (rows : List ParsedOwnershipRow) (existingEdges : List ExistingEdge) : Prop :=
  ∀ row ∈ rows, cycleError row ∈ validateOwnershipGraph rows existingEdges ↔ OnCycle rows existingEdges row

/-- All edges as they are read back from their keys, in the order of the input. -/
def edgeList (rows : List ParsedOwnershipRow) (existingEdges : List ExistingEdge) : List (String × String) :=
  existingEdges.map (fun edge => splitKey (edgeKey edge.parentName edge.childName)) ++
    rows.map fun row => splitKey (edgeKey row.parentEntity row.childEntity)

omit [Platform] in
def successors (edges : List (String × String)) (node : String) : List String :=
  edges.flatMap fun edge => if edge.1 = node then [edge.2] else []

omit [Platform] in
/-- Every parent, each time with its children. -/
def mentions (edges : List (String × String)) : List String :=
  edges.flatMap fun edge => edge.1 :: successors edges edge.1

/-- Both ends of a row are closed by first paths. -/
def JoinsClosed (rows : List ParsedOwnershipRow) (existingEdges : List ExistingEdge) (row : ParsedOwnershipRow) : Prop :=
  let edges := edgeList rows existingEdges
  Closed (mentions edges) (successors edges) (normalizeName row.parentEntity) ∧
    Closed (mentions edges) (successors edges) (normalizeName row.childEntity)

section Order

omit [Platform]

/-- The nodes of a map are the first mentions of its keys and children. -/
theorem allNodes_eq {α : Type} [DecidableEq α] (adjacency : InsertionMap α (List α)) :
    allNodes adjacency = firsts (adjacency.keys.flatMap fun parent => parent :: childrenOf adjacency parent) := by
  have children : adjacency.keys.flatMap (fun parent => parent :: childrenOf adjacency parent) =
      adjacency.entries.flatMap fun entry => entry.1 :: entry.2 := by
    rw [InsertionMap.keys, List.flatMap_map]
    refine List.flatMap_congr fun entry member => ?_
    rw [childrenOf, InsertionMap.get?_eq_some.mpr member, Option.getD_some]
  rw [children, firsts, List.foldl_flatMap, allNodes]
  simp only [addAll_eq]
  rfl

theorem childrenOf_firsts (merged : InsertionMap String Nat) (parent : String) : childrenOf (adjacencyOf merged) parent =
    merged.keys.flatMap fun key => if (splitKey key).1 = parent then [(splitKey key).2] else [] := by
  rw [childrenOf_adjacencyOf]
  induction merged.keys with
  | nil => rfl
  | cons key keys induction =>
      rw [List.map_cons, List.filter_cons, List.flatMap_cons]
      by_cases same : (splitKey key).1 = parent
      · simp [same, induction]
      · simp [same, induction]

end Order

/-- The keys of all edges, in the order of the input. -/
def edgeKeys (rows : List ParsedOwnershipRow) (existingEdges : List ExistingEdge) : List String :=
  existingEdges.map (fun edge => edgeKey edge.parentName edge.childName) ++
    rows.map fun row => edgeKey row.parentEntity row.childEntity

theorem edgeList_eq (rows : List ParsedOwnershipRow) (existingEdges : List ExistingEdge) :
    edgeList rows existingEdges = (edgeKeys rows existingEdges).map splitKey := by
  rw [edgeList, edgeKeys, List.map_append, List.map_map, List.map_map]
  rfl

theorem mergedEdges_keys (rows : List ParsedOwnershipRow) (existingEdges : List ExistingEdge) :
    (mergedEdges rows existingEdges).keys = firsts (edgeKeys rows existingEdges) := by
  rw [mergedEdges, InsertionMap.ofPairs, InsertionMap.keys_setAll, InsertionMap.keys_setAll, edgeKeys, firsts,
    List.foldl_append, List.map_map,
    List.map_map]
  rfl

theorem successors_firsts (node : String) : firsts (childrenOf (adjacencyOf (mergedEdges rows existingEdges)) node) =
    firsts (successors (edgeList rows existingEdges) node) := by
  rw [childrenOf_firsts, mergedEdges_keys, ← firsts_flatMap, successors, edgeList_eq, List.flatMap_map]

theorem mentions_firsts : firsts (allNodes (adjacencyOf (mergedEdges rows existingEdges))) =
    firsts (mentions (edgeList rows existingEdges)) := by
  have parents : (adjacencyOf (mergedEdges rows existingEdges)).keys =
      firsts ((mergedEdges rows existingEdges).keys.map fun key => (splitKey key).1) := by
    rw [adjacencyOf]
    exact InsertionMap.keys_foldl_set _ _ _ _
  have again : ∀ items : List String, firsts (firsts items) = firsts items :=
    fun items => (foldl_addNew_firsts [] items).symm
  rw [allNodes_eq, again, parents, ← firsts_flatMap, List.flatMap_map, mergedEdges_keys, ← firsts_flatMap, mentions,
    edgeList_eq, List.flatMap_map]
  refine firsts_flatMap_congr (fun key => firsts_cons_congr ?_ _) _
  rw [successors_firsts, edgeList_eq]

theorem mem_detect_iff {node : String} : node ∈ detectCyclicNodes (adjacencyOf (mergedEdges rows existingEdges)) ↔
    Closed (mentions (edgeList rows existingEdges)) (successors (edgeList rows existingEdges)) node := by
  rw [mem_detectCyclicNodes]
  exact closed_of_firsts mentions_firsts successors_firsts

/-- The rows of a sheet have lines of their own. -/
theorem validateOwnershipSheet_lines {sheet : ParsedSheet} (lines : (sheet.rows.map ParsedRow.line).Nodup)
    (entityTypeByName : InsertionMap String String) :
    ((validateOwnershipSheet sheet entityTypeByName).2.map ParsedOwnershipRow.line).Nodup := by
  unfold validateOwnershipSheet
  simp only
  split
  · exact List.nodup_nil
  · have candidates : (sheet.rows.map fun row => (candidateRow sheet.header row,
        decide (rowErrors sheet.header entityTypeByName row ≠ []))).map (ParsedOwnershipRow.line ∘ Prod.fst) =
        sheet.rows.map ParsedRow.line := by
      rw [List.map_map]
      rfl
    rw [List.map_map]
    exact (candidates ▸ lines).sublist (List.filter_sublist.map _)

/-- Rows on lines of their own are reported when first paths close both ends. -/
theorem cycleError_mem_iff (lines : (rows.map ParsedOwnershipRow.line).Nodup) {row : ParsedOwnershipRow}
    (member : row ∈ rows) :
    cycleError row ∈ validateOwnershipGraph rows existingEdges ↔ JoinsClosed rows existingEdges row := by
  rw [JoinsClosed, ← mem_detect_iff, ← mem_detect_iff]
  simp only [validateOwnershipGraph, cycleErrors, totalErrors, List.mem_append, List.mem_map, List.mem_filter,
    Bool.and_eq_true, List.contains_iff_mem]
  constructor
  · intro reported
    rcases reported with ⟨other, ⟨inside, flagged⟩, same⟩ | ⟨other, _, same⟩
    · have line : other.line = row.line := congrArg ValidationError.line same
      rwa [← List.inj_on_of_nodup_map lines inside member line]
    · have column : "Ownership %" = "Parent Entity" := congrArg ValidationError.column same
      exact absurd column (by decide)
  · exact fun flagged => .inl ⟨row, ⟨member, flagged⟩, rfl⟩

/-- The reports are right exactly when the rows that join two closed nodes are
those on a cycle. -/
theorem reportsCycles_iff (lines : (rows.map ParsedOwnershipRow.line).Nodup) :
    ReportsCycles rows existingEdges ↔
      ∀ row ∈ rows, JoinsClosed rows existingEdges row ↔ OnCycle rows existingEdges row :=
  forall₂_congr fun row member => by rw [cycleError_mem_iff lines member]

omit [Platform] in
def halfRow (line : Nat) (parentEntity childEntity : String) : ParsedOwnershipRow :=
  { line, parentEntity, childEntity, ownershipPct := 5000 }

omit [Platform] in
/-- Two cycles, and a row from the one to the other. -/
def bridgeRows : List ParsedOwnershipRow :=
  [halfRow 2 "A" "B", halfRow 3 "B" "A", halfRow 4 "C" "D", halfRow 5 "D" "C", halfRow 6 "B" "C"]

omit [Platform] in
/-- A cycle with a detour that rejoins it where the search has finished. -/
def detourRows : List ParsedOwnershipRow :=
  [halfRow 2 "A" "B", halfRow 3 "B" "C", halfRow 4 "C" "A", halfRow 5 "B" "D", halfRow 6 "D" "C"]

omit [Platform] in
/-- The bridge is reported and lies on no cycle; the detour lies on one and is not
reported. -/
theorem bridge_reported_detour_missed :
    letI := asciiPlatform
    ¬ ReportsCycles bridgeRows [] ∧ ¬ ReportsCycles detourRows [] := by
  let _ := asciiPlatform
  constructor
  · intro claimed
    have bridge : halfRow 6 "B" "C" ∈ bridgeRows ∧
        cycleError (halfRow 6 "B" "C") ∈ validateOwnershipGraph bridgeRows [] := by
      decide +kernel
    have closed : ∀ row ∈ bridgeRows, normalizeName row.parentEntity ∈ ["c", "d"] →
        normalizeName row.childEntity ∈ ["c", "d"] := by
      decide +kernel
    have around : OnCycle bridgeRows [] (halfRow 6 "B" "C") := (claimed _ bridge.1).mp bridge.2
    have back := closed_of_reflTransGen (p := fun name => name ∈ ["c", "d"]) (fun parent child inside edge => by
      rcases edge with ⟨_, member, _⟩ | ⟨row, member, rfl, rfl⟩
      · cases member
      · exact closed row member inside) around (by decide +kernel)
    exact absurd back (by decide +kernel)
  · intro claimed
    have detour : halfRow 5 "B" "D" ∈ detourRows ∧
        cycleError (halfRow 5 "B" "D") ∉ validateOwnershipGraph detourRows [] := by
      decide +kernel
    have edges : MergedEdge detourRows [] (normalizeName "D") "c" ∧ MergedEdge detourRows [] "c" "a" ∧
        MergedEdge detourRows [] "a" (normalizeName "B") := by
      decide +kernel
    have around : OnCycle detourRows [] (halfRow 5 "B" "D") := ((ReflTransGen.single edges.1).tail edges.2.1).tail edges.2.2
    exact detour.2 ((claimed _ detour.1).mpr around)

end Coverpin.Validation.Graph
