import Coverpin.Data.FirstPathCycles
import Coverpin.Validation.CycleReports

namespace Coverpin.Validation.Graph

open Coverpin.Data Coverpin.Validation.Ownership Relation

/-! # When the reported rows are those on a cycle

An edge runs sideways when neither of its ends is on the first path to the other.
The search passes over such an edge, so what it collects are the entities on cycles
without one.
-/

variable [Platform] {rows : List ParsedOwnershipRow} {existingEdges : List ExistingEdge} {node child : String}

/-- A cycle leads through the entity on which no edge runs sideways in the order of the rows. -/
def OnStraightCycle (rows : List ParsedOwnershipRow) (existingEdges : List ExistingEdge) (name : String) : Prop :=
  let edges := edgeList rows existingEdges
  TransGen (Straight (mentions edges) (successors edges)) name name

/-- Each end of a row on a cycle is on one without a sideways edge. -/
def CyclesKept (rows : List ParsedOwnershipRow) (existingEdges : List ExistingEdge) : Prop :=
  ∀ row ∈ rows, OnCycle rows existingEdges row →
    OnStraightCycle rows existingEdges (normalizeName row.parentEntity) ∧
      OnStraightCycle rows existingEdges (normalizeName row.childEntity)

/-- A row that joins two entities on such cycles lies on a cycle itself. -/
def NoBridge (rows : List ParsedOwnershipRow) (existingEdges : List ExistingEdge) : Prop :=
  ∀ row ∈ rows, OnStraightCycle rows existingEdges (normalizeName row.parentEntity) →
    OnStraightCycle rows existingEdges (normalizeName row.childEntity) → OnCycle rows existingEdges row

/-- The names can be read back from all keys. -/
structure ReadBack (rows : List ParsedOwnershipRow) (existingEdges : List ExistingEdge) : Prop where
  rows : ∀ row ∈ rows, KeySafe row.parentEntity row.childEntity
  edges : ∀ edge ∈ existingEdges, KeySafe edge.parentName edge.childName

omit [Platform] in
theorem mem_successors {edges : List (String × String)} : child ∈ successors edges node ↔ (node, child) ∈ edges := by
  rw [successors, List.mem_flatMap]
  constructor
  · intro listed
    obtain ⟨edge, member, inside⟩ := listed
    split at inside
    · rename_i same
      rw [List.mem_singleton] at inside
      rwa [← same, inside]
    · cases inside
  · exact fun member => ⟨_, member, by simp⟩

omit [Platform] in
theorem mem_mentions {edges : List (String × String)} (successor : child ∈ successors edges node) :
    node ∈ mentions edges ∧ child ∈ mentions edges := by
  have member := mem_successors.mp successor
  exact ⟨List.mem_flatMap.mpr ⟨_, member, List.mem_cons_self⟩,
    List.mem_flatMap.mpr ⟨_, member, List.mem_cons_of_mem _ successor⟩⟩

theorem ReadBack.leads_iff (readBack : ReadBack rows existingEdges) :
    Leads (successors (edgeList rows existingEdges)) node child ↔ MergedEdge rows existingEdges node child := by
  rw [Leads, mem_successors, edgeList, List.mem_append, List.mem_map, List.mem_map, MergedEdge]
  refine or_congr (exists_congr fun edge => and_congr_right fun member => ?_)
    (exists_congr fun row => and_congr_right fun member => ?_)
  · rw [readBack.edges edge member, Prod.mk.injEq]
  · rw [readBack.rows row member, Prod.mk.injEq]

theorem ReadBack.leads_eq (readBack : ReadBack rows existingEdges) :
    Leads (successors (edgeList rows existingEdges)) = MergedEdge rows existingEdges :=
  funext fun _ => funext fun _ => propext readBack.leads_iff

/-- The reports are right exactly when the cycles through rows are kept and no row
bridges two cycles.  Where at most one way leads from entity to entity of a cycle, all
cycles are kept, whatever the order of the rows. -/
theorem reportsCycles_exact (lines : (rows.map ParsedOwnershipRow.line).Nodup) :
    (ReportsCycles rows existingEdges ↔ CyclesKept rows existingEdges ∧ NoBridge rows existingEdges) ∧
    (ReadBack rows existingEdges → OneWay (successors (edgeList rows existingEdges)) →
      CyclesKept rows existingEdges ∧
        ∀ name, OnStraightCycle rows existingEdges name ↔ TransGen (MergedEdge rows existingEdges) name name) := by
  refine ⟨?_, fun readBack oneWay => ?_⟩
  · rw [reportsCycles_iff lines]
    simp only [JoinsClosed, closed_iff_straight]
    constructor
    · intro agree
      exact ⟨fun row member => (agree row member).mpr, fun row member parent child => (agree row member).mp ⟨parent, child⟩⟩
    · intro both row member
      exact ⟨fun ends => both.2 row member ends.1 ends.2, both.1 row member⟩
  · have straight_iff : ∀ name, OnStraightCycle rows existingEdges name ↔
        TransGen (MergedEdge rows existingEdges) name name := by
      intro name
      rw [OnStraightCycle, ← closed_iff_straight, oneWay.closed_iff (fun _ _ successor => (mem_mentions successor).2)
        fun _ _ successor => (mem_mentions successor).1, readBack.leads_eq]
    refine ⟨fun row member onCycle => ?_, straight_iff⟩
    have edge : MergedEdge rows existingEdges (normalizeName row.parentEntity) (normalizeName row.childEntity) :=
      .inr ⟨row, member, rfl, rfl⟩
    rw [straight_iff, straight_iff]
    exact ⟨.head' edge onCycle, .tail' onCycle edge⟩

omit [Platform] in
/-- A cycle and a row that leads out of it. -/
def ringRows : List ParsedOwnershipRow :=
  [halfRow 2 "A" "B", halfRow 3 "B" "A", halfRow 4 "B" "C"]

omit [Platform] in
theorem ring_reported : letI := asciiPlatform; ReportsCycles ringRows [] := by
  have edges : letI := asciiPlatform
      edgeList ringRows [] = [("a", "b"), ("b", "a"), ("b", "c")] := by
    decide +kernel
  have ends : letI := asciiPlatform
      ∀ row ∈ ringRows, normalizeName row.childEntity = "c" ∨ normalizeName row.parentEntity ∈ ["a", "b"] ∧
        normalizeName row.childEntity ∈ ["a", "b"] ∧
          MergedEdge ringRows [] (normalizeName row.childEntity) (normalizeName row.parentEntity) := by
    decide +kernel
  have leaf : letI := asciiPlatform
      ∀ row ∈ ringRows, normalizeName row.parentEntity ≠ "c" := by
    decide +kernel
  let _ := asciiPlatform
  have below : OnFirstPath (mentions (edgeList ringRows [])) (successors (edgeList ringRows [])) "a" "b" := by
    rw [edges]
    exact ⟨_, .pair (by decide) rfl rfl, List.mem_cons_self⟩
  have straight : ∀ name ∈ ["a", "b"], OnStraightCycle ringRows [] name := by
    have down : Straight (mentions (edgeList ringRows [])) (successors (edgeList ringRows [])) "a" "b" :=
      ⟨edges ▸ by decide, .inl below⟩
    have up : Straight (mentions (edgeList ringRows [])) (successors (edgeList ringRows [])) "b" "a" :=
      ⟨edges ▸ by decide, .inr below⟩
    intro name member
    rcases List.mem_pair.mp member with rfl | rfl
    · exact .head down (.single up)
    · exact .head up (.single down)
  refine (reportsCycles_exact (by decide)).1.mpr ⟨fun row member onCycle => ?_, fun row member _ child => ?_⟩
  · rcases ends row member with same | ⟨parent, child, _⟩
    · rw [OnCycle, same] at onCycle
      rcases ReflTransGen.cases_head onCycle with same | ⟨next, ⟨_, stored, _⟩ | ⟨other, listed, parent, _⟩, _⟩
      · exact absurd same.symm (leaf row member)
      · cases stored
      · exact absurd parent (leaf other listed)
    · exact ⟨straight _ parent, straight _ child⟩
  · rcases ends row member with same | ⟨_, _, back⟩
    · obtain ⟨next, edge, _⟩ := TransGen.head'_iff.mp child
      have listed := mem_successors.mp edge.1
      rw [edges, same] at listed
      simp at listed
    · exact .single back

end Coverpin.Validation.Graph
