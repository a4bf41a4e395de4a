import Coverpin.Data.Counting
import Coverpin.Data.RecursiveUnion
import Mathlib.Data.List.Count

namespace Coverpin.Data

/-! Walks along the edges of a multigraph.

`out` lists the edges out of a node and `target` is where an edge leads.  An
iteration over nodes meets a node once for each walk from the roots to it.
-/

variable {ν : Type u} {ε : Type v} {out : ν → List ε} {target : ε → ν} {roots nodes : List ν} {rounds : Nat}

/-- A root and the edges followed from it. -/
@[ext] structure Walk (ν : Type u) (ε : Type v) where
  root : ν
  edges : List ε

namespace Walk

def node (target : ε → ν) (walk : Walk ν ε) : ν :=
  (walk.edges.getLast?.map target).getD walk.root

def step (walk : Walk ν ε) (edge : ε) : Walk ν ε :=
  ⟨walk.root, walk.edges ++ [edge]⟩

@[simp] theorem node_start (root : ν) : node target ⟨root, []⟩ = root := rfl

@[simp] theorem node_step (walk : Walk ν ε) (edge : ε) : (walk.step edge).node target = target edge := by
  simp [node, step]

theorem step_inj {walk other : Walk ν ε} {edge otherEdge : ε} (same : walk.step edge = other.step otherEdge) :
    walk = other ∧ edge = otherEdge := by
  simp only [step, Walk.mk.injEq] at same
  obtain ⟨edges, edge⟩ := List.append_inj' same.2 rfl
  exact ⟨Walk.ext same.1 edges, by simpa using edge⟩

end Walk

/-- The walks from the roots. -/
inductive IsWalk (out : ν → List ε) (target : ε → ν) (roots : List ν) : Walk ν ε → Prop where
  | start {root : ν} (member : root ∈ roots) : IsWalk out target roots ⟨root, []⟩
  | step {walk : Walk ν ε} {edge : ε} (isWalk : IsWalk out target roots walk) (leaves : edge ∈ out (walk.node target)) :
      IsWalk out target roots (walk.step edge)

/-- No two walks from the roots end at the node. -/
def ReachedOnce (out : ν → List ε) (target : ε → ν) (roots : List ν) (node : ν) : Prop :=
  ∀ walk other, IsWalk out target roots walk → IsWalk out target roots other →
    walk.node target = node → other.node target = node → walk = other

theorem IsWalk.mono {others : List ν} (within : roots ⊆ others) {walk : Walk ν ε} (isWalk : IsWalk out target roots walk) :
    IsWalk out target others walk := by
  induction isWalk with
  | start member => exact .start (within member)
  | step _ leaves induction => exact .step induction leaves

theorem isWalk_congr {others : List ν} (same : ∀ node, node ∈ roots ↔ node ∈ others) :
    IsWalk out target roots = IsWalk out target others :=
  funext fun _ => propext ⟨.mono fun _ => (same _).mp, .mono fun _ => (same _).mpr⟩

/-- Only the edges count, not their order. -/
theorem isWalk_iff_of_links {otherOut : ν → List ε} (same : ∀ node edge, edge ∈ out node ↔ edge ∈ otherOut node)
    {walk : Walk ν ε} : IsWalk out target roots walk ↔ IsWalk otherOut target roots walk := by
  constructor
  · intro isWalk
    induction isWalk with
    | start member => exact .start member
    | step _ leaves induction => exact .step induction ((same _ _).mp leaves)
  · intro isWalk
    induction isWalk with
    | start member => exact .start member
    | step _ leaves induction => exact .step induction ((same _ _).mpr leaves)

theorem reachedOnce_congr {others : List ν} (same : ∀ node, node ∈ roots ↔ node ∈ others) {node : ν} :
    ReachedOnce out target roots node ↔ ReachedOnce out target others node := by
  rw [ReachedOnce, isWalk_congr same, ReachedOnce]

def walkNext (out : ν → List ε) (target : ε → ν) (walk : Walk ν ε) : List (Walk ν ε) :=
  (out (walk.node target)).map walk.step

/-- An iteration over nodes is an iteration over walks, seen through their ends. -/
theorem exists_walks (finished : recursiveUnion (fun node => (out node).map target) rounds roots = some nodes) :
    ∃ walks, recursiveUnion (walkNext out target) rounds (roots.map fun root => ⟨root, []⟩) = some walks ∧
      walks.map (Walk.node target) = nodes := by
  have ends := recursiveUnion_map (Walk.node target) (fun node => (out node).map target)
    (fun walk => show (walkNext out target walk).map (Walk.node target) = _ by simp [walkNext, Function.comp_def])
    rounds (roots.map fun root => ⟨root, []⟩)
  have same : (roots.map fun root => (⟨root, []⟩ : Walk ν ε)).map (Walk.node target) = roots := by
    simp [Function.comp_def]
  rw [same, finished] at ends
  exact Option.map_eq_some_iff.mp ends.symm

theorem mem_walks {walks : List (Walk ν ε)} {walk : Walk ν ε}
    (finished : recursiveUnion (walkNext out target) rounds (roots.map fun root => ⟨root, []⟩) = some walks) :
    walk ∈ walks ↔ IsWalk out target roots walk := by
  constructor
  · refine recursiveUnion_forall (p := IsWalk out target roots) finished ?_ ?_ walk
    · intro row member
      obtain ⟨root, inside, rfl⟩ := List.mem_map.mp member
      exact .start inside
    · intro row isWalk later member
      obtain ⟨edge, leaves, rfl⟩ := List.mem_map.mp member
      exact .step isWalk leaves
  · have closed := recursiveUnion_perm finished
    intro isWalk
    induction isWalk with
    | start member => exact closed.mem_iff.mpr (List.mem_append_left _ (List.mem_map_of_mem member))
    | step _ leaves induction =>
        exact closed.mem_iff.mpr (List.mem_append_right _
          (List.mem_flatMap.mpr ⟨_, induction, List.mem_map_of_mem leaves⟩))

theorem walks_nodup {walks : List (Walk ν ε)} (distinct : roots.Nodup) (each : ∀ node, (out node).Nodup)
    (finished : recursiveUnion (walkNext out target) rounds (roots.map fun root => ⟨root, []⟩) = some walks) :
    walks.Nodup := by
  refine (recursiveUnion_nodup (fun walk => walk.edges.length) 0 finished ?_ ?_ ?_ ?_ ?_).1
  · exact distinct.map fun root other same => congrArg Walk.root same
  · intro row member
    obtain ⟨root, _, rfl⟩ := List.mem_map.mp member
    rfl
  · intro walk later member
    obtain ⟨edge, _, rfl⟩ := List.mem_map.mp member
    simp [Walk.step]
  · intro walk
    exact (each _).map fun edge other same => (Walk.step_inj same).2
  · intro walk other different later member otherMember
    obtain ⟨edge, _, rfl⟩ := List.mem_map.mp member
    obtain ⟨otherEdge, _, same⟩ := List.mem_map.mp otherMember
    exact different (Walk.step_inj same).1.symm

/-- An iteration over nodes has one entry for each walk. -/
theorem encard_walks (distinct : roots.Nodup) (each : ∀ node, (out node).Nodup)
    (finished : recursiveUnion (fun node => (out node).map target) rounds roots = some nodes) :
    {walk | IsWalk out target roots walk}.encard = nodes.length := by
  obtain ⟨walks, walked, rfl⟩ := exists_walks finished
  rw [List.length_map]
  exact encard_of_nodup (walks_nodup distinct each walked) fun walk => mem_walks walked

theorem length_le_one_iff {α : Type u} {items : List α} (distinct : items.Nodup) :
    items.length ≤ 1 ↔ ∀ item ∈ items, ∀ other ∈ items, item = other := by
  match items, distinct with
  | [], _ => simp
  | [item], _ => simp
  | first :: second :: rest, distinct =>
      refine ⟨fun short => absurd short (by simp), fun same => ?_⟩
      have equal := same first (by simp) second (by simp)
      simp [equal] at distinct

/-- An iteration over nodes meets a node at most once exactly when no two walks
lead to it. -/
theorem count_le_one_iff [DecidableEq ν] (distinct : roots.Nodup) (each : ∀ node, (out node).Nodup)
    (finished : recursiveUnion (fun node => (out node).map target) rounds roots = some nodes) (node : ν) :
    nodes.count node ≤ 1 ↔ ReachedOnce out target roots node := by
  obtain ⟨walks, walked, rfl⟩ := exists_walks finished
  have nodup := (walks_nodup distinct each walked).filter (fun walk => walk.node target == node)
  have count : (walks.map (Walk.node target)).count node = (walks.filter fun walk => walk.node target == node).length := by
    rw [List.count_eq_length_filter, List.filter_map, List.length_map]
    rfl
  rw [count, length_le_one_iff nodup]
  simp only [List.mem_filter, beq_iff_eq, mem_walks walked]
  constructor
  · exact fun equal walk other isWalk isOther ends otherEnds => equal walk ⟨isWalk, ends⟩ other ⟨isOther, otherEnds⟩
  · exact fun once walk ⟨isWalk, ends⟩ other ⟨isOther, otherEnds⟩ => once walk other isWalk isOther ends otherEnds

end Coverpin.Data
