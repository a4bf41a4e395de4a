import Mathlib.Logic.Relation
import Mathlib.Data.List.Chain
import Mathlib.Data.List.Nodup
import Mathlib.Data.List.Perm.Subperm

namespace Coverpin.Data

open Relation

/-! Relations without a directed cycle.

The facts below are about arbitrary relations: how acyclicity moves along a map
or a smaller relation, where a new cycle must pass, and how long a path in a
finite acyclic relation can get.
-/

variable {α : Type u} {β : Type v} {r s : α → α → Prop} {a b : α}

/-- No element reaches itself in one step or more. -/
def Acyclic (r : α → α → Prop) : Prop :=
  ∀ a, ¬ TransGen r a a

theorem Acyclic.mono (acyclic : Acyclic s) (smaller : ∀ a b, r a b → s a b) : Acyclic r :=
  fun a cycle => acyclic a (TransGen.mono smaller a a cycle)

theorem Acyclic.pullback {r : α → α → Prop} {s : β → β → Prop} (f : α → β) (acyclic : Acyclic s)
    (maps : ∀ a b, r a b → s (f a) (f b)) : Acyclic r :=
  fun a cycle => acyclic (f a) (TransGen.lift f maps a a cycle)

/-- Edges that lead upwards do not close a cycle. -/
theorem acyclic_of_lt {rank : α → Nat} (upwards : ∀ a b, r a b → rank a < rank b) : Acyclic r := by
  intro node cycle
  have higher : ∀ {last}, TransGen r node last → rank node < rank last := by
    intro last path
    induction path with
    | single edge => exact upwards _ _ edge
    | tail _ edge induction => exact Nat.lt_trans induction (upwards _ _ edge)
  exact Nat.lt_irrefl _ (higher cycle)

/-- A cycle cannot stay inside an acyclic relation: one of its edges is new. -/
theorem Acyclic.edge_outside (acyclic : Acyclic s) (cycle : TransGen r a a) :
    ∃ x y, r x y ∧ ¬ s x y := by
  apply Classical.byContradiction
  intro none
  refine acyclic a (TransGen.mono (fun x y edge => ?_) a a cycle)
  exact Classical.byContradiction fun outside => none ⟨x, y, edge, outside⟩

/-- A property that every edge hands on holds of whatever is reached. -/
theorem closed_of_reflTransGen {p : α → Prop} (closed : ∀ x y, p x → r x y → p y)
    (reached : ReflTransGen r a b) (start : p a) : p b := by
  induction reached with
  | refl => exact start
  | tail _ edge induction => exact closed _ _ induction edge

/-- Adding one node whose successors all lie in a closed acyclic part keeps the
part acyclic, as long as the node is new. -/
theorem acyclic_insert {p : α → Prop} {node : α} (closed : ∀ x y, p x → r x y → p y)
    (acyclic : ∀ x, p x → ¬ TransGen r x x) (fresh : ¬ p node) (below : ∀ y, r node y → p y) :
    ∀ x, p x ∨ x = node → ¬ TransGen r x x := by
  intro x listed cycle
  rcases listed with inside | rfl
  · exact acyclic x inside cycle
  · obtain ⟨first, edge, back⟩ := TransGen.head'_iff.mp cycle
    exact fresh (closed_of_reflTransGen closed back (below first edge))

/-- A relation that leads into a part, and inside the part only takes steps of an
acyclic relation, is acyclic. -/
theorem Acyclic.of_target {p : α → Prop} (acyclic : Acyclic r) (target : ∀ a b, s a b → p b)
    (inside : ∀ a b, p a → s a b → r a b) : Acyclic s := by
  intro a cycle
  obtain ⟨last, _, back⟩ := TransGen.tail'_iff.mp cycle
  have start : p a := target last a back
  suffices stays : ∀ b, TransGen s a b → TransGen r a b from acyclic a (stays a cycle)
  intro b path
  induction path with
  | single edge => exact .single (inside _ _ start edge)
  | tail path edge induction =>
      obtain ⟨_, _, reached⟩ := TransGen.tail'_iff.mp path
      exact .tail induction (inside _ _ (target _ _ reached) edge)

/-- Two acyclic relations have an acyclic union when the second one leads into a
part from which the first one does not lead on. -/
theorem Acyclic.union_of_terminal {p : α → Prop} (left : Acyclic r) (right : Acyclic s)
    (source : ∀ a b, r a b → ¬ p a) (target : ∀ a b, s a b → p b) :
    Acyclic fun a b => r a b ∨ s a b := by
  have closed : ∀ x y, p x → r x y ∨ s x y → p y := by
    intro x y inside step
    rcases step with edge | edge
    · exact absurd inside (source x y edge)
    · exact target x y edge
  intro a cycle
  by_cases inside : p a
  · -- Inside the part every step is one of the second relation.
    suffices stays : ∀ b, TransGen (fun a b => r a b ∨ s a b) a b → TransGen s a b from
      right a (stays a cycle)
    intro b path
    induction path with
    | single edge => exact .single (edge.resolve_left fun first => source _ _ first inside)
    | @tail b c path edge induction =>
        have reached := closed_of_reflTransGen closed path.to_reflTransGen inside
        exact .tail induction (edge.resolve_left fun first => source _ _ first reached)
  · -- Outside it no step of the second relation can be on the way back.
    suffices stays : ∀ b, ReflTransGen (fun a b => r a b ∨ s a b) b a →
        TransGen (fun a b => r a b ∨ s a b) a b → TransGen r a b from left a (stays a .refl cycle)
    intro b back path
    induction path with
    | single edge =>
        exact .single (edge.resolve_right fun second =>
          inside (closed_of_reflTransGen closed back (target _ _ second)))
    | @tail b c path edge induction =>
        exact .tail (induction (.head edge back)) (edge.resolve_right fun second =>
          inside (closed_of_reflTransGen closed back (target _ _ second)))

theorem Acyclic.nodup_of_isChain {path : List α} (acyclic : Acyclic r) (chain : List.IsChain r path) :
    path.Nodup := by
  have ordered : path.Pairwise (TransGen r) :=
    List.isChain_iff_pairwise.mp (chain.imp fun _ _ edge => .single edge)
  apply ordered.imp
  intro node other reached same
  subst same
  exact acyclic node reached

/-- In an acyclic relation a path that stays among finitely many nodes visits
each of them at most once. -/
theorem Acyclic.isChain_length_le {path nodes : List α} (acyclic : Acyclic r)
    (chain : List.IsChain r path) (within : path ⊆ nodes) : path.length ≤ nodes.length :=
  (List.subperm_of_subset (acyclic.nodup_of_isChain chain) within).length_le

/-- A path with so many steps, all of it among `nodes`, ends at `node`. -/
def EndsPath (r : α → α → Prop) (nodes : List α) (steps : Nat) (node : α) : Prop :=
  ∃ path, List.IsChain r path ∧ path.getLast? = some node ∧ path.length = steps + 1 ∧ path ⊆ nodes

section EndsPath

variable {nodes : List α} {steps : Nat} {node : α}

theorem EndsPath.start (known : node ∈ nodes) : EndsPath r nodes 0 node :=
  ⟨[node], .singleton _, rfl, rfl, by simpa using known⟩

theorem EndsPath.step (ends : EndsPath r nodes steps node) {later : α} (edge : r node later) (known : later ∈ nodes) :
    EndsPath r nodes (steps + 1) later := by
  obtain ⟨path, chain, last, length, within⟩ := ends
  refine ⟨path ++ [later], List.isChain_append.mpr ⟨chain, .singleton _, ?_⟩, by simp, by simp [length],
    List.append_subset.mpr ⟨within, by simpa using known⟩⟩
  intro before ended after first
  rw [last] at ended
  cases ended
  cases first
  exact edge

theorem EndsPath.lt (ends : EndsPath r nodes steps node) (acyclic : Acyclic r) : steps < nodes.length := by
  obtain ⟨path, chain, _, length, within⟩ := ends
  have bound := acyclic.isChain_length_le chain within
  omega

/-- Up from a node there is one that nothing leads to. -/
theorem Acyclic.exists_source (acyclic : Acyclic r) (inside : ∀ a b, r a b → a ∈ nodes) (known : node ∈ nodes) :
    ∃ source, ReflTransGen r source node ∧ ∀ a, ¬ r a source := by
  have acyclicUp : Acyclic (Function.swap r) := fun a cycle => acyclic a (transGen_swap.mp cycle)
  suffices general : ∀ fewer steps node, nodes.length ≤ fewer + steps → EndsPath (Function.swap r) nodes steps node →
      ∃ source, ReflTransGen r source node ∧ ∀ a, ¬ r a source from
    general nodes.length 0 node (Nat.le_refl _) (.start known)
  intro fewer
  induction fewer with
  | zero =>
      intro steps node bound path
      have short := path.lt acyclicUp
      omega
  | succ fewer induction =>
      intro steps node bound path
      by_cases above : ∃ a, r a node
      · obtain ⟨a, edge⟩ := above
        obtain ⟨source, reached, first⟩ := induction (steps + 1) a (by omega) (path.step edge (inside a node edge))
        exact ⟨source, reached.tail edge, first⟩
      · exact ⟨node, .refl, fun a edge => above ⟨a, edge⟩⟩

end EndsPath

end Coverpin.Data
