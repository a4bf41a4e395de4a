import Coverpin.Data.FirstPath
import Mathlib.Logic.Relation

namespace Coverpin.Data

open Relation

/-! First paths along the cycles of a graph.

First paths form a tree: what a first path goes through is reached by its front.
The closed nodes are those on a cycle whose edges run along this tree, up or down.
In every order of the choices all edges on cycles do so, as long as no two ways lead
from one node of a cycle to another.
-/

variable {α : Type u} {roots : List α} {next : α → List α} {node child target : α} {path front rest : List α}

def Leads (next : α → List α) (node child : α) : Prop :=
  child ∈ next node

/-- A step to a node that is not in the list. -/
def LeadsOutside (next : α → List α) (avoided : List α) (node child : α) : Prop :=
  child ∈ next node ∧ child ∉ avoided

/-- One way at most, without repetition, leads from a node to one that leads back. -/
def OneWay (next : α → List α) : Prop :=
  ∀ start target, ReflTransGen (Leads next) target start → ∀ path other, PathTo [start] next target path →
    PathTo [start] next target other → path = other

theorem PathTo.take (reaches : PathTo roots next target (front ++ node :: rest)) :
    PathTo roots next node (front ++ [node]) where
  nodup := reaches.nodup.sublist ((List.append_sublist_append_left front).mpr (by simp))
  follows before other later same := by
    refine reaches.follows before other (later ++ rest) ?_
    rw [← List.cons_append, ← List.append_assoc, ← same, List.append_assoc, List.singleton_append]
  ends := List.getLast?_concat

theorem PathTo.drop (reaches : PathTo roots next target (front ++ node :: rest)) :
    PathTo [node] next target (node :: rest) where
  nodup := (List.nodup_append.mp reaches.nodup).2.1
  follows before other later same := by
    have chosen := reaches.follows (front ++ before) other later (by rw [same, List.append_assoc])
    rcases List.eq_nil_or_concat' before with rfl | ⟨shorter, last, rfl⟩
    · exact List.mem_singleton.mpr (List.cons.inj same).1.symm
    · rw [← List.append_assoc, choices_concat] at chosen
      rw [choices_concat]
      exact chosen
  ends := by
    have ends := reaches.ends
    rwa [List.getLast?_append_of_ne_nil _ (List.cons_ne_nil node rest)] at ends

theorem PathTo.concat (reaches : PathTo roots next node path) (edge : child ∈ next node) (fresh : child ∉ path) :
    PathTo roots next child (path ++ [child]) where
  nodup := List.nodup_append.mpr ⟨reaches.nodup, List.nodup_singleton child, by
    intro a member b isChild same
    exact fresh (List.mem_singleton.mp isChild ▸ same ▸ member)⟩
  follows before other later same := by
    rcases List.eq_nil_or_concat' later with rfl | ⟨shorter, last, rfl⟩
    · obtain ⟨rfl, single⟩ := List.append_inj' same rfl
      cases single
      obtain ⟨shorter, ends⟩ := List.getLast?_eq_some_iff.mp reaches.ends
      rw [ends, choices_concat]
      exact edge
    · rw [← List.cons_append, ← List.append_assoc] at same
      exact reaches.follows before other shorter (List.append_inj' same rfl).1
  ends := List.getLast?_concat

/-- A step that stays clear of the front ends a path with the same choice after it. -/
theorem PathTo.step {choice : α} {other : List α} (reaches : PathTo roots next node (front ++ choice :: other))
    (edge : LeadsOutside next front node child) : ∃ more, PathTo roots next child (front ++ choice :: more) := by
  by_cases visited : child ∈ front ++ choice :: other
  · obtain ⟨before, after, same⟩ := List.append_of_mem ((List.mem_append.mp visited).resolve_left edge.2)
    rw [same, ← List.append_assoc] at reaches
    have taken := reaches.take
    cases before with
    | nil =>
        obtain ⟨rfl, _⟩ := List.cons.inj same
        exact ⟨[], by simpa using taken⟩
    | cons first before =>
        obtain ⟨rfl, _⟩ := List.cons.inj same
        exact ⟨before ++ [child], by simpa using taken⟩
  · exact ⟨other ++ [child], by simpa using reaches.concat edge.1 visited⟩

theorem PathTo.steps {choice : α} {other : List α} (reaches : PathTo roots next node (front ++ choice :: other))
    (onward : ReflTransGen (LeadsOutside next front) node target) :
    ∃ more, PathTo roots next target (front ++ choice :: more) := by
  induction onward with
  | refl => exact ⟨other, reaches⟩
  | tail _ edge induction =>
      obtain ⟨more, reaches⟩ := induction
      exact reaches.step edge

/-- The rest of a path stays clear of its front. -/
theorem PathTo.onward (reaches : PathTo roots next target (front ++ node :: rest)) :
    ReflTransGen (LeadsOutside next front) node target := by
  induction rest generalizing front node with
  | nil =>
      have ends := reaches.ends
      rw [List.getLast?_concat] at ends
      cases ends
      exact .refl
  | cons later rest induction =>
      have split : front ++ node :: later :: rest = (front ++ [node]) ++ later :: rest := by simp
      rw [split] at reaches
      have edge := reaches.follows (front ++ [node]) later rest rfl
      rw [choices_concat] at edge
      have fresh : later ∉ front ++ [node] := fun member =>
        (List.nodup_append.mp reaches.nodup).2.2 later member later List.mem_cons_self rfl
      refine .head ⟨edge, fun member => fresh (List.mem_append_left _ member)⟩ ?_
      exact ReflTransGen.mono (fun _ _ step => ⟨step.1, fun member => step.2 (List.mem_append_left _ member)⟩) _ _
        (induction reaches)

section Tree

variable [DecidableEq α]

/-- The first path to `last` goes through `node`. -/
def OnFirstPath (roots : List α) (next : α → List α) (node last : α) : Prop :=
  ∃ path, FirstPath roots next last path ∧ node ∈ path

/-- An edge does not run sideways when one of its ends is on the first path to the other. -/
def Straight (roots : List α) (next : α → List α) (node child : α) : Prop :=
  child ∈ next node ∧ (OnFirstPath roots next node child ∨ OnFirstPath roots next child node)

/-- The front of a first path is a first path. -/
theorem FirstPath.take (first : FirstPath roots next target (front ++ node :: rest)) :
    FirstPath roots next node (front ++ [node]) where
  toPathTo := first.toPathTo.take
  first before other later same earlier member branch reaches := by
    have split : front ++ node :: rest = before ++ other :: (later ++ rest) := by
      rw [← List.cons_append, ← List.append_assoc, ← same, List.append_assoc, List.singleton_append]
    have within : before <+: front := by
      have length := congrArg List.length same
      simp only [List.length_append, List.length_cons, List.length_nil] at length
      exact List.prefix_of_prefix_length_le (same ▸ List.prefix_append before _) (List.prefix_append front _) (by omega)
    have clear : ReflTransGen (LeadsOutside next before) node target :=
      ReflTransGen.mono (fun _ _ step => ⟨step.1, fun inside => step.2 (within.subset inside)⟩) _ _ first.toPathTo.onward
    obtain ⟨more, longer⟩ := reaches.steps clear
    exact first.first before other _ split earlier member more longer

theorem OnFirstPath.take (on : OnFirstPath roots next node target) :
    ∃ front rest, FirstPath roots next target (front ++ node :: rest) ∧ FirstPath roots next node (front ++ [node]) := by
  obtain ⟨path, first, member⟩ := on
  obtain ⟨front, rest, rfl⟩ := List.append_of_mem member
  exact ⟨front, rest, first, first.take⟩

theorem OnFirstPath.self (on : OnFirstPath roots next node target) : OnFirstPath roots next node node := by
  obtain ⟨front, _, _, own⟩ := on.take
  exact ⟨_, own, by simp⟩

theorem OnFirstPath.trans (lower : OnFirstPath roots next node child) (upper : OnFirstPath roots next child target) :
    OnFirstPath roots next node target := by
  obtain ⟨path, first, member⟩ := lower
  obtain ⟨front, rest, longer, own⟩ := upper.take
  rw [first.unique own] at member
  exact ⟨_, longer, by simpa using List.mem_append_left rest member⟩

/-- Of two nodes on one first path, the upper one is on the first path to the lower one. -/
theorem FirstPath.ordered {upper lower : α} (first : FirstPath roots next target path) (left : upper ∈ path)
    (right : lower ∈ path) : OnFirstPath roots next upper lower ∨
      ∃ front rest, path = front ++ lower :: rest ∧ upper ∈ lower :: rest := by
  obtain ⟨front, rest, rfl⟩ := List.append_of_mem right
  rcases List.mem_append.mp left with above | below
  · exact .inl ⟨_, first.take, List.mem_append_left _ above⟩
  · exact .inr ⟨front, rest, rfl, below⟩

/-- An edge back from below a node leads to one below it as well, or closes it. -/
theorem closed_or_below (below : OnFirstPath roots next node target) (edge : child ∈ next target)
    (back : OnFirstPath roots next child target) : Closed roots next node ∨ OnFirstPath roots next node child := by
  obtain ⟨path, first, member⟩ := below
  obtain ⟨other, again, inside⟩ := back
  cases first.unique again
  rcases first.ordered member inside with above | ⟨front, rest, rfl, closes⟩
  · exact .inr above
  · exact .inl ⟨target, front, child, rest, first, edge, closes⟩

theorem FirstPath.straight (first : FirstPath roots next target (front ++ node :: rest)) :
    ReflTransGen (Straight roots next) node target := by
  induction rest generalizing front node with
  | nil =>
      have ends := first.ends
      rw [List.getLast?_concat] at ends
      cases ends
      exact .refl
  | cons later rest induction =>
      have split : front ++ node :: later :: rest = (front ++ [node]) ++ later :: rest := by simp
      rw [split] at first
      have edge := first.follows (front ++ [node]) later rest rfl
      rw [choices_concat] at edge
      exact .head ⟨edge, .inl ⟨_, first.take, by simp⟩⟩ (induction first)

/-- Around a cycle of straight edges one never gets out of what is below a node, so at
last an edge leads back to it or above. -/
theorem closed_of_straight (cycle : TransGen (Straight roots next) node node) : Closed roots next node := by
  have self : OnFirstPath roots next node node := by
    obtain ⟨child, ⟨_, down | up⟩, _⟩ := TransGen.head'_iff.mp cycle
    · exact down.self
    · obtain ⟨path, first, _⟩ := up
      exact ⟨path, first, first.toPathTo.mem⟩
  have around : ∀ last, ReflTransGen (Straight roots next) node last →
      Closed roots next node ∨ OnFirstPath roots next node last := by
    intro last reached
    induction reached with
    | refl => exact .inr self
    | tail _ edge induction =>
        rcases induction with closed | below
        · exact .inl closed
        · rcases edge.2 with down | up
          · exact .inr (below.trans down)
          · exact closed_or_below below edge.1 up
  obtain ⟨last, onward, edge⟩ := TransGen.tail'_iff.mp cycle
  rcases around last onward with closed | below
  · exact closed
  · obtain ⟨path, first, member⟩ := below
    obtain ⟨front, rest, rfl⟩ := List.append_of_mem member
    exact ⟨last, front, node, rest, first, edge.1, List.mem_cons_self⟩

/-- The closed nodes are those on a cycle without a sideways edge. -/
theorem closed_iff_straight : Closed roots next node ↔ TransGen (Straight roots next) node node := by
  refine ⟨fun closed => ?_, closed_of_straight⟩
  obtain ⟨last, front, back, rest, first, edge, member⟩ := closed
  obtain ⟨before, after, same⟩ := List.append_of_mem member
  have down : ReflTransGen (Straight roots next) node last := by
    rw [same, ← List.append_assoc] at first
    exact first.straight
  have onward : ReflTransGen (Straight roots next) back node := by
    rw [same, ← List.append_assoc] at first
    have upper := first.take
    cases before with
    | nil =>
        obtain ⟨rfl, _⟩ := List.cons.inj same
        exact .refl
    | cons start before =>
        obtain ⟨rfl, _⟩ := List.cons.inj same
        rw [List.append_assoc, List.cons_append] at upper
        exact upper.straight
  have up : Straight roots next last back := ⟨edge, .inr ⟨_, first, by simp⟩⟩
  exact TransGen.trans_left (.tail' down up) onward

end Tree

section Finite

variable [DecidableEq α]

/-- Where some choice will do, one does before all others. -/
theorem exists_first {p : α → Prop} {items : List α} (exist : ∃ item ∈ items, p item) :
    ∃ item ∈ items, p item ∧ ∀ earlier ∈ items.takeWhile (· ≠ item), ¬ p earlier := by
  induction items with
  | nil => simp at exist
  | cons head items induction =>
      by_cases good : p head
      · exact ⟨head, List.mem_cons_self, good, by simp⟩
      · obtain ⟨some, member, holds⟩ := exist
        have later : some ∈ items := (List.mem_cons.mp member).resolve_left fun same => good (same ▸ holds)
        obtain ⟨item, inside, holds, before⟩ := induction ⟨some, later, holds⟩
        refine ⟨item, List.mem_cons_of_mem _ inside, holds, fun earlier listed => ?_⟩
        have apart : head ≠ item := fun same => good (same ▸ holds)
        rw [List.takeWhile_cons_of_pos (by simpa using apart)] at listed
        rcases List.mem_cons.mp listed with rfl | listed
        · exact good
        · exact before earlier listed

variable (known : ∀ node child, child ∈ next node → child ∈ roots)
include known

omit [DecidableEq α] in
theorem PathTo.subset (reaches : PathTo roots next target path) : path ⊆ roots := by
  intro node member
  obtain ⟨front, rest, same⟩ := List.append_of_mem member
  have chosen := reaches.follows front node rest same
  rcases List.eq_nil_or_concat' front with rfl | ⟨shorter, last, rfl⟩
  · exact chosen
  · rw [choices_concat] at chosen
    exact known last node chosen

/-- Among finitely many nodes the first choices that lead to the target make a first path. -/
theorem exists_firstPath_from : ∀ (fewer : Nat) (front : List α), roots.length ≤ fewer + front.length →
    (∃ other, PathTo roots next target (front ++ other)) →
      ∃ rest, PathTo roots next target (front ++ rest) ∧ ∀ before node later, rest = before ++ node :: later →
        ∀ earlier ∈ (choices roots next (front ++ before)).takeWhile (· ≠ node), ∀ other,
          ¬ PathTo roots next target (front ++ before ++ earlier :: other) := by
  intro fewer
  induction fewer with
  | zero =>
      intro front full exist
      obtain ⟨other, reaches⟩ := exist
      have length := (List.subperm_of_subset reaches.nodup (reaches.subset known)).length_le
      rw [List.length_append] at length
      have empty : other = [] := List.eq_nil_of_length_eq_zero (by omega)
      exact ⟨[], empty ▸ reaches, by simp⟩
  | succ fewer induction =>
      intro front room exist
      obtain ⟨other, reaches⟩ := exist
      cases other with
      | nil => exact ⟨[], reaches, by simp⟩
      | cons choice other =>
          obtain ⟨node, chosen, ⟨other, reaches⟩, before⟩ := exists_first
            (p := fun node => ∃ other, PathTo roots next target (front ++ node :: other))
            ⟨choice, reaches.follows front choice other rfl, other, reaches⟩
          obtain ⟨rest, longer, first⟩ := induction (front ++ [node]) (by simp; omega) ⟨other, by simpa using reaches⟩
          refine ⟨node :: rest, by simpa using longer, fun done later tail same earlier listed branch => ?_⟩
          cases done with
          | nil =>
              obtain ⟨rfl, _⟩ := List.cons.inj same
              rw [List.append_nil] at listed ⊢
              exact fun reaches => before earlier listed ⟨branch, reaches⟩
          | cons start done =>
              obtain ⟨rfl, tails⟩ := List.cons.inj same
              have split : front ++ node :: done = front ++ [node] ++ done := by simp
              rw [split] at listed ⊢
              exact first done later tail tails earlier listed branch

theorem exists_firstPath (reaches : PathTo roots next target path) : ∃ first, FirstPath roots next target first := by
  obtain ⟨rest, first, earlier⟩ := exists_firstPath_from known roots.length [] (by simp) ⟨path, reaches⟩
  exact ⟨rest, first, earlier⟩

/-- Where at most one way leads from node to node of a cycle, none of its edges runs sideways. -/
theorem OneWay.straight (oneWay : OneWay next) (mentioned : ∀ node child, child ∈ next node → node ∈ roots)
    (edge : child ∈ next node) (back : ReflTransGen (Leads next) child node) : Straight roots next node child := by
  have single : ∀ node, node ∈ roots → PathTo roots next node [node] := by
    intro node member
    refine ⟨List.nodup_singleton node, fun front other rest same => ?_, rfl⟩
    cases front with
    | nil => exact (List.cons.inj same).1 ▸ member
    | cons head front => simp at same
  obtain ⟨path, first⟩ := exists_firstPath known (single node (mentioned node child edge))
  obtain ⟨other, second⟩ := exists_firstPath known (single child (known node child edge))
  by_cases up : child ∈ path
  · exact ⟨edge, .inr ⟨path, first, up⟩⟩
  · have longer := first.toPathTo.concat edge up
    rcases continues_or_parts path other with ⟨rest, rfl⟩ | ⟨rest, rfl⟩ | ⟨front, a, r, b, s, apart, rfl, rfl⟩
    · exact ⟨edge, .inl ⟨_, second, List.mem_append_left _ first.toPathTo.mem⟩⟩
    · exact absurd (List.mem_append_left _ second.toPathTo.mem) up
    · rw [List.append_assoc, List.cons_append] at longer
      by_cases meets : ∃ start ∈ front, ReflTransGen (Leads next) child start
      · -- From a place on the front two ways lead to the child.
        obtain ⟨start, member, reached⟩ := meets
        obtain ⟨before, after, rfl⟩ := List.append_of_mem member
        rw [List.append_assoc, List.cons_append] at longer
        have direct := second.toPathTo
        rw [List.append_assoc, List.cons_append] at direct
        have same := oneWay start child reached _ _ longer.drop direct.drop
        have tails := List.append_cancel_left (List.cons.inj same).2
        exact absurd (List.cons.inj tails).1 apart
      · -- Else the way back from the child keeps clear of the front, and one of the paths was not first.
        have clear : ReflTransGen (LeadsOutside next front) child node := by
          suffices general : ∀ last, ReflTransGen (Leads next) child last →
              ReflTransGen (LeadsOutside next front) child last from general node back
          intro last reached
          induction reached with
          | refl => exact .refl
          | tail reached edge induction =>
              exact induction.tail ⟨edge, fun inside => meets ⟨_, inside, reached.tail edge⟩⟩
        obtain ⟨more, around⟩ := second.toPathTo.steps clear
        rcases mem_takeWhile_or apart (first.follows front a r rfl) (second.follows front b s rfl) with earlier | earlier
        · exact absurd longer (second.first front b s rfl a earlier _)
        · exact absurd around (first.first front a r rfl b earlier more)

theorem OneWay.closed_iff (oneWay : OneWay next) (mentioned : ∀ node child, child ∈ next node → node ∈ roots) :
    Closed roots next node ↔ TransGen (Leads next) node node := by
  rw [closed_iff_straight]
  constructor
  · exact fun cycle => TransGen.mono (fun _ _ edge => edge.1) _ _ cycle
  · intro cycle
    have around : ∀ last, TransGen (Leads next) node last → ReflTransGen (Leads next) last node →
        TransGen (Straight roots next) node last := by
      intro last onward
      induction onward with
      | single edge => exact fun back => .single (oneWay.straight known mentioned edge back)
      | tail onward edge induction =>
          intro back
          exact (induction (.head edge back)).tail (oneWay.straight known mentioned edge (back.trans onward.to_reflTransGen))
    exact around node cycle .refl

end Finite

end Coverpin.Data
