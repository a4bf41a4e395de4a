import Coverpin.Data.FirstMentions
import Mathlib.Data.List.Infix

namespace Coverpin.Data

/-! Paths in an ordered graph.

A graph is given by the list of its roots and the successor list of each node.
Of the paths without repetition to a node, one is first: none branches off from
it to an earlier choice.
-/

variable {α : Type u} {roots : List α} {next : α → List α} {target : α} {path other : List α}

/-- What a path may go on with; the empty one may start at any root. -/
def choices (roots : List α) (next : α → List α) (front : List α) : List α :=
  match front.getLast? with
  | none => roots
  | some node => next node

@[simp] theorem choices_nil : choices roots next [] = roots := rfl

@[simp] theorem choices_concat (front : List α) (node : α) : choices roots next (front ++ [node]) = next node := by
  simp [choices]

structure PathTo (roots : List α) (next : α → List α) (target : α) (path : List α) : Prop where
  nodup : path.Nodup
  follows : ∀ front node rest, path = front ++ node :: rest → node ∈ choices roots next front
  ends : path.getLast? = some target

/-- No path to the target leaves this one for a choice that comes before its own. -/
structure FirstPath [DecidableEq α] (roots : List α) (next : α → List α) (target : α) (path : List α) : Prop
    extends PathTo roots next target path where
  first : ∀ front node rest, path = front ++ node :: rest →
    ∀ earlier ∈ (choices roots next front).takeWhile (· ≠ node), ∀ other,
      ¬ PathTo roots next target (front ++ earlier :: other)

/-- A node on the first path to some node, at or after one that this has an edge
back to. -/
def Closed [DecidableEq α] (roots : List α) (next : α → List α) (node : α) : Prop :=
  ∃ last front back rest, FirstPath roots next last (front ++ back :: rest) ∧ back ∈ next last ∧ node ∈ back :: rest

/-- One list continues the other, or they part at some place. -/
theorem continues_or_parts (path other : List α) : (∃ rest, other = path ++ rest) ∨ (∃ rest, path = other ++ rest) ∨
    ∃ front node rest otherNode otherRest, node ≠ otherNode ∧ path = front ++ node :: rest ∧
      other = front ++ otherNode :: otherRest := by
  induction path generalizing other with
  | nil => exact .inl ⟨other, rfl⟩
  | cons node path induction =>
      cases other with
      | nil => exact .inr (.inl ⟨node :: path, rfl⟩)
      | cons otherNode other =>
          by_cases same : node = otherNode
          · subst same
            rcases induction other with ⟨rest, rfl⟩ | ⟨rest, rfl⟩ | ⟨front, a, r, b, s, apart, rfl, rfl⟩
            · exact .inl ⟨rest, rfl⟩
            · exact .inr (.inl ⟨rest, rfl⟩)
            · exact .inr (.inr ⟨node :: front, a, r, b, s, apart, rfl, rfl⟩)
          · exact .inr (.inr ⟨[], node, path, otherNode, other, same, rfl, rfl⟩)

theorem PathTo.mem (reaches : PathTo roots next target path) : target ∈ path :=
  List.mem_of_getLast? reaches.ends

/-- A path ends when it gets to its target. -/
theorem PathTo.not_continued {rest : List α} (reaches : PathTo roots next target path)
    (longer : PathTo roots next target (path ++ rest)) : rest = [] := by
  cases rest with
  | nil => rfl
  | cons node rest =>
      have last : target ∈ node :: rest := by
        have ends := longer.ends
        rw [List.getLast?_append_of_ne_nil _ (List.cons_ne_nil node rest)] at ends
        exact List.mem_of_getLast? ends
      exact absurd rfl ((List.nodup_append.mp longer.nodup).2.2 target reaches.mem target last)

/-- Of two elements of a list one comes first. -/
theorem mem_takeWhile_or [DecidableEq α] {items : List α} {a b : α} (apart : a ≠ b) (left : a ∈ items) (right : b ∈ items) :
    a ∈ items.takeWhile (· ≠ b) ∨ b ∈ items.takeWhile (· ≠ a) := by
  induction items with
  | nil => cases left
  | cons first items induction =>
      by_cases isA : first = a
      · subst isA
        exact .inl (by simp [apart])
      · by_cases isB : first = b
        · subst isB
          exact .inr (by simp [isA])
        · have leftLater := (List.mem_cons.mp left).resolve_left (Ne.symm isA)
          have rightLater := (List.mem_cons.mp right).resolve_left (Ne.symm isB)
          simp only [List.takeWhile_cons, ne_eq, isA, isB, not_false_eq_true, decide_true, if_true, List.mem_cons]
          exact (induction leftLater rightLater).imp .inr .inr

theorem FirstPath.unique [DecidableEq α] (first : FirstPath roots next target path)
    (second : FirstPath roots next target other) : path = other := by
  rcases continues_or_parts path other with ⟨rest, rfl⟩ | ⟨rest, rfl⟩ |
    ⟨front, node, rest, otherNode, otherRest, apart, rfl, rfl⟩
  · rw [first.toPathTo.not_continued second.toPathTo, List.append_nil]
  · rw [second.toPathTo.not_continued first.toPathTo, List.append_nil]
  · rcases mem_takeWhile_or apart (first.follows front node rest rfl) (second.follows front otherNode otherRest rfl)
      with earlier | earlier
    · exact absurd first.toPathTo (second.first front otherNode otherRest rfl node earlier rest)
    · exact absurd second.toPathTo (first.first front node rest rfl otherNode earlier otherRest)

section Heads

variable [DecidableEq α]

/-- A path that takes the first choice at each place comes before all others. -/
theorem FirstPath.of_heads (nodup : path.Nodup) (ends : path.getLast? = some target)
    (heads : ∀ front node rest, path = front ++ node :: rest → (choices roots next front).head? = some node) :
    FirstPath roots next target path where
  nodup := nodup
  follows front node rest same := List.mem_of_head? (heads front node rest same)
  ends := ends
  first front node rest same earlier before := by
    obtain ⟨later, chosen⟩ := List.head?_eq_some_iff.mp (heads front node rest same)
    rw [chosen] at before
    simp at before

theorem FirstPath.pair {start last : α} (apart : start ≠ last) (root : roots.head? = some start)
    (onward : (next start).head? = some last) : FirstPath roots next last [start, last] := by
  refine .of_heads (List.nodup_cons.mpr ⟨by simpa using apart, List.nodup_singleton last⟩) rfl ?_
  intro front node rest same
  cases front with
  | nil =>
      obtain ⟨rfl, _⟩ := List.cons.inj same
      exact root
  | cons first later =>
      obtain ⟨rfl, tail⟩ := List.cons.inj same
      cases later with
      | nil =>
          obtain ⟨rfl, _⟩ := List.cons.inj tail
          exact onward
      | cons second later => simp at tail

/-- The first root and its first successor are closed by an edge back. -/
theorem closed_of_back {start last : α} (apart : start ≠ last) (root : roots.head? = some start)
    (onward : (next start).head? = some last) (back : start ∈ next last) :
    ∀ node ∈ [start, last], Closed roots next node :=
  fun _ inside => ⟨last, [], start, [last], .pair apart root onward, back, inside⟩

end Heads

section Mentions

variable [DecidableEq α] {otherRoots : List α} {otherNext : α → List α}

theorem firsts_choices (sameRoots : firsts roots = firsts otherRoots)
    (sameNext : ∀ node, firsts (next node) = firsts (otherNext node))
    (front : List α) : firsts (choices roots next front) = firsts (choices otherRoots otherNext front) := by
  unfold choices
  cases front.getLast? with
  | none => exact sameRoots
  | some node => exact sameNext node

theorem PathTo.of_firsts (sameRoots : firsts roots = firsts otherRoots)
    (sameNext : ∀ node, firsts (next node) = firsts (otherNext node)) (reaches : PathTo roots next target path) :
    PathTo otherRoots otherNext target path where
  nodup := reaches.nodup
  follows front node rest same := by
    have chosen := reaches.follows front node rest same
    rwa [← mem_firsts, firsts_choices sameRoots sameNext, mem_firsts] at chosen
  ends := reaches.ends

theorem FirstPath.of_firsts (sameRoots : firsts roots = firsts otherRoots)
    (sameNext : ∀ node, firsts (next node) = firsts (otherNext node)) (first : FirstPath roots next target path) :
    FirstPath otherRoots otherNext target path where
  toPathTo := first.toPathTo.of_firsts sameRoots sameNext
  first front node rest same earlier before other reaches := by
    rw [← mem_takeWhile_firsts, ← firsts_choices sameRoots sameNext, mem_takeWhile_firsts] at before
    exact first.first front node rest same earlier before other
      (reaches.of_firsts sameRoots.symm fun node => (sameNext node).symm)

/-- Later mentions of roots and successors close nothing. -/
theorem closed_of_firsts (sameRoots : firsts roots = firsts otherRoots)
    (sameNext : ∀ node, firsts (next node) = firsts (otherNext node)) {node : α} :
    Closed roots next node ↔ Closed otherRoots otherNext node := by
  have onward : ∀ {roots otherRoots : List α} {next otherNext : α → List α}, firsts roots = firsts otherRoots →
      (∀ node, firsts (next node) = firsts (otherNext node)) → Closed roots next node →
        Closed otherRoots otherNext node := by
    intro roots otherRoots next otherNext sameRoots sameNext closed
    obtain ⟨last, front, back, rest, first, link, member⟩ := closed
    rw [← mem_firsts, sameNext, mem_firsts] at link
    exact ⟨last, front, back, rest, first.of_firsts sameRoots sameNext, link, member⟩
  exact ⟨onward sameRoots sameNext, onward sameRoots.symm fun node => (sameNext node).symm⟩

end Mentions

end Coverpin.Data
