import Coverpin.Data.Acyclic
import Mathlib.Algebra.GroupWithZero.Nat
import Mathlib.Data.List.Perm.Basic
import Mathlib.Data.List.Nodup

namespace Coverpin.Data

/-! The iteration behind `WITH RECURSIVE ... UNION ALL`.

A round replaces the working table by the rows that its rows lead to.  The result
is the union, with repetitions, of all working tables until one is empty.
-/

variable {α : Type u} {β : Type v} {ν : Type w} {next : α → List α} {rounds : Nat} {working rows : List α}

/-- The result of at most `rounds` rounds; `none` when they do not suffice. -/
def recursiveUnion (next : α → List α) : (rounds : Nat) → (working : List α) → Option (List α)
  | _, [] => some []
  | 0, _ :: _ => none
  | rounds + 1, row :: working =>
      (recursiveUnion next rounds ((row :: working).flatMap next)).map ((row :: working) ++ ·)

theorem recursiveUnion_succ (rounds : Nat) (working : List α) :
    recursiveUnion next (rounds + 1) working =
      (recursiveUnion next rounds (working.flatMap next)).map (working ++ ·) := by
  cases working with
  | nil => cases rounds <;> rfl
  | cons row working => rfl

theorem recursiveUnion_zero (finished : recursiveUnion next 0 working = some rows) : working = [] ∧ rows = [] := by
  cases working with
  | nil => cases finished; exact ⟨rfl, rfl⟩
  | cons row working => cases finished

/-- Every row of the result is a row of the start or comes from one row of the
result, once for each way to come from it. -/
theorem recursiveUnion_perm (finished : recursiveUnion next rounds working = some rows) :
    rows.Perm (working ++ rows.flatMap next) := by
  induction rounds generalizing working rows with
  | zero =>
      obtain ⟨rfl, rfl⟩ := recursiveUnion_zero finished
      exact .refl _
  | succ rounds induction =>
      rw [recursiveUnion_succ, Option.map_eq_some_iff] at finished
      obtain ⟨later, finished, rfl⟩ := finished
      rw [List.flatMap_append]
      exact (induction finished).append_left working

theorem recursiveUnion_forall {p : α → Prop} (finished : recursiveUnion next rounds working = some rows)
    (start : ∀ row ∈ working, p row) (closed : ∀ row, p row → ∀ later ∈ next row, p later) :
    ∀ row ∈ rows, p row := by
  induction rounds generalizing working rows with
  | zero =>
      obtain ⟨rfl, rfl⟩ := recursiveUnion_zero finished
      exact start
  | succ rounds induction =>
      rw [recursiveUnion_succ, Option.map_eq_some_iff] at finished
      obtain ⟨later, finished, rfl⟩ := finished
      intro row member
      rcases List.mem_append.mp member with first | inside
      · exact start row first
      · refine induction finished (fun row member => ?_) row inside
        obtain ⟨source, fromStart, step⟩ := List.mem_flatMap.mp member
        exact closed source (start source fromStart) row step

/-- Rows may be renamed before or after the iteration. -/
theorem recursiveUnion_map (f : α → β) (next' : β → List β) (commutes : ∀ row, (next row).map f = next' (f row))
    (rounds : Nat) (working : List α) :
    recursiveUnion next' rounds (working.map f) = (recursiveUnion next rounds working).map (List.map f) := by
  induction rounds generalizing working with
  | zero => cases working <;> rfl
  | succ rounds induction =>
      have round : (working.map f).flatMap next' = (working.flatMap next).map f := by
        rw [List.flatMap_map, List.map_flatMap]
        exact List.flatMap_congr fun row _ => (commutes row).symm
      rw [recursiveUnion_succ, recursiveUnion_succ, round, induction, Option.map_map, Option.map_map]
      congr 1
      funext later
      simp

/-- When rows know their depth and no row comes from two others, nothing is
repeated. -/
theorem recursiveUnion_nodup (depth : α → Nat) (start : Nat)
    (finished : recursiveUnion next rounds working = some rows) (distinct : working.Nodup)
    (level : ∀ row ∈ working, depth row = start) (deeper : ∀ row, ∀ later ∈ next row, depth later = depth row + 1)
    (each : ∀ row, (next row).Nodup) (apart : ∀ row other, row ≠ other → List.Disjoint (next row) (next other)) :
    rows.Nodup ∧ ∀ row ∈ rows, start ≤ depth row := by
  induction rounds generalizing working rows start with
  | zero =>
      obtain ⟨rfl, rfl⟩ := recursiveUnion_zero finished
      simp
  | succ rounds induction =>
      rw [recursiveUnion_succ, Option.map_eq_some_iff] at finished
      obtain ⟨later, finished, rfl⟩ := finished
      have below : ∀ row ∈ working.flatMap next, depth row = start + 1 := by
        intro row member
        obtain ⟨source, inside, step⟩ := List.mem_flatMap.mp member
        rw [deeper source row step, level source inside]
      have once : (working.flatMap next).Nodup :=
        List.nodup_flatMap.mpr ⟨fun row _ => each row, distinct.imp (apart _ _)⟩
      obtain ⟨nodup, deep⟩ := induction (start + 1) finished once below
      refine ⟨List.nodup_append.mpr ⟨distinct, nodup, ?_⟩, ?_⟩
      · intro row first other second same
        subst same
        have bound := deep row second
        rw [level row first] at bound
        exact Nat.not_succ_le_self start bound
      · intro row member
        rcases List.mem_append.mp member with first | inside
        · exact Nat.le_of_eq (level row first).symm
        · exact Nat.le_of_succ_le (deep row inside)

/-- The result has as many rows as the start weighs, when no row weighs more than
itself and those it leads to. -/
theorem recursiveUnion_weight (weight : α → Nat) (light : ∀ row, weight row ≤ 1 + ((next row).map weight).sum)
    (finished : recursiveUnion next rounds working = some rows) : (working.map weight).sum ≤ rows.length := by
  induction rounds generalizing working rows with
  | zero =>
      obtain ⟨rfl, rfl⟩ := recursiveUnion_zero finished
      exact Nat.le_refl _
  | succ rounds induction =>
      rw [recursiveUnion_succ, Option.map_eq_some_iff] at finished
      obtain ⟨later, finished, rfl⟩ := finished
      have below := induction finished
      have start : (working.map weight).sum ≤ working.length + ((working.flatMap next).map weight).sum := by
        clear below finished
        induction working with
        | nil => exact Nat.le_refl _
        | cons row working shorter =>
            have own := light row
            simp only [List.map_cons, List.sum_cons, List.length_cons, List.flatMap_cons, List.map_append, List.sum_append]
            omega
      rw [List.length_append]
      omega

/-- The iteration ends when its rows follow an acyclic relation on finitely many
nodes: a row of the n-th round ends a path of n steps. -/
theorem recursiveUnion_terminates {r : ν → ν → Prop} (node : α → ν) (nodes : List ν) (acyclic : Acyclic r)
    (follows : ∀ row, ∀ later ∈ next row, r (node row) (node later) ∧ node later ∈ nodes)
    (start : ∀ row ∈ working, node row ∈ nodes) :
    ∃ rows, recursiveUnion next nodes.length working = some rows := by
  suffices general : ∀ rounds steps working, nodes.length ≤ rounds + steps →
      (∀ row ∈ working, EndsPath r nodes steps (node row)) → ∃ rows, recursiveUnion next rounds working = some rows from
    general nodes.length 0 working (Nat.le_refl _) fun row member => .start (start row member)
  intro rounds
  induction rounds with
  | zero =>
      intro steps working bound paths
      cases working with
      | nil => exact ⟨[], rfl⟩
      | cons row working =>
          have short := (paths row (by simp)).lt acyclic
          omega
  | succ rounds induction =>
      intro steps working bound paths
      obtain ⟨later, finished⟩ := induction (steps + 1) (working.flatMap next) (by omega) (by
        intro row member
        obtain ⟨source, inside, step⟩ := List.mem_flatMap.mp member
        obtain ⟨edge, known⟩ := follows source row step
        exact (paths source inside).step edge known)
      exact ⟨working ++ later, by rw [recursiveUnion_succ, finished]; rfl⟩

/-- The iteration does not end when some row always leads on. -/
theorem recursiveUnion_endless {p : α → Prop} (start : ∃ row ∈ working, p row)
    (leads : ∀ row, p row → ∃ later ∈ next row, p later) : recursiveUnion next rounds working = none := by
  induction rounds generalizing working with
  | zero =>
      obtain ⟨row, member, _⟩ := start
      cases working with
      | nil => cases member
      | cons row working => rfl
  | succ rounds induction =>
      obtain ⟨row, member, holds⟩ := start
      obtain ⟨later, step, again⟩ := leads row holds
      rw [recursiveUnion_succ, induction ⟨later, List.mem_flatMap.mpr ⟨row, member, step⟩, again⟩]
      rfl

end Coverpin.Data
