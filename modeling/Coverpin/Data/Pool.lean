import Mathlib.Algebra.GroupWithZero.Nat
import Mathlib.Data.List.Perm.Basic
import Mathlib.Data.List.Count

namespace Coverpin.Data

/-! Processes that run side by side.

A step takes one process out of the pool and puts in what becomes of it; the
order of a pool means nothing.
-/

variable {π : Type u} {pool next : List π} {i : Nat} {process other : π}

/-- The pool after the `i`-th process has become `next`. -/
def replaceAt (pool : List π) (i : Nat) (next : List π) : List π :=
  pool.eraseIdx i ++ next

theorem perm_eraseIdx (found : pool[i]? = some process) : pool.Perm (process :: pool.eraseIdx i) := by
  induction pool generalizing i with
  | nil => cases found
  | cons first pool induction =>
      cases i with
      | zero => cases found; exact .refl _
      | succ i => exact ((induction found).cons first).trans (.swap process first _)

theorem mem_of_mem_replaceAt (member : other ∈ replaceAt pool i next) : other ∈ pool.eraseIdx i ∨ other ∈ next :=
  List.mem_append.mp member

theorem mem_of_mem_eraseIdx (member : other ∈ pool.eraseIdx i) : other ∈ pool :=
  (List.eraseIdx_sublist pool i).subset member

theorem forall_replaceAt {p : π → Prop} (holds : ∀ other ∈ pool, p other) (new : ∀ other ∈ next, p other) :
    ∀ other ∈ replaceAt pool i next, p other := by
  intro other member
  rcases mem_of_mem_replaceAt member with old | added
  · exact holds other (mem_of_mem_eraseIdx old)
  · exact new other added

theorem countP_replaceAt (q : π → Bool) (found : pool[i]? = some process) :
    (replaceAt pool i next).countP q + (if q process then 1 else 0) = pool.countP q + next.countP q := by
  rw [replaceAt, List.countP_append, (perm_eraseIdx found).countP_eq, List.countP_cons]
  omega

theorem sum_replaceAt (f : π → Nat) (found : pool[i]? = some process) :
    ((replaceAt pool i next).map f).sum + f process = (pool.map f).sum + (next.map f).sum := by
  have parts := ((perm_eraseIdx found).map f).sum_nat
  rw [List.map_cons, List.sum_cons] at parts
  rw [replaceAt, List.map_append, List.sum_append, parts]
  omega

/-- A process that is the only one of its kind has no other beside it. -/
theorem eraseIdx_alone {q : π → Bool} (single : pool.countP q ≤ 1) (found : pool[i]? = some process)
    (holds : q process = true) : ∀ other ∈ pool.eraseIdx i, q other = false := by
  rw [(perm_eraseIdx found).countP_eq, List.countP_cons, if_pos holds] at single
  have none : (pool.eraseIdx i).countP q = 0 := by omega
  exact fun other member => Bool.eq_false_iff.mpr (List.countP_eq_zero.mp none other member)

end Coverpin.Data
