import Coverpin.Data.Table

namespace Coverpin.Data

/-! Statements with numbered placeholders.

A placeholder `$n` stands for the n-th parameter.  A `VALUES` list whose tuples
number their placeholders consecutively, over the parameters of the rows in the
same order, denotes these rows.
-/

variable {γ ν : Type}

def parameterValue (params : List (Option ν)) : Nat → Except DbError (Option ν)
  | 0 => .error .parameter
  | placeholder + 1 =>
      match params[placeholder]? with
      | some value => .ok value
      | none => .error .parameter

/-- The column values that one tuple of a `VALUES` list denotes. -/
def bindTuple (columns : List γ) (params : List (Option ν)) (tuple : List Nat) :
    Except DbError (List (γ × Option ν)) :=
  (columns.zip tuple).mapM fun entry => do
    let value ← parameterValue params entry.2
    return (entry.1, value)

def bindTuples (columns : List γ) (tuples : List (List Nat)) (params : List (Option ν)) :
    Except DbError (List (List (γ × Option ν))) :=
  tuples.mapM (bindTuple columns params)

/-- Placeholders of one tuple, numbered from `base + 1`. -/
def numberedTuple (columns : List γ) (base : Nat) : List Nat :=
  columns.mapIdx fun c _ => base + c + 1

theorem numberedTuple_cons (column : γ) (columns : List γ) (base : Nat) :
    numberedTuple (column :: columns) base = (base + 1) :: numberedTuple columns (base + 1) := by
  simp only [numberedTuple, List.mapIdx_cons, Nat.add_zero, List.cons.injEq, true_and]
  apply List.mapIdx_eq_mapIdx_iff.mpr
  intro c bound
  omega

theorem bindTuple_numbered (columns : List γ) (front row rest : List (Option ν))
    (width : row.length = columns.length) :
    bindTuple columns (front ++ row ++ rest) (numberedTuple columns front.length) = .ok (columns.zip row) := by
  induction columns generalizing front row with
  | nil =>
      rw [List.eq_nil_of_length_eq_zero width]
      rfl
  | cons column columns induction =>
      cases row with
      | nil => simp at width
      | cons value row =>
          have here : parameterValue (front ++ value :: row ++ rest) (front.length + 1) = .ok value := by
            simp [parameterValue]
          have tail := induction (front ++ [value]) row (by simpa using width)
          rw [List.length_append, List.length_singleton, List.append_assoc, List.append_assoc,
            List.singleton_append, ← List.cons_append, ← List.append_assoc] at tail
          rw [bindTuple, numberedTuple_cons, List.zip_cons_cons, List.mapM_cons, here]
          simp only [bindTuple, bind, Except.bind, pure, Except.pure] at tail ⊢
          rw [tail, List.zip_cons_cons]

/-- Tuples numbered row by row denote the rows. -/
theorem bindTuples_numbered (columns : List γ) (rows : List (List (Option ν)))
    (width : ∀ row ∈ rows, row.length = columns.length) :
    bindTuples columns (rows.mapIdx fun i _ => numberedTuple columns (i * columns.length)) rows.flatten =
      .ok (rows.map columns.zip) := by
  suffices general : ∀ (front : List (Option ν)) (done : Nat), front.length = done * columns.length →
      bindTuples columns (rows.mapIdx fun i _ => numberedTuple columns ((done + i) * columns.length))
        (front ++ rows.flatten) = .ok (rows.map columns.zip) by
    simpa using general [] 0 (by simp)
  induction rows with
  | nil => intro front done _; rfl
  | cons row rows induction =>
      intro front done aligned
      have head := bindTuple_numbered columns front row rows.flatten (width row (by simp))
      have tail := induction (fun other member => width other (List.mem_cons_of_mem _ member)) (front ++ row) (done + 1) (by
        rw [List.length_append, aligned, width row (by simp), Nat.succ_mul])
      simp only [bindTuples, List.flatten_cons, List.mapIdx_cons, List.mapM_cons, Nat.add_zero, ← List.append_assoc,
        ← aligned, head] at tail ⊢
      have renumbered : (rows.mapIdx fun i _ => numberedTuple columns ((done + (i + 1)) * columns.length)) =
          rows.mapIdx fun i _ => numberedTuple columns ((done + 1 + i) * columns.length) := by
        apply List.mapIdx_eq_mapIdx_iff.mpr
        intro i _
        rw [Nat.add_comm i 1, Nat.add_assoc]
      rw [renumbered]
      simp only [bind, Except.bind, pure, Except.pure]
      rw [tail, List.map_cons]

theorem bindTuples_batch {α : Type} (columns : List γ) (batch : List α) (values : α → List (Option ν))
    (width : ∀ item, (values item).length = columns.length) :
    bindTuples columns (batch.mapIdx fun i _ => numberedTuple columns (i * columns.length)) (batch.flatMap values) =
      .ok (batch.map fun item => columns.zip (values item)) := by
  have widths : ∀ row ∈ batch.map values, row.length = columns.length := by
    intro row member
    obtain ⟨item, _, rfl⟩ := List.mem_map.mp member
    exact width item
  have tuples : ((batch.map values).mapIdx fun i _ => numberedTuple columns (i * columns.length)) =
      batch.mapIdx fun i _ => numberedTuple columns (i * columns.length) := by
    refine List.ext_getElem? fun i => ?_
    cases found : batch[i]? <;> simp [List.getElem?_mapIdx, found]
  have bound := bindTuples_numbered columns (batch.map values) widths
  rw [tuples, List.map_map, ← List.flatMap_def] at bound
  exact bound

end Coverpin.Data
