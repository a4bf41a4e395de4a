import Coverpin.Data.InsertionMap

namespace Coverpin.Data

/-! Tables with unique constraints and `INSERT ... ON CONFLICT DO UPDATE`.

A schema says how the columns of a record are read and how a record is built
from column values; NULL is `none`.  A table carries the proof that its unique
constraints hold, so a statement that would break one has no resulting table.
-/

theorem bind_eq_ok {ε α β : Type} {x : Except ε α} {f : α → Except ε β} {result : β} :
    (x >>= f) = .ok result ↔ ∃ a, x = .ok a ∧ f a = .ok result := by
  cases x with
  | error reason => exact iff_of_false (by rintro ⟨⟩) (by rintro ⟨_, ⟨⟩, _⟩)
  | ok a =>
      refine ⟨fun same => ⟨a, rfl, same⟩, ?_⟩
      intro bound
      obtain ⟨_, ⟨⟩, same⟩ := bound
      exact same

theorem foldlM_preserves {ε σ β τ : Type} {write : σ → β → Except ε σ} {items : List β} {start final : σ}
    (f : σ → τ) (step : ∀ state item next, write state item = .ok next → f next = f state)
    (folded : items.foldlM write start = .ok final) : f final = f start := by
  induction items generalizing start with
  | nil => cases folded; rfl
  | cons item items induction =>
      rw [List.foldlM_cons] at folded
      obtain ⟨middle, first, rest⟩ := bind_eq_ok.mp folded
      exact (induction rest).trans (step start item middle first)

/-- Why the database rejects a statement. -/
inductive DbError where
  | parameter  -- a placeholder without a value
  | invalidValue  -- a value of the wrong type, a NULL or a failed CHECK
  | duplicateKey
  | touchedTwice  -- ON CONFLICT DO UPDATE would affect a row a second time
  | missingReference
  | unavailable  -- the call did not reach the database
deriving DecidableEq, Repr

/-- Columns `γ`, records `ρ`, column values `ν` and ids `ι` of a table. -/
structure Schema (γ : Type) (ρ : Type) (ν : Type) (ι : Type) where
  id : ρ → ι
  read : ρ → γ → Option ν
  build : ι → (γ → Option ν) → Except DbError ρ
  uniques : List (List γ)
  id_build : ∀ {newId values record}, build newId values = .ok record → id record = newId

variable {γ ρ ν ι κ π : Type} [DecidableEq γ] [DecidableEq ν] [DecidableEq ι] [DecidableEq κ]

/-- Both sides have the same values in the columns; NULL equals nothing. -/
def agree (columns : List γ) (left right : γ → Option ν) : Bool :=
  columns.all fun column => (left column).isSome && left column == right column

/-- The new values in the given columns and the old ones elsewhere. -/
def overlay (columns : List γ) (new old : γ → Option ν) (column : γ) : Option ν :=
  if column ∈ columns then new column else old column

/-- The primary key and the unique constraints. -/
def Schema.Unique (schema : Schema γ ρ ν ι) (records : List ρ) : Prop :=
  (records.map schema.id).Nodup ∧ ∀ columns ∈ schema.uniques,
    records.Pairwise fun record other => ¬ agree columns (schema.read record) (schema.read other) = true

instance (schema : Schema γ ρ ν ι) (records : List ρ) : Decidable (schema.Unique records) :=
  inferInstanceAs (Decidable (_ ∧ _))

omit [DecidableEq γ] [DecidableEq ι] in
theorem Schema.Unique.perm {schema : Schema γ ρ ν ι} {records listed : List ρ} (unique : schema.Unique records)
    (perm : listed.Perm records) : schema.Unique listed := by
  refine ⟨(perm.map _).nodup_iff.mpr unique.1, fun columns declared => ?_⟩
  refine (perm.pairwise_iff fun {record other} apart both => apart ?_).mpr (unique.2 columns declared)
  unfold agree at both ⊢
  rw [List.all_eq_true] at both ⊢
  intro column listed
  have same := both column listed
  rw [Bool.and_eq_true, beq_iff_eq] at same ⊢
  exact ⟨same.2 ▸ same.1, same.2.symm⟩

structure Table (schema : Schema γ ρ ν ι) where
  records : List ρ
  unique : schema.Unique records

/-- The columns of a conflict target and those of `DO UPDATE SET c = EXCLUDED.c`. -/
structure OnConflict (γ : Type) where
  target : List γ
  updates : List γ

variable {schema : Schema γ ρ ν ι}

def Table.empty : Table schema :=
  ⟨[], List.nodup_nil, fun _ _ => List.Pairwise.nil⟩

def Table.ids (table : Table schema) : List ι :=
  table.records.map schema.id

omit [DecidableEq γ] [DecidableEq ι] in
theorem Table.eq_of_id {table : Table schema} {record other : ρ} (member : record ∈ table.records)
    (otherMember : other ∈ table.records) (same : schema.id record = schema.id other) : record = other :=
  List.inj_on_of_nodup_map table.unique.1 member otherMember same

/-- Constraints are checked as soon as a record is written. -/
def Table.check (records : List ρ) : Except DbError (Table schema) :=
  if unique : schema.Unique records then .ok ⟨records, unique⟩ else .error .duplicateKey

/-- One row of an upsert.  The list holds the ids that the statement has already
written. -/
def upsertRecord (newId : List ι → ι) (conflict : OnConflict γ) (state : Table schema × List ι)
    (values : γ → Option ν) : Except DbError (Table schema × List ι) :=
  match state.1.records.find? fun record => agree conflict.target (schema.read record) values with
  | some record =>
      if schema.id record ∈ state.2 then .error .touchedTwice
      else do
        let updated ← schema.build (schema.id record) (overlay conflict.updates values (schema.read record))
        let table ← Table.check (state.1.records.map fun other =>
          if schema.id other = schema.id record then updated else other)
        return (table, schema.id record :: state.2)
  | none => do
      let inserted ← schema.build (newId state.1.ids) values
      let table ← Table.check (state.1.records ++ [inserted])
      return (table, schema.id inserted :: state.2)

def Table.upsert (newId : List ι → ι) (conflict : OnConflict γ) (table : Table schema)
    (rows : List (γ → Option ν)) : Except DbError (Table schema) :=
  (rows.foldlM (upsertRecord newId conflict) (table, [])).map Prod.fst

variable {newId : List ι → ι} {conflict : OnConflict γ} {before middle after : Table schema}
  {values : γ → Option ν} {rows later : List (γ → Option ν)}

/-- One row was written: over the record it conflicts with, or as a new record. -/
inductive Upserted (newId : List ι → ι) (conflict : OnConflict γ) (before : Table schema)
    (values : γ → Option ν) (after : Table schema) : Prop where
  | updated (record updated : ρ) (member : record ∈ before.records)
      (agrees : agree conflict.target (schema.read record) values = true)
      (built : schema.build (schema.id record) (overlay conflict.updates values (schema.read record)) = .ok updated)
      (records : after.records =
        before.records.map fun other => if schema.id other = schema.id record then updated else other)
  | inserted (record : ρ)
      (absent : ∀ other ∈ before.records, ¬ agree conflict.target (schema.read other) values = true)
      (built : schema.build (newId before.ids) values = .ok record)
      (records : after.records = before.records ++ [record])

/-- A record after a row is an old one, or it is built over one or anew. -/
theorem Upserted.record_cases (written : Upserted newId conflict before values after) {record : ρ}
    (member : record ∈ after.records) : record ∈ before.records ∨
      (∃ old ∈ before.records, agree conflict.target (schema.read old) values = true ∧
        schema.build (schema.id old) (overlay conflict.updates values (schema.read old)) = .ok record) ∨
      schema.build (newId before.ids) values = .ok record := by
  cases written with
  | updated old updated inside agrees built records =>
      rw [records] at member
      obtain ⟨other, earlier, rfl⟩ := List.mem_map.mp member
      split
      · exact .inr (.inl ⟨old, inside, agrees, built⟩)
      · exact .inl earlier
  | inserted inserted absent built records =>
      rw [records] at member
      rcases List.mem_append.mp member with old | new
      · exact .inl old
      · exact .inr (.inr (List.mem_singleton.mp new ▸ built))

/-- Rows were written one after the other, by one statement or by several. -/
inductive UpsertedAll (newId : List ι → ι) (conflict : OnConflict γ) :
    Table schema → List (γ → Option ν) → Table schema → Prop where
  | nil {table : Table schema} : UpsertedAll newId conflict table [] table
  | cons {before middle after : Table schema} {values : γ → Option ν} {rows : List (γ → Option ν)}
      (first : Upserted newId conflict before values middle) (rest : UpsertedAll newId conflict middle rows after) :
      UpsertedAll newId conflict before (values :: rows) after

theorem UpsertedAll.append (first : UpsertedAll newId conflict before rows middle)
    (second : UpsertedAll newId conflict middle later after) :
    UpsertedAll newId conflict before (rows ++ later) after := by
  induction first with
  | nil => exact second
  | cons head _ induction => exact .cons head (induction second)

omit [DecidableEq γ] in
theorem Table.check_ok {records : List ρ} {table : Table schema} (checked : Table.check records = .ok table) :
    table.records = records := by
  unfold Table.check at checked
  split at checked
  · cases checked; rfl
  · cases checked

theorem upsertRecord_ok {touched touched' : List ι}
    (written : upsertRecord newId conflict (before, touched) values = .ok (after, touched')) :
    Upserted newId conflict before values after := by
  unfold upsertRecord at written
  split at written
  · rename_i record found
    have agrees := List.find?_some found
    split at written
    · cases written
    · obtain ⟨updated, built, written⟩ := bind_eq_ok.mp written
      obtain ⟨table, checked, same⟩ := bind_eq_ok.mp written
      cases same
      exact .updated record updated (List.mem_of_find?_eq_some found) agrees built (Table.check_ok checked)
  · rename_i absent
    obtain ⟨inserted, built, written⟩ := bind_eq_ok.mp written
    obtain ⟨table, checked, same⟩ := bind_eq_ok.mp written
    cases same
    exact .inserted inserted (List.find?_eq_none.mp absent) built (Table.check_ok checked)

theorem Table.upsert_ok (written : before.upsert newId conflict rows = .ok after) :
    UpsertedAll newId conflict before rows after := by
  suffices general : ∀ (before : Table schema) (touched touched' : List ι),
      rows.foldlM (upsertRecord newId conflict) (before, touched) = .ok (after, touched') →
        UpsertedAll newId conflict before rows after by
    unfold Table.upsert at written
    cases folded : rows.foldlM (upsertRecord newId conflict) (before, []) with
    | error reason => rw [folded] at written; cases written
    | ok final =>
        rw [folded] at written
        cases written
        exact general before [] final.2 folded
  clear written
  induction rows with
  | nil =>
      intro before touched touched' folded
      cases folded
      exact .nil
  | cons values rows induction =>
      intro before touched touched' folded
      rw [List.foldlM_cons] at folded
      obtain ⟨state, first, rest⟩ := bind_eq_ok.mp folded
      exact .cons (upsertRecord_ok first) (induction state.1 state.2 touched' rest)

theorem foldlM_upsert_ok (newId : List ι → ι) (conflict : OnConflict γ) {σ β : Type} {batches : List β}
    {write : σ → β → Except DbError σ} {start final : σ}
    (table : σ → Table schema) (rowsOf : β → List (γ → Option ν))
    (statement : ∀ state batch next, write state batch = .ok next →
      UpsertedAll newId conflict (table state) (rowsOf batch) (table next))
    (written : batches.foldlM write start = .ok final) :
    UpsertedAll newId conflict (table start) (batches.flatMap rowsOf) (table final) := by
  induction batches generalizing start with
  | nil => cases written; exact .nil
  | cons batch batches induction =>
      rw [List.foldlM_cons] at written
      obtain ⟨middle, first, rest⟩ := bind_eq_ok.mp written
      exact (statement start batch middle first).append (induction rest)

/-- A view of the records as entries of a map.  The key is the conflict target,
and what a statement writes determines the entry. -/
structure KeyedView (schema : Schema γ ρ ν ι) (conflict : OnConflict γ) (κ : Type) (π : Type) where
  view : ρ → κ × π
  entryOf : (γ → Option ν) → κ × π
  proper : (γ → Option ν) → Prop  -- the rows that statements on this table carry
  unique : conflict.target ∈ schema.uniques
  agree_of_key : ∀ record other, (view record).1 = (view other).1 →
    agree conflict.target (schema.read record) (schema.read other) = true
  agree_iff : ∀ record values, proper values →
    (agree conflict.target (schema.read record) values = true ↔ (view record).1 = (entryOf values).1)
  view_updated : ∀ record values updated, proper values → (view record).1 = (entryOf values).1 →
    schema.build (schema.id record) (overlay conflict.updates values (schema.read record)) = .ok updated →
    view updated = entryOf values
  view_inserted : ∀ newId values inserted, proper values → schema.build newId values = .ok inserted →
    view inserted = entryOf values

namespace KeyedView

variable (keyed : KeyedView schema conflict κ π)

/-- The unique constraint makes the entries of a table a map. -/
def toMap (table : Table schema) : InsertionMap κ π where
  entries := table.records.map keyed.view
  distinct := by
    rw [List.map_map]
    refine List.pairwise_map.mpr ((table.unique.2 _ keyed.unique).imp ?_)
    intro record other apart same
    exact apart (keyed.agree_of_key record other same)

omit [DecidableEq ι] [DecidableEq κ] in
theorem keys_nodup (table : Table schema) : (table.records.map fun record => (keyed.view record).1).Nodup := by
  have keys := (keyed.toMap table).distinct
  rwa [toMap, List.map_map] at keys

omit [DecidableEq ι] [DecidableEq κ] in
theorem eq_of_key {table : Table schema} {record other : ρ} (member : record ∈ table.records)
    (otherMember : other ∈ table.records) (same : (keyed.view record).1 = (keyed.view other).1) : record = other :=
  List.inj_on_of_nodup_map (keyed.keys_nodup table) member otherMember same

theorem map_replace_eq_setEntry {records : List ρ} {view : ρ → κ × π} {updated : ρ} {key : κ} {payload : π}
    (distinct : (records.map fun record => (view record).1).Nodup) (present : ∃ record ∈ records, (view record).1 = key)
    (written : view updated = (key, payload)) :
    (records.map fun other => if (view other).1 = key then updated else other).map view =
      setEntry key payload (records.map view) := by
  induction records with
  | nil => simp at present
  | cons record records induction =>
      rw [List.map_cons, List.nodup_cons] at distinct
      by_cases same : (view record).1 = key
      · have others : (records.map fun other => if (view other).1 = key then updated else other) = records := by
          refine (List.map_congr_left fun other member => if_neg fun equal => ?_).trans (List.map_id' records)
          exact distinct.1 (same ▸ equal ▸ List.mem_map_of_mem (f := fun record => (view record).1) member)
        simp only [List.map_cons, same, if_true, others, setEntry, written]
      · have later : ∃ record ∈ records, (view record).1 = key := by
          obtain ⟨found, member, equal⟩ := present
          rcases List.mem_cons.mp member with rfl | inside
          · exact absurd equal same
          · exact ⟨found, inside, equal⟩
        simp only [List.map_cons, same, if_false, setEntry, induction distinct.2 later]

/-- Writing a row sets its entry in the map. -/
theorem toMap_upserted (proper : keyed.proper values) (written : Upserted newId conflict before values after) :
    (keyed.toMap after).entries =
      ((keyed.toMap before).set (keyed.entryOf values).1 (keyed.entryOf values).2).entries := by
  cases written with
  | updated record updated member agrees built records =>
      have key := (keyed.agree_iff record values proper).mp agrees
      have byKey : ∀ other ∈ before.records, (if schema.id other = schema.id record then updated else other) =
          if (keyed.view other).1 = (keyed.entryOf values).1 then updated else other := by
        intro other inside
        congr 1
        refine propext ⟨fun same => ?_, fun same => ?_⟩
        · rw [Table.eq_of_id inside member same, key]
        · rw [keyed.eq_of_key inside member (same.trans key.symm)]
      have replaced : after.records = before.records.map fun other =>
          if (keyed.view other).1 = (keyed.entryOf values).1 then updated else other :=
        records.trans (List.map_congr_left byKey)
      change after.records.map keyed.view = setEntry _ _ (before.records.map keyed.view)
      rw [replaced]
      exact map_replace_eq_setEntry (keyed.keys_nodup before) ⟨record, member, key⟩
        (keyed.view_updated record values updated proper key built)
  | inserted record absent built records =>
      have fresh : (keyed.entryOf values).1 ∉ (before.records.map keyed.view).map Prod.fst := by
        rw [List.map_map, List.mem_map]
        intro listed
        obtain ⟨other, member, same⟩ := listed
        exact absent other member ((keyed.agree_iff other values proper).mpr same)
      change after.records.map keyed.view = setEntry _ _ (before.records.map keyed.view)
      rw [InsertionMap.setEntry_of_absent fresh, records, List.map_append, List.map_singleton,
        keyed.view_inserted _ values record proper built]

theorem toMap_upsertedAll (proper : ∀ values ∈ rows, keyed.proper values)
    (written : UpsertedAll newId conflict before rows after) :
    (keyed.toMap after).entries = ((keyed.toMap before).setAll (rows.map keyed.entryOf)).entries := by
  induction written with
  | nil => rfl
  | @cons before middle after values rows first rest induction =>
      have head := keyed.toMap_upserted (proper values (by simp)) first
      have same : keyed.toMap middle = (keyed.toMap before).set (keyed.entryOf values).1 (keyed.entryOf values).2 :=
        InsertionMap.ext head
      rw [induction fun other member => proper other (List.mem_cons_of_mem _ member), same]
      rfl

end KeyedView

end Coverpin.Data
