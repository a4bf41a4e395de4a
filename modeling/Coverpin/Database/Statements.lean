import Coverpin.Database.Schema

namespace Coverpin

open Coverpin.Data Coverpin.Database

/-! # Statements of the program

Upserts into each of the tables, the update of `domestic_entity_id` and the
lookup of entities by name key.
-/

/-- The Postgres protocol counts the bound parameters of a statement in 16 bits. -/
def maxParameters : Nat := 65535

/-- The value a row assigns to a column; the other columns get NULL. -/
def assigned [DecidableEq γ] (row : List (γ × Option SqlValue)) (column : γ) : Option SqlValue :=
  (row.lookup column).join

/-- `INSERT INTO ... (columns) VALUES tuples ON CONFLICT ... DO UPDATE SET ...`. -/
structure Insert (γ : Type) where
  columns : List γ
  tuples : List (List Nat)
  conflict : OnConflict γ

/-- A transaction either commits all of its statements or rolls them back. -/
def transaction (body : Database → Except DbError (Database × α)) (db : Database) : Database × Except DbError α :=
  match body db with
  | .ok (committed, result) => (committed, .ok result)
  | .error reason => (db, .error reason)

theorem transaction_ok {α : Type} {body : Database → Except DbError (Database × α)} {db after : Database} {a : α}
    (committed : transaction body db = (after, .ok a)) : body db = .ok (after, a) := by
  unfold transaction at committed
  split at committed
  · rename_i final value same
    cases committed
    exact same
  · cases committed

namespace Database

variable [Platform]

def upsertEntities (db : Database) (conflict : OnConflict EntityColumn)
    (rows : List (List (EntityColumn × Option SqlValue))) : Except DbError Database := do
  let entities ← db.entities.upsert Platform.newId conflict (rows.map assigned)
  withTables entities db.ownershipEdges db.filings

def upsertOwnershipEdges (db : Database) (conflict : OnConflict EdgeColumn)
    (rows : List (List (EdgeColumn × Option SqlValue))) : Except DbError Database := do
  let ownershipEdges ← db.ownershipEdges.upsert Platform.newId conflict (rows.map assigned)
  withTables db.entities ownershipEdges db.filings

def upsertFilings (db : Database) (conflict : OnConflict FilingColumn)
    (rows : List (List (FilingColumn × Option SqlValue))) : Except DbError Database := do
  let filings ← db.filings.upsert Platform.newId conflict (rows.map assigned)
  withTables db.entities db.ownershipEdges filings

omit [Platform]

inductive DomesticColumn where
  | key
  | domesticId
deriving DecidableEq, Repr

/-- `SET domestic_entity_id = v.domestic_id` on the row of `v` that the join
finds for a record. -/
def setDomestic (values : List (List (DomesticColumn × Option SqlValue))) (record : EntityRecord) :
    Except DbError EntityRecord :=
  match values.find? fun v => assigned v .key == some (.text record.entityNameKey) with
  | none => .ok record
  | some v => do
      let domesticEntityId ← optional (assigned v .domesticId) SqlValue.uuid?
      return { record with domesticEntityId }

/-- `UPDATE entities AS e SET domestic_entity_id = v.domestic_id FROM (VALUES ...)
AS v(key, domestic_id) WHERE e.entity_name_key = v.key`. -/
def updateDomesticEntities (db : Database) (tuples : List (List Nat)) (params : List (Option SqlValue)) :
    Except DbError Database := do
  let values ← bindTuples [DomesticColumn.key, .domesticId] tuples params
  let records ← db.entities.records.mapM (setDomestic values)
  let entities ← Table.check records
  withTables entities db.ownershipEdges db.filings

/-- `SELECT ... FROM entities WHERE entity_name_key = ANY(names)`. -/
def entitiesByKey (db : Database) (names : List String) : List EntityRecord :=
  db.entities.records.filter fun record => names.contains record.entityNameKey

variable [Platform] {before after : Database}

theorem upsertEntities_ok {conflict : OnConflict EntityColumn} {rows : List (List (EntityColumn × Option SqlValue))}
    (written : before.upsertEntities conflict rows = .ok after) :
    UpsertedAll Platform.newId conflict before.entities (rows.map assigned) after.entities ∧
    after.ownershipEdges = before.ownershipEdges := by
  obtain ⟨entities, upserted, built⟩ := bind_eq_ok.mp written
  obtain ⟨rfl, edges, _⟩ := withTables_ok built
  exact ⟨Table.upsert_ok upserted, edges⟩

theorem upsertOwnershipEdges_ok {conflict : OnConflict EdgeColumn} {rows : List (List (EdgeColumn × Option SqlValue))}
    (written : before.upsertOwnershipEdges conflict rows = .ok after) :
    UpsertedAll Platform.newId conflict before.ownershipEdges (rows.map assigned) after.ownershipEdges ∧
    after.entities = before.entities := by
  obtain ⟨edges, upserted, built⟩ := bind_eq_ok.mp written
  obtain ⟨entities, rfl, _⟩ := withTables_ok built
  exact ⟨Table.upsert_ok upserted, entities⟩

theorem upsertFilings_ok {conflict : OnConflict FilingColumn} {rows : List (List (FilingColumn × Option SqlValue))}
    (written : before.upsertFilings conflict rows = .ok after) :
    after.entities = before.entities ∧ after.ownershipEdges = before.ownershipEdges := by
  obtain ⟨filings, _, built⟩ := bind_eq_ok.mp written
  obtain ⟨entities, edges, _⟩ := withTables_ok built
  exact ⟨entities, edges⟩

end Database

end Coverpin
