import Coverpin.Data.Placeholder
import Coverpin.Validation.EntitiesValidator
import Coverpin.Validation.FilingsValidator
import Coverpin.Validation.OwnershipValidator

namespace Coverpin.Database

open Coverpin.Data Coverpin.Validation

/-! # The three tables

Columns, NOT NULL and CHECK constraints are those of the migrations.  Columns
with timestamps are left out.  A query without ORDER BY returns rows in the
order of the table; nothing below depends on that order.
-/

/-- A text column with `CHECK (column IN (...))`. -/
abbrev OneOf (allowed : List String) : Type := { text : String // text ∈ allowed }

/-- The text of a `date` column, written and read as YYYY-MM-DD. -/
abbrev DateText : Type := { text : String // (parseDate text).map toDateOnlyString = some text }

inductive RegistrationType where
  | entity
  | fq
deriving DecidableEq, Repr

def RegistrationType.text : RegistrationType → String
  | .entity => "Entity"
  | .fq => "FQ"

/-- A value a statement writes; NULL is `none`, dates are texts as
`toDateOnlyString` makes them. -/
inductive SqlValue where
  | text (value : String)
  | uuid (id : EntityId)
deriving DecidableEq, Repr

namespace SqlValue

def text? : SqlValue → Option String
  | text value => some value
  | uuid _ => none

def uuid? : SqlValue → Option EntityId
  | text _ => none
  | uuid id => some id

/-- A `numeric(5,2)` column, in hundredths. -/
def numeric? : SqlValue → Option Nat
  | text value => Ownership.parsePct value
  | uuid _ => none

def oneOf? (allowed : List String) : SqlValue → Option (OneOf allowed)
  | text value => if member : value ∈ allowed then some ⟨value, member⟩ else none
  | uuid _ => none

def date? : SqlValue → Option DateText
  | text value => if valid : (parseDate value).map toDateOnlyString = some value then some ⟨value, valid⟩ else none
  | uuid _ => none

def registrationType? : SqlValue → Option RegistrationType
  | text "Entity" => some .entity
  | text "FQ" => some .fq
  | _ => none

end SqlValue

/-- A NOT NULL column. -/
def required (value : Option SqlValue) (decode : SqlValue → Option α) : Except DbError α :=
  match value.bind decode with
  | some decoded => .ok decoded
  | none => .error .invalidValue

def optional (value : Option SqlValue) (decode : SqlValue → Option α) : Except DbError (Option α) :=
  match value with
  | none => .ok none
  | some value => (required (some value) decode).map some

theorem required_ok {value : Option SqlValue} {decode : SqlValue → Option α} {decoded : α} :
    required value decode = .ok decoded ↔ value.bind decode = some decoded := by
  unfold required
  cases value.bind decode <;> simp

theorem optional_uuid (id : Option EntityId) : optional (id.map .uuid) SqlValue.uuid? = .ok id := by
  cases id <;> rfl

inductive EntityColumn where
  | entityName
  | entityNameKey
  | registrationType
  | jurisdiction
  | entityType
  | entityStatus
  | statusDate
  | domesticEntityId
  | formationDate
  | businessId
  | globalRegion
deriving DecidableEq, Repr

structure EntityRecord where
  id : EntityId
  entityName : String
  entityNameKey : String
  registrationType : RegistrationType
  jurisdiction : String
  entityType : OneOf Entities.ENTITY_TYPES
  entityStatus : OneOf Entities.ENTITY_STATUSES
  statusDate : Option DateText
  domesticEntityId : Option EntityId
  formationDate : Option DateText
  businessId : Option String
  globalRegion : Option (OneOf Entities.GLOBAL_REGIONS)
deriving DecidableEq, Repr

def EntityRecord.read (record : EntityRecord) : EntityColumn → Option SqlValue
  | .entityName => some (.text record.entityName)
  | .entityNameKey => some (.text record.entityNameKey)
  | .registrationType => some (.text record.registrationType.text)
  | .jurisdiction => some (.text record.jurisdiction)
  | .entityType => some (.text record.entityType)
  | .entityStatus => some (.text record.entityStatus)
  | .statusDate => record.statusDate.map fun date => .text date
  | .domesticEntityId => record.domesticEntityId.map .uuid
  | .formationDate => record.formationDate.map fun date => .text date
  | .businessId => record.businessId.map .text
  | .globalRegion => record.globalRegion.map fun region => .text region

def EntityRecord.build (id : EntityId) (values : EntityColumn → Option SqlValue) : Except DbError EntityRecord := do
  return {
    id
    entityName := ← required (values .entityName) SqlValue.text?
    entityNameKey := ← required (values .entityNameKey) SqlValue.text?
    registrationType := ← required (values .registrationType) SqlValue.registrationType?
    jurisdiction := ← required (values .jurisdiction) SqlValue.text?
    entityType := ← required (values .entityType) (SqlValue.oneOf? _)
    entityStatus := ← required (values .entityStatus) (SqlValue.oneOf? _)
    statusDate := ← optional (values .statusDate) SqlValue.date?
    domesticEntityId := ← optional (values .domesticEntityId) SqlValue.uuid?
    formationDate := ← optional (values .formationDate) SqlValue.date?
    businessId := ← optional (values .businessId) SqlValue.text?
    globalRegion := ← optional (values .globalRegion) (SqlValue.oneOf? _) }

theorem EntityRecord.build_ok {id : EntityId} {values : EntityColumn → Option SqlValue} {record : EntityRecord}
    (built : EntityRecord.build id values = .ok record) :
    record.id = id ∧ required (values .entityName) SqlValue.text? = .ok record.entityName ∧
    required (values .entityNameKey) SqlValue.text? = .ok record.entityNameKey ∧
    required (values .registrationType) SqlValue.registrationType? = .ok record.registrationType ∧
    optional (values .domesticEntityId) SqlValue.uuid? = .ok record.domesticEntityId := by
  obtain ⟨entityName, name, built⟩ := bind_eq_ok.mp built
  obtain ⟨entityNameKey, key, built⟩ := bind_eq_ok.mp built
  obtain ⟨registrationType, type, built⟩ := bind_eq_ok.mp built
  obtain ⟨jurisdiction, _, built⟩ := bind_eq_ok.mp built
  obtain ⟨entityType, _, built⟩ := bind_eq_ok.mp built
  obtain ⟨entityStatus, _, built⟩ := bind_eq_ok.mp built
  obtain ⟨statusDate, _, built⟩ := bind_eq_ok.mp built
  obtain ⟨domesticEntityId, domestic, built⟩ := bind_eq_ok.mp built
  obtain ⟨formationDate, _, built⟩ := bind_eq_ok.mp built
  obtain ⟨businessId, _, built⟩ := bind_eq_ok.mp built
  obtain ⟨globalRegion, _, built⟩ := bind_eq_ok.mp built
  cases built
  exact ⟨rfl, name, key, type, domestic⟩

def entitySchema : Schema EntityColumn EntityRecord SqlValue EntityId where
  id := EntityRecord.id
  read := EntityRecord.read
  build := EntityRecord.build
  uniques := [[.entityName], [.entityNameKey], [.businessId]]
  id_build built := (EntityRecord.build_ok built).1

inductive EdgeColumn where
  | parentEntityId
  | childEntityId
  | ownershipPct
deriving DecidableEq, Repr

/-- The percentage is held in hundredths. -/
structure OwnershipEdge where
  id : EntityId
  parentEntityId : EntityId
  childEntityId : EntityId
  ownershipPct : Nat
deriving DecidableEq, Repr

def OwnershipEdge.read (edge : OwnershipEdge) : EdgeColumn → Option SqlValue
  | .parentEntityId => some (.uuid edge.parentEntityId)
  | .childEntityId => some (.uuid edge.childEntityId)
  | .ownershipPct => some (.text (Ownership.toFixed2 edge.ownershipPct))

def OwnershipEdge.build (id : EntityId) (values : EdgeColumn → Option SqlValue) : Except DbError OwnershipEdge := do
  let edge : OwnershipEdge := {
    id
    parentEntityId := ← required (values .parentEntityId) SqlValue.uuid?
    childEntityId := ← required (values .childEntityId) SqlValue.uuid?
    ownershipPct := ← required (values .ownershipPct) SqlValue.numeric? }
  if 0 < edge.ownershipPct ∧ edge.ownershipPct ≤ 100 * 100 ∧ edge.parentEntityId ≠ edge.childEntityId then
    return edge
  else throw .invalidValue

theorem OwnershipEdge.build_ok {id : EntityId} {values : EdgeColumn → Option SqlValue} {edge : OwnershipEdge}
    (built : OwnershipEdge.build id values = .ok edge) :
    edge.id = id ∧ required (values .parentEntityId) SqlValue.uuid? = .ok edge.parentEntityId ∧
    required (values .childEntityId) SqlValue.uuid? = .ok edge.childEntityId ∧
    required (values .ownershipPct) SqlValue.numeric? = .ok edge.ownershipPct ∧
    edge.parentEntityId ≠ edge.childEntityId := by
  obtain ⟨parentEntityId, parent, built⟩ := bind_eq_ok.mp built
  obtain ⟨childEntityId, child, built⟩ := bind_eq_ok.mp built
  obtain ⟨ownershipPct, pct, built⟩ := bind_eq_ok.mp built
  simp only at built
  split at built
  · rename_i checks
    cases built
    exact ⟨rfl, parent, child, pct, checks.2.2⟩
  · cases built

def edgeSchema : Schema EdgeColumn OwnershipEdge SqlValue EntityId where
  id := OwnershipEdge.id
  read := OwnershipEdge.read
  build := OwnershipEdge.build
  uniques := [[.parentEntityId, .childEntityId]]
  id_build built := (OwnershipEdge.build_ok built).1

inductive FilingColumn where
  | entityId
  | filingType
  | jurisdiction
  | filingAuthority
  | dueDate
  | filedDate
  | status
deriving DecidableEq, Repr

structure Filing where
  id : EntityId
  entityId : EntityId
  filingType : OneOf Filings.FILING_TYPES
  jurisdiction : String
  filingAuthority : Option String
  dueDate : DateText
  filedDate : Option DateText
  status : OneOf Filings.FILING_STATUSES
deriving DecidableEq, Repr

def Filing.read (filing : Filing) : FilingColumn → Option SqlValue
  | .entityId => some (.uuid filing.entityId)
  | .filingType => some (.text filing.filingType)
  | .jurisdiction => some (.text filing.jurisdiction)
  | .filingAuthority => filing.filingAuthority.map .text
  | .dueDate => some (.text filing.dueDate)
  | .filedDate => filing.filedDate.map fun date => .text date
  | .status => some (.text filing.status)

def Filing.build (id : EntityId) (values : FilingColumn → Option SqlValue) : Except DbError Filing := do
  return {
    id
    entityId := ← required (values .entityId) SqlValue.uuid?
    filingType := ← required (values .filingType) (SqlValue.oneOf? _)
    jurisdiction := ← required (values .jurisdiction) SqlValue.text?
    filingAuthority := ← optional (values .filingAuthority) SqlValue.text?
    dueDate := ← required (values .dueDate) SqlValue.date?
    filedDate := ← optional (values .filedDate) SqlValue.date?
    status := ← required (values .status) (SqlValue.oneOf? _) }

theorem Filing.build_ok {id : EntityId} {values : FilingColumn → Option SqlValue} {filing : Filing}
    (built : Filing.build id values = .ok filing) : filing.id = id := by
  obtain ⟨entityId, _, built⟩ := bind_eq_ok.mp built
  obtain ⟨filingType, _, built⟩ := bind_eq_ok.mp built
  obtain ⟨jurisdiction, _, built⟩ := bind_eq_ok.mp built
  obtain ⟨filingAuthority, _, built⟩ := bind_eq_ok.mp built
  obtain ⟨dueDate, _, built⟩ := bind_eq_ok.mp built
  obtain ⟨filedDate, _, built⟩ := bind_eq_ok.mp built
  obtain ⟨status, _, built⟩ := bind_eq_ok.mp built
  cases built
  rfl

def filingSchema : Schema FilingColumn Filing SqlValue EntityId where
  id := Filing.id
  read := Filing.read
  build := Filing.build
  uniques := [[.entityId, .filingType, .dueDate]]
  id_build := Filing.build_ok

structure References (entities : Table entitySchema) (ownershipEdges : Table edgeSchema)
    (filings : Table filingSchema) : Prop where
  domestic : ∀ record ∈ entities.records, ∀ id ∈ record.domesticEntityId, id ∈ entities.ids
  edges : ∀ edge ∈ ownershipEdges.records, edge.parentEntityId ∈ entities.ids ∧ edge.childEntityId ∈ entities.ids
  filings : ∀ filing ∈ filings.records, filing.entityId ∈ entities.ids

instance (entities : Table entitySchema) (ownershipEdges : Table edgeSchema) (filings : Table filingSchema) :
    Decidable (References entities ownershipEdges filings) :=
  decidable_of_iff
    ((∀ record ∈ entities.records, ∀ id ∈ record.domesticEntityId, id ∈ entities.ids) ∧
      (∀ edge ∈ ownershipEdges.records, edge.parentEntityId ∈ entities.ids ∧ edge.childEntityId ∈ entities.ids) ∧
      ∀ filing ∈ filings.records, filing.entityId ∈ entities.ids)
    ⟨fun ⟨domestic, edges, filings⟩ => ⟨domestic, edges, filings⟩,
      fun ⟨domestic, edges, filings⟩ => ⟨domestic, edges, filings⟩⟩

end Coverpin.Database

namespace Coverpin

open Coverpin.Data Coverpin.Database

/-- The contents of the three tables, with all their constraints. -/
structure Database where
  entities : Table entitySchema
  ownershipEdges : Table edgeSchema
  filings : Table filingSchema
  references : References entities ownershipEdges filings

namespace Database

def initial : Database where
  entities := .empty
  ownershipEdges := .empty
  filings := .empty
  references := ⟨List.forall_mem_nil _, List.forall_mem_nil _, List.forall_mem_nil _⟩

/-- Foreign keys are checked at the end of a statement. -/
def withTables (entities : Table entitySchema) (ownershipEdges : Table edgeSchema) (filings : Table filingSchema) :
    Except DbError Database :=
  if references : References entities ownershipEdges filings then
    .ok { entities, ownershipEdges, filings, references }
  else .error .missingReference

theorem withTables_ok {entities : Table entitySchema} {ownershipEdges : Table edgeSchema}
    {filings : Table filingSchema} {db : Database} (built : withTables entities ownershipEdges filings = .ok db) :
    db.entities = entities ∧ db.ownershipEdges = ownershipEdges ∧ db.filings = filings := by
  unfold withTables at built
  split at built
  · cases built; exact ⟨rfl, rfl, rfl⟩
  · cases built

end Database

end Coverpin
