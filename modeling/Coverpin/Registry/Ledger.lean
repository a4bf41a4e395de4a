import Coverpin.Registry.Charts
import Coverpin.Server.LastCommit

namespace Coverpin.Registry

open Coverpin.Data Coverpin.Database Coverpin.Server Coverpin.Upload Coverpin.Validation Relation

/-! # The registry as a ledger

To its users the registry is what the committed uploads have said, each entry by its
names and the last one standing.  Tables, ids and the trees of a page are means to
that end: what the pages show can be computed from the log of the commits alone.
-/

structure Ledger where
  entities : InsertionMap String (EntityValues × Option String)
  edges : InsertionMap (String × String) Nat
  filings : InsertionMap (String × String × String) FilingValues

structure NamedFields where
  entityName : String
  jurisdiction : String
  entityType : String
  entityStatus : String
  complianceStatus : ComplianceStatus
  nextDueDate : Option String
deriving DecidableEq, Repr

def ShownFields.named (fields : ShownFields) : NamedFields :=
  ⟨fields.entityName, fields.jurisdiction, fields.entityType, fields.entityStatus, fields.complianceStatus,
    fields.nextDueDate⟩

namespace Ledger

/-- The filings under one name. -/
def filingsOf (ledger : Ledger) (name : String) : List FilingForDueDate :=
  (ledger.filings.entries.filter (·.1.1 = name)).filterMap fun entry =>
    (parseDate entry.1.2.2).map fun dueDate => { dueDate, status := entry.2.status }

def dueDate (ledger : Ledger) (name : String) : Option Date :=
  computeNextDueDate (ledger.filingsOf name)

variable [Platform]

/-- One batch after the other, a later entry overwrites an earlier one with its names. -/
def ofLog (log : List UploadBatchRows) : Ledger where
  entities := .ofPairs (log.flatMap UploadBatchRows.entityEntries)
  edges := .ofPairs (log.flatMap UploadBatchRows.edgeEntries)
  filings := .ofPairs (log.flatMap UploadBatchRows.filingEntries)

/-- What there is to show under a name. -/
def fields (ledger : Ledger) (today : Date) (name : String) : Option NamedFields :=
  (ledger.entities.get? name).map fun (values, _) =>
    { entityName := values.entityName
      jurisdiction := values.jurisdiction
      entityType := values.entityType
      entityStatus := values.entityStatus
      complianceStatus := computeComplianceStatus values.entityStatus (ledger.dueDate name) today
      nextDueDate := (ledger.dueDate name).map toDateOnlyString }

end Ledger

variable [Platform] {db : Database} {ledger : Ledger} {today : Date}

/-- The tables of a state, read by names. -/
structure LedgerOf (ledger : Ledger) (db : Database) : Prop where
  normalized : NamesNormalized db
  entities : ∀ key, (entitiesByName db).get? key = ledger.entities.get? key
  edges : edgesByName db = ledger.edges
  filings : filingsByName db = ledger.filings

theorem ledgerOf_log {limits : Limits} {trace : List (State × Action)} {state : State}
    (run : Run (step limits) State.initial trace state) : LedgerOf (.ofLog (committedLog limits trace)) state.shared.db where
  normalized := (logged run).normalized
  entities := (logged run).replays.entities
  edges := (logged run).replays.edges
  filings := (logged run).replays.filings

namespace LedgerOf

variable (holds : LedgerOf ledger db)
include holds

theorem entity_iff {name : String} {view : EntityValues × Option String} : ledger.entities.get? name = some view ↔
    ∃ record ∈ db.entities.records,
      record.entityNameKey = name ∧ (storedEntityValues record, domesticName db record) = view := by
  rw [← holds.entities, get?_entitiesByName]

theorem edge_iff {ends : String × String} {pct : Nat} : ledger.edges.get? ends = some pct ↔
    ∃ edge ∈ db.ownershipEdges.records,
      edgeNames db (edge.parentEntityId, edge.childEntityId) = ends ∧ edge.ownershipPct = pct := by
  rw [← holds.edges, InsertionMap.get?_eq_some, edgesByName,
    InsertionMap.rename_entries (edgeNames_injective holds.normalized), List.mem_map]
  · constructor
    · intro listed
      obtain ⟨entry, member, same⟩ := listed
      obtain ⟨edge, stored, rfl⟩ := mem_edgeMap member
      obtain ⟨ends, pct⟩ := Prod.mk.inj same
      exact ⟨edge, stored, ends, pct⟩
    · intro stored
      obtain ⟨edge, member, rfl, rfl⟩ := stored
      exact ⟨_, List.mem_map_of_mem member, rfl⟩
  · intro ends member
    obtain ⟨_, _, _, parent, child⟩ := edgeMap_known member
    exact ⟨parent, child⟩

theorem filing_entries : ledger.filings.entries = db.filings.records.map fun filing =>
    (filingNames db (storedFilingKey filing), storedFilingValues filing) := by
  rw [← holds.filings, filingsByName, InsertionMap.rename_entries (filingNames_injective holds.normalized)
    fun key known => filingMap_known known]
  have view : ∀ filing : Filing, filingKeyed.view filing = (storedFilingKey filing, storedFilingValues filing) :=
    filingEntry_read
  simp only [filingMap, KeyedView.toMap, List.map_map, Function.comp_def, view]

theorem name_iff {id : EntityId} (known : id ∈ db.entities.ids) {record : EntityRecord}
    (member : record ∈ db.entities.records) :
    normalizeName (nameOf db id) = record.entityNameKey ↔ id = record.id := by
  rw [← normalizeName_nameOf holds.normalized member]
  constructor
  · exact id_of_name holds.normalized known (List.mem_map_of_mem member)
  · exact congrArg fun id => normalizeName (nameOf db id)

/-- The filings under a name are those of its record. -/
theorem filingsOf_eq {record : EntityRecord} (member : record ∈ db.entities.records) :
    ledger.filingsOf record.entityNameKey = (db.filings.records.filter (·.entityId = record.id)).map Filing.forDueDate := by
  have own : db.filings.records.filter (fun filing => normalizeName (nameOf db filing.entityId) = record.entityNameKey) =
      db.filings.records.filter (·.entityId = record.id) :=
    List.filter_congr fun filing stored => decide_eq_decide.mpr (holds.name_iff (db.references.filings filing stored) member)
  rw [Ledger.filingsOf, holds.filing_entries, ← own, List.filter_map, List.filterMap_map, ← List.filterMap_eq_map]
  refine List.filterMap_congr fun filing _ => ?_
  have parsed : parseDate filing.dueDate.val = some (midnight filing.dueDate) := (Option.some_get _).symm
  simp only [Function.comp_apply, filingNames, storedFilingKey, parsed, Option.map_some]
  rfl

theorem dueDate_eq {record : EntityRecord} (member : record ∈ db.entities.records) :
    ledger.dueDate record.entityNameKey = ownNextDueDate db record.id :=
  congrArg computeNextDueDate (holds.filingsOf_eq member)

/-- The ledger has exactly the fields of the records. -/
theorem fields_iff {name : String} {named : NamedFields} : ledger.fields today name = some named ↔
    ∃ record ∈ db.entities.records, record.entityNameKey = name ∧ (recordFields db today record).named = named := by
  rw [Ledger.fields, Option.map_eq_some_iff]
  constructor
  · intro listed
    obtain ⟨⟨values, domestic⟩, found, rfl⟩ := listed
    obtain ⟨record, member, rfl, same⟩ := holds.entity_iff.mp found
    cases same
    refine ⟨record, member, rfl, ?_⟩
    rw [holds.dueDate_eq member]
    rfl
  · intro stored
    obtain ⟨record, member, rfl, rfl⟩ := stored
    refine ⟨_, holds.entity_iff.mpr ⟨record, member, rfl, rfl⟩, ?_⟩
    rw [holds.dueDate_eq member]
    rfl

end LedgerOf

omit [Platform] in
/-- A node that lists children, with its name. -/
inductive NamedNode (page : EntitiesPage) : String → List ListChild → Prop where
  | topLevel {row : ListRow} (member : row ∈ page.data) : NamedNode page row.entityName row.children
  | subsidiary {row : ListRow} {child : ListChild} (member : row ∈ page.data) (below : Below row.children child)
      (relation : child.relation = .subsidiary) : NamedNode page child.entityName child.children

namespace Ledger

def isTopLevel (ledger : Ledger) (name : String) : Prop :=
  (∃ values domestic, ledger.entities.get? name = some (values, domestic) ∧ values.registrationType = "Entity") ∧
    ∀ owner, ledger.edges.get? (owner, name) = none

/-- The pages show the ledger: every name with its fields, the names that nobody owns
on the top level, and below each node what it owns and its FQs. -/
structure ShownBy (ledger : Ledger) (today : Date) (pages : Nat → EntitiesPage) : Prop where
  fields : ∀ named, (∃ fields, ShownOnPages pages fields ∧ fields.named = named) ↔
    ∃ name, ledger.fields today name = some named
  topLevel : ∀ name, (∃ number, 1 ≤ number ∧ number ≤ (pages number).pagination.totalPages ∧
    ∃ row ∈ (pages number).data, normalizeName row.entityName = name) ↔ ledger.isTopLevel name
  subsidiaries : ∀ number name children, NamedNode (pages number) name children → ∀ child pct,
    (∃ node ∈ children, node.relation = .subsidiary ∧ normalizeName node.entityName = child ∧
      node.ownershipPct = some pct) ↔ ledger.edges.get? (normalizeName name, child) = some pct
  fqs : ∀ number name children, NamedNode (pages number) name children → ∀ fq,
    (∃ node ∈ children, node.relation = .fq ∧ normalizeName node.entityName = fq) ↔
      ∃ values, ledger.entities.get? fq = some (values, some (normalizeName name))

end Ledger

namespace LedgerOf

variable (holds : LedgerOf ledger db)
include holds

theorem topLevel_iff {record : EntityRecord} (member : record ∈ db.entities.records) :
    ledger.isTopLevel record.entityNameKey ↔ TopLevel db record.id := by
  have entity : (∃ values domestic, ledger.entities.get? record.entityNameKey = some (values, domestic) ∧
      values.registrationType = "Entity") ↔
        ∃ other ∈ db.entities.records, other.id = record.id ∧ other.registrationType = .entity := by
    constructor
    · intro listed
      obtain ⟨values, domestic, found, type⟩ := listed
      obtain ⟨other, stored, key, same⟩ := holds.entity_iff.mp found
      cases same
      refine ⟨other, stored, congrArg EntityRecord.id (eq_of_entityKey stored member key), ?_⟩
      cases registered : other.registrationType with
      | entity => rfl
      | fq =>
          rw [storedEntityValues, registered] at type
          change RegistrationType.fq.text = "Entity" at type
          exact absurd type (by decide)
    · intro stored
      obtain ⟨other, stored, same, type⟩ := stored
      refine ⟨_, _, holds.entity_iff.mpr ⟨other, stored, ?_, rfl⟩, congrArg RegistrationType.text type⟩
      rw [Table.eq_of_id stored member same]
  have unowned : (∀ owner, ledger.edges.get? (owner, record.entityNameKey) = none) ↔ ∀ owner, ¬ db.Owns owner record.id := by
    constructor
    · intro none owner owns
      obtain ⟨edge, stored, _, child⟩ := owns
      have name := (holds.name_iff (db.references.edges edge stored).2 member).mpr child
      have found := holds.edge_iff.mpr ⟨edge, stored, rfl, rfl⟩
      rw [edgeNames, name, none] at found
      cases found
    · intro unowned owner
      refine Option.eq_none_iff_forall_ne_some.mpr fun pct found => ?_
      obtain ⟨edge, stored, ends, _⟩ := holds.edge_iff.mp found
      have child := (holds.name_iff (db.references.edges edge stored).2 member).mp (congrArg Prod.snd ends)
      exact unowned edge.parentEntityId ⟨edge, stored, rfl, child⟩
  rw [Ledger.isTopLevel, entity, unowned, TopLevel]

end LedgerOf

section Nodes

variable {record : EntityRecord} {children : List ListChild}

omit [Platform] in
/-- The children of a record are the links from there, each with the name of its end. -/
structure Lists (db : Database) (record : EntityRecord) (children : List ListChild) : Prop where
  links : ∀ link : ChildLink, link.parentId = record.id →
    ((∃ child ∈ children, child.link record.id = link) ↔ link ∈ db.childLinks)
  records : ∀ child ∈ children, ∃ other ∈ db.entities.records, child.id = other.id ∧ child.entityName = other.entityName

theorem namedNode_lists {listed : Database} (same : SameRows db listed) {rounds : Nat} {query : EntitiesQuery}
    {page : EntitiesPage} (returned : getEntitiesList listed today rounds query = some page) {name : String}
    (node : NamedNode page name children) :
    ∃ record ∈ db.entities.records, name = record.entityName ∧ Lists db record children := by
  have shown : ∃ record ∈ listed.entities.records, name = record.entityName ∧
      ∃ node, Displayed page node ∧ node.id = record.id ∧ node.children = children := by
    cases node with
    | topLevel member =>
        obtain ⟨record, stored, _, _, fields⟩ := row_shows returned member
        exact ⟨record, stored, congrArg ShownFields.entityName fields, _, .topLevel member, congrArg ShownFields.id fields, rfl⟩
    | subsidiary member below relation =>
        obtain ⟨record, stored, fields⟩ := below_shows returned member below
        obtain ⟨parent, displayed, inside⟩ := below_displayed returned member below
        exact ⟨record, stored, congrArg ShownFields.entityName fields, _, .subsidiary displayed inside relation,
          congrArg ShownFields.id fields, rfl⟩
  obtain ⟨record, stored, named, node, displayed, id, rfl⟩ := shown
  obtain ⟨links, records⟩ := node_shows returned displayed
  refine ⟨record, same.entities.mem_iff.mp stored, named, fun link parent => ?_, fun child member => ?_⟩
  · rw [← childLinks_listed same, ← links link (parent.trans id.symm), id]
  · obtain ⟨other, otherStored, fields, _⟩ := records child member
    exact ⟨other, same.entities.mem_iff.mp otherStored, congrArg ShownFields.id fields,
      congrArg ShownFields.entityName fields⟩

theorem Lists.child_iff (lists : Lists db record children) (normalized : NamesNormalized db) {relation : LinkRelation}
    {key : String} {pct : Option Nat} :
    (∃ child ∈ children, child.relation = relation ∧ normalizeName child.entityName = key ∧ child.ownershipPct = pct) ↔
      ∃ other ∈ db.entities.records, other.entityNameKey = key ∧ ⟨record.id, other.id, pct, relation⟩ ∈ db.childLinks := by
  constructor
  · intro shown
    obtain ⟨child, member, rfl, rfl, rfl⟩ := shown
    obtain ⟨other, stored, id, name⟩ := lists.records child member
    refine ⟨other, stored, by rw [normalized other stored, name], ?_⟩
    exact id ▸ (lists.links (child.link record.id) rfl).mp ⟨child, member, rfl⟩
  · intro linked
    obtain ⟨other, stored, rfl, linked⟩ := linked
    obtain ⟨child, member, link⟩ := (lists.links _ rfl).mpr linked
    obtain ⟨shown, shownStored, id, name⟩ := lists.records child member
    have same : shown = other := Table.eq_of_id shownStored stored (id.symm.trans (congrArg ChildLink.childId link))
    refine ⟨child, member, congrArg ChildLink.relation link, ?_, congrArg ChildLink.ownershipPct link⟩
    rw [name, same, normalized other stored]

omit [Platform] in
theorem mem_childLinks_subsidiary {parentId childId : EntityId} {pct : Option Nat} :
    ⟨parentId, childId, pct, .subsidiary⟩ ∈ db.childLinks ↔ ∃ edge ∈ db.ownershipEdges.records,
      edge.parentEntityId = parentId ∧ edge.childEntityId = childId ∧ some edge.ownershipPct = pct := by
  rw [childLinks, List.mem_append, List.mem_map, List.mem_filterMap]
  constructor
  · intro linked
    rcases linked with ⟨edge, stored, link⟩ | ⟨record, _, found⟩
    · cases link
      exact ⟨edge, stored, rfl, rfl, rfl⟩
    · cases (EntityRecord.link?_eq_some.mp found).2.2.2.2
  · intro owned
    obtain ⟨edge, stored, rfl, rfl, rfl⟩ := owned
    exact .inl ⟨edge, stored, rfl⟩

omit [Platform] in
theorem mem_childLinks_fq {parentId childId : EntityId} {pct : Option Nat} :
    ⟨parentId, childId, pct, .fq⟩ ∈ db.childLinks ↔ pct = none ∧ ∃ record ∈ db.entities.records,
      record.registrationType = .fq ∧ record.domesticEntityId = some parentId ∧ record.id = childId := by
  rw [childLinks, List.mem_append, List.mem_map, List.mem_filterMap]
  constructor
  · intro linked
    rcases linked with ⟨_, _, link⟩ | ⟨record, stored, found⟩
    · cases link
    · obtain ⟨type, domestic, id, pct, _⟩ := EntityRecord.link?_eq_some.mp found
      exact ⟨pct, record, stored, type, domestic, id⟩
  · intro linked
    obtain ⟨rfl, record, stored, type, domestic, rfl⟩ := linked
    exact .inr ⟨record, stored, EntityRecord.link?_eq_some.mpr ⟨type, domestic, rfl, rfl, rfl⟩⟩

end Nodes

namespace LedgerOf

variable (holds : LedgerOf ledger db) {record : EntityRecord} {children : List ListChild}
  (member : record ∈ db.entities.records) (lists : Lists db record children)
include holds member lists

theorem subsidiaries (key : String) (pct : Nat) :
    (∃ child ∈ children, child.relation = .subsidiary ∧ normalizeName child.entityName = key ∧
      child.ownershipPct = some pct) ↔ ledger.edges.get? (record.entityNameKey, key) = some pct := by
  rw [lists.child_iff holds.normalized, holds.edge_iff]
  simp only [mem_childLinks_subsidiary, Option.some.injEq, edgeNames, Prod.mk.injEq]
  constructor
  · intro linked
    obtain ⟨other, stored, rfl, edge, inside, parent, child, pct⟩ := linked
    exact ⟨edge, inside, ⟨(holds.name_iff (db.references.edges edge inside).1 member).mpr parent,
      (holds.name_iff (db.references.edges edge inside).2 stored).mpr child⟩, pct⟩
  · intro owned
    obtain ⟨edge, inside, ⟨parent, child⟩, pct⟩ := owned
    obtain ⟨other, stored, id⟩ := List.mem_map.mp (db.references.edges edge inside).2
    refine ⟨other, stored, ?_, edge, inside, (holds.name_iff (db.references.edges edge inside).1 member).mp parent,
      id.symm, pct⟩
    exact ((holds.name_iff (db.references.edges edge inside).2 stored).mpr id.symm).symm.trans child

theorem fqs (key : String) :
    (∃ child ∈ children, child.relation = .fq ∧ normalizeName child.entityName = key) ↔
      ∃ values, ledger.entities.get? key = some (values, some record.entityNameKey) := by
  have anyPct : (∃ child ∈ children, child.relation = .fq ∧ normalizeName child.entityName = key) ↔
      ∃ pct, ∃ child ∈ children, child.relation = .fq ∧ normalizeName child.entityName = key ∧ child.ownershipPct = pct := by
    constructor
    · intro shown
      obtain ⟨child, inside, relation, name⟩ := shown
      exact ⟨_, child, inside, relation, name, rfl⟩
    · intro shown
      obtain ⟨_, child, inside, relation, name, _⟩ := shown
      exact ⟨child, inside, relation, name⟩
  simp only [anyPct, lists.child_iff holds.normalized, mem_childLinks_fq, holds.entity_iff]
  constructor
  · intro linked
    obtain ⟨_, other, stored, rfl, _, same, sameStored, type, domestic, id⟩ := linked
    cases Table.eq_of_id sameStored stored id
    refine ⟨_, other, stored, rfl, Prod.ext rfl ?_⟩
    rw [domesticName, if_pos type, domestic, Option.map_some, normalizeName_nameOf holds.normalized member]
  · intro listed
    obtain ⟨_, other, stored, rfl, same⟩ := listed
    have named : domesticName db other = some record.entityNameKey := congrArg Prod.snd same
    rw [domesticName] at named
    split at named
    · rename_i type
      obtain ⟨id, domestic, name⟩ := Option.map_eq_some_iff.mp named
      have isRecord := (holds.name_iff (db.references.domestic other stored id domestic) member).mp name
      exact ⟨none, other, stored, rfl, rfl, other, stored, type, isRecord ▸ domestic, rfl⟩
    · cases named

end LedgerOf

/-- In every state that the server reaches, if ownership has no cycle and the
registration rules hold there, the pages of the whole list that are returned show
what the committed uploads have said, whatever order the rows of the tables are read
in.  All are returned when there are few walks along the links. -/
theorem pages_show_log {limits : Limits} {trace : List (State × Action)} {state : State}
    (run : Run (step limits) State.initial trace state) (acyclic : Acyclic state.shared.db.Owns)
    (rules : RegistrationRules state.shared.db) (orders : OrdersNames state.shared.db) {listing : Nat → Database}
    (same : ∀ number, SameRows state.shared.db (listing number)) {list : EntitiesQuery} (unfiltered : Unfiltered list) :
    (state.shared.db.FewWalks state.shared.db.entities.ids → ∃ pages, Requested listing today list pages) ∧
    ∀ pages, Requested listing today list pages → (Ledger.ofLog (committedLog limits trace)).ShownBy today pages := by
  have holds := ledgerOf_log run
  refine ⟨fun few => exists_pages (acyclic_childOf acyclic rules) few same today list, fun pages requested => ?_⟩
  refine ⟨fun named => ?_, fun name => ?_, fun number name children node key pct => ?_, fun number name children node key => ?_⟩
  · simp only [shownOnPages_iff acyclic rules orders same unfiltered requested, holds.fields_iff]
    constructor
    · intro shown
      obtain ⟨_, ⟨record, member, rfl⟩, rfl⟩ := shown
      exact ⟨_, record, member, rfl, rfl⟩
    · intro listed
      obtain ⟨_, record, member, _, rfl⟩ := listed
      exact ⟨_, ⟨record, member, rfl⟩, rfl⟩
  · constructor
    · intro shown
      obtain ⟨number, _, _, row, member, rfl⟩ := shown
      obtain ⟨rounds, returned⟩ := requested number
      obtain ⟨record, listed, isTop, _, fields⟩ := row_shows returned member
      have stored := (same number).entities.mem_iff.mp listed
      have named : row.entityName = record.entityName := congrArg ShownFields.entityName fields
      rw [named, ← holds.normalized record stored]
      exact (holds.topLevel_iff stored).mpr ((topLevel_listed (same number)).mp isTop)
    · intro isTop
      obtain ⟨_, _, found, _⟩ := isTop.1
      obtain ⟨record, stored, rfl, _⟩ := holds.entity_iff.mp found
      obtain ⟨number, first, last, row, inside, tree⟩ :=
        exists_row orders same unfiltered requested stored ((holds.topLevel_iff stored).mp isTop)
      have named : row.entityName = record.entityName := congrArg ShownFields.entityName tree.fields
      exact ⟨number, first, last, row, inside, by rw [named, holds.normalized record stored]⟩
  · obtain ⟨rounds, returned⟩ := requested number
    obtain ⟨record, member, rfl, lists⟩ := namedNode_lists (same number) returned node
    rw [← holds.normalized record member]
    exact holds.subsidiaries member lists key pct
  · obtain ⟨rounds, returned⟩ := requested number
    obtain ⟨record, member, rfl, lists⟩ := namedNode_lists (same number) returned node
    rw [← holds.normalized record member]
    exact holds.fqs member lists key

omit [Platform] in
/-- A second upload spells one name in another way and lowers a percentage. -/
def respelledActions : List Action := [
  .upload ⟨0⟩ (ownershipFiles [("Acme", "Entity", ""), ("Beta", "Entity", ""), ("Beta FQ", "FQ", "Beta")]
    [("Acme", "Beta", "100")]),
  .advance 0 .succeed, .advance 0 .succeed,
  .upload ⟨0⟩ (ownershipFiles [("ACME ", "Entity", ""), ("Beta", "Entity", "")] [("acme", "beta", "60")]),
  .advance 0 .succeed]

omit [Platform] in
theorem respelled_pages :
    letI := asciiPlatform
    ∃ trace, ∃ state : State, trace.map Prod.snd = respelledActions ∧
      (committedLog Limits.default trace).length = 2 ∧
      (state.shared.db.FewWalks state.shared.db.entities.ids →
        ∃ pages, Requested (fun _ => state.shared.db) ⟨0⟩ firstPage pages) ∧
      ∀ pages, Requested (fun _ => state.shared.db) ⟨0⟩ firstPage pages →
        (Ledger.ofLog (committedLog Limits.default trace)).ShownBy ⟨0⟩ pages := by
  have facts : letI := asciiPlatform
      (committedLog Limits.default (steps (step Limits.default) State.initial respelledActions)).length = 2 ∧
      (execute (step Limits.default) State.initial respelledActions).map (fun state => decide (
        (∀ edge ∈ state.shared.db.ownershipEdges.records, edge.parentEntityId < edge.childEntityId) ∧
        (∀ edge ∈ state.shared.db.ownershipEdges.records, ∀ record ∈ state.shared.db.entities.records,
          record.id = edge.parentEntityId ∨ record.id = edge.childEntityId → record.registrationType = .entity) ∧
        ∀ record ∈ state.shared.db.entities.records, record.registrationType = .fq →
          ∃ domestic ∈ state.shared.db.entities.records,
            record.domesticEntityId = some domestic.id ∧ domestic.registrationType = .entity)) = some true := by
    decide +kernel
  let _ := asciiPlatform
  obtain ⟨length, executed⟩ := facts
  obtain ⟨state, executed, checks⟩ := Option.map_eq_some_iff.mp executed
  obtain ⟨ordered, edges, fqs⟩ := of_decide_eq_true checks
  have upwards : ∀ parent child, state.shared.db.Owns parent child → parent < child := by
    intro parent child owns
    obtain ⟨edge, member, rfl, rfl⟩ := owns
    exact ordered edge member
  exact ⟨_, state, steps_actions executed, length, pages_show_log (run_steps executed) (acyclic_of_lt upwards) ⟨edges, fqs⟩
    (asciiPlatform_orders _) (fun _ => .refl _) ⟨rfl, rfl, rfl, rfl⟩⟩

end Coverpin.Registry
