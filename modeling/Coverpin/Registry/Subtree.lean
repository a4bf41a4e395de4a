import Coverpin.Data.RecursiveUnion
import Coverpin.Upload.OwnershipInvariant

namespace Coverpin.Database

open Coverpin.Data Relation

/-! # `SUBTREE_CTE`

`child_links` joins ownership edges and the links from a domestic entity to its
FQs; `subtree` walks it down from a set of roots, one row for each way to get to
an entity.
-/

inductive LinkRelation where
  | self
  | subsidiary
  | fq
deriving DecidableEq, Repr

/-- A row of `child_links`. -/
structure ChildLink where
  parentId : EntityId
  childId : EntityId
  ownershipPct : Option Nat
  relation : LinkRelation
deriving DecidableEq, Repr

/-- A row of `subtree`. -/
structure SubtreeRow where
  id : EntityId
  rootId : EntityId
  entityName : String
  registrationType : RegistrationType
  jurisdiction : String
  entityType : String
  entityStatus : String
  viaParentId : Option EntityId
  ownershipPct : Option Nat
  relation : LinkRelation
deriving DecidableEq, Repr

def OwnershipEdge.link (edge : OwnershipEdge) : ChildLink where
  parentId := edge.parentEntityId
  childId := edge.childEntityId
  ownershipPct := some edge.ownershipPct
  relation := .subsidiary

/-- `WHERE registration_type = 'FQ' AND domestic_entity_id IS NOT NULL`. -/
def EntityRecord.link? (record : EntityRecord) : Option ChildLink :=
  match record.registrationType, record.domesticEntityId with
  | .fq, some domesticEntityId =>
      some { parentId := domesticEntityId, childId := record.id, ownershipPct := none, relation := .fq }
  | _, _ => none

def EntityRecord.selfRow (record : EntityRecord) : SubtreeRow where
  id := record.id
  rootId := record.id
  entityName := record.entityName
  registrationType := record.registrationType
  jurisdiction := record.jurisdiction
  entityType := record.entityType
  entityStatus := record.entityStatus
  viaParentId := none
  ownershipPct := none
  relation := .self

def EntityRecord.childRow (rootId : EntityId) (link : ChildLink) (record : EntityRecord) : SubtreeRow where
  id := record.id
  rootId
  entityName := record.entityName
  registrationType := record.registrationType
  jurisdiction := record.jurisdiction
  entityType := record.entityType
  entityStatus := record.entityStatus
  viaParentId := some link.parentId
  ownershipPct := link.ownershipPct
  relation := link.relation

def childLinks (db : Database) : List ChildLink :=
  db.ownershipEdges.records.map OwnershipEdge.link ++ db.entities.records.filterMap EntityRecord.link?

def linksFrom (db : Database) (parentId : EntityId) : List ChildLink :=
  db.childLinks.filter (·.parentId = parentId)

/-- The recursive term: `subtree` joined with `child_links` and `entities`. -/
def childRows (db : Database) (row : SubtreeRow) : List SubtreeRow :=
  (db.linksFrom row.id).flatMap fun link =>
    (db.entities.records.filter (·.id = link.childId)).map (EntityRecord.childRow row.rootId link)

/-- The non-recursive term. -/
def selfRows (db : Database) (rootIds : List EntityId) : List SubtreeRow :=
  (db.entities.records.filter (rootIds.contains ·.id)).map EntityRecord.selfRow

/-- `subtree`, if it is finished after so many rounds. -/
def subtree (db : Database) (rounds : Nat) (rootIds : List EntityId) : Option (List SubtreeRow) :=
  recursiveUnion db.childRows rounds (db.selfRows rootIds)

def ChildOf (db : Database) (parent child : EntityId) : Prop :=
  ∃ link ∈ db.childLinks, link.parentId = parent ∧ link.childId = child

instance (db : Database) (parent child : EntityId) : Decidable (db.ChildOf parent child) :=
  inferInstanceAs (Decidable (∃ link ∈ db.childLinks, _))

def FqOf (db : Database) (domestic fq : EntityId) : Prop :=
  ∃ record ∈ db.entities.records, record.id = fq ∧ record.registrationType = .fq ∧
    record.domesticEntityId = some domestic

variable {db : Database}

theorem EntityRecord.link?_eq_some {record : EntityRecord} {link : ChildLink} :
    record.link? = some link ↔ record.registrationType = .fq ∧ record.domesticEntityId = some link.parentId ∧
      record.id = link.childId ∧ link.ownershipPct = none ∧ link.relation = .fq := by
  unfold EntityRecord.link?
  split
  · rename_i domesticEntityId type domestic
    obtain ⟨parentId, childId, ownershipPct, relation⟩ := link
    simp only [Option.some.injEq, ChildLink.mk.injEq, type, domestic, true_and]
    grind
  · rename_i unmatched
    refine ⟨by simp, ?_⟩
    intro link
    obtain ⟨type, domestic, _⟩ := link
    exact absurd domestic (unmatched _ type)

theorem childOf_iff {parent child : EntityId} : db.ChildOf parent child ↔ db.Owns parent child ∨ db.FqOf parent child := by
  simp only [ChildOf, childLinks, List.mem_append, List.mem_map, List.mem_filterMap]
  constructor
  · intro linked
    obtain ⟨link, ⟨edge, member, rfl⟩ | ⟨record, member, linked⟩, rfl, rfl⟩ := linked
    · exact .inl ⟨edge, member, rfl, rfl⟩
    · obtain ⟨type, domestic, id, _, _⟩ := EntityRecord.link?_eq_some.mp linked
      exact .inr ⟨record, member, id, type, domestic⟩
  · intro linked
    rcases linked with ⟨edge, member, rfl, rfl⟩ | ⟨record, member, rfl, type, domestic⟩
    · exact ⟨edge.link, .inl ⟨edge, member, rfl⟩, rfl, rfl⟩
    · refine ⟨⟨parent, record.id, none, .fq⟩, .inr ⟨record, member, ?_⟩, rfl, rfl⟩
      exact EntityRecord.link?_eq_some.mpr ⟨type, domestic, rfl, rfl, rfl⟩

theorem ChildOf.exist {parent child : EntityId} (linked : db.ChildOf parent child) :
    parent ∈ db.entities.ids ∧ child ∈ db.entities.ids := by
  rcases childOf_iff.mp linked with ⟨edge, member, rfl, rfl⟩ | ⟨record, member, rfl, _, domestic⟩
  · exact db.references.edges edge member
  · exact ⟨db.references.domestic record member parent domestic, List.mem_map_of_mem member⟩

theorem mem_childRows {row later : SubtreeRow} : later ∈ db.childRows row ↔ ∃ link ∈ db.linksFrom row.id,
    ∃ record ∈ db.entities.records, record.id = link.childId ∧ later = record.childRow row.rootId link := by
  simp only [childRows, List.mem_flatMap, List.mem_map, List.mem_filter, decide_eq_true_eq]
  constructor
  · intro joined
    obtain ⟨link, out, record, ⟨member, id⟩, rfl⟩ := joined
    exact ⟨link, out, record, member, id, rfl⟩
  · intro joined
    obtain ⟨link, out, record, member, id, rfl⟩ := joined
    exact ⟨link, out, record, ⟨member, id⟩, rfl⟩

theorem childOf_of_mem_childRows {row later : SubtreeRow} (member : later ∈ db.childRows row) :
    db.ChildOf row.id later.id := by
  obtain ⟨link, out, record, _, id, rfl⟩ := mem_childRows.mp member
  obtain ⟨linked, parent⟩ := List.mem_filter.mp out
  exact ⟨link, linked, of_decide_eq_true parent, id.symm⟩

theorem exists_childRow {row : SubtreeRow} {child : EntityId} (linked : db.ChildOf row.id child) :
    ∃ later ∈ db.childRows row, later.id = child := by
  obtain ⟨record, member, id⟩ := List.mem_map.mp linked.exist.2
  obtain ⟨link, inside, parent, rfl⟩ := linked
  exact ⟨record.childRow row.rootId link,
    mem_childRows.mpr ⟨link, List.mem_filter.mpr ⟨inside, by simpa using parent⟩, record, member, id, rfl⟩, id⟩

/-- As many rounds as there are entities are enough when the links have no cycle. -/
theorem exists_subtree (acyclic : Acyclic db.ChildOf) (rootIds : List EntityId) :
    ∃ rows, db.subtree db.entities.ids.length rootIds = some rows := by
  refine recursiveUnion_terminates SubtreeRow.id db.entities.ids acyclic ?_ ?_
  · intro row later member
    have linked := childOf_of_mem_childRows member
    exact ⟨linked, linked.exist.2⟩
  · intro row member
    obtain ⟨record, inside, rfl⟩ := List.mem_map.mp member
    exact List.mem_map_of_mem (List.mem_filter.mp inside).1

/-- The query terminates from all roots exactly when the links have no cycle. -/
theorem acyclic_childOf_iff :
    Acyclic db.ChildOf ↔ ∀ rootIds, ∃ rounds rows, db.subtree rounds rootIds = some rows := by
  constructor
  · exact fun acyclic rootIds => ⟨_, exists_subtree acyclic rootIds⟩
  · intro terminates node cycle
    obtain ⟨rounds, rows, finished⟩ := terminates [node]
    have endless : db.subtree rounds [node] = none := by
      refine recursiveUnion_endless (p := fun row => ReflTransGen db.ChildOf row.id node) ?_ ?_
      · obtain ⟨_, edge, _⟩ := TransGen.head'_iff.mp cycle
        obtain ⟨record, member, id⟩ := List.mem_map.mp edge.exist.1
        have id : record.id = node := id
        exact ⟨record.selfRow, List.mem_map_of_mem (List.mem_filter.mpr ⟨member, by simp [id]⟩), id ▸ .refl⟩
      · intro row below
        have around := TransGen.trans_right below cycle
        obtain ⟨child, edge, rest⟩ := TransGen.head'_iff.mp around
        obtain ⟨later, member, id⟩ := exists_childRow edge
        exact ⟨later, member, id ▸ rest⟩
    cases finished.symm.trans endless

end Coverpin.Database
