import Coverpin.Registry.LocalDates
import Coverpin.Registry.Paging

namespace Coverpin.Registry

open Coverpin.Data Coverpin.Database Coverpin.Upload Coverpin.Validation Relation

/-! # What a page says about an entity

The rows of the query are joined again with filings and with each other before
they are shown.  Nothing is lost on the way: a node shows the fields of its own
record, a status from its own filings, and the links of the tables below it.
-/

variable [Platform] {db : Database} {today : Date} {rounds : Nat} {query : EntitiesQuery}

structure ShownFields where
  id : EntityId
  entityName : String
  jurisdiction : String
  entityType : String
  entityStatus : String
  complianceStatus : ComplianceStatus
  nextDueDate : Option String
deriving DecidableEq, Repr

omit [Platform] in
def ListRow.fields (row : ListRow) : ShownFields :=
  ⟨row.id, row.entityName, row.jurisdiction, row.entityType, row.entityStatus, row.complianceStatus, row.nextDueDate⟩

omit [Platform] in
def ListChild.fields (child : ListChild) : ShownFields :=
  ⟨child.id, child.entityName, child.jurisdiction, child.entityType, child.entityStatus, child.complianceStatus,
    child.nextDueDate⟩

def ownStatus (db : Database) (today : Date) (record : EntityRecord) : ComplianceStatus :=
  computeComplianceStatus record.entityStatus (ownNextDueDate db record.id) today

/-- What there is to show of a record. -/
def recordFields (db : Database) (today : Date) (record : EntityRecord) : ShownFields :=
  ⟨record.id, record.entityName, record.jurisdiction, record.entityType, record.entityStatus, ownStatus db today record,
    (ownNextDueDate db record.id).map toDateOnlyString⟩

/-- What there is to show of a candidate. -/
def rootFields (db : Database) (today : Date) (root : CandidateRoot) : ShownFields :=
  ⟨root.id, root.entityName, root.jurisdiction, root.entityType, root.entityStatus,
    computeComplianceStatus root.entityStatus (ownNextDueDate db root.id) today, (ownNextDueDate db root.id).map toDateOnlyString⟩

/-- A child as the link that leads to it. -/
def ListChild.link (parentId : EntityId) (child : ListChild) : ChildLink :=
  ⟨parentId, child.id, child.ownershipPct, child.relation⟩

section Rows

variable {rootIds : List EntityId} {rows : List SubtreeRow} {row : SubtreeRow} {id : EntityId}

omit [Platform]

inductive RowOf (db : Database) : SubtreeRow → Prop where
  | root {record : EntityRecord} (member : record ∈ db.entities.records) : RowOf db record.selfRow
  | child {record : EntityRecord} {link : ChildLink} (rootId : EntityId) (member : record ∈ db.entities.records)
      (linked : link ∈ db.childLinks) (id : record.id = link.childId) : RowOf db (record.childRow rootId link)

theorem rowOf_of_mem (finished : db.subtree rounds rootIds = some rows) : ∀ row ∈ rows, RowOf db row := by
  refine recursiveUnion_forall finished ?_ ?_
  · intro row member
    obtain ⟨record, inside, rfl⟩ := List.mem_map.mp member
    exact .root (List.mem_filter.mp inside).1
  · intro row _ later member
    obtain ⟨link, out, record, inside, id, rfl⟩ := mem_childRows.mp member
    exact .child row.rootId inside (List.mem_filter.mp out).1 id

/-- A row below a node is a link from there, joined with its record. -/
theorem directOf_row (finished : db.subtree rounds rootIds = some rows) {relation : LinkRelation}
    (direct : row ∈ (contextOf db today query rows).directOf relation id) :
    ∃ record ∈ db.entities.records, ∃ link ∈ db.childLinks, link.parentId = id ∧ link.relation = relation ∧
      record.id = link.childId ∧ row = record.childRow row.rootId link := by
  have inside := mem_rows_of_directOf direct
  rw [PageContext.directOf, direct_eq] at direct
  obtain ⟨filtered, isRelation⟩ := List.mem_filter.mp direct
  obtain ⟨_, via⟩ := List.mem_filter.mp filtered
  cases rowOf_of_mem finished row inside with
  | root => simp [EntityRecord.selfRow] at via
  | @child record link rootId member linked same =>
      exact ⟨record, member, link, linked, by simpa [EntityRecord.childRow] using via,
        of_decide_eq_true isRelation, same, rfl⟩

/-- The filings of the page have all filings of an entity that is on it. -/
theorem nextDueDate_eq (present : id ∈ rows.map SubtreeRow.id) :
    (contextOf db today query rows).nextDueDate id = ownNextDueDate db id := by
  have listed : (rows.map SubtreeRow.id).contains id = true := List.contains_iff_mem.mpr present
  rw [PageContext.nextDueDate, nextDueDateOf, contextOf, pageContext, InsertionMap.getD_groupBy, List.filter_filter,
    ownNextDueDate]
  refine congrArg (fun filings => computeNextDueDate (filings.map Filing.forDueDate)) (List.filter_congr fun filing _ => ?_)
  by_cases same : filing.entityId = id
  · rw [same, listed, Bool.and_true]
  · simp [same]

end Rows

section Nodes

variable {rootIds : List EntityId} {rows : List SubtreeRow} {node : ShownNode}

theorem complianceStatus_eq {record : EntityRecord} (present : record.id ∈ rows.map SubtreeRow.id) :
    (contextOf db today query rows).complianceStatus record.id record.entityStatus = ownStatus db today record := by
  rw [PageContext.complianceStatus, nextDueDate_eq present]
  rfl

omit [Platform] in
theorem ownershipPct_of_fq {link : ChildLink} (linked : link ∈ db.childLinks) (fq : link.relation = .fq) :
    link.ownershipPct = none := by
  rcases List.mem_append.mp linked with edge | domestic
  · obtain ⟨edge, _, rfl⟩ := List.mem_map.mp edge
    cases fq
  · obtain ⟨record, _, found⟩ := List.mem_filterMap.mp domestic
    exact (EntityRecord.link?_eq_some.mp found).2.2.2.1

/-- A child is a link of the tables, and shows the record at its end. -/
theorem child_shows (finished : db.subtree rounds rootIds = some rows)
    (assembled : Assembled (contextOf db today query rows) node) {child : ListChild} (member : child ∈ node.children) :
    child.link node.id ∈ db.childLinks ∧ (child.registrationType = .fq ↔ child.relation = .fq) ∧
      ∃ record ∈ db.entities.records, child.fields = recordFields db today record := by
  rcases assembled.child_cases member with ⟨row, direct, rfl⟩ | ⟨row, direct, children, rfl, _⟩
  all_goals
    have present := List.mem_map_of_mem (f := SubtreeRow.id) (mem_rows_of_directOf direct)
    obtain ⟨record, inside, link, linked, parent, relation, id, same⟩ := directOf_row finished direct
    have rowId : row.id = record.id := congrArg SubtreeRow.id same
    have rowStatus : row.entityStatus = record.entityStatus := congrArg SubtreeRow.entityStatus same
    have status : (contextOf db today query rows).complianceStatus record.id record.entityStatus =
      ownStatus db today record :=
      complianceStatus_eq (rowId ▸ present)
    have dueDate : (contextOf db today query rows).nextDueDate record.id = ownNextDueDate db record.id :=
      nextDueDate_eq (rowId ▸ present)
  · refine ⟨?_, by simp [PageContext.fqChild], record, inside, ?_⟩
    · have shown : ListChild.link node.id ((contextOf db today query rows).fqChild row) = link := by
        obtain ⟨parentId, childId, ownershipPct, kind⟩ := link
        cases parent
        cases relation
        cases ownershipPct_of_fq linked rfl
        rw [ListChild.link, PageContext.fqChild, rowId, id]
      exact shown ▸ linked
    · rw [ListChild.fields, PageContext.fqChild, rowId, rowStatus, status, dueDate, same]
      rfl
  · refine ⟨?_, by simp [PageContext.subsidiaryChild], record, inside, ?_⟩
    · have shown : ListChild.link node.id ((contextOf db today query rows).subsidiaryChild row children) = link := by
        obtain ⟨parentId, childId, ownershipPct, kind⟩ := link
        cases parent
        cases relation
        rw [ListChild.link, PageContext.subsidiaryChild, rowId, id, same]
        rfl
      exact shown ▸ linked
    · rw [ListChild.fields, PageContext.subsidiaryChild, rowId, rowStatus, status, dueDate, same]
      rfl

omit [Platform] in
/-- There is one link of each relation from a parent to a child. -/
theorem childLink_unique {link other : ChildLink} (linked : link ∈ db.childLinks) (otherLinked : other ∈ db.childLinks)
    (parent : link.parentId = other.parentId) (child : link.childId = other.childId)
    (relation : link.relation = other.relation) : link = other := by
  have pct : link.ownershipPct = other.ownershipPct := by
    rcases relation_of_mem_childLinks linked with subsidiary | fq
    · have edgeOf : ∀ link ∈ db.childLinks, link.relation = .subsidiary →
          ∃ edge ∈ db.ownershipEdges.records, edge.link = link := by
        intro link linked subsidiary
        rcases List.mem_append.mp linked with edge | domestic
        · exact List.mem_map.mp edge
        · obtain ⟨record, _, found⟩ := List.mem_filterMap.mp domestic
          rw [(EntityRecord.link?_eq_some.mp found).2.2.2.2] at subsidiary
          cases subsidiary
      obtain ⟨edge, member, rfl⟩ := edgeOf link linked subsidiary
      obtain ⟨otherEdge, otherMember, rfl⟩ := edgeOf other otherLinked (relation ▸ subsidiary)
      have distinct : (db.ownershipEdges.records.map fun edge => (edge.parentEntityId, edge.childEntityId)).Nodup := by
        refine List.pairwise_map.mpr ((db.ownershipEdges.unique.2 [.parentEntityId, .childEntityId]
          (by simp [edgeSchema])).imp ?_)
        intro edge other apart same
        simp only [Prod.mk.injEq] at same
        exact apart (by simp [agree, edgeSchema, OwnershipEdge.read, same])
      rw [List.inj_on_of_nodup_map distinct member otherMember (Prod.ext parent child)]
    · rw [ownershipPct_of_fq linked fq, ownershipPct_of_fq otherLinked (relation ▸ fq)]
  obtain ⟨parentId, childId, ownershipPct, kind⟩ := link
  cases parent
  cases child
  cases relation
  cases pct
  rfl

/-- The children of a node are the links from its entity. -/
theorem children_links (finished : db.subtree rounds rootIds = some rows)
    (assembled : Assembled (contextOf db today query rows) node) (present : node.id ∈ rows.map SubtreeRow.id)
    {link : ChildLink} (parent : link.parentId = node.id) :
    (∃ child ∈ node.children, child.link node.id = link) ↔ link ∈ db.childLinks := by
  constructor
  · intro shown
    obtain ⟨child, member, rfl⟩ := shown
    exact (child_shows finished assembled member).1
  · intro linked
    have target : link.childId ∈ db.targets link.relation node.id :=
      List.mem_map_of_mem (List.mem_filter.mpr ⟨List.mem_filter.mpr ⟨linked, by simpa using parent⟩, by simp⟩)
    obtain ⟨child, member, relation, id⟩ := assembled.exists_child (relation_of_mem_childLinks linked).symm
      ((directOf_ids today query finished present link.relation).mpr target)
    exact ⟨child, member, childLink_unique (child_shows finished assembled member).1 linked parent.symm id relation⟩

end Nodes

omit [Platform] in
theorem mem_fetched {candidate : CandidateRoot} : candidate ∈ fetchCandidateRoots db query ↔
    ∃ record ∈ db.entities.records, TopLevel db record.id ∧
      (∀ jurisdiction ∈ truthy query.jurisdiction, record.jurisdiction = jurisdiction) ∧
      (∀ entityStatus ∈ truthy query.entityStatus, record.entityStatus.val = entityStatus) ∧
      EntityRecord.candidateRoot record = candidate := by
  have topLevel : ∀ record ∈ db.entities.records, (record.registrationType = .entity ∧
      ∀ edge ∈ db.ownershipEdges.records, ¬ edge.childEntityId = record.id) ↔ TopLevel db record.id := by
    intro record member
    constructor
    · intro kept
      refine ⟨⟨record, member, rfl, kept.1⟩, fun owner owns => ?_⟩
      obtain ⟨edge, stored, _, child⟩ := owns
      exact kept.2 edge stored child
    · intro topLevel
      obtain ⟨⟨other, otherMember, same, entity⟩, unowned⟩ := topLevel
      exact ⟨Table.eq_of_id otherMember member same ▸ entity, fun edge stored child => unowned _ ⟨edge, stored, rfl, child⟩⟩
  simp only [fetchCandidateRoots, List.mem_map, List.mem_filter, Bool.and_eq_true, decide_eq_true_eq, Bool.not_eq_true',
    List.any_eq_false, Option.all_eq_true]
  constructor
  · intro fetched
    obtain ⟨record, ⟨member, ⟨⟨entity, unowned⟩, jurisdiction⟩, entityStatus⟩, same⟩ := fetched
    exact ⟨record, member, (topLevel record member).mp ⟨entity, unowned⟩, jurisdiction, entityStatus, same⟩
  · intro passes
    obtain ⟨record, member, isTop, jurisdiction, entityStatus, same⟩ := passes
    obtain ⟨entity, unowned⟩ := (topLevel record member).mpr isTop
    exact ⟨record, ⟨member, ⟨⟨entity, unowned⟩, jurisdiction⟩, entityStatus⟩, same⟩

theorem selectCandidates_ids {candidates : List CandidateRoot}
    (selected : selectCandidates db today rounds query = some candidates) : (candidates.map CandidateRoot.id).Nodup := by
  obtain ⟨kept, some, perm⟩ := selectCandidates_kept selected
  exact (perm.map _).nodup_iff.mpr (db.entities.unique.1.sublist ((some.map _).trans fetchCandidateRoots_ids))

theorem exists_root_tree {roots : List CandidateRoot} {rows : List ListRow}
    (trees : List.Forall₂ (TreeFor db today query) roots rows) {row : ListRow} (member : row ∈ rows) :
    ∃ root ∈ roots, TreeFor db today query root row := by
  induction trees with
  | nil => cases member
  | cons tree _ induction =>
      rcases List.mem_cons.mp member with rfl | later
      · exact ⟨_, List.mem_cons_self, tree⟩
      · obtain ⟨root, inside, built⟩ := induction later
        exact ⟨root, List.mem_cons_of_mem _ inside, built⟩

theorem TreeFor.fields {root : CandidateRoot} {row : ListRow} (tree : TreeFor db today query root row) :
    row.fields = rootFields db today root := by
  cases tree with
  | @built rounds rootIds rows children listed known finished assembled =>
      have present := mem_subtree_root finished listed known
      rw [ListRow.fields, PageContext.topLevelRow]
      simp only [nextDueDate_eq present, PageContext.complianceStatus]
      rfl

section Page

variable {page : EntitiesPage} (returned : getEntitiesList db today rounds query = some page)
include returned

/-- Every row of a page is the tree of a stored candidate. -/
theorem row_tree {row : ListRow} (member : row ∈ page.data) : ∃ candidates record,
    selectCandidates db today rounds query = some candidates ∧ record ∈ db.entities.records ∧ TopLevel db record.id ∧
      EntityRecord.candidateRoot record ∈ candidates ∧
      TreeFor db today query (EntityRecord.candidateRoot record) row := by
  obtain ⟨roots, sliced, trees⟩ := page_trees returned
  obtain ⟨root, inside, tree⟩ := exists_root_tree trees member
  obtain ⟨candidates, found, rfl⟩ := Option.map_eq_some_iff.mp sliced
  obtain ⟨kept, some, perm⟩ := selectCandidates_kept found
  have chosen : root ∈ candidates := List.drop_subset _ _ (List.take_subset _ _ inside)
  obtain ⟨record, stored, isTop, _, _, rfl⟩ := mem_fetched.mp (some.subset (perm.subset chosen))
  exact ⟨candidates, record, found, stored, isTop, chosen, tree⟩

theorem row_shows {row : ListRow} (member : row ∈ page.data) : ∃ record ∈ db.entities.records, TopLevel db record.id ∧
    row.registrationType = record.registrationType ∧ row.fields = recordFields db today record := by
  obtain ⟨candidates, record, _, stored, isTop, _, tree⟩ := row_tree returned member
  refine ⟨record, stored, isTop, ?_, tree.fields⟩
  obtain ⟨⟨other, otherStored, same, entity⟩, _⟩ := isTop
  rw [← Table.eq_of_id otherStored stored same, entity]
  cases tree
  rfl

theorem node_shows {node : ShownNode} (displayed : Displayed page node) :
    (∀ link : ChildLink, link.parentId = node.id →
      ((∃ child ∈ node.children, child.link node.id = link) ↔ link ∈ db.childLinks)) ∧
    ∀ child ∈ node.children, ∃ record ∈ db.entities.records, child.fields = recordFields db today record ∧
      (RegistrationRules db → child.registrationType = record.registrationType) := by
  obtain ⟨roots, rows, selected, finished, _, built⟩ := getEntitiesList_ok returned
  obtain ⟨assembled, present, _⟩ := displayed_ok finished built (pageRoots_ok selected).2 displayed
  refine ⟨fun link parent => children_links finished assembled present parent, fun child member => ?_⟩
  obtain ⟨linked, type, record, stored, fields⟩ := child_shows finished assembled member
  refine ⟨record, stored, fields, fun rules => ?_⟩
  have id : child.id = record.id := congrArg ShownFields.id fields
  rcases List.mem_append.mp linked with owned | domestic
  · obtain ⟨edge, storedEdge, same⟩ := List.mem_map.mp owned
    have isChild : record.id = edge.childEntityId := id.symm.trans (congrArg ChildLink.childId same).symm
    have relation : child.relation = .subsidiary := (congrArg ChildLink.relation same).symm
    rw [rules.edges edge storedEdge record stored (.inr isChild)]
    cases shown : child.registrationType with
    | entity => rfl
    | fq => cases relation.symm.trans (type.mp shown)
  · obtain ⟨other, otherStored, found⟩ := List.mem_filterMap.mp domestic
    obtain ⟨isFq, _, otherId, _, relation⟩ := EntityRecord.link?_eq_some.mp found
    rw [← Table.eq_of_id otherStored stored (otherId.trans id), isFq]
    exact type.mpr relation

/-- A node at any depth is a child of a displayed one. -/
theorem below_displayed {row : ListRow} (member : row ∈ page.data) {child : ListChild} (below : Below row.children child) :
    ∃ node, Displayed page node ∧ child ∈ node.children := by
  obtain ⟨roots, rows, selected, finished, _, built⟩ := getEntitiesList_ok returned
  induction below with
  | child inside => exact ⟨row.node, .topLevel member, inside⟩
  | @deeper parent node _ inside induction =>
      obtain ⟨upper, displayed, isChild⟩ := induction
      obtain ⟨assembled, _⟩ := displayed_ok finished built (pageRoots_ok selected).2 displayed
      rcases assembled.child_cases isChild with ⟨fq, _, rfl⟩ | ⟨subsidiary, _, children, rfl, _⟩
      · cases inside
      · exact ⟨_, .subsidiary displayed isChild rfl, inside⟩

theorem below_shows {row : ListRow} (member : row ∈ page.data) {child : ListChild} (below : Below row.children child) :
    ∃ record ∈ db.entities.records, child.fields = recordFields db today record := by
  obtain ⟨node, displayed, inside⟩ := below_displayed returned member below
  obtain ⟨record, stored, fields, _⟩ := (node_shows returned displayed).2 child inside
  exact ⟨record, stored, fields⟩

end Page

/-- Every record is shown in all trees of one top-level entity. -/
theorem exists_showing (acyclic : Acyclic db.Owns) (rules : RegistrationRules db) {record : EntityRecord}
    (member : record ∈ db.entities.records) : ∃ root ∈ db.entities.records, TopLevel db root.id ∧
      ∀ (listed : Database) (today : Date) (query : EntitiesQuery) (row : ListRow), SameRows db listed →
        TreeFor listed today query (EntityRecord.candidateRoot root) row →
          root = record ∨ ∃ child, Below row.children child ∧ child.id = record.id := by
  by_cases topLevel : TopLevel db record.id
  · exact ⟨record, member, topLevel, fun _ _ _ _ _ _ => .inl rfl⟩
  · obtain ⟨rootId, isTop, shows⟩ := exists_showing_root acyclic rules member topLevel
    obtain ⟨⟨root, stored, rfl, _⟩, _⟩ := id isTop
    exact ⟨root, stored, isTop, fun listed today query row same tree => .inr (shows listed today query _ row same rfl tree)⟩

/-- A page shows the records of its entities.  The children of a top-level row and
of a subsidiary at any depth are, as a set, the links of the tables from there, each
with its percentage, and each shows the record at its end.  A link of a shared
subsidiary may be listed more than once. -/
theorem page_shows {page : EntitiesPage} (returned : getEntitiesList db today rounds query = some page) :
    (∀ row ∈ page.data, ∃ record ∈ db.entities.records, TopLevel db record.id ∧
      row.registrationType = record.registrationType ∧ row.fields = recordFields db today record) ∧
    ∀ node, Displayed page node →
      (∀ link : ChildLink, link.parentId = node.id →
        ((∃ child ∈ node.children, child.link node.id = link) ↔ link ∈ db.childLinks)) ∧
      ∀ child ∈ node.children, ∃ record ∈ db.entities.records, child.fields = recordFields db today record ∧
        (RegistrationRules db → child.registrationType = record.registrationType) :=
  ⟨fun _ member => row_shows returned member, fun _ displayed => node_shows returned displayed⟩

omit [Platform] in
theorem discount_shows :
    letI := asciiPlatform
    ∃ rounds page, getEntitiesList discountState ⟨0⟩ rounds firstPage = some page ∧
      (∀ row ∈ page.data, ∃ record ∈ discountState.entities.records, TopLevel discountState record.id ∧
        row.registrationType = record.registrationType ∧ row.fields = recordFields discountState ⟨0⟩ record) ∧
      ∀ node, Displayed page node →
        (∀ link : ChildLink, link.parentId = node.id →
          ((∃ child ∈ node.children, child.link node.id = link) ↔ link ∈ discountState.childLinks)) ∧
        ∀ child ∈ node.children, ∃ record ∈ discountState.entities.records,
          child.fields = recordFields discountState ⟨0⟩ record ∧
            (RegistrationRules discountState → child.registrationType = record.registrationType) := by
  let _ := asciiPlatform
  obtain ⟨page, returned⟩ := exists_getEntitiesList discountState_acyclic discountState_few ⟨0⟩ firstPage
  exact ⟨_, page, returned, page_shows returned⟩

end Coverpin.Registry
