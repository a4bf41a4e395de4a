import Coverpin.Registry.DisplayedTree

namespace Coverpin.Registry

open Coverpin.Data Coverpin.Database Coverpin.Upload Coverpin.Validation Relation

/-! # The nodes of one tree

The tree of a top-level entity shows the entities that it owns, directly or not,
and the FQs of all of them.  It does so on every page, whatever other trees the
page has.
-/

variable [Platform] {db : Database} {today : Date} {rounds : Nat} {query : EntitiesQuery}

/-- The nodes under a list of children, at any depth. -/
inductive Below (children : List ListChild) : ListChild → Prop where
  | child {node : ListChild} (member : node ∈ children) : Below children node
  | deeper {parent node : ListChild} (below : Below children parent) (member : node ∈ parent.children) :
      Below children node

/-- A row for a root as it is built on a page that has it. -/
inductive TreeFor (db : Database) (today : Date) (query : EntitiesQuery) (root : CandidateRoot) : ListRow → Prop where
  | built {rounds : Nat} {rootIds : List EntityId} {rows : List SubtreeRow} {children : List ListChild}
      (listed : root.id ∈ rootIds) (known : root.id ∈ db.entities.ids)
      (finished : db.subtree rounds rootIds = some rows)
      (assembled : (contextOf db today query rows).buildChildren rounds root.id = some children) :
      TreeFor db today query root ((contextOf db today query rows).topLevelRow root children)

section Rows

variable {rootIds : List EntityId} {rows : List SubtreeRow} {id target : EntityId}

omit [Platform]

theorem mem_targets_fq : target ∈ db.targets .fq id ↔ db.FqOf id target := by
  rw [targets_fq]
  simp only [fqsOf, List.mem_map, List.mem_filter, decide_eq_true_eq, FqOf]
  constructor
  · intro listed
    obtain ⟨record, ⟨member, type, domestic⟩, same⟩ := listed
    exact ⟨record, member, same, type, domestic⟩
  · intro linked
    obtain ⟨record, member, same, type, domestic⟩ := linked
    exact ⟨record, ⟨member, type, domestic⟩, same⟩

theorem row_record (finished : db.subtree rounds rootIds = some rows) : ∀ row ∈ rows,
    ∃ record ∈ db.entities.records, record.id = row.id ∧ record.entityName = row.entityName := by
  refine recursiveUnion_forall finished ?_ ?_
  · intro row member
    obtain ⟨record, inside, rfl⟩ := List.mem_map.mp member
    exact ⟨record, (List.mem_filter.mp inside).1, rfl, rfl⟩
  · intro row _ later member
    obtain ⟨link, _, record, inside, _, rfl⟩ := mem_childRows.mp member
    exact ⟨record, inside, rfl, rfl⟩

end Rows

/-- A node below a root, with the links that lead to its entity. -/
inductive NodeOf (db : Database) (context : PageContext) (rows : List SubtreeRow) (rootId : EntityId) :
    ListChild → Prop where
  | fq {owner : EntityId} {row : SubtreeRow} (owned : ReflTransGen db.Owns rootId owner) (fqOf : db.FqOf owner row.id)
      (reached : row ∈ rows) : NodeOf db context rows rootId (context.fqChild row)
  | subsidiary {row : SubtreeRow} {children : List ListChild} (owned : TransGen db.Owns rootId row.id)
      (reached : row ∈ rows) (assembled : Assembled context (context.subsidiaryChild row children).node) :
      NodeOf db context rows rootId (context.subsidiaryChild row children)

section Nodes

variable {node : ShownNode} {rootIds : List EntityId} {rows : List SubtreeRow}
  (finished : db.subtree rounds rootIds = some rows)

include finished in
/-- The children of a node that the root owns. -/
theorem nodeOf_child {rootId : EntityId} (owned : ReflTransGen db.Owns rootId node.id)
    (assembled : Assembled (contextOf db today query rows) node) (present : node.id ∈ rows.map SubtreeRow.id)
    {child : ListChild} (member : child ∈ node.children) :
    NodeOf db (contextOf db today query rows) rows rootId child := by
  rcases assembled.child_cases member with ⟨row, direct, rfl⟩ | ⟨row, direct, children, rfl, below⟩
  · have linked := (directOf_ids today query finished present .fq).mp (List.mem_map_of_mem direct)
    exact .fq owned (mem_targets_fq.mp linked) (mem_rows_of_directOf direct)
  · have linked := (directOf_ids today query finished present .subsidiary).mp (List.mem_map_of_mem direct)
    exact .subsidiary (.tail' owned (mem_targets_subsidiary.mp linked)) (mem_rows_of_directOf direct) below

include finished in
theorem nodeOf_below (assembled : Assembled (contextOf db today query rows) node)
    (present : node.id ∈ rows.map SubtreeRow.id) {child : ListChild} (below : Below node.children child) :
    NodeOf db (contextOf db today query rows) rows node.id child := by
  induction below with
  | child member => exact nodeOf_child finished .refl assembled present member
  | deeper _ member induction =>
      cases induction with
      | fq => cases member
      | @subsidiary row children owned reached built =>
          let parent := ((contextOf db today query rows).subsidiaryChild row children).node
          have owned : ReflTransGen db.Owns node.id parent.id := owned.to_reflTransGen
          exact nodeOf_child finished owned built (List.mem_map_of_mem reached) member

include finished in
theorem exists_subsidiary_below (assembled : Assembled (contextOf db today query rows) node)
    (present : node.id ∈ rows.map SubtreeRow.id) {id : EntityId} (owned : TransGen db.Owns node.id id) :
    ∃ child, Below node.children child ∧ child.relation = .subsidiary ∧ child.id = id := by
  induction owned with
  | single edge =>
      have direct := (directOf_ids today query finished present .subsidiary).mpr (mem_targets_subsidiary.mpr edge)
      obtain ⟨child, member, relation, id⟩ := assembled.exists_child (.inr rfl) direct
      exact ⟨child, .child member, relation, id⟩
  | tail _ edge induction =>
      obtain ⟨parent, below, relation, rfl⟩ := induction
      cases nodeOf_below finished assembled present below with
      | fq => cases relation
      | subsidiary _ reached built =>
          have direct := (directOf_ids today query finished (List.mem_map_of_mem reached) .subsidiary).mpr
            (mem_targets_subsidiary.mpr edge)
          obtain ⟨child, member, isSubsidiary, id⟩ := built.exists_child (.inr rfl) direct
          exact ⟨child, .deeper below member, isSubsidiary, id⟩

include finished in
theorem exists_fq_below (assembled : Assembled (contextOf db today query rows) node)
    (present : node.id ∈ rows.map SubtreeRow.id) {owner id : EntityId} (owned : ReflTransGen db.Owns node.id owner)
    (fqOf : db.FqOf owner id) : ∃ child, Below node.children child ∧ child.relation = .fq ∧ child.id = id := by
  rcases reflTransGen_iff_eq_or_transGen.mp owned with rfl | deeper
  · have direct := (directOf_ids today query finished present .fq).mpr (mem_targets_fq.mpr fqOf)
    obtain ⟨child, member, relation, id⟩ := assembled.exists_child (.inl rfl) direct
    exact ⟨child, .child member, relation, id⟩
  · obtain ⟨parent, below, relation, rfl⟩ := exists_subsidiary_below finished assembled present deeper
    cases nodeOf_below finished assembled present below with
    | fq => cases relation
    | subsidiary _ reached built =>
        have direct := (directOf_ids today query finished (List.mem_map_of_mem reached) .fq).mpr (mem_targets_fq.mpr fqOf)
        obtain ⟨child, member, isFq, id⟩ := built.exists_child (.inl rfl) direct
        exact ⟨child, .deeper below member, isFq, id⟩

end Nodes

/-- Whether a name matches the search of a query. -/
def matchesQuery (query : EntitiesQuery) (name : String) : Bool :=
  query.term.any fun term => includes (Platform.toLowerCase term) (Platform.toLowerCase name)

section Tree

variable {root : CandidateRoot} {row : ListRow} {id : EntityId}

/-- What all trees of a root have in common with the tables. -/
theorem TreeFor.nodes (tree : TreeFor db today query root row) : row.id = root.id ∧
    row.matchesSearch = matchesQuery query root.entityName ∧
    ∃ rounds rootIds rows, db.subtree rounds rootIds = some rows ∧ row.id ∈ rows.map SubtreeRow.id ∧
      Assembled (contextOf db today query rows) row.node := by
  cases tree with
  | @built rounds rootIds rows children listed known finished assembled =>
      exact ⟨rfl, rfl, rounds, rootIds, rows, finished, mem_subtree_root finished listed known, ⟨rounds, assembled⟩, rfl, rfl⟩

theorem TreeFor.subsidiary_iff (tree : TreeFor db today query root row) :
    (∃ child, Below row.children child ∧ child.relation = .subsidiary ∧ child.id = id) ↔
      TransGen db.Owns root.id id := by
  obtain ⟨same, _, rounds, rootIds, rows, finished, present, assembled⟩ := tree.nodes
  rw [← same]
  constructor
  · intro shown
    obtain ⟨child, below, relation, rfl⟩ := shown
    cases nodeOf_below finished assembled present below with
    | fq => cases relation
    | subsidiary owned => exact owned
  · exact exists_subsidiary_below finished assembled present

theorem TreeFor.fq_iff (tree : TreeFor db today query root row) :
    (∃ child, Below row.children child ∧ child.relation = .fq ∧ child.id = id) ↔
      ∃ owner, ReflTransGen db.Owns root.id owner ∧ db.FqOf owner id := by
  obtain ⟨same, _, rounds, rootIds, rows, finished, present, assembled⟩ := tree.nodes
  rw [← same]
  constructor
  · intro shown
    obtain ⟨child, below, relation, rfl⟩ := shown
    cases nodeOf_below finished assembled present below with
    | fq owned fqOf => exact ⟨_, owned, fqOf⟩
    | subsidiary => cases relation
  · intro linked
    obtain ⟨owner, owned, fqOf⟩ := linked
    exact exists_fq_below finished assembled present owned fqOf

/-- Every node is a subsidiary or an FQ, under the name of its record. -/
theorem TreeFor.child (tree : TreeFor db today query root row) {child : ListChild} (below : Below row.children child) :
    (child.relation = .subsidiary ∨ child.relation = .fq) ∧
    ∃ record ∈ db.entities.records, record.id = child.id ∧ record.entityName = child.entityName ∧
      child.matchesSearch = matchesQuery query record.entityName := by
  obtain ⟨_, _, rounds, rootIds, rows, finished, present, assembled⟩ := tree.nodes
  cases nodeOf_below finished assembled present below with
  | fq _ _ reached =>
      obtain ⟨record, member, id, name⟩ := row_record finished _ reached
      exact ⟨.inr rfl, record, member, id, name, name ▸ rfl⟩
  | subsidiary _ reached _ =>
      obtain ⟨record, member, id, name⟩ := row_record finished _ reached
      exact ⟨.inl rfl, record, member, id, name, name ▸ rfl⟩

theorem exists_treeFor (acyclic : Acyclic db.ChildOf) (today : Date) (query : EntitiesQuery)
    (known : root.id ∈ db.entities.ids) : ∃ row, TreeFor db today query root row := by
  obtain ⟨rows, finished⟩ := exists_subtree acyclic [root.id]
  obtain ⟨children, assembled⟩ := exists_buildChildren today query acyclic finished known
  exact ⟨_, .built (List.mem_singleton.mpr rfl) known finished assembled⟩

end Tree

/-- The rows of a page are trees of its roots, in their order. -/
theorem page_trees {page : EntitiesPage} (returned : getEntitiesList db today rounds query = some page) :
    ∃ roots, pageRoots db today rounds query = some roots ∧
      List.Forall₂ (TreeFor db today query) roots page.data := by
  obtain ⟨roots, rows, selected, finished, _, built⟩ := getEntitiesList_ok returned
  obtain ⟨_, known⟩ := pageRoots_ok selected
  refine ⟨roots, selected, ?_⟩
  rw [← List.forall₂_eq_eq_eq, List.forall₂_map_left_iff, List.forall₂_map_right_iff] at built
  have pairs := (List.forall₂_and_left roots page.data).mpr ⟨fun root (member : root ∈ roots) => member, built⟩
  refine pairs.imp fun root row pair => ?_
  obtain ⟨member, found⟩ := pair
  obtain ⟨children, assembled, rfl⟩ := Option.map_eq_some_iff.mp found
  have listed := List.mem_map_of_mem (f := CandidateRoot.id) member
  exact .built listed (known listed) finished assembled

omit [Platform] in
/-- 50%_Off owns Beta, which has an FQ. -/
def discountRequest : UploadRequest :=
  ownershipRequest [("50%_Off", "Entity", ""), ("Beta", "Entity", ""), ("Beta FQ", "FQ", "Beta"), ("Gamma", "Entity", "")]
    [("50%_Off", "Beta", "100")]

omit [Platform] in
def discountState : Database :=
  letI := asciiPlatform
  (processUpload discountRequest.limits discountRequest.today discountRequest.files Database.initial).1

omit [Platform] in
theorem discountState_acyclic : Acyclic discountState.ChildOf := by
  have allowed : letI := asciiPlatform
      ClearNames (discountRequest.validated Database.initial) ∧
        KeepsOwners Database.initial (discountRequest.validated Database.initial) := by
    decide +kernel
  let _ := asciiPlatform
  exact (LinkInvariant.initial.step discountRequest (fun _ => allowed) rfl).acyclic

omit [Platform] in
theorem discountState_few : discountState.FewWalks discountState.entities.ids :=
  fewWalks_of_rows 4 (by decide +kernel)

end Coverpin.Registry
