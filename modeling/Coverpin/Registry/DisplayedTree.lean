import Coverpin.Registry.EntitiesList
import Coverpin.Registry.SubtreePaths
import Coverpin.Upload.ChildLinks

namespace Coverpin.Registry

open Coverpin.Data Coverpin.Database Coverpin.Upload Coverpin.Validation Relation

/-! # The trees of a page and the links of the tables

A node of a tree gets its children from all rows that were reached from its
entity.  There is a copy of them for each walk that leads to the entity, so the
children match the tables exactly where one walk does.
-/

variable [Platform] {db : Database} {today : Date} {rounds : Nat} {query : EntitiesQuery}

/-- What top-level rows and subsidiaries have in common. -/
structure ShownNode where
  id : EntityId
  subsidiaryCount : Nat
  fqCount : Nat
  children : List ListChild

def ListRow.node (row : ListRow) : ShownNode :=
  ⟨row.id, row.subsidiaryCount, row.fqCount, row.children⟩

def ListChild.node (child : ListChild) : ShownNode :=
  ⟨child.id, child.subsidiaryCount, child.fqCount, child.children⟩

/-- The top-level rows of a page, and the subsidiaries at any depth below them. -/
inductive Displayed (page : EntitiesPage) : ShownNode → Prop where
  | topLevel {row : ListRow} (member : row ∈ page.data) : Displayed page row.node
  | subsidiary {node : ShownNode} {child : ListChild} (displayed : Displayed page node)
      (member : child ∈ node.children) (relation : child.relation = .subsidiary) : Displayed page child.node

/-- A node has one child for each FQ and each ownership edge of its entity, and
counts them. -/
structure ChildrenMatch (db : Database) (node : ShownNode) : Prop where
  children : (node.children.map fun child => (child.relation, child.id)).Perm
    ((db.fqsOf node.id).map (fun fq => (LinkRelation.fq, fq.id)) ++
      (db.edgesFrom node.id).map fun edge => (LinkRelation.subsidiary, edge.childEntityId))
  subsidiaryCount : node.subsidiaryCount = (db.edgesFrom node.id).length
  fqCount : node.fqCount = (db.fqsOf node.id).length

/-- Every entity on the page that has a child link is reached from the roots of
the page along one walk only. -/
def ShownOnce (db : Database) (rootIds : List EntityId) : Prop :=
  ∀ root ∈ rootIds, ∀ id, ReflTransGen db.Owns root id → db.linksFrom id ≠ [] →
    ReachedOnce db.linksFrom ChildLink.childId rootIds id

omit [Platform] in
theorem mapM_eq_some_iff {α β : Type} {f : α → Option β} {items : List α} {results : List β} :
    items.mapM f = some results ↔ items.map f = results.map some := by
  induction items generalizing results with
  | nil => cases results <;> simp
  | cons item items induction =>
      rw [List.mapM_cons]
      simp only [bind, Option.bind_eq_some_iff, pure, Option.some.injEq, induction, List.map_cons]
      constructor
      · intro each
        obtain ⟨result, found, rest, later, rfl⟩ := each
        rw [found, later, List.map_cons]
      · intro same
        cases results with
        | nil => cases same
        | cons result results =>
            obtain ⟨found, later⟩ := List.cons_eq_cons.mp same
            exact ⟨result, found, results, later, rfl⟩

omit [Platform] in
theorem exists_mapM {α β : Type} {f : α → Option β} (items : List α)
    (each : ∀ item ∈ items, ∃ result, f item = some result) :
    ∃ results, items.mapM f = some results := by
  induction items with
  | nil => exact ⟨[], rfl⟩
  | cons item items induction =>
      obtain ⟨result, found⟩ := each item (by simp)
      obtain ⟨results, later⟩ := induction fun other member => each other (List.mem_cons_of_mem _ member)
      exact ⟨result :: results, by rw [List.mapM_cons, found, later]; rfl⟩

/-- A node as the recursion puts it together. -/
structure Assembled (context : PageContext) (node : ShownNode) : Prop where
  children : ∃ rounds, context.buildChildren rounds node.id = some node.children
  subsidiaryCount : node.subsidiaryCount = (context.directOf .subsidiary node.id).length
  fqCount : node.fqCount = (context.directOf .fq node.id).length

section Assembled

variable {context : PageContext} {node : ShownNode}

theorem buildChildren_eq_some {id : EntityId} {children : List ListChild}
    (built : context.buildChildren rounds id = some children) :
    ∃ fewer subsidiaries, ((context.directOf .subsidiary id).map fun row =>
        (context.buildChildren fewer row.id).map (context.subsidiaryChild row)) = subsidiaries.map some ∧
      children = (context.directOf .fq id).map context.fqChild ++ subsidiaries := by
  cases rounds with
  | zero => cases built
  | succ fewer =>
      obtain ⟨subsidiaries, mapped, same⟩ := Option.bind_eq_some_iff.mp built
      cases same
      exact ⟨fewer, subsidiaries, mapM_eq_some_iff.mp mapped, rfl⟩

theorem Assembled.entries (assembled : Assembled context node) :
    node.children.map (fun child => (child.relation, child.id)) =
      (context.directOf .fq node.id).map (fun row => (LinkRelation.fq, row.id)) ++
        (context.directOf .subsidiary node.id).map fun row => (LinkRelation.subsidiary, row.id) := by
  obtain ⟨rounds, built⟩ := assembled.children
  obtain ⟨fewer, subsidiaries, each, same⟩ := buildChildren_eq_some built
  have entries : subsidiaries.map (fun child => (child.relation, child.id)) =
      (context.directOf .subsidiary node.id).map fun row => (LinkRelation.subsidiary, row.id) := by
    clear same
    generalize context.directOf .subsidiary node.id = direct at each
    induction direct generalizing subsidiaries with
    | nil => cases subsidiaries <;> simp at each ⊢
    | cons row direct induction =>
        cases subsidiaries with
        | nil => cases each
        | cons child subsidiaries =>
            obtain ⟨first, later⟩ := List.cons_eq_cons.mp each
            obtain ⟨grandchildren, _, rfl⟩ := Option.map_eq_some_iff.mp first
            rw [List.map_cons, List.map_cons, induction _ later]
            rfl
  rw [same, List.map_append, entries, List.map_map]
  rfl

theorem Assembled.child_cases (assembled : Assembled context node) {child : ListChild} (member : child ∈ node.children) :
    (∃ row ∈ context.directOf .fq node.id, child = context.fqChild row) ∨
      ∃ row ∈ context.directOf .subsidiary node.id, ∃ children, child = context.subsidiaryChild row children ∧
        Assembled context child.node := by
  obtain ⟨rounds, built⟩ := assembled.children
  obtain ⟨fewer, subsidiaries, each, same⟩ := buildChildren_eq_some built
  rw [same, List.mem_append] at member
  rcases member with fq | subsidiary
  · obtain ⟨row, direct, rfl⟩ := List.mem_map.mp fq
    exact .inl ⟨row, direct, rfl⟩
  · have listed : some child ∈ subsidiaries.map some := List.mem_map_of_mem subsidiary
    rw [← each] at listed
    obtain ⟨row, direct, found⟩ := List.mem_map.mp listed
    obtain ⟨children, builtBelow, rfl⟩ := Option.map_eq_some_iff.mp found
    exact .inr ⟨row, direct, children, rfl, ⟨fewer, builtBelow⟩, rfl, rfl⟩

theorem Assembled.exists_child (assembled : Assembled context node) {relation : LinkRelation}
    (linked : relation = .fq ∨ relation = .subsidiary) {target : EntityId}
    (direct : target ∈ (context.directOf relation node.id).map SubtreeRow.id) :
    ∃ child ∈ node.children, child.relation = relation ∧ child.id = target := by
  obtain ⟨row, inside, rfl⟩ := List.mem_map.mp direct
  have listed : (relation, row.id) ∈ node.children.map fun child => (child.relation, child.id) := by
    rw [assembled.entries]
    rcases linked with rfl | rfl
    · exact List.mem_append_left _ (List.mem_map.mpr ⟨row, inside, rfl⟩)
    · exact List.mem_append_right _ (List.mem_map.mpr ⟨row, inside, rfl⟩)
  obtain ⟨child, member, same⟩ := List.mem_map.mp listed
  obtain ⟨isRelation, id⟩ := Prod.mk.injEq .. ▸ same
  exact ⟨child, member, isRelation, id⟩

end Assembled

omit [Platform] in
/-- What a page is built from, with the filings of its rows. -/
def contextOf (db : Database) (today : Date) (query : EntitiesQuery) (rows : List SubtreeRow) : PageContext :=
  pageContext today query rows (db.filings.records.filter fun filing => (rows.map SubtreeRow.id).contains filing.entityId)

section Rows

variable {rootIds : List EntityId} {rows : List SubtreeRow} {node : ShownNode}

omit [Platform] in
theorem direct_eq (id : EntityId) : (contextOf db today query rows).direct id =
    (rows.filter (·.relation ≠ .self)).filter (·.viaParentId = some id) :=
  InsertionMap.getD_groupBy

omit [Platform] in
/-- The rows of one relation below a node are copies of its targets, one for each
walk that leads to the node. -/
theorem directOf_perm (today : Date) (query : EntitiesQuery) (finished : db.subtree rounds rootIds = some rows)
    (relation : LinkRelation) (id : EntityId) :
    (((contextOf db today query rows).directOf relation id).map SubtreeRow.id).Perm
      (List.replicate ((rows.map SubtreeRow.id).count id) (db.targets relation id)).flatten := by
  rw [PageContext.directOf, direct_eq]
  exact reached_targets finished relation id

omit [Platform] in
theorem directOf_length (finished : db.subtree rounds rootIds = some rows) (relation : LinkRelation) (id : EntityId) :
    ((contextOf db today query rows).directOf relation id).length =
      (rows.map SubtreeRow.id).count id * (db.targets relation id).length := by
  have length := (directOf_perm today query finished relation id).length_eq
  simpa using length

omit [Platform] in
theorem mem_rows_of_directOf {relation : LinkRelation} {id : EntityId} {row : SubtreeRow}
    (direct : row ∈ (contextOf db today query rows).directOf relation id) : row ∈ rows := by
  rw [PageContext.directOf, direct_eq] at direct
  exact (List.mem_filter.mp (List.mem_filter.mp (List.mem_filter.mp direct).1).1).1

omit [Platform] in
theorem mem_targets_of_directOf (finished : db.subtree rounds rootIds = some rows) {relation : LinkRelation}
    {id target : EntityId}
    (direct : target ∈ ((contextOf db today query rows).directOf relation id).map SubtreeRow.id) :
    target ∈ db.targets relation id := by
  obtain ⟨copy, member, inside⟩ := List.mem_flatten.mp ((directOf_perm today query finished relation id).subset direct)
  rwa [List.eq_of_mem_replicate member] at inside

omit [Platform] in
/-- The rows below an entity that the query has reached are those of its links. -/
theorem directOf_ids (today : Date) (query : EntitiesQuery) (finished : db.subtree rounds rootIds = some rows)
    {id target : EntityId} (present : id ∈ rows.map SubtreeRow.id) (relation : LinkRelation) :
    target ∈ ((contextOf db today query rows).directOf relation id).map SubtreeRow.id ↔
      target ∈ db.targets relation id := by
  refine ⟨mem_targets_of_directOf finished, fun linked => ?_⟩
  have counted : (rows.map SubtreeRow.id).count id ≠ 0 := (List.count_pos_iff.mpr present).ne'
  rw [(directOf_perm today query finished relation id).mem_iff, List.mem_flatten]
  exact ⟨_, List.mem_replicate.mpr ⟨counted, rfl⟩, linked⟩

omit [Platform] in
theorem owns_of_directOf (finished : db.subtree rounds rootIds = some rows) {id : EntityId} {row : SubtreeRow}
    (direct : row ∈ (contextOf db today query rows).directOf .subsidiary id) : db.Owns id row.id :=
  mem_targets_subsidiary.mp (mem_targets_of_directOf finished (List.mem_map_of_mem direct))

/-- The children of a node match the tables exactly when its entity has no child
links or one row. -/
theorem childrenMatch_iff (finished : db.subtree rounds rootIds = some rows)
    (assembled : Assembled (contextOf db today query rows) node) (present : node.id ∈ rows.map SubtreeRow.id) :
    ChildrenMatch db node ↔ (db.linksFrom node.id ≠ [] → (rows.map SubtreeRow.id).count node.id ≤ 1) := by
  have positive : 0 < (rows.map SubtreeRow.id).count node.id := List.count_pos_iff.mpr present
  have fqLength : (db.fqsOf node.id).length = (db.targets .fq node.id).length := by rw [targets_fq, List.length_map]
  have edgeLength : (db.edgesFrom node.id).length = (db.targets .subsidiary node.id).length := by
    rw [targets_subsidiary, List.length_map]
  constructor
  · intro matching linked
    have fqCount := assembled.fqCount.symm.trans matching.fqCount
    have subsidiaryCount := assembled.subsidiaryCount.symm.trans matching.subsidiaryCount
    rw [directOf_length finished, fqLength] at fqCount
    rw [directOf_length finished, edgeLength] at subsidiaryCount
    apply Nat.le_of_not_lt
    intro repeated
    have none : ∀ n, (rows.map SubtreeRow.id).count node.id * n = n → n = 0 := by
      intro n same
      have twice := Nat.mul_le_mul_right n repeated
      omega
    exact linked (linksFrom_eq_nil_iff.mpr
      ⟨List.eq_nil_of_length_eq_zero (none _ fqCount), List.eq_nil_of_length_eq_zero (none _ subsidiaryCount)⟩)
  · intro once
    have copies : ∀ relation, (((contextOf db today query rows).directOf relation node.id).map SubtreeRow.id).Perm
        (db.targets relation node.id) := by
      intro relation
      refine (directOf_perm today query finished relation node.id).trans (List.Perm.of_eq ?_)
      by_cases unlinked : db.linksFrom node.id = []
      · simp [targets, unlinked]
      · have single : (rows.map SubtreeRow.id).count node.id = 1 := by have bound := once unlinked; omega
        simp [single]
    have lengths : ∀ relation, ((contextOf db today query rows).directOf relation node.id).length =
        (db.targets relation node.id).length := fun relation => by rw [← (copies relation).length_eq, List.length_map]
    refine ⟨?_, assembled.subsidiaryCount.trans ((lengths _).trans edgeLength.symm),
      assembled.fqCount.trans ((lengths _).trans fqLength.symm)⟩
    have fqs := (copies .fq).map fun id => (LinkRelation.fq, id)
    have subsidiaries := (copies .subsidiary).map fun id => (LinkRelation.subsidiary, id)
    rw [targets_fq, List.map_map, List.map_map] at fqs
    rw [targets_subsidiary, List.map_map, List.map_map] at subsidiaries
    rw [assembled.entries]
    exact fqs.append subsidiaries

end Rows

omit [Platform] in
theorem fetchCandidateRoots_ids : ((fetchCandidateRoots db query).map CandidateRoot.id).Sublist db.entities.ids := by
  rw [fetchCandidateRoots, List.map_map]
  exact List.filter_sublist.map _

omit [Platform] in
theorem findFilings_eq_some {filings found : List Filing} {ids : List EntityId} : findFilings filings ids = some found ↔
    ids.length ≤ maxParameters ∧ filings.filter (fun filing => ids.contains filing.entityId) = found := by
  rw [findFilings, Option.ite_none_right_eq_some, Option.some.injEq]

omit [Platform] in
theorem findFilings_of_few {ids : List EntityId} (few : ids.length ≤ maxParameters) (filings : List Filing) :
    findFilings filings ids = some (filings.filter fun filing => ids.contains filing.entityId) :=
  if_pos few

theorem selectCandidates_eq_some {candidates : List CandidateRoot} :
    selectCandidates db today rounds query = some candidates ↔ ∃ matching kept,
      searchRoots db rounds query (fetchCandidateRoots db query) = some matching ∧
      filterByCompliance db today query matching = some kept ∧ sortCandidates kept = candidates := by
  simp only [selectCandidates, Option.bind_eq_bind, Option.bind_eq_some_iff, Option.pure_def, Option.some.injEq,
    exists_and_left]

theorem searchRoots_kept {candidates matching : List CandidateRoot}
    (searched : searchRoots db rounds query candidates = some matching) : matching.Sublist candidates := by
  unfold searchRoots at searched
  split at searched
  · cases searched
    exact .refl _
  · split at searched
    · cases searched
      exact .refl _
    · obtain ⟨ids, _, rfl⟩ := Option.map_eq_some_iff.mp searched
      exact List.filter_sublist

theorem filterByCompliance_kept {candidates kept : List CandidateRoot}
    (filtered : filterByCompliance db today query candidates = some kept) : kept.Sublist candidates := by
  unfold filterByCompliance at filtered
  split at filtered
  · cases filtered
    exact .refl _
  · split at filtered
    · cases filtered
      exact .refl _
    · obtain ⟨filings, _, rfl⟩ := Option.map_eq_some_iff.mp filtered
      exact List.filter_sublist

/-- The candidates of a request are some of those fetched, each once. -/
theorem selectCandidates_kept {candidates : List CandidateRoot}
    (selected : selectCandidates db today rounds query = some candidates) :
    ∃ kept, kept.Sublist (fetchCandidateRoots db query) ∧ candidates.Perm kept := by
  obtain ⟨matching, kept, searched, filtered, rfl⟩ := selectCandidates_eq_some.mp selected
  exact ⟨kept, (filterByCompliance_kept filtered).trans (searchRoots_kept searched), List.perm_insertionSort _ _⟩

theorem pageRoots_of_selected {candidates : List CandidateRoot}
    (selected : selectCandidates db today rounds query = some candidates) :
    pageRoots db today rounds query = some ((paginate query candidates.length).slice candidates) := by
  rw [pageRoots, selected, Option.map_some]

theorem pageRoots_ok {roots : List CandidateRoot} (selected : pageRoots db today rounds query = some roots) :
    (roots.map CandidateRoot.id).Nodup ∧ roots.map CandidateRoot.id ⊆ db.entities.ids := by
  obtain ⟨candidates, found, rfl⟩ := Option.map_eq_some_iff.mp selected
  obtain ⟨kept, some, perm⟩ := selectCandidates_kept found
  have stored := (some.map CandidateRoot.id).trans fetchCandidateRoots_ids
  have sliced : ((Pagination.slice (paginate query candidates.length) candidates).map CandidateRoot.id).Sublist
      (candidates.map CandidateRoot.id) := ((List.take_sublist _ _).trans (List.drop_sublist _ _)).map _
  exact ⟨((perm.map _).nodup_iff.mpr (db.entities.unique.1.sublist stored)).sublist sliced,
    fun id member => stored.subset ((perm.map _).subset (sliced.subset member))⟩

theorem getEntitiesList_ok {page : EntitiesPage} (returned : getEntitiesList db today rounds query = some page) :
    ∃ roots rows, pageRoots db today rounds query = some roots ∧
      db.subtree rounds (roots.map CandidateRoot.id) = some rows ∧ rows.length ≤ maxParameters ∧
      roots.map (fun root => ((contextOf db today query rows).buildChildren rounds root.id).map
        ((contextOf db today query rows).topLevelRow root)) = page.data.map some := by
  obtain ⟨candidates, selected, built⟩ := Option.bind_eq_some_iff.mp returned
  refine ⟨(paginate query candidates.length).slice candidates, ?_⟩
  simp only [pageRoots, selected, Option.map_some, true_and]
  simp only at built
  split at built
  · rename_i empty
    cases built
    have none : db.selfRows [] = [] := by simp [selfRows]
    refine ⟨[], ?_, Nat.zero_le _, by rw [empty]; rfl⟩
    rw [empty, List.map_nil, subtree, none]
    cases rounds <;> rfl
  · rename_i some
    obtain ⟨rows, fetched, built⟩ := Option.bind_eq_some_iff.mp built
    obtain ⟨filings, found, built⟩ := Option.bind_eq_some_iff.mp built
    obtain ⟨few, rfl⟩ := findFilings_eq_some.mp found
    obtain ⟨data, mapped, built⟩ := Option.bind_eq_some_iff.mp built
    cases built
    rw [fetchSubtrees, if_neg (by simpa using some)] at fetched
    exact ⟨rows, fetched, List.length_map SubtreeRow.id ▸ few, mapM_eq_some_iff.mp mapped⟩

theorem topLevel_assembled {page : EntitiesPage} {roots : List CandidateRoot} {rows : List SubtreeRow}
    (assembled : roots.map (fun root => ((contextOf db today query rows).buildChildren rounds root.id).map
      ((contextOf db today query rows).topLevelRow root)) = page.data.map some)
    {row : ListRow} (member : row ∈ page.data) :
    Assembled (contextOf db today query rows) row.node ∧ row.id ∈ roots.map CandidateRoot.id := by
  have listed : some row ∈ page.data.map some := List.mem_map_of_mem member
  rw [← assembled] at listed
  obtain ⟨root, inside, found⟩ := List.mem_map.mp listed
  obtain ⟨children, built, rfl⟩ := Option.map_eq_some_iff.mp found
  exact ⟨⟨⟨rounds, built⟩, rfl, rfl⟩, List.mem_map_of_mem inside⟩

section Page

variable {page : EntitiesPage} {roots : List CandidateRoot} {rows : List SubtreeRow}
  (finished : db.subtree rounds (roots.map CandidateRoot.id) = some rows)
  (assembled : roots.map (fun root => ((contextOf db today query rows).buildChildren rounds root.id).map
    ((contextOf db today query rows).topLevelRow root)) = page.data.map some)

include finished assembled in
theorem displayed_ok (exist : roots.map CandidateRoot.id ⊆ db.entities.ids) {node : ShownNode}
    (displayed : Displayed page node) : Assembled (contextOf db today query rows) node ∧
      node.id ∈ rows.map SubtreeRow.id ∧ ∃ root ∈ roots.map CandidateRoot.id, ReflTransGen db.Owns root node.id := by
  induction displayed with
  | topLevel member =>
      obtain ⟨built, isRoot⟩ := topLevel_assembled assembled member
      exact ⟨built, mem_subtree_root finished isRoot (exist isRoot), _, isRoot, .refl⟩
  | @subsidiary node child _ member relation induction =>
      obtain ⟨built, _, root, isRoot, owned⟩ := induction
      rcases built.child_cases member with ⟨row, _, rfl⟩ | ⟨row, direct, children, rfl, below⟩
      · cases relation
      · exact ⟨below, List.mem_map_of_mem (mem_rows_of_directOf direct), root, isRoot,
          owned.tail (owns_of_directOf finished direct)⟩

include finished assembled in
theorem exists_displayed (exist : roots.map CandidateRoot.id ⊆ db.entities.ids) {root id : EntityId}
    (isRoot : root ∈ roots.map CandidateRoot.id) (owned : ReflTransGen db.Owns root id) :
    ∃ node, Displayed page node ∧ node.id = id := by
  induction owned with
  | refl =>
      obtain ⟨source, member, rfl⟩ := List.mem_map.mp isRoot
      have listed := List.mem_map_of_mem (f := fun root =>
        ((contextOf db today query rows).buildChildren rounds root.id).map
          ((contextOf db today query rows).topLevelRow root)) member
      rw [assembled] at listed
      obtain ⟨row, inside, found⟩ := List.mem_map.mp listed
      obtain ⟨children, _, rfl⟩ := Option.map_eq_some_iff.mp found.symm
      exact ⟨_, .topLevel inside, rfl⟩
  | @tail parent child _ edge induction =>
      obtain ⟨node, displayed, rfl⟩ := induction
      obtain ⟨built, present, _⟩ := displayed_ok finished assembled exist displayed
      have direct := (directOf_ids today query finished present .subsidiary).mpr (mem_targets_subsidiary.mpr edge)
      obtain ⟨listed, member, relation, id⟩ := built.exists_child (.inr rfl) direct
      exact ⟨listed.node, .subsidiary displayed member relation, id⟩

end Page

theorem exists_buildChildren (today : Date) (query : EntitiesQuery) {rootIds : List EntityId} {rows : List SubtreeRow}
    (acyclic : Acyclic db.ChildOf)
    (finished : db.subtree rounds rootIds = some rows) {id : EntityId} (exists_ : id ∈ db.entities.ids) :
    ∃ children, (contextOf db today query rows).buildChildren db.entities.ids.length id = some children := by
  suffices general : ∀ fewer steps id, db.entities.ids.length ≤ fewer + steps →
      EndsPath db.ChildOf db.entities.ids steps id →
      ∃ children, (contextOf db today query rows).buildChildren fewer id = some children from
    general _ 0 id (Nat.le_refl _) (.start exists_)
  intro fewer
  induction fewer with
  | zero =>
      intro steps id bound path
      have short := path.lt acyclic
      omega
  | succ fewer induction =>
      intro steps id bound path
      obtain ⟨subsidiaries, mapped⟩ := exists_mapM (f := fun row =>
          ((contextOf db today query rows).buildChildren fewer row.id).map
            ((contextOf db today query rows).subsidiaryChild row))
        ((contextOf db today query rows).directOf .subsidiary id) (by
          intro row direct
          have linked := childOf_iff.mpr (.inl (owns_of_directOf finished direct))
          obtain ⟨children, built⟩ := induction (steps + 1) row.id (by omega) (path.step linked linked.exist.2)
          exact ⟨_, by rw [built]; rfl⟩)
      exact ⟨_, by rw [PageContext.buildChildren, mapped]; rfl⟩

theorem exists_searchRoots (acyclic : Acyclic db.ChildOf) (query : EntitiesQuery) (candidates : List CandidateRoot) :
    ∃ matching, searchRoots db db.entities.ids.length query candidates = some matching := by
  unfold searchRoots
  split
  · exact ⟨_, rfl⟩
  · split
    · exact ⟨_, rfl⟩
    · obtain ⟨rows, finished⟩ := exists_subtree acyclic (candidates.map CandidateRoot.id)
      unfold findRootsMatchingSearch
      split
      · exact ⟨_, rfl⟩
      · exact ⟨_, by rw [finished]; rfl⟩

theorem exists_filterByCompliance (db : Database) (today : Date) (query : EntitiesQuery) {candidates : List CandidateRoot}
    (few : candidates.length ≤ maxParameters) : ∃ kept, filterByCompliance db today query candidates = some kept := by
  unfold filterByCompliance
  split
  · exact ⟨_, rfl⟩
  · split
    · exact ⟨_, rfl⟩
    · have found := findFilings_of_few ((List.length_map CandidateRoot.id).trans_le few) db.filings.records
      exact ⟨_, by rw [found, Option.map_some]⟩

/-- A page is there when its candidates are, and its trees have few rows. -/
theorem exists_page_of_roots (acyclic : Acyclic db.ChildOf) {candidates : List CandidateRoot}
    (selected : selectCandidates db today db.entities.ids.length query = some candidates)
    (few : db.FewWalks (((paginate query candidates.length).slice candidates).map CandidateRoot.id)) :
    ∃ page, getEntitiesList db today db.entities.ids.length query = some page := by
  have roots := pageRoots_ok (pageRoots_of_selected selected)
  unfold getEntitiesList
  simp only [selected, Option.bind_eq_bind, Option.bind_some]
  split
  · exact ⟨_, rfl⟩
  · rename_i some
    obtain ⟨rows, finished⟩ := exists_subtree acyclic
      (((paginate query candidates.length).slice candidates).map CandidateRoot.id)
    have found := findFilings_of_few
      ((List.length_map SubtreeRow.id).trans_le ((fewWalks_iff finished roots.2).mp few)) db.filings.records
    obtain ⟨data, mapped⟩ := exists_mapM (f := fun root =>
        ((contextOf db today query rows).buildChildren db.entities.ids.length root.id).map
          ((contextOf db today query rows).topLevelRow root))
      ((paginate query candidates.length).slice candidates) (by
        intro root member
        obtain ⟨children, built⟩ := exists_buildChildren today query acyclic finished
          (roots.2 (List.mem_map_of_mem member))
        exact ⟨_, by rw [built]; rfl⟩)
    refine ⟨⟨data, paginate query candidates.length⟩, ?_⟩
    rw [fetchSubtrees, if_neg (by simpa using some), finished, Option.bind_some, found, Option.bind_some]
    exact Option.bind_eq_some_iff.mpr ⟨data, mapped, rfl⟩

/-- With few walks altogether there is a page for every query. -/
theorem exists_getEntitiesList (acyclic : Acyclic db.ChildOf) (few : db.FewWalks db.entities.ids) (today : Date)
    (query : EntitiesQuery) : ∃ page, getEntitiesList db today db.entities.ids.length query = some page := by
  obtain ⟨matching, searched⟩ := exists_searchRoots acyclic query (fetchCandidateRoots db query)
  have fetched : (fetchCandidateRoots db query).length ≤ db.entities.ids.length := by
    rw [← List.length_map CandidateRoot.id]
    exact fetchCandidateRoots_ids.length_le
  obtain ⟨kept, filtered⟩ := exists_filterByCompliance db today query
    ((searchRoots_kept searched).length_le.trans (fetched.trans (few.entities acyclic)))
  have selected := selectCandidates_eq_some.mpr ⟨_, _, searched, filtered, rfl⟩
  exact exists_page_of_roots acyclic selected (few.mono (pageRoots_ok (pageRoots_of_selected selected)).2)

/-- With acyclic links, few walks and any query there is a page; and whenever a page
is returned, all displayed nodes have the children that the tables give them
exactly when one walk leads from the roots of the page to each shown entity with
child links. -/
theorem displayed_match_iff (acyclic : Acyclic db.ChildOf) (today : Date) (query : EntitiesQuery) :
    (db.FewWalks db.entities.ids → ∃ rounds page, getEntitiesList db today rounds query = some page) ∧
    ∀ rounds page, getEntitiesList db today rounds query = some page →
      ∃ roots, pageRoots db today rounds query = some roots ∧
        ((∀ node, Displayed page node → ChildrenMatch db node) ↔ ShownOnce db (roots.map CandidateRoot.id)) := by
  refine ⟨fun few => ⟨_, exists_getEntitiesList acyclic few today query⟩, fun rounds page returned => ?_⟩
  obtain ⟨roots, rows, selected, finished, _, assembled⟩ := getEntitiesList_ok returned
  obtain ⟨_, exist⟩ := pageRoots_ok selected
  refine ⟨roots, selected, ?_⟩
  constructor
  · intro matching root isRoot id owned linked
    obtain ⟨node, displayed, rfl⟩ := exists_displayed finished assembled exist isRoot owned
    obtain ⟨built, present, _⟩ := displayed_ok finished assembled exist displayed
    exact (count_ids_le_one_iff finished exist node.id).mp
      ((childrenMatch_iff finished built present).mp (matching node displayed) linked)
  · intro once node displayed
    obtain ⟨built, present, root, isRoot, owned⟩ := displayed_ok finished assembled exist displayed
    exact (childrenMatch_iff finished built present).mpr fun linked =>
      (count_ids_le_one_iff finished exist node.id).mpr (once root isRoot node.id owned linked)

omit [Platform] in
/-- Acme and Crown own Beta together, and Beta owns Gamma. -/
def sharedRequest : UploadRequest :=
  ownershipRequest [("Acme", "Entity", ""), ("Crown", "Entity", ""), ("Beta", "Entity", ""), ("Gamma", "Entity", "")]
    [("Acme", "Beta", "50"), ("Crown", "Beta", "50"), ("Beta", "Gamma", "100")]

omit [Platform] in
def sharedState : Database :=
  letI := asciiPlatform
  (processUpload sharedRequest.limits sharedRequest.today sharedRequest.files Database.initial).1

omit [Platform] in
def firstPage : EntitiesQuery :=
  { search := none, page := none, pageSize := none, entityStatus := none, complianceStatus := none, jurisdiction := none }

omit [Platform] in
theorem sharedState_acyclic : Acyclic sharedState.ChildOf := by
  have allowed : letI := asciiPlatform
      ClearNames (sharedRequest.validated Database.initial) ∧
        KeepsOwners Database.initial (sharedRequest.validated Database.initial) := by
    decide +kernel
  let _ := asciiPlatform
  exact (LinkInvariant.initial.step sharedRequest (fun _ => allowed) rfl).acyclic

omit [Platform] in
theorem sharedState_few : sharedState.FewWalks sharedState.entities.ids :=
  fewWalks_of_rows 4 (by decide +kernel)

omit [Platform] in
/-- Beta is shown under both of its owners with Gamma listed, and counted, twice. -/
theorem shared_subsidiary_repeats : ¬ ∀ [Platform] (db : Database) (today : Date) (query : EntitiesQuery)
    (rounds : Nat) (page : EntitiesPage), Acyclic db.ChildOf → getEntitiesList db today rounds query = some page →
    ∀ node, Displayed page node → ChildrenMatch db node := by
  intro claimed
  have shown : letI := asciiPlatform
      ∃ page ∈ getEntitiesList sharedState ⟨0⟩ 4 firstPage, ∃ row ∈ page.data, ∃ child ∈ row.children,
        child.relation = .subsidiary ∧ child.subsidiaryCount = 2 ∧ (sharedState.edgesFrom child.id).length = 1 := by
    decide +kernel
  let _ := asciiPlatform
  obtain ⟨page, returned, row, member, child, below, relation, counted, owned⟩ := shown
  have matching := claimed sharedState ⟨0⟩ firstPage 4 page sharedState_acyclic returned child.node
    (.subsidiary (.topLevel member) below relation)
  have same : child.subsidiaryCount = (sharedState.edgesFrom child.id).length := matching.subsidiaryCount
  omega

omit [Platform] in
/-- The first page of that state: it is not shown once, as Beta is reached from
two roots. -/
theorem shared_page_returned :
    letI := asciiPlatform
    (∃ rounds page, getEntitiesList sharedState ⟨0⟩ rounds firstPage = some page) ∧
    ∀ rounds page, getEntitiesList sharedState ⟨0⟩ rounds firstPage = some page →
      ∃ roots, pageRoots sharedState ⟨0⟩ rounds firstPage = some roots ∧
        ((∀ node, Displayed page node → ChildrenMatch sharedState node) ↔
          ShownOnce sharedState (roots.map CandidateRoot.id)) := by
  let _ := asciiPlatform
  obtain ⟨shown, matching⟩ := displayed_match_iff sharedState_acyclic ⟨0⟩ firstPage
  exact ⟨shown sharedState_few, matching⟩

end Coverpin.Registry
