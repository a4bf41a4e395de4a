import Coverpin.Database.SameRows
import Coverpin.Registry.TreeNodes
import Coverpin.Upload.RegistrationRules

namespace Coverpin.Registry

open Coverpin.Data Coverpin.Database Coverpin.Upload Coverpin.Validation Relation

/-! # Paging

Every page comes from a query of its own, which may list the rows in an order of
its own.  Together the pages show each top-level entity once, and every other
record in some tree, unless from the entities of one page more walks start than a
statement has parameters.
-/

/-- No owner, and not an FQ. -/
def TopLevel (db : Database) (id : EntityId) : Prop :=
  (∃ record ∈ db.entities.records, record.id = id ∧ record.registrationType = .entity) ∧ ∀ owner, ¬ db.Owns owner id

def EntitiesQuery.atPage (query : EntitiesQuery) (number : Nat) : EntitiesQuery :=
  { query with page := some number }

theorem flatMap_slices {α : Type} (items : List α) (size pages : Nat) :
    (List.range pages).flatMap (fun index => (items.drop (index * size)).take size) = items.take (pages * size) := by
  induction pages with
  | zero => simp
  | succ pages induction =>
      rw [List.range_succ, List.flatMap_append, induction, List.flatMap_singleton, Nat.succ_mul, List.take_add]

/-- As many pages as it says are enough. -/
theorem le_totalPages (query : EntitiesQuery) (total : Nat) :
    total ≤ (paginate query total).totalPages * (paginate query total).pageSize := by
  have positive : 0 < (paginate query total).pageSize := by
    unfold paginate
    cases query.pageSize with
    | none => exact Nat.succ_pos _
    | some size => exact size.property
  generalize size : (paginate query total).pageSize = pageSize at positive
  have pages : (paginate query total).totalPages = max 1 ((total + pageSize - 1) / pageSize) := by
    rw [← size]
    rfl
  have rounded : total ≤ (total + pageSize - 1) / pageSize * pageSize := by
    have division := Nat.div_add_mod (total + pageSize - 1) pageSize
    have remainder := Nat.mod_lt (total + pageSize - 1) positive
    rw [Nat.mul_comm] at division
    omega
  rw [pages]
  exact rounded.trans (Nat.mul_le_mul_right _ (Nat.le_max_right _ _))

theorem slices_flatten (query : EntitiesQuery) {α : Type} (items : List α) :
    (List.range (paginate query items.length).totalPages).flatMap
      (fun index => (paginate (query.atPage (index + 1)) items.length).slice items) = items := by
  have each : ∀ index ∈ List.range (paginate query items.length).totalPages,
      (paginate (query.atPage (index + 1)) items.length).slice items =
        (items.drop (index * (paginate query items.length).pageSize)).take (paginate query items.length).pageSize := by
    intro index member
    have page : (paginate (query.atPage (index + 1)) items.length).page = index + 1 := by
      have bound : index + 1 ≤ (paginate query items.length).totalPages := List.mem_range.mp member
      show min (max (index + 1) 1) (paginate query items.length).totalPages = index + 1
      omega
    rw [Pagination.slice, page]
    rfl
  rw [List.flatMap_congr each, flatMap_slices, List.take_of_length_le (le_totalPages query _)]

theorem paginate_beyond {query : EntitiesQuery} {total number : Nat} (beyond : (paginate query total).totalPages < number) :
    paginate (query.atPage number) total = paginate (query.atPage (paginate query total).totalPages) total := by
  have positive : 1 ≤ (paginate query total).totalPages := Nat.le_max_left _ _
  have page : (paginate (query.atPage number) total).page =
      (paginate (query.atPage (paginate query total).totalPages) total).page := by
    show min (max number 1) (paginate query total).totalPages =
      min (max (paginate query total).totalPages 1) (paginate query total).totalPages
    omega
  show (⟨_, _, _, _⟩ : Pagination) = ⟨_, _, _, _⟩
  exact congrArg (fun page => (⟨page, _, _, _⟩ : Pagination)) page

section Listed

variable {db listed : Database} (same : SameRows db listed)

include same

theorem owns_listed {owner child : EntityId} : listed.Owns owner child ↔ db.Owns owner child := by
  simp only [Database.Owns, same.ownershipEdges.mem_iff]

theorem fqOf_listed {domestic fq : EntityId} : listed.FqOf domestic fq ↔ db.FqOf domestic fq := by
  simp only [FqOf, same.entities.mem_iff]

theorem childLinks_listed {link : ChildLink} : link ∈ listed.childLinks ↔ link ∈ db.childLinks :=
  ((same.ownershipEdges.map _).append (same.entities.filterMap _)).mem_iff

theorem walksFrom_listed (rootIds : List EntityId) : listed.walksFrom rootIds = db.walksFrom rootIds := by
  have each : ∀ id link, link ∈ listed.linksFrom id ↔ link ∈ db.linksFrom id := by
    intro id link
    rw [linksFrom, linksFrom, List.mem_filter, List.mem_filter, childLinks_listed same]
  exact Set.ext fun walk => isWalk_iff_of_links each

/-- The entities of listed rows start as many walks. -/
theorem fewWalks_listed (few : db.FewWalks db.entities.ids) : listed.FewWalks listed.entities.ids := by
  refine FewWalks.mono ?_ ((same.entities.map EntityRecord.id).subset)
  rwa [FewWalks, walksFrom_listed same]

theorem acyclic_listed (acyclic : Acyclic db.ChildOf) : Acyclic listed.ChildOf :=
  acyclic.mono fun _ _ linked => by
    rwa [childOf_iff, owns_listed same, fqOf_listed same, ← childOf_iff] at linked

theorem fetchCandidateRoots_perm (query : EntitiesQuery) :
    (fetchCandidateRoots listed query).Perm (fetchCandidateRoots db query) := by
  have owned : ∀ id, (listed.ownershipEdges.records.any fun edge => edge.childEntityId = id) =
      db.ownershipEdges.records.any fun edge => edge.childEntityId = id := by
    intro id
    rw [Bool.eq_iff_iff, List.any_eq_true, List.any_eq_true]
    simp only [same.ownershipEdges.mem_iff]
  unfold fetchCandidateRoots
  simp only [owned]
  exact (same.entities.filter _).map _

end Listed

/-- On a cycle of FQ links the domestic entity of an FQ would be an FQ itself. -/
theorem acyclic_fqOf {db : Database} (rules : RegistrationRules db) : Acyclic db.FqOf := by
  intro id cycle
  obtain ⟨_, ⟨fq, member, _, type, isDomestic⟩, _⟩ := TransGen.head'_iff.mp cycle
  obtain ⟨_, _, record, inside, same, isFq, _⟩ := TransGen.tail'_iff.mp cycle
  obtain ⟨domestic, known, wired, entity⟩ := rules.fqs fq member type
  have domesticId : domestic.id = id := Option.some.inj (wired.symm.trans isDomestic)
  rw [Table.eq_of_id inside known (same.trans domesticId.symm), entity] at isFq
  cases isFq

theorem acyclic_childOf {db : Database} (acyclic : Acyclic db.Owns) (rules : RegistrationRules db) :
    Acyclic db.ChildOf := by
  have owners : OwnersAreEntities db := fun edge member record inside isOwner =>
    rules.edges edge member record inside (.inl isOwner)
  exact owners.acyclic acyclic (acyclic_fqOf rules)

/-- Every entity is owned, directly or not, by a top-level one, or is one itself. -/
theorem exists_topLevel {db : Database} (acyclic : Acyclic db.Owns) (rules : RegistrationRules db) {record : EntityRecord}
    (member : record ∈ db.entities.records) (entity : record.registrationType = .entity) :
    ∃ root, TopLevel db root ∧ ReflTransGen db.Owns root record.id := by
  have inside : ∀ owner child, db.Owns owner child → owner ∈ db.entities.ids := by
    intro owner child owns
    obtain ⟨edge, member, rfl, rfl⟩ := owns
    exact (db.references.edges edge member).1
  obtain ⟨root, reached, first⟩ := acyclic.exists_source inside (List.mem_map_of_mem (f := EntityRecord.id) member)
  refine ⟨root, ⟨?_, first⟩, reached⟩
  rcases ReflTransGen.cases_head reached with rfl | ⟨child, owns, _⟩
  · exact ⟨record, member, rfl, entity⟩
  · obtain ⟨edge, stored, rfl, rfl⟩ := owns
    obtain ⟨top, known, same⟩ := List.mem_map.mp (db.references.edges edge stored).1
    exact ⟨top, known, same, rules.edges edge stored top known (.inl same)⟩

section Unfiltered

variable [Platform]

/-- No search and no filter: empty texts count as none. -/
structure Unfiltered (query : EntitiesQuery) : Prop where
  search : query.term = none
  entityStatus : truthy query.entityStatus = none
  complianceStatus : truthy query.complianceStatus = none
  jurisdiction : truthy query.jurisdiction = none

omit [Platform] in
theorem Unfiltered.atPage {query : EntitiesQuery} (unfiltered : Unfiltered query) (number : Nat) :
    Unfiltered (query.atPage number) :=
  ⟨unfiltered.search, unfiltered.entityStatus, unfiltered.complianceStatus, unfiltered.jurisdiction⟩

/-- The collation is a total order and tells apart the names of the table. -/
structure OrdersNames (db : Database) : Prop where
  total : ∀ a b, Platform.localeCompare a b ≠ .gt ∨ Platform.localeCompare b a ≠ .gt
  transitive : ∀ a b c, Platform.localeCompare a b ≠ .gt → Platform.localeCompare b c ≠ .gt →
    Platform.localeCompare a c ≠ .gt
  separates : ∀ record ∈ db.entities.records, ∀ other ∈ db.entities.records,
    Platform.localeCompare record.entityName other.entityName ≠ .gt →
      Platform.localeCompare other.entityName record.entityName ≠ .gt → record.entityName = other.entityName

variable {db listed : Database} {today : Date} {rounds : Nat} {query : EntitiesQuery}

omit [Platform] in
theorem record_of_name {record other : EntityRecord} (member : record ∈ db.entities.records)
    (otherMember : other ∈ db.entities.records) (same : record.entityName = other.entityName) : record = other := by
  have distinct : (db.entities.records.map EntityRecord.entityName).Nodup := by
    refine List.pairwise_map.mpr ((db.entities.unique.2 [.entityName] (by simp [entitySchema])).imp ?_)
    intro record other apart same
    exact apart (by simp [agree, entitySchema, EntityRecord.read, same])
  exact List.inj_on_of_nodup_map distinct member otherMember same

omit [Platform] in
theorem mem_fetchCandidateRoots (entityStatus : truthy query.entityStatus = none)
    (jurisdiction : truthy query.jurisdiction = none) {id : EntityId} :
    id ∈ (fetchCandidateRoots db query).map CandidateRoot.id ↔ TopLevel db id := by
  simp only [fetchCandidateRoots, entityStatus, jurisdiction, Option.all_none, Bool.and_true, List.map_map, List.mem_map,
    List.mem_filter, Bool.and_eq_true, decide_eq_true_eq, Bool.not_eq_true', List.any_eq_false]
  constructor
  · intro listed
    obtain ⟨record, ⟨member, entity, unowned⟩, rfl⟩ := listed
    refine ⟨⟨record, member, rfl, entity⟩, fun owner owns => ?_⟩
    obtain ⟨edge, stored, _, child⟩ := owns
    exact unowned edge stored child
  · intro topLevel
    obtain ⟨⟨record, member, rfl, entity⟩, unowned⟩ := topLevel
    exact ⟨record, ⟨member, entity, fun edge stored child => unowned _ ⟨edge, stored, rfl, child⟩⟩, rfl⟩

theorem sortCandidates_pairwise (orders : OrdersNames db) (candidates : List CandidateRoot) :
    (sortCandidates candidates).Pairwise fun a b => Platform.localeCompare a.entityName b.entityName ≠ .gt := by
  let before := fun a b : CandidateRoot => Platform.localeCompare a.entityName b.entityName ≠ .gt
  have : Std.Total before := ⟨fun a b => orders.total a.entityName b.entityName⟩
  have : IsTrans CandidateRoot before := ⟨fun a b c => orders.transitive a.entityName b.entityName c.entityName⟩
  exact List.pairwise_insertionSort before candidates

/-- The sorted candidates do not depend on the order in which the rows are listed. -/
theorem sortCandidates_listed (orders : OrdersNames db) (same : SameRows db listed) (query : EntitiesQuery) :
    sortCandidates (fetchCandidateRoots listed query) = sortCandidates (fetchCandidateRoots db query) := by
  have perm : ∀ candidates, (sortCandidates candidates).Perm candidates := fun candidates => List.perm_insertionSort _ _
  refine List.Perm.eq_of_pairwise ?_ (sortCandidates_pairwise orders _) (sortCandidates_pairwise orders _)
    ((perm _).trans ((fetchCandidateRoots_perm same query).trans (perm _).symm))
  intro a b listedA listedB before after
  have recorded : ∀ candidate ∈ fetchCandidateRoots db query, ∃ record ∈ db.entities.records,
      candidate = EntityRecord.candidateRoot record := by
    intro candidate fetched
    obtain ⟨record, member, rfl⟩ := List.mem_map.mp fetched
    exact ⟨record, (List.mem_filter.mp member).1, rfl⟩
  obtain ⟨record, member, rfl⟩ := recorded a ((fetchCandidateRoots_perm same query).subset ((perm _).subset listedA))
  obtain ⟨other, otherMember, rfl⟩ := recorded b ((perm _).subset listedB)
  have name := orders.separates record member other otherMember before after
  rw [record_of_name member otherMember name]

theorem selectCandidates_unfiltered (unfiltered : Unfiltered query) :
    selectCandidates db today rounds query = some (sortCandidates (fetchCandidateRoots db query)) := by
  refine selectCandidates_eq_some.mpr ⟨fetchCandidateRoots db query, _, ?_, ?_, rfl⟩
  · rw [searchRoots, unfiltered.search]
  · rw [filterByCompliance, unfiltered.complianceStatus]

theorem pagination_ok {page : EntitiesPage} {candidates : List CandidateRoot}
    (selected : selectCandidates db today rounds query = some candidates)
    (returned : getEntitiesList db today rounds query = some page) :
    page.pagination = paginate query candidates.length := by
  simp only [getEntitiesList, selected, Option.bind_eq_bind, Option.bind_some] at returned
  split at returned
  · cases returned
    rfl
  · obtain ⟨rows, _, built⟩ := Option.bind_eq_some_iff.mp returned
    obtain ⟨filings, _, built⟩ := Option.bind_eq_some_iff.mp built
    obtain ⟨data, _, built⟩ := Option.bind_eq_some_iff.mp built
    cases built
    rfl

theorem selectCandidates_listed (orders : OrdersNames db) (unfiltered : Unfiltered query) (same : SameRows db listed)
    (today : Date) (rounds number : Nat) : selectCandidates listed today rounds (query.atPage number) =
      some (sortCandidates (fetchCandidateRoots db query)) := by
  exact (selectCandidates_unfiltered (unfiltered.atPage number)).trans (congrArg some (sortCandidates_listed orders same query))

/-- A page has the trees of its slice of the sorted candidates. -/
theorem page_of_slice (orders : OrdersNames db) (unfiltered : Unfiltered query) (same : SameRows db listed) {number : Nat}
    {page : EntitiesPage} (returned : getEntitiesList listed today rounds (query.atPage number) = some page) :
    let candidates := sortCandidates (fetchCandidateRoots db query)
    let pagination := paginate (query.atPage number) candidates.length
    page.pagination = pagination ∧
      List.Forall₂ (TreeFor listed today (query.atPage number)) (pagination.slice candidates) page.data := by
  have selected := selectCandidates_listed orders unfiltered same today rounds number
  refine ⟨pagination_ok selected returned, ?_⟩
  obtain ⟨roots, sliced, trees⟩ := page_trees returned
  rw [pageRoots, selected, Option.map_some] at sliced
  exact Option.some.inj sliced ▸ trees

/-- Whatever the page asked for beyond the last one, the answer is the last one. -/
theorem getEntitiesList_beyond (orders : OrdersNames db) (unfiltered : Unfiltered query) (same : SameRows db listed)
    {number : Nat} (today : Date) (rounds : Nat) :
    let totalPages := (paginate query (sortCandidates (fetchCandidateRoots db query)).length).totalPages
    totalPages < number → getEntitiesList listed today rounds (query.atPage number) =
      getEntitiesList listed today rounds (query.atPage totalPages) := by
  intro totalPages beyond
  unfold getEntitiesList
  simp only [selectCandidates_listed orders unfiltered same, Option.bind_eq_bind, Option.bind_some]
  rw [paginate_beyond beyond]
  rfl

theorem exists_tree {roots : List CandidateRoot} {rows : List ListRow}
    (trees : List.Forall₂ (TreeFor db today query) roots rows) {row : ListRow} (member : row ∈ rows) :
    ∃ root, TreeFor db today query root row := by
  induction trees with
  | nil => cases member
  | cons tree _ induction =>
      rcases List.mem_cons.mp member with rfl | later
      · exact ⟨_, tree⟩
      · exact induction later

theorem ids_of_trees {roots : List CandidateRoot} {rows : List ListRow}
    (trees : List.Forall₂ (TreeFor db today query) roots rows) : rows.map ListRow.id = roots.map CandidateRoot.id := by
  induction trees with
  | nil => rfl
  | cons tree _ induction => rw [List.map_cons, List.map_cons, tree.nodes.1, induction]

/-- The ids of the top-level rows, page by page. -/
def shownIds (pages : Nat → EntitiesPage) (totalPages : Nat) : List EntityId :=
  (List.range totalPages).flatMap fun index => (pages (index + 1)).data.map ListRow.id

/-- What the pages of one list, numbered from 1, show together. -/
structure PagesCover (db : Database) (pages : Nat → EntitiesPage) (totalPages : Nat) : Prop where
  count : ∀ number, (pages number).pagination.totalPages = totalPages
  once : (shownIds pages totalPages).Nodup
  topLevel : ∀ id, id ∈ shownIds pages totalPages ↔ TopLevel db id
  others : ∀ record ∈ db.entities.records, ¬ TopLevel db record.id → ∃ number, 1 ≤ number ∧ number ≤ totalPages ∧
    ∃ row ∈ (pages number).data, ∃ child, Below row.children child ∧ child.id = record.id
  beyond : ∀ number, totalPages < number → (pages number).pagination = (pages totalPages).pagination ∧
    (pages number).data.map ListRow.id = (pages totalPages).data.map ListRow.id

omit [Platform] in
theorem mem_shownIds {pages : Nat → EntitiesPage} {totalPages : Nat} {id : EntityId} :
    id ∈ shownIds pages totalPages ↔
      ∃ number, 1 ≤ number ∧ number ≤ totalPages ∧ ∃ row ∈ (pages number).data, row.id = id := by
  simp only [shownIds, List.mem_flatMap, List.mem_range, List.mem_map]
  constructor
  · intro shown
    obtain ⟨index, bound, row, member, rfl⟩ := shown
    exact ⟨index + 1, Nat.succ_pos _, bound, row, member, rfl⟩
  · intro shown
    obtain ⟨number, first, last, row, member, rfl⟩ := shown
    obtain ⟨index, rfl⟩ := Nat.exists_eq_add_of_le' first
    exact ⟨index, last, row, member, rfl⟩

/-- With few walks a top-level entity has a row on some page of the list. -/
theorem exists_page (acyclic : Acyclic db.ChildOf) (few : db.FewWalks db.entities.ids) (unfiltered : Unfiltered query)
    (today : Date) {id : EntityId} (topLevel : TopLevel db id) :
    ∃ number rounds page, getEntitiesList db today rounds (query.atPage number) = some page ∧
      ∃ row ∈ page.data, row.id = id := by
  let candidates := sortCandidates (fetchCandidateRoots db query)
  have listed : id ∈ candidates.map CandidateRoot.id :=
    ((List.perm_insertionSort _ _).map _).mem_iff.mpr
      ((mem_fetchCandidateRoots unfiltered.entityStatus unfiltered.jurisdiction).mpr topLevel)
  obtain ⟨candidate, member, rfl⟩ := List.mem_map.mp listed
  rw [← slices_flatten query candidates, List.mem_flatMap] at member
  obtain ⟨index, _, sliced⟩ := member
  obtain ⟨page, returned⟩ := exists_getEntitiesList acyclic few today (query.atPage (index + 1))
  obtain ⟨roots, selected, trees⟩ := page_trees returned
  rw [pageRoots, selectCandidates_unfiltered (unfiltered.atPage (index + 1)), Option.map_some] at selected
  have ids := ids_of_trees trees
  rw [← Option.some.inj selected] at ids
  have shown : candidate.id ∈ page.data.map ListRow.id := ids ▸ List.mem_map_of_mem sliced
  exact ⟨index + 1, _, page, returned, List.mem_map.mp shown⟩

/-- A record that is not top-level is shown in each tree of some top-level entity. -/
theorem exists_showing_root (acyclic : Acyclic db.Owns) (rules : RegistrationRules db) {record : EntityRecord}
    (member : record ∈ db.entities.records) (other : ¬ TopLevel db record.id) :
    ∃ root, TopLevel db root ∧ ∀ (listed : Database) (today : Date) (query : EntitiesQuery) (candidate : CandidateRoot)
      (row : ListRow), SameRows db listed → candidate.id = root → TreeFor listed today query candidate row →
        ∃ child, Below row.children child ∧ child.id = record.id := by
  have owns_eq : ∀ listed, SameRows db listed → listed.Owns = db.Owns := fun listed same =>
    funext fun owner => funext fun child => propext (owns_listed same)
  cases type : record.registrationType with
  | entity =>
      obtain ⟨root, topLevel, reached⟩ := exists_topLevel acyclic rules member type
      have owned : TransGen db.Owns root record.id := by
        rcases reflTransGen_iff_eq_or_transGen.mp reached with same | owned
        · exact absurd (same ▸ topLevel) other
        · exact owned
      refine ⟨root, topLevel, fun listed today query candidate row same isRoot tree => ?_⟩
      obtain ⟨child, below, _, id⟩ := tree.subsidiary_iff.mpr (owns_eq listed same ▸ isRoot ▸ owned)
      exact ⟨child, below, id⟩
  | fq =>
      obtain ⟨domestic, known, isDomestic, entity⟩ := rules.fqs record member type
      obtain ⟨root, topLevel, reached⟩ := exists_topLevel acyclic rules known entity
      have linked : db.FqOf domestic.id record.id := ⟨record, member, rfl, type, isDomestic⟩
      refine ⟨root, topLevel, fun listed today query candidate row same isRoot tree => ?_⟩
      obtain ⟨child, below, _, id⟩ := tree.fq_iff.mpr
        ⟨domestic.id, owns_eq listed same ▸ isRoot ▸ reached, (fqOf_listed same).mpr linked⟩
      exact ⟨child, below, id⟩

/-- The top-level entities of one page of the unfiltered list. -/
def pageIds (db : Database) (query : EntitiesQuery) (number : Nat) : List EntityId :=
  let candidates := sortCandidates (fetchCandidateRoots db query)
  ((paginate (query.atPage number) candidates.length).slice candidates).map CandidateRoot.id

omit [Platform] in
theorem slice_subset {α : Type} (pagination : Pagination) (items : List α) : pagination.slice items ⊆ items :=
  List.Subset.trans (List.take_subset _ _) (List.drop_subset _ _)

theorem pageIds_subset (db : Database) (query : EntitiesQuery) (number : Nat) :
    pageIds db query number ⊆ db.entities.ids := by
  intro id listed
  obtain ⟨candidate, sliced, rfl⟩ := List.mem_map.mp listed
  have fetched := (List.mem_insertionSort _).mp (slice_subset _ _ sliced)
  exact fetchCandidateRoots_ids.subset (List.mem_map_of_mem fetched)

theorem pageRoots_atPage (orders : OrdersNames db) (unfiltered : Unfiltered query) (same : SameRows db listed)
    {number : Nat} {roots : List CandidateRoot}
    (selected : pageRoots listed today rounds (query.atPage number) = some roots) :
    roots.map CandidateRoot.id = pageIds db query number := by
  rw [pageRoots, selectCandidates_listed orders unfiltered same, Option.map_some, Option.some.injEq] at selected
  rw [← selected, pageIds]

/-- A page of the unfiltered list is returned exactly when few walks start on it. -/
theorem page_returned_iff (acyclic : Acyclic db.ChildOf) (orders : OrdersNames db) (unfiltered : Unfiltered query)
    (same : SameRows db listed) (today : Date) (number : Nat) :
    (∃ rounds page, getEntitiesList listed today rounds (query.atPage number) = some page) ↔
      db.FewWalks (pageIds db query number) := by
  have listedWalks := walksFrom_listed same (pageIds db query number)
  constructor
  · intro shown
    obtain ⟨rounds, page, returned⟩ := shown
    obtain ⟨roots, rows, selected, finished, few, _⟩ := getEntitiesList_ok returned
    have ids := pageRoots_atPage orders unfiltered same selected
    have few := (fewWalks_iff finished (pageRoots_ok selected).2).mpr few
    rwa [ids, FewWalks, listedWalks] at few
  · intro few
    have selected := selectCandidates_listed orders unfiltered same today listed.entities.ids.length number
    have ids := pageRoots_atPage orders unfiltered same (pageRoots_of_selected selected)
    rw [FewWalks, ← listedWalks, ← ids] at few
    obtain ⟨page, returned⟩ := exists_page_of_roots (acyclic_listed same acyclic) selected few
    exact ⟨_, page, returned⟩

/-- The pages that are returned, each from rows listed in another order, show every
top-level entity once, and below them every other record. -/
theorem pagesCover (acyclic : Acyclic db.Owns) (rules : RegistrationRules db) (orders : OrdersNames db)
    (unfiltered : Unfiltered query) {listing : Nat → Database} (same : ∀ number, SameRows db (listing number))
    {today : Nat → Date} {pages : Nat → EntitiesPage} (requested : ∀ number, ∃ rounds,
      getEntitiesList (listing number) (today number) rounds (query.atPage number) = some (pages number)) :
    PagesCover db pages (paginate query (sortCandidates (fetchCandidateRoots db query)).length).totalPages := by
  let candidates := sortCandidates (fetchCandidateRoots db query)
  have page : ∀ number, (pages number).pagination = paginate (query.atPage number) candidates.length ∧
      List.Forall₂ (TreeFor (listing number) (today number) (query.atPage number))
        ((paginate (query.atPage number) candidates.length).slice candidates) (pages number).data := by
    intro number
    obtain ⟨rounds, returned⟩ := requested number
    exact page_of_slice orders unfiltered (same number) returned
  have ids : ∀ number, (pages number).data.map ListRow.id =
      ((paginate (query.atPage number) candidates.length).slice candidates).map CandidateRoot.id :=
    fun number => ids_of_trees (page number).2
  have shown : shownIds pages (paginate query candidates.length).totalPages = candidates.map CandidateRoot.id := by
    rw [shownIds, List.flatMap_congr fun index _ => ids (index + 1), ← List.map_flatMap, slices_flatten]
  have perm : candidates.Perm (fetchCandidateRoots db query) := List.perm_insertionSort _ _
  have topLevel : ∀ id, id ∈ candidates.map CandidateRoot.id ↔ TopLevel db id := by
    intro id
    rw [(perm.map CandidateRoot.id).mem_iff]
    exact mem_fetchCandidateRoots unfiltered.entityStatus unfiltered.jurisdiction
  refine ⟨?_, ?_, ?_, ?_, ?_⟩
  · intro number
    rw [(page number).1]
    rfl
  · rw [shown, (perm.map CandidateRoot.id).nodup_iff]
    exact db.entities.unique.1.sublist fetchCandidateRoots_ids
  · intro id
    rw [shown, topLevel]
  · intro record member other
    obtain ⟨root, isTop, shows⟩ := exists_showing_root acyclic rules member other
    rw [← topLevel, ← shown] at isTop
    obtain ⟨number, first, last, row, inside, rfl⟩ := mem_shownIds.mp isTop
    obtain ⟨candidate, tree⟩ := exists_tree (page number).2 inside
    obtain ⟨child, below, id⟩ := shows _ _ _ candidate row (same number) tree.nodes.1.symm tree
    exact ⟨number, first, last, row, inside, child, below, id⟩
  · intro number beyond
    have same := paginate_beyond beyond
    exact ⟨by rw [(page number).1, (page _).1, same], by rw [ids, ids, same]⟩

/-- All pages of a list are returned, each from rows listed in another order; they show
every top-level entity once, and below them every other record, and beyond the last
page that one again. -/
structure PagesComplete (db : Database) (query : EntitiesQuery) (listing : Nat → Database) (today : Nat → Date) : Prop where
  returned : ∀ number, ∃ rounds page,
    getEntitiesList (listing number) (today number) rounds (query.atPage number) = some page
  cover : ∀ pages : Nat → EntitiesPage, (∀ number, ∃ rounds,
      getEntitiesList (listing number) (today number) rounds (query.atPage number) = some (pages number)) →
    ∃ totalPages, PagesCover db pages totalPages ∧
      ∀ number, totalPages < number → ∀ listed, SameRows db listed → ∀ today rounds,
        getEntitiesList listed today rounds (query.atPage number) =
          getEntitiesList listed today rounds (query.atPage totalPages)

/-- The pages of the unfiltered list are complete exactly when no more walks start
from the entities of a page than a statement can bind. -/
theorem pages_cover (acyclic : Acyclic db.Owns) (rules : RegistrationRules db) (orders : OrdersNames db)
    (unfiltered : Unfiltered query) {listing : Nat → Database} (same : ∀ number, SameRows db (listing number))
    (today : Nat → Date) :
    PagesComplete db query listing today ↔ ∀ number, db.FewWalks (pageIds db query number) := by
  have terminates := acyclic_childOf acyclic rules
  constructor
  · intro complete number
    exact (page_returned_iff terminates orders unfiltered (same number) (today number) number).mp (complete.returned number)
  · intro few
    refine ⟨fun number => ?_, fun pages requested => ⟨_, pagesCover acyclic rules orders unfiltered same requested, ?_⟩⟩
    · exact (page_returned_iff terminates orders unfiltered (same number) (today number) number).mpr (few number)
    · exact fun number beyond listed same today rounds => getEntitiesList_beyond orders unfiltered same today rounds beyond

omit [Platform] in
theorem asciiPlatform_orders (db : Database) : letI := asciiPlatform; OrdersNames db := by
  let _ := asciiPlatform
  have isLE : ∀ a b : String, Platform.localeCompare a b ≠ .gt ↔ (compare a b).isLE :=
    fun a b => Ordering.isLE_iff_ne_gt.symm
  refine ⟨?_, ?_, ?_⟩
  · intro a b
    rw [isLE, isLE, Std.OrientedOrd.eq_swap (a := b)]
    cases compare a b <;> simp
  · intro a b c first second
    rw [isLE] at first second ⊢
    exact Std.TransCmp.isLE_trans first second
  · intro record _ other _ before after
    rw [isLE] at before after
    exact Std.LawfulEqOrd.eq_of_compare (Std.OrientedCmp.isLE_antisymm before after)

omit [Platform] in
theorem discountState_owns : Acyclic discountState.Owns :=
  discountState_acyclic.mono fun _ _ owns => childOf_iff.mpr (.inl owns)

omit [Platform] in
theorem discountState_rules : RegistrationRules discountState :=
  ⟨by decide +kernel, by decide +kernel⟩

omit [Platform] in
/-- The pages of that state, one row on each. -/
theorem discount_pages :
    letI := asciiPlatform
    let query := { firstPage with pageSize := some ⟨1, by decide⟩ }
    PagesComplete discountState query (fun _ => discountState) fun _ => ⟨0⟩ := by
  intro query
  let _ := asciiPlatform
  exact (pages_cover discountState_owns discountState_rules (asciiPlatform_orders _) ⟨rfl, rfl, rfl, rfl⟩
    (fun _ => .refl _) fun _ => ⟨0⟩).mpr fun number => discountState_few.mono (pageIds_subset _ _ number)

section Ladder

omit [Platform]

/-- A top on entity 0 and 16 layers of two entities. -/
def ladderRecord (id : EntityId) : EntityRecord where
  id := id
  entityName := String.ofList [Char.ofNat (48 + id / 10), Char.ofNat (48 + id % 10)]
  entityNameKey := String.ofList [Char.ofNat (48 + id / 10), Char.ofNat (48 + id % 10)]
  registrationType := .entity
  jurisdiction := "US"
  entityType := ⟨"Corporation", by decide⟩
  entityStatus := ⟨"In Formation", by decide⟩
  statusDate := none
  domesticEntityId := none
  formationDate := none
  businessId := none
  globalRegion := none

/-- Both entities of a layer own half of both of the next. -/
def ladderEdges : List OwnershipEdge :=
  (List.range 62).map fun index =>
    if index < 2 then ⟨index, 0, index + 1, 5000⟩
    else ⟨index, 2 * ((index - 2) / 4) + 1 + index % 2, 2 * ((index - 2) / 4) + 3 + (index - 2) / 2 % 2, 5000⟩

def ladderState : Database where
  entities := ⟨(List.range 33).map ladderRecord, by decide +kernel⟩
  ownershipEdges := ⟨ladderEdges, by decide +kernel⟩
  filings := .empty
  references := by decide +kernel

example : ladderState.entities.ids.map ladderState.totalOwnership = 0 :: 5000 :: 5000 :: List.replicate 30 10000 := by
  decide +kernel

/-- The walks that start on an entity of the ladder. -/
def ladderWeight (id : EntityId) : Nat :=
  if id = 0 then 2 ^ 17 - 1 else if id < 33 then 2 ^ (16 - (id - 1) / 2) - 1 else 0

theorem ladderState_acyclic : Acyclic ladderState.Owns := by
  have edges : ∀ edge ∈ ladderState.ownershipEdges.records, edge.parentEntityId < edge.childEntityId := by decide +kernel
  have upwards : ∀ owner child, ladderState.Owns owner child → id owner < id child := by
    intro owner child owns
    obtain ⟨edge, member, rfl, rfl⟩ := owns
    exact edges edge member
  exact acyclic_of_lt upwards

theorem ladderState_rules : RegistrationRules ladderState :=
  ⟨by decide +kernel, by decide +kernel⟩

/-- The top starts 131,071 walks. -/
theorem ladder_walks : ¬ ladderState.FewWalks [0] := by
  have light : ∀ id < 33,
      ladderWeight id ≤ 1 + (((ladderState.linksFrom id).map ChildLink.childId).map ladderWeight).sum := by
    decide +kernel
  refine many_walks (acyclic_childOf ladderState_acyclic ladderState_rules) (by decide +kernel) ladderWeight (fun id => ?_)
    (by decide +kernel)
  by_cases known : id < 33
  · exact light id known
  · have lower : ¬ id = 0 := fun top => known (top ▸ Nat.succ_pos 32)
    rw [ladderWeight, if_neg lower, if_neg known]
    exact Nat.zero_le _

/-- The one page of the ladder cannot be returned. -/
theorem ladder_refused : ¬ ∀ [Platform] (db : Database) (query : EntitiesQuery), Acyclic db.Owns → RegistrationRules db →
    OrdersNames db → Unfiltered query → ∀ (listing : Nat → Database) (today : Nat → Date),
      (∀ number, SameRows db (listing number)) → PagesComplete db query listing today := by
  intro claimed
  have ids : letI := asciiPlatform
      pageIds ladderState firstPage 1 = [0] := by
    decide +kernel
  let _ := asciiPlatform
  have unfiltered : Unfiltered firstPage := ⟨rfl, rfl, rfl, rfl⟩
  have complete := claimed ladderState firstPage ladderState_acyclic ladderState_rules (asciiPlatform_orders _) unfiltered
    (fun _ => ladderState) (fun _ => ⟨0⟩) fun _ => .refl _
  have few := (page_returned_iff (acyclic_childOf ladderState_acyclic ladderState_rules) (asciiPlatform_orders _) unfiltered
    (.refl ladderState) ⟨0⟩ 1).mp (complete.returned 1)
  exact ladder_walks (ids ▸ few)

end Ladder

end Unfiltered

end Coverpin.Registry
