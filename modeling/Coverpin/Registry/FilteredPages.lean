import Coverpin.Registry.ShownFields

namespace Coverpin.Registry

open Coverpin.Data Coverpin.Database Coverpin.Upload Coverpin.Validation Relation

/-! # The pages of any request

The filters are applied to candidates before their trees are built: two in the
query of the candidates, the search on the rows of a first walk, and the
compliance status on the filings of the candidates alone.  All pages together show
the top-level entities whose row, as it is shown, meets the request.
-/

variable [Platform] {db listed : Database} {today : Date} {rounds : Nat} {query : EntitiesQuery}

/-- What a request asks of a row. -/
structure ListRow.Passes (query : EntitiesQuery) (row : ListRow) : Prop where
  jurisdiction : ∀ jurisdiction ∈ truthy query.jurisdiction, row.jurisdiction = jurisdiction
  entityStatus : ∀ entityStatus ∈ truthy query.entityStatus, row.entityStatus = entityStatus
  complianceStatus : ∀ complianceStatus ∈ truthy query.complianceStatus, row.complianceStatus.text = complianceStatus
  search : query.term ≠ none → row.SomeNodeMatches

/-- What a search asks of a candidate. -/
def PassesSearch (db : Database) (query : EntitiesQuery) (candidate : CandidateRoot) : Prop :=
  query.term ≠ none → ∃ id, ReflTransGen db.ChildOf candidate.id id ∧ NameMatches db query id

/-- The candidates that a request selects. -/
structure PassesFilters (db : Database) (today : Date) (query : EntitiesQuery) (candidate : CandidateRoot) : Prop where
  fetched : candidate ∈ fetchCandidateRoots db query
  compliance : PassesCompliance db today query candidate
  search : PassesSearch db query candidate

theorem mem_selected (folding : FoldsCase) {candidates : List CandidateRoot}
    (selected : selectCandidates db today rounds query = some candidates) {candidate : CandidateRoot} :
    candidate ∈ candidates ↔ PassesFilters db today query candidate := by
  cases searching : query.term with
  | none =>
      obtain ⟨matching, kept, searched, filtered, rfl⟩ := selectCandidates_eq_some.mp selected
      rw [searchRoots, searching] at searched
      cases searched
      rw [sortCandidates, List.mem_insertionSort, mem_filterByCompliance filtered]
      constructor
      · intro chosen
        exact ⟨chosen.1, chosen.2, fun asked => absurd searching asked⟩
      · intro passes
        exact ⟨passes.fetched, passes.compliance⟩
  | some term =>
      rw [mem_selectCandidates folding searching selected]
      constructor
      · intro chosen
        exact ⟨chosen.1.1, chosen.1.2, fun _ => chosen.2⟩
      · intro passes
        exact ⟨⟨passes.fetched, passes.compliance⟩, passes.search (searching ▸ Option.some_ne_none term)⟩

/-- A top-level entity is selected exactly when the row that is shown of it passes. -/
theorem passesFilters_iff (terminal : FqsAreTerminal db) {record : EntityRecord}
    (member : record ∈ db.entities.records) (topLevel : TopLevel db record.id) {row : ListRow}
    (tree : TreeFor db today query (EntityRecord.candidateRoot record) row) :
    PassesFilters db today query (EntityRecord.candidateRoot record) ↔ row.Passes query := by
  have fields := tree.fields
  have jurisdiction : row.jurisdiction = record.jurisdiction := congrArg ShownFields.jurisdiction fields
  have entityStatus : row.entityStatus = record.entityStatus := congrArg ShownFields.entityStatus fields
  have status : row.complianceStatus = ownStatus db today record := congrArg ShownFields.complianceStatus fields
  have marked := tree.someNodeMatches_iff terminal ⟨record, member, rfl, rfl⟩
  constructor
  · intro kept
    obtain ⟨fetched, compliant, found⟩ := kept
    obtain ⟨other, _, _, inJurisdiction, hasStatus, same⟩ := mem_fetched.mp fetched
    have sameJurisdiction : other.jurisdiction = record.jurisdiction := congrArg CandidateRoot.jurisdiction same
    have sameStatus : other.entityStatus.val = record.entityStatus := congrArg CandidateRoot.entityStatus same
    refine ⟨?_, ?_, fun asked complies => ?_, fun asked => marked.mpr (found asked)⟩
    · rw [jurisdiction, ← sameJurisdiction]
      exact inJurisdiction
    · rw [entityStatus, ← sameStatus]
      exact hasStatus
    · rw [status]
      exact compliant asked complies
  · intro passes
    refine ⟨mem_fetched.mpr ⟨record, member, topLevel, jurisdiction ▸ passes.jurisdiction,
      entityStatus ▸ passes.entityStatus, rfl⟩, ?_, fun asked => marked.mp (passes.search asked)⟩
    intro asked complies
    have shown := passes.complianceStatus asked complies
    rw [status] at shown
    exact shown

omit [Platform] in
theorem computeNextDueDate_perm {filings others : List FilingForDueDate} (perm : filings.Perm others) :
    computeNextDueDate filings = computeNextDueDate others := by
  have dates : (openDueDates filings).Perm (openDueDates others) := (perm.filter _).map _
  rcases computeNextDueDate_spec others with ⟨none, empty⟩ | ⟨next, isOpen, found, least⟩
  · rcases computeNextDueDate_spec filings with ⟨alsoNone, _⟩ | ⟨next, isOpen, _, _⟩
    · rw [alsoNone, none]
    · rw [empty] at dates
      rw [dates.eq_nil] at isOpen
      cases isOpen
  · rw [found]
    exact computeNextDueDate_least (dates.mem_iff.mpr isOpen) fun other member => least other (dates.mem_iff.mp member)

section Listed

variable (same : SameRows db listed)
include same

omit [Platform] in
theorem ownNextDueDate_listed (id : EntityId) : ownNextDueDate listed id = ownNextDueDate db id :=
  computeNextDueDate_perm ((same.filings.filter _).map _)

omit [Platform] in
theorem childOf_listed : listed.ChildOf = db.ChildOf := by
  funext parent child
  rw [childOf_iff, childOf_iff, owns_listed same, fqOf_listed same]

omit [Platform] in
theorem topLevel_listed {id : EntityId} : TopLevel listed id ↔ TopLevel db id := by
  simp only [TopLevel, same.entities.mem_iff, owns_listed same]

theorem recordFields_listed (record : EntityRecord) : recordFields listed today record = recordFields db today record := by
  rw [recordFields, ownStatus, ownNextDueDate_listed same]
  rfl

theorem nameMatches_listed {id : EntityId} : NameMatches listed query id ↔ NameMatches db query id := by
  simp only [NameMatches, same.entities.mem_iff]

theorem passesSearch_listed (candidate : CandidateRoot) :
    PassesSearch listed query candidate ↔ PassesSearch db query candidate := by
  simp only [PassesSearch, childOf_listed same, nameMatches_listed same]

theorem passesCompliance_listed (candidate : CandidateRoot) :
    PassesCompliance listed today query candidate ↔ PassesCompliance db today query candidate := by
  have due := ownNextDueDate_listed same candidate.id
  unfold PassesCompliance
  rw [ownNextDueDate, ownNextDueDate] at due
  simp only [due]

theorem passesFilters_listed (candidate : CandidateRoot) :
    PassesFilters listed today query candidate ↔ PassesFilters db today query candidate := by
  have fetched := (fetchCandidateRoots_perm same query).mem_iff (a := candidate)
  have compliance : PassesCompliance listed today query candidate ↔ PassesCompliance db today query candidate :=
    passesCompliance_listed same candidate
  have search : PassesSearch listed query candidate ↔ PassesSearch db query candidate := passesSearch_listed same candidate
  constructor
  · exact fun passes => ⟨fetched.mp passes.fetched, compliance.mp passes.compliance, search.mp passes.search⟩
  · exact fun passes => ⟨fetched.mpr passes.fetched, compliance.mpr passes.compliance, search.mpr passes.search⟩

omit [Platform] in
theorem fqsAreTerminal_listed (terminal : FqsAreTerminal db) : FqsAreTerminal listed := by
  intro link linked record member fq
  refine terminal link ?_ record (same.entities.mem_iff.mp member) fq
  rw [childLinks, List.mem_append] at linked ⊢
  exact linked.imp (fun edge => (same.ownershipEdges.map _).subset edge) fun fq => (same.entities.filterMap _).subset fq

theorem rootFields_listed (root : CandidateRoot) : rootFields listed today root = rootFields db today root := by
  rw [rootFields, ownNextDueDate_listed same]
  rfl

end Listed

/-- What a request selects, as it lists it. -/
structure Selection (db : Database) (today : Date) (query : EntitiesQuery) (candidates : List CandidateRoot) : Prop where
  once : (candidates.map CandidateRoot.id).Nodup
  sorted : candidates.Pairwise fun a b => Platform.localeCompare a.entityName b.entityName ≠ .gt
  passes : ∀ candidate, candidate ∈ candidates ↔ PassesFilters db today query candidate

theorem selection_of_selected (orders : OrdersNames db) (folding : FoldsCase) (same : SameRows db listed)
    {candidates : List CandidateRoot} (selected : selectCandidates listed today rounds query = some candidates) :
    Selection db today query candidates := by
  refine ⟨selectCandidates_ids selected, ?_, fun candidate => ?_⟩
  · obtain ⟨matching, kept, _, _, rfl⟩ := selectCandidates_eq_some.mp selected
    exact sortCandidates_pairwise orders _
  · rw [mem_selected folding selected, passesFilters_listed same]

/-- Every page of a request is cut from what the request selects. -/
theorem Selection.of_atPage {candidates : List CandidateRoot} {number : Nat}
    (selection : Selection db today (query.atPage number) candidates) : Selection db today query candidates := by
  refine ⟨selection.once, selection.sorted, fun candidate => (selection.passes candidate).trans ?_⟩
  constructor
  · exact fun passes => ⟨passes.fetched, passes.compliance, passes.search⟩
  · exact fun passes => ⟨passes.fetched, passes.compliance, passes.search⟩

/-- There is one selection, in one order. -/
theorem Selection.unique (orders : OrdersNames db) {candidates others : List CandidateRoot}
    (selection : Selection db today query candidates) (other : Selection db today query others) :
    candidates = others := by
  have perm : candidates.Perm others := (List.perm_ext_iff_of_nodup selection.once.of_map other.once.of_map).mpr
    fun candidate => (selection.passes candidate).trans (other.passes candidate).symm
  refine List.Perm.eq_of_pairwise (fun first second inFirst inSecond before after => ?_) selection.sorted other.sorted perm
  obtain ⟨record, member, _, _, _, rfl⟩ := mem_fetched.mp ((selection.passes first).mp inFirst).fetched
  obtain ⟨later, laterMember, _, _, _, rfl⟩ := mem_fetched.mp ((other.passes second).mp inSecond).fetched
  rw [record_of_name member laterMember (orders.separates record member later laterMember before after)]

/-- What the pages of one request, numbered from 1, show together. -/
structure PagesFiltered (db : Database) (today : Date) (query : EntitiesQuery) (pages : Nat → EntitiesPage)
    (totalPages : Nat) : Prop where
  totals : ∀ number, (pages number).pagination.totalPages = totalPages ∧
    (pages number).pagination.total = (shownIds pages totalPages).length
  once : (shownIds pages totalPages).Nodup
  sorted : ((List.range totalPages).flatMap fun index => (pages (index + 1)).data.map ListRow.entityName).Pairwise
    fun name later => Platform.localeCompare name later ≠ .gt
  passes : ∀ number, ∀ row ∈ (pages number).data, row.Passes query
  selected : ∀ id, id ∈ shownIds pages totalPages ↔ ∃ record ∈ db.entities.records, record.id = id ∧ TopLevel db id ∧
    ∀ row, TreeFor db today query (EntityRecord.candidateRoot record) row → row.Passes query
  beyond : ∀ number, totalPages < number → (pages number).pagination = (pages totalPages).pagination ∧
    (pages number).data.map ListRow.fields = (pages totalPages).data.map ListRow.fields

theorem fields_of_trees {roots : List CandidateRoot} {rows : List ListRow}
    (trees : List.Forall₂ (TreeFor db today query) roots rows) :
    rows.map ListRow.fields = roots.map (rootFields db today) := by
  induction trees with
  | nil => rfl
  | cons tree _ induction => rw [List.map_cons, List.map_cons, induction, tree.fields]

theorem exists_recordTree (acyclic : Acyclic db.ChildOf) (today : Date) (query : EntitiesQuery) {record : EntityRecord}
    (member : record ∈ db.entities.records) : ∃ row, TreeFor db today query (EntityRecord.candidateRoot record) row :=
  exists_treeFor acyclic today query (List.mem_map_of_mem member)

/-- The answers to one request for each page, each from rows listed in another order. -/
def Requested (listing : Nat → Database) (today : Date) (query : EntitiesQuery) (pages : Nat → EntitiesPage) : Prop :=
  ∀ number, ∃ rounds, getEntitiesList (listing number) today rounds (query.atPage number) = some (pages number)

/-- Whatever order the rows are listed in, the pages cut one list of candidates. -/
theorem pages_candidates (folding : FoldsCase) (orders : OrdersNames db)
    {listing : Nat → Database} (same : ∀ number, SameRows db (listing number)) {pages : Nat → EntitiesPage}
    (requested : Requested listing today query pages) :
    ∃ candidates, Selection db today query candidates ∧ ∀ number,
      (pages number).pagination = paginate (query.atPage number) candidates.length ∧
      (pages number).data.map ListRow.fields =
        ((paginate (query.atPage number) candidates.length).slice candidates).map (rootFields db today) := by
  have each : ∀ number, ∃ rounds candidates,
      selectCandidates (listing number) today rounds (query.atPage number) = some candidates ∧
      Selection db today query candidates := by
    intro number
    obtain ⟨rounds, returned⟩ := requested number
    obtain ⟨roots, sliced, _⟩ := page_trees returned
    obtain ⟨candidates, selected, _⟩ := Option.map_eq_some_iff.mp sliced
    exact ⟨rounds, candidates, selected, (selection_of_selected orders folding (same number) selected).of_atPage⟩
  obtain ⟨_, candidates, _, selection⟩ := each 1
  refine ⟨candidates, selection, fun number => ?_⟩
  obtain ⟨rounds, returned⟩ := requested number
  obtain ⟨roots, sliced, trees⟩ := page_trees returned
  obtain ⟨listedCandidates, listedSelected, rfl⟩ := Option.map_eq_some_iff.mp sliced
  cases selection.unique orders (selection_of_selected orders folding (same number) listedSelected).of_atPage
  refine ⟨pagination_ok listedSelected returned, ?_⟩
  rw [fields_of_trees trees]
  exact List.map_congr_left fun root _ => rootFields_listed (same number) root

section Cut

variable {candidates : List CandidateRoot} {pages : Nat → EntitiesPage}
  (page : ∀ number, (pages number).data.map ListRow.fields =
    ((paginate (query.atPage number) candidates.length).slice candidates).map (rootFields db today))
include page

theorem shownFields_eq : (List.range (paginate query candidates.length).totalPages).flatMap
    (fun index => (pages (index + 1)).data.map ListRow.fields) = candidates.map (rootFields db today) := by
  rw [List.flatMap_congr fun index _ => page (index + 1), ← List.map_flatMap, slices_flatten]

theorem shownIds_eq : shownIds pages (paginate query candidates.length).totalPages = candidates.map CandidateRoot.id := by
  have ids := congrArg (List.map ShownFields.id) (shownFields_eq page)
  rwa [List.map_flatMap, List.map_map, List.flatMap_congr fun index _ => List.map_map] at ids

end Cut

theorem pagesFiltered (acyclic : Acyclic db.ChildOf) (terminal : FqsAreTerminal db) (folding : FoldsCase)
    (orders : OrdersNames db) {listing : Nat → Database} (same : ∀ number, SameRows db (listing number))
    {pages : Nat → EntitiesPage} (requested : Requested listing today query pages) :
    ∃ totalPages, PagesFiltered db today query pages totalPages := by
  obtain ⟨candidates, selection, page⟩ := pages_candidates folding orders same requested
  let totalPages := (paginate query candidates.length).totalPages
  have ids : shownIds pages totalPages = candidates.map CandidateRoot.id := shownIds_eq fun number => (page number).2
  have names : ((List.range totalPages).flatMap fun index => (pages (index + 1)).data.map ListRow.entityName) =
      candidates.map CandidateRoot.entityName := by
    have names := congrArg (List.map ShownFields.entityName) (shownFields_eq fun number => (page number).2)
    rwa [List.map_flatMap, List.map_map, List.flatMap_congr fun index _ => List.map_map] at names
  refine ⟨totalPages, ⟨fun number => ?_, ?_, ?_, fun number row member => ?_, fun id => ?_, fun number beyond => ?_⟩⟩
  · rw [(page number).1, ids, List.length_map]
    exact ⟨rfl, rfl⟩
  · exact ids ▸ selection.once
  · rw [names, List.pairwise_map]
    exact selection.sorted
  · obtain ⟨others, returned⟩ := requested number
    obtain ⟨_, record, listedSelected, stored, topLevel, chosen, tree⟩ := row_tree returned member
    have passes : row.Passes (query.atPage number) := (passesFilters_iff (fqsAreTerminal_listed (same number) terminal)
      stored topLevel tree).mp ((mem_selected folding listedSelected).mp chosen)
    exact ⟨passes.jurisdiction, passes.entityStatus, passes.complianceStatus, passes.search⟩
  · rw [ids, List.mem_map]
    constructor
    · intro listed
      obtain ⟨candidate, chosen, rfl⟩ := listed
      have passes := (selection.passes candidate).mp chosen
      obtain ⟨record, member, topLevel, _, _, rfl⟩ := mem_fetched.mp passes.fetched
      exact ⟨record, member, rfl, topLevel, fun row tree => (passesFilters_iff terminal member topLevel tree).mp passes⟩
    · intro passing
      obtain ⟨record, member, rfl, topLevel, passes⟩ := passing
      obtain ⟨row, tree⟩ := exists_recordTree acyclic today query member
      exact ⟨_, (selection.passes _).mpr ((passesFilters_iff terminal member topLevel tree).mpr (passes row tree)), rfl⟩
  · have sameSlice := paginate_beyond beyond
    exact ⟨by rw [(page number).1, (page _).1, sameSlice], by rw [(page number).2, (page _).2, sameSlice]⟩

theorem exists_pages (acyclic : Acyclic db.ChildOf) (few : db.FewWalks db.entities.ids) {listing : Nat → Database}
    (same : ∀ number, SameRows db (listing number)) (today : Date) (query : EntitiesQuery) :
    ∃ pages, Requested listing today query pages := by
  have each : ∀ number, ∃ page, ∃ rounds,
      getEntitiesList (listing number) today rounds (query.atPage number) = some page := by
    intro number
    obtain ⟨page, returned⟩ := exists_getEntitiesList (acyclic_listed (same number) acyclic)
      (fewWalks_listed (same number) few) today (query.atPage number)
    exact ⟨page, _, returned⟩
  exact ⟨fun number => (each number).choose, fun number => (each number).choose_spec⟩

/-- The pages of a request, each from rows listed in another order, show together,
once each and in the order of their names, the top-level entities whose row passes.
All pages are returned when there are few walks along the links. -/
theorem filtered_pages (acyclic : Acyclic db.ChildOf) (terminal : FqsAreTerminal db) (folding : FoldsCase)
    (orders : OrdersNames db) {listing : Nat → Database} (same : ∀ number, SameRows db (listing number)) (today : Date)
    (query : EntitiesQuery) :
    (db.FewWalks db.entities.ids → ∃ pages, Requested listing today query pages) ∧
    ∀ pages, Requested listing today query pages → ∃ totalPages, PagesFiltered db today query pages totalPages :=
  ⟨fun few => exists_pages acyclic few same today query,
    fun _ requested => pagesFiltered acyclic terminal folding orders same requested⟩

omit [Platform] in
/-- A filtered search in the state of that request, one row on each page. -/
theorem discount_filtered :
    letI := asciiPlatform
    let query : EntitiesQuery :=
      { search := some ⟨"beta", by decide⟩, page := none, pageSize := some ⟨1, by decide⟩, entityStatus := some "Active",
        complianceStatus := some "TBD", jurisdiction := none }
    (∃ pages, Requested (fun _ => discountState) ⟨0⟩ query pages) ∧
    ∀ pages, Requested (fun _ => discountState) ⟨0⟩ query pages →
      ∃ totalPages, PagesFiltered discountState ⟨0⟩ query pages totalPages := by
  intro query
  let _ := asciiPlatform
  obtain ⟨returned, filtered⟩ := filtered_pages discountState_acyclic (by decide +kernel) asciiPlatform_folds
    (asciiPlatform_orders _) (fun _ => .refl _) ⟨0⟩ query
  exact ⟨returned discountState_few, filtered⟩

end Coverpin.Registry
