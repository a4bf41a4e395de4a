import Coverpin.Registry.TreeNodes

namespace Coverpin.Registry

open Coverpin.Data Coverpin.Database Coverpin.Upload Coverpin.Validation Relation

/-! # Search

The database picks the roots with a matching name in their subtree, by ILIKE on
the rows of the query; the nodes of a tree are marked by a substring test.  Both
decide the same.
-/

/-- FQs are terminal: none is a parent in `child_links`. -/
def FqsAreTerminal (db : Database) : Prop :=
  ∀ link ∈ db.childLinks, ∀ record ∈ db.entities.records, record.registrationType = .fq → record.id ≠ link.parentId

instance (db : Database) : Decidable (FqsAreTerminal db) :=
  inferInstanceAs (Decidable (∀ link ∈ db.childLinks, ∀ record ∈ db.entities.records, _ → _ ≠ _))

/-- A top-level row, or some node below it, is marked as a match. -/
def ListRow.SomeNodeMatches (row : ListRow) : Prop :=
  row.matchesSearch = true ∨ ∃ child, Below row.children child ∧ child.matchesSearch = true

section Reached

variable {db : Database} {rounds : Nat} {rootIds : List EntityId} {rows : List SubtreeRow} {root id : EntityId}

theorem selfRow_rootId {row : SubtreeRow} (member : row ∈ db.selfRows rootIds) : row.rootId = row.id := by
  obtain ⟨record, _, rfl⟩ := List.mem_map.mp member
  rfl

/-- The rows of a root are the entities that the links lead to from there. -/
theorem exists_row_iff (finished : db.subtree rounds rootIds = some rows) :
    (∃ row ∈ rows, row.rootId = root ∧ row.id = id) ↔
      (root ∈ rootIds ∧ root ∈ db.entities.ids) ∧ ReflTransGen db.ChildOf root id := by
  constructor
  · intro reached
    obtain ⟨row, member, rfl, rfl⟩ := reached
    revert member row
    refine recursiveUnion_forall finished ?_ ?_
    · intro row member
      rw [selfRow_rootId member]
      exact ⟨mem_selfRows_id.mp (List.mem_map_of_mem member), .refl⟩
    · intro row induction later member
      have linked := childOf_of_mem_childRows member
      obtain ⟨_, _, _, _, _, rfl⟩ := mem_childRows.mp member
      exact ⟨induction.1, induction.2.tail linked⟩
  · intro linked
    obtain ⟨start, linked⟩ := linked
    induction linked with
    | refl =>
        obtain ⟨row, member, rfl⟩ := List.mem_map.mp (mem_selfRows_id.mpr start)
        exact ⟨row, (recursiveUnion_perm finished).mem_iff.mpr (List.mem_append_left _ member), selfRow_rootId member, rfl⟩
    | tail _ edge induction =>
        obtain ⟨row, member, rfl, rfl⟩ := induction
        obtain ⟨later, inside, rfl⟩ := exists_childRow edge
        have sameRoot : later.rootId = row.rootId := by
          obtain ⟨_, _, _, _, _, rfl⟩ := mem_childRows.mp inside
          rfl
        exact ⟨later, (recursiveUnion_perm finished).mem_iff.mpr
          (List.mem_append_right _ (List.mem_flatMap.mpr ⟨row, member, inside⟩)), sameRoot, rfl⟩

/-- With terminal FQs the links lead to the owned entities and to their FQs. -/
theorem reached_iff (terminal : FqsAreTerminal db) : ReflTransGen db.ChildOf root id ↔
    id = root ∨ TransGen db.Owns root id ∨ ∃ owner, ReflTransGen db.Owns root owner ∧ db.FqOf owner id := by
  constructor
  · intro linked
    induction linked with
    | refl => exact .inl rfl
    | @tail parent child _ edge induction =>
        have owned : ReflTransGen db.Owns root parent := by
          rcases induction with rfl | owned | ⟨owner, _, record, member, rfl, type, _⟩
          · exact .refl
          · exact owned.to_reflTransGen
          · obtain ⟨link, inside, parent, _⟩ := edge
            exact absurd parent.symm (terminal link inside record member type)
        rcases childOf_iff.mp edge with owns | fqOf
        · exact .inr (.inl (.tail' owned owns))
        · exact .inr (.inr ⟨parent, owned, fqOf⟩)
  · have owned : ∀ id, ReflTransGen db.Owns root id → ReflTransGen db.ChildOf root id :=
      ReflTransGen.mono (fun _ _ owns => childOf_iff.mpr (.inl owns)) root
    intro linked
    rcases linked with rfl | below | ⟨owner, reached, fqOf⟩
    · exact .refl
    · exact owned id below.to_reflTransGen
    · exact (owned owner reached).tail (childOf_iff.mpr (.inr fqOf))

end Reached

variable [Platform] {db : Database} {today : Date} {rounds : Nat} {query : EntitiesQuery}

/-- What `complianceStatus` asks of a candidate. -/
def PassesCompliance (db : Database) (today : Date) (query : EntitiesQuery) (candidate : CandidateRoot) : Prop :=
  let filings := db.filings.records.filter (·.entityId = candidate.id)
  ∀ complianceStatus ∈ truthy query.complianceStatus,
    (computeComplianceStatus candidate.entityStatus (computeNextDueDate (filings.map Filing.forDueDate)) today).text =
      complianceStatus

/-- A candidate passes the compliance filter in any list of candidates alike. -/
theorem mem_filterByCompliance {candidates kept : List CandidateRoot} {candidate : CandidateRoot}
    (filtered : filterByCompliance db today query candidates = some kept) :
    candidate ∈ kept ↔ candidate ∈ candidates ∧ PassesCompliance db today query candidate := by
  unfold filterByCompliance at filtered
  unfold PassesCompliance
  cases asked : truthy query.complianceStatus with
  | none =>
      rw [asked] at filtered
      cases filtered
      simp
  | some complianceStatus =>
      simp only [asked] at filtered
      by_cases empty : candidates = []
      · rw [if_pos empty] at filtered
        cases filtered
        simp [empty]
      rw [if_neg empty] at filtered
      obtain ⟨filings, found, rfl⟩ := Option.map_eq_some_iff.mp filtered
      obtain ⟨_, rfl⟩ := findFilings_eq_some.mp found
      simp only [List.mem_filter, decide_eq_true_eq, Option.mem_def, Option.some.injEq, forall_eq']
      refine and_congr_right fun member => ?_
      have listed : (candidates.map CandidateRoot.id).contains candidate.id = true :=
        List.contains_iff_mem.mpr (List.mem_map_of_mem member)
      rw [nextDueDateOf, InsertionMap.getD_groupBy, List.filter_filter]
      have own : (db.filings.records.filter fun filing => decide (filing.entityId = candidate.id) &&
          (candidates.map CandidateRoot.id).contains filing.entityId) =
          db.filings.records.filter (·.entityId = candidate.id) := by
        refine List.filter_congr fun filing _ => ?_
        by_cases same : filing.entityId = candidate.id
        · rw [same, listed, Bool.and_true]
        · simp [same]
      rw [own]

/-- Whether an entity with this id has a name that matches the search. -/
def NameMatches (db : Database) (query : EntitiesQuery) (id : EntityId) : Prop :=
  ∃ record ∈ db.entities.records, record.id = id ∧ matchesQuery query record.entityName = true

theorem nameMatches_iff {id : EntityId} {name : String}
    (recorded : ∃ record ∈ db.entities.records, record.id = id ∧ record.entityName = name) :
    NameMatches db query id ↔ matchesQuery query name = true := by
  obtain ⟨record, member, rfl, rfl⟩ := recorded
  constructor
  · intro found
    obtain ⟨other, otherMember, same, matched⟩ := found
    rwa [Table.eq_of_id otherMember member same] at matched
  · exact fun matched => ⟨record, member, rfl, matched⟩

theorem matchesQuery_eq {term : String} (searching : query.term = some term) (name : String) :
    matchesQuery query name = includes (Platform.toLowerCase term) (Platform.toLowerCase name) := by
  rw [matchesQuery, searching, Option.any_some]

/-- The search keeps the candidates with a matching name among what they reach. -/
theorem mem_searchRoots (folding : FoldsCase) {term : String} (searching : query.term = some term)
    {candidates matching : List CandidateRoot} (known : candidates.map CandidateRoot.id ⊆ db.entities.ids)
    (searched : searchRoots db rounds query candidates = some matching) {candidate : CandidateRoot} :
    candidate ∈ matching ↔ candidate ∈ candidates ∧
      ∃ id, ReflTransGen db.ChildOf candidate.id id ∧ NameMatches db query id := by
  unfold searchRoots at searched
  rw [searching] at searched
  by_cases empty : candidates = []
  · subst empty
    cases searched
    simp
  · simp only [empty, if_false, findRootsMatchingSearch, List.map_eq_nil_iff, Option.map_eq_some_iff] at searched
    obtain ⟨_, ⟨rows, finished, rfl⟩, rfl⟩ := searched
    rw [List.mem_filter, List.contains_iff_mem, List.mem_eraseDups, List.mem_map]
    refine and_congr_right fun member => ?_
    have listed := List.mem_map_of_mem (f := CandidateRoot.id) member
    constructor
    · intro found
      obtain ⟨row, inside, same⟩ := found
      obtain ⟨reached, matched⟩ := List.mem_filter.mp inside
      rw [ilike_escapeLikePattern folding, ← matchesQuery_eq searching] at matched
      exact ⟨row.id, ((exists_row_iff finished).mp ⟨row, reached, same, rfl⟩).2,
        (nameMatches_iff (row_record finished row reached)).mpr matched⟩
    · intro found
      obtain ⟨id, linked, matched⟩ := found
      obtain ⟨row, reached, same, rfl⟩ := (exists_row_iff finished).mpr ⟨⟨listed, known listed⟩, linked⟩
      refine ⟨row, List.mem_filter.mpr ⟨reached, ?_⟩, same⟩
      rw [ilike_escapeLikePattern folding, ← matchesQuery_eq searching]
      exact (nameMatches_iff (row_record finished row reached)).mp matched

/-- A tree has a marked node exactly when the links lead to a matching name. -/
theorem TreeFor.someNodeMatches_iff (terminal : FqsAreTerminal db) {root : CandidateRoot} {row : ListRow}
    (recorded : ∃ record ∈ db.entities.records, record.id = root.id ∧ record.entityName = root.entityName)
    (tree : TreeFor db today query root row) :
    row.SomeNodeMatches ↔ ∃ id, ReflTransGen db.ChildOf root.id id ∧ NameMatches db query id := by
  have top : NameMatches db query root.id ↔ row.matchesSearch = true := by
    rw [nameMatches_iff recorded, tree.nodes.2.1]
  have below : ∀ child, Below row.children child → (NameMatches db query child.id ↔ child.matchesSearch = true) := by
    intro child inside
    obtain ⟨_, record, member, id, name, marked⟩ := tree.child inside
    rw [nameMatches_iff ⟨record, member, id, rfl⟩, marked]
  simp only [reached_iff terminal]
  constructor
  · intro marked
    rcases marked with matched | ⟨child, inside, matched⟩
    · exact ⟨root.id, .inl rfl, top.mpr matched⟩
    · refine ⟨child.id, .inr ?_, (below child inside).mpr matched⟩
      rcases (tree.child inside).1 with subsidiary | fq
      · exact .inl (tree.subsidiary_iff.mp ⟨child, inside, subsidiary, rfl⟩)
      · exact .inr (tree.fq_iff.mp ⟨child, inside, fq, rfl⟩)
  · intro found
    obtain ⟨id, reached, matched⟩ := found
    rcases reached with rfl | owned | linked
    · exact .inl (top.mp matched)
    · obtain ⟨child, inside, _, rfl⟩ := tree.subsidiary_iff.mpr owned
      exact .inr ⟨child, inside, (below child inside).mp matched⟩
    · obtain ⟨child, inside, _, rfl⟩ := tree.fq_iff.mpr linked
      exact .inr ⟨child, inside, (below child inside).mp matched⟩

omit [Platform] in
theorem candidate_recorded {candidate : CandidateRoot} (fetched : candidate ∈ fetchCandidateRoots db query) :
    ∃ record ∈ db.entities.records, record.id = candidate.id ∧ record.entityName = candidate.entityName := by
  obtain ⟨record, member, rfl⟩ := List.mem_map.mp fetched
  exact ⟨record, (List.mem_filter.mp member).1, rfl, rfl⟩

theorem mem_selectCandidates (folding : FoldsCase) {term : String} (searching : query.term = some term)
    {candidates : List CandidateRoot} (selected : selectCandidates db today rounds query = some candidates)
    {candidate : CandidateRoot} : candidate ∈ candidates ↔
      (candidate ∈ fetchCandidateRoots db query ∧ PassesCompliance db today query candidate) ∧
        ∃ id, ReflTransGen db.ChildOf candidate.id id ∧ NameMatches db query id := by
  obtain ⟨matching, kept, searched, filtered, rfl⟩ := selectCandidates_eq_some.mp selected
  rw [sortCandidates, List.mem_insertionSort, mem_filterByCompliance filtered,
    mem_searchRoots folding searching fetchCandidateRoots_ids.subset searched, and_right_comm]

/-- With acyclic links, terminal FQs and few walks, every search returns a page of
trees.  Of the candidates that pass the other filters a page that is returned keeps
those with a marked node in the tree that any page shows for them. -/
theorem search_keeps_iff (acyclic : Acyclic db.ChildOf) (terminal : FqsAreTerminal db) (folding : FoldsCase)
    (today : Date) (query : EntitiesQuery) (searching : ∃ search, query.search = some search ∧ trim search.val ≠ "") :
    (db.FewWalks db.entities.ids → ∃ rounds page, getEntitiesList db today rounds query = some page) ∧
    ∀ rounds page, getEntitiesList db today rounds query = some page →
      ∃ candidates, selectCandidates db today rounds query = some candidates ∧
        List.Forall₂ (TreeFor db today query) ((paginate query candidates.length).slice candidates) page.data ∧
        ∀ candidate ∈ fetchCandidateRoots db query, PassesCompliance db today query candidate →
          (∃ row, TreeFor db today query candidate row) ∧
          ∀ row, TreeFor db today query candidate row → (candidate ∈ candidates ↔ row.SomeNodeMatches) := by
  obtain ⟨search, given, nonempty⟩ := searching
  have searching : query.term = some (trim search.val) := by
    rw [EntitiesQuery.term, given, Option.map_some, truthy, Option.filter_some, if_pos (by simpa using nonempty)]
  refine ⟨fun few => ⟨_, exists_getEntitiesList acyclic few today query⟩, fun rounds page returned => ?_⟩
  obtain ⟨roots, sliced, trees⟩ := page_trees returned
  obtain ⟨candidates, selected, rfl⟩ := Option.map_eq_some_iff.mp sliced
  refine ⟨candidates, selected, trees, fun candidate fetched passes => ?_⟩
  have known : candidate.id ∈ db.entities.ids := fetchCandidateRoots_ids.subset (List.mem_map_of_mem fetched)
  refine ⟨exists_treeFor acyclic today query known, fun row tree => ?_⟩
  rw [mem_selectCandidates folding searching selected, tree.someNodeMatches_iff terminal (candidate_recorded fetched)]
  exact and_iff_right ⟨fetched, passes⟩

omit [Platform] in
theorem asciiPlatform_folds : letI := asciiPlatform; FoldsCase := by
  let _ := asciiPlatform
  refine ⟨fun _ => rfl, ?_, ?_⟩
  · intro char symbol
    rcases symbol with rfl | rfl | rfl <;> rfl
  · intro char plain symbol
    have lowered : IsLikeSymbol char.toLower := symbol
    unfold Char.toLower at lowered
    split at lowered
    · rename_i upper
      have shifted : char.val + 32 = 92 ∨ char.val + 32 = 37 ∨ char.val + 32 = 95 :=
        lowered.imp (congrArg Char.val) (Or.imp (congrArg Char.val) (congrArg Char.val))
      have lower : 65 ≤ char.val := upper.1
      have bound : char.val ≤ 90 := upper.2
      grind
    · exact plain lowered

omit [Platform] in
example :
    letI := asciiPlatform
    let query := { firstPage with search := some ⟨"A fq ", by decide⟩ }
    (selectCandidates discountState ⟨0⟩ 4 query).map (·.map CandidateRoot.entityName) = some ["50%_Off"] := by
  decide +kernel

omit [Platform] in
/-- A search in that state for a term with both wildcards. -/
theorem discount_found :
    letI := asciiPlatform
    let query := { firstPage with search := some ⟨" %_o", by decide⟩ }
    (∃ rounds page, getEntitiesList discountState ⟨0⟩ rounds query = some page) ∧
    ∀ rounds page, getEntitiesList discountState ⟨0⟩ rounds query = some page →
      ∃ candidates, selectCandidates discountState ⟨0⟩ rounds query = some candidates ∧
        List.Forall₂ (TreeFor discountState ⟨0⟩ query) ((paginate query candidates.length).slice candidates) page.data ∧
        ∀ candidate ∈ fetchCandidateRoots discountState query, PassesCompliance discountState ⟨0⟩ query candidate →
          (∃ row, TreeFor discountState ⟨0⟩ query candidate row) ∧
          ∀ row, TreeFor discountState ⟨0⟩ query candidate row → (candidate ∈ candidates ↔ row.SomeNodeMatches) := by
  intro query
  let _ := asciiPlatform
  obtain ⟨shown, keeps⟩ := search_keeps_iff discountState_acyclic (by decide +kernel) asciiPlatform_folds ⟨0⟩ query
    ⟨_, rfl, by decide⟩
  exact ⟨shown discountState_few, keeps⟩

end Coverpin.Registry
