import Coverpin.Data.Ranking
import Coverpin.Registry.FilteredPages

namespace Coverpin.Registry

open Coverpin.Data Coverpin.Database Coverpin.Upload Coverpin.Validation Relation

/-! # `RegistryService.getEntitySuggestions`

The entities whose name contains the term, those first in which it comes earliest,
then the shorter names, then by the collation of the database.  A suggestion is
made to be searched for, so what is suggested is what the list marks.
-/

structure EntitySuggestion where
  id : EntityId
  entityName : String
  registrationType : RegistrationType
  jurisdiction : String
  entityType : String
deriving DecidableEq, Repr

def EntityRecord.suggestion (record : EntityRecord) : EntitySuggestion where
  id := record.id
  entityName := record.entityName
  registrationType := record.registrationType
  jurisdiction := record.jurisdiction
  entityType := record.entityType

/-- `POSITION(part IN text)`: the place of the first occurrence, counted from 1. -/
def position (part text : List Char) : Nat :=
  ((text.tails.findIdx? part.isPrefixOf).map (· + 1)).getD 0

variable [Platform]

/-- `LOWER`, which folds like ILIKE. -/
def lower (text : String) : List Char :=
  text.toList.map Platform.foldChar

/-- `ORDER BY POSITION(LOWER($2) IN LOWER(entity_name)), LENGTH(entity_name), entity_name`. -/
def suggestionOrder (collate : String → String → Ordering) (term : String) : EntityRecord → EntityRecord → Ordering :=
  compareLex (compareOn fun record => position (lower term) (lower record.entityName))
    (compareLex (compareOn fun record => record.entityName.length) fun a b => collate a.entityName b.entityName)

def getEntitySuggestions (collate : String → String → Ordering) (db : Database) (q : String) (limit : Nat) :
    List EntitySuggestion :=
  let term := trim q
  if term = "" then []
  else
    let rows := db.entities.records.filter fun record => ilike ("%" ++ escapeLikePattern term ++ "%") record.entityName
    ((rows.insertionSort fun a b => suggestionOrder collate term a b ≠ .gt).take limit).map EntityRecord.suggestion

/-- `part` first occurs in `text` after so many characters. -/
def FirstAt (part text : List Char) (skipped : Nat) : Prop :=
  part <+: text.drop skipped ∧ ∀ fewer < skipped, ¬ part <+: text.drop fewer

omit [Platform] in
theorem position_eq {part text : List Char} {skipped : Nat} (first : FirstAt part text skipped) :
    position part text = skipped + 1 := by
  obtain ⟨occurs, none⟩ := first
  have bound : skipped ≤ text.length := by
    apply Nat.le_of_not_lt
    intro beyond
    rw [List.drop_of_length_le beyond.le, List.prefix_nil] at occurs
    exact none text.length beyond (occurs ▸ List.nil_prefix)
  have found : text.tails.findIdx? part.isPrefixOf = some skipped := by
    rw [List.findIdx?_eq_some_iff_getElem]
    refine ⟨by rw [List.length_tails]; omega, ?_, ?_⟩
    · rw [List.getElem_tails]
      exact List.isPrefixOf_iff_prefix.mpr occurs
    · intro fewer before
      rw [List.getElem_tails, List.isPrefixOf_iff_prefix]
      exact none fewer before
  rw [position, found]
  rfl

theorem exists_firstAt (folding : FoldsCase) {term name : String}
    (contained : includes (Platform.toLowerCase term) (Platform.toLowerCase name) = true) :
    ∃ skipped, FirstAt (lower term) (lower name) skipped := by
  rw [includes, folding.toLowerCase, folding.toLowerCase, String.toList_ofList, String.toList_ofList, List.any_eq_true]
    at contained
  obtain ⟨rest, tail, isPrefix⟩ := contained
  obtain ⟨skipped, cut⟩ := (List.mem_tails rest _).mp tail
  have occurs : ∃ skipped, lower term <+: (lower name).drop skipped := by
    refine ⟨skipped.length, ?_⟩
    rw [lower, lower, ← cut, List.drop_left]
    exact List.isPrefixOf_iff_prefix.mp isPrefix
  classical
  exact ⟨Nat.find occurs, Nat.find_spec occurs, fun fewer before => Nat.find_min occurs before⟩

/-- Which of two names is suggested before the other. -/
def RanksBefore (collate : String → String → Ordering) (term : String) (a b : EntityRecord) : Prop :=
  ∃ skipped later, FirstAt (lower term) (lower a.entityName) skipped ∧ FirstAt (lower term) (lower b.entityName) later ∧
    (skipped < later ∨ skipped = later ∧ (a.entityName.length < b.entityName.length ∨
      a.entityName.length = b.entityName.length ∧ collate a.entityName b.entityName ≠ .gt))

theorem ranksBefore_of_order {collate : String → String → Ordering} {term : String} {a b : EntityRecord}
    {skipped later : Nat} (first : FirstAt (lower term) (lower a.entityName) skipped)
    (second : FirstAt (lower term) (lower b.entityName) later) (ordered : suggestionOrder collate term a b ≠ .gt) :
    RanksBefore collate term a b := by
  refine ⟨skipped, later, first, second, ?_⟩
  simp only [suggestionOrder, compareLex, compareOn, position_eq first, position_eq second] at ordered
  rcases Nat.lt_trichotomy (skipped + 1) (later + 1) with less | same | more
  · exact .inl (Nat.lt_of_succ_lt_succ less)
  · rw [same, Nat.compare_eq_eq.mpr rfl, Ordering.eq_then] at ordered
    refine .inr ⟨Nat.succ.inj same, ?_⟩
    rcases Nat.lt_trichotomy a.entityName.length b.entityName.length with less | same | more
    · exact .inl less
    · rw [same, Nat.compare_eq_eq.mpr rfl, Ordering.eq_then] at ordered
      exact .inr ⟨same, ordered⟩
    · rw [Nat.compare_eq_gt.mpr more] at ordered
      exact absurd rfl ordered
  · rw [Nat.compare_eq_gt.mpr more] at ordered
    exact absurd rfl ordered

section Suggested

variable {collate : String → String → Ordering} [Std.TransCmp collate] {db listed : Database}

/-- The entities whose name contains a term. -/
def namesWith (db : Database) (term : String) : List EntityRecord :=
  db.entities.records.filter fun record => includes (Platform.toLowerCase term) (Platform.toLowerCase record.entityName)

instance (term : String) : Std.TransCmp (suggestionOrder collate term) :=
  have : Std.TransCmp fun a b : EntityRecord => collate a.entityName b.entityName := transCmp_on EntityRecord.entityName
  inferInstanceAs (Std.TransCmp (compareLex _ (compareLex _ _)))

theorem suggested (collate : String → String → Ordering) [Std.TransCmp collate] (db : Database) (folding : FoldsCase)
    {q : String} (asked : trim q ≠ "") (limit : Nat) :
    ∃ chosen, getEntitySuggestions collate db q limit = chosen.map EntityRecord.suggestion ∧
      Best (fun a b => suggestionOrder collate (trim q) a b ≠ .gt) limit (namesWith db (trim q)) chosen := by
  have : Std.Total fun a b => suggestionOrder collate (trim q) a b ≠ .gt := total_of_cmp
  have : IsTrans EntityRecord fun a b => suggestionOrder collate (trim q) a b ≠ .gt := trans_of_cmp
  refine ⟨_, ?_, best_of_insertionSort limit (namesWith db (trim q))⟩
  rw [getEntitySuggestions, if_neg asked]
  simp only [ilike_escapeLikePattern folding]
  rfl

/-- The first matches in their rank, as many as asked for, whatever order the rows
are listed in.  An empty request gets none. -/
theorem suggestions_best [Std.LawfulEqCmp collate] (folding : FoldsCase) (same : SameRows db listed) (q : String)
    (limit : Nat) :
    (trim q = "" → getEntitySuggestions collate db q limit = []) ∧
    (trim q ≠ "" → ∃ chosen, getEntitySuggestions collate db q limit = chosen.map EntityRecord.suggestion ∧
      Best (RanksBefore collate (trim q)) limit (namesWith db (trim q)) chosen) ∧
    getEntitySuggestions collate listed q limit = getEntitySuggestions collate db q limit := by
  refine ⟨fun empty => ?_, fun asked => ?_, ?_⟩
  · rw [getEntitySuggestions, if_pos empty]
  · obtain ⟨chosen, made, best⟩ := suggested collate db folding asked limit
    refine ⟨chosen, made, best.imp fun a member b later ordered => ?_⟩
    obtain ⟨skipped, first⟩ := exists_firstAt folding (List.mem_filter.mp member).2
    obtain ⟨after, second⟩ := exists_firstAt folding (List.mem_filter.mp later).2
    exact ranksBefore_of_order first second ordered
  · by_cases empty : trim q = ""
    · rw [getEntitySuggestions, if_pos empty, getEntitySuggestions, if_pos empty]
    · have : Std.Total fun a b => suggestionOrder collate (trim q) a b ≠ .gt := total_of_cmp
      have : IsTrans EntityRecord fun a b => suggestionOrder collate (trim q) a b ≠ .gt := trans_of_cmp
      obtain ⟨chosen, made, best⟩ := suggested collate db folding empty limit
      obtain ⟨others, listedMade, listedBest⟩ := suggested collate listed folding empty limit
      have perm : (namesWith listed (trim q)).Perm (namesWith db (trim q)) := same.entities.filter _
      rw [made, listedMade, (listedBest.perm perm).eq best]
      intro a member b other before after
      have tie := Std.OrientedCmp.isLE_antisymm (Ordering.isLE_iff_ne_gt.mpr before) (Ordering.isLE_iff_ne_gt.mpr after)
      rw [suggestionOrder, compareLex_eq_eq, compareLex_eq_eq] at tie
      exact record_of_name (List.mem_filter.mp member).1 (List.mem_filter.mp other).1
        (Std.LawfulEqCmp.eq_of_compare tie.2.2)

end Suggested

/-- A row, or a node below it, is marked as a match for an entity. -/
def ListRow.Marks (row : ListRow) (id : EntityId) : Prop :=
  row.id = id ∧ row.matchesSearch = true ∨ ∃ child, Below row.children child ∧ child.id = id ∧ child.matchesSearch = true

/-- A page from the first to the last marks an entity. -/
def MarkedOnPages (pages : Nat → EntitiesPage) (id : EntityId) : Prop :=
  ∃ number, 1 ≤ number ∧ number ≤ (pages number).pagination.totalPages ∧ ∃ row ∈ (pages number).data, row.Marks id

omit [Platform] in
theorem terminal_of_rules {db : Database} (rules : RegistrationRules db) : FqsAreTerminal db := by
  intro link linked record member fq id
  rcases List.mem_append.mp linked with owned | domestic
  · obtain ⟨edge, stored, rfl⟩ := List.mem_map.mp owned
    rw [rules.edges edge stored record member (.inl id)] at fq
    cases fq
  · obtain ⟨other, otherMember, found⟩ := List.mem_filterMap.mp domestic
    obtain ⟨isFq, linkedTo, _⟩ := EntityRecord.link?_eq_some.mp found
    obtain ⟨parent, parentMember, wired, entity⟩ := rules.fqs other otherMember isFq
    have same : record.id = parent.id := id.trans (Option.some.inj (linkedTo.symm.trans wired))
    rw [Table.eq_of_id member parentMember same, entity] at fq
    cases fq

section Search

variable {db listed : Database} {today : Date} {query : EntitiesQuery} {pages : Nat → EntitiesPage} {listing : Nat → Database}

/-- A search for a term and nothing else. -/
structure SearchFor (query : EntitiesQuery) (term : String) : Prop where
  search : query.term = some term
  entityStatus : truthy query.entityStatus = none
  complianceStatus : truthy query.complianceStatus = none
  jurisdiction : truthy query.jurisdiction = none

/-- A node is marked exactly when its entity has a matching name. -/
theorem TreeFor.marks (same : SameRows db listed) {root : CandidateRoot} {row : ListRow}
    (tree : TreeFor listed today query root row) {record : EntityRecord} (member : record ∈ db.entities.records) :
    (root.id = record.id → root.entityName = record.entityName →
      row.matchesSearch = matchesQuery query record.entityName) ∧
    ∀ child, Below row.children child → child.id = record.id →
      child.matchesSearch = matchesQuery query record.entityName := by
  refine ⟨fun _ name => name ▸ tree.nodes.2.1, fun child below id => ?_⟩
  obtain ⟨_, other, stored, otherId, _, marked⟩ := tree.child below
  rw [marked, Table.eq_of_id (same.entities.mem_iff.mp stored) member (otherId.trans id)]

omit [Platform] in
theorem SearchFor.passes {term : String} (searching : SearchFor query term) {row : ListRow} :
    row.Passes query ↔ row.SomeNodeMatches := by
  constructor
  · exact fun passes => passes.search (by simp [searching.search])
  · intro marked
    refine ⟨?_, ?_, ?_, fun _ => marked⟩
    · simp [searching.jurisdiction]
    · simp [searching.entityStatus]
    · simp [searching.complianceStatus]

/-- The pages of a search mark exactly the entities whose name contains the term. -/
theorem marked_iff (acyclic : Acyclic db.Owns) (rules : RegistrationRules db) (folding : FoldsCase)
    (orders : OrdersNames db) (same : ∀ number, SameRows db (listing number)) {term : String}
    (searching : SearchFor query term) (requested : Requested listing today query pages) {record : EntityRecord}
    (member : record ∈ db.entities.records) :
    MarkedOnPages pages record.id ↔ matchesQuery query record.entityName = true := by
  obtain ⟨totalPages, filtered⟩ := pagesFiltered (acyclic_childOf acyclic rules) (terminal_of_rules rules) folding orders
    same requested
  have trees : ∀ number, ∀ row ∈ (pages number).data, ∃ root ∈ db.entities.records,
      TreeFor (listing number) today (query.atPage number) (EntityRecord.candidateRoot root) row ∧ row.id = root.id := by
    intro number row inside
    obtain ⟨rounds, returned⟩ := requested number
    obtain ⟨_, owner, _, stored, _, _, tree⟩ := row_tree returned inside
    exact ⟨owner, (same number).entities.mem_iff.mp stored, tree, tree.nodes.1⟩
  constructor
  · intro shown
    obtain ⟨number, _, _, row, inside, marks⟩ := shown
    obtain ⟨root, stored, tree, rowId⟩ := trees number row inside
    obtain ⟨top, below⟩ := tree.marks (same number) member
    rcases marks with ⟨id, marked⟩ | ⟨child, under, id, marked⟩
    · have sameRecord := Table.eq_of_id stored member (rowId.symm.trans id)
      exact (top (rowId.symm.trans id) (congrArg EntityRecord.entityName sameRecord)).symm.trans marked
    · exact (below child under id).symm.trans marked
  · intro matched
    obtain ⟨root, stored, topLevel, showing⟩ := exists_showing acyclic rules member
    have shows : ∀ listed row, SameRows db listed → ∀ query : EntitiesQuery,
        matchesQuery query record.entityName = true →
          TreeFor listed today query (EntityRecord.candidateRoot root) row → row.Marks record.id := by
      intro listed row same query matched tree
      rcases showing listed today query row same tree with rfl | ⟨child, below, id⟩
      · exact .inl ⟨tree.nodes.1, by rw [(tree.marks same member).1 rfl rfl, matched]⟩
      · exact .inr ⟨child, below, id, by rw [(tree.marks same member).2 child below id, matched]⟩
    have passes : ∀ row, TreeFor db today query (EntityRecord.candidateRoot root) row → row.Passes query := by
      intro row tree
      rw [searching.passes]
      rcases shows db row (.refl db) query matched tree with ⟨_, marked⟩ | ⟨child, below, _, marked⟩
      · exact .inl marked
      · exact .inr ⟨child, below, marked⟩
    have listed := (filtered.selected root.id).mpr ⟨root, stored, rfl, topLevel, passes⟩
    obtain ⟨number, first, last, row, inside, id⟩ := mem_shownIds.mp listed
    obtain ⟨owner, ownerStored, tree, rowId⟩ := trees number row inside
    cases Table.eq_of_id ownerStored stored (rowId.symm.trans id)
    exact ⟨number, first, (filtered.totals number).1 ▸ last, row, inside,
      shows _ row (same number) (query.atPage number) matched tree⟩

omit [Platform] in
theorem includes_iff {part text : String} : includes part text = true ↔ part.toList <:+: text.toList := by
  rw [includes, List.any_eq_true, List.infix_iff_prefix_suffix]
  simp only [List.mem_tails, List.isPrefixOf_iff_prefix]
  exact ⟨fun found => ⟨found.choose, found.choose_spec.2, found.choose_spec.1⟩,
    fun found => ⟨found.choose, found.choose_spec.2, found.choose_spec.1⟩⟩

omit [Platform] in
theorem trimChars_inside (chars : List Char) : trimChars chars <:+: chars := by
  have back : trimChars chars <+: chars.dropWhile isWhitespace := by
    rw [← List.reverse_suffix, trimChars, List.reverse_reverse]
    exact List.dropWhile_suffix _
  exact back.isInfix.trans (List.dropWhile_suffix _).isInfix

theorem includes_trim (folding : FoldsCase) (name : String) :
    includes (Platform.toLowerCase (trim name)) (Platform.toLowerCase name) = true := by
  rw [includes_iff, folding.toLowerCase, folding.toLowerCase, String.toList_ofList, String.toList_ofList, toList_trim]
  exact (trimChars_inside _).map _

def searchQuery (search : String) (short : search.length ≤ MAX_SEARCH_LENGTH)
    (pageSize : Option { size : Nat // 0 < size }) : EntitiesQuery where
  search := some ⟨search, short⟩
  page := none
  pageSize := pageSize
  entityStatus := none
  complianceStatus := none
  jurisdiction := none

omit [Platform] in
theorem searchFor_searchQuery {search : String} (short : search.length ≤ MAX_SEARCH_LENGTH) (asked : trim search ≠ "")
    (pageSize : Option { size : Nat // 0 < size }) : SearchFor (searchQuery search short pageSize) (trim search) where
  search := by simp [EntitiesQuery.term, searchQuery, truthy, asked]
  entityStatus := rfl
  complianceStatus := rfl
  jurisdiction := rfl

section Agreement

variable {collate : String → String → Ordering} [Std.TransCmp collate]
  (acyclic : Acyclic db.Owns) (rules : RegistrationRules db) (folding : FoldsCase) (orders : OrdersNames db)
  (same : ∀ number, SameRows db (listing number))
include acyclic rules folding orders same

/-- Whoever searches for the name of a suggestion, when it is not too long to search
for, finds its entity marked, at any depth of some page. -/
theorem suggestion_found {q : String} {limit : Nat} {suggestion : EntitySuggestion}
    (offered : suggestion ∈ getEntitySuggestions collate db q limit) (named : trim suggestion.entityName ≠ "")
    (short : suggestion.entityName.length ≤ MAX_SEARCH_LENGTH) (today : Date)
    (pageSize : Option { size : Nat // 0 < size }) :
    let query := searchQuery suggestion.entityName short pageSize
    (db.FewWalks db.entities.ids → ∃ pages, Requested listing today query pages) ∧
    ∀ pages, Requested listing today query pages → MarkedOnPages pages suggestion.id := by
  intro query
  refine ⟨fun few => exists_pages (acyclic_childOf acyclic rules) few same today query, fun pages requested => ?_⟩
  have asked : trim q ≠ "" := by
    intro empty
    rw [getEntitySuggestions, if_pos empty] at offered
    cases offered
  obtain ⟨chosen, made, best⟩ := suggested collate db folding asked limit
  rw [made] at offered
  obtain ⟨record, picked, rfl⟩ := List.mem_map.mp offered
  have member := (List.mem_filter.mp (best.subset picked)).1
  have searching := searchFor_searchQuery short named pageSize
  refine (marked_iff acyclic rules folding orders same searching requested member).mpr ?_
  rw [matchesQuery_eq searching.search]
  exact includes_trim folding record.entityName

/-- With a limit that leaves none out, the suggestions are the entities that a
search for the same text marks on its pages. -/
theorem suggestions_marked {q : String} (short : q.length ≤ MAX_SEARCH_LENGTH) (asked : trim q ≠ "") {limit : Nat}
    (enough : (namesWith db (trim q)).length ≤ limit) (today : Date) (pageSize : Option { size : Nat // 0 < size }) :
    let query := searchQuery q short pageSize
    (db.FewWalks db.entities.ids → ∃ pages, Requested listing today query pages) ∧
    ∀ pages, Requested listing today query pages → ∀ record ∈ db.entities.records,
      EntityRecord.suggestion record ∈ getEntitySuggestions collate db q limit ↔ MarkedOnPages pages record.id := by
  intro query
  refine ⟨fun few => exists_pages (acyclic_childOf acyclic rules) few same today query,
    fun pages requested record member => ?_⟩
  have searching := searchFor_searchQuery short asked pageSize
  rw [marked_iff acyclic rules folding orders same searching requested member, matchesQuery_eq searching.search]
  obtain ⟨chosen, made, best⟩ := suggested collate db folding asked limit
  have all : (namesWith db (trim q)).Perm chosen := by
    obtain ⟨rest, perm, _⟩ := best.first
    have length := perm.length_eq
    rw [List.length_append, best.length, Nat.min_eq_right enough] at length
    rwa [List.eq_nil_of_length_eq_zero (by omega : rest.length = 0), List.append_nil] at perm
  rw [made, List.mem_map]
  constructor
  · intro offered
    obtain ⟨other, picked, same⟩ := offered
    obtain ⟨stored, contained⟩ := List.mem_filter.mp (best.subset picked)
    rwa [Table.eq_of_id stored member (congrArg EntitySuggestion.id same)] at contained
  · intro contained
    exact ⟨record, all.subset (List.mem_filter.mpr ⟨member, contained⟩), rfl⟩

end Agreement

end Search

omit [Platform] in
example :
    letI := asciiPlatform
    (getEntitySuggestions compare discountState " A" 2).map EntitySuggestion.entityName = ["Gamma", "Beta"] := by
  decide +kernel

omit [Platform] in
theorem discount_suggestions :
    letI := asciiPlatform
    (trim "a" = "" → getEntitySuggestions compare discountState "a" 2 = []) ∧
    (trim "a" ≠ "" → ∃ chosen, getEntitySuggestions compare discountState "a" 2 = chosen.map EntityRecord.suggestion ∧
      Best (RanksBefore compare (trim "a")) 2 (namesWith discountState (trim "a")) chosen) ∧
    getEntitySuggestions compare discountState "a" 2 = getEntitySuggestions compare discountState "a" 2 :=
  letI := asciiPlatform
  suggestions_best asciiPlatform_folds (.refl discountState) "a" 2

omit [Platform] in
theorem discount_suggestion_found :
    letI := asciiPlatform
    ∃ suggestion ∈ getEntitySuggestions compare discountState "a f" 8, ∃ short,
      let query := searchQuery suggestion.entityName short none
      (∃ pages, Requested (fun _ => discountState) ⟨0⟩ query pages) ∧
      ∀ pages, Requested (fun _ => discountState) ⟨0⟩ query pages → MarkedOnPages pages suggestion.id := by
  have offered : letI := asciiPlatform
      ∃ suggestion ∈ getEntitySuggestions compare discountState "a f" 8,
        trim suggestion.entityName ≠ "" ∧ suggestion.entityName.length ≤ MAX_SEARCH_LENGTH := by
    decide +kernel
  let _ := asciiPlatform
  obtain ⟨suggestion, offered, named, short⟩ := offered
  obtain ⟨returned, marked⟩ := suggestion_found discountState_owns discountState_rules asciiPlatform_folds
    (asciiPlatform_orders _) (fun _ => .refl discountState) offered named short ⟨0⟩ none
  exact ⟨suggestion, offered, short, returned discountState_few, marked⟩

omit [Platform] in
theorem discount_suggestions_marked :
    letI := asciiPlatform
    let query := searchQuery "BETA" (by decide) none
    (∃ pages, Requested (fun _ => discountState) ⟨0⟩ query pages) ∧
    ∀ pages, Requested (fun _ => discountState) ⟨0⟩ query pages → ∀ record ∈ discountState.entities.records,
      EntityRecord.suggestion record ∈ getEntitySuggestions compare discountState "BETA" 8 ↔
        MarkedOnPages pages record.id := by
  have asked : trim "BETA" ≠ "" := by decide +kernel
  have enough : letI := asciiPlatform; (namesWith discountState (trim "BETA")).length ≤ 8 := by decide +kernel
  intro query
  let _ := asciiPlatform
  exact And.imp_left (fun returned => returned discountState_few) (suggestions_marked discountState_owns
    discountState_rules asciiPlatform_folds (asciiPlatform_orders _) (fun _ => .refl _) (by decide) asked enough ⟨0⟩ none)

end Coverpin.Registry
