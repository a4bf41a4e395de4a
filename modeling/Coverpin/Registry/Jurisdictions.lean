import Coverpin.Data.Ranking
import Coverpin.Registry.FilteredPages
import Mathlib.Data.List.Dedup

namespace Coverpin.Registry

open Coverpin.Data Coverpin.Database Coverpin.Upload Coverpin.Validation Relation

/-! # `RegistryService.getJurisdictions`

The options of the jurisdiction filter.  Whatever else a request asks for, the
options cut its list into parts.
-/

/-- `SELECT DISTINCT e.jurisdiction ... ORDER BY e.jurisdiction ASC`. -/
def getJurisdictions (collate : String → String → Ordering) (db : Database) : List String :=
  (db.entities.records.map EntityRecord.jurisdiction).dedup.insertionSort fun a b => collate a b ≠ .gt

section Options

variable {collate : String → String → Ordering} {db listed : Database}

theorem mem_getJurisdictions {jurisdiction : String} :
    jurisdiction ∈ getJurisdictions collate db ↔ ∃ record ∈ db.entities.records, record.jurisdiction = jurisdiction := by
  rw [getJurisdictions, List.mem_insertionSort, List.mem_dedup, List.mem_map]

theorem getJurisdictions_nodup : (getJurisdictions collate db).Nodup :=
  (List.perm_insertionSort _ _).nodup_iff.mpr (List.nodup_dedup _)

theorem getJurisdictions_sorted [Std.TransCmp collate] :
    (getJurisdictions collate db).Pairwise fun a b => collate a b ≠ .gt := by
  have : Std.Total fun a b => collate a b ≠ .gt := total_of_cmp
  have : IsTrans String fun a b => collate a b ≠ .gt := trans_of_cmp
  exact List.pairwise_insertionSort (fun a b => collate a b ≠ .gt) _

theorem getJurisdictions_listed [Std.TransCmp collate] [Std.LawfulEqCmp collate] (same : SameRows db listed) :
    getJurisdictions collate listed = getJurisdictions collate db := by
  refine List.Perm.eq_of_pairwise (fun a b _ _ (before : collate a b ≠ .gt) after => eq_of_cmp before after) getJurisdictions_sorted
    getJurisdictions_sorted ((List.perm_ext_iff_of_nodup getJurisdictions_nodup getJurisdictions_nodup).mpr fun _ => ?_)
  simp only [mem_getJurisdictions, same.entities.mem_iff]

end Options

variable [Platform] {db : Database} {today : Date} {query : EntitiesQuery} {listing : Nat → Database}

def EntitiesQuery.inJurisdiction (query : EntitiesQuery) (jurisdiction : String) : EntitiesQuery :=
  { query with jurisdiction := some jurisdiction }

/-- All ids that the pages of one request show at the top level. -/
def shownOf (pages : Nat → EntitiesPage) : List EntityId :=
  shownIds pages (pages 1).pagination.totalPages

theorem shownOf_selection (folding : FoldsCase) (orders : OrdersNames db) (same : ∀ number, SameRows db (listing number))
    {pages : Nat → EntitiesPage} (requested : Requested listing today query pages) :
    ∃ candidates, Selection db today query candidates ∧ shownOf pages = candidates.map CandidateRoot.id ∧
      (pages 1).pagination.total = candidates.length := by
  obtain ⟨candidates, selection, page⟩ := pages_candidates folding orders same requested
  refine ⟨candidates, selection, ?_, by rw [(page 1).1]; rfl⟩
  rw [shownOf, (page 1).1]
  exact shownIds_eq fun number => (page number).2

theorem passesFilters_inJurisdiction (unasked : truthy query.jurisdiction = none) {jurisdiction : String}
    (named : jurisdiction ≠ "") {candidate : CandidateRoot} :
    PassesFilters db today (query.inJurisdiction jurisdiction) candidate ↔
      PassesFilters db today query candidate ∧ candidate.jurisdiction = jurisdiction := by
  have asked : truthy (query.inJurisdiction jurisdiction).jurisdiction = some jurisdiction := by
    simp [EntitiesQuery.inJurisdiction, truthy, named]
  constructor
  · intro passes
    obtain ⟨record, member, topLevel, inside, hasStatus, rfl⟩ := mem_fetched.mp passes.fetched
    refine ⟨⟨mem_fetched.mpr ⟨record, member, topLevel, ?_, hasStatus, rfl⟩, passes.compliance, passes.search⟩,
      inside jurisdiction asked⟩
    simp [unasked]
  · intro both
    obtain ⟨passes, inside⟩ := both
    obtain ⟨record, member, topLevel, _, hasStatus, rfl⟩ := mem_fetched.mp passes.fetched
    have only : ∀ other ∈ truthy (query.inJurisdiction jurisdiction).jurisdiction, record.jurisdiction = other := by
      intro other inOther
      rw [asked, Option.mem_def, Option.some.injEq] at inOther
      exact inside.trans inOther
    exact ⟨mem_fetched.mpr ⟨record, member, topLevel, only, hasStatus, rfl⟩, passes.compliance, passes.search⟩

/-- What one option shows of the list. -/
theorem mem_part {whole part : List CandidateRoot} (unasked : truthy query.jurisdiction = none) {jurisdiction : String}
    (named : jurisdiction ≠ "") (selection : Selection db today query whole)
    (partSelection : Selection db today (query.inJurisdiction jurisdiction) part) {id : EntityId} :
    id ∈ part.map CandidateRoot.id ↔ id ∈ whole.map CandidateRoot.id ∧
      ∃ record ∈ db.entities.records, record.id = id ∧ record.jurisdiction = jurisdiction := by
  simp only [List.mem_map, partSelection.passes, selection.passes, passesFilters_inJurisdiction unasked named]
  constructor
  · intro listed
    obtain ⟨candidate, ⟨passes, inside⟩, rfl⟩ := listed
    obtain ⟨record, member, _, _, _, rfl⟩ := mem_fetched.mp passes.fetched
    exact ⟨⟨_, passes, rfl⟩, record, member, rfl, inside⟩
  · intro both
    obtain ⟨⟨candidate, passes, rfl⟩, record, member, same, inside⟩ := both
    obtain ⟨own, stored, _, _, _, rfl⟩ := mem_fetched.mp passes.fetched
    rw [Table.eq_of_id member stored same] at inside
    exact ⟨_, ⟨passes, inside⟩, rfl⟩

/-- The options are the jurisdictions of all entities, in order and once each.  The
lists that they filter, whatever else is asked for, share out the list without
them, and their totals add up. -/
theorem jurisdictions_partition {collate : String → String → Ordering} [Std.TransCmp collate] [Std.LawfulEqCmp collate]
    (folding : FoldsCase) (orders : OrdersNames db) (same : ∀ number, SameRows db (listing number))
    (named : ∀ record ∈ db.entities.records, record.jurisdiction ≠ "") (today : Date) (unasked : truthy query.jurisdiction = none) :
    let options := getJurisdictions collate db
    (options.Nodup ∧ options.Pairwise (fun a b => collate a b ≠ .gt) ∧
      (∀ number, getJurisdictions collate (listing number) = options) ∧
      ∀ jurisdiction, jurisdiction ∈ options ↔ ∃ record ∈ db.entities.records, record.jurisdiction = jurisdiction) ∧
    ∀ (whole : Nat → EntitiesPage) (parts : String → Nat → EntitiesPage),
      Requested listing today query whole →
      (∀ jurisdiction ∈ options, Requested listing today (query.inJurisdiction jurisdiction) (parts jurisdiction)) →
      (shownOf whole).Perm (options.flatMap fun jurisdiction => shownOf (parts jurisdiction)) ∧
      (whole 1).pagination.total = (options.map fun jurisdiction => (parts jurisdiction 1).pagination.total).sum := by
  intro options
  refine ⟨⟨getJurisdictions_nodup, getJurisdictions_sorted, fun number => getJurisdictions_listed (same number),
    fun _ => mem_getJurisdictions⟩, fun whole parts wholeRequested partsRequested => ?_⟩
  obtain ⟨candidates, selection, shown, total⟩ := shownOf_selection folding orders same wholeRequested
  have notEmpty : ∀ jurisdiction ∈ options, jurisdiction ≠ "" := by
    intro jurisdiction listed
    obtain ⟨record, member, rfl⟩ := mem_getJurisdictions.mp listed
    exact named record member
  have part : ∀ jurisdiction ∈ options, ∀ id, id ∈ shownOf (parts jurisdiction) ↔ id ∈ shownOf whole ∧
      ∃ record ∈ db.entities.records, record.id = id ∧ record.jurisdiction = jurisdiction := by
    intro jurisdiction listed id
    obtain ⟨_, partSelection, partShown, _⟩ := shownOf_selection folding orders same (partsRequested jurisdiction listed)
    rw [partShown, shown]
    exact mem_part unasked (notEmpty jurisdiction listed) selection partSelection
  have once : ∀ {query : EntitiesQuery} {pages : Nat → EntitiesPage}, Requested listing today query pages →
      (shownOf pages).Nodup ∧ (pages 1).pagination.total = (shownOf pages).length := by
    intro query pages requested
    obtain ⟨candidates, selection, shown, total⟩ := shownOf_selection folding orders same requested
    rw [shown, List.length_map]
    exact ⟨selection.once, total⟩
  have distinct : (options.flatMap fun jurisdiction => shownOf (parts jurisdiction)).Nodup := by
    rw [List.nodup_flatMap]
    refine ⟨fun jurisdiction listed => (once (partsRequested jurisdiction listed)).1, ?_⟩
    refine getJurisdictions_nodup.imp_of_mem fun {a b} inA inB apart id first second => ?_
    obtain ⟨_, record, member, rfl, inside⟩ := (part a inA id).mp first
    obtain ⟨_, other, otherMember, same, otherInside⟩ := (part b inB record.id).mp second
    rw [Table.eq_of_id otherMember member same] at otherInside
    exact apart (inside.symm.trans otherInside)
  have perm : (shownOf whole).Perm (options.flatMap fun jurisdiction => shownOf (parts jurisdiction)) := by
    refine (List.perm_ext_iff_of_nodup (once wholeRequested).1 distinct).mpr fun id => ?_
    rw [List.mem_flatMap]
    constructor
    · intro listed
      obtain ⟨candidate, chosen, rfl⟩ := List.mem_map.mp (shown ▸ listed)
      obtain ⟨record, member, _, _, _, rfl⟩ := mem_fetched.mp ((selection.passes candidate).mp chosen).fetched
      have option : record.jurisdiction ∈ options := mem_getJurisdictions.mpr ⟨record, member, rfl⟩
      exact ⟨_, option, (part _ option _).mpr ⟨listed, record, member, rfl, rfl⟩⟩
    · intro listed
      obtain ⟨jurisdiction, option, inside⟩ := listed
      exact ((part jurisdiction option id).mp inside).1
  refine ⟨perm, ?_⟩
  refine (once wholeRequested).2.trans ((perm.length_eq.trans List.length_flatMap).trans ?_)
  exact congrArg List.sum (List.map_congr_left fun jurisdiction option => (once (partsRequested jurisdiction option)).2.symm)

omit [Platform] in
/-- The options of that state, with a request that asks for a status too. -/
theorem discount_jurisdictions :
    letI := asciiPlatform
    let options := getJurisdictions compare discountState
    let query := { firstPage with entityStatus := some "Active" }
    (options.Nodup ∧ options.Pairwise (fun a b => compare a b ≠ .gt) ∧
      (∀ _ : Nat, getJurisdictions compare discountState = options) ∧
      ∀ jurisdiction, jurisdiction ∈ options ↔
        ∃ record ∈ discountState.entities.records, record.jurisdiction = jurisdiction) ∧
    ∀ (whole : Nat → EntitiesPage) (parts : String → Nat → EntitiesPage),
      Requested (fun _ => discountState) ⟨0⟩ query whole →
      (∀ jurisdiction ∈ options,
        Requested (fun _ => discountState) ⟨0⟩ (query.inJurisdiction jurisdiction) (parts jurisdiction)) →
      (shownOf whole).Perm (options.flatMap fun jurisdiction => shownOf (parts jurisdiction)) ∧
      (whole 1).pagination.total = (options.map fun jurisdiction => (parts jurisdiction 1).pagination.total).sum :=
  letI := asciiPlatform
  jurisdictions_partition asciiPlatform_folds (asciiPlatform_orders _) (fun _ => .refl _) (by decide +kernel) ⟨0⟩ rfl

end Coverpin.Registry
