import Coverpin.Data.Counting
import Coverpin.Registry.Analytics
import Coverpin.Registry.FilteredPages

namespace Coverpin.Registry

open Coverpin.Data Coverpin.Database Coverpin.Server Coverpin.Upload Coverpin.Validation Relation

/-! # The charts that count entities

Every entity that passes the filters is counted once, at any depth.  The statuses
of the chart are those that the list shows, though the two endpoints read filings
for different sets of entities.
-/

variable [Platform] {base : AnalyticsBase} {db : Database} {filings : List Filing} {today : Date} {rounds : Nat}
  {query : AnalyticsQuery} {analytics : Analytics}

omit [Platform] in
theorem text_injective : ComplianceStatus.text.Injective := by
  intro status other same
  cases status <;> cases other <;> first | rfl | exact absurd same (by decide)

theorem complianceBreakdown_eq (fresh : filings.Perm db.filings.records) (entities : List EntityRecord) :
    complianceBreakdown (filings.filter fun filing => (entities.map EntityRecord.id).contains filing.entityId) today entities =
      (InsertionMap.tally entities (ownStatus db today)).entries.map fun entry => ⟨entry.1.text, entry.2⟩ := by
  let filingsByEntityId := InsertionMap.groupBy
    (filings.filter fun filing => (entities.map EntityRecord.id).contains filing.entityId) Filing.entityId
  have own : ∀ entity ∈ entities, computeComplianceStatus entity.entityStatus (nextDueDateOf filingsByEntityId entity.id)
      today = ownStatus db today entity := by
    intro entity member
    have listed : (entities.map EntityRecord.id).contains entity.id = true :=
      List.contains_iff_mem.mpr (List.mem_map_of_mem member)
    rw [ownStatus, ownNextDueDate, nextDueDateOf, InsertionMap.getD_groupBy, List.filter_filter]
    refine congrArg (computeComplianceStatus entity.entityStatus · today) (computeNextDueDate_perm (List.Perm.map _ ?_))
    refine (List.Perm.of_eq (List.filter_congr fun filing _ => ?_)).trans (fresh.filter _)
    by_cases same : filing.entityId = entity.id
    · rw [same, listed, Bool.and_true]
    · simp [same]
  have counts : countBy entities (fun entity =>
      (computeComplianceStatus entity.entityStatus (nextDueDateOf filingsByEntityId entity.id) today).text) =
        (InsertionMap.tally entities (ComplianceStatus.text ∘ ownStatus db today)).entries := by
    refine congrArg InsertionMap.entries (List.foldl_ext _ _ _ fun counts entity member => ?_)
    exact congrArg (fun status => counts.add (ComplianceStatus.text status) 1) (own entity member)
  rw [InsertionMap.tally_rename_entries text_injective] at counts
  rw [complianceBreakdown]
  exact (congrArg (List.map _) counts).trans List.map_map

omit [Platform] in
def ListRow.Shows (row : ListRow) (fields : ShownFields) : Prop :=
  row.fields = fields ∨ ∃ child, Below row.children child ∧ child.fields = fields

/-- A page from the first to the last shows these fields at some depth. -/
def ShownOnPages (pages : Nat → EntitiesPage) (fields : ShownFields) : Prop :=
  ∃ number, 1 ≤ number ∧ number ≤ (pages number).pagination.totalPages ∧ ∃ row ∈ (pages number).data, row.Shows fields

theorem exists_row_of_root {roots : List CandidateRoot} {rows : List ListRow} {list : EntitiesQuery}
    (trees : List.Forall₂ (TreeFor db today list) roots rows) {root : CandidateRoot} (member : root ∈ roots) :
    ∃ row ∈ rows, TreeFor db today list root row := by
  induction trees with
  | nil => cases member
  | cons tree _ induction =>
      rcases List.mem_cons.mp member with rfl | later
      · exact ⟨_, List.mem_cons_self, tree⟩
      · obtain ⟨row, inside, built⟩ := induction later
        exact ⟨row, List.mem_cons_of_mem _ inside, built⟩

/-- Every top-level entity has its row on one of the pages of the whole list. -/
theorem exists_row (orders : OrdersNames db) {listing : Nat → Database} (same : ∀ number, SameRows db (listing number))
    {list : EntitiesQuery} (unfiltered : Unfiltered list) {pages : Nat → EntitiesPage}
    (requested : Requested listing today list pages) {root : EntityRecord} (stored : root ∈ db.entities.records)
    (topLevel : TopLevel db root.id) : ∃ number, 1 ≤ number ∧ number ≤ (pages number).pagination.totalPages ∧
      ∃ row ∈ (pages number).data, TreeFor (listing number) today (list.atPage number) (EntityRecord.candidateRoot root) row := by
  let candidates := sortCandidates (fetchCandidateRoots db list)
  have candidate : EntityRecord.candidateRoot root ∈ candidates := (List.mem_insertionSort _).mpr (mem_fetched.mpr
    ⟨root, stored, topLevel, by simp [unfiltered.jurisdiction], by simp [unfiltered.entityStatus], rfl⟩)
  rw [← slices_flatten list candidates, List.mem_flatMap] at candidate
  obtain ⟨index, bound, sliced⟩ := candidate
  obtain ⟨rounds, returned⟩ := requested (index + 1)
  obtain ⟨pagination, trees⟩ := page_of_slice orders unfiltered (same (index + 1)) returned
  obtain ⟨row, inside, tree⟩ := exists_row_of_root trees sliced
  exact ⟨index + 1, Nat.succ_pos _, pagination ▸ List.mem_range.mp bound, row, inside, tree⟩

/-- The pages of the whole list show every record, and nothing else. -/
theorem shownOnPages_iff (acyclic : Acyclic db.Owns) (rules : RegistrationRules db) (orders : OrdersNames db)
    {listing : Nat → Database} (same : ∀ number, SameRows db (listing number)) {list : EntitiesQuery}
    (unfiltered : Unfiltered list) {pages : Nat → EntitiesPage} (requested : Requested listing today list pages)
    {fields : ShownFields} :
    ShownOnPages pages fields ↔ ∃ record ∈ db.entities.records, recordFields db today record = fields := by
  constructor
  · intro shown
    obtain ⟨number, _, _, row, member, shows⟩ := shown
    obtain ⟨rounds, returned⟩ := requested number
    have stored : ∃ record ∈ (listing number).entities.records, fields = recordFields (listing number) today record := by
      rcases shows with rfl | ⟨child, below, rfl⟩
      · obtain ⟨record, stored, _, _, fields⟩ := row_shows returned member
        exact ⟨record, stored, fields⟩
      · exact below_shows returned member below
    obtain ⟨record, stored, fields⟩ := stored
    exact ⟨record, (same number).entities.mem_iff.mp stored, by rw [fields, recordFields_listed (same number)]⟩
  · intro recorded
    obtain ⟨record, member, rfl⟩ := recorded
    obtain ⟨root, stored, topLevel, showing⟩ := exists_showing acyclic rules member
    obtain ⟨number, first, last, row, inside, tree⟩ := exists_row orders same unfiltered requested stored topLevel
    obtain ⟨rounds, returned⟩ := requested number
    refine ⟨number, first, last, row, inside, ?_⟩
    rcases showing _ _ _ row (same number) tree with rfl | ⟨child, below, id⟩
    · exact .inl (tree.fields.trans (rootFields_listed (same number) _))
    · refine .inr ⟨child, below, ?_⟩
      obtain ⟨other, otherStored, fields⟩ := below_shows returned inside below
      have otherId : other.id = record.id := (congrArg ShownFields.id fields).symm.trans id
      rw [fields, recordFields_listed (same number),
        Table.eq_of_id ((same number).entities.mem_iff.mp otherStored) member otherId]

/-- The filters of the charts, on what is shown. -/
def AnalyticsQuery.Keeps (query : AnalyticsQuery) (fields : ShownFields) : Prop :=
  (∀ jurisdiction ∈ truthy query.jurisdiction, fields.jurisdiction = jurisdiction) ∧
    ∀ entityStatus ∈ truthy query.entityStatus, fields.entityStatus = entityStatus

theorem keeps_recordFields {record : EntityRecord} :
    query.Keeps (recordFields db today record) ↔ query.passes record = true := by
  simp only [AnalyticsQuery.Keeps, recordFields, AnalyticsQuery.passes, Bool.and_eq_true, Option.all_eq_true,
    decide_eq_true_eq, Option.mem_def]

/-- The bar of a status, or 0. -/
def statusBar (analytics : Analytics) (status : ComplianceStatus) : Nat :=
  ((analytics.complianceBreakdown.find? (·.status = status.text)).map StatusCount.count).getD 0

/-- The breakdown has one bar for each status that occurs, in total as many entities
as pass the filters.  Each bar is the number of entities that all pages of the
whole list show with that status. -/
theorem statuses_exact (acyclic : Acyclic db.Owns) (rules : RegistrationRules db) (orders : OrdersNames db)
    (read : ReadFrom base db) (fresh : filings.Perm db.filings.records)
    (returned : getAnalytics base filings today rounds query = some analytics) :
    (∃ counts, Counts (ownStatus db today) (db.entities.records.filter query.passes) counts ∧
      analytics.complianceBreakdown = counts.map fun entry => ⟨entry.1.text, entry.2⟩) ∧
    ∀ (listing : Nat → Database) (list : EntitiesQuery) (pages : Nat → EntitiesPage),
      (∀ number, SameRows db (listing number)) → Unfiltered list → Requested listing today list pages →
        ∀ status, {id | ∃ fields, ShownOnPages pages fields ∧ query.Keeps fields ∧ fields.complianceStatus = status ∧
          fields.id = id}.encard = statusBar analytics status := by
  have filtered : (base.entities.filter query.passes).Perm (db.entities.records.filter query.passes) :=
    read.entities.filter _
  let entries := (InsertionMap.tally (base.entities.filter query.passes) (ownStatus db today)).entries
  have counted : Counts (ownStatus db today) (db.entities.records.filter query.passes) entries :=
    InsertionMap.tally_counts.perm filtered
  have chart := (getAnalytics_ok returned).1.trans (complianceBreakdown_eq fresh _)
  refine ⟨⟨_, counted, chart⟩, fun listing list pages same unfiltered requested status => ?_⟩
  have bar : statusBar analytics status =
      (db.entities.records.filter query.passes).countP (ownStatus db today · = status) := by
    rw [← counted.reported status, statusBar, chart, List.find?_map, Option.map_map]
    refine congrArg (fun found => (Option.map Prod.snd found).getD 0) (congrArg (List.find? · entries) (funext fun entry => ?_))
    exact decide_eq_decide.mpr text_injective.eq_iff
  let shown := (db.entities.records.filter query.passes).filter (ownStatus db today · = status)
  have distinct : (shown.map EntityRecord.id).Nodup :=
    db.entities.unique.1.sublist ((List.filter_sublist.trans List.filter_sublist).map _)
  rw [bar, List.countP_eq_length_filter, ← List.length_map EntityRecord.id]
  refine encard_of_nodup distinct fun id => ?_
  simp only [List.mem_map, List.mem_filter, decide_eq_true_eq, Set.mem_ofPred_eq,
    shownOnPages_iff acyclic rules orders same unfiltered requested]
  constructor
  · intro listed
    obtain ⟨record, ⟨⟨member, passes⟩, has⟩, rfl⟩ := listed
    exact ⟨_, ⟨record, member, rfl⟩, keeps_recordFields.mpr passes, has, rfl⟩
  · intro listed
    obtain ⟨_, ⟨record, member, rfl⟩, keeps, has, rfl⟩ := listed
    exact ⟨record, ⟨⟨member, keeps_recordFields.mp keeps⟩, has⟩, rfl⟩

omit [Platform] in
theorem discount_statuses :
    letI := asciiPlatform
    let query := AnalyticsQuery.mk none (some "Active") none
    ∃ rounds analytics,
      getAnalytics (baseOf discountState) discountState.filings.records ⟨0⟩ rounds query = some analytics ∧
      (∃ counts, Counts (ownStatus discountState ⟨0⟩) (discountState.entities.records.filter query.passes) counts ∧
        analytics.complianceBreakdown = counts.map fun entry => ⟨entry.1.text, entry.2⟩) ∧
      ∀ (listing : Nat → Database) (list : EntitiesQuery) (pages : Nat → EntitiesPage),
        (∀ number, SameRows discountState (listing number)) → Unfiltered list → Requested listing ⟨0⟩ list pages →
          ∀ status, {id | ∃ fields, ShownOnPages pages fields ∧ query.Keeps fields ∧ fields.complianceStatus = status ∧
            fields.id = id}.encard = statusBar analytics status := by
  intro query
  let _ := asciiPlatform
  obtain ⟨rounds, analytics, returned⟩ :=
    exists_getAnalytics (by decide +kernel : (baseOf discountState).entities.length ≤ maxParameters)
      discountState.filings.records ⟨0⟩ query
  exact ⟨rounds, analytics, returned, statuses_exact discountState_owns discountState_rules (asciiPlatform_orders _)
    (baseOf_read _) (.refl _) returned⟩

def regionLabel (region : Option (OneOf Entities.GLOBAL_REGIONS)) : String :=
  (region.map Subtype.val).getD "Unspecified"

def regionKey (bar : Option (OneOf Entities.GLOBAL_REGIONS) × OneOf Entities.ENTITY_STATUSES) : String :=
  regionLabel bar.1 ++ "|||" ++ bar.2

omit [Platform] in
theorem regionLabel_injective : regionLabel.Injective := by
  have apart : "Unspecified" ∉ Entities.GLOBAL_REGIONS := by decide
  intro region other same
  cases region with
  | none =>
      cases other with
      | none => rfl
      | some other =>
          have same : "Unspecified" = other.val := same
          exact absurd (same ▸ other.property) apart
  | some region =>
      cases other with
      | none =>
          have same : region.val = "Unspecified" := same
          exact absurd (same ▸ region.property) apart
      | some other => exact congrArg some (Subtype.ext same)

omit [Platform] in
/-- The key is taken apart where it was put together. -/
theorem split_regionKey (bar : Option (OneOf Entities.GLOBAL_REGIONS) × OneOf Entities.ENTITY_STATUSES) :
    split "|||" (regionKey bar) = [regionLabel bar.1, bar.2.val] := by
  have each : ∀ region ∈ "Unspecified" :: Entities.GLOBAL_REGIONS, ∀ status ∈ Entities.ENTITY_STATUSES,
      split "|||" (region ++ "|||" ++ status) = [region, status] := by
    decide +kernel
  obtain ⟨region, status⟩ := bar
  refine each (regionLabel region) ?_ _ status.property
  cases region with
  | none => exact List.mem_cons_self
  | some region => exact List.mem_cons_of_mem _ region.property

omit [Platform] in
theorem regionKey_injective : regionKey.Injective := by
  intro bar other same
  have parts := (split_regionKey bar).symm.trans ((congrArg (split "|||") same).trans (split_regionKey other))
  obtain ⟨region, status⟩ := List.cons_eq_cons.mp parts
  exact Prod.ext (regionLabel_injective region) (Subtype.ext (List.cons_eq_cons.mp status).1)

/-- One bar for each pair of a region, or none, and a status that occurs together,
in total as many entities as pass the filters. -/
theorem regions_exact (read : ReadFrom base db)
    (returned : getAnalytics base filings today rounds query = some analytics) :
    ∃ counts, Counts (fun record : EntityRecord => (record.globalRegion, record.entityStatus))
        (db.entities.records.filter query.passes) counts ∧
      analytics.entityStatusByRegion = counts.map fun entry =>
        ⟨some (regionLabel entry.1.1), some entry.1.2.val, entry.2⟩ := by
  let keyFn := fun record : EntityRecord => (record.globalRegion, record.entityStatus)
  have filtered : (base.entities.filter query.passes).Perm (db.entities.records.filter query.passes) :=
    read.entities.filter _
  refine ⟨_, InsertionMap.tally_counts.perm filtered, ?_⟩
  have counts : countBy (base.entities.filter query.passes) (regionKey ∘ keyFn) = _ :=
    InsertionMap.tally_rename_entries regionKey_injective
  rw [(getAnalytics_ok returned).2.1, entityStatusByRegion]
  refine (congrArg (List.map _) counts).trans (List.map_map.trans (List.map_congr_left fun entry _ => ?_))
  simp only [Function.comp_apply, split_regionKey]
  rfl

omit [Platform] in
theorem discount_regions :
    letI := asciiPlatform
    let query := AnalyticsQuery.mk none (some "Active") none
    ∃ rounds analytics,
      getAnalytics (baseOf discountState) discountState.filings.records ⟨0⟩ rounds query = some analytics ∧
      ∃ counts, Counts (fun record : EntityRecord => (record.globalRegion, record.entityStatus))
          (discountState.entities.records.filter query.passes) counts ∧
        analytics.entityStatusByRegion = counts.map fun entry =>
          ⟨some (regionLabel entry.1.1), some entry.1.2.val, entry.2⟩ := by
  intro query
  let _ := asciiPlatform
  obtain ⟨rounds, analytics, returned⟩ :=
    exists_getAnalytics (by decide +kernel : (baseOf discountState).entities.length ≤ maxParameters)
      discountState.filings.records ⟨0⟩ query
  exact ⟨rounds, analytics, returned, regions_exact (baseOf_read _) returned⟩

end Coverpin.Registry
