import Coverpin.Data.Worklist
import Coverpin.Registry.Paging
import Coverpin.Server.Processes

namespace Coverpin.Registry

open Coverpin.Data Coverpin.Database Coverpin.Server Coverpin.Upload Coverpin.Validation Relation

/-! # `RegistryService.getAnalytics`

Four charts over the entities and edges that `getAnalyticsBase` has read.  The
descendants of a top-level entity are collected by a worklist, which is given a
number of rounds; percentages are hundredths of a percent.
-/

structure AnalyticsQuery where
  jurisdiction : Option String
  entityStatus : Option String
  parentEntityId : Option EntityId
deriving DecidableEq, Repr

structure StatusCount where
  status : String
  count : Nat
deriving DecidableEq, Repr

structure RegionCount where
  region : Option String
  entityStatus : Option String
  count : Nat
deriving DecidableEq, Repr

structure DescendantCount where
  entityName : String
  subsidiaries : Nat
  fqs : Nat
deriving DecidableEq, Repr

structure ParentOption where
  id : EntityId
  entityName : String
deriving DecidableEq, Repr

structure OwnedChild where
  entityName : String
  pct : Nat
  unallocatedPct : Nat
deriving DecidableEq, Repr

structure OwnershipByParent where
  parents : List ParentOption
  selectedParentId : Option EntityId
  children : List OwnedChild
deriving DecidableEq, Repr

structure Analytics where
  complianceBreakdown : List StatusCount
  entityStatusByRegion : List RegionCount
  subsidiaryFqCountByTopLevel : List DescendantCount
  ownershipByParent : OwnershipByParent
deriving DecidableEq, Repr

def AnalyticsQuery.passes (query : AnalyticsQuery) (entity : EntityRecord) : Bool :=
  ((truthy query.jurisdiction).all fun jurisdiction => entity.jurisdiction = jurisdiction) &&
    (truthy query.entityStatus).all fun entityStatus => entity.entityStatus.val = entityStatus

/-- Only the filings of the filtered entities are read. -/
def scopedFilings (filings : List Filing) (filteredEntities : List EntityRecord) : Option (List Filing) :=
  if filteredEntities = [] then some [] else findFilings filings (filteredEntities.map EntityRecord.id)

/-- How often each key occurs, in the order of the first occurrences. -/
def countBy (items : List α) (keyFn : α → String) : List (String × Nat) :=
  (items.foldl (fun counts item => counts.add (keyFn item) 1) InsertionMap.empty).entries

def complianceBreakdown [Platform] (filings : List Filing) (today : Date) (filteredEntities : List EntityRecord) :
    List StatusCount :=
  let filingsByEntityId := InsertionMap.groupBy filings Filing.entityId
  let complianceStatusFor := fun entity : EntityRecord =>
    computeComplianceStatus entity.entityStatus (nextDueDateOf filingsByEntityId entity.id) today
  (countBy filteredEntities fun entity => (complianceStatusFor entity).text).map fun (status, count) => { status, count }

/-- No region counts as `Unspecified`. -/
def entityStatusByRegion (filteredEntities : List EntityRecord) : List RegionCount :=
  (countBy filteredEntities fun entity =>
    (entity.globalRegion.map Subtype.val).getD "Unspecified" ++ "|||" ++ entity.entityStatus).map fun (key, count) =>
      { region := (split "|||" key)[0]?, entityStatus := (split "|||" key)[1]?, count }

structure Descendants where
  subsidiaryIds : List EntityId
  fqIds : List EntityId
deriving DecidableEq, Repr

def collectDescendants (edgesByParent : InsertionMap EntityId (List OwnershipEdge))
    (fqsByDomesticId : InsertionMap (Option EntityId) (List EntityRecord)) (rounds : Nat) (rootId : EntityId) :
    Option Descendants :=
  let children := fun current => ((edgesByParent.get? current).getD []).map OwnershipEdge.childEntityId
  let fqs := fun current => ((fqsByDomesticId.get? (some current)).getD []).map EntityRecord.id
  (Worklist.run children fqs rounds (.start rootId)).map fun collected =>
    { subsidiaryIds := collected.seen, fqIds := collected.outputs }

def edgesByParent (base : AnalyticsBase) : InsertionMap EntityId (List OwnershipEdge) :=
  .groupBy base.edges OwnershipEdge.parentEntityId

def fqsByDomesticId (base : AnalyticsBase) : InsertionMap (Option EntityId) (List EntityRecord) :=
  .groupBy (base.entities.filter fun entity => entity.registrationType = .fq && entity.domesticEntityId.isSome)
    EntityRecord.domesticEntityId

def topLevelEntities (base : AnalyticsBase) (query : AnalyticsQuery) : List EntityRecord :=
  (base.entities.filter query.passes).filter fun entity =>
    entity.registrationType = .entity && !(base.edges.map OwnershipEdge.childEntityId).contains entity.id

/-- Descendants are counted once each, however many paths lead to them. -/
def subsidiaryFqCountByTopLevel (base : AnalyticsBase) (rounds : Nat) (query : AnalyticsQuery) :
    Option (List DescendantCount) :=
  (topLevelEntities base query).mapM fun entity =>
    (collectDescendants (edgesByParent base) (fqsByDomesticId base) rounds entity.id).map fun descendants =>
      { entityName := entity.entityName
        subsidiaries := descendants.subsidiaryIds.length
        fqs := descendants.fqIds.length }

/-- The direct children of one parent, each with what all of its parents own. -/
def ownershipByParent [Platform] (base : AnalyticsBase) (query : AnalyticsQuery) : OwnershipByParent :=
  let parents := (((base.entities.filter query.passes).filter fun entity =>
    (base.edges.map OwnershipEdge.parentEntityId).contains entity.id).map fun entity =>
      { id := entity.id, entityName := entity.entityName : ParentOption }).insertionSort
        fun a b => Platform.localeCompare a.entityName b.entityName ≠ .gt
  let selectedParentId := (query.parentEntityId.filter fun id => parents.any (·.id = id)).or (parents.head?.map (·.id))
  let entityById := InsertionMap.ofPairs (base.entities.map fun entity => (entity.id, entity))
  let totalPctByChildId := base.edges.foldl (fun totals edge => totals.add edge.childEntityId edge.ownershipPct)
    InsertionMap.empty
  let children := (selectedParentId.map fun parentId => ((edgesByParent base).get? parentId).getD []).getD []
  { parents
    selectedParentId
    children := children.filterMap fun edge => do
      let child ← entityById.get? edge.childEntityId
      let totalPct := (totalPctByChildId.get? edge.childEntityId).getD edge.ownershipPct
      if query.passes child then
        some { entityName := child.entityName, pct := totalPct, unallocatedPct := 100 * 100 - totalPct }
      else none }

def getAnalytics [Platform] (base : AnalyticsBase) (filings : List Filing) (today : Date) (rounds : Nat)
    (query : AnalyticsQuery) : Option Analytics := do
  let filteredEntities := base.entities.filter query.passes
  let filings ← scopedFilings filings filteredEntities
  let subsidiaryFqCountByTopLevel ← subsidiaryFqCountByTopLevel base rounds query
  return {
    complianceBreakdown := complianceBreakdown filings today filteredEntities
    entityStatusByRegion := entityStatusByRegion filteredEntities
    subsidiaryFqCountByTopLevel
    ownershipByParent := ownershipByParent base query }

/-- The nodes of a tree that are shown with one relation. -/
def ListRow.shown (row : ListRow) (relation : LinkRelation) : Set EntityId :=
  {id | ∃ child, Below row.children child ∧ child.relation = relation ∧ child.id = id}

def BaseOwns (base : AnalyticsBase) (owner child : EntityId) : Prop :=
  ∃ edge ∈ base.edges, edge.parentEntityId = owner ∧ edge.childEntityId = child

def BaseFqOf (base : AnalyticsBase) (domestic fq : EntityId) : Prop :=
  ∃ record ∈ base.entities, record.id = fq ∧ record.registrationType = .fq ∧ record.domesticEntityId = some domestic

section Worklist

variable {base : AnalyticsBase} {rounds : Nat} {rootId : EntityId}

theorem mem_edgesByParent {owner child : EntityId} :
    child ∈ (((edgesByParent base).get? owner).getD []).map OwnershipEdge.childEntityId ↔ BaseOwns base owner child := by
  rw [edgesByParent, InsertionMap.getD_groupBy]
  simp only [List.mem_map, List.mem_filter, decide_eq_true_eq, BaseOwns, and_assoc]

theorem mem_fqsByDomesticId {domestic fq : EntityId} :
    fq ∈ (((fqsByDomesticId base).get? (some domestic)).getD []).map EntityRecord.id ↔ BaseFqOf base domestic fq := by
  rw [fqsByDomesticId, InsertionMap.getD_groupBy]
  simp only [List.mem_map, List.mem_filter, Bool.and_eq_true, decide_eq_true_eq, BaseFqOf]
  constructor
  · intro listed
    obtain ⟨record, ⟨⟨member, type, _⟩, domestic⟩, same⟩ := listed
    exact ⟨record, member, same, type, domestic⟩
  · intro linked
    obtain ⟨record, member, same, type, domestic⟩ := linked
    exact ⟨record, ⟨⟨member, type, by rw [domestic]; rfl⟩, domestic⟩, same⟩

/-- All that the root owns, and the FQs of that and of the root, without repetition. -/
theorem collectDescendants_ok {descendants : Descendants}
    (collected : collectDescendants (edgesByParent base) (fqsByDomesticId base) rounds rootId = some descendants) :
    (descendants.subsidiaryIds.Nodup ∧ ∀ id, id ∈ descendants.subsidiaryIds ↔ TransGen (BaseOwns base) rootId id) ∧
    descendants.fqIds.Nodup ∧ ∀ id, id ∈ descendants.fqIds ↔
      ∃ owner, ReflTransGen (BaseOwns base) rootId owner ∧ BaseFqOf base owner id := by
  obtain ⟨final, finished, rfl⟩ := Option.map_eq_some_iff.mp collected
  have reached := Worklist.run_start finished
  simpa only [mem_edgesByParent, mem_fqsByDomesticId] using reached

/-- One round for each edge, and one for the root, are enough. -/
theorem exists_collectDescendants (base : AnalyticsBase) (rootId : EntityId) : ∃ descendants,
    collectDescendants (edgesByParent base) (fqsByDomesticId base) (base.edges.length + 1) rootId = some descendants := by
  have within : ∀ owner, (((edgesByParent base).get? owner).getD []).map OwnershipEdge.childEntityId ⊆
      base.edges.map OwnershipEdge.childEntityId := by
    intro owner child listed
    obtain ⟨edge, member, _, rfl⟩ := mem_edgesByParent.mp listed
    exact List.mem_map_of_mem member
  obtain ⟨final, finished⟩ := Worklist.run_start_terminates within
    (fun current => (((fqsByDomesticId base).get? (some current)).getD []).map EntityRecord.id) rootId
  rw [List.length_map] at finished
  exact ⟨_, by rw [collectDescendants, finished]; rfl⟩

theorem BaseOwns.of_perm {reordered : AnalyticsBase} (edges : reordered.edges.Perm base.edges) :
    BaseOwns reordered = BaseOwns base := by
  funext owner child
  simp only [BaseOwns, edges.mem_iff]

theorem BaseFqOf.of_perm {reordered : AnalyticsBase} (entities : reordered.entities.Perm base.entities) :
    BaseFqOf reordered = BaseFqOf base := by
  funext domestic fq
  simp only [BaseFqOf, entities.mem_iff]

/-- The loop ends on any edges, cycles included, with what is reached from the
root on one or more edges, and with the FQs of that and of the root. -/
theorem descendants_exact (base : AnalyticsBase) (rootId : EntityId) :
    (∃ rounds descendants,
      collectDescendants (edgesByParent base) (fqsByDomesticId base) rounds rootId = some descendants) ∧
    ∀ rounds descendants,
      collectDescendants (edgesByParent base) (fqsByDomesticId base) rounds rootId = some descendants →
        (descendants.subsidiaryIds.Nodup ∧ ∀ id, id ∈ descendants.subsidiaryIds ↔ TransGen (BaseOwns base) rootId id) ∧
        (descendants.fqIds.Nodup ∧ ∀ id, id ∈ descendants.fqIds ↔
          ∃ owner, (owner = rootId ∨ TransGen (BaseOwns base) rootId owner) ∧ BaseFqOf base owner id) ∧
        ∀ reordered : AnalyticsBase, reordered.edges.Perm base.edges → reordered.entities.Perm base.entities →
          ∀ rounds others,
            collectDescendants (edgesByParent reordered) (fqsByDomesticId reordered) rounds rootId = some others →
              others.subsidiaryIds.Perm descendants.subsidiaryIds ∧ others.fqIds.Perm descendants.fqIds := by
  refine ⟨⟨_, exists_collectDescendants base rootId⟩, fun rounds descendants collected => ?_⟩
  obtain ⟨⟨distinct, owned⟩, distinctFqs, fqs⟩ := collectDescendants_ok collected
  refine ⟨⟨distinct, owned⟩, ⟨distinctFqs, fun id => ?_⟩, ?_⟩
  · simp only [fqs, reflTransGen_iff_eq_or_transGen]
  · intro reordered edges entities rounds others otherwise
    obtain ⟨⟨otherDistinct, otherOwned⟩, otherDistinctFqs, otherFqs⟩ := collectDescendants_ok otherwise
    rw [BaseOwns.of_perm edges] at otherOwned otherFqs
    rw [BaseFqOf.of_perm entities] at otherFqs
    constructor
    · exact (List.perm_ext_iff_of_nodup otherDistinct distinct).mpr fun id => (otherOwned id).trans (owned id).symm
    · exact (List.perm_ext_iff_of_nodup otherDistinctFqs distinctFqs).mpr fun id => (otherFqs id).trans (fqs id).symm

end Worklist

section Counts

variable {base : AnalyticsBase} {db : Database} {rounds : Nat} {query : AnalyticsQuery}

/-- `getAnalyticsBase` has read the tables of a state, in any order of rows. -/
structure ReadFrom (base : AnalyticsBase) (db : Database) : Prop where
  entities : base.entities.Perm db.entities.records
  edges : base.edges.Perm db.ownershipEdges.records

def baseOf (db : Database) : AnalyticsBase where
  entities := db.entities.records
  edges := db.ownershipEdges.records

theorem baseOf_read (db : Database) : ReadFrom (baseOf db) db :=
  ⟨.refl _, .refl _⟩

theorem ReadFrom.owns (read : ReadFrom base db) : BaseOwns base = db.Owns := by
  funext owner child
  simp only [BaseOwns, Database.Owns, read.edges.mem_iff]

theorem ReadFrom.fqOf (read : ReadFrom base db) : BaseFqOf base = db.FqOf := by
  funext domestic fq
  simp only [BaseFqOf, FqOf, read.entities.mem_iff]

theorem ReadFrom.mem_topLevelEntities (read : ReadFrom base db) {record : EntityRecord} :
    record ∈ topLevelEntities base query ↔
      record ∈ db.entities.records ∧ query.passes record = true ∧ TopLevel db record.id := by
  have owned : (base.edges.map OwnershipEdge.childEntityId).contains record.id = true ↔
      ∃ owner, db.Owns owner record.id := by
    rw [List.contains_iff_mem, ← read.owns, List.mem_map]
    constructor
    · intro listed
      obtain ⟨edge, member, child⟩ := listed
      exact ⟨_, edge, member, rfl, child⟩
    · intro owns
      obtain ⟨_, edge, member, _, child⟩ := owns
      exact ⟨edge, member, child⟩
  simp only [topLevelEntities, List.mem_filter, Bool.and_eq_true, decide_eq_true_eq, Bool.not_eq_true', ← Bool.not_eq_true,
    owned, read.entities.mem_iff, not_exists, TopLevel, and_assoc]
  refine and_congr_right fun member => and_congr_right fun _ => and_congr_left fun _ => ?_
  constructor
  · exact fun entity => ⟨record, member, rfl, entity⟩
  · intro entity
    obtain ⟨other, otherMember, same, entity⟩ := entity
    exact Table.eq_of_id otherMember member same ▸ entity

variable [Platform]

/-- The four charts; the filings of the first are those of the filtered entities. -/
theorem getAnalytics_ok {filings : List Filing} {today : Date} {analytics : Analytics}
    (returned : getAnalytics base filings today rounds query = some analytics) :
    let filteredEntities := base.entities.filter query.passes
    analytics.complianceBreakdown = complianceBreakdown
        (filings.filter fun filing => (filteredEntities.map EntityRecord.id).contains filing.entityId) today filteredEntities ∧
      analytics.entityStatusByRegion = entityStatusByRegion filteredEntities ∧
      subsidiaryFqCountByTopLevel base rounds query = some analytics.subsidiaryFqCountByTopLevel ∧
      analytics.ownershipByParent = ownershipByParent base query := by
  obtain ⟨found, looked, returned⟩ := Option.bind_eq_some_iff.mp returned
  obtain ⟨counts, counted, built⟩ := Option.bind_eq_some_iff.mp returned
  cases built
  refine ⟨?_, rfl, counted, rfl⟩
  unfold scopedFilings at looked
  split at looked
  · rename_i none
    cases looked
    simp only [none, List.map_nil, List.contains_nil, List.filter_false]
  · obtain ⟨_, rfl⟩ := findFilings_eq_some.mp looked
    rfl

theorem exists_getAnalytics (few : base.entities.length ≤ maxParameters) (filings : List Filing) (today : Date)
    (query : AnalyticsQuery) : ∃ rounds analytics, getAnalytics base filings today rounds query = some analytics := by
  obtain ⟨counts, counted⟩ := exists_mapM (f := fun entity : EntityRecord =>
      (collectDescendants (edgesByParent base) (fqsByDomesticId base) (base.edges.length + 1) entity.id).map
        fun descendants => (⟨entity.entityName, descendants.subsidiaryIds.length, descendants.fqIds.length⟩ : DescendantCount))
    (topLevelEntities base query) (fun entity _ => by
      obtain ⟨descendants, collected⟩ := exists_collectDescendants base entity.id
      exact ⟨_, by rw [collected]; rfl⟩)
  have found : ∃ found, scopedFilings filings (base.entities.filter query.passes) = some found := by
    unfold scopedFilings
    split
    · exact ⟨_, rfl⟩
    · exact ⟨_, findFilings_of_few ((List.length_map EntityRecord.id).trans_le ((List.length_filter_le _ _).trans few)) _⟩
  obtain ⟨found, looked⟩ := found
  exact ⟨base.edges.length + 1, _, by simp only [getAnalytics, looked, subsidiaryFqCountByTopLevel, counted]; rfl⟩

/-- A count agrees with the distinct ids that a row shows below it. -/
def DescendantCount.Agrees (count : DescendantCount) (row : ListRow) : Prop :=
  (row.shown .subsidiary).encard = count.subsidiaries ∧ (row.shown .fq).encard = count.fqs

theorem agrees_of_collected (read : ReadFrom base db) {descendants : Descendants} {today : Date} {list : EntitiesQuery}
    {root : CandidateRoot} {row : ListRow} (tree : TreeFor db today list root row)
    (collected : collectDescendants (edgesByParent base) (fqsByDomesticId base) rounds root.id = some descendants) :
    DescendantCount.Agrees ⟨root.entityName, descendants.subsidiaryIds.length, descendants.fqIds.length⟩ row := by
  obtain ⟨⟨distinctSubsidiaries, subsidiaries⟩, distinctFqs, fqs⟩ := collectDescendants_ok collected
  rw [read.owns] at subsidiaries
  rw [read.owns, read.fqOf] at fqs
  exact ⟨encard_of_nodup distinctSubsidiaries fun id => (subsidiaries id).trans tree.subsidiary_iff.symm,
    encard_of_nodup distinctFqs fun id => (fqs id).trans tree.fq_iff.symm⟩

/-- The charts report one count for each top-level entity that passes their
filters, and it agrees with every tree that the list shows of the entity.  With few
entities there are charts, and with few walks a page that shows the entity. -/
theorem descendant_counts (acyclic : Acyclic db.ChildOf) (read : ReadFrom base db) (filings : List Filing) (today : Date)
    (query : AnalyticsQuery) :
    (base.entities.length ≤ maxParameters →
      ∃ rounds analytics, getAnalytics base filings today rounds query = some analytics) ∧
    ∀ rounds analytics, getAnalytics base filings today rounds query = some analytics →
      ∀ record ∈ db.entities.records, TopLevel db record.id →
        (query.passes record = true →
          ∃ count ∈ analytics.subsidiaryFqCountByTopLevel, count.entityName = record.entityName) ∧
        (db.FewWalks db.entities.ids →
          ∃ day rounds list page, getEntitiesList db day rounds list = some page ∧ ∃ row ∈ page.data, row.id = record.id) ∧
        ∀ count ∈ analytics.subsidiaryFqCountByTopLevel, count.entityName = record.entityName →
          ∀ day rounds list page, getEntitiesList db day rounds list = some page →
            ∀ row ∈ page.data, row.id = record.id → count.Agrees row := by
  refine ⟨fun few => exists_getAnalytics few filings today query, fun rounds analytics returned record member topLevel => ?_⟩
  have counts := mapM_eq_some_iff.mp (getAnalytics_ok returned).2.2.1
  refine ⟨fun passes => ?_, fun few => ?_, ?_⟩
  · have listed := List.mem_map_of_mem (f := fun entity : EntityRecord =>
        (collectDescendants (edgesByParent base) (fqsByDomesticId base) rounds entity.id).map fun descendants =>
          (⟨entity.entityName, descendants.subsidiaryIds.length, descendants.fqIds.length⟩ : DescendantCount))
      (read.mem_topLevelEntities.mpr ⟨member, passes, topLevel⟩)
    rw [counts] at listed
    obtain ⟨count, inside, found⟩ := List.mem_map.mp listed
    obtain ⟨_, _, rfl⟩ := Option.map_eq_some_iff.mp found.symm
    exact ⟨_, inside, rfl⟩
  · have unfiltered : Unfiltered firstPage := ⟨rfl, rfl, rfl, rfl⟩
    obtain ⟨number, rounds, page, shown⟩ := exists_page acyclic few unfiltered today topLevel
    exact ⟨today, rounds, _, page, shown⟩
  · intro count inside name day rounds list page shown row listed same
    have reported : some count ∈ analytics.subsidiaryFqCountByTopLevel.map some := List.mem_map_of_mem inside
    rw [← counts] at reported
    obtain ⟨entity, top, found⟩ := List.mem_map.mp reported
    obtain ⟨descendants, collected, rfl⟩ := Option.map_eq_some_iff.mp found
    obtain ⟨_, _, trees⟩ := page_trees shown
    obtain ⟨root, tree⟩ := exists_tree trees listed
    have entityIs : entity = record := record_of_name (read.mem_topLevelEntities.mp top).1 member name
    have rootId : entity.id = root.id := by rw [entityIs, ← same, tree.nodes.1]
    exact agrees_of_collected read tree (rootId ▸ collected)

omit [Platform] in
example :
    subsidiaryFqCountByTopLevel (baseOf sharedState) 3 ⟨none, none, none⟩ = some [⟨"Acme", 2, 0⟩, ⟨"Crown", 2, 0⟩] := by
  decide +kernel

omit [Platform] in
/-- Both endpoints on a state with an entity that is reached on two paths. -/
theorem shared_counts :
    letI := asciiPlatform
    let base := baseOf sharedState
    let query := AnalyticsQuery.mk none none none
    (∃ rounds analytics, getAnalytics base [] ⟨0⟩ rounds query = some analytics) ∧
    ∀ rounds analytics, getAnalytics base [] ⟨0⟩ rounds query = some analytics →
      ∀ record ∈ sharedState.entities.records, TopLevel sharedState record.id →
        (query.passes record = true →
          ∃ count ∈ analytics.subsidiaryFqCountByTopLevel, count.entityName = record.entityName) ∧
        (∃ day rounds list page, getEntitiesList sharedState day rounds list = some page ∧
          ∃ row ∈ page.data, row.id = record.id) ∧
        ∀ count ∈ analytics.subsidiaryFqCountByTopLevel, count.entityName = record.entityName →
          ∀ day rounds list page, getEntitiesList sharedState day rounds list = some page →
            ∀ row ∈ page.data, row.id = record.id → count.Agrees row := by
  intro base query
  let _ := asciiPlatform
  obtain ⟨shown, counts⟩ := descendant_counts sharedState_acyclic (baseOf_read sharedState) [] ⟨0⟩ query
  refine ⟨shown (by decide +kernel), fun rounds analytics returned record member topLevel => ?_⟩
  obtain ⟨reported, paged, agrees⟩ := counts rounds analytics returned record member topLevel
  exact ⟨reported, paged sharedState_few, agrees⟩

end Counts

end Coverpin.Registry
