import Coverpin.Registry.Charts
import Coverpin.Upload.OwnershipInvariant

namespace Coverpin.Registry

open Coverpin.Data Coverpin.Database Coverpin.Server Coverpin.Upload Coverpin.Validation Relation

/-! # The ownership chart

One parent is selected; its direct children are shown, each with what all of its
parents together own of it, whichever of them pass the filters.
-/

variable [Platform] {base : AnalyticsBase} {db : Database} {query : AnalyticsQuery}

/-- What the chart says about the tables. -/
structure ChartOf (db : Database) (query : AnalyticsQuery) (chart : OwnershipByParent) : Prop where
  sorted : chart.parents.Pairwise fun a b => Platform.localeCompare a.entityName b.entityName ≠ .gt
  once : (chart.parents.map ParentOption.id).Nodup
  parents : ∀ option, option ∈ chart.parents ↔ ∃ record ∈ db.entities.records, query.passes record = true ∧
    (∃ child, db.Owns record.id child) ∧ option = ⟨record.id, record.entityName⟩
  requested : ∀ id ∈ query.parentEntityId, id ∈ chart.parents.map ParentOption.id → chart.selectedParentId = some id
  otherwise : (∀ id ∈ query.parentEntityId, id ∉ chart.parents.map ParentOption.id) →
    chart.selectedParentId = chart.parents.head?.map ParentOption.id
  barOnce : (chart.children.map OwnedChild.entityName).Nodup
  bars : ∀ bar, bar ∈ chart.children ↔ ∃ parentId ∈ chart.selectedParentId, ∃ child ∈ db.entities.records,
    db.Owns parentId child.id ∧ query.passes child = true ∧
      bar = ⟨child.entityName, db.totalOwnership child.id, 100 * 100 - db.totalOwnership child.id⟩

section Maps

variable (read : ReadFrom base db)
include read

omit [Platform] in
theorem ReadFrom.ids_nodup : (base.entities.map EntityRecord.id).Nodup :=
  (read.entities.map EntityRecord.id).nodup_iff.mpr db.entities.unique.1

omit [Platform] in
theorem get?_entityById {id : EntityId} {record : EntityRecord} :
    (InsertionMap.ofPairs (base.entities.map fun entity => (entity.id, entity))).get? id = some record ↔
      record ∈ db.entities.records ∧ record.id = id := by
  have ids : ((base.entities.map fun entity => (entity.id, entity)).map Prod.fst).Nodup := by
    rw [List.map_map]
    exact read.ids_nodup
  rw [InsertionMap.get?_ofPairs ids, List.mem_map]
  simp only [Prod.mk.injEq, read.entities.mem_iff]
  constructor
  · intro listed
    obtain ⟨_, member, id, rfl⟩ := listed
    exact ⟨member, id⟩
  · intro stored
    exact ⟨record, stored.1, stored.2, rfl⟩

omit [Platform] in
/-- The total of a child that has an owner is there, and has all edges. -/
theorem get?_totalPct {edge : OwnershipEdge} (member : edge ∈ base.edges) :
    (base.edges.foldl (fun totals edge => totals.add edge.childEntityId edge.ownershipPct) InsertionMap.empty).get?
      edge.childEntityId = some (db.totalOwnership edge.childEntityId) := by
  let totals := base.edges.foldl (fun totals edge => totals.add edge.childEntityId edge.ownershipPct) InsertionMap.empty
  have keys : totals.keys = _ := InsertionMap.keys_foldl_set base.edges OwnershipEdge.childEntityId _ InsertionMap.empty
  have present : edge.childEntityId ∈ totals.keys := by
    rw [keys, mem_foldl_addNew]
    exact .inr (List.mem_map_of_mem member)
  have total : (totals.get? edge.childEntityId).getD 0 = db.totalOwnership edge.childEntityId := by
    rw [InsertionMap.getD_foldl_add OwnershipEdge.childEntityId OwnershipEdge.ownershipPct, InsertionMap.get?_empty,
      Option.getD_none, Nat.zero_add]
    exact ((read.edges.filter _).map _).sum_eq
  cases found : totals.get? edge.childEntityId with
  | none => exact absurd present (InsertionMap.get?_eq_none.mp found)
  | some pct =>
      rw [found, Option.getD_some] at total
      exact congrArg some total

omit [Platform] in
theorem owner_listed {id : EntityId} :
    (base.edges.map OwnershipEdge.parentEntityId).contains id = true ↔ ∃ child, db.Owns id child := by
  rw [List.contains_iff_mem, ← read.owns, List.mem_map]
  constructor
  · intro listed
    obtain ⟨edge, member, parent⟩ := listed
    exact ⟨_, edge, member, parent, rfl⟩
  · intro owns
    obtain ⟨_, edge, member, parent, _⟩ := owns
    exact ⟨edge, member, parent⟩

end Maps

/-- The options of the chart, before they are sorted. -/
def parentOptions (base : AnalyticsBase) (query : AnalyticsQuery) : List ParentOption :=
  ((base.entities.filter query.passes).filter fun entity =>
    (base.edges.map OwnershipEdge.parentEntityId).contains entity.id).map fun entity => ⟨entity.id, entity.entityName⟩

omit [Platform] in
theorem mem_parentOptions (read : ReadFrom base db) {option : ParentOption} : option ∈ parentOptions base query ↔
    ∃ record ∈ db.entities.records, query.passes record = true ∧ (∃ child, db.Owns record.id child) ∧
      option = ⟨record.id, record.entityName⟩ := by
  simp only [parentOptions, List.mem_map, List.mem_filter, owner_listed read, read.entities.mem_iff, and_assoc,
    eq_comm (a := option)]

omit [Platform] in
theorem parentOptions_once (read : ReadFrom base db) : ((parentOptions base query).map ParentOption.id).Nodup := by
  rw [parentOptions, List.map_map]
  exact (read.ids_nodup).sublist ((List.filter_sublist.trans List.filter_sublist).map _)

/-- The bar of an edge, where its child passes the filters. -/
def OwnedChild.BarOf (db : Database) (query : AnalyticsQuery) (edge : OwnershipEdge) (bar : OwnedChild) : Prop :=
  ∃ child ∈ db.entities.records, child.id = edge.childEntityId ∧ query.passes child = true ∧
    bar = ⟨child.entityName, db.totalOwnership child.id, 100 * 100 - db.totalOwnership child.id⟩

def barOf (base : AnalyticsBase) (query : AnalyticsQuery) (edge : OwnershipEdge) : Option OwnedChild := do
  let entityById := InsertionMap.ofPairs (base.entities.map fun entity => (entity.id, entity))
  let totalPctByChildId := base.edges.foldl (fun totals edge => totals.add edge.childEntityId edge.ownershipPct)
    InsertionMap.empty
  let child ← entityById.get? edge.childEntityId
  let totalPct := (totalPctByChildId.get? edge.childEntityId).getD edge.ownershipPct
  if query.passes child then
    some { entityName := child.entityName, pct := totalPct, unallocatedPct := 100 * 100 - totalPct }
  else none

theorem chart_children (parentId : EntityId) (selected : (ownershipByParent base query).selectedParentId = some parentId) :
    (ownershipByParent base query).children =
      (base.edges.filter (·.parentEntityId = parentId)).filterMap (barOf base query) := by
  have children : (ownershipByParent base query).children = (((ownershipByParent base query).selectedParentId.map
      fun parentId => ((edgesByParent base).get? parentId).getD []).getD []).filterMap (barOf base query) := rfl
  rw [children, selected, Option.map_some, Option.getD_some, edgesByParent, InsertionMap.getD_groupBy]

theorem chart_no_children (unselected : (ownershipByParent base query).selectedParentId = none) :
    (ownershipByParent base query).children = [] := by
  have children : (ownershipByParent base query).children = (((ownershipByParent base query).selectedParentId.map
      fun parentId => ((edgesByParent base).get? parentId).getD []).getD []).filterMap (barOf base query) := rfl
  rw [children, unselected]
  rfl

omit [Platform] in
theorem barOf_eq_some (read : ReadFrom base db) {edge : OwnershipEdge} (member : edge ∈ base.edges) {bar : OwnedChild} :
    barOf base query edge = some bar ↔ bar.BarOf db query edge := by
  simp only [barOf, Option.bind_eq_bind, Option.bind_eq_some_iff, get?_totalPct read member, Option.getD_some,
    get?_entityById read, OwnedChild.BarOf, Option.ite_none_right_eq_some, Option.some.injEq, and_assoc]
  refine exists_congr fun child => and_congr_right fun _ => and_congr_right fun id => and_congr_right fun _ => ?_
  rw [id, eq_comm]

omit [Platform] in
theorem bars_once (read : ReadFrom base db) (parentId : EntityId) :
    (((base.edges.filter (·.parentEntityId = parentId)).filterMap (barOf base query)).map OwnedChild.entityName).Nodup := by
  have distinct : base.edges.Pairwise fun edge other =>
      (edge.parentEntityId, edge.childEntityId) ≠ (other.parentEntityId, other.childEntityId) :=
    List.pairwise_map.mp ((read.edges.map _).nodup_iff.mpr (edgeKeyed.keys_nodup db.ownershipEdges))
  refine List.pairwise_map.mpr (List.pairwise_filterMap.mpr ?_)
  refine (distinct.filter _).imp_of_mem fun {edge other} listed otherListed apart bar shows otherBar otherShows same => ?_
  obtain ⟨member, parent⟩ := List.mem_filter.mp listed
  obtain ⟨otherMember, otherParent⟩ := List.mem_filter.mp otherListed
  obtain ⟨child, stored, id, _, rfl⟩ := (barOf_eq_some read member).mp shows
  obtain ⟨otherChild, otherStored, otherId, _, rfl⟩ := (barOf_eq_some read otherMember).mp otherShows
  have children : child = otherChild := record_of_name stored otherStored same
  refine apart (Prod.ext ?_ ?_)
  · exact (of_decide_eq_true parent).trans (of_decide_eq_true otherParent).symm
  · exact id.symm.trans ((congrArg EntityRecord.id children).trans otherId)

theorem chartOf (orders : OrdersNames db) (read : ReadFrom base db) : ChartOf db query (ownershipByParent base query) := by
  let before := fun a b : ParentOption => Platform.localeCompare a.entityName b.entityName ≠ .gt
  have total : Std.Total before := ⟨fun a b => orders.total a.entityName b.entityName⟩
  have transitive : IsTrans ParentOption before := ⟨fun a b c => orders.transitive a.entityName b.entityName c.entityName⟩
  let chart := ownershipByParent base query
  have sorted : chart.parents.Perm (parentOptions base query) := List.perm_insertionSort _ _
  have listed : ∀ id, chart.parents.any (·.id = id) = true ↔ id ∈ chart.parents.map ParentOption.id := by
    intro id
    simp only [List.any_eq_true, decide_eq_true_eq, List.mem_map]
  have selected : chart.selectedParentId = (query.parentEntityId.filter fun id => chart.parents.any (·.id = id)).or
      (chart.parents.head?.map ParentOption.id) := rfl
  refine
    { sorted := List.pairwise_insertionSort before _
      once := (sorted.map _).nodup_iff.mpr (parentOptions_once read)
      parents := fun option => sorted.mem_iff.trans (mem_parentOptions read)
      requested := ?_, otherwise := ?_, barOnce := ?_, bars := ?_ }
  · intro id asked offered
    rw [Option.mem_def] at asked
    rw [selected, asked, Option.filter_some, if_pos ((listed id).mpr offered)]
    rfl
  · intro absent
    have dropped : (query.parentEntityId.filter fun id => chart.parents.any (·.id = id)) = none :=
      Option.filter_eq_none_iff.mpr fun id asked offered => absent id asked ((listed id).mp offered)
    rw [selected, dropped, Option.none_or]
  · cases chosen : chart.selectedParentId with
    | none => exact chart_no_children chosen ▸ List.nodup_nil
    | some parentId => exact chart_children parentId chosen ▸ bars_once read parentId
  · intro bar
    cases chosen : chart.selectedParentId with
    | none => simp [chart_no_children chosen]
    | some parentId =>
        rw [chart_children parentId chosen, List.mem_filterMap]
        simp only [List.mem_filter, decide_eq_true_eq, Option.mem_def, Option.some.injEq, exists_eq_left']
        constructor
        · intro listed
          obtain ⟨edge, ⟨member, parent⟩, shows⟩ := listed
          obtain ⟨child, stored, id, passes, rfl⟩ := (barOf_eq_some read member).mp shows
          exact ⟨child, stored, ⟨edge, read.edges.mem_iff.mp member, parent, id.symm⟩, passes, rfl⟩
        · intro owned
          obtain ⟨child, stored, ⟨edge, member, parent, id⟩, passes, rfl⟩ := owned
          have inBase := read.edges.mem_iff.mpr member
          exact ⟨edge, ⟨inBase, parent⟩, (barOf_eq_some read inBase).mpr ⟨child, stored, id.symm, passes, rfl⟩⟩

/-- The chart of any state, and no bar above 100% after any uploads over names
without `|`. -/
theorem ownership_chart {analytics : Analytics} {filings : List Filing} {today : Date} {rounds : Nat}
    (orders : OrdersNames db) (read : ReadFrom base db)
    (returned : getAnalytics base filings today rounds query = some analytics) :
    ChartOf db query analytics.ownershipByParent ∧
    ∀ trace final, Run uploadStep Database.initial trace final → db ∈ visited trace final →
      (∀ entry ∈ trace, PipeFree (entry.2.validated entry.1)) →
        ∀ bar ∈ analytics.ownershipByParent.children, bar.pct + bar.unallocatedPct = 100 * 100 := by
  rw [(getAnalytics_ok returned).2.2.2]
  have chart : ChartOf db query (ownershipByParent base query) := chartOf orders read
  refine ⟨chart, fun trace final run reached pipeFree bar listed => ?_⟩
  have invariant := run.invariant_visited OwnershipInvariant
    (fun before request => PipeFree (request.validated before)) .initial
    (fun before request after held free step => held.upload
      (fun accepted => free.safe (validateUpload_accepted accepted).1) step) pipeFree
  obtain ⟨_, _, child, _, _, _, rfl⟩ := (chart.bars bar).mp listed
  exact Nat.add_sub_of_le ((invariant db reached).sound.totals child.id)

omit [Platform] in
theorem uploaded_chart :
    letI := asciiPlatform
    let request := ownershipRequest [("Acme", "Entity", ""), ("Crown", "Entity", ""), ("Beta", "Entity", "")]
      [("Acme", "Beta", "40"), ("Crown", "Beta", "33.5")]
    let db := (processUpload request.limits request.today request.files Database.initial).1
    let query := AnalyticsQuery.mk none none none
    ∃ rounds analytics, getAnalytics (baseOf db) [] ⟨0⟩ rounds query = some analytics ∧
      ChartOf db query analytics.ownershipByParent ∧
      ∀ bar ∈ analytics.ownershipByParent.children, bar.pct + bar.unallocatedPct = 100 * 100 := by
  intro request db query
  have few : (baseOf db).entities.length ≤ maxParameters := by decide +kernel
  let _ := asciiPlatform
  obtain ⟨rounds, analytics, returned⟩ := exists_getAnalytics few [] ⟨0⟩ query
  obtain ⟨chart, full⟩ := ownership_chart (asciiPlatform_orders db) (baseOf_read db) returned
  exact ⟨rounds, analytics, returned, chart, full _ _ (.next .start rfl) (List.mem_append_right _
    (List.mem_singleton.mpr rfl)) (by decide +kernel)⟩

end Coverpin.Registry
