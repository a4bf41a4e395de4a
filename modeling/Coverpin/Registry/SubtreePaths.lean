import Coverpin.Data.Walk
import Coverpin.Registry.Subtree

namespace Coverpin.Database

open Coverpin.Data Relation

/-! # How often the query meets an entity

The query has one row for every walk along the links from a root, and for each
of these rows it has the rows of all links on from there.
-/

variable {db : Database} {rounds : Nat} {rootIds : List EntityId} {rows : List SubtreeRow} {id : EntityId}

def edgesFrom (db : Database) (id : EntityId) : List OwnershipEdge :=
  db.ownershipEdges.records.filter (·.parentEntityId = id)

def fqsOf (db : Database) (id : EntityId) : List EntityRecord :=
  db.entities.records.filter fun record => record.registrationType = .fq ∧ record.domesticEntityId = some id

/-- The entities that links of one relation lead to. -/
def targets (db : Database) (relation : LinkRelation) (id : EntityId) : List EntityId :=
  ((db.linksFrom id).filter (·.relation = relation)).map ChildLink.childId

theorem relation_of_mem_childLinks {link : ChildLink} (member : link ∈ db.childLinks) :
    link.relation = .subsidiary ∨ link.relation = .fq := by
  rcases List.mem_append.mp member with edge | fq
  · obtain ⟨edge, _, rfl⟩ := List.mem_map.mp edge
    exact .inl rfl
  · obtain ⟨record, _, linked⟩ := List.mem_filterMap.mp fq
    exact .inr (EntityRecord.link?_eq_some.mp linked).2.2.2.2

theorem targets_subsidiary : db.targets .subsidiary id = (db.edgesFrom id).map OwnershipEdge.childEntityId := by
  have none : ((db.entities.records.filterMap EntityRecord.link?).filter (·.parentId = id)).filter
      (·.relation = .subsidiary) = [] := by
    apply List.filter_eq_nil_iff.mpr
    intro link member
    obtain ⟨record, _, linked⟩ := List.mem_filterMap.mp (List.mem_filter.mp member).1
    simp [(EntityRecord.link?_eq_some.mp linked).2.2.2.2]
  rw [targets, linksFrom, childLinks, List.filter_append, List.filter_append, none, List.append_nil, List.filter_map,
    List.filter_map, List.map_map, edgesFrom, List.filter_filter]
  exact congrArg _ (List.filter_congr fun edge _ => by simp [OwnershipEdge.link]; rfl)

theorem targets_fq : db.targets .fq id = (db.fqsOf id).map EntityRecord.id := by
  have none : ((db.ownershipEdges.records.map OwnershipEdge.link).filter (·.parentId = id)).filter
      (·.relation = .fq) = [] := by
    apply List.filter_eq_nil_iff.mpr
    intro link member
    obtain ⟨edge, _, rfl⟩ := List.mem_map.mp (List.mem_filter.mp member).1
    simp [OwnershipEdge.link]
  rw [targets, linksFrom, childLinks, List.filter_append, List.filter_append, none, List.nil_append, fqsOf]
  induction db.entities.records with
  | nil => rfl
  | cons record records induction =>
      cases linked : record.link? with
      | none =>
          have unlinked : ¬ (record.registrationType = .fq ∧ record.domesticEntityId = some id) := by
            intro fits
            obtain ⟨type, domestic⟩ := fits
            simp [EntityRecord.link?, type, domestic] at linked
          rw [List.filterMap_cons_none linked, List.filter_cons_of_neg (by simpa using unlinked), induction]
      | some link =>
          obtain ⟨type, domestic, child, _, relation⟩ := EntityRecord.link?_eq_some.mp linked
          rw [List.filterMap_cons_some linked]
          by_cases parent : link.parentId = id
          · simp only [List.filter_cons, parent, relation, type, domestic, decide_true, if_true, and_self, List.map_cons,
              induction, child]
          · simp only [List.filter_cons, parent, type, domestic, Option.some.injEq, decide_false, Bool.false_eq_true,
              if_false, and_false, induction]

theorem linksFrom_eq_nil_iff : db.linksFrom id = [] ↔ db.targets .fq id = [] ∧ db.targets .subsidiary id = [] := by
  simp only [targets, List.map_eq_nil_iff, List.filter_eq_nil_iff, decide_eq_true_eq]
  constructor
  · intro none
    simp [none]
  · intro none
    obtain ⟨noFq, noSubsidiary⟩ := none
    apply List.eq_nil_iff_forall_not_mem.mpr
    intro link member
    rcases relation_of_mem_childLinks (List.mem_filter.mp member).1 with subsidiary | fq
    · exact noSubsidiary link member subsidiary
    · exact noFq link member fq

theorem mem_targets_subsidiary {child : EntityId} : child ∈ db.targets .subsidiary id ↔ db.Owns id child := by
  rw [targets_subsidiary]
  simp only [edgesFrom, List.mem_map, List.mem_filter, decide_eq_true_eq, Owns, and_assoc]

theorem linksFrom_nodup : (db.linksFrom id).Nodup := by
  refine List.Nodup.filter _ (List.nodup_append.mpr ⟨?_, ?_, ?_⟩)
  · refine List.pairwise_map.mpr ((db.ownershipEdges.unique.2 [.parentEntityId, .childEntityId]
      (by simp [edgeSchema])).imp ?_)
    intro edge other apart same
    simp only [OwnershipEdge.link, ChildLink.mk.injEq] at same
    exact apart (by simp [agree, edgeSchema, OwnershipEdge.read, same])
  · refine List.pairwise_filterMap.mpr ((List.pairwise_map.mp db.entities.unique.1).imp ?_)
    intro record other apart link linked otherLink otherLinked same
    obtain ⟨_, _, child, _⟩ := EntityRecord.link?_eq_some.mp linked
    obtain ⟨_, _, otherChild, _⟩ := EntityRecord.link?_eq_some.mp otherLinked
    exact apart (child.trans ((congrArg ChildLink.childId same).trans otherChild.symm))
  · intro link member other otherMember same
    obtain ⟨edge, _, rfl⟩ := List.mem_map.mp member
    obtain ⟨record, _, linked⟩ := List.mem_filterMap.mp otherMember
    have relation := (EntityRecord.link?_eq_some.mp linked).2.2.2.2
    rw [← same] at relation
    cases relation

theorem filter_eq_singleton {α κ : Type} [DecidableEq κ] {f : α → κ} {items : List α} (distinct : (items.map f).Nodup)
    {item : α} (member : item ∈ items) : items.filter (fun other => f other = f item) = [item] := by
  induction items with
  | nil => cases member
  | cons first items induction =>
      obtain ⟨fresh, distinct⟩ := List.nodup_cons.mp distinct
      rcases List.mem_cons.mp member with rfl | inside
      · have others : items.filter (fun other => f other = f item) = [] :=
          List.filter_eq_nil_iff.mpr fun other member same =>
            fresh (List.mem_map.mpr ⟨other, member, of_decide_eq_true same⟩)
        rw [List.filter_cons_of_pos (by simp), others]
      · have different : f first ≠ f item := fun same => fresh (List.mem_map.mpr ⟨item, inside, same.symm⟩)
        rw [List.filter_cons_of_neg (by simpa using different), induction distinct inside]

theorem childRows_map {β : Type} {f : SubtreeRow → β} {g : ChildLink → β}
    (agrees : ∀ rootId link (record : EntityRecord), record.id = link.childId → f (record.childRow rootId link) = g link)
    (row : SubtreeRow) : (db.childRows row).map f = (db.linksFrom row.id).map g := by
  rw [childRows, List.map_flatMap, ← List.flatMap_singleton' (List.map g _), List.flatMap_map]
  apply List.flatMap_congr
  intro link member
  have linked : db.ChildOf link.parentId link.childId := ⟨link, (List.mem_filter.mp member).1, rfl, rfl⟩
  obtain ⟨record, inside, id⟩ := List.mem_map.mp linked.exist.2
  have single := filter_eq_singleton db.entities.unique.1 inside
  have id : record.id = link.childId := id
  change db.entities.records.filter (fun other => other.id = record.id) = [record] at single
  rw [id] at single
  rw [single, List.map_singleton, List.map_singleton, agrees row.rootId link record id]

theorem childRows_id (row : SubtreeRow) :
    (db.childRows row).map SubtreeRow.id = (db.linksFrom row.id).map ChildLink.childId :=
  childRows_map (fun _ _ _ id => id) row

theorem childRows_relation (relation : LinkRelation) (row : SubtreeRow) :
    ((db.childRows row).filter (·.relation = relation)).map SubtreeRow.id = db.targets relation row.id := by
  have entries : (db.childRows row).map (fun row => (row.relation, row.id)) =
      (db.linksFrom row.id).map fun link => (link.relation, link.childId) :=
    childRows_map (fun _ link record id => congrArg (Prod.mk link.relation) id) row
  have filtered := congrArg (fun entries => (entries.filter fun entry => entry.1 = relation).map Prod.snd) entries
  simpa only [List.filter_map, List.map_map, Function.comp_def, targets] using filtered

/-- The rows that were reached from a node: for each row of the node, the rows
that it leads to. -/
theorem reached_perm (finished : db.subtree rounds rootIds = some rows) (id : EntityId) :
    ((rows.filter (·.relation ≠ .self)).filter (·.viaParentId = some id)).Perm
      ((rows.filter (·.id = id)).flatMap db.childRows) := by
  have closed := recursiveUnion_perm finished
  have selves : (db.selfRows rootIds).filter (fun row => row.viaParentId = some id ∧ row.relation ≠ .self) = [] := by
    apply List.filter_eq_nil_iff.mpr
    intro row member
    obtain ⟨record, _, rfl⟩ := List.mem_map.mp member
    simp [EntityRecord.selfRow]
  have children : ∀ row, (db.childRows row).filter (fun later => later.viaParentId = some id ∧ later.relation ≠ .self) =
      if row.id = id then db.childRows row else [] := by
    intro row
    split
    · rename_i same
      apply List.filter_eq_self.mpr
      intro later member
      obtain ⟨link, out, record, _, _, rfl⟩ := mem_childRows.mp member
      obtain ⟨linked, parent⟩ := List.mem_filter.mp out
      have parent : link.parentId = row.id := of_decide_eq_true parent
      rcases relation_of_mem_childLinks linked with relation | relation <;>
        simp [EntityRecord.childRow, parent, same, relation]
    · rename_i different
      apply List.filter_eq_nil_iff.mpr
      intro later member
      obtain ⟨link, out, record, _, _, rfl⟩ := mem_childRows.mp member
      have parent : link.parentId = row.id := of_decide_eq_true (List.mem_filter.mp out).2
      simp [EntityRecord.childRow, parent, different]
  rw [List.filter_filter]
  simp only [← Bool.decide_and]
  apply (closed.filter _).trans
  rw [List.filter_append, selves, List.nil_append, List.filter_flatMap]
  simp only [children]
  clear closed finished selves children
  induction rows with
  | nil => exact .refl _
  | cons row rows induction =>
      by_cases same : row.id = id
      · simpa [List.filter_cons, same] using induction.append_left (db.childRows row)
      · simpa [List.filter_cons, same] using induction

/-- Of these rows, those of one relation repeat the targets of the node, once for
each row of the node. -/
theorem reached_targets (finished : db.subtree rounds rootIds = some rows) (relation : LinkRelation) (id : EntityId) :
    ((((rows.filter (·.relation ≠ .self)).filter (·.viaParentId = some id)).filter
      (·.relation = relation)).map SubtreeRow.id).Perm
      (List.replicate ((rows.map SubtreeRow.id).count id) (db.targets relation id)).flatten := by
  refine (((reached_perm finished id).filter _).map _).trans (List.Perm.of_eq ?_)
  have each : ∀ row ∈ rows.filter (·.id = id), ((db.childRows row).filter (·.relation = relation)).map SubtreeRow.id =
      db.targets relation id := by
    intro row member
    rw [childRows_relation, of_decide_eq_true (List.mem_filter.mp member).2]
  have count : (rows.map SubtreeRow.id).count id = (rows.filter (·.id = id)).length := by
    rw [List.count_eq_length_filter, List.filter_map, List.length_map]
    rfl
  rw [List.filter_flatMap, List.map_flatMap, List.flatMap_congr each, List.flatMap_def, List.map_const', count]

theorem subtree_ids (finished : db.subtree rounds rootIds = some rows) :
    recursiveUnion (fun id => (db.linksFrom id).map ChildLink.childId) rounds ((db.selfRows rootIds).map SubtreeRow.id) =
      some (rows.map SubtreeRow.id) := by
  rw [recursiveUnion_map SubtreeRow.id _ childRows_id]
  exact congrArg (Option.map _) finished

theorem mem_selfRows_id : id ∈ (db.selfRows rootIds).map SubtreeRow.id ↔ id ∈ rootIds ∧ id ∈ db.entities.ids := by
  simp only [selfRows, List.mem_map, List.mem_filter, List.contains_iff_mem, Table.ids]
  constructor
  · intro row
    obtain ⟨_, ⟨record, ⟨member, listed⟩, rfl⟩, rfl⟩ := row
    exact ⟨listed, record, member, rfl⟩
  · intro root
    obtain ⟨listed, record, member, rfl⟩ := root
    exact ⟨_, ⟨record, ⟨member, listed⟩, rfl⟩, rfl⟩

theorem mem_subtree_root (finished : db.subtree rounds rootIds = some rows) (listed : id ∈ rootIds)
    (known : id ∈ db.entities.ids) : id ∈ rows.map SubtreeRow.id :=
  (recursiveUnion_perm (subtree_ids finished)).mem_iff.mpr
    (List.mem_append_left _ (mem_selfRows_id.mpr ⟨listed, known⟩))

section Walks

/-- The walks along the links from some entities, with those that stay where they are. -/
def walksFrom (db : Database) (rootIds : List EntityId) : Set (Walk EntityId ChildLink) :=
  {walk | IsWalk db.linksFrom ChildLink.childId rootIds walk}

/-- One statement can bind a parameter for each of the walks. -/
def FewWalks (db : Database) (rootIds : List EntityId) : Prop :=
  (db.walksFrom rootIds).encard ≤ maxParameters

theorem FewWalks.mono {others : List EntityId} (few : db.FewWalks others) (within : rootIds ⊆ others) :
    db.FewWalks rootIds :=
  (Set.encard_le_encard fun _ isWalk => IsWalk.mono within isWalk).trans few

theorem selfRows_ids_nodup : ((db.selfRows rootIds).map SubtreeRow.id).Nodup := by
  rw [selfRows, List.map_map]
  exact List.Nodup.sublist (List.filter_sublist.map _) db.entities.unique.1

theorem mem_selfRows_id_iff (exist : rootIds ⊆ db.entities.ids) (id : EntityId) :
    id ∈ (db.selfRows rootIds).map SubtreeRow.id ↔ id ∈ rootIds :=
  mem_selfRows_id.trans ⟨And.left, fun listed => ⟨listed, exist listed⟩⟩

/-- The query has one row for each walk. -/
theorem encard_walksFrom (finished : db.subtree rounds rootIds = some rows) (exist : rootIds ⊆ db.entities.ids) :
    (db.walksFrom rootIds).encard = rows.length := by
  have counted := encard_walks selfRows_ids_nodup (fun _ => linksFrom_nodup) (subtree_ids finished)
  rw [List.length_map] at counted
  rw [walksFrom, isWalk_congr fun id => (mem_selfRows_id_iff exist id).symm, counted]

theorem fewWalks_iff (finished : db.subtree rounds rootIds = some rows) (exist : rootIds ⊆ db.entities.ids) :
    db.FewWalks rootIds ↔ rows.length ≤ maxParameters := by
  rw [FewWalks, encard_walksFrom finished exist, Nat.cast_le]

theorem fewWalks_of_rows (rounds : Nat)
    (short : (db.subtree rounds db.entities.ids).any (·.length ≤ maxParameters) = true) : db.FewWalks db.entities.ids := by
  obtain ⟨rows, finished, few⟩ := (Option.any_eq_true _ _).mp short
  exact (fewWalks_iff finished (List.Subset.refl _)).mpr (of_decide_eq_true few)

/-- An entity starts at least as many walks as it weighs, when none weighs more than
itself and the ends of its links. -/
theorem many_walks (acyclic : Acyclic db.ChildOf) (exist : rootIds ⊆ db.entities.ids) (weight : EntityId → Nat)
    (light : ∀ id, weight id ≤ 1 + (((db.linksFrom id).map ChildLink.childId).map weight).sum)
    (heavy : maxParameters < (((db.selfRows rootIds).map SubtreeRow.id).map weight).sum) : ¬ db.FewWalks rootIds := by
  intro few
  obtain ⟨rows, finished⟩ := exists_subtree acyclic rootIds
  have bound := recursiveUnion_weight weight light (subtree_ids finished)
  rw [List.length_map] at bound
  have short := (fewWalks_iff finished exist).mp few
  omega

/-- Each entity is a walk of its own. -/
theorem FewWalks.entities (few : db.FewWalks db.entities.ids) (acyclic : Acyclic db.ChildOf) :
    db.entities.ids.length ≤ maxParameters := by
  obtain ⟨rows, finished⟩ := exists_subtree acyclic db.entities.ids
  refine Nat.le_trans ?_ ((fewWalks_iff finished (List.Subset.refl _)).mp few)
  rw [← List.length_map SubtreeRow.id]
  exact (List.subperm_of_subset db.entities.unique.1 fun id known => mem_subtree_root finished known known).length_le

end Walks

/-- The query meets an entity at most once exactly when one walk leads to it. -/
theorem count_ids_le_one_iff (finished : db.subtree rounds rootIds = some rows) (exist : rootIds ⊆ db.entities.ids)
    (id : EntityId) :
    (rows.map SubtreeRow.id).count id ≤ 1 ↔ ReachedOnce db.linksFrom ChildLink.childId rootIds id := by
  rw [count_le_one_iff selfRows_ids_nodup (fun _ => linksFrom_nodup) (subtree_ids finished),
    reachedOnce_congr (mem_selfRows_id_iff exist)]

end Coverpin.Database
