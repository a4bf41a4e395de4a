import Coverpin.Registry.Subtree

namespace Coverpin.Upload

open Coverpin.Data Coverpin.Database Coverpin.Validation Coverpin.Validation.Entities Coverpin.Validation.Graph
  Coverpin.Validation.Ownership Relation

/-! # `child_links` over a history of uploads

Ownership edges and FQ links are written by different passes of different
uploads.  An FQ link never closes a cycle with other FQ links; with ownership
edges it can, once an entity that owns another one is registered again as an FQ.
-/

variable [Platform] {before registered after db : Database} {upload : ValidatedUpload}

/-- Every stored edge starts at an entity, not at an FQ. -/
def OwnersAreEntities (db : Database) : Prop :=
  ∀ edge ∈ db.ownershipEdges.records, ∀ record ∈ db.entities.records, record.id = edge.parentEntityId →
    record.registrationType = .entity

/-- No FQ row names an entity that owns another one in the tables. -/
def KeepsOwners (db : Database) (upload : ValidatedUpload) : Prop :=
  ∀ row ∈ upload.entityRows, row.registrationType = "FQ" → ∀ edge ∈ db.ownershipEdges.records,
    normalizeName row.entityName ≠ normalizeName (nameOf db edge.parentEntityId)

instance (db : Database) (upload : ValidatedUpload) : Decidable (KeepsOwners db upload) :=
  inferInstanceAs (Decidable (∀ row ∈ upload.entityRows, _))

omit [Platform] in
/-- Ownership edges start at entities and FQ links end at FQs, so together they
have no cycle either. -/
theorem OwnersAreEntities.acyclic {db : Database} (owners : OwnersAreEntities db) (acyclic : Acyclic db.Owns)
    (fqLinks : Acyclic db.FqOf) : Acyclic db.ChildOf := by
  refine Acyclic.mono (s := fun parent child => db.Owns parent child ∨ db.FqOf parent child) ?_
    fun parent child linked => childOf_iff.mp linked
  refine acyclic.union_of_terminal fqLinks (p := fun id =>
    ∃ record ∈ db.entities.records, record.id = id ∧ record.registrationType = .fq) ?_ ?_
  · intro parent child owns isFq
    obtain ⟨edge, member, rfl, rfl⟩ := owns
    obtain ⟨record, recordMember, id, fq⟩ := isFq
    have entity := owners edge member record recordMember id
    rw [fq] at entity
    cases entity
  · intro domestic fq link
    obtain ⟨record, member, id, type, _⟩ := link
    exact ⟨record, member, id, type⟩

theorem Registered.key_kept {rows : List ParsedEntityRow} {record old : EntityRecord}
    (rowsWritten : Registered rows before.entities registered.entities) (member : record ∈ registered.entities.records)
    (oldMember : old ∈ before.entities.records) (same : record.id = old.id) :
    record.entityNameKey = old.entityNameKey := by
  rcases rowsWritten.origin record member with ⟨other, otherMember, kept⟩ | ⟨fresh, _⟩
  · rw [kept.key, Table.eq_of_id otherMember oldMember (kept.id.symm.trans same)]
  · exact absurd (List.mem_map.mpr ⟨old, oldMember, same.symm⟩) fresh

/-- A record keeps its key under its id. -/
theorem Written.key_kept (written : Written upload before registered after) {record old : EntityRecord}
    (member : record ∈ after.entities.records) (oldMember : old ∈ before.entities.records) (same : record.id = old.id) :
    record.entityNameKey = old.entityNameKey := by
  rw [written.entities] at member
  obtain ⟨middle, inside, rfl⟩ := List.mem_map.mp member
  rw [rewire_id] at same
  rw [rewire_entityNameKey, written.rows.key_kept inside oldMember same]

/-- An edge after a commit joins two entities of the file, or was there before. -/
theorem Written.edge_cases (written : Written upload before registered after) (normalized : NamesNormalized before)
    (consistent : ConsistentUpload upload) {edge : OwnershipEdge} (member : edge ∈ after.ownershipEdges.records) :
    (∃ old ∈ before.ownershipEdges.records, old.parentEntityId = edge.parentEntityId ∧
      old.childEntityId = edge.childEntityId) ∨
    ∀ record ∈ after.entities.records, record.id = edge.parentEntityId ∨ record.id = edge.childEntityId →
      record.registrationType = .entity := by
  have key : (edge.parentEntityId, edge.childEntityId) ∈ (edgeMap after).keys := by
    rw [InsertionMap.keys, edgeMap, KeyedView.toMap, List.map_map]
    exact List.mem_map.mpr ⟨edge, member, rfl⟩
  rw [written.edges, InsertionMap.mem_keys_setAll] at key
  rcases key with old | uploaded
  · obtain ⟨entry, inside, ends⟩ := List.mem_map.mp old
    obtain ⟨oldEdge, oldMember, rfl⟩ := mem_edgeMap inside
    obtain ⟨parent, child⟩ := Prod.mk.injEq .. ▸ ends
    exact .inl ⟨oldEdge, oldMember, parent, child⟩
  · rw [List.map_map] at uploaded
    obtain ⟨edgeRow, inside, ends⟩ := List.mem_map.mp uploaded
    obtain ⟨row, _, resolves⟩ := resolves_of_mem (written.edgeRecords_resolve normalized consistent) inside
    have parent : edgeRow.parentEntityId = edge.parentEntityId := congrArg Prod.fst ends
    have child : edgeRow.childEntityId = edge.childEntityId := congrArg Prod.snd ends
    have named : ∀ {name id}, EntityNamed after name id → ∀ record ∈ after.entities.records, record.id = id →
        record.registrationType = .entity := by
      intro name id isEntity record recordMember same
      obtain ⟨other, otherMember, otherId, _, entity⟩ := isEntity
      rw [Table.eq_of_id recordMember otherMember (same.trans otherId.symm), entity]
    refine .inr fun record recordMember isEnd => isEnd.elim ?_ ?_
    · exact parent ▸ named resolves.parent record recordMember
    · exact child ▸ named resolves.child record recordMember

theorem rewire_fq (consistent : ConsistentUpload upload) {row : ParsedEntityRow} (listed : row ∈ upload.entityRows)
    (fq : row.registrationType = "FQ") {record : EntityRecord}
    (key : record.entityNameKey = normalizeName row.entityName) (ids : InsertionMap String EntityId) :
    (rewire (fqUpdates upload.entityRows ids) record).domesticEntityId =
      (truthy row.domesticEntity).bind fun name => ids.get? (normalizeName name) := by
  have found : (fqUpdates upload.entityRows ids).find? (fun update => update.1 = record.entityNameKey) =
      some (normalizeName row.entityName, (truthy row.domesticEntity).bind fun name => ids.get? (normalizeName name)) := by
    cases search : (fqUpdates upload.entityRows ids).find? fun update => update.1 = record.entityNameKey with
    | none =>
        have absent := List.find?_eq_none.mp search _
          (List.mem_map_of_mem (List.mem_filter.mpr ⟨listed, decide_eq_true fq⟩))
        simp [key] at absent
    | some update =>
        obtain ⟨other, inside, rfl⟩ := List.mem_map.mp (List.mem_of_find?_eq_some search)
        have same : normalizeName other.entityName = normalizeName row.entityName := by
          simpa [key] using List.find?_some search
        rw [List.inj_on_of_nodup_map consistent.entities.names (List.mem_filter.mp inside).1 listed same]
  rw [rewire, found]

theorem rewire_unnamed {record : EntityRecord} {ids : InsertionMap String EntityId}
    (others : ∀ row ∈ upload.entityRows, normalizeName row.entityName ≠ record.entityNameKey) :
    rewire (fqUpdates upload.entityRows ids) record = record := by
  have absent : (fqUpdates upload.entityRows ids).find? (fun update => update.1 = record.entityNameKey) = none := by
    refine List.find?_eq_none.mpr fun update member => ?_
    obtain ⟨row, inside, rfl⟩ := List.mem_map.mp member
    simpa using others row (List.mem_filter.mp inside).1
  rw [rewire, absent]

/-- What a commit makes of the record of a row. -/
inductive StoredAs (after : Database) (row : ParsedEntityRow) (record : EntityRecord) : Prop where
  | entity (row_type : row.registrationType = "Entity") (type : record.registrationType = .entity)
  | fq (domestic : EntityRecord) (row_type : row.registrationType = "FQ") (type : record.registrationType = .fq)
      (member : domestic ∈ after.entities.records) (wired : record.domesticEntityId = some domestic.id)
      (owner : domestic.registrationType = .entity)

/-- A record after a commit is that of a row, or was there before and is not
named by any. -/
theorem Written.record_cases (written : Written upload before registered after) (normalized : NamesNormalized before)
    (consistent : ConsistentUpload upload) {record : EntityRecord} (member : record ∈ after.entities.records) :
    (∃ row ∈ upload.entityRows, normalizeName row.entityName = record.entityNameKey ∧ StoredAs after row record) ∨
    record ∈ before.entities.records ∧ ∀ row ∈ upload.entityRows, normalizeName row.entityName ≠ record.entityNameKey := by
  rw [written.entities] at member
  obtain ⟨stored, inside, rfl⟩ := List.mem_map.mp member
  rcases written.rows.written stored inside with ⟨row, listed, key, by_⟩ | ⟨unchanged, others⟩
  · refine .inl ⟨row, listed, by rw [rewire_entityNameKey, key], ?_⟩
    rcases consistent.entities.types row listed with isEntity | isFq
    · exact .entity isEntity ((rewire_registrationType _ _).trans (registrationType_entity (isEntity ▸ by_.registrationType)))
    · obtain ⟨domesticEntity, named, present, other, otherListed, otherKey, entity⟩ :=
        consistent.entities.domestic row listed isFq
      have referenced : normalizeName domesticEntity ∈ referencedNames upload := by
        refine List.mem_append_left _ (List.mem_append_left _ (List.mem_flatMap.mpr ⟨row, listed, ?_⟩))
        simp [named, truthy, Option.filter, present]
      obtain ⟨id, found, new, newMember, rfl, _, type⟩ :=
        written.resolve normalized consistent referenced otherListed otherKey entity
      refine .fq new isFq ?_ newMember ?_ type
      · exact (rewire_registrationType _ _).trans (registrationType_fq (isFq ▸ by_.registrationType))
      · rw [rewire_fq consistent listed isFq key, named, ← found]
        simp [truthy, Option.filter, present]
  · rw [rewire_unnamed others]
    exact .inr ⟨unchanged, others⟩

/-- Owners stay entities: the owners of new edges are entities of the upload, and
no other owner becomes an FQ. -/
theorem Written.ownersAreEntities (written : Written upload before registered after)
    (normalized : NamesNormalized before) (consistent : ConsistentUpload upload) (owners : OwnersAreEntities before)
    (keeps : KeepsOwners before upload) : OwnersAreEntities after := by
  intro edge member record recordMember id
  rcases written.edge_cases normalized consistent member with ⟨old, oldMember, parent, _⟩ | entities
  · obtain ⟨owner, ownerMember, ownerId⟩ := List.mem_map.mp (before.references.edges old oldMember).1
    have ownerId : owner.id = old.parentEntityId := ownerId
    have same : record.id = owner.id := by rw [ownerId, parent, id]
    rcases written.record_cases normalized consistent recordMember with ⟨row, listed, rowKey, stored⟩ | ⟨unchanged, _⟩
    · cases stored with
      | entity _ type => exact type
      | fq _ isFq =>
          refine absurd ?_ (keeps row listed isFq old oldMember)
          rw [rowKey, ← ownerId, normalizeName_nameOf normalized ownerMember, written.key_kept recordMember ownerMember same]
    · exact owners old oldMember record unchanged (same.trans ownerId)
  · exact entities record recordMember (.inl id)

/-- The domestic entity of an FQ row is an entity after the upload; an FQ that
the upload does not name keeps its domestic entity. -/
theorem Written.fqOf (written : Written upload before registered after) (normalized : NamesNormalized before)
    (consistent : ConsistentUpload upload) {domestic fq : EntityId} (link : after.FqOf domestic fq) :
    (∃ record ∈ after.entities.records, record.id = domestic ∧ record.registrationType = .entity) ∨
      before.FqOf domestic fq := by
  obtain ⟨record, member, rfl, type, wired⟩ := link
  rcases written.record_cases normalized consistent member with ⟨row, _, _, stored⟩ | ⟨unchanged, _⟩
  · cases stored with
    | entity _ entity =>
        rw [type] at entity
        cases entity
    | fq owner _ _ ownerMember owned entity => exact .inl ⟨owner, ownerMember, Option.some.inj (owned.symm.trans wired), entity⟩
  · exact .inr ⟨record, unchanged, rfl, type, wired⟩

/-- FQ links alone never make a cycle: on one, the domestic entity of every FQ
would be an FQ itself. -/
theorem Written.fqOf_acyclic (written : Written upload before registered after) (normalized : NamesNormalized before)
    (consistent : ConsistentUpload upload) (acyclic : Acyclic before.FqOf) : Acyclic after.FqOf := by
  refine acyclic.of_target (p := fun id => ∃ record ∈ after.entities.records, record.id = id ∧
    record.registrationType = .fq) ?_ ?_
  · intro domestic fq link
    obtain ⟨record, member, id, type, _⟩ := link
    exact ⟨record, member, id, type⟩
  · intro domestic fq isFq link
    obtain ⟨record, member, id, type⟩ := isFq
    apply (written.fqOf normalized consistent link).resolve_left
    intro isEntity
    obtain ⟨other, otherMember, otherId, otherType⟩ := isEntity
    rw [Table.eq_of_id otherMember member (otherId.trans id.symm), type] at otherType
    cases otherType

/-- What every upload preserves that keeps the owners and has clear names. -/
structure LinkInvariant (db : Database) : Prop where
  ownership : OwnershipInvariant db
  owners : OwnersAreEntities db
  fqLinks : Acyclic db.FqOf

theorem LinkInvariant.initial : LinkInvariant Database.initial where
  ownership := .initial
  owners := List.forall_mem_nil _
  fqLinks node cycle := by
    obtain ⟨_, ⟨record, member, _⟩, _⟩ := TransGen.head'_iff.mp cycle
    cases member

theorem LinkInvariant.acyclic (invariant : LinkInvariant db) : Acyclic db.ChildOf :=
  invariant.owners.acyclic invariant.ownership.sound.acyclic invariant.fqLinks

theorem LinkInvariant.step (invariant : LinkInvariant db) (request : UploadRequest)
    (allowed : (request.validated db).errors = [] →
      ClearNames (request.validated db) ∧ KeepsOwners db (request.validated db))
    (taken : uploadStep db request = some after) : LinkInvariant after := by
  have ownership := invariant.ownership.upload
    (fun accepted row member => keySafe_iff.mpr ((allowed accepted).1 row member)) taken
  rcases uploadStep_cases taken with rfl | ⟨accepted, registered, written⟩
  · exact invariant
  · have consistent := (validateUpload_accepted accepted).1
    exact {
      ownership
      owners := written.ownersAreEntities invariant.ownership.normalized consistent invariant.owners (allowed accepted).2
      fqLinks := written.fqOf_acyclic invariant.ownership.normalized consistent invariant.fqLinks }

/-- In a history whose accepted uploads have clear names and keep the owners, the
links never have a cycle, and the query terminates from all roots. -/
theorem keptOwners_terminate {trace : List (Database × UploadRequest)} (run : Run uploadStep Database.initial trace db)
    (allowed : ∀ entry ∈ trace, (entry.2.validated entry.1).errors = [] →
      ClearNames (entry.2.validated entry.1) ∧ KeepsOwners entry.1 (entry.2.validated entry.1)) :
    ∀ reached ∈ visited trace db, Acyclic reached.ChildOf ∧
      ∀ rootIds, ∃ rounds rows, reached.subtree rounds rootIds = some rows := by
  have invariant := run.invariant_visited LinkInvariant
    (fun before request => (request.validated before).errors = [] →
      ClearNames (request.validated before) ∧ KeepsOwners before (request.validated before))
    .initial (fun before request after held allowed step => held.step request allowed step) allowed
  intro reached member
  have acyclic := (invariant reached member).acyclic
  exact ⟨acyclic, acyclic_childOf_iff.mp acyclic⟩

omit [Platform] in
def ownersRequest : UploadRequest :=
  ownershipRequest [("Crown", "Entity", ""), ("Acme", "Entity", ""), ("Beta", "Entity", "")]
    [("Crown", "Acme", "100"), ("Acme", "Beta", "100")]

omit [Platform] in
/-- Acme is registered again, as an FQ of Beta. -/
def reregisterRequest : UploadRequest :=
  ownershipRequest [("Acme", "FQ", "Beta"), ("Beta", "Entity", "")] []

omit [Platform] in
/-- Both uploads are accepted and written, and leave a cycle below the top-level
entity Crown. -/
theorem reregistered_owner_cycle : ¬ ∀ [Platform] (trace : List (Database × UploadRequest)) (db : Database),
    Run uploadStep Database.initial trace db →
    (∀ entry ∈ trace, ∃ result,
      (processUpload entry.2.limits entry.2.today entry.2.files entry.1).2 = .created result) →
    Acyclic db.ChildOf ∧ ∀ rootIds, ∃ rounds rows, db.subtree rounds rootIds = some rows := by
  intro claimed
  let _ := asciiPlatform
  let middle := processUpload ownersRequest.limits ownersRequest.today ownersRequest.files Database.initial
  let final := processUpload reregisterRequest.limits reregisterRequest.today reregisterRequest.files middle.1
  -- Acme has the id 2 and Beta the id 3.
  have outcomes : middle.2 = .created ⟨3, 2, 0⟩ ∧ final.2 = .created ⟨2, 0, 0⟩ ∧
      final.1.ChildOf 2 3 ∧ final.1.ChildOf 3 2 := by decide +kernel
  obtain ⟨first, second, owns, isFqOf⟩ := outcomes
  have run : Run uploadStep Database.initial [(Database.initial, ownersRequest), (middle.1, reregisterRequest)] final.1 :=
    .next (.next .start rfl) rfl
  obtain ⟨acyclic, _⟩ := claimed _ _ run (by
    simp only [List.forall_mem_cons]
    exact ⟨⟨_, first⟩, ⟨_, second⟩, by simp⟩)
  exact acyclic 2 (.tail (.single owns) isFqOf)

omit [Platform] in
def reregisterChildRequest : UploadRequest :=
  ownershipRequest [("Acme", "Entity", ""), ("Beta", "FQ", "Acme")] []

omit [Platform] in
theorem reregistered_child_terminates :
    letI := asciiPlatform
    let middle := (processUpload ownersRequest.limits ownersRequest.today ownersRequest.files Database.initial).1
    let final := (processUpload reregisterChildRequest.limits reregisterChildRequest.today
      reregisterChildRequest.files middle).1
    final.childLinks.length = 3 ∧ Acyclic final.ChildOf ∧
      ∀ rootIds, ∃ rounds rows, final.subtree rounds rootIds = some rows := by
  have facts : letI := asciiPlatform
      let middle := (processUpload ownersRequest.limits ownersRequest.today ownersRequest.files Database.initial).1
      let final := (processUpload reregisterChildRequest.limits reregisterChildRequest.today
        reregisterChildRequest.files middle).1
      final.childLinks.length = 3 ∧
        ∀ entry ∈ [(Database.initial, ownersRequest), (middle, reregisterChildRequest)],
          (entry.2.validated entry.1).errors = [] →
            ClearNames (entry.2.validated entry.1) ∧ KeepsOwners entry.1 (entry.2.validated entry.1) := by
    decide +kernel
  let _ := asciiPlatform
  exact ⟨facts.1, keptOwners_terminate (.next (.next .start rfl) rfl) facts.2 _
    (List.mem_append_right _ (List.mem_singleton.mpr rfl))⟩

end Coverpin.Upload
