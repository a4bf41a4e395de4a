import Coverpin.Upload.ChildLinks
import Coverpin.Upload.Constraints
import Coverpin.Upload.WritersAgree

namespace Coverpin.Upload

open Coverpin.Data Coverpin.Database Coverpin.Validation Coverpin.Validation.Entities

/-! # The old entities overlaid by the file

The first pass writes the columns of a row and the second one the domestic
entities of FQ rows.  No pass clears the domestic entity of a record that an
upload registers as an entity.
-/

variable [Platform]

/-- The domestic entity that the Domestic Entity rule asks for. -/
def DomesticLink (db : Database) (row : ParsedEntityRow) (record : EntityRecord) : Prop :=
  if row.registrationType = "FQ" then
    ∃ name ∈ row.domesticEntity, ∃ domestic ∈ db.entities.records,
      domestic.entityNameKey = normalizeName name ∧ record.domesticEntityId = some domestic.id
  else record.domesticEntityId = none

/-- Records keep their ids and keys, those of the file carry all values of their
rows, and the others are as they were. -/
structure Overlaid (upload : ValidatedUpload) (before after : Database) : Prop where
  kept : ∀ old ∈ before.entities.records, ∃ new ∈ after.entities.records,
    new.id = old.id ∧ new.entityNameKey = old.entityNameKey
  rows : ∀ row ∈ upload.entityRows, ∃ record ∈ after.entities.records,
    record.entityNameKey = normalizeName row.entityName ∧ storedEntityValues record = entityRowValues row ∧
      DomesticLink after row record
  others : ∀ record, (∀ row ∈ upload.entityRows, normalizeName row.entityName ≠ record.entityNameKey) →
    (record ∈ after.entities.records ↔ record ∈ before.entities.records)

/-- No row registers as an entity what is stored with a domestic entity. -/
def NoStaleLink (upload : ValidatedUpload) (before : Database) : Prop :=
  ∀ row ∈ upload.entityRows, row.registrationType = "Entity" → ∀ record ∈ before.entities.records,
    record.entityNameKey = normalizeName row.entityName → record.domesticEntityId = none

instance (upload : ValidatedUpload) (before : Database) : Decidable (NoStaleLink upload before) :=
  inferInstanceAs (Decidable (∀ row ∈ upload.entityRows, _))

section Effect

variable {upload : ValidatedUpload} {before registered after : Database} {record other : EntityRecord}
  {row : ParsedEntityRow}

omit [Platform] in
theorem EntityRecord.ext_values (id : record.id = other.id) (key : record.entityNameKey = other.entityNameKey)
    (domestic : record.domesticEntityId = other.domesticEntityId)
    (values : storedEntityValues record = storedEntityValues other) : record = other := by
  obtain ⟨_, _, _, type, _, _, _, _, _, _, _, _⟩ := record
  obtain ⟨_, _, _, otherType, _, _, _, _, _, _, _, _⟩ := other
  simp only [storedEntityValues, EntityValues.mk.injEq] at values
  obtain ⟨name, sameType, jurisdiction, kind, status, since, formed, business, region⟩ := values
  have types : type = otherType := by
    cases type <;> cases otherType <;> first | rfl | (revert sameType; decide)
  simp only [EntityRecord.mk.injEq]
  exact ⟨id, name, key, types, jurisdiction, Subtype.ext kind, Subtype.ext status,
    Option.map_injective Subtype.val_injective since, domestic, Option.map_injective Subtype.val_injective formed,
    business, Option.map_injective Subtype.val_injective region⟩

theorem entityMap_get? {db : Database} {key : String} {values : EntityValues} :
    (entityMap db).get? key = some values ↔
      ∃ record ∈ db.entities.records, record.entityNameKey = key ∧ storedEntityValues record = values := by
  rw [InsertionMap.get?_eq_some, entityMap, KeyedView.toMap, List.mem_map]
  simp only [entityKeyed, entityEntry_read, Prod.mk.injEq]

theorem Committed.rowValues (committed : Committed upload before registered after) (accepted : AcceptedUpload upload)
    (listed : row ∈ upload.entityRows) : ∃ record ∈ registered.entities.records,
      record.entityNameKey = normalizeName row.entityName ∧ storedEntityValues record = entityRowValues row := by
  rw [← entityMap_get?, committed.entityValues]
  refine InsertionMap.get?_setAll_of_mem ?_ (List.mem_map.mpr ⟨row, listed, rfl⟩)
  rw [List.map_map]
  exact accepted.entityNames

/-- The two passes leave a record alone whose key is not in the file. -/
theorem Committed.others (committed : Committed upload before registered after)
    (absent : ∀ row ∈ upload.entityRows, normalizeName row.entityName ≠ record.entityNameKey) :
    record ∈ after.entities.records ↔ record ∈ before.entities.records := by
  have unwritten : (entityMap registered).get? record.entityNameKey = (entityMap before).get? record.entityNameKey := by
    rw [committed.entityValues]
    refine InsertionMap.get?_setAll_of_absent fun listed => ?_
    rw [List.map_map] at listed
    obtain ⟨row, inside, same⟩ := List.mem_map.mp listed
    exact absent row inside same
  have registeredIff : record ∈ registered.entities.records ↔ record ∈ before.entities.records := by
    constructor
    · intro member
      rcases committed.rows.written record member with ⟨row, listed, key, _⟩ | ⟨old, _⟩
      · exact absurd key.symm (absent row listed)
      · exact old
    · intro member
      obtain ⟨new, inside, same⟩ := committed.rows.kept record member
      have old := entityMap_get?.mpr ⟨record, member, rfl, rfl⟩
      rw [← unwritten, entityMap_get?] at old
      obtain ⟨stored, storedMember, key, values⟩ := old
      have only := eq_of_entityKey storedMember inside (key.trans same.key.symm)
      rwa [EntityRecord.ext_values same.id.symm same.key.symm same.domestic.symm (values.symm.trans (by rw [only]))]
  rw [← registeredIff, committed.entities, List.mem_map]
  constructor
  · intro rewired
    obtain ⟨old, inside, same⟩ := rewired
    have key : old.entityNameKey = record.entityNameKey := by rw [← same, rewire_entityNameKey]
    rw [rewire_unnamed (by rwa [key])] at same
    rwa [← same]
  · exact fun member => ⟨record, member, rewire_unnamed absent⟩

/-- The second pass leaves the record of a row for an entity alone. -/
theorem rewire_entity (accepted : AcceptedUpload upload) (listed : row ∈ upload.entityRows)
    (entity : row.registrationType = "Entity") (key : record.entityNameKey = normalizeName row.entityName)
    (ids : InsertionMap String EntityId) : rewire (fqUpdates upload.entityRows ids) record = record := by
  have absent : (fqUpdates upload.entityRows ids).find? (fun update => update.1 = record.entityNameKey) = none := by
    refine List.find?_eq_none.mpr fun update member => ?_
    obtain ⟨other, inside, rfl⟩ := List.mem_map.mp member
    obtain ⟨otherListed, fq⟩ := List.mem_filter.mp inside
    simp only [decide_eq_true_eq, key]
    intro same
    rw [List.inj_on_of_nodup_map accepted.entityNames otherListed listed same, entity] at fq
    exact absurd (of_decide_eq_true fq) (by decide)
  rw [rewire, absent]

omit [Platform] in
@[simp] theorem storedEntityValues_rewire (updates : List (String × Option EntityId)) (record : EntityRecord) :
    storedEntityValues (rewire updates record) = storedEntityValues record := by
  unfold rewire; split <;> rfl

/-- An FQ row is linked to the record of the name in its Domestic Entity column. -/
theorem Committed.fqLink (committed : Committed upload before registered after) (normalized : NamesNormalized before)
    (consistent : ConsistentUpload upload) (listed : row ∈ upload.entityRows) (fq : row.registrationType = "FQ")
    (key : record.entityNameKey = normalizeName row.entityName) : ∃ name ∈ row.domesticEntity,
      ∃ domestic ∈ after.entities.records, domestic.entityNameKey = normalizeName name ∧
        (rewire (fqUpdates upload.entityRows (idByName registered upload)) record).domesticEntityId = some domestic.id := by
  obtain ⟨name, named, present, other, otherListed, otherKey, _⟩ := consistent.entities.domestic row listed fq
  have referenced : normalizeName name ∈ referencedNames upload := by
    refine List.mem_append_left _ (List.mem_append_left _ (List.mem_flatMap.mpr ⟨row, listed, ?_⟩))
    simp [named, truthy, Option.filter, present]
  obtain ⟨domestic, member, domesticKey, found⟩ :=
    committed.rows.resolve normalized referenced ⟨other, otherListed, otherKey⟩
  obtain ⟨new, newMember, id, _, newKey, _⟩ := committed.committed member
  refine ⟨name, named, new, newMember, newKey.trans domesticKey, ?_⟩
  rw [rewire_fq consistent listed fq key, named, id, ← found]
  simp [truthy, Option.filter, present]

/-- Every record of before is there after, under its id and key, and with its
domestic entity unless the second pass sets it. -/
theorem Committed.kept (committed : Committed upload before registered after) {old : EntityRecord}
    (member : old ∈ before.entities.records) : ∃ record ∈ registered.entities.records, SameEntity old record ∧
      rewire (fqUpdates upload.entityRows (idByName registered upload)) record ∈ after.entities.records := by
  obtain ⟨record, inside, same⟩ := committed.rows.kept old member
  exact ⟨record, inside, same, by rw [committed.entities]; exact List.mem_map_of_mem inside⟩

theorem Committed.overlaid_iff (committed : Committed upload before registered after) (normalized : NamesNormalized before)
    (consistent : ConsistentUpload upload) (accepted : AcceptedUpload upload) :
    Overlaid upload before after ↔ NoStaleLink upload before := by
  constructor
  · intro overlaid row listed entity old member key
    obtain ⟨new, newMember, newKey, _, link⟩ := overlaid.rows row listed
    rw [DomesticLink, if_neg (by rw [entity]; decide)] at link
    obtain ⟨record, _, same, final⟩ := committed.kept member
    have recordKey := same.key.trans key
    rw [rewire_entity accepted listed entity recordKey] at final
    have only := eq_of_entityKey newMember final (newKey.trans recordKey.symm)
    rw [← same.domestic, ← only, link]
  · intro fresh
    refine ⟨fun old member => ?_, fun row listed => ?_, fun record absent => committed.others absent⟩
    · obtain ⟨record, _, same, final⟩ := committed.kept member
      exact ⟨_, final, by rw [rewire_id, same.id], by rw [rewire_entityNameKey, same.key]⟩
    · obtain ⟨record, inside, key, values⟩ := committed.rowValues accepted listed
      have final : rewire (fqUpdates upload.entityRows (idByName registered upload)) record ∈ after.entities.records := by
        rw [committed.entities]
        exact List.mem_map_of_mem inside
      refine ⟨_, final, by rw [rewire_entityNameKey, key], by rw [storedEntityValues_rewire, values], ?_⟩
      unfold DomesticLink
      split
      · rename_i fq
        exact committed.fqLink normalized consistent listed fq key
      · rename_i notFq
        have entity := (consistent.entities.types row listed).resolve_right notFq
        rw [rewire_entity accepted listed entity key]
        rcases committed.rows.origin record inside with ⟨old, earlier, same⟩ | ⟨_, none⟩
        · rw [same.domestic]
          exact fresh row listed entity old earlier (same.key.symm.trans key)
        · exact none

end Effect

/-- In every database that uploads processed one at a time lead to, an accepted
upload that is written alone, by either writer, leaves the old entities overlaid
by the file exactly when it registers no record with a domestic entity as an
entity. -/
theorem write_overlays_iff {trace : List (Database × UploadRequest)} {before : Database}
    (run : Run uploadStep Database.initial trace before) {request : UploadRequest}
    (accepted : (request.validated before).errors = []) {chunkSize : Nat} (positive : 0 < chunkSize) {after : Database}
    {result : UploadBatchResult}
    (committed : processUploadTransaction chunkSize (request.validated before) before = .ok (after, result) ∨
      writeUploadBatch (toUploadBatchRows (request.validated before)) chunkSize before = .ok (after, result)) :
    Overlaid (request.validated before) before after ↔ NoStaleLink (request.validated before) before := by
  have normalized := (NamesStored.reachable run).normalized
  rw [writeUploadBatch_eq normalized positive, or_self] at committed
  obtain ⟨registered, effect⟩ := processUploadTransaction_committed positive committed
  exact effect.overlaid_iff normalized (validateUpload_accepted accepted).1 (validateUpload_storable accepted).1

theorem processUpload_transaction {before : Database} {request : UploadRequest} {result : UploadBatchResult}
    (created : (processUpload request.limits request.today request.files before).2 = .created result) :
    processUploadTransaction request.limits.uploadBatchChunkSize (request.validated before) before =
      .ok ((processUpload request.limits request.today request.files before).1, result) := by
  rcases processUpload_cases request.limits request.today request.files before with
    ⟨outcome, other, same⟩ | ⟨_, after, counts, committed, same⟩
  · exact absurd (by rw [← created, same]) (other result)
  · simp only [same, UploadOutcome.created.injEq] at created ⊢
    exact created ▸ committed

omit [Platform] in
def fqRequest : UploadRequest :=
  ownershipRequest [("Acme", "Entity", ""), ("Acme UK", "FQ", "Acme")] []

omit [Platform] in
/-- The FQ is registered again, as an entity. -/
def promoteRequest : UploadRequest :=
  ownershipRequest [("Acme", "Entity", ""), ("Acme UK", "Entity", "")] []

omit [Platform] in
/-- An entity that was an FQ before is stored with its old domestic entity. -/
theorem promoted_keeps_domestic : ¬ ∀ [Platform] (trace : List (Database × UploadRequest)) (before after : Database)
    (request : UploadRequest) (chunkSize : Nat) (result : UploadBatchResult),
    Run uploadStep Database.initial trace before → (request.validated before).errors = [] → 0 < chunkSize →
    processUploadTransaction chunkSize (request.validated before) before = .ok (after, result) →
    Overlaid (request.validated before) before after := by
  intro claimed
  have facts : letI := asciiPlatform
      let before := (processUpload fqRequest.limits fqRequest.today fqRequest.files Database.initial).1
      (promoteRequest.validated before).errors = [] ∧
        (processUpload promoteRequest.limits promoteRequest.today promoteRequest.files before).2 = .created ⟨2, 0, 0⟩ ∧
        ¬ NoStaleLink (promoteRequest.validated before) before := by
    decide +kernel
  let _ := asciiPlatform
  obtain ⟨accepted, created, stale⟩ := facts
  let before := (processUpload fqRequest.limits fqRequest.today fqRequest.files Database.initial).1
  have run : Run uploadStep Database.initial [(Database.initial, fqRequest)] before := .next .start rfl
  have committed := processUpload_transaction created
  have overlaid := claimed _ before _ promoteRequest _ _ run accepted promoteRequest.limits.chunkSizePositive committed
  obtain ⟨registered, effect⟩ := processUploadTransaction_committed promoteRequest.limits.chunkSizePositive committed
  exact stale ((effect.overlaid_iff (NamesStored.reachable run).normalized (validateUpload_accepted accepted).1
    (validateUpload_storable accepted).1).mp overlaid)

omit [Platform] in
/-- The FQ gets another domestic entity, and a new one its first. -/
def relinkRequest : UploadRequest :=
  ownershipRequest [("Beta", "Entity", ""), ("ACME UK", "FQ", "beta"), ("Beta UK", "FQ", "Beta")] []

omit [Platform] in
theorem relinked_overlays :
    letI := asciiPlatform
    let before := (processUpload fqRequest.limits fqRequest.today fqRequest.files Database.initial).1
    ∃ after result, processUploadTransaction relinkRequest.limits.uploadBatchChunkSize (relinkRequest.validated before) before =
      .ok (after, result) ∧ Overlaid (relinkRequest.validated before) before after := by
  have facts : letI := asciiPlatform
      let before := (processUpload fqRequest.limits fqRequest.today fqRequest.files Database.initial).1
      (relinkRequest.validated before).errors = [] ∧
        (processUpload relinkRequest.limits relinkRequest.today relinkRequest.files before).2 = .created ⟨3, 0, 0⟩ ∧
        NoStaleLink (relinkRequest.validated before) before := by
    decide +kernel
  let _ := asciiPlatform
  obtain ⟨accepted, created, fresh⟩ := facts
  have committed := processUpload_transaction created
  have run : Run uploadStep Database.initial [(Database.initial, fqRequest)] _ := .next .start rfl
  exact ⟨_, _, committed,
    (write_overlays_iff run accepted relinkRequest.limits.chunkSizePositive (.inl committed)).mpr fresh⟩

end Coverpin.Upload
