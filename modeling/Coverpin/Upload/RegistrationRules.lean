import Coverpin.Upload.Overlay

namespace Coverpin.Upload

open Coverpin.Data Coverpin.Database Coverpin.Validation Coverpin.Validation.Entities

/-! # The registration rules in the tables

Within one file an ownership row joins entities and an FQ row refers to an
entity.  Stored links are not looked at again when a later file registers one of
their ends as an FQ.
-/

variable [Platform]

/-- The rules for ownership rows and for FQ rows, read of the tables. -/
structure RegistrationRules (db : Database) : Prop where
  edges : ∀ edge ∈ db.ownershipEdges.records, ∀ record ∈ db.entities.records,
    record.id = edge.parentEntityId ∨ record.id = edge.childEntityId → record.registrationType = .entity
  fqs : ∀ record ∈ db.entities.records, record.registrationType = .fq → ∃ domestic ∈ db.entities.records,
    record.domesticEntityId = some domestic.id ∧ domestic.registrationType = .entity

/-- No FQ row names an end of a stored edge. -/
def KeepsEnds (db : Database) (upload : ValidatedUpload) : Prop :=
  ∀ row ∈ upload.entityRows, row.registrationType = "FQ" → ∀ edge ∈ db.ownershipEdges.records,
    ∀ record ∈ db.entities.records, record.id = edge.parentEntityId ∨ record.id = edge.childEntityId →
      record.entityNameKey ≠ normalizeName row.entityName

/-- No FQ row names the domestic entity of a stored FQ that the file does not name. -/
def KeepsDomestics (db : Database) (upload : ValidatedUpload) : Prop :=
  ∀ row ∈ upload.entityRows, row.registrationType = "FQ" → ∀ fq ∈ db.entities.records, fq.registrationType = .fq →
    (∀ other ∈ upload.entityRows, normalizeName other.entityName ≠ fq.entityNameKey) →
      ∀ domestic ∈ db.entities.records, fq.domesticEntityId = some domestic.id →
        domestic.entityNameKey ≠ normalizeName row.entityName

instance (db : Database) (upload : ValidatedUpload) : Decidable (KeepsEnds db upload) :=
  inferInstanceAs (Decidable (∀ row ∈ upload.entityRows, _))

instance (db : Database) (upload : ValidatedUpload) : Decidable (KeepsDomestics db upload) :=
  inferInstanceAs (Decidable (∀ row ∈ upload.entityRows, _))

/-- What an upload that is written has to keep. -/
def KeepsTypes (db : Database) (request : UploadRequest) : Prop :=
  ∀ result, (processUpload request.limits request.today request.files db).2 = .created result →
    KeepsEnds db (request.validated db) ∧ KeepsDomestics db (request.validated db)

instance (db : Database) (request : UploadRequest) : Decidable (KeepsTypes db request) :=
  match outcome : (processUpload request.limits request.today request.files db).2 with
  | .created result => decidable_of_iff
      (KeepsEnds db (request.validated db) ∧ KeepsDomestics db (request.validated db))
      ⟨fun keeps _ _ => keeps, fun keeps => keeps result outcome⟩
  | .unprocessable _ => .isTrue fun _ created => nomatch outcome.symm.trans created
  | .failed _ => .isTrue fun _ created => nomatch outcome.symm.trans created

omit [Platform] in
theorem RegistrationRules.initial : RegistrationRules Database.initial :=
  ⟨List.forall_mem_nil _, List.forall_mem_nil _⟩

section Effect

variable {upload : ValidatedUpload} {before registered after : Database}

theorem Written.row_record (written : Written upload before registered after) {row : ParsedEntityRow}
    (listed : row ∈ upload.entityRows) : ∃ record ∈ after.entities.records,
      record.entityNameKey = normalizeName row.entityName := by
  obtain ⟨middle, inside, key⟩ := written.rows.present row listed
  obtain ⟨record, member, _, _, same, _⟩ := written.committed inside
  exact ⟨record, member, same.trans key⟩

/-- The record of an FQ row is an FQ. -/
theorem Written.fq_record (written : Written upload before registered after) (normalized : NamesNormalized before)
    (consistent : ConsistentUpload upload) {row : ParsedEntityRow} (listed : row ∈ upload.entityRows)
    (fq : row.registrationType = "FQ") {record : EntityRecord} (member : record ∈ after.entities.records)
    (key : record.entityNameKey = normalizeName row.entityName) : record.registrationType = .fq := by
  rcases written.record_cases normalized consistent member with ⟨other, otherListed, otherKey, stored⟩ | ⟨_, others⟩
  · rw [List.inj_on_of_nodup_map consistent.entities.names otherListed listed (otherKey.trans key)] at stored
    cases stored with
    | entity isEntity =>
        rw [fq] at isEntity
        exact absurd isEntity (by decide)
    | fq _ _ type => exact type
  · exact absurd key.symm (others row listed)

theorem Written.edge_kept (written : Written upload before registered after) {edge : OwnershipEdge}
    (member : edge ∈ before.ownershipEdges.records) : ∃ new ∈ after.ownershipEdges.records,
      new.parentEntityId = edge.parentEntityId ∧ new.childEntityId = edge.childEntityId := by
  have key : (edge.parentEntityId, edge.childEntityId) ∈ (edgeMap after).keys := by
    rw [written.edges, InsertionMap.mem_keys_setAll]
    exact .inl (List.mem_map.mpr ⟨edgeView edge, List.mem_map_of_mem member, rfl⟩)
  obtain ⟨entry, inside, ends⟩ := List.mem_map.mp key
  obtain ⟨new, newMember, rfl⟩ := mem_edgeMap inside
  obtain ⟨parent, child⟩ := Prod.mk.inj ends
  exact ⟨new, newMember, parent, child⟩

/-- A record that the file does not name is as it was. -/
theorem Written.unnamed_kept (written : Written upload before registered after) {record : EntityRecord}
    (member : record ∈ before.entities.records)
    (unnamed : ∀ row ∈ upload.entityRows, normalizeName row.entityName ≠ record.entityNameKey) :
    record ∈ after.entities.records := by
  obtain ⟨new, inside, same⟩ := written.rows.kept record member
  rcases written.rows.written new inside with ⟨row, listed, key, _⟩ | ⟨old, _⟩
  · exact absurd (key.symm.trans same.key) (unnamed row listed)
  · rw [Table.eq_of_id old member same.id] at inside
    rw [written.entities]
    exact List.mem_map.mpr ⟨record, inside, rewire_unnamed unnamed⟩

/-- The stored record that an FQ row names is an FQ after the commit. -/
theorem Written.named_fq (written : Written upload before registered after) (normalized : NamesNormalized before)
    (consistent : ConsistentUpload upload) {row : ParsedEntityRow} (listed : row ∈ upload.entityRows)
    (fq : row.registrationType = "FQ") {old : EntityRecord} (member : old ∈ before.entities.records)
    (key : old.entityNameKey = normalizeName row.entityName) : ∃ record ∈ after.entities.records,
      record.id = old.id ∧ record.registrationType = .fq := by
  obtain ⟨middle, inside, same⟩ := written.rows.kept old member
  obtain ⟨record, final, id, _, kept, _⟩ := written.committed inside
  exact ⟨record, final, id.trans same.id,
    written.fq_record normalized consistent listed fq final (kept.trans (same.key.trans key))⟩

theorem Written.keepsEnds (written : Written upload before registered after) (normalized : NamesNormalized before)
    (consistent : ConsistentUpload upload) (rules : RegistrationRules after) : KeepsEnds before upload := by
  intro row listed fq edge member old oldMember isEnd key
  obtain ⟨record, final, id, type⟩ := written.named_fq normalized consistent listed fq oldMember key
  obtain ⟨new, newMember, parent, child⟩ := written.edge_kept member
  have entity := rules.edges new newMember record final (by rwa [id, parent, child])
  rw [type] at entity
  cases entity

theorem Written.keepsDomestics (written : Written upload before registered after) (normalized : NamesNormalized before)
    (consistent : ConsistentUpload upload) (rules : RegistrationRules after) : KeepsDomestics before upload := by
  intro row listed fq record member type unnamed domestic domesticMember wired key
  obtain ⟨new, final, id, newType⟩ := written.named_fq normalized consistent listed fq domesticMember key
  obtain ⟨owner, ownerMember, owned, entity⟩ := rules.fqs record (written.unnamed_kept member unnamed) type
  have same : owner.id = new.id := (Option.some.inj (owned.symm.trans wired)).trans id.symm
  rw [Table.eq_of_id ownerMember final same, newType] at entity
  cases entity

/-- A stored entity that no FQ row names stays an entity. -/
theorem Written.entity_kept (written : Written upload before registered after) (normalized : NamesNormalized before)
    (consistent : ConsistentUpload upload) {old record : EntityRecord} (oldMember : old ∈ before.entities.records)
    (entity : old.registrationType = .entity) (member : record ∈ after.entities.records) (same : record.id = old.id)
    (free : ∀ row ∈ upload.entityRows, row.registrationType = "FQ" → old.entityNameKey ≠ normalizeName row.entityName) :
    record.registrationType = .entity := by
  rcases written.record_cases normalized consistent member with ⟨row, listed, key, stored⟩ | ⟨unchanged, _⟩
  · cases stored with
    | entity _ type => exact type
    | fq _ isFq =>
        refine absurd ?_ (free row listed isFq)
        rw [key, written.key_kept member oldMember same]
  · rw [Table.eq_of_id unchanged oldMember same, entity]

theorem Written.rules (written : Written upload before registered after) (normalized : NamesNormalized before)
    (consistent : ConsistentUpload upload) (rules : RegistrationRules before) (ends : KeepsEnds before upload)
    (domestics : KeepsDomestics before upload) : RegistrationRules after where
  edges edge member record recordMember isEnd := by
    rcases written.edge_cases normalized consistent member with ⟨old, oldMember, parent, child⟩ | entities
    · have wasEnd : record.id = old.parentEntityId ∨ record.id = old.childEntityId := by rwa [parent, child]
      have known : record.id ∈ before.entities.ids := by
        obtain ⟨parentKnown, childKnown⟩ := before.references.edges old oldMember
        rcases wasEnd with isParent | isChild
        · exact isParent ▸ parentKnown
        · exact isChild ▸ childKnown
      obtain ⟨stored, storedMember, same⟩ := List.mem_map.mp known
      have same : stored.id = record.id := same
      rw [← same] at wasEnd
      exact written.entity_kept normalized consistent storedMember (rules.edges old oldMember stored storedMember wasEnd)
        recordMember same.symm fun row listed fq => ends row listed fq old oldMember stored storedMember wasEnd
    · exact entities record recordMember isEnd
  fqs record member type := by
    rcases written.record_cases normalized consistent member with ⟨row, _, _, stored⟩ | ⟨unchanged, unnamed⟩
    · cases stored with
      | entity _ entity =>
          rw [type] at entity
          cases entity
      | fq domestic _ _ domesticMember wired owner => exact ⟨domestic, domesticMember, wired, owner⟩
    · obtain ⟨domestic, domesticMember, wired, entity⟩ := rules.fqs record unchanged type
      obtain ⟨middle, inside, same⟩ := written.rows.kept domestic domesticMember
      obtain ⟨new, newMember, id, _⟩ := written.committed inside
      have id : new.id = domestic.id := id.trans same.id
      refine ⟨new, newMember, by rw [wired, id], ?_⟩
      exact written.entity_kept normalized consistent domesticMember entity newMember id fun row listed fq =>
        domestics row listed fq record unchanged type unnamed domestic domesticMember wired

end Effect

theorem RegistrationRules.upload_iff {db after : Database} {request : UploadRequest} (stored : NamesStored db)
    (rules : RegistrationRules db) (step : uploadStep db request = some after) :
    RegistrationRules after ↔ KeepsTypes db request := by
  have left : (processUpload request.limits request.today request.files db).1 = after := Option.some.inj step
  rw [KeepsTypes]
  rcases processUpload_cases request.limits request.today request.files db with
    ⟨outcome, other, same⟩ | ⟨accepted, committed, result, transaction, same⟩
  · rw [same] at left ⊢
    cases left
    exact ⟨fun _ result created => absurd created (other result), fun _ => rules⟩
  · have consistent := (validateUpload_accepted accepted).1
    obtain ⟨registered, written⟩ := processUploadTransaction_ok request.limits.chunkSizePositive transaction
    rw [same] at left ⊢
    cases left
    constructor
    · intro kept _ _
      exact ⟨written.keepsEnds stored.normalized consistent kept, written.keepsDomestics stored.normalized consistent kept⟩
    · intro keeps
      obtain ⟨ends, domestics⟩ := keeps result rfl
      exact written.rules stored.normalized consistent rules ends domestics

/-- In a history of uploads processed one at a time every state on the way keeps
the registration rules exactly when no upload that is written registers as an FQ
an end of a stored edge or the domestic entity of an FQ that it does not name. -/
theorem registrationRules_iff {trace : List (Database × UploadRequest)} {db : Database}
    (run : Run uploadStep Database.initial trace db) :
    (∀ reached ∈ visited trace db, RegistrationRules reached) ↔ ∀ entry ∈ trace, KeepsTypes entry.1 entry.2 :=
  run.visited_iff NamesStored RegistrationRules KeepsTypes .initial (fun _ _ _ stored step => stored.upload step) .initial
    fun _ _ _ stored rules step => rules.upload_iff stored step

omit [Platform] in
/-- Beta, which Acme owns, is registered again as an FQ of Acme. -/
def demoteRequest : UploadRequest :=
  ownershipRequest [("Acme", "Entity", ""), ("Beta", "FQ", "Acme")] []

omit [Platform] in
theorem demoted_child_breaks_rules : ¬ ∀ [Platform] (trace : List (Database × UploadRequest)) (db : Database),
    Run uploadStep Database.initial trace db →
    (∀ entry ∈ trace, ∃ result,
      (processUpload entry.2.limits entry.2.today entry.2.files entry.1).2 = .created result) →
    RegistrationRules db := by
  intro claimed
  let _ := asciiPlatform
  let middle := processUpload ownersRequest.limits ownersRequest.today ownersRequest.files Database.initial
  let final := processUpload demoteRequest.limits demoteRequest.today demoteRequest.files middle.1
  have outcomes : middle.2 = .created ⟨3, 2, 0⟩ ∧ final.2 = .created ⟨2, 0, 0⟩ ∧
      ∃ edge ∈ final.1.ownershipEdges.records, ∃ record ∈ final.1.entities.records,
        record.id = edge.childEntityId ∧ record.registrationType = .fq := by decide +kernel
  obtain ⟨first, second, edge, member, record, recordMember, child, fq⟩ := outcomes
  have run : Run uploadStep Database.initial [(Database.initial, ownersRequest), (middle.1, demoteRequest)] final.1 :=
    .next (.next .start rfl) rfl
  have rules := claimed _ _ run (by
    simp only [List.forall_mem_cons]
    exact ⟨⟨_, first⟩, ⟨_, second⟩, by simp⟩)
  have entity := rules.edges edge member record recordMember (.inr child)
  rw [fq] at entity
  cases entity

omit [Platform] in
theorem added_fq_keeps_rules :
    letI := asciiPlatform
    let middle := (processUpload fqRequest.limits fqRequest.today fqRequest.files Database.initial).1
    let final := (processUpload demoteRequest.limits demoteRequest.today demoteRequest.files middle).1
    final.entities.records.length = 3 ∧ RegistrationRules final := by
  have facts : letI := asciiPlatform
      let middle := (processUpload fqRequest.limits fqRequest.today fqRequest.files Database.initial).1
      let final := (processUpload demoteRequest.limits demoteRequest.today demoteRequest.files middle).1
      final.entities.records.length = 3 ∧
        ∀ entry ∈ [(Database.initial, fqRequest), (middle, demoteRequest)], KeepsTypes entry.1 entry.2 := by
    decide +kernel
  let _ := asciiPlatform
  exact ⟨facts.1, (registrationRules_iff (.next (.next .start rfl) rfl)).mpr facts.2 _
    (List.mem_append_right _ (List.mem_singleton.mpr rfl))⟩

end Coverpin.Upload
