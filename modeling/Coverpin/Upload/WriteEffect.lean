import Coverpin.Upload.EntityPass

namespace Coverpin.Upload

open Coverpin.Data Coverpin.Database Coverpin.Validation Coverpin.Validation.Entities
  Coverpin.Validation.Graph Coverpin.Validation.Ownership

/-! # What a committed upload does to the ownership edges

By ids the third pass sets entries of a map; read by names this is the merge
that the graph check looked at, as long as the keys of the edges are readable.
-/

variable [Platform]

abbrev edgeConflict : OnConflict EdgeColumn :=
  repositoryUpsert [.parentEntityId, .childEntityId, .ownershipPct] [.parentEntityId, .childEntityId]

omit [Platform] in
def edgeView (edge : OwnershipEdge) : (EntityId × EntityId) × Nat :=
  ((edge.parentEntityId, edge.childEntityId), edge.ownershipPct)

omit [Platform] in
def idValue (value : Option SqlValue) : EntityId :=
  (value.bind SqlValue.uuid?).getD 0

omit [Platform] in
def edgeEntry (values : EdgeColumn → Option SqlValue) : (EntityId × EntityId) × Nat :=
  ((idValue (values .parentEntityId), idValue (values .childEntityId)),
    ((values .ownershipPct).bind SqlValue.numeric?).getD 0)

omit [Platform] in
theorem edgeEntry_of_build {id : EntityId} {values : EdgeColumn → Option SqlValue} {edge : OwnershipEdge}
    (built : OwnershipEdge.build id values = .ok edge) : edgeView edge = edgeEntry values := by
  obtain ⟨_, parent, child, pct, _⟩ := OwnershipEdge.build_ok built
  rw [required_ok] at parent child pct
  simp [edgeView, edgeEntry, idValue, parent, child, pct]

omit [Platform] in
/-- The edges of a table by the ids of their two ends. -/
def edgeKeyed : KeyedView edgeSchema edgeConflict (EntityId × EntityId) Nat where
  view := edgeView
  entryOf := edgeEntry
  proper values := ∃ row, values = assigned (edgeObject row)
  unique := by simp [edgeSchema, repositoryUpsert]
  agree_of_key record other same := by
    simp only [edgeView, Prod.mk.injEq] at same
    simp [agree, repositoryUpsert, edgeSchema, OwnershipEdge.read, same]
  agree_iff record values proper := by
    obtain ⟨row, rfl⟩ := proper
    have parent : assigned (edgeObject row) .parentEntityId = some (.uuid row.parentEntityId) := rfl
    have child : assigned (edgeObject row) .childEntityId = some (.uuid row.childEntityId) := rfl
    simp [agree, repositoryUpsert, edgeSchema, OwnershipEdge.read, edgeView, edgeEntry, idValue, SqlValue.uuid?,
      parent, child]
  view_updated record values updated proper key built := by
    obtain ⟨row, rfl⟩ := proper
    exact (edgeEntry_of_build built).trans (Prod.ext key rfl)
  view_inserted newId values inserted _ built := edgeEntry_of_build built

omit [Platform] in
def edgeMap (db : Database) : InsertionMap (EntityId × EntityId) Nat :=
  edgeKeyed.toMap db.ownershipEdges

omit [Platform] in
def EdgeRow.entry (row : EdgeRow) : (EntityId × EntityId) × Nat :=
  edgeEntry (assigned (edgeObject row))

theorem upsertEdgeRecords_upserted {chunkSize : Nat} {records : List EdgeRow} {before after : Database}
    (positive : 0 < chunkSize) (written : upsertEdgeRecords chunkSize records before = .ok after) :
    UpsertedAll Platform.newId edgeConflict before.ownershipEdges (records.map fun row => assigned (edgeObject row))
      after.ownershipEdges := by
  have statements := foldlM_upsert_ok Platform.newId edgeConflict
    (fun db : Database => db.ownershipEdges) (fun batch => batch.map fun row => assigned (edgeObject row))
    (fun state batch next upserted => by
      have effect := (Database.upsertOwnershipEdges_ok upserted).1
      rwa [List.map_map] at effect) written
  rwa [← List.map_flatMap, List.flatMap_id', chunk_flatten records positive] at statements

omit [Platform] in
theorem edgeRows_proper {records : List EdgeRow} :
    ∀ values ∈ records.map (fun row => assigned (edgeObject row)), edgeKeyed.proper values := by
  intro values member
  obtain ⟨row, _, rfl⟩ := List.mem_map.mp member
  exact ⟨row, rfl⟩

theorem upsertEdgeRecords_ok {chunkSize : Nat} {records : List EdgeRow} {before after : Database}
    (positive : 0 < chunkSize) (written : upsertEdgeRecords chunkSize records before = .ok after) :
    edgeMap after = (edgeMap before).setAll (records.map EdgeRow.entry) ∧ after.entities = before.entities := by
  have entries := edgeKeyed.toMap_upsertedAll edgeRows_proper (upsertEdgeRecords_upserted positive written)
  rw [List.map_map] at entries
  exact ⟨InsertionMap.ext entries, foldlM_preserves Database.entities
    (fun _ _ _ upserted => (Database.upsertOwnershipEdges_ok upserted).2) written⟩

theorem upsertFilingRecords_ok {chunkSize : Nat} {records : List FilingRow} {before after : Database}
    (written : upsertFilingRecords chunkSize records before = .ok after) :
    after.entities = before.entities ∧ after.ownershipEdges = before.ownershipEdges :=
  ⟨foldlM_preserves Database.entities (fun _ _ _ upserted => (Database.upsertFilings_ok upserted).1) written,
    foldlM_preserves Database.ownershipEdges (fun _ _ _ upserted => (Database.upsertFilings_ok upserted).2) written⟩

/-- What a committed upload has done to entities and edges.  `registered` is the
database after the first pass. -/
structure Written (upload : ValidatedUpload) (before registered after : Database) : Prop where
  rows : Registered upload.entityRows before.entities registered.entities
  entities : after.entities.records =
    registered.entities.records.map (rewire (fqUpdates upload.entityRows (idByName registered upload)))
  edges : edgeMap after = (edgeMap before).setAll
    ((edgeRecords upload.ownershipRows (idByName registered upload)).map EdgeRow.entry)

section Transaction

variable {chunkSize : Nat} {upload : ValidatedUpload} {before registered wired owned after : Database}
  {result : UploadBatchResult}

theorem processUploadTransaction_passes
    (committed : processUploadTransaction chunkSize upload before = .ok (after, result)) : ∃ registered wired owned,
      upsertEntityRows chunkSize upload.entityRows before = .ok registered ∧
      wireDomesticEntities (fqUpdates upload.entityRows (idByName registered upload)) registered = .ok wired ∧
      upsertEdgeRecords chunkSize (edgeRecords upload.ownershipRows (idByName registered upload)) wired = .ok owned ∧
      upsertFilingRecords chunkSize (filingRecords upload.filingRows (idByName registered upload)) owned = .ok after := by
  obtain ⟨registered, first, passes⟩ := bind_eq_ok.mp committed
  obtain ⟨wired, second, passes⟩ := bind_eq_ok.mp passes
  obtain ⟨owned, third, passes⟩ := bind_eq_ok.mp passes
  obtain ⟨filed, fourth, passes⟩ := bind_eq_ok.mp passes
  cases passes
  exact ⟨registered, wired, owned, first, second, third, fourth⟩

theorem Written.of_passes (positive : 0 < chunkSize)
    (first : upsertEntityRows chunkSize upload.entityRows before = .ok registered)
    (second : wireDomesticEntities (fqUpdates upload.entityRows (idByName registered upload)) registered = .ok wired)
    (third : upsertEdgeRecords chunkSize (edgeRecords upload.ownershipRows (idByName registered upload)) wired = .ok owned)
    (fourth : upsertFilingRecords chunkSize (filingRecords upload.filingRows (idByName registered upload)) owned =
      .ok after) : Written upload before registered after := by
  obtain ⟨rows, edges⟩ := upsertEntityRows_ok positive first
  obtain ⟨rewired, wiredEdges⟩ := wireDomesticEntities_ok second
  obtain ⟨entries, ownedEntities⟩ := upsertEdgeRecords_ok positive third
  obtain ⟨filedEntities, filedEdges⟩ := upsertFilingRecords_ok fourth
  refine ⟨rows, by rw [filedEntities, ownedEntities, rewired], ?_⟩
  have same : edgeMap wired = edgeMap before := by rw [edgeMap, wiredEdges, edges, edgeMap]
  rw [edgeMap, filedEdges, ← edgeMap, entries, same]

theorem processUploadTransaction_ok (positive : 0 < chunkSize)
    (committed : processUploadTransaction chunkSize upload before = .ok (after, result)) :
    ∃ registered, Written upload before registered after := by
  obtain ⟨registered, _, _, first, second, third, fourth⟩ := processUploadTransaction_passes committed
  exact ⟨registered, .of_passes positive first second third fourth⟩

end Transaction

section Names

variable {db before registered after : Database} {upload : ValidatedUpload} {record other : EntityRecord}

omit [Platform] in
theorem nameOf_eq (member : record ∈ db.entities.records) : nameOf db record.id = record.entityName := by
  cases found : db.entities.records.find? (·.id = record.id) with
  | none =>
      have absent := List.find?_eq_none.mp found record member
      simp at absent
  | some first =>
      have same : first.id = record.id := by simpa using List.find?_some found
      have unique := Table.eq_of_id (List.mem_of_find?_eq_some found) member same
      simp [nameOf, found, unique]

theorem normalizeName_nameOf (normalized : NamesNormalized db) (member : record ∈ db.entities.records) :
    normalizeName (nameOf db record.id) = record.entityNameKey := by
  rw [nameOf_eq member, normalized record member]

theorem get?_idByName (normalized : NamesNormalized db) {key : String} {id : EntityId} :
    (idByName db upload).get? key = some id ↔
      key ∈ referencedNames upload ∧ ∃ record ∈ db.entities.records, record.entityNameKey = key ∧ record.id = id := by
  have relevant : (if referencedNames upload = [] then [] else db.entitiesByKey (referencedNames upload)) =
      db.entitiesByKey (referencedNames upload) := by
    split
    · rename_i empty
      simp [Database.entitiesByKey, empty]
    · rfl
  have keys : ((db.entitiesByKey (referencedNames upload)).map fun record => (normalizeName record.entityName, record.id)) =
      (db.entitiesByKey (referencedNames upload)).map fun record => (record.entityNameKey, record.id) :=
    List.map_congr_left fun record member => by rw [normalized record (List.mem_filter.mp member).1]
  have distinct : (((db.entitiesByKey (referencedNames upload)).map fun record =>
      (record.entityNameKey, record.id)).map Prod.fst).Nodup := by
    rw [List.map_map]
    exact List.Nodup.sublist (List.filter_sublist.map EntityRecord.entityNameKey) (entityKeys_nodup db.entities)
  rw [idByName]
  simp only [relevant, keys]
  rw [InsertionMap.get?_ofPairs distinct, List.mem_map]
  simp only [Database.entitiesByKey, List.mem_filter, List.contains_iff_mem, Prod.mk.injEq]
  constructor
  · intro selected
    obtain ⟨record, ⟨member, listed⟩, rfl, rfl⟩ := selected
    exact ⟨listed, record, member, rfl, rfl⟩
  · intro named
    obtain ⟨listed, record, member, rfl, rfl⟩ := named
    exact ⟨record, ⟨member, listed⟩, rfl, rfl⟩

omit [Platform] in
@[simp] theorem rewire_id (updates : List (String × Option EntityId)) (record : EntityRecord) :
    (rewire updates record).id = record.id := by
  unfold rewire; split <;> rfl

omit [Platform] in
@[simp] theorem rewire_entityName (updates : List (String × Option EntityId)) (record : EntityRecord) :
    (rewire updates record).entityName = record.entityName := by
  unfold rewire; split <;> rfl

omit [Platform] in
@[simp] theorem rewire_entityNameKey (updates : List (String × Option EntityId)) (record : EntityRecord) :
    (rewire updates record).entityNameKey = record.entityNameKey := by
  unfold rewire; split <;> rfl

omit [Platform] in
@[simp] theorem rewire_registrationType (updates : List (String × Option EntityId)) (record : EntityRecord) :
    (rewire updates record).registrationType = record.registrationType := by
  unfold rewire; split <;> rfl

theorem Written.committed (written : Written upload before registered after)
    (member : record ∈ registered.entities.records) : ∃ new ∈ after.entities.records,
      new.id = record.id ∧ new.entityName = record.entityName ∧ new.entityNameKey = record.entityNameKey ∧
        new.registrationType = record.registrationType := by
  refine ⟨rewire _ record, written.entities ▸ List.mem_map_of_mem member, ?_⟩
  simp

theorem Written.namesNormalized_registered (written : Written upload before registered after)
    (normalized : NamesNormalized before) : NamesNormalized registered :=
  written.rows.namesNormalized normalized

theorem Written.namesNormalized (written : Written upload before registered after)
    (normalized : NamesNormalized before) : NamesNormalized after := by
  intro record member
  rw [written.entities] at member
  obtain ⟨old, inside, rfl⟩ := List.mem_map.mp member
  simpa using written.namesNormalized_registered normalized old inside

theorem Written.nameOf_kept (written : Written upload before registered after) (normalized : NamesNormalized before)
    {id : EntityId} (exists_ : id ∈ before.entities.ids) :
    normalizeName (nameOf after id) = normalizeName (nameOf before id) := by
  obtain ⟨old, member, rfl⟩ := List.mem_map.mp exists_
  obtain ⟨middle, inside, same⟩ := written.rows.kept old member
  obtain ⟨new, final, id, _, key, _⟩ := written.committed inside
  have newId : new.id = old.id := id.trans same.id
  calc normalizeName (nameOf after old.id)
      = normalizeName (nameOf after new.id) := by rw [newId]
    _ = old.entityNameKey := by
        rw [normalizeName_nameOf (written.namesNormalized normalized) final, key, same.key]
    _ = normalizeName (nameOf before old.id) := (normalizeName_nameOf normalized member).symm

theorem referencedNames_ends {row : ParsedOwnershipRow} (member : row ∈ upload.ownershipRows) :
    normalizeName row.parentEntity ∈ referencedNames upload ∧ normalizeName row.childEntity ∈ referencedNames upload := by
  have inside : ∀ name ∈ [normalizeName row.parentEntity, normalizeName row.childEntity],
      name ∈ referencedNames upload := fun name listed =>
    List.mem_append_left _ (List.mem_append_right _ (List.mem_flatMap.mpr ⟨row, member, listed⟩))
  exact ⟨inside _ (by simp), inside _ (by simp)⟩

theorem Written.writtenBy (written : Written upload before registered after) (consistent : ConsistentUpload upload)
    {row : ParsedEntityRow} (listed : row ∈ upload.entityRows) (member : record ∈ registered.entities.records)
    (key : record.entityNameKey = normalizeName row.entityName) : WrittenBy row record := by
  rcases written.rows.written record member with ⟨other, otherListed, otherKey, by_⟩ | ⟨_, others⟩
  · rwa [List.inj_on_of_nodup_map consistent.entities.names listed otherListed (key.symm.trans otherKey)]
  · exact absurd key.symm (others row listed)

/-- `id` is the entity, not an FQ, that is registered under a name. -/
def EntityNamed (db : Database) (name : String) (id : EntityId) : Prop :=
  ∃ record ∈ db.entities.records, record.id = id ∧ record.entityNameKey = normalizeName name ∧
    record.registrationType = .entity

omit [Platform] in
theorem registrationType_entity {type : RegistrationType}
    (decoded : SqlValue.registrationType? (.text "Entity") = some type) : type = .entity := by
  simpa [SqlValue.registrationType?] using decoded.symm

omit [Platform] in
theorem registrationType_fq {type : RegistrationType}
    (decoded : SqlValue.registrationType? (.text "FQ") = some type) : type = .fq := by
  simpa [SqlValue.registrationType?] using decoded.symm

theorem Written.resolve (written : Written upload before registered after) (normalized : NamesNormalized before)
    (consistent : ConsistentUpload upload) {name : String} (referenced : normalizeName name ∈ referencedNames upload)
    {row : ParsedEntityRow} (listed : row ∈ upload.entityRows) (same : normalizeName row.entityName = normalizeName name)
    (entity : row.registrationType = "Entity") :
    ∃ id, (idByName registered upload).get? (normalizeName name) = some id ∧ EntityNamed after name id := by
  obtain ⟨record, member, key⟩ := written.rows.present row listed
  have by_ := written.writtenBy consistent listed member key
  obtain ⟨new, final, id, _, newKey, type⟩ := written.committed member
  refine ⟨record.id, (get?_idByName (written.namesNormalized_registered normalized)).mpr
    ⟨referenced, record, member, key.trans same, rfl⟩, new, final, id, newKey.trans (key.trans same), ?_⟩
  rw [type]
  exact registrationType_entity (entity ▸ by_.registrationType)

theorem EntityNamed.nameOf {name : String} {id : EntityId} (named : EntityNamed db name id)
    (normalized : NamesNormalized db) :
    id ∈ db.entities.ids ∧ normalizeName (nameOf db id) = normalizeName name := by
  obtain ⟨record, member, rfl, key, _⟩ := named
  exact ⟨List.mem_map_of_mem member, (normalizeName_nameOf normalized member).trans key⟩

end Names

section Merge

variable {before registered after db : Database} {upload : ValidatedUpload}

/-- The keys of all stored edges can be read back. -/
def EdgesReadable (db : Database) : Prop :=
  ∀ edge ∈ db.ownershipEdges.records, KeySafe (nameOf db edge.parentEntityId) (nameOf db edge.childEntityId)

def storedEdgeKey (db : Database) (ends : EntityId × EntityId) : String :=
  edgeKey (nameOf db ends.1) (nameOf db ends.2)

/-- The stored edges as the graph check starts from them. -/
def storedGraph (db : Database) : InsertionMap String Nat :=
  .ofPairs ((loadExistingEdges db).map ExistingEdge.entry)

theorem existing_entries (db : Database) : (loadExistingEdges db).map ExistingEdge.entry =
    (edgeMap db).entries.map fun entry => (storedEdgeKey db entry.1, entry.2) := by
  rw [loadExistingEdges, edgeMap, KeyedView.toMap, List.map_map, List.map_map]
  rfl

theorem id_of_name (normalized : NamesNormalized db) {id other : EntityId} (exists_ : id ∈ db.entities.ids)
    (otherExists : other ∈ db.entities.ids) (same : normalizeName (nameOf db id) = normalizeName (nameOf db other)) :
    id = other := by
  obtain ⟨record, member, rfl⟩ := List.mem_map.mp exists_
  obtain ⟨otherRecord, otherMember, rfl⟩ := List.mem_map.mp otherExists
  change normalizeName (nameOf db record.id) = normalizeName (nameOf db otherRecord.id) at same
  rw [normalizeName_nameOf normalized member, normalizeName_nameOf normalized otherMember] at same
  rw [eq_of_entityKey member otherMember same]

theorem storedEdgeKey_inj (normalized : NamesNormalized db) {ends other : EntityId × EntityId}
    (endsExist : ends.1 ∈ db.entities.ids ∧ ends.2 ∈ db.entities.ids)
    (otherExist : other.1 ∈ db.entities.ids ∧ other.2 ∈ db.entities.ids)
    (safe : KeySafe (nameOf db ends.1) (nameOf db ends.2)) (otherSafe : KeySafe (nameOf db other.1) (nameOf db other.2))
    (same : storedEdgeKey db ends = storedEdgeKey db other) : ends = other := by
  obtain ⟨parent, child⟩ := safe.inj otherSafe same
  exact Prod.ext (id_of_name normalized endsExist.1 otherExist.1 parent)
    (id_of_name normalized endsExist.2 otherExist.2 child)

omit [Platform] in
theorem mem_edgeMap {entry : (EntityId × EntityId) × Nat} (member : entry ∈ (edgeMap db).entries) :
    ∃ edge ∈ db.ownershipEdges.records, entry = ((edge.parentEntityId, edge.childEntityId), edge.ownershipPct) := by
  obtain ⟨edge, inside, rfl⟩ := List.mem_map.mp member
  exact ⟨edge, inside, rfl⟩

theorem existing_distinct (normalized : NamesNormalized db) (readable : EdgesReadable db) :
    (((loadExistingEdges db).map ExistingEdge.entry).map Prod.fst).Nodup := by
  rw [existing_entries, List.map_map]
  refine List.pairwise_map.mpr ((List.pairwise_map.mp (edgeMap db).distinct).imp_of_mem ?_)
  intro entry other member otherMember different same
  obtain ⟨edge, inside, rfl⟩ := mem_edgeMap member
  obtain ⟨otherEdge, otherInside, rfl⟩ := mem_edgeMap otherMember
  exact different (storedEdgeKey_inj normalized (db.references.edges edge inside)
    (db.references.edges otherEdge otherInside) (readable edge inside) (readable otherEdge otherInside) same)

theorem storedGraph_entries (normalized : NamesNormalized db) (readable : EdgesReadable db) :
    (storedGraph db).entries = (edgeMap db).entries.map fun entry => (storedEdgeKey db entry.1, entry.2) := by
  rw [storedGraph, InsertionMap.ofPairs_entries (existing_distinct normalized readable), existing_entries]

/-- An edge record holds what an ownership row says about the entities it names. -/
structure Resolves (db : Database) (row : ParsedOwnershipRow) (record : EdgeRow) : Prop where
  pct : record.ownershipPct = toFixed2 row.ownershipPct
  parent : EntityNamed db row.parentEntity record.parentEntityId
  child : EntityNamed db row.childEntity record.childEntityId

/-- No row of an accepted upload is dropped on the way to the table. -/
theorem Written.edgeRecords_resolve (written : Written upload before registered after)
    (normalized : NamesNormalized before) (consistent : ConsistentUpload upload) :
    List.Forall₂ (Resolves after) upload.ownershipRows
      (edgeRecords upload.ownershipRows (idByName registered upload)) := by
  have each : ∀ row ∈ upload.ownershipRows, ∃ parent child,
      (idByName registered upload).get? (normalizeName row.parentEntity) = some parent ∧
      (idByName registered upload).get? (normalizeName row.childEntity) = some child ∧
      EntityNamed after row.parentEntity parent ∧ EntityNamed after row.childEntity child := by
    intro row member
    obtain ⟨parentNamed, childNamed⟩ := consistent.ends row member
    obtain ⟨parentListed, childListed⟩ := referencedNames_ends member
    obtain ⟨parentRow, inside, same, entity⟩ := parentNamed.row consistent.entities
    obtain ⟨parent, parentFound, parentOk⟩ :=
      written.resolve normalized consistent parentListed inside same entity
    obtain ⟨childRow, inside, same, entity⟩ := childNamed.row consistent.entities
    obtain ⟨child, childFound, childOk⟩ := written.resolve normalized consistent childListed inside same entity
    exact ⟨parent, child, parentFound, childFound, parentOk, childOk⟩
  generalize upload.ownershipRows = rows at each
  unfold edgeRecords
  induction rows with
  | nil => exact .nil
  | cons row rows induction =>
      obtain ⟨parent, child, parentFound, childFound, parentOk, childOk⟩ := each row (by simp)
      simp only [List.filterMap_cons, parentFound, childFound, bind, Option.bind, pure]
      exact .cons ⟨rfl, parentOk, childOk⟩ (induction fun other member => each other (List.mem_cons_of_mem _ member))

structure ReadableEnds (db : Database) (ends : EntityId × EntityId) : Prop where
  parent : ends.1 ∈ db.entities.ids
  child : ends.2 ∈ db.entities.ids
  safe : KeySafe (nameOf db ends.1) (nameOf db ends.2)

theorem Resolves.entry {row : ParsedOwnershipRow} {record : EdgeRow} (same : Resolves db row record) :
    record.entry = ((record.parentEntityId, record.childEntityId), row.ownershipPct) := by
  have value : record.entry.2 = ((some (SqlValue.text record.ownershipPct)).bind SqlValue.numeric?).getD 0 := rfl
  refine Prod.ext rfl (value.trans ?_)
  simp [SqlValue.numeric?, same.pct, parsePct_toFixed2]

theorem storedGraph_eq (db : Database) : storedGraph db = (edgeMap db).rename (storedEdgeKey db) := by
  rw [storedGraph, existing_entries, InsertionMap.rename]

theorem resolves_of_mem {rows : List ParsedOwnershipRow} {records : List EdgeRow}
    (matching : List.Forall₂ (Resolves db) rows records) {record : EdgeRow} (member : record ∈ records) :
    ∃ row ∈ rows, Resolves db row record := by
  induction matching with
  | nil => cases member
  | @cons row first rows records resolves _ induction =>
      rcases List.mem_cons.mp member with rfl | inside
      · exact ⟨row, by simp, resolves⟩
      · obtain ⟨row, listed, resolves⟩ := induction inside
        exact ⟨row, List.mem_cons_of_mem _ listed, resolves⟩

/-- The edge records by the names of their ends are the rows. -/
theorem Written.edgeRecords_entries (written : Written upload before registered after) (normalized : NamesNormalized before)
    (consistent : ConsistentUpload upload) {κ : Type} (names : EntityId × EntityId → κ) (key : ParsedOwnershipRow → κ)
    (same : ∀ row record, Resolves after row record → names (record.parentEntityId, record.childEntityId) = key row) :
    ((edgeRecords upload.ownershipRows (idByName registered upload)).map EdgeRow.entry).map
      (fun entry => (names entry.1, entry.2)) = upload.ownershipRows.map fun row => (key row, row.ownershipPct) := by
  rw [List.map_map]
  refine Eq.symm ?_
  rw [← List.forall₂_eq_eq_eq, List.forall₂_map_left_iff, List.forall₂_map_right_iff]
  refine (written.edgeRecords_resolve normalized consistent).imp fun row record resolves => ?_
  rw [Function.comp_apply, resolves.entry, same row record resolves]

theorem Written.ids_kept (written : Written upload before registered after) {id : EntityId}
    (known : id ∈ before.entities.ids) : id ∈ after.entities.ids := by
  obtain ⟨old, member, rfl⟩ := List.mem_map.mp known
  obtain ⟨middle, inside, same⟩ := written.rows.kept old member
  obtain ⟨new, final, newId, _⟩ := written.committed inside
  exact List.mem_map.mpr ⟨new, final, newId.trans same.id⟩

omit [Platform] in
theorem edgeMap_known {ends : EntityId × EntityId} (member : ends ∈ (edgeMap db).keys) :
    ∃ edge ∈ db.ownershipEdges.records, ends = (edge.parentEntityId, edge.childEntityId) ∧
      ends.1 ∈ db.entities.ids ∧ ends.2 ∈ db.entities.ids := by
  obtain ⟨entry, inside, rfl⟩ := List.mem_map.mp member
  obtain ⟨edge, stored, rfl⟩ := mem_edgeMap inside
  exact ⟨edge, stored, rfl, db.references.edges edge stored⟩

/-- The edges stored by a commit are the edges that the graph check has merged. -/
theorem Written.storedGraph (written : Written upload before registered after) (normalized : NamesNormalized before)
    (consistent : ConsistentUpload upload) (readable : EdgesReadable before)
    (safe : ∀ row ∈ upload.ownershipRows, KeySafe row.parentEntity row.childEntity) :
    EdgesReadable after ∧ storedGraph after = mergedEdges upload.ownershipRows (loadExistingEdges before) := by
  have names := written.namesNormalized normalized
  have old : ∀ ends ∈ (edgeMap before).keys, ReadableEnds after ends := by
    intro ends member
    obtain ⟨edge, inside, rfl, parent, child⟩ := edgeMap_known member
    exact ⟨written.ids_kept parent, written.ids_kept child, (readable edge inside).congr
      (written.nameOf_kept normalized parent).symm (written.nameOf_kept normalized child).symm⟩
  have new : ∀ pair ∈ (edgeRecords upload.ownershipRows (idByName registered upload)).map EdgeRow.entry,
      ReadableEnds after pair.1 := by
    intro pair member
    obtain ⟨record, inside, rfl⟩ := List.mem_map.mp member
    obtain ⟨row, listed, resolves⟩ := resolves_of_mem (written.edgeRecords_resolve normalized consistent) inside
    obtain ⟨parentExists, parent⟩ := resolves.parent.nameOf names
    obtain ⟨childExists, child⟩ := resolves.child.nameOf names
    rw [resolves.entry]
    exact ⟨parentExists, childExists, (safe row listed).congr parent.symm child.symm⟩
  have readableAfter : EdgesReadable after := by
    intro edge member
    have key : (edge.parentEntityId, edge.childEntityId) ∈ (edgeMap after).keys :=
      List.mem_map_of_mem (f := Prod.fst) (List.mem_map_of_mem (f := edgeView) member)
    rw [written.edges, InsertionMap.mem_keys_setAll] at key
    rcases key with stored | uploaded
    · exact (old _ stored).safe
    · obtain ⟨pair, listed, same⟩ := List.mem_map.mp uploaded
      exact (same ▸ new pair listed).safe
  have injective : Set.InjOn (storedEdgeKey after) {ends | ReadableEnds after ends} := fun ends known other otherKnown =>
    storedEdgeKey_inj names ⟨known.parent, known.child⟩ ⟨otherKnown.parent, otherKnown.child⟩ known.safe otherKnown.safe
  have kept : (edgeMap before).rename (storedEdgeKey after) = (edgeMap before).rename (storedEdgeKey before) := by
    refine InsertionMap.rename_congr fun ends member => ?_
    obtain ⟨_, _, _, parent, child⟩ := edgeMap_known member
    exact edgeKey_congr (written.nameOf_kept normalized parent) (written.nameOf_kept normalized child)
  have named := written.edgeRecords_entries normalized consistent (storedEdgeKey after)
    (fun row => edgeKey row.parentEntity row.childEntity) fun row record resolves =>
      edgeKey_congr (resolves.parent.nameOf names).2 (resolves.child.nameOf names).2
  refine ⟨readableAfter, ?_⟩
  rw [storedGraph_eq, written.edges, InsertionMap.rename_setAll injective old new, kept, named, ← storedGraph_eq]
  rfl

end Merge

end Coverpin.Upload
