import Coverpin.Upload.OwnershipInvariant
import Coverpin.Upload.StoredValues
import Coverpin.Validation.AcceptedRows

namespace Coverpin.Upload

open Coverpin.Data Coverpin.Database Coverpin.Validation Coverpin.Validation.Entities
  Coverpin.Validation.Filings Coverpin.Validation.Ownership

/-! # An accepted upload breaks no constraint

The first three passes of the write go through from every database in which
every name is stored next to its normalized form.  Within a pass this rests on
the rows that are still to be written: none of them shares a key, a business id
or a pair of ends with a record of another key.
-/

variable [Platform]

section Values

omit [Platform]

theorem required_oneOf_exists {allowed : List String} {value : String} (member : value ∈ allowed) :
    ∃ text, required (some (.text value)) (SqlValue.oneOf? allowed) = .ok text :=
  ⟨⟨value, member⟩, by simp [required, SqlValue.oneOf?, member]⟩

theorem required_registrationType_exists {type : String} (member : type ∈ REGISTRATION_TYPES) :
    ∃ read, required (some (.text type)) SqlValue.registrationType? = .ok read := by
  simp only [REGISTRATION_TYPES, List.mem_cons, List.not_mem_nil, or_false] at member
  rcases member with same | same
  · exact ⟨.entity, by rw [same]; rfl⟩
  · exact ⟨.fq, by rw [same]; rfl⟩

theorem required_date_exists {date : Date} (readsBack : ReadsBack date) :
    ∃ text, required (some (.text (toDateOnlyString date))) SqlValue.date? = .ok text := by
  have valid : (parseDate (toDateOnlyString date)).map toDateOnlyString = some (toDateOnlyString date) := by
    rw [show parseDate (toDateOnlyString date) = some date from readsBack, Option.map_some]
  exact ⟨⟨toDateOnlyString date, valid⟩, by simp [required, SqlValue.date?, valid]⟩

theorem optional_exists {α β : Type} {encode : α → SqlValue} {decode : SqlValue → Option β} {value : Option α}
    (each : ∀ a ∈ value, ∃ read, required (some (encode a)) decode = .ok read) :
    ∃ read, optional (value.map encode) decode = .ok read := by
  cases value with
  | none => exact ⟨none, rfl⟩
  | some a =>
      obtain ⟨read, decoded⟩ := each a rfl
      exact ⟨some read, by simp only [Option.map_some, Database.optional, decoded, Except.map]⟩

theorem EntityRecord.build_exists {id : EntityId} {values : EntityColumn → Option SqlValue}
    (name : ∃ read, required (values .entityName) SqlValue.text? = .ok read)
    (key : ∃ read, required (values .entityNameKey) SqlValue.text? = .ok read)
    (type : ∃ read, required (values .registrationType) SqlValue.registrationType? = .ok read)
    (jurisdiction : ∃ read, required (values .jurisdiction) SqlValue.text? = .ok read)
    (kind : ∃ read, required (values .entityType) (SqlValue.oneOf? ENTITY_TYPES) = .ok read)
    (status : ∃ read, required (values .entityStatus) (SqlValue.oneOf? ENTITY_STATUSES) = .ok read)
    (since : ∃ read, optional (values .statusDate) SqlValue.date? = .ok read)
    (domestic : ∃ read, optional (values .domesticEntityId) SqlValue.uuid? = .ok read)
    (formed : ∃ read, optional (values .formationDate) SqlValue.date? = .ok read)
    (business : ∃ read, optional (values .businessId) SqlValue.text? = .ok read)
    (region : ∃ read, optional (values .globalRegion) (SqlValue.oneOf? GLOBAL_REGIONS) = .ok read) :
    ∃ record, EntityRecord.build id values = .ok record := by
  obtain ⟨_, name⟩ := name
  obtain ⟨_, key⟩ := key
  obtain ⟨_, type⟩ := type
  obtain ⟨_, jurisdiction⟩ := jurisdiction
  obtain ⟨_, kind⟩ := kind
  obtain ⟨_, status⟩ := status
  obtain ⟨_, since⟩ := since
  obtain ⟨_, domestic⟩ := domestic
  obtain ⟨_, formed⟩ := formed
  obtain ⟨_, business⟩ := business
  obtain ⟨_, region⟩ := region
  simp only [EntityRecord.build, name, key, type, jurisdiction, kind, status, since, domestic, formed, business, region,
    bind, Except.bind, pure, Except.pure]
  exact ⟨_, rfl⟩

end Values

/-- The columns of a row build a record over any key and any domestic entity. -/
theorem entity_build_exists {row : ParsedEntityRow} (storable : Entities.StorableRow row) (id : EntityId)
    (domestic : Option EntityId) {values : EntityColumn → Option SqlValue} {key : String}
    (keyValue : values .entityNameKey = some (.text key)) (domesticValue : values .domesticEntityId = domestic.map .uuid)
    (written : ∀ column ∈ entityConflict.updates, values column = assigned (entityObject row) column) :
    ∃ record, EntityRecord.build id values = .ok record := by
  apply EntityRecord.build_exists
  · rw [written .entityName (by decide)]
    exact ⟨_, rfl⟩
  · rw [keyValue]
    exact ⟨_, rfl⟩
  · rw [written .registrationType (by decide)]
    exact required_registrationType_exists storable.registrationType
  · rw [written .jurisdiction (by decide)]
    exact ⟨_, rfl⟩
  · rw [written .entityType (by decide)]
    exact required_oneOf_exists storable.entityType
  · rw [written .entityStatus (by decide)]
    exact required_oneOf_exists storable.entityStatus
  · rw [written .statusDate (by decide)]
    exact optional_exists fun date member => required_date_exists (storable.statusDate date member)
  · rw [domesticValue, optional_uuid]
    exact ⟨_, rfl⟩
  · rw [written .formationDate (by decide)]
    exact optional_exists fun date member => required_date_exists (storable.formationDate date member)
  · rw [written .businessId (by decide)]
    exact optional_exists fun businessId _ => ⟨businessId, rfl⟩
  · rw [written .globalRegion (by decide)]
    exact optional_exists fun region member => required_oneOf_exists (storable.globalRegion region member)

/-- What the rows still to be written can rely on in the table they meet. -/
structure EntityRowsFit (table : Table entitySchema) (rows : List ParsedEntityRow) : Prop where
  normalized : ∀ record ∈ table.records, record.entityNameKey = normalizeName record.entityName
  storable : ∀ row ∈ rows, Entities.StorableRow row
  names : (rows.map fun row => normalizeName row.entityName).Nodup
  businessIds : (rows.filterMap ParsedEntityRow.businessId).Nodup
  owners : ∀ row ∈ rows, ∀ businessId ∈ row.businessId, ∀ record ∈ table.records,
    record.businessId = some businessId → record.entityNameKey = normalizeName row.entityName

/-- The columns of the unique constraints hold what the row says. -/
structure Keyed (row : ParsedEntityRow) (record : EntityRecord) : Prop where
  entityName : record.entityName = row.entityName
  entityNameKey : record.entityNameKey = normalizeName row.entityName
  businessId : record.businessId = row.businessId

theorem keyed_of_build {row : ParsedEntityRow} {id : EntityId} {values : EntityColumn → Option SqlValue}
    {record : EntityRecord} (built : EntityRecord.build id values = .ok record)
    (key : values .entityNameKey = some (.text (normalizeName row.entityName)))
    (written : ∀ column ∈ entityConflict.updates, values column = assigned (entityObject row) column) : Keyed row record := by
  have read := EntityRecord.read_of_build built
  have name := (congrFun read .entityName).trans (written .entityName (by decide))
  have business := (congrFun read .businessId).trans (written .businessId (by decide))
  constructor
  · exact SqlValue.text.inj (Option.some.inj name)
  · exact SqlValue.text.inj (Option.some.inj ((congrFun read .entityNameKey).trans key))
  · exact Option.map_injective (fun _ _ same => SqlValue.text.inj same) business

variable {table next : Table entitySchema} {row : ParsedEntityRow} {rows : List ParsedEntityRow}

/-- A record that agrees with a written one on a unique constraint has its key. -/
theorem EntityRowsFit.sameKey (fit : EntityRowsFit table (row :: rows)) {record other : EntityRecord}
    (keyed : Keyed row record) (member : other ∈ table.records) {columns : List EntityColumn}
    (constraint : columns ∈ entitySchema.uniques)
    (agrees : agree columns (entitySchema.read other) (entitySchema.read record) = true) :
    other.entityNameKey = normalizeName row.entityName := by
  have values := agree_eq_true.mp agrees
  simp only [entitySchema, List.mem_cons, List.not_mem_nil, or_false] at constraint
  rcases constraint with rfl | rfl | rfl
  · obtain ⟨_, same⟩ := values .entityName (by simp)
    have name : other.entityName = record.entityName := SqlValue.text.inj (Option.some.inj same)
    rw [fit.normalized other member, name, keyed.entityName]
  · obtain ⟨_, same⟩ := values .entityNameKey (by simp)
    exact (SqlValue.text.inj (Option.some.inj same)).trans keyed.entityNameKey
  · obtain ⟨present, same⟩ := values .businessId (by simp)
    have equal : other.businessId = record.businessId := Option.map_injective (fun _ _ same => SqlValue.text.inj same) same
    cases owned : other.businessId with
    | none => simp [entitySchema, EntityRecord.read, owned] at present
    | some businessId =>
        have rowId : row.businessId = some businessId := by rw [← keyed.businessId, ← equal, owned]
        exact fit.owners row (by simp) businessId rowId other member owned

theorem EntityRowsFit.writable (fit : EntityRowsFit table (row :: rows)) :
    entityKeyed.Writable Platform.newId table (assigned (entityObject row)) where
  proper := ⟨row, rfl⟩
  update record member key := by
    have storedKey : record.entityNameKey = normalizeName row.entityName := by
      simpa [entityKeyed, entityEntry_read, entityEntry_row] using key
    have target : overlay entityConflict.updates (assigned (entityObject row)) (entitySchema.read record) .entityNameKey =
        some (.text record.entityNameKey) := rfl
    have written : ∀ column ∈ entityConflict.updates,
        overlay entityConflict.updates (assigned (entityObject row)) (entitySchema.read record) column =
          assigned (entityObject row) column := fun column inside => if_pos inside
    obtain ⟨updated, built⟩ := entity_build_exists (fit.storable row (by simp)) record.id record.domesticEntityId
      target rfl written
    have keyed := keyed_of_build built (storedKey ▸ target) written
    refine ⟨updated, built, fun other inside different columns constraint agrees => different ?_⟩
    have same := fit.sameKey keyed inside constraint agrees
    rw [eq_of_entityKey inside member (same.trans storedKey.symm)]
    exact (entitySchema.id_build built).symm
  insert absent := by
    have target : assigned (entityObject row) .entityNameKey = some (.text (normalizeName row.entityName)) := rfl
    obtain ⟨inserted, built⟩ := entity_build_exists (fit.storable row (by simp)) (Platform.newId table.ids) none
      target rfl fun _ _ => rfl
    have keyed := keyed_of_build built target fun _ _ => rfl
    refine ⟨inserted, built, fun other inside _ columns constraint agrees => absent other inside ?_⟩
    have same := fit.sameKey keyed inside constraint agrees
    simpa [entityKeyed, entityEntry_read, entityEntry_row] using same

/-- A record of the next table is an old one, or it is keyed by the row. -/
theorem keyed_of_upserted (written : Upserted Platform.newId entityConflict table (assigned (entityObject row)) next) :
    ∀ record ∈ next.records, record ∈ table.records ∨ Keyed row record := by
  intro record member
  rcases written.record_cases member with earlier | ⟨old, _, agrees, built⟩ | built
  · exact .inl earlier
  · have target : overlay entityConflict.updates (assigned (entityObject row)) (entitySchema.read old) .entityNameKey =
        some (.text old.entityNameKey) := rfl
    rw [agree_entityObject.mp agrees] at target
    exact .inr (keyed_of_build built target fun column listed => if_pos listed)
  · exact .inr (keyed_of_build built rfl fun _ _ => rfl)

theorem EntityRowsFit.kept (fit : EntityRowsFit table (row :: rows))
    (written : Upserted Platform.newId entityConflict table (assigned (entityObject row)) next) : EntityRowsFit next rows where
  normalized record member := by
    rcases keyed_of_upserted written record member with old | keyed
    · exact fit.normalized record old
    · rw [keyed.entityNameKey, keyed.entityName]
  storable other member := fit.storable other (List.mem_cons_of_mem _ member)
  names := (List.nodup_cons.mp fit.names).2
  businessIds := fit.businessIds.sublist ((List.sublist_cons_self row rows).filterMap _)
  owners other member businessId named record inside owned := by
    rcases keyed_of_upserted written record inside with old | keyed
    · exact fit.owners other (List.mem_cons_of_mem _ member) businessId named record old owned
    · have rowId : row.businessId = some businessId := keyed.businessId.symm.trans owned
      have distinct := fit.businessIds
      rw [List.filterMap_cons_some rowId, List.nodup_cons] at distinct
      exact absurd (List.mem_filterMap.mpr ⟨other, member, named⟩) distinct.1

/-- Ids stay, so what refers to entities still refers to one. -/
theorem Registered.references {before : Database} {after : Table entitySchema}
    (registered : Registered rows before.entities after) : References after before.ownershipEdges before.filings := by
  have kept : ∀ id ∈ before.entities.ids, id ∈ after.ids := by
    intro id member
    obtain ⟨old, inside, rfl⟩ := List.mem_map.mp member
    obtain ⟨new, final, same⟩ := registered.kept old inside
    exact List.mem_map.mpr ⟨new, final, same.id⟩
  constructor
  · intro record member id named
    rcases registered.origin record member with ⟨old, inside, same⟩ | ⟨_, none⟩
    · exact kept id (before.references.domestic old inside id (same.domestic ▸ named))
    · rw [none] at named
      cases named
  · intro edge member
    exact ⟨kept _ (before.references.edges edge member).1, kept _ (before.references.edges edge member).2⟩
  · exact fun filing member => kept _ (before.references.filings filing member)

omit [Platform] in
theorem withTables_exists {entities : Table entitySchema} {ownershipEdges : Table edgeSchema} {filings : Table filingSchema}
    (references : References entities ownershipEdges filings) :
    ∃ db, Database.withTables entities ownershipEdges filings = .ok db ∧ db.entities = entities :=
  ⟨_, dif_pos references, rfl⟩

/-- One statement of the first pass; `later` are the rows of the statements after it. -/
theorem upsertEntities_exists {db : Database} {batch later : List ParsedEntityRow}
    (fit : EntityRowsFit db.entities (batch ++ later)) :
    ∃ next, db.upsertEntities entityConflict (batch.map entityObject) = .ok next ∧ EntityRowsFit next.entities later := by
  have keys : (batch.map fun row => (entityKeyed.entryOf (assigned (entityObject row))).1) =
      batch.map fun row => normalizeName row.entityName :=
    List.map_congr_left fun row _ => congrArg Prod.fst (entityEntry_row row)
  have distinct : (batch.map fun row => normalizeName row.entityName).Nodup := by
    have names := fit.names
    rw [List.map_append] at names
    exact names.of_append_left
  obtain ⟨entities, upserted, done⟩ := KeyedView.upsert_map_exists Platform.newId_fresh
    (assigned ∘ entityObject) (fun table rows => EntityRowsFit table (rows ++ later))
    (fun _ _ _ fit => fit.writable) (fun _ _ _ _ fit written => fit.kept written) (keys ▸ distinct) fit
  rw [← List.map_map] at upserted
  have statement := Table.upsert_ok upserted
  rw [List.map_map] at statement
  obtain ⟨next, built, same⟩ := withTables_exists (Registered.of_upsertedAll statement).references
  refine ⟨next, ?_, by rw [same]; exact done⟩
  rw [Database.upsertEntities, upserted]
  exact built

theorem upsertEntityRows_exists {db : Database} {chunkSize : Nat} (positive : 0 < chunkSize)
    (fit : EntityRowsFit db.entities rows) : ∃ registered, upsertEntityRows chunkSize rows db = .ok registered := by
  obtain ⟨registered, folded, _⟩ := foldlM_exists
    (fun (db : Database) batch => db.upsertEntities entityConflict (batch.map entityObject))
    (fun db batches => EntityRowsFit db.entities batches.flatten)
    (fun _ _ _ held => upsertEntities_exists held) db
    (by rw [chunk_flatten rows positive]; exact fit)
  exact ⟨registered, folded⟩

omit [Platform] in
theorem rewire_domestic {updates : List (String × Option EntityId)} {record : EntityRecord} {id : EntityId}
    (named : (rewire updates record).domesticEntityId = some id) :
    record.domesticEntityId = some id ∨ ∃ update ∈ updates, update.2 = some id := by
  unfold rewire at named
  split at named
  · exact .inl named
  · rename_i update found
    exact .inr ⟨update, List.mem_of_find?_eq_some found, named⟩

omit [Platform] in
theorem wireDomesticEntities_exists {updates : List (String × Option EntityId)} {db : Database}
    (known : ∀ update ∈ updates, ∀ id ∈ update.2, id ∈ db.entities.ids) :
    ∃ wired, wireDomesticEntities updates db = .ok wired := by
  unfold wireDomesticEntities
  split
  · exact ⟨db, rfl⟩
  · have rows := bindTuples_batch [Database.DomesticColumn.key, .domesticId] updates
      (fun update => [some (SqlValue.text update.1), update.2.map .uuid]) (fun _ => rfl)
    have each : Database.setDomestic (updates.map domesticRow) = fun record => pure (rewire updates record) :=
      funext (setDomestic_rows updates)
    have unique : entitySchema.Unique (db.entities.records.map (rewire updates)) := by
      refine db.entities.unique.map (rewire_id updates) fun record columns constraint column member => ?_
      simp only [entitySchema, List.mem_cons, List.not_mem_nil, or_false] at constraint
      rcases constraint with rfl | rfl | rfl <;> rw [List.mem_singleton.mp member] <;> unfold rewire <;> split <;> rfl
    have ids : Table.ids ⟨db.entities.records.map (rewire updates), unique⟩ = db.entities.ids := by
      rw [Table.ids, List.map_map]
      exact List.map_congr_left fun record _ => rewire_id updates record
    have references : References ⟨db.entities.records.map (rewire updates), unique⟩ db.ownershipEdges db.filings := by
      constructor
      · intro record member id named
        rw [ids]
        obtain ⟨old, inside, rfl⟩ := List.mem_map.mp member
        rcases rewire_domestic named with before | ⟨update, listed, same⟩
        · exact db.references.domestic old inside id before
        · exact known update listed id same
      · intro edge member
        rw [ids]
        exact db.references.edges edge member
      · intro filing member
        rw [ids]
        exact db.references.filings filing member
    obtain ⟨wired, built, _⟩ := withTables_exists references
    refine ⟨wired, bind_eq_ok.mpr ⟨_, rows, bind_eq_ok.mpr ⟨db.entities.records.map (rewire updates), ?_,
      bind_eq_ok.mpr ⟨_, dif_pos unique, built⟩⟩⟩⟩
    change db.entities.records.mapM (Database.setDomestic (updates.map domesticRow)) = _
    rw [each, List.mapM_pure]
    rfl

/-- Rows of edges between known entities, each pair once. -/
structure EdgeRowsFit (ids : List EntityId) (rows : List EdgeRow) : Prop where
  parent : ∀ row ∈ rows, row.parentEntityId ∈ ids
  child : ∀ row ∈ rows, row.childEntityId ∈ ids
  apart : ∀ row ∈ rows, row.parentEntityId ≠ row.childEntityId
  pct : ∀ row ∈ rows, ∃ pct, parsePct row.ownershipPct = some pct ∧ 0 < pct ∧ pct ≤ 100 * 100
  pairs : (rows.map fun row => (row.parentEntityId, row.childEntityId)).Nodup

section Edges

omit [Platform]

variable {ids : List EntityId} {edgeRow : EdgeRow} {edgeRows later : List EdgeRow} {edges : Table edgeSchema}

theorem EdgeRowsFit.tail (fit : EdgeRowsFit ids (edgeRow :: edgeRows)) : EdgeRowsFit ids edgeRows where
  parent row member := fit.parent row (List.mem_cons_of_mem _ member)
  child row member := fit.child row (List.mem_cons_of_mem _ member)
  apart row member := fit.apart row (List.mem_cons_of_mem _ member)
  pct row member := fit.pct row (List.mem_cons_of_mem _ member)
  pairs := (List.nodup_cons.mp fit.pairs).2

/-- The values of a row as a statement writes them, over a record of its key or as
a new record. -/
theorem edge_build_exists (fit : EdgeRowsFit ids (edgeRow :: edgeRows)) {id : EntityId}
    {values : EdgeColumn → Option SqlValue} (written : values = assigned (edgeObject edgeRow)) :
    ∃ edge, OwnershipEdge.build id values = .ok edge ∧
      edge.parentEntityId = edgeRow.parentEntityId ∧ edge.childEntityId = edgeRow.childEntityId := by
  obtain ⟨pct, read, positive, atMost⟩ := fit.pct edgeRow (by simp)
  have apart := fit.apart edgeRow (by simp)
  have value : required (some (.text edgeRow.ownershipPct)) SqlValue.numeric? = .ok pct := by
    simp [required, SqlValue.numeric?, read]
  refine ⟨⟨id, edgeRow.parentEntityId, edgeRow.childEntityId, pct⟩, ?_, rfl, rfl⟩
  rw [written]
  refine bind_eq_ok.mpr ⟨edgeRow.parentEntityId, rfl, bind_eq_ok.mpr ⟨edgeRow.childEntityId, rfl,
    bind_eq_ok.mpr ⟨pct, value, ?_⟩⟩⟩
  exact if_pos ⟨positive, atMost, apart⟩

theorem edge_overlay {edge : OwnershipEdge} (key : (edgeView edge).1 = edgeRow.entry.1) :
    overlay edgeConflict.updates (assigned (edgeObject edgeRow)) (edgeSchema.read edge) = assigned (edgeObject edgeRow) := by
  have ends : edge.parentEntityId = edgeRow.parentEntityId ∧ edge.childEntityId = edgeRow.childEntityId := Prod.mk.inj key
  funext column
  cases column with
  | parentEntityId =>
      change some (SqlValue.uuid edge.parentEntityId) = some (.uuid edgeRow.parentEntityId)
      rw [ends.1]
  | childEntityId =>
      change some (SqlValue.uuid edge.childEntityId) = some (.uuid edgeRow.childEntityId)
      rw [ends.2]
  | ownershipPct => rfl

theorem edge_sameKey {edge other : OwnershipEdge} {columns : List EdgeColumn} (constraint : columns ∈ edgeSchema.uniques)
    (agrees : agree columns (edgeSchema.read other) (edgeSchema.read edge) = true) :
    (edgeView other).1 = (edgeView edge).1 := by
  have values := agree_eq_true.mp agrees
  simp only [edgeSchema, List.mem_singleton] at constraint
  subst constraint
  have parent := (values .parentEntityId (by simp)).2
  have child := (values .childEntityId (by simp)).2
  exact Prod.ext (SqlValue.uuid.inj (Option.some.inj parent)) (SqlValue.uuid.inj (Option.some.inj child))

theorem EdgeRowsFit.writable (newId : List EntityId → EntityId) (fit : EdgeRowsFit ids (edgeRow :: edgeRows)) :
    edgeKeyed.Writable newId edges (assigned (edgeObject edgeRow)) := by
  refine .of_complete ⟨edgeRow, rfl⟩ (fun id => ?_) (fun edge key => edge_overlay key)
    fun columns constraint edge other agrees => edge_sameKey constraint agrees
  obtain ⟨edge, built, _⟩ := edge_build_exists fit rfl
  exact ⟨edge, built⟩

theorem ends_of_upserted {newId : List EntityId → EntityId} {next : Table edgeSchema}
    (fit : EdgeRowsFit ids (edgeRow :: edgeRows))
    (known : ∀ edge ∈ edges.records, edge.parentEntityId ∈ ids ∧ edge.childEntityId ∈ ids)
    (written : Upserted newId edgeConflict edges (assigned (edgeObject edgeRow)) next) :
    ∀ edge ∈ next.records, edge.parentEntityId ∈ ids ∧ edge.childEntityId ∈ ids := by
  have named : ∀ {id values built}, OwnershipEdge.build id values = .ok built → values = assigned (edgeObject edgeRow) →
      built.parentEntityId ∈ ids ∧ built.childEntityId ∈ ids := by
    intro id values built same values_eq
    obtain ⟨_, again, parent, child⟩ := edge_build_exists fit values_eq
    cases same.symm.trans again
    exact ⟨parent ▸ fit.parent edgeRow (by simp), child ▸ fit.child edgeRow (by simp)⟩
  intro edge member
  rcases written.record_cases member with earlier | ⟨old, _, agrees, built⟩ | built
  · exact known edge earlier
  · exact named built (edge_overlay ((edgeKeyed.agree_iff old _ ⟨edgeRow, rfl⟩).mp agrees))
  · exact named built rfl

end Edges

theorem upsertOwnershipEdges_exists {db : Database} {batch later : List EdgeRow}
    (fit : EdgeRowsFit db.entities.ids (batch ++ later)) :
    ∃ next, db.upsertOwnershipEdges edgeConflict (batch.map edgeObject) = .ok next ∧
      EdgeRowsFit next.entities.ids later := by
  have distinct : (batch.map fun row => (edgeKeyed.entryOf (assigned (edgeObject row))).1).Nodup := by
    have pairs := fit.pairs
    rw [List.map_append] at pairs
    exact pairs.of_append_left
  obtain ⟨edges, upserted, done, known⟩ := edgeKeyed.upsert_map_exists Platform.newId_fresh
    (assigned ∘ edgeObject)
    (fun edges rows => EdgeRowsFit db.entities.ids (rows ++ later) ∧
      ∀ edge ∈ edges.records, edge.parentEntityId ∈ db.entities.ids ∧ edge.childEntityId ∈ db.entities.ids)
    (fun _ _ _ held => held.1.writable _)
    (fun _ _ _ _ held written => ⟨held.1.tail, ends_of_upserted held.1 held.2 written⟩)
    distinct ⟨fit, db.references.edges⟩
  rw [← List.map_map] at upserted
  obtain ⟨next, built, same⟩ := withTables_exists ⟨db.references.domestic, known, db.references.filings⟩
  refine ⟨next, ?_, by rw [same]; exact done⟩
  rw [Database.upsertOwnershipEdges, upserted]
  exact built

theorem upsertEdgeRecords_exists {db : Database} {chunkSize : Nat} {edgeRows : List EdgeRow} (positive : 0 < chunkSize)
    (fit : EdgeRowsFit db.entities.ids edgeRows) : ∃ owned, upsertEdgeRecords chunkSize edgeRows db = .ok owned := by
  obtain ⟨owned, folded, _⟩ := foldlM_exists
    (fun (db : Database) batch => db.upsertOwnershipEdges edgeConflict (batch.map edgeObject))
    (fun db batches => EdgeRowsFit db.entities.ids batches.flatten)
    (fun _ _ _ held => upsertOwnershipEdges_exists held) db
    (by rw [chunk_flatten edgeRows positive]; exact fit)
  exact ⟨owned, folded⟩

/-- A filing record whose values the columns accept. -/
structure FilingRowFits (ids : List EntityId) (row : FilingRow) : Prop where
  entity : row.entityId ∈ ids
  filingType : row.filingType ∈ FILING_TYPES
  dueDate : ∃ date, ReadsBack date ∧ row.dueDate = toDateOnlyString date
  filedDate : ∀ text ∈ row.filedDate, ∃ date, ReadsBack date ∧ text = toDateOnlyString date
  status : row.status ∈ FILING_STATUSES

section Filings

omit [Platform]

variable {ids : List EntityId} {filingRow : FilingRow} {filings : Table filingSchema}

theorem filing_build_exists (fits : FilingRowFits ids filingRow) (id : EntityId) :
    ∃ filing, Filing.build id (assigned (filingObject filingRow)) = .ok filing ∧ filing.entityId = filingRow.entityId := by
  obtain ⟨type, typeRead⟩ := required_oneOf_exists fits.filingType
  obtain ⟨date, readsBack, due⟩ := fits.dueDate
  obtain ⟨dueText, dueRead⟩ := required_date_exists readsBack
  rw [← due] at dueRead
  obtain ⟨status, statusRead⟩ := required_oneOf_exists fits.status
  obtain ⟨authority, authorityRead⟩ :
      ∃ read, Database.optional (filingRow.filingAuthority.map .text) SqlValue.text? = .ok read :=
    optional_exists fun text _ => ⟨text, rfl⟩
  obtain ⟨filed, filedRead⟩ : ∃ read, Database.optional (filingRow.filedDate.map .text) SqlValue.date? = .ok read := by
    refine optional_exists fun text member => ?_
    obtain ⟨date, readsBack, rfl⟩ := fits.filedDate text member
    exact required_date_exists readsBack
  refine ⟨⟨id, filingRow.entityId, type, filingRow.jurisdiction, authority, dueText, filed, status⟩, ?_, rfl⟩
  refine bind_eq_ok.mpr ⟨filingRow.entityId, rfl, bind_eq_ok.mpr ⟨type, typeRead,
    bind_eq_ok.mpr ⟨filingRow.jurisdiction, rfl, bind_eq_ok.mpr ⟨authority, authorityRead, bind_eq_ok.mpr ⟨dueText, dueRead,
      bind_eq_ok.mpr ⟨filed, filedRead, bind_eq_ok.mpr ⟨status, statusRead, rfl⟩⟩⟩⟩⟩⟩⟩

theorem filing_overlay {filing : Filing} (key : storedFilingKey filing = filingRow.key) :
    overlay filingConflict.updates (assigned (filingObject filingRow)) (filingSchema.read filing) =
      assigned (filingObject filingRow) := by
  simp only [storedFilingKey, FilingRow.key, Prod.mk.injEq] at key
  obtain ⟨entity, type, due⟩ := key
  funext column
  cases column with
  | entityId =>
      change some (SqlValue.uuid filing.entityId) = some (.uuid filingRow.entityId)
      rw [entity]
  | filingType =>
      change some (SqlValue.text filing.filingType) = some (.text filingRow.filingType)
      rw [type]
  | dueDate =>
      change some (SqlValue.text filing.dueDate) = some (.text filingRow.dueDate)
      rw [due]
  | _ => rfl

theorem filing_sameKey {filing other : Filing} {columns : List FilingColumn} (constraint : columns ∈ filingSchema.uniques)
    (agrees : agree columns (filingSchema.read other) (filingSchema.read filing) = true) :
    storedFilingKey other = storedFilingKey filing := by
  have values := agree_eq_true.mp agrees
  simp only [filingSchema, List.mem_singleton] at constraint
  subst constraint
  have entity := SqlValue.uuid.inj (Option.some.inj (values .entityId (by simp)).2)
  have type := SqlValue.text.inj (Option.some.inj (values .filingType (by simp)).2)
  have due := SqlValue.text.inj (Option.some.inj (values .dueDate (by simp)).2)
  rw [storedFilingKey, storedFilingKey, entity, type, due]

theorem FilingRowFits.writable (newId : List EntityId → EntityId) (fits : FilingRowFits ids filingRow) :
    filingKeyed.Writable newId filings (assigned (filingObject filingRow)) := by
  refine .of_complete ⟨filingRow, rfl⟩ (fun id => ?_) (fun filing key => ?_) fun columns constraint filing other agrees => ?_
  · obtain ⟨filing, built, _⟩ := filing_build_exists fits id
    exact ⟨filing, built⟩
  · simp only [filingKeyed, filingEntry_read, filingEntry_row] at key
    exact filing_overlay key
  · simp only [filingKeyed, filingEntry_read]
    exact filing_sameKey constraint agrees

theorem entity_of_upserted {newId : List EntityId → EntityId} {next : Table filingSchema}
    (fits : FilingRowFits ids filingRow)
    (known : ∀ filing ∈ filings.records, filing.entityId ∈ ids)
    (written : Upserted newId filingConflict filings (assigned (filingObject filingRow)) next) :
    ∀ filing ∈ next.records, filing.entityId ∈ ids := by
  have named : ∀ {id filing}, Filing.build id (assigned (filingObject filingRow)) = .ok filing → filing.entityId ∈ ids := by
    intro id filing built
    obtain ⟨_, again, entity⟩ := filing_build_exists fits id
    cases built.symm.trans again
    exact entity ▸ fits.entity
  intro filing member
  rcases written.record_cases member with earlier | ⟨old, _, agrees, built⟩ | built
  · exact known filing earlier
  · rw [filing_overlay (agree_filingObject.mp agrees)] at built
    exact named built
  · exact named built

end Filings

theorem upsertFilings_exists {db : Database} {batch : List FilingRow}
    (fits : ∀ row ∈ batch, FilingRowFits db.entities.ids row) (distinct : (batch.map FilingRow.key).Nodup) :
    ∃ next, db.upsertFilings filingConflict (batch.map filingObject) = .ok next ∧ next.entities = db.entities := by
  have keys : (batch.map fun row => (filingKeyed.entryOf (assigned (filingObject row))).1) = batch.map FilingRow.key :=
    List.map_congr_left fun row _ => congrArg Prod.fst (filingEntry_row row)
  obtain ⟨filings, upserted, _, known⟩ := filingKeyed.upsert_map_exists Platform.newId_fresh
    (assigned ∘ filingObject)
    (fun filings rows => (∀ row ∈ rows, FilingRowFits db.entities.ids row) ∧
      ∀ filing ∈ filings.records, filing.entityId ∈ db.entities.ids)
    (fun _ row _ held => (held.1 row (by simp)).writable _)
    (fun _ row _ _ held written => ⟨fun other member => held.1 other (List.mem_cons_of_mem _ member),
      entity_of_upserted (held.1 row (by simp)) held.2 written⟩)
    (keys ▸ distinct) ⟨fits, db.references.filings⟩
  rw [← List.map_map] at upserted
  obtain ⟨next, built, same⟩ := withTables_exists ⟨db.references.domestic, db.references.edges, known⟩
  refine ⟨next, ?_, same⟩
  rw [Database.upsertFilings, upserted]
  exact built

/-- The last pass goes through where no batch of it has a key twice. -/
theorem upsertFilingRecords_exists {db : Database} {chunkSize : Nat} {records : List FilingRow} (positive : 0 < chunkSize)
    (fits : ∀ row ∈ records, FilingRowFits db.entities.ids row)
    (distinct : ∀ batch ∈ chunk records chunkSize, (batch.map FilingRow.key).Nodup) :
    ∃ filed, upsertFilingRecords chunkSize records db = .ok filed := by
  have inside : ∀ batch ∈ chunk records chunkSize, ∀ row ∈ batch, row ∈ records := by
    intro batch member row listed
    rw [← chunk_flatten records positive]
    exact List.mem_flatten.mpr ⟨batch, member, listed⟩
  obtain ⟨filed, folded, _⟩ := foldlM_exists
    (fun (db : Database) (batch : List FilingRow) => db.upsertFilings filingConflict (batch.map filingObject))
    (fun next batches => (∀ batch ∈ batches, ∀ row ∈ batch, FilingRowFits next.entities.ids row) ∧
      ∀ batch ∈ batches, (batch.map FilingRow.key).Nodup)
    (by
      intro db batch batches held
      obtain ⟨fits, distinct⟩ := held
      obtain ⟨next, statement, same⟩ := upsertFilings_exists (fits batch (by simp)) (distinct batch (by simp))
      refine ⟨next, statement, fun other member => ?_, fun other member => distinct other (List.mem_cons_of_mem _ member)⟩
      rw [same]
      exact fits other (List.mem_cons_of_mem _ member))
    db ⟨fun batch member row listed => fits row (inside batch member row listed), distinct⟩
  exact ⟨filed, folded⟩

/-- A pass that went through had no key twice in a batch. -/
theorem filingKeys_of_written {chunkSize : Nat} {records : List FilingRow} {before after : Database}
    (written : upsertFilingRecords chunkSize records before = .ok after) :
    ∀ batch ∈ chunk records chunkSize, (batch.map FilingRow.key).Nodup := by
  unfold upsertFilingRecords at written
  generalize chunk records chunkSize = batches at written
  induction batches generalizing before with
  | nil => exact List.forall_mem_nil _
  | cons batch batches induction =>
      rw [List.foldlM_cons] at written
      obtain ⟨middle, first, rest⟩ := bind_eq_ok.mp written
      obtain ⟨filings, upserted, _⟩ := bind_eq_ok.mp first
      rw [List.map_map] at upserted
      have keys := KeyedView.keys_of_upsert_ok filingRows_proper upserted
      rw [List.map_map] at keys
      have same : ∀ row ∈ batch, (filingKeyed.entryOf (assigned (filingObject row))).1 = row.key :=
        fun row _ => congrArg Prod.fst (filingEntry_row row)
      rw [List.forall_mem_cons]
      exact ⟨(List.map_congr_left same) ▸ keys, induction rest⟩

section Names

variable {upload : ValidatedUpload} {before registered : Database}

/-- Every name that the upload registers resolves to the id of its record. -/
theorem Registered.resolve (written : Registered upload.entityRows before.entities registered.entities)
    (normalized : NamesNormalized before) {name : String} (referenced : normalizeName name ∈ referencedNames upload)
    (registeredRow : ∃ row ∈ upload.entityRows, normalizeName row.entityName = normalizeName name) :
    ∃ record ∈ registered.entities.records, record.entityNameKey = normalizeName name ∧
      (idByName registered upload).get? (normalizeName name) = some record.id := by
  obtain ⟨row, listed, same⟩ := registeredRow
  obtain ⟨record, member, key⟩ := written.present row listed
  refine ⟨record, member, key.trans same, ?_⟩
  exact (get?_idByName (written.namesNormalized normalized)).mpr ⟨referenced, record, member, key.trans same, rfl⟩

theorem referencedNames_filings {row : ParsedFilingRow} (member : row ∈ upload.filingRows) :
    normalizeName row.entityName ∈ referencedNames upload :=
  List.mem_append_right _ (List.mem_map.mpr ⟨row, member, rfl⟩)

theorem idByName_known (normalized : NamesNormalized registered) {name : String} {id : EntityId}
    (found : (idByName registered upload).get? name = some id) : id ∈ registered.entities.ids := by
  obtain ⟨_, record, member, _, rfl⟩ := (get?_idByName normalized).mp found
  exact List.mem_map_of_mem member

theorem fqUpdates_known (upload : ValidatedUpload) (normalized : NamesNormalized registered) :
    ∀ update ∈ fqUpdates upload.entityRows (idByName registered upload), ∀ id ∈ update.2, id ∈ registered.entities.ids := by
  intro update member id named
  obtain ⟨row, _, rfl⟩ := List.mem_map.mp member
  obtain ⟨name, _, found⟩ := Option.bind_eq_some_iff.mp named
  exact idByName_known normalized found

/-- What it takes for a row of ownership.csv to become an edge record. -/
theorem edgeRecords_mem {record : EdgeRow}
    (member : record ∈ edgeRecords upload.ownershipRows (idByName registered upload)) :
    ∃ row ∈ upload.ownershipRows,
      (idByName registered upload).get? (normalizeName row.parentEntity) = some record.parentEntityId ∧
      (idByName registered upload).get? (normalizeName row.childEntity) = some record.childEntityId ∧
      record.ownershipPct = toFixed2 row.ownershipPct := by
  obtain ⟨row, listed, built⟩ := List.mem_filterMap.mp member
  obtain ⟨parent, parentFound, built⟩ := Option.bind_eq_some_iff.mp built
  obtain ⟨child, childFound, built⟩ := Option.bind_eq_some_iff.mp built
  cases built
  exact ⟨row, listed, parentFound, childFound, rfl⟩

variable (written : Registered upload.entityRows before.entities registered.entities) (normalized : NamesNormalized before)
  (accepted : AcceptedUpload upload)

include written normalized accepted

theorem end_resolves {row : ParsedOwnershipRow} (member : row ∈ upload.ownershipRows) {name : String}
    (listed : name ∈ [row.parentEntity, row.childEntity]) : ∃ record ∈ registered.entities.records,
      record.entityNameKey = normalizeName name ∧
      (idByName registered upload).get? (normalizeName name) = some record.id := by
  refine written.resolve normalized ?_ (accepted.ends row member name listed)
  obtain ⟨parent, child⟩ := referencedNames_ends member
  rcases List.mem_cons.mp listed with rfl | last
  · exact parent
  · exact List.mem_singleton.mp last ▸ child

theorem edgeRecords_length : (edgeRecords upload.ownershipRows (idByName registered upload)).length =
    upload.ownershipRows.length := by
  refine List.filterMap_length_eq_length.mpr fun row member => ?_
  obtain ⟨_, _, _, parent⟩ := end_resolves written normalized accepted member (List.mem_cons_self ..)
  obtain ⟨_, _, _, child⟩ := end_resolves written normalized accepted member
    (List.mem_cons_of_mem _ (List.mem_singleton_self _))
  simp [parent, child]

theorem filingRecords_length : (filingRecords upload.filingRows (idByName registered upload)).length =
    upload.filingRows.length := by
  refine List.filterMap_length_eq_length.mpr fun row member => ?_
  obtain ⟨_, _, _, found⟩ := written.resolve normalized (referencedNames_filings member) (accepted.registered row member)
  simp [found]

theorem edgeRecords_fit : EdgeRowsFit registered.entities.ids
    (edgeRecords upload.ownershipRows (idByName registered upload)) := by
  have names := written.namesNormalized normalized
  have sameName : ∀ {name other : String} {id : EntityId},
      (idByName registered upload).get? (normalizeName name) = some id →
      (idByName registered upload).get? (normalizeName other) = some id → normalizeName name = normalizeName other := by
    intro name other id found again
    obtain ⟨_, record, member, key, same⟩ := (get?_idByName names).mp found
    obtain ⟨_, record', member', key', same'⟩ := (get?_idByName names).mp again
    rw [← key, ← key', Table.eq_of_id member member' (same.trans same'.symm)]
  constructor
  · intro record member
    obtain ⟨_, _, parent, _⟩ := edgeRecords_mem member
    exact idByName_known names parent
  · intro record member
    obtain ⟨_, _, _, child, _⟩ := edgeRecords_mem member
    exact idByName_known names child
  · intro record member same
    obtain ⟨row, listed, parent, child, _⟩ := edgeRecords_mem member
    exact (accepted.ownershipRows row listed).apart (sameName parent (same ▸ child))
  · intro record member
    obtain ⟨row, listed, _, _, pct⟩ := edgeRecords_mem member
    have storable := accepted.ownershipRows row listed
    exact ⟨row.ownershipPct, by rw [pct, parsePct_toFixed2], storable.positive, storable.atMost⟩
  · refine List.pairwise_map.mpr (List.pairwise_filterMap.mpr ((List.pairwise_map.mp accepted.pairs).imp ?_))
    intro row other different record built record' built' same
    obtain ⟨parent, parentFound, built⟩ := Option.bind_eq_some_iff.mp built
    obtain ⟨child, childFound, built⟩ := Option.bind_eq_some_iff.mp built
    obtain ⟨parent', parentFound', built'⟩ := Option.bind_eq_some_iff.mp built'
    obtain ⟨child', childFound', built'⟩ := Option.bind_eq_some_iff.mp built'
    cases built
    cases built'
    obtain ⟨rfl, rfl⟩ := Prod.mk.inj same
    exact different (Graph.edgeKey_congr (sameName parentFound parentFound') (sameName childFound childFound'))

end Names

/-- Every stored name is there and stands next to its normalized form. -/
structure NamesStored (db : Database) : Prop where
  normalized : NamesNormalized db
  present : ∀ record ∈ db.entities.records, record.entityName ≠ ""

theorem NamesStored.initial : NamesStored Database.initial :=
  ⟨namesNormalized_initial, List.forall_mem_nil _⟩

theorem NamesStored.written {upload : ValidatedUpload} {before registered after : Database} (stored : NamesStored before)
    (written : Written upload before registered after) (accepted : AcceptedUpload upload) : NamesStored after := by
  refine ⟨written.namesNormalized stored.normalized, fun record member => ?_⟩
  rw [written.entities] at member
  obtain ⟨old, inside, rfl⟩ := List.mem_map.mp member
  rw [rewire_entityName]
  rcases written.rows.written old inside with ⟨row, listed, _, by_⟩ | ⟨earlier, _⟩
  · rw [by_.entityName]
    exact (accepted.entityRows row listed).entityName
  · exact stored.present old earlier

theorem NamesStored.upload {db after : Database} {request : UploadRequest} (stored : NamesStored db)
    (step : uploadStep db request = some after) : NamesStored after := by
  rcases uploadStep_cases step with rfl | ⟨accepted, registered, written⟩
  · exact stored
  · exact stored.written written (validateUpload_storable accepted).1

theorem NamesStored.reachable {trace : List (Database × UploadRequest)} {db : Database}
    (run : Run uploadStep Database.initial trace db) : NamesStored db :=
  run.invariant NamesStored (fun _ _ => True) .initial (fun _ _ _ stored _ step => stored.upload step) fun _ _ => trivial

/-- An accepted business id is free or belongs to the record of the row's own name. -/
theorem businessId_owner {db : Database} {rows : List ParsedEntityRow} (stored : NamesStored db)
    (accepted : validateBusinessIdsAgainstDb db rows = []) {row : ParsedEntityRow} (listed : row ∈ rows)
    {businessId : String} (named : row.businessId = some businessId) {record : EntityRecord}
    (member : record ∈ db.entities.records) (owned : record.businessId = some businessId) :
    record.entityNameKey = normalizeName row.entityName := by
  let candidates := rows.filterMap fun row => row.businessId.map fun businessId => (row, businessId)
  let existing := db.entities.records.filter fun record =>
    record.businessId.any fun businessId => (candidates.map Prod.snd).contains businessId
  let owners := existing.filterMap fun record => record.businessId.map fun businessId => (businessId, record.entityName)
  have candidate : (row, businessId) ∈ candidates := List.mem_filterMap.mpr ⟨row, listed, by rw [named]; rfl⟩
  have silent := List.filterMap_eq_nil_iff.mp accepted (row, businessId) candidate
  have distinct : (owners.map Prod.fst).Nodup := by
    rw [List.map_filterMap]
    have unique := db.entities.unique.2 [.businessId] (by simp [entitySchema])
    refine List.pairwise_filterMap.mpr ((unique.sublist List.filter_sublist).imp ?_)
    intro left right apart id leftId id' rightId same
    subst same
    simp only [Option.map_map, Function.comp_def, Option.map_id'] at leftId rightId
    exact apart (by simp [agree, entitySchema, EntityRecord.read, leftId, rightId])
  have found : (InsertionMap.ofPairs owners).get? businessId = some record.entityName := by
    refine (InsertionMap.get?_ofPairs distinct).mpr (List.mem_filterMap.mpr ⟨record, List.mem_filter.mpr ⟨member, ?_⟩, ?_⟩)
    · rw [owned, Option.any_some, List.contains_iff_mem]
      exact List.mem_map_of_mem candidate
    · rw [owned]
      rfl
  simp only [owners, existing, candidates] at found
  simp only [found] at silent
  rw [stored.normalized record member]
  by_cases same : normalizeName record.entityName = normalizeName row.entityName
  · exact same
  · rw [if_pos ⟨stored.present record member, same⟩] at silent
    cases silent

theorem AcceptedUpload.entityRowsFit {db : Database} {upload : ValidatedUpload} (accepted : AcceptedUpload upload)
    (stored : NamesStored db) (businessIds : validateBusinessIdsAgainstDb db upload.entityRows = []) :
    EntityRowsFit db.entities upload.entityRows where
  normalized := stored.normalized
  storable := accepted.entityRows
  names := accepted.entityNames
  businessIds := accepted.businessIds
  owners _ listed _ named _ member owned := businessId_owner stored businessIds listed named member owned

/-- The first three passes of an upload whose rows fit the stored entities. -/
theorem passes_exist {db : Database} {upload : ValidatedUpload} {chunkSize : Nat} (positive : 0 < chunkSize)
    (accepted : AcceptedUpload upload) (stored : NamesStored db) (fit : EntityRowsFit db.entities upload.entityRows) :
    ∃ registered wired owned,
      upsertEntityRows chunkSize upload.entityRows db = .ok registered ∧
      wireDomesticEntities (fqUpdates upload.entityRows (idByName registered upload)) registered = .ok wired ∧
      upsertEdgeRecords chunkSize (edgeRecords upload.ownershipRows (idByName registered upload)) wired = .ok owned ∧
      (edgeRecords upload.ownershipRows (idByName registered upload)).length = upload.ownershipRows.length ∧
      (filingRecords upload.filingRows (idByName registered upload)).length = upload.filingRows.length := by
  obtain ⟨registered, first⟩ := upsertEntityRows_exists positive fit
  obtain ⟨written, _⟩ := upsertEntityRows_ok positive first
  obtain ⟨wired, second⟩ := wireDomesticEntities_exists
    (fqUpdates_known upload (written.namesNormalized stored.normalized))
  have ids : wired.entities.ids = registered.entities.ids := by
    rw [Table.ids, (wireDomesticEntities_ok second).1, List.map_map]
    exact List.map_congr_left fun record _ => rewire_id _ record
  obtain ⟨owned, third⟩ := upsertEdgeRecords_exists positive (ids ▸ edgeRecords_fit written stored.normalized accepted)
  exact ⟨registered, wired, owned, first, second, third, edgeRecords_length written stored.normalized accepted,
    filingRecords_length written stored.normalized accepted⟩

/-- In every database that uploads processed one at a time lead to, the entity
pass, the FQ pass and the ownership pass of an accepted upload are rejected by no
constraint and drop no row, for every order of the rows and every chunk size. -/
theorem accepted_upload_breaks_no_constraint {trace : List (Database × UploadRequest)} {db : Database}
    (run : Run uploadStep Database.initial trace db) {request : UploadRequest}
    (accepted : (request.validated db).errors = []) {upload : ValidatedUpload}
    (entities : upload.entityRows.Perm (request.validated db).entityRows)
    (ownership : upload.ownershipRows.Perm (request.validated db).ownershipRows)
    (filings : upload.filingRows.Perm (request.validated db).filingRows) {chunkSize : Nat} (positive : 0 < chunkSize) :
    ∃ registered wired owned,
      upsertEntityRows chunkSize upload.entityRows db = .ok registered ∧
      wireDomesticEntities (fqUpdates upload.entityRows (idByName registered upload)) registered = .ok wired ∧
      upsertEdgeRecords chunkSize (edgeRecords upload.ownershipRows (idByName registered upload)) wired = .ok owned ∧
      (edgeRecords upload.ownershipRows (idByName registered upload)).length = upload.ownershipRows.length ∧
      (filingRecords upload.filingRows (idByName registered upload)).length = upload.filingRows.length := by
  have stored := NamesStored.reachable run
  obtain ⟨storable, businessIds⟩ := validateUpload_storable accepted
  have reordered := storable.perm entities ownership filings
  refine passes_exist positive reordered stored {
    normalized := stored.normalized
    storable := reordered.entityRows
    names := reordered.entityNames
    businessIds := reordered.businessIds
    owners := fun row listed businessId named record member owned => ?_ }
  exact businessId_owner stored businessIds (entities.mem_iff.mp listed) named member owned

omit [Platform] in
theorem fq_upload_breaks_no_constraint :
    letI := asciiPlatform
    let request := ownershipRequest [("Acme", "Entity", ""), ("Beta", "Entity", ""), ("Acme FQ", "FQ", "acme")]
      [("ACME", "Beta", "100")]
    let upload := request.validated Database.initial
    ∃ registered wired owned,
      upsertEntityRows 1 upload.entityRows Database.initial = .ok registered ∧
      wireDomesticEntities (fqUpdates upload.entityRows (idByName registered upload)) registered = .ok wired ∧
      upsertEdgeRecords 1 (edgeRecords upload.ownershipRows (idByName registered upload)) wired = .ok owned ∧
      (edgeRecords upload.ownershipRows (idByName registered upload)).length = upload.ownershipRows.length ∧
      (filingRecords upload.filingRows (idByName registered upload)).length = upload.filingRows.length :=
  letI := asciiPlatform
  accepted_upload_breaks_no_constraint .start (by decide +kernel) (.refl _) (.refl _) (.refl _) (by decide)

end Coverpin.Upload
