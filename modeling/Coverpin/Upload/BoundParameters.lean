import Coverpin.Data.Logged
import Coverpin.Upload.Constraints
import Coverpin.Upload.WritersAgree
import Coverpin.Validation.EntitiesRules
import Coverpin.Validation.ErrorSources

namespace Coverpin.Upload

open Coverpin.Data Coverpin.Database Coverpin.Parsing Coverpin.Validation Coverpin.Validation.Entities
  Coverpin.Validation.Ownership

/-! # Bound parameters

The two writers once more, each statement logged with the number of parameters
that it binds.
-/

abbrev Sent := Logged Nat DbError

variable {α : Type}

/-- A statement that is not sent when there is nothing to do. -/
def sendUnless (nothing : Prop) [Decidable nothing] (parameters : Nat) (statement : Except DbError α) : Sent α where
  log := if nothing then [] else [parameters]
  outcome := statement

/-- One statement for each batch. -/
def sendBatches (chunkSize : Nat) (rows : List α) (parameters : List α → Nat)
    (statement : Database → List α → Except DbError Database) (db : Database) : Sent Database :=
  (chunk rows chunkSize).foldlM (fun db batch => Logged.entry (parameters batch) (statement db batch)) db

theorem logs_sendUnless {nothing : Prop} [Decidable nothing] {parameters : Nat} {statement : Except DbError α}
    {p : Nat → Prop} :
    Logged.Logs p (sendUnless nothing parameters statement) ↔ (¬ nothing → p parameters) := by
  unfold Logged.Logs sendUnless
  by_cases idle : nothing
  · simp [idle]
  · simp [idle]

theorem outcome_sendBatches (chunkSize : Nat) (rows : List α) (parameters : List α → Nat)
    (statement : Database → List α → Except DbError Database) (db : Database) :
    (sendBatches chunkSize rows parameters statement db).outcome = (chunk rows chunkSize).foldlM statement db :=
  Logged.outcome_foldlM _ _ _

/-- With as many parameters for each row, a batch has its size times as many. -/
theorem logs_sendBatches {chunkSize width limit : Nat} {rows : List α} {parameters : List α → Nat}
    {statement : Database → List α → Except DbError Database} (db : Database)
    (each : ∀ batch, parameters batch = batch.length * width) (fits : chunkSize * width ≤ limit) :
    Logged.Logs (· ≤ limit) (sendBatches chunkSize rows parameters statement db) := by
  refine Logged.Logs.foldlM (fun db batch member => Logged.Logs.entry _ ?_) db
  rw [each]
  exact Nat.le_trans (Nat.mul_le_mul_right width (length_of_mem_chunk member)) fits

variable [Platform]

omit [Platform] in
/-- `repository.upsert` binds each value that the rows give. -/
def givenValues {γ : Type} (rows : List (List (γ × Option SqlValue))) : Nat :=
  rows.flatten.length

omit [Platform] in
def domesticParameters (updates : List (String × Option EntityId)) : Nat :=
  (updates.flatMap fun update => [some (SqlValue.text update.1), update.2.map .uuid]).length

/-- The body of the transaction; `In` binds each of the names. -/
def processUploadTransactionSent (chunkSize : Nat) (upload : ValidatedUpload) (db : Database) :
    Sent (Database × UploadBatchResult) := do
  let registered ← sendBatches chunkSize upload.entityRows (fun batch => givenValues (batch.map entityObject))
    (fun db batch => db.upsertEntities (repositoryUpsert entityObjectColumns [.entityNameKey]) (batch.map entityObject)) db
  let names := referencedNames upload
  let ids ← sendUnless (names = []) (firsts names).length (pure (idByName registered upload))
  let updates := fqUpdates upload.entityRows ids
  let wired ← sendUnless (updates = []) (domesticParameters updates) (wireDomesticEntities updates registered)
  let owned ← sendBatches chunkSize (edgeRecords upload.ownershipRows ids) (fun batch => givenValues (batch.map edgeObject))
    (fun db batch => db.upsertOwnershipEdges (repositoryUpsert [.parentEntityId, .childEntityId, .ownershipPct]
      [.parentEntityId, .childEntityId]) (batch.map edgeObject)) wired
  let filed ← sendBatches chunkSize (filingRecords upload.filingRows ids) (fun batch => givenValues (batch.map filingObject))
    (fun db batch => db.upsertFilings (repositoryUpsert
      [.entityId, .filingType, .jurisdiction, .filingAuthority, .dueDate, .filedDate, .status]
      [.entityId, .filingType, .dueDate]) (batch.map filingObject)) owned
  return (filed, {
    entities := upload.entityRows.length
    ownershipEdges := upload.ownershipRows.length
    filings := upload.filingRows.length })

/-- What is logged are the statements of the transaction. -/
theorem processUploadTransactionSent_outcome (chunkSize : Nat) (upload : ValidatedUpload) (db : Database) :
    (processUploadTransactionSent chunkSize upload db).outcome = processUploadTransaction chunkSize upload db := by
  simp only [processUploadTransactionSent, Logged.outcome_bind, outcome_sendBatches, sendUnless, Logged.outcome_pure,
    pure_bind]
  rfl

/-- The queries of the validation and, when it has nothing to report, the transaction.
The query for the persisted edges has no parameters. -/
def processUploadParameters (limits : Limits) (today : Date) (files : UploadFiles) (db : Database) : List Nat :=
  let upload := validateUpload db today limits.maxUploadRowsPerFile files
  let businessIds := upload.entityRows.filterMap ParsedEntityRow.businessId
  (if businessIds = [] then [] else [(firsts businessIds).length]) ++ [0] ++
    if upload.errors ≠ [] then [] else (processUploadTransactionSent limits.uploadBatchChunkSize upload db).log

/-- The four passes; `ANY` binds one array of names. -/
def writeUploadBatchSent (rows : UploadBatchRows) (chunkSize : Nat) (db : Database) :
    Sent (Database × UploadBatchResult) := do
  let registered ← sendBatches chunkSize rows.entityRows (fun batch => (batch.flatMap entityValues).length)
    (fun db batch => do
      let statement := insertEntities batch
      let bound ← bindTuples statement.columns statement.tuples (batch.flatMap entityValues)
      db.upsertEntities statement.conflict bound) db
  let ids ← sendUnless (batchReferencedNames rows = []) 1 (pure (batchIdByName registered rows))
  let updates := batchFqUpdates rows.entityRows ids
  let wired ← sendUnless (updates = []) (domesticParameters updates) (wireDomesticEntities updates registered)
  let owned ← sendBatches chunkSize (batchEdgeRecords rows.ownershipRows ids) (fun batch => (batch.flatMap edgeValues).length)
    (fun db batch => do
      let statement := insertOwnershipEdges batch
      let bound ← bindTuples statement.columns statement.tuples (batch.flatMap edgeValues)
      db.upsertOwnershipEdges statement.conflict bound) wired
  let filed ← sendBatches chunkSize (batchFilingRecords rows.filingRows ids) (fun batch => (batch.flatMap filingValues).length)
    (fun db batch => do
      let statement := insertFilings batch
      let bound ← bindTuples statement.columns statement.tuples (batch.flatMap filingValues)
      db.upsertFilings statement.conflict bound) owned
  return (filed, {
    entities := rows.entityRows.length
    ownershipEdges := rows.ownershipRows.length
    filings := rows.filingRows.length })

theorem writeUploadBatchSent_outcome (rows : UploadBatchRows) (chunkSize : Nat) (db : Database) :
    (writeUploadBatchSent rows chunkSize db).outcome = writeUploadBatch rows chunkSize db := by
  simp only [writeUploadBatchSent, Logged.outcome_bind, outcome_sendBatches, sendUnless, Logged.outcome_pure, pure_bind]
  rfl

section Bounds

variable {db : Database} {upload : ValidatedUpload} {chunkSize limit : Nat}

omit [Platform] in
theorem length_flatMap_width {β : Type} {f : α → List β} {width : Nat} (each : ∀ a, (f a).length = width) (items : List α) :
    (items.flatMap f).length = items.length * width := by
  rw [List.length_flatMap, funext each, List.map_const', List.sum_replicate_nat]

omit [Platform] in
theorem givenValues_map {γ : Type} {f : α → List (γ × Option SqlValue)} {width : Nat} (each : ∀ a, (f a).length = width)
    (items : List α) : givenValues (items.map f) = items.length * width := by
  rw [givenValues, ← List.flatMap_def, length_flatMap_width each]

omit [Platform] in
theorem domesticParameters_eq (updates : List (String × Option EntityId)) :
    domesticParameters updates = updates.length * 2 := by
  apply length_flatMap_width
  exact fun _ => rfl

omit [Platform] in
def fqCount (rows : List ParsedEntityRow) : Nat :=
  (rows.filter fun row => row.registrationType = "FQ").length

theorem length_fqUpdates (rows : List ParsedEntityRow) (ids : InsertionMap String EntityId) :
    (fqUpdates rows ids).length = fqCount rows :=
  List.length_map _

/-- The three upserts stay within the limit; the other two statements are bounded by
the names and by the FQ rows. -/
theorem processUploadTransactionSent_logs (batches : chunkSize * 10 ≤ limit)
    (names : (firsts (referencedNames upload)).length ≤ limit) (fqs : fqCount upload.entityRows * 2 ≤ limit) :
    Logged.Logs (· ≤ limit) (processUploadTransactionSent chunkSize upload db) := by
  simp only [processUploadTransactionSent, Logged.logs_bind, logs_sendUnless]
  refine ⟨logs_sendBatches db (givenValues_map fun _ => rfl) batches, fun registered _ => ⟨fun _ => names, fun ids _ => ?_⟩⟩
  refine ⟨fun _ => ?_, fun wired _ => ?_⟩
  · rw [domesticParameters_eq, length_fqUpdates]
    exact fqs
  · refine ⟨logs_sendBatches wired (givenValues_map fun _ => rfl) (by omega : chunkSize * 3 ≤ limit), fun owned _ => ?_⟩
    exact ⟨logs_sendBatches owned (givenValues_map fun _ => rfl) (by omega : chunkSize * 7 ≤ limit),
      fun _ _ => Logged.Logs.pure _⟩

theorem writeUploadBatchSent_logs (batches : chunkSize * 10 ≤ limit) (single : 1 ≤ limit)
    (fqs : fqCount upload.entityRows * 2 ≤ limit) :
    Logged.Logs (· ≤ limit) (writeUploadBatchSent (toUploadBatchRows upload) chunkSize db) := by
  simp only [writeUploadBatchSent, Logged.logs_bind, logs_sendUnless]
  refine ⟨logs_sendBatches db (length_flatMap_width fun _ => rfl) batches,
    fun registered _ => ⟨fun _ => single, fun ids _ => ?_⟩⟩
  refine ⟨fun _ => ?_, fun wired _ => ?_⟩
  · rw [domesticParameters_eq, toUploadBatchRows, batchFqUpdates_eq, length_fqUpdates]
    exact fqs
  · refine ⟨logs_sendBatches wired (length_flatMap_width fun _ => rfl) (by omega : chunkSize * 3 ≤ limit), fun owned _ => ?_⟩
    exact ⟨logs_sendBatches owned (length_flatMap_width fun _ => rfl) (by omega : chunkSize * 7 ≤ limit),
      fun _ _ => Logged.Logs.pure _⟩

/-- Once the entities are written, the FQ rows go into one statement. -/
theorem processUploadTransactionSent_fqs {registered : Database}
    (entities : upsertEntityRows chunkSize upload.entityRows db = .ok registered)
    (logs : Logged.Logs (· ≤ limit) (processUploadTransactionSent chunkSize upload db)) :
    fqCount upload.entityRows * 2 ≤ limit := by
  simp only [processUploadTransactionSent, Logged.logs_bind, logs_sendUnless, outcome_sendBatches] at logs
  obtain ⟨statement, _⟩ := (logs.2 registered entities).2 _ rfl
  rw [domesticParameters_eq, length_fqUpdates, ← List.length_eq_zero_iff, length_fqUpdates] at statement
  omega

theorem writeUploadBatchSent_fqs {registered : Database}
    (entities : upsertEntityRows chunkSize upload.entityRows db = .ok registered)
    (logs : Logged.Logs (· ≤ limit) (writeUploadBatchSent (toUploadBatchRows upload) chunkSize db)) :
    fqCount upload.entityRows * 2 ≤ limit := by
  rw [← writeEntityRows_eq] at entities
  simp only [writeUploadBatchSent, Logged.logs_bind, logs_sendUnless, outcome_sendBatches] at logs
  obtain ⟨statement, _⟩ := (logs.2 registered entities).2 _ rfl
  rw [domesticParameters_eq, toUploadBatchRows, batchFqUpdates_eq, length_fqUpdates, ← List.length_eq_zero_iff,
    length_fqUpdates] at statement
  omega

variable {today : Date} {maxRows : Nat} {files : UploadFiles} {entities : ParsedSheet}

theorem accepted_entityRows (accepted : (validateUpload db today maxRows files).errors = [])
    (read : parseSlot maxRows files.entities .entities = .ok entities) :
    (validateEntitiesSheet entities today).1 = [] ∧
      (validateUpload db today maxRows files).entityRows = entities.rows.map (Entities.candidateRow entities.header) := by
  obtain ⟨_, ⟨sheet, _, _, sheets, checked⟩, _, _⟩ := validateUpload_accepted_iff.mp ⟨rfl, accepted⟩
  obtain rfl : sheet = entities := Except.ok.inj (sheets.entities.symm.trans read)
  have silent : (validateEntitiesSheet sheet today).1 = [] := by rw [checked.entityRows]
  refine ⟨silent, ?_⟩
  have returned := (validateEntitiesSheet_accepted silent).2.2.2
  rw [checked.entityRows] at returned
  exact returned

/-- Whatever the rows of an accepted upload refer to is registered by its own rows. -/
theorem referencedNames_subset (accepted : (validateUpload db today maxRows files).errors = [])
    (read : parseSlot maxRows files.entities .entities = .ok entities) :
    referencedNames (validateUpload db today maxRows files) ⊆
      (validateUpload db today maxRows files).entityRows.map fun row => normalizeName row.entityName := by
  obtain ⟨silent, returned⟩ := accepted_entityRows accepted read
  obtain ⟨storable, _⟩ := validateUpload_storable accepted
  intro name mentioned
  simp only [referencedNames, List.mem_append, List.mem_flatMap, List.mem_map, List.mem_cons, List.not_mem_nil, or_false]
    at mentioned
  rcases mentioned with (⟨row, member, own | domestic⟩ | ⟨row, member, parent | child⟩) | ⟨row, member, filed⟩
  · exact List.mem_map.mpr ⟨row, member, own.symm⟩
  · obtain ⟨domesticEntity, named, same⟩ := Option.map_eq_some_iff.mp (Option.mem_toList.mp domestic)
    rw [returned] at member ⊢
    obtain ⟨other, inside, found, _⟩ := domesticReferenceErrors_accepted (validateEntitiesSheet_accepted silent).2.2.1 member
      (Option.filter_eq_some_iff.mp named).1
    exact List.mem_map.mpr ⟨other, inside, found.trans same⟩
  · obtain ⟨entity, inside, same⟩ := storable.ends row member row.parentEntity (by simp)
    exact List.mem_map.mpr ⟨entity, inside, same.trans parent.symm⟩
  · obtain ⟨entity, inside, same⟩ := storable.ends row member row.childEntity (by simp)
    exact List.mem_map.mpr ⟨entity, inside, same.trans child.symm⟩
  · obtain ⟨entity, inside, same⟩ := storable.registered row member
    exact List.mem_map.mpr ⟨entity, inside, same.trans filed⟩

omit [Platform] in
/-- The FQ rows of entities.csv. -/
def fqRows (entities : ParsedSheet) : List ParsedRow :=
  entities.rows.filter fun row => get entities.header row.cells "Registration Type" = "FQ"

theorem accepted_fqCount (accepted : (validateUpload db today maxRows files).errors = [])
    (read : parseSlot maxRows files.entities .entities = .ok entities) :
    fqCount (validateUpload db today maxRows files).entityRows = (fqRows entities).length := by
  rw [(accepted_entityRows accepted read).2, fqCount, List.filter_map, List.length_map]
  refine congrArg List.length (List.filter_congr fun row _ => ?_)
  simp only [Function.comp_apply, Entities.candidateRow]
  exact decide_eq_decide.mpr Iff.rfl

/-- The first pass of an accepted upload is written in every database that uploads
lead to. -/
theorem accepted_registered {trace : List (Database × UploadRequest)} (run : Run uploadStep Database.initial trace db)
    (accepted : (validateUpload db today maxRows files).errors = []) (positive : 0 < chunkSize) :
    ∃ registered, upsertEntityRows chunkSize (validateUpload db today maxRows files).entityRows db = .ok registered := by
  obtain ⟨storable, businessIds⟩ := validateUpload_storable accepted
  exact upsertEntityRows_exists positive (AcceptedUpload.entityRowsFit storable (NamesStored.reachable run) businessIds)

omit [Platform] in
theorem length_businessIds_le (rows : List ParsedEntityRow) :
    (firsts (rows.filterMap ParsedEntityRow.businessId)).length ≤ rows.length :=
  Nat.le_trans (length_firsts_le (List.Subset.refl _)) (List.length_filterMap_le _ _)

/-- Where as many parameters as rows fit, `processUpload` keeps the limit if the FQ
rows do. -/
theorem processUploadParameters_bounded {limits : Limits} {limit : Nat} (batches : limits.uploadBatchChunkSize * 10 ≤ limit)
    (rows : limits.maxUploadRowsPerFile ≤ limit)
    (read : parseSlot limits.maxUploadRowsPerFile files.entities .entities = .ok entities)
    (accepted : (validateUpload db today limits.maxUploadRowsPerFile files).errors = [])
    (fqs : (fqRows entities).length * 2 ≤ limit) :
    ∀ parameters ∈ processUploadParameters limits today files db, parameters ≤ limit := by
  obtain ⟨_, _, _, within⟩ := parseSlot_ok.mp read
  have returned := (accepted_entityRows accepted read).2
  have few : (validateUpload db today limits.maxUploadRowsPerFile files).entityRows.length ≤ limit := by
    rw [returned, List.length_map]
    exact Nat.le_trans within rows
  have names := length_firsts_le (referencedNames_subset accepted read)
  rw [List.length_map] at names
  have businessIds := length_businessIds_le (validateUpload db today limits.maxUploadRowsPerFile files).entityRows
  intro parameters sent
  rw [processUploadParameters, if_neg (not_not_intro accepted)] at sent
  simp only [List.mem_append, List.mem_singleton] at sent
  rcases sent with (lookup | rfl) | statement
  · split at lookup
    · cases lookup
    · rw [List.mem_singleton.mp lookup]
      omega
  · exact Nat.zero_le _
  · refine processUploadTransactionSent_logs batches (Nat.le_trans names few) ?_ parameters statement
    rw [accepted_fqCount accepted read]
    exact fqs

/-- In a database that uploads lead to, both writers keep the limit only if the FQ
rows do. -/
theorem parameters_fqs {limits : Limits} {limit : Nat} {trace : List (Database × UploadRequest)}
    (run : Run uploadStep Database.initial trace db)
    (read : parseSlot limits.maxUploadRowsPerFile files.entities .entities = .ok entities)
    (accepted : (validateUpload db today limits.maxUploadRowsPerFile files).errors = [])
    (bounded : (∀ parameters ∈ processUploadParameters limits today files db, parameters ≤ limit) ∨
      ∀ parameters ∈ (writeUploadBatchSent (toUploadBatchRows (validateUpload db today limits.maxUploadRowsPerFile files))
        limits.uploadBatchChunkSize db).log, parameters ≤ limit) : (fqRows entities).length * 2 ≤ limit := by
  obtain ⟨registered, written⟩ := accepted_registered run accepted limits.chunkSizePositive
  rw [← accepted_fqCount accepted read]
  rcases bounded with processed | batch
  · refine processUploadTransactionSent_fqs written fun parameters sent => processed parameters ?_
    rw [processUploadParameters, if_neg (not_not_intro accepted)]
    exact List.mem_append_right _ sent
  · exact writeUploadBatchSent_fqs written batch

/-- An upload within the default limits keeps to the parameters of the protocol, in
both writers and whatever the tables hold when its batch is written, when it has at
most 32767 FQ rows.  With more of them neither writer does. -/
theorem boundParameters_exact
    (read : parseSlot Limits.default.maxUploadRowsPerFile files.entities .entities = .ok entities)
    (accepted : (validateUpload db today Limits.default.maxUploadRowsPerFile files).errors = []) :
    let batch := toUploadBatchRows (validateUpload db today Limits.default.maxUploadRowsPerFile files)
    let chunkSize := Limits.default.uploadBatchChunkSize
    ((fqRows entities).length ≤ 32767 →
      (∀ parameters ∈ processUploadParameters Limits.default today files db, parameters ≤ maxParameters) ∧
      ∀ later, ∀ parameters ∈ (writeUploadBatchSent batch chunkSize later).log, parameters ≤ maxParameters) ∧
    ∀ trace, Run uploadStep Database.initial trace db →
      ((∀ parameters ∈ processUploadParameters Limits.default today files db, parameters ≤ maxParameters) ↔
        (fqRows entities).length ≤ 32767) ∧
      ((∀ parameters ∈ (writeUploadBatchSent batch chunkSize db).log, parameters ≤ maxParameters) ↔
        (fqRows entities).length ≤ 32767) := by
  intro batch chunkSize
  have processed : (fqRows entities).length ≤ 32767 →
      ∀ parameters ∈ processUploadParameters Limits.default today files db, parameters ≤ maxParameters := fun few =>
    processUploadParameters_bounded (by decide) (by decide) read accepted (by rw [maxParameters]; omega)
  have written : (fqRows entities).length ≤ 32767 → ∀ later, ∀ parameters ∈ (writeUploadBatchSent batch chunkSize later).log,
      parameters ≤ maxParameters := by
    intro few later
    apply writeUploadBatchSent_logs
    · decide
    · decide
    · rw [accepted_fqCount accepted read, maxParameters]
      omega
  refine ⟨fun few => ⟨processed few, written few⟩,
    fun trace run => ⟨⟨fun bounded => ?_, processed⟩, fun bounded => ?_, fun few => written few db⟩⟩
  · have fqs := parameters_fqs run read accepted (.inl bounded)
    rw [maxParameters] at fqs
    omega
  · have fqs := parameters_fqs run read accepted (.inr bounded)
    rw [maxParameters] at fqs
    omega

end Bounds

omit [Platform]

theorem get_plainCells (entity : String × String × String) (column : String) (index : Nat)
    (indexed : (colIndex (SLOT_SCHEMAS .entities).requiredColumns).get? column = some index) :
    get (SLOT_SCHEMAS .entities).requiredColumns (plainCells entity) column =
      trim ((plainCells entity)[index]?.getD "") := by
  rw [Parsing.get, indexed]
  rfl

theorem plainCells_name (entity : String × String × String) :
    get (SLOT_SCHEMAS .entities).requiredColumns (plainCells entity) "Entity Name" = trim entity.1 :=
  get_plainCells entity _ 0 (by decide)

theorem plainCells_type (entity : String × String × String) :
    get (SLOT_SCHEMAS .entities).requiredColumns (plainCells entity) "Registration Type" = trim entity.2.1 :=
  get_plainCells entity _ 1 (by decide)

theorem plainCells_domestic (entity : String × String × String) :
    get (SLOT_SCHEMAS .entities).requiredColumns (plainCells entity) "Domestic Entity" = trim entity.2.2 :=
  get_plainCells entity _ 6 (by decide)

theorem plainCells_businessId (entity : String × String × String) :
    get (SLOT_SCHEMAS .entities).requiredColumns (plainCells entity) "Entity/Business ID" = trim "" :=
  get_plainCells entity _ 8 (by decide)

theorem plainCells_rules {name type domestic : String} (today : Date) (named : trim name ≠ "")
    (typed : trim type ∈ REGISTRATION_TYPES)
    (present : trim type = "FQ" → trim domestic ≠ "") (absent : trim type = "Entity" → trim domestic = "") :
    FieldRules today (get (SLOT_SCHEMAS .entities).requiredColumns (plainCells (name, type, domestic))) where
  entityName := named
  registrationType := typed
  jurisdiction := by
    change CountryOrState (trim "US")
    exact .country (by decide) (by decide)
  entityType := by
    change trim "Corporation" ∈ ENTITY_TYPES
    decide
  entityStatus := by
    change trim "Active" ∈ ENTITY_STATUSES
    decide
  statusDate blank := absurd (by decide : trim "" = "") blank
  terminal ended := by
    change trim "Active" ∈ TERMINAL_ENTITY_STATUSES at ended
    exact absurd ended (by decide)
  domesticPresent := present
  domesticAbsent := absent
  formationDate blank := absurd (by decide : trim "" = "") blank
  globalRegion blank := absurd (by decide : trim "" = "") blank

def fqName (i : Nat) : String :=
  String.ofList ('q' :: padded 5 i)

theorem trim_fqName (i : Nat) : trim (fqName i) = fqName i := by
  rw [trim, fqName, String.toList_ofList, trimChars_solid]
  intro char member
  rcases List.mem_cons.mp member with rfl | digit
  · decide
  · exact isWhitespace_digit (padded_digits char digit)

theorem fqName_inj {i j : Nat} (small : i < 10 ^ 5) (smallToo : j < 10 ^ 5) (same : fqName i = fqName j) : i = j := by
  have digits := (List.cons.inj (String.ofList_injective same)).2
  have value := congrArg (fun chars => digitsValue (String.ofList chars)) digits
  simp only [digitsValue_padded] at value
  rw [Nat.mod_eq_of_lt small, Nat.mod_eq_of_lt smallToo] at value
  exact value

theorem normalizeName_fqName (i : Nat) : letI := asciiPlatform
    normalizeName (fqName i) = fqName i := by
  have lower : ∀ char : Char, char.isDigit = true → char.toLower = char := by
    intro char digit
    simp only [Char.isDigit, Bool.and_eq_true, decide_eq_true_eq] at digit
    have upper : char.toNat ≤ 57 := digit.2
    have notUpper : ¬ (char.val ≥ 65 ∧ char.val ≤ 90) := fun letter => by
      have least : 65 ≤ char.toNat := letter.1
      omega
    exact dif_neg notUpper
  let _ := asciiPlatform
  rw [normalizeName, trim_fqName]
  change String.ofList ((fqName i).toList.map Char.toLower) = fqName i
  rw [fqName, String.toList_ofList, List.map_cons,
    List.map_congr_left fun char digit => lower char (padded_digits char digit),
    List.map_id', (by decide : 'q'.toLower = 'q')]

/-- So many FQ rows after the row of their domestic entity. -/
def bulkEntities (count : Nat) : List (String × String × String) :=
  ("Acme", "Entity", "") :: (List.range count).map fun i => (fqName i, "FQ", "Acme")

def bulkSheet (count : Nat) : ParsedSheet :=
  slotSheet .entities (numbered ((bulkEntities count).map plainCells))

theorem bulkSheet_cases {count : Nat} {row : ParsedRow} (member : row ∈ (bulkSheet count).rows) :
    row.cells = plainCells ("Acme", "Entity", "") ∨ ∃ i, row.cells = plainCells (fqName i, "FQ", "Acme") := by
  obtain ⟨entity, inside, cells⟩ := List.mem_map.mp (mem_numbered member)
  rcases List.mem_cons.mp inside with rfl | fq
  · exact .inl cells.symm
  · obtain ⟨i, _, rfl⟩ := List.mem_map.mp fq
    exact .inr ⟨i, cells.symm⟩

theorem bulkSheet_fields {count : Nat} {row : ParsedRow} (member : row ∈ (bulkSheet count).rows) (today : Date) :
    FieldRules today (get (bulkSheet count).header row.cells) := by
  rcases bulkSheet_cases member with owner | ⟨i, fq⟩
  · rw [owner]
    exact plainCells_rules today (by decide) (by decide) (by decide) (by decide)
  · rw [fq]
    refine plainCells_rules today ?_ (by decide) (by decide) (by decide)
    rw [trim_fqName, ne_eq, ← String.toList_inj, fqName, String.toList_ofList]
    exact List.cons_ne_nil _ _

theorem bulkSheet_businessId {count : Nat} {row : ParsedRow} (member : row ∈ (bulkSheet count).rows) :
    get (bulkSheet count).header row.cells "Entity/Business ID" = "" := by
  rcases bulkSheet_cases member with cells | ⟨i, cells⟩
  · rw [cells]
    exact (plainCells_businessId _).trans (by decide)
  · rw [cells]
    exact (plainCells_businessId _).trans (by decide)

theorem bulkSheet_names {count : Nat} (small : count ≤ 10 ^ 5) : letI := asciiPlatform
    ((bulkSheet count).rows.map fun row =>
      normalizeName (get (bulkSheet count).header row.cells "Entity Name")).Nodup := by
  let _ := asciiPlatform
  have names : ((bulkSheet count).rows.map fun row =>
      normalizeName (get (bulkSheet count).header row.cells "Entity Name")) =
      normalizeName (trim "Acme") :: (List.range count).map fqName := by
    refine (map_numbered (fun cells => normalizeName (get (bulkSheet count).header cells "Entity Name")) _).trans ?_
    rw [List.map_map, bulkEntities, List.map_cons, List.map_map]
    refine congrArg₂ List.cons (congrArg normalizeName (plainCells_name _)) (List.map_congr_left fun i _ => ?_)
    simp only [Function.comp_apply, bulkSheet, slotSheet, plainCells_name]
    rw [trim_fqName, normalizeName_fqName]
  have ownerFirst : (normalizeName (trim "Acme")).toList.head? = some 'a' := by decide +kernel
  rw [names, List.nodup_cons]
  constructor
  · intro listed
    obtain ⟨i, _, same⟩ := List.mem_map.mp listed
    rw [← same, fqName, String.toList_ofList] at ownerFirst
    cases ownerFirst
  · refine List.nodup_range.map_on fun i inside j insideToo same => ?_
    have bound := List.mem_range.mp inside
    have boundToo := List.mem_range.mp insideToo
    exact fqName_inj (by omega) (by omega) same

theorem bulkSheet_rules {count : Nat} (small : count ≤ 10 ^ 5) (today : Date) : letI := asciiPlatform
    SheetRules today (bulkSheet count) := by
  let _ := asciiPlatform
  have blank : ((bulkSheet count).rows.map fun row =>
      get (bulkSheet count).header row.cells "Entity/Business ID").filter (· ≠ "") = [] := by
    refine List.filter_eq_nil_iff.mpr (List.forall_mem_map.mpr fun row member => ?_)
    simp [bulkSheet_businessId member]
  refine ⟨fun row member => bulkSheet_fields member today, bulkSheet_names small, ?_, ?_⟩
  · rw [blank]
    exact List.nodup_nil
  · intro row member fqType
    have owner : ({ line := 2, cells := plainCells ("Acme", "Entity", "") } : ParsedRow) ∈ (bulkSheet count).rows :=
      List.mem_cons_self ..
    refine ⟨_, owner, plainCells_type _, ?_⟩
    rcases bulkSheet_cases member with first | ⟨i, fq⟩
    · rw [first] at fqType
      exact absurd ((plainCells_type _).symm.trans fqType) (by decide)
    · rw [fq]
      simp only [bulkSheet, slotSheet, plainCells_name, plainCells_domestic]

theorem bulkFiles_accepted {count maxRows : Nat} (small : count ≤ 10 ^ 5) (few : count < maxRows) : letI := asciiPlatform
    parseSlot maxRows (ownershipFiles (bulkEntities count) []).entities .entities = .ok (bulkSheet count) ∧
      (validateUpload .initial ⟨0⟩ maxRows (ownershipFiles (bulkEntities count) [])).errors = [] := by
  let _ := asciiPlatform
  have fits : (bulkEntities count).length ≤ maxRows := by
    rw [bulkEntities, List.length_cons, List.length_map, List.length_range]
    exact few
  have sheets := ownershipFiles_sheets fits (Nat.zero_le _) (List.forall_mem_nil _)
  have read : parseSlot maxRows (ownershipFiles (bulkEntities count) []).entities .entities = .ok (bulkSheet count) :=
    sheets.entities
  have ownership : parseSlot maxRows (ownershipFiles (bulkEntities count) []).ownership .ownership =
      .ok (slotSheet .ownership []) :=
    sheets.ownership
  have filings : parseSlot maxRows (ownershipFiles (bulkEntities count) []).filings .filings = .ok (slotSheet .filings []) :=
    sheets.filings
  have silent : (validateEntitiesSheet (bulkSheet count) ⟨0⟩).1 = [] :=
    validateEntitiesSheet_iff_rules.mpr ⟨fun _ => id, bulkSheet_rules small ⟨0⟩⟩
  refine ⟨read, ?_⟩
  have owners : validateBusinessIdsAgainstDb .initial (validateEntitiesSheet (bulkSheet count) ⟨0⟩).2 = [] :=
    List.filterMap_eq_nil_iff.mpr fun _ _ => rfl
  have ownershipSilent : ∀ types, validateOwnershipSheet (slotSheet .ownership []) types = ([], []) := fun _ => rfl
  have filingsSilent : ∀ jurisdictions, Filings.validateFilingsSheet (slotSheet .filings []) jurisdictions ⟨0⟩ = ([], []) :=
    fun _ => rfl
  simp only [validateUpload, read, ownership, filings, onSheet, structuralErrors, silent, owners, ownershipSilent,
    filingsSilent]
  rfl

theorem length_fqRows_bulkSheet (count : Nat) : (fqRows (bulkSheet count)).length = count := by
  let isFq := fun cells => decide (get (SLOT_SCHEMAS .entities).requiredColumns cells "Registration Type" = "FQ")
  have counted : (fqRows (bulkSheet count)).length = (((bulkEntities count).map plainCells).filter isFq).length := by
    have cells := map_numbered id ((bulkEntities count).map plainCells)
    rw [List.map_id] at cells
    rw [← cells, List.filter_map, List.length_map]
    simp only [fqRows, bulkSheet, slotSheet, Function.comp_def, id, isFq]
    exact congrArg List.length (List.filter_congr fun row _ => decide_eq_decide.mpr Iff.rfl)
  have all : ((List.range count).map fun i => plainCells (fqName i, "FQ", "Acme")).filter isFq =
      (List.range count).map fun i => plainCells (fqName i, "FQ", "Acme") := by
    refine List.filter_eq_self.mpr fun cells member => ?_
    obtain ⟨i, _, rfl⟩ := List.mem_map.mp member
    exact decide_eq_true ((plainCells_type _).trans (by decide : trim "FQ" = "FQ"))
  have owner : isFq (plainCells ("Acme", "Entity", "")) = false := by decide
  rw [counted, bulkEntities, List.map_cons, List.map_map, List.filter_cons, owner]
  exact (congrArg List.length all).trans (by rw [List.length_map, List.length_range])

theorem bulk_fqs {count : Nat} (small : count ≤ 10 ^ 5) (few : count < Limits.default.maxUploadRowsPerFile)
    (many : maxParameters < count * 2) : letI := asciiPlatform
    let files := ownershipFiles (bulkEntities count) []
    let upload := validateUpload .initial ⟨0⟩ Limits.default.maxUploadRowsPerFile files
    upload.errors = [] ∧
      ¬ (∀ parameters ∈ processUploadParameters Limits.default ⟨0⟩ files .initial, parameters ≤ maxParameters) ∧
      ¬ ∀ parameters ∈ (writeUploadBatchSent (toUploadBatchRows upload) Limits.default.uploadBatchChunkSize .initial).log,
        parameters ≤ maxParameters := by
  let _ := asciiPlatform
  obtain ⟨read, accepted⟩ := bulkFiles_accepted small few
  have exceeds : ¬ (fqRows (bulkSheet count)).length * 2 ≤ maxParameters := by
    rw [length_fqRows_bulkSheet]
    omega
  refine ⟨accepted, fun bounded => ?_, fun bounded => ?_⟩
  · exact exceeds (parameters_fqs .start read accepted (.inl bounded))
  · exact exceeds (parameters_fqs .start read accepted (.inr bounded))

/-- With 32768 FQ rows the statement of the second pass has 65536 parameters. -/
theorem bulk_exceeds : letI := asciiPlatform
    let files := ownershipFiles (bulkEntities 32768) []
    let upload := validateUpload .initial ⟨0⟩ Limits.default.maxUploadRowsPerFile files
    upload.errors = [] ∧
      ¬ (∀ parameters ∈ processUploadParameters Limits.default ⟨0⟩ files .initial, parameters ≤ maxParameters) ∧
      ¬ ∀ parameters ∈ (writeUploadBatchSent (toUploadBatchRows upload) Limits.default.uploadBatchChunkSize .initial).log,
        parameters ≤ maxParameters :=
  bulk_fqs (by decide) (by decide) (by decide)

theorem bulk_bounded : letI := asciiPlatform
    let files := ownershipFiles (bulkEntities 32767) []
    (validateUpload .initial ⟨0⟩ Limits.default.maxUploadRowsPerFile files).errors = [] ∧
      ∀ parameters ∈ processUploadParameters Limits.default ⟨0⟩ files .initial, parameters ≤ maxParameters := by
  let _ := asciiPlatform
  have few : 32767 < Limits.default.maxUploadRowsPerFile := by decide
  obtain ⟨read, accepted⟩ := bulkFiles_accepted (by decide : 32767 ≤ 10 ^ 5) few
  exact ⟨accepted, ((boundParameters_exact read accepted).1 (Nat.le_of_eq (length_fqRows_bulkSheet 32767))).1⟩

end Coverpin.Upload
