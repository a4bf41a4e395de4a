import Coverpin.Validation.CycleReports
import Coverpin.Validation.PercentageFaults

namespace Coverpin.Validation

open Coverpin.Data Coverpin.Database Coverpin.Parsing Relation

/-! # Percentage faults and the reported cycles

The graph check sees the rows without any error only, so a faulty percentage
takes its row out of the graph.  Two uploads whose percentages differ are
compared: their reports agree when the same rows are taken out, and otherwise
persisted edges tell them apart.
-/

namespace Graph

open Ownership

variable [Platform] {rows otherRows : List ParsedOwnershipRow} {existingEdges : List ExistingEdge}

/-- The lines of ownership.csv with a cycle error. -/
def cycleLines (errors : List ValidationError) : Set Nat :=
  {line | ∃ row : ParsedOwnershipRow, row.line = line ∧ cycleError row ∈ errors}

theorem mem_cycleLines (lines : (rows.map ParsedOwnershipRow.line).Nodup) {line : Nat} :
    line ∈ cycleLines (validateOwnershipGraph rows existingEdges) ↔
      ∃ row ∈ rows, row.line = line ∧ JoinsClosed rows existingEdges row := by
  constructor
  · intro reported
    obtain ⟨row, rfl, member⟩ := reported
    simp only [validateOwnershipGraph, cycleErrors, totalErrors, List.mem_append, List.mem_map, List.mem_filter] at member
    rcases member with ⟨other, ⟨inside, flagged⟩, same⟩ | ⟨other, _, same⟩
    · refine ⟨other, inside, congrArg ValidationError.line same, (cycleError_mem_iff lines inside).mp ?_⟩
      simp only [validateOwnershipGraph, cycleErrors, List.mem_append, List.mem_map, List.mem_filter]
      exact .inl ⟨other, ⟨inside, flagged⟩, rfl⟩
    · have column : "Ownership %" = "Parent Entity" := congrArg ValidationError.column same
      exact absurd column (by decide)
  · intro joins
    obtain ⟨row, inside, rfl, closed⟩ := joins
    exact ⟨row, rfl, (cycleError_mem_iff lines inside).mpr closed⟩

/-- Percentages count neither for the graph nor for its reports. -/
theorem cycleLines_withoutPct (lines : (rows.map ParsedOwnershipRow.line).Nodup)
    (otherLines : (otherRows.map ParsedOwnershipRow.line).Nodup) (same : otherRows.map withoutPct = rows.map withoutPct) :
    cycleLines (validateOwnershipGraph otherRows existingEdges) =
      cycleLines (validateOwnershipGraph rows existingEdges) := by
  have edges : edgeList otherRows existingEdges = edgeList rows existingEdges := by
    have keys := congrArg (List.map fun row => splitKey (edgeKey row.parentEntity row.childEntity)) same
    rw [List.map_map, List.map_map] at keys
    rw [edgeList, edgeList]
    exact congrArg _ keys
  ext line
  rw [mem_cycleLines lines, mem_cycleLines otherLines]
  simp only [JoinsClosed, edges]
  have strip : ∀ (rows : List ParsedOwnershipRow) (p : String → String → Prop),
      (∃ row ∈ rows, row.line = line ∧ p row.parentEntity row.childEntity) ↔
        ∃ row ∈ rows.map withoutPct, row.line = line ∧ p row.parentEntity row.childEntity := by
    intro rows p
    simp only [List.mem_map, exists_exists_and_eq_and]
    rfl
  let joins := fun parent child => Closed (mentions (edgeList rows existingEdges)) (successors (edgeList rows existingEdges))
      (normalizeName parent) ∧
    Closed (mentions (edgeList rows existingEdges)) (successors (edgeList rows existingEdges)) (normalizeName child)
  refine (strip otherRows joins).trans ?_
  rw [same]
  exact (strip rows joins).symm

/-- The name can stand on both sides of a key. -/
def NameReadable (name : String) : Prop :=
  ¬ bars <:+: (normalizeName name).toList ∧ ¬ ['|'] <:+ (normalizeName name).toList

theorem keySafe_of_readable {parentName childName : String} (parent : NameReadable parentName)
    (child : NameReadable childName) :
    KeySafe parentName childName :=
  keySafe_iff.mpr ⟨parent.1, parent.2, child.1⟩

theorem edgeKeys_bars {key : String} (member : key ∈ edgeKeys rows existingEdges) : bars <:+: key.toList := by
  have keyed : ∃ parent child, key = edgeKey parent child := by
    rw [edgeKeys, List.mem_append, List.mem_map, List.mem_map] at member
    rcases member with ⟨edge, _, rfl⟩ | ⟨row, _, rfl⟩
    · exact ⟨_, _, rfl⟩
    · exact ⟨_, _, rfl⟩
  obtain ⟨parent, child, rfl⟩ := keyed
  exact ⟨(normalizeName parent).toList, (normalizeName child).toList, by simp [edgeKey, bars]⟩

/-- A node with an edge was read before the separator of a key. -/
theorem readable_of_edge {name : String} {next : String}
    (edge : Edge (adjacencyOf (mergedEdges rows existingEdges)) (normalizeName name) next) : NameReadable name := by
  obtain ⟨key, member, ends⟩ := edge_adjacencyOf.mp edge
  rw [mergedEdges_keys, mem_firsts] at member
  obtain ⟨before, after, contains⟩ := edgeKeys_bars member
  obtain ⟨first, second, rest, parts⟩ := splitFrom_parts before [] (by simp [bars]) (List.prefix_append bars after)
  rw [← List.append_assoc, contains] at parts
  obtain ⟨right, _, clean⟩ := splitAt_first (by simp [bars]) parts
  have start : first = (normalizeName name).toList := by
    have read := congrArg Prod.fst ends
    simp only [splitKey, split, toList_bars] at read
    rw [splitAt, parts, List.map_cons, List.getD_cons_zero] at read
    rw [← read, String.toList_ofList]
  rw [start] at clean
  exact (noSeparatorWithin_iff _ _).mp clean

/-- Only rows of readable names are reported. -/
theorem JoinsClosed.readable {row : ParsedOwnershipRow} (joins : JoinsClosed rows existingEdges row) :
    NameReadable row.parentEntity ∧ NameReadable row.childEntity := by
  have each : ∀ name, Closed (mentions (edgeList rows existingEdges)) (successors (edgeList rows existingEdges))
      (normalizeName name) → NameReadable name := by
    intro name closed
    obtain ⟨next, edge, _⟩ := TransGen.head'_iff.mp (detectCyclicNodes_cycle (mem_detect_iff.mpr closed))
    exact readable_of_edge edge
  exact ⟨each _ joins.1, each _ joins.2⟩

/-- With nothing persisted but the reversed edge, a row of readable names joins two
closed nodes whatever the other rows are. -/
theorem joinsClosed_of_reversed {row : ParsedOwnershipRow} (pct : Nat) (member : row ∈ rows)
    (parent : NameReadable row.parentEntity) (child : NameReadable row.childEntity)
    (apart : normalizeName row.parentEntity ≠ normalizeName row.childEntity) :
    JoinsClosed rows [{ parentName := row.childEntity, childName := row.parentEntity, pct }] row := by
  let edges := edgeList rows [{ parentName := row.childEntity, childName := row.parentEntity, pct }]
  let start := normalizeName row.childEntity
  let last := normalizeName row.parentEntity
  obtain ⟨later, first⟩ : ∃ later, edges = (start, last) :: later := by
    have key : splitKey (edgeKey row.childEntity row.parentEntity) = (start, last) := keySafe_of_readable child parent
    exact ⟨_, by simp only [edges, edgeList, List.map_cons, List.map_nil, key, List.cons_append, List.nil_append]; rfl⟩
  have back : start ∈ successors edges last := by
    have key : splitKey (edgeKey row.parentEntity row.childEntity) = (last, start) := keySafe_of_readable parent child
    have listed : (last, start) ∈ edges := by
      rw [← key]
      exact List.mem_append_right _ (List.mem_map_of_mem member)
    exact List.mem_flatMap.mpr ⟨(last, start), listed, by simp⟩
  have root : (mentions edges).head? = some start := by
    rw [first]
    rfl
  have onward : (successors edges start).head? = some last := by
    rw [first, successors, List.flatMap_cons, if_pos rfl]
    rfl
  have closed : ∀ node ∈ [start, last], Closed (mentions edges) (successors edges) node :=
    closed_of_back apart.symm root onward back
  exact ⟨closed last (by simp), closed start (by simp)⟩

end Graph

section Reversed

variable [Platform]

def namedRecord (id : EntityId) (name : String) : EntityRecord where
  id
  entityName := name
  entityNameKey := normalizeName name
  registrationType := .entity
  jurisdiction := "US"
  entityType := ⟨"Trust", by decide⟩
  entityStatus := ⟨"Active", by decide⟩
  statusDate := none
  domesticEntityId := none
  formationDate := none
  businessId := none
  globalRegion := none

/-- Two entities, of which the child of a row owns half of its parent. -/
def reversedState (parentEntity childEntity : String)
    (apart : normalizeName parentEntity ≠ normalizeName childEntity) : Database where
  entities := {
    records := [namedRecord 1 childEntity, namedRecord 2 parentEntity]
    unique := by
      have names : childEntity ≠ parentEntity := fun same => apart (by rw [same])
      refine ⟨by simp [entitySchema, namedRecord], fun columns listed => ?_⟩
      simp only [entitySchema, List.mem_cons, List.not_mem_nil, or_false] at listed
      rcases listed with rfl | rfl | rfl
      · simp [agree, entitySchema, EntityRecord.read, namedRecord, names]
      · simp [agree, entitySchema, EntityRecord.read, namedRecord, apart.symm]
      · simp [agree, entitySchema, EntityRecord.read, namedRecord] }
  ownershipEdges := {
    records := [{ id := 1, parentEntityId := 1, childEntityId := 2, ownershipPct := 50 * 100 }]
    unique := by decide }
  filings := .empty
  references := by
    refine ⟨?_, ?_, List.forall_mem_nil _⟩
    · simp [namedRecord]
    · simp [Table.ids, entitySchema, namedRecord]

theorem loadExistingEdges_reversed {parentEntity childEntity : String}
    (apart : normalizeName parentEntity ≠ normalizeName childEntity) :
    loadExistingEdges (reversedState parentEntity childEntity apart) =
      [{ parentName := childEntity, childName := parentEntity, pct := 50 * 100 }] := by
  simp [loadExistingEdges, reversedState, nameOf, namedRecord]

end Reversed

section Uploads

open Ownership Coverpin.Validation.Graph

variable [Platform] {maxRows : Nat} {files others : UploadFiles} {entities ownership otherOwnership filings : ParsedSheet}
  {today : Date}

theorem parentErrors_text {entityTypeByName : InsertionMap String String} {line : Nat} {value : String}
    {error : ValidationError}
    (member : error ∈ parentErrors entityTypeByName line value) : error.message.toList.head? = some 'P' := by
  unfold parentErrors endErrors at member
  split at member
  · rw [List.mem_singleton.mp member]
    simp [requiredError, makeError, toString]
  · split at member
    · rw [List.mem_singleton.mp member]
      simp [makeError, toString]
    · split at member
      · rw [List.mem_singleton.mp member]
        simp [makeError, toString]
      · cases member

/-- Cycle errors are made by the graph check alone. -/
theorem cycleLines_upload (sheets : Sheets maxRows files entities ownership filings)
    (columns : HasColumns .ownership ownership)
    (db : Database) : cycleLines (validateUpload db today maxRows files).errors = cycleLines (validateOwnershipGraph
      (validateOwnershipSheet ownership (typesOf entities today)).2 (loadExistingEdges db)) := by
  have elsewhere : ∀ row, cycleError row ∉ (validateOwnershipSheet ownership (typesOf entities today)).1 := by
    intro row reported
    have column : (cycleError row).column = "Parent Entity" := rfl
    have text : (cycleError row).message.toList.head? = some 'O' := by simp [cycleError, makeError, toString]
    rcases (mem_validateOwnershipSheet (checkHeaderSchema_eq_nil.mpr columns)).mp reported with
      ⟨source, _, reported⟩ | duplicate
    · rcases mem_rowErrors.mp reported with parent | (child | self) | pct
      · rw [parentErrors_text parent] at text
        cases text
      · exact absurd child (endErrors_placed.not_mem column (by decide))
      · exact absurd self (selfEdgeErrors_placed.not_mem column (by decide))
      · exact absurd pct (pctErrors_placed.not_mem column (by decide))
    · rw [(duplicateErrors_text duplicate).2] at text
      cases text
  ext line
  refine exists_congr fun row => and_congr_right fun _ => ?_
  rw [sheets.mem_ownershipErrors rfl]
  exact or_iff_right (elsewhere row)

/-- Without the columns nothing reaches the graph check. -/
theorem cycleLines_incomplete (sheets : Sheets maxRows files entities ownership filings)
    (incomplete : ¬ HasColumns .ownership ownership) (db : Database) :
    cycleLines (validateUpload db today maxRows files).errors = ∅ := by
  have failed : checkHeaderSchema .ownership ownership.header ≠ [] :=
    fun silent => incomplete (checkHeaderSchema_eq_nil.mp silent)
  refine Set.eq_empty_iff_forall_notMem.mpr fun line reported => ?_
  obtain ⟨row, _, member⟩ := reported
  rw [sheets.mem_ownershipErrors rfl, validateOwnershipSheet_incomplete failed] at member
  rcases member with header | graph
  · have text : (cycleError row).message.toList.head? = some 'O' := by simp [cycleError, makeError, toString]
    have other := checkHeaderSchema_text header
    rw [text] at other
    exact absurd other (by decide)
  · simp [validateOwnershipGraph, cycleErrors, totalErrors] at graph

theorem survivors_lines (sheets : Sheets maxRows files entities ownership filings) :
    ((validateOwnershipSheet ownership (typesOf entities today)).2.map ParsedOwnershipRow.line).Nodup :=
  validateOwnershipSheet_lines (parseSlot_lines sheets.ownership) _

/-- Where the same rows are at fault, the same lines are reported. -/
theorem cycleLines_of_sameFaults (sheets : Sheets maxRows files entities ownership filings)
    (otherSheets : Sheets maxRows others entities otherOwnership filings)
    (differ : DifferInPercentages ownership otherOwnership)
    (faults : SameFaults (typesOf entities today) ownership otherOwnership) (db : Database) :
    cycleLines (validateUpload db today maxRows others).errors =
      cycleLines (validateUpload db today maxRows files).errors := by
  by_cases columns : HasColumns .ownership ownership
  · rw [cycleLines_upload sheets columns, cycleLines_upload otherSheets (differ.complete columns)]
    exact cycleLines_withoutPct (survivors_lines sheets) (survivors_lines otherSheets)
      (differ.survivors columns (parseSlot_lines sheets.ownership) (parseSlot_lines otherSheets.ownership) faults)
  · have otherColumns : ¬ HasColumns .ownership otherOwnership := fun complete => columns (differ.symm.complete complete)
    rw [cycleLines_incomplete sheets columns, cycleLines_incomplete otherSheets otherColumns]

/-- The graph check can report the row when its percentage passes: nothing else is
wrong with it, and both names can be read back from keys. -/
structure Reportable (today : Date) (entities ownership : ParsedSheet) (row : ParsedRow) : Prop where
  columns : HasColumns .ownership ownership
  sound : SoundButPct (typesOf entities today) ownership row
  parent : NameReadable (get ownership.header row.cells "Parent Entity")
  child : NameReadable (get ownership.header row.cells "Child Entity")

theorem sound_apart {row : ParsedRow} {entityTypeByName : InsertionMap String String}
    (sound : SoundButPct entityTypeByName ownership row) :
    normalizeName (get ownership.header row.cells "Parent Entity") ≠
      normalizeName (get ownership.header row.cells "Child Entity") := by
  obtain ⟨parent, child, self⟩ := fields_iff.mp sound.fields
  intro same
  simp [selfEdgeErrors, endErrors_present parent, endErrors_present child, same] at self

theorem Reportable.transfer {row otherRow : ParsedRow} (reportable : Reportable today entities ownership row)
    (differ : DifferInPercentages ownership otherOwnership) (same : SameButPct ownership.header row otherRow) :
    Reportable today entities otherOwnership otherRow := by
  refine ⟨differ.complete reportable.columns, differ.sound same reportable.sound, ?_, ?_⟩
  · rw [differ.header, same.2 "Parent Entity" (by decide)]
    exact reportable.parent
  · rw [differ.header, same.2 "Child Entity" (by decide)]
    exact reportable.child

/-- Against its reversed edge a row is reported exactly when its percentage passes. -/
theorem reversed_reported (sheets : Sheets maxRows files entities ownership filings) {row : ParsedRow}
    (member : row ∈ ownership.rows) (reportable : Reportable today entities ownership row) {db : Database} {pct : Nat}
    {parentName childName : String} (parent : get ownership.header row.cells "Parent Entity" = parentName)
    (child : get ownership.header row.cells "Child Entity" = childName)
    (edges : loadExistingEdges db = [{ parentName := childName, childName := parentName, pct }]) :
    row.line ∈ cycleLines (validateUpload db today maxRows files).errors ↔ PctAccepted ownership row := by
  have lines := parseSlot_lines sheets.ownership
  rw [cycleLines_upload sheets reportable.columns, edges, mem_cycleLines (survivors_lines sheets),
    survivors_eq reportable.columns]
  constructor
  · intro reported
    obtain ⟨parsed, survivor, line, _⟩ := reported
    obtain ⟨source, kept, rfl⟩ := List.mem_map.mp survivor
    obtain ⟨inside, survives⟩ := List.mem_filter.mp kept
    obtain rfl : source = row := List.inj_on_of_nodup_map lines inside member line
    exact ((survives_iff reportable.columns lines member).mp survives).2
  · intro accepted
    subst parent child
    have survivor : candidateRow ownership.header row ∈
        (ownership.rows.filter (survives (typesOf entities today) ownership)).map (candidateRow ownership.header) :=
      List.mem_map_of_mem (List.mem_filter.mpr
        ⟨member, (survives_iff reportable.columns lines member).mpr ⟨reportable.sound, accepted⟩⟩)
    have apart : normalizeName (candidateRow ownership.header row).parentEntity ≠
        normalizeName (candidateRow ownership.header row).childEntity := sound_apart reportable.sound
    have joins := joinsClosed_of_reversed pct survivor reportable.parent reportable.child apart
    exact ⟨candidateRow ownership.header row, survivor, by rfl, joins⟩

/-- Where no row can be reported, no line is. -/
theorem cycleLines_empty (sheets : Sheets maxRows files entities ownership filings) (db : Database)
    (silent : ∀ row ∈ ownership.rows, ¬ Reportable today entities ownership row) :
    cycleLines (validateUpload db today maxRows files).errors = ∅ := by
  by_cases columns : HasColumns .ownership ownership
  · have lines := parseSlot_lines sheets.ownership
    refine Set.eq_empty_iff_forall_notMem.mpr fun line reported => ?_
    rw [cycleLines_upload sheets columns, mem_cycleLines (survivors_lines sheets)] at reported
    obtain ⟨parsed, survivor, _, joins⟩ := reported
    rw [survivors_eq columns] at survivor
    obtain ⟨row, kept, rfl⟩ := List.mem_map.mp survivor
    obtain ⟨member, survives⟩ := List.mem_filter.mp kept
    obtain ⟨parent, child⟩ := joins.readable
    exact silent row member ⟨columns, ((survives_iff columns lines member).mp survives).1, parent, child⟩
  · exact cycleLines_incomplete sheets columns db

/-- The percentage of one row can be changed for the better or the worse. -/
theorem exists_other_upload (sheets : Sheets maxRows files entities ownership filings) {row : ParsedRow}
    (member : row ∈ ownership.rows) (columns : HasColumns .ownership ownership)
    (sound : SoundButPct (typesOf entities today) ownership row) :
    ∃ others otherOwnership, Sheets maxRows others entities otherOwnership filings ∧
      DifferInPercentages ownership otherOwnership ∧ ∃ otherRow ∈ otherOwnership.rows,
        SameButPct ownership.header row otherRow ∧ (PctAccepted otherOwnership otherRow ↔ ¬ PctAccepted ownership row) := by
  let value := if PctAccepted ownership row then "" else "50"
  obtain ⟨file, _, read, within⟩ := parseSlot_ok.mp sheets.ownership
  have named : get ownership.header row.cells "Parent Entity" ≠ "" := by
    have present := endErrors_present (fields_iff.mp sound.fields).1
    intro empty
    rw [empty] at present
    exact absurd present (by decide)
  obtain ⟨other, reread⟩ := parseSheetSync_rewritten read (changePct ownership.header row.cells value)
    fun _ => any_changePct named
  have otherRead : parseSlot maxRows (some other) .ownership = .ok (changedSheet ownership row.cells value) :=
    parseSlot_ok.mpr ⟨other, rfl, reread, by rw [changedSheet, List.length_map]; exact within⟩
  refine ⟨{ files with ownership := some other }, changedSheet ownership row.cells value,
    ⟨sheets.entities, otherRead, sheets.filings⟩, differ_changedSheet .., _, List.mem_map_of_mem member,
    sameButPct_changePct row, ?_⟩
  rw [pctAccepted_changedSheet columns]
  by_cases accepted : PctAccepted ownership row
  · refine iff_of_false (fun silent => ?_) (not_not_intro accepted)
    rw [show value = "" from if_pos accepted] at silent
    exact absurd silent (List.cons_ne_nil _ _)
  · refine iff_of_true ?_ accepted
    rw [show value = "50" from if_neg accepted]
    exact pctErrors_fifty row.line

/-- The cycle errors stand on the same lines, whatever is persisted. -/
def SameReports (today : Date) (maxRows : Nat) (files others : UploadFiles) : Prop :=
  ∀ db : Database, cycleLines (validateUpload db today maxRows others).errors =
    cycleLines (validateUpload db today maxRows files).errors

/-- A readable row that is at fault in one of the sheets only makes a difference. -/
theorem pctAccepted_of_reports (sheets : Sheets maxRows files entities ownership filings)
    (otherSheets : Sheets maxRows others entities otherOwnership filings)
    (differ : DifferInPercentages ownership otherOwnership) (reports : SameReports today maxRows files others)
    {row otherRow : ParsedRow} (member : row ∈ ownership.rows) (otherMember : otherRow ∈ otherOwnership.rows)
    (same : SameButPct ownership.header row otherRow) (reportable : Reportable today entities ownership row) :
    PctAccepted otherOwnership otherRow ↔ PctAccepted ownership row := by
  obtain ⟨db, edges⟩ : ∃ db, loadExistingEdges db = [{
      parentName := get ownership.header row.cells "Child Entity"
      childName := get ownership.header row.cells "Parent Entity", pct := 50 * 100 }] :=
    ⟨_, loadExistingEdges_reversed (sound_apart reportable.sound)⟩
  have parent : get otherOwnership.header otherRow.cells "Parent Entity" =
      get ownership.header row.cells "Parent Entity" := by
    rw [differ.header, same.2 "Parent Entity" (by decide)]
  have child : get otherOwnership.header otherRow.cells "Child Entity" = get ownership.header row.cells "Child Entity" := by
    rw [differ.header, same.2 "Child Entity" (by decide)]
  have first := reversed_reported sheets member reportable rfl rfl edges
  have second := reversed_reported otherSheets otherMember (reportable.transfer differ same) parent child edges
  rw [reports, same.1] at second
  exact second.symm.trans first

/-- Cycles are reported alike when the same rows have a faulty percentage.  A row
that the graph check could report makes a difference otherwise, so that only sheets
without such a row are reported alike whatever their percentages. -/
theorem cycleReports_agree (sheets : Sheets maxRows files entities ownership filings) (today : Date) :
    ((∀ others otherOwnership, Sheets maxRows others entities otherOwnership filings →
        DifferInPercentages ownership otherOwnership → SameReports today maxRows files others) ↔
      ∀ row ∈ ownership.rows, ¬ Reportable today entities ownership row) ∧
    ∀ others otherOwnership, Sheets maxRows others entities otherOwnership filings →
      DifferInPercentages ownership otherOwnership →
        (SameFaults (typesOf entities today) ownership otherOwnership → SameReports today maxRows files others) ∧
        (SameReports today maxRows files others → ∀ row ∈ ownership.rows, ∀ otherRow ∈ otherOwnership.rows,
          otherRow.line = row.line → Reportable today entities ownership row →
            (PctAccepted otherOwnership otherRow ↔ PctAccepted ownership row)) := by
  refine ⟨⟨?_, ?_⟩, ?_⟩
  · intro agree row member reportable
    obtain ⟨others, otherOwnership, otherSheets, differ, otherRow, otherMember, same, changed⟩ :=
      exists_other_upload sheets member reportable.columns reportable.sound
    have reports := agree others otherOwnership otherSheets differ
    have kept := pctAccepted_of_reports sheets otherSheets differ reports member otherMember same reportable
    exact not_iff_self (changed.symm.trans kept)
  · intro silent others otherOwnership otherSheets differ db
    have otherSilent : ∀ otherRow ∈ otherOwnership.rows, ¬ Reportable today entities otherOwnership otherRow := by
      intro otherRow otherMember reportable
      obtain ⟨row, named, same⟩ := differ.partner (reportable.sound.named otherMember)
      have back : SameButPct otherOwnership.header otherRow row := by
        rw [differ.header]
        exact same.symm
      exact silent row (List.mem_filter.mp named).1 (reportable.transfer differ.symm back)
    rw [cycleLines_empty sheets db silent, cycleLines_empty otherSheets db otherSilent]
  · intro others otherOwnership otherSheets differ
    refine ⟨fun faults db => cycleLines_of_sameFaults sheets otherSheets differ faults db, ?_⟩
    intro reports row member otherRow otherMember line reportable
    obtain ⟨partner, named, same⟩ := differ.symm.partner (reportable.sound.named member)
    have partnerMember := (List.mem_filter.mp named).1
    obtain rfl : partner = otherRow :=
      List.inj_on_of_nodup_map (parseSlot_lines otherSheets.ownership) partnerMember otherMember (same.1.symm.trans line.symm)
    have forth : SameButPct ownership.header row partner := by
      rw [← differ.header]
      exact same.symm
    exact pctAccepted_of_reports sheets otherSheets differ reports member otherMember forth reportable

end Uploads

/-- Two entities that own each other, the second edge with the given percentage. -/
def mutualFiles (pct : String) : UploadFiles :=
  ownershipFiles [("Acme", "Entity", ""), ("Beta", "Entity", "")] [("Acme", "Beta", "50"), ("Beta", "Acme", pct)]

def mutualEntities : ParsedSheet := slotSheet .entities [
  { line := 2, cells := ["Acme", "Entity", "US", "Corporation", "Active", "", "", "", "", ""] },
  { line := 3, cells := ["Beta", "Entity", "US", "Corporation", "Active", "", "", "", "", ""] }]

def mutualOwnership (pct : String) : ParsedSheet := slotSheet .ownership [
  { line := 2, cells := ["Acme", "Beta", "50"] }, { line := 3, cells := ["Beta", "Acme", pct] }]

theorem mutual_sheets (pct : String) : letI := asciiPlatform
    Sheets 10 (mutualFiles pct) mutualEntities (mutualOwnership pct) (slotSheet .filings []) := by
  apply ownershipFiles_sheets
  · decide
  · exact Nat.le_add_left 2 8
  · intro edge member
    rcases List.mem_pair.mp member with rfl | rfl
    · exact show trim "Acme" ≠ "" by decide
    · exact show trim "Beta" ≠ "" by decide

theorem mutual_differ (pct : String) : letI := asciiPlatform
    Ownership.DifferInPercentages (mutualOwnership "50") (mutualOwnership pct) := by
  let _ := asciiPlatform
  have named : ∀ pct, Ownership.namedRows (mutualOwnership pct) = (mutualOwnership pct).rows := by
    intro pct
    refine List.filter_eq_self.mpr fun row member => ?_
    have parent : get (mutualOwnership pct).header row.cells "Parent Entity" = trim "Acme" ∨
        get (mutualOwnership pct).header row.cells "Parent Entity" = trim "Beta" := by
      rcases List.mem_pair.mp member with rfl | rfl
      · exact .inl rfl
      · exact .inr rfl
    rcases parent with acme | beta
    · rw [acme]
      rfl
    · rw [beta]
      rfl
  refine ⟨rfl, ?_⟩
  rw [named, named]
  refine .cons ⟨rfl, fun _ _ => rfl⟩ (.cons ⟨rfl, fun column apart => ?_⟩ .nil)
  let header := (mutualOwnership pct).header
  have kept : get header (withPct header pct ["Beta", "Acme", "50"]) column = get header ["Beta", "Acme", "50"] column :=
    get_withPct_other apart
  exact kept

/-- Both lines are reported, then none. -/
theorem mutual_hidden : letI := asciiPlatform
    Sheets 10 (mutualFiles "50") mutualEntities (mutualOwnership "50") (slotSheet .filings []) ∧
    Sheets 10 (mutualFiles "") mutualEntities (mutualOwnership "") (slotSheet .filings []) ∧
    Ownership.DifferInPercentages (mutualOwnership "50") (mutualOwnership "") ∧
    Graph.cycleLines (validateUpload .initial ⟨0⟩ 10 (mutualFiles "50")).errors ≠
      Graph.cycleLines (validateUpload .initial ⟨0⟩ 10 (mutualFiles "")).errors := by
  let _ := asciiPlatform
  refine ⟨mutual_sheets "50", mutual_sheets "", mutual_differ "", fun same => ?_⟩
  have shown : 2 ∈ Graph.cycleLines (validateUpload .initial ⟨0⟩ 10 (mutualFiles "50")).errors :=
    ⟨{ line := 2, parentEntity := "Acme", childEntity := "Beta", ownershipPct := 5000 }, rfl, by decide +kernel⟩
  have hidden : (validateUpload .initial ⟨0⟩ 10 (mutualFiles "")).errors =
      [requiredError Ownership.FILE 3 "Ownership %"] := by
    decide +kernel
  rw [same, hidden] at shown
  obtain ⟨row, line, member⟩ := shown
  have column := congrArg ValidationError.column (List.mem_singleton.mp member)
  exact absurd column (by simp [Graph.cycleError, makeError, requiredError])

theorem mutual_reportable : letI := asciiPlatform
    Reportable ⟨0⟩ mutualEntities (mutualOwnership "50") { line := 2, cells := ["Acme", "Beta", "50"] } := by
  let _ := asciiPlatform
  refine ⟨fun _ => id, ⟨?_, ?_⟩, ?_, ?_⟩
  · decide +kernel
  · decide +kernel
  · exact ⟨by decide +kernel, by decide +kernel⟩
  · exact ⟨by decide +kernel, by decide +kernel⟩

theorem mutual_agree : letI := asciiPlatform
    ¬ ∀ others otherOwnership, Sheets 10 others mutualEntities otherOwnership (slotSheet .filings []) →
      Ownership.DifferInPercentages (mutualOwnership "50") otherOwnership →
        SameReports ⟨0⟩ 10 (mutualFiles "50") others := by
  let _ := asciiPlatform
  intro agree
  exact (cycleReports_agree (mutual_sheets "50") ⟨0⟩).1.mp agree _ (List.mem_cons_self ..) mutual_reportable

end Coverpin.Validation
