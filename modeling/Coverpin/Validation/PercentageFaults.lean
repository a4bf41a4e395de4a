import Coverpin.Validation.ErrorSources

namespace Coverpin.Validation

open Coverpin.Data Coverpin.Parsing

/-! # Percentage faults

Two ownership sheets that differ in percentages have the same errors but for the
percentages, and keep the same rows when the same rows are at fault.
-/

namespace Ownership

variable [Platform] {entityTypeByName : InsertionMap String String} {sheet other : ParsedSheet}

/-- The same line with the same cells, but for the percentage. -/
def SameButPct (header : List String) (row other : ParsedRow) : Prop :=
  other.line = row.line ∧ ∀ column ≠ "Ownership %", get header other.cells column = get header row.cells column

/-- The rows that give a name; others are dropped when the percentage is blank too. -/
def namedRows (sheet : ParsedSheet) : List ParsedRow :=
  sheet.rows.filter fun row =>
    !isBlank (get sheet.header row.cells "Parent Entity") || !isBlank (get sheet.header row.cells "Child Entity")

structure DifferInPercentages (sheet other : ParsedSheet) : Prop where
  header : other.header = sheet.header
  rows : List.Forall₂ (SameButPct sheet.header) (namedRows sheet) (namedRows other)

/-- Every error on the row is about its percentage. -/
structure SoundButPct (entityTypeByName : InsertionMap String String) (sheet : ParsedSheet) (row : ParsedRow) : Prop where
  fields : ∀ error ∈ rowErrors sheet.header entityTypeByName row, error.column = "Ownership %"
  single : ∀ error ∈ duplicateErrors (sheet.rows.map (candidateRow sheet.header)), error.line ≠ row.line

/-- The percentage of the row passes its checks. -/
def PctAccepted (sheet : ParsedSheet) (row : ParsedRow) : Prop :=
  pctErrors row.line (get sheet.header row.cells "Ownership %") = []

instance (sheet : ParsedSheet) (row : ParsedRow) : Decidable (PctAccepted sheet row) :=
  inferInstanceAs (Decidable (_ = _))

theorem fields_iff {header : List String} {row : ParsedRow} :
    (∀ error ∈ rowErrors header entityTypeByName row, error.column = "Ownership %") ↔
      parentErrors entityTypeByName row.line (get header row.cells "Parent Entity") = [] ∧
      childErrors entityTypeByName row.line (get header row.cells "Child Entity") = [] ∧
      selfEdgeErrors row.line (get header row.cells "Parent Entity") (get header row.cells "Child Entity") = [] := by
  simp only [mem_rowErrors]
  constructor
  · intro pctOnly
    refine ⟨?_, ?_, ?_⟩
    · refine List.eq_nil_iff_forall_not_mem.mpr fun error member => ?_
      have column := pctOnly error (.inl member)
      exact absurd member (endErrors_placed.not_mem column (by decide))
    · refine List.eq_nil_iff_forall_not_mem.mpr fun error member => ?_
      have column := pctOnly error (.inr (.inl (.inl member)))
      exact absurd member (endErrors_placed.not_mem column (by decide))
    · refine List.eq_nil_iff_forall_not_mem.mpr fun error member => ?_
      have column := pctOnly error (.inr (.inl (.inr member)))
      exact absurd member (selfEdgeErrors_placed.not_mem column (by decide))
  · intro silent error reported
    obtain ⟨parent, child, self⟩ := silent
    rw [parent, child, self] at reported
    rcases reported with member | (member | member) | pct
    · cases member
    · cases member
    · cases member
    · exact (pctErrors_placed error pct).2.2

/-- The row goes on to the graph check. -/
def survives (entityTypeByName : InsertionMap String String) (sheet : ParsedSheet) (row : ParsedRow) : Bool :=
  decide (rowErrors sheet.header entityTypeByName row = []) &&
    !((validateOwnershipSheet sheet entityTypeByName).1.map ValidationError.line).contains row.line

theorem survivors_eq (complete : HasColumns .ownership sheet) : (validateOwnershipSheet sheet entityTypeByName).2 =
    (sheet.rows.filter (survives entityTypeByName sheet)).map (candidateRow sheet.header) := by
  have header := checkHeaderSchema_eq_nil.mpr complete
  have kept : (validateOwnershipSheet sheet entityTypeByName).2 = ((sheet.rows.map fun row =>
      (candidateRow sheet.header row, decide (rowErrors sheet.header entityTypeByName row ≠ []))).filter fun entry =>
        !entry.2 && !((validateOwnershipSheet sheet entityTypeByName).1.map ValidationError.line).contains entry.1.line).map
      Prod.fst := by
    simp only [validateOwnershipSheet, header, ne_eq, not_true_eq_false, if_false]
  rw [kept, List.filter_map, List.map_map]
  refine congrArg (List.map _) (List.filter_congr fun row _ => ?_)
  simp [survives, candidateRow]

theorem survives_iff (complete : HasColumns .ownership sheet) (lines : (sheet.rows.map ParsedRow.line).Nodup)
    {row : ParsedRow} (member : row ∈ sheet.rows) : survives entityTypeByName sheet row = true ↔
      SoundButPct entityTypeByName sheet row ∧ PctAccepted sheet row := by
  have header := checkHeaderSchema_eq_nil.mpr complete
  rw [survives, Bool.and_eq_true, decide_eq_true_eq, Bool.not_eq_true', ← Bool.not_eq_true, List.contains_iff_mem,
    List.mem_map]
  constructor
  · intro kept
    obtain ⟨silent, free⟩ := kept
    refine ⟨⟨by simp [silent], fun error reported same => ?_⟩, ?_⟩
    · exact free ⟨error, (mem_validateOwnershipSheet header).mpr (.inr reported), same⟩
    · simp only [rowErrors, List.append_eq_nil_iff] at silent
      exact silent.2
  · intro sound
    obtain ⟨⟨fields, single⟩, accepted⟩ := sound
    have silent : rowErrors sheet.header entityTypeByName row = [] := by
      obtain ⟨parent, child, self⟩ := fields_iff.mp fields
      rw [rowErrors, parent, child, self, accepted]
      rfl
    refine ⟨silent, fun listed => ?_⟩
    obtain ⟨error, reported, line⟩ := listed
    rcases (mem_validateOwnershipSheet header).mp reported with ⟨source, inside, reported⟩ | duplicate
    · obtain rfl : source = row := List.inj_on_of_nodup_map lines inside member ((rowErrors_at reported).2.symm.trans line)
      rw [silent] at reported
      cases reported
    · exact single error duplicate line

omit [Platform] in
def withoutPct (row : ParsedOwnershipRow) : ParsedOwnershipRow :=
  { row with ownershipPct := 0 }

/-- The row counts for the check of repeated pairs. -/
def isPair (row : ParsedOwnershipRow) : Bool :=
  !isBlank row.parentEntity && !isBlank row.childEntity && normalizeName row.parentEntity != normalizeName row.childEntity

theorem duplicate_line_iff {rows : List ParsedOwnershipRow} {line : Nat} :
    (∃ error ∈ duplicateErrors rows, error.line = line) ↔ ∃ row ∈ rows, row.line = line ∧ isPair row = true ∧
      1 < ((rows.filter isPair).filter fun other =>
        edgeKey other.parentEntity other.childEntity = edgeKey row.parentEntity row.childEntity).length := by
  constructor
  · intro reported
    obtain ⟨error, reported, rfl⟩ := reported
    obtain ⟨⟨key, group⟩, entry, reported⟩ := List.mem_flatMap.mp reported
    simp only at reported
    split at reported
    · rename_i repeated
      obtain ⟨row, inside, rfl⟩ := List.mem_map.mp reported
      obtain ⟨rfl, _⟩ := InsertionMap.mem_groupBy.mp entry
      have kept := List.mem_filter.mp inside
      obtain ⟨member, pair⟩ := List.mem_filter.mp kept.1
      have same := of_decide_eq_true kept.2
      refine ⟨row, member, rfl, pair, ?_⟩
      rw [same]
      exact repeated
    · cases reported
  · intro repeated
    obtain ⟨row, member, rfl, pair, repeated⟩ := repeated
    let group := (rows.filter isPair).filter fun other =>
      edgeKey other.parentEntity other.childEntity = edgeKey row.parentEntity row.childEntity
    have grouped : row ∈ group := List.mem_filter.mpr ⟨List.mem_filter.mpr ⟨member, pair⟩, decide_eq_true rfl⟩
    have listed : (edgeKey row.parentEntity row.childEntity, group) ∈ (seenPairs rows).entries :=
      InsertionMap.mem_groupBy.mpr ⟨rfl, List.ne_nil_of_mem grouped⟩
    let rowByLine := InsertionMap.ofPairs (rows.map fun row => (row.line, row))
    refine ⟨duplicateError ((rowByLine.get? row.line).getD row) row.line group.length,
      List.mem_flatMap.mpr ⟨_, listed, ?_⟩, rfl⟩
    simp only [group, if_pos repeated]
    exact List.mem_map.mpr ⟨row, grouped, rfl⟩

/-- Repeated pairs are found among the rows that give a name. -/
theorem duplicate_line_named {line : Nat} :
    (∃ error ∈ duplicateErrors ((namedRows sheet).map (candidateRow sheet.header)), error.line = line) ↔
      ∃ error ∈ duplicateErrors (sheet.rows.map (candidateRow sheet.header)), error.line = line := by
  have pairs : ((namedRows sheet).map (candidateRow sheet.header)).filter isPair =
      (sheet.rows.map (candidateRow sheet.header)).filter isPair := by
    rw [List.filter_map, List.filter_map, namedRows, List.filter_filter]
    refine congrArg (List.map _) (List.filter_congr fun row _ => ?_)
    simp only [Function.comp_apply, isPair, candidateRow]
    cases isBlank (get sheet.header row.cells "Parent Entity") <;> simp
  have split : ∀ (rows : List ParsedOwnershipRow) (p : ParsedOwnershipRow → Prop),
      (∃ row ∈ rows, row.line = line ∧ isPair row = true ∧ p row) ↔ ∃ row ∈ rows.filter isPair, row.line = line ∧ p row := by
    intro rows p
    simp only [List.mem_filter]
    grind
  rw [duplicate_line_iff, duplicate_line_iff, split, split, pairs]

theorem duplicate_line_withoutPct {rows : List ParsedOwnershipRow} {line : Nat} :
    (∃ error ∈ duplicateErrors (rows.map withoutPct), error.line = line) ↔
      ∃ error ∈ duplicateErrors rows, error.line = line := by
  rw [duplicate_line_iff, duplicate_line_iff]
  simp only [List.mem_map, exists_exists_and_eq_and, List.filter_map, List.length_map]
  rfl

/-- A row without other errors gives a name. -/
theorem SoundButPct.named {row : ParsedRow} (sound : SoundButPct entityTypeByName sheet row) (member : row ∈ sheet.rows) :
    row ∈ namedRows sheet :=
  List.mem_filter.mpr ⟨member, by simp [endErrors_present (fields_iff.mp sound.fields).1]⟩

theorem survivors_named (complete : HasColumns .ownership sheet) (lines : (sheet.rows.map ParsedRow.line).Nodup) :
    (validateOwnershipSheet sheet entityTypeByName).2 =
      ((namedRows sheet).filter (survives entityTypeByName sheet)).map (candidateRow sheet.header) := by
  rw [survivors_eq complete, namedRows, List.filter_filter]
  refine congrArg (List.map _) (List.filter_congr fun row member => ?_)
  cases kept : survives entityTypeByName sheet row with
  | false => rfl
  | true =>
      have named := ((survives_iff complete lines member).mp kept).1.named member
      rw [(List.mem_filter.mp named).2]
      rfl

section Differ

omit [Platform] in
theorem SameButPct.withoutPct {header : List String} {row otherRow : ParsedRow} (same : SameButPct header row otherRow) :
    withoutPct (candidateRow header otherRow) = withoutPct (candidateRow header row) := by
  simp only [Ownership.withoutPct, candidateRow, same.1, same.2 "Parent Entity" (by decide),
    same.2 "Child Entity" (by decide)]

omit [Platform] in
theorem SameButPct.symm {header : List String} {row otherRow : ParsedRow} (same : SameButPct header row otherRow) :
    SameButPct header otherRow row :=
  ⟨same.1.symm, fun column apart => (same.2 column apart).symm⟩

omit [Platform] in
theorem DifferInPercentages.symm (differ : DifferInPercentages sheet other) : DifferInPercentages other sheet where
  header := differ.header.symm
  rows := by
    rw [differ.header]
    exact differ.rows.flip.imp fun _ _ same => SameButPct.symm same

omit [Platform] in
theorem DifferInPercentages.candidates (differ : DifferInPercentages sheet other) :
    ((namedRows other).map (candidateRow other.header)).map withoutPct =
      ((namedRows sheet).map (candidateRow sheet.header)).map withoutPct := by
  obtain ⟨header, rows⟩ := differ
  rw [header, List.map_map, List.map_map]
  generalize namedRows sheet = rows, namedRows other = otherRows at rows ⊢
  induction rows with
  | nil => rfl
  | cons same _ induction =>
      rw [List.map_cons, List.map_cons, induction, Function.comp_apply, Function.comp_apply, same.withoutPct]

omit [Platform] in
theorem DifferInPercentages.complete (differ : DifferInPercentages sheet other) (complete : HasColumns .ownership sheet) :
    HasColumns .ownership other := by
  rw [HasColumns, differ.header]
  exact complete

omit [Platform] in
theorem DifferInPercentages.partner (differ : DifferInPercentages sheet other) {otherRow : ParsedRow}
    (member : otherRow ∈ namedRows other) :
    ∃ row ∈ namedRows sheet, SameButPct sheet.header row otherRow := by
  obtain ⟨_, rows⟩ := differ
  generalize namedRows sheet = rows, namedRows other = otherRows at rows member ⊢
  induction rows with
  | nil => cases member
  | cons same _ induction =>
      rcases List.mem_cons.mp member with rfl | later
      · exact ⟨_, List.mem_cons_self .., same⟩
      · obtain ⟨row, inside, same⟩ := induction later
        exact ⟨row, List.mem_cons_of_mem _ inside, same⟩

/-- Rows that correspond to each other have the same errors but for the percentage. -/
theorem DifferInPercentages.sound (differ : DifferInPercentages sheet other) {row otherRow : ParsedRow}
    (same : SameButPct sheet.header row otherRow) (sound : SoundButPct entityTypeByName sheet row) :
    SoundButPct entityTypeByName other otherRow where
  fields := by
    have fields := fields_iff.mp sound.fields
    rw [fields_iff, differ.header, same.1, same.2 "Parent Entity" (by decide), same.2 "Child Entity" (by decide)]
    exact fields
  single := by
    intro error reported line
    have repeated : ∃ error ∈ duplicateErrors (other.rows.map (candidateRow other.header)), error.line = otherRow.line :=
      ⟨error, reported, line⟩
    rw [← duplicate_line_named, ← duplicate_line_withoutPct, differ.candidates, duplicate_line_withoutPct,
      duplicate_line_named] at repeated
    obtain ⟨error, reported, line⟩ := repeated
    exact sound.single error reported (line.trans same.1)

omit [Platform] in
theorem filter_map_of_forall₂ {α β γ : Type} {R : α → β → Prop} {p : α → Bool} {q : β → Bool} {f : α → γ} {g : β → γ}
    {items : List α} {others : List β} (related : List.Forall₂ R items others)
    (same : ∀ item ∈ items, ∀ other ∈ others, R item other → q other = p item ∧ g other = f item) :
    (others.filter q).map g = (items.filter p).map f := by
  induction related with
  | nil => rfl
  | cons holds _ induction =>
      obtain ⟨kept, mapped⟩ := same _ (List.mem_cons_self ..) _ (List.mem_cons_self ..) holds
      have rest := induction fun item member other otherMember =>
        same item (List.mem_cons_of_mem _ member) other (List.mem_cons_of_mem _ otherMember)
      rw [List.filter_cons, List.filter_cons, kept]
      split
      · rw [List.map_cons, List.map_cons, mapped, rest]
      · exact rest

/-- The same rows without other errors have a faulty percentage in both sheets. -/
def SameFaults (entityTypeByName : InsertionMap String String) (sheet other : ParsedSheet) : Prop :=
  ∀ row ∈ sheet.rows, ∀ otherRow ∈ other.rows, otherRow.line = row.line → SoundButPct entityTypeByName sheet row →
    (PctAccepted other otherRow ↔ PctAccepted sheet row)

/-- Then the same rows go on to the graph check. -/
theorem DifferInPercentages.survivors (differ : DifferInPercentages sheet other) (complete : HasColumns .ownership sheet)
    (lines : (sheet.rows.map ParsedRow.line).Nodup) (otherLines : (other.rows.map ParsedRow.line).Nodup)
    (faults : SameFaults entityTypeByName sheet other) :
    (validateOwnershipSheet other entityTypeByName).2.map withoutPct =
      (validateOwnershipSheet sheet entityTypeByName).2.map withoutPct := by
  rw [survivors_named complete lines, survivors_named (differ.complete complete) otherLines, List.map_map, List.map_map]
  refine filter_map_of_forall₂ differ.rows fun row named otherRow otherNamed same => ⟨?_, ?_⟩
  · have member := (List.mem_filter.mp named).1
    have otherMember := (List.mem_filter.mp otherNamed).1
    rw [Bool.eq_iff_iff, survives_iff complete lines member, survives_iff (differ.complete complete) otherLines otherMember]
    constructor
    · intro kept
      have back : SameButPct other.header otherRow row := by
        rw [differ.header]
        exact same.symm
      have sound := differ.symm.sound back kept.1
      exact ⟨sound, (faults row member otherRow otherMember same.1 sound).mp kept.2⟩
    · intro kept
      exact ⟨differ.sound same kept.1, (faults row member otherRow otherMember same.1 kept.1).mpr kept.2⟩
  · rw [differ.header]
    exact same.withoutPct

end Differ

end Ownership

section Rewritten

variable {header cells : List String} {column value : String}

/-- The cells of a row with another text in the percentage column. -/
def withPct (header : List String) (value : String) (cells : List String) : List String :=
  (List.range header.length).map fun index =>
    if (colIndex header).get? "Ownership %" = some index then value else cells.getD index ""

theorem colIndex_getElem {index : Nat} (found : (colIndex header).get? column = some index) :
    header[index]? = some column := by
  have member := InsertionMap.mem_of_get?_ofPairs found
  rwa [List.mem_zipIdx_iff_getElem?] at member

theorem get_withPct_other (apart : column ≠ "Ownership %") :
    get header (withPct header value cells) column = get header cells column := by
  rw [Parsing.get, Parsing.get]
  cases found : (colIndex header).get? column with
  | none => rfl
  | some index =>
      have named := colIndex_getElem found
      obtain ⟨inside, _⟩ := List.getElem?_eq_some_iff.mp named
      have elsewhere : (colIndex header).get? "Ownership %" ≠ some index := fun same => by
        rw [colIndex_getElem same, Option.some.injEq] at named
        exact apart named.symm
      simp [withPct, inside, elsewhere]

theorem get_withPct (present : "Ownership %" ∈ header) :
    get header (withPct header value cells) "Ownership %" = trim value := by
  have keyed : "Ownership %" ∈ (colIndex header).keys := by
    obtain ⟨index, inside, same⟩ := List.getElem_of_mem present
    refine InsertionMap.mem_keys_ofPairs.mpr (List.mem_map.mpr ⟨("Ownership %", index), ?_, rfl⟩)
    rw [List.mem_zipIdx_iff_getElem?, List.getElem?_eq_getElem inside, same]
  rw [Parsing.get]
  cases found : (colIndex header).get? "Ownership %" with
  | none => exact absurd keyed (InsertionMap.get?_eq_none.mp found)
  | some index =>
      obtain ⟨inside, _⟩ := List.getElem?_eq_some_iff.mp (colIndex_getElem found)
      simp [withPct, inside, found]

/-- A row in which some column can be read is not dropped. -/
theorem any_of_get (read : get header cells column ≠ "") : cells.any (fun cell => trim cell != "") = true := by
  rw [Parsing.get] at read
  cases found : ((colIndex header).get? column).bind (cells[·]?) with
  | none =>
      rw [found] at read
      exact absurd (by decide) read
  | some cell =>
      rw [found, Option.getD_some] at read
      obtain ⟨index, _, cellAt⟩ := Option.bind_eq_some_iff.mp found
      rw [List.any_eq_true]
      exact ⟨cell, List.mem_of_getElem? cellAt, by simpa using read⟩

theorem pctErrors_fifty (line : Nat) : Ownership.pctErrors line (trim "50") = [] := by
  have notBlank : isBlank (trim "50") = false := by decide
  have fifty : Ownership.parsePct (trim "50") = some (50 * 100) := by decide
  simp [Ownership.pctErrors, notBlank, fifty]

variable [Platform]

/-- A file whose rows are rewritten one by one, none of them dropped or added. -/
theorem parseSheetSync_rewritten {file : UploadedFile} {slotFile : String} {sheet : ParsedSheet}
    (parsed : parseSheetSync file slotFile = .ok sheet) (change : List String → List String)
    (same : ∀ cells, (change cells).any (fun cell => trim cell != "") = cells.any fun cell => trim cell != "") :
    ∃ other, parseSheetSync other slotFile =
      .ok { sheet with rows := sheet.rows.map fun row => { row with cells := change row.cells } } := by
  unfold parseSheetSync at parsed
  split at parsed
  · cases parsed
  · cases parsed
  · rename_i first rest read
    cases parsed
    have reread : readMatrix { file with content := .matrix (first :: rest.map change) } slotFile =
        .ok (first :: rest.map change) := by
      unfold readMatrix at read ⊢
      simp only at read ⊢
      split at read
      · rename_i xlsx
        rw [if_pos xlsx]
      · rename_i other
        rw [if_neg other]
        split at read
        · rename_i csv
          rw [if_pos csv]
        · cases read
    have rows : (numbered (rest.map change)).filter (fun row => row.cells.any fun cell => trim cell != "") =
        ((numbered rest).filter fun row => row.cells.any fun cell => trim cell != "").map fun row =>
          { row with cells := change row.cells } := by
      rw [numbered, numbered, List.zipIdx_map, List.map_map, List.filter_map, List.filter_map, List.map_map]
      refine congrArg (List.map _) (List.filter_congr fun item _ => ?_)
      exact same item.1
    refine ⟨{ file with content := .matrix (first :: rest.map change) }, ?_⟩
    rw [parseSheetSync, reread]
    exact congrArg (fun kept => Except.ok ({ header := first.map trim, rows := kept } : ParsedSheet)) rows

end Rewritten

section ChangedRow

open Ownership

variable {header target cells : List String} {column value : String} {sheet : ParsedSheet}

/-- Another percentage for the rows with the given cells. -/
def changePct (header target : List String) (value : String) (cells : List String) : List String :=
  if cells = target then withPct header value cells else cells

def changedSheet (sheet : ParsedSheet) (target : List String) (value : String) : ParsedSheet where
  header := sheet.header
  rows := sheet.rows.map fun row => { row with cells := changePct sheet.header target value row.cells }

theorem get_changePct_other (apart : column ≠ "Ownership %") :
    get header (changePct header target value cells) column = get header cells column := by
  by_cases same : cells = target
  · rw [changePct, if_pos same]
    exact get_withPct_other apart
  · rw [changePct, if_neg same]

/-- A row with a parent entity is dropped neither before nor after. -/
theorem any_changePct (named : get header target "Parent Entity" ≠ "") :
    (changePct header target value cells).any (fun cell => trim cell != "") = cells.any fun cell => trim cell != "" := by
  by_cases same : cells = target
  · have stays : get header (changePct header target value cells) "Parent Entity" ≠ "" := by
      rw [get_changePct_other (by decide), same]
      exact named
    rw [same] at stays ⊢
    rw [any_of_get named, any_of_get stays]
  · rw [changePct, if_neg same]

theorem sameButPct_changePct (row : ParsedRow) :
    SameButPct header row { row with cells := changePct header target value row.cells } :=
  ⟨rfl, fun _ apart => get_changePct_other apart⟩

theorem differ_changedSheet (sheet : ParsedSheet) (target : List String) (value : String) :
    DifferInPercentages sheet (changedSheet sheet target value) where
  header := rfl
  rows := by
    have named : namedRows (changedSheet sheet target value) = (namedRows sheet).map fun row =>
        { row with cells := changePct sheet.header target value row.cells } := by
      simp only [namedRows, changedSheet, List.filter_map]
      refine congrArg (List.map _) (List.filter_congr fun row _ => ?_)
      rw [Function.comp_apply, get_changePct_other (by decide), get_changePct_other (by decide)]
    rw [named, List.forall₂_map_right_iff, List.forall₂_same]
    exact fun row _ => sameButPct_changePct row

theorem pctAccepted_changedSheet (columns : HasColumns .ownership sheet) (row : ParsedRow) :
    PctAccepted (changedSheet sheet row.cells value)
        { row with cells := changePct sheet.header row.cells value row.cells } ↔
      pctErrors row.line (trim value) = [] := by
  have read : get sheet.header (changePct sheet.header row.cells value row.cells) "Ownership %" = trim value := by
    rw [changePct, if_pos rfl]
    exact get_withPct (columns "Ownership %" (by decide))
  rw [PctAccepted, changedSheet, read]

end ChangedRow

end Coverpin.Validation
