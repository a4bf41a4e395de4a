import Coverpin.Upload.Idempotence
import Coverpin.Validation.ErrorSources
import Coverpin.Validation.FilingsRules
import Coverpin.Validation.GraphRules

namespace Coverpin.Upload

open Coverpin.Data Coverpin.Database Coverpin.Parsing Coverpin.Validation Coverpin.Validation.Entities
  Coverpin.Validation.Graph Coverpin.Validation.Ownership

/-! # When an upload is accepted

The rules of the three sheets, each against the entities of the same upload, and
what the graph and the business ids have to be next to the rows of the database.
-/

variable [Platform]

section Rules

variable (entities ownership : ParsedSheet) (db : Database)

/-- A row of entities.csv that may own and be owned. -/
def OwnerNamed (name : String) : Prop :=
  ∃ row ∈ entities.rows, get entities.header row.cells "Registration Type" = "Entity" ∧
    normalizeName (get entities.header row.cells "Entity Name") = name

def RegisteredIn (name jurisdiction : String) : Prop :=
  ∃ row ∈ entities.rows, normalizeName (get entities.header row.cells "Entity Name") = name ∧
    get entities.header row.cells "Jurisdiction" = jurisdiction

/-- An ownership row between two normalized names. -/
def Uploads (row : ParsedRow) (parent child : String) : Prop :=
  normalizeName (get ownership.header row.cells "Parent Entity") = parent ∧
    normalizeName (get ownership.header row.cells "Child Entity") = child

instance (row : ParsedRow) (parent child : String) : Decidable (Uploads ownership row parent child) :=
  inferInstanceAs (Decidable (_ ∧ _))

/-- Who owns whom once the sheet is written, by normalized names. -/
def OwnsAfter (parent child : String) : Prop :=
  (∃ edge ∈ db.ownershipEdges.records, normalizeName (nameOf db edge.parentEntityId) = parent ∧
    normalizeName (nameOf db edge.childEntityId) = child) ∨
  ∃ row ∈ ownership.rows, Uploads ownership row parent child

/-- A stored edge whose two names the sheet does not mention together. -/
def Untouched (edge : OwnershipEdge) : Prop :=
  ∀ row ∈ ownership.rows, ¬ Uploads ownership row (normalizeName (nameOf db edge.parentEntityId))
    (normalizeName (nameOf db edge.childEntityId))

instance (edge : OwnershipEdge) : Decidable (Untouched ownership db edge) :=
  inferInstanceAs (Decidable (∀ row ∈ ownership.rows, _))

/-- What all parents together own of a child once the sheet is written: its rows,
and the stored edges that it leaves alone. -/
def totalAfter (child : String) : Nat :=
  ((ownership.rows.filter fun row => normalizeName (get ownership.header row.cells "Child Entity") = child).map
    fun row => (Ownership.candidateRow ownership.header row).ownershipPct).sum +
  ((db.ownershipEdges.records.filter fun edge => normalizeName (nameOf db edge.childEntityId) = child ∧
    Untouched ownership db edge).map OwnershipEdge.ownershipPct).sum

end Rules

structure UploadRules (db : Database) (today : Date) (entities ownership filings : ParsedSheet) : Prop where
  entityColumns : HasColumns .entities entities
  ownershipColumns : HasColumns .ownership ownership
  filingColumns : HasColumns .filings filings
  entityRows : Entities.SheetRules today entities
  ownershipRows : Ownership.SheetRules (OwnerNamed entities) ownership
  filingRows : Filings.SheetRules today (RegisteredIn entities) filings
  businessIds : ∀ row ∈ entities.rows, ∀ record ∈ db.entities.records,
    get entities.header row.cells "Entity/Business ID" ≠ "" →
    record.businessId = some (get entities.header row.cells "Entity/Business ID") →
    normalizeName record.entityName = normalizeName (get entities.header row.cells "Entity Name")
  acyclic : Acyclic (OwnsAfter ownership db)
  totals : ∀ child, totalAfter ownership db child ≤ 100 * 100

section Names

variable {entities : ParsedSheet} {today : Date}

theorem entityTypeByName_iff (rules : Entities.SheetRules today entities) {name type : String} :
    (entityTypeByName (entities.rows.map (Entities.candidateRow entities.header))).get? name = some type ↔
      ∃ row ∈ entities.rows, normalizeName (get entities.header row.cells "Entity Name") = name ∧
        get entities.header row.cells "Registration Type" = type := by
  rw [entityTypeByName, List.map_map, InsertionMap.get?_ofPairs]
  · simp only [List.mem_map, Function.comp_apply, Prod.mk.injEq, Entities.candidateRow]
  · rw [List.map_map]
    exact rules.names

theorem registered_iff_ownerNamed (rules : Entities.SheetRules today entities) (name : String) :
    Ownership.Registered (entityTypeByName (entities.rows.map (Entities.candidateRow entities.header))) name ↔
      OwnerNamed entities name := by
  rw [Ownership.Registered]
  simp only [entityTypeByName_iff rules]
  constructor
  · intro registered
    obtain ⟨type, ⟨row, member, same, rfl⟩, notFq⟩ := registered
    have listed := (rules.fields row member).registrationType
    simp only [REGISTRATION_TYPES, List.mem_cons, List.not_mem_nil, or_false] at listed
    exact ⟨row, member, listed.resolve_right notFq, same⟩
  · intro named
    obtain ⟨row, member, type, same⟩ := named
    exact ⟨"Entity", ⟨row, member, same, type⟩, by decide⟩

theorem registered_iff_registeredIn (rules : Entities.SheetRules today entities) (name jurisdiction : String) :
    Filings.Registered (entityJurisdictionByName (entities.rows.map (Entities.candidateRow entities.header)))
      name jurisdiction ↔ RegisteredIn entities name jurisdiction := by
  rw [Filings.Registered, entityJurisdictionByName, List.map_map, InsertionMap.get?_ofPairs]
  · simp only [List.mem_map, Function.comp_apply, Prod.mk.injEq, Entities.candidateRow, RegisteredIn]
  · rw [List.map_map]
    exact rules.names

end Names

section Stored

variable {db : Database} {entities ownership : ParsedSheet} {today : Date}

theorem mergedEdge_iff_ownsAfter (parent child : String) :
    MergedEdge (ownership.rows.map (Ownership.candidateRow ownership.header)) (loadExistingEdges db) parent child ↔
      OwnsAfter ownership db parent child := by
  simp only [MergedEdge, OwnsAfter, Uploads, loadExistingEdges, List.mem_map, exists_exists_and_eq_and,
    Ownership.candidateRow]

theorem mergedTotal_eq_totalAfter (child : String) :
    mergedTotal (ownership.rows.map (Ownership.candidateRow ownership.header)) (loadExistingEdges db) child =
      totalAfter ownership db child := by
  rw [mergedTotal, totalAfter, loadExistingEdges]
  congr 2
  · rw [List.filter_map, List.map_map]
    rfl
  · rw [List.filter_map, List.map_map]
    congr 1
    refine List.filter_congr fun edge _ => decide_eq_decide.mpr ?_
    simp only [Kept, Untouched, Uploads, List.forall_mem_map, Ownership.candidateRow]

/-- Nothing is reported about business ids exactly when every stored owner of one
is the row's own entity. -/
theorem businessIds_iff_rules (stored : NamesStored db) :
    validateBusinessIdsAgainstDb db (entities.rows.map (Entities.candidateRow entities.header)) = [] ↔
      ∀ row ∈ entities.rows, ∀ record ∈ db.entities.records,
        get entities.header row.cells "Entity/Business ID" ≠ "" →
        record.businessId = some (get entities.header row.cells "Entity/Business ID") →
        normalizeName record.entityName = normalizeName (get entities.header row.cells "Entity Name") := by
  have given : ∀ row businessId, (Entities.candidateRow entities.header row).businessId = some businessId ↔
      get entities.header row.cells "Entity/Business ID" ≠ "" ∧
        get entities.header row.cells "Entity/Business ID" = businessId := by
    intro row businessId
    simp only [Entities.candidateRow, nonBlank, isBlank_trimmed (trim_get _ _ _)]
    by_cases blank : get entities.header row.cells "Entity/Business ID" = "" <;> simp [blank]
  constructor
  · intro accepted row member record inside present owned
    rw [← stored.normalized record inside]
    exact businessId_owner stored accepted (List.mem_map_of_mem member) ((given row _).mpr ⟨present, rfl⟩) inside owned
  · intro owners
    refine businessIds_accepted (List.forall_mem_map.mpr fun row member businessId named record inside owned => ?_)
    obtain ⟨present, rfl⟩ := (given row businessId).mp named
    exact owners row member record inside present owned

theorem mergeable_sheet (invariant : OwnershipInvariant db)
    (free : ∀ row ∈ entities.rows, '|' ∉ (get entities.header row.cells "Entity Name").toList)
    (rules : Ownership.SheetRules (OwnerNamed entities) ownership) :
    Mergeable (ownership.rows.map (Ownership.candidateRow ownership.header)) (loadExistingEdges db) where
  rowsSafe := by
    have named : ∀ {name}, OwnerNamed entities name → '|' ∉ name.toList := by
      intro name owner
      obtain ⟨row, member, _, rfl⟩ := owner
      exact normalizeName_pipeFree (free row member)
    refine List.forall_mem_map.mpr fun row member => ?_
    have fields := rules.fields row member
    exact keySafe_of_pipeFree (named fields.parentEntity) (named fields.childEntity)
  edgesSafe := List.forall_mem_map.mpr invariant.readable
  rowsDistinct := by
    rw [List.map_map]
    exact rules.pairs
  edgesDistinct := by
    have distinct := existing_distinct invariant.normalized invariant.readable
    rwa [List.map_map] at distinct

section Accepted

variable {maxRows : Nat} {files : UploadFiles} {filings : ParsedSheet}

theorem rules_of_accepted {upload : ValidatedUpload} (invariant : OwnershipInvariant db) (stored : NamesStored db)
    (free : ∀ row ∈ entities.rows, '|' ∉ (get entities.header row.cells "Entity Name").toList)
    (checked : Checked today entities ownership filings upload)
    (businessIds : validateBusinessIdsAgainstDb db upload.entityRows = [])
    (graph : validateOwnershipGraph upload.ownershipRows (loadExistingEdges db) = []) :
    UploadRules db today entities ownership filings := by
  obtain ⟨entityRows, ownershipRows, filingRows⟩ := checked
  obtain ⟨entityColumns, entityRules⟩ := validateEntitiesSheet_iff_rules.mp (congrArg Prod.fst entityRows)
  obtain ⟨_, _, _, entitiesReturned⟩ := validateEntitiesSheet_accepted (congrArg Prod.fst entityRows)
  rw [entityRows] at entitiesReturned
  simp only at entitiesReturned
  rw [entitiesReturned] at ownershipRows filingRows businessIds
  obtain ⟨ownershipColumns, ownershipRules⟩ := validateOwnershipSheet_iff_rules.mp (congrArg Prod.fst ownershipRows)
  have ownershipReturned := validateOwnershipSheet_returned (congrArg Prod.fst ownershipRows)
  rw [ownershipRows] at ownershipReturned
  simp only at ownershipReturned
  rw [ownershipReturned] at graph
  obtain ⟨filingColumns, filingRules⟩ := Filings.validateFilingsSheet_iff_rules.mp (congrArg Prod.fst filingRows)
  have owners := ownershipRules.imp fun name => (registered_iff_ownerNamed entityRules name).mp
  have mergeable := mergeable_sheet invariant free owners
  obtain ⟨acyclic, totals⟩ := (validateOwnershipGraph_iff_rules mergeable invariant.graph).mp graph
  exact {
    entityColumns
    ownershipColumns
    filingColumns
    entityRows := entityRules
    ownershipRows := owners
    filingRows := filingRules.imp fun name jurisdiction => (registered_iff_registeredIn entityRules name jurisdiction).mp
    businessIds := (businessIds_iff_rules stored).mp businessIds
    acyclic := acyclic.mono fun parent child => (mergedEdge_iff_ownsAfter parent child).mpr
    totals := fun child => mergedTotal_eq_totalAfter child ▸ totals child }

/-- What the sheets are read as when they satisfy the rules. -/
def ruledUpload (today : Date) (entities ownership filings : ParsedSheet) : ValidatedUpload :=
  let entityRows := entities.rows.map (Entities.candidateRow entities.header)
  { errors := []
    entityRows
    ownershipRows := ownership.rows.map (Ownership.candidateRow ownership.header)
    filingRows := (Filings.validateFilingsSheet filings (entityJurisdictionByName entityRows) today).2 }

theorem accepted_of_rules (invariant : OwnershipInvariant db) (stored : NamesStored db)
    (free : ∀ row ∈ entities.rows, '|' ∉ (get entities.header row.cells "Entity Name").toList)
    (sheets : Sheets maxRows files entities ownership filings) (rules : UploadRules db today entities ownership filings) :
    validateUpload db today maxRows files = ruledUpload today entities ownership filings := by
  have entityRows := validateEntitiesSheet_iff_rules.mpr ⟨rules.entityColumns, rules.entityRows⟩
  obtain ⟨_, _, _, entitiesReturned⟩ := validateEntitiesSheet_accepted entityRows
  have ownershipRows := validateOwnershipSheet_iff_rules.mpr ⟨rules.ownershipColumns,
    rules.ownershipRows.imp fun name => (registered_iff_ownerNamed rules.entityRows name).mpr⟩
  have ownershipReturned := validateOwnershipSheet_returned ownershipRows
  have filingRows := Filings.validateFilingsSheet_iff_rules.mpr ⟨rules.filingColumns,
    rules.filingRows.imp fun name jurisdiction => (registered_iff_registeredIn rules.entityRows name jurisdiction).mpr⟩
  have mergeable := mergeable_sheet invariant free rules.ownershipRows
  have checked : Checked today entities ownership filings (ruledUpload today entities ownership filings) :=
    ⟨Prod.ext entityRows entitiesReturned, Prod.ext ownershipRows ownershipReturned, Prod.ext filingRows rfl⟩
  have graph : validateOwnershipGraph (ownership.rows.map (Ownership.candidateRow ownership.header))
      (loadExistingEdges db) = [] :=
    (validateOwnershipGraph_iff_rules mergeable invariant.graph).mpr
      ⟨rules.acyclic.mono fun parent child => (mergedEdge_iff_ownsAfter parent child).mp,
        fun child => (mergedTotal_eq_totalAfter child).symm ▸ rules.totals child⟩
  exact (validateUpload_accepted_iff.mpr ⟨rfl, ⟨entities, ownership, filings, sheets, checked⟩,
    (businessIds_iff_rules stored).mpr rules.businessIds, graph⟩).1

theorem Sheets.accepted_iff (sheets : Sheets maxRows files entities ownership filings) (invariant : OwnershipInvariant db)
    (stored : NamesStored db) (free : ∀ row ∈ entities.rows, '|' ∉ (get entities.header row.cells "Entity Name").toList) :
    (validateUpload db today maxRows files).errors = [] ↔ UploadRules db today entities ownership filings := by
  constructor
  · intro accepted
    obtain ⟨_, ⟨_, _, _, read, checked⟩, businessIds, graph⟩ := validateUpload_accepted_iff.mp ⟨rfl, accepted⟩
    cases read.entities.symm.trans sheets.entities
    cases read.ownership.symm.trans sheets.ownership
    cases read.filings.symm.trans sheets.filings
    exact rules_of_accepted invariant stored free checked businessIds graph
  · intro rules
    rw [accepted_of_rules invariant stored free sheets rules]
    rfl

end Accepted

end Stored

/-- After any uploads processed one at a time over names without `|`, the next one
over such names is accepted exactly when its files can be read as three sheets
that satisfy the rules next to what is stored. -/
theorem upload_accepted_iff_rules {trace : List (Database × UploadRequest)} {db : Database}
    (run : Run uploadStep Database.initial trace db)
    (pipeFree : ∀ entry ∈ trace, (entry.2.validated entry.1).errors = [] → PipeFree (entry.2.validated entry.1))
    (request : UploadRequest)
    (free : ∀ sheet, parseSlot request.limits.maxUploadRowsPerFile request.files.entities .entities = .ok sheet →
      ∀ row ∈ sheet.rows, '|' ∉ (get sheet.header row.cells "Entity Name").toList) :
    (request.validated db).errors = [] ↔ ∃ entities ownership filings,
      Sheets request.limits.maxUploadRowsPerFile request.files entities ownership filings ∧
      UploadRules db request.today entities ownership filings := by
  have invariant := OwnershipInvariant.reachable run pipeFree
  have stored := NamesStored.reachable run
  constructor
  · intro accepted
    obtain ⟨_, ⟨entities, ownership, filings, sheets, _⟩, _⟩ := validateUpload_accepted_iff.mp ⟨rfl, accepted⟩
    exact ⟨entities, ownership, filings, sheets,
      (Sheets.accepted_iff sheets invariant stored (free entities sheets.entities)).mp accepted⟩
  · intro ruled
    obtain ⟨entities, ownership, filings, sheets, rules⟩ := ruled
    exact (Sheets.accepted_iff sheets invariant stored (free entities sheets.entities)).mpr rules

omit [Platform] in
/-- A second upload that turns a stored edge down and adds an owner. -/
theorem shared_upload_ruled :
    letI := asciiPlatform
    let first := ownershipRequest [("Acme", "Entity", ""), ("Beta", "Entity", "")] [("Acme", "Beta", "100")]
    let second := ownershipRequest [("ACME", "Entity", ""), ("Beta", "Entity", ""), ("Gamma", "Entity", "")]
      [("acme", "beta", "40"), ("Gamma", "Beta", "60")]
    let db := (processUpload first.limits first.today first.files Database.initial).1
    (second.validated db).errors = [] ↔ ∃ entities ownership filings,
      Sheets second.limits.maxUploadRowsPerFile second.files entities ownership filings ∧
      UploadRules db second.today entities ownership filings := by
  intro first second db
  let _ := asciiPlatform
  refine upload_accepted_iff_rules (.next .start rfl) (by decide +kernel) second fun sheet parsed => ?_
  have readable : (parseSlot second.limits.maxUploadRowsPerFile second.files.entities .entities).toOption.all
      (fun sheet => sheet.rows.all fun row => !(get sheet.header row.cells "Entity Name").toList.contains '|') = true := by
    decide +kernel
  rw [parsed] at readable
  simpa [Except.toOption] using readable

end Coverpin.Upload
