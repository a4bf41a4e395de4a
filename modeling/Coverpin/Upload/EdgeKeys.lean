import Coverpin.Upload.OwnershipInvariant

namespace Coverpin.Upload

open Coverpin.Data Coverpin.Database Coverpin.Validation Coverpin.Validation.Graph Coverpin.Validation.Ownership

/-! # What the string keys of edges identify

The graph check stores an edge under `parent|||child` and reads its ends back
from that string; the tables store it under two ids.
-/

variable [Platform]

/-- Parent and child names of all edges that a merge has to tell apart. -/
def namedEdges (rows : List ParsedOwnershipRow) (existingEdges : List ExistingEdge) : List (String × String) :=
  existingEdges.map (fun edge => (edge.parentName, edge.childName)) ++
    rows.map fun row => (row.parentEntity, row.childEntity)

/-- Edges share a key exactly when they have the same normalized names, and a key
is read back as these names. -/
structure KeysIdentify (edges : List (String × String)) : Prop where
  sameKey : ∀ edge ∈ edges, ∀ other ∈ edges, edgeKey edge.1 edge.2 = edgeKey other.1 other.2 ↔
    normalizeName edge.1 = normalizeName other.1 ∧ normalizeName edge.2 = normalizeName other.2
  readBack : ∀ edge ∈ edges, splitKey (edgeKey edge.1 edge.2) = (normalizeName edge.1, normalizeName edge.2)

theorem keysIdentify_iff {edges : List (String × String)} :
    KeysIdentify edges ↔ ∀ edge ∈ edges, ClearOfSeparator edge.1 edge.2 := by
  constructor
  · exact fun identify edge member => keySafe_iff.mp (identify.readBack edge member)
  · intro clear
    have safe : ∀ edge ∈ edges, KeySafe edge.1 edge.2 := fun edge member => keySafe_iff.mpr (clear edge member)
    exact {
      sameKey := fun edge member other otherMember =>
        ⟨(safe edge member).inj (safe other otherMember), fun same => edgeKey_congr same.1 same.2⟩
      readBack := safe }

def storedChildren (db : Database) (parent : String) : List String :=
  (db.ownershipEdges.records.filter fun edge => normalizeName (nameOf db edge.parentEntityId) = parent).map fun edge =>
    normalizeName (nameOf db edge.childEntityId)

def storedTotal (db : Database) (child : String) : Nat :=
  ((db.ownershipEdges.records.filter fun edge => normalizeName (nameOf db edge.childEntityId) = child).map
    OwnershipEdge.ownershipPct).sum

/-- The adjacency and the totals of a merged graph are those of the table. -/
structure ExaminedAsStored (merged : InsertionMap String Nat) (db : Database) : Prop where
  adjacency : ∀ parent, (childrenOf (adjacencyOf merged) parent).Perm (storedChildren db parent)
  totals : ∀ child, totalOf merged child = storedTotal db child

theorem storedGraph_examined {db : Database} (normalized : NamesNormalized db) (readable : EdgesReadable db) :
    ExaminedAsStored (storedGraph db) db where
  adjacency parent := by
    rw [childrenOf_adjacencyOf, storedGraph_keys normalized readable, storedChildren, List.filter_map, List.map_map]
    exact List.Perm.refl _
  totals := totalOf_storedGraph normalized readable

/-- The names of all edges of a merge, those of the table and those of the rows,
keep clear of the separator. -/
def NamesClear (rows : List ParsedOwnershipRow) (existingEdges : List ExistingEdge) : Prop :=
  ∀ edge ∈ namedEdges rows existingEdges, ClearOfSeparator edge.1 edge.2

instance (rows : List ParsedOwnershipRow) (existingEdges : List ExistingEdge) :
    Decidable (NamesClear rows existingEdges) :=
  inferInstanceAs (Decidable (∀ edge ∈ namedEdges rows existingEdges, ClearOfSeparator edge.1 edge.2))

theorem NamesClear.rows {rows : List ParsedOwnershipRow} {existingEdges : List ExistingEdge}
    (clear : NamesClear rows existingEdges) : ∀ row ∈ rows, KeySafe row.parentEntity row.childEntity := by
  intro row member
  have named : (row.parentEntity, row.childEntity) ∈ namedEdges rows existingEdges := by
    rw [namedEdges, List.mem_append]
    exact .inr (List.mem_map.mpr ⟨row, member, rfl⟩)
  have apart := clear (row.parentEntity, row.childEntity) named
  exact keySafe_iff.mpr apart

theorem NamesClear.readable {rows : List ParsedOwnershipRow} {db : Database}
    (clear : NamesClear rows (loadExistingEdges db)) : EdgesReadable db := by
  intro edge member
  have named : (nameOf db edge.parentEntityId, nameOf db edge.childEntityId) ∈ namedEdges rows (loadExistingEdges db) := by
    rw [namedEdges, List.mem_append, loadExistingEdges, List.map_map]
    exact .inl (List.mem_map.mpr ⟨edge, member, rfl⟩)
  have apart := clear (nameOf db edge.parentEntityId, nameOf db edge.childEntityId) named
  exact keySafe_iff.mpr apart

theorem NamesClear.examined {db after : Database} {request : UploadRequest} {result : UploadBatchResult}
    (normalized : NamesNormalized db)
    (committed : processUpload request.limits request.today request.files db = (after, .created result))
    (clear : NamesClear (request.validated db).ownershipRows (loadExistingEdges db)) :
    ExaminedAsStored (mergedEdges (request.validated db).ownershipRows (loadExistingEdges db)) after := by
  obtain ⟨accepted, registered, written⟩ := processUpload_written committed
  obtain ⟨consistent, _⟩ := validateUpload_accepted accepted
  obtain ⟨readable, same⟩ := written.storedGraph normalized consistent clear.readable clear.rows
  rw [← same]
  exact storedGraph_examined (written.namesNormalized normalized) readable

/-- A key identifies its edge exactly where the names keep clear of the
separator; and for an upload that was accepted and committed, keys identify the
edges and the examined graph is the stored one exactly under that condition. -/
theorem edgeKeys_identify :
    (∀ (rows : List ParsedOwnershipRow) (existingEdges : List ExistingEdge),
      KeysIdentify (namedEdges rows existingEdges) ↔ NamesClear rows existingEdges) ∧
    ∀ (db after : Database) (request : UploadRequest) (result : UploadBatchResult),
      NamesNormalized db →
      processUpload request.limits request.today request.files db = (after, .created result) →
      ((KeysIdentify (namedEdges (request.validated db).ownershipRows (loadExistingEdges db)) ∧
        ExaminedAsStored (mergedEdges (request.validated db).ownershipRows (loadExistingEdges db)) after) ↔
        NamesClear (request.validated db).ownershipRows (loadExistingEdges db)) := by
  refine ⟨fun rows existingEdges => keysIdentify_iff, fun db after request result normalized committed => ?_⟩
  constructor
  · exact fun identified => keysIdentify_iff.mp identified.1
  · exact fun clear => ⟨keysIdentify_iff.mpr clear, clear.examined normalized committed⟩

theorem processUpload_created {request : UploadRequest} {db : Database} {result : UploadBatchResult}
    (created : (processUpload request.limits request.today request.files db).2 = .created result) :
    processUpload request.limits request.today request.files db =
      ((processUpload request.limits request.today request.files db).1, .created result) :=
  Prod.ext rfl created

omit [Platform] in
/-- Two entities that own each other, one of them with a `|` at the end of its
name: the cycle is not found, and the upload is accepted and stored. -/
def unreadableRequest : UploadRequest :=
  ownershipRequest [("Acme|", "Entity", ""), ("Beta", "Entity", "")] [("Acme|", "Beta", "50"), ("Beta", "Acme|", "50")]

omit [Platform] in
theorem trailing_bar_misread : ¬ ∀ [Platform],
    (∀ (rows : List ParsedOwnershipRow) (existingEdges : List ExistingEdge),
      KeysIdentify (namedEdges rows existingEdges)) ∧
    ∀ (db after : Database) (request : UploadRequest) (result : UploadBatchResult), NamesNormalized db →
      processUpload request.limits request.today request.files db = (after, .created result) →
      ExaminedAsStored (mergedEdges (request.validated db).ownershipRows (loadExistingEdges db)) after := by
  intro claimed
  have facts : letI := asciiPlatform
      let outcome := processUpload unreadableRequest.limits unreadableRequest.today unreadableRequest.files Database.initial
      outcome.2 = .created ⟨2, 2, 0⟩ ∧
        (childrenOf (adjacencyOf (mergedEdges (unreadableRequest.validated Database.initial).ownershipRows
          (loadExistingEdges Database.initial))) "acme|").length ≠ (storedChildren outcome.1 "acme|").length := by
    decide +kernel
  let _ := asciiPlatform
  obtain ⟨created, differ⟩ := facts
  have examined := claimed.2 _ _ unreadableRequest _ namesNormalized_initial (processUpload_created created)
  exact differ (examined.adjacency "acme|").length_eq

omit [Platform] in
/-- Names with a `|` inside or in front are told apart. -/
def readableRequest : UploadRequest :=
  ownershipRequest [("A|B", "Entity", ""), ("|C", "Entity", "")] [("A|B", "|C", "50")]

omit [Platform] in
theorem inner_bar_identified :
    letI := asciiPlatform
    let after := (processUpload readableRequest.limits readableRequest.today readableRequest.files Database.initial).1
    KeysIdentify (namedEdges (readableRequest.validated Database.initial).ownershipRows (loadExistingEdges Database.initial)) ∧
      ExaminedAsStored (mergedEdges (readableRequest.validated Database.initial).ownershipRows
        (loadExistingEdges Database.initial)) after := by
  have facts : letI := asciiPlatform
      (processUpload readableRequest.limits readableRequest.today readableRequest.files Database.initial).2 =
          .created ⟨2, 1, 0⟩ ∧
        NamesClear (readableRequest.validated Database.initial).ownershipRows (loadExistingEdges Database.initial) := by
    decide +kernel
  let _ := asciiPlatform
  obtain ⟨created, clear⟩ := facts
  exact (edgeKeys_identify.2 _ _ readableRequest _ namesNormalized_initial (processUpload_created created)).mpr clear

end Coverpin.Upload
