import Coverpin.Data.Run
import Coverpin.Upload.WriteEffect

namespace Coverpin

open Coverpin.Data Coverpin.Database Relation

/-! # The ownership graph over a history of uploads -/

namespace Database

def Owns (db : Database) (parent child : EntityId) : Prop :=
  ∃ edge ∈ db.ownershipEdges.records, edge.parentEntityId = parent ∧ edge.childEntityId = child

/-- What all parents together own of a child, in hundredths of a percent. -/
def totalOwnership (db : Database) (child : EntityId) : Nat :=
  ((db.ownershipEdges.records.filter (·.childEntityId = child)).map OwnershipEdge.ownershipPct).sum

end Database

namespace Upload

open Coverpin.Validation Coverpin.Validation.Graph Coverpin.Validation.Entities Coverpin.Validation.Ownership

variable [Platform]

/-- No directed cycle, at most 100% of every child, and one entity for each
trimmed and lower-cased name. -/
structure OwnershipSound (db : Database) : Prop where
  acyclic : Acyclic db.Owns
  totals : ∀ child, db.totalOwnership child ≤ 100 * 100
  names : ∀ record ∈ db.entities.records, ∀ other ∈ db.entities.records,
    normalizeName record.entityName = normalizeName other.entityName → record = other

/-- What every committed upload preserves. -/
structure OwnershipInvariant (db : Database) : Prop where
  normalized : NamesNormalized db
  readable : EdgesReadable db
  graph : GraphSound (storedGraph db)

section Stored

variable {db : Database}

theorem storedGraph_keys (normalized : NamesNormalized db) (readable : EdgesReadable db) :
    (storedGraph db).keys.map splitKey = db.ownershipEdges.records.map fun edge =>
      (normalizeName (nameOf db edge.parentEntityId), normalizeName (nameOf db edge.childEntityId)) := by
  rw [InsertionMap.keys, storedGraph_entries normalized readable, edgeMap, KeyedView.toMap]
  simp only [List.map_map]
  exact List.map_congr_left fun edge member => readable edge member

theorem edge_of_owns (normalized : NamesNormalized db) (readable : EdgesReadable db) {parent child : EntityId}
    (owns : db.Owns parent child) :
    Edge (adjacencyOf (storedGraph db)) (normalizeName (nameOf db parent)) (normalizeName (nameOf db child)) := by
  obtain ⟨edge, member, rfl, rfl⟩ := owns
  refine edge_adjacencyOf.mpr (List.mem_map.mp ?_)
  rw [storedGraph_keys normalized readable]
  exact List.mem_map.mpr ⟨edge, member, rfl⟩

theorem totalOf_storedGraph (normalized : NamesNormalized db) (readable : EdgesReadable db) (child : String) :
    totalOf (storedGraph db) child = ((db.ownershipEdges.records.filter fun edge =>
      normalizeName (nameOf db edge.childEntityId) = child).map OwnershipEdge.ownershipPct).sum := by
  rw [totalOf_eq, storedGraph_entries normalized readable, edgeMap, KeyedView.toMap]
  simp only [List.map_map, List.filter_map]
  congr 2
  apply List.filter_congr
  intro edge member
  have ends : splitKey (storedEdgeKey db (edge.parentEntityId, edge.childEntityId)) = _ := readable edge member
  simp [edgeKeyed, edgeView, ends]

theorem totalOwnership_eq (normalized : NamesNormalized db) (readable : EdgesReadable db) {child : EntityId}
    (exists_ : child ∈ db.entities.ids) :
    db.totalOwnership child = totalOf (storedGraph db) (normalizeName (nameOf db child)) := by
  rw [totalOf_storedGraph normalized readable, Database.totalOwnership]
  congr 2
  apply List.filter_congr
  intro edge member
  rw [decide_eq_decide]
  constructor
  · intro same
    rw [same]
  · exact id_of_name normalized (db.references.edges edge member).2 exists_

theorem OwnershipInvariant.sound (invariant : OwnershipInvariant db) : OwnershipSound db where
  acyclic := invariant.graph.acyclic.pullback (fun id => normalizeName (nameOf db id))
    fun _ _ => edge_of_owns invariant.normalized invariant.readable
  totals child := by
    by_cases exists_ : child ∈ db.entities.ids
    · rw [totalOwnership_eq invariant.normalized invariant.readable exists_]
      exact invariant.graph.totals _
    · have none : db.ownershipEdges.records.filter (·.childEntityId = child) = [] := by
        refine List.filter_eq_nil_iff.mpr fun edge member same => exists_ ?_
        rw [← of_decide_eq_true same]
        exact (db.references.edges edge member).2
      simp [Database.totalOwnership, none]
  names record member other otherMember same := by
    rw [← invariant.normalized record member, ← invariant.normalized other otherMember] at same
    exact eq_of_entityKey member otherMember same

/-- The id of an entity with a normalized name. -/
def idNamed (db : Database) (name : String) : EntityId :=
  ((db.entities.records.find? fun record => normalizeName record.entityName = name).map EntityRecord.id).getD 0

theorem idNamed_nameOf (normalized : NamesNormalized db) {id : EntityId} (exists_ : id ∈ db.entities.ids) :
    idNamed db (normalizeName (nameOf db id)) = id := by
  obtain ⟨record, member, rfl⟩ := List.mem_map.mp exists_
  change idNamed db (normalizeName (nameOf db record.id)) = record.id
  rw [nameOf_eq member, idNamed]
  cases found : db.entities.records.find? fun other => normalizeName other.entityName = normalizeName record.entityName with
  | none =>
      have absent := List.find?_eq_none.mp found record member
      simp at absent
  | some other =>
      have inside := List.mem_of_find?_eq_some found
      have same : normalizeName other.entityName = normalizeName record.entityName := by simpa using List.find?_some found
      rw [← normalized other inside, ← normalized record member] at same
      rw [Option.map_some, Option.getD_some, eq_of_entityKey inside member same]

/-- Over readable names a sound table is a sound graph over names. -/
theorem OwnershipSound.graph (sound : OwnershipSound db) (normalized : NamesNormalized db) (readable : EdgesReadable db) :
    GraphSound (storedGraph db) where
  acyclic := by
    apply sound.acyclic.pullback (idNamed db)
    intro parent child edge
    obtain ⟨key, member, ends⟩ := edge_adjacencyOf.mp edge
    have listed : (parent, child) ∈ (storedGraph db).keys.map splitKey := List.mem_map.mpr ⟨key, member, ends⟩
    rw [storedGraph_keys normalized readable, List.mem_map] at listed
    obtain ⟨stored, inside, same⟩ := listed
    cases same
    obtain ⟨parentExists, childExists⟩ := db.references.edges stored inside
    rw [idNamed_nameOf normalized parentExists, idNamed_nameOf normalized childExists]
    exact ⟨stored, inside, rfl, rfl⟩
  totals child := by
    by_cases named : ∃ id ∈ db.entities.ids, normalizeName (nameOf db id) = child
    · obtain ⟨id, exists_, rfl⟩ := named
      rw [← totalOwnership_eq normalized readable exists_]
      exact sound.totals id
    · have none : db.ownershipEdges.records.filter (fun edge => normalizeName (nameOf db edge.childEntityId) = child) = [] := by
        refine List.filter_eq_nil_iff.mpr fun edge member same => named ?_
        exact ⟨edge.childEntityId, (db.references.edges edge member).2, of_decide_eq_true same⟩
      simp [totalOf_storedGraph normalized readable, none]

end Stored

theorem OwnershipInvariant.initial : OwnershipInvariant Database.initial where
  normalized := namesNormalized_initial
  readable := List.forall_mem_nil _
  graph := {
    acyclic := by
      intro node cycle
      obtain ⟨next, edge, _⟩ := TransGen.head'_iff.mp cycle
      obtain ⟨key, member, _⟩ := edge_adjacencyOf.mp edge
      cases member
    totals := fun child => Nat.zero_le _ }

/-- A commit preserves the invariant when the graph check of its rows against the
edges it meets reports nothing. -/
theorem Written.invariant {upload : ValidatedUpload} {before registered after : Database}
    (written : Written upload before registered after) (invariant : OwnershipInvariant before)
    (consistent : ConsistentUpload upload)
    (safe : ∀ row ∈ upload.ownershipRows, KeySafe row.parentEntity row.childEntity)
    (accepted : validateOwnershipGraph upload.ownershipRows (loadExistingEdges before) = []) :
    OwnershipInvariant after := by
  obtain ⟨readable, graph⟩ := written.storedGraph invariant.normalized consistent invariant.readable safe
  exact {
    normalized := written.namesNormalized invariant.normalized
    readable
    graph := graph ▸ mergedEdges_sound invariant.graph safe accepted }

structure UploadRequest where
  limits : Limits
  today : Date
  files : UploadFiles

def UploadRequest.validated (request : UploadRequest) (db : Database) : ValidatedUpload :=
  validateUpload db request.today request.limits.maxUploadRowsPerFile request.files

/-- Each upload is validated against the tables that the previous ones left. -/
def uploadStep (db : Database) (request : UploadRequest) : Option Database :=
  some (processUpload request.limits request.today request.files db).1

/-- No entity of the upload has `|` in its name. -/
def PipeFree (upload : ValidatedUpload) : Prop :=
  ∀ row ∈ upload.entityRows, '|' ∉ row.entityName.toList

omit [Platform] in
instance (upload : ValidatedUpload) : Decidable (PipeFree upload) :=
  inferInstanceAs (Decidable (∀ row ∈ upload.entityRows, _))

/-- The ends of every ownership row keep clear of the key separator. -/
def ClearNames (upload : ValidatedUpload) : Prop :=
  ∀ row ∈ upload.ownershipRows, ClearOfSeparator row.parentEntity row.childEntity

instance (upload : ValidatedUpload) : Decidable (ClearNames upload) :=
  inferInstanceAs (Decidable (∀ row ∈ upload.ownershipRows, _))

theorem PipeFree.safe {upload : ValidatedUpload} (free : PipeFree upload) (consistent : ConsistentUpload upload) :
    ∀ row ∈ upload.ownershipRows, KeySafe row.parentEntity row.childEntity := by
  have named : ∀ {name}, NamesEntity (entityTypeByName upload.entityRows) name → '|' ∉ (normalizeName name).toList := by
    intro name named
    obtain ⟨row, member, same, _⟩ := named.row consistent.entities
    exact same ▸ normalizeName_pipeFree (free row member)
  intro row member
  obtain ⟨parent, child⟩ := consistent.ends row member
  exact keySafe_of_pipeFree (named parent) (named child)

theorem processUpload_written {db after : Database} {request : UploadRequest} {result : UploadBatchResult}
    (created : processUpload request.limits request.today request.files db = (after, .created result)) :
    (request.validated db).errors = [] ∧ ∃ registered, Written (request.validated db) db registered after := by
  rcases processUpload_cases request.limits request.today request.files db with
    ⟨outcome, other, same⟩ | ⟨accepted, committed, counts, transaction, same⟩
  · rw [created, Prod.mk.injEq] at same
    exact absurd same.2.symm (other result)
  · rw [created, Prod.mk.injEq] at same
    exact ⟨accepted, same.1 ▸ processUploadTransaction_ok request.limits.chunkSizePositive transaction⟩

theorem uploadStep_cases {db after : Database} {request : UploadRequest} (step : uploadStep db request = some after) :
    after = db ∨ (request.validated db).errors = [] ∧ ∃ registered, Written (request.validated db) db registered after := by
  cases step
  rcases processUpload_cases request.limits request.today request.files db with
    ⟨_, _, same⟩ | ⟨_, _, _, _, same⟩
  · exact .inl (by rw [same])
  · exact .inr (processUpload_written (same.trans (by rw [same])))

theorem OwnershipInvariant.upload {db after : Database} {request : UploadRequest} (invariant : OwnershipInvariant db)
    (safe : (request.validated db).errors = [] →
      ∀ row ∈ (request.validated db).ownershipRows, KeySafe row.parentEntity row.childEntity)
    (step : uploadStep db request = some after) : OwnershipInvariant after := by
  rcases uploadStep_cases step with rfl | ⟨accepted, registered, written⟩
  · exact invariant
  · obtain ⟨consistent, graph⟩ := validateUpload_accepted accepted
    exact written.invariant invariant consistent (safe accepted) graph

/-- However many uploads are processed one at a time over names without `|`, the
stored ownership graph has no directed cycle and no child above 100%. -/
theorem uploads_ownershipSound {trace : List (Database × UploadRequest)} {db : Database}
    (run : Run uploadStep Database.initial trace db)
    (pipeFree : ∀ entry ∈ trace, PipeFree (entry.2.validated entry.1)) :
    ∀ reached ∈ visited trace db, OwnershipSound reached := by
  have invariant := run.invariant_visited OwnershipInvariant
    (fun before request => PipeFree (request.validated before)) .initial
    (fun before request after held free step => held.upload
      (fun accepted => free.safe (validateUpload_accepted accepted).1) step) pipeFree
  exact fun reached member => (invariant reached member).sound

omit [Platform] in
def ownershipRequest (entities ownership : List (String × String × String)) : UploadRequest where
  limits := .default
  today := ⟨0⟩
  files := ownershipFiles entities ownership

omit [Platform] in
theorem two_uploads_ownershipSound :
    letI := asciiPlatform
    let first := ownershipRequest [("Acme", "Entity", ""), ("Beta", "Entity", "")] [("Acme", "Beta", "100")]
    let second := ownershipRequest [("ACME", "Entity", ""), ("Beta", "Entity", ""), ("Gamma", "Entity", "")]
      [("acme", "beta", "40"), ("Gamma", "Beta", "60")]
    let middle := (processUpload first.limits first.today first.files Database.initial).1
    let final := (processUpload second.limits second.today second.files middle).1
    final.ownershipEdges.records.length = 2 ∧ OwnershipSound final :=
  letI := asciiPlatform
  ⟨by decide +kernel, uploads_ownershipSound (.next (.next .start rfl) rfl) (by decide +kernel) _
    (List.mem_append_right _ (List.mem_singleton.mpr rfl))⟩

end Upload

end Coverpin
