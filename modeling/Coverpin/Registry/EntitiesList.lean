import Coverpin.Registry.Compliance
import Coverpin.Registry.Subtree
import Coverpin.Util

namespace Coverpin.Registry

open Coverpin.Data Coverpin.Database Coverpin.Upload Coverpin.Validation

/-! # `RegistryService.getEntitiesList`

Top-level entities are selected, sorted and cut to a page; the subtrees of the
page come from the recursive query and are put together again as trees.  The
query, and the recursion over the trees, is given a number of rounds.  There is no
page when the rounds do not suffice, or when a statement would have to bind more
parameters than it can.
-/

/-- No legitimate Entity Name search needs more than this. -/
def MAX_SEARCH_LENGTH : Nat := 200

structure EntitiesQuery where
  search : Option { search : String // search.length ≤ MAX_SEARCH_LENGTH }
  page : Option Nat
  pageSize : Option { size : Nat // 0 < size }  -- a request may ask for 10, 25, 50 or 100
  entityStatus : Option String
  complianceStatus : Option String
  jurisdiction : Option String
deriving DecidableEq, Repr

/-- What is searched for; a blank text counts as no search. -/
def EntitiesQuery.term (query : EntitiesQuery) : Option String :=
  truthy (query.search.map fun search => trim search.val)

structure CandidateRoot where
  id : EntityId
  entityName : String
  jurisdiction : String
  entityType : String
  entityStatus : String
deriving DecidableEq, Repr

def EntityRecord.candidateRoot (record : EntityRecord) : CandidateRoot where
  id := record.id
  entityName := record.entityName
  jurisdiction := record.jurisdiction
  entityType := record.entityType
  entityStatus := record.entityStatus

def fetchCandidateRoots (db : Database) (query : EntitiesQuery) : List CandidateRoot :=
  (db.entities.records.filter fun record =>
    record.registrationType = .entity &&
    !(db.ownershipEdges.records.any fun edge => edge.childEntityId = record.id) &&
    ((truthy query.jurisdiction).all fun jurisdiction => record.jurisdiction = jurisdiction) &&
    ((truthy query.entityStatus).all fun entityStatus => record.entityStatus.val = entityStatus)).map
    EntityRecord.candidateRoot

/-- Full subtree for each of the roots. -/
def fetchSubtrees (db : Database) (rounds : Nat) (rootIds : List EntityId) : Option (List SubtreeRow) :=
  if rootIds = [] then some [] else db.subtree rounds rootIds

/-- `find({ where: { entityId: In(ids) } })` binds every id, also a repeated one. -/
def findFilings (filings : List Filing) (ids : List EntityId) : Option (List Filing) :=
  if ids.length ≤ maxParameters then some (filings.filter fun filing => ids.contains filing.entityId) else none

def nextDueDateOf (filingsByEntityId : InsertionMap EntityId (List Filing)) (id : EntityId) : Option Date :=
  computeNextDueDate (((filingsByEntityId.get? id).getD []).map Filing.forDueDate)

variable [Platform]

/-- The roots with an Entity Name that contains `term` somewhere in their subtree. -/
def findRootsMatchingSearch (db : Database) (rounds : Nat) (rootIds : List EntityId) (term : String) :
    Option (List EntityId) :=
  if rootIds = [] then some []
  else (db.subtree rounds rootIds).map fun rows =>
    ((rows.filter fun row => ilike ("%" ++ escapeLikePattern term ++ "%") row.entityName).map SubtreeRow.rootId).eraseDups

/-- A top-level row survives if any node in its subtree matches. -/
def searchRoots (db : Database) (rounds : Nat) (query : EntitiesQuery) (candidates : List CandidateRoot) :
    Option (List CandidateRoot) :=
  match query.term with
  | none => some candidates
  | some term =>
      if candidates = [] then some candidates
      else (findRootsMatchingSearch db rounds (candidates.map CandidateRoot.id) term).map fun matchingIds =>
        candidates.filter fun candidate => matchingIds.contains candidate.id

/-- Only the top-level entity's own filings are relevant. -/
def filterByCompliance (db : Database) (today : Date) (query : EntitiesQuery) (candidates : List CandidateRoot) :
    Option (List CandidateRoot) :=
  match truthy query.complianceStatus with
  | none => some candidates
  | some complianceStatus =>
      if candidates = [] then some candidates
      else (findFilings db.filings.records (candidates.map CandidateRoot.id)).map fun filings =>
        let filingsByEntityId := InsertionMap.groupBy filings Filing.entityId
        candidates.filter fun candidate =>
          (computeComplianceStatus candidate.entityStatus (nextDueDateOf filingsByEntityId candidate.id) today).text =
            complianceStatus

def sortCandidates (candidates : List CandidateRoot) : List CandidateRoot :=
  candidates.insertionSort fun a b => Platform.localeCompare a.entityName b.entityName ≠ .gt

def selectCandidates (db : Database) (today : Date) (rounds : Nat) (query : EntitiesQuery) :
    Option (List CandidateRoot) := do
  let candidates ← searchRoots db rounds query (fetchCandidateRoots db query)
  let candidates ← filterByCompliance db today query candidates
  return sortCandidates candidates

structure Pagination where
  page : Nat
  pageSize : Nat
  total : Nat
  totalPages : Nat
deriving DecidableEq, Repr

omit [Platform] in
def paginate (query : EntitiesQuery) (total : Nat) : Pagination :=
  let pageSize := (query.pageSize.map Subtype.val).getD 10
  let totalPages := max 1 ((total + pageSize - 1) / pageSize)
  { page := min (max (query.page.getD 1) 1) totalPages, pageSize, total, totalPages }

omit [Platform] in
def Pagination.slice (pagination : Pagination) (candidates : List α) : List α :=
  (candidates.drop ((pagination.page - 1) * pagination.pageSize)).take pagination.pageSize

structure ListChild where
  id : EntityId
  entityName : String
  registrationType : RegistrationType
  relation : LinkRelation
  jurisdiction : String
  entityType : String
  entityStatus : String
  complianceStatus : ComplianceStatus
  nextDueDate : Option String
  ownershipPct : Option Nat
  subsidiaryCount : Nat
  fqCount : Nat
  children : List ListChild
  matchesSearch : Bool

structure ListRow where
  id : EntityId
  entityName : String
  registrationType : RegistrationType
  jurisdiction : String
  entityType : String
  entityStatus : String
  complianceStatus : ComplianceStatus
  nextDueDate : Option String
  subsidiaryCount : Nat
  fqCount : Nat
  children : List ListChild
  matchesSearch : Bool

structure EntitiesPage where
  data : List ListRow
  pagination : Pagination

structure PageContext where
  today : Date
  term : Option String
  childrenByParent : InsertionMap (Option EntityId) (List SubtreeRow)
  filingsByEntityId : InsertionMap EntityId (List Filing)

namespace PageContext

variable (context : PageContext)

/-- `name.toLowerCase().includes(term.toLowerCase())` for a search term. -/
def matchesSearch (name : String) : Bool :=
  context.term.any fun term => includes (Platform.toLowerCase term) (Platform.toLowerCase name)

omit [Platform] in
def direct (parentId : EntityId) : List SubtreeRow :=
  (context.childrenByParent.get? (some parentId)).getD []

omit [Platform] in
def directOf (relation : LinkRelation) (parentId : EntityId) : List SubtreeRow :=
  (context.direct parentId).filter (·.relation = relation)

omit [Platform] in
def nextDueDate (id : EntityId) : Option Date :=
  nextDueDateOf context.filingsByEntityId id

def complianceStatus (id : EntityId) (entityStatus : String) : ComplianceStatus :=
  computeComplianceStatus entityStatus (context.nextDueDate id) context.today

/-- An FQ is terminal in the tree. -/
def fqChild (row : SubtreeRow) : ListChild where
  id := row.id
  entityName := row.entityName
  registrationType := .fq
  relation := .fq
  jurisdiction := row.jurisdiction
  entityType := row.entityType
  entityStatus := row.entityStatus
  complianceStatus := context.complianceStatus row.id row.entityStatus
  nextDueDate := (context.nextDueDate row.id).map toDateOnlyString
  ownershipPct := none
  subsidiaryCount := 0
  fqCount := 0
  children := []
  matchesSearch := context.matchesSearch row.entityName

def subsidiaryChild (row : SubtreeRow) (children : List ListChild) : ListChild where
  id := row.id
  entityName := row.entityName
  registrationType := .entity
  relation := .subsidiary
  jurisdiction := row.jurisdiction
  entityType := row.entityType
  entityStatus := row.entityStatus
  complianceStatus := context.complianceStatus row.id row.entityStatus
  nextDueDate := (context.nextDueDate row.id).map toDateOnlyString
  ownershipPct := row.ownershipPct
  subsidiaryCount := (context.directOf .subsidiary row.id).length
  fqCount := (context.directOf .fq row.id).length
  children
  matchesSearch := context.matchesSearch row.entityName

/-- FQs first, then subsidiaries with their own children. -/
def buildChildren : (rounds : Nat) → (parentId : EntityId) → Option (List ListChild)
  | 0, _ => none
  | rounds + 1, parentId => do
      let subsidiaries ← (context.directOf .subsidiary parentId).mapM fun row =>
        (buildChildren rounds row.id).map (context.subsidiaryChild row)
      return (context.directOf .fq parentId).map context.fqChild ++ subsidiaries

def topLevelRow (root : CandidateRoot) (children : List ListChild) : ListRow where
  id := root.id
  entityName := root.entityName
  registrationType := .entity
  jurisdiction := root.jurisdiction
  entityType := root.entityType
  entityStatus := root.entityStatus
  complianceStatus := context.complianceStatus root.id root.entityStatus
  nextDueDate := (context.nextDueDate root.id).map toDateOnlyString
  subsidiaryCount := (context.directOf .subsidiary root.id).length
  fqCount := (context.directOf .fq root.id).length
  children
  matchesSearch := context.matchesSearch root.entityName

end PageContext

omit [Platform] in
def pageContext (today : Date) (query : EntitiesQuery) (subtreeRows : List SubtreeRow) (filings : List Filing) :
    PageContext where
  today
  term := query.term
  childrenByParent := .groupBy (subtreeRows.filter fun row => row.relation ≠ .self) SubtreeRow.viaParentId
  filingsByEntityId := .groupBy filings Filing.entityId

def pageRoots (db : Database) (today : Date) (rounds : Nat) (query : EntitiesQuery) : Option (List CandidateRoot) :=
  (selectCandidates db today rounds query).map fun candidates => (paginate query candidates.length).slice candidates

def getEntitiesList (db : Database) (today : Date) (rounds : Nat) (query : EntitiesQuery) : Option EntitiesPage := do
  let candidates ← selectCandidates db today rounds query
  let pagination := paginate query candidates.length
  let roots := pagination.slice candidates
  if roots = [] then return { data := [], pagination }
  else
    let subtreeRows ← fetchSubtrees db rounds (roots.map CandidateRoot.id)
    let filings ← findFilings db.filings.records (subtreeRows.map SubtreeRow.id)
    let context := pageContext today query subtreeRows filings
    let data ← roots.mapM fun root => (context.buildChildren rounds root.id).map (context.topLevelRow root)
    return { data, pagination }

end Coverpin.Registry
