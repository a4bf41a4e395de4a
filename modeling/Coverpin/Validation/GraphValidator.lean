import Coverpin.Validation.CycleDetection
import Coverpin.Validation.OwnershipValidator

namespace Coverpin.Validation.Graph

open Coverpin.Data Coverpin.Validation.Ownership Relation

/-! # The ownership graph of an upload merged with what is persisted

Nodes are normalized names.  An edge is a string key, and its two ends are read
back from that key.
-/

structure ExistingEdge where
  parentName : String
  childName : String
  pct : Nat
deriving DecidableEq, Repr

/-- The two ends of an edge, read back from its key. -/
def splitKey (key : String) : String × String :=
  let parts := split "|||" key
  (parts.getD 0 "", parts.getD 1 "")

def adjacencyOf (merged : InsertionMap String Nat) : InsertionMap String (List String) :=
  merged.keys.foldl (fun adjacency key => adjacency.push (splitKey key).1 (splitKey key).2) .empty

def totalsByChild (merged : InsertionMap String Nat) : InsertionMap String Nat :=
  merged.entries.foldl (fun totals (key, pct) => totals.add (splitKey key).2 pct) .empty

def totalOf (merged : InsertionMap String Nat) (child : String) : Nat :=
  ((totalsByChild merged).get? child).getD 0

variable [Platform]

def ExistingEdge.entry (edge : ExistingEdge) : String × Nat :=
  (edgeKey edge.parentName edge.childName, edge.pct)

def rowEntry (row : ParsedOwnershipRow) : String × Nat :=
  (edgeKey row.parentEntity row.childEntity, row.ownershipPct)

/-- Existing edges, overwritten by the edges of this upload. -/
def mergedEdges (rows : List ParsedOwnershipRow) (existingEdges : List ExistingEdge) : InsertionMap String Nat :=
  (InsertionMap.ofPairs (existingEdges.map ExistingEdge.entry)).setAll (rows.map rowEntry)

omit [Platform] in
def cycleError (row : ParsedOwnershipRow) : ValidationError :=
  let parentEntity := row.parentEntity
  let childEntity := row.childEntity
  makeError FILE row.line "Parent Entity"
    s!"Ownership cycle detected: '{parentEntity}' -> '{childEntity}' is part of a cycle (directly or through other entities)."

def cycleErrors (rows : List ParsedOwnershipRow) (cyclicNodes : List String) : List ValidationError :=
  (rows.filter fun row => cyclicNodes.contains (normalizeName row.parentEntity) &&
    cyclicNodes.contains (normalizeName row.childEntity)).map cycleError

omit [Platform] in
def totalError (row : ParsedOwnershipRow) (total : Nat) : ValidationError :=
  let childEntity := row.childEntity
  let percent := toFixed2 total
  makeError FILE row.line "Ownership %"
    s!"Total ownership of '{childEntity}' across all parents is {percent}%, which exceeds 100%."

def totalErrors (rows : List ParsedOwnershipRow) (merged : InsertionMap String Nat) : List ValidationError :=
  (rows.filter fun row => 100 * 100 < totalOf merged (normalizeName row.childEntity)).map fun row =>
    totalError row (totalOf merged (normalizeName row.childEntity))

/-- Errors are reported on rows of this upload only. -/
def validateOwnershipGraph (rows : List ParsedOwnershipRow) (existingEdges : List ExistingEdge) :
    List ValidationError :=
  let merged := mergedEdges rows existingEdges
  cycleErrors rows (detectCyclicNodes (adjacencyOf merged)) ++ totalErrors rows merged

section Reading

variable {merged : InsertionMap String Nat} {parent child : String}

omit [Platform] in
theorem childrenOf_adjacencyOf : childrenOf (adjacencyOf merged) parent =
    ((merged.keys.map splitKey).filter (·.1 = parent)).map Prod.snd := by
  rw [childrenOf, adjacencyOf, InsertionMap.getD_foldl_push (fun key => (splitKey key).1)
    (fun key => (splitKey key).2), List.filter_map, List.map_map]
  rfl

omit [Platform] in
theorem edge_adjacencyOf : Edge (adjacencyOf merged) parent child ↔
    ∃ key ∈ merged.keys, splitKey key = (parent, child) := by
  rw [Edge, childrenOf_adjacencyOf]
  simp only [List.mem_map, List.mem_filter, decide_eq_true_eq]
  constructor
  · intro listed
    obtain ⟨⟨_, _⟩, ⟨⟨key, member, same⟩, rfl⟩, rfl⟩ := listed
    exact ⟨key, member, same⟩
  · intro listed
    obtain ⟨key, member, same⟩ := listed
    exact ⟨_, ⟨⟨key, member, rfl⟩, by rw [same]⟩, by rw [same]⟩

omit [Platform] in
theorem totalOf_eq : totalOf merged child =
    ((merged.entries.filter fun entry => (splitKey entry.1).2 = child).map Prod.snd).sum := by
  rw [totalOf, totalsByChild, InsertionMap.getD_foldl_add (fun entry => (splitKey entry.1).2)
    Prod.snd]
  simp

end Reading

/-- The key of an edge gives back its two normalized names. -/
def KeySafe (parentName childName : String) : Prop :=
  splitKey (edgeKey parentName childName) = (normalizeName parentName, normalizeName childName)

instance (parentName childName : String) : Decidable (KeySafe parentName childName) :=
  inferInstanceAs (Decidable (_ = _))

def bars : List Char := ['|', '|', '|']

omit [Platform] in
theorem toList_bars : "|||".toList = bars := rfl

/-- Names that keep clear of the separator: it occurs in neither of them and the
parent does not end in its first character. -/
def ClearOfSeparator (parentName childName : String) : Prop :=
  ¬ bars <:+: (normalizeName parentName).toList ∧ ¬ ['|'] <:+ (normalizeName parentName).toList ∧
    ¬ bars <:+: (normalizeName childName).toList

omit [Platform] in
theorem noSeparatorWithin_iff (left right : List Char) :
    NoSeparatorWithin bars left (bars ++ right) ↔ ¬ bars <:+: left ∧ ¬ ['|'] <:+ left := by
  constructor
  · intro clean
    refine ⟨?_, ?_⟩
    · intro contained
      obtain ⟨before, after, rfl⟩ := contained
      exact clean before (bars ++ after) (by simp) (by simp [bars]) ⟨after ++ (bars ++ right), by simp⟩
    · intro ends
      obtain ⟨before, rfl⟩ := ends
      exact clean before ['|'] rfl (by simp) ⟨'|' :: right, rfl⟩
  · intro clear before inside same present starts
    obtain ⟨free, unfinished⟩ := clear
    obtain ⟨rest, found⟩ := starts
    subst same
    match inside, present with
    | [first], _ =>
        simp only [bars, List.cons_append, List.nil_append, List.cons.injEq] at found
        exact unfinished ⟨before, by rw [← found.1]⟩
    | [first, second], _ =>
        simp only [bars, List.cons_append, List.nil_append, List.cons.injEq] at found
        exact unfinished ⟨before ++ [first], by rw [found.2.1]; simp⟩
    | first :: second :: third :: others, _ =>
        simp only [bars, List.cons_append, List.nil_append, List.cons.injEq] at found
        obtain ⟨rfl, rfl, rfl, -⟩ := found
        exact free ⟨before, others, by simp [bars]⟩

theorem keySafe_iff {parentName childName : String} :
    KeySafe parentName childName ↔ ClearOfSeparator parentName childName := by
  let left := (normalizeName parentName).toList
  let right := (normalizeName childName).toList
  have key : (edgeKey parentName childName).toList = left ++ (bars ++ right) := by
    simp [edgeKey, left, right, bars]
  obtain ⟨first, second, rest, parts⟩ :=
    splitFrom_parts left [] (by simp [bars]) (List.prefix_append bars right)
  have readable : KeySafe parentName childName ↔ first = left ∧ second = right := by
    rw [KeySafe, splitKey, split, key, toList_bars, splitAt, parts]
    simp only [List.map_cons, List.getD_cons_zero, List.getD_cons_succ, Prod.mk.injEq, left, right,
      ← String.toList_inj, String.toList_ofList]
  rw [readable, ClearOfSeparator, ← and_assoc, ← noSeparatorWithin_iff left right,
    ← splitAt_join (by simp [bars]), splitAt, List.append_assoc, parts]
  simp [left, right]

instance (parentName childName : String) : Decidable (ClearOfSeparator parentName childName) :=
  decidable_of_iff _ keySafe_iff

theorem normalizeName_pipeFree {name : String} (free : '|' ∉ name.toList) : '|' ∉ (normalizeName name).toList := by
  intro member
  have trimmed := Platform.toLowerCase_pipe _ member
  rw [toList_trim] at trimmed
  exact free (trimChars_subset _ trimmed)

theorem keySafe_of_pipeFree {parentName childName : String} (parentFree : '|' ∉ (normalizeName parentName).toList)
    (childFree : '|' ∉ (normalizeName childName).toList) : KeySafe parentName childName := by
  refine keySafe_iff.mpr ⟨fun inside => ?_, fun ends => ?_, fun inside => ?_⟩
  · exact parentFree (inside.subset (by simp [bars]))
  · exact parentFree (ends.subset (by simp))
  · exact childFree (inside.subset (by simp [bars]))

theorem edgeKey_congr {parent child parent' child' : String} (sameParent : normalizeName parent = normalizeName parent')
    (sameChild : normalizeName child = normalizeName child') : edgeKey parent child = edgeKey parent' child' := by
  rw [edgeKey, sameParent, sameChild, edgeKey]

theorem KeySafe.congr {parent child parent' child' : String} (safe : KeySafe parent child)
    (sameParent : normalizeName parent = normalizeName parent')
    (sameChild : normalizeName child = normalizeName child') : KeySafe parent' child' := by
  rw [KeySafe, ← edgeKey_congr sameParent sameChild, safe, sameParent, sameChild]

theorem KeySafe.inj {parent child parent' child' : String} (safe : KeySafe parent child)
    (safe' : KeySafe parent' child') (same : edgeKey parent child = edgeKey parent' child') :
    normalizeName parent = normalizeName parent' ∧ normalizeName child = normalizeName child' := by
  rw [KeySafe, same, safe', Prod.mk.injEq] at safe
  exact ⟨safe.1.symm, safe.2.symm⟩

/-- No directed cycle, and no child is owned above 100% in total. -/
structure GraphSound (graph : InsertionMap String Nat) : Prop where
  acyclic : Acyclic (Edge (adjacencyOf graph))
  totals : ∀ child, totalOf graph child ≤ 100 * 100

section Merging

variable {rows : List ParsedOwnershipRow} {existingEdges : List ExistingEdge}

theorem validateOwnershipGraph_eq_nil : validateOwnershipGraph rows existingEdges = [] ↔
    (∀ row ∈ rows, ¬ (normalizeName row.parentEntity ∈ detectCyclicNodes (adjacencyOf (mergedEdges rows existingEdges)) ∧
      normalizeName row.childEntity ∈ detectCyclicNodes (adjacencyOf (mergedEdges rows existingEdges)))) ∧
    ∀ row ∈ rows, totalOf (mergedEdges rows existingEdges) (normalizeName row.childEntity) ≤ 100 * 100 := by
  simp only [validateOwnershipGraph, cycleErrors, totalErrors, List.append_eq_nil_iff, List.map_eq_nil_iff,
    List.filter_eq_nil_iff, Bool.and_eq_true, List.contains_iff_mem, decide_eq_true_eq, Nat.not_lt]

theorem mem_keys_mergedEdges {key : String} (member : key ∈ (mergedEdges rows existingEdges).keys) :
    (∃ row ∈ rows, key = edgeKey row.parentEntity row.childEntity) ∨
      key ∈ (InsertionMap.ofPairs (existingEdges.map ExistingEdge.entry)).keys := by
  rcases InsertionMap.mem_keys_setAll.mp member with old | new
  · exact .inr old
  · rw [List.map_map, List.mem_map] at new
    obtain ⟨row, inside, rfl⟩ := new
    exact .inl ⟨row, inside, rfl⟩

/-- A cycle of the merged graph would pass through an uploaded row both of whose
ends are flagged, so without errors there is none. -/
theorem mergedEdges_acyclic (before : GraphSound (.ofPairs (existingEdges.map ExistingEdge.entry)))
    (readable : ∀ row ∈ rows, KeySafe row.parentEntity row.childEntity)
    (accepted : validateOwnershipGraph rows existingEdges = []) :
    Acyclic (Edge (adjacencyOf (mergedEdges rows existingEdges))) := by
  apply detectCyclicNodes_complete
  rw [List.eq_nil_iff_forall_not_mem]
  intro node flagged
  obtain ⟨parent, child, ⟨edge, parentFlagged, childFlagged⟩, new⟩ :=
    before.acyclic.edge_outside (detectCyclicNodes_onCycle flagged)
  obtain ⟨key, member, ends⟩ := edge_adjacencyOf.mp edge
  rcases mem_keys_mergedEdges member with ⟨row, inside, rfl⟩ | old
  · rw [readable row inside, Prod.mk.injEq] at ends
    exact (validateOwnershipGraph_eq_nil.mp accepted).1 row inside
      ⟨ends.1 ▸ parentFlagged, ends.2 ▸ childFlagged⟩
  · exact new (edge_adjacencyOf.mpr ⟨key, old, ends⟩)

/-- Totals are checked for the children of this upload; every other child keeps
the edges it had. -/
theorem mergedEdges_totals (before : GraphSound (.ofPairs (existingEdges.map ExistingEdge.entry)))
    (readable : ∀ row ∈ rows, KeySafe row.parentEntity row.childEntity)
    (accepted : validateOwnershipGraph rows existingEdges = []) (child : String) :
    totalOf (mergedEdges rows existingEdges) child ≤ 100 * 100 := by
  by_cases uploaded : ∃ row ∈ rows, normalizeName row.childEntity = child
  · obtain ⟨row, inside, rfl⟩ := uploaded
    exact (validateOwnershipGraph_eq_nil.mp accepted).2 row inside
  · have unchanged : totalOf (mergedEdges rows existingEdges) child =
        totalOf (.ofPairs (existingEdges.map ExistingEdge.entry)) child := by
      rw [totalOf_eq, totalOf_eq, mergedEdges,
        InsertionMap.filter_setAll (p := fun key => decide ((splitKey key).2 = child))]
      intro pair member
      obtain ⟨row, inside, rfl⟩ := List.mem_map.mp member
      have other : normalizeName row.childEntity ≠ child := fun same => uploaded ⟨row, inside, same⟩
      rw [rowEntry, readable row inside]
      exact decide_eq_false other
    exact unchanged ▸ before.totals child

theorem mergedEdges_sound (before : GraphSound (.ofPairs (existingEdges.map ExistingEdge.entry)))
    (readable : ∀ row ∈ rows, KeySafe row.parentEntity row.childEntity)
    (accepted : validateOwnershipGraph rows existingEdges = []) : GraphSound (mergedEdges rows existingEdges) :=
  ⟨mergedEdges_acyclic before readable accepted, mergedEdges_totals before readable accepted⟩

theorem accepted_of_sound (sound : GraphSound (mergedEdges rows existingEdges)) :
    validateOwnershipGraph rows existingEdges = [] := by
  refine validateOwnershipGraph_eq_nil.mpr ⟨fun row _ flagged => ?_, fun row _ => sound.totals _⟩
  exact sound.acyclic _ (TransGen.mono (fun _ _ within => within.1) _ _ (detectCyclicNodes_onCycle flagged.1))

/-- The check looks at the names and percentages of its rows only. -/
theorem validateOwnershipGraph_map {f : ParsedOwnershipRow → ParsedOwnershipRow}
    (parent : ∀ row, (f row).parentEntity = row.parentEntity) (child : ∀ row, (f row).childEntity = row.childEntity)
    (pct : ∀ row, (f row).ownershipPct = row.ownershipPct) :
    validateOwnershipGraph (rows.map f) existingEdges = [] ↔ validateOwnershipGraph rows existingEdges = [] := by
  have merged : mergedEdges (rows.map f) existingEdges = mergedEdges rows existingEdges := by
    have entries : rowEntry ∘ f = rowEntry := funext fun row => by simp [rowEntry, parent, child, pct]
    rw [mergedEdges, List.map_map, entries, mergedEdges]
  simp only [validateOwnershipGraph_eq_nil, merged, List.forall_mem_map, parent, child]

end Merging

end Coverpin.Validation.Graph
