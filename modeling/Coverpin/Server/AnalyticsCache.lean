import Coverpin.Server.Effects

namespace Coverpin.Server

open Coverpin.Data Coverpin.Database Coverpin.Upload Coverpin.Validation

/-! # The analytics cache

`getAnalyticsBase` holds what it has read until it assigns the cache.  An upload
that commits and clears the cache in between does not reach these reads, and no
later step clears what they are assigned to.
-/

/-- A `getAnalyticsBase` with rows of a table that has other rows by now. -/
def Process.outdated (db : Database) : Process → Bool
  | .fill entities edges =>
      entities.any (fun rows => rows != db.entities.records) || edges.any (fun rows => rows != db.ownershipEdges.records)
  | _ => false

def AnalyticsBase.Current (base : AnalyticsBase) (db : Database) : Prop :=
  base.entities = db.entities.records ∧ base.edges = db.ownershipEdges.records

/-- No upload is between its commit and its clearing of the cache. -/
def Settled (state : State) : Prop :=
  ∀ process ∈ state.running, process.clears = false

def CacheCurrent (state : State) : Prop :=
  Settled state → ∀ base, state.shared.analyticsBaseCache = some base → base.Current state.shared.db

/-- The step in which the last upload clears the cache while a `getAnalyticsBase`
still has outdated rows. -/
def LeavesOutdated (state : State) (action : Action) : Prop :=
  ∃ i process, action = .advance i .succeed ∧ state.running[i]? = some process ∧ process.clears = true ∧
    (∀ other ∈ state.running.eraseIdx i, other.clears = false) ∧
    ∃ other ∈ state.running, other.outdated state.shared.db = true

/-- The steps of the `getAnalyticsBase` calls that are running. -/
def Fills (state : State) (action : Action) : Prop :=
  ∃ i choice entities edges, action = .advance i choice ∧ state.running[i]? = some (.fill entities edges)

theorem outdated_fill {db : Database} {process : Process} (outdated : process.outdated db = true) :
    ∃ entities edges, process = .fill entities edges := by
  cases process with
  | fill entities edges => exact ⟨entities, edges, rfl⟩
  | _ => cases outdated

theorem current_iff {db : Database} {base : AnalyticsBase} :
    base.Current db ↔ (Process.fill (some base.entities) (some base.edges)).outdated db = false := by
  simp [AnalyticsBase.Current, Process.outdated]

variable [Platform] {limits : Limits} {trace : List (State × Action)} {state after : State} {action : Action}
  {shared : Shared} {process : Process} {choice : Choice} {result : Outcome}

theorem started_not_outdated {db : Database} (new : Started limits shared action process) :
    process.outdated db = false := by
  cases new <;> rfl

theorem Effect.of_clears (effect : Effect limits shared process choice result) (clears : process.clears = true) :
    choice = .succeed ∧ result.shared = { shared with analyticsBaseCache := none } ∧
      ∀ next ∈ result.next, next.clears = false ∧ ∀ db, next.outdated db = false := by
  cases effect with
  | cleared => exact ⟨rfl, rfl, List.forall_mem_nil _⟩
  | jobCleared dispatcher jobId counts =>
      refine ⟨rfl, rfl, fun next member => ?_⟩
      rw [List.mem_singleton.mp member]
      exact ⟨rfl, fun _ => rfl⟩
  | ended other =>
      rw [clears] at other
      cases other
  | _ => cases clears

/-- A step that commits leaves a process that clears.  Every other one leaves the
tables alone, and with reads that are not outdated it leaves the cache current. -/
theorem Effect.of_not_clears (effect : Effect limits shared process choice result)
    (settled : ∀ next ∈ result.next, next.clears = false) (others : process.clears = false)
    (reads : process.outdated shared.db = false) :
    result.shared.db = shared.db ∧ (∀ next ∈ result.next, next.outdated shared.db = false) ∧
      ∀ base, result.shared.analyticsBaseCache = some base →
        shared.analyticsBaseCache = some base ∨ base.Current shared.db := by
  cases effect with
  | committed | wrote => cases settled _ (List.mem_singleton_self _)
  | cleared | jobCleared => cases others
  | stored entities edges =>
      refine ⟨rfl, List.forall_mem_nil _, fun base assigned => .inr ?_⟩
      cases assigned
      exact current_iff.mpr reads
  | readEntities edges | readEdges edges =>
      refine ⟨rfl, fun next member => ?_, fun _ cached => .inl cached⟩
      rw [List.mem_singleton.mp member]
      simpa [Process.outdated] using reads
  | dispatched jobId rows published dispatchMethod =>
      refine ⟨rfl, fun next member => ?_, fun _ cached => .inl cached⟩
      cases published
      · simp only [Bool.false_eq_true, if_false, List.mem_singleton] at member
        rw [member]
        rfl
      · cases member
  | created | published | found | claimed | rolledBack | caught =>
      refine ⟨rfl, fun next member => ?_, fun _ cached => .inl cached⟩
      rw [List.mem_singleton.mp member]
      rfl
  | completed | failed | ended => exact ⟨rfl, List.forall_mem_nil _, fun _ cached => .inl cached⟩

/-- While no upload is about to clear the cache, neither the cache nor a read that
may be assigned to it is outdated. -/
def CacheInvariant (state : State) : Prop :=
  Settled state → (∀ base, state.shared.analyticsBaseCache = some base → base.Current state.shared.db) ∧
    ∀ process ∈ state.running, process.outdated state.shared.db = false

theorem CacheInvariant.step (invariant : CacheInvariant state) (allowed : ¬ LeavesOutdated state action)
    (taken : step limits state action = some after) : CacheInvariant after := by
  rcases step_cases taken with ⟨_, new, starts, rfl⟩ | ⟨_, rfl⟩ |
    ⟨i, choice, process, result, rfl, found, effect, _, rfl⟩
  · intro settled
    obtain ⟨cache, reads⟩ := invariant fun process member => settled process (List.mem_append_left _ member)
    refine ⟨cache, fun process member => ?_⟩
    rcases List.mem_append.mp member with old | started
    · exact reads process old
    · exact started_not_outdated (starts process started)
  · exact fun _ => ⟨by rintro base ⟨⟩, List.forall_mem_nil _⟩
  · intro settled
    have others : ∀ other ∈ state.running.eraseIdx i, other.clears = false :=
      fun other member => settled other (List.mem_append_left _ member)
    have successors : ∀ next ∈ result.next, next.clears = false :=
      fun next member => settled next (List.mem_append_right _ member)
    cases clears : process.clears with
    | true =>
        obtain ⟨rfl, same, new⟩ := effect.of_clears clears
        refine ⟨fun base cached => by simp [same] at cached, forall_replaceAt ?_ ?_⟩
        · intro other member
          rw [same]
          refine Bool.eq_false_iff.mpr fun outdated => allowed ?_
          exact ⟨i, process, rfl, found, clears, others, other, member, outdated⟩
        · exact fun next member => (new next member).2 _
    | false =>
        -- The tables were settled before the step as well.
        have before : Settled state := by
          intro other member
          rcases List.mem_cons.mp ((perm_eraseIdx found).mem_iff.mp member) with rfl | beside
          · exact clears
          · exact others other beside
        obtain ⟨cache, reads⟩ := invariant before
        obtain ⟨same, new, cached⟩ := effect.of_not_clears successors clears (reads process (List.mem_of_getElem? found))
        refine ⟨fun base assigned => ?_, ?_⟩
        · rw [same]
          exact (cached base assigned).elim (cache base) id
        · rw [same]
          exact forall_replaceAt reads new

/-- Steps of running `getAnalyticsBase` calls alone lead to an outdated cache. -/
def ReachesOutdated (limits : Limits) (state : State) : Prop :=
  ∃ rest final, Run (step limits) state rest final ∧ (∀ entry ∈ rest, Fills entry.1 entry.2) ∧ ¬ CacheCurrent final

theorem outdated_stored (limits : Limits) (settled : Settled state) {i : Nat} {base : AnalyticsBase}
    (found : state.running[i]? = some (.fill (some base.entities) (some base.edges)))
    (outdated : ¬ base.Current state.shared.db) :
    ∃ final, step limits state (.advance i .succeed) = some final ∧ ¬ CacheCurrent final := by
  refine ⟨⟨{ state.shared with analyticsBaseCache := some base }, replaceAt state.running i []⟩, ?_, fun current => ?_⟩
  · simp [step, outcome, found, advance, afterSuccess]
  · refine outdated (current (fun process member => ?_) base rfl)
    rcases mem_of_mem_replaceAt member with old | ⟨⟨⟩⟩
    exact settled process (mem_of_mem_eraseIdx old)

/-- One that has read one table reads the other one first. -/
theorem outdated_read (choice : Choice) (settled : Settled state) {i : Nat} {entities : Option (List EntityRecord)}
    {edges : Option (List OwnershipEdge)} (found : state.running[i]? = some (.fill entities edges)) (base : AnalyticsBase)
    (read : advance limits state.shared (.fill entities edges) choice =
      some ⟨state.shared, [.fill (some base.entities) (some base.edges)], none⟩)
    (outdated : ¬ base.Current state.shared.db) : ReachesOutdated limits state := by
  let next : State := ⟨state.shared, replaceAt state.running i [.fill (some base.entities) (some base.edges)]⟩
  have taken : step limits state (.advance i choice) = some next := by
    simp [step, outcome, found, read, next]
  have settledNext : Settled next := by
    apply forall_replaceAt settled
    intro other member
    rw [List.mem_singleton.mp member]
    rfl
  obtain ⟨j, waiting⟩ := List.mem_iff_getElem?.mp (List.mem_append_right (state.running.eraseIdx i)
    (List.mem_singleton_self (Process.fill (some base.entities) (some base.edges))))
  obtain ⟨final, stored, wrong⟩ := outdated_stored limits settledNext waiting outdated
  refine ⟨_, final, (Run.start.next taken).next stored, fun entry member => ?_, wrong⟩
  rcases List.mem_append.mp member with first | last
  · rw [List.mem_singleton.mp first]
    exact ⟨i, _, _, _, rfl, found⟩
  · rw [List.mem_singleton.mp last]
    exact ⟨j, _, _, _, rfl, waiting⟩

theorem outdated_reaches (settled : Settled state) (member : process ∈ state.running)
    (outdated : process.outdated state.shared.db = true) : ReachesOutdated limits state := by
  obtain ⟨i, found⟩ := List.mem_iff_getElem?.mp member
  obtain ⟨entities, edges, rfl⟩ := outdated_fill outdated
  match entities, edges with
  | some entities, some edges =>
      have wrong : ¬ AnalyticsBase.Current ⟨entities, edges⟩ state.shared.db := by
        simp [current_iff, outdated]
      obtain ⟨final, stored, wrong⟩ := outdated_stored limits settled found wrong
      refine ⟨_, final, Run.start.next stored, fun entry member => ?_, wrong⟩
      rw [List.mem_singleton.mp member]
      exact ⟨i, _, _, _, rfl, found⟩
  | some entities, none =>
      refine outdated_read .readEdges settled found ⟨entities, state.shared.db.ownershipEdges.records⟩ rfl ?_
      simpa [current_iff, Process.outdated] using outdated
  | none, some edges =>
      refine outdated_read .readEntities settled found ⟨state.shared.db.entities.records, edges⟩ rfl ?_
      simpa [current_iff, Process.outdated] using outdated
  | none, none => cases outdated

/-- After a step that leaves outdated rows, the `getAnalyticsBase` that holds them
only has to go on. -/
theorem LeavesOutdated.reaches (leaves : LeavesOutdated state action) (taken : step limits state action = some after) :
    ReachesOutdated limits after := by
  obtain ⟨i, process, rfl, found, clears, others, holder, member, outdated⟩ := leaves
  obtain ⟨result, advanced, rfl⟩ := Option.map_eq_some_iff.mp taken
  rw [outcome, found, Option.bind_some] at advanced
  obtain ⟨_, same, successors⟩ := (advance_effect advanced).of_clears clears
  have settled : Settled ⟨result.shared, replaceAt state.running i result.next⟩ := by
    intro other member
    rcases mem_of_mem_replaceAt member with old | next
    · exact others other old
    · exact (successors other next).1
  have survives : holder ∈ replaceAt state.running i result.next := by
    rcases List.mem_cons.mp ((perm_eraseIdx found).mem_iff.mp member) with rfl | beside
    · obtain ⟨entities, edges, rfl⟩ := outdated_fill outdated
      cases clears
    · exact List.mem_append_left _ beside
  apply outdated_reaches settled survives
  rw [same]
  exact outdated

theorem cache_current (run : Run (step limits) State.initial trace state) :
    ((∀ entry ∈ trace, ¬ LeavesOutdated entry.1 entry.2) → ∀ other ∈ visited trace state, CacheCurrent other) ∧
    ∀ entry ∈ trace, LeavesOutdated entry.1 entry.2 →
      ∃ after, step limits entry.1 entry.2 = some after ∧ ReachesOutdated limits after := by
  constructor
  · intro allowed other member settled
    have invariant := run.invariant_visited CacheInvariant (fun state action => ¬ LeavesOutdated state action)
      (fun _ => ⟨by rintro base ⟨⟩, List.forall_mem_nil _⟩)
      (fun _ _ _ invariant allowed taken => invariant.step allowed taken)
      allowed other member
    exact (invariant settled).1
  · intro entry member leaves
    obtain ⟨_, after, _, taken, _⟩ := run.entry member
    exact ⟨after, taken, leaves.reaches taken⟩

omit [Platform] in
/-- A `getAnalyticsBase` reads empty tables, an upload is written and clears the
cache, and the call stores what it has read. -/
def overtakenActions : List Action := [
  .getAnalytics, .advance 0 .readEntities, .advance 0 .readEdges,
  .upload ⟨0⟩ (ownershipFiles [("Acme", "Entity", "")] []), .advance 1 .succeed, .advance 1 .succeed,
  .advance 0 .succeed]

omit [Platform] in
theorem overtaken_cache_outdated : ¬ ∀ [Platform] (limits : Limits) (trace : List (State × Action)) (state : State),
    Run (step limits) State.initial trace state → CacheCurrent state := by
  intro claimed
  have reached : letI := asciiPlatform
      ((execute (step Limits.default) State.initial overtakenActions).map fun state =>
        (state.running, state.shared.analyticsBaseCache, state.shared.db.entities.records.map EntityRecord.entityName)) =
      some ([], some ⟨[], []⟩, ["Acme"]) := by
    decide +kernel
  let _ := asciiPlatform
  obtain ⟨state, executed, facts⟩ := Option.map_eq_some_iff.mp reached
  simp only [Prod.mk.injEq] at facts
  obtain ⟨running, cached, names⟩ := facts
  have current := claimed _ _ _ (run_steps executed) (by rw [Settled, running]; exact List.forall_mem_nil _) _ cached
  rw [← current.1] at names
  cases names

omit [Platform] in
def refreshedActions : List Action := [
  .upload ⟨0⟩ (ownershipFiles [("Acme", "Entity", "")] []), .advance 0 .succeed,
  .getAnalytics, .advance 1 .readEntities, .advance 0 .succeed, .advance 0 .readEdges, .advance 0 .succeed]

omit [Platform] in
theorem refreshed_cache_current :
    letI := asciiPlatform
    ∃ trace state, trace.map Prod.snd = refreshedActions ∧ Run (step Limits.default) State.initial trace state ∧
      ((∀ entry ∈ trace, ¬ LeavesOutdated entry.1 entry.2) → ∀ other ∈ visited trace state, CacheCurrent other) := by
  have finishes : letI := asciiPlatform
      (execute (step Limits.default) State.initial refreshedActions).isSome = true := by
    decide +kernel
  let _ := asciiPlatform
  obtain ⟨state, executed⟩ := Option.isSome_iff_exists.mp finishes
  exact ⟨_, state, steps_actions executed, run_steps executed, (cache_current (run_steps executed)).1⟩

end Coverpin.Server
