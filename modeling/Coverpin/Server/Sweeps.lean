import Coverpin.Server.OrphanedJobs

namespace Coverpin.Server

open Coverpin.Data Coverpin.Database Coverpin.Upload Coverpin.Validation

/-! # Sweeps bring queued jobs to an end

Whatever else the server does meanwhile, a job that a sweep has taken up stays in
hand until it is settled, and every process comes to its end after few steps.
-/

/-- No process takes more steps, together with what becomes of it. -/
def Stage.stepsLeft : Stage → Nat
  | .claim _ => 5
  | .write _ => 4
  | .clear _ => 3
  | .markCompleted _ => 2
  | .markFailed _ => 1

def Process.stepsLeft : Process → Nat
  | .write _ => 2
  | .clear => 1
  | .create _ => 8
  | .publish _ _ => 7
  | .setDispatchMethod _ _ _ => 6
  | .find _ => 6
  | .run _ _ stage => stage.stepsLeft
  | .fill entities edges => 1 + (if entities.isSome then 0 else 1) + if edges.isSome then 0 else 1

def State.stepsLeft (state : State) : Nat :=
  (state.running.map Process.stepsLeft).sum

theorem Process.stepsLeft_pos (process : Process) : 0 < process.stepsLeft := by
  cases process with
  | run dispatcher jobId stage => cases stage <;> exact Nat.succ_pos _
  | fill entities edges => exact Nat.lt_of_lt_of_le Nat.one_pos (Nat.le_trans (Nat.le_add_right _ _) (Nat.le_add_right _ _))
  | _ => exact Nat.succ_pos _

variable [Platform] {limits : Limits} {jobId : JobId} {shared : Shared} {process : Process} {choice : Choice}
  {result : Outcome} {trace : List (State × Action)} {state after : State} {action : Action}

theorem Effect.stepsLeft (effect : Effect limits shared process choice result) :
    (result.next.map Process.stepsLeft).sum < process.stepsLeft := by
  cases effect with
  | dispatched other rows published dispatchMethod => cases published <;> simp [Process.stepsLeft, Stage.stepsLeft]
  | readEntities edges => simp [Process.stepsLeft]
  | readEdges entities => simp [Process.stepsLeft]
  | stored entities edges => exact Process.stepsLeft_pos _
  | ended other => exact Process.stepsLeft_pos process
  | _ => simp [Process.stepsLeft, Stage.stepsLeft]

theorem advance_stepsLeft {i : Nat} (taken : step limits state (.advance i choice) = some after) :
    after.stepsLeft < state.stepsLeft := by
  obtain ⟨result, found, rfl⟩ := Option.map_eq_some_iff.mp taken
  obtain ⟨process, running, advanced⟩ := Option.bind_eq_some_iff.mp found
  have less := (advance_effect advanced).stepsLeft
  have parts : ((replaceAt state.running i result.next).map Process.stepsLeft).sum + process.stepsLeft =
      (state.running.map Process.stepsLeft).sum + (result.next.map Process.stepsLeft).sum := sum_replaceAt _ running
  simp only [State.stepsLeft] at parts ⊢
  omega

theorem afterSuccess_isSome {process : Process} (nothingToRead : ∀ entities edges, process = .fill entities edges →
    entities.isSome = true ∧ edges.isSome = true) : (afterSuccess limits shared process).isSome = true := by
  cases process with
  | write upload =>
      simp only [afterSuccess]
      split <;> rfl
  | find jobId =>
      simp only [afterSuccess]
      split
      · rfl
      · split <;> rfl
  | run dispatcher jobId stage =>
      cases stage with
      | claim rows | write rows =>
          simp only [afterSuccess]
          split <;> rfl
      | _ => rfl
  | fill entities edges =>
      obtain ⟨readEntities, readEdges⟩ := nothingToRead _ _ rfl
      obtain ⟨_, rfl⟩ := Option.isSome_iff_exists.mp readEntities
      obtain ⟨_, rfl⟩ := Option.isSome_iff_exists.mp readEdges
      rfl
  | _ => rfl

/-- Every process can go on without a failure. -/
theorem exists_advance (limits : Limits) (shared : Shared) (process : Process) :
    ∃ choice result, choice ≠ .fail ∧ advance limits shared process choice = some result := by
  by_cases nothingToRead : ∀ entities edges, process = .fill entities edges → entities.isSome = true ∧ edges.isSome = true
  · have goesOn : (afterSuccess limits shared process).isSome = true := afterSuccess_isSome nothingToRead
    obtain ⟨result, taken⟩ := Option.isSome_iff_exists.mp goesOn
    exact ⟨.succeed, result, nofun, taken⟩
  · simp only [not_forall] at nothingToRead
    obtain ⟨entities, edges, rfl, reads⟩ := nothingToRead
    cases entities with
    | none => exact ⟨.readEntities, _, nofun, rfl⟩
    | some entities =>
        cases edges with
        | none => exact ⟨.readEdges, _, nofun, rfl⟩
        | some edges => exact absurd ⟨rfl, rfl⟩ reads

def Process.runs (jobId : JobId) : Process → Bool
  | .run _ other _ => other == jobId
  | _ => false

def Process.claims (jobId : JobId) : Process → Bool
  | .run _ other (.claim _) => other == jobId
  | _ => false

def JobSettled (jobId : JobId) (state : State) : Prop :=
  state.shared.jobs.statusOf jobId = some .completed ∨ state.shared.jobs.statusOf jobId = some .failed

/-- A queued job is about to be claimed, and one that is processing is held. -/
structure InHand (jobId : JobId) (state : State) : Prop where
  known : state.shared.jobs.statusOf jobId ≠ none
  queued : state.shared.jobs.statusOf jobId = some .queued → ∃ process ∈ state.running, process.claims jobId = true
  processing : state.shared.jobs.statusOf jobId = some .processing → ∃ process ∈ state.running, process.holds jobId = true

/-- A restart, or the failure of a claim or of a last update of the job. -/
def interrupts (jobId : JobId) (state : State) : Action → Bool
  | .restart => true
  | .advance i .fail => (state.running[i]?).any fun process =>
      process.runs jobId && (process.claims jobId || process.lastUpdate)
  | _ => false

omit [Platform] in
theorem Process.runs_of_claims (claims : process.claims jobId = true) : process.runs jobId = true := by
  cases process with
  | run dispatcher other stage =>
      cases stage with
      | claim rows => exact claims
      | _ => cases claims
  | _ => cases claims

omit [Platform] in
theorem Process.runs_of_holds (holds : process.holds jobId = true) : process.runs jobId = true := by
  cases process with
  | run dispatcher other stage =>
      simp only [Process.holds, Bool.and_eq_true] at holds
      exact holds.1
  | _ => cases holds

omit [Platform] in
theorem InHand.settled_or_runs (inHand : InHand jobId state) :
    JobSettled jobId state ∨ ∃ process ∈ state.running, process.runs jobId = true := by
  match status : state.shared.jobs.statusOf jobId with
  | none => exact absurd status inHand.known
  | some .queued =>
      obtain ⟨process, inside, claims⟩ := inHand.queued status
      exact .inr ⟨process, inside, Process.runs_of_claims claims⟩
  | some .processing =>
      obtain ⟨process, inside, holds⟩ := inHand.processing status
      exact .inr ⟨process, inside, Process.runs_of_holds holds⟩
  | some .completed => exact .inl (.inl status)
  | some .failed => exact .inl (.inr status)

/-- A claim of a queued job wins. -/
theorem Process.wins_of_claims (claims : process.claims jobId = true) (queued : shared.jobs.statusOf jobId = some .queued)
    (taken : advance limits shared process choice = some result) :
    choice = .fail ∨ result.shared.jobs.statusOf jobId = some .processing := by
  cases process with
  | run dispatcher other stage =>
      cases stage with
      | claim rows =>
          have same : other = jobId := beq_iff_eq.mp claims
          subst same
          cases choice with
          | fail => exact .inl rfl
          | succeed =>
              refine .inr ?_
              rcases shared.jobs.claim_cases other with ⟨_, lost⟩ | ⟨won, _, moved⟩
              · exact absurd queued lost
              · simp only [advance, afterSuccess] at taken
                split at taken
                · rename_i claimed
                  cases taken
                  rw [claimed] at moved
                  exact (moved other).trans (if_pos rfl)
                · rename_i claimed
                  rw [claimed] at won
                  cases won
          | readEntities | readEdges => cases taken
      | _ => cases claims
  | _ => cases claims

/-- What a step does to one process: nothing, unless it is a restart or its own step. -/
theorem step_process (taken : step limits state action = some after) (inside : process ∈ state.running) :
    process ∈ after.running ∨ action = .restart ∨
      ∃ i choice result, action = .advance i choice ∧ state.running[i]? = some process ∧
        advance limits state.shared process choice = some result ∧
        after = { shared := result.shared, running := replaceAt state.running i result.next } := by
  cases action with
  | restart => exact .inr (.inl rfl)
  | advance i choice =>
      obtain ⟨result, found, rfl⟩ := Option.map_eq_some_iff.mp taken
      obtain ⟨other, running, advanced⟩ := Option.bind_eq_some_iff.mp found
      rcases List.mem_cons.mp ((perm_eraseIdx running).mem_iff.mp inside) with rfl | beside
      · exact .inr (.inr ⟨i, choice, result, rfl, running, advanced, rfl⟩)
      · exact .inl (List.mem_append_left _ beside)
  | _ =>
      cases taken
      exact .inl (List.mem_append_left _ inside)

omit [Platform] in
theorem StatusNext.from_known {before next : Option JobStatus} (moves : StatusNext before next) (known : before ≠ none) :
    next ≠ none ∧ (next = some .queued → before = some .queued) := by
  cases moves with
  | stay => exact ⟨known, id⟩
  | create => exact absurd rfl known
  | _ => exact ⟨nofun, nofun⟩

theorem InHand.step (inHand : InHand jobId state) (run : Run (step limits) State.initial trace state)
    (goesOn : interrupts jobId state action = false) (taken : step limits state action = some after) :
    InHand jobId after := by
  have next : StatusNext (state.shared.jobs.statusOf jobId) (after.shared.jobs.statusOf jobId) :=
    ((step_move trace taken).sound (jobView_sound run jobId) (countP_writes_le _)).2
  obtain ⟨known, waited⟩ := next.from_known inHand.known
  refine ⟨known, fun queued => ?_, fun processing => ?_⟩
  · obtain ⟨process, inside, claims⟩ := inHand.queued (waited queued)
    rcases step_process taken inside with stays | rfl | ⟨i, choice, result, rfl, found, advanced, rfl⟩
    · exact ⟨process, stays, claims⟩
    · cases goesOn
    · rcases Process.wins_of_claims claims (waited queued) advanced with rfl | won
      · simp [interrupts, found, Process.runs_of_claims claims, claims] at goesOn
      · rw [won] at queued
        cases queued
  · by_cases before : state.shared.jobs.statusOf jobId = some .processing
    · obtain ⟨process, inside, holds⟩ := inHand.processing before
      rcases step_process taken inside with stays | rfl | ⟨i, choice, result, rfl, found, advanced, rfl⟩
      · exact ⟨process, stays, holds⟩
      · cases goesOn
      · rcases holder_goes_on advanced holds with ⟨later, listed, holds⟩ | settled | ⟨rfl, last⟩
        · exact ⟨later, List.mem_append_right _ listed, holds⟩
        · exact absurd processing settled
        · simp [interrupts, found, Process.runs_of_holds holds, last] at goesOn
    · rcases step_cases taken with ⟨_, _, _, rfl⟩ | ⟨_, rfl⟩ | ⟨i, choice, process, result, _, _, effect, _, rfl⟩
      · exact absurd processing before
      · exact absurd processing before
      · rcases effect.processing processing with already | ⟨later, listed, holds⟩
        · exact absurd already before
        · exact ⟨later, List.mem_append_right _ listed, holds⟩

theorem swept_inHand {old : List JobId} (queued : state.shared.jobs.statusOf jobId = some .queued) (listed : jobId ∈ old) :
    ∃ swept, step limits state (.sweepStaleJobs old) = some swept ∧ InHand jobId swept := by
  obtain ⟨job, stored, status⟩ := Option.map_eq_some_iff.mp queued
  have stale : (jobId, job) ∈ state.shared.jobs.findStaleQueued old :=
    List.mem_filter.mpr ⟨InsertionMap.get?_eq_some.mp stored, by simp [status, listed]⟩
  refine ⟨_, rfl, ⟨by rw [queued]; nofun, fun _ => ?_, fun processing => ?_⟩⟩
  · exact ⟨.run .fallback jobId (.claim job.payload), List.mem_append_right _ (List.mem_map.mpr ⟨_, stale, rfl⟩),
      beq_self_eq_true jobId⟩
  · rw [queued] at processing
    cases processing

/-- A step of a process that does not fail. -/
def Works : Action → Prop
  | .advance _ choice => choice ≠ .fail
  | _ => False

def Action.advances : Action → Bool
  | .advance _ _ => true
  | _ => false

theorem exists_rest (limits : Limits) (state : State) : ∃ more after, Run (step limits) state more after ∧
    (∀ entry ∈ more, Works entry.2) ∧ after.running = [] := by
  refine exists_run_final State.stepsLeft (fun _ action => Works action) (fun state => state.running = []) ?_ state
  intro before running
  obtain ⟨process, others, rest⟩ := List.exists_cons_of_ne_nil running
  obtain ⟨choice, result, works, advanced⟩ := exists_advance limits before.shared process
  have taken : step limits before (.advance 0 choice) =
      some { shared := result.shared, running := replaceAt before.running 0 result.next } := by
    rw [step, outcome, rest]
    exact congrArg (Option.map _) advanced
  exact ⟨.advance 0 choice, _, works, taken, advance_stepsLeft taken⟩

omit [Platform] in
theorem works_goesOn (works : Works action) : interrupts jobId state action = false := by
  cases action with
  | advance i choice =>
      cases choice with
      | fail => exact absurd rfl works
      | _ => rfl
  | _ => exact works.elim

/-- From any reachable state, a sweep that lists a queued job takes it in hand.  From
then on, unless there is a restart or its claim or last update fails, the job is
settled or some process runs it, in every state and whatever else is going on;
processes that are left to themselves come to rest within the steps counted; and
from any state on the way the job can still be brought to an end. -/
theorem sweep_settles (run : Run (step limits) State.initial trace state) {old : List JobId}
    (queued : state.shared.jobs.statusOf jobId = some .queued) (listed : jobId ∈ old) :
    ∃ swept, step limits state (.sweepStaleJobs old) = some swept ∧
      ∀ more after, Run (step limits) swept more after →
        (∀ entry ∈ more, interrupts jobId entry.1 entry.2 = false) →
          (JobSettled jobId after ∨ ∃ process ∈ after.running, process.runs jobId = true) ∧
          ((∀ entry ∈ more, entry.2.advances = true) → more.length ≤ swept.stepsLeft) ∧
          ∃ rest final, Run (step limits) after rest final ∧ (∀ entry ∈ rest, Works entry.2) ∧
            final.running = [] ∧ JobSettled jobId final := by
  have sweeps : ∃ swept, step limits state (.sweepStaleJobs old) = some swept ∧ InHand jobId swept :=
    swept_inHand queued listed
  obtain ⟨swept, taken, inHand⟩ := sweeps
  refine ⟨swept, taken, fun more after later goesOn => ?_⟩
  have kept : ∀ {more : List (State × Action)} {after : State}, Run (step limits) swept more after →
      (∀ entry ∈ more, interrupts jobId entry.1 entry.2 = false) → InHand jobId after := by
    intro more after later goesOn
    have both := later.invariant
      (fun state => InHand jobId state ∧ ∃ trace, Run (step limits) State.initial trace state)
      (fun state action => interrupts jobId state action = false) ⟨inHand, _, run.next taken⟩ ?_ goesOn
    · exact both.1
    · intro before action after held goesOn taken
      obtain ⟨inHand, trace, run⟩ := held
      exact ⟨inHand.step run goesOn taken, _, run.next taken⟩
  refine ⟨(kept later goesOn).settled_or_runs, fun advances => ?_, ?_⟩
  · have bound := later.length_le State.stepsLeft (fun _ action => action.advances = true) advances ?_
    · omega
    · intro before action after advances taken
      cases action with
      | advance i choice => exact advance_stepsLeft taken
      | _ => cases advances
  · obtain ⟨rest, final, remaining, works, resting⟩ := exists_rest limits after
    have settled := kept (later.trans remaining) (List.forall_mem_append.mpr
      ⟨goesOn, fun entry member => works_goesOn (works entry member)⟩)
    refine ⟨rest, final, remaining, works, resting, ?_⟩
    rcases settled.settled_or_runs with done | ⟨process, inside, _⟩
    · exact done
    · rw [resting] at inside
      cases inside

omit [Platform] in
/-- A job is published and never delivered. -/
def undeliveredActions : List Action := [
  .uploadAsync ⟨0⟩ (ownershipFiles [("Acme", "Entity", "")] []),
  .advance 0 .succeed, .advance 0 .succeed, .advance 0 .succeed]

omit [Platform] in
theorem undelivered_job_settles :
    letI := asciiPlatform
    ∃ trace state, trace.map Prod.snd = undeliveredActions ∧ Run (step Limits.default) State.initial trace state ∧
      ∃ swept, step Limits.default state (.sweepStaleJobs [1]) = some swept ∧
        ∀ more after, Run (step Limits.default) swept more after →
          (∀ entry ∈ more, interrupts 1 entry.1 entry.2 = false) →
            (JobSettled 1 after ∨ ∃ process ∈ after.running, process.runs 1 = true) ∧
            ((∀ entry ∈ more, entry.2.advances = true) → more.length ≤ swept.stepsLeft) ∧
            ∃ rest final, Run (step Limits.default) after rest final ∧ (∀ entry ∈ rest, Works entry.2) ∧
              final.running = [] ∧ JobSettled 1 final := by
  have waits : letI := asciiPlatform
      ((execute (step Limits.default) State.initial undeliveredActions).map fun state =>
        (state.running, state.shared.jobs.statusOf 1)) = some ([], some .queued) := by
    decide +kernel
  let _ := asciiPlatform
  obtain ⟨state, executed, same⟩ := Option.map_eq_some_iff.mp waits
  exact ⟨_, state, steps_actions executed, run_steps executed,
    sweep_settles (run_steps executed) (Prod.mk.inj same).2 (List.mem_singleton.mpr rfl)⟩

end Coverpin.Server
