import Coverpin.Server.JobLifecycle

namespace Coverpin.Server

open Coverpin.Data Coverpin.Database Coverpin.Upload Coverpin.Validation

/-! # What a job's status says about its batch

The write of a batch and the record of its outcome are separate calls.  A process
that runs a job knows whether the batch was committed; the status says the same
unless the callback records the error of `markCompleted` as a failure of the job.
-/

/-- How often its job was committed, as a process at this stage knows. -/
def Stage.knownCommits : Stage → Option Nat
  | .claim _ => none
  | .write _ => some 0
  | .clear _ | .markCompleted _ => some 1
  | .markFailed (.write _) => some 0
  | .markFailed .markCompleted => some 1

def Process.knownCommits (jobId : JobId) : Process → Option Nat
  | .run _ other stage => if other = jobId then stage.knownCommits else none
  | _ => none

def Process.carries : Process → Option (JobId × UploadBatchRows)
  | .publish jobId rows => some (jobId, rows)
  | .setDispatchMethod jobId rows _ => some (jobId, rows)
  | .run _ jobId (.claim rows) => some (jobId, rows)
  | .run _ jobId (.write rows) => some (jobId, rows)
  | _ => none

theorem holds_of_knownCommits {jobId : JobId} {process : Process} {n : Nat}
    (known : process.knownCommits jobId = some n) : process.holds jobId = true := by
  cases process with
  | run dispatcher other stage =>
      by_cases same : other = jobId
      · cases stage with
        | claim rows => simp [Process.knownCommits, Stage.knownCommits] at known
        | _ => simp [Process.holds, Stage.claimed, same]
      · simp [Process.knownCommits, same] at known
  | _ => cases known

variable [Platform] {limits : Limits} {trace : List (State × Action)} {state after : State} {action : Action}
  {shared : Shared} {process : Process} {choice : Choice} {result : Outcome} {jobId : JobId}

theorem started_knows (new : Started limits state.shared action process) : process.knownCommits jobId = none := by
  cases new with
  | fallback old stored =>
      simp only [Process.knownCommits, Stage.knownCommits]
      split <;> rfl
  | _ => rfl

theorem Effect.commits_writes (effect : Effect limits shared process choice result)
    (commits : result.event.any (Event.commits jobId) = true) : process.writes jobId = true := by
  cases effect <;> first | cases commits | exact commits

/-- What the successors of a process know follows from what it knew itself. -/
theorem Effect.known (effect : Effect limits shared process choice result) {commits : Nat}
    (before : ∀ n, process.knownCommits jobId = some n → commits = n)
    (waiting : shared.jobs.statusOf jobId = some .queued → commits = 0) {next : Process} (member : next ∈ result.next)
    {n : Nat} (knows : next.knownCommits jobId = some n) :
    commits + (if result.event.any (Event.commits jobId) then 1 else 0) = n := by
  cases effect with
  | dispatched other rows published dispatchMethod =>
      cases published
      · simp only [Bool.false_eq_true, if_false, List.mem_singleton] at member
        subst member
        simp only [Process.knownCommits, Stage.knownCommits] at knows
        split at knows <;> cases knows
      · cases member
  | found other stored =>
      rw [List.mem_singleton.mp member] at knows
      simp only [Process.knownCommits, Stage.knownCommits] at knows
      split at knows <;> cases knows
  | claimed dispatcher other rows queued moved =>
      rw [List.mem_singleton.mp member] at knows
      by_cases same : other = jobId
      · subst same
        have idle := waiting queued
        simp [Process.knownCommits, Stage.knownCommits, Event.commits] at knows ⊢
        omega
      · simp [Process.knownCommits, same] at knows
  | wrote dispatcher other rows written =>
      rw [List.mem_singleton.mp member] at knows
      by_cases same : other = jobId
      · have idle := before 0 (by simp [Process.knownCommits, Stage.knownCommits, same])
        simp [Process.knownCommits, Stage.knownCommits, Event.commits, same] at knows ⊢
        omega
      · simp [Process.knownCommits, same] at knows
  | rolledBack dispatcher other rows reason | jobCleared dispatcher other counts | caught other counts =>
      rw [List.mem_singleton.mp member] at knows
      by_cases same : other = jobId
      · have told := before n (by simpa [Process.knownCommits, Stage.knownCommits, same] using knows)
        simpa using told
      · simp [Process.knownCommits, same] at knows
  | committed | created | published | readEntities | readEdges =>
      rw [List.mem_singleton.mp member] at knows
      cases knows
  | cleared | completed | failed | stored | ended => cases member

def CommitsKnown (limits : Limits) (jobId : JobId) (trace : List (State × Action)) (state : State) : Prop :=
  ∀ process ∈ state.running, ∀ n, process.knownCommits jobId = some n →
    happened limits (Event.commits jobId) trace = n

theorem CommitsKnown.step (known : CommitsKnown limits jobId trace state)
    (sound : JobSound (jobView limits jobId trace state)) (taken : step limits state action = some after) :
    CommitsKnown limits jobId (trace ++ [(state, action)]) after := by
  intro process member n knows
  rw [happened_next]
  rcases step_cases taken with ⟨silent, new, starts, rfl⟩ | ⟨silent, rfl⟩ |
    ⟨i, choice, source, result, _, found, effect, same, rfl⟩
  · rcases List.mem_append.mp member with old | started
    · simpa [silent] using known process old n knows
    · rw [started_knows (starts process started)] at knows
      cases knows
  · cases member
  · rw [same]
    rcases mem_of_mem_replaceAt member with old | next
    · by_cases commits : result.event.any (Event.commits jobId) = true
      · -- The process that commits is the only one that holds the job.
        have holds := Process.holds_of_writes (effect.commits_writes commits)
        have alone := eraseIdx_alone sound.holders found holds process old
        rw [holds_of_knownCommits knows] at alone
        cases alone
      · simpa [commits] using known process (mem_of_mem_eraseIdx old) n knows
    · exact effect.known (known source (List.mem_of_getElem? found))
        (fun queued => (sound.waiting (.inr queued)).2.1) next knows

theorem commitsKnown (run : Run (step limits) State.initial trace state) (jobId : JobId) :
    CommitsKnown limits jobId trace state := by
  have both := run.invariant_trace
    (fun trace state => JobSound (jobView limits jobId trace state) ∧ CommitsKnown limits jobId trace state)
    (fun _ _ => True)
    ⟨jobView_sound .start jobId, List.forall_mem_nil _⟩
    (fun trace before action after ⟨sound, known⟩ _ taken =>
      ⟨((step_move trace taken).sound sound (countP_writes_le _)).1, known.step sound taken⟩) (fun _ _ => trivial)
  exact both.2

theorem Effect.payload_kept (effect : Effect limits shared process choice result) {rows : UploadBatchRows}
    (known : shared.jobs.payloadOf jobId = some rows) : result.shared.jobs.payloadOf jobId = some rows := by
  cases effect with
  | created => exact UploadJobs.payloadOf_create_kept known
  | dispatched => exact (UploadJobs.payloadOf_setDispatchMethod _).trans known
  | claimed dispatcher other carried queued moved same =>
      rw [same]
      exact UploadJobs.payloadOf_claim.trans known
  | completed => exact (UploadJobs.payloadOf_markCompleted _).trans known
  | failed => exact (UploadJobs.payloadOf_markFailed _).trans known
  | _ => exact known

/-- What a process carries for a job, and what was committed for it, is its payload. -/
structure PayloadsKept (limits : Limits) (trace : List (State × Action)) (state : State) : Prop where
  carried : ∀ process ∈ state.running, ∀ jobId rows, process.carries = some (jobId, rows) →
    state.shared.jobs.payloadOf jobId = some rows
  committed : ∀ entry ∈ trace, ∀ jobId rows, event limits entry.1 entry.2 = some (.jobCommitted jobId rows) →
    state.shared.jobs.payloadOf jobId = some rows

/-- The successors of a process carry what it carried or what is stored. -/
theorem Effect.carries (effect : Effect limits shared process choice result)
    (carried : ∀ jobId rows, process.carries = some (jobId, rows) → shared.jobs.payloadOf jobId = some rows)
    {next : Process} (member : next ∈ result.next) {rows : UploadBatchRows} (carries : next.carries = some (jobId, rows)) :
    result.shared.jobs.payloadOf jobId = some rows := by
  cases effect with
  | created payload =>
      rw [List.mem_singleton.mp member] at carries
      cases carries
      exact (UploadJobs.payloadOf_create _ _).trans (if_pos rfl)
  | published other payload published =>
      rw [List.mem_singleton.mp member] at carries
      exact carried _ _ carries
  | dispatched other payload published dispatchMethod =>
      rw [UploadJobs.payloadOf_setDispatchMethod]
      cases published
      · simp only [Bool.false_eq_true, if_false, List.mem_singleton] at member
        rw [member] at carries
        exact carried _ _ carries
      · cases member
  | found other stored =>
      rw [List.mem_singleton.mp member] at carries
      cases carries
      rw [UploadJobs.payloadOf, stored, Option.map_some]
  | claimed dispatcher other payload queued moved same =>
      rw [List.mem_singleton.mp member] at carries
      rw [same, UploadJobs.payloadOf_claim]
      exact carried _ _ carries
  | committed | wrote | rolledBack | jobCleared | caught | readEntities | readEdges =>
      rw [List.mem_singleton.mp member] at carries
      cases carries
  | cleared | completed | failed | stored | ended => cases member

theorem PayloadsKept.step (kept : PayloadsKept limits trace state) (taken : step limits state action = some after) :
    PayloadsKept limits (trace ++ [(state, action)]) after := by
  rcases step_cases taken with ⟨silent, new, starts, rfl⟩ | ⟨silent, rfl⟩ |
    ⟨i, choice, source, result, _, found, effect, same, rfl⟩
  · refine ⟨fun process member jobId rows carries => ?_, fun entry member jobId rows wrote => ?_⟩
    · rcases List.mem_append.mp member with old | started
      · exact kept.carried process old jobId rows carries
      · cases starts process started with
        | fallback old stored =>
            cases carries
            rw [UploadJobs.payloadOf, stored, Option.map_some]
        | _ => cases carries
    · rcases List.mem_append.mp member with earlier | last
      · exact kept.committed entry earlier jobId rows wrote
      · rw [List.mem_singleton.mp last, silent] at wrote
        cases wrote
  · refine ⟨List.forall_mem_nil _, fun entry member jobId rows wrote => ?_⟩
    rcases List.mem_append.mp member with earlier | last
    · exact kept.committed entry earlier jobId rows wrote
    · rw [List.mem_singleton.mp last, silent] at wrote
      cases wrote
  · have carried := kept.carried source (List.mem_of_getElem? found)
    refine ⟨fun process member jobId rows carries => ?_, fun entry member jobId rows wrote => ?_⟩
    · rcases mem_of_mem_replaceAt member with old | next
      · exact effect.payload_kept (kept.carried process (mem_of_mem_eraseIdx old) jobId rows carries)
      · exact effect.carries carried next carries
    · rcases List.mem_append.mp member with earlier | last
      · exact effect.payload_kept (kept.committed entry earlier jobId rows wrote)
      · rw [List.mem_singleton.mp last, same] at wrote
        cases effect with
        | wrote dispatcher other payload written =>
            cases wrote
            exact carried _ _ rfl
        | _ => cases wrote

theorem payloadsKept (run : Run (step limits) State.initial trace state) : PayloadsKept limits trace state :=
  run.invariant_trace (fun trace state => PayloadsKept limits trace state) (fun _ _ => True)
    ⟨List.forall_mem_nil _, List.forall_mem_nil _⟩ (fun _ _ _ _ kept _ taken => kept.step taken) (fun _ _ => trivial)

/-- A completed job has had its batch committed, a failed one has not. -/
structure Truthful (limits : Limits) (trace : List (State × Action)) (state : State) : Prop where
  completed : ∀ jobId job, state.shared.jobs.get? jobId = some job → job.status = .completed →
    ∃ entry ∈ trace, event limits entry.1 entry.2 = some (.jobCommitted jobId job.payload)
  failed : ∀ jobId job, state.shared.jobs.get? jobId = some job → job.status = .failed →
    ∀ entry ∈ trace, ∀ rows, event limits entry.1 entry.2 ≠ some (.jobCommitted jobId rows)

/-- The step in which a callback records the error of its `markCompleted` call,
which comes after the commit, as a failure of the job. -/
def Misrecords (state : State) (action : Action) : Prop :=
  ∃ i dispatcher jobId, action = .advance i .succeed ∧
    state.running[i]? = some (.run dispatcher jobId (.markFailed .markCompleted))

/-- The status of one job, in terms of how often it was committed. -/
def StatusTrue (limits : Limits) (jobId : JobId) (trace : List (State × Action)) (state : State) : Prop :=
  (state.shared.jobs.statusOf jobId = some .completed → happened limits (Event.commits jobId) trace = 1) ∧
    (state.shared.jobs.statusOf jobId = some .failed → happened limits (Event.commits jobId) trace = 0)

theorem Effect.settles (effect : Effect limits shared process choice result) {status : JobStatus}
    (settled : result.shared.jobs.statusOf jobId = some status) (final : status = .completed ∨ status = .failed) :
    shared.jobs.statusOf jobId = some status ∨
      (status = .completed ∧ result.event = none ∧ process.knownCommits jobId = some 1) ∨
      (status = .failed ∧ result.event = none ∧ choice = .succeed ∧
        ∃ dispatcher cause, process = .run dispatcher jobId (.markFailed cause)) := by
  cases effect with
  | created rows =>
      simp only [UploadJobs.statusOf_create] at settled
      split at settled
      · cases settled
        rcases final with impossible | impossible <;> cases impossible
      · exact .inl settled
  | dispatched => exact .inl ((UploadJobs.statusOf_setDispatchMethod _).symm.trans settled)
  | claimed dispatcher other rows queued moved =>
      simp only [moved] at settled
      split at settled
      · cases settled
        rcases final with impossible | impossible <;> cases impossible
      · exact .inl settled
  | completed dispatcher other counts =>
      simp only [UploadJobs.statusOf_markCompleted] at settled
      split at settled
      · rename_i same
        subst same
        obtain ⟨_, _, rfl⟩ := Option.map_eq_some_iff.mp settled
        exact .inr (.inl ⟨rfl, rfl, by simp [Process.knownCommits, Stage.knownCommits]⟩)
      · exact .inl settled
  | failed dispatcher other cause =>
      simp only [UploadJobs.statusOf_markFailed] at settled
      split at settled
      · rename_i same
        subst same
        obtain ⟨_, _, rfl⟩ := Option.map_eq_some_iff.mp settled
        exact .inr (.inr ⟨rfl, rfl, rfl, dispatcher, cause, rfl⟩)
      · exact .inl settled
  | _ => exact .inl settled

theorem StatusTrue.step (true_ : StatusTrue limits jobId trace state) (sound : JobSound (jobView limits jobId trace state))
    (known : CommitsKnown limits jobId trace state) (allowed : ¬ Misrecords state action)
    (taken : step limits state action = some after) : StatusTrue limits jobId (trace ++ [(state, action)]) after := by
  rw [StatusTrue, happened_next]
  rcases step_cases taken with ⟨silent, new, starts, rfl⟩ | ⟨silent, rfl⟩ |
    ⟨i, choice, source, result, rfl, found, effect, same, rfl⟩
  · simpa [StatusTrue, silent] using true_
  · simpa [StatusTrue, silent] using true_
  · rw [same]
    have before := known source (List.mem_of_getElem? found)
    -- A settled job is not held, so no process commits it.
    have quiet : ∀ status, status = .completed ∨ status = .failed → state.shared.jobs.statusOf jobId = some status →
        result.event.any (Event.commits jobId) = false := by
      intro status final settled
      apply Bool.eq_false_iff.mpr
      intro commits
      have writer : 0 < state.running.countP (Process.writes jobId) :=
        List.countP_pos_iff.mpr ⟨source, List.mem_of_getElem? found, effect.commits_writes commits⟩
      have held := sound.processing (Nat.lt_of_lt_of_le writer sound.writersHold)
      have processing : state.shared.jobs.statusOf jobId = some .processing := held
      rw [settled] at processing
      rcases final with rfl | rfl <;> cases processing
    constructor
    · intro settled
      rcases effect.settles settled (.inl rfl) with old | ⟨_, silent, knows⟩ | ⟨impossible, _⟩
      · simpa [quiet _ (.inl rfl) old] using true_.1 old
      · simpa [silent] using before 1 knows
      · cases impossible
    · intro settled
      rcases effect.settles settled (.inr rfl) with old | ⟨impossible, _⟩ | ⟨_, silent, rfl, dispatcher, cause, rfl⟩
      · simpa [quiet _ (.inr rfl) old] using true_.2 old
      · cases impossible
      · cases cause with
        | write reason => simpa [silent] using before 0 (by simp [Process.knownCommits, Stage.knownCommits])
        | markCompleted => exact absurd ⟨i, dispatcher, jobId, rfl, found⟩ allowed

theorem statusTrue (run : Run (step limits) State.initial trace state)
    (allowed : ∀ entry ∈ trace, ¬ Misrecords entry.1 entry.2) (jobId : JobId) : StatusTrue limits jobId trace state := by
  have all := run.invariant_trace
    (fun trace state => JobSound (jobView limits jobId trace state) ∧ CommitsKnown limits jobId trace state ∧
      StatusTrue limits jobId trace state)
    (fun state action => ¬ Misrecords state action)
    ⟨jobView_sound .start jobId, List.forall_mem_nil _, (by rintro ⟨⟩), (by rintro ⟨⟩)⟩
    (fun trace before action after ⟨sound, known, true_⟩ allowed taken =>
      ⟨((step_move trace taken).sound sound (countP_writes_le _)).1, known.step sound taken,
        true_.step sound known allowed taken⟩)
    allowed
  exact all.2.2

theorem happened_eq_zero {p : Event → Bool} : happened limits p trace = 0 ↔
    ∀ entry ∈ trace, ∀ met, event limits entry.1 entry.2 = some met → p met = false := by
  rw [happened, List.countP_eq_zero]
  constructor
  · intro none entry member met found
    have absent := none entry member
    rw [found] at absent
    simpa using absent
  · intro none entry member some
    obtain ⟨met, found, holds⟩ := Option.any_eq_true _ _ |>.mp some
    rw [none entry member met found] at holds
    cases holds

theorem truthful (run : Run (step limits) State.initial trace state)
    (allowed : ∀ entry ∈ trace, ¬ Misrecords entry.1 entry.2) : Truthful limits trace state := by
  constructor
  · intro jobId job stored completed
    have status : state.shared.jobs.statusOf jobId = some .completed := by
      rw [UploadJobs.statusOf, stored, Option.map_some, completed]
    have once := (statusTrue run allowed jobId).1 status
    obtain ⟨entry, member, commits⟩ := List.countP_pos_iff.mp (Nat.lt_of_lt_of_eq Nat.zero_lt_one once.symm)
    obtain ⟨met, found, isCommit⟩ := Option.any_eq_true _ _ |>.mp commits
    refine ⟨entry, member, found.trans ?_⟩
    cases met with
    | jobCommitted other rows =>
        obtain rfl : other = jobId := by simpa [Event.commits] using isCommit
        have payload := (payloadsKept run).committed entry member other rows found
        rw [UploadJobs.payloadOf, stored, Option.map_some, Option.some.injEq] at payload
        rw [payload]
    | _ => cases isCommit
  · intro jobId job stored failed entry member rows found
    have status : state.shared.jobs.statusOf jobId = some .failed := by
      rw [UploadJobs.statusOf, stored, Option.map_some, failed]
    have none := happened_eq_zero.mp ((statusTrue run allowed jobId).2 status) entry member _ found
    simp [Event.commits] at none

/-- A step that misrecords leaves a failed job whose batch was committed: the
process knows of one commit, and its step makes the status failed. -/
theorem misrecorded (run : Run (step limits) State.initial trace state) (misrecords : Misrecords state action)
    (taken : step limits state action = some after) : ¬ Truthful limits (trace ++ [(state, action)]) after := by
  obtain ⟨i, dispatcher, jobId, rfl, found⟩ := misrecords
  intro told
  have inside := List.mem_of_getElem? found
  have once := commitsKnown run jobId _ inside 1 (by simp [Process.knownCommits, Stage.knownCommits])
  have held := (jobView_sound run jobId).processing
    (List.countP_pos_iff.mpr ⟨_, inside, by simp [Process.holds, Stage.claimed]⟩)
  have processing : state.shared.jobs.statusOf jobId = some .processing := held
  have reached : after.shared.jobs.statusOf jobId = some .failed := by
    rw [step, outcome, found] at taken
    cases taken
    exact (UploadJobs.statusOf_markFailed _).trans (by simp [processing])
  obtain ⟨job, stored, failed⟩ := Option.map_eq_some_iff.mp reached
  have none : happened limits (Event.commits jobId) (trace ++ [(state, .advance i .succeed)]) = 0 := by
    apply happened_eq_zero.mpr
    intro entry member met event
    cases met with
    | jobCommitted committed rows =>
        apply Bool.eq_false_iff.mpr
        intro same
        obtain rfl : committed = jobId := by simpa [Event.commits] using same
        exact told.failed committed job stored failed entry member rows event
    | _ => rfl
  rw [happened_next] at none
  omega

/-- A run tells the truth about its jobs in every state on the way exactly when
no callback records the error of its `markCompleted` call as a failed job. -/
theorem truthful_iff (run : Run (step limits) State.initial trace state) :
    (∀ part reached, part <+: trace → Run (step limits) State.initial part reached → Truthful limits part reached) ↔
      ∀ entry ∈ trace, ¬ Misrecords entry.1 entry.2 := by
  constructor
  · intro told entry member misrecords
    obtain ⟨part, after, shorter, taken, longer, isPrefix⟩ := run.entry member
    exact misrecorded shorter misrecords taken (told _ _ isPrefix longer)
  · intro allowed part reached isPrefix shorter
    exact truthful shorter fun entry member => allowed entry (isPrefix.subset member)

omit [Platform] in
/-- A job is delivered, claimed and committed; then `markCompleted` fails. -/
def uncompletedActions : List Action := [
  .uploadAsync ⟨0⟩ (ownershipFiles [("Acme", "Entity", "")] []),
  .advance 0 .succeed, .advance 0 .succeed, .advance 0 .succeed,
  .callback 1, .advance 0 .succeed, .advance 0 .succeed, .advance 0 .succeed, .advance 0 .succeed,
  .advance 0 .fail]

omit [Platform] in
theorem committed_job_recorded_failed : ¬ ∀ [Platform] (limits : Limits) (trace : List (State × Action)) (state : State),
    Run (step limits) State.initial trace state → Truthful limits trace state := by
  intro claimed
  have reached : letI := asciiPlatform
      ((execute (step Limits.default) State.initial uncompletedActions).map State.running) =
        some [.run .callback 1 (.markFailed .markCompleted)] := by
    decide +kernel
  let _ := asciiPlatform
  obtain ⟨before, executed, running⟩ := Option.map_eq_some_iff.mp reached
  have run := run_steps executed
  have found : before.running[0]? = some (.run .callback 1 (.markFailed .markCompleted)) := by
    rw [running, List.getElem?_cons_zero]
  obtain ⟨after, taken⟩ : ∃ after, step Limits.default before (.advance 0 .succeed) = some after := by
    simp [step, outcome, found, advance, afterSuccess]
  exact misrecorded run ⟨0, .callback, 1, rfl, found⟩ taken (claimed _ _ _ (run.next taken))

omit [Platform] in
theorem raced_job_truthful :
    letI := asciiPlatform
    ∃ trace state, trace.map Prod.snd = racedActions ∧ Run (step Limits.default) State.initial trace state ∧
      ((∀ part reached, part <+: trace → Run (step Limits.default) State.initial part reached →
          Truthful Limits.default part reached) ↔
        ∀ entry ∈ trace, ¬ Misrecords entry.1 entry.2) := by
  have finishes : letI := asciiPlatform
      (execute (step Limits.default) State.initial racedActions).isSome = true := by
    decide +kernel
  let _ := asciiPlatform
  obtain ⟨state, executed⟩ := Option.isSome_iff_exists.mp finishes
  exact ⟨_, state, steps_actions executed, run_steps executed, truthful_iff (run_steps executed)⟩

end Coverpin.Server
