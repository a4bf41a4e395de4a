import Coverpin.Server.LastCommit
import Coverpin.Server.RecordedOutcome

namespace Coverpin.Server

open Coverpin.Data Coverpin.Database Coverpin.Upload Coverpin.Validation

/-! # What a client sees that polls a job

Each poll reads one record.  A record only moves on: its payload stays, its status
never goes back, and nothing changes the outcome of a job that is settled.
-/

/-- The answer of `UploadAsyncController.getStatus`. -/
structure JobPoll where
  jobId : JobId
  status : JobStatus
  dispatchMethod : Option DispatchMethod
  result : Option UploadBatchResult
  error : Option FailureCause
deriving DecidableEq, Repr

/-- The error is the message of the `NotFoundException`. -/
def getStatus (jobs : UploadJobs) (jobId : JobId) : Except String JobPoll :=
  match jobs.get? jobId with
  | none => .error ("No job '" ++ toString jobId ++ "'.")
  | some job =>
      .ok { jobId, status := job.status, dispatchMethod := job.dispatchMethod, result := job.result, error := job.error }

def Process.dispatches (jobId : JobId) : Process → Bool
  | .publish other _ | .setDispatchMethod other _ _ => other == jobId
  | _ => false

/-- What a step of a process does to the record of one job. -/
inductive RecordMove (jobId : JobId) (process : Process) (choice : Choice) : Option UploadJob → Option UploadJob → Prop where
  | stay (record : Option UploadJob) : RecordMove jobId process choice record record
  | create (payload : UploadBatchRows) (creates : process = .create payload) :
      RecordMove jobId process choice none
        (some { status := .queued, dispatchMethod := none, payload, result := none, error := none })
  | dispatch (job : UploadJob) (dispatchMethod : DispatchMethod) (dispatches : process.dispatches jobId = true)
      (ends : choice = .succeed) :
      RecordMove jobId process choice (some job) (some { job with dispatchMethod := some dispatchMethod })
  | claim (job : UploadJob) (queued : job.status = .queued) :
      RecordMove jobId process choice (some job) (some { job with status := .processing })
  | complete (job : UploadJob) (dispatcher : Dispatcher) (counts : UploadBatchResult)
      (completes : process = .run dispatcher jobId (.markCompleted counts)) :
      RecordMove jobId process choice (some job) (some { job with status := .completed, result := some counts })
  | fail (job : UploadJob) (dispatcher : Dispatcher) (cause : FailureCause)
      (fails : process = .run dispatcher jobId (.markFailed cause)) :
      RecordMove jobId process choice (some job) (some { job with status := .failed, error := some cause })

def UploadBatchRows.counts (rows : UploadBatchRows) : UploadBatchResult where
  entities := rows.entityRows.length
  ownershipEdges := rows.ownershipRows.length
  filings := rows.filingRows.length

/-- The counts that a process is going to record as the result of its job. -/
def Process.reports : Process → Option (JobId × UploadBatchResult)
  | .run _ jobId (.clear counts) | .run _ jobId (.markCompleted counts) => some (jobId, counts)
  | _ => none

def JobStatus.settled : JobStatus → Bool
  | .completed | .failed => true
  | _ => false

def JobStatus.rank : JobStatus → Nat
  | .queued => 0
  | .processing => 1
  | .completed | .failed => 2

/-- What the outcome of a record is, at each status. -/
structure Coherent (job : UploadJob) : Prop where
  result : job.result = if job.status = .completed then some (UploadBatchRows.counts job.payload) else none
  error : job.error.isSome = true ↔ job.status = .failed

/-- How a record may differ from what it was at an earlier time. -/
structure RecordLater (before after : UploadJob) : Prop where
  payload : after.payload = before.payload
  forward : before.status.rank ≤ after.status.rank
  settled : before.status.settled = true →
    after.status = before.status ∧ after.result = before.result ∧ after.error = before.error
  dispatched : ∀ dispatchMethod, before.dispatchMethod = some dispatchMethod → after.dispatchMethod = some dispatchMethod

theorem RecordLater.refl (job : UploadJob) : RecordLater job job :=
  ⟨rfl, Nat.le_refl _, fun _ => ⟨rfl, rfl, rfl⟩, fun _ => id⟩

theorem RecordLater.trans {first second third : UploadJob} (earlier : RecordLater first second)
    (later : RecordLater second third) : RecordLater first third where
  payload := later.payload.trans earlier.payload
  forward := Nat.le_trans earlier.forward later.forward
  settled done := by
    obtain ⟨status, result, error⟩ := earlier.settled done
    obtain ⟨status', result', error'⟩ := later.settled (status ▸ done)
    exact ⟨status'.trans status, result'.trans result, error'.trans error⟩
  dispatched dispatchMethod known := later.dispatched _ (earlier.dispatched _ known)

variable [Platform] {limits : Limits} {trace more : List (State × Action)} {state after : State} {action : Action}
  {shared : Shared} {process : Process} {choice : Choice} {result : Outcome} {jobId other : JobId}

omit [Platform] in
theorem get?_claim {jobs : UploadJobs} {job : UploadJob} (stored : jobs.get? jobId = some job)
    (queued : job.status = .queued) :
    (jobs.claim jobId).1.get? other = if other = jobId then some { job with status := .processing } else jobs.get? other := by
  simp only [UploadJobs.claim, stored, queued, if_true]
  split
  · rename_i same
    rw [same, InsertionMap.get?_set_self]
  · rename_i different
    exact InsertionMap.get?_set_other different

omit [Platform] in
/-- An update moves a record that is there, and leaves the others. -/
theorem recordMove_update {jobs : UploadJobs} {change : UploadJob → UploadJob}
    (moves : ∀ job, other = jobId → RecordMove jobId process choice (some job) (some (change job))) :
    RecordMove jobId process choice (jobs.get? jobId) ((jobs.update other change).get? jobId) := by
  rw [UploadJobs.get?_update]
  split
  · rename_i same
    subst same
    cases jobs.get? jobId with
    | none => exact .stay _
    | some job => exact moves job rfl
  · exact .stay _

theorem Effect.recordMove (effect : Effect limits shared process choice result) :
    RecordMove jobId process choice (shared.jobs.get? jobId) (result.shared.jobs.get? jobId) := by
  cases effect with
  | created rows =>
      by_cases new : jobId = (shared.jobs.create rows).1
      · have absent := UploadJobs.create_fresh shared.jobs rows
        rw [UploadJobs.statusOf, Option.map_eq_none_iff] at absent
        subst new
        have stored : (shared.jobs.create rows).2.get? (shared.jobs.create rows).1 = some _ := InsertionMap.get?_set_self
        rw [absent]
        exact stored ▸ .create rows rfl
      · have kept : (shared.jobs.create rows).2.get? jobId = shared.jobs.get? jobId := InsertionMap.get?_set_other new
        exact kept ▸ .stay _
  | dispatched other rows published dispatchMethod =>
      exact recordMove_update fun job same => .dispatch job dispatchMethod (beq_iff_eq.mpr same) rfl
  | claimed dispatcher other rows queued moved same =>
      obtain ⟨job, stored, status⟩ := Option.map_eq_some_iff.mp queued
      rw [same, get?_claim stored status]
      split
      · rename_i same
        subst same
        exact stored ▸ .claim job status
      · exact .stay _
  | completed dispatcher other counts =>
      exact recordMove_update fun job same => .complete job dispatcher counts (by rw [same])
  | failed dispatcher other cause =>
      exact recordMove_update fun job same => .fail job dispatcher cause (by rw [same])
  | _ => exact .stay _

structure RecordsSound (state : State) : Prop where
  coherent : ∀ jobId job, state.shared.jobs.get? jobId = some job → Coherent job
  reports : ∀ process ∈ state.running, ∀ jobId counts, process.reports = some (jobId, counts) →
    ∃ rows, state.shared.jobs.payloadOf jobId = some rows ∧ counts = UploadBatchRows.counts rows
  dispatching : ∀ process ∈ state.running, ∀ jobId, process.dispatches jobId = true →
    ∃ job, state.shared.jobs.get? jobId = some job ∧ job.dispatchMethod = none
  dispatchers : ∀ jobId, state.running.countP (Process.dispatches jobId) ≤ 1

theorem writeUploadBatch_counts {rows : UploadBatchRows} {chunkSize : Nat} {before after : Database}
    {counts : UploadBatchResult} (written : writeUploadBatch rows chunkSize before = .ok (after, counts)) :
    counts = UploadBatchRows.counts rows := by
  obtain ⟨_, _, written⟩ := bind_eq_ok.mp written
  obtain ⟨_, _, written⟩ := bind_eq_ok.mp written
  obtain ⟨_, _, written⟩ := bind_eq_ok.mp written
  obtain ⟨_, _, written⟩ := bind_eq_ok.mp written
  cases written
  rfl

theorem Effect.reports (effect : Effect limits shared process choice result)
    (carried : ∀ jobId rows, process.carries = some (jobId, rows) → shared.jobs.payloadOf jobId = some rows)
    (before : ∀ jobId counts, process.reports = some (jobId, counts) →
      ∃ rows, shared.jobs.payloadOf jobId = some rows ∧ counts = UploadBatchRows.counts rows)
    {next : Process} (member : next ∈ result.next) {counts : UploadBatchResult}
    (reports : next.reports = some (jobId, counts)) :
    ∃ rows, result.shared.jobs.payloadOf jobId = some rows ∧ counts = UploadBatchRows.counts rows := by
  cases effect with
  | wrote dispatcher other rows written =>
      rw [List.mem_singleton.mp member] at reports
      cases reports
      exact ⟨rows, carried _ _ rfl, writeUploadBatch_counts written⟩
  | jobCleared dispatcher other known =>
      rw [List.mem_singleton.mp member] at reports
      exact before _ _ reports
  | dispatched other rows published dispatchMethod =>
      cases published
      · simp only [Bool.false_eq_true, if_false, List.mem_singleton] at member
        rw [member] at reports
        cases reports
      · cases member
  | committed | created | published | found | claimed | rolledBack | caught | readEntities | readEdges =>
      rw [List.mem_singleton.mp member] at reports
      cases reports
  | cleared | completed | failed | stored | ended => cases member

/-- A process that dispatches a job comes from another one, or from the creation of
the job. -/
theorem Effect.dispatches (effect : Effect limits shared process choice result) (jobId : JobId) :
    (result.next.countP (Process.dispatches jobId) ≤ (if process.dispatches jobId then 1 else 0) ∧
      (0 < result.next.countP (Process.dispatches jobId) → result.shared.jobs.get? jobId = shared.jobs.get? jobId)) ∨
    shared.jobs.get? jobId = none ∧ result.next.countP (Process.dispatches jobId) ≤ 1 ∧
      ∃ job, result.shared.jobs.get? jobId = some job ∧ job.dispatchMethod = none := by
  cases effect with
  | created rows =>
      by_cases new : jobId = (shared.jobs.create rows).1
      · have absent := UploadJobs.create_fresh shared.jobs rows
        rw [UploadJobs.statusOf, Option.map_eq_none_iff] at absent
        subst new
        exact .inr ⟨absent, List.countP_le_length, _, InsertionMap.get?_set_self, rfl⟩
      · refine .inl ⟨?_, fun some => ?_⟩ <;> simp [Process.dispatches, Ne.symm new] at *
  | published other rows published =>
      refine .inl ⟨?_, fun _ => rfl⟩
      simp [Process.dispatches, List.countP_cons]
  | dispatched other rows published dispatchMethod =>
      have none : (if published then [] else [Process.run .fallback other (.claim rows)]).countP (Process.dispatches jobId) = 0 := by
        cases published <;> rfl
      exact .inl ⟨Nat.le_trans (Nat.le_of_eq none) (Nat.zero_le _), fun some => absurd none (Nat.pos_iff_ne_zero.mp some)⟩
  | _ => exact .inl ⟨Nat.zero_le _, fun some => absurd some (Nat.lt_irrefl 0)⟩

omit [Platform] in
theorem RecordMove.undispatched {before next : Option UploadJob} (move : RecordMove jobId process choice before next)
    (other : process.dispatches jobId = false) {job : UploadJob} (stored : before = some job)
    (undispatched : job.dispatchMethod = none) : ∃ later, next = some later ∧ later.dispatchMethod = none := by
  cases move with
  | stay => exact ⟨job, stored, undispatched⟩
  | create => cases stored
  | dispatch _ _ dispatches =>
      rw [other] at dispatches
      cases dispatches
  | claim | complete | fail =>
      cases stored
      exact ⟨_, rfl, undispatched⟩

omit [Platform] in
/-- What a process does to a record in a sound state. -/
theorem RecordMove.record {before next : Option UploadJob} (move : RecordMove jobId process choice before next)
    (stored : ∀ job, before = some job → Coherent job)
    (held : process.holds jobId = true → ∀ job, before = some job → job.status = .processing)
    (reports : ∀ counts, process.reports = some (jobId, counts) →
      ∀ job, before = some job → counts = UploadBatchRows.counts job.payload)
    (dispatching : process.dispatches jobId = true → ∀ job, before = some job → job.dispatchMethod = none) :
    (∀ job, next = some job → Coherent job) ∧
      ∀ job, before = some job → ∃ later, next = some later ∧ RecordLater job later := by
  cases move with
  | stay => exact ⟨stored, fun job known => ⟨job, known, .refl job⟩⟩
  | create payload =>
      refine ⟨fun job known => ?_, nofun⟩
      cases known
      exact ⟨rfl, by simp⟩
  | dispatch job dispatchMethod dispatches =>
      have coherent := stored job rfl
      have undispatched := dispatching dispatches job rfl
      refine ⟨fun _ known => ?_, fun _ known => ⟨_, rfl, ?_⟩⟩
      · cases known
        exact ⟨coherent.result, coherent.error⟩
      · cases known
        exact ⟨rfl, Nat.le_refl _, fun _ => ⟨rfl, rfl, rfl⟩, fun _ known => by simp [undispatched] at known⟩
  | claim job queued =>
      have coherent := stored job rfl
      refine ⟨fun _ known => ?_, fun _ known => ⟨_, rfl, ?_⟩⟩
      · cases known
        exact ⟨by simpa [queued] using coherent.result, by simpa [queued] using coherent.error⟩
      · cases known
        exact ⟨rfl, by simp [queued, JobStatus.rank], fun settled => by simp [queued, JobStatus.settled] at settled, fun _ => id⟩
  | complete job dispatcher counts completes =>
      have coherent := stored job rfl
      have processing := held (by simp [completes, Process.holds, Stage.claimed]) job rfl
      have known := reports counts (by simp [completes, Process.reports]) job rfl
      refine ⟨fun _ same => ?_, fun _ same => ⟨_, rfl, ?_⟩⟩
      · cases same
        exact ⟨by simp [known], by simpa [processing] using coherent.error⟩
      · cases same
        exact ⟨rfl, by simp [processing, JobStatus.rank],
          fun settled => by simp [processing, JobStatus.settled] at settled, fun _ => id⟩
  | fail job dispatcher cause fails =>
      have coherent := stored job rfl
      have processing := held (by simp [fails, Process.holds, Stage.claimed]) job rfl
      refine ⟨fun _ same => ?_, fun _ same => ⟨_, rfl, ?_⟩⟩
      · cases same
        exact ⟨by simpa [processing] using coherent.result, by simp⟩
      · cases same
        exact ⟨rfl, by simp [processing, JobStatus.rank],
          fun settled => by simp [processing, JobStatus.settled] at settled, fun _ => id⟩

theorem RecordsSound.effect (sound : RecordsSound state) (run : Run (step limits) State.initial trace state) {i : Nat}
    (found : state.running[i]? = some process) (effect : Effect limits state.shared process choice result) (jobId : JobId) :
    (∀ job, result.shared.jobs.get? jobId = some job → Coherent job) ∧
      ∀ job, state.shared.jobs.get? jobId = some job →
        ∃ later, result.shared.jobs.get? jobId = some later ∧ RecordLater job later := by
  have inside := List.mem_of_getElem? found
  refine effect.recordMove.record (sound.coherent jobId) (fun holds job stored => ?_) (fun counts reports job stored => ?_)
    fun dispatches job stored => ?_
  · have processing : state.shared.jobs.statusOf jobId = some .processing :=
      (jobView_sound run jobId).processing (List.countP_pos_iff.mpr ⟨process, inside, holds⟩)
    rw [UploadJobs.statusOf, stored] at processing
    exact Option.some.inj processing
  · obtain ⟨rows, payload, known⟩ := sound.reports process inside jobId counts reports
    rw [UploadJobs.payloadOf, stored] at payload
    exact known.trans (congrArg UploadBatchRows.counts (Option.some.inj payload).symm)
  · obtain ⟨other, known, undispatched⟩ := sound.dispatching process inside jobId dispatches
    rw [stored] at known
    exact Option.some.inj known ▸ undispatched

theorem RecordsSound.started {new : List Process} (sound : RecordsSound state)
    (starts : ∀ process ∈ new, Started limits state.shared action process) :
    RecordsSound { state with running := state.running ++ new } := by
  have fresh : ∀ process ∈ new, process.reports = none ∧ ∀ jobId, process.dispatches jobId = false := by
    intro process member
    cases starts process member <;> exact ⟨rfl, fun _ => rfl⟩
  refine ⟨sound.coherent, fun process member jobId counts reports => ?_, fun process member jobId dispatches => ?_,
    fun jobId => ?_⟩
  · rcases List.mem_append.mp member with old | started
    · exact sound.reports process old jobId counts reports
    · rw [(fresh process started).1] at reports
      cases reports
  · rcases List.mem_append.mp member with old | started
    · exact sound.dispatching process old jobId dispatches
    · rw [(fresh process started).2] at dispatches
      cases dispatches
  · have none : new.countP (Process.dispatches jobId) = 0 :=
      List.countP_eq_zero.mpr fun process member => by simp [(fresh process member).2]
    rw [List.countP_append, none]
    exact sound.dispatchers jobId

/-- A job keeps at most one process that is going to record how it was dispatched. -/
theorem RecordsSound.dispatchers_le {i : Nat} (sound : RecordsSound state) (found : state.running[i]? = some process)
    (effect : Effect limits state.shared process choice result) (jobId : JobId) :
    (replaceAt state.running i result.next).countP (Process.dispatches jobId) ≤ 1 := by
  have counts : (replaceAt state.running i result.next).countP (Process.dispatches jobId) +
      (if process.dispatches jobId then 1 else 0) =
      state.running.countP (Process.dispatches jobId) + result.next.countP (Process.dispatches jobId) :=
    countP_replaceAt _ found
  have bound := sound.dispatchers jobId
  rcases effect.dispatches jobId with ⟨from_, _⟩ | ⟨absent, one, _⟩
  · omega
  · have none : state.running.countP (Process.dispatches jobId) = 0 := by
      refine List.countP_eq_zero.mpr fun process member dispatches => ?_
      obtain ⟨job, stored, _⟩ := sound.dispatching process member jobId dispatches
      rw [absent] at stored
      cases stored
    omega

theorem RecordsSound.step (sound : RecordsSound state) (run : Run (step limits) State.initial trace state)
    (taken : step limits state action = some after) : RecordsSound after := by
  rcases step_cases taken with ⟨_, new, starts, rfl⟩ | ⟨_, rfl⟩ | ⟨i, choice, source, result, _, found, effect, _, rfl⟩
  · exact sound.started starts
  · exact ⟨sound.coherent, List.forall_mem_nil _, List.forall_mem_nil _, fun _ => Nat.zero_le _⟩
  · have inside := List.mem_of_getElem? found
    refine ⟨fun jobId => (sound.effect run found effect jobId).1, fun process member jobId counts reports => ?_,
      fun process member jobId dispatches => ?_, sound.dispatchers_le found effect⟩
    · rcases mem_of_mem_replaceAt member with old | next
      · obtain ⟨rows, payload, known⟩ := sound.reports process (mem_of_mem_eraseIdx old) jobId counts reports
        exact ⟨rows, effect.payload_kept payload, known⟩
      · exact effect.reports ((payloadsKept run).carried source inside) (sound.reports source inside) next reports
    · rcases mem_of_mem_replaceAt member with old | next
      · obtain ⟨job, stored, undispatched⟩ := sound.dispatching process (mem_of_mem_eraseIdx old) jobId dispatches
        refine effect.recordMove.undispatched (Bool.eq_false_iff.mpr fun also => ?_) stored undispatched
        rw [eraseIdx_alone (sound.dispatchers jobId) found also process old] at dispatches
        cases dispatches
      · have some : 0 < result.next.countP (Process.dispatches jobId) :=
          List.countP_pos_iff.mpr ⟨process, next, dispatches⟩
        rcases effect.dispatches jobId with ⟨from_, same⟩ | ⟨_, _, created⟩
        · have dispatches : source.dispatches jobId = true := by
            by_contra not
            rw [if_neg not] at from_
            omega
          exact same some ▸ sound.dispatching source inside jobId dispatches
        · exact created

omit [Platform] in
theorem RecordsSound.initial : RecordsSound State.initial :=
  ⟨nofun, List.forall_mem_nil _, List.forall_mem_nil _, fun _ => Nat.zero_le _⟩

theorem recordsSound (run : Run (step limits) State.initial trace state) : RecordsSound state := by
  have both := run.invariant (fun state => RecordsSound state ∧ ∃ trace, Run (step limits) State.initial trace state)
    (fun _ _ => True) ⟨.initial, _, .start⟩ ?_ fun _ _ => trivial
  · exact both.1
  · intro before action after held _ taken
    obtain ⟨sound, trace, run⟩ := held
    exact ⟨sound.step run taken, _, run.next taken⟩

theorem step_record (run : Run (step limits) State.initial trace state) (taken : step limits state action = some after)
    {job : UploadJob} (stored : state.shared.jobs.get? jobId = some job) :
    ∃ later, after.shared.jobs.get? jobId = some later ∧ RecordLater job later := by
  rcases step_cases taken with ⟨_, _, _, rfl⟩ | ⟨_, rfl⟩ | ⟨i, choice, source, result, _, found, effect, _, rfl⟩
  · exact ⟨job, stored, .refl job⟩
  · exact ⟨job, stored, .refl job⟩
  · exact ((recordsSound run).effect run found effect jobId).2 job stored

theorem run_record (run : Run (step limits) State.initial trace state) (later : Run (step limits) state more after)
    {job : UploadJob} (stored : state.shared.jobs.get? jobId = some job) :
    ∃ last, after.shared.jobs.get? jobId = some last ∧ RecordLater job last := by
  induction later with
  | start => exact ⟨job, stored, .refl job⟩
  | next later taken induction =>
      obtain ⟨middle, known, earlier⟩ := induction
      obtain ⟨last, found, moved⟩ := step_record (run.trans later) taken known
      exact ⟨last, found, earlier.trans moved⟩

/-- Unlike `failed`, the status `completed` is always true. -/
theorem completed_step (run : Run (step limits) State.initial trace state)
    (true_ : state.shared.jobs.statusOf jobId = some .completed → 0 < happened limits (Event.commits jobId) trace)
    (taken : step limits state action = some after) (completed : after.shared.jobs.statusOf jobId = some .completed) :
    0 < happened limits (Event.commits jobId) (trace ++ [(state, action)]) := by
  have grows : 0 < happened limits (Event.commits jobId) trace →
      0 < happened limits (Event.commits jobId) (trace ++ [(state, action)]) := by
    rw [happened_next]
    exact fun some => Nat.lt_of_lt_of_le some (Nat.le_add_right _ _)
  rcases step_cases taken with ⟨_, _, _, rfl⟩ | ⟨_, rfl⟩ | ⟨i, choice, source, result, _, found, effect, _, rfl⟩
  · exact grows (true_ completed)
  · exact grows (true_ completed)
  · rcases effect.settles completed (.inl rfl) with already | ⟨_, _, knows⟩ | ⟨impossible, _⟩
    · exact grows (true_ already)
    · exact grows (commitsKnown run jobId source (List.mem_of_getElem? found) 1 knows ▸ Nat.one_pos)
    · cases impossible

theorem completed_committed (run : Run (step limits) State.initial trace state) {job : UploadJob}
    (stored : state.shared.jobs.get? jobId = some job) (completed : job.status = .completed) :
    ∃ entry ∈ trace, event limits entry.1 entry.2 = some (.jobCommitted jobId job.payload) := by
  have both := run.invariant_trace
    (fun trace state => Run (step limits) State.initial trace state ∧
      (state.shared.jobs.statusOf jobId = some .completed → 0 < happened limits (Event.commits jobId) trace))
    (fun _ _ => True) ⟨.start, nofun⟩
    (fun trace before action after ⟨run, true_⟩ _ taken => ⟨run.next taken, completed_step run true_ taken⟩)
    fun _ _ => trivial
  have once := both.2 (by rw [UploadJobs.statusOf, stored, Option.map_some, completed])
  obtain ⟨entry, member, commits⟩ := List.countP_pos_iff.mp once
  obtain ⟨met, found, isCommit⟩ := (Option.any_eq_true _ _).mp commits
  cases met with
  | jobCommitted other rows =>
      have same : other = jobId := beq_iff_eq.mp isCommit
      subst same
      have payload := (payloadsKept run).committed entry member other rows found
      rw [UploadJobs.payloadOf, stored] at payload
      exact ⟨entry, member, found.trans (by rw [← Option.some.inj payload])⟩
  | _ => cases isCommit

/-- What an answer says about the batch of the job. -/
structure JobPoll.About (poll : JobPoll) (limits : Limits) (trace : List (State × Action)) (rows : UploadBatchRows) :
    Prop where
  accepted : RowsFrom CheckedUpload rows
  result : poll.result = if poll.status = .completed then some (UploadBatchRows.counts rows) else none
  error : poll.error.isSome = true ↔ poll.status = .failed
  committed : poll.status = .completed →
    ∃ entry ∈ trace, event limits entry.1 entry.2 = some (.jobCommitted poll.jobId rows)

/-- How the answer to a later poll may differ. -/
structure PollLater (before after : JobPoll) : Prop where
  forward : before.status.rank ≤ after.status.rank
  settled : before.status.settled = true →
    after.status = before.status ∧ after.result = before.result ∧ after.error = before.error
  dispatched : ∀ dispatchMethod, before.dispatchMethod = some dispatchMethod → after.dispatchMethod = some dispatchMethod

omit [Platform] in
theorem getStatus_ok {jobs : UploadJobs} {poll : JobPoll} : getStatus jobs jobId = .ok poll ↔ ∃ job,
    jobs.get? jobId = some job ∧ poll = ⟨jobId, job.status, job.dispatchMethod, job.result, job.error⟩ := by
  unfold getStatus
  cases jobs.get? jobId with
  | none => simp
  | some job => simp [eq_comm]

/-- Whatever is interleaved with two polls of a job, in any run: both answers are
about the rows of one accepted upload, a result is there exactly when the job is
completed, and then has the counts of these rows, which have been committed; and
from the first to the second answer the job has only moved on. -/
theorem polls_consistent (run : Run (step limits) State.initial trace state) (later : Run (step limits) state more after)
    {poll : JobPoll} (polled : getStatus state.shared.jobs jobId = .ok poll) :
    ∃ next rows, getStatus after.shared.jobs jobId = .ok next ∧ poll.About limits trace rows ∧
      next.About limits (trace ++ more) rows ∧ PollLater poll next := by
  obtain ⟨job, stored, rfl⟩ := getStatus_ok.mp polled
  obtain ⟨last, found, moved⟩ := run_record run later stored
  have about : ∀ {trace : List (State × Action)} {state : State} {job : UploadJob}, Run (step limits) State.initial trace state →
      state.shared.jobs.get? jobId = some job →
        JobPoll.About ⟨jobId, job.status, job.dispatchMethod, job.result, job.error⟩ limits trace job.payload := by
    intro trace state job run stored
    have coherent := (recordsSound run).coherent jobId job stored
    refine ⟨(logged run).writes.payloads jobId _ ?_, coherent.result, coherent.error, completed_committed run stored⟩
    rw [UploadJobs.payloadOf, stored, Option.map_some]
  refine ⟨_, job.payload, getStatus_ok.mpr ⟨last, found, rfl⟩, about run stored, ?_, ?_⟩
  · exact moved.payload ▸ about (run.trans later) found
  · exact ⟨moved.forward, moved.settled, moved.dispatched⟩

omit [Platform] in
/-- A job is polled while it is queued, and again when both of its runners are done. -/
theorem raced_polls :
    letI := asciiPlatform
    ∃ trace more poll next rows, ∃ state after : State,
      getStatus state.shared.jobs 1 = .ok poll ∧ poll.status = .queued ∧
      getStatus after.shared.jobs 1 = .ok next ∧ next.status = .completed ∧
      poll.About Limits.default trace rows ∧ next.About Limits.default (trace ++ more) rows ∧ PollLater poll next := by
  have facts : letI := asciiPlatform
      ((execute (step Limits.default) State.initial (racedActions.take 4)).map fun state =>
        (getStatus state.shared.jobs 1).map JobPoll.status) = some (.ok .queued) ∧
      ((execute (step Limits.default) State.initial (racedActions.take 4)).bind fun state =>
        (execute (step Limits.default) state (racedActions.drop 4)).map fun after =>
          (getStatus after.shared.jobs 1).map JobPoll.status) = some (.ok .completed) := by
    decide +kernel
  let _ := asciiPlatform
  obtain ⟨queued, completed⟩ := facts
  obtain ⟨state, executed, first⟩ := Option.map_eq_some_iff.mp queued
  rw [executed, Option.bind_some] at completed
  obtain ⟨after, continued, second⟩ := Option.map_eq_some_iff.mp completed
  cases polled : getStatus state.shared.jobs 1 with
  | error message =>
      rw [polled] at first
      cases first
  | ok poll =>
      rw [polled] at first
      obtain ⟨next, rows, again, about, aboutNext, moved⟩ :=
        polls_consistent (run_steps executed) (run_steps continued) polled
      rw [again] at second
      exact ⟨_, _, poll, next, rows, state, after, polled, Except.ok.inj first, again, Except.ok.inj second, about,
        aboutNext, moved⟩

end Coverpin.Server
