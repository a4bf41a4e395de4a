import Coverpin.Server.Effects

namespace Coverpin.Server

open Coverpin.Data Coverpin.Database Coverpin.Upload Coverpin.Validation

/-! # The life of one job

Seen from one job, a server is a status, the processes past their claim of the
job, and how often the job was claimed and committed.  Every step of the server
is a move of this small machine, and its invariant is the whole argument: while
the job waits nobody holds it, and one claim makes one holder.
-/

structure JobView where
  status : Option JobStatus
  claims : Nat
  commits : Nat
  holders : Nat  -- processes past their claim
  writers : Nat  -- holders that have not written yet

inductive JobMove : JobView → JobView → Prop where
  | quiet (view : JobView) (holders writers : Nat) (fewerHolders : holders ≤ view.holders)
      (fewerWriters : writers ≤ view.writers) : JobMove view { view with holders, writers }
  | create (view : JobView) (absent : view.status = none) : JobMove view { view with status := some .queued }
  | claim (view : JobView) (queued : view.status = some .queued) :
      JobMove view { status := some .processing, claims := view.claims + 1, commits := view.commits,
                     holders := view.holders + 1, writers := view.writers + 1 }
  | commit (view : JobView) (writers : Nat) (writer : view.writers = writers + 1) :
      JobMove view { view with commits := view.commits + 1, writers }
  | settle (view : JobView) (status : JobStatus) (settles : status = .completed ∨ status = .failed) (holders : Nat)
      (holder : view.holders = holders + 1) (others : view.writers ≤ holders) :
      JobMove view { view with status := view.status.map fun _ => status, holders }

inductive StatusNext : Option JobStatus → Option JobStatus → Prop where
  | stay (status : Option JobStatus) : StatusNext status status
  | create : StatusNext none (some .queued)
  | claim : StatusNext (some .queued) (some .processing)
  | complete : StatusNext (some .processing) (some .completed)
  | fail : StatusNext (some .processing) (some .failed)

structure JobSound (view : JobView) : Prop where
  waiting : view.status = none ∨ view.status = some .queued → view.claims = 0 ∧ view.commits = 0 ∧ view.holders = 0
  settled : view.status = some .completed ∨ view.status = some .failed → view.holders = 0
  claims : view.claims ≤ 1
  holders : view.holders ≤ 1
  writersHold : view.writers ≤ view.holders
  commits : view.writers + view.commits ≤ 1

theorem JobSound.processing {view : JobView} (sound : JobSound view) (held : 0 < view.holders) :
    view.status = some .processing := by
  match status : view.status with
  | none => have idle := (sound.waiting (.inl status)).2.2; omega
  | some .queued => have idle := (sound.waiting (.inr status)).2.2; omega
  | some .processing => rfl
  | some .completed => have idle := sound.settled (.inl status); omega
  | some .failed => have idle := sound.settled (.inr status); omega

theorem JobMove.sound {view next : JobView} (move : JobMove view next) (sound : JobSound view)
    (writersHold : next.writers ≤ next.holders) : JobSound next ∧ StatusNext view.status next.status := by
  cases move with
  | quiet holders writers fewerHolders fewerWriters =>
      refine ⟨⟨fun waits => ?_, fun settled => ?_, sound.claims, ?_, writersHold, ?_⟩, .stay _⟩
      · have idle := sound.waiting waits
        exact ⟨idle.1, idle.2.1, by simp only at fewerHolders ⊢; omega⟩
      · have idle := sound.settled settled
        simp only at fewerHolders ⊢
        omega
      · have bound := sound.holders
        simp only at fewerHolders ⊢
        omega
      · have bound := sound.commits
        simp only at fewerWriters ⊢
        omega
  | create absent =>
      have idle := sound.waiting (.inl absent)
      refine ⟨⟨fun _ => idle, by simp, sound.claims, sound.holders, writersHold, sound.commits⟩, ?_⟩
      rw [absent]
      exact .create
  | claim queued =>
      obtain ⟨claims, commits, holders⟩ := sound.waiting (.inr queued)
      have writers := sound.writersHold
      refine ⟨⟨by simp, by simp, ?_, ?_, writersHold, ?_⟩, ?_⟩
      · simp only; omega
      · simp only; omega
      · simp only; omega
      · rw [queued]
        exact .claim
  | commit writers writer =>
      have held := sound.processing (by have held := sound.writersHold; omega)
      have bound := sound.commits
      refine ⟨⟨by simp [held], by simp [held], sound.claims, sound.holders, writersHold, ?_⟩, .stay _⟩
      simp only
      omega
  | settle status settles holders holder others =>
      have held := sound.processing (by omega)
      have bound := sound.holders
      refine ⟨⟨?_, fun _ => ?_, sound.claims, ?_, writersHold, sound.commits⟩, ?_⟩
      · rcases settles with rfl | rfl <;> simp [held]
      · simp only; omega
      · simp only; omega
      · rcases settles with rfl | rfl
        · simpa only [held, Option.map_some] using StatusNext.complete
        · simpa only [held, Option.map_some] using StatusNext.fail

def Stage.claimed : Stage → Bool
  | .claim _ => false
  | _ => true

/-- A process past its claim of the job. -/
def Process.holds (jobId : JobId) : Process → Bool
  | .run _ other stage => other == jobId && stage.claimed
  | _ => false

def Process.writes (jobId : JobId) : Process → Bool
  | .run _ other (.write _) => other == jobId
  | _ => false

def Event.claims (jobId : JobId) : Event → Bool
  | .claimed other => other == jobId
  | _ => false

def Event.commits (jobId : JobId) : Event → Bool
  | .jobCommitted other _ => other == jobId
  | _ => false

variable [Platform] {limits : Limits} {jobId : JobId} {trace : List (State × Action)} {state after : State}
  {action : Action}

def happened (limits : Limits) (p : Event → Bool) (trace : List (State × Action)) : Nat :=
  trace.countP fun entry => (event limits entry.1 entry.2).any p

theorem happened_next (p : Event → Bool) (trace : List (State × Action)) (state : State) (action : Action) :
    happened limits p (trace ++ [(state, action)]) =
      happened limits p trace + if (event limits state action).any p then 1 else 0 := by
  simp [happened, List.countP_append, List.countP_cons]

def jobView (limits : Limits) (jobId : JobId) (trace : List (State × Action)) (state : State) : JobView where
  status := state.shared.jobs.statusOf jobId
  claims := happened limits (Event.claims jobId) trace
  commits := happened limits (Event.commits jobId) trace
  holders := state.running.countP (Process.holds jobId)
  writers := state.running.countP (Process.writes jobId)

omit [Platform] in
theorem Process.holds_of_writes {process : Process} (writes : process.writes jobId = true) : process.holds jobId = true := by
  cases process with
  | run dispatcher other stage =>
      cases stage with
      | write rows => simpa [Process.holds, Process.writes, Stage.claimed] using writes
      | _ => cases writes
  | _ => cases writes

omit [Platform] in
theorem countP_writes_le (pool : List Process) : pool.countP (Process.writes jobId) ≤ pool.countP (Process.holds jobId) :=
  List.countP_mono_left fun _ _ writes => Process.holds_of_writes writes

theorem started_holds {process : Process} (new : Started limits state.shared action process) :
    process.holds jobId = false ∧ process.writes jobId = false := by
  cases new with
  | fallback old stored => simp [Process.holds, Process.writes, Stage.claimed]
  | _ => exact ⟨rfl, rfl⟩

omit [Platform] in
theorem quiet_move {status : Option JobStatus} {claims commits holders holders' writers writers' : Nat}
    (fewerHolders : holders' ≤ holders) (fewerWriters : writers' ≤ writers) :
    JobMove ⟨status, claims, commits, holders, writers⟩ ⟨status, claims, commits, holders', writers'⟩ :=
  .quiet ⟨status, claims, commits, holders, writers⟩ holders' writers' fewerHolders fewerWriters

/-- What a step of one process is for a job, given the counts around it. -/
theorem Effect.move {shared : Shared} {process : Process} {choice : Choice} {result : Outcome}
    (effect : Effect limits shared process choice result) (claims commits : Nat) {h h' w w' : Nat}
    (holders : h' + (if process.holds jobId then 1 else 0) = h + result.next.countP (Process.holds jobId))
    (writers : w' + (if process.writes jobId then 1 else 0) = w + result.next.countP (Process.writes jobId))
    (within : w' ≤ h') :
    JobMove ⟨shared.jobs.statusOf jobId, claims, commits, h, w⟩
      ⟨result.shared.jobs.statusOf jobId, claims + (if result.event.any (Event.claims jobId) then 1 else 0),
        commits + (if result.event.any (Event.commits jobId) then 1 else 0), h', w'⟩ := by
  cases effect with
  | committed | cleared | published | found | stored | readEntities | readEdges =>
      simp [Process.holds, Process.writes, Stage.claimed, Event.claims, Event.commits] at holders writers ⊢
      exact quiet_move (by omega) (by omega)
  | dispatched other rows published dispatchMethod =>
      have unheld : ∀ q : Process → Bool, q (.run .fallback other (.claim rows)) = false →
          (if published then [] else [Process.run .fallback other (.claim rows)]).countP q = 0 := by
        intro q none
        cases published <;> simp [none]
      rw [unheld _ (by simp [Process.holds, Stage.claimed])] at holders
      rw [unheld _ rfl] at writers
      simp [Process.holds, Process.writes] at holders writers ⊢
      exact quiet_move (by omega) (by omega)
  | created rows =>
      simp [Process.holds, Process.writes, UploadJobs.statusOf_create] at holders writers ⊢
      subst holders writers
      split
      · rename_i new
        refine .create ⟨_, _, _, _, _⟩ ?_
        rw [new]
        exact UploadJobs.create_fresh _ _
      · exact quiet_move (Nat.le_refl _) (Nat.le_refl _)
  | claimed dispatcher other rows queued moved =>
      by_cases same : other = jobId
      · subst same
        simp [Process.holds, Process.writes, Stage.claimed, Event.claims, Event.commits, moved] at holders writers ⊢
        subst holders writers
        exact .claim ⟨_, _, _, _, _⟩ queued
      · simp [Process.holds, Process.writes, Event.claims, Event.commits, moved, same, Ne.symm same] at holders writers ⊢
        exact quiet_move (by omega) (by omega)
  | wrote dispatcher other rows written =>
      by_cases same : other = jobId
      · subst same
        simp [Process.holds, Process.writes, Stage.claimed, Event.claims, Event.commits] at holders writers ⊢
        subst holders
        exact .commit ⟨_, _, _, _, _⟩ w' writers.symm
      · simp [Process.holds, Process.writes, Event.claims, Event.commits, same] at holders writers ⊢
        exact quiet_move (by omega) (by omega)
  | rolledBack dispatcher other rows reason | jobCleared dispatcher other counts | caught other counts =>
      by_cases same : other = jobId <;>
        simp [Process.holds, Process.writes, Stage.claimed, same] at holders writers ⊢ <;>
        exact quiet_move (by omega) (by omega)
  | completed dispatcher other counts =>
      by_cases same : other = jobId
      · subst same
        simp [Process.holds, Process.writes, Stage.claimed, UploadJobs.statusOf_markCompleted] at holders writers ⊢
        subst writers
        exact .settle ⟨_, _, _, _, _⟩ .completed (.inl rfl) h' holders.symm within
      · simp [Process.holds, Process.writes, UploadJobs.statusOf_markCompleted, same, Ne.symm same] at holders writers ⊢
        exact quiet_move (by omega) (by omega)
  | failed dispatcher other cause =>
      by_cases same : other = jobId
      · subst same
        simp [Process.holds, Process.writes, Stage.claimed, UploadJobs.statusOf_markFailed] at holders writers ⊢
        subst writers
        exact .settle ⟨_, _, _, _, _⟩ .failed (.inr rfl) h' holders.symm within
      · simp [Process.holds, Process.writes, UploadJobs.statusOf_markFailed, same, Ne.symm same] at holders writers ⊢
        exact quiet_move (by omega) (by omega)
  | ended =>
      simp at holders writers ⊢
      exact quiet_move (by omega) (by omega)

/-- Every step of the server is a move of every job. -/
theorem step_move (trace : List (State × Action)) (taken : step limits state action = some after) :
    JobMove (jobView limits jobId trace state) (jobView limits jobId (trace ++ [(state, action)]) after) := by
  rcases step_cases taken with ⟨silent, new, starts, rfl⟩ | ⟨silent, rfl⟩ |
    ⟨i, choice, process, result, _, found, effect, same, rfl⟩
  · have noHolder : new.countP (Process.holds jobId) = 0 :=
      List.countP_eq_zero.mpr fun process member => by simp [(started_holds (starts process member)).1]
    have noWriter : new.countP (Process.writes jobId) = 0 :=
      List.countP_eq_zero.mpr fun process member => by simp [(started_holds (starts process member)).2]
    have view : jobView limits jobId (trace ++ [(state, action)]) { state with running := state.running ++ new } =
        jobView limits jobId trace state := by
      simp [jobView, happened_next, silent, List.countP_append, noHolder, noWriter]
    rw [view]
    exact .quiet _ _ _ (Nat.le_refl _) (Nat.le_refl _)
  · have view : jobView limits jobId (trace ++ [(state, action)])
        { shared := { state.shared with analyticsBaseCache := none }, running := [] } =
        { jobView limits jobId trace state with holders := 0, writers := 0 } := by
      simp [jobView, happened_next, silent]
    rw [view]
    exact .quiet _ _ _ (Nat.zero_le _) (Nat.zero_le _)
  · have move := effect.move (happened limits (Event.claims jobId) trace) (happened limits (Event.commits jobId) trace)
      (countP_replaceAt (Process.holds jobId) found) (countP_replaceAt (Process.writes jobId) found)
      (countP_writes_le _)
    simpa only [jobView, happened_next, same] using move

theorem jobView_sound (run : Run (step limits) State.initial trace state) (jobId : JobId) :
    JobSound (jobView limits jobId trace state) := by
  refine run.invariant_trace (fun trace state => JobSound (jobView limits jobId trace state)) (fun _ _ => True) ?_ ?_
    fun _ _ => trivial
  · exact ⟨fun _ => ⟨rfl, rfl, rfl⟩, fun _ => rfl, Nat.zero_le _, Nat.zero_le _, Nat.le_refl _, Nat.zero_le _⟩
  · exact fun trace before action after sound _ taken =>
      ((step_move trace taken).sound sound (countP_writes_le _)).1

/-- In every run a job is claimed and committed at most once, and each step moves
its status from queued to processing, and from there to completed or failed. -/
theorem jobs_run_once (run : Run (step limits) State.initial trace state) (jobId : JobId) :
    happened limits (Event.claims jobId) trace ≤ 1 ∧ happened limits (Event.commits jobId) trace ≤ 1 ∧
    ∀ entry ∈ trace, ∀ after, step limits entry.1 entry.2 = some after →
      StatusNext (entry.1.shared.jobs.statusOf jobId) (after.shared.jobs.statusOf jobId) := by
  have sound := jobView_sound run jobId
  refine ⟨sound.claims, Nat.le_trans (Nat.le_add_left _ _) sound.commits, fun entry member after taken => ?_⟩
  obtain ⟨part, _, shorter, _⟩ := run.entry member
  exact ((step_move part taken).sound (jobView_sound shorter jobId) (countP_writes_le _)).2

omit [Platform] in
/-- A failed publish whose fallback races with a delivery of the job. -/
def racedActions : List Action := [
  .uploadAsync ⟨0⟩ (ownershipFiles [("Acme", "Entity", "")] []),
  .advance 0 .succeed, .advance 0 .fail, .advance 0 .succeed,
  .callback 1, .advance 1 .succeed,
  .advance 0 .succeed, .advance 0 .succeed,
  .advance 0 .succeed, .advance 0 .succeed, .advance 0 .succeed]

omit [Platform] in
theorem raced_job_runs_once :
    letI := asciiPlatform
    ∃ trace state, trace.map Prod.snd = racedActions ∧ Run (step Limits.default) State.initial trace state ∧
      happened Limits.default (Event.claims 1) trace ≤ 1 ∧ happened Limits.default (Event.commits 1) trace ≤ 1 ∧
      ∀ entry ∈ trace, ∀ after, step Limits.default entry.1 entry.2 = some after →
        StatusNext (entry.1.shared.jobs.statusOf 1) (after.shared.jobs.statusOf 1) := by
  have finishes : letI := asciiPlatform
      ((execute (step Limits.default) State.initial racedActions).map fun state =>
        (state.running, state.shared.jobs.statusOf 1)) = some ([], some .completed) := by
    decide +kernel
  let _ := asciiPlatform
  obtain ⟨state, executed, _⟩ := Option.map_eq_some_iff.mp finishes
  exact ⟨_, state, steps_actions executed, run_steps executed, jobs_run_once (run_steps executed) 1⟩

end Coverpin.Server
