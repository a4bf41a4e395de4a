namespace Coverpin.Data

/-! Runs of a deterministic step function that is driven by actions.

A run records every step it took as the state before it together with the
action.  An invariant is carried along a run once, here; a system only states
what one of its steps preserves.
-/

variable {σ : Type u} {α : Type v} {step : σ → α → Option σ} {start state : σ}
  {trace : List (σ × α)}

/-- `Run step start trace state`: the steps of `trace` lead from `start` to `state`. -/
inductive Run (step : σ → α → Option σ) (start : σ) : List (σ × α) → σ → Prop where
  | start : Run step start [] start
  | next {trace : List (σ × α)} {before after : σ} {action : α} (run : Run step start trace before)
      (taken : step before action = some after) : Run step start (trace ++ [(before, action)]) after

/-- The states a run passes through, its last one included. -/
def visited (trace : List (σ × α)) (state : σ) : List σ :=
  trace.map Prod.fst ++ [state]

/-- The state to which actions lead when each of them can be taken. -/
def execute (step : σ → α → Option σ) : σ → List α → Option σ
  | state, [] => some state
  | state, action :: rest => (step state action).bind fun next => execute step next rest

def steps (step : σ → α → Option σ) : σ → List α → List (σ × α)
  | _, [] => []
  | state, action :: rest =>
      match step state action with
      | none => []
      | some next => (state, action) :: steps step next rest

/-- An invariant that every step meeting `allowed` preserves holds at the end of
every run whose steps all meet `allowed`. -/
theorem Run.invariant (holds : σ → Prop) (allowed : σ → α → Prop) (initial : holds start)
    (preserved : ∀ before action after, holds before → allowed before action →
      step before action = some after → holds after)
    (run : Run step start trace state) (meets : ∀ entry ∈ trace, allowed entry.1 entry.2) :
    holds state := by
  induction run with
  | start => exact initial
  | @next trace before after action run taken induction =>
      have earlier := induction fun entry member => meets entry (List.mem_append_left _ member)
      exact preserved before action after earlier (meets (before, action) (by simp)) taken

theorem Run.upto (run : Run step start trace state) {other : σ} (member : other ∈ visited trace state) :
    ∃ part, Run step start part other ∧ part <+: trace := by
  induction run with
  | start =>
      have same : other = start := by simpa [visited] using member
      exact ⟨[], same ▸ .start, List.prefix_refl _⟩
  | @next trace before after action run taken induction =>
      simp only [visited, List.map_append, List.map_cons, List.map_nil, List.mem_append,
        List.mem_singleton] at member induction
      rcases member with (inTrace | last) | final
      · obtain ⟨part, shorter, isPrefix⟩ := induction (.inl inTrace)
        exact ⟨part, shorter, isPrefix.trans (List.prefix_append _ _)⟩
      · obtain ⟨part, shorter, isPrefix⟩ := induction (.inr last)
        exact ⟨part, shorter, isPrefix.trans (List.prefix_append _ _)⟩
      · exact ⟨trace ++ [(before, action)], final ▸ .next run taken, List.prefix_refl _⟩

/-- The invariant rule for every state on the way. -/
theorem Run.invariant_visited (holds : σ → Prop) (allowed : σ → α → Prop) (initial : holds start)
    (preserved : ∀ before action after, holds before → allowed before action →
      step before action = some after → holds after)
    (run : Run step start trace state) (meets : ∀ entry ∈ trace, allowed entry.1 entry.2) :
    ∀ other ∈ visited trace state, holds other := by
  intro other member
  obtain ⟨part, shorter, isPrefix⟩ := run.upto member
  exact shorter.invariant holds allowed initial preserved fun entry inside => meets entry (isPrefix.subset inside)

/-- Every step of a run is taken at the end of an initial part of it. -/
theorem Run.entry (run : Run step start trace state) {entry : σ × α} (member : entry ∈ trace) :
    ∃ part after, Run step start part entry.1 ∧ step entry.1 entry.2 = some after ∧
      Run step start (part ++ [entry]) after ∧ part ++ [entry] <+: trace := by
  induction run with
  | start => cases member
  | @next trace before after action run taken induction =>
      rcases List.mem_append.mp member with earlier | last
      · obtain ⟨part, after, shorter, step, longer, isPrefix⟩ := induction earlier
        exact ⟨part, after, shorter, step, longer, isPrefix.trans (List.prefix_append _ _)⟩
      · obtain rfl := List.mem_singleton.mp last
        exact ⟨trace, after, run, taken, .next run taken, List.prefix_refl _⟩

/-- The invariant rule for a property of the steps taken so far and the state. -/
theorem Run.invariant_trace (holds : List (σ × α) → σ → Prop) (allowed : σ → α → Prop)
    (initial : holds [] start)
    (preserved : ∀ trace before action after, holds trace before → allowed before action →
      step before action = some after → holds (trace ++ [(before, action)]) after)
    (run : Run step start trace state) (meets : ∀ entry ∈ trace, allowed entry.1 entry.2) : holds trace state := by
  induction run with
  | start => exact initial
  | @next trace before after action run taken induction =>
      have earlier := induction fun entry member => meets entry (List.mem_append_left _ member)
      exact preserved trace before action after earlier (meets (before, action) (by simp)) taken

theorem visited_next (trace : List (σ × α)) (before after : σ) (action : α) :
    visited (trace ++ [(before, action)]) after = visited trace before ++ [after] := by
  simp [visited]

/-- A property that a step from where it holds keeps exactly when it is allowed
holds on the whole way exactly when every step is allowed. -/
theorem Run.visited_iff (known holds : σ → Prop) (allowed : σ → α → Prop) (knownStart : known start)
    (knownKept : ∀ before action after, known before → step before action = some after → known after)
    (initial : holds start)
    (exactly : ∀ before action after, known before → holds before → step before action = some after →
      (holds after ↔ allowed before action))
    (run : Run step start trace state) :
    (∀ other ∈ visited trace state, holds other) ↔ ∀ entry ∈ trace, allowed entry.1 entry.2 := by
  induction run with
  | start => simp [visited, initial]
  | @next trace before after action run taken induction =>
      have knownBefore := run.invariant known (fun _ _ => True) knownStart
        (fun before action after held _ step => knownKept before action after held step) fun _ _ => trivial
      rw [visited_next, List.forall_mem_append, List.forall_mem_append, ← induction, List.forall_mem_singleton,
        List.forall_mem_singleton]
      constructor
      · intro held
        exact ⟨held.1, (exactly before action after knownBefore (held.1 before (by simp [visited])) taken).mp held.2⟩
      · intro held
        exact ⟨held.1, (exactly before action after knownBefore (held.1 before (by simp [visited])) taken).mpr held.2⟩

theorem Run.append {actions : List α} {final : σ} (run : Run step start trace state)
    (executed : execute step state actions = some final) : Run step start (trace ++ steps step state actions) final := by
  induction actions generalizing trace state with
  | nil =>
      cases executed
      simpa [steps] using run
  | cons action actions induction =>
      simp only [execute, Option.bind_eq_some_iff] at executed
      obtain ⟨next, taken, remaining⟩ := executed
      have longer := induction (run.next taken) remaining
      simpa [steps, taken] using longer

theorem Run.trans {middle : σ} {more : List (σ × α)} (run : Run step start trace middle)
    (later : Run step middle more state) : Run step start (trace ++ more) state := by
  induction later with
  | start => rwa [List.append_nil]
  | next later taken induction =>
      rw [← List.append_assoc]
      exact .next induction taken

section Measure

variable (measure : σ → Nat) (allowed : σ → α → Prop)

theorem Run.length_le (run : Run step start trace state) (meets : ∀ entry ∈ trace, allowed entry.1 entry.2)
    (decreases : ∀ before action after, allowed before action → step before action = some after →
      measure after < measure before) : trace.length + measure state ≤ measure start := by
  induction run with
  | start => simp
  | @next trace before after action run taken induction =>
      have earlier := induction fun entry member => meets entry (List.mem_append_left _ member)
      have less := decreases before action after (meets (before, action) (by simp)) taken
      rw [List.length_append, List.length_singleton]
      omega

/-- Where a step is left as long as a state is not final, a run leads to a final state. -/
theorem exists_run_final (final : σ → Prop)
    (goesOn : ∀ before, ¬ final before → ∃ action after, allowed before action ∧ step before action = some after ∧
      measure after < measure before) (start : σ) :
    ∃ trace state, Run step start trace state ∧ (∀ entry ∈ trace, allowed entry.1 entry.2) ∧ final state := by
  induction bound : measure start using Nat.strongRecOn generalizing start with
  | ind _ induction =>
      by_cases done : final start
      · exact ⟨[], start, .start, List.forall_mem_nil _, done⟩
      · obtain ⟨action, after, meets, taken, less⟩ := goesOn start done
        obtain ⟨trace, state, run, others, reached⟩ := induction _ (bound ▸ less) after rfl
        exact ⟨_, state, (Run.next .start taken).trans run, List.forall_mem_cons.mpr ⟨meets, others⟩, reached⟩

end Measure

theorem run_steps {actions : List α} {final : σ} (executed : execute step start actions = some final) :
    Run step start (steps step start actions) final := by
  simpa using Run.start.append executed

theorem steps_actions {actions : List α} {final : σ} (executed : execute step start actions = some final) :
    (steps step start actions).map Prod.snd = actions := by
  induction actions generalizing start with
  | nil => rfl
  | cons action actions induction =>
      simp only [execute, Option.bind_eq_some_iff] at executed
      obtain ⟨next, taken, remaining⟩ := executed
      simp [steps, taken, induction remaining]

end Coverpin.Data
