import Mathlib.Data.List.Basic

namespace Coverpin.Data

/-! # Computations that keep a log

A computation that may fail, and what it has logged until it ended with a result
or with an error.
-/

structure Logged (ω ε α : Type) where
  log : List ω
  outcome : Except ε α

namespace Logged

variable {ω ε α β : Type}

instance : Monad (Logged ω ε) where
  pure value := { log := [], outcome := .ok value }
  bind first next :=
    match first.outcome with
    | .error reason => { log := first.log, outcome := .error reason }
    | .ok value => { log := first.log ++ (next value).log, outcome := (next value).outcome }

/-- Some work that is logged as one entry. -/
def entry (item : ω) (work : Except ε α) : Logged ω ε α where
  log := [item]
  outcome := work

@[simp] theorem outcome_pure (value : α) : (pure value : Logged ω ε α).outcome = pure value := rfl

@[simp] theorem outcome_entry (item : ω) (work : Except ε α) : (entry item work).outcome = work := rfl

@[simp] theorem outcome_bind (first : Logged ω ε α) (next : α → Logged ω ε β) :
    (first >>= next).outcome = first.outcome >>= fun value => (next value).outcome := by
  obtain ⟨log, outcome⟩ := first
  cases outcome with
  | error reason => rfl
  | ok value => rfl

@[simp] theorem outcome_foldlM (step : β → α → Logged ω ε β) (items : List α) (start : β) :
    (items.foldlM step start).outcome = items.foldlM (fun state item => (step state item).outcome) start := by
  induction items generalizing start with
  | nil => rfl
  | cons item items induction => simp only [List.foldlM_cons, outcome_bind, induction]

/-- Every entry satisfies `p`. -/
def Logs (p : ω → Prop) (computation : Logged ω ε α) : Prop :=
  ∀ item ∈ computation.log, p item

variable {p : ω → Prop}

theorem Logs.pure (value : α) : Logs p (pure value : Logged ω ε α) :=
  List.forall_mem_nil p

theorem Logs.entry {item : ω} (work : Except ε α) (holds : p item) : Logs p (Logged.entry item work) :=
  List.forall_mem_singleton.mpr holds

theorem logs_bind {first : Logged ω ε α} {next : α → Logged ω ε β} : Logs p (first >>= next) ↔
    Logs p first ∧ ∀ value, first.outcome = .ok value → Logs p (next value) := by
  obtain ⟨log, outcome⟩ := first
  cases outcome with
  | error reason =>
      constructor
      · exact fun logs => ⟨logs, fun value same => by cases same⟩
      · exact fun logs => logs.1
  | ok value =>
      refine List.forall_mem_append.trans (and_congr_right fun _ => ?_)
      constructor
      · intro logs other same
        cases same
        exact logs
      · exact fun logs => logs value rfl

theorem Logs.foldlM {step : β → α → Logged ω ε β} {items : List α} (each : ∀ state, ∀ item ∈ items, Logs p (step state item))
    (start : β) : Logs p (items.foldlM step start) := by
  induction items generalizing start with
  | nil => exact Logs.pure start
  | cons item items induction =>
      rw [List.foldlM_cons, logs_bind]
      refine ⟨each start item (List.mem_cons_self ..), fun state _ => ?_⟩
      exact induction (fun state item member => each state item (List.mem_cons_of_mem _ member)) state

end Logged

end Coverpin.Data
