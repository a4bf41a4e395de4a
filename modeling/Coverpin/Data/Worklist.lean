import Coverpin.Data.FirstMentions
import Mathlib.Logic.Relation

namespace Coverpin.Data

open Relation

/-! A depth-first worklist over a graph given by its successor lists.

A round pops a node, adds its outputs to one set and its successors to another,
and pushes those successors that were not in the set.  The start is pushed but
not in the set unless some edge leads back to it.
-/

variable {α : Type u} {β : Type v} [DecidableEq α]

structure Worklist (α : Type u) (β : Type v) where
  seen : List α
  outputs : List β
  stack : List α  -- the node that is popped next comes first

namespace Worklist

def start (root : α) : Worklist α β :=
  { seen := [], outputs := [], stack := [root] }

def push (state : Worklist α β) (node : α) : Worklist α β :=
  if node ∈ state.seen then state
  else { state with seen := addNew state.seen node, stack := node :: state.stack }

variable {state : Worklist α β} {node other : α}

theorem push_outputs : (state.push node).outputs = state.outputs := by
  unfold push
  split <;> rfl

theorem mem_push_seen : other ∈ (state.push node).seen ↔ other ∈ state.seen ∨ other = node := by
  unfold push
  split
  · rename_i present
    constructor
    · exact .inl
    · exact fun either => either.elim id fun same => same ▸ present
  · exact mem_addNew

theorem mem_push_stack : other ∈ (state.push node).stack ↔ other ∈ state.stack ∨ other = node ∧ node ∉ state.seen := by
  unfold push
  split <;> simp_all [or_comm]

theorem push_seen_nodup (distinct : state.seen.Nodup) : (state.push node).seen.Nodup := by
  unfold push
  split
  · exact distinct
  · exact addNew_nodup distinct node

/-- All that pushing a list of nodes does. -/
theorem foldl_push (state : Worklist α β) (nodes : List α) :
    (nodes.foldl push state).outputs = state.outputs ∧
    (∀ other, other ∈ (nodes.foldl push state).seen ↔ other ∈ state.seen ∨ other ∈ nodes) ∧
    (∀ other, other ∈ (nodes.foldl push state).stack ↔ other ∈ state.stack ∨ other ∈ nodes ∧ other ∉ state.seen) ∧
    (state.seen.Nodup → (nodes.foldl push state).seen.Nodup) := by
  induction nodes generalizing state with
  | nil => simp
  | cons node nodes induction =>
      obtain ⟨outputs, seen, stack, distinct⟩ := induction (state.push node)
      refine ⟨outputs.trans push_outputs, ?_, ?_, fun nodup => distinct (push_seen_nodup nodup)⟩
      · intro other
        rw [List.foldl_cons, seen, mem_push_seen, List.mem_cons, or_assoc]
      · intro other
        rw [List.foldl_cons, stack, mem_push_stack, mem_push_seen, List.mem_cons]
        grind

variable [DecidableEq β] (next : α → List α) (output : α → List β)

def visit (state : Worklist α β) (node : α) : Worklist α β :=
  (next node).foldl push { state with outputs := (output node).foldl addNew state.outputs }

/-- At most so many rounds; `none` when they do not empty the stack. -/
def run : (rounds : Nat) → Worklist α β → Option (Worklist α β)
  | rounds, state =>
      match rounds, state.stack with
      | _, [] => some state
      | 0, _ :: _ => none
      | rounds + 1, node :: stack => run rounds (visit next output { state with stack } node)

/-- Everything seen is reached from the root.  Nodes that are seen and no longer
on the stack, and so is the root, have their successors and outputs collected. -/
structure Invariant (root : α) (state : Worklist α β) : Prop where
  distinctSeen : state.seen.Nodup
  distinctOutputs : state.outputs.Nodup
  seen : ∀ node ∈ state.seen, TransGen (fun a b => b ∈ next a) root node
  stack : ∀ node ∈ state.stack, ReflTransGen (fun a b => b ∈ next a) root node
  outputs : ∀ item ∈ state.outputs, ∃ node, ReflTransGen (fun a b => b ∈ next a) root node ∧ item ∈ output node
  handled : ∀ node, node = root ∨ node ∈ state.seen → node ∉ state.stack →
    (∀ successor ∈ next node, successor ∈ state.seen) ∧ ∀ item ∈ output node, item ∈ state.outputs

variable {next output} {root : α}

omit [DecidableEq α] [DecidableEq β] in
theorem Invariant.start (root : α) : Invariant next output root (start root) where
  distinctSeen := List.nodup_nil
  distinctOutputs := List.nodup_nil
  seen := List.forall_mem_nil _
  stack node member := List.mem_singleton.mp member ▸ .refl
  outputs := List.forall_mem_nil _
  handled node listed absent := by
    rcases listed with rfl | member
    · exact absurd (List.mem_singleton_self _) absent
    · cases member

theorem Invariant.visit {stack : List α} (invariant : Invariant next output root state)
    (popped : state.stack = node :: stack) :
    Invariant next output root (visit next output { state with stack } node) := by
  have reached : ReflTransGen (fun a b => b ∈ next a) root node := invariant.stack node (by simp [popped])
  obtain ⟨outputs, seen, pushed, distinct⟩ :=
    foldl_push { state with stack, outputs := (output node).foldl addNew state.outputs } (next node)
  simp only at outputs seen pushed distinct
  refine ⟨distinct invariant.distinctSeen, ?_, ?_, ?_, ?_, ?_⟩
  · exact outputs ▸ foldl_addNew_nodup invariant.distinctOutputs _
  · intro other member
    rcases (seen other).mp member with old | successor
    · exact invariant.seen other old
    · exact .tail' reached successor
  · intro other member
    rcases (pushed other).mp member with old | ⟨successor, _⟩
    · exact invariant.stack other (popped ▸ List.mem_cons_of_mem _ old)
    · exact reached.tail successor
  · intro item member
    rcases mem_foldl_addNew.mp (outputs ▸ member) with old | new
    · exact invariant.outputs item old
    · exact ⟨node, reached, new⟩
  · intro other listed absent
    have unpushed : ∀ successor ∈ next node, successor ∉ state.seen → successor ≠ other :=
      fun successor member fresh same => absent ((pushed other).mpr (.inr ⟨same ▸ member, same ▸ fresh⟩))
    by_cases same : other = node
    · exact ⟨fun successor member => (seen successor).mpr (.inr (same ▸ member)),
        fun item member => outputs ▸ mem_foldl_addNew.mpr (.inr (same ▸ member))⟩
    · have before : other ∉ state.stack := by
        rw [popped, List.mem_cons]
        exact fun either => either.elim same fun inside => absent ((pushed other).mpr (.inl inside))
      have known : other = root ∨ other ∈ state.seen := by
        refine listed.imp_right fun member => ?_
        rcases (seen other).mp member with old | successor
        · exact old
        · exact Classical.byContradiction fun fresh => unpushed other successor fresh rfl
      obtain ⟨successors, items⟩ := invariant.handled other known before
      exact ⟨fun successor member => (seen successor).mpr (.inl (successors successor member)),
        fun item member => outputs ▸ mem_foldl_addNew.mpr (.inl (items item member))⟩

theorem Invariant.run {rounds : Nat} {final : Worklist α β} (invariant : Invariant next output root state)
    (finished : run next output rounds state = some final) : Invariant next output root final ∧ final.stack = [] := by
  induction rounds generalizing state with
  | zero =>
      unfold Worklist.run at finished
      cases stack : state.stack with
      | nil =>
          simp only [stack] at finished
          cases finished
          exact ⟨invariant, stack⟩
      | cons node rest => simp [stack] at finished
  | succ rounds induction =>
      unfold Worklist.run at finished
      cases stack : state.stack with
      | nil =>
          simp only [stack] at finished
          cases finished
          exact ⟨invariant, stack⟩
      | cons node rest =>
          simp only [stack] at finished
          exact induction (invariant.visit stack) finished

/-- A finished run has seen what the root reaches in one step or more, and has the
outputs of that and of the root, each once. -/
theorem run_start {rounds : Nat} {final : Worklist α β} (finished : run next output rounds (start root) = some final) :
    (final.seen.Nodup ∧ ∀ node, node ∈ final.seen ↔ TransGen (fun a b => b ∈ next a) root node) ∧
    final.outputs.Nodup ∧ ∀ item, item ∈ final.outputs ↔
      ∃ node, ReflTransGen (fun a b => b ∈ next a) root node ∧ item ∈ output node := by
  obtain ⟨invariant, empty⟩ := (Invariant.start root).run finished
  have handled : ∀ node, node = root ∨ node ∈ final.seen →
      (∀ successor ∈ next node, successor ∈ final.seen) ∧ ∀ item ∈ output node, item ∈ final.outputs :=
    fun node listed => invariant.handled node listed (by simp [empty])
  have seen : ∀ node, TransGen (fun a b => b ∈ next a) root node → node ∈ final.seen := by
    intro node reached
    induction reached with
    | single edge => exact (handled root (.inl rfl)).1 _ edge
    | tail _ edge induction => exact (handled _ (.inr induction)).1 _ edge
  refine ⟨⟨invariant.distinctSeen, fun node => ⟨invariant.seen node, seen node⟩⟩, invariant.distinctOutputs,
    fun item => ⟨invariant.outputs item, fun reached => ?_⟩⟩
  obtain ⟨node, reached, member⟩ := reached
  refine (handled node ?_).2 item member
  exact (reflTransGen_iff_eq_or_transGen.mp reached).imp (fun same => same) (seen node)

/-- What is on the stack, and what can still be pushed. -/
def remaining (nodes : List α) (state : Worklist α β) : Nat :=
  state.stack.length + nodes.countP fun node => node ∉ state.seen

omit [DecidableEq α] in
theorem countP_lt {p q : α → Bool} {items : List α} (weaker : ∀ item, p item = true → q item = true)
    (member : node ∈ items) (holds : q node = true) (fails : p node = false) : items.countP p < items.countP q := by
  obtain ⟨before, after, rfl⟩ := List.append_of_mem member
  have front := List.countP_mono_left (l := before) fun item _ => weaker item
  have back := List.countP_mono_left (l := after) fun item _ => weaker item
  rw [List.countP_append, List.countP_append, List.countP_cons_of_pos holds, List.countP_cons_of_neg (by simp [fails])]
  omega

omit [DecidableEq β] in
theorem remaining_push {nodes : List α} (known : node ∈ nodes) :
    remaining nodes (state.push node) ≤ remaining nodes state := by
  unfold push
  split
  · exact Nat.le_refl _
  · rename_i fresh
    have fewer : nodes.countP (fun other => other ∉ addNew state.seen node) < nodes.countP (fun other => other ∉ state.seen) :=
      countP_lt (by grind [mem_addNew]) known (by simpa using fresh) (by simp)
    simp only [remaining, List.length_cons]
    omega

omit [DecidableEq β] in
theorem remaining_foldl_push {nodes more : List α} (within : more ⊆ nodes) :
    remaining nodes (more.foldl push state) ≤ remaining nodes state := by
  induction more generalizing state with
  | nil => exact Nat.le_refl _
  | cons first more induction =>
      obtain ⟨known, later⟩ := List.cons_subset.mp within
      exact Nat.le_trans (induction later) (remaining_push known)

theorem run_terminates {nodes : List α} (within : ∀ node, next node ⊆ nodes) {rounds : Nat}
    (enough : remaining nodes state ≤ rounds) : ∃ final, run next output rounds state = some final := by
  induction rounds generalizing state with
  | zero =>
      have empty : state.stack = [] := List.eq_nil_of_length_eq_zero (by unfold remaining at enough; omega)
      exact ⟨state, by unfold run; simp [empty]⟩
  | succ rounds induction =>
      unfold run
      cases popped : state.stack with
      | nil => exact ⟨state, rfl⟩
      | cons node stack =>
          refine induction (Nat.le_trans (remaining_foldl_push (within node)) ?_)
          simp only [remaining, popped, List.length_cons] at enough ⊢
          omega

/-- One round for the start, and one for each node that can be pushed, are enough. -/
theorem run_start_terminates {nodes : List α} (within : ∀ node, next node ⊆ nodes) (output : α → List β) (root : α) :
    ∃ final, run next output (nodes.length + 1) (start root) = some final := by
  have bound : nodes.countP (fun node => node ∉ (start root : Worklist α β).seen) ≤ nodes.length := List.countP_le_length
  have enough : remaining nodes (start root : Worklist α β) ≤ nodes.length + 1 := by
    show 1 + _ ≤ _
    omega
  exact run_terminates within enough

end Worklist

end Coverpin.Data
