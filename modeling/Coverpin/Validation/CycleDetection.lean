import Coverpin.Data.Acyclic
import Coverpin.Data.InsertionMap

namespace Coverpin.Validation.Graph

open Coverpin.Data Relation

/-! # The three-colour search of `detectCyclicNodes`

The search is the source's, over any type of nodes.  Its recursion gets fuel,
and the spec lemma of a visit shows that as many rounds as there are white nodes
are enough.
-/

variable {α : Type u} [DecidableEq α]

inductive Color where
  | white
  | gray
  | black
deriving DecidableEq, Repr

/-- `Set.prototype.add` of every item, in order. -/
def addAll (set items : List α) : List α :=
  items.foldl (fun set item => if set.contains item then set else set ++ [item]) set

theorem addAll_eq (set items : List α) : addAll set items = items.foldl addNew set := by
  have same : (fun (set : List α) item => if set.contains item then set else set ++ [item]) = addNew := by
    funext set item
    simp [addNew]
  rw [addAll, same]

@[simp] theorem mem_addAll {set items : List α} {item : α} : item ∈ addAll set items ↔ item ∈ set ∨ item ∈ items := by
  rw [addAll_eq, mem_foldl_addNew]

structure DfsState (α : Type u) where
  color : InsertionMap α Color
  cyclic : List α
  stack : List α

def colorOf (color : InsertionMap α Color) (node : α) : Color :=
  (color.get? node).getD .white

def childrenOf (adjacency : InsertionMap α (List α)) (node : α) : List α :=
  (adjacency.get? node).getD []

/-- What `visit` does with one child, given the recursive call. -/
def visitChild (visit : α → DfsState α → Option (DfsState α)) (state : DfsState α) (next : α) :
    Option (DfsState α) :=
  match colorOf state.color next with
  | .white => visit next state
  | .gray => some { state with cyclic := addAll state.cyclic (state.stack.drop (state.stack.idxOf next)) }
  | .black => some state

/-- `visit` of the source; `none` says that the fuel did not suffice. -/
def visit (adjacency : InsertionMap α (List α)) : Nat → α → DfsState α → Option (DfsState α)
  | 0, _, _ => none
  | fuel + 1, node, state => do
      let entered := { state with color := state.color.set node .gray, stack := state.stack ++ [node] }
      let left ← (childrenOf adjacency node).foldlM (visitChild (visit adjacency fuel)) entered
      some { left with stack := left.stack.dropLast, color := left.color.set node .black }

/-- Every node of the graph: each parent followed by its children. -/
def allNodes (adjacency : InsertionMap α (List α)) : List α :=
  adjacency.entries.foldl (fun nodes (parent, children) => addAll (addAll nodes [parent]) children) []

/-- The loop over all nodes, with one round of fuel for each of them. -/
def searchAll (adjacency : InsertionMap α (List α)) : Option (DfsState α) :=
  (allNodes adjacency).foldlM (fun state node =>
    if colorOf state.color node = .white then visit adjacency (allNodes adjacency).length node state else some state)
    { color := .empty, cyclic := [], stack := [] }

section Spec

variable {adjacency : InsertionMap α (List α)} {state before after : DfsState α} {node next : α}

/-- `next` is a child of `node` in the adjacency map. -/
def Edge (adjacency : InsertionMap α (List α)) (node next : α) : Prop :=
  next ∈ childrenOf adjacency node

def EdgeWithin (adjacency : InsertionMap α (List α)) (set : List α) (node next : α) : Prop :=
  Edge adjacency node next ∧ node ∈ set ∧ next ∈ set

theorem mem_allNodes : node ∈ allNodes adjacency ↔
    ∃ entry ∈ adjacency.entries, node = entry.1 ∨ node ∈ entry.2 := by
  suffices general : ∀ (entries : List (α × List α)) (nodes : List α),
      node ∈ entries.foldl (fun nodes (parent, children) => addAll (addAll nodes [parent]) children) nodes ↔
        node ∈ nodes ∨ ∃ entry ∈ entries, node = entry.1 ∨ node ∈ entry.2 by
    simpa [allNodes] using general adjacency.entries []
  intro entries
  induction entries with
  | nil => simp
  | cons entry entries induction =>
      intro nodes
      rw [List.foldl_cons, induction]
      simp only [mem_addAll, List.mem_singleton, List.exists_mem_cons_iff, or_assoc]

theorem Edge.entry (edge : Edge adjacency node next) :
    ∃ children, (node, children) ∈ adjacency.entries ∧ next ∈ children := by
  cases found : adjacency.get? node with
  | none => simp [Edge, childrenOf, found] at edge
  | some children =>
      exact ⟨children, InsertionMap.get?_eq_some.mp found, by simpa [Edge, childrenOf, found] using edge⟩

theorem Edge.source_mem (edge : Edge adjacency node next) : node ∈ allNodes adjacency := by
  obtain ⟨children, member, _⟩ := edge.entry
  exact mem_allNodes.mpr ⟨_, member, .inl rfl⟩

theorem Edge.target_mem (edge : Edge adjacency node next) : next ∈ allNodes adjacency := by
  obtain ⟨children, member, inside⟩ := edge.entry
  exact mem_allNodes.mpr ⟨_, member, .inr inside⟩

/-- The state between two steps of the search: the gray nodes are the current
path, what was collected lies on collected cycles, and as long as nothing was
collected the finished nodes are closed under edges and free of cycles. -/
structure Consistent (adjacency : InsertionMap α (List α)) (state : DfsState α) : Prop where
  gray_iff : ∀ node, colorOf state.color node = .gray ↔ node ∈ state.stack
  nodup : state.stack.Nodup
  path : List.IsChain (Edge adjacency) state.stack
  onCycle : ∀ node ∈ state.cyclic, TransGen (EdgeWithin adjacency state.cyclic) node node
  blackClosed : state.cyclic = [] → ∀ node next, colorOf state.color node = .black → Edge adjacency node next →
    colorOf state.color next = .black
  blackAcyclic : state.cyclic = [] → ∀ node, colorOf state.color node = .black → ¬ TransGen (Edge adjacency) node node

/-- What a part of the search leaves in place. -/
structure Extends (before after : DfsState α) : Prop where
  stack : after.stack = before.stack
  black : ∀ node, colorOf before.color node = .black → colorOf after.color node = .black
  white : ∀ node, colorOf after.color node = .white → colorOf before.color node = .white
  cyclic : before.cyclic ⊆ after.cyclic

theorem Extends.refl (state : DfsState α) : Extends state state :=
  ⟨rfl, fun _ => id, fun _ => id, fun _ => id⟩

theorem Extends.trans {middle : DfsState α} (first : Extends before middle) (second : Extends middle after) :
    Extends before after :=
  ⟨second.stack.trans first.stack, fun node black => second.black node (first.black node black),
    fun node white => first.white node (second.white node white), List.Subset.trans first.cyclic second.cyclic⟩

theorem Extends.nothing_collected (extension : Extends before after) (empty : after.cyclic = []) :
    before.cyclic = [] :=
  List.eq_nil_of_subset_nil (empty ▸ extension.cyclic)

/-- The number of white nodes bounds the depth of the recursion. -/
def whiteCount (adjacency : InsertionMap α (List α)) (state : DfsState α) : Nat :=
  ((allNodes adjacency).filter (colorOf state.color · = .white)).length

theorem Extends.whiteCount_le (extension : Extends before after) :
    whiteCount adjacency after ≤ whiteCount adjacency before := by
  simp only [whiteCount, ← List.countP_eq_length_filter]
  exact List.countP_mono_left fun node _ white => by simpa using extension.white node (by simpa using white)

@[simp] theorem colorOf_set {color : InsertionMap α Color} {value : Color} :
    colorOf (color.set node value) next = if next = node then value else colorOf color next := by
  by_cases same : next = node
  · subst same
    simp [colorOf]
  · simp [colorOf, same, InsertionMap.get?_set_other same]

/-- A path whose last node leads back to its first one puts each of its nodes on
a cycle that stays on the path. -/
theorem onCycle_of_closed_path {path : List α} {first last : α} {rest front : List α}
    (chain : List.IsChain (Edge adjacency) path) (starts : path = first :: rest) (ends : path = front ++ [last])
    (closes : Edge adjacency last first) :
    ∀ node ∈ path, TransGen (EdgeWithin adjacency path) node node := by
  have ordered : path.Pairwise (TransGen (EdgeWithin adjacency path)) := by
    apply List.isChain_iff_pairwise.mp
    exact (List.IsChain.iff_mem.mp chain).imp fun _ _ edge => .single ⟨edge.2.2, edge.1, edge.2.1⟩
  have firstMember : first ∈ path := by simp [starts]
  have lastMember : last ∈ path := by simp [ends]
  intro node member
  have forward : ReflTransGen (EdgeWithin adjacency path) node last := by
    rw [ends] at member
    rcases List.mem_append.mp member with inFront | isLast
    · have pairs : (front ++ [last]).Pairwise (TransGen (EdgeWithin adjacency path)) := by rwa [← ends]
      exact ((List.pairwise_append.mp pairs).2.2 node inFront last (by simp)).to_reflTransGen
    · rw [List.mem_singleton.mp isLast]
  have onward : ReflTransGen (EdgeWithin adjacency path) first node := by
    rw [starts] at member
    rcases List.mem_cons.mp member with isFirst | inRest
    · rw [isFirst]
    · have pairs : (first :: rest).Pairwise (TransGen (EdgeWithin adjacency path)) := by rwa [← starts]
      exact ((List.pairwise_cons.mp pairs).1 node inRest).to_reflTransGen
  exact .trans_right forward (.head' ⟨closes, lastMember, firstMember⟩ onward)

theorem Consistent.enter (consistent : Consistent adjacency state) (white : colorOf state.color node = .white)
    (linked : ∀ last ∈ state.stack.getLast?, Edge adjacency last node) :
    Consistent adjacency
      { state with color := state.color.set node .gray, stack := state.stack ++ [node] } where
  gray_iff other := by
    by_cases same : other = node
    · simp [same]
    · simpa [same] using consistent.gray_iff other
  nodup := by
    have fresh : node ∉ state.stack := fun member => by
      rw [(consistent.gray_iff node).mpr member] at white
      cases white
    exact List.nodup_append.mpr ⟨consistent.nodup, List.nodup_singleton _, by grind⟩
  path := List.isChain_append.mpr ⟨consistent.path, List.isChain_singleton _, fun last member other found => by
    simp only [List.head?_cons, Option.mem_some_iff] at found
    exact found ▸ linked last member⟩
  onCycle := consistent.onCycle
  blackClosed empty other child black edge := by
    have differs : other ≠ node := by
      intro same
      subst same
      simp at black
    rw [colorOf_set, if_neg differs] at black
    have closed := consistent.blackClosed empty other child black edge
    have childDiffers : child ≠ node := by
      intro same
      subst same
      have finished : colorOf state.color child = .black := closed
      rw [white] at finished
      cases finished
    rw [colorOf_set, if_neg childDiffers]
    exact closed
  blackAcyclic empty other black := by
    have differs : other ≠ node := by
      intro same
      subst same
      simp at black
    rw [colorOf_set, if_neg differs] at black
    exact consistent.blackAcyclic empty other black

/-- Meeting a gray node closes a cycle along the end of the path. -/
theorem Consistent.collect (consistent : Consistent adjacency state) {front : List α}
    (top : state.stack = front ++ [node]) (edge : Edge adjacency node next) (gray : colorOf state.color next = .gray) :
    Consistent adjacency
        { state with cyclic := addAll state.cyclic (state.stack.drop (state.stack.idxOf next)) } ∧
      next ∈ addAll state.cyclic (state.stack.drop (state.stack.idxOf next)) := by
  have member := (consistent.gray_iff next).mp gray
  have inBounds := List.idxOf_lt_length_of_mem member
  obtain ⟨rest, cut⟩ : ∃ rest, state.stack.drop (state.stack.idxOf next) = next :: rest := by
    refine ⟨state.stack.drop (state.stack.idxOf next + 1), ?_⟩
    rw [List.drop_eq_getElem_cons inBounds, List.getElem_idxOf]
  obtain ⟨shorter, ends⟩ : ∃ shorter, state.stack.drop (state.stack.idxOf next) = shorter ++ [node] := by
    have within : state.stack.idxOf next ≤ front.length := by
      rw [top, List.length_append] at inBounds
      simp only [List.length_singleton] at inBounds
      rw [top]
      omega
    refine ⟨front.drop (state.stack.idxOf next), ?_⟩
    rw [top] at within ⊢
    exact List.drop_append_of_le_length within
  have closed := onCycle_of_closed_path (consistent.path.drop _) cut ends edge
  have collected : next ∈ addAll state.cyclic (state.stack.drop (state.stack.idxOf next)) := by
    rw [mem_addAll, cut]
    simp
  refine ⟨{
    gray_iff := consistent.gray_iff
    nodup := consistent.nodup
    path := consistent.path
    onCycle := fun other inside => ?_
    blackClosed := fun empty => absurd empty (List.ne_nil_of_mem collected)
    blackAcyclic := fun empty => absurd empty (List.ne_nil_of_mem collected) }, collected⟩
  rcases mem_addAll.mp inside with old | new
  · exact TransGen.mono (fun _ _ step => ⟨step.1, mem_addAll.mpr (.inl step.2.1), mem_addAll.mpr (.inl step.2.2)⟩)
      _ _ (consistent.onCycle other old)
  · exact TransGen.mono (fun _ _ step => ⟨step.1, mem_addAll.mpr (.inr step.2.1), mem_addAll.mpr (.inr step.2.2)⟩)
      _ _ (closed other new)

theorem Consistent.leave (consistent : Consistent adjacency state) {front : List α}
    (top : state.stack = front ++ [node])
    (finished : state.cyclic = [] → ∀ child, Edge adjacency node child → colorOf state.color child = .black) :
    Consistent adjacency
      { state with stack := state.stack.dropLast, color := state.color.set node .black } := by
  have nodup := consistent.nodup
  rw [top] at nodup
  have absent : node ∉ front := fun member =>
    (List.nodup_append.mp nodup).2.2 node member node (by simp) rfl
  have grayNode : colorOf state.color node = .gray := (consistent.gray_iff node).mpr (by simp [top])
  have blackIff : ∀ other, colorOf (state.color.set node .black) other = .black ↔
      colorOf state.color other = .black ∨ other = node := by
    intro other
    by_cases same : other = node <;> simp [same]
  constructor
  · intro other
    rw [colorOf_set, top, List.dropLast_concat]
    by_cases same : other = node
    · simp [same, absent]
    · rw [if_neg same, consistent.gray_iff, top]
      simp [same]
  · rw [top, List.dropLast_concat]
    exact (List.nodup_append.mp nodup).1
  · exact consistent.path.dropLast
  · exact consistent.onCycle
  · intro empty other child black edge
    rw [blackIff] at black ⊢
    rcases black with black | rfl
    · exact .inl (consistent.blackClosed empty other child black edge)
    · exact .inl (finished empty child edge)
  · intro empty other black
    rw [blackIff] at black
    refine acyclic_insert (p := fun node => colorOf state.color node = .black)
      (fun node child => consistent.blackClosed empty node child) (consistent.blackAcyclic empty) ?_
      (finished empty) other black
    rw [grayNode]
    decide

/-- What a call of `visit` is for: it finishes its node. -/
def VisitSpec (adjacency : InsertionMap α (List α)) (fuel : Nat) : Prop :=
  ∀ (node : α) (state : DfsState α), Consistent adjacency state → colorOf state.color node = .white →
    node ∈ allNodes adjacency → (∀ last ∈ state.stack.getLast?, Edge adjacency last node) →
    whiteCount adjacency state ≤ fuel →
    ∃ after, visit adjacency fuel node state = some after ∧ Consistent adjacency after ∧
      Extends state after ∧ colorOf after.color node = .black

theorem visitChild_spec {fuel : Nat} (visits : VisitSpec adjacency fuel) (consistent : Consistent adjacency state)
    {front : List α} (top : state.stack = front ++ [node]) (edge : Edge adjacency node next)
    (enough : whiteCount adjacency state ≤ fuel) :
    ∃ after, visitChild (visit adjacency fuel) state next = some after ∧ Consistent adjacency after ∧
      Extends state after ∧ (after.cyclic = [] → colorOf after.color next = .black) := by
  cases color : colorOf state.color next with
  | white =>
      have linked : ∀ last ∈ state.stack.getLast?, Edge adjacency last next := by
        simp only [top, List.getLast?_concat, Option.mem_some_iff]
        intro last same
        subst same
        exact edge
      obtain ⟨after, run, final, extension, black⟩ :=
        visits next state consistent color edge.target_mem linked enough
      exact ⟨after, by simpa only [visitChild, color] using run, final, extension, fun _ => black⟩
  | gray =>
      obtain ⟨final, collected⟩ := consistent.collect top edge color
      refine ⟨_, by simp only [visitChild, color], final, ?_, fun empty =>
        absurd empty (List.ne_nil_of_mem collected)⟩
      exact { Extends.refl state with cyclic := fun _ member => mem_addAll.mpr (.inl member) }
  | black =>
      exact ⟨state, by simp only [visitChild, color], consistent, .refl state, fun _ => color⟩

theorem visitChildren_spec {fuel : Nat} (visits : VisitSpec adjacency fuel) (front : List α) (children : List α)
    (edges : ∀ child ∈ children, Edge adjacency node child) (consistent : Consistent adjacency state)
    (top : state.stack = front ++ [node]) (enough : whiteCount adjacency state ≤ fuel) :
    ∃ after, children.foldlM (visitChild (visit adjacency fuel)) state = some after ∧
      Consistent adjacency after ∧ Extends state after ∧
      (after.cyclic = [] → ∀ child ∈ children, colorOf after.color child = .black) := by
  induction children generalizing state with
  | nil => exact ⟨state, rfl, consistent, .refl state, by simp⟩
  | cons child children induction =>
      obtain ⟨middle, first, middleConsistent, firstExtends, childDone⟩ :=
        visitChild_spec visits consistent top (edges child (by simp)) enough
      obtain ⟨after, rest, final, restExtends, restDone⟩ := induction
        (fun other member => edges other (List.mem_cons_of_mem _ member)) middleConsistent
        (firstExtends.stack.trans top) (Nat.le_trans firstExtends.whiteCount_le enough)
      refine ⟨after, by rw [List.foldlM_cons, first]; exact rest, final, firstExtends.trans restExtends, ?_⟩
      intro empty other member
      rcases List.mem_cons.mp member with rfl | later
      · exact restExtends.black other (childDone (restExtends.nothing_collected empty))
      · exact restDone empty other later

theorem whiteCount_enter (white : colorOf state.color node = .white) (member : node ∈ allNodes adjacency) :
    whiteCount adjacency { state with color := state.color.set node .gray, stack := state.stack ++ [node] } <
      whiteCount adjacency state := by
  have remaining : (allNodes adjacency).filter (colorOf (state.color.set node .gray) · = .white) =
      ((allNodes adjacency).filter (colorOf state.color · = .white)).filter (· ≠ node) := by
    rw [List.filter_filter]
    apply List.filter_congr
    intro other _
    by_cases same : other = node <;> simp [same]
  rw [whiteCount, whiteCount, remaining]
  exact List.length_filter_lt_length_iff_exists.mpr ⟨node, List.mem_filter.mpr ⟨member, by simpa using white⟩, by simp⟩

theorem visit_spec (fuel : Nat) : VisitSpec adjacency fuel := by
  induction fuel with
  | zero =>
      intro node state _ white member _ enough
      have positive := whiteCount_enter white member
      omega
  | succ fuel induction =>
      intro node state consistent white member linked enough
      have fewer := whiteCount_enter white member
      obtain ⟨left, loop, leftConsistent, extension, done⟩ := visitChildren_spec induction state.stack
        (childrenOf adjacency node) (fun _ => id) (consistent.enter white linked) rfl (by omega)
      have top : left.stack = state.stack ++ [node] := extension.stack
      refine ⟨_, by simp only [visit, loop, Option.bind_eq_bind, Option.bind_some],
        leftConsistent.leave top done, ?_, by simp⟩
      refine ⟨by simp [top], fun other black => ?_, fun other remains => ?_, extension.cyclic⟩
      · have differs : other ≠ node := by
          intro same
          subst same
          rw [white] at black
          cases black
        rw [colorOf_set, if_neg differs]
        exact extension.black other (by simpa [differs] using black)
      · rw [colorOf_set] at remains
        split at remains
        · cases remains
        · rename_i differs
          simpa [differs] using extension.white other remains

/-- The outer loop visits every node that is still white, so that none is left. -/
theorem searchLoop_spec (nodes : List α) (within : nodes ⊆ allNodes adjacency)
    (consistent : Consistent adjacency state) (idle : state.stack = [])
    (enough : whiteCount adjacency state ≤ (allNodes adjacency).length) :
    ∃ after, nodes.foldlM (fun state node => if colorOf state.color node = .white then
        visit adjacency (allNodes adjacency).length node state else some state) state = some after ∧
      Consistent adjacency after ∧ Extends state after ∧ ∀ node ∈ nodes, colorOf after.color node = .black := by
  induction nodes generalizing state with
  | nil => exact ⟨state, rfl, consistent, .refl state, by simp⟩
  | cons node nodes induction =>
      obtain ⟨middle, first, middleConsistent, firstExtends, done⟩ :
          ∃ middle, (if colorOf state.color node = .white then
              visit adjacency (allNodes adjacency).length node state else some state) = some middle ∧
            Consistent adjacency middle ∧ Extends state middle ∧ colorOf middle.color node = .black := by
        by_cases white : colorOf state.color node = .white
        · rw [if_pos white]
          exact visit_spec _ node state consistent white (within (by simp)) (by simp [idle]) enough
        · refine ⟨state, if_neg white, consistent, .refl state, ?_⟩
          have notGray : colorOf state.color node ≠ .gray := fun gray => by
            have member := (consistent.gray_iff node).mp gray
            simp [idle] at member
          cases color : colorOf state.color node with
          | white => exact absurd color white
          | gray => exact absurd color notGray
          | black => rfl
      obtain ⟨after, rest, final, restExtends, restDone⟩ := induction
        (fun other member => within (List.mem_cons_of_mem _ member)) middleConsistent
        (firstExtends.stack.trans idle) (Nat.le_trans firstExtends.whiteCount_le enough)
      refine ⟨after, by rw [List.foldlM_cons, first]; exact rest, final, firstExtends.trans restExtends, ?_⟩
      intro other member
      rcases List.mem_cons.mp member with rfl | later
      · exact restExtends.black other done
      · exact restDone other later

theorem searchAll_spec (adjacency : InsertionMap α (List α)) :
    ∃ after, searchAll adjacency = some after ∧ Consistent adjacency after ∧
      ∀ node ∈ allNodes adjacency, colorOf after.color node = .black := by
  have fresh : Consistent adjacency { color := .empty, cyclic := [], stack := [] } :=
    ⟨by simp [colorOf], List.nodup_nil, List.isChain_nil, by simp, by simp [colorOf], by simp [colorOf]⟩
  obtain ⟨after, run, final, _, done⟩ := searchLoop_spec (allNodes adjacency) (List.Subset.refl _) fresh rfl
    (List.length_filter_le _ _)
  exact ⟨after, run, final, done⟩

end Spec

/-- `detectCyclicNodes` of the source.  The search never runs out of fuel. -/
def detectCyclicNodes (adjacency : InsertionMap α (List α)) : List α :=
  ((searchAll adjacency).get (by
    obtain ⟨after, run, _⟩ := searchAll_spec adjacency
    rw [run]
    rfl)).cyclic

section Result

variable {adjacency : InsertionMap α (List α)}

theorem detectCyclicNodes_spec (adjacency : InsertionMap α (List α)) :
    ∃ after, detectCyclicNodes adjacency = after.cyclic ∧ Consistent adjacency after ∧
      ∀ node ∈ allNodes adjacency, colorOf after.color node = .black := by
  obtain ⟨after, run, consistent, done⟩ := searchAll_spec adjacency
  exact ⟨after, by simp only [detectCyclicNodes, run, Option.get_some], consistent, done⟩

/-- Every collected node lies on a cycle all of whose nodes were collected. -/
theorem detectCyclicNodes_onCycle {node : α} (member : node ∈ detectCyclicNodes adjacency) :
    TransGen (EdgeWithin adjacency (detectCyclicNodes adjacency)) node node := by
  obtain ⟨after, same, consistent, _⟩ := detectCyclicNodes_spec adjacency
  rw [same] at member ⊢
  exact consistent.onCycle node member

/-- Collecting nothing means that there is no cycle. -/
theorem detectCyclicNodes_complete (empty : detectCyclicNodes adjacency = []) : Acyclic (Edge adjacency) := by
  obtain ⟨after, same, consistent, done⟩ := detectCyclicNodes_spec adjacency
  intro node cycle
  obtain ⟨next, edge, _⟩ := TransGen.head'_iff.mp cycle
  exact consistent.blackAcyclic (same ▸ empty) node (done node edge.source_mem) cycle

theorem detectCyclicNodes_cycle {node : α} (member : node ∈ detectCyclicNodes adjacency) :
    TransGen (Edge adjacency) node node :=
  TransGen.mono (fun _ _ step => step.1) node node (detectCyclicNodes_onCycle member)

/-- The search ends within its rounds, and it collects something exactly when
the graph has a cycle.  Only the edges count, not the order they were entered in. -/
theorem cyclicNodes_exact (adjacency : InsertionMap α (List α)) :
    (∃ after, searchAll adjacency = some after ∧ detectCyclicNodes adjacency = after.cyclic) ∧
      (detectCyclicNodes adjacency ≠ [] ↔ ∃ node, TransGen (Edge adjacency) node node) ∧
      (∀ node ∈ detectCyclicNodes adjacency, TransGen (Edge adjacency) node node) ∧
      ∀ reordered : InsertionMap α (List α), Edge reordered = Edge adjacency →
        (detectCyclicNodes reordered ≠ [] ↔ detectCyclicNodes adjacency ≠ []) := by
  have detects : ∀ adjacency : InsertionMap α (List α),
      detectCyclicNodes adjacency ≠ [] ↔ ∃ node, TransGen (Edge adjacency) node node := by
    intro adjacency
    constructor
    · intro collected
      obtain ⟨node, member⟩ := List.exists_mem_of_ne_nil _ collected
      exact ⟨node, detectCyclicNodes_cycle member⟩
    · intro cyclic empty
      obtain ⟨node, cycle⟩ := cyclic
      exact detectCyclicNodes_complete empty node cycle
  refine ⟨?_, detects adjacency, fun node => detectCyclicNodes_cycle, ?_⟩
  · obtain ⟨after, run, _⟩ := searchAll_spec adjacency
    exact ⟨after, run, by simp only [detectCyclicNodes, run, Option.get_some]⟩
  · intro reordered sameEdges
    rw [detects, detects, sameEdges]

end Result

end Coverpin.Validation.Graph
