import Coverpin.Data.FirstPath
import Coverpin.Validation.CycleDetection

namespace Coverpin.Validation.Graph

open Coverpin.Data Relation

/-! # The paths of the search

The search visits every node at the end of the first path to it, in the order of
the map and of the child lists.  What it collects depends on these paths alone.
-/

variable {α : Type u} [DecidableEq α] {adjacency : InsertionMap α (List α)} {state before after : DfsState α}
  {node next target : α}

/-- What the path of the search and the colors say about first paths. -/
structure Traced (adjacency : InsertionMap α (List α)) (state : DfsState α) : Prop where
  blackEdges : ∀ node child, colorOf state.color node = .black → Edge adjacency node child →
    colorOf state.color child ≠ .white
  follows : ∀ front node rest, state.stack = front ++ node :: rest →
    node ∈ choices (allNodes adjacency) (childrenOf adjacency) front
  -- Neither a white node nor the rest of the path is reached by an earlier choice.
  first : ∀ front node rest, state.stack = front ++ node :: rest →
    ∀ earlier ∈ (choices (allNodes adjacency) (childrenOf adjacency) front).takeWhile (· ≠ node),
      ∀ target, colorOf state.color target = .white ∨ target ∈ node :: rest →
        ∀ other, ¬ PathTo (allNodes adjacency) (childrenOf adjacency) target (front ++ earlier :: other)
  sound : ∀ node ∈ state.cyclic, Closed (allNodes adjacency) (childrenOf adjacency) node
  complete : ∀ last, colorOf state.color last = .black → ∀ front back rest,
    FirstPath (allNodes adjacency) (childrenOf adjacency) last (front ++ back :: rest) →
      back ∈ childrenOf adjacency last → back :: rest ⊆ state.cyclic

/-- A child that the loop over the children is done with. -/
def Handled (state : DfsState α) (child : α) : Prop :=
  colorOf state.color child ≠ .white ∧
    (child ∈ state.stack → state.stack.drop (state.stack.idxOf child) ⊆ state.cyclic)

theorem Handled.extend (handled : Handled before next) (extension : Extends before after) : Handled after next := by
  refine ⟨fun white => handled.1 (extension.white next white), fun member => ?_⟩
  rw [extension.stack] at member ⊢
  exact List.Subset.trans (handled.2 member) extension.cyclic

omit [DecidableEq α] in
theorem concat_eq_append {items front rest : List α} {last : α} (same : items ++ [last] = front ++ node :: rest) :
    (front = items ∧ node = last ∧ rest = []) ∨ ∃ shorter, rest = shorter ++ [last] ∧ items = front ++ node :: shorter := by
  rcases List.eq_nil_or_concat' rest with rfl | ⟨shorter, final, rfl⟩
  · obtain ⟨rfl, single⟩ := List.append_inj' same rfl
    exact .inl ⟨rfl, (List.cons.inj single).1.symm, rfl⟩
  · rw [← List.cons_append, ← List.append_assoc] at same
    obtain ⟨rfl, single⟩ := List.append_inj' same rfl
    exact .inr ⟨shorter, by rw [(List.cons.inj single).1], rfl⟩

theorem mem_of_mem_takeWhile {done later : List α} {child : α}
    (earlier : next ∈ (done ++ child :: later).takeWhile (· ≠ child)) : next ∈ done := by
  induction done with
  | nil => simp at earlier
  | cons first done induction =>
      rw [List.cons_append, List.takeWhile_cons] at earlier
      split at earlier
      · rcases List.mem_cons.mp earlier with rfl | inside
        · exact List.mem_cons_self
        · exact List.mem_cons_of_mem _ (induction inside)
      · cases earlier

theorem drop_idxOf {front rest : List α} (nodup : (front ++ node :: rest).Nodup) :
    (front ++ node :: rest).drop ((front ++ node :: rest).idxOf node) = node :: rest := by
  have fresh : node ∉ front := fun member =>
    (List.nodup_append.mp nodup).2.2 node member node List.mem_cons_self rfl
  rw [List.idxOf_append_of_notMem fresh, List.idxOf_cons_self, Nat.add_zero, List.drop_left]

/-- The path of the search is the first one to its last node. -/
theorem Traced.firstPath (traced : Traced adjacency state) (consistent : Consistent adjacency state) {front : List α}
    (top : state.stack = front ++ [node]) :
    FirstPath (allNodes adjacency) (childrenOf adjacency) node state.stack where
  nodup := consistent.nodup
  follows := traced.follows
  ends := by simp [top]
  first front' other rest same earlier member := by
    refine traced.first front' other rest same earlier member node (.inr ?_)
    have ends : (front' ++ other :: rest).getLast? = some node := by rw [← same, top, List.getLast?_concat]
    rw [List.getLast?_append_of_ne_nil _ (List.cons_ne_nil other rest)] at ends
    exact List.mem_of_getLast? ends

/-- A path that leaves the path of the search for a black node stays black. -/
theorem Traced.black_stays (traced : Traced adjacency state) (consistent : Consistent adjacency state) {earlier : α}
    {other : List α} (reaches : PathTo (allNodes adjacency) (childrenOf adjacency) target (state.stack ++ earlier :: other))
    (black : colorOf state.color earlier = .black) : colorOf state.color target = .black := by
  have stays : ∀ done node rest, earlier :: other = done ++ node :: rest → colorOf state.color node = .black := by
    intro done
    induction done using List.reverseRecOn with
    | nil =>
        intro node rest same
        exact (List.cons.inj same).1 ▸ black
    | append_singleton done previous induction =>
        intro node rest same
        rw [List.append_assoc] at same
        have edge : Edge adjacency previous node := by
          have follows := reaches.follows (state.stack ++ done ++ [previous]) node rest (by simp [same])
          rwa [choices_concat] at follows
        have colored := traced.blackEdges previous node (induction previous (node :: rest) same) edge
        cases color : colorOf state.color node with
        | white => exact absurd color colored
        | black => rfl
        | gray =>
            have member := (consistent.gray_iff node).mp color
            exact absurd rfl ((List.nodup_append.mp reaches.nodup).2.2 node member node (by simp [same]))
  have last : target ∈ earlier :: other := by
    have ends := reaches.ends
    rw [List.getLast?_append_of_ne_nil _ (List.cons_ne_nil earlier other)] at ends
    exact List.mem_of_getLast? ends
  obtain ⟨done, rest, same⟩ := List.append_of_mem last
  exact stays done target rest same

theorem Traced.enter (traced : Traced adjacency state) (consistent : Consistent adjacency state)
    (white : colorOf state.color node = .white)
    (chosen : node ∈ choices (allNodes adjacency) (childrenOf adjacency) state.stack)
    (tried : ∀ earlier ∈ (choices (allNodes adjacency) (childrenOf adjacency) state.stack).takeWhile (· ≠ node),
      colorOf state.color earlier ≠ .white) :
    Traced adjacency { state with color := state.color.set node .gray, stack := state.stack ++ [node] } := by
  have black : ∀ other, colorOf (state.color.set node .gray) other = .black → colorOf state.color other = .black := by
    intro other isBlack
    rw [colorOf_set] at isBlack
    split at isBlack
    · cases isBlack
    · exact isBlack
  have wasWhite : ∀ other, colorOf (state.color.set node .gray) other = .white → colorOf state.color other = .white := by
    intro other isWhite
    rw [colorOf_set] at isWhite
    split at isWhite
    · cases isWhite
    · exact isWhite
  refine ⟨?_, ?_, ?_, traced.sound, fun last isBlack => traced.complete last (black last isBlack)⟩
  · intro other child isBlack edge isWhite
    exact traced.blackEdges other child (black other isBlack) edge (wasWhite child isWhite)
  · intro front other rest same
    rcases concat_eq_append same with ⟨rfl, rfl, rfl⟩ | ⟨shorter, rfl, stack⟩
    · exact chosen
    · exact traced.follows front other shorter stack
  · intro front other rest same earlier member target isTarget branch reaches
    rcases concat_eq_append same with ⟨rfl, rfl, rfl⟩ | ⟨shorter, rfl, stack⟩
    · have targetWhite : colorOf state.color target = .white := by
        rcases isTarget with isWhite | inside
        · exact wasWhite target isWhite
        · rw [List.mem_singleton.mp inside]
          exact white
      cases color : colorOf state.color earlier with
      | white => exact tried earlier member color
      | black => cases targetWhite.symm.trans (traced.black_stays consistent reaches color)
      | gray =>
          exact (List.nodup_append.mp reaches.nodup).2.2 earlier ((consistent.gray_iff earlier).mp color) earlier
            List.mem_cons_self rfl
    · refine traced.first front other shorter stack earlier member target ?_ branch reaches
      rcases isTarget with isWhite | inside
      · exact .inl (wasWhite target isWhite)
      · rw [← List.cons_append, List.mem_append, List.mem_singleton] at inside
        rcases inside with inside | rfl
        · exact .inr inside
        · exact .inl white

theorem Traced.collect (traced : Traced adjacency state) (consistent : Consistent adjacency state) {front : List α}
    (top : state.stack = front ++ [node]) (edge : Edge adjacency node next) (gray : colorOf state.color next = .gray) :
    Traced adjacency { state with cyclic := addAll state.cyclic (state.stack.drop (state.stack.idxOf next)) } where
  blackEdges := traced.blackEdges
  follows := traced.follows
  first := traced.first
  sound other member := by
    rcases mem_addAll.mp member with old | new
    · exact traced.sound other old
    · have firstPath := traced.firstPath consistent top
      obtain ⟨early, late, stack⟩ := List.append_of_mem ((consistent.gray_iff next).mp gray)
      have nodup := consistent.nodup
      rw [stack] at firstPath nodup new
      rw [drop_idxOf nodup] at new
      exact ⟨node, early, next, late, firstPath, edge, new⟩
  complete last black front back rest first link other member :=
    mem_addAll.mpr (.inl (traced.complete last black front back rest first link member))

theorem Traced.leave (traced : Traced adjacency state) (consistent : Consistent adjacency state) {front : List α}
    (top : state.stack = front ++ [node]) (handled : ∀ child ∈ childrenOf adjacency node, Handled state child) :
    Traced adjacency { state with stack := state.stack.dropLast, color := state.color.set node .black } := by
  have wasWhite : ∀ other, colorOf (state.color.set node .black) other = .white → colorOf state.color other = .white := by
    intro other isWhite
    rw [colorOf_set] at isWhite
    split at isWhite
    · cases isWhite
    · exact isWhite
  have black : ∀ other, colorOf (state.color.set node .black) other = .black →
      other = node ∨ colorOf state.color other = .black := by
    intro other isBlack
    rw [colorOf_set] at isBlack
    split at isBlack
    · exact .inl ‹_›
    · exact .inr isBlack
  have split : ∀ early other rest, state.stack.dropLast = early ++ other :: rest →
      state.stack = early ++ other :: (rest ++ [node]) := by
    intro early other rest same
    rw [top, List.dropLast_concat] at same
    rw [top, same, List.append_assoc, List.cons_append]
  refine ⟨?_, fun early other rest same => traced.follows early other _ (split early other rest same), ?_, traced.sound, ?_⟩
  · intro other child isBlack edge isWhite
    rcases black other isBlack with rfl | isBlack
    · exact (handled child edge).1 (wasWhite child isWhite)
    · exact traced.blackEdges other child isBlack edge (wasWhite child isWhite)
  · intro early other rest same earlier member target isTarget
    refine traced.first early other _ (split early other rest same) earlier member target ?_
    rcases isTarget with isWhite | inside
    · exact .inl (wasWhite target isWhite)
    · exact .inr (List.mem_append_left [node] inside)
  · intro last isBlack early back rest first link
    rcases black last isBlack with rfl | isBlack
    · have stack := (traced.firstPath consistent top).unique first
      have collected := (handled back link).2 (by simp [stack])
      have nodup := consistent.nodup
      rw [stack] at nodup collected
      rwa [drop_idxOf nodup] at collected
    · exact traced.complete last isBlack early back rest first link

/-- What a call of `visit` preserves, when no earlier choice was left out. -/
def TraceSpec (adjacency : InsertionMap α (List α)) (fuel : Nat) : Prop :=
  ∀ (node : α) (state after : DfsState α), Consistent adjacency state → Traced adjacency state →
    colorOf state.color node = .white → node ∈ allNodes adjacency →
    (∀ last ∈ state.stack.getLast?, Edge adjacency last node) →
    node ∈ choices (allNodes adjacency) (childrenOf adjacency) state.stack →
    (∀ earlier ∈ (choices (allNodes adjacency) (childrenOf adjacency) state.stack).takeWhile (· ≠ node),
      colorOf state.color earlier ≠ .white) →
    whiteCount adjacency state ≤ fuel → visit adjacency fuel node state = some after → Traced adjacency after

theorem visitChild_traced {fuel : Nat} (traces : TraceSpec adjacency fuel) (consistent : Consistent adjacency state)
    (traced : Traced adjacency state) {front done later : List α} (top : state.stack = front ++ [node])
    (children : childrenOf adjacency node = done ++ next :: later) (handled : ∀ child ∈ done, Handled state child)
    (enough : whiteCount adjacency state ≤ fuel) (run : visitChild (visit adjacency fuel) state next = some after) :
    Consistent adjacency after ∧ Extends state after ∧ Traced adjacency after ∧ Handled after next := by
  have edge : Edge adjacency node next := by simp [Edge, children]
  obtain ⟨result, ran, final, extension, _⟩ := visitChild_spec (visit_spec fuel) consistent top edge enough
  cases run.symm.trans ran
  refine ⟨final, extension, ?_⟩
  have choice : choices (allNodes adjacency) (childrenOf adjacency) state.stack = done ++ next :: later := by
    rw [top, choices_concat, children]
  cases color : colorOf state.color next with
  | white =>
      simp only [visitChild, color] at run
      have linked : ∀ last ∈ state.stack.getLast?, Edge adjacency last next := by
        simp only [top, List.getLast?_concat, Option.mem_some_iff]
        intro last same
        exact same ▸ edge
      obtain ⟨result, ran, _, _, black⟩ := visit_spec fuel next state consistent color edge.target_mem linked enough
      cases run.symm.trans ran
      refine ⟨traces next state _ consistent traced color edge.target_mem linked (by simp [choice]) ?_ enough run, ?_⟩
      · intro earlier member
        exact (handled earlier (mem_of_mem_takeWhile (choice ▸ member))).1
      · refine ⟨by simp [black], fun member => ?_⟩
        rw [extension.stack] at member
        cases ((consistent.gray_iff next).mpr member).symm.trans color
  | gray =>
      simp only [visitChild, color] at run
      cases run
      exact ⟨traced.collect consistent top edge color, by simp [color], fun _ other member =>
        mem_addAll.mpr (.inr member)⟩
  | black =>
      simp only [visitChild, color] at run
      cases run
      refine ⟨traced, by simp [color], fun member => ?_⟩
      cases ((consistent.gray_iff next).mpr member).symm.trans color

theorem visitChildren_traced {fuel : Nat} (traces : TraceSpec adjacency fuel) {front : List α} (later : List α)
    {done : List α} (children : childrenOf adjacency node = done ++ later) (consistent : Consistent adjacency state)
    (traced : Traced adjacency state) (top : state.stack = front ++ [node]) (handled : ∀ child ∈ done, Handled state child)
    (enough : whiteCount adjacency state ≤ fuel)
    (run : later.foldlM (visitChild (visit adjacency fuel)) state = some after) :
    Consistent adjacency after ∧ Extends state after ∧ Traced adjacency after ∧
      ∀ child ∈ childrenOf adjacency node, Handled after child := by
  induction later generalizing state done with
  | nil =>
      cases run
      rw [List.append_nil] at children
      exact ⟨consistent, .refl _, traced, children ▸ handled⟩
  | cons child later induction =>
      have moved : childrenOf adjacency node = (done ++ [child]) ++ later := by
        rw [children, List.append_assoc, List.singleton_append]
      rw [List.foldlM_cons] at run
      obtain ⟨middle, first, rest⟩ := Option.bind_eq_some_iff.mp run
      obtain ⟨middleConsistent, extension, middleTraced, childHandled⟩ :=
        visitChild_traced traces consistent traced top children handled enough first
      have handledNow : ∀ other ∈ done ++ [child], Handled middle other := by
        intro other member
        rcases List.mem_append.mp member with old | isChild
        · exact (handled other old).extend extension
        · exact List.mem_singleton.mp isChild ▸ childHandled
      obtain ⟨final, restExtends, finalTraced, all⟩ := induction moved middleConsistent middleTraced
        (extension.stack.trans top) handledNow (Nat.le_trans extension.whiteCount_le enough) rest
      exact ⟨final, extension.trans restExtends, finalTraced, all⟩

theorem visit_traced (fuel : Nat) : TraceSpec adjacency fuel := by
  induction fuel with
  | zero =>
      intro node state after _ _ _ _ _ _ _ _ run
      cases run
  | succ fuel induction =>
      intro node state after consistent traced white member linked chosen tried enough run
      have fewer := whiteCount_enter white member
      obtain ⟨left, loop, finish⟩ := Option.bind_eq_some_iff.mp run
      cases finish
      obtain ⟨leftConsistent, extension, leftTraced, handled⟩ := visitChildren_traced induction
        (childrenOf adjacency node) (List.nil_append _).symm (consistent.enter white linked)
        (traced.enter consistent white chosen tried) rfl (List.forall_mem_nil _) (by omega) loop
      exact leftTraced.leave leftConsistent extension.stack handled

theorem searchLoop_traced (later : List α) {done : List α} (nodes : allNodes adjacency = done ++ later)
    (consistent : Consistent adjacency state) (traced : Traced adjacency state) (idle : state.stack = [])
    (visited : ∀ node ∈ done, colorOf state.color node ≠ .white)
    (run : later.foldlM (fun state node => if colorOf state.color node = .white then
      visit adjacency (allNodes adjacency).length node state else some state) state = some after) :
    Traced adjacency after := by
  induction later generalizing state done with
  | nil =>
      cases run
      exact traced
  | cons node later induction =>
      rw [List.foldlM_cons] at run
      obtain ⟨middle, first, rest⟩ := Option.bind_eq_some_iff.mp run
      have enough : whiteCount adjacency state ≤ (allNodes adjacency).length := List.length_filter_le _ _
      have member : node ∈ allNodes adjacency := by simp [nodes]
      have step : Consistent adjacency middle ∧ Extends state middle ∧ Traced adjacency middle ∧
          colorOf middle.color node ≠ .white := by
        by_cases white : colorOf state.color node = .white
        · rw [if_pos white] at first
          obtain ⟨result, ran, final, extension, black⟩ :=
            visit_spec _ node state consistent white member (by simp [idle]) enough
          cases first.symm.trans ran
          refine ⟨final, extension, visit_traced _ node state _ consistent traced white member (by simp [idle]) ?_ ?_ enough
            first, by simp [black]⟩
          · rwa [idle, choices_nil]
          · intro earlier before
            rw [idle, choices_nil, nodes] at before
            exact visited earlier (mem_of_mem_takeWhile before)
        · rw [if_neg white] at first
          cases first
          exact ⟨consistent, .refl state, traced, white⟩
      obtain ⟨middleConsistent, extension, middleTraced, done'⟩ := step
      have moved : allNodes adjacency = (done ++ [node]) ++ later := by
        rw [nodes, List.append_assoc, List.singleton_append]
      refine induction moved middleConsistent middleTraced (extension.stack.trans idle) (fun other member => ?_) rest
      rcases List.mem_append.mp member with old | isNode
      · exact fun white => visited other old (extension.white other white)
      · exact List.mem_singleton.mp isNode ▸ done'

/-- The collected nodes are those that first paths close. -/
theorem mem_detectCyclicNodes : node ∈ detectCyclicNodes adjacency ↔
    Closed (allNodes adjacency) (childrenOf adjacency) node := by
  obtain ⟨after, run, _, finished⟩ := searchAll_spec adjacency
  have fresh : Consistent adjacency { color := .empty, cyclic := [], stack := [] } :=
    ⟨by simp [colorOf], List.nodup_nil, List.isChain_nil, by simp, by simp [colorOf], by simp [colorOf]⟩
  have untraced : Traced adjacency { color := .empty, cyclic := [], stack := [] } :=
    ⟨by simp [colorOf], by simp, by simp, by simp, by simp [colorOf]⟩
  have traced := searchLoop_traced (allNodes adjacency) (List.nil_append _).symm fresh untraced rfl (List.forall_mem_nil _) run
  have collected : detectCyclicNodes adjacency = after.cyclic := by
    simp only [detectCyclicNodes, run, Option.get_some]
  rw [collected]
  constructor
  · exact traced.sound node
  · intro closed
    obtain ⟨last, front, back, rest, first, link, member⟩ := closed
    have edge : Edge adjacency last back := link
    exact traced.complete last (finished last edge.source_mem) front back rest first link member

end Coverpin.Validation.Graph
