/-
# Solving dataflow equations

The state of the solver is followed from round to round. A node that is not queued
satisfies its equations, so that all of them hold once the queue is empty. Whether
that ever happens depends on the results: over facts that cannot rise for ever, the
solver settles exactly when the results stop falling, and results never fall when
the equations are monotone.
-/

import Mathlib.Data.DFinsupp.WellFounded
import Mathlib.Order.OrderIsoNat
import TacAnalysis.Dataflow.Equations

namespace TacAnalysis

namespace Equations

variable {Node Fact : Type} [DecidableEq Node] [DecidableEq Fact]
variable (equations : Equations Node Fact)

/-- The state after a number of rounds, each recomputing one node. Nothing happens
any more once the queue is empty. -/
def after : (rounds : Nat) → Progress Node Fact
  | 0 => equations.start
  | rounds + 1 => (equations.step? (after rounds)).getD (after rounds)

variable {equations}

section Rounds

variable {rounds : Nat} {node : Node} {queue : List Node}

theorem after_succ_of_nil (isSettled : (equations.after rounds).queue = []) :
    equations.after (rounds + 1) = equations.after rounds := by
  simp [after, step?, isSettled]

theorem after_succ_of_cons (isQueue : (equations.after rounds).queue = node :: queue) :
    equations.after (rounds + 1) =
      equations.visit { equations.after rounds with queue } node := by
  simp [after, step?, isQueue]

/-- The solver stays where it has settled. -/
theorem after_of_settled (isSettled : (equations.after rounds).queue = []) {later : Nat}
    (isLater : rounds ≤ later) : equations.after later = equations.after rounds := by
  induction later, isLater using Nat.le_induction with
  | base => rfl
  | succ later _ ih => rw [after_succ_of_nil (by rw [ih, isSettled]), ih]

/-- A run of the solver answers when its queue is empty after the steps it may take. -/
theorem run_after (steps : Nat) : equations.run steps (equations.after rounds) =
    if (equations.after (rounds + steps)).queue = [] then .ok (equations.after (rounds + steps))
    else .error .unsettled := by
  induction steps generalizing rounds with
  | zero => simp [run]
  | succ steps ih =>
      cases isQueue : (equations.after rounds).queue with
      | nil =>
          have stays := after_of_settled isQueue (Nat.le_add_right rounds (steps + 1))
          simp [run, step?, isQueue, stays]
      | cons node queue =>
          have next : equations.run steps (equations.after (rounds + 1)) = _ := ih
          rw [after_succ_of_cons isQueue] at next
          rw [Nat.add_right_comm, Nat.add_assoc] at next
          simpa [run, step?, isQueue] using next

theorem solve_eq (steps : Nat) : equations.solve steps =
    if (equations.after steps).queue = [] then .ok (equations.after steps)
    else .error .unsettled := by
  have isRun : equations.run steps (equations.after 0) = _ := run_after steps
  rw [Nat.zero_add] at isRun
  exact isRun

/-- A state that comes back before the solver settles comes back for ever. -/
theorem queue_ne_nil_of_recurs {period : Nat} (recurs : equations.after (rounds + period) =
    equations.after rounds) (isPositive : 0 < period)
    (isQueued : (equations.after rounds).queue ≠ []) (later : Nat) :
    (equations.after later).queue ≠ [] := by
  have shifts (count : Nat) : equations.after (rounds + period + count) =
      equations.after (rounds + count) := by
    induction count with
    | zero => exact recurs
    | succ count ih => exact congrArg (fun state => (equations.step? state).getD state) ih
  have comesBack (times : Nat) : equations.after (rounds + period * times) =
      equations.after rounds := by
    induction times with
    | zero => rfl
    | succ times ih =>
        rw [Nat.mul_succ, Nat.add_comm (period * times), ← Nat.add_assoc, shifts, ih]
  intro isSettled
  have isLater : later ≤ rounds + period * later :=
    Nat.le_add_left_of_le (Nat.le_mul_of_pos_left later isPositive)
  rw [← comesBack later, after_of_settled isSettled isLater] at isQueued
  exact isQueued isSettled

end Rounds

section Queue

omit [DecidableEq Fact]

variable {node : Node} {queue nodes : List Node}

theorem mem_enqueue : node ∈ enqueue queue nodes ↔ node ∈ queue ∨ node ∈ nodes := by
  induction nodes generalizing queue with
  | nil => simp [enqueue]
  | cons first nodes ih =>
      rw [enqueue, List.foldl_cons, ← enqueue, ih]
      by_cases isQueued : first ∈ queue
      · rw [if_pos (List.contains_iff_mem.mpr isQueued), List.mem_cons]
        constructor
        · rintro (isIn | isIn)
          · exact .inl isIn
          · exact .inr (.inr isIn)
        · rintro (isIn | rfl | isIn)
          · exact .inl isIn
          · exact .inl isQueued
          · exact .inr isIn
      · rw [if_neg (fun isIn => isQueued (List.contains_iff_mem.mp isIn)), List.mem_append,
          List.mem_singleton, List.mem_cons, or_assoc]

end Queue

variable (equations)

/-- Whatever the solver does, it goes from good facts to good facts. -/
structure Keeps (good : Fact → Prop) : Prop where
  initial : good equations.initial
  seed : ∀ node, good (equations.seed node)
  inflow : ∀ node, ∀ flow ∈ equations.inflow node, ∀ fact, good fact → good (flow.2 fact)
  meet : ∀ first second, good first → good second → good (equations.meet first second)
  transfer : ∀ node fact, good fact → good (equations.transfer node fact)

/-- The equations of a node: its joined fact is met from the results it depends on,
and its result comes from its joined fact. -/
def Holds (progress : Progress Node Fact) (node : Node) : Prop :=
  progress.joined.get node = equations.join progress.result.get node ∧
    progress.result.get node = equations.transfer node (progress.joined.get node)

/-- Every node is queued again when a result it depends on changes. -/
def Propagates : Prop :=
  ∀ node, ∀ flow ∈ equations.inflow node, node ∈ equations.dependents flow.1

/-- A list has every node that may ever be queued. -/
structure Spans (nodes : List Node) : Prop where
  start : ∀ node ∈ equations.nodes, node ∈ nodes
  dependents : ∀ node ∈ nodes, ∀ other ∈ equations.dependents node, other ∈ nodes

/-- A round lets the result of some node fall: the new result is not above the old one. -/
def Falls [LE Fact] (rounds : Nat) : Prop :=
  ∃ node, ¬ (equations.after rounds).result.get node ≤
    (equations.after (rounds + 1)).result.get node

/-- Equations that give greater results from greater ones, starting from the least fact. -/
structure IsMonotone [LE Fact] (good : Fact → Prop) : Prop where
  initial : ∀ fact, good fact → equations.initial ≤ fact
  inflow : ∀ node, ∀ flow ∈ equations.inflow node, ∀ first second, good first → good second →
    first ≤ second → flow.2 first ≤ flow.2 second
  meet : ∀ first second third fourth, good first → good second → good third → good fourth →
    first ≤ third → second ≤ fourth → equations.meet first second ≤ equations.meet third fourth
  transfer : ∀ node first second, good first → good second → first ≤ second →
    equations.transfer node first ≤ equations.transfer node second

variable {equations}

section Joins

omit [DecidableEq Node] [DecidableEq Fact]

variable {good : Fact → Prop} {result : Node → Fact} {node : Node}

/-- What a meet keeps, and the seed of a node and everything that flows into it have, is
true of the joined fact. -/
theorem join_induction {motive : Fact → Prop} (seed : motive (equations.seed node))
    (meet : ∀ first second, motive first → motive second → motive (equations.meet first second))
    (inflow : ∀ flow ∈ equations.inflow node, motive (flow.2 (result flow.1))) :
    motive (equations.join result node) := by
  rw [Equations.join]
  refine List.foldlRecOn (motive := motive) _ _ seed ?_
  intro fact isMet flow isFlow
  exact meet _ _ (inflow flow isFlow) isMet

theorem Keeps.join (keeps : equations.Keeps good)
    (areGood : ∀ flow ∈ equations.inflow node, good (result flow.1)) :
    good (equations.join result node) := by
  apply join_induction (keeps.seed node) keeps.meet
  intro flow isFlow
  exact keeps.inflow node flow isFlow _ (areGood flow isFlow)

/-- The joined fact of a node is above its seed and everything that flows into it, when a meet
is above the facts that it meets. -/
theorem Keeps.le_join [Preorder Fact] (keeps : equations.Keeps good)
    (meetIsAbove : ∀ first second, good first → good second →
      first ≤ equations.meet first second ∧ second ≤ equations.meet first second)
    (areGood : ∀ node, good (result node)) (node : Node) :
    equations.seed node ≤ equations.join result node ∧
      ∀ flow ∈ equations.inflow node, flow.2 (result flow.1) ≤ equations.join result node := by
  have rises (flows : List (Node × (Fact → Fact)))
      (areFlows : ∀ flow ∈ flows, flow ∈ equations.inflow node) (start : Fact)
      (isGood : good start) :
      start ≤ flows.foldl (fun fact flow => equations.meet (flow.2 (result flow.1)) fact) start ∧
        ∀ flow ∈ flows, flow.2 (result flow.1) ≤
          flows.foldl (fun fact flow => equations.meet (flow.2 (result flow.1)) fact) start := by
    induction flows generalizing start with
    | nil => exact ⟨le_rfl, nofun⟩
    | cons first flows ih =>
        have flowIsGood :=
          keeps.inflow node first (areFlows first List.mem_cons_self) _ (areGood first.1)
        obtain ⟨firstIsBelow, startIsBelow⟩ := meetIsAbove _ _ flowIsGood isGood
        obtain ⟨metIsBelow, othersAreBelow⟩ :=
          ih (fun flow isIn => areFlows flow (List.mem_cons_of_mem _ isIn)) _
            (keeps.meet _ _ flowIsGood isGood)
        refine ⟨startIsBelow.trans metIsBelow, fun flow isIn => ?_⟩
        rcases List.mem_cons.mp isIn with rfl | isLater
        · exact firstIsBelow.trans metIsBelow
        · exact othersAreBelow flow isLater
  exact rises _ (fun _ isIn => isIn) _ (keeps.seed node)

/-- The joined fact of a node depends on nothing but the results flowing into it. -/
theorem join_congr {other : Node → Fact}
    (agree : ∀ flow ∈ equations.inflow node, result flow.1 = other flow.1) :
    equations.join result node = equations.join other node := by
  apply List.foldl_ext
  intro fact flow isFlow
  rw [agree flow isFlow]

theorem IsMonotone.join [Preorder Fact] (monotone : equations.IsMonotone good)
    (keeps : equations.Keeps good) {other : Node → Fact}
    (areGood : ∀ flow ∈ equations.inflow node, good (result flow.1))
    (othersAreGood : ∀ flow ∈ equations.inflow node, good (other flow.1))
    (below : ∀ flow ∈ equations.inflow node, result flow.1 ≤ other flow.1) :
    equations.join result node ≤ equations.join other node := by
  have isBelow (flows : List (Node × (Fact → Fact)))
      (areFlows : ∀ flow ∈ flows, flow ∈ equations.inflow node) (first second : Fact)
      (firstIsGood : good first) (secondIsGood : good second) (isBelow : first ≤ second) :
      flows.foldl (fun fact flow => equations.meet (flow.2 (result flow.1)) fact) first ≤
        flows.foldl (fun fact flow => equations.meet (flow.2 (other flow.1)) fact) second := by
    induction flows generalizing first second with
    | nil => exact isBelow
    | cons flow flows ih =>
        have isFlow := areFlows flow List.mem_cons_self
        have isGood := keeps.inflow node flow isFlow _ (areGood flow isFlow)
        have otherIsGood := keeps.inflow node flow isFlow _ (othersAreGood flow isFlow)
        have rises := monotone.inflow node flow isFlow _ _ (areGood flow isFlow)
          (othersAreGood flow isFlow) (below flow isFlow)
        exact ih (fun flow isIn => areFlows flow (List.mem_cons_of_mem _ isIn)) _ _
          (keeps.meet _ _ isGood firstIsGood) (keeps.meet _ _ otherIsGood secondIsGood)
          (monotone.meet _ _ _ _ isGood firstIsGood otherIsGood secondIsGood rises isBelow)
  have isSeed := keeps.seed node
  exact isBelow _ (fun _ isFlow => isFlow) _ _ isSeed isSeed le_rfl

end Joins

section Visits

variable {rounds : Nat} {node other : Node} {queue : List Node}

/-- The result that the next round gives to a node. -/
theorem result_after_succ (isQueue : (equations.after rounds).queue = node :: queue) :
    (equations.after (rounds + 1)).result.get other =
      if other = node then
        equations.transfer node (equations.join (equations.after rounds).result.get node)
      else (equations.after rounds).result.get other := by
  rw [after_succ_of_cons isQueue]
  simp [visit, Table.get_set]

theorem joined_after_succ (isQueue : (equations.after rounds).queue = node :: queue) :
    (equations.after (rounds + 1)).joined.get other =
      if other = node then equations.join (equations.after rounds).result.get node
      else (equations.after rounds).joined.get other := by
  rw [after_succ_of_cons isQueue]
  simp [visit, Table.get_set]

theorem queue_after_succ (isQueue : (equations.after rounds).queue = node :: queue) :
    (equations.after (rounds + 1)).queue =
      if (equations.after (rounds + 1)).result.get node = (equations.after rounds).result.get node
      then queue else enqueue queue (equations.dependents node) := by
  rw [result_after_succ isQueue, if_pos rfl, after_succ_of_cons isQueue]
  rfl

/-- A round that changes no result takes its node off the queue, and nothing else. -/
theorem queue_after_succ_of_result_eq (isSame : ∀ node ∈ (equations.after rounds).queue,
      (equations.after (rounds + 1)).result.get node = (equations.after rounds).result.get node) :
    (equations.after (rounds + 1)).queue = (equations.after rounds).queue.tail := by
  cases isQueue : (equations.after rounds).queue with
  | nil => rw [after_succ_of_nil isQueue, isQueue, List.tail_nil]
  | cons node queue =>
      have isQueued : node ∈ (equations.after rounds).queue := by simp [isQueue]
      rw [queue_after_succ isQueue, if_pos (isSame node isQueued), List.tail_cons]

/-- No node is queued but those of a list that spans the equations. -/
theorem Spans.queued {nodes : List Node} (spans : equations.Spans nodes) (rounds : Nat) :
    ∀ node ∈ (equations.after rounds).queue, node ∈ nodes := by
  induction rounds with
  | zero => exact spans.start
  | succ rounds ih =>
      intro other isQueued
      cases isQueue : (equations.after rounds).queue with
      | nil =>
          rw [after_succ_of_nil isQueue, isQueue] at isQueued
          cases isQueued
      | cons node queue =>
          have areIn : ∀ other ∈ node :: queue, other ∈ nodes := isQueue ▸ ih
          rw [queue_after_succ isQueue] at isQueued
          split at isQueued
          · exact areIn other (List.mem_cons_of_mem _ isQueued)
          · rcases mem_enqueue.mp isQueued with isOld | isDependent
            · exact areIn other (List.mem_cons_of_mem _ isOld)
            · exact spans.dependents node (areIn node List.mem_cons_self) other isDependent

/-- What the initial fact has, and a visit gives to a result when all results have it, all
results have at any time. -/
theorem result_induction {motive : Node → Fact → Prop}
    (initial : ∀ node, motive node equations.initial)
    (visit : ∀ rounds, (∀ node, motive node ((equations.after rounds).result.get node)) →
      ∀ node, motive node
        (equations.transfer node (equations.join (equations.after rounds).result.get node)))
    (rounds : Nat) (node : Node) : motive node ((equations.after rounds).result.get node) := by
  induction rounds generalizing node with
  | zero => exact initial node
  | succ rounds ih =>
      cases isQueue : (equations.after rounds).queue with
      | nil =>
          rw [after_succ_of_nil isQueue]
          exact ih node
      | cons first queue =>
          rw [result_after_succ isQueue]
          split
          case isTrue isFirst => exact isFirst ▸ visit rounds ih first
          case isFalse => exact ih node

/-- Every result is a good fact at any time. -/
theorem Keeps.result {good : Fact → Prop} (keeps : equations.Keeps good) (rounds : Nat)
    (node : Node) : good ((equations.after rounds).result.get node) := by
  apply result_induction (motive := fun _ => good) (fun _ => keeps.initial)
  intro rounds areGood node
  exact keeps.transfer node _ (keeps.join fun flow _ => areGood flow.1)

/-- A node that is not queued after a round was not queued before it, unless the round
recomputes it. -/
theorem not_queued_of_not_queued_succ (isQueue : (equations.after rounds).queue = node :: queue)
    (isOther : other ≠ node) (isDone : other ∉ (equations.after (rounds + 1)).queue) :
    other ∉ (equations.after rounds).queue := by
  rw [isQueue]
  rw [queue_after_succ isQueue] at isDone
  intro isQueued
  rcases List.mem_cons.mp isQueued with isFirst | isLater
  · exact isOther isFirst
  · split at isDone
    · exact isDone isLater
    · exact isDone (mem_enqueue.mpr (.inl isLater))

/-- The nodes that are not queued satisfy their equations. -/
theorem holds_of_not_queued (propagates : equations.Propagates) (rounds : Nat) :
    ∀ node ∈ equations.nodes, node ∉ (equations.after rounds).queue →
      equations.Holds (equations.after rounds) node := by
  induction rounds with
  | zero =>
      intro node isNode isDone
      exact absurd isNode isDone
  | succ rounds ih =>
      intro other isNode isDone
      cases isQueue : (equations.after rounds).queue with
      | nil =>
          rw [after_succ_of_nil isQueue] at isDone ⊢
          exact ih other isNode isDone
      | cons node queue =>
          -- What is joined at a node that stays out of the queue has not changed.
          have sameJoin : equations.join (equations.after (rounds + 1)).result.get other =
              equations.join (equations.after rounds).result.get other := by
            apply join_congr
            intro flow isFlow
            by_cases isVisited : flow.1 = node
            · by_cases isSame : (equations.after (rounds + 1)).result.get node =
                  (equations.after rounds).result.get node
              · rw [isVisited, isSame]
              · rw [queue_after_succ isQueue, if_neg isSame] at isDone
                have isDependent := propagates other flow isFlow
                rw [isVisited] at isDependent
                exact absurd (mem_enqueue.mpr (.inr isDependent)) isDone
            · rw [result_after_succ isQueue, if_neg isVisited]
          by_cases isVisited : other = node
          · subst isVisited
            rw [Holds, sameJoin, joined_after_succ isQueue, if_pos rfl, result_after_succ isQueue,
              if_pos rfl]
            exact ⟨rfl, rfl⟩
          · rw [Holds, sameJoin, joined_after_succ isQueue, if_neg isVisited,
              result_after_succ isQueue, if_neg isVisited]
            exact ih other isNode (not_queued_of_not_queued_succ isQueue isVisited isDone)

/-- The nodes that are not queued have both their facts recorded. -/
theorem recorded_of_not_queued (rounds : Nat) :
    ∀ node ∈ equations.nodes, node ∉ (equations.after rounds).queue →
      ((equations.after rounds).joined.get? node).isSome ∧
        ((equations.after rounds).result.get? node).isSome := by
  induction rounds with
  | zero =>
      intro node isNode isDone
      exact absurd isNode isDone
  | succ rounds ih =>
      intro other isNode isDone
      cases isQueue : (equations.after rounds).queue with
      | nil =>
          rw [after_succ_of_nil isQueue] at isDone ⊢
          exact ih other isNode isDone
      | cons node queue =>
          have wasRecorded (isOther : other ≠ node) :=
            ih other isNode (not_queued_of_not_queued_succ isQueue isOther isDone)
          rw [after_succ_of_cons isQueue]
          simp only [visit, Table.get?_set, beq_iff_eq]
          split
          case isTrue => exact ⟨rfl, rfl⟩
          case isFalse isOther => exact wasRecorded isOther

end Visits

section Settling

variable [Preorder Fact] {good : Fact → Prop} {nodes : List Node}

/-- A round raises the results when each is below what its equations make of them. -/
theorem result_le_result_succ {rounds : Nat} (isBelow : ∀ node,
      (equations.after rounds).result.get node ≤
        equations.transfer node (equations.join (equations.after rounds).result.get node))
    (node : Node) : (equations.after rounds).result.get node ≤
      (equations.after (rounds + 1)).result.get node := by
  cases isQueue : (equations.after rounds).queue with
  | nil => rw [after_succ_of_nil isQueue]
  | cons first queue =>
      rw [result_after_succ isQueue]
      split
      case isTrue isFirst => exact isFirst ▸ isBelow node
      case isFalse => exact le_rfl

/-- The results of monotone equations are below what the equations make of them. -/
theorem IsMonotone.result_le_transfer (monotone : equations.IsMonotone good)
    (keeps : equations.Keeps good) (rounds : Nat) (node : Node) :
    (equations.after rounds).result.get node ≤
      equations.transfer node (equations.join (equations.after rounds).result.get node) := by
  induction rounds generalizing node with
  | zero =>
      exact monotone.initial _ (keeps.transfer _ _ (keeps.join fun flow _ => keeps.result 0 flow.1))
  | succ rounds ih =>
      have rises : equations.transfer node
            (equations.join (equations.after rounds).result.get node) ≤
          equations.transfer node
            (equations.join (equations.after (rounds + 1)).result.get node) := by
        apply monotone.transfer node _ _ (keeps.join fun flow _ => keeps.result rounds flow.1)
          (keeps.join fun flow _ => keeps.result (rounds + 1) flow.1)
        exact monotone.join keeps (fun flow _ => keeps.result rounds flow.1)
          (fun flow _ => keeps.result (rounds + 1) flow.1)
          fun flow _ => result_le_result_succ ih flow.1
      cases isQueue : (equations.after rounds).queue with
      | nil =>
          rw [after_succ_of_nil isQueue]
          exact ih node
      | cons first queue =>
          rw [result_after_succ isQueue]
          split
          case isTrue isFirst => exact isFirst ▸ rises
          case isFalse => exact (ih node).trans rises

/-- The results of monotone equations never fall. -/
theorem IsMonotone.not_falls (monotone : equations.IsMonotone good) (keeps : equations.Keeps good)
    (rounds : Nat) : ¬ equations.Falls rounds := by
  rintro ⟨node, falls⟩
  exact falls (result_le_result_succ (monotone.result_le_transfer keeps rounds) node)

omit [DecidableEq Fact] in
/-- A sequence of finitely many good facts that never fall ends up staying the same. -/
theorem eventually_same [chains : WellFoundedGT { fact // good fact }] (nodes : List Node)
    (antisymmetric : ∀ first second, good first → good second → first ≤ second →
      second ≤ first → first = second)
    (facts : Nat → Node → Fact) (areGood : ∀ count node, good (facts count node))
    (rise : ∀ count node, facts count node ≤ facts (count + 1) node) :
    ∃ last, ∀ count, last ≤ count → ∀ node ∈ nodes, facts count node = facts last node := by
  let sequence (count : Nat) (node : { node // node ∈ nodes }) : { fact // good fact } :=
    ⟨facts count node, areGood count node⟩
  have increases : Monotone sequence := monotone_nat_of_le_succ fun count node => rise count node
  have duals : WellFoundedLT { fact // good fact }ᵒᵈ := ⟨chains.wf⟩
  have pointwise : WellFoundedLT ({ node // node ∈ nodes } → { fact // good fact }ᵒᵈ) :=
    Pi.wellFoundedLT
  have noChain : WellFoundedGT ({ node // node ∈ nodes } → { fact // good fact }) :=
    ⟨pointwise.wf⟩
  obtain ⟨last, isLast⟩ := noChain.monotone_chain_condition' ⟨sequence, increases⟩
  refine ⟨last, fun count isLater node isNode => ?_⟩
  have above : sequence last ≤ sequence count := increases isLater
  have below : sequence count ≤ sequence last := by
    by_contra rises
    exact isLast count isLater (lt_of_le_not_ge above rises)
  exact antisymmetric _ _ (areGood _ _) (areGood _ _) (below ⟨node, isNode⟩) (above ⟨node, isNode⟩)

/-- Over facts that cannot rise for ever, the solver settles exactly when the results
stop falling. -/
theorem settles_iff [WellFoundedGT { fact // good fact }] (keeps : equations.Keeps good)
    (spans : equations.Spans nodes)
    (antisymmetric : ∀ first second, good first → good second → first ≤ second →
      second ≤ first → first = second) :
    (∃ rounds, (equations.after rounds).queue = []) ↔
      ∃ bound, ∀ rounds, bound ≤ rounds → ¬ equations.Falls rounds := by
  constructor
  · rintro ⟨bound, isSettled⟩
    refine ⟨bound, fun rounds isLater falls => ?_⟩
    obtain ⟨node, isFalling⟩ := falls
    rw [after_of_settled isSettled isLater,
      after_of_settled isSettled (isLater.trans (Nat.le_succ rounds))] at isFalling
    exact isFalling le_rfl
  · rintro ⟨bound, rises⟩
    have rise (count : Nat) (node : Node) : (equations.after (bound + count)).result.get node ≤
        (equations.after (bound + count + 1)).result.get node := by
      by_contra falls
      exact rises (bound + count) (Nat.le_add_right bound count) ⟨node, falls⟩
    obtain ⟨last, isLast⟩ := eventually_same nodes antisymmetric
      (fun count => (equations.after (bound + count)).result.get)
      (fun count => keeps.result (bound + count)) rise
    -- From then on every round takes a node off the queue.
    have shrinks (count : Nat) : (equations.after (bound + last + count)).queue =
        (equations.after (bound + last)).queue.drop count := by
      induction count with
      | zero => rfl
      | succ count ih =>
          rw [← Nat.add_assoc, queue_after_succ_of_result_eq, ih, List.tail_drop]
          intro node isQueued
          have isNode := spans.queued _ node isQueued
          have first := isLast (last + count) (Nat.le_add_right last count) node isNode
          have second := isLast (last + count + 1) (by omega) node isNode
          simp only [← Nat.add_assoc] at first second
          rw [first, second]
    refine ⟨bound + last + (equations.after (bound + last)).queue.length, ?_⟩
    rw [shrinks, List.drop_length]

end Settling

end Equations

end TacAnalysis
