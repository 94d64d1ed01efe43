/-
# Analyses of a method as equations

A forward and a backward analysis differ in the node where they start, in the nodes from
which facts flow into a node, and in the order of the visits. Both are seen here as an
analysis directed by these. The conditions that the solver asks of equations are derived
from conditions on the analysis alone, and the facts of an analysis that answers satisfy
the equations at every node of the graph.
-/

import TacAnalysis.Dataflow.Intraprocedural
import TacAnalysis.Proofs.Dataflow.LeastSolution

namespace TacAnalysis

namespace Digraph

variable {Node Label : Type} [DecidableEq Node] {graph : Digraph Node Label} {root node : Node}

/-- The ends of every arc are nodes. -/
def Closed (graph : Digraph Node Label) : Prop :=
  ∀ arc ∈ graph.arcs, arc.source ∈ graph.nodes ∧ arc.target ∈ graph.nodes

instance : Decidable graph.Closed := inferInstanceAs (Decidable (∀ arc ∈ graph.arcs, _))

theorem Closed.mem_of_mem_successors (closed : graph.Closed) {target : Node}
    (isTarget : target ∈ graph.successors node) : target ∈ graph.nodes := by
  obtain ⟨arc, isArc, -, rfl⟩ := (mem_successors _).mp isTarget
  exact (closed arc isArc).2

theorem Closed.mem_of_mem_predecessors (closed : graph.Closed) {source : Node}
    (isSource : source ∈ graph.predecessors node) : source ∈ graph.nodes := by
  obtain ⟨arc, isArc, -, rfl⟩ := (mem_predecessors _).mp isSource
  exact (closed arc isArc).1

/-- The search from a root and the nodes it does not meet are all nodes. -/
theorem mem_postorder_or_unvisited (isNode : node ∈ graph.nodes) :
    node ∈ graph.postorder root ∨ node ∈ graph.unvisited root := by
  by_cases isVisited : node ∈ graph.postorder root
  · exact .inl isVisited
  · exact .inr (List.mem_filter.mpr ⟨isNode, by simpa using isVisited⟩)

/-- A search from a node meets nodes only. -/
theorem mem_of_mem_postorder (closed : graph.Closed) (isRoot : root ∈ graph.nodes)
    (isVisited : node ∈ graph.postorder root) : node ∈ graph.nodes := by
  have stays (steps : Nat) (stack seen finished : List Node)
      (areNodes : ∀ node ∈ stack, node ∈ graph.nodes)
      (finishedAre : ∀ node ∈ finished, node ∈ graph.nodes) :
      ∀ node ∈ graph.postorderFrom steps stack seen finished, node ∈ graph.nodes := by
    induction steps generalizing stack seen finished with
    | zero => exact finishedAre
    | succ steps ih =>
        cases stack with
        | nil => exact finishedAre
        | cons first stack =>
            obtain ⟨isFirst, others⟩ := List.forall_mem_cons.mp areNodes
            rw [postorderFrom]
            split
            · split
              · exact ih _ _ _ others finishedAre
              · apply ih _ _ _ others
                intro node isIn
                rcases List.mem_append.mp isIn with isOld | isLast
                · exact finishedAre node isOld
                · rw [List.mem_singleton.mp isLast]
                  exact isFirst
            · apply ih _ _ _ _ finishedAre
              intro node isIn
              rcases List.mem_append.mp isIn with isFresh | isOld
              · have isTarget := List.mem_of_mem_filter (List.mem_reverse.mp isFresh)
                obtain ⟨arc, isArc, -, rfl⟩ := (mem_successors _).mp isTarget
                exact (closed arc isArc).2
              · exact areNodes node isOld
  exact stays _ _ _ _ (by simpa using isRoot) (by simp) node isVisited

/-- A search from a node and the nodes it does not meet are the nodes. -/
theorem mem_postorder_or_unvisited_iff (closed : graph.Closed) (isRoot : root ∈ graph.nodes) :
    node ∈ graph.postorder root ∨ node ∈ graph.unvisited root ↔ node ∈ graph.nodes := by
  constructor
  · rintro (isVisited | isLeft)
    · exact mem_of_mem_postorder closed isRoot isVisited
    · exact List.mem_of_mem_filter isLeft
  · exact mem_postorder_or_unvisited

end Digraph

namespace ControlFlow

variable {flow : ControlFlow} {node : FlowNode}

/-- The order in which a forward analysis visits nodes for the first time. -/
def forwardOrder (flow : ControlFlow) : List FlowNode :=
  (flow.graph.postorder .entry).reverse ++ flow.graph.unvisited .entry

/-- The order in which a backward analysis visits nodes for the first time. -/
def backwardOrder (flow : ControlFlow) : List FlowNode :=
  flow.graph.postorder .entry ++ flow.graph.unvisited .entry

theorem mem_forwardOrder (isNode : node ∈ flow.graph.nodes) : node ∈ flow.forwardOrder := by
  rcases Digraph.mem_postorder_or_unvisited isNode with isVisited | isLeft
  · exact List.mem_append_left _ (List.mem_reverse.mpr isVisited)
  · exact List.mem_append_right _ isLeft

theorem mem_backwardOrder (isNode : node ∈ flow.graph.nodes) : node ∈ flow.backwardOrder :=
  List.mem_append.mpr (Digraph.mem_postorder_or_unvisited isNode)

theorem mem_forwardOrder_iff (closed : flow.graph.Closed) (isEntry : .entry ∈ flow.graph.nodes) :
    node ∈ flow.forwardOrder ↔ node ∈ flow.graph.nodes := by
  rw [forwardOrder, List.mem_append, List.mem_reverse]
  exact Digraph.mem_postorder_or_unvisited_iff closed isEntry

theorem mem_backwardOrder_iff (closed : flow.graph.Closed) (isEntry : .entry ∈ flow.graph.nodes) :
    node ∈ flow.backwardOrder ↔ node ∈ flow.graph.nodes := by
  rw [backwardOrder, List.mem_append]
  exact Digraph.mem_postorder_or_unvisited_iff closed isEntry

theorem mem_successors_of_mem_predecessors {source : FlowNode}
    (isSource : source ∈ flow.graph.predecessors node) : node ∈ flow.graph.successors source := by
  obtain ⟨arc, isArc, isTarget, isSource⟩ := (Digraph.mem_predecessors _).mp isSource
  exact (Digraph.mem_successors _).mpr ⟨arc, isArc, isSource, isTarget⟩

theorem mem_predecessors_of_mem_successors {target : FlowNode}
    (isTarget : target ∈ flow.graph.successors node) : node ∈ flow.graph.predecessors target := by
  obtain ⟨arc, isArc, isSource, isTarget⟩ := (Digraph.mem_successors _).mp isTarget
  exact (Digraph.mem_predecessors _).mpr ⟨arc, isArc, isTarget, isSource⟩

end ControlFlow

namespace Analysis

variable {Fact : Type}

/-- An analysis goes from good facts to good facts. -/
structure Keeps (analysis : Analysis Fact) (flow : ControlFlow) (good : Fact → Prop) : Prop where
  boundary : good analysis.boundary
  initial : good analysis.initial
  meet : ∀ first second, good first → good second → good (analysis.meet first second)
  transfer : ∀ node fact, good fact → good (analysis.transfer (flow.stmtAt node) fact)

/-- The good facts of a monotone analysis form a join-semilattice, with the initial fact as
the least one and the meet as the join, and nodes give greater facts from greater ones. -/
structure IsMonotone [Preorder Fact] (analysis : Analysis Fact) (flow : ControlFlow)
    (good : Fact → Prop) : Prop where
  keeps : analysis.Keeps flow good
  lattice : IsSemilattice good analysis.initial analysis.meet
  transfer : ∀ node first second, good first → good second → first ≤ second →
    analysis.transfer (flow.stmtAt node) first ≤ analysis.transfer (flow.stmtAt node) second

/-- The equations of an analysis, at every node of a graph: the node where the analysis
starts has the boundary fact, the joined facts of the others are met from the results of
their sources, and a result is what the node makes of its joined fact. -/
structure Solves (analysis : Analysis Fact) (flow : ControlFlow) (start : FlowNode)
    (sources : FlowNode → List FlowNode) (joined result : FlowNode → Fact) : Prop where
  starts : start ∈ flow.graph.nodes → joined start = analysis.boundary
  joins : ∀ node ∈ flow.graph.nodes, node ≠ start →
    joined node = ((sources node).map result).foldl (fun met fact => analysis.meet fact met)
      analysis.initial
  transfers : ∀ node ∈ flow.graph.nodes,
    result node = analysis.transfer (flow.stmtAt node) (joined node)

/-- The equations of an analysis directed by the node where it starts and the nodes from
which facts flow into a node, with orders of visiting. -/
def directed (analysis : Analysis Fact) (flow : ControlFlow) (start : FlowNode)
    (sources : FlowNode → List FlowNode) (order : List FlowNode)
    (dependents : FlowNode → List FlowNode) : Equations FlowNode Fact where
  nodes := order
  initial := analysis.initial
  seed node := if node = start then analysis.boundary else analysis.initial
  inflow node := if node = start then [] else (sources node).map fun source => (source, id)
  meet := analysis.meet
  transfer node := analysis.transfer (flow.stmtAt node)
  dependents

variable {analysis : Analysis Fact} {flow : ControlFlow}

theorem forwardEquations_eq : analysis.forwardEquations flow =
    analysis.directed flow .entry flow.graph.predecessors flow.forwardOrder
      flow.graph.successors := rfl

section Directed

variable {start : FlowNode} {sources dependents : FlowNode → List FlowNode}
  {order : List FlowNode} {good : Fact → Prop}

theorem mem_inflow_directed {node : FlowNode} {inflow : FlowNode × (Fact → Fact)} :
    inflow ∈ (analysis.directed flow start sources order dependents).inflow node ↔
      node ≠ start ∧ ∃ source ∈ sources node, inflow = (source, id) := by
  simp only [directed]
  split
  case isTrue isStart => simp [isStart]
  case isFalse isOther => simp [isOther, eq_comm]

theorem propagates_directed
    (depend : ∀ node, ∀ source ∈ sources node, node ∈ dependents source) :
    (analysis.directed flow start sources order dependents).Propagates := by
  intro node inflow isInflow
  obtain ⟨-, source, isSource, rfl⟩ := mem_inflow_directed.mp isInflow
  exact depend node source isSource

theorem Keeps.directed (keeps : analysis.Keeps flow good) :
    (analysis.directed flow start sources order dependents).Keeps good where
  initial := keeps.initial
  seed node := by
    simp only [Analysis.directed]
    split
    · exact keeps.boundary
    · exact keeps.initial
  inflow node inflow isInflow fact isGood := by
    obtain ⟨-, source, -, rfl⟩ := mem_inflow_directed.mp isInflow
    exact isGood
  meet := keeps.meet
  transfer := keeps.transfer

/-- A monotone analysis has monotone equations. -/
theorem IsMonotone.directed [Preorder Fact] (monotone : analysis.IsMonotone flow good) :
    (analysis.directed flow start sources order dependents).IsMonotone good where
  initial := monotone.lattice.bottom_le
  inflow node inflow isInflow first second _ _ isBelow := by
    obtain ⟨-, source, -, rfl⟩ := mem_inflow_directed.mp isInflow
    exact isBelow
  meet _ _ _ _ isGood otherIsGood thirdIsGood fourthIsGood :=
    monotone.lattice.join_le_join monotone.keeps.meet isGood otherIsGood thirdIsGood fourthIsGood
  transfer := monotone.transfer

theorem join_directed (result : FlowNode → Fact) (node : FlowNode) :
    (analysis.directed flow start sources order dependents).join result node =
      if node = start then analysis.boundary
      else ((sources node).map result).foldl (fun met fact => analysis.meet fact met)
        analysis.initial := by
  simp only [Equations.join, directed]
  split
  · rfl
  · rw [List.foldl_map, List.foldl_map]
    rfl

/-- Solving the directed equations is satisfying the equations at the nodes visited. -/
theorem solves_of_directed {joined result : FlowNode → Fact}
    (areVisited : ∀ node ∈ flow.graph.nodes, node ∈ order)
    (solves : (analysis.directed flow start sources order dependents).Solves joined result) :
    analysis.Solves flow start sources joined result := by
  refine ⟨fun isNode => ?_, fun node isNode isOther => ?_, fun node isNode => ?_⟩
  · rw [solves.joins start (areVisited _ isNode), join_directed, if_pos rfl]
  · rw [solves.joins node (areVisited _ isNode), join_directed, if_neg isOther]
  · exact solves.transfers node (areVisited _ isNode)

theorem solves_directed_iff {joined result : FlowNode → Fact}
    (areNodes : ∀ node, node ∈ order ↔ node ∈ flow.graph.nodes) :
    (analysis.directed flow start sources order dependents).Solves joined result ↔
      analysis.Solves flow start sources joined result := by
  constructor
  · exact solves_of_directed fun node isNode => (areNodes node).mpr isNode
  · intro solves
    refine ⟨fun node isNode => ?_, fun node isNode => ?_⟩
    · rw [join_directed]
      split
      case isTrue isStart =>
          subst isStart
          exact solves.starts ((areNodes _).mp isNode)
      case isFalse isOther => exact solves.joins node ((areNodes _).mp isNode) isOther
    · exact solves.transfers node ((areNodes _).mp isNode)

/-- A monotone analysis finds the least solution, whatever the orders of the visits. -/
theorem IsMonotone.directed_settles [DecidableEq Fact] [Preorder Fact]
    (monotone : analysis.IsMonotone flow good) (start : FlowNode)
    (areNodes : ∀ node, node ∈ order ↔ node ∈ flow.graph.nodes)
    (areSources : ∀ node, ∀ source ∈ sources node, source ∈ flow.graph.nodes)
    (areDependents : ∀ node, ∀ other ∈ dependents node, other ∈ flow.graph.nodes)
    (depend : ∀ node, ∀ source ∈ sources node, node ∈ dependents source) :
    ∃ rounds, ((analysis.directed flow start sources order dependents).after rounds).queue = [] ∧
      IsLeastSolution flow.graph.nodes good (analysis.Solves flow start sources)
        ((analysis.directed flow start sources order dependents).after rounds).joined.get
        ((analysis.directed flow start sources order dependents).after rounds).result.get ∧
      (analysis.directed flow start sources order dependents).SettlesOn
        ((analysis.directed flow start sources order dependents).after rounds).joined.get
        ((analysis.directed flow start sources order dependents).after rounds).result.get := by
  have keeps : (analysis.directed flow start sources order dependents).Keeps good :=
    monotone.keeps.directed
  have isMonotone : (analysis.directed flow start sources order dependents).IsMonotone good :=
    monotone.directed
  have propagates : (analysis.directed flow start sources order dependents).Propagates :=
    propagates_directed depend
  have closed : (analysis.directed flow start sources order dependents).Closed := by
    refine ⟨fun node _ inflow isInflow => ?_, fun node _ other isDependent => ?_⟩
    · obtain ⟨-, source, isSource, rfl⟩ := mem_inflow_directed.mp isInflow
      exact (areNodes _).mpr (areSources node source isSource)
    · exact (areNodes _).mpr (areDependents node other isDependent)
  obtain ⟨rounds, isSettled⟩ := isMonotone.exists_settled keeps monotone.lattice closed
  refine ⟨rounds, isSettled, ?_, ?_⟩
  · exact (isMonotone.isLeastSolution keeps closed propagates isSettled).congr areNodes
      fun _ _ => solves_directed_iff areNodes
  · exact isMonotone.settlesOn keeps monotone.lattice closed propagates isSettled

end Directed

section Visits

theorem propagates_forward : (analysis.forwardEquations flow).Propagates :=
  propagates_directed fun _ _ => ControlFlow.mem_successors_of_mem_predecessors

theorem propagates_backward : (analysis.backwardEquations flow).Propagates :=
  propagates_directed fun _ _ => ControlFlow.mem_predecessors_of_mem_successors

/-- The nodes that a forward analysis of a graph may ever queue. -/
theorem spans_forward : (analysis.forwardEquations flow).Spans
    ((analysis.forwardEquations flow).nodes ++ flow.graph.arcs.map Arc.target) where
  start node isNode := List.mem_append_left _ isNode
  dependents node _ other isDependent := by
    obtain ⟨arc, isArc, -, isTarget⟩ := (Digraph.mem_successors _).mp isDependent
    exact List.mem_append_right _ (List.mem_map.mpr ⟨arc, isArc, isTarget⟩)

end Visits

section Answers

variable [DecidableEq Fact] {steps : Nat} {facts : NodeFacts FlowNode Fact} {good : Fact → Prop}

theorem forward_eq (steps : Nat) : analysis.forward flow steps =
    if ((analysis.forwardEquations flow).after steps).queue = [] then
      .ok ⟨((analysis.forwardEquations flow).after steps).joined,
        ((analysis.forwardEquations flow).after steps).result⟩
    else .error .unsettled := by
  rw [forward, Equations.solve_eq]
  split <;> rfl

theorem backward_eq (steps : Nat) : analysis.backward flow steps =
    if ((analysis.backwardEquations flow).after steps).queue = [] then
      .ok ⟨((analysis.backwardEquations flow).after steps).result,
        ((analysis.backwardEquations flow).after steps).joined⟩
    else .error .unsettled := by
  rw [backward, Equations.solve_eq]
  split <;> rfl

theorem forward_eq_ok_iff : analysis.forward flow steps = .ok facts ↔
    ((analysis.forwardEquations flow).after steps).queue = [] ∧
      facts = ⟨((analysis.forwardEquations flow).after steps).joined,
        ((analysis.forwardEquations flow).after steps).result⟩ := by
  rw [forward_eq]
  split
  case isTrue isSettled => simp [isSettled, eq_comm]
  case isFalse isQueued => simp [isQueued]

theorem backward_eq_ok_iff : analysis.backward flow steps = .ok facts ↔
    ((analysis.backwardEquations flow).after steps).queue = [] ∧
      facts = ⟨((analysis.backwardEquations flow).after steps).result,
        ((analysis.backwardEquations flow).after steps).joined⟩ := by
  rw [backward_eq]
  split
  case isTrue isSettled => simp [isSettled, eq_comm]
  case isFalse isQueued => simp [isQueued]

/-- The facts of a forward analysis satisfy its equations: facts before nodes are met from
those after their predecessors. -/
theorem solves_of_forward (areFacts : analysis.forward flow steps = .ok facts) :
    analysis.Solves flow .entry flow.graph.predecessors facts.before.get facts.after.get := by
  obtain ⟨isSettled, rfl⟩ := forward_eq_ok_iff.mp areFacts
  exact solves_of_directed (fun _ => ControlFlow.mem_forwardOrder)
    (Equations.solves_of_settled propagates_forward isSettled)

/-- The facts of a backward analysis satisfy its equations: facts after nodes are met from
those before their successors. -/
theorem solves_of_backward (areFacts : analysis.backward flow steps = .ok facts) :
    analysis.Solves flow .exit flow.graph.successors facts.after.get facts.before.get := by
  obtain ⟨isSettled, rfl⟩ := backward_eq_ok_iff.mp areFacts
  exact solves_of_directed (fun _ => ControlFlow.mem_backwardOrder)
    (Equations.solves_of_settled propagates_backward isSettled)

theorem Keeps.after (keeps : analysis.Keeps flow good)
    (areFacts : analysis.forward flow steps = .ok facts) (node : FlowNode) :
    good (facts.after.get node) := by
  obtain ⟨-, rfl⟩ := forward_eq_ok_iff.mp areFacts
  have isKept : (analysis.forwardEquations flow).Keeps good := keeps.directed
  exact isKept.result steps node

theorem Keeps.before (keeps : analysis.Keeps flow good)
    (areFacts : analysis.forward flow steps = .ok facts) {node : FlowNode}
    (isNode : node ∈ flow.graph.nodes) : good (facts.before.get node) := by
  obtain ⟨isSettled, rfl⟩ := forward_eq_ok_iff.mp areFacts
  have isKept : (analysis.forwardEquations flow).Keeps good := keeps.directed
  have solves := Equations.solves_of_settled propagates_forward isSettled
  rw [solves.joins node (ControlFlow.mem_forwardOrder isNode)]
  exact isKept.join fun inflow _ => isKept.result steps inflow.1

/-- The fact before a node is above the facts after its predecessors, when a meet is above
the facts that it meets. -/
theorem after_le_before [Preorder Fact] (keeps : analysis.Keeps flow good)
    (meetIsAbove : ∀ first second, good first → good second →
      first ≤ analysis.meet first second ∧ second ≤ analysis.meet first second)
    (areFacts : analysis.forward flow steps = .ok facts) {arc : Arc FlowNode Branch}
    (isArc : arc ∈ flow.graph.arcs) (isNode : arc.target ∈ flow.graph.nodes)
    (isInside : arc.target ≠ .entry) :
    facts.after.get arc.source ≤ facts.before.get arc.target := by
  have isSource : arc.source ∈ flow.graph.predecessors arc.target :=
    (Digraph.mem_predecessors _).mpr ⟨arc, isArc, rfl, rfl⟩
  have isInflow : (arc.source, id) ∈ (analysis.forwardEquations flow).inflow arc.target :=
    mem_inflow_directed.mpr ⟨isInside, _, isSource, rfl⟩
  have isKept : (analysis.forwardEquations flow).Keeps good := keeps.directed
  have isJoin : (analysis.forwardEquations flow).join facts.after.get arc.target =
      facts.before.get arc.target := by
    rw [(solves_of_forward areFacts).joins _ isNode isInside, forwardEquations_eq, join_directed,
      if_neg isInside]
  rw [← isJoin]
  exact (isKept.le_join meetIsAbove (keeps.after areFacts) _).2 _ isInflow

end Answers

end Analysis

end TacAnalysis
