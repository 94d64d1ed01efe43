/-
# Analyses across methods as equations

Facts flow into a node along every step that leads to it, each step transferring the
fact in its own way. What enters an entry method from outside is met with what the
calls to the method bring. As for the analyses of one method, the conditions that the
solver asks of equations follow from conditions on the analysis, and the facts of an
analysis that answers satisfy the equations at every node.
-/

import TacAnalysis.Interprocedural.Analysis
import TacAnalysis.Proofs.ControlFlow
import TacAnalysis.Proofs.Dataflow.Intraprocedural

namespace TacAnalysis

/-- The statement of a node is one of the body of a method of the graph, unless it does
nothing. -/
theorem InterFlow.stmtAt_mem (flow : InterFlow) (place : MethodNode) :
    flow.stmtAt place = .nop ∨
      ∃ inner ∈ flow.flows, flow.stmtAt place ∈ inner.2.method.body := by
  rw [stmtAt]
  cases isFound : flow.flows.lookup place.method with
  | none => exact .inl rfl
  | some inner =>
      rcases inner.stmtAt_mem place.node with isNop | isMember
      · exact .inl isNop
      · exact .inr ⟨_, Table.mem_of_lookup isFound, isMember⟩

namespace InterAnalysis

variable {Fact : Type}

/-- An analysis goes from good facts to good facts. -/
structure Keeps (analysis : InterAnalysis Fact) (flow : InterFlow) (good : Fact → Prop) :
    Prop where
  boundary : ∀ node, good (analysis.boundary node)
  initial : good analysis.initial
  meet : ∀ first second, good first → good second → good (analysis.meet first second)
  transfer : ∀ node fact, good fact → good (analysis.transferAt flow node fact)
  along : ∀ arc ∈ flow.graph.arcs, ∀ fact, good fact → good (analysis.along arc.label fact)

/-- The good facts of a monotone analysis form a join-semilattice, with the initial fact as
the least one and the meet as the join, and nodes and steps give greater facts from greater
ones. -/
structure IsMonotone [Preorder Fact] (analysis : InterAnalysis Fact) (flow : InterFlow)
    (good : Fact → Prop) : Prop where
  keeps : analysis.Keeps flow good
  lattice : IsSemilattice good analysis.initial analysis.meet
  transfer : ∀ node first second, good first → good second → first ≤ second →
    analysis.transferAt flow node first ≤ analysis.transferAt flow node second
  along : ∀ arc ∈ flow.graph.arcs, ∀ first second, good first → good second → first ≤ second →
    analysis.along arc.label first ≤ analysis.along arc.label second

/-- The equations of an analysis at every node of a graph: the fact before a node is met
from the facts after the sources of the steps leading to it, each transferred along its
step, starting from the boundary fact at the entry of an entry method and from the initial
fact elsewhere; the fact after a node is what the node makes of the fact before it. -/
structure Solves (analysis : InterAnalysis Fact) (flow : InterFlow)
    (before after : MethodNode → Fact) : Prop where
  joins : ∀ node ∈ flow.graph.nodes,
    before node = ((flow.graph.incoming node).map fun arc =>
        analysis.along arc.label (after arc.source)).foldl
      (fun met fact => analysis.meet fact met)
      (if node.node = .entry ∧ node.method ∈ flow.entries then analysis.boundary node
        else analysis.initial)
  transfers : ∀ node ∈ flow.graph.nodes, after node =
    if flow.isCallAt node then analysis.transferCall (flow.stmtAt node) (before node)
    else analysis.transferStmt (flow.stmtAt node) (before node)

variable {analysis : InterAnalysis Fact} {flow : InterFlow}

section Equations

variable {good : Fact → Prop}

theorem seed_eq (node : MethodNode) : (analysis.equations flow).seed node =
    if node.node = .entry ∧ node.method ∈ flow.entries then analysis.boundary node
    else analysis.initial := by
  simp [equations, isStart]

theorem mem_inflow {node : MethodNode} {inflow : MethodNode × (Fact → Fact)} :
    inflow ∈ (analysis.equations flow).inflow node ↔
      ∃ arc ∈ flow.graph.arcs, arc.target = node ∧
        inflow = (arc.source, analysis.along arc.label) := by
  simp only [equations, Digraph.incoming, List.mem_map, List.mem_reverse, List.mem_filter,
    decide_eq_true_eq]
  constructor
  · rintro ⟨arc, ⟨isArc, isTarget⟩, rfl⟩
    exact ⟨arc, isArc, isTarget, rfl⟩
  · rintro ⟨arc, isArc, isTarget, rfl⟩
    exact ⟨arc, ⟨isArc, isTarget⟩, rfl⟩

theorem transferAt_eq (node : MethodNode) (fact : Fact) : analysis.transferAt flow node fact =
    if flow.isCallAt node then analysis.transferCall (flow.stmtAt node) fact
    else analysis.transferStmt (flow.stmtAt node) fact := by
  rw [transferAt]
  split <;> rfl

theorem propagates : (analysis.equations flow).Propagates := by
  intro node inflow isInflow
  obtain ⟨arc, isArc, isTarget, rfl⟩ := mem_inflow.mp isInflow
  exact (Digraph.mem_successors _).mpr ⟨arc, isArc, rfl, isTarget⟩

theorem closed (analysis : InterAnalysis Fact) (closed : flow.graph.Closed) :
    (analysis.equations flow).Closed := by
  refine ⟨fun node _ inflow isInflow => ?_, fun node _ other isDependent => ?_⟩
  · obtain ⟨arc, isArc, -, rfl⟩ := mem_inflow.mp isInflow
    exact (closed arc isArc).1
  · obtain ⟨arc, isArc, -, rfl⟩ := (Digraph.mem_successors _).mp isDependent
    exact (closed arc isArc).2

theorem Keeps.equations (keeps : analysis.Keeps flow good) :
    (analysis.equations flow).Keeps good where
  initial := keeps.initial
  seed node := by
    rw [seed_eq]
    split
    · exact keeps.boundary node
    · exact keeps.initial
  inflow node inflow isInflow fact isGood := by
    obtain ⟨arc, isArc, -, rfl⟩ := mem_inflow.mp isInflow
    exact keeps.along arc isArc fact isGood
  meet := keeps.meet
  transfer := keeps.transfer

/-- A monotone analysis has monotone equations. -/
theorem IsMonotone.equations [Preorder Fact] (monotone : analysis.IsMonotone flow good) :
    (analysis.equations flow).IsMonotone good where
  initial := monotone.lattice.bottom_le
  inflow node inflow isInflow first second isGood otherIsGood isBelow := by
    obtain ⟨arc, isArc, -, rfl⟩ := mem_inflow.mp isInflow
    exact monotone.along arc isArc first second isGood otherIsGood isBelow
  meet _ _ _ _ isGood otherIsGood thirdIsGood fourthIsGood :=
    monotone.lattice.join_le_join monotone.keeps.meet isGood otherIsGood thirdIsGood fourthIsGood
  transfer := monotone.transfer

/-- Solving the equations of an analysis is satisfying them at the nodes of the graph. -/
theorem solves_equations_iff {before after : MethodNode → Fact} :
    (analysis.equations flow).Solves before after ↔ analysis.Solves flow before after := by
  have joins (node : MethodNode) : (analysis.equations flow).join after node =
      ((flow.graph.incoming node).map fun arc =>
          analysis.along arc.label (after arc.source)).foldl
        (fun met fact => analysis.meet fact met)
        (if node.node = .entry ∧ node.method ∈ flow.entries then analysis.boundary node
          else analysis.initial) := by
    rw [Equations.join, seed_eq]
    simp only [InterAnalysis.equations, List.foldl_map]
  constructor
  · intro solves
    refine ⟨fun node isNode => ?_, fun node isNode => ?_⟩
    · rw [solves.joins node isNode, joins]
    · rw [solves.transfers node isNode, ← transferAt_eq]
      rfl
  · intro solves
    refine ⟨fun node isNode => ?_, fun node isNode => ?_⟩
    · rw [solves.joins node isNode, joins]
    · rw [solves.transfers node isNode, ← transferAt_eq]
      rfl

end Equations

section Answers

variable [DecidableEq Fact] {steps : Nat} {facts : NodeFacts MethodNode Fact}
  {good : Fact → Prop}

theorem analyze_eq_ok_iff : analysis.analyze flow steps = .ok facts ↔
    ((analysis.equations flow).after steps).queue = [] ∧
      facts = ⟨((analysis.equations flow).after steps).joined,
        ((analysis.equations flow).after steps).result⟩ := by
  rw [analyze, Equations.solve_eq]
  split
  case isTrue isSettled => simp [isSettled, eq_comm, bind, Except.bind, pure, Except.pure]
  case isFalse isQueued => simp [isQueued, bind, Except.bind]

/-- The facts of an analysis across methods satisfy its equations. -/
theorem solves_of_analyze (areFacts : analysis.analyze flow steps = .ok facts) :
    analysis.Solves flow facts.before.get facts.after.get := by
  obtain ⟨isSettled, rfl⟩ := analyze_eq_ok_iff.mp areFacts
  exact solves_equations_iff.mp (Equations.solves_of_settled propagates isSettled)

/-- The fact before a node is above the facts after the sources of the steps leading to it,
transferred along these, and above the boundary fact at the entry of an entry method, when a
meet is above the facts that it meets. -/
theorem Keeps.le_before [Preorder Fact] (keeps : analysis.Keeps flow good)
    (meetIsAbove : ∀ first second, good first → good second →
      first ≤ analysis.meet first second ∧ second ≤ analysis.meet first second)
    (areFacts : analysis.analyze flow steps = .ok facts) {node : MethodNode}
    (isNode : node ∈ flow.graph.nodes) :
    (∀ arc ∈ flow.graph.arcs, arc.target = node →
      analysis.along arc.label (facts.after.get arc.source) ≤ facts.before.get node) ∧
    (node.node = .entry → node.method ∈ flow.entries →
      analysis.boundary node ≤ facts.before.get node) := by
  obtain ⟨isSettled, rfl⟩ := analyze_eq_ok_iff.mp areFacts
  have solves : (analysis.equations flow).Solves _ _ :=
    Equations.solves_of_settled propagates isSettled
  have isAbove (node : MethodNode) :=
    keeps.equations.le_join meetIsAbove (keeps.equations.result steps) node
  obtain ⟨seedIsBelow, inflowIsBelow⟩ := isAbove node
  simp only [solves.joins node isNode]
  refine ⟨fun arc isArc isTarget => ?_, fun isEntry isStart => ?_⟩
  · exact inflowIsBelow (arc.source, analysis.along arc.label)
      (mem_inflow.mpr ⟨arc, isArc, isTarget, rfl⟩)
  · rwa [seed_eq, if_pos ⟨isEntry, isStart⟩] at seedIsBelow

end Answers

end InterAnalysis

end TacAnalysis
