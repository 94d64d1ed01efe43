/-
# Dataflow analyses of a method

A forward analysis meets facts over the predecessors of a node and computes the
fact after it; a backward analysis meets facts over the successors and computes
the fact before it. The node where control enters, or leaves, keeps the boundary
fact. Nodes are first visited along a depth-first search from the entry: those
met last come first in a forward analysis, last in a backward one.
-/

import TacAnalysis.ControlFlow
import TacAnalysis.Dataflow.Equations

namespace TacAnalysis

/-- A dataflow analysis, forward or backward. -/
structure Analysis (Fact : Type) where
  /-- The fact holding where the analysis starts. -/
  boundary : Fact
  /-- The fact every other node starts from. -/
  initial : Fact
  /-- Meets a fact into another one. -/
  meet : Fact → Fact → Fact
  /-- What a statement makes of a fact. -/
  transfer : Stmt → Fact → Fact

/-- The facts holding before and after each node. -/
structure NodeFacts (Node Fact : Type) where
  before : Table Node Fact
  after : Table Node Fact
  deriving DecidableEq, Inhabited

namespace Analysis

variable {Fact : Type} (analysis : Analysis Fact) (flow : ControlFlow)

/-- The equations of a forward analysis: joined facts hold before nodes. -/
def forwardEquations : Equations FlowNode Fact where
  nodes := (flow.graph.postorder .entry).reverse ++ flow.graph.unvisited .entry
  initial := analysis.initial
  seed node := if node = .entry then analysis.boundary else analysis.initial
  inflow node :=
    if node = .entry then [] else (flow.graph.predecessors node).map fun source => (source, id)
  meet := analysis.meet
  transfer node := analysis.transfer (flow.stmtAt node)
  dependents := flow.graph.successors

/-- The equations of a backward analysis: joined facts hold after nodes. -/
def backwardEquations : Equations FlowNode Fact where
  nodes := flow.graph.postorder .entry ++ flow.graph.unvisited .entry
  initial := analysis.initial
  seed node := if node = .exit then analysis.boundary else analysis.initial
  inflow node :=
    if node = .exit then [] else (flow.graph.successors node).map fun target => (target, id)
  meet := analysis.meet
  transfer node := analysis.transfer (flow.stmtAt node)
  dependents := flow.graph.predecessors

variable [DecidableEq Fact]

/-- The facts of a forward analysis. -/
def forward (steps : Nat) : Except AnalysisError (NodeFacts FlowNode Fact) := do
  let settled ← (analysis.forwardEquations flow).solve steps
  pure ⟨settled.joined, settled.result⟩

/-- The facts of a backward analysis. -/
def backward (steps : Nat) : Except AnalysisError (NodeFacts FlowNode Fact) := do
  let settled ← (analysis.backwardEquations flow).solve steps
  pure ⟨settled.result, settled.joined⟩

end Analysis

end TacAnalysis
