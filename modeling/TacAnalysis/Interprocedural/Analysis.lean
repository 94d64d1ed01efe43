/-
# Interprocedural dataflow analyses

A forward analysis over the methods of a program at once: facts are transferred
through nodes, linked calls apart from other statements, and along the steps
between nodes, so that entering and leaving a method can carry a fact over from
the variables of one method to those of another.
-/

import TacAnalysis.Dataflow.Intraprocedural
import TacAnalysis.Interprocedural.Graph

namespace TacAnalysis

/-- An interprocedural dataflow analysis. -/
structure InterAnalysis (Fact : Type) where
  /-- The fact holding at the entry node of an entry method. -/
  boundary : MethodNode → Fact
  /-- The fact every node starts from. -/
  initial : Fact
  /-- Meets a fact into another one. -/
  meet : Fact → Fact → Fact
  /-- What a linked call makes of a fact, before its steps are taken. -/
  transferCall : Stmt → Fact → Fact
  /-- What any other statement makes of a fact. -/
  transferStmt : Stmt → Fact → Fact
  /-- What becomes of a fact along a step. -/
  along : Transfer → Fact → Fact

namespace InterAnalysis

variable {Fact : Type} (analysis : InterAnalysis Fact) (flow : InterFlow)

/-- What a node makes of a fact. -/
def transferAt (node : MethodNode) : Fact → Fact :=
  if flow.isCallAt node then analysis.transferCall (flow.stmtAt node)
  else analysis.transferStmt (flow.stmtAt node)

/-- Whether a node is the entry of an entry method. -/
def isStart (node : MethodNode) : Bool :=
  node.node = .entry && flow.entries.contains node.method

/-- The equations of an analysis. The entry of an entry method meets the boundary
fact with what calls to it bring. -/
def equations : Equations MethodNode Fact where
  nodes := flow.graph.nodes
  initial := analysis.initial
  seed node := if isStart flow node then analysis.boundary node else analysis.initial
  inflow node :=
    (flow.graph.incoming node).map fun arc => (arc.source, analysis.along arc.label)
  meet := analysis.meet
  transfer := analysis.transferAt flow
  dependents := flow.graph.successors

/-- The facts of an analysis. -/
def analyze [DecidableEq Fact] (steps : Nat) :
    Except AnalysisError (NodeFacts MethodNode Fact) := do
  let settled ← (analysis.equations flow).solve steps
  pure ⟨settled.joined, settled.result⟩

end InterAnalysis

end TacAnalysis
