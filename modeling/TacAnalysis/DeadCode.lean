/-
# Dead code

A statement is dead when control cannot reach it, be it because no path leads
to it or because every path goes through a jump that constants decide the other
way, or when it does nothing but assign a variable that is not read afterwards.
-/

import TacAnalysis.ConstantPropagation
import TacAnalysis.Graph.Search
import TacAnalysis.LiveVariables

namespace TacAnalysis

/-- Whether computing what a statement assigns can have no other effect. -/
def Stmt.onlyAssigns : Stmt → Bool
  | .literal _ _ | .copy _ _ => true
  | .binary _ exp => !exp.op.canThrow
  | _ => false

/-- Whether a statement executed with some constants known may take a branch. -/
def Stmt.mayTake (stmt : Stmt) (fact : ConstFact) (branch : Branch) : Bool :=
  match stmt with
  | .branch cond _ =>
      match cond.evaluate fact with
      | .constant value => branch = if value = 0 then .ifFalse else .ifTrue
      | _ => true
  | .switch scrutinee cases _ =>
      match fact.get scrutinee with
      | .constant value =>
          branch = if cases.any fun entry => entry.1 = value then .case value else .default
      | _ => true
  | _ => true

namespace ControlFlow

variable (flow : ControlFlow)

/-- The arcs out of a node whose branches constants allow. -/
def openArcs (constants : FlowNode → ConstFact) (source : FlowNode) : List (Arc FlowNode Branch) :=
  (flow.graph.outgoing source).filter fun arc =>
    (flow.stmtAt source).mayTake (constants source) arc.label

theorem mem_openArcs {flow : ControlFlow} {constants : FlowNode → ConstFact} {source : FlowNode}
    {arc : Arc FlowNode Branch} : arc ∈ flow.openArcs constants source ↔
      arc ∈ flow.graph.arcs ∧ arc.source = source ∧
        (flow.stmtAt source).mayTake (constants source) arc.label = true := by
  rw [openArcs, List.mem_filter, Digraph.mem_outgoing, and_assoc]

/-- Along the branches that constants allow. -/
def openLinks (constants : FlowNode → ConstFact) : Graph.Links FlowNode where
  next source := (flow.openArcs constants source).map Arc.target
  sources := flow.graph.arcs.map Arc.source
  mem_sources isNext := by
    obtain ⟨arc, isOpen, -⟩ := List.mem_map.mp isNext
    obtain ⟨isArc, rfl, -⟩ := mem_openArcs.mp isOpen
    exact List.mem_map_of_mem isArc

/-- The nodes control can reach through the branches that constants allow. Nodes wait in a
queue, where one may stand several times. -/
def feasibleNodes (constants : FlowNode → ConstFact) : List FlowNode :=
  Graph.search (flow.openLinks constants) .queue [.entry] []

/-- Whether a statement assigns a variable that is not live after it and has no
other effect. -/
def isUselessAt (live : FlowNode → SetFact VarId) (node : FlowNode) : Bool :=
  let stmt := flow.stmtAt node
  stmt.onlyAssigns && stmt.def?.any fun var => !(live node).contains var

/-- The positions of the dead statements, from the constants known before each
node and the variables live after it. -/
def deadStatements (constants : FlowNode → ConstFact) (live : FlowNode → SetFact VarId) :
    List Nat :=
  let reached := flow.feasibleNodes constants
  (List.range flow.method.body.size).filter fun index =>
    !reached.contains (.stmt index) || flow.isUselessAt live (.stmt index)

end ControlFlow

/-- The positions of the dead statements of a method. -/
def Program.deadCode (program : Program) (steps : Nat) (id : MethodId) :
    Except AnalysisError (List Nat) := do
  let method := program.methodDef id
  let flow ← ControlFlow.ofMethod method
  let constants ← (program.constantAnalysis method).forward flow steps
  let live ← liveAnalysis.backward flow steps
  pure (flow.deadStatements constants.before.get live.after.get)

end TacAnalysis
