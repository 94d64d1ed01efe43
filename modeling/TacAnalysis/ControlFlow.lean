/-
# Control flow graphs

The steps control may take in a method body: one node per statement, and one
node each for entering and leaving the body. Arcs are labelled by the reason
control takes them.
-/

import TacAnalysis.Error
import TacAnalysis.Graph.Digraph
import TacAnalysis.Graph.Label
import TacAnalysis.Program.Printer

namespace TacAnalysis

/-- A node of a control flow graph. -/
inductive FlowNode where
  | entry
  | stmt (index : Nat)
  | exit
  deriving DecidableEq, Inhabited, Ord

/-- The written form of a node. -/
def FlowNode.render : FlowNode → String
  | entry => "ENTRY"
  | stmt index => toString index
  | exit => "EXIT"

/-- Why control goes from one node to another. -/
inductive Branch where
  | sequence
  | jump
  | ifTrue
  | ifFalse
  | case (value : Int32)
  | default
  | leave
  deriving DecidableEq, Inhabited

/-- The written form of a branch. -/
def Branch.render : Branch → String
  | sequence => "<seq>"
  | jump => "<jmp>"
  | ifTrue => "<true>"
  | ifFalse => "<false>"
  | case value => "<switch " ++ toString value.toInt ++ ">"
  | default => "<switch _>"
  | leave => "<return>"

/-- The colour a branch is drawn with. -/
def Branch.colour : Branch → String
  | sequence | leave => "black"
  | jump => "blue"
  | ifTrue => "green"
  | ifFalse => "red"
  | case _ | default => "purple"

/-- The node after a statement: the next statement, or the exit after the last
one. -/
def FlowNode.next (size index : Nat) : FlowNode :=
  if index + 1 < size then .stmt (index + 1) else .exit

/-- The steps out of a statement of a body. -/
def Stmt.branches (stmt : Stmt) (index size : Nat) : List (Branch × FlowNode) :=
  match stmt with
  | .branch _ target => [(.ifTrue, .stmt target), (.ifFalse, .next size index)]
  | .goto target => [(.jump, .stmt target)]
  | .switch _ cases default =>
      cases.map (fun entry => (.case entry.1, .stmt entry.2)) ++ [(.default, .stmt default)]
  | .ret _ => [(.leave, .exit)]
  | _ => [(.sequence, .next size index)]

/-- The nodes of a body, in its order. -/
def flowNodes (size : Nat) : List FlowNode :=
  .entry :: (List.range size).map .stmt ++ [.exit]

/-- The arcs of a body: from the entry to the first statement, then out of each
statement in turn. -/
def flowArcs (body : Array Stmt) : List (Arc FlowNode Branch) :=
  ⟨.entry, .sequence, if body.size = 0 then .exit else .stmt 0⟩ ::
    (List.range body.size).flatMap fun index =>
      ((body.getD index .nop).branches index body.size).map fun step =>
        ⟨.stmt index, step.1, step.2⟩

/-- The control flow graph of a method. -/
structure ControlFlow where
  method : MethodDef
  graph : Digraph FlowNode Branch
  deriving DecidableEq, Inhabited

namespace ControlFlow

/-- The control flow graph of a method having a body. -/
def ofMethod (method : MethodDef) : Except AnalysisError ControlFlow :=
  if method.hasBody then .ok ⟨method, flowNodes method.body.size, flowArcs method.body⟩
  else .error .noCode

variable (flow : ControlFlow)

/-- The statement a node executes; entering and leaving do nothing. -/
def stmtAt : FlowNode → Stmt
  | .stmt index => flow.method.stmt index
  | .entry | .exit => .nop

/-- The label a node is drawn with. -/
def nodeLabel (program : Program) : FlowNode → String
  | .stmt index => toString index ++ ": " ++ program.renderStmt (flow.method.stmt index)
  | node => node.render

/-- The drawing of a control flow graph. -/
def toDot (program : Program) : String :=
  "digraph \x7b\n  nodesep=1;\n" ++
    flow.graph.drawing
      (fun node => "shape=box,label=\"" ++ Graph.labelText (flow.nodeLabel program node) ++ "\"")
      (fun arc => "color=" ++ arc.label.colour ++ ",xlabel=\"" ++ arc.label.render ++ "\"") ++
    "\x7d"

end ControlFlow

end TacAnalysis
