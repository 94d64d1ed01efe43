/-
# Interprocedural control flow

The control flow graphs of the reachable methods of a call graph, linked along
its edges. A call linked to the methods it may run leads to their entries, their
exits lead to where the call returns, and a bypass goes from the call to there
directly. A call none of whose methods has a body is left as a plain statement.
-/

import TacAnalysis.CallGraph
import TacAnalysis.ControlFlow

namespace TacAnalysis

/-- A node of a method. -/
structure MethodNode where
  method : MethodId
  node : FlowNode
  deriving DecidableEq, Inhabited, Ord

/-- The written form of a node of a method. -/
def MethodNode.render (place : MethodNode) : String :=
  "m" ++ toString place.method ++ ":" ++ place.node.render

/-- A step between nodes of methods. -/
inductive Transfer where
  /-- A step inside a method. -/
  | within (branch : Branch)
  /-- From a call to where it returns, leaving out the methods called. -/
  | bypass (site : Site)
  /-- From a call to the entry of a method it may run. -/
  | enter (site : Site) (callee : MethodId)
  /-- From the exit of a method to where a call of it returns. -/
  | leave (site : Site) (callee : MethodId)
  deriving DecidableEq, Inhabited

namespace Transfer

/-- The written form of a step. -/
def render : Transfer → String
  | within branch => branch.render
  | bypass _ => "<c2r>"
  | enter _ _ => "<call>"
  | leave _ _ => "<ret>"

/-- The colour a step is drawn with. -/
def colour : Transfer → String
  | within _ => "black"
  | bypass _ => "gray"
  | enter _ _ => "blue"
  | leave _ _ => "red"

end Transfer

/-- The interprocedural control flow graph of some methods of a program, given in
ascending order with their own graphs, and with the linked calls and the methods
each is linked to. -/
structure InterFlow where
  program : Program
  flows : List (MethodId × ControlFlow)
  links : List (Site × List MethodId)
  entries : List MethodId
  graph : Digraph MethodNode Transfer
  deriving Inhabited

namespace InterFlow

/-- The control flow graphs of the reachable methods having a body. -/
def flowsOf (program : Program) (calls : CallGraph Site MethodId) :
    List (MethodId × ControlFlow) :=
  calls.reachableMethods.filterMap fun id =>
    match ControlFlow.ofMethod (program.methodDef id) with
    | .ok flow => some (id, flow)
    | .error _ => none

/-- The calls of some methods that may run one of them, with those they may run. -/
def linksOf (program : Program) (calls : CallGraph Site MethodId) (methods : List MethodId) :
    List (Site × List MethodId) :=
  methods.flatMap fun method =>
    (program.sitesOf method).filterMap fun site =>
      match (calls.callees site).filter methods.contains with
      | [] => none
      | callees => some (site, callees)

/-- The methods that the statement of a node is linked to. -/
def linkAt (links : List (Site × List MethodId)) (method : MethodId) : FlowNode →
    Option (Site × List MethodId)
  | .stmt index => (links.lookup ⟨method, index⟩).map (⟨method, index⟩, ·)
  | .entry | .exit => none

/-- The steps that replace an arc of a method's own graph. -/
def stepsAlong (links : List (Site × List MethodId)) (method : MethodId)
    (arc : Arc FlowNode Branch) : List (Arc MethodNode Transfer) :=
  let source : MethodNode := ⟨method, arc.source⟩
  let target : MethodNode := ⟨method, arc.target⟩
  match linkAt links method arc.source with
  | none => [⟨source, .within arc.label, target⟩]
  | some (site, callees) =>
      ⟨source, .bypass site, target⟩ ::
        callees.map fun callee => ⟨⟨callee, .exit⟩, .leave site callee, target⟩

/-- The steps entering the methods that the statement of a node is linked to. -/
def stepsInto (links : List (Site × List MethodId)) (method : MethodId) (node : FlowNode) :
    List (Arc MethodNode Transfer) :=
  match linkAt links method node with
  | none => []
  | some (site, callees) =>
      callees.map fun callee => ⟨⟨method, node⟩, .enter site callee, ⟨callee, .entry⟩⟩

/-- The interprocedural graph of the methods reachable in a call graph. -/
def ofCallGraph (program : Program) (calls : CallGraph Site MethodId) : InterFlow :=
  let flows := flowsOf program calls
  let methods := flows.map Prod.fst
  let links := linksOf program calls methods
  { program, flows, links
    entries := calls.entries.filter methods.contains
    graph :=
      { nodes := flows.flatMap fun flow => flow.2.graph.nodes.map (⟨flow.1, ·⟩)
        arcs := flows.flatMap fun flow => flow.2.graph.nodes.flatMap fun node =>
          (flow.2.graph.outgoing node).flatMap (stepsAlong links flow.1) ++
            stepsInto links flow.1 node } }

variable (flow : InterFlow)

/-- The methods of the graph. -/
def methods : List MethodId := flow.flows.map Prod.fst

/-- The statement a node executes. -/
def stmtAt (place : MethodNode) : Stmt :=
  match flow.flows.lookup place.method with
  | some inner => inner.stmtAt place.node
  | none => .nop

/-- The call linked at a node, if there is one. -/
def siteAt? (place : MethodNode) : Option Site :=
  (linkAt flow.links place.method place.node).map Prod.fst

/-- Whether a node is a call linked to the methods it may run. -/
def isCallAt (place : MethodNode) : Bool := (flow.siteAt? place).isSome

/-- The methods a call is linked to. -/
def calleesOf (site : Site) : List MethodId := (flow.links.lookup site).getD []

/-- The drawing of the nodes of one method. -/
def clusterDot (id : MethodId) (inner : ControlFlow) : String :=
  "  subgraph cluster_" ++ toString id ++ " \x7b\n" ++
    "    label=\"" ++ Graph.labelText (flow.program.signature id) ++ "\";\n" ++
    String.join (inner.graph.nodes.map fun node =>
      "    " ++ toString (flow.graph.nodes.idxOf ⟨id, node⟩) ++ " [label=\"" ++ node.render ++
        "\",shape=box];\n") ++
    "  \x7d\n"

/-- The drawing of one step. -/
def stepDot (arc : Arc MethodNode Transfer) : String :=
  "  " ++ toString (flow.graph.nodes.idxOf arc.source) ++ " -> " ++
    toString (flow.graph.nodes.idxOf arc.target) ++ " [color=" ++ arc.label.colour ++ "];\n"

/-- The drawing of the graph, the nodes of each method standing together. -/
def toDot : String :=
  "digraph \x7b\n" ++ String.join (flow.flows.map fun inner => flow.clusterDot inner.1 inner.2) ++
    String.join (flow.graph.arcs.map flow.stepDot) ++ "\x7d"

end InterFlow

end TacAnalysis
