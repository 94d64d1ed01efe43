/-
# Directed graphs

A directed graph lists its nodes and its arcs in the order they were added, and
may have several arcs between two nodes. The arcs of a node are visited the last
added first. Graphs are drawn by the position of their nodes.
-/

namespace TacAnalysis

/-- A labelled arc. -/
structure Arc (Node Label : Type) where
  source : Node
  label : Label
  target : Node
  deriving DecidableEq, Inhabited

/-- A directed graph with labelled arcs. -/
structure Digraph (Node Label : Type) where
  nodes : List Node
  arcs : List (Arc Node Label)
  deriving DecidableEq, Inhabited

namespace Digraph

variable {Node Label : Type} [DecidableEq Node] (graph : Digraph Node Label)

/-- The arcs out of a node, the last added first. -/
def outgoing (node : Node) : List (Arc Node Label) :=
  (graph.arcs.filter fun arc => arc.source = node).reverse

/-- The arcs into a node, the last added first. -/
def incoming (node : Node) : List (Arc Node Label) :=
  (graph.arcs.filter fun arc => arc.target = node).reverse

/-- The targets of the arcs out of a node, once per arc. -/
def successors (node : Node) : List Node := (graph.outgoing node).map Arc.target

/-- The sources of the arcs into a node, once per arc. -/
def predecessors (node : Node) : List Node := (graph.incoming node).map Arc.source

theorem mem_outgoing {node : Node} {arc : Arc Node Label} :
    arc ∈ graph.outgoing node ↔ arc ∈ graph.arcs ∧ arc.source = node := by
  simp [outgoing]

theorem mem_successors {node target : Node} : target ∈ graph.successors node ↔
    ∃ arc ∈ graph.arcs, arc.source = node ∧ arc.target = target := by
  simp [successors, outgoing, and_assoc]

theorem mem_predecessors {node source : Node} : source ∈ graph.predecessors node ↔
    ∃ arc ∈ graph.arcs, arc.target = node ∧ arc.source = source := by
  simp [predecessors, incoming, and_assoc]

/-- A depth-first search in progress: the top of the stack is visited next. A
node met for the first time stays on the stack below its unvisited successors,
the last of which is visited first; met again, it is finished unless it already
was. Each step either meets a node for the first time or takes one off the
stack. -/
def postorderFrom : (steps : Nat) → (stack seen finished : List Node) → List Node
  | 0, _, _, finished => finished
  | _, [], _, finished => finished
  | steps + 1, node :: stack, seen, finished =>
      if seen.contains node then
        if finished.contains node then postorderFrom steps stack seen finished
        else postorderFrom steps stack seen (finished ++ [node])
      else
        let seen := node :: seen
        let fresh := (graph.successors node).filter fun target => !seen.contains target
        postorderFrom steps (fresh.reverse ++ node :: stack) seen finished

/-- The nodes reachable from a root, each after the nodes first met below it. -/
def postorder (root : Node) : List Node :=
  graph.postorderFrom (graph.nodes.length + graph.arcs.length + 1) [root] [] []

/-- The nodes a search from a root does not meet. -/
def unvisited (root : Node) : List Node :=
  let visited := graph.postorder root
  graph.nodes.filter fun node => !visited.contains node

/-- The lines drawing the nodes, then the arcs, each with its attributes. -/
def drawing (nodeAttributes : Node → String) (arcAttributes : Arc Node Label → String) :
    String :=
  String.join (graph.nodes.mapIdx fun index node =>
    "    " ++ toString index ++ " [ " ++ nodeAttributes node ++ "]\n") ++
  String.join (graph.arcs.map fun arc =>
    "    " ++ toString (graph.nodes.idxOf arc.source) ++ " -> " ++
      toString (graph.nodes.idxOf arc.target) ++ " [ " ++ arcAttributes arc ++ "]\n")

end Digraph

end TacAnalysis
