/-
# Dataflow equations

A dataflow analysis gives each node of a graph two facts: the joined fact, met
from the results of the nodes it depends on, and the result fact, computed from
the joined one. The solver recomputes nodes from a queue until no result
changes: whenever the result of a node changes, the nodes depending on it are
queued again. Facts are recomputed from scratch, so nothing but the number of
steps allowed bounds the work when the equations never settle.
-/

import TacAnalysis.Error
import TacAnalysis.Table

namespace TacAnalysis

/-- The equations of an analysis over a graph. -/
structure Equations (Node Fact : Type) where
  /-- The nodes, in the order of their first visit. -/
  nodes : List Node
  /-- The result every node starts from. -/
  initial : Fact
  /-- The fact the meet at a node starts from. -/
  seed : Node → Fact
  /-- The nodes whose results are met at a node, each with what becomes of its
  result on the way. -/
  inflow : Node → List (Node × (Fact → Fact))
  /-- Meets a fact into another one. -/
  meet : Fact → Fact → Fact
  /-- The result of a node, from its joined fact. -/
  transfer : Node → Fact → Fact
  /-- The nodes to recompute when the result of a node has changed. -/
  dependents : Node → List Node

/-- The facts of an analysis in progress, and the nodes to recompute. -/
structure Progress (Node Fact : Type) where
  joined : Table Node Fact
  result : Table Node Fact
  queue : List Node
  deriving DecidableEq, Inhabited

namespace Equations

variable {Node Fact : Type} (equations : Equations Node Fact)

/-- Before any node is computed, every joined fact is its seed, every result is
the initial fact, and every node is queued. -/
def start : Progress Node Fact where
  joined := ⟨equations.initial, equations.nodes.map fun node => (node, equations.seed node)⟩
  result := .constant equations.initial
  queue := equations.nodes

variable [DecidableEq Node]

/-- The joined fact of a node, from the results of the nodes it depends on. -/
def join (result : Node → Fact) (node : Node) : Fact :=
  (equations.inflow node).foldl
    (fun fact flow => equations.meet (flow.2 (result flow.1)) fact) (equations.seed node)

/-- Queues nodes that are not queued yet. -/
def enqueue (queue : List Node) (nodes : List Node) : List Node :=
  nodes.foldl (fun queue node => if queue.contains node then queue else queue ++ [node]) queue

variable [DecidableEq Fact]

/-- Recomputes a node that has just left the queue. -/
def visit (progress : Progress Node Fact) (node : Node) : Progress Node Fact :=
  let joined := equations.join progress.result.get node
  let result := equations.transfer node joined
  { joined := progress.joined.set node joined
    result := progress.result.set node result
    queue := if result = progress.result.get node then progress.queue
      else enqueue progress.queue (equations.dependents node) }

/-- Recomputes the first node of the queue, if there is one. -/
def step? (progress : Progress Node Fact) : Option (Progress Node Fact) :=
  match progress.queue with
  | [] => none
  | node :: queue => some (equations.visit { progress with queue } node)

/-- Recomputes nodes until the queue is empty. There is no answer when that takes
more than a number of steps. -/
def run : (steps : Nat) → Progress Node Fact → Except AnalysisError (Progress Node Fact)
  | 0, progress => if progress.queue.isEmpty then .ok progress else .error .unsettled
  | steps + 1, progress =>
      match equations.step? progress with
      | none => .ok progress
      | some next => run steps next

/-- The facts the solver settles on, in at most a number of steps. -/
def solve (steps : Nat) : Except AnalysisError (Progress Node Fact) :=
  equations.run steps equations.start

end Equations

end TacAnalysis
