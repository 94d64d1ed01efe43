/-
# Class hierarchy analysis

Resolves calls from declared types alone: a call on a type may run whatever
dispatch finds for any of its subtypes. The call graph holds the methods that
calls resolved in this way reach from the entry methods.
-/

import TacAnalysis.CallGraph
import TacAnalysis.Error
import TacAnalysis.Hierarchy

namespace TacAnalysis

namespace Program

variable (program : Program)

/-- The methods a call may run, in ascending order: static and special calls
dispatch on the class they name, other calls on any of its subtypes. -/
def resolve (invoke : Invoke) : List MethodId :=
  let owner := invoke.target.owner
  match invoke.kind with
  | .static | .special => (program.dispatch owner invoke.target.sub).toList
  | .virtual | .interface =>
      ascending ((program.descendants owner).filterMap (program.dispatch · invoke.target.sub))

/-- The calls of a method with their sites. -/
def callsOf (method : MethodId) : List (Site × Invoke) :=
  (program.sitesOf method).filterMap fun site => ((program.stmt site).invoke?).map (site, ·)

/-- The edges of a call. -/
def edgesOf (site : Site) (invoke : Invoke) : List (CallEdge Site MethodId) :=
  (program.resolve invoke).map (⟨invoke.kind, site, ·⟩)

/-- A call graph under construction, with the methods to be made reachable next. -/
structure CallGraphState where
  graph : CallGraph Site MethodId
  pending : List MethodId
  deriving DecidableEq, Inhabited

/-- Adds an edge, and schedules its callee unless it is reachable already. -/
def CallGraphState.addEdge (state : CallGraphState) (edge : CallEdge Site MethodId) :
    CallGraphState where
  graph := (state.graph.addEdge edge).2
  pending := if state.graph.contains edge.callee then state.pending
    else state.pending ++ [edge.callee]

/-- Makes a method reachable and adds the edges of its calls, once. -/
def visitMethod (state : CallGraphState) (method : MethodId) : CallGraphState :=
  let (isNew, graph) := state.graph.addReachable method
  if isNew then
    (program.callsOf method).foldl
      (fun state call => (program.edgesOf call.1 call.2).foldl .addEdge state)
      { state with graph }
  else state

/-- Visits scheduled methods in order until none is left, or for a number of
steps. -/
def growCallGraph : (steps : Nat) → CallGraphState → CallGraphState
  | 0, state => state
  | steps + 1, state =>
      match state.pending with
      | [] => state
      | method :: pending =>
          growCallGraph steps (program.visitMethod { state with pending } method)

/-- The number of methods that may ever be scheduled: the entry methods, and once
for each edge. -/
def schedulingBound : Nat :=
  program.entries.length +
    ((List.range program.methods.size).flatMap fun method =>
      (program.callsOf method).flatMap fun call => program.edgesOf call.1 call.2).length

/-- The call graph of the methods reachable from the entry methods. -/
def hierarchyCallGraph : Except AnalysisError (CallGraph Site MethodId) :=
  if program.entries.isEmpty then .error .noEntryMethod
  else
    let graph := program.entries.foldl .addEntry .empty
    .ok (program.growCallGraph program.schedulingBound ⟨graph, program.entries⟩).graph

end Program

end TacAnalysis
