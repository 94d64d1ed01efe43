/-
# What call graphs are made of

A call graph comes about by adding entry methods, reachable methods and edges, in any order
and any number of times. What has been added is in the graph, and nothing else is; it is
there once, and the methods that the graph knows are the reachable ones and those at the
ends of its edges.
-/

import TacAnalysis.CallGraph
import TacAnalysis.Proofs.Lists

namespace TacAnalysis

/-- Something that is added to a call graph. -/
inductive Addition (Point Method : Type) where
  | entry (method : Method)
  | reachable (method : Method)
  | edge (edge : CallEdge Point Method)
  deriving DecidableEq

namespace CallGraph

variable {Point Method : Type} [DecidableEq Point] [DecidableEq Method] [CallSite Point Method]

/-- Methods that are all different are recorded as they are. -/
theorem entries_foldl_addEntry_of_nodup {graph : CallGraph Point Method} {methods : List Method}
    (areDifferent : (graph.entries ++ methods).Nodup) :
    (methods.foldl .addEntry graph).entries = graph.entries ++ methods := by
  induction methods generalizing graph with
  | nil => exact (List.append_nil _).symm
  | cons method methods ih =>
      have isNew : graph.entries.contains method = false := by
        rw [← Bool.not_eq_true, List.contains_iff_mem]
        intro isOld
        have apart := (List.nodup_append.mp areDifferent).2.2
        exact apart method isOld method List.mem_cons_self rfl
      have isAdded : (graph.addEntry method).entries = graph.entries ++ [method] := by
        simp only [addEntry, isNew, Bool.false_eq_true, if_false]
      rw [List.append_cons, ← isAdded] at areDifferent
      rw [List.foldl_cons, ih areDifferent, isAdded, List.append_assoc, List.singleton_append]

/-- The call graph with an addition more. -/
def add (graph : CallGraph Point Method) : Addition Point Method → CallGraph Point Method
  | .entry method => graph.addEntry method
  | .reachable method => (graph.addReachable method).2
  | .edge edge => (graph.addEdge edge).2

/-- The call graph that comes about by some additions, the first one first. -/
def ofAdditions (additions : List (Addition Point Method)) : CallGraph Point Method :=
  additions.foldl add empty

/-- Everything in a call graph is there once, and the methods that it knows are the reachable
ones and the ends of its edges. -/
structure WellFormed (graph : CallGraph Point Method) : Prop where
  nodes : graph.nodes.Nodup
  entries : graph.entries.Nodup
  reachable : graph.reachable.Nodup
  edges : graph.edges.Nodup
  known : ∀ method, method ∈ graph.nodes ↔ method ∈ graph.reachable ∨
    ∃ edge ∈ graph.edges, CallSite.container edge.site = method ∨ edge.callee = method

section Membership

variable {graph : CallGraph Point Method} {additions : List (Addition Point Method)}
  {method : Method} {edge : CallEdge Point Method}

theorem mem_reachable_foldl_add : method ∈ (additions.foldl add graph).reachable ↔
    method ∈ graph.reachable ∨ .reachable method ∈ additions := by
  induction additions generalizing graph with
  | nil => simp
  | cons addition additions ih =>
      rw [List.foldl_cons, ih]
      cases addition with
      | entry other => simp [add, reachable_addEntry]
      | reachable other => simp [add, mem_addReachable, or_assoc]
      | edge other => simp [add, reachable_addEdge]

theorem mem_edges_foldl_add : edge ∈ (additions.foldl add graph).edges ↔
    edge ∈ graph.edges ∨ .edge edge ∈ additions := by
  induction additions generalizing graph with
  | nil => simp
  | cons addition additions ih =>
      rw [List.foldl_cons, ih]
      cases addition with
      | entry other => simp [add, edges_addEntry]
      | reachable other => simp [add, edges_addReachable]
      | edge other => simp [add, mem_addEdge, or_assoc]

end Membership

section Forming

variable {graph : CallGraph Point Method} {method other : Method} {edge : CallEdge Point Method}

theorem nodup_nodes_addNode (areDistinct : graph.nodes.Nodup) :
    (graph.addNode method).nodes.Nodup := by
  unfold addNode
  split
  case isTrue => exact areDistinct
  case isFalse isNew => exact nodup_append_of_not_contains areDistinct isNew

theorem mem_nodes_addNode :
    other ∈ (graph.addNode method).nodes ↔ other ∈ graph.nodes ∨ other = method := by
  unfold addNode
  split
  case isTrue known =>
    exact (or_iff_left_of_imp fun isSame => isSame ▸ List.contains_iff_mem.mp known).symm
  case isFalse => simp only [List.mem_append, List.mem_singleton]

theorem wellFormed_empty : (empty : CallGraph Point Method).WellFormed := by
  refine ⟨List.nodup_nil, List.nodup_nil, List.nodup_nil, List.nodup_nil, fun method => ?_⟩
  simp [empty]

theorem WellFormed.addEntry (wellFormed : graph.WellFormed) :
    (graph.addEntry method).WellFormed := by
  unfold CallGraph.addEntry
  split
  case isTrue => exact wellFormed
  case isFalse isNew =>
      exact { wellFormed with entries := nodup_append_of_not_contains wellFormed.entries isNew }

theorem WellFormed.addReachable (wellFormed : graph.WellFormed) :
    (graph.addReachable method).2.WellFormed := by
  unfold CallGraph.addReachable
  split
  case isTrue => exact wellFormed
  case isFalse isNew =>
      constructor
      case nodes => exact nodup_nodes_addNode wellFormed.nodes
      case entries =>
          rw [entries_addNode]
          exact wellFormed.entries
      case reachable =>
          rw [reachable_addNode]
          exact nodup_append_of_not_contains wellFormed.reachable isNew
      case edges =>
          rw [edges_addNode]
          exact wellFormed.edges
      case known =>
          intro other
          rw [mem_nodes_addNode, reachable_addNode, edges_addNode, wellFormed.known,
            List.mem_append, List.mem_singleton, or_right_comm]

theorem WellFormed.addEdge (wellFormed : graph.WellFormed) : (graph.addEdge edge).2.WellFormed := by
  unfold CallGraph.addEdge
  split
  case isTrue => exact wellFormed
  case isFalse isNew =>
      constructor
      case nodes => exact nodup_nodes_addNode (nodup_nodes_addNode wellFormed.nodes)
      case entries =>
          rw [entries_addNode, entries_addNode]
          exact wellFormed.entries
      case reachable =>
          rw [reachable_addNode, reachable_addNode]
          exact wellFormed.reachable
      case edges =>
          show (((graph.addNode _).addNode _).edges ++ [edge]).Nodup
          rw [edges_addNode, edges_addNode]
          exact nodup_append_of_not_contains wellFormed.edges isNew
      case known =>
          intro other
          show other ∈ ((graph.addNode _).addNode _).nodes ↔ _
          rw [mem_nodes_addNode, mem_nodes_addNode, reachable_addNode, reachable_addNode,
            wellFormed.known]
          simp only [edges_addNode, List.mem_append, List.mem_singleton, or_and_right, exists_or,
            exists_eq_left, or_assoc, @eq_comm _ other]

theorem WellFormed.add (wellFormed : graph.WellFormed) (addition : Addition Point Method) :
    (graph.add addition).WellFormed := by
  cases addition with
  | entry method => exact wellFormed.addEntry
  | reachable method => exact wellFormed.addReachable
  | edge edge => exact wellFormed.addEdge

/-- Whatever is added, a call graph stays well formed. -/
theorem wellFormed_ofAdditions (additions : List (Addition Point Method)) :
    (ofAdditions additions).WellFormed :=
  List.foldlRecOn (motive := WellFormed) _ _ wellFormed_empty
    fun _ wellFormed addition _ => wellFormed.add addition

end Forming

end CallGraph

end TacAnalysis
