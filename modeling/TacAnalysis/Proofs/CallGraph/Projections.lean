/-
# What call graphs tell beside their edges

A call graph keeps listings by site and by method, arcs and nodes of its own, beside the
edges. However it has been made, they are projections of the edges: edges that differ in
their kind only are one callee, and one arc each. Additions are reported when they enlarge
the graph. A points-to analysis drops the contexts of its call graph and of its pointers in
two ways, which agree: by building a plain graph and by projecting edge by edge, and by
reading a range of ordered pointers and by looking at all of them.
-/

import Mathlib.Data.List.Sort
import TacAnalysis.Proofs.CallGraph.Additions
import TacAnalysis.Proofs.PointsTo.EntryMethods

namespace TacAnalysis

/-- Numbers that are in the same lists are shown in the same way. -/
theorem ascending_eq_ascending {first second : List Nat}
    (sameMembers : ∀ number, number ∈ first ↔ number ∈ second) :
    ascending first = ascending second := by
  refine List.Pairwise.eq_of_mem_iff (pairwise_ascending first) (pairwise_ascending second) ?_
  intro number
  rw [mem_ascending, mem_ascending, sameMembers]

namespace CallGraph

variable {Point Method : Type} [DecidableEq Point] [DecidableEq Method] [CallSite Point Method]
  {graph : CallGraph Point Method} {additions : List (Addition Point Method)}

section Flags

theorem addEdge_fst {edge : CallEdge Point Method} :
    (graph.addEdge edge).1 = true ↔ edge ∉ graph.edges := by
  rw [← List.contains_iff_mem, addEdge]
  split
  case isTrue isKnown => simpa using isKnown
  case isFalse isNew => simpa using isNew

/-- An edge is reported when it is one more. -/
theorem addEdge_fst_iff {edge : CallEdge Point Method} :
    (graph.addEdge edge).1 = true ↔ ¬ (graph.addEdge edge).2.edges ⊆ graph.edges := by
  rw [addEdge_fst, not_iff_not]
  constructor
  · intro isKnown other isEdge
    rcases (mem_addEdge graph).mp isEdge with wasEdge | rfl
    · exact wasEdge
    · exact isKnown
  · intro areKnown
    exact areKnown ((mem_addEdge graph).mpr (.inr rfl))

theorem addReachable_fst {method : Method} :
    (graph.addReachable method).1 = true ↔ method ∉ graph.reachable := by
  rw [← List.contains_iff_mem, addReachable, contains]
  split
  case isTrue isKnown => simpa using isKnown
  case isFalse isNew => simpa using isNew

/-- A method is reported when it is one more that is reachable. -/
theorem addReachable_fst_iff {method : Method} :
    (graph.addReachable method).1 = true ↔
      ¬ (graph.addReachable method).2.reachable ⊆ graph.reachable := by
  rw [addReachable_fst, not_iff_not]
  constructor
  · intro isKnown other isReachable
    rcases (mem_addReachable graph).mp isReachable with wasReachable | rfl
    · exact wasReachable
    · exact isKnown
  · intro areKnown
    exact areKnown ((mem_addReachable graph).mpr (.inr rfl))

end Flags

/-- What a call graph tells beside its edges and reachable methods agrees with them. -/
structure AgreesWithEdges [Ord Point] [Ord Method] (graph : CallGraph Point Method) : Prop where
  callees site : graph.callees site =
    ascending ((graph.edges.filter fun edge => edge.site = site).map CallEdge.callee)
  callers method : graph.callers method =
    ascending ((graph.edges.filter fun edge => edge.callee = method).map CallEdge.site)
  callSites : graph.callSites = ascending (graph.edges.map CallEdge.site)
  edgesOnce : graph.edges.Nodup
  arcs : graph.toDigraph.arcs =
    graph.edges.map fun edge => ⟨CallSite.container edge.site, edge, edge.callee⟩
  nodes method : method ∈ graph.toDigraph.nodes ↔ method ∈ graph.reachable ∨
    ∃ edge ∈ graph.edges, CallSite.container edge.site = method ∨ edge.callee = method
  nodesOnce : graph.toDigraph.nodes.Nodup
  addEdge edge : (graph.addEdge edge).1 = true ↔ ¬ (graph.addEdge edge).2.edges ⊆ graph.edges
  addReachable method : (graph.addReachable method).1 = true ↔
    ¬ (graph.addReachable method).2.reachable ⊆ graph.reachable

theorem WellFormed.agreesWithEdges [Ord Point] [Ord Method] (wellFormed : graph.WellFormed) :
    graph.AgreesWithEdges where
  callees := callees_eq
  callers := callers_eq
  callSites := callSites_eq
  edgesOnce := wellFormed.edges
  arcs := graph.drawn
  nodes := wellFormed.known
  nodesOnce := wellFormed.nodes
  addEdge _ := addEdge_fst_iff
  addReachable _ := addReachable_fst_iff

end CallGraph

namespace PointsTo

/-- A pointer is a variable. -/
def Pointer.isVar (var : VarId) : Pointer → Bool
  | .var other _ => other = var
  | _ => false

namespace State

variable {state : State}

/-- What calls find is the same in the call graph without contexts. -/
theorem calleesAt_eq (site : Site) : state.calleesAt site = state.callGraph.callees site := by
  rw [CallGraph.callees_eq, calleesAt]
  apply ascending_eq_ascending
  intro method
  simp only [List.mem_map, List.mem_filter, decide_eq_true_eq, mem_edges_callGraph]
  constructor
  · rintro ⟨edge, ⟨isEdge, rfl⟩, rfl⟩
    exact ⟨plainEdge edge, ⟨⟨edge, isEdge, rfl⟩, rfl⟩, rfl⟩
  · rintro ⟨-, ⟨⟨edge, isEdge, rfl⟩, rfl⟩, rfl⟩
    exact ⟨edge, ⟨isEdge, rfl⟩, rfl⟩

/-- The methods that may run are the same in the call graph without contexts. -/
theorem reachableMethods_eq : state.reachableMethods = state.callGraph.reachableMethods := by
  rw [CallGraph.reachableMethods, reachableMethods]
  apply ascending_eq_ascending
  intro method
  rw [mem_reachable_callGraph, List.mem_map]

/-- The ordered range of a variable holds its pointers, each of them once. -/
theorem perm_varPointers (var : VarId) :
    (state.flow.varPointers var).Perm (state.pointersWhere (Pointer.isVar var)) := by
  rw [FlowGraph.varPointers, FlowGraph.range, pointersWhere, FlowGraph.numbered,
    ← state.flow.pointers.indexed]
  refine ((List.mergeSort_perm _ _).trans (.of_eq ?_)).map _
  apply List.filter_congr
  rintro ⟨pointer, id⟩ isListed
  have isPointer := ArrivalSet.mem_index.mp isListed
  rw [Bool.eq_iff_iff, Bool.and_eq_true, FlowGraph.between_iff]
  cases pointer with
  | var other context =>
      rw [Pointer.isVar, decide_eq_true_eq]
      constructor
      · rintro ⟨_, ⟨⟩, -⟩
        rfl
      · rintro rfl
        exact ⟨context, rfl, Nat.zero_le _, FlowGraph.le_lastContext isPointer⟩
  | staticField | instanceField | elements =>
      constructor
      · rintro ⟨_, isVar, -⟩
        cases isVar
      · intro isVar
        cases isVar

/-- What a variable may hold is found by looking at all pointers. -/
theorem objectsInVar_eq (var : VarId) :
    state.objectsInVar var = state.objectsOf (state.pointersWhere (Pointer.isVar var)) := by
  rw [objectsInVar, objectsOf, objectsOf]
  apply ascending_eq_ascending
  intro object
  simp only [List.mem_map, List.mem_flatMap, (perm_varPointers var).mem_iff]

end State

end PointsTo

/-- What is told of a call graph, whatever has been added to it, are projections of its edges and
reachable methods, which are the ones that have been added. An analysis tells the same of calls
and methods as its call graph without contexts, and of a variable what all of its pointers hold,
each of them being read once. -/
theorem projections_agree {Point Method : Type} [DecidableEq Point] [DecidableEq Method]
    [CallSite Point Method] [Ord Point] [Ord Method] (additions : List (Addition Point Method))
    (state : PointsTo.State) :
    (CallGraph.ofAdditions additions).AgreesWithEdges ∧
      (∀ edge, edge ∈ (CallGraph.ofAdditions additions).edges ↔ .edge edge ∈ additions) ∧
      (∀ method, method ∈ (CallGraph.ofAdditions additions).reachable ↔
        .reachable method ∈ additions) ∧
      (∀ site, state.calleesAt site = state.callGraph.callees site) ∧
      state.reachableMethods = state.callGraph.reachableMethods ∧
      ∀ var, (state.flow.varPointers var).Perm
          (state.pointersWhere (PointsTo.Pointer.isVar var)) ∧
        state.objectsInVar var =
          state.objectsOf (state.pointersWhere (PointsTo.Pointer.isVar var)) := by
  refine ⟨(CallGraph.wellFormed_ofAdditions additions).agreesWithEdges, fun edge => ?_,
    fun method => ?_, PointsTo.State.calleesAt_eq, PointsTo.State.reachableMethods_eq,
    fun var => ⟨PointsTo.State.perm_varPointers var, PointsTo.State.objectsInVar_eq var⟩⟩
  · exact CallGraph.mem_edges_foldl_add.trans (or_iff_right List.not_mem_nil)
  · exact CallGraph.mem_reachable_foldl_add.trans (or_iff_right List.not_mem_nil)

end TacAnalysis
