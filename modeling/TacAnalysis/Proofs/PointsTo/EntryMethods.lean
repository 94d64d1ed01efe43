/-
# The entry methods of a points-to analysis

The entry methods are recorded before the analysis starts, in the order of the program and
once each. No work adds to them, so that they are those that class hierarchy analysis
records.
-/

import TacAnalysis.Proofs.CallGraph.Additions
import TacAnalysis.Proofs.HierarchyCallGraph
import TacAnalysis.Proofs.PointsTo.Updates

namespace TacAnalysis

namespace CallGraph

variable {Point Method Qualified : Type} [DecidableEq Point] [DecidableEq Method]
  [DecidableEq Qualified] [CallSite Point Method] {graph : CallGraph Point Method}
  {methods : List Method}

/-- Methods that are named otherwise are recorded in the same order. -/
theorem entries_foldl_addEntry_map {name : Method → Qualified}
    (isInjective : ∀ {first second}, name first = name second → first = second)
    {Site : Type} [DecidableEq Site] [CallSite Site Qualified] {named : CallGraph Site Qualified}
    (sameEntries : named.entries = graph.entries.map name) :
    ((methods.map name).foldl .addEntry named).entries =
      (methods.foldl .addEntry graph).entries.map name := by
  induction methods generalizing graph named with
  | nil => exact sameEntries
  | cons method methods ih =>
      apply ih
      have sameTest : named.entries.contains (name method) = graph.entries.contains method := by
        rw [Bool.eq_iff_iff, List.contains_iff_mem, List.contains_iff_mem, sameEntries,
          List.mem_map]
        constructor
        · rintro ⟨other, isEntry, sameName⟩
          rwa [← isInjective sameName]
        · intro isEntry
          exact ⟨method, isEntry, rfl⟩
      simp only [addEntry, sameTest]
      split
      case isTrue => exact sameEntries
      case isFalse => rw [sameEntries, List.map_append, List.map_singleton]

end CallGraph

namespace PointsTo.State

variable {program : Program} {selector : Selector} {state : State}

/-- No work adds to the entry methods. -/
theorem entries_run {steps : Nat} {last : State}
    (isRun : run program selector steps state = .ok last) :
    last.calls.entries = state.calls.entries := by
  let Same (other : State) : Prop := other.calls.entries = state.calls.entries
  have keeps {old new : State} (isSame : Same old) (isStep : step? program selector old = some new) :
      Same new := by
    obtain ⟨item, worklist, -, rfl⟩ := exists_of_step isStep
    exact updates_visit.entries.trans isSame
  exact (run_induction (motive := Same) keeps rfl isRun).1

/-- The entry methods are recorded in order, in the empty context. -/
theorem entries_enter : (enter program state).calls.entries =
    ((program.entries.map (QualifiedMethod.mk Contexts.emptyContext)).foldl .addEntry
      state.calls).entries := by
  unfold enter
  generalize program.entries = methods
  induction methods generalizing state with
  | nil => rfl
  | cons method methods ih => exact ih

theorem mem_entries_enter {method : MethodId} (isEntry : method ∈ program.entries) :
    ⟨Contexts.emptyContext, method⟩ ∈ (enter program state).calls.entries := by
  rw [entries_enter]
  exact (CallGraph.mem_foldl CallGraph.entries (fun _ _ _ => CallGraph.mem_addEntry _) _ _ _).mpr
    (.inr (List.mem_map_of_mem isEntry))

/-- The entry methods of an analysis are those of class hierarchy analysis, in the empty
context. -/
theorem entries_pointsTo {steps : Nat} (solved : program.pointsTo selector steps = .ok state)
    {calls : CallGraph Site MethodId} (isGraph : program.hierarchyCallGraph = .ok calls) :
    state.calls.entries = calls.entries.map (QualifiedMethod.mk Contexts.emptyContext) := by
  rw [entries_run (run_of_pointsTo solved).2, entries_enter,
    Program.entries_hierarchyCallGraph isGraph]
  exact CallGraph.entries_foldl_addEntry_map
    (fun sameName => (QualifiedMethod.mk.inj sameName).2) rfl

section CallGraphs

theorem foldl_addReachable (methods : List MethodId) (graph : CallGraph Site MethodId) :
    (methods.foldl (fun graph method => (graph.addReachable method).2) graph).entries =
        graph.entries ∧
      (methods.foldl (fun graph method => (graph.addReachable method).2) graph).edges =
        graph.edges ∧
      ∀ method, method ∈ (methods.foldl (fun graph method => (graph.addReachable method).2)
        graph).reachable ↔ method ∈ graph.reachable ∨ method ∈ methods :=
  ⟨CallGraph.read_foldl _ (fun _ _ => CallGraph.entries_addReachable _) _ _,
    CallGraph.read_foldl _ (fun _ _ => CallGraph.edges_addReachable _) _ _,
    CallGraph.mem_foldl _ (fun _ _ _ => CallGraph.mem_addReachable _) _ _⟩

theorem foldl_addEdge (edges : List (CallEdge Site MethodId)) (graph : CallGraph Site MethodId) :
    (edges.foldl (fun graph edge => (graph.addEdge edge).2) graph).entries = graph.entries ∧
      (edges.foldl (fun graph edge => (graph.addEdge edge).2) graph).reachable =
        graph.reachable ∧
      ∀ edge, edge ∈ (edges.foldl (fun graph edge => (graph.addEdge edge).2) graph).edges ↔
        edge ∈ graph.edges ∨ edge ∈ edges :=
  ⟨CallGraph.read_foldl _ (fun _ _ => CallGraph.entries_addEdge _) _ _,
    CallGraph.read_foldl _ (fun _ _ => CallGraph.reachable_addEdge _) _ _,
    CallGraph.mem_foldl _ (fun _ _ _ => CallGraph.mem_addEdge _) _ _⟩

theorem entries_callGraph : state.callGraph.entries =
    ((state.calls.entries.map QualifiedMethod.method).foldl .addEntry
      (.empty : CallGraph Site MethodId)).entries := by
  rw [callGraph, (foldl_addEdge _ _).1, (foldl_addReachable _ _).1]

theorem mem_reachable_callGraph {method : MethodId} : method ∈ state.callGraph.reachable ↔
    ∃ qualified ∈ state.calls.reachable, qualified.method = method := by
  rw [callGraph, (foldl_addEdge _ _).2.1, (foldl_addReachable _ _).2.2,
    (Program.foldl_addEntry _ _).1, CallGraph.reachableMethods]
  simp only [CallGraph.empty, List.not_mem_nil, false_or, List.mem_map, mem_ascending]

theorem mem_edges_callGraph {edge : CallEdge Site MethodId} : edge ∈ state.callGraph.edges ↔
    ∃ qualified ∈ state.calls.edges, plainEdge qualified = edge := by
  rw [callGraph, (foldl_addEdge _ _).2.2, (foldl_addReachable _ _).2.1,
    (Program.foldl_addEntry _ _).2.1, CallGraph.sortedEdges]
  simp only [CallGraph.empty, List.not_mem_nil, false_or, List.mem_map, mem_ascending]

/-- Without contexts, the entry methods are those of class hierarchy analysis in the same
order. -/
theorem entries_callGraph_eq {steps : Nat} (solved : program.pointsTo selector steps = .ok state)
    {calls : CallGraph Site MethodId} (isGraph : program.hierarchyCallGraph = .ok calls) :
    state.callGraph.entries = calls.entries := by
  have areDifferent : calls.entries.Nodup := by
    rw [Program.entries_hierarchyCallGraph isGraph, CallGraph.entries_foldl_addEntry]
    exact nodup_eraseDups _
  have sameMethods : (calls.entries.map (QualifiedMethod.mk Contexts.emptyContext)).map
      QualifiedMethod.method = calls.entries := by
    rw [List.map_map]
    exact List.map_id _
  rw [entries_callGraph, entries_pointsTo solved isGraph, sameMethods]
  exact CallGraph.entries_foldl_addEntry_of_nodup areDifferent

end CallGraphs

end PointsTo.State

end TacAnalysis
