/-
# Filtering call graphs

A filtered call graph has the methods from which calls may lead to a known one that
satisfies a condition, and the calls between them. The calls on the way all lead there
themselves, so that a path to such a method is kept as a whole or not at all. Hence nothing
is lost when the graph is filtered again, and a method that calls lead to from an entry
method is still led to from one.
-/

import TacAnalysis.Proofs.CallGraph.Additions
import TacAnalysis.Proofs.Graph.Search

namespace TacAnalysis.CallGraph

open Relation (ReflTransGen)

section Paths

variable {Point Method : Type} [DecidableEq Point] [DecidableEq Method] [CallSite Point Method]
  (graph : CallGraph Point Method)

/-- An edge goes from one method to another. -/
def Calls (caller callee : Method) : Prop :=
  ∃ edge ∈ graph.edges, CallSite.container edge.site = caller ∧ edge.callee = callee

/-- Calls, if any, lead from a method to a known one that satisfies a condition. -/
def LeadsTo (condition : Method → Bool) (method : Method) : Prop :=
  ∃ target ∈ graph.nodes, condition target = true ∧ ReflTransGen graph.Calls method target

/-- Calls, if any, lead from some entry method to each reachable one. -/
def IsEntered : Prop :=
  ∀ method ∈ graph.reachable, ∃ entry ∈ graph.entries, ReflTransGen graph.Calls entry method

variable {graph}

theorem leads_toDigraph {caller callee : Method} :
    graph.toDigraph.Leads caller callee ↔ graph.Calls caller callee := by
  constructor
  · rintro ⟨arc, isArc, hasSource, hasTarget⟩
    obtain ⟨edge, isEdge, rfl⟩ := graph.mem_arcs.mp isArc
    exact ⟨edge, isEdge, hasSource, hasTarget⟩
  · rintro ⟨edge, isEdge, isCaller, isCallee⟩
    exact ⟨edge.arc, graph.mem_arcs.mpr ⟨edge, isEdge, rfl⟩, isCaller, isCallee⟩

/-- A call into a method from which calls lead to a target leads there too. -/
theorem LeadsTo.head {condition : Method → Bool} {caller callee : Method}
    (leads : graph.LeadsTo condition callee) (calls : graph.Calls caller callee) :
    graph.LeadsTo condition caller := by
  obtain ⟨target, isKnown, isTarget, path⟩ := leads
  exact ⟨target, isKnown, isTarget, path.head calls⟩

theorem mem_leadingTo {condition : Method → Bool} {method : Method} :
    method ∈ graph.leadingTo condition ↔ graph.LeadsTo condition method := by
  have samePaths : graph.toDigraph.Leads = graph.Calls := by
    funext caller callee
    exact propext leads_toDigraph
  rw [leadingTo, Digraph.mem_discover, samePaths]
  simp only [List.mem_filter, LeadsTo, and_assoc]

end Paths

variable {Point Method : Type} [DecidableEq Point] [DecidableEq Method] [CallSite Point Method]
  [Ord Point] [Ord Method]

/-- What is kept of a call graph: the entry methods first, and the edges last. -/
def kept (graph : CallGraph Point Method) (condition : Method → Bool) :
    List (Addition Point Method) :=
  let isKept method := (graph.leadingTo condition).contains method
  (graph.entries.filter isKept).map .entry ++
    (graph.reachableMethods.filter isKept).map .reachable ++
    (graph.sortedEdges.filter fun edge =>
      isKept (CallSite.container edge.site) && isKept edge.callee).map .edge

/-- What a condition leaves of a call graph. -/
structure FiltersTo (graph : CallGraph Point Method) (condition : Method → Bool)
    (filtered : CallGraph Point Method) : Prop where
  reachable : ∀ method, method ∈ filtered.reachable ↔
    method ∈ graph.reachable ∧ graph.LeadsTo condition method
  edges : ∀ edge, edge ∈ filtered.edges ↔
    edge ∈ graph.edges ∧ graph.LeadsTo condition edge.callee
  entries : ∃ isKept : Method → Bool, (∀ method, isKept method ↔ graph.LeadsTo condition method) ∧
    filtered.entries = graph.entries.filter isKept
  reachableAgain : (filtered.filter condition).reachable.Perm filtered.reachable
  edgesAgain : (filtered.filter condition).edges.Perm filtered.edges
  entriesAgain : (filtered.filter condition).entries = filtered.entries
  entered : graph.IsEntered → filtered.IsEntered

variable {graph : CallGraph Point Method} {condition : Method → Bool} {method : Method}
  {edge : CallEdge Point Method}

/-- A filtered call graph is built anew from what is kept. -/
theorem filter_eq_ofAdditions : graph.filter condition = ofAdditions (graph.kept condition) := by
  simp only [filter, ofAdditions, kept, List.foldl_append, List.foldl_map, add]

theorem wellFormed_filter : (graph.filter condition).WellFormed := by
  rw [filter_eq_ofAdditions]
  exact wellFormed_ofAdditions _

theorem mem_reachable_filter : method ∈ (graph.filter condition).reachable ↔
    method ∈ graph.reachable ∧ graph.LeadsTo condition method := by
  rw [filter_eq_ofAdditions, ofAdditions, mem_reachable_foldl_add]
  simp [kept, empty, reachableMethods, mem_ascending, mem_leadingTo]

theorem mem_edges_filter : edge ∈ (graph.filter condition).edges ↔
    edge ∈ graph.edges ∧ graph.LeadsTo condition edge.callee := by
  rw [filter_eq_ofAdditions, ofAdditions, mem_edges_foldl_add]
  simp only [kept, empty, sortedEdges, List.mem_append, List.mem_map, List.mem_filter,
    mem_ascending, Bool.and_eq_true, List.contains_iff_mem, mem_leadingTo, List.not_mem_nil,
    reduceCtorEq, and_false, exists_false, false_or, Addition.edge.injEq, exists_eq_right]
  constructor
  · rintro ⟨isEdge, -, leads⟩
    exact ⟨isEdge, leads⟩
  · rintro ⟨isEdge, leads⟩
    exact ⟨isEdge, leads.head ⟨edge, isEdge, rfl, rfl⟩, leads⟩

theorem entries_filter (areDistinct : graph.entries.Nodup) : (graph.filter condition).entries =
    graph.entries.filter fun method => (graph.leadingTo condition).contains method := by
  simp only [filter]
  rw [read_foldl CallGraph.entries fun built _ => entries_addEdge built,
    read_foldl CallGraph.entries fun built _ => entries_addReachable built]
  exact entries_foldl_addEntry_of_nodup (areDistinct.filter _)

/-- A path to a method from which calls lead to a target is kept. -/
theorem path_filter {first last : Method} (leads : graph.LeadsTo condition last)
    (path : ReflTransGen graph.Calls first last) :
    graph.LeadsTo condition first ∧ ReflTransGen (graph.filter condition).Calls first last := by
  induction path using ReflTransGen.head_induction_on with
  | refl => exact ⟨leads, .refl⟩
  | head calls _ ih =>
      obtain ⟨leads, path⟩ := ih
      refine ⟨leads.head calls, path.head ?_⟩
      obtain ⟨edge, isEdge, isCaller, rfl⟩ := calls
      exact ⟨edge, mem_edges_filter.mpr ⟨isEdge, leads⟩, isCaller, rfl⟩

/-- From a method that the filtered graph knows, calls still lead where they led to. The
target itself is known there, as the end of the path's last edge if the path has one. -/
theorem LeadsTo.filter (leads : graph.LeadsTo condition method)
    (isKnown : method ∈ (graph.filter condition).nodes) :
    (graph.filter condition).LeadsTo condition method := by
  obtain ⟨target, wasKnown, isTarget, path⟩ := leads
  have path := (path_filter ⟨target, wasKnown, isTarget, .refl⟩ path).2
  refine ⟨target, ?_, isTarget, path⟩
  cases path with
  | refl => exact isKnown
  | tail _ calls =>
      obtain ⟨edge, isEdge, -, isCallee⟩ := calls
      exact (wellFormed_filter.known _).mpr (.inr ⟨edge, isEdge, .inr isCallee⟩)

/-- Filtering again keeps all reachable methods. -/
theorem perm_reachable_filter_filter :
    ((graph.filter condition).filter condition).reachable.Perm
      (graph.filter condition).reachable := by
  refine (List.perm_ext_iff_of_nodup wellFormed_filter.reachable
    wellFormed_filter.reachable).mpr fun method => ?_
  rw [mem_reachable_filter, and_iff_left_iff_imp]
  intro isReachable
  exact (mem_reachable_filter.mp isReachable).2.filter
    ((wellFormed_filter.known _).mpr (.inl isReachable))

/-- Filtering again keeps all edges. -/
theorem perm_edges_filter_filter :
    ((graph.filter condition).filter condition).edges.Perm (graph.filter condition).edges := by
  refine (List.perm_ext_iff_of_nodup wellFormed_filter.edges
    wellFormed_filter.edges).mpr fun edge => ?_
  rw [mem_edges_filter, and_iff_left_iff_imp]
  intro isEdge
  exact (mem_edges_filter.mp isEdge).2.filter
    ((wellFormed_filter.known _).mpr (.inr ⟨edge, isEdge, .inr rfl⟩))

/-- Filtering again keeps all entry methods, which are known because they are reachable. -/
theorem entries_filter_filter (areDistinct : graph.entries.Nodup)
    (areReachable : ∀ entry ∈ graph.entries, entry ∈ graph.reachable) :
    ((graph.filter condition).filter condition).entries = (graph.filter condition).entries := by
  rw [entries_filter wellFormed_filter.entries, List.filter_eq_self]
  intro entry isEntry
  rw [entries_filter areDistinct, List.mem_filter, List.contains_iff_mem, mem_leadingTo] at isEntry
  obtain ⟨wasEntry, leads⟩ := isEntry
  have isReachable : entry ∈ (graph.filter condition).reachable :=
    mem_reachable_filter.mpr ⟨areReachable entry wasEntry, leads⟩
  rw [List.contains_iff_mem, mem_leadingTo]
  exact leads.filter ((wellFormed_filter.known _).mpr (.inl isReachable))

/-- When calls lead from an entry method to each reachable one, the calls that are kept do. -/
theorem IsEntered.filter (areDistinct : graph.entries.Nodup) (isEntered : graph.IsEntered) :
    (graph.filter condition).IsEntered := by
  intro method isReachable
  obtain ⟨wasReachable, leads⟩ := mem_reachable_filter.mp isReachable
  obtain ⟨entry, isEntry, path⟩ := isEntered method wasReachable
  obtain ⟨leads, path⟩ := path_filter leads path
  refine ⟨entry, ?_, path⟩
  rw [entries_filter areDistinct, List.mem_filter, List.contains_iff_mem, mem_leadingTo]
  exact ⟨isEntry, leads⟩

/-- However a call graph has been made, as long as its entry methods are reachable, filtering
it leaves the reachable methods from which calls lead to a known method that satisfies the
condition, the edges into such methods, and such entry methods in order; filtering again
changes nothing, and what calls lead to from an entry method they still lead to. -/
theorem filtersTo_filter (additions : List (Addition Point Method)) (condition : Method → Bool)
    (areReachable : ∀ entry ∈ (ofAdditions additions).entries,
      entry ∈ (ofAdditions additions).reachable) :
    (ofAdditions additions).FiltersTo condition ((ofAdditions additions).filter condition) where
  reachable _ := mem_reachable_filter
  edges _ := mem_edges_filter
  entries := by
    refine ⟨fun method => ((ofAdditions additions).leadingTo condition).contains method, ?_,
      entries_filter (wellFormed_ofAdditions additions).entries⟩
    intro method
    rw [List.contains_iff_mem, mem_leadingTo]
  reachableAgain := perm_reachable_filter_filter
  edgesAgain := perm_edges_filter_filter
  entriesAgain := entries_filter_filter (wellFormed_ofAdditions additions).entries areReachable
  entered := .filter (wellFormed_ofAdditions additions).entries

/-- Two entry methods, one of which leads by parallel calls into a circle, and through it to
a method that is known without being reachable. -/
def circlingCalls : List (Addition Site MethodId) :=
  [.entry 0, .entry 5, .reachable 0, .reachable 5, .reachable 1, .reachable 2, .reachable 4,
    .edge ⟨.static, ⟨0, 0⟩, 1⟩, .edge ⟨.virtual, ⟨0, 0⟩, 1⟩, .edge ⟨.static, ⟨1, 0⟩, 2⟩,
    .edge ⟨.static, ⟨2, 0⟩, 1⟩, .edge ⟨.static, ⟨2, 1⟩, 3⟩, .edge ⟨.static, ⟨2, 2⟩, 4⟩,
    .edge ⟨.static, ⟨5, 0⟩, 4⟩, .edge ⟨.static, ⟨0, 0⟩, 1⟩]

/-- The other entry method and the dead end of the circle are left out. -/
theorem filtersTo_circlingCalls :
    (∀ entry ∈ (ofAdditions circlingCalls).entries,
      entry ∈ (ofAdditions circlingCalls).reachable) ∧
    (ofAdditions circlingCalls).leadingTo (· = 3) = [0, 1, 2, 3] ∧
    (ofAdditions circlingCalls).FiltersTo (· = 3)
      ((ofAdditions circlingCalls).filter (· = 3)) := by
  have areReachable : ∀ entry ∈ (ofAdditions circlingCalls).entries,
      entry ∈ (ofAdditions circlingCalls).reachable := by decide +kernel
  exact ⟨areReachable, by decide +kernel, filtersTo_filter circlingCalls (· = 3) areReachable⟩

end TacAnalysis.CallGraph
