/-
# Searches

A search looks at the nodes that wait, one after the other. A node that has been visited is
passed over; any other one is visited now, and what it leads to is put with the nodes that
wait. Searches differ in how they do so: new nodes go to the end of a queue or to the top of
a stack, and those that have been visited already may be left out.
-/

import TacAnalysis.Graph.Digraph

namespace TacAnalysis

namespace Graph

variable {Node : Type}

/-- What nodes lead to. Only some nodes, which are known, lead to others at all. -/
structure Links (Node : Type) where
  next : Node → List Node
  sources : List Node
  mem_sources : ∀ {source target : Node}, target ∈ next source → source ∈ sources

/-- How nodes are put with those that wait, once some have been visited. -/
structure Lineup (Node : Type) where
  put : (visited waiting found : List Node) → List Node
  length_put_le : ∀ visited waiting found,
    (put visited waiting found).length ≤ waiting.length + found.length
  of_mem_put : ∀ {visited waiting found node}, node ∈ put visited waiting found →
    node ∈ waiting ∨ node ∈ found
  mem_put : ∀ {visited waiting found node}, node ∈ waiting ∨ node ∈ found → node ∉ visited →
    node ∈ put visited waiting found

section Lineups

variable [DecidableEq Node]

/-- The nodes that have not been visited. -/
def unvisited (visited nodes : List Node) : List Node :=
  nodes.filter fun node => !visited.contains node

theorem mem_unvisited {visited nodes : List Node} {node : Node} :
    node ∈ unvisited visited nodes ↔ node ∈ nodes ∧ node ∉ visited := by
  simp [unvisited]

/-- Nodes that have not been visited go to the end of a queue. -/
def Lineup.queue : Lineup Node where
  put visited waiting found := waiting ++ unvisited visited found
  length_put_le visited waiting found := by
    rw [List.length_append]
    exact Nat.add_le_add_left (List.length_filter_le _ _) _
  of_mem_put isPut := by
    rcases List.mem_append.mp isPut with isWaiting | isFound
    · exact .inl isWaiting
    · exact .inr (mem_unvisited.mp isFound).1
  mem_put isThere isNew :=
    List.mem_append.mpr (isThere.imp_right fun isFound => mem_unvisited.mpr ⟨isFound, isNew⟩)

/-- All nodes go to the top of a stack, the last one being the next. -/
def Lineup.stack : Lineup Node where
  put _ waiting found := found.reverse ++ waiting
  length_put_le _ waiting found := by
    have sameLength : (found.reverse ++ waiting).length = waiting.length + found.length := by
      rw [List.length_append, List.length_reverse, Nat.add_comm]
    exact Nat.le_of_eq sameLength
  of_mem_put isPut := by simpa [or_comm] using isPut
  mem_put isThere _ := by simpa [or_comm] using isThere

/-- Nodes that have not been visited go to the top of a stack, the last one being the next. -/
def Lineup.freshStack : Lineup Node where
  put visited waiting found := (unvisited visited found).reverse ++ waiting
  length_put_le visited waiting found := by
    rw [List.length_append, List.length_reverse, Nat.add_comm]
    exact Nat.add_le_add_left (List.length_filter_le _ _) _
  of_mem_put isPut := by
    rcases List.mem_append.mp isPut with isFound | isWaiting
    · exact .inr (mem_unvisited.mp (List.mem_reverse.mp isFound)).1
    · exact .inl isWaiting
  mem_put isThere isNew := by
    rcases isThere with isWaiting | isFound
    · exact List.mem_append_right _ isWaiting
    · exact List.mem_append_left _ (List.mem_reverse.mpr (mem_unvisited.mpr ⟨isFound, isNew⟩))

end Lineups

variable [DecidableEq Node]

namespace Links

variable (links : Links Node)

/-- The number of times that nodes may still be found, from those that have not been visited. -/
def toFind (visited : List Node) : Nat :=
  (links.sources.flatMap fun source =>
    if source ∈ visited then [] else links.next source).length

/-- What a node leads to is no longer to be found once the node is visited. -/
theorem length_next_add_toFind {visited : List Node} {node : Node} (isNew : node ∉ visited) :
    (links.next node).length + links.toFind (node :: visited) ≤ links.toFind visited := by
  let ahead (visited : List Node) (source : Node) : List Node :=
    if source ∈ visited then [] else links.next source
  have others (sources : List Node) :
      (if node ∈ sources then (links.next node).length else 0) +
          (sources.flatMap (ahead (node :: visited))).length ≤
        (sources.flatMap (ahead visited)).length := by
    induction sources with
    | nil => exact Nat.le_refl _
    | cons source sources ih =>
        simp only [List.flatMap_cons, List.length_append, List.mem_cons]
        by_cases isNode : node = source
        · subst isNode
          have noneLeft : ahead (node :: visited) node = [] := if_pos List.mem_cons_self
          have areLeft : ahead visited node = links.next node := if_neg isNew
          rw [if_pos (.inl rfl), noneLeft, areLeft, List.length_nil]
          omega
        · have isSame : ahead (node :: visited) source = ahead visited source := by
            simp only [ahead, List.mem_cons, Ne.symm isNode, false_or]
          simp only [isNode, false_or, isSame]
          omega
  refine Nat.le_trans (Nat.add_le_add_right ?_ _) (others links.sources)
  split
  case isTrue => exact Nat.le_refl _
  case isFalse notSource =>
      have isEmpty : links.next node = [] := List.eq_nil_iff_forall_not_mem.mpr
        fun target isTarget => notSource (links.mem_sources isTarget)
      rw [isEmpty]
      exact Nat.le_refl _

end Links

/-- Goes on with a search until nothing waits, and gives what has been visited. -/
def search (links : Links Node) (lineup : Lineup Node) (waiting visited : List Node) :
    List Node :=
  match waiting with
  | [] => visited
  | node :: waiting =>
      if node ∈ visited then search links lineup waiting visited
      else
        let others := lineup.put (node :: visited) waiting (links.next node)
        search links lineup others (node :: visited)
termination_by waiting.length + links.toFind visited
decreasing_by
  · exact Nat.add_lt_add_right (Nat.lt_succ_self _) _
  case _ isNew =>
    have isLess := links.length_next_add_toFind isNew
    have areFewer := lineup.length_put_le (node :: visited) waiting (links.next node)
    rw [List.length_cons]
    omega

end Graph

namespace Digraph

variable {Node Label : Type} [DecidableEq Node] (graph : Digraph Node Label)

/-- Along the arcs of a graph. -/
def outLinks : Graph.Links Node where
  next := graph.successors
  sources := graph.arcs.map Arc.source
  mem_sources isSuccessor := by
    obtain ⟨arc, isArc, rfl, -⟩ := graph.mem_successors.mp isSuccessor
    exact List.mem_map_of_mem isArc

/-- Against the arcs of a graph. -/
def inLinks : Graph.Links Node where
  next := graph.predecessors
  sources := graph.arcs.map Arc.target
  mem_sources isPredecessor := by
    obtain ⟨arc, isArc, rfl, -⟩ := graph.mem_predecessors.mp isPredecessor
    exact List.mem_map_of_mem isArc

/-- The nodes from which a path leads to one of some targets. A search is made from each
target in turn, and keeps away from what the searches before have visited. -/
def discover (targets : List Node) : List Node :=
  targets.foldl (fun visited target => Graph.search graph.inLinks .freshStack [target] visited) []

end Digraph

end TacAnalysis
