/-
# What a search finds

A search finds the nodes at the ends of the paths from those that wait. While it is going
on, whatever a visited node leads to has been visited itself or waits; once nothing waits,
all that visited nodes lead to has been visited. So a later search may pass over what an
earlier one has visited. The order in which nodes wait does not matter.
-/

import Mathlib.Logic.Relation
import TacAnalysis.Graph.Search

namespace TacAnalysis

open Relation (ReflTransGen)

namespace Graph

variable {Node : Type} {links : Links Node} {lineup : Lineup Node} {waiting visited : List Node}
  {node target : Node}

/-- One node leads to another. -/
def Links.Leads (links : Links Node) (source target : Node) : Prop := target ∈ links.next source

/-- Whatever a visited node leads to has been visited, or waits. -/
def ClosedUpTo (links : Links Node) (waiting visited : List Node) : Prop :=
  ∀ source ∈ visited, ∀ target, links.Leads source target → target ∈ visited ∨ target ∈ waiting

/-- A path from a visited node ends at one, or passes through a node that waits. -/
theorem ClosedUpTo.mem_of_path (closed : ClosedUpTo links waiting visited)
    (path : ReflTransGen links.Leads node target) (isVisited : node ∈ visited) :
    target ∈ visited ∨ ∃ middle ∈ waiting, ReflTransGen links.Leads middle target := by
  induction path with
  | refl => exact .inl isVisited
  | @tail middle target _ leads ih =>
      rcases ih with isVisited | ⟨first, isWaiting, path⟩
      · exact (closed _ isVisited _ leads).imp_right fun isWaiting => ⟨target, isWaiting, .refl⟩
      · exact .inr ⟨first, isWaiting, path.tail leads⟩

/-- A node that has been visited before need not wait. -/
theorem ClosedUpTo.pass (closed : ClosedUpTo links (node :: waiting) visited)
    (isOld : node ∈ visited) : ClosedUpTo links waiting visited := by
  intro source isVisited target leads
  rcases closed _ isVisited _ leads with isTarget | isWaiting
  · exact .inl isTarget
  · rcases List.mem_cons.mp isWaiting with rfl | isWaiting
    · exact .inl isOld
    · exact .inr isWaiting

/-- A node is visited while what it leads to is put with the nodes that wait. -/
theorem ClosedUpTo.visit (closed : ClosedUpTo links (node :: waiting) visited)
    (lineup : Lineup Node) : ClosedUpTo links
      (lineup.put (node :: visited) waiting (links.next node)) (node :: visited) := by
  intro source isVisited target leads
  by_cases isOld : target ∈ node :: visited
  · exact .inl isOld
  refine .inr (lineup.mem_put ?_ isOld)
  rcases List.mem_cons.mp isVisited with rfl | isVisited
  · exact .inr leads
  · rcases closed _ isVisited _ leads with isTarget | isWaiting
    · exact absurd (List.mem_cons_of_mem _ isTarget) isOld
    · exact .inl ((List.mem_cons.mp isWaiting).resolve_left fun isNode =>
        isOld (isNode ▸ List.mem_cons_self))

variable [DecidableEq Node]

/-- A search finds what the nodes that wait lead to, besides what has been visited. -/
theorem mem_search_of_closed (closed : ClosedUpTo links waiting visited) :
    node ∈ search links lineup waiting visited ↔
      node ∈ visited ∨ ∃ start ∈ waiting, ReflTransGen links.Leads start node := by
  fun_induction search links lineup waiting visited with
  | case1 => simp
  | case2 visited first waiting isOld ih =>
      rw [ih (closed.pass isOld)]
      constructor
      · exact Or.imp_right fun ⟨start, isWaiting, path⟩ =>
          ⟨start, List.mem_cons_of_mem _ isWaiting, path⟩
      · rintro (isVisited | ⟨start, isWaiting, path⟩)
        · exact .inl isVisited
        · rcases List.mem_cons.mp isWaiting with rfl | isWaiting
          · exact (closed.pass isOld).mem_of_path path isOld
          · exact .inr ⟨start, isWaiting, path⟩
  | case3 visited first waiting isNew others ih =>
      rw [ih (closed.visit lineup)]
      constructor
      · rintro (isVisited | ⟨start, isPut, path⟩)
        · rcases List.mem_cons.mp isVisited with rfl | isVisited
          · exact .inr ⟨node, List.mem_cons_self, .refl⟩
          · exact .inl isVisited
        · rcases lineup.of_mem_put isPut with isWaiting | leads
          · exact .inr ⟨start, List.mem_cons_of_mem _ isWaiting, path⟩
          · exact .inr ⟨first, List.mem_cons_self, path.head leads⟩
      · rintro (isVisited | ⟨start, isWaiting, path⟩)
        · exact .inl (List.mem_cons_of_mem _ isVisited)
        · by_cases isOld : start ∈ first :: visited
          · exact (closed.visit lineup).mem_of_path path isOld
          · rcases List.mem_cons.mp isWaiting with rfl | isWaiting
            · exact absurd List.mem_cons_self isOld
            · exact .inr ⟨start, lineup.mem_put (.inl isWaiting) isOld, path⟩

/-- What is there once a search is over has nothing to wait for. -/
theorem ClosedUpTo.search (closed : ClosedUpTo links waiting visited) :
    ClosedUpTo links [] (search links lineup waiting visited) := by
  intro source isVisited target leads
  left
  rw [mem_search_of_closed closed] at isVisited ⊢
  rcases isVisited with isVisited | ⟨start, isWaiting, path⟩
  · rcases closed _ isVisited _ leads with isTarget | isWaiting
    · exact .inl isTarget
    · exact .inr ⟨target, isWaiting, .refl⟩
  · exact .inr ⟨start, isWaiting, path.tail leads⟩

/-- A search from one node finds what the node leads to. -/
theorem mem_search {start : Node} :
    node ∈ search links lineup [start] [] ↔ ReflTransGen links.Leads start node := by
  rw [mem_search_of_closed nofun, or_iff_right List.not_mem_nil]
  simp only [List.mem_singleton, exists_eq_left]

end Graph

namespace Digraph

variable {Node Label : Type} [DecidableEq Node] {graph : Digraph Node Label} {targets : List Node}
  {node source target : Node}

/-- An arc goes from one node to another. -/
def Leads (graph : Digraph Node Label) (source target : Node) : Prop :=
  ∃ arc ∈ graph.arcs, arc.source = source ∧ arc.target = target

theorem leads_outLinks : graph.outLinks.Leads source target ↔ graph.Leads source target :=
  graph.mem_successors

theorem leads_inLinks : graph.inLinks.Leads target source ↔ graph.Leads source target := by
  refine graph.mem_predecessors.trans (exists_congr fun arc => and_congr_right fun _ => ?_)
  exact and_comm

theorem path_inLinks : ReflTransGen graph.inLinks.Leads target source ↔
    ReflTransGen graph.Leads source target := by
  have isSwapped : graph.inLinks.Leads = Function.swap graph.Leads :=
    funext fun _ => funext fun _ => propext leads_inLinks
  rw [isSwapped, Relation.reflTransGen_swap]

/-- The searches from several targets find what leads to one of them. -/
theorem mem_discover : node ∈ graph.discover targets ↔
    ∃ target ∈ targets, ReflTransGen graph.Leads node target := by
  have finds (visited : List Node) (closed : Graph.ClosedUpTo graph.inLinks [] visited) :
      node ∈ targets.foldl (fun visited target =>
          Graph.search graph.inLinks .freshStack [target] visited) visited ↔
        node ∈ visited ∨ ∃ target ∈ targets, ReflTransGen graph.Leads node target := by
    induction targets generalizing visited with
    | nil => simp
    | cons target targets ih =>
        have closed : Graph.ClosedUpTo graph.inLinks [target] visited :=
          fun _ isVisited _ leads => (closed _ isVisited _ leads).imp_right nofun
        rw [List.foldl_cons, ih _ closed.search, Graph.mem_search_of_closed closed]
        simp only [path_inLinks, List.mem_cons, List.not_mem_nil, or_false, exists_eq_left,
          exists_eq_or_imp, or_assoc]
  exact (finds [] nofun).trans (or_iff_right List.not_mem_nil)

end Digraph

end TacAnalysis
