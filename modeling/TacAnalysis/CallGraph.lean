/-
# Call graphs

Which methods a call may run. The same structure serves plain call graphs, whose
sites are program points and whose methods are the methods of the program, and
context-sensitive ones, where both are qualified by a context. Nodes, entry
methods, reachable methods and edges are kept in the order they were added, and
shown in ascending order. Beside the edges there are the arcs they draw between
the methods, and listings of the methods that each site calls and of the sites
that call each method.
-/

import TacAnalysis.Graph.Search
import TacAnalysis.Graph.Label
import TacAnalysis.Listing
import TacAnalysis.Stmt

namespace TacAnalysis

/-- A kind of call sites, each of them inside a method. -/
class CallSite (Point : Type) (Method : outParam Type) where
  /-- The method a call site is in. -/
  container : Point → Method

instance : CallSite Site MethodId where
  container := Site.method

/-- A call that may run a method. -/
structure CallEdge (Point Method : Type) where
  kind : CallKind
  site : Point
  callee : Method
  deriving DecidableEq, Inhabited, Ord

/-- The arc of an edge, from the method that calls to the one called. -/
def CallEdge.arc {Point Method : Type} [CallSite Point Method] (edge : CallEdge Point Method) :
    Arc Method (CallEdge Point Method) :=
  ⟨CallSite.container edge.site, edge, edge.callee⟩

/-- A call graph. A method may be known as the end of an edge without being
reachable, and entry methods are not reachable until they are said to be. -/
structure CallGraph (Point Method : Type) [DecidableEq Point] [DecidableEq Method]
    [CallSite Point Method] where
  nodes : List Method
  entries : List Method
  reachable : List Method
  edges : List (CallEdge Point Method)
  arcs : List (Arc Method (CallEdge Point Method)) := edges.map CallEdge.arc
  /-- The methods that each site calls. -/
  called : Table Point (List Method) := .listBy CallEdge.site CallEdge.callee edges
  /-- The sites that call each method. -/
  calling : Table Method (List Point) := .listBy CallEdge.callee CallEdge.site edges
  drawn : arcs = edges.map CallEdge.arc := by rfl
  listsCalled : called.Lists CallEdge.site CallEdge.callee edges := by
    exact Table.lists_listBy _ _ _
  listsCalling : calling.Lists CallEdge.callee CallEdge.site edges := by
    exact Table.lists_listBy _ _ _

namespace CallGraph

variable {Point Method : Type} [DecidableEq Point] [DecidableEq Method] [CallSite Point Method]

/-- The call graph of nothing. -/
def empty : CallGraph Point Method where
  nodes := []
  entries := []
  reachable := []
  edges := []

instance : Inhabited (CallGraph Point Method) := ⟨empty⟩

instance : DecidableEq (CallGraph Point Method) := fun first second =>
  decidable_of_iff (first.nodes = second.nodes ∧ first.entries = second.entries ∧
      first.reachable = second.reachable ∧ first.edges = second.edges ∧
      first.arcs = second.arcs ∧ first.called = second.called ∧ first.calling = second.calling)
    (by
      cases first
      cases second
      simp)

variable (graph : CallGraph Point Method)

/-- Makes a method known. -/
def addNode (method : Method) : CallGraph Point Method :=
  if graph.nodes.contains method then graph
  else { graph with nodes := graph.nodes ++ [method] }

/-- Records an entry method. -/
def addEntry (method : Method) : CallGraph Point Method :=
  if graph.entries.contains method then graph
  else { graph with entries := graph.entries ++ [method] }

/-- Whether a method is reachable. -/
def contains (method : Method) : Bool := graph.reachable.contains method

/-- Makes a method reachable, and says whether it was not already. -/
def addReachable (method : Method) : Bool × CallGraph Point Method :=
  if graph.contains method then (false, graph)
  else (true, { graph with reachable := graph.reachable ++ [method] }.addNode method)

/-- Adds an edge, and says whether it is new. -/
def addEdge (edge : CallEdge Point Method) : Bool × CallGraph Point Method :=
  if graph.edges.contains edge then (false, graph)
  else
    let known := (graph.addNode (CallSite.container edge.site)).addNode edge.callee
    (true, { known with
      edges := known.edges ++ [edge]
      arcs := known.arcs ++ [edge.arc]
      called := known.called.list edge.site edge.callee
      calling := known.calling.list edge.callee edge.site
      drawn := by rw [known.drawn, List.map_append, List.map_singleton]
      listsCalled := known.listsCalled.list edge
      listsCalling := known.listsCalling.list edge })

/-- The graph of the known methods, with an arc for each edge. -/
def toDigraph : Digraph Method (CallEdge Point Method) := ⟨graph.nodes, graph.arcs⟩

/-- The methods from which calls may lead to a known method satisfying a condition. -/
def leadingTo (condition : Method → Bool) : List Method :=
  graph.toDigraph.discover (graph.nodes.filter condition)

variable [Ord Point] [Ord Method]

/-- The methods a call site may run. -/
def callees (site : Point) : List Method := ascending (graph.called.get site)

/-- The call sites that may run a method. -/
def callers (method : Method) : List Point := ascending (graph.calling.get method)

/-- The call sites that may run some method. -/
def callSites : List Point := ascending graph.called.keys

/-- The edges by kind, site and method. -/
def sortedEdges : List (CallEdge Point Method) := ascending graph.edges

/-- The reachable methods. -/
def reachableMethods : List Method := ascending graph.reachable

/-- What is left of a call graph when only methods from which calls may lead to
one satisfying a condition are kept. -/
def filter (condition : Method → Bool) : CallGraph Point Method :=
  let kept := graph.leadingTo condition
  let isKept method := kept.contains method
  let entered := (graph.entries.filter isKept).foldl addEntry empty
  let reached := (graph.reachableMethods.filter isKept).foldl
    (fun filtered method => (filtered.addReachable method).2) entered
  (graph.sortedEdges.filter fun edge =>
      isKept (CallSite.container edge.site) && isKept edge.callee).foldl
    (fun filtered edge => (filtered.addEdge edge).2) reached

/-- The line style an edge is drawn with: calls that depend on the receiver are
dashed. -/
def edgeStyle : CallKind → String
  | .static | .special => "solid"
  | .virtual | .interface => "dashed"

/-- The drawing of a call graph, methods being labelled by a name and entry
methods coloured. -/
def toDot (name : Method → String) : String :=
  "digraph \x7b\n  rankdir=LR;\n" ++
    graph.toDigraph.drawing
      (fun method => "label=\"" ++ Graph.labelText (name method) ++ "\",color=" ++
        (if graph.entries.contains method then "blue" else "black") ++ ",shape=box")
      (fun arc => "style=" ++ edgeStyle arc.label.kind) ++
    "\x7d"

omit [Ord Point] [Ord Method]

theorem edges_addNode {method : Method} : (graph.addNode method).edges = graph.edges := by
  unfold addNode
  split <;> rfl

theorem reachable_addNode {method : Method} :
    (graph.addNode method).reachable = graph.reachable := by
  unfold addNode
  split <;> rfl

theorem edges_addEntry {method : Method} : (graph.addEntry method).edges = graph.edges := by
  unfold addEntry
  split <;> rfl

theorem reachable_addEntry {method : Method} :
    (graph.addEntry method).reachable = graph.reachable := by
  unfold addEntry
  split <;> rfl

theorem mem_addEntry {method other : Method} :
    other ∈ (graph.addEntry method).entries ↔ other ∈ graph.entries ∨ other = method := by
  unfold addEntry
  split
  case isTrue known =>
    exact (or_iff_left_of_imp fun isSame => isSame ▸ List.contains_iff_mem.mp known).symm
  case isFalse => simp only [List.mem_append, List.mem_singleton]

theorem entries_addNode {method : Method} : (graph.addNode method).entries = graph.entries := by
  unfold addNode
  split <;> rfl

theorem entries_addReachable {method : Method} :
    (graph.addReachable method).2.entries = graph.entries := by
  unfold addReachable
  split
  · rfl
  · exact entries_addNode _

theorem edges_addReachable {method : Method} :
    (graph.addReachable method).2.edges = graph.edges := by
  unfold addReachable
  split
  · rfl
  · exact edges_addNode _

theorem mem_addReachable {method other : Method} :
    other ∈ (graph.addReachable method).2.reachable ↔ other ∈ graph.reachable ∨ other = method := by
  unfold addReachable
  split
  case isTrue known =>
    exact (or_iff_left_of_imp fun isSame => isSame ▸ List.contains_iff_mem.mp known).symm
  case isFalse => simp only [reachable_addNode, List.mem_append, List.mem_singleton]

theorem reachable_addEdge {edge : CallEdge Point Method} :
    (graph.addEdge edge).2.reachable = graph.reachable := by
  unfold addEdge
  split
  · rfl
  · simp only [reachable_addNode]

theorem entries_addEdge {edge : CallEdge Point Method} :
    (graph.addEdge edge).2.entries = graph.entries := by
  unfold addEdge
  split
  · rfl
  · simp only [entries_addNode]

theorem mem_addEdge {edge other : CallEdge Point Method} :
    other ∈ (graph.addEdge edge).2.edges ↔ other ∈ graph.edges ∨ other = edge := by
  unfold addEdge
  split
  case isTrue known =>
    exact (or_iff_left_of_imp fun isSame => isSame ▸ List.contains_iff_mem.mp known).symm
  case isFalse => simp only [edges_addNode, List.mem_append, List.mem_singleton]

section Projections

theorem mem_arcs {arc : Arc Method (CallEdge Point Method)} :
    arc ∈ graph.toDigraph.arcs ↔ ∃ edge ∈ graph.edges, edge.arc = arc := by
  rw [toDigraph, graph.drawn, List.mem_map]

variable [Ord Point] [Ord Method] {graph}

omit [Ord Point] in
/-- What a site calls is read off the edges from there. -/
theorem callees_eq (site : Point) : graph.callees site =
    ascending ((graph.edges.filter fun edge => edge.site = site).map CallEdge.callee) := by
  rw [callees, graph.listsCalled.get, ascending_eraseDups]
  rfl

omit [Ord Method] in
/-- What calls a method is read off the edges to it. -/
theorem callers_eq (method : Method) : graph.callers method =
    ascending ((graph.edges.filter fun edge => edge.callee = method).map CallEdge.site) := by
  rw [callers, graph.listsCalling.get, ascending_eraseDups]
  rfl

omit [Ord Method] in
theorem callSites_eq : graph.callSites = ascending (graph.edges.map CallEdge.site) := by
  rw [callSites, graph.listsCalled.keys, ascending_eraseDups]

omit [Ord Point] in
theorem mem_callees {site : Point} {callee : Method} :
    callee ∈ graph.callees site ↔
      ∃ edge ∈ graph.edges, edge.site = site ∧ edge.callee = callee := by
  simp only [callees_eq, mem_ascending, List.mem_map, List.mem_filter, decide_eq_true_eq,
    and_assoc]

end Projections

section Folding

variable {Item Built : Type} {apply : Built → Item → Built}

/-- What no item changes is not changed by all of them. -/
theorem read_foldl {Field : Type} (read : Built → Field)
    (keeps : ∀ built item, read (apply built item) = read built) (items : List Item)
    (built : Built) : read (items.foldl apply built) = read built :=
  List.foldlRecOn (motive := fun other => read other = read built) _ _ rfl
    fun other sameRead item _ => (keeps other item).trans sameRead

/-- When each item is added, all of them are added. -/
theorem mem_foldl (read : Built → List Item)
    (adds : ∀ built item other, other ∈ read (apply built item) ↔ other ∈ read built ∨ other = item)
    (items : List Item) (built : Built) (other : Item) :
    other ∈ read (items.foldl apply built) ↔ other ∈ read built ∨ other ∈ items := by
  induction items generalizing built with
  | nil => exact (or_iff_left List.not_mem_nil).symm
  | cons item items ih => rw [List.foldl_cons, ih, adds, List.mem_cons, or_assoc]

end Folding

end CallGraph

end TacAnalysis
