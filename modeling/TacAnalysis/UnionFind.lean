/-
# Union-find

Nodes are put together into sets. Each node has a parent, which is itself or a smaller
node; following parents leads to a node that is its own parent, the root of the set.
Finding a root makes it the parent of the nodes on the way. When two sets become one,
the smaller of their roots becomes the root.
-/

import TacAnalysis.Index

namespace TacAnalysis

/-- Nodes with their parents, in the order of the nodes. -/
structure UnionFind (Node : Type) where
  parents : List (Node × Node)
  deriving DecidableEq, Inhabited

namespace UnionFind

variable {Node : Type} [BEq Node] [Ord Node]

/-- There are no nodes yet. -/
def empty : UnionFind Node := ⟨[]⟩

/-- The nodes, in their order. -/
def nodes (forest : UnionFind Node) : List Node := forest.parents.map Prod.fst

/-- The parent of a node. -/
def parent? (forest : UnionFind Node) (node : Node) : Option Node := forest.parents.lookup node

/-- Gives a node a parent. -/
def setParent (forest : UnionFind Node) (node parent : Node) : UnionFind Node :=
  ⟨insertEntry node parent forest.parents⟩

/-- Follows parents for a number of steps at most, and makes the root that is found the
parent of the nodes on the way. A node that is new becomes a root. -/
def findWithin (forest : UnionFind Node) : (steps : Nat) → Node → UnionFind Node × Node
  | 0, node => (forest, node)
  | steps + 1, node =>
      match forest.parent? node with
      | none => (forest.setParent node node, node)
      | some parent =>
          if parent == node then (forest, node)
          else
            let (shortened, root) := forest.findWithin steps parent
            (shortened.setParent node root, root)

/-- Finds the root of a node. Parents are smaller, so that no node is met twice. -/
def find (forest : UnionFind Node) (node : Node) : UnionFind Node × Node :=
  forest.findWithin (forest.nodes.length + 1) node

/-- Makes one set of the sets of two nodes. -/
def union (forest : UnionFind Node) (first second : Node) : UnionFind Node :=
  let (forest, first) := forest.find first
  let (forest, second) := forest.find second
  if first == second then forest
  else if (compare first second).isLT then forest.setParent second first
  else forest.setParent first second

/-- Finds the roots of nodes one after another. -/
def findAll (forest : UnionFind Node) : List Node → UnionFind Node × List Node
  | [] => (forest, [])
  | node :: nodes =>
      let (forest, root) := forest.find node
      let (forest, roots) := forest.findAll nodes
      (forest, root :: roots)

end UnionFind

end TacAnalysis
