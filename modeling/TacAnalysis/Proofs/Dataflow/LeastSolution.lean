/-
# Least solutions of dataflow equations

Facts satisfy equations at every node once the queue of the solver is empty. When the
equations are monotone, over facts that form a join-semilattice and cannot rise for
ever, the solver settles, and no solution is below the one it settles on. As there is
only one such solution, the order in which the nodes are visited, and in which they are
queued again, does not matter.
-/

import TacAnalysis.Proofs.Dataflow.Solving

namespace TacAnalysis

/-- The good facts form a join-semilattice with a least fact, and cannot rise for ever. -/
structure IsSemilattice {Fact : Type} [Preorder Fact] (good : Fact → Prop) (bottom : Fact)
    (join : Fact → Fact → Fact) : Prop where
  antisymm : ∀ first second, good first → good second → first ≤ second → second ≤ first →
    first = second
  bottom_le : ∀ fact, good fact → bottom ≤ fact
  join_le_iff : ∀ first second fact, good first → good second → good fact →
    (join first second ≤ fact ↔ first ≤ fact ∧ second ≤ fact)
  rising : WellFoundedGT { fact // good fact }

namespace IsSemilattice

variable {Fact : Type} [Preorder Fact] {good : Fact → Prop} {bottom : Fact}
  {join : Fact → Fact → Fact} {first second : Fact}

theorem le_join (lattice : IsSemilattice good bottom join) (isGood : good first)
    (otherIsGood : good second) (joinIsGood : good (join first second)) :
    first ≤ join first second ∧ second ≤ join first second :=
  (lattice.join_le_iff first second _ isGood otherIsGood joinIsGood).mp le_rfl

theorem join_le_join (lattice : IsSemilattice good bottom join)
    (keeps : ∀ first second, good first → good second → good (join first second))
    {third fourth : Fact} (isGood : good first) (otherIsGood : good second)
    (thirdIsGood : good third) (fourthIsGood : good fourth) (isBelow : first ≤ third)
    (otherIsBelow : second ≤ fourth) : join first second ≤ join third fourth := by
  have joinIsGood := keeps third fourth thirdIsGood fourthIsGood
  obtain ⟨thirdIsBelow, fourthIsBelow⟩ := lattice.le_join thirdIsGood fourthIsGood joinIsGood
  apply (lattice.join_le_iff first second _ isGood otherIsGood joinIsGood).mpr
  exact ⟨isBelow.trans thirdIsBelow, otherIsBelow.trans fourthIsBelow⟩

end IsSemilattice

/-- The facts are good ones that solve something, and at each of some nodes they are below
all good facts that do. -/
structure IsLeastSolution {Node Fact : Type} [LE Fact] (nodes : List Node) (good : Fact → Prop)
    (solves : (Node → Fact) → (Node → Fact) → Prop) (joined result : Node → Fact) : Prop where
  isSolution : solves joined result
  areGood : ∀ node ∈ nodes, good (joined node) ∧ good (result node)
  least : ∀ otherJoined otherResult, solves otherJoined otherResult →
    (∀ node ∈ nodes, good (otherJoined node) ∧ good (otherResult node)) →
    ∀ node ∈ nodes, joined node ≤ otherJoined node ∧ result node ≤ otherResult node

theorem IsLeastSolution.congr {Node Fact : Type} [LE Fact] {nodes others : List Node}
    {good : Fact → Prop} {solves solves' : (Node → Fact) → (Node → Fact) → Prop}
    {joined result : Node → Fact}
    (isLeast : IsLeastSolution nodes good solves joined result)
    (sameNodes : ∀ node, node ∈ nodes ↔ node ∈ others)
    (same : ∀ joined result, solves joined result ↔ solves' joined result) :
    IsLeastSolution others good solves' joined result := by
  have sameSolves : solves = solves' :=
    funext fun joined => funext fun result => propext (same joined result)
  subst sameSolves
  refine ⟨isLeast.isSolution, fun node isNode => isLeast.areGood node ((sameNodes node).mpr isNode),
    fun otherJoined otherResult others areGood node isNode => ?_⟩
  apply isLeast.least otherJoined otherResult others _ node ((sameNodes node).mpr isNode)
  exact fun node isNode => areGood node ((sameNodes node).mp isNode)

namespace Equations

variable {Node Fact : Type} (equations : Equations Node Fact)

/-- Facts that satisfy the equations at every node. -/
structure Solves (joined result : Node → Fact) : Prop where
  joins : ∀ node ∈ equations.nodes, joined node = equations.join result node
  transfers : ∀ node ∈ equations.nodes, result node = equations.transfer node (joined node)

/-- Facts flow between the nodes of the equations only. -/
structure Closed : Prop where
  inflow : ∀ node ∈ equations.nodes, ∀ flow ∈ equations.inflow node, flow.1 ∈ equations.nodes
  dependents : ∀ node ∈ equations.nodes, ∀ other ∈ equations.dependents node,
    other ∈ equations.nodes

/-- The same equations, with other orders of visiting their nodes first and of queueing them
again. -/
def inOrder (order : List Node) (dependents : Node → List Node) : Equations Node Fact :=
  { equations with nodes := order, dependents }

/-- Orders that neither leave out nodes nor add any. -/
structure IsOrder (order : List Node) (dependents : Node → List Node) : Prop where
  nodes : ∀ node, node ∈ order ↔ node ∈ equations.nodes
  dependents : ∀ node other, other ∈ dependents node ↔ other ∈ equations.dependents node

/-- In whatever orders the nodes are visited, the solver settles on the same facts. -/
def SettlesOn [DecidableEq Node] [DecidableEq Fact] (joined result : Node → Fact) : Prop :=
  ∀ order dependents, equations.IsOrder order dependents →
    ∃ steps progress, (equations.inOrder order dependents).solve steps = .ok progress ∧
      ∀ node ∈ equations.nodes,
        progress.joined.get node = joined node ∧ progress.result.get node = result node

variable {equations}

section Orders

variable {order : List Node} {dependents : Node → List Node} {joined result : Node → Fact}

theorem IsOrder.solves_iff (isOrder : equations.IsOrder order dependents) :
    (equations.inOrder order dependents).Solves joined result ↔
      equations.Solves joined result := by
  constructor
  · intro solves
    exact ⟨fun node isNode => solves.joins node ((isOrder.nodes node).mpr isNode),
      fun node isNode => solves.transfers node ((isOrder.nodes node).mpr isNode)⟩
  · intro solves
    exact ⟨fun node isNode => solves.joins node ((isOrder.nodes node).mp isNode),
      fun node isNode => solves.transfers node ((isOrder.nodes node).mp isNode)⟩

theorem IsOrder.propagates (isOrder : equations.IsOrder order dependents)
    (propagates : equations.Propagates) : (equations.inOrder order dependents).Propagates :=
  fun node flow isFlow => (isOrder.dependents _ _).mpr (propagates node flow isFlow)

theorem IsOrder.closed (isOrder : equations.IsOrder order dependents)
    (closed : equations.Closed) : (equations.inOrder order dependents).Closed where
  inflow node isNode flow isFlow :=
    (isOrder.nodes _).mpr (closed.inflow node ((isOrder.nodes node).mp isNode) flow isFlow)
  dependents node isNode other isOther :=
    (isOrder.nodes _).mpr (closed.dependents node ((isOrder.nodes node).mp isNode) other
      ((isOrder.dependents _ _).mp isOther))

theorem Keeps.inOrder {good : Fact → Prop} (keeps : equations.Keeps good) :
    (equations.inOrder order dependents).Keeps good :=
  ⟨keeps.initial, keeps.seed, keeps.inflow, keeps.meet, keeps.transfer⟩

theorem IsMonotone.inOrder [LE Fact] {good : Fact → Prop} (monotone : equations.IsMonotone good) :
    (equations.inOrder order dependents).IsMonotone good :=
  ⟨monotone.initial, monotone.inflow, monotone.meet, monotone.transfer⟩

end Orders

variable [DecidableEq Node] [DecidableEq Fact]

/-- Once the queue is empty, the facts satisfy the equations at every node. -/
theorem solves_of_settled {rounds : Nat} (propagates : equations.Propagates)
    (isSettled : (equations.after rounds).queue = []) :
    equations.Solves (equations.after rounds).joined.get (equations.after rounds).result.get := by
  have holds (node : Node) (isNode : node ∈ equations.nodes) :
      equations.Holds (equations.after rounds) node :=
    holds_of_not_queued propagates rounds node isNode (by simp [isSettled])
  exact ⟨fun node isNode => (holds node isNode).1, fun node isNode => (holds node isNode).2⟩

variable [Preorder Fact] {good : Fact → Prop} {joined result : Node → Fact}

/-- At any time, the results of monotone equations are below every solution. -/
theorem Solves.result_after_le (solves : equations.Solves joined result)
    (areGood : ∀ node ∈ equations.nodes, good (result node)) (closed : equations.Closed)
    (keeps : equations.Keeps good) (monotone : equations.IsMonotone good) (rounds : Nat) :
    ∀ node ∈ equations.nodes, (equations.after rounds).result.get node ≤ result node := by
  induction rounds with
  | zero => exact fun node isNode => monotone.initial _ (areGood node isNode)
  | succ rounds ih =>
      intro node isNode
      cases isQueue : (equations.after rounds).queue with
      | nil =>
          rw [after_succ_of_nil isQueue]
          exact ih node isNode
      | cons first queue =>
          rw [result_after_succ isQueue]
          split
          case isFalse => exact ih node isNode
          case isTrue isFirst =>
              subst isFirst
              have inside := closed.inflow node isNode
              have joinIsGood := keeps.join fun flow isFlow => areGood flow.1 (inside flow isFlow)
              rw [solves.transfers node isNode, solves.joins node isNode]
              apply monotone.transfer node _ _
                (keeps.join fun flow _ => keeps.result rounds flow.1) joinIsGood
              exact monotone.join keeps (fun flow _ => keeps.result rounds flow.1)
                (fun flow isFlow => areGood flow.1 (inside flow isFlow))
                fun flow isFlow => ih flow.1 (inside flow isFlow)

/-- The solver settles on the least solution of monotone equations. -/
theorem IsMonotone.isLeastSolution (monotone : equations.IsMonotone good)
    (keeps : equations.Keeps good) (closed : equations.Closed) (propagates : equations.Propagates)
    {rounds : Nat} (isSettled : (equations.after rounds).queue = []) :
    IsLeastSolution equations.nodes good equations.Solves (equations.after rounds).joined.get
      (equations.after rounds).result.get := by
  have solves := solves_of_settled propagates isSettled
  refine ⟨solves, fun node isNode => ⟨?_, keeps.result rounds node⟩, ?_⟩
  · rw [solves.joins node isNode]
    exact keeps.join fun flow _ => keeps.result rounds flow.1
  · intro joined result others areGood node isNode
    have resultsAreGood (node : Node) (isNode : node ∈ equations.nodes) : good (result node) :=
      (areGood node isNode).2
    have below := others.result_after_le resultsAreGood closed keeps monotone rounds
    have inside := closed.inflow node isNode
    refine ⟨?_, below node isNode⟩
    rw [solves.joins node isNode, others.joins node isNode]
    exact monotone.join keeps (fun flow _ => keeps.result rounds flow.1)
      (fun flow isFlow => resultsAreGood flow.1 (inside flow isFlow))
      fun flow isFlow => below flow.1 (inside flow isFlow)

/-- Over facts that form a join-semilattice, monotone equations make the solver settle. -/
theorem IsMonotone.exists_settled (monotone : equations.IsMonotone good)
    (keeps : equations.Keeps good)
    (lattice : IsSemilattice good equations.initial equations.meet) (closed : equations.Closed) :
    ∃ rounds, (equations.after rounds).queue = [] := by
  have rising := lattice.rising
  have spans : equations.Spans equations.nodes := ⟨fun _ isNode => isNode, closed.dependents⟩
  apply (settles_iff keeps spans lattice.antisymm).mpr
  exact ⟨0, fun rounds _ => monotone.not_falls keeps rounds⟩

/-- Whatever the orders of visiting the nodes of monotone equations, the solver settles on the
same facts. -/
theorem IsMonotone.settlesOn (monotone : equations.IsMonotone good)
    (keeps : equations.Keeps good)
    (lattice : IsSemilattice good equations.initial equations.meet) (closed : equations.Closed)
    (propagates : equations.Propagates) {rounds : Nat}
    (isSettled : (equations.after rounds).queue = []) :
    equations.SettlesOn (equations.after rounds).joined.get
      (equations.after rounds).result.get := by
  intro order dependents isOrder
  have monotone' : (equations.inOrder order dependents).IsMonotone good := monotone.inOrder
  have keeps' : (equations.inOrder order dependents).Keeps good := keeps.inOrder
  have closed' := isOrder.closed closed
  obtain ⟨steps, isSettled'⟩ := monotone'.exists_settled keeps' lattice closed'
  refine ⟨steps, _, by rw [solve_eq, if_pos isSettled'], fun node isNode => ?_⟩
  have first := monotone.isLeastSolution keeps closed propagates isSettled
  have second := (monotone'.isLeastSolution keeps' closed' (isOrder.propagates propagates)
    isSettled').congr isOrder.nodes fun _ _ => isOrder.solves_iff
  have below := second.least _ _ first.isSolution first.areGood node isNode
  have above := first.least _ _ second.isSolution second.areGood node isNode
  have firstIsGood := first.areGood node isNode
  have secondIsGood := second.areGood node isNode
  exact ⟨lattice.antisymm _ _ secondIsGood.1 firstIsGood.1 below.1 above.1,
    lattice.antisymm _ _ secondIsGood.2 firstIsGood.2 below.2 above.2⟩

end Equations

end TacAnalysis
