/-
# Comparing two analyses of one method

What a solver finds at the nodes of a method is compared with what another analysis knows
before these nodes, value by value. As long as statements define values that compare, the
comparison holds round after round. A division by zero of what is not constant does not: its
result is not constant while nothing is known of the divisor, and nothing is known of it
later. The values that flow from the quotient compare all the same in the end, as the constants
that are known are found again, but not those that it reaches through a cycle, around which a
value that has been found once may support itself.
-/

import TacAnalysis.Proofs.Graph.Cycles
import TacAnalysis.Proofs.Interprocedural.Constants

namespace TacAnalysis

open Relation (ReflTransGen)

/-- The value of a joined fact compares with another one when those of the seed and of
everything that flows into the node do. -/
theorem Equations.under_join {Node : Type} {equations : Equations Node ConstFact}
    {vars : List VarId} {under : Value → Value → Prop} {result : Node → ConstFact} {node : Node}
    {var : VarId} {value : Value} (comparison : Value.IsComparison under)
    (isMeet : equations.meet = ConstFact.meet) (keeps : equations.Keeps (ConstFact.About vars))
    (areAbout : ∀ node, ConstFact.About vars (result node))
    (seed : under ((equations.seed node).get var) value)
    (inflow : ∀ flow ∈ equations.inflow node, under ((flow.2 (result flow.1)).get var) value) :
    under ((equations.join result node).get var) value := by
  have isMet : ConstFact.About vars (equations.join result node) ∧
      under ((equations.join result node).get var) value := by
    apply join_induction (motive := fun fact =>
      ConstFact.About vars fact ∧ under (fact.get var) value)
    · exact ⟨keeps.seed node, seed⟩
    · intro first second isFirst isSecond
      refine ⟨keeps.meet first second isFirst.1 isSecond.1, ?_⟩
      rw [isMeet, isFirst.1.isCanonical.get_meet]
      exact comparison.meet isFirst.2 isSecond.2
    · intro flow isFlow
      exact ⟨keeps.inflow node flow isFlow _ (areAbout flow.1), inflow flow isFlow⟩
  exact isMet.2

/-- A variable before a node. -/
structure Slot where
  node : FlowNode
  var : VarId

namespace MethodDef

variable (program : Program) (method : MethodDef)

/-- The value of a variable holding integers before a node makes up the one of a variable before
a next node: the statement in between keeps it, or defines the other one from it. -/
def FlowsTo (source target : Slot) : Prop :=
  program.holdsInt source.var = true ∧ ∃ arc ∈ method.flow.graph.arcs,
    arc.source = source.node ∧ arc.target = target.node ∧
      ((method.flow.stmtAt arc.source).def? ≠ some target.var ∧ source.var = target.var ∨
        (method.flow.stmtAt arc.source).def? = some target.var ∧
          source.var ∈ (method.flow.stmtAt arc.source).sources)

/-- The statement before a node divides by zero what is known not to be constant, for a
variable. -/
def IsQuotient (known : FlowNode → ConstFact) (slot : Slot) : Prop :=
  ∃ arc ∈ method.flow.graph.arcs, arc.target = slot.node ∧
    (method.flow.stmtAt arc.source).def? = some slot.var ∧
    program.dividesByZero (known arc.source) (method.flow.stmtAt arc.source) = true

/-- The result of a division by zero of what is known not to be constant reaches a variable
through a cycle. -/
def Circulates (known : FlowNode → ConstFact) (slot : Slot) : Prop :=
  Graph.BehindCycle (method.FlowsTo program) (method.IsQuotient program known) slot

variable {program method}

/-- Values flow from finitely many variables before nodes. -/
theorem FlowsTo.source_mem {source target : Slot} (flows : method.FlowsTo program source target) :
    source ∈ method.flow.graph.nodes.flatMap fun node => program.intVars.map (Slot.mk node) := by
  obtain ⟨isInt, arc, isArc, isSource, -⟩ := flows
  refine List.mem_flatMap.mpr ⟨source.node, isSource ▸ source_mem_nodes isArc, ?_⟩
  exact List.mem_map.mpr ⟨source.var, Program.mem_intVars.mpr isInt, rfl⟩

/-- The position of a node in the order of the text. -/
def position (method : MethodDef) (node : FlowNode) : Nat := method.flow.graph.nodes.idxOf node

/-- Nothing circulates when control only goes forward after the divisions by zero of what is
known not to be constant. -/
theorem not_circulates_of_rises {known : FlowNode → ConstFact} {first : Nat}
    (areLate : ∀ arc ∈ method.flow.graph.arcs,
      program.dividesByZero (known arc.source) (method.flow.stmtAt arc.source) = true →
      first ≤ method.position arc.target)
    (rises : ∀ arc ∈ method.flow.graph.arcs, first ≤ method.position arc.source →
      method.position arc.source < method.position arc.target) (slot : Slot) :
    ¬ method.Circulates program known slot := by
  apply Graph.not_behindCycle_of_rises fun slot => method.position slot.node
  · rintro origin ⟨arc, isArc, isTarget, -, divides⟩
    exact isTarget ▸ areLate arc isArc divides
  · rintro source target ⟨-, arc, isArc, isSource, isTarget, -⟩ isLate
    rw [← isSource, ← isTarget]
    exact rises arc isArc (isSource ▸ isLate)

end MethodDef

/-- A method as the solver of some equations sees it. -/
structure View (Node : Type) where
  method : MethodDef
  equations : Equations Node ConstFact
  /-- Where the equations have a node of the method. -/
  place : FlowNode → Node
  /-- What is left of a result on the way to the next nodes of the method. -/
  out : FlowNode → ConstFact → ConstFact

namespace View

variable {Node : Type} [DecidableEq Node]

/-- The fact joined at a node after a number of rounds. -/
def joined (view : View Node) (rounds : Nat) (node : FlowNode) : ConstFact :=
  view.equations.join (view.equations.after rounds).result.get (view.place node)

/-- What leaves a node after a number of rounds. -/
def leaving (view : View Node) (rounds : Nat) (node : FlowNode) : ConstFact :=
  view.out node ((view.equations.after rounds).result.get (view.place node))

/-- The result of a node is the one of the fact joined there. -/
def IsSettled (view : View Node) (rounds : Nat) (node : FlowNode) : Prop :=
  (view.equations.after rounds).result.get (view.place node) =
    view.equations.transfer (view.place node) (view.joined rounds node)

/-- The values that a solver joins at the nodes of a method, and those that leave them, can
be compared with the values known before the nodes that they reach. -/
structure Follows (program : Program) (view : View Node) (under : Value → Value → Prop)
    (known : FlowNode → ConstFact) : Prop where
  comparison : Value.IsComparison under
  unknown : ∀ rounds node var, program.holdsInt var = false →
    (view.joined rounds node).get var = .undefined
  initial : ∀ node, view.out node view.equations.initial = .empty
  join : ∀ rounds, ∀ node ∈ view.method.flow.graph.nodes, ∀ var,
    (∀ arc ∈ view.method.flow.graph.arcs, arc.target = node →
      under ((view.leaving rounds arc.source).get var) ((known node).get var)) →
    under ((view.joined rounds node).get var) ((known node).get var)
  transfer : ∀ rounds, ∀ arc ∈ view.method.flow.graph.arcs, ∀ var,
    under ((program.constantTransfer (view.method.flow.stmtAt arc.source)
        (view.joined rounds arc.source)).get var)
      ((program.constantTransfer (view.method.flow.stmtAt arc.source)
        (known arc.source)).get var) →
    under ((view.out arc.source (view.equations.transfer (view.place arc.source)
        (view.joined rounds arc.source))).get var) ((known arc.target).get var)

variable {program : Program} {view : View Node} {under : Value → Value → Prop}
  {known : FlowNode → ConstFact} {arc : Arc FlowNode Branch} {rounds : Nat} {node : FlowNode}
  {var : VarId}

/-- A solver with nothing left to visit keeps the facts that it joins. -/
theorem isSettled_of_queue_eq_nil (propagates : view.equations.Propagates)
    (isDone : (view.equations.after rounds).queue = [])
    (inOrder : view.place node ∈ view.equations.nodes) :
    view.joined rounds node = (view.equations.after rounds).joined.get (view.place node) ∧
      view.IsSettled rounds node := by
  have solves := Equations.solves_of_settled propagates isDone
  have isJoined := solves.joins _ inOrder
  refine ⟨isJoined.symm, ?_⟩
  rw [IsSettled, solves.transfers _ inOrder, isJoined, joined]

/-- A value compares at a node when those that flow into it do, and the one that the statement
before the node defines does. -/
theorem Follows.under_out (follows : view.Follows program under known)
    (isArc : arc ∈ view.method.flow.graph.arcs)
    (areUnder : ∀ source, view.method.FlowsTo program ⟨arc.source, source⟩ ⟨arc.target, var⟩ →
      under ((view.joined rounds arc.source).get source) ((known arc.source).get source))
    (defines : (view.method.flow.stmtAt arc.source).def? = some var →
      program.holdsInt var = true →
      (∀ source ∈ (view.method.flow.stmtAt arc.source).sources,
        under ((view.joined rounds arc.source).get source) ((known arc.source).get source)) →
      under ((view.method.flow.stmtAt arc.source).definedValue (view.joined rounds arc.source))
        ((view.method.flow.stmtAt arc.source).definedValue (known arc.source))) :
    under ((view.out arc.source (view.equations.transfer (view.place arc.source)
      (view.joined rounds arc.source))).get var) ((known arc.target).get var) := by
  have isUnder (source : VarId) (flows : program.holdsInt source = true →
      view.method.FlowsTo program ⟨arc.source, source⟩ ⟨arc.target, var⟩) :
      under ((view.joined rounds arc.source).get source) ((known arc.source).get source) := by
    by_cases isInt : program.holdsInt source = true
    · exact areUnder source (flows isInt)
    · rw [follows.unknown rounds arc.source source (Bool.eq_false_iff.mpr isInt)]
      exact follows.comparison.undefined _
  apply follows.transfer rounds arc isArc
  rw [Program.get_constantTransfer, Program.get_constantTransfer]
  split
  case isTrue isDef =>
      apply defines isDef.1 isDef.2
      intro source isRead
      apply isUnder
      intro isInt
      exact ⟨isInt, arc, isArc, rfl, rfl, .inr ⟨isDef.1, isRead⟩⟩
  case isFalse notDef =>
      apply isUnder
      intro isInt
      exact ⟨isInt, arc, isArc, rfl, rfl, .inl ⟨fun isDef => notDef ⟨isDef, isInt⟩, rfl⟩⟩

/-- Values compare at any time in a part of a method that values flow into from nowhere else,
when the values defined in it compare. -/
theorem Follows.under_joined (follows : view.Follows program under known)
    (inside : Slot → Prop)
    (isClosed : ∀ source target, view.method.FlowsTo program source target → inside target →
      inside source)
    (defines : ∀ arc ∈ view.method.flow.graph.arcs, ∀ var, inside ⟨arc.target, var⟩ →
      (view.method.flow.stmtAt arc.source).def? = some var → program.holdsInt var = true →
      ∀ fact : ConstFact,
        (∀ source ∈ (view.method.flow.stmtAt arc.source).sources,
          under (fact.get source) ((known arc.source).get source)) →
        under ((view.method.flow.stmtAt arc.source).definedValue fact)
          ((view.method.flow.stmtAt arc.source).definedValue (known arc.source)))
    (rounds : Nat) (isNode : node ∈ view.method.flow.graph.nodes) (isInside : inside ⟨node, var⟩) :
    under ((view.joined rounds node).get var) ((known node).get var) := by
  have leaves (rounds : Nat) (place : Node) : ∀ arc ∈ view.method.flow.graph.arcs, ∀ var,
      inside ⟨arc.target, var⟩ → place = view.place arc.source →
      under ((view.out arc.source ((view.equations.after rounds).result.get place)).get var)
        ((known arc.target).get var) := by
    apply Equations.result_induction (motive := fun place result =>
      ∀ arc ∈ view.method.flow.graph.arcs, ∀ var, inside ⟨arc.target, var⟩ →
        place = view.place arc.source →
        under ((view.out arc.source result).get var) ((known arc.target).get var))
    · intro place arc isArc var isInside isPlace
      rw [follows.initial]
      exact follows.comparison.undefined _
    · intro rounds areUnder place arc isArc var isInside isPlace
      subst isPlace
      apply follows.under_out isArc
      · intro source flows
        apply follows.join rounds arc.source (MethodDef.source_mem_nodes isArc)
        intro other isOther leadsTo
        rw [← leadsTo]
        apply areUnder _ other isOther source _ rfl
        rw [leadsTo]
        exact isClosed _ _ flows isInside
      · exact fun isDef isInt => defines arc isArc var isInside isDef isInt _
  apply follows.join rounds node isNode
  intro arc isArc isTarget
  subst isTarget
  exact leaves rounds _ arc isArc var isInside rfl

/-- Whatever constant is found at any time is known, unless the value is known not to be
constant. -/
theorem Follows.confirmed_joined (follows : view.Follows program Value.Confirmed known)
    (rounds : Nat) (isNode : node ∈ view.method.flow.graph.nodes) (var : VarId) :
    ((view.joined rounds node).get var).Confirmed ((known node).get var) := by
  apply follows.under_joined (fun _ => True) (fun _ _ _ _ => trivial) _ rounds isNode trivial
  intro arc isArc var _ _ _ fact areConfirmed
  exact Program.confirmed_definedValue areConfirmed

/-- Facts that satisfy their equations are below those known, when the constants known are
confirmed, save for the values that the result of a division by zero of what is known not to
be constant reaches through a cycle. -/
theorem Follows.joined_le (follows : view.Follows program (· ≤ ·) known)
    (isSettled : ∀ node ∈ view.method.flow.graph.nodes, view.IsSettled rounds node)
    (areConfirmed : ∀ node ∈ view.method.flow.graph.nodes, ∀ var,
      ((known node).get var).Confirmed ((view.joined rounds node).get var))
    {slot : Slot} (notCirculates : ¬ view.method.Circulates program known slot)
    (isNode : slot.node ∈ view.method.flow.graph.nodes) :
    (view.joined rounds slot.node).get slot.var ≤ (known slot.node).get slot.var := by
  revert isNode
  apply Graph.induction_of_not_behindCycle (fun _ _ => MethodDef.FlowsTo.source_mem) notCirculates
  · -- Values that come from no such division are below those known all the time.
    intro slot noOrigin isNode
    apply follows.under_joined (fun slot => ∀ origin,
      view.method.IsQuotient program known origin →
        ¬ ReflTransGen (view.method.FlowsTo program) origin slot) _ _ rounds isNode noOrigin
    · intro source target flows isInside origin isQuotient leadsTo
      exact isInside origin isQuotient (leadsTo.tail flows)
    · intro arc isArc var isInside isDef isInt fact areBelow
      apply Program.definedValue_le_definedValue areBelow isDef isInt
      intro divides
      exact absurd .refl (isInside _ ⟨arc, isArc, rfl, isDef, divides⟩)
  · intro slot areBelow isNode
    apply follows.join rounds slot.node isNode
    intro arc isArc isTarget
    have isSource := MethodDef.source_mem_nodes isArc
    rw [leaving, isSettled arc.source isSource, ← isTarget]
    apply follows.under_out isArc
    · intro source flows
      rw [isTarget] at flows
      exact areBelow ⟨arc.source, source⟩ flows isSource
    · intro isDef isInt areSourcesBelow
      apply Program.definedValue_le_definedValue areSourcesBelow isDef isInt
      exact fun _ source _ => areConfirmed arc.source isSource source

end View

end TacAnalysis
