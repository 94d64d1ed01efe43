/-
# Live variables along paths

A variable is live before a node exactly when control may go from there to a node that reads
it, through nodes that do not define it. That the analysis finds such paths follows from its
equations, node by node backwards along a path. That it finds nothing else does not: a loop
could keep a variable live that nothing reads, and would still satisfy the equations. It is an
invariant of the visits, which start from empty facts.
-/

import Mathlib.Logic.Relation
import TacAnalysis.Proofs.Dataflow.Liveness

namespace TacAnalysis

open Relation (ReflTransGen)

namespace ControlFlow

/-- Control may go from one node to another, and the first one does not define the variable. -/
def Passes (flow : ControlFlow) (var : VarId) (source target : FlowNode) : Prop :=
  target ∈ flow.graph.successors source ∧ (flow.stmtAt source).def? ≠ some var

/-- Some path leads from a node to one that reads a variable, and no node before that one on
the path defines it. -/
def ReadsFirst (flow : ControlFlow) (var : VarId) (node : FlowNode) : Prop :=
  ∃ last, ReflTransGen (flow.Passes var) node last ∧ var ∈ (flow.stmtAt last).uses

variable {flow : ControlFlow} {var : VarId} {node : FlowNode}

/-- A variable is read first by the node itself, or after it. -/
theorem readsFirst_iff : flow.ReadsFirst var node ↔ var ∈ (flow.stmtAt node).uses ∨
    (∃ target ∈ flow.graph.successors node, flow.ReadsFirst var target) ∧
      (flow.stmtAt node).def? ≠ some var := by
  constructor
  · rintro ⟨last, isPath, isRead⟩
    rcases ReflTransGen.cases_head isPath with rfl | ⟨target, passes, isPath⟩
    · exact .inl isRead
    · exact .inr ⟨⟨target, passes.1, last, isPath, isRead⟩, passes.2⟩
  · rintro (isRead | ⟨⟨target, isTarget, last, isPath, isRead⟩, isKept⟩)
    · exact ⟨node, .refl, isRead⟩
    · exact ⟨last, .head ⟨isTarget, isKept⟩ isPath, isRead⟩

end ControlFlow

/-- The facts of the live variables analysis are right about the paths of a graph: before a
node, the variables that are read first from there, and after it, those that are live before
one of its successors. -/
structure NodeFacts.FollowPaths (facts : NodeFacts FlowNode (SetFact VarId))
    (flow : ControlFlow) : Prop where
  before_iff {node : FlowNode} {var : VarId} : node ∈ flow.graph.nodes →
    (var ∈ facts.before.get node ↔ flow.ReadsFirst var node)
  after_iff {node : FlowNode} {var : VarId} : node ∈ flow.graph.nodes →
    (var ∈ facts.after.get node ↔
      ∃ target ∈ flow.graph.successors node, var ∈ facts.before.get target)

section Facts

variable {flow : ControlFlow} {var : VarId} {node : FlowNode} {method : MethodDef} {steps : Nat}
  {facts : NodeFacts FlowNode (SetFact VarId)}

theorem MethodDef.flow_closed (areInside : method.JumpsInside) : method.flow.graph.Closed :=
  fun _ isArc => ⟨source_mem_nodes isArc, target_mem_nodes areInside isArc⟩

/-- The live variables analysis ends on every method whose jumps stay inside its body. -/
theorem exists_liveFacts (areInside : method.JumpsInside) :
    ∃ steps facts, liveAnalysis.backward method.flow steps = .ok facts := by
  have closed := MethodDef.flow_closed areInside
  have isEntry : .entry ∈ method.flow.graph.nodes := mem_flowNodes.mpr (.inl rfl)
  obtain ⟨steps, isSettled, -, -⟩ := (isMonotone_liveAnalysis method).directed_settles .exit
    (fun _ => ControlFlow.mem_backwardOrder_iff closed isEntry)
    (fun _ _ => closed.mem_of_mem_successors) (fun _ _ => closed.mem_of_mem_predecessors)
    fun _ _ => ControlFlow.mem_predecessors_of_mem_successors
  exact ⟨steps, _, Analysis.backward_eq_ok_iff.mpr ⟨isSettled, rfl⟩⟩

/-- Whatever is live before a node is read first from there: what flows in at a visit is read
first from a successor. -/
theorem readsFirst_of_mem_before (areFacts : liveAnalysis.backward flow steps = .ok facts)
    (isLive : var ∈ facts.before.get node) : flow.ReadsFirst var node := by
  obtain ⟨-, rfl⟩ := Analysis.backward_eq_ok_iff.mp areFacts
  suffices areRead : ∀ node, ∀ var ∈ ((liveAnalysis.backwardEquations flow).after steps).result.get
      node, flow.ReadsFirst var node from areRead node var isLive
  refine Equations.result_induction
    (motive := fun node live => ∀ var ∈ live, flow.ReadsFirst var node)
    (fun _ var isIn => absurd isIn SetFact.not_mem_empty) (fun rounds areRead node => ?_) steps
  have areReadAfter : ∀ var ∈ (liveAnalysis.backwardEquations flow).join
      ((liveAnalysis.backwardEquations flow).after rounds).result.get node,
      ∃ target ∈ flow.graph.successors node, flow.ReadsFirst var target := by
    refine Equations.join_induction (motive := fun live => ∀ var ∈ live,
      ∃ target ∈ flow.graph.successors node, flow.ReadsFirst var target) ?seed ?meet ?inflow
    case seed =>
      intro var isIn
      have isEmpty : (liveAnalysis.backwardEquations flow).seed node = SetFact.empty := by
        simp only [Analysis.backwardEquations, liveAnalysis, ite_self]
      rw [isEmpty] at isIn
      exact absurd isIn SetFact.not_mem_empty
    case meet =>
      intro first second areFirst areSecond var isIn
      exact (SetFact.mem_union.mp isIn).elim (areFirst var) (areSecond var)
    case inflow =>
      intro inflow isInflow var isIn
      obtain ⟨-, target, isTarget, rfl⟩ := Analysis.mem_inflow_directed.mp isInflow
      exact ⟨target, isTarget, areRead target var isIn⟩
  intro var isIn
  exact ControlFlow.readsFirst_iff.mpr
    ((Stmt.mem_liveBefore.mp isIn).imp_right (And.imp_left (areReadAfter var)))

/-- Whatever is read first from a node is live before it. -/
theorem mem_before_of_readsFirst (closed : flow.graph.Closed)
    (noneLeaveExit : flow.graph.successors .exit = [])
    (areFacts : liveAnalysis.backward flow steps = .ok facts) (isNode : node ∈ flow.graph.nodes)
    (isRead : flow.ReadsFirst var node) : var ∈ facts.before.get node := by
  obtain ⟨last, isPath, isRead⟩ := isRead
  induction isPath using ReflTransGen.head_induction_on with
  | refl => exact (mem_before_iff areFacts isNode).mpr (.inl isRead)
  | @head source target passes _ ih =>
      have isOther : source ≠ .exit := by
        rintro rfl
        rw [ControlFlow.Passes, noneLeaveExit] at passes
        cases passes.1
      have isLive := ih (closed.mem_of_mem_successors passes.1)
      have isLiveAfter := (mem_after_iff areFacts isNode isOther).mpr ⟨target, passes.1, isLive⟩
      exact (mem_before_iff areFacts isNode).mpr (.inr ⟨isLiveAfter, passes.2⟩)

/-- On a graph that control leaves at the exit, the live variables are those that paths give. -/
theorem followPaths_of_backward (closed : flow.graph.Closed)
    (noneLeaveExit : flow.graph.successors .exit = [])
    (areFacts : liveAnalysis.backward flow steps = .ok facts) : facts.FollowPaths flow where
  before_iff isNode := ⟨readsFirst_of_mem_before areFacts,
    mem_before_of_readsFirst closed noneLeaveExit areFacts isNode⟩
  after_iff {node var} isNode := by
    by_cases isExit : node = .exit
    · subst isExit
      rw [(Analysis.solves_of_backward areFacts).starts isNode, noneLeaveExit]
      exact iff_of_false SetFact.not_mem_empty fun ⟨target, isTarget, _⟩ =>
        List.not_mem_nil isTarget
    · exact mem_after_iff areFacts isNode isExit

/-- The live variables analysis ends on every method with a body, and its facts are right about
the paths of the method, at the nodes that control cannot reach as well as at the others. -/
theorem followPaths_liveVariables {program : Program} {text : String} {id : MethodId}
    (isProgram : Program.ofText text = .ok program)
    (hasBody : (program.methodDef id).hasBody = true) :
    (∃ steps facts, (program.methodDef id).liveVariables steps = .ok facts) ∧
      ∀ steps facts, (program.methodDef id).liveVariables steps = .ok facts →
        facts.FollowPaths (program.methodDef id).flow := by
  have areInside := program.jumpsInside_ofText isProgram id
  have isFlow := ControlFlow.ofMethod_eq_ok_iff.mpr ⟨hasBody, rfl⟩
  have isAnalysis (steps : Nat) : (program.methodDef id).liveVariables steps =
      liveAnalysis.backward (program.methodDef id).flow steps := by
    rw [MethodDef.liveVariables, isFlow]
    rfl
  simp only [isAnalysis]
  exact ⟨exists_liveFacts areInside, fun _ _ =>
    followPaths_of_backward (MethodDef.flow_closed areInside) MethodDef.successors_exit⟩

/-- Two loops, one inside the other, that control never leaves, and statements after them that
it cannot reach: what these read is live before them, and what they define is not. -/
theorem followPaths_liveVariables_looping : ∃ program,
    Program.ofText "class Main { static method main(int n) : int { var int a, b;
      a = n; L: b = a; M: if b == n goto M; goto L; a = b; return a; } }" = .ok program ∧
    (∃ facts, (program.methodDef 0).liveVariables 30 = .ok facts ∧
      (facts.before.get (.stmt 3)).elements = [0, 1] ∧
      (facts.before.get (.stmt 4)).elements = [2]) ∧
    (∃ steps facts, (program.methodDef 0).liveVariables steps = .ok facts) ∧
      ∀ steps facts, (program.methodDef 0).liveVariables steps = .ok facts →
        facts.FollowPaths (program.methodDef 0).flow := by
  have passes : (Program.ofText "class Main { static method main(int n) : int { var int a, b;
      a = n; L: b = a; M: if b == n goto M; goto L; a = b; return a; } }").toOption.any
      (fun program => (program.methodDef 0).hasBody &&
        ((program.methodDef 0).liveVariables 30).toOption.any fun facts =>
          decide ((facts.before.get (.stmt 3)).elements = [0, 1] ∧
            (facts.before.get (.stmt 4)).elements = [2])) = true := by decide +kernel
  obtain ⟨program, isProgram, holds⟩ := exists_of_test passes
  rw [Bool.and_eq_true] at holds
  obtain ⟨facts, areFacts, areLive⟩ := exists_of_test holds.2
  exact ⟨program, isProgram, ⟨facts, areFacts, of_decide_eq_true areLive⟩,
    followPaths_liveVariables isProgram holds.1⟩

end Facts

end TacAnalysis
