/-
# What is reported as dead

A statement is reported exactly when it is dead by definition: no path leads to it through
branches that the constants leave open, or it does nothing but assign a variable that no path
from there reads before it is defined again. The search for the nodes that control can reach
is related to paths along arcs, as two arcs between the same nodes may differ in whether they
are open, and the live variables are related to paths that read them.
-/

import TacAnalysis.Proofs.Dataflow.LivePaths
import TacAnalysis.Proofs.DeadCode

namespace TacAnalysis

open Relation (ReflTransGen)

/-- Constants leave a branch of a statement open. A condition with a constant value leaves one
side open, and a switch on a constant the cases of that value, or the default one when there
are none. All other branches are open. -/
def Stmt.LeavesOpen (stmt : Stmt) (fact : ConstFact) (branch : Branch) : Prop :=
  match stmt with
  | .branch cond _ => ∀ value, cond.evaluate fact = .constant value →
      value = 0 ∧ branch = .ifFalse ∨ value ≠ 0 ∧ branch = .ifTrue
  | .switch scrutinee cases _ => ∀ value, fact.get scrutinee = .constant value →
      (∃ target, (value, target) ∈ cases) ∧ branch = .case value ∨
        (∀ target, (value, target) ∉ cases) ∧ branch = .default
  | _ => True

/-- A statement assigns a literal, a copy or a binary expression other than a division or a
remainder to a variable. -/
inductive Stmt.OnlyAssigns (var : VarId) : Stmt → Prop
  | literal (value : Literal) : OnlyAssigns var (.literal var value)
  | copy (source : VarId) : OnlyAssigns var (.copy var source)
  | binary {exp : BinExp} (notDivision : exp.op ≠ .div) (notRemainder : exp.op ≠ .rem) :
      OnlyAssigns var (.binary var exp)

namespace ControlFlow

/-- An arc that the constants before its source leave open leads from one node to another. -/
def Opens (flow : ControlFlow) (constants : FlowNode → ConstFact)
    (source target : FlowNode) : Prop :=
  ∃ arc ∈ flow.graph.arcs, arc.source = source ∧ arc.target = target ∧
    (flow.stmtAt source).LeavesOpen (constants source) arc.label

/-- A statement of the body that no path leads to through open branches, or that only assigns
a variable that no path from a successor reads before defining it. -/
def IsDead (flow : ControlFlow) (constants : FlowNode → ConstFact) (index : Nat) : Prop :=
  index < flow.method.body.size ∧
    (¬ ReflTransGen (flow.Opens constants) .entry (.stmt index) ∨
      ∃ var, (flow.method.stmt index).OnlyAssigns var ∧
        ∀ target ∈ flow.graph.successors (.stmt index), ¬ flow.ReadsFirst var target)

end ControlFlow

section Branches

variable {stmt : Stmt} {fact : ConstFact} {branch : Branch} {var : VarId}

/-- The branches followed are those that constants leave open. -/
theorem Stmt.mayTake_iff : stmt.mayTake fact branch = true ↔ stmt.LeavesOpen fact branch := by
  cases stmt with
  | branch cond target =>
      simp only [mayTake, LeavesOpen]
      cases cond.evaluate fact with
      | constant value =>
          by_cases isZero : value = 0
          · simp [isZero]
          · simp [isZero]
      | _ => simp
  | switch scrutinee cases default =>
      simp only [mayTake, LeavesOpen]
      cases fact.get scrutinee with
      | constant value =>
          have isCase : (cases.any fun entry => entry.1 = value) = true ↔
              ∃ target, (value, target) ∈ cases := by simp [List.any_eq_true]
          by_cases hasCase : ∃ target, (value, target) ∈ cases
          · simp [isCase, hasCase]
          · simp [isCase, not_exists.mp hasCase]
      | _ => simp
  | _ => simp [mayTake, LeavesOpen]

theorem BinOp.canThrow_eq_false_iff {op : BinOp} :
    op.canThrow = false ↔ op ≠ .div ∧ op ≠ .rem := by
  cases op <;> simp [canThrow]

/-- What may be dead for its variable alone is told by its form. -/
theorem Stmt.onlyAssigns_iff :
    stmt.onlyAssigns = true ∧ stmt.def? = some var ↔ stmt.OnlyAssigns var := by
  constructor
  · rintro ⟨isHarmless, isDef⟩
    cases stmt with
    | literal target value =>
        cases isDef
        exact .literal value
    | copy target source =>
        cases isDef
        exact .copy source
    | binary target exp =>
        cases isDef
        have cannotThrow : exp.op.canThrow = false := by simpa [onlyAssigns] using isHarmless
        obtain ⟨notDivision, notRemainder⟩ := BinOp.canThrow_eq_false_iff.mp cannotThrow
        exact .binary notDivision notRemainder
    | _ => cases isHarmless
  · intro assigns
    cases assigns with
    | literal value => exact ⟨rfl, rfl⟩
    | copy source => exact ⟨rfl, rfl⟩
    | binary notDivision notRemainder =>
        have cannotThrow := BinOp.canThrow_eq_false_iff.mpr ⟨notDivision, notRemainder⟩
        exact ⟨by simp [onlyAssigns, cannotThrow], rfl⟩

end Branches

section Analysis

variable {flow : ControlFlow} {constants : FlowNode → ConstFact} {node : FlowNode}

/-- The nodes found are those that paths through open branches lead to from the entry. -/
theorem mem_feasibleNodes_iff :
    node ∈ flow.feasibleNodes constants ↔ ReflTransGen (flow.Opens constants) .entry node := by
  have leads_iff (source target : FlowNode) :
      (flow.openLinks constants).Leads source target ↔ flow.Opens constants source target := by
    refine List.mem_map.trans (exists_congr fun arc => ?_)
    rw [ControlFlow.mem_openArcs, Stmt.mayTake_iff]
    tauto
  have sameSteps : (flow.openLinks constants).Leads = flow.Opens constants :=
    funext fun source => funext fun target => propext (leads_iff source target)
  rw [mem_feasibleNodes, sameSteps]

/-- With the live variables of the graph, the dead statements are those that are dead by
definition. -/
theorem mem_deadStatements_iff {live : NodeFacts FlowNode (SetFact VarId)} {index : Nat}
    (closed : flow.graph.Closed)
    (areNodes : ∀ index < flow.method.body.size, .stmt index ∈ flow.graph.nodes)
    (followPaths : live.FollowPaths flow) :
    index ∈ flow.deadStatements constants live.after.get ↔ flow.IsDead constants index := by
  rw [mem_deadStatements, ControlFlow.IsDead, mem_feasibleNodes_iff]
  refine and_congr_right fun inBody => or_congr_right ?_
  have isNode := areNodes index inBody
  have unread_iff (var : VarId) : var ∉ live.after.get (.stmt index) ↔
      ∀ target ∈ flow.graph.successors (.stmt index), ¬ flow.ReadsFirst var target := by
    rw [followPaths.after_iff isNode, not_exists]
    refine forall_congr' fun target => not_and.trans (forall_congr' fun isTarget => ?_)
    exact not_congr (followPaths.before_iff (closed.mem_of_mem_successors isTarget))
  simp only [← Stmt.onlyAssigns_iff, ← unread_iff, and_assoc, exists_and_left]

end Analysis

/-- Whenever dead code detection answers, it reports the statements that are dead by definition,
with the constants that constant propagation has found, in their order and once each. -/
theorem isDead_iff_of_deadCode {program : Program} {text : String} {steps : Nat} {id : MethodId}
    {dead : List Nat} (isProgram : Program.ofText text = .ok program)
    (areDead : program.deadCode steps id = .ok dead) :
    ∃ constants, program.propagateConstants steps id = .ok constants ∧
      (∀ index, index ∈ dead ↔
        (program.methodDef id).flow.IsDead constants.before.get index) ∧
      dead.Pairwise (· < ·) := by
  obtain ⟨constants, live, areConstants, areLive, rfl⟩ := exists_of_deadCode areDead
  have closed := MethodDef.flow_closed (program.jumpsInside_ofText isProgram id)
  have followPaths := followPaths_of_backward closed MethodDef.successors_exit
    (backward_of_liveVariables areLive)
  refine ⟨constants, areConstants, fun index => ?_, List.Pairwise.filter _ List.pairwise_lt_range⟩
  exact mem_deadStatements_iff closed
    (fun index inBody => mem_flowNodes.mpr (.inr (.inl ⟨index, inBody, rfl⟩))) followPaths

/-- Constants decide a jump to the next statement and a switch with two cases for one label.
The first sum is never read, the division may fail, and `x` is read after the switch. -/
theorem isDead_iff_of_deadCode_switched : ∃ program constants,
    Program.ofText "class Main { static method main(int n) : int { var int x, y;
      x = 2; if x < x goto N; N: y = n + x; y = n / x;
      switch x { 1 -> A, 2 -> B, 3 -> A, default -> A }; A: y = x; B: return x; } }" =
        .ok program ∧
    program.deadCode 20 0 = .ok [2, 5] ∧
    program.propagateConstants 20 0 = .ok constants ∧
    (∀ index, index ∈ [2, 5] ↔ (program.methodDef 0).flow.IsDead constants.before.get index) ∧
      [2, 5].Pairwise (· < ·) := by
  have passes : (Program.ofText "class Main { static method main(int n) : int { var int x, y;
      x = 2; if x < x goto N; N: y = n + x; y = n / x;
      switch x { 1 -> A, 2 -> B, 3 -> A, default -> A }; A: y = x; B: return x; } }").toOption.any
      (fun program => (program.deadCode 20 0).toOption.any fun dead =>
        decide (dead = [2, 5])) = true := by decide +kernel
  obtain ⟨program, isProgram, ends⟩ := exists_of_test passes
  obtain ⟨dead, areDead, holds⟩ := exists_of_test ends
  obtain rfl := of_decide_eq_true holds
  obtain ⟨constants, areConstants, exact⟩ := isDead_iff_of_deadCode isProgram areDead
  exact ⟨program, constants, isProgram, areDead, areConstants, exact⟩

end TacAnalysis
