/-
# Control flow graphs and successors

Where control may go after a statement is said twice: by the arcs of the control flow
graph, which the analyses follow, and by the successors of the statement, along which the
variables of a body are split. The two are the same, each target being named as often by
one as by the other. Besides, the graph has an entry and an exit: a single arc leaves the
entry, and a single one leads to the exit from each statement that returns, or that is the
last one and lets control fall through.
-/

import TacAnalysis.Proofs.ControlFlow
import TacAnalysis.Proofs.Lists

namespace TacAnalysis

/-- The next node is the next position, or the exit when there is none. -/
theorem FlowNode.next_eq {index size : Nat} (inBody : index < size) : [FlowNode.next size index] =
    (if index + 1 < size then [index + 1] else []).map .stmt ++
      if index + 1 = size then [.exit] else [] := by
  rw [FlowNode.next]
  split
  case isTrue isInside => rw [if_neg (Nat.ne_of_lt isInside), List.append_nil, List.map_singleton]
  case isFalse isLast =>
      rw [if_pos (Nat.le_antisymm inBody (Nat.le_of_not_lt isLast)), List.map_nil, List.nil_append]

namespace Stmt

/-- Whether a statement returns from its method. -/
def isReturn : Stmt → Bool
  | ret _ => true
  | _ => false

/-- Whether control leaves a body of `size` statements after the statement at `index`. -/
def leaves (stmt : Stmt) (index size : Nat) : Bool :=
  stmt.isReturn || stmt.fallsThrough && index + 1 = size

variable {stmt : Stmt} {index size : Nat}

/-- The steps out of a statement lead to its successors in their order, and to the exit
where control leaves the body. -/
theorem targets_branches (inBody : index < size) :
    (stmt.branches index size).map Prod.snd =
      (stmt.successors index size).map .stmt ++
        if stmt.leaves index size then [.exit] else [] := by
  cases stmt with
  | goto target => rfl
  | ret value => rfl
  | switch scrutinee cases default =>
      simp [branches, successors, jumps, fallsThrough, leaves, isReturn]
  | _ =>
      simp only [branches, List.map_cons, List.map_nil, FlowNode.next_eq inBody, successors, jumps,
        fallsThrough, leaves, isReturn, Bool.true_and, Bool.false_or, decide_eq_true_eq,
        List.nil_append, List.cons_append]

theorem branches_ne_nil : stmt.branches index size ≠ [] := by
  cases stmt <;> simp [branches]

end Stmt

namespace MethodDef

variable {method : MethodDef} {index : Nat}

/-- The arcs out of a statement are its steps, the last one first. -/
theorem outgoing_stmt (inBody : index < method.body.size) :
    method.flow.graph.outgoing (.stmt index) =
      (((method.stmt index).branches index method.body.size).map fun step =>
        ⟨.stmt index, step.1, step.2⟩).reverse := by
  let steps (index : Nat) : List (Arc FlowNode Branch) :=
    ((method.stmt index).branches index method.body.size).map fun step =>
      ⟨.stmt index, step.1, step.2⟩
  have areSteps : ∀ index ∈ List.range method.body.size, ∀ arc ∈ steps index,
      arc.source = .stmt index := by
    intro index _ arc isArc
    obtain ⟨step, -, rfl⟩ := List.mem_map.mp isArc
    rfl
  exact congrArg List.reverse (filter_flatMap_of_key .stmt steps Arc.source (nodup_stmts _)
    areSteps (List.mem_range.mpr inBody))

/-- Its targets are the successors of the statement, and the exit where control leaves the
body. -/
theorem successors_stmt (inBody : index < method.body.size) :
    (method.flow.graph.successors (.stmt index)).Perm
      (((method.stmt index).successors index method.body.size).map .stmt ++
        if (method.stmt index).leaves index method.body.size then [.exit] else []) := by
  rw [Digraph.successors, outgoing_stmt inBody, List.map_reverse, List.map_map,
    ← Stmt.targets_branches inBody]
  exact List.reverse_perm _

end MethodDef

/-- The control flow graph of a method agrees with the successors of its statements. -/
structure MethodDef.AgreesWithSuccessors (method : MethodDef) (flow : ControlFlow) : Prop where
  /-- The arcs out of a statement that do not lead to the exit lead to its successors. -/
  targets : ∀ index < method.body.size,
    ((flow.graph.successors (.stmt index)).filter (· ≠ .exit)).Perm
      (((method.stmt index).successors index method.body.size).map .stmt)
  /-- Where control leaves the body there is one arc to the exit, and elsewhere none. -/
  exits : ∀ index < method.body.size, (flow.graph.successors (.stmt index)).count .exit =
    if (method.stmt index).leaves index method.body.size then 1 else 0
  /-- The body is entered at its first statement, and left at once when it has none. -/
  fromEntry : flow.graph.successors .entry = [if method.body.size = 0 then .exit else .stmt 0]
  toEntry : flow.graph.predecessors .entry = []
  fromExit : flow.graph.successors .exit = []
  /-- There are no nodes but the entry, the statements and the exit. -/
  nodes : ∀ node, node ∈ flow.graph.nodes ↔
    node = .entry ∨ (∃ index < method.body.size, node = .stmt index) ∨ node = .exit
  /-- Control goes on from every node but the exit. -/
  goesOn : ∀ node ∈ flow.graph.nodes, node ≠ .exit → flow.graph.successors node ≠ []
  /-- The arcs go from node to node. -/
  ends : ∀ arc ∈ flow.graph.arcs, arc.source ∈ flow.graph.nodes ∧ arc.target ∈ flow.graph.nodes

namespace MethodDef

variable {method : MethodDef} {index : Nat}

section Statement

variable (inBody : index < method.body.size)

include inBody

theorem targets_stmt : ((method.flow.graph.successors (.stmt index)).filter (· ≠ .exit)).Perm
    (((method.stmt index).successors index method.body.size).map .stmt) := by
  have areStmts : ∀ node ∈ ((method.stmt index).successors index method.body.size).map .stmt,
      decide (node ≠ FlowNode.exit) = true := by
    intro node isNode
    obtain ⟨target, -, rfl⟩ := List.mem_map.mp isNode
    rfl
  refine ((successors_stmt inBody).filter _).trans (.of_eq ?_)
  rw [List.filter_append, List.filter_eq_self.mpr areStmts, List.append_right_eq_self]
  split <;> rfl

theorem count_exit_stmt : (method.flow.graph.successors (.stmt index)).count .exit =
    if (method.stmt index).leaves index method.body.size then 1 else 0 := by
  have noStmt : FlowNode.exit ∉
      ((method.stmt index).successors index method.body.size).map .stmt := by
    intro isStmt
    obtain ⟨target, -, isExit⟩ := List.mem_map.mp isStmt
    cases isExit
  rw [(successors_stmt inBody).count_eq, List.count_append, List.count_eq_zero_of_not_mem noStmt,
    Nat.zero_add]
  cases (method.stmt index).leaves index method.body.size <;> rfl

theorem successors_stmt_ne_nil : method.flow.graph.successors (.stmt index) ≠ [] := by
  rw [Digraph.successors, outgoing_stmt inBody]
  simpa using Stmt.branches_ne_nil

end Statement

/-- Only the first arc leaves the entry. -/
theorem successors_entry : method.flow.graph.successors .entry =
    [if method.body.size = 0 then .exit else .stmt 0] := by
  have areOthers : ((List.range method.body.size).flatMap fun index =>
      ((method.body.getD index .nop).branches index method.body.size).map fun step =>
        (⟨.stmt index, step.1, step.2⟩ : Arc FlowNode Branch)).filter
      (fun arc => arc.source = .entry) = [] := by
    refine List.filter_eq_nil_iff.mpr fun arc isArc => ?_
    obtain ⟨index, -, isStep⟩ := List.mem_flatMap.mp isArc
    obtain ⟨step, -, rfl⟩ := List.mem_map.mp isStep
    exact nofun
  rw [Digraph.successors, Digraph.outgoing]
  show ((flowArcs method.body).filter _).reverse.map Arc.target = _
  rw [flowArcs, List.filter_cons_of_pos (by rfl), areOthers]
  rfl

/-- The graph of a method that jumps inside its body agrees with the successors of its
statements. -/
theorem agreesWithSuccessors_flow (areInside : method.JumpsInside) :
    method.AgreesWithSuccessors method.flow where
  targets _ := targets_stmt
  exits _ := count_exit_stmt
  fromEntry := successors_entry
  toEntry := predecessors_entry
  fromExit := successors_exit
  nodes _ := mem_flowNodes
  goesOn node isNode notExit := by
    rcases mem_flowNodes.mp isNode with rfl | ⟨index, inBody, rfl⟩ | rfl
    · rw [successors_entry]
      exact List.cons_ne_nil _ _
    · exact successors_stmt_ne_nil inBody
    · exact absurd rfl notExit
  ends _ isArc := ⟨source_mem_nodes isArc, target_mem_nodes areInside isArc⟩

end MethodDef

namespace Program

/-- Every method with a body of a program that a text stands for has a control flow graph, and
the arcs of it and the successors of the statements of the method describe the same flow of
control. -/
theorem agreesWithSuccessors_ofText {program : Program} {text : String} {id : MethodId}
    (isProgram : Program.ofText text = .ok program)
    (hasBody : (program.methodDef id).hasBody = true) :
    ∃ flow, ControlFlow.ofMethod (program.methodDef id) = .ok flow ∧
      (program.methodDef id).AgreesWithSuccessors flow :=
  ⟨_, ControlFlow.ofMethod_eq_ok_iff.mpr ⟨hasBody, rfl⟩,
    MethodDef.agreesWithSuccessors_flow (program.jumpsInside_ofText isProgram id)⟩

/-- A method that jumps to itself, branches to the next statement, goes two ways to the same
place, and branches at its end. -/
def windingText : String := "class Main { static method main(int n) : void { L: goto L;
  if n == n goto N; N: switch n { 1 -> L, 2 -> L, default -> N }; if n < n goto L; } }"

/-- Targets that are named several times are the targets of as many arcs. -/
theorem agreesWithSuccessors_winding : ∃ program, Program.ofText windingText = .ok program ∧
    (program.methodDef 0).hasBody = true ∧
    (program.methodDef 0).body.toList.mapIdx (fun index stmt => stmt.successors index 4) =
      [[0], [2, 2], [0, 0, 2], [0]] ∧
    ∃ flow, ControlFlow.ofMethod (program.methodDef 0) = .ok flow ∧
      (program.methodDef 0).AgreesWithSuccessors flow := by
  have passes : (Program.ofText windingText).toOption.any (fun program =>
      decide ((program.methodDef 0).hasBody = true ∧
        (program.methodDef 0).body.toList.mapIdx (fun index stmt => stmt.successors index 4) =
          [[0], [2, 2], [0, 0, 2], [0]])) = true := by decide +kernel
  obtain ⟨program, isProgram, holds⟩ := exists_of_test passes
  obtain ⟨hasBody, areSuccessors⟩ := of_decide_eq_true holds
  exact ⟨program, isProgram, hasBody, areSuccessors, agreesWithSuccessors_ofText isProgram hasBody⟩

end Program

end TacAnalysis
