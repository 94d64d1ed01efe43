/-
# Control flow graphs of methods

The arcs of a control flow graph go from statement to statement, into the first
statement from the entry and out of the last ones to the exit. No arc leads back to
the entry, and when a method jumps inside its body only, the arcs lead to nodes of
the graph.
-/

import TacAnalysis.ControlFlow
import TacAnalysis.Proofs.Resolution.Jumps

namespace TacAnalysis

/-- The control flow graph of the statements of a method, whether it has a body or not. -/
def MethodDef.flow (method : MethodDef) : ControlFlow :=
  ⟨method, flowNodes method.body.size, flowArcs method.body⟩

theorem ControlFlow.ofMethod_eq_ok_iff {method : MethodDef} {flow : ControlFlow} :
    ControlFlow.ofMethod method = .ok flow ↔ method.hasBody = true ∧ flow = method.flow := by
  rw [ofMethod]
  split
  case isTrue hasBody => simp [hasBody, MethodDef.flow, eq_comm]
  case isFalse noBody => simp [noBody]

/-- The statement of a node is one of the body, unless it does nothing. -/
theorem ControlFlow.stmtAt_mem (flow : ControlFlow) (node : FlowNode) :
    flow.stmtAt node = .nop ∨ flow.stmtAt node ∈ flow.method.body := by
  cases node with
  | entry => exact .inl rfl
  | exit => exact .inl rfl
  | stmt index =>
      rw [stmtAt, MethodDef.stmt, Array.getD]
      split
      case isTrue inBody => exact .inr (Array.getElem_mem inBody)
      case isFalse => exact .inl rfl

section Arcs

variable {size index : Nat} {node : FlowNode} {stmt : Stmt} {step : Branch × FlowNode}
  {body : Array Stmt} {arc : Arc FlowNode Branch}

theorem mem_flowNodes : node ∈ flowNodes size ↔
    node = .entry ∨ (∃ index < size, node = .stmt index) ∨ node = .exit := by
  simp [flowNodes, eq_comm]

/-- Each statement of a body has a node of its own. -/
theorem nodup_stmts (size : Nat) : ((List.range size).map FlowNode.stmt).Nodup :=
  List.Pairwise.map FlowNode.stmt (fun _ _ differ isSame => differ (FlowNode.stmt.inj isSame))
    List.nodup_range

theorem nodup_flowNodes (size : Nat) : (flowNodes size).Nodup := by
  simp [flowNodes, List.nodup_append, nodup_stmts]

/-- A step out of a statement leads to the exit, to a statement that it jumps to, or to
the next one. -/
theorem target_of_mem_branches (isStep : step ∈ stmt.branches index size) :
    step.2 = .exit ∨ ∃ target, step.2 = .stmt target ∧
      (target ∈ stmt.jumps ∨ target = index + 1 ∧ target < size) := by
  have next : FlowNode.next size index = .exit ∨ ∃ target, FlowNode.next size index =
      .stmt target ∧ (target ∈ stmt.jumps ∨ target = index + 1 ∧ target < size) := by
    rw [FlowNode.next]
    split
    case isTrue isInside => exact .inr ⟨index + 1, rfl, .inr ⟨rfl, isInside⟩⟩
    case isFalse => exact .inl rfl
  cases stmt with
  | branch cond target =>
      rcases List.mem_cons.mp isStep with rfl | isNext
      · exact .inr ⟨target, rfl, .inl (List.mem_singleton.mpr rfl)⟩
      · rw [List.mem_singleton.mp isNext]
        exact next
  | goto target =>
      rw [List.mem_singleton.mp isStep]
      exact .inr ⟨target, rfl, .inl (List.mem_singleton.mpr rfl)⟩
  | switch scrutinee cases default =>
      rcases List.mem_append.mp isStep with isCase | isDefault
      · obtain ⟨entry, isEntry, rfl⟩ := List.mem_map.mp isCase
        exact .inr ⟨entry.2, rfl,
          .inl (List.mem_append_left _ (List.mem_map.mpr ⟨entry, isEntry, rfl⟩))⟩
      · rw [List.mem_singleton.mp isDefault]
        exact .inr ⟨default, rfl, .inl (List.mem_append_right _ (List.mem_singleton.mpr rfl))⟩
  | ret value =>
      rw [List.mem_singleton.mp isStep]
      exact .inl rfl
  | _ =>
      rw [List.mem_singleton.mp isStep]
      exact next

/-- The arcs are the one that leaves the entry, and the steps out of the statements. -/
theorem mem_flowArcs_iff : arc ∈ flowArcs body ↔
    arc = ⟨.entry, .sequence, if body.size = 0 then .exit else .stmt 0⟩ ∨
      ∃ index < body.size, arc.source = .stmt index ∧
        (arc.label, arc.target) ∈ (body.getD index .nop).branches index body.size := by
  rw [flowArcs, List.mem_cons]
  apply or_congr_right
  simp only [List.mem_flatMap, List.mem_map, List.mem_range]
  constructor
  · rintro ⟨index, inBody, step, isStep, rfl⟩
    exact ⟨index, inBody, rfl, isStep⟩
  · rintro ⟨index, inBody, isSource, isStep⟩
    exact ⟨index, inBody, _, isStep, by rw [← isSource]⟩

/-- An arc leaves the entry, or is a step out of a statement. -/
theorem mem_flowArcs (isArc : arc ∈ flowArcs body) :
    (arc.source = .entry ∧ arc.target = if body.size = 0 then .exit else .stmt 0) ∨
      ∃ index < body.size, arc.source = .stmt index ∧
        (arc.label, arc.target) ∈ (body.getD index .nop).branches index body.size := by
  rcases mem_flowArcs_iff.mp isArc with rfl | isStep
  · exact .inl ⟨rfl, rfl⟩
  · exact .inr isStep

theorem target_ne_entry (isArc : arc ∈ flowArcs body) : arc.target ≠ .entry := by
  intro isEntry
  rcases mem_flowArcs isArc with ⟨-, isFirst⟩ | ⟨index, -, -, isStep⟩
  · rw [isEntry] at isFirst
    split at isFirst
    · cases isFirst
    · cases isFirst
  · rcases target_of_mem_branches isStep with isExit | ⟨target, isStmt, -⟩
    · cases isEntry.symm.trans isExit
    · cases isEntry.symm.trans isStmt

theorem source_ne_exit (isArc : arc ∈ flowArcs body) : arc.source ≠ .exit := by
  rcases mem_flowArcs isArc with ⟨isEntry, -⟩ | ⟨index, -, isStmt, -⟩
  · rw [isEntry]
    exact nofun
  · rw [isStmt]
    exact nofun

end Arcs

namespace MethodDef

variable {method : MethodDef} {arc : Arc FlowNode Branch}

/-- The arcs of a method leave nodes of its graph. -/
theorem source_mem_nodes (isArc : arc ∈ method.flow.graph.arcs) :
    arc.source ∈ method.flow.graph.nodes := by
  apply mem_flowNodes.mpr
  rcases mem_flowArcs isArc with ⟨isEntry, -⟩ | ⟨index, inBody, isStmt, -⟩
  · exact .inl isEntry
  · exact .inr (.inl ⟨index, inBody, isStmt⟩)

/-- The arcs of a method lead to nodes of its graph. -/
theorem target_mem_nodes (areInside : method.JumpsInside) (isArc : arc ∈ method.flow.graph.arcs) :
    arc.target ∈ method.flow.graph.nodes := by
  apply mem_flowNodes.mpr
  rcases mem_flowArcs isArc with ⟨-, isFirst⟩ | ⟨index, inBody, -, isStep⟩
  · rw [isFirst]
    split
    · exact .inr (.inr rfl)
    · exact .inr (.inl ⟨0, by omega, rfl⟩)
  · rcases target_of_mem_branches isStep with isExit | ⟨target, isStmt, isJump | ⟨-, isNext⟩⟩
    · exact .inr (.inr isExit)
    · have isMember : method.body.getD index .nop ∈ method.body := by
        rw [Array.getD, dif_pos inBody]
        exact Array.getElem_mem inBody
      exact .inr (.inl ⟨target, areInside _ isMember target isJump, isStmt⟩)
    · exact .inr (.inl ⟨target, isNext, isStmt⟩)

theorem successors_exit : method.flow.graph.successors .exit = [] := by
  refine List.eq_nil_iff_forall_not_mem.mpr fun target isTarget => ?_
  obtain ⟨arc, isArc, isSource, -⟩ := (Digraph.mem_successors _).mp isTarget
  exact source_ne_exit isArc isSource

theorem predecessors_entry : method.flow.graph.predecessors .entry = [] := by
  refine List.eq_nil_iff_forall_not_mem.mpr fun source isSource => ?_
  obtain ⟨arc, isArc, isTarget, -⟩ := (Digraph.mem_predecessors _).mp isSource
  exact target_ne_entry isArc isTarget

end MethodDef

/-- The program points of a method are nodes of its graph. -/
theorem Program.stmt_mem_nodes {program : Program} {site : Site}
    (isSite : site ∈ program.sitesOf site.method) :
    .stmt site.index ∈ (program.methodDef site.method).flow.graph.nodes := by
  obtain ⟨index, inBody, isIndex⟩ := List.mem_map.mp isSite
  exact mem_flowNodes.mpr (.inr (.inl ⟨index, List.mem_range.mp inBody, by rw [← isIndex]⟩))

end TacAnalysis
