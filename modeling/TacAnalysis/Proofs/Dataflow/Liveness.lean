/-
# Live variables

The variables live before a statement are those that it reads, and those live after it
that it does not define. The analysis is monotone over the sets of the variables that
the method reads, so that it always ends; and once it has ended, a variable live before
a node is live after every node that leads there.
-/

import TacAnalysis.LiveVariables
import TacAnalysis.Proofs.ControlFlow
import TacAnalysis.Proofs.Dataflow.Intraprocedural
import TacAnalysis.Proofs.Dataflow.SetFacts

namespace TacAnalysis

variable {method : MethodDef} {stmt : Stmt} {var : VarId} {live other : SetFact VarId}

theorem Stmt.mem_liveBefore :
    var ∈ stmt.liveBefore live ↔ var ∈ stmt.uses ∨ var ∈ live ∧ stmt.def? ≠ some var := by
  rw [liveBefore, SetFact.mem_foldl_insert]
  cases stmt.def? with
  | none => simp
  | some target => simp [SetFact.mem_erase, eq_comm]

/-- The variables that the statements of a method read. -/
def MethodDef.readVars (method : MethodDef) : List VarId := method.body.toList.flatMap Stmt.uses

theorem MethodDef.mem_readVars_of_uses {node : FlowNode}
    (isUsed : var ∈ (method.flow.stmtAt node).uses) : var ∈ method.readVars := by
  rcases method.flow.stmtAt_mem node with isNop | isMember
  · rw [isNop] at isUsed
    cases isUsed
  · exact List.mem_flatMap.mpr ⟨_, Array.mem_toList_iff.mpr isMember, isUsed⟩

/-- The live variables are some of those that the method reads. -/
theorem keeps_liveAnalysis (method : MethodDef) :
    liveAnalysis.Keeps method.flow (SetFact.Within method.readVars) where
  boundary := SetFact.within_empty
  initial := SetFact.within_empty
  meet _ _ isWithin otherIs := otherIs.foldl_insert isWithin.mem
  transfer node live isWithin := by
    apply SetFact.Within.foldl_insert _ fun _ isUsed => MethodDef.mem_readVars_of_uses isUsed
    cases (method.flow.stmtAt node).def? with
    | none => exact isWithin
    | some target => exact isWithin.erase target

/-- More variables are live before a statement when more are live after it. -/
theorem isMonotone_liveAnalysis (method : MethodDef) :
    liveAnalysis.IsMonotone method.flow (SetFact.Within method.readVars) where
  keeps := keeps_liveAnalysis method
  lattice := SetFact.isSemilattice _
  transfer node first second _ _ isBelow := by
    intro var isLive
    apply Stmt.mem_liveBefore.mpr
    rcases Stmt.mem_liveBefore.mp isLive with isUsed | ⟨isAfter, isKept⟩
    · exact .inl isUsed
    · exact .inr ⟨isBelow var isAfter, isKept⟩

section Facts

variable {flow : ControlFlow} {steps : Nat} {facts : NodeFacts FlowNode (SetFact VarId)}
  {node : FlowNode}

/-- The variables live before a node are those that its statement reads, and those live
after it that the statement does not define. -/
theorem mem_before_iff (areFacts : liveAnalysis.backward flow steps = .ok facts)
    (isNode : node ∈ flow.graph.nodes) : var ∈ facts.before.get node ↔
      var ∈ (flow.stmtAt node).uses ∨
        var ∈ facts.after.get node ∧ (flow.stmtAt node).def? ≠ some var := by
  rw [(Analysis.solves_of_backward areFacts).transfers node isNode]
  exact Stmt.mem_liveBefore

/-- The variables live after a node are those live before one that it leads to. -/
theorem mem_after_iff (areFacts : liveAnalysis.backward flow steps = .ok facts)
    (isNode : node ∈ flow.graph.nodes) (isOther : node ≠ .exit) : var ∈ facts.after.get node ↔
      ∃ target ∈ flow.graph.successors node, var ∈ facts.before.get target := by
  have met (targets : List FlowNode) (live : SetFact VarId) :
      var ∈ (targets.map facts.before.get).foldl (fun met fact => liveAnalysis.meet fact met) live ↔
        (∃ target ∈ targets, var ∈ facts.before.get target) ∨ var ∈ live := by
    induction targets generalizing live with
    | nil => simp
    | cons first targets ih =>
        rw [List.map_cons, List.foldl_cons, ih]
        simp only [liveAnalysis, SetFact.mem_union, List.mem_cons, exists_eq_or_imp]
        exact or_left_comm.trans or_assoc.symm
  rw [(Analysis.solves_of_backward areFacts).joins node isNode isOther, met]
  exact or_iff_left SetFact.not_mem_empty

end Facts

end TacAnalysis
