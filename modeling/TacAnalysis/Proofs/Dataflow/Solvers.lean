/-
# What the solvers answer

The forward, the backward and the interprocedural solver answer in the same way. The
facts they settle on satisfy all the equations at once, whatever the analysis. When the
facts form a join-semilattice without infinite ascents and the analysis is monotone,
each of them does settle, and on the least solution: no order of visiting the nodes
would have led to other facts.
-/

import TacAnalysis.Proofs.Dataflow.Liveness
import TacAnalysis.Proofs.Interprocedural.Constants

namespace TacAnalysis

/-- Some nodes have both a fact before them and a fact after them. -/
def NodeFacts.Covers {Node Fact : Type} [BEq Node] (facts : NodeFacts Node Fact)
    (nodes : List Node) : Prop :=
  ∀ node ∈ nodes, (facts.before.get? node).isSome ∧ (facts.after.get? node).isSome

section Solvers

variable {Fact : Type} [DecidableEq Fact]

/-- Whenever a solver answers, every node has its two facts, and these satisfy the equations
at every node, be the analysis monotone or not. -/
theorem covers_and_solves :
    (∀ (analysis : Analysis Fact) (flow : ControlFlow) steps facts,
      analysis.forward flow steps = .ok facts → facts.Covers flow.graph.nodes ∧
        analysis.Solves flow .entry flow.graph.predecessors facts.before.get facts.after.get) ∧
    (∀ (analysis : Analysis Fact) (flow : ControlFlow) steps facts,
      analysis.backward flow steps = .ok facts → facts.Covers flow.graph.nodes ∧
        analysis.Solves flow .exit flow.graph.successors facts.after.get facts.before.get) ∧
    ∀ (analysis : InterAnalysis Fact) (flow : InterFlow) steps facts,
      analysis.analyze flow steps = .ok facts → facts.Covers flow.graph.nodes ∧
        analysis.Solves flow facts.before.get facts.after.get := by
  refine ⟨fun analysis flow steps facts areFacts => ?forward,
    fun analysis flow steps facts areFacts => ?backward,
    fun analysis flow steps facts areFacts => ?across⟩
  case forward =>
    refine ⟨?_, Analysis.solves_of_forward areFacts⟩
    obtain ⟨isSettled, rfl⟩ := Analysis.forward_eq_ok_iff.mp areFacts
    intro node isNode
    exact Equations.recorded_of_not_queued steps node (ControlFlow.mem_forwardOrder isNode)
      (by simp [isSettled])
  case backward =>
    refine ⟨?_, Analysis.solves_of_backward areFacts⟩
    obtain ⟨isSettled, rfl⟩ := Analysis.backward_eq_ok_iff.mp areFacts
    intro node isNode
    exact (Equations.recorded_of_not_queued steps node (ControlFlow.mem_backwardOrder isNode)
      (by simp [isSettled])).symm
  case across =>
    refine ⟨?_, InterAnalysis.solves_of_analyze areFacts⟩
    obtain ⟨isSettled, rfl⟩ := InterAnalysis.analyze_eq_ok_iff.mp areFacts
    intro node isNode
    exact Equations.recorded_of_not_queued steps node isNode (by simp [isSettled])

/-- A recursive method that divides, with a loop, two ways to one statement, and a
statement that cannot be reached. -/
def dividingText : String := "class Main { static method main(int n) : int { var int one, d, q;
  one = 1; d = n - one; if d == n goto J; J: q = n / d; if q < n goto L;
  q = invokestatic <Main: int main(int)>(d); L: if q > one goto J; return q; q = d; } }"

/-- The three solvers answer on a method that divides, where constant propagation is not
monotone. -/
theorem covers_and_solves_dividing : ∃ program, Program.ofText dividingText = .ok program ∧
    (∃ facts, (program.constantAnalysis (program.methodDef 0)).forward
        (program.methodDef 0).flow 40 = .ok facts ∧
      facts.Covers (program.methodDef 0).flow.graph.nodes ∧
      (program.constantAnalysis (program.methodDef 0)).Solves (program.methodDef 0).flow .entry
        (program.methodDef 0).flow.graph.predecessors facts.before.get facts.after.get) ∧
    (∃ facts, liveAnalysis.backward (program.methodDef 0).flow 40 = .ok facts ∧
      facts.Covers (program.methodDef 0).flow.graph.nodes ∧
      liveAnalysis.Solves (program.methodDef 0).flow .exit
        (program.methodDef 0).flow.graph.successors facts.after.get facts.before.get) ∧
    ∃ calls facts, program.hierarchyCallGraph = .ok calls ∧
      program.interConstantAnalysis.analyze (.ofCallGraph program calls) 60 = .ok facts ∧
      facts.Covers (InterFlow.ofCallGraph program calls).graph.nodes ∧
      program.interConstantAnalysis.Solves (.ofCallGraph program calls) facts.before.get
        facts.after.get := by
  have passes : (Program.ofText dividingText).toOption.any (fun program =>
      ((program.constantAnalysis (program.methodDef 0)).forward (program.methodDef 0).flow
          40).toOption.any (fun _ => true) &&
        (liveAnalysis.backward (program.methodDef 0).flow 40).toOption.any (fun _ => true) &&
        program.hierarchyCallGraph.toOption.any fun calls =>
          (program.interConstantAnalysis.analyze (.ofCallGraph program calls) 60).toOption.any
            fun _ => true) = true := by decide +kernel
  obtain ⟨program, isProgram, ends⟩ := exists_of_test passes
  rw [Bool.and_eq_true, Bool.and_eq_true] at ends
  obtain ⟨⟨endsForward, endsBackward⟩, endsAcross⟩ := ends
  obtain ⟨constants, areConstants, -⟩ := exists_of_test endsForward
  obtain ⟨live, areLive, -⟩ := exists_of_test endsBackward
  obtain ⟨calls, areCalls, ends⟩ := exists_of_test endsAcross
  obtain ⟨facts, areFacts, -⟩ := exists_of_test ends
  exact ⟨program, isProgram,
    ⟨constants, areConstants, covers_and_solves.1 _ _ _ _ areConstants⟩,
    ⟨live, areLive, covers_and_solves.2.1 _ _ _ _ areLive⟩,
    ⟨calls, facts, areCalls, areFacts, covers_and_solves.2.2 _ _ _ _ areFacts⟩⟩

/-- On a monotone analysis the solvers end, on the least solution of the equations. They would
end on the same facts if they visited the nodes, and queued them again, in other orders. -/
theorem isLeastSolution_of_isMonotone [Preorder Fact] {good : Fact → Prop} :
    (∀ (analysis : Analysis Fact) (flow : ControlFlow), analysis.IsMonotone flow good →
      flow.graph.Closed → .entry ∈ flow.graph.nodes →
      ∃ steps facts, analysis.forward flow steps = .ok facts ∧
        IsLeastSolution flow.graph.nodes good
          (analysis.Solves flow .entry flow.graph.predecessors)
          facts.before.get facts.after.get ∧
        (analysis.forwardEquations flow).SettlesOn facts.before.get facts.after.get) ∧
    (∀ (analysis : Analysis Fact) (flow : ControlFlow), analysis.IsMonotone flow good →
      flow.graph.Closed → .entry ∈ flow.graph.nodes →
      ∃ steps facts, analysis.backward flow steps = .ok facts ∧
        IsLeastSolution flow.graph.nodes good
          (analysis.Solves flow .exit flow.graph.successors) facts.after.get facts.before.get ∧
        (analysis.backwardEquations flow).SettlesOn facts.after.get facts.before.get) ∧
    ∀ (analysis : InterAnalysis Fact) (flow : InterFlow), analysis.IsMonotone flow good →
      flow.graph.Closed →
      ∃ steps facts, analysis.analyze flow steps = .ok facts ∧
        IsLeastSolution flow.graph.nodes good (analysis.Solves flow)
          facts.before.get facts.after.get ∧
        (analysis.equations flow).SettlesOn facts.before.get facts.after.get := by
  refine ⟨fun analysis flow monotone closed isEntry => ?forward,
    fun analysis flow monotone closed isEntry => ?backward,
    fun analysis flow monotone closed => ?across⟩
  case forward =>
    obtain ⟨steps, isSettled, isLeast, settlesOn⟩ := monotone.directed_settles .entry
      (fun _ => ControlFlow.mem_forwardOrder_iff closed isEntry)
      (fun _ _ => closed.mem_of_mem_predecessors) (fun _ _ => closed.mem_of_mem_successors)
      fun _ _ => ControlFlow.mem_successors_of_mem_predecessors
    exact ⟨steps, _, Analysis.forward_eq_ok_iff.mpr ⟨isSettled, rfl⟩, isLeast, settlesOn⟩
  case backward =>
    obtain ⟨steps, isSettled, isLeast, settlesOn⟩ := monotone.directed_settles .exit
      (fun _ => ControlFlow.mem_backwardOrder_iff closed isEntry)
      (fun _ _ => closed.mem_of_mem_successors) (fun _ _ => closed.mem_of_mem_predecessors)
      fun _ _ => ControlFlow.mem_predecessors_of_mem_successors
    exact ⟨steps, _, Analysis.backward_eq_ok_iff.mpr ⟨isSettled, rfl⟩, isLeast, settlesOn⟩
  case across =>
    have keeps := monotone.keeps.equations
    have isClosed := InterAnalysis.closed analysis closed
    obtain ⟨steps, isSettled⟩ := monotone.equations.exists_settled keeps monotone.lattice isClosed
    refine ⟨steps, _, InterAnalysis.analyze_eq_ok_iff.mpr ⟨isSettled, rfl⟩, ?_, ?_⟩
    · exact (monotone.equations.isLeastSolution keeps isClosed InterAnalysis.propagates
        isSettled).congr (fun _ => Iff.rfl) fun _ _ => InterAnalysis.solves_equations_iff
    · exact monotone.equations.settlesOn keeps monotone.lattice isClosed
        InterAnalysis.propagates isSettled

/-- A recursive method that does not divide, with a loop, two ways to one statement, and a
statement that cannot be reached. -/
def multiplyingText : String := "class Main { static method main(int n) : int { var int one, d, q;
  one = 1; d = n - one; if d == n goto J; J: q = n * d; if q < n goto L;
  q = invokestatic <Main: int main(int)>(d); L: if q > one goto J; return q; q = d; } }"

/-- Constant propagation and the live variables analysis find their least solutions on a method
that does not divide. -/
theorem isLeastSolution_of_isMonotone_multiplying : ∃ program,
    Program.ofText multiplyingText = .ok program ∧
    (∃ steps facts, (program.constantAnalysis (program.methodDef 0)).forward
        (program.methodDef 0).flow steps = .ok facts ∧
      IsLeastSolution (program.methodDef 0).flow.graph.nodes
        (ConstFact.About (program.trackedVars (program.methodDef 0)))
        ((program.constantAnalysis (program.methodDef 0)).Solves (program.methodDef 0).flow .entry
          (program.methodDef 0).flow.graph.predecessors) facts.before.get facts.after.get ∧
      ((program.constantAnalysis (program.methodDef 0)).forwardEquations
        (program.methodDef 0).flow).SettlesOn facts.before.get facts.after.get) ∧
    (∃ steps facts, liveAnalysis.backward (program.methodDef 0).flow steps = .ok facts ∧
      IsLeastSolution (program.methodDef 0).flow.graph.nodes
        (SetFact.Within (program.methodDef 0).readVars)
        (liveAnalysis.Solves (program.methodDef 0).flow .exit
          (program.methodDef 0).flow.graph.successors) facts.after.get facts.before.get ∧
      (liveAnalysis.backwardEquations (program.methodDef 0).flow).SettlesOn facts.after.get
        facts.before.get) ∧
    ∃ calls, program.hierarchyCallGraph = .ok calls ∧ ∃ steps facts,
      program.interConstantAnalysis.analyze (.ofCallGraph program calls) steps = .ok facts ∧
      IsLeastSolution (InterFlow.ofCallGraph program calls).graph.nodes
        (ConstFact.About program.intVars)
        (program.interConstantAnalysis.Solves (.ofCallGraph program calls)) facts.before.get
        facts.after.get ∧
      (program.interConstantAnalysis.equations (.ofCallGraph program calls)).SettlesOn
        facts.before.get facts.after.get := by
  have passes : (Program.ofText multiplyingText).toOption.any (fun program =>
      decide ((∀ stmt ∈ (program.methodDef 0).body, ¬ program.DividesInts stmt) ∧
          (program.methodDef 0).flow.graph.Closed ∧
          .entry ∈ (program.methodDef 0).flow.graph.nodes) &&
        program.hierarchyCallGraph.toOption.any fun calls =>
          decide ((∀ inner ∈ (InterFlow.ofCallGraph program calls).flows,
              ∀ stmt ∈ inner.2.method.body, ¬ program.DividesInts stmt) ∧
            (InterFlow.ofCallGraph program calls).graph.Closed)) = true := by decide +kernel
  obtain ⟨program, isProgram, holds⟩ := exists_of_test passes
  rw [Bool.and_eq_true] at holds
  obtain ⟨isSafe, closed, isEntry⟩ := of_decide_eq_true holds.1
  obtain ⟨calls, areCalls, holds⟩ := exists_of_test holds.2
  obtain ⟨areSafe, isClosed⟩ := of_decide_eq_true holds
  have isSafeNop : ¬ program.DividesInts .nop := by
    rintro ⟨_, _, isBinary, -⟩
    cases isBinary
  have isSafeAt (node : FlowNode) :
      ¬ program.DividesInts ((program.methodDef 0).flow.stmtAt node) := by
    rcases (program.methodDef 0).flow.stmtAt_mem node with isNop | isMember
    · exact isNop ▸ isSafeNop
    · exact isSafe _ isMember
  have areSafeAt (node : MethodNode) :
      ¬ program.DividesInts ((InterFlow.ofCallGraph program calls).stmtAt node) := by
    rcases (InterFlow.ofCallGraph program calls).stmtAt_mem node with
      isNop | ⟨inner, isInner, isMember⟩
    · exact isNop ▸ isSafeNop
    · exact areSafe inner isInner _ isMember
  have constants := Program.isMonotone_constantAnalysis fun index => isSafeAt (.stmt index)
  have live := isMonotone_liveAnalysis (program.methodDef 0)
  have across := Program.isMonotone_interConstantAnalysis areSafeAt
  exact ⟨program, isProgram, isLeastSolution_of_isMonotone.1 _ _ constants closed isEntry,
    isLeastSolution_of_isMonotone.2.1 _ _ live closed isEntry, calls, areCalls,
    isLeastSolution_of_isMonotone.2.2 _ _ across isClosed⟩

end Solvers

end TacAnalysis
