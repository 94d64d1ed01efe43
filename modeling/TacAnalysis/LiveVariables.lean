/-
# Live variables

A variable is live at a point when control may go from there to a statement
reading it without meeting a definition of it on the way.
-/

import TacAnalysis.Dataflow.Intraprocedural
import TacAnalysis.Dataflow.SetFact

namespace TacAnalysis

/-- The variables live before a statement, from those live after it. -/
def Stmt.liveBefore (stmt : Stmt) (live : SetFact VarId) : SetFact VarId :=
  stmt.uses.foldl SetFact.insert (stmt.def?.elim live live.erase)

/-- The live variables analysis. No variable is live where control leaves. -/
def liveAnalysis : Analysis (SetFact VarId) where
  boundary := .empty
  initial := .empty
  meet fact target := target.union fact
  transfer := Stmt.liveBefore

/-- The live variables of a method. -/
def MethodDef.liveVariables (steps : Nat) (method : MethodDef) :
    Except AnalysisError (NodeFacts FlowNode (SetFact VarId)) := do
  let flow ← ControlFlow.ofMethod method
  liveAnalysis.backward flow steps

end TacAnalysis
