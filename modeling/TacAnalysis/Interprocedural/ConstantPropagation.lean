/-
# Interprocedural constant propagation

Constants flow from the arguments of a call to the parameters of the methods it
may run, and from the variables these return to the result of the call. The
other variables of the caller keep their values across the call.
-/

import TacAnalysis.ClassHierarchyAnalysis
import TacAnalysis.ConstantPropagation
import TacAnalysis.Interprocedural.Analysis

namespace TacAnalysis

namespace Program

variable (program : Program)

/-- The arguments of a call with the parameters of a method, in order. -/
def bindings (site : Site) (callee : MethodId) : List (VarId × VarId) :=
  match (program.stmt site).invoke? with
  | some invoke => invoke.args.zip (program.methodDef callee).params
  | none => []

/-- The values of parameters, from those of the arguments. -/
def enterFact (site : Site) (callee : MethodId) (fact : ConstFact) : ConstFact :=
  ((program.bindings site callee).filter fun binding => program.holdsInt binding.2).foldl
    (fun entered binding => entered.set binding.2 (fact.get binding.1)) .empty

/-- The value of the result of a call, from those of the returned variables. -/
def leaveFact (site : Site) (callee : MethodId) (fact : ConstFact) : ConstFact :=
  match (program.stmt site).def? with
  | none => .empty
  | some result =>
      if program.holdsInt result then
        ConstFact.empty.set result
          ((program.methodDef callee).returned.foldl
            (fun value var => value.meet (fact.get var)) .undefined)
      else .empty

/-- The values that do not depend on the methods called: all but the one of the
result. -/
def bypassFact (site : Site) (fact : ConstFact) : ConstFact :=
  (program.stmt site).def?.elim fact fact.erase

/-- Constant propagation across methods. -/
def interConstantAnalysis : InterAnalysis ConstFact where
  boundary node := program.unknownArguments (program.methodDef node.method)
  initial := .empty
  meet := ConstFact.meet
  transferCall _ fact := fact
  transferStmt := program.constantTransfer
  along
    | .within _, fact => fact
    | .bypass site, fact => program.bypassFact site fact
    | .enter site callee, fact => program.enterFact site callee fact
    | .leave site callee, fact => program.leaveFact site callee fact

/-- The constants of the methods reachable in the call graph of class hierarchy
analysis. -/
def propagateConstantsAcross (steps : Nat) :
    Except AnalysisError (NodeFacts MethodNode ConstFact) := do
  let calls ← program.hierarchyCallGraph
  program.interConstantAnalysis.analyze (.ofCallGraph program calls) steps

end Program

end TacAnalysis
