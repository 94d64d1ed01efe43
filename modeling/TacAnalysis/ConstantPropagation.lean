/-
# Constant propagation

Finds the variables that hold one integer constant at each point of a method.
Only variables of the types that fit in 32 bits are followed. Literals, copies
and operators are evaluated; whatever else defines a variable gives it a value
that is not constant, and so does a call for the parameters of the method.
-/

import TacAnalysis.Dataflow.ConstFact
import TacAnalysis.Dataflow.Intraprocedural

namespace TacAnalysis

/-- The value of an operator applied to two variables. -/
def BinExp.evaluate (exp : BinExp) (fact : ConstFact) : Value :=
  exp.op.evaluate (fact.get exp.left) (fact.get exp.right)

/-- The value a statement gives to the variable it defines. -/
def Stmt.definedValue (fact : ConstFact) : Stmt → Value
  | .literal _ (.int value) => .constant value
  | .copy _ source => fact.get source
  | .binary _ exp => exp.evaluate fact
  | _ => .notConstant

namespace Program

variable (program : Program)

/-- What a statement makes of the values of variables. -/
def constantTransfer (stmt : Stmt) (fact : ConstFact) : ConstFact :=
  match stmt.def? with
  | some var => if program.holdsInt var then fact.set var (stmt.definedValue fact) else fact
  | none => fact

/-- The fact on entry of a method called with any arguments. -/
def unknownArguments (method : MethodDef) : ConstFact :=
  (method.params.filter program.holdsInt).foldl (fun fact var => fact.set var .notConstant) .empty

/-- Constant propagation in a method. -/
def constantAnalysis (method : MethodDef) : Analysis ConstFact where
  boundary := program.unknownArguments method
  initial := .empty
  meet := ConstFact.meet
  transfer := program.constantTransfer

/-- The constants of a method. -/
def propagateConstants (steps : Nat) (id : MethodId) :
    Except AnalysisError (NodeFacts FlowNode ConstFact) := do
  let method := program.methodDef id
  let flow ← ControlFlow.ofMethod method
  (program.constantAnalysis method).forward flow steps

end Program

end TacAnalysis
