/-
# Printing of statements

The written form of statements and of the things they mention, names being
looked up in the program. Jump targets have no name left and are printed as
positions.
-/

import TacAnalysis.Error

namespace TacAnalysis

namespace Program

variable (program : Program)

/-- A variable, by its name alone. -/
def renderVar (var : VarId) : String := (program.localDef var).name

/-- A variable with the signature of its method. -/
def renderLocal (var : VarId) : String :=
  program.signature (program.localDef var).method ++ "/" ++ program.renderVar var

/-- A field with its class and type. -/
def renderField (id : FieldId) : String :=
  let field := program.fieldDef id
  "<" ++ (program.classDef field.owner).name ++ ": " ++ field.ty.render ++ " " ++ field.name ++ ">"

/-- A binary operator applied to two variables. -/
def renderBinary (exp : BinExp) : String :=
  program.renderVar exp.left ++ " " ++ exp.op.symbol ++ " " ++ program.renderVar exp.right

/-- An access to a field, through a variable or through its class. -/
def renderAccess (base : Option VarId) (id : FieldId) : String :=
  let field := program.fieldDef id
  match base with
  | some base => program.renderVar base ++ "." ++ field.name
  | none => (program.classDef field.owner).name ++ "::" ++ field.name

/-- A method reference. -/
def renderTarget (target : MethodRef) : String :=
  renderSignature (program.classDef target.owner).name target.sub

/-- A call. -/
def renderInvoke (invoke : Invoke) : String :=
  invoke.result.elim "" (fun var => program.renderVar var ++ " = ") ++
    "invoke" ++ invoke.kind.render ++ " " ++
    invoke.receiver.elim "" (fun var => program.renderVar var ++ ".") ++
    program.renderTarget invoke.target ++
    "(" ++ ", ".intercalate (invoke.args.map program.renderVar) ++ ")"

/-- One case of a switch. -/
def renderCase (entry : Int32 × Nat) : String :=
  toString entry.1.toInt ++ " -> @" ++ toString entry.2 ++ ", "

/-- A statement. -/
def renderStmt : Stmt → String
  | .nop => "nop"
  | .new target ty => program.renderVar target ++ " = new " ++ ty.render
  | .literal target (.int value) => program.renderVar target ++ " = " ++ toString value.toInt
  | .literal target .null => program.renderVar target ++ " = null"
  | .copy target source => program.renderVar target ++ " = " ++ program.renderVar source
  | .cast target ty source =>
      program.renderVar target ++ " = (" ++ ty.render ++ ") " ++ program.renderVar source
  | .binary target exp => program.renderVar target ++ " = " ++ program.renderBinary exp
  | .loadField target base field =>
      program.renderVar target ++ " = " ++ program.renderAccess base field
  | .storeField base field source =>
      program.renderAccess base field ++ " = " ++ program.renderVar source
  | .loadArray target base index =>
      program.renderVar target ++ " = " ++ program.renderVar base ++
        "[" ++ program.renderVar index ++ "]"
  | .storeArray base index source =>
      program.renderVar base ++ "[" ++ program.renderVar index ++ "] = " ++
        program.renderVar source
  | .call invoke => program.renderInvoke invoke
  | .branch cond target => "if " ++ program.renderBinary cond ++ " goto @" ++ toString target
  | .goto target => "goto @" ++ toString target
  | .switch scrutinee cases default =>
      "switch " ++ program.renderVar scrutinee ++ " \x7b " ++
        String.join (cases.map renderCase) ++
        "default -> @" ++ toString default ++ " \x7d"
  | .ret none => "return"
  | .ret (some var) => "return " ++ program.renderVar var

/-- A program point with its statement. -/
def renderSite (site : Site) : String :=
  program.signature site.method ++ "[" ++ toString site.index ++ ": " ++
    program.renderStmt (program.stmt site) ++ "]"

end Program

end TacAnalysis
