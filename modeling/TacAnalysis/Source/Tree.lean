/-
# Declarations as written

The structure of a program text before any name is resolved: classes, fields,
variables and labels are still the words of the text, and a statement is the
shape it was written in.
-/

import TacAnalysis.Stmt

namespace TacAnalysis.Source

/-- A method named in full, at a call or in an entry directive. -/
structure MethodName where
  owner : String
  sub : Subsignature
  deriving DecidableEq, Inhabited

/-- A call as written. -/
structure CallExp where
  kind : CallKind
  receiver : Option String
  target : MethodName
  args : List String
  deriving DecidableEq, Inhabited

/-- A field reached through a variable or through its class. -/
inductive FieldPath where
  | ofBase (base field : String)
  | ofClass (owner field : String)
  deriving DecidableEq, Inhabited

/-- The right-hand side of an assignment. -/
inductive Operand where
  | new (ty : Ty)
  | literal (value : Literal)
  | copy (name : String)
  | cast (ty : Ty) (name : String)
  | binary (op : BinOp) (left right : String)
  | field (path : FieldPath)
  | element (base index : String)
  | call (exp : CallExp)
  deriving DecidableEq, Inhabited

/-- A statement without its label. -/
inductive Action where
  | nop
  | assign (target : String) (operand : Operand)
  | storeField (path : FieldPath) (source : String)
  | storeElement (base index source : String)
  | call (exp : CallExp)
  | branch (op : BinOp) (left right label : String)
  | goto (label : String)
  | switch (scrutinee : String) (cases : List (Int32 × String)) (default : String)
  | ret (value : Option String)
  deriving DecidableEq, Inhabited

/-- A statement, possibly labelled. -/
structure Line where
  label : Option String
  action : Action
  deriving DecidableEq, Inhabited

/-- A type with the name declared at it. -/
structure TypedName where
  ty : Ty
  name : String
  deriving DecidableEq, Inhabited

/-- A method body: every variable it declares, then every statement. -/
structure Body where
  vars : List TypedName
  lines : List Line
  deriving DecidableEq, Inhabited

/-- A field declaration. -/
structure FieldDecl where
  name : String
  ty : Ty
  isStatic : Bool
  deriving DecidableEq, Inhabited

/-- A method declaration. -/
structure MethodDecl where
  name : String
  params : List TypedName
  ret : Ty
  isStatic : Bool
  isAbstract : Bool
  body : Option Body
  deriving DecidableEq, Inhabited

/-- The subsignature a method is declared with. -/
def MethodDecl.sub (decl : MethodDecl) : Subsignature :=
  ⟨decl.name, decl.params.map TypedName.ty, decl.ret⟩

/-- A class or interface declaration. -/
structure ClassDecl where
  name : String
  isInterface : Bool
  isAbstract : Bool
  superNames : List String
  interfaceNames : List String
  fields : List FieldDecl
  methods : List MethodDecl
  deriving DecidableEq, Inhabited

/-- A whole text: its classes and its entry directives. -/
structure Declarations where
  classes : List ClassDecl
  entries : List MethodName
  deriving DecidableEq, Inhabited

end TacAnalysis.Source
