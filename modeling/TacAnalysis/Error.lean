/-
# Errors

What can be wrong with a program text, and why an analysis can refuse to
answer. An error records its cause; its wording is written in one place.
-/

import TacAnalysis.Program
import TacAnalysis.Text.Quoted

namespace TacAnalysis

/-- What has been declared twice. -/
inductive Redeclared where
  | className (name : String)
  | method (className : String) (sub : Subsignature)
  | field (className name : String)
  | localName (name signature : String)
  | label (name : String)
  deriving DecidableEq, Inhabited

/-- A declaration or statement that names existing things but puts them together
in a way that has no meaning. -/
inductive Misuse where
  /-- A switch needs one default target, and only one. -/
  | switchDefaults (scrutinee : String)
  /-- An interface extends other interfaces and implements none. -/
  | interfaceImplements (name : String)
  /-- A name used as an interface designates a class. -/
  | notAnInterface (name : String)
  | classExtendsInterface (name superclass : String)
  | severalSuperclasses (name : String)
  | cyclicInheritance (name : String)
  /-- A method has a body exactly when it is not abstract, and no static method
  is abstract. -/
  | bodyMismatch (className : String) (sub : Subsignature)
  /-- An instance field is reached through a variable of a class type. -/
  | fieldOfNonClass (field : String) (ty : Ty)
  /-- A static field is named through its class, an instance field through a
  variable. -/
  | staticMismatch (className field : String)
  | argumentCount (sub : Subsignature)
  deriving DecidableEq, Inhabited

/-- Why a program text has no meaning. -/
inductive ProgramError where
  /-- The text stops being a sequence of declarations just before `rest`. -/
  | unreadable (rest : List Char)
  | classNotFound (name : String)
  | methodNotFound (className : String) (sub : Subsignature)
  | fieldNotFound (className field : String)
  | variableNotFound (name signature : String)
  | labelNotFound (name : String)
  | duplicate (what : Redeclared)
  | invalid (misuse : Misuse)
  deriving DecidableEq, Inhabited

/-- Why an analysis gives no answer. -/
inductive AnalysisError where
  /-- The method has no statements to analyze. -/
  | noCode
  /-- There is no method to start from. -/
  | noEntryMethod
  | unknownSelector (name : String)
  /-- The analysis had not settled after the number of steps it was allowed. -/
  | unsettled
  deriving DecidableEq, Inhabited

/-- More steps than an analysis is ever run for in practice. -/
def ampleSteps : Nat := Nat.pow 2 62

/-- The written form of a method signature. -/
def renderSignature (className : String) (sub : Subsignature) : String :=
  "<" ++ className ++ ": " ++ sub.render ++ ">"

/-- The signature of a method of a program. -/
def Program.signature (program : Program) (id : MethodId) : String :=
  renderSignature (program.classDef (program.methodDef id).owner).name (program.methodDef id).sub

/-- The wording of a duplicate declaration. -/
def Redeclared.message : Redeclared → String
  | className name => "class " ++ name
  | method owner sub => "method " ++ renderSignature owner sub
  | field owner name => "field " ++ owner ++ "::" ++ name
  | localName name signature => "variable " ++ name ++ " in " ++ signature
  | label name => "label " ++ name

/-- The wording of a misuse. -/
def Misuse.message : Misuse → String
  | switchDefaults scrutinee => "switch on " ++ scrutinee ++ " must have exactly one default"
  | interfaceImplements name => "interface " ++ name ++ " cannot implement interfaces"
  | notAnInterface name => name ++ " is not an interface"
  | classExtendsInterface name superclass =>
      "class " ++ name ++ " cannot extend interface " ++ superclass
  | severalSuperclasses name => "class " ++ name ++ " extends several classes"
  | cyclicInheritance name => "cyclic inheritance involving " ++ name
  | bodyMismatch owner sub =>
      "method " ++ renderSignature owner sub ++ " must either be abstract or have a body"
  | fieldOfNonClass field ty => "field " ++ field ++ " accessed on non-class type " ++ ty.render
  | staticMismatch owner field =>
      "bad static/instance access to field " ++ owner ++ "::" ++ field
  | argumentCount sub => "bad arguments count when calling " ++ sub.render

/-- The number of characters of an unreadable text shown in a message. -/
def excerptLength : Nat := 32

/-- The wording of a program error. -/
def ProgramError.message : ProgramError → String
  | unreadable rest =>
      "parsing error near " ++ Text.quoted (rest.take excerptLength) ++ " (Eof)"
  | classNotFound name => "class not found: " ++ name
  | methodNotFound owner sub => "method not found: " ++ renderSignature owner sub
  | fieldNotFound owner field => "field not found: " ++ owner ++ "::" ++ field
  | variableNotFound name signature => "variable not found: " ++ name ++ " in " ++ signature
  | labelNotFound name => "label not found: " ++ name
  | duplicate what => "duplicate definition: " ++ what.message
  | invalid misuse => "invalid declaration: " ++ misuse.message

/-- The wording of an analysis error. -/
def AnalysisError.message : AnalysisError → String
  | noCode => "the method has no implementation"
  | noEntryMethod => "the program has no entry method"
  | unknownSelector name => "unknown context selector: " ++ name
  | unsettled => "the analysis did not settle"

end TacAnalysis
