/-
# Types of values

The types that variables, fields, parameters and results are declared with: the
primitive ones, class types known by name, and arrays. `void` is a type so that
a method without a result has a return type like any other.
-/

namespace TacAnalysis

/-- The class every class without a declared superclass extends. -/
def rootClassName : String := "java/lang/Object"

/-- A declared type. The order of the constructors is the order in which types
are listed. -/
inductive Ty where
  | void
  | boolean
  | byte
  | short
  | char
  | int
  | long
  | float
  | double
  | named (className : String)
  | array (elem : Ty)
  deriving DecidableEq, Inhabited, Ord

namespace Ty

/-- The primitive types whose values fit in 32 signed bits. -/
def holdsInt : Ty → Bool
  | boolean | byte | short | char | int => true
  | _ => false

/-- Class and array types are the ones whose values are references. -/
def isReference : Ty → Bool
  | named _ | array _ => true
  | _ => false

/-- The name of a class type. -/
def className? : Ty → Option String
  | named name => some name
  | _ => none

/-- What is left of a type once every array dimension is removed. -/
def innermost : Ty → Ty
  | array elem => elem.innermost
  | ty => ty

/-- The written form: a keyword or a class name, then one `[]` per dimension. -/
def render : Ty → String
  | void => "void"
  | boolean => "boolean"
  | byte => "byte"
  | short => "short"
  | char => "char"
  | int => "int"
  | long => "long"
  | float => "float"
  | double => "double"
  | named name => name
  | array elem => elem.render ++ "[]"

end Ty

end TacAnalysis
