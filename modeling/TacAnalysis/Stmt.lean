/-
# Statements

A method body is a sequence of three-address statements. Every operand is a
variable, jump targets are positions in the body, and fields and classes are
designated by their number in the program. The module says which variable a
statement defines, which ones it reads, and where control may go after it.
-/

import TacAnalysis.Ty

namespace TacAnalysis

/-- The number of a class in its program. -/
abbrev ClassId := Nat

/-- The number of a method in its program. -/
abbrev MethodId := Nat

/-- The number of a field in its program. -/
abbrev FieldId := Nat

/-- The number of a variable in its program; a variable belongs to one method. -/
abbrev VarId := Nat

/-- A program point: a statement, by its method and its position in the body. -/
structure Site where
  method : MethodId
  index : Nat
  deriving DecidableEq, Inhabited, Ord

/-- The written form of a program point. -/
def Site.render (site : Site) : String :=
  "m" ++ toString site.method ++ "@" ++ toString site.index

/-- Binary operators: arithmetic, bitwise, shifts, then comparisons. -/
inductive BinOp where
  | add
  | sub
  | mul
  | div
  | rem
  | and
  | or
  | xor
  | shl
  | shr
  | ushr
  | eq
  | ne
  | lt
  | le
  | gt
  | ge
  deriving DecidableEq, Inhabited

namespace BinOp

/-- The written form of an operator. -/
def symbol : BinOp → String
  | add => "+"
  | sub => "-"
  | mul => "*"
  | div => "/"
  | rem => "%"
  | and => "&"
  | or => "|"
  | xor => "^"
  | shl => "<<"
  | shr => ">>"
  | ushr => ">>>"
  | eq => "=="
  | ne => "!="
  | lt => "<"
  | le => "<="
  | gt => ">"
  | ge => ">="

/-- Comparisons, the only operators a conditional jump accepts. -/
def isCondition : BinOp → Bool
  | eq | ne | lt | le | gt | ge => true
  | _ => false

/-- Division and remainder fail on a zero divisor. -/
def canThrow : BinOp → Bool
  | div | rem => true
  | _ => false

end BinOp

/-- A binary operator applied to two variables. -/
structure BinExp where
  op : BinOp
  left : VarId
  right : VarId
  deriving DecidableEq, Inhabited

/-- A literal operand. -/
inductive Literal where
  | int (value : Int32)
  | null
  deriving DecidableEq, Inhabited

/-- How a call finds the method it runs. -/
inductive CallKind where
  | static
  | special
  | virtual
  | interface
  deriving DecidableEq, Inhabited, Ord

/-- The written form of a call kind. -/
def CallKind.render : CallKind → String
  | static => "static"
  | special => "special"
  | virtual => "virtual"
  | interface => "interface"

/-- What tells the methods of one class apart: name, parameter types and return
type. -/
structure Subsignature where
  name : String
  params : List Ty
  ret : Ty
  deriving DecidableEq, Inhabited, Ord

/-- The written form of a subsignature. -/
def Subsignature.render (sub : Subsignature) : String :=
  sub.ret.render ++ " " ++ sub.name ++ "(" ++ ",".intercalate (sub.params.map Ty.render) ++ ")"

/-- A method as named at a call: a class and a subsignature. -/
structure MethodRef where
  owner : ClassId
  sub : Subsignature
  deriving DecidableEq, Inhabited

/-- A method call. -/
structure Invoke where
  result : Option VarId
  kind : CallKind
  target : MethodRef
  receiver : Option VarId
  args : List VarId
  deriving DecidableEq, Inhabited

/-- A three-address statement. A field access without a base is an access to a
static field. -/
inductive Stmt where
  | nop
  | new (target : VarId) (ty : Ty)
  | literal (target : VarId) (value : Literal)
  | copy (target source : VarId)
  | cast (target : VarId) (ty : Ty) (source : VarId)
  | binary (target : VarId) (exp : BinExp)
  | loadField (target : VarId) (base : Option VarId) (field : FieldId)
  | storeField (base : Option VarId) (field : FieldId) (source : VarId)
  | loadArray (target base index : VarId)
  | storeArray (base index source : VarId)
  | call (invoke : Invoke)
  | branch (cond : BinExp) (target : Nat)
  | goto (target : Nat)
  | switch (scrutinee : VarId) (cases : List (Int32 × Nat)) (default : Nat)
  | ret (value : Option VarId)
  deriving DecidableEq, Inhabited

namespace Stmt

/-- The variable a statement defines. -/
def def? : Stmt → Option VarId
  | new target _ | literal target _ | copy target _ | cast target _ _ | binary target _
  | loadField target _ _ | loadArray target _ _ => some target
  | call invoke => invoke.result
  | _ => none

/-- The variables a statement reads, in operand order. -/
def uses : Stmt → List VarId
  | nop | new _ _ | literal _ _ | goto _ => []
  | copy _ source | cast _ _ source => [source]
  | binary _ exp | branch exp _ => [exp.left, exp.right]
  | loadField _ base _ => base.toList
  | storeField base _ source => base.toList ++ [source]
  | loadArray _ base index => [base, index]
  | storeArray base index source => [base, index, source]
  | call invoke => invoke.receiver.toList ++ invoke.args
  | switch scrutinee _ _ => [scrutinee]
  | ret value => value.toList

/-- Replaces the variable defined by its image under `onDef` and every variable
read by its image under `onUse`. -/
def rename (onDef onUse : VarId → VarId) : Stmt → Stmt
  | nop => nop
  | new target ty => new (onDef target) ty
  | literal target value => literal (onDef target) value
  | copy target source => copy (onDef target) (onUse source)
  | cast target ty source => cast (onDef target) ty (onUse source)
  | binary target exp =>
      binary (onDef target) { exp with left := onUse exp.left, right := onUse exp.right }
  | loadField target base field => loadField (onDef target) (base.map onUse) field
  | storeField base field source => storeField (base.map onUse) field (onUse source)
  | loadArray target base index => loadArray (onDef target) (onUse base) (onUse index)
  | storeArray base index source => storeArray (onUse base) (onUse index) (onUse source)
  | call invoke =>
      call { invoke with
        result := invoke.result.map onDef
        receiver := invoke.receiver.map onUse
        args := invoke.args.map onUse }
  | branch cond target =>
      branch { cond with left := onUse cond.left, right := onUse cond.right } target
  | goto target => goto target
  | switch scrutinee cases default => switch (onUse scrutinee) cases default
  | ret value => ret (value.map onUse)

/-- The positions a statement jumps to explicitly. -/
def jumps : Stmt → List Nat
  | branch _ target | goto target => [target]
  | switch _ cases default => cases.map Prod.snd ++ [default]
  | _ => []

/-- Whether control may go on to the next statement. -/
def fallsThrough : Stmt → Bool
  | goto _ | switch _ _ _ | ret _ => false
  | _ => true

/-- The positions control may reach right after the statement at `index` of a
body of `size` statements: its jumps, then the next statement. Falling off the
end of the body leads to no position. -/
def successors (stmt : Stmt) (index size : Nat) : List Nat :=
  stmt.jumps ++ if stmt.fallsThrough && index + 1 < size then [index + 1] else []

/-- The call a statement makes. -/
def invoke? : Stmt → Option Invoke
  | call invoke => some invoke
  | _ => none

theorem invoke?_eq_some_iff {stmt : Stmt} {invoke : Invoke} :
    stmt.invoke? = some invoke ↔ stmt = .call invoke := by
  cases stmt <;> simp [invoke?]

end Stmt

end TacAnalysis
