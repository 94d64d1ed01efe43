/-
# Values of constant propagation

What is known of an integer variable: nothing yet, that it holds one constant,
or that it may hold several values. Arithmetic on constants is the one of 32-bit
words: every operation wraps around, shift counts are taken modulo 32, and the
unsigned right shift fills with zeros.
-/

import TacAnalysis.Stmt

namespace TacAnalysis

/-- What is known of an integer variable. -/
inductive Value where
  | undefined
  | constant (value : Int32)
  | notConstant
  deriving DecidableEq, Inhabited

namespace Value

/-- The written form of a value. -/
def render : Value → String
  | undefined => "UNDEF"
  | constant value => toString value.toInt
  | notConstant => "NAC"

/-- What is known when control comes from two places. -/
def meet : Value → Value → Value
  | notConstant, _ | _, notConstant => notConstant
  | undefined, value | value, undefined => value
  | constant first, constant second => if first = second then constant first else notConstant

/-- The constant a value is known to be. -/
def constant? : Value → Option Int32
  | constant value => some value
  | _ => none

/-- Whether the variable is known to hold one constant. -/
def isConstant (value : Value) : Bool := value.constant?.isSome

end Value

/-- One or zero, as comparisons give. -/
def wordOfFlag (flag : Bool) : Int32 := if flag then 1 else 0

/-- The result of an operator on two words. Division and remainder truncate toward
zero, and are only asked for with a divisor other than zero. -/
def BinOp.compute (op : BinOp) (left right : Int32) : Int32 :=
  match op with
  | .add => left + right
  | .sub => left - right
  | .mul => left * right
  | .div => left / right
  | .rem => left % right
  | .and => left &&& right
  | .or => left ||| right
  | .xor => left ^^^ right
  | .shl => left <<< right
  | .shr => left >>> right
  | .ushr => (left.toUInt32 >>> right.toUInt32).toInt32
  | .eq => wordOfFlag (left = right)
  | .ne => wordOfFlag (left ≠ right)
  | .lt => wordOfFlag (left < right)
  | .le => wordOfFlag (left ≤ right)
  | .gt => wordOfFlag (right < left)
  | .ge => wordOfFlag (right ≤ left)

/-- The value of an operator on two values. Dividing by zero has no value, whatever
is divided; otherwise the result is constant when both operands are, and not
constant as soon as one of them is not. -/
def BinOp.evaluate (op : BinOp) (left right : Value) : Value :=
  if op.canThrow && right = .constant 0 then .undefined
  else
    match left, right with
    | .constant left, .constant right => .constant (op.compute left right)
    | .notConstant, _ | _, .notConstant => .notConstant
    | _, _ => .undefined

end TacAnalysis
