/-
# Facts of constant propagation

A fact gives each variable a value. Only variables about which something is
known are recorded, in ascending order, so that two facts giving every variable
the same value are the same fact.
-/

import TacAnalysis.Dataflow.Value

namespace TacAnalysis

/-- The values of variables, those about which nothing is known being left out. -/
structure ConstFact where
  values : List (VarId × Value)
  deriving DecidableEq, Inhabited

namespace ConstFact

/-- The fact in which nothing is known. -/
def empty : ConstFact := ⟨[]⟩

/-- The value of a variable. -/
def get (fact : ConstFact) (var : VarId) : Value :=
  (fact.values.lookup var).getD .undefined

/-- Records a value in an ascending list of variables with their values. -/
def insertValue (var : VarId) (value : Value) :
    List (VarId × Value) → List (VarId × Value)
  | [] => [(var, value)]
  | entry :: entries =>
      if var < entry.1 then (var, value) :: entry :: entries
      else if var = entry.1 then (var, value) :: entries
      else entry :: insertValue var value entries

/-- Forgets a variable. -/
def erase (fact : ConstFact) (var : VarId) : ConstFact :=
  ⟨fact.values.filter fun entry => entry.1 ≠ var⟩

/-- Gives a variable a value. -/
def set (fact : ConstFact) (var : VarId) (value : Value) : ConstFact :=
  match value with
  | .undefined => fact.erase var
  | value => ⟨insertValue var value fact.values⟩

/-- Gives a variable a value, and says whether that changes what is recorded of it. -/
def update (fact : ConstFact) (var : VarId) (value : Value) : Bool × ConstFact :=
  match value with
  | .undefined => ((fact.values.lookup var).isSome, fact.erase var)
  | value => (fact.values.lookup var ≠ some value, ⟨insertValue var value fact.values⟩)

/-- Forgets a variable, and gives the value it had. -/
def remove (fact : ConstFact) (var : VarId) : Value × ConstFact :=
  (fact.get var, fact.erase var)

/-- Takes over another fact, and says whether that is a change. -/
def copyFrom (fact source : ConstFact) : Bool × ConstFact :=
  if fact = source then (false, fact) else (true, source)

/-- Meets every value of a fact into another one. -/
def meet (fact target : ConstFact) : ConstFact :=
  fact.values.foldl
    (fun target entry => target.set entry.1 (entry.2.meet (target.get entry.1))) target

/-- The values of a fact, each with a name for its variable, between braces. -/
def renderWith (name : VarId → String) (fact : ConstFact) : String :=
  "\x7b" ++ ", ".intercalate (fact.values.map fun entry => name entry.1 ++ "=" ++ entry.2.render) ++
    "\x7d"

/-- The written form of a fact, variables being named by their number. -/
def render (fact : ConstFact) : String := fact.renderWith fun var => "v" ++ toString var

end ConstFact

end TacAnalysis
