/-
# Reaching definitions

A definition of a variable is either the value the variable has on entry or a
statement, and it reaches a statement when control can go from the former to the
latter without meeting another definition of the variable. Statements are looked
at from a queue: what reaches the end of a statement is sent to the statements
after it, and those that something new is sent to are queued again.
-/

import TacAnalysis.ArrivalSet
import TacAnalysis.Stmt

namespace TacAnalysis

/-- Where a variable gets a value: on entry of the method, or at a statement. The
entry comes first. -/
inductive DefSite where
  | entry
  | stmt (index : Nat)
  deriving DecidableEq, Inhabited, Ord

/-- Definitions, each given by its variable and its site, in order of arrival. -/
abbrev DefSet := ArrivalSet (VarId × DefSite)

/-- The statements of a method, with the variables defined on entry. -/
structure Code where
  entryVars : List VarId
  body : Array Stmt
  deriving DecidableEq, Inhabited

/-- The definitions known to reach each statement, and the statements to look at. -/
structure Propagation where
  reaching : Table Nat DefSet
  queue : List Nat
  deriving DecidableEq, Inhabited

/-- Sends definitions to a statement. If some of them are new there, the statement
is queued, unless it is queued already. -/
def Propagation.send (definitions : List (VarId × DefSite)) (state : Propagation)
    (target : Nat) : Propagation :=
  let before := state.reaching.get target
  let after := definitions.foldl (fun set definition => set.insert definition) before
  { reaching := state.reaching.set target after
    queue := if after.size = before.size || state.queue.contains target then state.queue
      else state.queue ++ [target] }

namespace Code

variable (code : Code)

/-- The positions of the statements. -/
def positions : List Nat := List.range code.body.size

/-- The statement at a position, a `nop` past the end. -/
def stmt (index : Nat) : Stmt := code.body.getD index .nop

/-- The positions control may reach right after a statement. -/
def successors (index : Nat) : List Nat := (code.stmt index).successors index code.body.size

/-- Before any statement is looked at, the variables defined on entry are known to
reach the first one, and all statements are queued. -/
def startPropagation : Propagation where
  reaching := (Table.constant .empty).set 0
    ((code.entryVars.map (·, DefSite.entry)).foldl (fun set definition => set.insert definition)
      .empty)
  queue := code.positions

/-- The definitions that reach the end of a statement, from those that reach the
statement: one that it makes itself takes the place of all others of its variable. -/
def definitionsAfter (index : Nat) (before : DefSet) : List (VarId × DefSite) :=
  match (code.stmt index).def? with
  | none => before.elements
  | some var =>
      (before.elements.filter fun definition => definition.1 != var) ++ [(var, .stmt index)]

/-- Looks at a statement: what reaches its end is sent to the statements after it. -/
def propagate (state : Propagation) (index : Nat) : Propagation :=
  ((code.successors index).filter (· < code.body.size)).foldl
    (.send (code.definitionsAfter index (state.reaching.get index))) state

/-- Looks at queued statements in order until none is left, or for a number of steps. -/
def propagateAll : (steps : Nat) → Propagation → Propagation
  | 0, state => state
  | steps + 1, state =>
      match state.queue with
      | [] => state
      | index :: queue => propagateAll steps (code.propagate { state with queue } index)

/-- How often statements may be looked at: each of them once, and again for every
definition that there may be. -/
def propagationBound : Nat := code.body.size * (code.entryVars.length + code.body.size + 1)

/-- The definitions that reach each statement. -/
def reachingDefinitions : Table Nat DefSet :=
  (code.propagateAll code.propagationBound code.startPropagation).reaching

end Code

end TacAnalysis
