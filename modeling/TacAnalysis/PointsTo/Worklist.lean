/-
# Pending work

What a points-to analysis has yet to process, first in, first out.
-/

import TacAnalysis.PointsTo.FlowGraph

namespace TacAnalysis.PointsTo

/-- A piece of work: objects that reach a pointer, or a method that is called. -/
inductive WorkItem where
  | objects (pointer : PointerId) (objects : ObjectSet)
  | method (method : QualifiedMethod)
  deriving DecidableEq, Inhabited

/-- The work to do, the oldest first. -/
structure Worklist where
  items : List WorkItem
  deriving DecidableEq, Inhabited

namespace Worklist

/-- Nothing to do. -/
def empty : Worklist := ⟨[]⟩

variable (worklist : Worklist)

/-- Adds work, to be done after all the rest. -/
def push (item : WorkItem) : Worklist := ⟨worklist.items ++ [item]⟩

/-- The work to do first, and what is left without it. -/
def pop? : Option (WorkItem × Worklist) :=
  match worklist.items with
  | [] => none
  | item :: items => some (item, ⟨items⟩)

/-- The number of pieces of work. -/
def size : Nat := worklist.items.length

/-- Whether there is nothing to do. -/
def isEmpty : Bool := worklist.items.isEmpty

end Worklist

end TacAnalysis.PointsTo
