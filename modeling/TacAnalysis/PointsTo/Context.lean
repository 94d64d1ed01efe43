/-
# Calling contexts

A method is analyzed once for each context it is called in, and an object is
told apart by the context it was allocated in. A context is a list of call sites
and of receiver objects, the oldest first, of which only the most recent ones
are kept. Contexts are numbered in order of appearance; the number of the empty
one is 0.
-/

import TacAnalysis.ArrivalSet
import TacAnalysis.Stmt

namespace TacAnalysis.PointsTo

/-- The number of an abstract object. -/
abbrev ObjectId := Nat

/-- The number of a context. -/
abbrev ContextId := Nat

/-- The written form of an abstract object. -/
def renderObject (object : ObjectId) : String := "o" ++ toString object

/-- What a context is made of. -/
inductive ContextElement where
  | callSite (site : Site)
  | receiver (object : ObjectId)
  deriving DecidableEq, Inhabited

/-- The written form of an element of a context. -/
def ContextElement.render : ContextElement → String
  | callSite site => site.render
  | receiver object => renderObject object

/-- The contexts met so far. -/
structure Contexts where
  lists : ArrivalSet (List ContextElement)
  deriving DecidableEq, Inhabited

/-- The last elements of a list, at most `limit` of them. -/
def mostRecent {α : Type} (limit : Nat) (elements : List α) : List α :=
  elements.drop (elements.length - limit)

theorem mostRecent_eq_self {α : Type} {limit : Nat} {elements : List α}
    (isShort : elements.length ≤ limit) : mostRecent limit elements = elements := by
  rw [mostRecent, Nat.sub_eq_zero_of_le isShort, List.drop_zero]

namespace Contexts

/-- The number of the empty context. -/
def emptyContext : ContextId := 0

/-- Before any other context is met there is the empty one. -/
def initial : Contexts := ⟨.singleton []⟩

variable (contexts : Contexts)

/-- The elements of a context, the oldest first. -/
def get (context : ContextId) : List ContextElement := (contexts.lists.get? context).getD []

/-- The number of contexts. -/
def size : Nat := contexts.lists.size

/-- The context made of some elements. -/
def intern (elements : List ContextElement) : ContextId × Contexts :=
  let (context, lists) := contexts.lists.intern elements
  (context, ⟨lists⟩)

/-- The context with an element more, of which the `limit` most recent elements
are kept. -/
def append (context : ContextId) (element : ContextElement) (limit : Nat) :
    ContextId × Contexts :=
  contexts.intern (mostRecent limit (contexts.get context ++ [element]))

/-- The context of the `limit` most recent elements of a context. One that has no
more elements than that is left as it is. -/
def truncate (context : ContextId) (limit : Nat) : ContextId × Contexts :=
  let elements := contexts.get context
  if elements.length ≤ limit then (context, contexts)
  else contexts.intern (mostRecent limit elements)

/-- The written form of a context. -/
def render (context : ContextId) : String :=
  "[" ++ ", ".intercalate ((contexts.get context).map ContextElement.render) ++ "]"

variable {contexts} {context : ContextId} {elements : List ContextElement}

theorem get_of_get? (known : contexts.lists.get? context = some elements) :
    contexts.get context = elements := by
  simp [get, known]

/-- Asking again for a context that has been met changes nothing. -/
theorem intern_of_get? (known : contexts.lists.get? context = some elements) :
    contexts.intern elements = (context, contexts) := by
  simp only [intern, ArrivalSet.intern_of_get? known]

/-- A context that has been met is shortened to its most recent elements, also when these are
all of them. -/
theorem truncate_of_get? {limit : Nat} (known : contexts.lists.get? context = some elements) :
    contexts.truncate context limit = contexts.intern (mostRecent limit elements) := by
  rw [truncate, get_of_get? known]
  split
  case isTrue isShort =>
    rw [mostRecent_eq_self isShort, intern_of_get? known]
  case isFalse => rfl

/-- The number found for some elements is the one of the context made of them. -/
theorem get?_intern :
    (contexts.intern elements).2.lists.get? (contexts.intern elements).1 = some elements :=
  ArrivalSet.get?_intern

end Contexts

/-- A method in a context. -/
structure QualifiedMethod where
  context : ContextId
  method : MethodId
  deriving DecidableEq, Inhabited, Ord

/-- A program point in a context of its method. -/
structure QualifiedSite where
  context : ContextId
  site : Site
  deriving DecidableEq, Inhabited, Ord

/-- An abstract object in a context it is allocated in. -/
structure QualifiedObject where
  context : ContextId
  object : ObjectId
  deriving DecidableEq, Inhabited

end TacAnalysis.PointsTo
