/-
# Context selectors

How much of the past a context remembers: nothing, the last call sites, or the
last receiver objects. Contexts of objects remember one element less than those
of methods.
-/

import TacAnalysis.Error
import TacAnalysis.PointsTo.Context
import TacAnalysis.Text.Decimal

namespace TacAnalysis.PointsTo

/-- A policy for choosing contexts. -/
inductive Selector where
  /-- The empty context is the only one. -/
  | insensitive
  /-- A method called from a site is told apart by the last `limit` call sites. -/
  | callSites (limit : Nat)
  /-- A method called on an object is told apart by the last `limit` receivers;
  without receiver it stays in the context of its caller. -/
  | receivers (limit : Nat)
  deriving DecidableEq, Inhabited

namespace Selector

/-- The name of a selector. -/
def name : Selector → String
  | insensitive => "ci"
  | callSites limit => toString limit ++ "-call"
  | receivers limit => toString limit ++ "-obj"

/-- The limits that can be written are the numbers of 64 bits. -/
def limitBound : Nat := Nat.pow 2 64

/-- The limit written by decimal digits after an optional plus sign. -/
def limitOf? (text : List Char) : Option Nat :=
  let digits := match text with
    | '+' :: digits => digits
    | digits => digits
  if digits.isEmpty || !digits.all Char.isDigit then none
  else
    let limit := Text.decimalValue digits
    if limit < limitBound then some limit else none

/-- The selector of a kind that remembers `limit` elements. Remembering none is
being insensitive. -/
def ofKind? (limit : Nat) (kind : String) : Option Selector :=
  if kind = "call" then some (if limit = 0 then insensitive else callSites limit)
  else if kind = "obj" then some (if limit = 0 then insensitive else receivers limit)
  else none

/-- The selector of a name: `ci`, or a limit and a kind separated by a dash. -/
def named? (name : String) : Option Selector :=
  if name = "ci" then some insensitive
  else
    let text := name.toList
    match text.dropWhile (· != '-') with
    | [] => none
    | _ :: kind => do
        let limit ← limitOf? (text.takeWhile (· != '-'))
        ofKind? limit (String.ofList kind)

/-- The selector of a name, or the error naming an unknown one. -/
def ofName (name : String) : Except AnalysisError Selector :=
  match named? name with
  | some selector => .ok selector
  | none => .error (.unknownSelector name)

/-- The context in which a method called at a site is analyzed, the receiver
being the object it is called on. -/
def calleeContext (selector : Selector) (contexts : Contexts) (call : QualifiedSite)
    (receiver : Option QualifiedObject) : ContextId × Contexts :=
  match selector, receiver with
  | insensitive, _ => (Contexts.emptyContext, contexts)
  | callSites limit, _ => contexts.append call.context (.callSite call.site) limit
  | receivers limit, some receiver =>
      contexts.append receiver.context (.receiver receiver.object) limit
  | receivers _, none => (call.context, contexts)

/-- The context of the objects that a method allocates in one of its contexts. -/
def heapContext (selector : Selector) (contexts : Contexts) (context : ContextId) :
    ContextId × Contexts :=
  match selector with
  | insensitive => (Contexts.emptyContext, contexts)
  | callSites limit | receivers limit => contexts.truncate context (limit - 1)

end Selector

end TacAnalysis.PointsTo
