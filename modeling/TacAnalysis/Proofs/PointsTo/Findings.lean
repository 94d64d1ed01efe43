/-
# The rules of points-to analysis

What a points-to analysis has to find out, said without any of the numbers it
works with: a context is a list of call sites and of allocation sites, and an
object is a program point that allocates it in a context. A set of findings is
closed when no rule leads out of it. Nothing here depends on the order in which
the rules are applied.
-/

import Mathlib.Order.Bounds.Basic
import TacAnalysis.PointsTo.Solver

namespace TacAnalysis.PointsTo

/-- What a context is made of, a receiver being known by where it is allocated. -/
inductive ContextItem where
  | callSite (site : Site)
  | receiver (allocation : Site)
  deriving DecidableEq

/-- The objects that a program point allocates in a context. -/
structure Origin where
  context : List ContextItem
  site : Site
  deriving DecidableEq

/-- A method in a context. -/
structure Activation where
  context : List ContextItem
  method : MethodId
  deriving DecidableEq

/-- A place that may hold references. -/
inductive Place where
  | var (var : VarId) (context : List ContextItem)
  | staticField (field : FieldId)
  | instanceField (base : Origin) (field : FieldId)
  | elements (array : Origin)
  deriving DecidableEq

/-- A single thing that an analysis may find out. -/
inductive Finding where
  /-- A method may run in a context. -/
  | reachable (activation : Activation)
  /-- A place may hold the objects of an origin. -/
  | holds (place : Place) (object : Origin)
  /-- Whatever one place holds flows to another one. -/
  | flows (source target : Place)
  /-- A call made at a site, in a context of its method, may run a method. -/
  | calls (kind : CallKind) (context : List ContextItem) (site : Site) (callee : Activation)
  deriving DecidableEq

/-- The context in which a selector has a callee analyzed, as a list: it is made
from the context of the caller and the call, or from the context of the receiver
and the receiver. -/
def Selector.calleeList {Item : Type} (selector : Selector) (caller : List Item) (call : Item)
    (receiver : Option (List Item × Item)) : List Item :=
  match selector, receiver with
  | .insensitive, _ => []
  | .callSites limit, _ => mostRecent limit (caller ++ [call])
  | .receivers limit, some (context, object) => mostRecent limit (context ++ [object])
  | .receivers _, none => caller

/-- The context of the objects that a method allocates in a context, as a list. -/
def Selector.heapList {Item : Type} (selector : Selector) (context : List Item) : List Item :=
  match selector with
  | .insensitive => []
  | .callSites limit | .receivers limit => mostRecent (limit - 1) context

/-- The context of a callee depends only on what the items of the contexts stand
for. -/
theorem Selector.map_calleeList {Item Other : Type} (selector : Selector) (read : Item → Other)
    (caller : List Item) (call : Item) (receiver : Option (List Item × Item)) :
    (selector.calleeList caller call receiver).map read =
      selector.calleeList (caller.map read) (read call)
        (receiver.map fun entry => (entry.1.map read, read entry.2)) := by
  cases selector with
  | insensitive => rfl
  | callSites limit => simp [calleeList, mostRecent]
  | receivers limit =>
      cases receiver with
      | none => rfl
      | some entry => simp [calleeList, mostRecent]

/-- The context of an object depends only on what the items of the context stand
for. -/
theorem Selector.map_heapList {Item Other : Type} (selector : Selector) (read : Item → Other)
    (context : List Item) :
    (selector.heapList context).map read = selector.heapList (context.map read) := by
  cases selector <;> simp [heapList, mostRecent]

/-- The items of a callee's context come from the caller, the call or the
receiver. -/
theorem Selector.mem_calleeList {Item : Type} {selector : Selector} {caller : List Item}
    {call item : Item} {receiver : Option (List Item × Item)}
    (isIn : item ∈ selector.calleeList caller call receiver) :
    item ∈ caller ∨ item = call ∨
      ∃ entry, receiver = some entry ∧ (item ∈ entry.1 ∨ item = entry.2) := by
  cases selector with
  | insensitive => simp [calleeList] at isIn
  | callSites limit =>
      have := List.mem_of_mem_drop isIn
      rw [List.mem_append, List.mem_singleton] at this
      exact this.imp_right Or.inl
  | receivers limit =>
      cases receiver with
      | none => exact Or.inl isIn
      | some entry =>
          have := List.mem_of_mem_drop isIn
          rw [List.mem_append, List.mem_singleton] at this
          exact Or.inr (Or.inr ⟨entry, rfl, this⟩)

/-- The items of an object's context come from the context it is allocated in. -/
theorem Selector.mem_heapList {Item : Type} {selector : Selector} {context : List Item}
    {item : Item} (isIn : item ∈ selector.heapList context) : item ∈ context := by
  cases selector with
  | insensitive => simp [heapList] at isIn
  | callSites limit => exact List.mem_of_mem_drop isIn
  | receivers limit => exact List.mem_of_mem_drop isIn

/-- The class on which calls on an object of a type dispatch: its own class, and
for an array the root class. -/
inductive DispatchesOn (program : Program) : Ty → ClassId → Prop where
  | named {name : String} {cls : ClassId} :
      program.classNamed? name = some cls → DispatchesOn program (.named name) cls
  | array {elem : Ty} {cls : ClassId} :
      program.classNamed? rootClassName = some cls → DispatchesOn program (.array elem) cls

/-- The method that a call runs on an object of a type. Special calls run the
method found from the class they name; other calls the one found from the class
of the object, which has to be a subtype of the class they name. -/
inductive Resolves (program : Program) (invoke : Invoke) (ty : Ty) : MethodId → Prop where
  | special {method : MethodId} : invoke.kind = .special →
      program.dispatch invoke.target.owner invoke.target.sub = some method →
      Resolves program invoke ty method
  | dynamic {cls : ClassId} {method : MethodId} : invoke.kind ≠ .special →
      DispatchesOn program ty cls → program.isSubtype cls invoke.target.owner = true →
      program.dispatch cls invoke.target.sub = some method →
      Resolves program invoke ty method

/-- The type of the objects allocated at a program point. -/
def allocatedTy (program : Program) (site : Site) : Ty :=
  match program.stmt site with
  | .new _ ty => ty
  | _ => .void

/-- The context of the method that a call runs on an object. -/
def Selector.receiverList (selector : Selector) (context : List ContextItem) (site : Site)
    (object : Origin) : List ContextItem :=
  selector.calleeList context (.callSite site) (some (object.context, .receiver object.site))

/-- The context of the method that a static call runs. -/
def Selector.staticList (selector : Selector) (context : List ContextItem) (site : Site) :
    List ContextItem :=
  selector.calleeList context (.callSite site) none

/-- A set of findings that no rule of the analysis leads out of. -/
structure Closed (program : Program) (selector : Selector) (facts : Set Finding) : Prop where
  /-- Entry methods run in the empty context. -/
  entry {method : MethodId} : method ∈ program.entries → .reachable ⟨[], method⟩ ∈ facts
  /-- An allocation puts an object into a variable. -/
  allocation {context : List ContextItem} {site : Site} {target : VarId} {ty : Ty} :
    .reachable ⟨context, site.method⟩ ∈ facts → program.stmt site = .new target ty →
    .holds (.var target context) ⟨selector.heapList context, site⟩ ∈ facts
  copy {context : List ContextItem} {site : Site} {target source : VarId} :
    .reachable ⟨context, site.method⟩ ∈ facts → program.stmt site = .copy target source →
    program.isReference target = true →
    .flows (.var source context) (.var target context) ∈ facts
  cast {context : List ContextItem} {site : Site} {target source : VarId} {ty : Ty} :
    .reachable ⟨context, site.method⟩ ∈ facts → program.stmt site = .cast target ty source →
    program.isReference target = true →
    .flows (.var source context) (.var target context) ∈ facts
  staticLoad {context : List ContextItem} {site : Site} {target : VarId} {field : FieldId} :
    .reachable ⟨context, site.method⟩ ∈ facts →
    program.stmt site = .loadField target none field → program.isReference target = true →
    .flows (.staticField field) (.var target context) ∈ facts
  staticStore {context : List ContextItem} {site : Site} {source : VarId} {field : FieldId} :
    .reachable ⟨context, site.method⟩ ∈ facts →
    program.stmt site = .storeField none field source → program.isReference source = true →
    .flows (.var source context) (.staticField field) ∈ facts
  staticCall {context : List ContextItem} {site : Site} {invoke : Invoke} {method : MethodId} :
    .reachable ⟨context, site.method⟩ ∈ facts → program.stmt site = .call invoke →
    invoke.kind = .static →
    program.dispatch invoke.target.owner invoke.target.sub = some method →
    .calls .static context site ⟨selector.staticList context site, method⟩ ∈ facts
  /-- An access to a field or an element concerns the objects that its base holds. -/
  fieldStore {context : List ContextItem} {site : Site} {base source : VarId} {field : FieldId}
      {object : Origin} :
    .holds (.var base context) object ∈ facts →
    program.stmt site = .storeField (some base) field source →
    program.isReference source = true →
    .flows (.var source context) (.instanceField object field) ∈ facts
  fieldLoad {context : List ContextItem} {site : Site} {base target : VarId} {field : FieldId}
      {object : Origin} :
    .holds (.var base context) object ∈ facts →
    program.stmt site = .loadField target (some base) field →
    program.isReference target = true →
    .flows (.instanceField object field) (.var target context) ∈ facts
  elementStore {context : List ContextItem} {site : Site} {base index source : VarId}
      {object : Origin} :
    .holds (.var base context) object ∈ facts →
    program.stmt site = .storeArray base index source → program.isReference source = true →
    .flows (.var source context) (.elements object) ∈ facts
  elementLoad {context : List ContextItem} {site : Site} {base index target : VarId}
      {object : Origin} :
    .holds (.var base context) object ∈ facts →
    program.stmt site = .loadArray target base index → program.isReference target = true →
    .flows (.elements object) (.var target context) ∈ facts
  /-- A call on an object runs the method that it resolves to. -/
  instanceCall {context : List ContextItem} {site : Site} {invoke : Invoke} {receiver : VarId}
      {object : Origin} {method : MethodId} :
    .holds (.var receiver context) object ∈ facts → program.stmt site = .call invoke →
    invoke.receiver = some receiver →
    Resolves program invoke (allocatedTy program object.site) method →
    .calls invoke.kind context site ⟨selector.receiverList context site object, method⟩ ∈ facts
  /-- The method that a call runs on an object gets that object. -/
  this {context : List ContextItem} {site : Site} {invoke : Invoke} {receiver this : VarId}
      {object : Origin} {method : MethodId} :
    .holds (.var receiver context) object ∈ facts → program.stmt site = .call invoke →
    invoke.receiver = some receiver →
    Resolves program invoke (allocatedTy program object.site) method →
    (program.methodDef method).this = some this →
    .holds (.var this (selector.receiverList context site object)) object ∈ facts
  callee {kind : CallKind} {context : List ContextItem} {site : Site} {callee : Activation} :
    .calls kind context site callee ∈ facts → .reachable callee ∈ facts
  argument {kind : CallKind} {context : List ContextItem} {site : Site} {callee : Activation}
      {invoke : Invoke} {argument parameter : VarId} :
    .calls kind context site callee ∈ facts → program.stmt site = .call invoke →
    (argument, parameter) ∈ invoke.args.zip (program.methodDef callee.method).params →
    program.isReference parameter = true →
    .flows (.var argument context) (.var parameter callee.context) ∈ facts
  result {kind : CallKind} {context : List ContextItem} {site : Site} {callee : Activation}
      {invoke : Invoke} {result value : VarId} :
    .calls kind context site callee ∈ facts → program.stmt site = .call invoke →
    invoke.result = some result → program.isReference result = true →
    value ∈ (program.methodDef callee.method).returned →
    .flows (.var value callee.context) (.var result context) ∈ facts
  /-- Objects flow along with everything else a place holds. -/
  flow {source target : Place} {object : Origin} :
    .flows source target ∈ facts → .holds source object ∈ facts → .holds target object ∈ facts

namespace State

/-- The method that the solver takes a call on an object to run is the one that
the call resolves to. -/
theorem target?_eq_some_iff {program : Program} {invoke : Invoke} {ty : Ty} {method : MethodId} :
    target? program invoke ty = some method ↔ Resolves program invoke ty method := by
  have receiverClass {cls : ClassId} :
      receiverClass? program ty = some cls ↔ DispatchesOn program ty cls := by
    constructor
    · intro found
      cases ty with
      | named name => exact .named found
      | array elem => exact .array found
      | _ => simp [receiverClass?] at found
    · rintro (found | found) <;> exact found
  constructor
  · intro found
    by_cases special : invoke.kind = .special
    · exact .special special (by simpa [target?, special] using found)
    · have dynamic : (do
          let cls ← receiverClass? program ty
          if program.isSubtype cls invoke.target.owner then program.dispatch cls invoke.target.sub
          else none) = some method := by
        unfold target? at found
        split at found
        case h_1 same => exact absurd same special
        case h_2 => exact found
      obtain ⟨cls, isClass, dispatched⟩ := Option.bind_eq_some_iff.mp dynamic
      split at dispatched
      case isTrue isSubtype =>
        exact .dynamic special (receiverClass.mp isClass) isSubtype dispatched
      case isFalse => cases dispatched
  · rintro (⟨special, dispatched⟩ | ⟨notSpecial, isClass, isSubtype, dispatched⟩)
    · simpa [target?, special] using dispatched
    · unfold target?
      split
      case h_1 same => exact absurd same notSpecial
      case h_2 =>
        rw [receiverClass.mpr isClass]
        simp [isSubtype, dispatched]

variable (state : State)

/-- What an element of a context stands for. -/
def item : ContextElement → ContextItem
  | .callSite site => .callSite site
  | .receiver object => .receiver (state.heap.object object).site

/-- The context of a number, as a list. -/
def contextList (context : ContextId) : List ContextItem :=
  (state.contexts.get context).map state.item

/-- The object of a number. -/
def origin (object : QualifiedId) : Origin where
  context := state.contextList (state.heap.qualifiedObject object).context
  site := (state.heap.object (state.heap.objectOf object)).site

/-- The place that a pointer is. -/
def place : Pointer → Place
  | .var var context => .var var (state.contextList context)
  | .staticField field => .staticField field
  | .instanceField base field => .instanceField (state.origin base) field
  | .elements array => .elements (state.origin array)

/-- The method and the list that a qualified method stands for. -/
def activation (method : QualifiedMethod) : Activation :=
  ⟨state.contextList method.context, method.method⟩

/-- Whether a state records a finding. -/
def Shows : Finding → Prop
  | .reachable activation =>
      ∃ method ∈ state.calls.reachable, state.activation method = activation
  | .holds place object =>
      ∃ id pointer number, state.flow.pointer? id = some pointer ∧
        number ∈ (state.flow.objects id).elements ∧
        state.place pointer = place ∧ state.origin number = object
  | .flows source target =>
      ∃ edge ∈ state.flow.edges.elements, ∃ first second,
        state.flow.pointer? edge.1 = some first ∧ state.flow.pointer? edge.2 = some second ∧
        state.place first = source ∧ state.place second = target
  | .calls kind context site callee =>
      ∃ edge ∈ state.calls.edges, edge.kind = kind ∧
        state.contextList edge.site.context = context ∧ edge.site.site = site ∧
        state.activation edge.callee = callee

/-- What a state has found out. -/
def findings : Set Finding := {finding | state.Shows finding}

end State

end TacAnalysis.PointsTo
