/-
# What a points-to analysis never takes back

An analysis in progress only learns: numbers keep their meaning, and what is
held, connected, reachable or called stays so. Work that has been scheduled is
either still pending or done. The module says what it means for each rule of the
analysis to have been applied, in terms of numbers, and that what has been
applied remains so as the state grows.
-/

import TacAnalysis.Proofs.Lists
import TacAnalysis.Proofs.PointsTo.Findings

namespace TacAnalysis

namespace PointsTo

namespace State

variable (state : State)

/-- An object is held by a pointer, or is on its way to it. -/
def Delivered (pointer : PointerId) (object : QualifiedId) : Prop :=
  object ∈ (state.flow.objects pointer).elements ∨
    ∃ objects, .objects pointer objects ∈ state.worklist.items ∧ object ∈ objects.elements

/-- A method is reachable, or will become so. -/
def Scheduled (method : QualifiedMethod) : Prop :=
  method ∈ state.calls.reachable ∨ .method method ∈ state.worklist.items

/-- A state knows everything another one does. -/
structure Grows (old new : State) : Prop where
  contexts : old.contexts.lists.elements <+: new.contexts.lists.elements
  objects : old.heap.objects <+: new.heap.objects
  qualified : old.heap.qualified.elements <+: new.heap.qualified.elements
  pointers : old.flow.pointers.elements <+: new.flow.pointers.elements
  held {pointer : PointerId} {object : QualifiedId} :
    object ∈ (old.flow.objects pointer).elements → object ∈ (new.flow.objects pointer).elements
  edges : old.flow.edges.elements ⊆ new.flow.edges.elements
  reachable : old.calls.reachable ⊆ new.calls.reachable
  calls : old.calls.edges ⊆ new.calls.edges
  delivered {pointer : PointerId} {object : QualifiedId} :
    old.Delivered pointer object → new.Delivered pointer object
  scheduled {method : QualifiedMethod} : old.Scheduled method → new.Scheduled method

namespace Grows

variable {state old middle new : State}

theorem refl : Grows state state :=
  ⟨List.prefix_refl _, List.prefix_refl _, List.prefix_refl _, List.prefix_refl _, id,
    List.Subset.refl _, List.Subset.refl _, List.Subset.refl _, id, id⟩

theorem trans (first : Grows old middle) (second : Grows middle new) : Grows old new where
  contexts := first.contexts.trans second.contexts
  objects := first.objects.trans second.objects
  qualified := first.qualified.trans second.qualified
  pointers := first.pointers.trans second.pointers
  held isHeld := second.held (first.held isHeld)
  edges := List.Subset.trans first.edges second.edges
  reachable := List.Subset.trans first.reachable second.reachable
  calls := List.Subset.trans first.calls second.calls
  delivered isDelivered := second.delivered (first.delivered isDelivered)
  scheduled isScheduled := second.scheduled (first.scheduled isScheduled)

theorem context? (grows : Grows old new) {context : ContextId} {list : List ContextElement}
    (known : old.contexts.lists.get? context = some list) :
    new.contexts.lists.get? context = some list :=
  getElem?_of_prefix grows.contexts known

theorem object? (grows : Grows old new) {number : ObjectId} {object : AbstractObject}
    (known : old.heap.objects[number]? = some object) : new.heap.objects[number]? = some object :=
  getElem?_of_prefix grows.objects known

theorem qualified? (grows : Grows old new) {number : QualifiedId} {object : QualifiedObject}
    (known : old.heap.qualified.get? number = some object) :
    new.heap.qualified.get? number = some object :=
  getElem?_of_prefix grows.qualified known

theorem pointer? (grows : Grows old new) {number : PointerId} {pointer : Pointer}
    (known : old.flow.pointer? number = some pointer) :
    new.flow.pointer? number = some pointer :=
  getElem?_of_prefix grows.pointers known

end Grows

/-- An object is on its way to a pointer, or has arrived. -/
def Sent (object : QualifiedId) (pointer : Pointer) : Prop :=
  ∃ id, state.flow.pointer? id = some pointer ∧ state.Delivered id object

/-- Objects flow from one pointer to another. -/
def Connected (source target : Pointer) : Prop :=
  ∃ first second, state.flow.pointer? first = some source ∧
    state.flow.pointer? second = some target ∧ (first, second) ∈ state.flow.edges.elements

variable (program : Program) (selector : Selector)

/-- The object that a program point allocates in a context has been sent to a
variable. -/
def Allocated (point : QualifiedSite) (target : VarId) : Prop :=
  ∃ number qualified object list, state.Sent number (.var target point.context) ∧
    state.heap.qualified.get? number = some qualified ∧
    state.heap.objects[qualified.object]? = some object ∧ object.site = point.site ∧
    state.contexts.lists.get? point.context = some list ∧
    state.contexts.lists.get? qualified.context = some (selector.heapList list)

/-- A static call has been resolved. -/
def StaticCallDone (point : QualifiedSite) (invoke : Invoke) : Prop :=
  ∀ method, program.dispatch invoke.target.owner invoke.target.sub = some method →
    ∃ context list, ⟨invoke.kind, point, ⟨context, method⟩⟩ ∈ state.calls.edges ∧
      state.contexts.lists.get? point.context = some list ∧
      state.contexts.lists.get? context =
        some (selector.calleeList list (.callSite point.site) none)

/-- The statement at a point of a reachable method has been processed. Accesses to
instance fields and to arrays, and calls on objects, are not processed for a
method but for an object. -/
def StmtDone (point : QualifiedSite) : Prop :=
  match program.stmt point.site with
  | .new target _ => state.Allocated selector point target
  | .copy target source | .cast target _ source =>
      program.isReference target = true →
        state.Connected (.var source point.context) (.var target point.context)
  | .loadField target none field =>
      program.isReference target = true →
        state.Connected (.staticField field) (.var target point.context)
  | .storeField none field source =>
      program.isReference source = true →
        state.Connected (.var source point.context) (.staticField field)
  | .call invoke => invoke.kind = .static → state.StaticCallDone program selector point invoke
  | _ => True

/-- An access to an object at a point has been processed. -/
def AccessDone (object : QualifiedId) (point : QualifiedSite) : Prop :=
  match program.stmt point.site with
  | .storeField _ field source =>
      program.isReference source = true →
        state.Connected (.var source point.context) (.instanceField object field)
  | .loadField target _ field =>
      program.isReference target = true →
        state.Connected (.instanceField object field) (.var target point.context)
  | .storeArray _ _ source =>
      program.isReference source = true →
        state.Connected (.var source point.context) (.elements object)
  | .loadArray target _ _ =>
      program.isReference target = true →
        state.Connected (.elements object) (.var target point.context)
  | _ => True

/-- A call on an object at a point has been resolved. -/
def CallDone (number : QualifiedId) (point : QualifiedSite) : Prop :=
  ∀ invoke, program.stmt point.site = .call invoke →
    ∃ qualified object, state.heap.qualified.get? number = some qualified ∧
      state.heap.objects[qualified.object]? = some object ∧
      ∀ method, target? program invoke object.ty = some method →
        ∃ context caller receiver, ⟨invoke.kind, point, ⟨context, method⟩⟩ ∈ state.calls.edges ∧
          (∀ this, (program.methodDef method).this = some this →
            state.Sent number (.var this context)) ∧
          state.contexts.lists.get? point.context = some caller ∧
          state.contexts.lists.get? qualified.context = some receiver ∧
          state.contexts.lists.get? context =
            some (selector.calleeList caller (.callSite point.site)
              (some (receiver, .receiver qualified.object)))

/-- Arguments have been connected to the parameters of a callee. -/
def ArgumentsDone (call : QualifiedSite) (arguments : List VarId) (callee : QualifiedMethod) :
    Prop :=
  ∀ entry ∈ arguments.zip (program.methodDef callee.method).params,
    program.isReference entry.2 = true →
      state.Connected (.var entry.1 call.context) (.var entry.2 callee.context)

/-- What a callee returns has been connected to the result of a call. -/
def ResultDone (call : QualifiedSite) (result : Option VarId) (callee : QualifiedMethod) : Prop :=
  ∀ var, result = some var → program.isReference var = true →
    ∀ value ∈ (program.methodDef callee.method).returned,
      state.Connected (.var value callee.context) (.var var call.context)

/-- A call has been linked to a method that it may run. -/
def LinkDone (edge : CallEdge QualifiedSite QualifiedMethod) : Prop :=
  state.Scheduled edge.callee ∧ ∀ invoke, program.stmt edge.site.site = .call invoke →
    state.ArgumentsDone program edge.site invoke.args edge.callee ∧
    state.ResultDone program edge.site invoke.result edge.callee

/-- All statements of a method have been processed. -/
def MethodDone (method : QualifiedMethod) : Prop :=
  ∀ site ∈ program.sitesOf method.method, state.StmtDone program selector ⟨method.context, site⟩

/-- The sites of the accesses to what a variable holds. -/
def accessesThrough (var : VarId) : List Site :=
  program.fieldStores var ++ program.fieldLoads var ++ program.arrayStores var ++
    program.arrayLoads var

/-- All accesses to and calls on an object that a variable holds have been
processed. -/
def ObjectDone (var : VarId) (context : ContextId) (object : QualifiedId) : Prop :=
  (∀ site ∈ accessesThrough program var, state.AccessDone program object ⟨context, site⟩) ∧
    ∀ site ∈ program.callsOn var, state.CallDone program selector object ⟨context, site⟩

namespace Grows

variable {old new : State} {program selector}

theorem sent (grows : Grows old new) {object : QualifiedId} {pointer : Pointer}
    (isSent : old.Sent object pointer) : new.Sent object pointer := by
  obtain ⟨id, isPointer, isDelivered⟩ := isSent
  exact ⟨id, grows.pointer? isPointer, grows.delivered isDelivered⟩

theorem connected (grows : Grows old new) {source target : Pointer}
    (areConnected : old.Connected source target) : new.Connected source target := by
  obtain ⟨first, second, isSource, isTarget, isEdge⟩ := areConnected
  exact ⟨first, second, grows.pointer? isSource, grows.pointer? isTarget, grows.edges isEdge⟩

theorem allocated (grows : Grows old new) {point : QualifiedSite} {target : VarId}
    (done : old.Allocated selector point target) : new.Allocated selector point target := by
  obtain ⟨number, qualified, object, list, isSent, isQualified, isObject, atSite, isContext,
    isSelected⟩ := done
  exact ⟨number, qualified, object, list, grows.sent isSent, grows.qualified? isQualified,
    grows.object? isObject, atSite, grows.context? isContext, grows.context? isSelected⟩

theorem staticCallDone (grows : Grows old new) {point : QualifiedSite} {invoke : Invoke}
    (done : old.StaticCallDone program selector point invoke) :
    new.StaticCallDone program selector point invoke := by
  intro method dispatched
  obtain ⟨context, list, isEdge, isContext, isSelected⟩ := done method dispatched
  exact ⟨context, list, grows.calls isEdge, grows.context? isContext, grows.context? isSelected⟩

theorem stmtDone (grows : Grows old new) {point : QualifiedSite}
    (done : old.StmtDone program selector point) : new.StmtDone program selector point := by
  unfold StmtDone at done ⊢
  split at done
  case h_1 => exact grows.allocated done
  case h_6 => exact fun isStatic => grows.staticCallDone (done isStatic)
  case h_7 => trivial
  all_goals exact fun isReference => grows.connected (done isReference)

theorem accessDone (grows : Grows old new) {object : QualifiedId} {point : QualifiedSite}
    (done : old.AccessDone program object point) : new.AccessDone program object point := by
  unfold AccessDone at done ⊢
  split at done
  case h_5 => trivial
  all_goals exact fun isReference => grows.connected (done isReference)

theorem callDone (grows : Grows old new) {object : QualifiedId} {point : QualifiedSite}
    (done : old.CallDone program selector object point) :
    new.CallDone program selector object point := by
  intro invoke isCall
  obtain ⟨qualified, object, isQualified, isObject, resolved⟩ := done invoke isCall
  refine ⟨qualified, object, grows.qualified? isQualified, grows.object? isObject, ?_⟩
  intro method isTarget
  obtain ⟨context, caller, receiver, isEdge, isSent, isCaller, isReceiver, isSelected⟩ :=
    resolved method isTarget
  exact ⟨context, caller, receiver, grows.calls isEdge,
    fun this isThis => grows.sent (isSent this isThis), grows.context? isCaller,
    grows.context? isReceiver, grows.context? isSelected⟩

theorem argumentsDone (grows : Grows old new) {call : QualifiedSite} {arguments : List VarId}
    {callee : QualifiedMethod} (done : old.ArgumentsDone program call arguments callee) :
    new.ArgumentsDone program call arguments callee :=
  fun entry isEntry isReference => grows.connected (done entry isEntry isReference)

theorem resultDone (grows : Grows old new) {call : QualifiedSite} {result : Option VarId}
    {callee : QualifiedMethod} (done : old.ResultDone program call result callee) :
    new.ResultDone program call result callee :=
  fun var isVar isReference value isReturned =>
    grows.connected (done var isVar isReference value isReturned)

theorem linkDone (grows : Grows old new) {edge : CallEdge QualifiedSite QualifiedMethod}
    (done : old.LinkDone program edge) : new.LinkDone program edge :=
  ⟨grows.scheduled done.1, fun invoke isCall =>
    ⟨grows.argumentsDone (done.2 invoke isCall).1, grows.resultDone (done.2 invoke isCall).2⟩⟩

theorem methodDone (grows : Grows old new) {method : QualifiedMethod}
    (done : old.MethodDone program selector method) : new.MethodDone program selector method :=
  fun site isSite => grows.stmtDone (done site isSite)

theorem objectDone (grows : Grows old new) {var : VarId} {context : ContextId}
    {object : QualifiedId} (done : old.ObjectDone program selector var context object) :
    new.ObjectDone program selector var context object :=
  ⟨fun site isSite => grows.accessDone (done.1 site isSite),
    fun site isSite => grows.callDone (done.2 site isSite)⟩

end Grows

end State

end PointsTo

end TacAnalysis
