/-
# Settled points-to analyses

When nothing is left to do, a lawful and complete state has found out a closed set
of findings, and nothing but what is in every closed set: what a points-to
analysis finds out is the least closed set of findings. Numbers stand for
different things, so that what one number holds is all that a place holds.
-/

import Mathlib.Order.Bounds.Basic
import TacAnalysis.Proofs.Lists
import TacAnalysis.Proofs.PointsTo.Running
import TacAnalysis.Proofs.Resolution.Ownership

namespace TacAnalysis

namespace PointsTo.State

variable {program : Program} {selector : Selector} {facts : Set Finding} {state : State}

section Naming

/-- Abstract objects of different numbers are allocated at different sites. -/
theorem Numbered.object_injective (numbered : Numbered program state) {first second : ObjectId}
    (knownFirst : first < state.heap.objects.length)
    (knownSecond : second < state.heap.objects.length)
    (sameSite : (state.heap.object first).site = (state.heap.object second).site) :
    first = second := by
  have inMap : first < (state.heap.objects.map AbstractObject.site).length := by
    rwa [List.length_map]
  apply (List.getElem?_inj inMap numbered.sites).mp
  simpa [Heap.object, knownFirst, knownSecond] using sameSite

/-- Elements of contexts are told apart by what they stand for. -/
theorem Numbered.eq_of_map_item (numbered : Numbered program state)
    {left right : List ContextElement}
    (knownLeft : ∀ object, .receiver object ∈ left → object < state.heap.objects.length)
    (knownRight : ∀ object, .receiver object ∈ right → object < state.heap.objects.length)
    (same : left.map state.item = right.map state.item) : left = right := by
  apply eq_of_map_eq _ same
  intro element isIn other isOther sameItem
  cases element with
  | callSite site =>
      cases other with
      | callSite otherSite =>
          cases sameItem
          rfl
      | receiver object => cases sameItem
  | receiver object =>
      cases other with
      | callSite site => cases sameItem
      | receiver otherObject =>
          rw [numbered.object_injective (knownLeft object isIn) (knownRight otherObject isOther)
            (ContextItem.receiver.inj sameItem)]

/-- The receivers in contexts are known. -/
theorem Numbered.receiver_known (numbered : Numbered program state) {context : ContextId}
    {object : ObjectId} (isIn : .receiver object ∈ state.contexts.get context) :
    object < state.heap.objects.length := by
  unfold Contexts.get at isIn
  cases isContext : state.contexts.lists.get? context with
  | none =>
      rw [isContext] at isIn
      cases isIn
  | some list =>
      rw [isContext, Option.getD_some] at isIn
      exact numbered.receivers (ArrivalSet.mem_of_get? isContext) isIn

/-- Contexts of different numbers are different as lists. -/
theorem Numbered.contextList_injective (numbered : Numbered program state)
    {first second : ContextId} (knownFirst : first < state.contexts.lists.size)
    (knownSecond : second < state.contexts.lists.size)
    (same : state.contextList first = state.contextList second) : first = second := by
  obtain ⟨left, isLeft⟩ := ArrivalSet.exists_get? knownFirst
  obtain ⟨right, isRight⟩ := ArrivalSet.exists_get? knownSecond
  have sameList := numbered.eq_of_map_item (fun _ => numbered.receiver_known)
    (fun _ => numbered.receiver_known) same
  rw [Contexts.get_of_get? isLeft, Contexts.get_of_get? isRight] at sameList
  rw [← sameList] at isRight
  exact ArrivalSet.number_unique isLeft isRight

/-- Objects of different numbers have different origins. -/
theorem Numbered.origin_injective (numbered : Numbered program state)
    {first second : QualifiedId} (knownFirst : first < state.heap.qualified.size)
    (knownSecond : second < state.heap.qualified.size)
    (same : state.origin first = state.origin second) : first = second := by
  obtain ⟨left, isLeft⟩ := ArrivalSet.exists_get? knownFirst
  obtain ⟨right, isRight⟩ := ArrivalSet.exists_get? knownSecond
  have inUseLeft := numbered.qualified (ArrivalSet.mem_of_get? isLeft)
  have inUseRight := numbered.qualified (ArrivalSet.mem_of_get? isRight)
  have readLeft : state.heap.qualifiedObject first = left := by
    simp [Heap.qualifiedObject, isLeft]
  have readRight : state.heap.qualifiedObject second = right := by
    simp [Heap.qualifiedObject, isRight]
  rw [origin, origin, Heap.objectOf, Heap.objectOf, readLeft, readRight, Origin.mk.injEq] at same
  have sameContext := numbered.contextList_injective inUseLeft.1 inUseRight.1 same.1
  have sameObject := numbered.object_injective inUseLeft.2 inUseRight.2 same.2
  have sameQualified : left = right := by
    cases left
    cases right
    simp_all
  rw [← sameQualified] at isRight
  exact ArrivalSet.number_unique isLeft isRight

/-- Pointers of different numbers are different places. -/
theorem Numbered.place_injective (numbered : Numbered program state) {first second : Pointer}
    (knownFirst : state.Knows first) (knownSecond : state.Knows second)
    (same : state.place first = state.place second) : first = second := by
  cases first with
  | var var context =>
      cases second with
      | var otherVar otherContext =>
          rw [place, place, Place.var.injEq] at same
          rw [same.1, numbered.contextList_injective knownFirst knownSecond same.2]
      | _ => cases same
  | staticField field =>
      cases second with
      | staticField otherField =>
          cases same
          rfl
      | _ => cases same
  | instanceField base field =>
      cases second with
      | instanceField otherBase otherField =>
          rw [place, place, Place.instanceField.injEq] at same
          rw [numbered.origin_injective knownFirst knownSecond same.1, same.2]
      | _ => cases same
  | elements array =>
      cases second with
      | elements otherArray =>
          rw [place, place, Place.elements.injEq] at same
          rw [numbered.origin_injective knownFirst knownSecond same]
      | _ => cases same

end Naming

section Reading

variable {method : QualifiedMethod} {source target pointer : Pointer} {object : QualifiedId}

/-- With nothing left to do, what has been sent is held. -/
theorem held_of_delivered (settled : state.worklist.items = []) {id : PointerId}
    (isDelivered : state.Delivered id object) : object ∈ (state.flow.objects id).elements := by
  rcases isDelivered with isHeld | ⟨objects, isWork, -⟩
  · exact isHeld
  · rw [settled] at isWork
    cases isWork

theorem shows_of_scheduled (settled : state.worklist.items = [])
    (isScheduled : state.Scheduled method) :
    state.Shows (.reachable (state.activation method)) := by
  rcases isScheduled with isReachable | isWork
  · exact ⟨method, isReachable, rfl⟩
  · rw [settled] at isWork
    cases isWork

theorem shows_of_sent (settled : state.worklist.items = []) (isSent : state.Sent object pointer) :
    state.Shows (.holds (state.place pointer) (state.origin object)) := by
  obtain ⟨id, isPointer, isDelivered⟩ := isSent
  exact ⟨id, pointer, object, isPointer, held_of_delivered settled isDelivered, rfl, rfl⟩

theorem shows_of_connected (areConnected : state.Connected source target) :
    state.Shows (.flows (state.place source) (state.place target)) := by
  obtain ⟨first, second, isSource, isTarget, isEdge⟩ := areConnected
  exact ⟨(first, second), isEdge, source, target, isSource, isTarget, rfl, rfl⟩

/-- What a variable holds in a context, in numbers. -/
theorem exists_of_shows_var {var : VarId} {context : List ContextItem} {origin : Origin}
    (shows : state.Shows (.holds (.var var context) origin)) :
    ∃ id number object, state.flow.pointer? id = some (.var var number) ∧
      object ∈ (state.flow.objects id).elements ∧ state.contextList number = context ∧
      state.origin object = origin := by
  obtain ⟨id, pointer, object, isPointer, isHeld, isPlace, isOrigin⟩ := shows
  cases pointer with
  | var other number =>
      rw [place, Place.var.injEq] at isPlace
      obtain ⟨rfl, isContext⟩ := isPlace
      exact ⟨id, number, object, isPointer, isHeld, isContext, isOrigin⟩
  | _ => cases isPlace

end Reading

section Rules

variable (lawful : Lawful program facts state) (complete : Complete program selector state)
variable (settled : state.worklist.items = [])

include complete in
/-- The statements of a method found reachable have been processed. -/
theorem stmtDone_of_shows {context : List ContextItem} {site : Site}
    (isReachable : state.Shows (.reachable ⟨context, site.method⟩))
    (isStmt : program.stmt site ≠ .nop) :
    ∃ number, state.contextList number = context ∧
      state.StmtDone program selector ⟨number, site⟩ := by
  obtain ⟨method, isMethod, isActivation⟩ := isReachable
  rw [activation, Activation.mk.injEq] at isActivation
  refine ⟨method.context, isActivation.1, complete.visited isMethod site ?_⟩
  rw [isActivation.2]
  exact Program.mem_sitesOf isStmt

include complete in
/-- The accesses through a variable have been processed for what it is found to
hold. -/
theorem accessDone_of_shows {context : List ContextItem} {site : Site}
    {base : VarId} {origin : Origin} (isHeld : state.Shows (.holds (.var base context) origin))
    (isBase : (program.stmt site).base? = some base) :
    ∃ number object, state.contextList number = context ∧ state.origin object = origin ∧
      state.AccessDone program object ⟨number, site⟩ := by
  obtain ⟨id, number, object, isVar, isIn, isContext, isOrigin⟩ := exists_of_shows_var isHeld
  have isAccess := mem_accessesThrough.mpr isBase
  exact ⟨number, object, isContext, isOrigin, (complete.accessed isIn isVar).1 site isAccess⟩

include lawful complete in
/-- The calls on a variable have been resolved for what it is found to hold. -/
theorem callDone_of_shows {context : List ContextItem} {site : Site}
    {invoke : Invoke} {receiver : VarId} {origin : Origin} {method : MethodId}
    (isHeld : state.Shows (.holds (.var receiver context) origin))
    (isCall : program.stmt site = .call invoke) (isReceiver : invoke.receiver = some receiver)
    (resolves : Resolves program invoke (allocatedTy program origin.site) method) :
    ∃ number object callee, state.contextList number = context ∧ state.origin object = origin ∧
      state.contextList callee = selector.receiverList context site origin ∧
      ⟨invoke.kind, ⟨number, site⟩, ⟨callee, method⟩⟩ ∈ state.calls.edges ∧
      ∀ this, (program.methodDef method).this = some this →
        state.Sent object (.var this callee) := by
  obtain ⟨id, number, object, isVar, isIn, isContext, isOrigin⟩ := exists_of_shows_var isHeld
  have isCallOn := mem_callsOn.mpr ⟨invoke, isCall, isReceiver⟩
  obtain ⟨pointer, isPointer, known, -⟩ := lawful.justified.delivered (Or.inl isIn)
  obtain ⟨qualified, abstract, isQualified, isObject, resolved⟩ :=
    (complete.accessed isIn isVar).2 site isCallOn invoke isCall
  have isTy : state.heap.typeOf object = abstract.ty := by
    simp [Heap.typeOf, Heap.objectOf, Heap.qualifiedObject, Heap.object, isQualified, isObject]
  rw [← isOrigin, ← lawful.numbered.typeOf_eq known, isTy] at resolves
  obtain ⟨callee, caller, receiving, isEdge, isSent, isCaller, isReceiving, isSelected⟩ :=
    resolved method (target?_eq_some_iff.mpr resolves)
  refine ⟨number, object, callee, isContext, isOrigin, ?_, isEdge, isSent⟩
  have isList := contextList_receiverList isQualified isCaller isReceiving isSelected
  rw [isContext, isOrigin] at isList
  exact isList

include complete settled in
/-- What a call edge leads to has been found out. -/
theorem linkDone_of_shows {kind : CallKind} {context : List ContextItem} {site : Site}
    {callee : Activation} (isCall : state.Shows (.calls kind context site callee)) :
    ∃ caller number, state.contextList caller = context ∧
      state.activation ⟨number, callee.method⟩ = callee ∧
      state.Shows (.reachable callee) ∧ ∀ invoke, program.stmt site = .call invoke →
        state.ArgumentsDone program ⟨caller, site⟩ invoke.args ⟨number, callee.method⟩ ∧
        state.ResultDone program ⟨caller, site⟩ invoke.result ⟨number, callee.method⟩ := by
  obtain ⟨⟨_, ⟨caller, _⟩, ⟨number, method⟩⟩, isEdge, rfl, rfl, rfl, rfl⟩ := isCall
  obtain ⟨isScheduled, done⟩ := complete.linked isEdge
  exact ⟨caller, number, rfl, rfl, shows_of_scheduled settled isScheduled, done⟩

include lawful settled in
/-- What a place holds flows along with everything it is connected to. -/
theorem shows_of_flows {source target : Place} {origin : Origin}
    (isFlow : state.Shows (.flows source target)) (isHeld : state.Shows (.holds source origin)) :
    state.Shows (.holds target origin) := by
  obtain ⟨edge, isEdge, first, second, isFirst, isSecond, rfl, rfl⟩ := isFlow
  obtain ⟨id, pointer, object, isPointer, isIn, samePlace, rfl⟩ := isHeld
  have numbered := lawful.numbered
  have samePointer := numbered.place_injective (numbered.knows isPointer) (numbered.knows isFirst)
    samePlace
  rw [samePointer] at isPointer
  have sameNumber : id = edge.1 := ArrivalSet.number_unique isPointer isFirst
  rw [sameNumber] at isIn
  exact ⟨edge.2, second, object, isSecond,
    held_of_delivered settled (lawful.flowing isEdge isIn), rfl, rfl⟩

include lawful complete settled in
/-- No rule leads out of what a complete state has found out once nothing is left to
do. -/
theorem closed_findings : Closed program selector state.findings where
  entry {method} isEntry := by
    have shows := shows_of_scheduled settled (complete.entered isEntry)
    have isEmpty : state.contextList Contexts.emptyContext = [] := by
      rw [contextList, Contexts.get_of_get? lawful.numbered.emptyContext, List.map_nil]
    rwa [activation, isEmpty] at shows
  allocation {context site target ty} isReachable isNew := by
    obtain ⟨number, rfl, done⟩ := stmtDone_of_shows complete isReachable (by simp [isNew])
    simp only [StmtDone, isNew] at done
    obtain ⟨id, qualified, object, list, isSent, isQualified, isObject, atSite, isContext,
      isSelected⟩ := done
    have shows := shows_of_sent settled isSent
    rw [origin_of_get? isQualified isObject, contextList_heapList isContext isSelected,
      atSite] at shows
    exact shows
  copy isReachable isCopy isReference := by
    obtain ⟨number, rfl, done⟩ := stmtDone_of_shows complete isReachable (by simp [isCopy])
    simp only [StmtDone, isCopy] at done
    exact shows_of_connected (done isReference)
  cast isReachable isCast isReference := by
    obtain ⟨number, rfl, done⟩ := stmtDone_of_shows complete isReachable (by simp [isCast])
    simp only [StmtDone, isCast] at done
    exact shows_of_connected (done isReference)
  staticLoad isReachable isLoad isReference := by
    obtain ⟨number, rfl, done⟩ := stmtDone_of_shows complete isReachable (by simp [isLoad])
    simp only [StmtDone, isLoad] at done
    exact shows_of_connected (done isReference)
  staticStore isReachable isStore isReference := by
    obtain ⟨number, rfl, done⟩ := stmtDone_of_shows complete isReachable (by simp [isStore])
    simp only [StmtDone, isStore] at done
    exact shows_of_connected (done isReference)
  staticCall {context site invoke method} isReachable isCall isStatic dispatched := by
    obtain ⟨number, rfl, done⟩ := stmtDone_of_shows complete isReachable (by simp [isCall])
    simp only [StmtDone, isCall] at done
    obtain ⟨callee, list, isEdge, isContext, isSelected⟩ := done isStatic method dispatched
    rw [isStatic] at isEdge
    refine ⟨_, isEdge, rfl, rfl, rfl, ?_⟩
    rw [activation, contextList_calleeList isContext isSelected]
    rfl
  fieldStore isHeld isStore isReference := by
    obtain ⟨number, object, rfl, rfl, done⟩ :=
      accessDone_of_shows complete isHeld (by rw [isStore]; rfl)
    simp only [AccessDone, isStore] at done
    exact shows_of_connected (done isReference)
  fieldLoad isHeld isLoad isReference := by
    obtain ⟨number, object, rfl, rfl, done⟩ :=
      accessDone_of_shows complete isHeld (by rw [isLoad]; rfl)
    simp only [AccessDone, isLoad] at done
    exact shows_of_connected (done isReference)
  elementStore isHeld isStore isReference := by
    obtain ⟨number, object, rfl, rfl, done⟩ :=
      accessDone_of_shows complete isHeld (by rw [isStore]; rfl)
    simp only [AccessDone, isStore] at done
    exact shows_of_connected (done isReference)
  elementLoad isHeld isLoad isReference := by
    obtain ⟨number, object, rfl, rfl, done⟩ :=
      accessDone_of_shows complete isHeld (by rw [isLoad]; rfl)
    simp only [AccessDone, isLoad] at done
    exact shows_of_connected (done isReference)
  instanceCall isHeld isCall isReceiver resolves := by
    obtain ⟨number, object, callee, rfl, rfl, isContext, isEdge, -⟩ :=
      callDone_of_shows lawful complete isHeld isCall isReceiver resolves
    refine ⟨_, isEdge, rfl, rfl, rfl, ?_⟩
    rw [activation, isContext]
  this isHeld isCall isReceiver resolves isThis := by
    obtain ⟨number, object, callee, rfl, rfl, isContext, -, isSent⟩ :=
      callDone_of_shows lawful complete isHeld isCall isReceiver resolves
    have shows := shows_of_sent settled (isSent _ isThis)
    rwa [place, isContext] at shows
  callee isCall := by
    obtain ⟨caller, number, rfl, isActivation, isReachable, -⟩ :=
      linkDone_of_shows complete settled isCall
    exact isReachable
  argument {kind context site callee invoke argument parameter} isEdge isCall isPassed
      isReference := by
    obtain ⟨caller, number, rfl, isActivation, -, done⟩ :=
      linkDone_of_shows complete settled isEdge
    have shows := shows_of_connected ((done invoke isCall).1 _ isPassed isReference)
    rw [← isActivation]
    exact shows
  result {kind context site callee invoke result value} isEdge isCall isResult isReference
      isReturned := by
    obtain ⟨caller, number, rfl, isActivation, -, done⟩ :=
      linkDone_of_shows complete settled isEdge
    have shows := shows_of_connected
      ((done invoke isCall).2 result isResult isReference value isReturned)
    rw [← isActivation]
    exact shows
  flow isFlow isHeld := shows_of_flows lawful settled isFlow isHeld

end Rules

/-- A lawful state has found out nothing but what justifies it. -/
theorem Lawful.findings_subset (lawful : Lawful program facts state) :
    state.findings ⊆ facts := by
  intro finding shows
  cases finding with
  | reachable activation =>
      obtain ⟨method, isReachable, rfl⟩ := shows
      exact (lawful.justified.scheduled (Or.inl isReachable)).2
  | holds place object =>
      obtain ⟨id, pointer, number, isPointer, isHeld, rfl, rfl⟩ := shows
      obtain ⟨other, isOther, -, isFact⟩ := lawful.justified.delivered (Or.inl isHeld)
      cases isPointer.symm.trans isOther
      exact isFact
  | flows source target =>
      obtain ⟨edge, isEdge, first, second, isFirst, isSecond, rfl, rfl⟩ := shows
      obtain ⟨left, right, isLeft, isRight, isFact⟩ := lawful.justified.edges isEdge
      cases isFirst.symm.trans isLeft
      cases isSecond.symm.trans isRight
      exact isFact
  | calls kind context site callee =>
      obtain ⟨edge, isEdge, rfl, rfl, rfl, rfl⟩ := shows
      exact (lawful.justified.calls isEdge).2.2

/-- The set of all findings is closed. -/
theorem closed_univ : Closed program selector Set.univ := by
  constructor <;> intros <;> trivial

/-- What a variable is in an analysis that has ended is read in a range between constant ends,
as long as no more contexts have been met than words can number. -/
theorem varPointers_pointsTo {steps : Nat} (solved : program.pointsTo selector steps = .ok state)
    (few : state.contexts.lists.size ≤ greatestContext + 1) (var : VarId) :
    state.flow.varPointers var =
      state.flow.range (.var var Contexts.emptyContext) (.var var greatestContext) := by
  obtain ⟨lawful, -, -⟩ := complete_solve closed_univ solved
  exact FlowGraph.varPointers_eq (lawful.numbered.contextsFit few) var

/-- What the points-to analysis of a program finds out, whatever the contexts are
made of, is the least closed set of findings. -/
theorem isLeast_findings {steps : Nat}
    (solved : program.pointsTo selector steps = .ok state) :
    IsLeast {facts | Closed program selector facts} state.findings := by
  obtain ⟨lawful, complete, settled⟩ := complete_solve closed_univ solved
  refine ⟨closed_findings lawful complete settled, ?_⟩
  intro facts closed
  exact (complete_solve closed solved).1.findings_subset

/-- A call on an object that is stored in a field and loaded again, each receiver
being told apart. -/
theorem isLeast_findings_field : ∃ program state,
    Program.ofText "class Main { field Main next; method m() : void { return; }
      static method main() : void { var Main x, y; x = new Main; x.next = x; y = x.next;
        invokevirtual y.<Main: void m()>(); return; } }" = .ok program ∧
    program.pointsTo (.receivers 1) 20 = .ok state ∧ state.calls.edges ≠ [] ∧
    IsLeast {facts | Closed program (.receivers 1) facts} state.findings := by
  have passes : (Program.ofText "class Main { field Main next; method m() : void { return; }
      static method main() : void { var Main x, y; x = new Main; x.next = x; y = x.next;
        invokevirtual y.<Main: void m()>(); return; } }").toOption.any (fun program =>
      (program.pointsTo (.receivers 1) 20).toOption.any fun state =>
        !state.calls.edges.isEmpty) = true := by decide +kernel
  obtain ⟨program, isProgram, ends⟩ := exists_of_test passes
  obtain ⟨state, solved, hasCalls⟩ := exists_of_test ends
  exact ⟨program, state, isProgram, solved, by simpa using hasCalls,
    isLeast_findings solved⟩

end PointsTo.State

end TacAnalysis
