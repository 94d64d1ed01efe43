/-
# Selecting contexts and linking calls

The number that a selector answers is the one of the context that it selects as a
list. A call is linked once to each method that it may run: the method is
scheduled, arguments are connected to parameters and what is returned to the
result of the call.
-/

import TacAnalysis.Proofs.PointsTo.Connecting

namespace TacAnalysis.PointsTo

/-- A selector asks for the number of the list that it selects. -/
theorem Selector.calleeContext_eq {selector : Selector} {contexts : Contexts}
    {call : QualifiedSite} {receiver : Option QualifiedObject} {caller : List ContextElement}
    (empty : contexts.lists.get? Contexts.emptyContext = some [])
    (known : contexts.lists.get? call.context = some caller) :
    selector.calleeContext contexts call receiver =
      contexts.intern (selector.calleeList caller (.callSite call.site)
        (receiver.map fun object => (contexts.get object.context, .receiver object.object))) := by
  cases selector with
  | insensitive => exact (Contexts.intern_of_get? empty).symm
  | callSites limit =>
      simp only [calleeContext, calleeList, Contexts.append, Contexts.get_of_get? known]
  | receivers limit =>
      cases receiver with
      | none => exact (Contexts.intern_of_get? known).symm
      | some object => rfl

theorem Selector.heapContext_eq {selector : Selector} {contexts : Contexts} {context : ContextId}
    {list : List ContextElement} (empty : contexts.lists.get? Contexts.emptyContext = some [])
    (known : contexts.lists.get? context = some list) :
    selector.heapContext contexts context = contexts.intern (selector.heapList list) := by
  cases selector with
  | insensitive => exact (Contexts.intern_of_get? empty).symm
  | callSites limit => exact Contexts.truncate_of_get? known
  | receivers limit => exact Contexts.truncate_of_get? known

namespace State

/-- What doing some work does to a lawful state: whatever is new has been dealt with. -/
structure Advances (program : Program) (selector : Selector) (facts : Set Finding)
    (old new : State) : Prop extends Grows old new where
  lawful : Lawful program facts new
  linked {edge : CallEdge QualifiedSite QualifiedMethod} : edge ∈ new.calls.edges →
    edge ∈ old.calls.edges ∨ new.LinkDone program edge
  visited {method : QualifiedMethod} : method ∈ new.calls.reachable →
    method ∈ old.calls.reachable ∨ new.MethodDone program selector method
  accessed {id : PointerId} {var : VarId} {context : ContextId} {object : QualifiedId} :
    object ∈ (new.flow.objects id).elements → new.flow.pointer? id = some (.var var context) →
    object ∈ (old.flow.objects id).elements ∨ new.ObjectDone program selector var context object

variable {program : Program} {selector : Selector} {facts : Set Finding}
variable {state old middle new : State}

theorem Keeps.advances (keeps : Keeps program facts old new) :
    Advances program selector facts old new where
  toGrows := keeps.toGrows
  lawful := keeps.lawful
  linked isEdge := Or.inl (by rwa [← keeps.sameCalls])
  visited isReachable := Or.inl (by rwa [← keeps.sameCalls])
  accessed isHeld _ := Or.inl (by rwa [FlowGraph.objects, ← keeps.sameHeld])

theorem Advances.trans (first : Advances program selector facts old middle)
    (second : Advances program selector facts middle new) :
    Advances program selector facts old new where
  toGrows := first.toGrows.trans second.toGrows
  lawful := second.lawful
  linked isEdge := by
    rcases second.linked isEdge with isMiddle | done
    · exact (first.linked isMiddle).imp_right second.toGrows.linkDone
    · exact Or.inr done
  visited isReachable := by
    rcases second.visited isReachable with isMiddle | done
    · exact (first.visited isMiddle).imp_right second.toGrows.methodDone
    · exact Or.inr done
  accessed isHeld isVar := by
    rcases second.accessed isHeld isVar with isMiddle | done
    · -- A pointer that holds an object already had its number.
      obtain ⟨pointer, isPointer, -⟩ := first.lawful.justified.delivered (Or.inl isMiddle)
      cases (second.toGrows.pointer? isPointer).symm.trans isVar
      exact (first.accessed isMiddle isPointer).imp_right second.toGrows.objectDone
    · exact Or.inr done

/-- Doing nothing. -/
theorem Advances.refl (lawful : Lawful program facts state) :
    Advances program selector facts state state :=
  (Keeps.refl lawful).advances

/-- Doing a list of things, each of which deals with what it adds. -/
theorem Advances.foldl {Item : Type} (post : Item → State → Prop) {apply : State → Item → State}
    {items : List Item} (lawful : Lawful program facts state)
    (mono : ∀ {old new item}, Grows old new → post item old → post item new)
    (each : ∀ middle, Advances program selector facts state middle → ∀ item ∈ items,
      Advances program selector facts middle (apply middle item) ∧
        post item (apply middle item)) :
    Advances program selector facts state (items.foldl apply state) ∧
      ∀ item ∈ items, post item (items.foldl apply state) :=
  foldl_related (.refl lawful) (fun advances => .refl advances.lawful) .trans
    (fun advances => mono advances.toGrows) each

/-- Doing a list of things that only record something about pointers. -/
theorem Keeps.foldl {Item : Type} (post : Item → State → Prop) {apply : State → Item → State}
    {items : List Item} (lawful : Lawful program facts state)
    (mono : ∀ {old new item}, Grows old new → post item old → post item new)
    (each : ∀ middle, Keeps program facts state middle → ∀ item ∈ items,
      Keeps program facts middle (apply middle item) ∧ post item (apply middle item)) :
    Keeps program facts state (items.foldl apply state) ∧
      ∀ item ∈ items, post item (items.foldl apply state) :=
  foldl_related (.refl lawful) (fun keeps => .refl keeps.lawful) .trans
    (fun keeps => mono keeps.toGrows) each

variable {call : QualifiedSite} {invoke : Invoke} {callee : QualifiedMethod}

/-- What the number of a callee's context stands for. -/
theorem contextList_calleeList {context caller : ContextId} {list : List ContextElement}
    {element : ContextElement} {receiver : Option (List ContextElement × ContextElement)}
    (isCaller : state.contexts.lists.get? caller = some list)
    (isSelected : state.contexts.lists.get? context =
      some (selector.calleeList list element receiver)) :
    state.contextList context =
      selector.calleeList (state.contextList caller) (state.item element)
        (receiver.map fun entry => (entry.1.map state.item, state.item entry.2)) := by
  unfold contextList
  rw [Contexts.get_of_get? isCaller, Contexts.get_of_get? isSelected, Selector.map_calleeList]

/-- What the number of the context of a method called on an object stands for. -/
theorem contextList_receiverList {context : ContextId} {number : QualifiedId}
    {qualified : QualifiedObject} {list receiving : List ContextElement}
    (isQualified : state.heap.qualified.get? number = some qualified)
    (isCaller : state.contexts.lists.get? call.context = some list)
    (isReceiver : state.contexts.lists.get? qualified.context = some receiving)
    (isSelected : state.contexts.lists.get? context = some (selector.calleeList list
      (.callSite call.site) (some (receiving, .receiver qualified.object)))) :
    state.contextList context =
      selector.receiverList (state.contextList call.context) call.site (state.origin number) := by
  have isObject : state.heap.qualifiedObject number = qualified := by
    simp [Heap.qualifiedObject, isQualified]
  have isContext : state.contextList qualified.context = receiving.map state.item := by
    rw [contextList, Contexts.get_of_get? isReceiver]
  rw [contextList_calleeList isCaller isSelected]
  simp only [Selector.receiverList, origin, Heap.objectOf, isObject, isContext, Option.map_some,
    item]

/-- What the number of an object's context stands for. -/
theorem contextList_heapList {context allocating : ContextId} {list : List ContextElement}
    (isContext : state.contexts.lists.get? context = some list)
    (isSelected : state.contexts.lists.get? allocating = some (selector.heapList list)) :
    state.contextList allocating = selector.heapList (state.contextList context) := by
  unfold contextList
  rw [Contexts.get_of_get? isContext, Contexts.get_of_get? isSelected, Selector.map_heapList]

/-- Selecting the context of a callee. -/
theorem keeps_calleeContext (selector : Selector) (receiver : Option QualifiedObject)
    (lawful : Lawful program facts state) (knownCall : call.context < state.contexts.lists.size)
    (knownReceiver : ∀ object, receiver = some object →
      object.context < state.contexts.lists.size ∧ object.object < state.heap.objects.length) :
    Keeps program facts state
        { state with contexts := (selector.calleeContext state.contexts call receiver).2 } ∧
      ∃ caller, state.contexts.lists.get? call.context = some caller ∧
        (selector.calleeContext state.contexts call receiver).2.lists.get?
            (selector.calleeContext state.contexts call receiver).1 =
          some (selector.calleeList caller (.callSite call.site) (receiver.map fun object =>
            (state.contexts.get object.context, .receiver object.object))) := by
  have numbered := lawful.numbered
  obtain ⟨caller, isCaller⟩ := ArrivalSet.exists_get? knownCall
  rw [Selector.calleeContext_eq numbered.emptyContext isCaller]
  refine ⟨keeps_context lawful ?_, caller, isCaller, Contexts.get?_intern⟩
  intro object isIn
  rcases Selector.mem_calleeList isIn with isOld | isCall | ⟨entry, isEntry, isReceiver⟩
  · exact numbered.receivers (ArrivalSet.mem_of_get? isCaller) isOld
  · cases isCall
  · obtain ⟨qualified, isQualified, rfl⟩ := Option.map_eq_some_iff.mp isEntry
    obtain ⟨knownContext, knownObject⟩ := knownReceiver qualified isQualified
    rcases isReceiver with isOld | isLast
    · obtain ⟨list, isList⟩ := ArrivalSet.exists_get? knownContext
      rw [Contexts.get_of_get? isList] at isOld
      exact numbered.receivers (ArrivalSet.mem_of_get? isList) isOld
    · cases isLast
      exact knownObject

/-- Selecting the context of an object. -/
theorem keeps_heapContext (selector : Selector) (lawful : Lawful program facts state)
    {context : ContextId} (known : context < state.contexts.lists.size) :
    Keeps program facts state
        { state with contexts := (selector.heapContext state.contexts context).2 } ∧
      ∃ list, state.contexts.lists.get? context = some list ∧
        (selector.heapContext state.contexts context).2.lists.get?
            (selector.heapContext state.contexts context).1 = some (selector.heapList list) := by
  have numbered := lawful.numbered
  obtain ⟨list, isContext⟩ := ArrivalSet.exists_get? known
  rw [Selector.heapContext_eq numbered.emptyContext isContext]
  refine ⟨keeps_context lawful ?_, list, isContext, Contexts.get?_intern⟩
  intro object isIn
  exact numbered.receivers (ArrivalSet.mem_of_get? isContext) (Selector.mem_heapList isIn)

/-- A flow between known pointers that some findings contain is the same flow in a
larger state. -/
theorem Grows.flows_mem (grows : Grows old new) (numbered : Numbered program old)
    {source target : Pointer} (knownSource : old.Knows source) (knownTarget : old.Knows target)
    (isFact : .flows (old.place source) (old.place target) ∈ facts) :
    .flows (new.place source) (new.place target) ∈ facts := by
  rw [grows.place_eq numbered knownSource, grows.place_eq numbered knownTarget]
  exact isFact

/-- Passing arguments connects each to its parameter. -/
theorem keeps_passArguments (closed : Closed program selector facts)
    (lawful : Lawful program facts state) (arguments : List VarId)
    (knownCall : call.context < state.contexts.lists.size)
    (knownCallee : callee.context < state.contexts.lists.size)
    (areFacts : ∀ entry ∈ arguments.zip (program.methodDef callee.method).params,
      program.isReference entry.2 = true →
        .flows (state.place (.var entry.1 call.context))
          (state.place (.var entry.2 callee.context)) ∈ facts) :
    Keeps program facts state (passArguments program state call arguments callee) ∧
      (passArguments program state call arguments callee).ArgumentsDone program call arguments
        callee := by
  refine Keeps.foldl (fun (entry : VarId × VarId) state => program.isReference entry.2 = true →
    state.Connected (.var entry.1 call.context) (.var entry.2 callee.context)) lawful
    (fun grows done isReference => grows.connected (done isReference)) ?_
  intro middle keeps entry isEntry
  exact keeps_connectIf closed keeps.lawful (keeps.toGrows.contexts_size knownCall)
    (keeps.toGrows.contexts_size knownCallee)
    fun isReference => keeps.toGrows.flows_mem lawful.numbered knownCall knownCallee
      (areFacts entry isEntry isReference)

/-- Passing a result connects to it every variable that the callee returns. -/
theorem keeps_passResult (closed : Closed program selector facts)
    (lawful : Lawful program facts state) (result : Option VarId)
    (knownCall : call.context < state.contexts.lists.size)
    (knownCallee : callee.context < state.contexts.lists.size)
    (areFacts : ∀ var, result = some var → program.isReference var = true →
      ∀ value ∈ (program.methodDef callee.method).returned,
        .flows (state.place (.var value callee.context))
          (state.place (.var var call.context)) ∈ facts) :
    Keeps program facts state (passResult program state call result callee) ∧
      (passResult program state call result callee).ResultDone program call result callee := by
  unfold passResult
  split
  case h_1 =>
      refine ⟨.refl lawful, ?_⟩
      intro var isResult
      cases isResult
  case h_2 result =>
      split
      case isFalse notReference =>
          refine ⟨.refl lawful, ?_⟩
          intro var isResult isReference
          cases isResult
          exact absurd isReference notReference
      case isTrue isReference =>
          have met := keeps_pointer lawful
            (show state.Knows (.var result call.context) from knownCall)
          have each : ∀ middle, Keeps program facts (state.meet (.var result call.context)) middle →
              ∀ value ∈ (program.methodDef callee.method).returned,
              Keeps program facts middle
                  (middle.connect (.var value callee.context) (.var result call.context)) ∧
                (middle.connect (.var value callee.context) (.var result call.context)).Connected
                  (.var value callee.context) (.var result call.context) := by
            intro middle keeps value isReturned
            have grows := met.toGrows.trans keeps.toGrows
            exact keeps_connect closed keeps.lawful (grows.contexts_size knownCallee)
              (grows.contexts_size knownCall)
              (grows.flows_mem lawful.numbered knownCallee knownCall
                (areFacts result rfl isReference value isReturned))
          obtain ⟨passed, areConnected⟩ := Keeps.foldl (fun value state =>
            state.Connected (.var value callee.context) (.var result call.context)) met.lawful
            (fun grows done => grows.connected done) each
          refine ⟨met.trans passed, ?_⟩
          intro var isResult _ value isReturned
          cases isResult
          exact areConnected value isReturned

/-- Recording a call edge that some findings contain. -/
theorem lawful_addEdge (lawful : Lawful program facts state)
    (edge : CallEdge QualifiedSite QualifiedMethod)
    (knownSite : edge.site.context < state.contexts.lists.size)
    (knownCallee : edge.callee.context < state.contexts.lists.size)
    (isFact : .calls edge.kind (state.contextList edge.site.context) edge.site.site
      (state.activation edge.callee) ∈ facts) :
    Grows state { state with calls := (state.calls.addEdge edge).2 } ∧
      Lawful program facts { state with calls := (state.calls.addEdge edge).2 } := by
  have sameReachable : (state.calls.addEdge edge).2.reachable = state.calls.reachable :=
    CallGraph.reachable_addEdge _
  have scheduled {method : QualifiedMethod} :
      ({ state with calls := (state.calls.addEdge edge).2 } : State).Scheduled method ↔
        state.Scheduled method := by
    simp only [Scheduled, sameReachable]
  refine ⟨⟨List.prefix_refl _, List.prefix_refl _, List.prefix_refl _, List.prefix_refl _, id,
    List.Subset.refl _, ?_, ?_, id, scheduled.mpr⟩,
    ⟨lawful.numbered.of_same rfl rfl rfl, ⟨lawful.justified.delivered, ?_,
      lawful.justified.edges, ?_⟩, lawful.flowing⟩⟩
  · rw [sameReachable]
    exact List.Subset.refl _
  · intro other isEdge
    exact (CallGraph.mem_addEdge _).mpr (Or.inl isEdge)
  · intro method isScheduled
    exact lawful.justified.scheduled (scheduled.mp isScheduled)
  · intro other isEdge
    rcases (CallGraph.mem_addEdge _).mp isEdge with isOld | rfl
    · exact lawful.justified.calls isOld
    · exact ⟨knownSite, knownCallee, isFact⟩

/-- Scheduling the callee of a call, and connecting it to the call. -/
theorem keeps_callee (closed : Closed program selector facts)
    (lawful : Lawful program facts state) (isCall : program.stmt call.site = .call invoke)
    (knownCall : call.context < state.contexts.lists.size)
    (knownCallee : callee.context < state.contexts.lists.size)
    (isFact : .calls invoke.kind (state.contextList call.context) call.site
      (state.activation callee) ∈ facts) :
    Keeps program facts state
        (passResult program (passArguments program (state.schedule (.method callee)) call
          invoke.args callee) call invoke.result callee) ∧
      (passResult program (passArguments program (state.schedule (.method callee)) call
        invoke.args callee) call invoke.result callee).LinkDone program
          ⟨invoke.kind, call, callee⟩ := by
  have called : Keeps program facts state (state.schedule (.method callee)) :=
    keeps_schedule _ lawful ⟨knownCallee, closed.callee isFact⟩
  obtain ⟨passed, argumentsDone⟩ := keeps_passArguments closed called.lawful invoke.args knownCall
    knownCallee fun entry isEntry isReference =>
      closed.argument isFact isCall isEntry isReference
  have throughArguments := called.trans passed
  obtain ⟨returned, resultDone⟩ := keeps_passResult closed passed.lawful invoke.result
    (throughArguments.toGrows.contexts_size knownCall)
    (throughArguments.toGrows.contexts_size knownCallee)
    fun var isResult isReference value isReturned =>
      throughArguments.toGrows.flows_mem lawful.numbered
        (show state.Knows (.var value callee.context) from knownCallee)
        (show state.Knows (.var var call.context) from knownCall)
        (closed.result isFact isCall isResult isReference isReturned)
  refine ⟨throughArguments.trans returned, ?_, ?_⟩
  · exact (passed.toGrows.trans returned.toGrows).scheduled scheduled_schedule
  · intro other isOther
    cases isCall.symm.trans isOther
    exact ⟨returned.toGrows.argumentsDone argumentsDone, resultDone⟩

/-- Linking a call to a method that it may run. -/
theorem advances_link (callee : QualifiedMethod) (closed : Closed program selector facts)
    (lawful : Lawful program facts state) (isCall : program.stmt call.site = .call invoke)
    (knownCall : call.context < state.contexts.lists.size)
    (knownCallee : callee.context < state.contexts.lists.size)
    (isFact : .calls invoke.kind (state.contextList call.context) call.site
      (state.activation callee) ∈ facts) :
    Advances program selector facts state (link program state call invoke callee) ∧
      ⟨invoke.kind, call, callee⟩ ∈ (link program state call invoke callee).calls.edges := by
  by_cases isOld : ⟨invoke.kind, call, callee⟩ ∈ state.calls.edges
  case pos =>
      have unchanged : link program state call invoke callee = state := by
        simp [link, CallGraph.addEdge, isOld]
      rw [unchanged]
      exact ⟨.refl lawful, isOld⟩
  case neg =>
      have isLink : link program state call invoke callee =
          passResult program (passArguments program
            (({ state with calls := (state.calls.addEdge ⟨invoke.kind, call, callee⟩).2 } :
              State).schedule (.method callee)) call invoke.args callee) call invoke.result
                callee := by
        simp [link, CallGraph.addEdge, isOld]
      rw [isLink]
      obtain ⟨grows, recorded⟩ :=
        lawful_addEdge lawful ⟨invoke.kind, call, callee⟩ knownCall knownCallee isFact
      obtain ⟨keeps, linkDone⟩ :=
        keeps_callee closed recorded isCall knownCall knownCallee isFact
      refine ⟨⟨grows.trans keeps.toGrows, keeps.lawful, ?_, ?_, ?_⟩, ?_⟩
      · intro edge isEdge
        rw [keeps.sameCalls] at isEdge
        rcases (CallGraph.mem_addEdge _).mp isEdge with isKnown | rfl
        · exact Or.inl isKnown
        · exact Or.inr linkDone
      · intro method isReachable
        rw [keeps.sameCalls] at isReachable
        exact Or.inl (by rwa [CallGraph.reachable_addEdge] at isReachable)
      · intro id var context object isHeld _
        exact Or.inl (by rwa [FlowGraph.objects, keeps.sameHeld] at isHeld)
      · rw [keeps.sameCalls]
        exact (CallGraph.mem_addEdge _).mpr (Or.inr rfl)

/-- Resolving a static call. -/
theorem advances_callStatic (closed : Closed program selector facts)
    (lawful : Lawful program facts state) (isCall : program.stmt call.site = .call invoke)
    (isStatic : invoke.kind = .static) (knownCall : call.context < state.contexts.lists.size)
    (isReachable : .reachable ⟨state.contextList call.context, call.site.method⟩ ∈ facts) :
    Advances program selector facts state (callStatic program selector state call invoke) ∧
      (callStatic program selector state call invoke).StaticCallDone program selector call
        invoke := by
  unfold callStatic
  split
  case h_1 missing =>
      refine ⟨.refl lawful, ?_⟩
      intro method isTarget
      rw [missing] at isTarget
      cases isTarget
  case h_2 method dispatched =>
      obtain ⟨selected, caller, isCaller, isSelected⟩ :=
        keeps_calleeContext selector none lawful knownCall (by simp)
      have isList := contextList_calleeList (selected.toGrows.context? isCaller) isSelected
      have isFact := closed.staticCall isReachable isCall isStatic dispatched
      rw [Selector.staticList,
        ← selected.toGrows.contextList_eq lawful.numbered knownCall] at isFact
      obtain ⟨linked, isEdge⟩ := advances_link
        ⟨(selector.calleeContext state.contexts call none).1, method⟩ closed selected.lawful isCall
        (selected.toGrows.contexts_size knownCall) (ArrivalSet.lt_size isSelected) (by
          rw [isStatic, activation, isList]
          exact isFact)
      refine ⟨selected.advances.trans linked, ?_⟩
      intro other isTarget
      cases dispatched.symm.trans isTarget
      exact ⟨_, caller, isEdge,
        (selected.toGrows.trans linked.toGrows).context? isCaller,
        linked.toGrows.context? isSelected⟩

/-- An object is of the type that it is allocated with. -/
theorem Numbered.typeOf_eq (numbered : Numbered program state) {number : QualifiedId}
    (known : number < state.heap.qualified.size) :
    state.heap.typeOf number = allocatedTy program (state.origin number).site := by
  have inUse := (numbered.qualifiedObject known).2
  have isObject : state.heap.object (state.heap.objectOf number) ∈ state.heap.objects := by
    rw [Heap.object, Heap.objectOf, List.getD_eq_getElem?_getD, List.getElem?_eq_getElem inUse]
    exact List.getElem_mem inUse
  obtain ⟨target, isNew⟩ := numbered.allocated isObject
  simp only [Heap.typeOf, origin, allocatedTy, isNew]

/-- A method that is called on an object gets it. -/
theorem keeps_this (method : MethodId) (lawful : Lawful program facts state)
    {number : QualifiedId} {context : ContextId} (known : number < state.heap.qualified.size)
    (knownContext : context < state.contexts.lists.size)
    (areFacts : ∀ this, (program.methodDef method).this = some this →
      .holds (.var this (state.contextList context)) (state.origin number) ∈ facts) :
    Keeps program facts state (match (program.methodDef method).this with
        | some this => state.send number (.var this context)
        | none => state) ∧
      ∀ this, (program.methodDef method).this = some this →
        (match (program.methodDef method).this with
          | some this => state.send number (.var this context)
          | none => state).Sent number (.var this context) := by
  cases isThis : (program.methodDef method).this with
  | none => exact ⟨.refl lawful, by simp⟩
  | some this =>
      obtain ⟨keeps, isSent⟩ := keeps_send lawful
        (show state.Knows (.var this context) from knownContext)
        ⟨known, areFacts this isThis⟩
      refine ⟨keeps, ?_⟩
      intro other isOther
      cases isOther
      exact isSent

/-- Resolving a call on an object that its receiver holds. -/
theorem advances_callOn (closed : Closed program selector facts)
    (lawful : Lawful program facts state) (isCall : program.stmt call.site = .call invoke)
    {receiver : VarId} (isReceiver : invoke.receiver = some receiver)
    (knownCall : call.context < state.contexts.lists.size) {number : QualifiedId}
    (known : number < state.heap.qualified.size)
    (isHeld :
      .holds (.var receiver (state.contextList call.context)) (state.origin number) ∈ facts) :
    Advances program selector facts state (callOn program selector state number call invoke) ∧
      (callOn program selector state number call invoke).CallDone program selector number call := by
  have numbered := lawful.numbered
  have inUse := numbered.qualifiedObject known
  obtain ⟨qualified, isQualified⟩ := ArrivalSet.exists_get? known
  have isQualifiedObject : state.heap.qualifiedObject number = qualified := by
    simp [Heap.qualifiedObject, isQualified]
  rw [isQualifiedObject] at inUse
  obtain ⟨object, isObject⟩ : ∃ object, state.heap.objects[qualified.object]? = some object :=
    ⟨_, List.getElem?_eq_getElem inUse.2⟩
  have isTy : state.heap.typeOf number = object.ty := by
    simp [Heap.typeOf, Heap.object, Heap.objectOf, isQualifiedObject, isObject]
  unfold callOn
  split
  case h_1 missing =>
      refine ⟨.refl lawful, ?_⟩
      intro other isOther
      cases isCall.symm.trans isOther
      refine ⟨qualified, object, isQualified, isObject, ?_⟩
      intro method isTarget
      rw [isTy] at missing
      cases missing.symm.trans isTarget
  case h_2 method isTarget =>
      have resolves := target?_eq_some_iff.mp isTarget
      rw [numbered.typeOf_eq known] at resolves
      rw [isQualifiedObject]
      obtain ⟨selected, caller, isCaller, isSelected⟩ :=
        keeps_calleeContext selector (some qualified) lawful knownCall (by
          intro object isSome
          cases isSome
          exact inUse)
      obtain ⟨receiving, isReceiving⟩ := ArrivalSet.exists_get? inUse.1
      rw [Option.map_some, Contexts.get_of_get? isReceiving] at isSelected
      have knownSelected := ArrivalSet.lt_size isSelected
      have isList := contextList_receiverList (selected.toGrows.qualified? isQualified)
        (selected.toGrows.context? isCaller) (selected.toGrows.context? isReceiving) isSelected
      have sameCaller := selected.toGrows.contextList_eq numbered knownCall
      have sameOrigin := selected.toGrows.origin_eq numbered known
      obtain ⟨received, isSent⟩ := keeps_this method selected.lawful known knownSelected (by
        intro this isThis
        rw [isList, sameCaller, sameOrigin]
        exact closed.this isHeld isCall isReceiver resolves isThis)
      have throughThis := selected.trans received
      obtain ⟨linked, isEdge⟩ := advances_link
        ⟨(selector.calleeContext state.contexts call (some qualified)).1, method⟩ closed
        received.lawful isCall (throughThis.toGrows.contexts_size knownCall)
        (received.toGrows.contexts_size knownSelected) (by
          rw [throughThis.toGrows.contextList_eq numbered knownCall,
            received.toGrows.activation_eq selected.lawful.numbered knownSelected, activation,
            isList, sameCaller, sameOrigin]
          exact closed.instanceCall isHeld isCall isReceiver resolves)
      refine ⟨throughThis.advances.trans linked, ?_⟩
      intro other isOther
      cases isCall.symm.trans isOther
      have grows := throughThis.toGrows.trans linked.toGrows
      refine ⟨qualified, object, grows.qualified? isQualified, grows.object? isObject, ?_⟩
      intro otherMethod isOtherTarget
      rw [isTy] at isTarget
      cases isTarget.symm.trans isOtherTarget
      exact ⟨_, caller, receiving, isEdge,
        fun this isThis => linked.toGrows.sent (isSent this isThis),
        grows.context? isCaller, grows.context? isReceiving,
        (received.toGrows.trans linked.toGrows).context? isSelected⟩

end State

end TacAnalysis.PointsTo
