/-
# Doing the work of a points-to analysis

Every piece of work leaves a state lawful, and whatever it adds has been dealt
with when it is done: a new call edge has been linked, the statements of a newly
reachable method processed, and so have the accesses and calls through a variable
that an object has newly reached.
-/

import TacAnalysis.Proofs.PointsTo.Linking

namespace TacAnalysis

/-- The variable holding the object whose field or element a statement accesses. -/
def Stmt.base? : Stmt → Option VarId
  | loadField _ base _ | storeField base _ _ => base
  | loadArray _ base _ | storeArray base _ _ => some base
  | _ => none

namespace PointsTo.State

variable {program : Program} {selector : Selector} {facts : Set Finding}
variable {state old new : State} {point : QualifiedSite}

/-- The accesses through a variable are the statements that it is the base of. -/
theorem mem_accessesThrough {var : VarId} {site : Site} :
    site ∈ accessesThrough program var ↔ (program.stmt site).base? = some var := by
  simp only [accessesThrough, Program.fieldStores, Program.fieldLoads, Program.arrayStores,
    Program.arrayLoads, Program.sitesThrough, List.mem_append, Program.mem_accesses]
  cases program.stmt site <;> simp [Stmt.base?, Stmt.access?]

/-- The calls on a variable are the statements that call with it as the receiver. -/
theorem mem_callsOn {var : VarId} {site : Site} :
    site ∈ program.callsOn var ↔
      ∃ invoke, program.stmt site = .call invoke ∧ invoke.receiver = some var := by
  rw [Program.callsOn, Program.sitesThrough, Program.mem_accesses]
  cases program.stmt site <;> simp [Stmt.access?]

/-- What an object and its number stand for. -/
theorem origin_of_get? {number : QualifiedId} {qualified : QualifiedObject}
    {object : AbstractObject} (isQualified : state.heap.qualified.get? number = some qualified)
    (isObject : state.heap.objects[qualified.object]? = some object) :
    state.origin number = ⟨state.contextList qualified.context, object.site⟩ := by
  simp [origin, Heap.objectOf, Heap.qualifiedObject, Heap.object, isQualified, isObject]

/-- Processing an allocation is numbering the object in its context, then sending
it. -/
theorem exists_allocate (selector : Selector) (lawful : Lawful program facts state)
    {target : VarId} {ty : Ty} (isNew : program.stmt point.site = .new target ty)
    (known : point.context < state.contexts.lists.size) :
    ∃ middle number qualified object list, Keeps program facts state middle ∧
      state.allocate selector point.context point.site target ty =
        middle.send number (.var target point.context) ∧
      middle.heap.qualified.get? number = some qualified ∧
      middle.heap.objects[qualified.object]? = some object ∧ object.site = point.site ∧
      middle.contexts.lists.get? point.context = some list ∧
      middle.contexts.lists.get? qualified.context = some (selector.heapList list) := by
  obtain ⟨allocated, object, isObject, atSite⟩ := keeps_object lawful isNew
  obtain ⟨selected, list, isContext, isSelected⟩ :=
    keeps_heapContext selector allocated.lawful known
  have qualified := keeps_qualified selected.lawful (ArrivalSet.lt_size isSelected)
    (List.getElem?_eq_some_iff.mp isObject).1
  exact ⟨_, _, _, object, list, (allocated.trans selected).trans qualified, rfl,
    ArrivalSet.get?_intern, isObject, atSite, (selected.trans qualified).toGrows.context? isContext,
    isSelected⟩

/-- Processing an allocation. -/
theorem keeps_allocate (closed : Closed program selector facts)
    (lawful : Lawful program facts state) {target : VarId} {ty : Ty}
    (isNew : program.stmt point.site = .new target ty)
    (known : point.context < state.contexts.lists.size)
    (isReachable : .reachable ⟨state.contextList point.context, point.site.method⟩ ∈ facts) :
    Keeps program facts state
        (state.allocate selector point.context point.site target ty) ∧
      (state.allocate selector point.context point.site target ty).Allocated selector point
        target := by
  obtain ⟨middle, number, qualified, object, list, numbering, isSend, isQualified, isObject, atSite,
    isContext, isSelected⟩ := exists_allocate selector lawful isNew known
  have isFact := closed.allocation isReachable isNew
  rw [← numbering.toGrows.contextList_eq lawful.numbered known,
    ← contextList_heapList isContext isSelected, ← atSite,
    ← origin_of_get? isQualified isObject] at isFact
  obtain ⟨sent, isSent⟩ := keeps_send numbering.lawful
    (show middle.Knows (.var target point.context) from numbering.toGrows.contexts_size known)
    ⟨ArrivalSet.lt_size isQualified, isFact⟩
  rw [isSend]
  exact ⟨numbering.trans sent, number, qualified, object, list, isSent,
    sent.toGrows.qualified? isQualified, sent.toGrows.object? isObject, atSite,
    sent.toGrows.context? isContext, sent.toGrows.context? isSelected⟩

/-- Processing a statement of a reachable method. -/
theorem advances_visitStmt (closed : Closed program selector facts)
    (lawful : Lawful program facts state) (known : point.context < state.contexts.lists.size)
    (isReachable : .reachable ⟨state.contextList point.context, point.site.method⟩ ∈ facts) :
    Advances program selector facts state (visitStmt program selector state point) ∧
      (visitStmt program selector state point).StmtDone program selector point := by
  unfold visitStmt StmtDone
  cases isStmt : program.stmt point.site with
  | new target ty =>
      obtain ⟨keeps, done⟩ := keeps_allocate closed lawful isStmt known isReachable
      exact ⟨keeps.advances, done⟩
  | copy target source =>
      obtain ⟨keeps, done⟩ := keeps_connectIf closed lawful
        (show state.Knows (.var source point.context) from known)
        (show state.Knows (.var target point.context) from known)
        (closed.copy isReachable isStmt)
      exact ⟨keeps.advances, done⟩
  | cast target ty source =>
      obtain ⟨keeps, done⟩ := keeps_connectIf closed lawful
        (show state.Knows (.var source point.context) from known)
        (show state.Knows (.var target point.context) from known)
        (closed.cast isReachable isStmt)
      exact ⟨keeps.advances, done⟩
  | loadField target base field =>
      cases base with
      | none =>
          obtain ⟨keeps, done⟩ := keeps_connectIf closed lawful
            (show state.Knows (.staticField field) from trivial)
            (show state.Knows (.var target point.context) from known)
            (closed.staticLoad isReachable isStmt)
          exact ⟨keeps.advances, done⟩
      | some base => exact ⟨.refl lawful, trivial⟩
  | storeField base field source =>
      cases base with
      | none =>
          obtain ⟨keeps, done⟩ := keeps_connectIf closed lawful
            (show state.Knows (.var source point.context) from known)
            (show state.Knows (.staticField field) from trivial)
            (closed.staticStore isReachable isStmt)
          exact ⟨keeps.advances, done⟩
      | some base => exact ⟨.refl lawful, trivial⟩
  | call invoke =>
      by_cases isStatic : invoke.kind = .static
      · simp only [isStatic, if_true]
        obtain ⟨advances, done⟩ :=
          advances_callStatic closed lawful isStmt isStatic known isReachable
        exact ⟨advances, fun _ => done⟩
      · simp only [isStatic, if_false]
        exact ⟨.refl lawful, fun same => absurd same (by simp)⟩
  | _ => exact ⟨.refl lawful, trivial⟩

/-- Processing an access to an object that the base of the access holds. -/
theorem keeps_visitAccess (closed : Closed program selector facts)
    (lawful : Lawful program facts state) (known : point.context < state.contexts.lists.size)
    {base : VarId} (isBase : (program.stmt point.site).base? = some base) {number : QualifiedId}
    (knownObject : number < state.heap.qualified.size)
    (isHeld : .holds (.var base (state.contextList point.context)) (state.origin number) ∈ facts) :
    Keeps program facts state (visitAccess program state number point) ∧
      (visitAccess program state number point).AccessDone program number point := by
  unfold visitAccess AccessDone
  cases isStmt : program.stmt point.site with
  | storeField accessed field source =>
      rw [isStmt] at isBase
      cases (show accessed = some base from isBase)
      exact keeps_connectIf closed lawful
        (show state.Knows (.var source point.context) from known)
        (show state.Knows (.instanceField number field) from knownObject)
        (closed.fieldStore isHeld isStmt)
  | loadField target accessed field =>
      rw [isStmt] at isBase
      cases (show accessed = some base from isBase)
      exact keeps_connectIf closed lawful
        (show state.Knows (.instanceField number field) from knownObject)
        (show state.Knows (.var target point.context) from known)
        (closed.fieldLoad isHeld isStmt)
  | storeArray accessed index source =>
      rw [isStmt] at isBase
      cases isBase
      exact keeps_connectIf closed lawful
        (show state.Knows (.var source point.context) from known)
        (show state.Knows (.elements number) from knownObject)
        (closed.elementStore isHeld isStmt)
  | loadArray target accessed index =>
      rw [isStmt] at isBase
      cases isBase
      exact keeps_connectIf closed lawful
        (show state.Knows (.elements number) from knownObject)
        (show state.Knows (.var target point.context) from known)
        (closed.elementLoad isHeld isStmt)
  | _ => exact ⟨.refl lawful, trivial⟩

/-- An object that some findings put into a known variable is still there in a
larger state. -/
theorem Grows.held_mem (grows : Grows old new) (numbered : Numbered program old) {var : VarId}
    {context : ContextId} (known : context < old.contexts.lists.size) {number : QualifiedId}
    (knownObject : number < old.heap.qualified.size)
    (isHeld : .holds (.var var (old.contextList context)) (old.origin number) ∈ facts) :
    .holds (.var var (new.contextList context)) (new.origin number) ∈ facts := by
  rw [grows.contextList_eq numbered known, grows.origin_eq numbered knownObject]
  exact isHeld

/-- Processing the accesses through a variable, for an object that it holds. -/
theorem keeps_visitAccesses (closed : Closed program selector facts)
    (lawful : Lawful program facts state) {var : VarId} {context : ContextId}
    (known : context < state.contexts.lists.size) {number : QualifiedId}
    (knownObject : number < state.heap.qualified.size)
    (isHeld : .holds (.var var (state.contextList context)) (state.origin number) ∈ facts) :
    Keeps program facts state ((accessesThrough program var).foldl
        (fun state site => visitAccess program state number ⟨context, site⟩) state) ∧
      ∀ site ∈ accessesThrough program var, ((accessesThrough program var).foldl
        (fun state site => visitAccess program state number ⟨context, site⟩) state).AccessDone
          program number ⟨context, site⟩ := by
  refine Keeps.foldl (fun site state => state.AccessDone program number ⟨context, site⟩) lawful
    (fun grows done => grows.accessDone done) ?_
  intro middle keeps site isAccess
  exact keeps_visitAccess closed keeps.lawful (keeps.toGrows.contexts_size known)
    (mem_accessesThrough.mp isAccess) (keeps.toGrows.qualified_size knownObject)
    (keeps.toGrows.held_mem lawful.numbered known knownObject isHeld)

/-- Resolving the calls through a variable, for an object that it holds. -/
theorem advances_visitCalls (closed : Closed program selector facts)
    (lawful : Lawful program facts state) {var : VarId} {context : ContextId}
    (known : context < state.contexts.lists.size) {number : QualifiedId}
    (knownObject : number < state.heap.qualified.size)
    (isHeld : .holds (.var var (state.contextList context)) (state.origin number) ∈ facts) :
    Advances program selector facts state ((program.callsOn var).foldl
        (fun state site => visitCall program selector state number ⟨context, site⟩) state) ∧
      ∀ site ∈ program.callsOn var, ((program.callsOn var).foldl
        (fun state site => visitCall program selector state number ⟨context, site⟩) state).CallDone
          program selector number ⟨context, site⟩ := by
  refine Advances.foldl (fun site state => state.CallDone program selector number ⟨context, site⟩)
    lawful (fun grows done => grows.callDone done) ?_
  intro middle advances site isCallOn
  obtain ⟨invoke, isCall, isReceiver⟩ := mem_callsOn.mp isCallOn
  have isVisit : visitCall program selector middle number ⟨context, site⟩ =
      callOn program selector middle number ⟨context, site⟩ invoke := by
    simp only [visitCall, isCall]
  rw [isVisit]
  exact advances_callOn closed advances.lawful isCall isReceiver
    (advances.toGrows.contexts_size known) (advances.toGrows.qualified_size knownObject)
    (advances.toGrows.held_mem lawful.numbered known knownObject isHeld)

/-- Processing the accesses and calls through a variable, for an object that it
holds. -/
theorem advances_visitObject (closed : Closed program selector facts)
    (lawful : Lawful program facts state) {var : VarId} {context : ContextId}
    (known : context < state.contexts.lists.size) {number : QualifiedId}
    (knownObject : number < state.heap.qualified.size)
    (isHeld : .holds (.var var (state.contextList context)) (state.origin number) ∈ facts) :
    Advances program selector facts state
        (visitObject program selector var context state number) ∧
      (visitObject program selector var context state number).ObjectDone program selector var
        context number := by
  obtain ⟨accessed, accessesDone⟩ :=
    keeps_visitAccesses closed lawful known knownObject isHeld
  obtain ⟨called, callsDone⟩ := advances_visitCalls closed accessed.lawful
    (accessed.toGrows.contexts_size known) (accessed.toGrows.qualified_size knownObject)
    (accessed.toGrows.held_mem lawful.numbered known knownObject isHeld)
  refine ⟨accessed.advances.trans called, ?_, callsDone⟩
  intro site isAccess
  exact called.toGrows.accessDone (accessesDone site isAccess)

/-- Processing several objects that a variable holds. -/
theorem advances_visitObjects (closed : Closed program selector facts)
    (lawful : Lawful program facts state) {var : VarId} {context : ContextId}
    (known : context < state.contexts.lists.size) {objects : List QualifiedId}
    (areHeld : ∀ object ∈ objects, state.Allows facts (.var var context) object) :
    Advances program selector facts state
        (objects.foldl (visitObject program selector var context) state) ∧
      ∀ object ∈ objects, (objects.foldl (visitObject program selector var context)
        state).ObjectDone program selector var context object := by
  refine Advances.foldl (fun object state => state.ObjectDone program selector var context object)
    lawful (fun grows done => grows.objectDone done) ?_
  intro middle advances object isIn
  obtain ⟨knownObject, isHeld⟩ := areHeld object isIn
  have grows := advances.toGrows
  exact advances_visitObject closed advances.lawful (grows.contexts_size known)
    (grows.qualified_size knownObject)
    (grows.held_mem lawful.numbered known knownObject isHeld)

/-- Processing the statements of a reachable method. -/
theorem advances_visitStmts (closed : Closed program selector facts)
    (lawful : Lawful program facts state) {method : QualifiedMethod}
    (known : method.context < state.contexts.lists.size)
    (isReachable : .reachable (state.activation method) ∈ facts) :
    Advances program selector facts state ((program.sitesOf method.method).foldl
        (fun state site => visitStmt program selector state ⟨method.context, site⟩) state) ∧
      ((program.sitesOf method.method).foldl
        (fun state site => visitStmt program selector state ⟨method.context, site⟩)
          state).MethodDone program selector method := by
  refine Advances.foldl (fun site state =>
      state.StmtDone program selector ⟨method.context, site⟩) lawful
    (fun grows done => grows.stmtDone done) ?_
  intro middle advances site isSite
  obtain ⟨index, -, rfl⟩ := List.mem_map.mp isSite
  apply advances_visitStmt closed advances.lawful (advances.toGrows.contexts_size known)
  rw [advances.toGrows.contextList_eq lawful.numbered known]
  exact isReachable

/-- A state whose first piece of work has been taken from the worklist. -/
def taken (state : State) (worklist : Worklist) : State :=
  { state with worklist, iterations := state.iterations + 1 }

variable {worklist : Worklist}

/-- Taking a method from the worklist and making it reachable. -/
theorem lawful_addReachable (lawful : Lawful program facts state) {method : QualifiedMethod}
    (isWork : state.worklist.items = .method method :: worklist.items) :
    Grows state { state.taken worklist with calls := (state.calls.addReachable method).2 } ∧
      Lawful program facts
        { state.taken worklist with calls := (state.calls.addReachable method).2 } := by
  have sameEdges : (state.calls.addReachable method).2.edges = state.calls.edges :=
    CallGraph.edges_addReachable _
  have delivered {id : PointerId} {object : QualifiedId} : state.Delivered id object ↔
      ({ state.taken worklist with calls := (state.calls.addReachable method).2 } :
        State).Delivered id object := by
    simp only [Delivered, taken, isWork, List.mem_cons, reduceCtorEq, false_or]
  have scheduled {other : QualifiedMethod} : state.Scheduled other ↔
      ({ state.taken worklist with calls := (state.calls.addReachable method).2 } :
        State).Scheduled other := by
    simp only [Scheduled, taken, isWork, List.mem_cons, WorkItem.method.injEq,
      CallGraph.mem_addReachable, or_assoc]
  refine ⟨⟨List.prefix_refl _, List.prefix_refl _, List.prefix_refl _, List.prefix_refl _, id,
    List.Subset.refl _, ?_, ?_, delivered.mp, scheduled.mp⟩,
    ⟨lawful.numbered.of_same rfl rfl rfl, ⟨?_, ?_, lawful.justified.edges, ?_⟩, ?_⟩⟩
  · intro other isReachable
    exact (CallGraph.mem_addReachable _).mpr (Or.inl isReachable)
  · rw [sameEdges]
    exact List.Subset.refl _
  · intro id object isDelivered
    exact lawful.justified.delivered (delivered.mpr isDelivered)
  · intro other isScheduled
    exact lawful.justified.scheduled (scheduled.mpr isScheduled)
  · intro edge isEdge
    rw [sameEdges] at isEdge
    exact lawful.justified.calls isEdge
  · intro edge object isEdge isHeld
    exact delivered.mp (lawful.flowing isEdge isHeld)

/-- Processing the statements of a method that is recorded as reachable. -/
theorem advances_recorded (closed : Closed program selector facts)
    (lawful : Lawful program facts state) {method : QualifiedMethod}
    (isWork : state.worklist.items = .method method :: worklist.items)
    (isNew : method ∉ state.calls.reachable) :
    Advances program selector facts
        { state.taken worklist with calls := (state.calls.addReachable method).2 }
        (visitMethod program selector (state.taken worklist) method) ∧
      (visitMethod program selector (state.taken worklist) method).MethodDone program selector
        method := by
  obtain ⟨-, recorded⟩ := lawful_addReachable lawful isWork
  obtain ⟨known, isReachable⟩ := recorded.justified.scheduled
    (Or.inl ((CallGraph.mem_addReachable _).mpr (Or.inr rfl)))
  have isVisit : visitMethod program selector (state.taken worklist) method =
      (program.sitesOf method.method).foldl
        (fun state site => visitStmt program selector state ⟨method.context, site⟩)
        { state.taken worklist with calls := (state.calls.addReachable method).2 } := by
    simp [visitMethod, taken, CallGraph.addReachable, CallGraph.contains, isNew]
  rw [isVisit]
  exact advances_visitStmts closed recorded known isReachable

/-- A method that was reachable already is left alone. -/
theorem visitMethod_of_mem {method : QualifiedMethod} (isOld : method ∈ state.calls.reachable) :
    visitMethod program selector (state.taken worklist) method = state.taken worklist := by
  simp [visitMethod, taken, CallGraph.addReachable, CallGraph.contains, isOld]

/-- Processing a method that has been taken from the worklist. -/
theorem advances_visitMethod (closed : Closed program selector facts)
    (lawful : Lawful program facts state) {method : QualifiedMethod}
    (isWork : state.worklist.items = .method method :: worklist.items) :
    Advances program selector facts state
      (visitMethod program selector (state.taken worklist) method) := by
  obtain ⟨grows, recorded⟩ := lawful_addReachable lawful isWork
  have sameEdges : (state.calls.addReachable method).2.edges = state.calls.edges :=
    CallGraph.edges_addReachable _
  by_cases isOld : method ∈ state.calls.reachable
  case pos =>
      have sameCalls : (state.calls.addReachable method).2 = state.calls := by
        simp [CallGraph.addReachable, CallGraph.contains, isOld]
      rw [sameCalls] at grows recorded
      rw [visitMethod_of_mem isOld]
      exact ⟨grows, recorded, fun isEdge => Or.inl isEdge, fun isReachable => Or.inl isReachable,
        fun isHeld _ => Or.inl isHeld⟩
  case neg =>
      obtain ⟨advances, done⟩ := advances_recorded closed lawful isWork isOld
      refine ⟨grows.trans advances.toGrows, advances.lawful, ?_, ?_, ?_⟩
      · intro edge isEdge
        rcases advances.linked isEdge with isOldEdge | isDone
        · exact Or.inl (by rwa [sameEdges] at isOldEdge)
        · exact Or.inr isDone
      · intro other isOther
        rcases advances.visited isOther with isMiddle | isDone
        · rcases (CallGraph.mem_addReachable _).mp isMiddle with isOldMethod | rfl
          · exact Or.inl isOldMethod
          · exact Or.inr done
        · exact Or.inr isDone
      · exact advances.accessed

/-- What passing new objects on does to a state, the work having been taken from
its worklist. -/
structure Passes (id : PointerId) (news : ObjectSet) (worklist : Worklist) (old new : State) :
    Prop where
  contexts : new.contexts = old.contexts
  heap : new.heap = old.heap
  pointers : new.flow.pointers = old.flow.pointers
  edges : new.flow.edges = old.flow.edges
  calls : new.calls = old.calls
  held {other : PointerId} {object : QualifiedId} :
    object ∈ (new.flow.objects other).elements ↔
      object ∈ (old.flow.objects other).elements ∨ other = id ∧ object ∈ news.elements
  work {item : WorkItem} : item ∈ new.worklist.items ↔
    item ∈ worklist.items ∨ news.elements ≠ [] ∧
      ∃ successor ∈ old.flow.successors id, item = .objects successor news

theorem foldl_schedule {Item : Type} (work : Item → WorkItem) (items : List Item) (state : State) :
    items.foldl (fun state item => state.schedule (work item)) state =
      { state with worklist := ⟨state.worklist.items ++ items.map work⟩ } := by
  induction items generalizing state with
  | nil => simp
  | cons item items ih =>
      rw [List.foldl_cons, ih]
      simp [schedule, Worklist.push]

theorem passes_pass (state : State) (id : PointerId) (news : ObjectSet) (worklist : Worklist) :
    Passes id news worklist state ((state.taken worklist).pass id news) := by
  unfold pass
  split
  case isTrue isEmpty =>
      have nothing : news.elements = [] := List.isEmpty_iff.mp isEmpty
      exact ⟨rfl, rfl, rfl, rfl, rfl, by simp [taken, nothing], by simp [taken, nothing]⟩
  case isFalse notEmpty =>
      have something : news.elements ≠ [] := fun nothing => notEmpty (List.isEmpty_iff.mpr nothing)
      rw [foldl_schedule fun successor => .objects successor news]
      refine ⟨rfl, rfl, rfl, rfl, rfl, FlowGraph.mem_objects_hold, ?_⟩
      intro item
      simp [taken, something, eq_comm]

/-- Passing on the objects that a pointer did not hold yet loses nothing. -/
theorem Passes.grows {id : PointerId} {objects : ObjectSet}
    (isWork : old.worklist.items = .objects id objects :: worklist.items)
    (passes : Passes id ((old.flow.objects id).missing objects) worklist old new) :
    Grows old new := by
  refine ⟨?_, ?_, ?_, ?_, fun isHeld => passes.held.mpr (Or.inl isHeld), ?_, ?_, ?_, ?_, ?_⟩
  · exact passes.contexts ▸ List.prefix_refl _
  · exact passes.heap ▸ List.prefix_refl _
  · exact passes.heap ▸ List.prefix_refl _
  · exact passes.pointers ▸ List.prefix_refl _
  · exact passes.edges ▸ List.Subset.refl _
  · exact passes.calls ▸ List.Subset.refl _
  · exact passes.calls ▸ List.Subset.refl _
  · rintro other object (isHeld | ⟨others, isItem, isIn⟩)
    · exact Or.inl (passes.held.mpr (Or.inl isHeld))
    · rw [isWork, List.mem_cons] at isItem
      rcases isItem with isFirst | isLater
      · -- The objects being processed are now held by their pointer.
        cases isFirst
        by_cases isHeld : object ∈ (old.flow.objects id).elements
        · exact Or.inl (passes.held.mpr (Or.inl isHeld))
        · exact Or.inl (passes.held.mpr (Or.inr
            ⟨rfl, ArrivalSet.mem_missing.mpr ⟨isIn, isHeld⟩⟩))
      · exact Or.inr ⟨others, passes.work.mpr (Or.inl isLater), isIn⟩
  · rintro method (isReachable | isItem)
    · exact Or.inl (by rwa [passes.calls])
    · rw [isWork, List.mem_cons] at isItem
      exact Or.inr (passes.work.mpr (Or.inl (isItem.resolve_left nofun)))

/-- What is on its way after objects have been passed on was so before, or comes
from the pointer that they have reached. -/
theorem Passes.delivered {id other : PointerId} {objects : ObjectSet} {object : QualifiedId}
    (isWork : old.worklist.items = .objects id objects :: worklist.items)
    (passes : Passes id ((old.flow.objects id).missing objects) worklist old new)
    (isDelivered : new.Delivered other object) :
    old.Delivered other object ∨
      (id, other) ∈ old.flow.edges.elements ∧ old.Delivered id object := by
  have arriving {object : QualifiedId}
      (isNew : object ∈ ((old.flow.objects id).missing objects).elements) :
      old.Delivered id object := by
    refine Or.inr ⟨objects, ?_, (ArrivalSet.mem_missing.mp isNew).1⟩
    rw [isWork]
    exact List.mem_cons_self
  rcases isDelivered with isHeld | ⟨others, isItem, isIn⟩
  · rcases passes.held.mp isHeld with isOld | ⟨rfl, isNew⟩
    · exact Or.inl (Or.inl isOld)
    · exact Or.inl (arriving isNew)
  · rcases passes.work.mp isItem with isLater | ⟨-, successor, isSuccessor, isSent⟩
    · refine Or.inl (Or.inr ⟨others, ?_, isIn⟩)
      rw [isWork]
      exact List.mem_cons_of_mem _ isLater
    · cases isSent
      exact Or.inr ⟨FlowGraph.mem_successors.mp isSuccessor, arriving isIn⟩

/-- Passing on the objects that a pointer did not hold yet keeps a state lawful. -/
theorem Passes.lawful (closed : Closed program selector facts) (lawful : Lawful program facts old)
    {id : PointerId} {objects : ObjectSet}
    (isWork : old.worklist.items = .objects id objects :: worklist.items)
    (passes : Passes id ((old.flow.objects id).missing objects) worklist old new) :
    Lawful program facts new := by
  have grows := passes.grows isWork
  have numbered := lawful.numbered
  have justified := lawful.justified
  refine ⟨numbered.of_same passes.contexts passes.heap passes.pointers,
    grows.justified_of_delivered numbered justified ?_ ?_ ?_ ?_, ?_⟩
  · intro other object isDelivered
    rcases passes.delivered isWork isDelivered with isOld | ⟨isEdge, isSource⟩
    · obtain ⟨pointer, isPointer, allowed⟩ := justified.delivered isOld
      exact ⟨pointer, grows.pointer? isPointer,
        grows.allows numbered (numbered.knows isPointer) allowed⟩
    · obtain ⟨source, target, atSource, atTarget, isFact⟩ := justified.edges isEdge
      obtain ⟨pointer, isPointer, known, holds⟩ := justified.delivered isSource
      cases isPointer.symm.trans atSource
      exact ⟨target, grows.pointer? atTarget,
        grows.allows numbered (numbered.knows atTarget) ⟨known, closed.flow isFact holds⟩⟩
  · rintro method (isReachable | isItem)
    · exact Or.inl (by rwa [← passes.calls])
    · rcases passes.work.mp isItem with isLater | ⟨-, successor, -, isObjects⟩
      · refine Or.inr ?_
        rw [isWork]
        exact List.mem_cons_of_mem _ isLater
      · cases isObjects
  · exact passes.edges ▸ List.Subset.refl _
  · exact passes.calls ▸ List.Subset.refl _
  · intro edge object isEdge isHeld
    rw [passes.edges] at isEdge
    rcases passes.held.mp isHeld with isOld | ⟨rfl, isNew⟩
    · exact grows.delivered (lawful.flowing isEdge isOld)
    · exact Or.inr ⟨_, passes.work.mpr (Or.inr ⟨List.ne_nil_of_mem isNew, edge.2,
        FlowGraph.mem_successors.mpr isEdge, rfl⟩), isNew⟩

/-- Passing objects on only adds them to what their pointer holds. -/
theorem Passes.advances (closed : Closed program selector facts)
    (lawful : Lawful program facts old) {id : PointerId} {objects : ObjectSet}
    (isWork : old.worklist.items = .objects id objects :: worklist.items)
    (passes : Passes id ((old.flow.objects id).missing objects) worklist old middle)
    (advances : Advances program selector facts middle new)
    (done : ∀ var context, middle.flow.pointer? id = some (.var var context) →
      ∀ object ∈ ((old.flow.objects id).missing objects).elements,
        new.ObjectDone program selector var context object) :
    Advances program selector facts old new where
  toGrows := (passes.grows isWork).trans advances.toGrows
  lawful := advances.lawful
  linked isEdge := by
    rw [← passes.calls]
    exact advances.linked isEdge
  visited isReachable := by
    rw [← passes.calls]
    exact advances.visited isReachable
  accessed {number var context object} isHeld isVar := by
    rcases advances.accessed isHeld isVar with isMiddle | isDone
    · rcases passes.held.mp isMiddle with isOld | ⟨rfl, isNew⟩
      · exact Or.inl isOld
      · obtain ⟨pointer, isPointer, -⟩ :=
          (passes.lawful closed lawful isWork).justified.delivered (Or.inl isMiddle)
        cases (advances.toGrows.pointer? isPointer).symm.trans isVar
        exact Or.inr (done var context isPointer object isNew)
    · exact Or.inr isDone

/-- Processing objects that a pointer has been made to hold. -/
theorem advances_passed (closed : Closed program selector facts)
    (lawful : Lawful program facts state) {id : PointerId} {objects : ObjectSet}
    (isWork : state.worklist.items = .objects id objects :: worklist.items) :
    Advances program selector facts
        ((state.taken worklist).pass id ((state.flow.objects id).missing objects))
        (visitPointer program selector (state.taken worklist) id objects) ∧
      ∀ var context, ((state.taken worklist).pass id
          ((state.flow.objects id).missing objects)).flow.pointer? id = some (.var var context) →
        ∀ object ∈ ((state.flow.objects id).missing objects).elements,
          (visitPointer program selector (state.taken worklist) id objects).ObjectDone program
            selector var context object := by
  have passes := passes_pass state id ((state.flow.objects id).missing objects) worklist
  have passedLawful := passes.lawful closed lawful isWork
  unfold visitPointer
  simp only
  split
  case h_1 var context isVar =>
      have known := passedLawful.numbered.knows isVar
      have areHeld : ∀ object ∈ ((state.flow.objects id).missing objects).elements,
          ((state.taken worklist).pass id ((state.flow.objects id).missing objects)).Allows facts
            (.var var context) object := by
        intro object isNew
        obtain ⟨pointer, isPointer, allowed⟩ :=
          passedLawful.justified.delivered (Or.inl (passes.held.mpr (Or.inr ⟨rfl, isNew⟩)))
        cases isPointer.symm.trans isVar
        exact allowed
      obtain ⟨advances, done⟩ := advances_visitObjects closed passedLawful known areHeld
      refine ⟨advances, ?_⟩
      intro other otherContext isOther
      cases isVar.symm.trans isOther
      exact done
  case h_2 notVar =>
      exact ⟨.refl passedLawful, fun var context isVar => absurd isVar (notVar var context)⟩

/-- Objects that a pointer held already are left alone. -/
theorem visitPointer_of_missing_eq_nil {id : PointerId} {objects : ObjectSet}
    (nothing : ((state.flow.objects id).missing objects).elements = []) :
    visitPointer program selector (state.taken worklist) id objects = state.taken worklist := by
  have isPassed : (state.taken worklist).pass id ((state.flow.objects id).missing objects) =
      state.taken worklist := if_pos (List.isEmpty_iff.mpr nothing)
  have sameObjects : (state.taken worklist).flow.objects id = state.flow.objects id := rfl
  unfold visitPointer
  simp only [sameObjects, isPassed, nothing, List.foldl_nil]
  split <;> rfl

/-- Processing objects that have been taken from the worklist. -/
theorem advances_visitPointer (closed : Closed program selector facts)
    (lawful : Lawful program facts state) {id : PointerId} {objects : ObjectSet}
    (isWork : state.worklist.items = .objects id objects :: worklist.items) :
    Advances program selector facts state
      (visitPointer program selector (state.taken worklist) id objects) := by
  obtain ⟨advances, done⟩ := advances_passed closed lawful isWork
  exact (passes_pass state id _ worklist).advances closed lawful isWork advances done

/-- A step takes the first piece of work and does it. -/
theorem exists_of_step (isStep : step? program selector state = some new) :
    ∃ item worklist, state.worklist.items = item :: worklist.items ∧
      new = visit program selector (state.taken worklist) item := by
  obtain ⟨⟨item, worklist⟩, isPop, rfl⟩ := Option.map_eq_some_iff.mp isStep
  refine ⟨item, worklist, ?_, rfl⟩
  unfold Worklist.pop? at isPop
  split at isPop
  case h_1 => cases isPop
  case h_2 first rest isItems =>
      cases isPop
      exact isItems

/-- A step does a piece of work, and deals with whatever it adds. -/
theorem advances_step (closed : Closed program selector facts)
    (lawful : Lawful program facts state) (isStep : step? program selector state = some new) :
    Advances program selector facts state new := by
  obtain ⟨item, worklist, isWork, rfl⟩ := exists_of_step isStep
  cases item with
  | method method => exact advances_visitMethod closed lawful isWork
  | objects id objects => exact advances_visitPointer closed lawful isWork

end PointsTo.State

end TacAnalysis
