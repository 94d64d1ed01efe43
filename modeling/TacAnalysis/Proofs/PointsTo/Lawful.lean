/-
# Lawful states of a points-to analysis

A state is lawful for a set of findings when its numbers are in order, when
everything it records or is about to record is in the set, and when objects have
been sent along every edge from the pointers that hold them. Operations that
change neither what pointers hold nor the call graph keep states lawful, as long
as what they add is in the set.
-/

import TacAnalysis.Proofs.PointsTo.Growth

namespace TacAnalysis

namespace PointsTo.State

/-- A pointer is made of numbers in use. -/
def Knows (state : State) : Pointer → Prop
  | .var _ context => context < state.contexts.lists.size
  | .staticField _ => True
  | .instanceField base _ => base < state.heap.qualified.size
  | .elements array => array < state.heap.qualified.size

/-- The numbers of a state are in order: all are in use, the empty context has its
own, and an object is allocated where the program says. -/
structure Numbered (program : Program) (state : State) : Prop where
  emptyContext : state.contexts.lists.get? Contexts.emptyContext = some []
  receivers {list : List ContextElement} {object : ObjectId} :
    list ∈ state.contexts.lists.elements → .receiver object ∈ list →
    object < state.heap.objects.length
  sites : (state.heap.objects.map AbstractObject.site).Nodup
  allocated {object : AbstractObject} : object ∈ state.heap.objects →
    ∃ target, program.stmt object.site = .new target object.ty
  qualified {object : QualifiedObject} : object ∈ state.heap.qualified.elements →
    object.context < state.contexts.lists.size ∧ object.object < state.heap.objects.length
  pointers {pointer : Pointer} : pointer ∈ state.flow.pointers.elements → state.Knows pointer

/-- Numbers that are in order stay so as long as they are the same. -/
theorem Numbered.of_same {program : Program} {old new : State} (numbered : Numbered program old)
    (contexts : new.contexts = old.contexts) (heap : new.heap = old.heap)
    (pointers : new.flow.pointers = old.flow.pointers) : Numbered program new := by
  have knows {pointer : Pointer} : new.Knows pointer ↔ old.Knows pointer := by
    cases pointer <;> simp only [Knows, contexts, heap]
  refine ⟨?_, ?_, ?_, ?_, ?_, ?_⟩
  · rw [contexts]
    exact numbered.emptyContext
  · rw [contexts, heap]
    exact numbered.receivers
  · rw [heap]
    exact numbered.sites
  · rw [heap]
    exact numbered.allocated
  · rw [contexts, heap]
    exact numbered.qualified
  · intro pointer isPointer
    rw [pointers] at isPointer
    exact knows.mpr (numbered.pointers isPointer)

/-- As long as no more contexts have been met than words can number, those that variables have
been met in fit. -/
theorem Numbered.contextsFit {program : Program} {state : State}
    (numbered : Numbered program state) (few : state.contexts.lists.size ≤ greatestContext + 1) :
    state.flow.ContextsFit := by
  intro pointer isPointer
  have known := numbered.pointers isPointer
  cases pointer with
  | var var context => exact Nat.le_of_lt_succ (Nat.lt_of_lt_of_le known few)
  | staticField | instanceField | elements => exact Nat.zero_le _

/-- A set of findings allows an object in a pointer. -/
def Allows (facts : Set Finding) (state : State) (pointer : Pointer) (object : QualifiedId) :
    Prop :=
  object < state.heap.qualified.size ∧ .holds (state.place pointer) (state.origin object) ∈ facts

/-- What a state records or is about to record is among some findings. -/
structure Justified (facts : Set Finding) (state : State) : Prop where
  delivered {id : PointerId} {object : QualifiedId} : state.Delivered id object →
    ∃ pointer, state.flow.pointer? id = some pointer ∧ state.Allows facts pointer object
  scheduled {method : QualifiedMethod} : state.Scheduled method →
    method.context < state.contexts.lists.size ∧ .reachable (state.activation method) ∈ facts
  edges {edge : PointerId × PointerId} : edge ∈ state.flow.edges.elements →
    ∃ source target, state.flow.pointer? edge.1 = some source ∧
      state.flow.pointer? edge.2 = some target ∧
      .flows (state.place source) (state.place target) ∈ facts
  calls {edge : CallEdge QualifiedSite QualifiedMethod} : edge ∈ state.calls.edges →
    edge.site.context < state.contexts.lists.size ∧
      edge.callee.context < state.contexts.lists.size ∧
      .calls edge.kind (state.contextList edge.site.context) edge.site.site
        (state.activation edge.callee) ∈ facts

/-- A state in order, justified by some findings, in which objects have been sent
along every edge. -/
structure Lawful (program : Program) (facts : Set Finding) (state : State) : Prop where
  numbered : Numbered program state
  justified : Justified facts state
  flowing {edge : PointerId × PointerId} {object : QualifiedId} :
    edge ∈ state.flow.edges.elements → object ∈ (state.flow.objects edge.1).elements →
    state.Delivered edge.2 object

section Views

variable {program : Program} {old new : State}

/-- What a number of the heap stands for does not change. -/
theorem Grows.object_eq (grows : Grows old new) {object : ObjectId}
    (known : object < old.heap.objects.length) :
    new.heap.object object = old.heap.object object := by
  have isObject := List.getElem?_eq_getElem known
  simp only [Heap.object, List.getD_eq_getElem?_getD, isObject, grows.object? isObject]

theorem Grows.contextList_eq (grows : Grows old new) (numbered : Numbered program old)
    {context : ContextId} (known : context < old.contexts.lists.size) :
    new.contextList context = old.contextList context := by
  obtain ⟨list, isContext⟩ := ArrivalSet.exists_get? known
  unfold contextList
  rw [Contexts.get_of_get? isContext, Contexts.get_of_get? (grows.context? isContext)]
  apply List.map_congr_left
  intro element isIn
  cases element with
  | callSite site => rfl
  | receiver object =>
      have inUse := numbered.receivers (ArrivalSet.mem_of_get? isContext) isIn
      simp only [item, grows.object_eq inUse]

theorem Grows.qualifiedObject_eq (grows : Grows old new) {object : QualifiedId}
    (known : object < old.heap.qualified.size) :
    new.heap.qualifiedObject object = old.heap.qualifiedObject object := by
  obtain ⟨qualified, isObject⟩ := ArrivalSet.exists_get? known
  simp only [Heap.qualifiedObject, isObject, grows.qualified? isObject]

theorem Numbered.qualifiedObject (numbered : Numbered program old) {object : QualifiedId}
    (known : object < old.heap.qualified.size) :
    (old.heap.qualifiedObject object).context < old.contexts.lists.size ∧
      (old.heap.qualifiedObject object).object < old.heap.objects.length := by
  obtain ⟨qualified, isObject⟩ := ArrivalSet.exists_get? known
  simp only [Heap.qualifiedObject, isObject, Option.getD_some]
  exact numbered.qualified (ArrivalSet.mem_of_get? isObject)

theorem Grows.origin_eq (grows : Grows old new) (numbered : Numbered program old)
    {object : QualifiedId} (known : object < old.heap.qualified.size) :
    new.origin object = old.origin object := by
  have inUse := numbered.qualifiedObject known
  simp only [origin, Heap.objectOf, grows.qualifiedObject_eq known,
    grows.contextList_eq numbered inUse.1, grows.object_eq inUse.2]

theorem Grows.place_eq (grows : Grows old new) (numbered : Numbered program old)
    {pointer : Pointer} (known : old.Knows pointer) : new.place pointer = old.place pointer := by
  cases pointer with
  | var var context => simp only [place, grows.contextList_eq numbered known]
  | staticField field => rfl
  | instanceField base field => simp only [place, grows.origin_eq numbered known]
  | elements array => simp only [place, grows.origin_eq numbered known]

theorem Grows.activation_eq (grows : Grows old new) (numbered : Numbered program old)
    {method : QualifiedMethod} (known : method.context < old.contexts.lists.size) :
    new.activation method = old.activation method := by
  simp only [activation, grows.contextList_eq numbered known]

theorem Grows.contexts_size (grows : Grows old new) {context : ContextId}
    (known : context < old.contexts.lists.size) : context < new.contexts.lists.size :=
  lt_of_lt_of_le known grows.contexts.length_le

theorem Grows.qualified_size (grows : Grows old new) {object : QualifiedId}
    (known : object < old.heap.qualified.size) : object < new.heap.qualified.size :=
  lt_of_lt_of_le known grows.qualified.length_le

theorem Grows.knows (grows : Grows old new) {pointer : Pointer} (known : old.Knows pointer) :
    new.Knows pointer := by
  cases pointer with
  | var var context => exact grows.contexts_size known
  | staticField field => trivial
  | instanceField base field => exact grows.qualified_size known
  | elements array => exact grows.qualified_size known

theorem Numbered.knows (numbered : Numbered program old) {id : PointerId} {pointer : Pointer}
    (isPointer : old.flow.pointer? id = some pointer) : old.Knows pointer :=
  numbered.pointers (ArrivalSet.mem_of_get? isPointer)

variable {facts : Set Finding}

theorem Grows.allows (grows : Grows old new) (numbered : Numbered program old) {pointer : Pointer}
    {object : QualifiedId} (known : old.Knows pointer) (allowed : old.Allows facts pointer object) :
    new.Allows facts pointer object := by
  refine ⟨grows.qualified_size allowed.1, ?_⟩
  rw [grows.place_eq numbered known, grows.origin_eq numbered allowed.1]
  exact allowed.2

/-- What justifies a state justifies a larger one that records nothing more, when it
justifies what is being sent. -/
theorem Grows.justified_of_delivered (grows : Grows old new) (numbered : Numbered program old)
    (justified : Justified facts old)
    (delivered : ∀ {id object}, new.Delivered id object →
      ∃ pointer, new.flow.pointer? id = some pointer ∧ new.Allows facts pointer object)
    (scheduled : ∀ {method}, new.Scheduled method → old.Scheduled method)
    (edges : new.flow.edges.elements ⊆ old.flow.edges.elements)
    (calls : new.calls.edges ⊆ old.calls.edges) : Justified facts new where
  delivered := delivered
  scheduled isScheduled := by
    obtain ⟨known, isFact⟩ := justified.scheduled (scheduled isScheduled)
    rw [grows.activation_eq numbered known]
    exact ⟨grows.contexts_size known, isFact⟩
  edges isEdge := by
    obtain ⟨source, target, isSource, isTarget, isFact⟩ := justified.edges (edges isEdge)
    refine ⟨source, target, grows.pointer? isSource, grows.pointer? isTarget, ?_⟩
    rw [grows.place_eq numbered (numbered.knows isSource),
      grows.place_eq numbered (numbered.knows isTarget)]
    exact isFact
  calls isEdge := by
    obtain ⟨knownSite, knownCallee, isFact⟩ := justified.calls (calls isEdge)
    rw [grows.contextList_eq numbered knownSite, grows.activation_eq numbered knownCallee]
    exact ⟨grows.contexts_size knownSite, grows.contexts_size knownCallee, isFact⟩

/-- What justifies a state justifies a larger one that records, and is about to
record, nothing more. -/
theorem Grows.justified (grows : Grows old new) (numbered : Numbered program old)
    (justified : Justified facts old)
    (delivered : ∀ {id object}, new.Delivered id object → old.Delivered id object)
    (scheduled : ∀ {method}, new.Scheduled method → old.Scheduled method)
    (edges : new.flow.edges.elements ⊆ old.flow.edges.elements)
    (calls : new.calls.edges ⊆ old.calls.edges) : Justified facts new := by
  apply grows.justified_of_delivered numbered justified _ scheduled edges calls
  intro id object isDelivered
  obtain ⟨pointer, isPointer, allowed⟩ := justified.delivered (delivered isDelivered)
  exact ⟨pointer, grows.pointer? isPointer,
    grows.allows numbered (numbered.knows isPointer) allowed⟩

end Views

/-- A state grows when it has more numbers, edges or work, everything else being
the same. -/
theorem Grows.of_additions {old new : State}
    (contexts : old.contexts.lists.elements <+: new.contexts.lists.elements)
    (objects : old.heap.objects <+: new.heap.objects)
    (qualified : old.heap.qualified.elements <+: new.heap.qualified.elements)
    (pointers : old.flow.pointers.elements <+: new.flow.pointers.elements)
    (sameHeld : new.flow.held = old.flow.held)
    (edges : old.flow.edges.elements ⊆ new.flow.edges.elements)
    (work : old.worklist.items ⊆ new.worklist.items) (sameCalls : new.calls = old.calls) :
    Grows old new := by
  have same (id : PointerId) : new.flow.objects id = old.flow.objects id := by
    simp only [FlowGraph.objects, sameHeld]
  refine ⟨contexts, objects, qualified, pointers, ?_, edges, ?_, ?_, ?_, ?_⟩
  · intro pointer object isHeld
    rwa [same]
  · rw [sameCalls]
    exact List.Subset.refl _
  · rw [sameCalls]
    exact List.Subset.refl _
  · rintro pointer object (isHeld | ⟨objects, isWork, isIn⟩)
    · exact Or.inl (by rwa [same])
    · exact Or.inr ⟨objects, work isWork, isIn⟩
  · rintro method (isReachable | isWork)
    · exact Or.inl (by rwa [sameCalls])
    · exact Or.inr (work isWork)

/-- What an operation that changes neither what pointers hold nor the call graph
does to a lawful state. -/
structure Keeps (program : Program) (facts : Set Finding) (old new : State) : Prop
    extends Grows old new where
  lawful : Lawful program facts new
  sameHeld : new.flow.held = old.flow.held
  sameCalls : new.calls = old.calls

namespace Keeps

variable {program : Program} {facts : Set Finding} {state old middle new : State}

theorem refl (lawful : Lawful program facts state) : Keeps program facts state state :=
  ⟨.refl, lawful, rfl, rfl⟩

theorem trans (first : Keeps program facts old middle) (second : Keeps program facts middle new) :
    Keeps program facts old new :=
  ⟨first.toGrows.trans second.toGrows, second.lawful, second.sameHeld.trans first.sameHeld,
    second.sameCalls.trans first.sameCalls⟩

/-- Numbering more things keeps a state lawful, if the numbers are in order. -/
theorem of_numbers (lawful : Lawful program facts old) (grows : Grows old new)
    (numbered : Numbered program new) (sameHeld : new.flow.held = old.flow.held)
    (sameEdges : new.flow.edges = old.flow.edges) (sameWork : new.worklist = old.worklist)
    (sameCalls : new.calls = old.calls) : Keeps program facts old new := by
  have delivered {id : PointerId} {object : QualifiedId} :
      new.Delivered id object ↔ old.Delivered id object := by
    simp only [Delivered, FlowGraph.objects, sameHeld, sameWork]
  have scheduled {method : QualifiedMethod} : new.Scheduled method ↔ old.Scheduled method := by
    simp only [Scheduled, sameCalls, sameWork]
  refine ⟨grows, ⟨numbered, ?_, ?_⟩, sameHeld, sameCalls⟩
  · apply grows.justified lawful.numbered lawful.justified delivered.mp scheduled.mp
    · rw [sameEdges]
      exact List.Subset.refl _
    · rw [sameCalls]
      exact List.Subset.refl _
  · intro edge object isEdge isHeld
    rw [sameEdges] at isEdge
    rw [FlowGraph.objects, sameHeld] at isHeld
    exact delivered.mpr (lawful.flowing isEdge isHeld)

end Keeps

section Numbering

variable {program : Program} {facts : Set Finding} {state : State}

/-- Numbering a context made of known elements. -/
theorem keeps_context (lawful : Lawful program facts state) {list : List ContextElement}
    (known : ∀ object, .receiver object ∈ list → object < state.heap.objects.length) :
    Keeps program facts state
      { state with contexts := ⟨state.contexts.lists.insert list⟩ } := by
  have numbered := lawful.numbered
  refine Keeps.of_numbers lawful ?_ ?_ rfl rfl rfl rfl
  · exact .of_additions ArrivalSet.prefix_insert (List.prefix_refl _) (List.prefix_refl _)
      (List.prefix_refl _) rfl (List.Subset.refl _) (List.Subset.refl _) rfl
  · refine ⟨ArrivalSet.get?_insert numbered.emptyContext, ?_, numbered.sites, numbered.allocated,
      ?_, ?_⟩
    · intro other object isList isIn
      rcases ArrivalSet.mem_insert.mp isList with isOld | rfl
      · exact numbered.receivers isOld isIn
      · exact known object isIn
    · intro object isObject
      obtain ⟨inUse, allocated⟩ := numbered.qualified isObject
      exact ⟨lt_of_lt_of_le inUse ArrivalSet.size_le_insert, allocated⟩
    · intro pointer isPointer
      cases pointer with
      | var var context =>
          exact lt_of_lt_of_le (numbered.pointers isPointer) ArrivalSet.size_le_insert
      | staticField field => trivial
      | instanceField base field => exact numbered.pointers isPointer
      | elements array => exact numbered.pointers isPointer

/-- Numbering a pointer made of known numbers. -/
theorem keeps_pointer (lawful : Lawful program facts state) {pointer : Pointer}
    (known : state.Knows pointer) : Keeps program facts state (state.meet pointer) := by
  have numbered := lawful.numbered
  refine Keeps.of_numbers lawful ?_ ?_ rfl rfl rfl rfl
  · exact .of_additions (List.prefix_refl _) (List.prefix_refl _) (List.prefix_refl _)
      ArrivalSet.prefix_insert rfl (List.Subset.refl _) (List.Subset.refl _) rfl
  · refine ⟨numbered.emptyContext, numbered.receivers, numbered.sites, numbered.allocated,
      numbered.qualified, ?_⟩
    intro other isPointer
    rcases ArrivalSet.mem_insert.mp isPointer with isOld | rfl
    · exact numbered.pointers isOld
    · exact known

/-- Numbering an object in a context, both being known. -/
theorem keeps_qualified (lawful : Lawful program facts state) {context : ContextId}
    {object : ObjectId} (knownContext : context < state.contexts.lists.size)
    (knownObject : object < state.heap.objects.length) :
    Keeps program facts state { state with heap := (state.heap.qualify context object).2 } := by
  have numbered := lawful.numbered
  refine Keeps.of_numbers lawful ?_ ?_ rfl rfl rfl rfl
  · exact .of_additions (List.prefix_refl _) (List.prefix_refl _) ArrivalSet.prefix_insert
      (List.prefix_refl _) rfl (List.Subset.refl _) (List.Subset.refl _) rfl
  · refine ⟨numbered.emptyContext, numbered.receivers, numbered.sites, numbered.allocated, ?_, ?_⟩
    · intro other isObject
      rcases ArrivalSet.mem_insert.mp isObject with isOld | rfl
      · exact numbered.qualified isOld
      · exact ⟨knownContext, knownObject⟩
    · intro pointer isPointer
      cases pointer with
      | var var context => exact numbered.pointers isPointer
      | staticField field => trivial
      | instanceField base field =>
          exact lt_of_lt_of_le (numbered.pointers isPointer) ArrivalSet.size_le_insert
      | elements array =>
          exact lt_of_lt_of_le (numbered.pointers isPointer) ArrivalSet.size_le_insert

/-- Numbering the object that a program point allocates. -/
theorem keeps_object (lawful : Lawful program facts state) {site : Site} {target : VarId} {ty : Ty}
    (isNew : program.stmt site = .new target ty) :
    Keeps program facts state { state with heap := (state.heap.allocate site ty).2 } ∧
      ∃ object, (state.heap.allocate site ty).2.objects[(state.heap.allocate site ty).1]? =
        some object ∧ object.site = site := by
  have numbered := lawful.numbered
  unfold Heap.allocate
  split
  case h_1 id found =>
      exact ⟨.refl lawful, Heap.number?_sites_eq_some_iff.mp found⟩
  case h_2 missing =>
      refine ⟨?_, ⟨site, ty⟩, by simp, rfl⟩
      have others : ∀ object ∈ state.heap.objects, object.site ≠ site := by
        intro object isObject isSite
        have isNew := ArrivalSet.number?_eq_none_iff.mp missing
        rw [state.heap.numbered] at isNew
        exact isNew (List.mem_map.mpr ⟨object, isObject, isSite⟩)
      refine Keeps.of_numbers lawful ?_ ?_ rfl rfl rfl rfl
      · exact .of_additions (List.prefix_refl _) (List.prefix_append _ _) (List.prefix_refl _)
          (List.prefix_refl _) rfl (List.Subset.refl _) (List.Subset.refl _) rfl
      · refine ⟨numbered.emptyContext, ?_, ?_, ?_, ?_, ?_⟩
        · intro list object isList isIn
          exact lt_of_lt_of_le (numbered.receivers isList isIn) (by simp)
        · rw [List.map_append, List.nodup_append]
          refine ⟨numbered.sites, by simp, ?_⟩
          intro first isFirst second isSecond
          obtain ⟨object, isObject, rfl⟩ := List.mem_map.mp isFirst
          rw [List.map_singleton, List.mem_singleton] at isSecond
          rw [isSecond]
          exact others object isObject
        · intro object isObject
          rcases List.mem_append.mp isObject with isOld | isLast
          · exact numbered.allocated isOld
          · rw [List.mem_singleton.mp isLast]
            exact ⟨target, isNew⟩
        · intro object isObject
          obtain ⟨inUse, allocated⟩ := numbered.qualified isObject
          exact ⟨inUse, lt_of_lt_of_le allocated (by simp)⟩
        · intro pointer isPointer
          exact numbered.pointers isPointer

end Numbering

end PointsTo.State

end TacAnalysis
