/-
# Sending objects and connecting pointers

The operations by which a points-to analysis records something about pointers:
an object is sent to a pointer, or a pointer is connected to another one. Each
keeps a state lawful when the findings justifying the state contain what is
recorded. The objects already held by the source of a new edge are sent along it
at once, and the others will be when they arrive.
-/

import TacAnalysis.Proofs.PointsTo.Lawful

namespace TacAnalysis.PointsTo.State

/-- Applying an operation to all items of a list relates the first state to the
last one, and what the operation establishes for an item still holds in the end. -/
theorem foldl_related {Item : Type} {related : State → State → Prop} {post : Item → State → Prop}
    {apply : State → Item → State} {items : List Item} {state : State}
    (isRelated : related state state)
    (refl : ∀ {old new}, related old new → related new new)
    (trans : ∀ {old middle new}, related old middle → related middle new → related old new)
    (mono : ∀ {old new item}, related old new → post item old → post item new)
    (each : ∀ middle, related state middle → ∀ item ∈ items,
      related middle (apply middle item) ∧ post item (apply middle item)) :
    related state (items.foldl apply state) ∧
      ∀ item ∈ items, post item (items.foldl apply state) := by
  induction items generalizing state with
  | nil => exact ⟨isRelated, by simp⟩
  | cons item rest ih =>
      obtain ⟨first, done⟩ := each state isRelated item List.mem_cons_self
      obtain ⟨others, allDone⟩ := ih (refl first) fun middle reached other isIn =>
        each middle (trans first reached) other (List.mem_cons_of_mem _ isIn)
      refine ⟨trans first others, ?_⟩
      intro other isIn
      rcases List.mem_cons.mp isIn with rfl | isRest
      · exact mono others done
      · exact allDone other isRest

variable {program : Program} {selector : Selector} {facts : Set Finding} {state : State}

/-- A set of findings allows a piece of work. -/
def Warrants (facts : Set Finding) (state : State) : WorkItem → Prop
  | .objects id objects =>
      ∃ pointer, state.flow.pointer? id = some pointer ∧
        ∀ object ∈ objects.elements, state.Allows facts pointer object
  | .method method =>
      method.context < state.contexts.lists.size ∧ .reachable (state.activation method) ∈ facts

theorem mem_schedule {item other : WorkItem} :
    other ∈ (state.schedule item).worklist.items ↔ other ∈ state.worklist.items ∨ other = item := by
  simp only [schedule, Worklist.push, List.mem_append, List.mem_singleton]

/-- Scheduling work that is allowed. -/
theorem keeps_schedule (item : WorkItem) (lawful : Lawful program facts state)
    (warranted : state.Warrants facts item) :
    Keeps program facts state (state.schedule item) := by
  have grows : Grows state (state.schedule item) :=
    .of_additions (List.prefix_refl _) (List.prefix_refl _) (List.prefix_refl _)
      (List.prefix_refl _) rfl (List.Subset.refl _) (List.subset_append_left _ _) rfl
  refine ⟨grows, ⟨lawful.numbered.of_same rfl rfl rfl, ?_, ?_⟩, rfl, rfl⟩
  · refine ⟨?_, ?_, lawful.justified.edges, lawful.justified.calls⟩
    · rintro id object (isHeld | ⟨objects, isWork, isIn⟩)
      · exact lawful.justified.delivered (Or.inl isHeld)
      · rcases mem_schedule.mp isWork with isOld | rfl
        · exact lawful.justified.delivered (Or.inr ⟨objects, isOld, isIn⟩)
        · obtain ⟨pointer, isPointer, allowed⟩ := warranted
          exact ⟨pointer, isPointer, allowed object isIn⟩
    · rintro method (isReachable | isWork)
      · exact lawful.justified.scheduled (Or.inl isReachable)
      · rcases mem_schedule.mp isWork with isOld | rfl
        · exact lawful.justified.scheduled (Or.inr isOld)
        · exact warranted
  · intro edge object isEdge isHeld
    exact grows.delivered (lawful.flowing isEdge isHeld)

theorem delivered_schedule {id : PointerId} {objects : ObjectSet} {object : QualifiedId}
    (isIn : object ∈ objects.elements) :
    (state.schedule (.objects id objects)).Delivered id object :=
  Or.inr ⟨objects, mem_schedule.mpr (Or.inr rfl), isIn⟩

theorem scheduled_schedule {method : QualifiedMethod} :
    (state.schedule (.method method)).Scheduled method :=
  Or.inr (mem_schedule.mpr (Or.inr rfl))

/-- Adding an edge along which everything held has been sent. -/
theorem keeps_edge (lawful : Lawful program facts state) {first second : PointerId}
    {source target : Pointer} (isSource : state.flow.pointer? first = some source)
    (isTarget : state.flow.pointer? second = some target)
    (isFact : .flows (state.place source) (state.place target) ∈ facts)
    (sent : ∀ object ∈ (state.flow.objects first).elements, state.Delivered second object) :
    Keeps program facts state
      { state with flow := (state.flow.addEdge first second).2 } := by
  have grows : Grows state { state with flow := (state.flow.addEdge first second).2 } :=
    .of_additions (List.prefix_refl _) (List.prefix_refl _) (List.prefix_refl _)
      (List.prefix_refl _) rfl ArrivalSet.prefix_insert.subset (List.Subset.refl _) rfl
  refine ⟨grows, ⟨lawful.numbered.of_same rfl rfl rfl, ?_, ?_⟩, rfl, rfl⟩
  · refine ⟨lawful.justified.delivered, lawful.justified.scheduled, ?_,
      lawful.justified.calls⟩
    intro edge isEdge
    rcases ArrivalSet.mem_insert.mp isEdge with isOld | rfl
    · exact lawful.justified.edges isOld
    · exact ⟨source, target, isSource, isTarget, isFact⟩
  · intro edge object isEdge isHeld
    rcases ArrivalSet.mem_insert.mp isEdge with isOld | rfl
    · exact lawful.flowing isOld isHeld
    · exact sent object isHeld

/-- Adds an edge between pointers that have a number, and sends what its source
holds along a new one. -/
def join (state : State) (source target : PointerId) : State :=
  let (isNew, flow) := state.flow.addEdge source target
  let objects := flow.objects source
  if isNew && !objects.isEmpty then { state with flow }.schedule (.objects target objects)
  else { state with flow }

/-- Connecting two pointers is numbering them, then adding the edge. -/
theorem connect_eq_join (source target : Pointer) :
    state.connect source target =
      ((state.meet source).meet target).join (state.flow.intern source).1
        ((state.flow.intern source).2.intern target).1 :=
  rfl

theorem keeps_join (lawful : Lawful program facts state) {first second : PointerId}
    {source target : Pointer} (isSource : state.flow.pointer? first = some source)
    (isTarget : state.flow.pointer? second = some target)
    (isFact : .flows (state.place source) (state.place target) ∈ facts)
    (flow : ∀ object, .holds (state.place source) object ∈ facts →
      .holds (state.place target) object ∈ facts) :
    Keeps program facts state (state.join first second) ∧
      (first, second) ∈ (state.join first second).flow.edges.elements := by
  unfold join
  simp only
  split
  case isTrue isNew =>
      -- Scheduling first and adding the edge afterwards comes to the same.
      have warranted : state.Warrants facts (.objects second (state.flow.objects first)) := by
        refine ⟨target, isTarget, ?_⟩
        intro object isHeld
        obtain ⟨pointer, isPointer, known, holds⟩ := lawful.justified.delivered (Or.inl isHeld)
        cases isPointer.symm.trans isSource
        exact ⟨known, flow _ holds⟩
      have scheduled := keeps_schedule _ lawful warranted
      have added := keeps_edge scheduled.lawful isSource isTarget isFact
        fun object isHeld => delivered_schedule isHeld
      exact ⟨scheduled.trans added, ArrivalSet.mem_insert.mpr (Or.inr rfl)⟩
  case isFalse notNew =>
      refine ⟨keeps_edge lawful isSource isTarget isFact ?_,
        ArrivalSet.mem_insert.mpr (Or.inr rfl)⟩
      intro object isHeld
      by_cases isEdge : (first, second) ∈ state.flow.edges.elements
      · exact lawful.flowing isEdge isHeld
      · -- A new edge is left alone only if its source holds nothing.
        have isEmpty : (state.flow.objects first).elements = [] := by
          have isNew : (state.flow.addEdge first second).1 = true :=
            FlowGraph.addEdge_fst.mpr isEdge
          have := notNew
          rw [isNew, Bool.true_and, Bool.not_eq_true', Bool.not_eq_false] at this
          exact List.isEmpty_iff.mp this
        rw [isEmpty] at isHeld
        cases isHeld

/-- Numbering a pointer and sending it an object. -/
theorem keeps_send (lawful : Lawful program facts state) {object : QualifiedId} {pointer : Pointer}
    (known : state.Knows pointer) (allowed : state.Allows facts pointer object) :
    Keeps program facts state (state.send object pointer) ∧
      (state.send object pointer).Sent object pointer := by
  have met := keeps_pointer lawful known
  have isPointer : (state.meet pointer).flow.pointer? (state.flow.intern pointer).1 =
      some pointer := ArrivalSet.get?_intern
  have stillAllowed := met.toGrows.allows lawful.numbered known allowed
  have scheduled : Keeps program facts (state.meet pointer) (state.send object pointer) := by
    refine keeps_schedule _ met.lawful ⟨pointer, isPointer, ?_⟩
    intro other isIn
    rw [List.mem_singleton.mp isIn]
    exact stillAllowed
  exact ⟨met.trans scheduled, _, scheduled.toGrows.pointer? isPointer,
    delivered_schedule (List.mem_singleton_self _)⟩

/-- Connecting pointers, what the first holds being allowed in the second. -/
theorem keeps_connect (closed : Closed program selector facts)
    (lawful : Lawful program facts state) {source target : Pointer}
    (knownSource : state.Knows source) (knownTarget : state.Knows target)
    (isFact : .flows (state.place source) (state.place target) ∈ facts) :
    Keeps program facts state (state.connect source target) ∧
      (state.connect source target).Connected source target := by
  have metSource := keeps_pointer lawful knownSource
  have metTarget := keeps_pointer metSource.lawful (metSource.toGrows.knows knownTarget)
  have met := metSource.trans metTarget
  have isSource := metTarget.toGrows.pointer?
    (show (state.meet source).flow.pointer? (state.flow.intern source).1 = some source from
      ArrivalSet.get?_intern)
  have isTarget : ((state.meet source).meet target).flow.pointer?
      ((state.flow.intern source).2.intern target).1 = some target := ArrivalSet.get?_intern
  have samePlaces : .flows (((state.meet source).meet target).place source)
      (((state.meet source).meet target).place target) ∈ facts := by
    rw [met.toGrows.place_eq lawful.numbered knownSource,
      met.toGrows.place_eq lawful.numbered knownTarget]
    exact isFact
  obtain ⟨joined, isEdge⟩ := keeps_join met.lawful isSource isTarget samePlaces
    fun object holds => closed.flow samePlaces holds
  rw [connect_eq_join]
  exact ⟨met.trans joined, _, _, joined.toGrows.pointer? isSource,
    joined.toGrows.pointer? isTarget, isEdge⟩

/-- Connecting pointers when a variable is of a reference type. -/
theorem keeps_connectIf (closed : Closed program selector facts)
    (lawful : Lawful program facts state) {typed : VarId} {source target : Pointer}
    (knownSource : state.Knows source) (knownTarget : state.Knows target)
    (isFact : program.isReference typed = true →
      .flows (state.place source) (state.place target) ∈ facts) :
    Keeps program facts state (connectIf program typed state source target) ∧
      (program.isReference typed = true →
        (connectIf program typed state source target).Connected source target) := by
  unfold connectIf
  split
  case isTrue isReference =>
      obtain ⟨keeps, areConnected⟩ :=
        keeps_connect closed lawful knownSource knownTarget (isFact isReference)
      exact ⟨keeps, fun _ => areConnected⟩
  case isFalse notReference =>
      exact ⟨.refl lawful, fun isReference => absurd isReference notReference⟩

end TacAnalysis.PointsTo.State
