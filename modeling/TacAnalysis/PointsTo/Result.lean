/-
# What a points-to analysis tells

The call graph, and the objects that variables, fields and array elements may
hold, with contexts left out: each is the union over all contexts.
-/

import TacAnalysis.PointsTo.Solver

namespace TacAnalysis

namespace PointsTo

/-- The size of an analysis. -/
structure Statistics where
  selector : String
  iterations : Nat
  contexts : Nat
  objects : Nat
  qualifiedObjects : Nat
  pointers : Nat
  edges : Nat
  methods : Nat
  callEdges : Nat
  deriving DecidableEq, Inhabited

namespace State

variable (state : State)

/-- The size of the analysis, and the name of the selector it was made with. -/
def statistics (selector : Selector) : Statistics where
  selector := selector.name
  iterations := state.iterations
  contexts := state.contexts.size
  objects := state.heap.objects.length
  qualifiedObjects := state.heap.qualified.size
  pointers := state.flow.pointers.size
  edges := state.flow.edges.size
  methods := state.calls.reachable.length
  callEdges := state.calls.edges.length

/-- An edge without its contexts. -/
def plainEdge (edge : CallEdge QualifiedSite QualifiedMethod) : CallEdge Site MethodId :=
  ⟨edge.kind, edge.site.site, edge.callee.method⟩

/-- The call graph without contexts. -/
def callGraph : CallGraph Site MethodId :=
  let entered := (state.calls.entries.map QualifiedMethod.method).foldl .addEntry .empty
  let reached := (state.calls.reachableMethods.map QualifiedMethod.method).foldl
    (fun graph method => (graph.addReachable method).2) entered
  (state.calls.sortedEdges.map plainEdge).foldl (fun graph edge => (graph.addEdge edge).2) reached

/-- The methods that a call site may run. -/
def calleesAt (site : Site) : List MethodId :=
  ascending ((state.calls.edges.filter fun edge => edge.site.site = site).map fun edge =>
    edge.callee.method)

/-- The methods that may run. -/
def reachableMethods : List MethodId :=
  ascending (state.calls.reachable.map QualifiedMethod.method)

/-- The abstract objects that some pointers may hold. -/
def objectsOf (pointers : List PointerId) : List ObjectId :=
  ascending ((pointers.flatMap fun id => (state.flow.objects id).elements).map state.heap.objectOf)

/-- The pointers of a kind. -/
def pointersWhere (condition : Pointer → Bool) : List PointerId :=
  (state.flow.numbered.filter fun numbered => condition numbered.1).map Prod.snd

/-- The objects that a variable may hold. -/
def objectsInVar (var : VarId) : List ObjectId := state.objectsOf (state.flow.varPointers var)

/-- The objects that a static field may hold. -/
def objectsInStatic (field : FieldId) : List ObjectId :=
  state.objectsOf (state.flow.number? (.staticField field)).toList

/-- The objects that a field of an object may hold. -/
def objectsInField (base : ObjectId) (field : FieldId) : List ObjectId :=
  state.objectsOf (state.pointersWhere fun
    | .instanceField object other => other = field && state.heap.objectOf object = base
    | _ => false)

/-- The objects that the elements of an array may be. -/
def objectsInArray (array : ObjectId) : List ObjectId :=
  state.objectsOf (state.pointersWhere fun
    | .elements object => state.heap.objectOf object = array
    | _ => false)

variable {state} {object : ObjectId}

theorem mem_reachableMethods {method : MethodId} :
    method ∈ state.reachableMethods ↔ ∃ context, ⟨context, method⟩ ∈ state.calls.reachable := by
  rw [reachableMethods, mem_ascending, List.mem_map]
  constructor
  · rintro ⟨⟨context, method⟩, isReachable, rfl⟩
    exact ⟨context, isReachable⟩
  · rintro ⟨context, isReachable⟩
    exact ⟨⟨context, method⟩, isReachable, rfl⟩

theorem mem_calleesAt {site : Site} {method : MethodId} :
    method ∈ state.calleesAt site ↔
      ∃ edge ∈ state.calls.edges, edge.site.site = site ∧ edge.callee.method = method := by
  simp only [calleesAt, mem_ascending, List.mem_map, List.mem_filter, decide_eq_true_eq, and_assoc]

theorem mem_objectsOf {pointers : List PointerId} :
    object ∈ state.objectsOf pointers ↔ ∃ id ∈ pointers,
      ∃ qualified ∈ (state.flow.objects id).elements, state.heap.objectOf qualified = object := by
  simp only [objectsOf, mem_ascending, List.mem_map, List.mem_flatMap]
  constructor
  · rintro ⟨qualified, ⟨id, isIn, isHeld⟩, isObject⟩
    exact ⟨id, isIn, qualified, isHeld, isObject⟩
  · rintro ⟨id, isIn, qualified, isHeld, isObject⟩
    exact ⟨qualified, ⟨id, isIn, isHeld⟩, isObject⟩

theorem mem_pointersWhere {condition : Pointer → Bool} {id : PointerId} :
    id ∈ state.pointersWhere condition ↔
      ∃ pointer, state.flow.pointer? id = some pointer ∧ condition pointer = true := by
  simp only [pointersWhere, List.mem_map, List.mem_filter]
  constructor
  · rintro ⟨⟨pointer, number⟩, ⟨isNumbered, holds⟩, rfl⟩
    exact ⟨pointer, FlowGraph.mem_numbered.mp isNumbered, holds⟩
  · rintro ⟨pointer, isPointer, holds⟩
    exact ⟨(pointer, id), ⟨FlowGraph.mem_numbered.mpr isPointer, holds⟩, rfl⟩

theorem mem_objectsInVar {var : VarId} :
    object ∈ state.objectsInVar var ↔ ∃ id context,
      state.flow.pointer? id = some (.var var context) ∧
        ∃ qualified ∈ (state.flow.objects id).elements, state.heap.objectOf qualified = object := by
  simp only [objectsInVar, mem_objectsOf, FlowGraph.mem_varPointers]
  constructor
  · rintro ⟨id, ⟨context, isPointer⟩, holds⟩
    exact ⟨id, context, isPointer, holds⟩
  · rintro ⟨id, context, isPointer, holds⟩
    exact ⟨id, ⟨context, isPointer⟩, holds⟩

theorem mem_objectsInStatic {field : FieldId} :
    object ∈ state.objectsInStatic field ↔ ∃ id,
      state.flow.pointer? id = some (.staticField field) ∧
        ∃ qualified ∈ (state.flow.objects id).elements, state.heap.objectOf qualified = object := by
  simp only [objectsInStatic, mem_objectsOf, Option.mem_toList,
    FlowGraph.number?_eq_some_iff]

theorem mem_objectsInField {base : ObjectId} {field : FieldId} :
    object ∈ state.objectsInField base field ↔ ∃ id holder,
      state.flow.pointer? id = some (.instanceField holder field) ∧
        state.heap.objectOf holder = base ∧
        ∃ qualified ∈ (state.flow.objects id).elements, state.heap.objectOf qualified = object := by
  simp only [objectsInField, mem_objectsOf, mem_pointersWhere]
  constructor
  · rintro ⟨id, ⟨pointer, isPointer, holds⟩, isHeld⟩
    cases pointer with
    | instanceField holder other =>
        simp only [Bool.and_eq_true, decide_eq_true_eq] at holds
        obtain ⟨rfl, isBase⟩ := holds
        exact ⟨id, holder, isPointer, isBase, isHeld⟩
    | _ => cases holds
  · rintro ⟨id, holder, isPointer, isBase, isHeld⟩
    exact ⟨id, ⟨.instanceField holder field, isPointer, by simp [isBase]⟩, isHeld⟩

theorem mem_objectsInArray {array : ObjectId} :
    object ∈ state.objectsInArray array ↔ ∃ id holder,
      state.flow.pointer? id = some (.elements holder) ∧ state.heap.objectOf holder = array ∧
        ∃ qualified ∈ (state.flow.objects id).elements, state.heap.objectOf qualified = object := by
  simp only [objectsInArray, mem_objectsOf, mem_pointersWhere]
  constructor
  · rintro ⟨id, ⟨pointer, isPointer, holds⟩, isHeld⟩
    cases pointer with
    | elements holder => exact ⟨id, holder, isPointer, of_decide_eq_true holds, isHeld⟩
    | _ => cases holds
  · rintro ⟨id, holder, isPointer, isArray, isHeld⟩
    exact ⟨id, ⟨.elements holder, isPointer, by simp [isArray]⟩, isHeld⟩

end State

end PointsTo

/-- The points-to analysis of a program, in at most a number of steps. -/
def Program.pointsTo (program : Program) (selector : PointsTo.Selector) (steps : Nat) :
    Except AnalysisError PointsTo.State :=
  PointsTo.State.solve program selector steps .initial

end TacAnalysis
