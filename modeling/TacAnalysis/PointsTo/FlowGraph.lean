/-
# Pointers and the flow of objects between them

A pointer is a place that may hold references: a variable in a context, a static
field, a field of an object or the elements of an array. Each pointer has the
set of the objects it may hold, and edges say from which pointers objects flow
to which others; the edges out of a pointer are also listed with it. Pointers are
numbered in order of appearance, and compared by the places that they are.
-/

import TacAnalysis.PointsTo.Heap
import TacAnalysis.Table

namespace TacAnalysis.PointsTo

/-- A place that may hold references. All the elements of an array are one place. -/
inductive Pointer where
  | var (var : VarId) (context : ContextId)
  | staticField (field : FieldId)
  | instanceField (base : QualifiedId) (field : FieldId)
  | elements (array : QualifiedId)
  deriving DecidableEq, Inhabited, Ord

/-- The number of the context of a variable, and zero for other pointers. -/
def Pointer.contextNumber : Pointer → ContextId
  | var _ context => context
  | _ => Contexts.emptyContext

/-- The greatest number of a context: contexts are numbered by words of 64 bits. -/
def greatestContext : ContextId := UInt64.size - 1

/-- The number of a pointer. -/
abbrev PointerId := Nat

/-- A set of qualified objects. -/
abbrev ObjectSet := ArrivalSet QualifiedId

/-- The pointers met so far, the objects they may hold, the edges along which objects
flow, and where they lead to from each pointer. -/
structure FlowGraph where
  pointers : ArrivalSet Pointer
  held : Table PointerId ObjectSet
  edges : ArrivalSet (PointerId × PointerId)
  targets : Table PointerId (List PointerId)
  listed : ∀ id, targets.get id = (edges.elements.filter fun edge => edge.1 = id).map Prod.snd
  deriving DecidableEq

namespace FlowGraph

/-- The graph without pointers. -/
def empty : FlowGraph := ⟨.empty, .constant .empty, .empty, .constant [], fun _ => rfl⟩

instance : Inhabited FlowGraph := ⟨empty⟩

variable (graph : FlowGraph)

/-- The number of a pointer, which holds nothing when it is first asked for. -/
def intern (pointer : Pointer) : PointerId × FlowGraph :=
  let (id, pointers) := graph.pointers.intern pointer
  (id, { graph with pointers })

/-- The number of a pointer that has been met. -/
def number? (pointer : Pointer) : Option PointerId := graph.pointers.number? pointer

/-- The pointer of a number. -/
def pointer? (id : PointerId) : Option Pointer := graph.pointers.get? id

/-- The objects a pointer may hold. -/
def objects (id : PointerId) : ObjectSet := graph.held.get id

/-- Adds objects to those a pointer may hold. -/
def hold (id : PointerId) (objects : ObjectSet) : FlowGraph :=
  { graph with held := graph.held.set id ((graph.objects id).union objects) }

/-- The pointers to which objects flow from a pointer. -/
def successors (id : PointerId) : List PointerId := graph.targets.get id

/-- Whether objects flow from one pointer to another. -/
def hasEdge (source target : PointerId) : Bool := graph.edges.contains (source, target)

/-- Where the edges lead to when there is one more. -/
def targetsWith (source target : PointerId) : Table PointerId (List PointerId) :=
  if graph.hasEdge source target then graph.targets
  else graph.targets.set source (graph.successors source ++ [target])

theorem get_targetsWith (source target id : PointerId) :
    (graph.targetsWith source target).get id =
      ((graph.edges.insert (source, target)).elements.filter fun edge => edge.1 = id).map
        Prod.snd := by
  unfold targetsWith ArrivalSet.insert hasEdge
  split
  case isTrue => exact graph.listed id
  case isFalse =>
      rw [Table.get_set, successors, graph.listed, ArrivalSet.append, List.filter_append,
        List.map_append]
      by_cases isSource : id = source
      · simp [isSource]
      · simp [isSource, Ne.symm isSource, graph.listed]

/-- Adds an edge, and says whether it is new. -/
def addEdge (source target : PointerId) : Bool × FlowGraph :=
  (!graph.hasEdge source target, { graph with
    edges := graph.edges.insert (source, target)
    targets := graph.targetsWith source target
    listed := graph.get_targetsWith source target })

/-- The pointers with their numbers. -/
def numbered : List (Pointer × PointerId) := graph.pointers.elements.zipIdx

/-- The numbers of the pointers between two, in their order. -/
def range (least greatest : Pointer) : List PointerId :=
  let isBetween (entry : Pointer × PointerId) :=
    (compare least entry.1).isLE && (compare entry.1 greatest).isLE
  ((graph.pointers.index.filter isBetween).mergeSort fun first second =>
    (compare first.1 second.1).isLE).map Prod.snd

/-- The contexts that variables have been met in are numbered by words. -/
def ContextsFit : Prop :=
  ∀ pointer ∈ graph.pointers.elements, pointer.contextNumber ≤ greatestContext

/-- Where the contexts of a variable end: with the greatest number of a word. Numbers are
not bounded here, and a graph whose contexts do not fit is read to its own last one. -/
def lastContext : ContextId :=
  (graph.pointers.elements.map Pointer.contextNumber).foldl max greatestContext

/-- The pointers that a variable is, in the order of its contexts. They are between the
one in the empty context, whose number is the least, and the one in the last context. -/
def varPointers (var : VarId) : List PointerId :=
  graph.range (.var var Contexts.emptyContext) (.var var graph.lastContext)

variable {graph}

theorem mem_objects_hold {id other : PointerId} {objects : ObjectSet} {object : QualifiedId} :
    object ∈ ((graph.hold id objects).objects other).elements ↔
      object ∈ (graph.objects other).elements ∨ other = id ∧ object ∈ objects.elements := by
  have held : (graph.hold id objects).objects other =
      if other == id then (graph.objects id).union objects else graph.objects other :=
    Table.get_set ..
  rw [held]
  by_cases same : other = id
  · subst same
    simp [ArrivalSet.mem_union]
  · simp [same]

theorem mem_successors {source target : PointerId} :
    target ∈ graph.successors source ↔ (source, target) ∈ graph.edges.elements := by
  simp [successors, graph.listed]

/-- An edge is new when it has not been added before. -/
theorem addEdge_fst {source target : PointerId} :
    (graph.addEdge source target).1 = true ↔ (source, target) ∉ graph.edges.elements := by
  rw [addEdge, Bool.not_eq_true', ← Bool.not_eq_true, hasEdge, ArrivalSet.contains_iff]

theorem mem_numbered {pointer : Pointer} {id : PointerId} :
    (pointer, id) ∈ graph.numbered ↔ graph.pointer? id = some pointer :=
  List.mem_zipIdx_iff_getElem?

theorem number?_eq_some_iff {pointer : Pointer} {id : PointerId} :
    graph.number? pointer = some id ↔ graph.pointer? id = some pointer :=
  ArrivalSet.number?_eq_some_iff

theorem mem_range {least greatest : Pointer} {id : PointerId} :
    id ∈ graph.range least greatest ↔ ∃ pointer, graph.pointer? id = some pointer ∧
      (compare least pointer).isLE = true ∧ (compare pointer greatest).isLE = true := by
  simp only [range, List.mem_map, List.mem_mergeSort, List.mem_filter, Bool.and_eq_true]
  constructor
  · rintro ⟨⟨pointer, number⟩, ⟨isListed, isBetween⟩, rfl⟩
    exact ⟨pointer, ArrivalSet.mem_index.mp isListed, isBetween⟩
  · rintro ⟨pointer, isPointer, isBetween⟩
    exact ⟨(pointer, id), ⟨ArrivalSet.mem_index.mpr isPointer, isBetween⟩, rfl⟩

/-- What is between two pointers of a variable is the variable in a context between theirs:
variables come before all other pointers, and are compared before their contexts are. -/
theorem between_iff {var : VarId} {first last : ContextId} {pointer : Pointer} :
    (compare (Pointer.var var first) pointer).isLE = true ∧
        (compare pointer (Pointer.var var last)).isLE = true ↔
      ∃ context, pointer = .var var context ∧ first ≤ context ∧ context ≤ last := by
  have isVar (one other left right : Nat) :
      (compare (Pointer.var one left) (Pointer.var other right)).isLE = true ↔
        one < other ∨ one = other ∧ left ≤ right := by
    show ((compare one other).then ((compare left right).then .eq)).isLE = true ↔ _
    rw [Ordering.then_eq, Ordering.isLE_then_iff_or, Nat.compare_eq_lt, Nat.compare_eq_eq,
      Nat.isLE_compare]
  cases pointer with
  | var other context =>
      rw [isVar, isVar]
      constructor
      · rintro ⟨isBelow | ⟨rfl, isLater⟩, isAbove | ⟨isSame, isEarlier⟩⟩
        · exact absurd (Nat.lt_trans isBelow isAbove) (Nat.lt_irrefl _)
        · exact absurd (isSame ▸ isBelow) (Nat.lt_irrefl _)
        · exact absurd isAbove (Nat.lt_irrefl _)
        · exact ⟨context, rfl, isLater, isEarlier⟩
      · rintro ⟨_, ⟨⟩, isLater, isEarlier⟩
        exact ⟨.inr ⟨rfl, isLater⟩, .inr ⟨rfl, isEarlier⟩⟩
  | staticField | instanceField | elements =>
      exact ⟨fun isBetween => absurd isBetween.2 Bool.false_ne_true, nofun⟩

/-- Contexts that fit end with the greatest number of a word, whatever has been met. -/
theorem lastContext_eq (fit : graph.ContextsFit) : graph.lastContext = greatestContext := by
  have isSame (numbers : List Nat) (areBelow : ∀ number ∈ numbers, number ≤ greatestContext) :
      numbers.foldl max greatestContext = greatestContext := by
    induction numbers with
    | nil => rfl
    | cons first rest ih =>
        obtain ⟨isBelow, areBelow⟩ := List.forall_mem_cons.mp areBelow
        rw [List.foldl_cons, Nat.max_eq_left isBelow]
        exact ih areBelow
  exact isSame _ (List.forall_mem_map.mpr fit)

/-- The pointers that a variable is are read in one range, with ends that do not depend on
the graph as long as its contexts fit. -/
theorem varPointers_eq (fit : graph.ContextsFit) (var : VarId) : graph.varPointers var =
    graph.range (.var var Contexts.emptyContext) (.var var greatestContext) := by
  rw [varPointers, lastContext_eq fit]

/-- No variable has been met in a context after the last one. -/
theorem le_lastContext {id : PointerId} {var : VarId} {context : ContextId}
    (isPointer : graph.pointer? id = some (.var var context)) : context ≤ graph.lastContext := by
  have isNumber : context ∈ graph.pointers.elements.map Pointer.contextNumber :=
    List.mem_map.mpr ⟨_, ArrivalSet.mem_of_get? isPointer, rfl⟩
  have isBelow (numbers : List Nat) (start : Nat) :
      start ≤ numbers.foldl max start ∧ ∀ number ∈ numbers, number ≤ numbers.foldl max start := by
    induction numbers generalizing start with
    | nil => exact ⟨Nat.le_refl _, nofun⟩
    | cons first rest ih =>
        obtain ⟨isStart, areRest⟩ := ih (max start first)
        refine ⟨Nat.le_trans (Nat.le_max_left _ _) isStart, fun number isIn => ?_⟩
        rcases List.mem_cons.mp isIn with rfl | isRest
        · exact Nat.le_trans (Nat.le_max_right _ _) isStart
        · exact areRest number isRest
  exact (isBelow _ _).2 context isNumber

/-- The pointers that a variable is are the ones for it and some context. -/
theorem mem_varPointers {var : VarId} {id : PointerId} :
    id ∈ graph.varPointers var ↔ ∃ context, graph.pointer? id = some (.var var context) := by
  simp only [varPointers, mem_range, between_iff]
  constructor
  · rintro ⟨pointer, isPointer, context, rfl, -⟩
    exact ⟨context, isPointer⟩
  · rintro ⟨context, isPointer⟩
    exact ⟨_, isPointer, context, rfl, Nat.zero_le _, le_lastContext isPointer⟩

end FlowGraph

end TacAnalysis.PointsTo
