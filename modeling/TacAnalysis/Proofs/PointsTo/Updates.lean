/-
# What work does to an analysis

Whatever piece of work is done, it is done by updates of a few kinds: numbers are given to
contexts and pointers, pointers are connected, objects are given and sent to them, and
methods and edges are added to the call graph. Objects are told apart by a new context only
where one is allocated, and then they are sent to a variable. What holds for every kind of
update need not be looked for in the whole analysis.
-/

import Mathlib.Logic.Relation
import TacAnalysis.Proofs.PointsTo.Running

namespace TacAnalysis.PointsTo.State

open Relation (ReflTransGen)

/-- The kinds of updates that work is made of. -/
inductive Update (selector : Selector) : State → State → Prop where
  /-- Anything about contexts and pointers changes, and work may be added. -/
  | flow {old : State} (contexts : Contexts) (flow : FlowGraph) (worklist : Worklist) :
      old.worklist.items ⊆ worklist.items →
      Update selector old { old with contexts, flow, worklist }
  | reachable {old : State} (method : QualifiedMethod) :
      Update selector old { old with calls := (old.calls.addReachable method).2 }
  | edge {old : State} (edge : CallEdge QualifiedSite QualifiedMethod) :
      Update selector old { old with calls := (old.calls.addEdge edge).2 }
  | allocation {old : State} (context : ContextId) (site : Site) (target : VarId) (ty : Ty) :
      Update selector old (old.allocate selector context site target ty)

/-- A state comes from another one by updates. -/
def Updates (selector : Selector) : State → State → Prop := ReflTransGen (Update selector)

variable {program : Program} {selector : Selector} {state old middle new : State}

namespace Updates

theorem refl : Updates selector state state := ReflTransGen.refl

theorem trans (first : Updates selector old middle) (second : Updates selector middle new) :
    Updates selector old new :=
  ReflTransGen.trans first second

theorem of_update (update : Update selector old new) : Updates selector old new := .single update

theorem foldl {Item : Type} {apply : State → Item → State}
    (updates : ∀ state item, Updates selector state (apply state item)) (items : List Item) :
    Updates selector state (items.foldl apply state) :=
  List.foldlRecOn (motive := Updates selector state) _ _ refl
    fun middle before item _ => before.trans (updates middle item)

end Updates

theorem updates_contexts (contexts : Contexts) :
    Updates selector state { state with contexts } :=
  .of_update (.flow contexts state.flow state.worklist (List.Subset.refl _))

theorem updates_flow (flow : FlowGraph) : Updates selector state { state with flow } :=
  .of_update (.flow state.contexts flow state.worklist (List.Subset.refl _))

theorem updates_schedule (item : WorkItem) : Updates selector state (state.schedule item) :=
  .of_update (.flow state.contexts state.flow _ (List.subset_append_left _ _))

theorem updates_reachable (method : QualifiedMethod) :
    Updates selector state { state with calls := (state.calls.addReachable method).2 } :=
  .of_update (.reachable method)

theorem updates_edge (edge : CallEdge QualifiedSite QualifiedMethod) :
    Updates selector state { state with calls := (state.calls.addEdge edge).2 } :=
  .of_update (.edge edge)

theorem updates_send {object : QualifiedId} {pointer : Pointer} :
    Updates selector state (state.send object pointer) :=
  (updates_flow _).trans (updates_schedule _)

theorem updates_connect {source target : Pointer} :
    Updates selector state (state.connect source target) := by
  unfold connect
  simp only
  split
  case isTrue => exact (updates_flow _).trans (updates_schedule _)
  case isFalse => exact updates_flow _

theorem updates_connectIf {typed : VarId} {source target : Pointer} :
    Updates selector state (connectIf program typed state source target) := by
  unfold connectIf
  split
  case isTrue => exact updates_connect
  case isFalse => exact .refl

theorem updates_passArguments {call : QualifiedSite} {arguments : List VarId}
    {callee : QualifiedMethod} :
    Updates selector state (passArguments program state call arguments callee) :=
  .foldl (fun _ _ => updates_connectIf) _

theorem updates_passResult {call : QualifiedSite} {result : Option VarId}
    {callee : QualifiedMethod} :
    Updates selector state (passResult program state call result callee) := by
  unfold passResult
  split
  case h_1 => exact .refl
  case h_2 =>
      split
      case isTrue => exact (updates_flow _).trans (.foldl (fun _ _ => updates_connect) _)
      case isFalse => exact .refl

theorem updates_link {call : QualifiedSite} {invoke : Invoke} {callee : QualifiedMethod} :
    Updates selector state (link program state call invoke callee) := by
  unfold link
  simp only
  split
  case isTrue =>
      refine (Updates.trans ?_ updates_passArguments).trans updates_passResult
      exact (updates_edge _).trans (updates_schedule _)
  case isFalse => exact .refl

theorem updates_callStatic {call : QualifiedSite} {invoke : Invoke} :
    Updates selector state (callStatic program selector state call invoke) := by
  unfold callStatic
  split
  case h_1 => exact .refl
  case h_2 => exact (updates_contexts _).trans updates_link

theorem updates_visitStmt {point : QualifiedSite} :
    Updates selector state (visitStmt program selector state point) := by
  unfold visitStmt
  simp only
  split
  case h_1 => exact .of_update (.allocation _ _ _ _)
  case h_6 =>
      split
      case isTrue => exact updates_callStatic
      case isFalse => exact .refl
  case h_7 => exact .refl
  all_goals exact updates_connectIf

theorem updates_visitMethod {method : QualifiedMethod} :
    Updates selector state (visitMethod program selector state method) := by
  unfold visitMethod
  simp only
  split
  case isTrue =>
      exact (updates_reachable method).trans (.foldl (fun _ _ => updates_visitStmt) _)
  case isFalse => exact .refl

theorem updates_visitAccess {object : QualifiedId} {point : QualifiedSite} :
    Updates selector state (visitAccess program state object point) := by
  unfold visitAccess
  simp only
  split
  case h_5 => exact .refl
  all_goals exact updates_connectIf

theorem updates_callOn {object : QualifiedId} {call : QualifiedSite} {invoke : Invoke} :
    Updates selector state (callOn program selector state object call invoke) := by
  unfold callOn
  split
  case h_1 => exact .refl
  case h_2 =>
      refine Updates.trans ?_ updates_link
      split
      case h_1 => exact (updates_contexts _).trans updates_send
      case h_2 => exact updates_contexts _

theorem updates_visitCall {object : QualifiedId} {point : QualifiedSite} :
    Updates selector state (visitCall program selector state object point) := by
  unfold visitCall
  split
  case h_1 => exact updates_callOn
  case h_2 => exact .refl

theorem updates_visitObject {var : VarId} {context : ContextId} {object : QualifiedId} :
    Updates selector state (visitObject program selector var context state object) :=
  (Updates.foldl (fun _ _ => updates_visitAccess) _).trans
    (.foldl (fun _ _ => updates_visitCall) _)

theorem updates_pass {pointer : PointerId} {news : ObjectSet} :
    Updates selector state (state.pass pointer news) := by
  unfold pass
  split
  case isTrue => exact .refl
  case isFalse => exact (updates_flow _).trans (.foldl (fun _ _ => updates_schedule _) _)

/-- All work is done by updates. -/
theorem updates_visit {item : WorkItem} :
    Updates selector state (visit program selector state item) := by
  cases item with
  | method method => exact updates_visitMethod
  | objects pointer objects =>
      unfold visit visitPointer
      simp only
      split
      case h_1 => exact updates_pass.trans (.foldl (fun _ _ => updates_visitObject) _)
      case h_2 => exact updates_pass

/-- No update adds to the entry methods. -/
theorem Update.entries (update : Update selector old new) :
    new.calls.entries = old.calls.entries := by
  cases update with
  | flow => rfl
  | reachable => exact CallGraph.entries_addReachable _
  | edge => exact CallGraph.entries_addEdge _
  | allocation => rfl

theorem Updates.entries (updates : Updates selector old new) :
    new.calls.entries = old.calls.entries := by
  induction updates with
  | refl => rfl
  | tail _ update ih => exact update.entries.trans ih

/-- No update makes a method unreachable. -/
theorem Update.reachable_subset (update : Update selector old new) :
    old.calls.reachable ⊆ new.calls.reachable := by
  cases update with
  | flow => exact List.Subset.refl _
  | reachable method =>
      exact fun _ wasReachable => (CallGraph.mem_addReachable _).mpr (.inl wasReachable)
  | edge =>
      rw [CallGraph.reachable_addEdge]
      exact List.Subset.refl _
  | allocation => exact List.Subset.refl _

theorem Updates.reachable_subset (updates : Updates selector old new) :
    old.calls.reachable ⊆ new.calls.reachable := by
  induction updates with
  | refl => exact List.Subset.refl _
  | tail _ update ih => exact List.Subset.trans ih update.reachable_subset

/-- An object is about to be given to a pointer. -/
def Announced (state : State) (object : QualifiedId) : Prop :=
  ∃ pointer objects, .objects pointer objects ∈ state.worklist.items ∧ object ∈ objects.elements

/-- Work to do stays, and objects that get a number are announced. -/
structure Announces (old new : State) : Prop where
  work : old.worklist.items ⊆ new.worklist.items
  objects {object : QualifiedId} : object < new.heap.qualified.size →
    object < old.heap.qualified.size ∨ new.Announced object

theorem Update.announces (update : Update selector old new) : Announces old new := by
  cases update with
  | flow contexts flow worklist isMore => exact ⟨isMore, .inl⟩
  | reachable method => exact ⟨List.Subset.refl _, .inl⟩
  | edge edge => exact ⟨List.Subset.refl _, .inl⟩
  | allocation context site target ty =>
      refine ⟨List.subset_append_left _ _, fun {object} isKnown => ?_⟩
      have sameQualified : (old.heap.allocate site ty).2.qualified = old.heap.qualified := by
        unfold Heap.allocate
        split <;> rfl
      rcases ArrivalSet.lt_size_insert isKnown with isOld | isNew
      · have isOld : object < (old.heap.allocate site ty).2.qualified.size := isOld
        rw [sameQualified] at isOld
        exact .inl isOld
      · exact .inr ⟨_, _, List.mem_append_right _ (List.mem_singleton.mpr rfl),
          List.mem_singleton.mpr isNew⟩

theorem Updates.announces (updates : Updates selector old new) : Announces old new := by
  induction updates with
  | refl => exact ⟨List.Subset.refl _, .inl⟩
  | tail _ update ih =>
      have announces := update.announces
      refine ⟨List.Subset.trans ih.work announces.work, fun {object} isKnown => ?_⟩
      rcases announces.objects isKnown with isMiddle | isAnnounced
      · rcases ih.objects isMiddle with isOld | ⟨pointer, objects, isWork, isIn⟩
        · exact .inl isOld
        · exact .inr ⟨pointer, objects, announces.work isWork, isIn⟩
      · exact .inr isAnnounced

/-- Every object that has been told apart from others has been given to a pointer, or is about
to be. -/
def AllDelivered (state : State) : Prop :=
  ∀ object < state.heap.qualified.size, ∃ pointer, state.Delivered pointer object

theorem AllDelivered.step {facts : Set Finding} (closed : Closed program selector facts)
    (lawful : Lawful program facts old) (areDelivered : old.AllDelivered)
    (isStep : step? program selector old = some new) : new.AllDelivered := by
  have grows := (advances_step closed lawful isStep).toGrows
  obtain ⟨item, worklist, -, rfl⟩ := exists_of_step isStep
  intro object isKnown
  rcases updates_visit.announces.objects isKnown with isOld | ⟨pointer, objects, isWork, isIn⟩
  · obtain ⟨pointer, isDelivered⟩ := areDelivered object isOld
    exact ⟨pointer, grows.delivered isDelivered⟩
  · exact ⟨pointer, .inr ⟨objects, isWork, isIn⟩⟩

/-- Recording entry methods tells no objects apart. -/
theorem heap_enter : (enter program state).heap = state.heap :=
  List.foldlRecOn (motive := fun other : State => other.heap = state.heap) _ _ rfl
    fun _ sameHeap _ _ => sameHeap

/-- Every object that an analysis tells apart from others is held somewhere. -/
theorem exists_held {facts : Set Finding} (closed : Closed program selector facts) {steps : Nat}
    (solved : program.pointsTo selector steps = .ok state) {object : QualifiedId}
    (isKnown : object < state.heap.qualified.size) :
    ∃ place, .holds place (state.origin object) ∈ facts := by
  let Good (state : State) : Prop := Lawful program facts state ∧ state.AllDelivered
  have keeps {old new : State} (isGood : Good old) (isStep : step? program selector old = some new) :
      Good new :=
    ⟨(advances_step closed isGood.1 isStep).lawful, isGood.2.step closed isGood.1 isStep⟩
  have start : Good (enter program .initial) := by
    refine ⟨(complete_enter closed).1, fun object isKnown => ?_⟩
    rw [heap_enter] at isKnown
    cases isKnown
  obtain ⟨⟨lawful, areDelivered⟩, -⟩ :=
    run_induction (motive := Good) keeps start (run_of_pointsTo solved).2
  obtain ⟨id, isDelivered⟩ := areDelivered object isKnown
  obtain ⟨pointer, -, -, isFact⟩ := lawful.justified.delivered isDelivered
  exact ⟨_, isFact⟩

end TacAnalysis.PointsTo.State
