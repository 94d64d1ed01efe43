/-
# What always holds of a points-to analysis

An analysis may be looked at whenever the entry methods have been scheduled or a piece of work
has been done. An object that a pointer holds is then held by the pointers it flows to, or is on
its way to them, and what is called is reachable or will be. Two ways lead there: an edge that is
added later sends what its source holds already, and an object that arrives later is sent along
the edges there are. Accesses and calls through a variable are processed when an object arrives
there, before anything else is done, so that none is ever missing for an object that is held.
-/

import Mathlib.Logic.Relation
import TacAnalysis.Proofs.PointsTo.Resuming

namespace TacAnalysis

/-- Keys are numbered from zero on: each key has one number and each number one key. -/
structure IsNumbering {Key : Type} (number? : Key → Option Nat) (key? : Nat → Option Key)
    (size : Nat) : Prop where
  inverse {key : Key} {number : Nat} : number? key = some number ↔ key? number = some key
  inUse {number : Nat} : (∃ key, key? number = some key) ↔ number < size

namespace ArrivalSet

variable {α : Type} [DecidableEq α]

/-- A set lists each of its members once, and nothing else. -/
structure ListsMembers (set : ArrivalSet α) : Prop where
  distinct : set.elements.Nodup
  members {element : α} : set.contains element = true ↔ element ∈ set.elements

theorem listsMembers (set : ArrivalSet α) : set.ListsMembers := ⟨set.distinct, contains_iff⟩

theorem isNumbering (set : ArrivalSet α) : IsNumbering set.number? set.get? set.size where
  inverse := number?_eq_some_iff
  inUse := ⟨fun ⟨_, known⟩ => lt_size known, exists_get?⟩

end ArrivalSet

namespace PointsTo

/-- The site where the abstract object of a number is allocated. -/
def Heap.site? (heap : Heap) (id : ObjectId) : Option Site :=
  heap.objects[id]?.map AbstractObject.site

/-- Abstract objects are numbered by the sites where they are allocated. -/
theorem Heap.isNumbering (heap : Heap) :
    IsNumbering heap.sites.number? heap.site? heap.objects.length := by
  have sameKey : heap.sites.get? = heap.site? := by
    funext id
    rw [ArrivalSet.get?, heap.numbered, List.getElem?_map]
    rfl
  have sameSize : heap.sites.size = heap.objects.length := by
    rw [ArrivalSet.size, heap.numbered, List.length_map]
  rw [← sameKey, ← sameSize]
  exact heap.sites.isNumbering

theorem FlowGraph.nodup_successors (graph : FlowGraph) (source : PointerId) :
    (graph.successors source).Nodup := by
  rw [successors, graph.listed]
  refine (graph.edges.distinct.filter _).map_on fun first isFirst second isSecond sameTarget => ?_
  have fromSource := of_decide_eq_true (List.mem_filter.mp isFirst).2
  have alsoFromSource := of_decide_eq_true (List.mem_filter.mp isSecond).2
  exact Prod.ext (fromSource.trans alsoFromSource.symm) sameTarget

namespace State

/-- What an access through a variable asks for once an object has reached the variable in a
context: that objects flow from one pointer to another. -/
inductive Requires (program : Program) (var : VarId) (context : ContextId) (object : QualifiedId) :
    Pointer → Pointer → Prop
  | fieldStore {site : Site} {field : FieldId} {source : VarId} :
      program.stmt site = .storeField (some var) field source →
      program.isReference source = true →
      Requires program var context object (.var source context) (.instanceField object field)
  | fieldLoad {site : Site} {field : FieldId} {target : VarId} :
      program.stmt site = .loadField target (some var) field →
      program.isReference target = true →
      Requires program var context object (.instanceField object field) (.var target context)
  | arrayStore {site : Site} {index source : VarId} :
      program.stmt site = .storeArray var index source →
      program.isReference source = true →
      Requires program var context object (.var source context) (.elements object)
  | arrayLoad {site : Site} {index target : VarId} :
      program.stmt site = .loadArray target var index →
      program.isReference target = true →
      Requires program var context object (.elements object) (.var target context)

/-- A call on an object runs a method in the context that is selected for it, which is known
already, and the object is the receiver there or is on its way to it. -/
def Runs (state : State) (program : Program) (selector : Selector) (object : QualifiedId)
    (call : QualifiedSite) (kind : CallKind) (method : MethodId) : Prop :=
  ∃ context,
    selector.calleeContext state.contexts call (some (state.heap.qualifiedObject object)) =
      (context, state.contexts) ∧
    ⟨kind, call, ⟨context, method⟩⟩ ∈ state.calls.edges ∧
    ∀ this, (program.methodDef method).this = some this → state.Sent object (.var this context)

/-- How a state stores what it knows: a set lists its members, the edges are also listed with the
pointers they come from, and everything that has a number has one of its own. -/
structure Stored (state : State) : Prop where
  held (id : PointerId) : (state.flow.objects id).ListsMembers
  pending {id : PointerId} {objects : ObjectSet} : .objects id objects ∈ state.worklist.items →
    objects.ListsMembers
  edges : state.flow.edges.ListsMembers
  successorsOnce (source : PointerId) : (state.flow.successors source).Nodup
  successors {source target : PointerId} :
    target ∈ state.flow.successors source ↔ state.flow.hasEdge source target = true
  pointers : IsNumbering state.flow.number? state.flow.pointer? state.flow.pointers.size
  contexts : IsNumbering state.contexts.lists.number? state.contexts.lists.get?
    state.contexts.lists.size
  objects : IsNumbering state.heap.sites.number? state.heap.site? state.heap.objects.length
  qualified : IsNumbering state.heap.qualified.number? state.heap.qualified.get?
    state.heap.qualified.size

theorem stored (state : State) : state.Stored where
  held _ := ArrivalSet.listsMembers _
  pending _ := ArrivalSet.listsMembers _
  edges := ArrivalSet.listsMembers _
  successorsOnce := FlowGraph.nodup_successors _
  successors := FlowGraph.mem_successors.trans ArrivalSet.contains_iff.symm
  pointers := ArrivalSet.isNumbering _
  contexts := ArrivalSet.isNumbering _
  objects := Heap.isNumbering _
  qualified := ArrivalSet.isNumbering _

/-- What holds of an analysis whatever has been done so far. -/
structure Invariant (program : Program) (selector : Selector) (state : State) : Prop where
  flowing {source target : PointerId} {object : QualifiedId} :
    state.flow.hasEdge source target = true → object ∈ (state.flow.objects source).elements →
      state.Delivered target object
  called {edge : CallEdge QualifiedSite QualifiedMethod} : edge ∈ state.calls.edges →
    state.Scheduled edge.callee
  included {id : PointerId} {var : VarId} {context : ContextId} {object : QualifiedId}
      {source target : Pointer} :
    state.flow.pointer? id = some (.var var context) →
      object ∈ (state.flow.objects id).elements →
      Requires program var context object source target → state.Connected source target
  resolved {id : PointerId} {var : VarId} {context : ContextId} {object : QualifiedId}
      {site : Site} {invoke : Invoke} {method : MethodId} :
    state.flow.pointer? id = some (.var var context) →
      object ∈ (state.flow.objects id).elements → program.stmt site = .call invoke →
      invoke.receiver = some var →
      target? program invoke (state.heap.typeOf object) = some method →
      state.Runs program selector object ⟨context, site⟩ invoke.kind method
  stored : state.Stored

/-- An analysis goes on when its entry methods are scheduled, or when a piece of work is done. -/
def GoesOn (program : Program) (selector : Selector) (old new : State) : Prop :=
  start program old = .ok new ∨ step? program selector old = some new

variable {program : Program} {selector : Selector} {facts : Set Finding} {state old new : State}

theorem eq_enter_of_start (isStarted : start program old = .ok new) : new = enter program old := by
  unfold start at isStarted
  split at isStarted
  case isTrue => cases isStarted
  case isFalse => exact (Except.ok.inj isStarted).symm

theorem advances_goesOn (closed : Closed program selector facts)
    (lawful : Lawful program facts old) (goesOn : GoesOn program selector old new) :
    Advances program selector facts old new := by
  rcases goesOn with isStarted | isStep
  · rw [eq_enter_of_start isStarted]
    exact (advances_enter closed lawful).1
  · exact advances_step closed lawful isStep

/-- What accesses require of an object that has been processed is so. -/
theorem connected_of_objectDone {var : VarId}
    {context : ContextId} {object : QualifiedId} {source target : Pointer}
    (done : state.ObjectDone program selector var context object)
    (isRequired : Requires program var context object source target) :
    state.Connected source target := by
  have accessed {site : Site} {stmt : Stmt} (isStmt : program.stmt site = stmt)
      (isBase : stmt.base? = some var) : state.AccessDone program object ⟨context, site⟩ :=
    done.1 site (mem_accessesThrough.mpr (isStmt ▸ isBase))
  cases isRequired with
  | fieldStore isStore isReference =>
      simpa [AccessDone, isStore, isReference] using accessed isStore rfl
  | fieldLoad isLoad isReference =>
      simpa [AccessDone, isLoad, isReference] using accessed isLoad rfl
  | arrayStore isStore isReference =>
      simpa [AccessDone, isStore, isReference] using accessed isStore rfl
  | arrayLoad isLoad isReference =>
      simpa [AccessDone, isLoad, isReference] using accessed isLoad rfl

/-- Selecting again the context that a call on an object has been resolved in changes nothing. -/
theorem runs_of_callDone (numbered : Numbered program state) {object : QualifiedId}
    {call : QualifiedSite} {invoke : Invoke} {method : MethodId}
    (done : state.CallDone program selector object call)
    (isCall : program.stmt call.site = .call invoke)
    (isTarget : target? program invoke (state.heap.typeOf object) = some method) :
    state.Runs program selector object call invoke.kind method := by
  obtain ⟨qualified, abstract, isQualified, isObject, resolved⟩ := done invoke isCall
  have isTy : state.heap.typeOf object = abstract.ty := by
    simp [Heap.typeOf, Heap.objectOf, Heap.qualifiedObject, Heap.object, isQualified, isObject]
  rw [isTy] at isTarget
  obtain ⟨context, caller, receiver, isEdge, isSent, isCaller, isReceiver, isSelected⟩ :=
    resolved method isTarget
  refine ⟨context, ?_, isEdge, isSent⟩
  have isQualifiedObject : state.heap.qualifiedObject object = qualified := by
    rw [Heap.qualifiedObject, isQualified, Option.getD_some]
  rw [Selector.calleeContext_eq numbered.emptyContext isCaller, isQualifiedObject, Option.map_some,
    Contexts.get_of_get? isReceiver]
  exact Contexts.intern_of_get? isSelected

/-- An analysis that has been started is lawful and complete, however far it has got. -/
theorem complete_of_goesOn
    (isReached : Relation.ReflTransGen (GoesOn program selector) .initial state) :
    Lawful program Set.univ state ∧ (state = .initial ∨ Complete program selector state) := by
  induction isReached with
  | refl => exact ⟨lawful_initial, .inl rfl⟩
  | tail _ goesOn ih =>
      obtain ⟨lawful, isComplete⟩ := ih
      have advances := advances_goesOn closed_univ lawful goesOn
      refine ⟨advances.lawful, .inr ?_⟩
      -- There is no work before the entry methods are scheduled, which is all that the empty
      -- state lacks; from then on, whatever is done keeps the analysis complete.
      rcases isComplete with rfl | complete
      · rcases goesOn with isStarted | isStep
        · rw [eq_enter_of_start isStarted]
          exact (complete_enter closed_univ).2
        · cases isStep
      · exact advances.complete lawful complete

/-- What is driven by hand goes on. -/
theorem goesOn_advance (selector : Selector) (count : Nat)
    (isReached : Relation.ReflTransGen (GoesOn program selector) .initial state) :
    Relation.ReflTransGen (GoesOn program selector) .initial
      (advance program selector count state) := by
  let IsReached (other : State) : Prop :=
    Relation.ReflTransGen (GoesOn program selector) .initial other
  exact advance_induction (motive := IsReached)
    (fun isOld isStep => isOld.tail (.inr isStep)) isReached

/-- Whenever an analysis is looked at, no object, method, access or call has been forgotten, sets
list their members and numbers belong to single things, and no later state takes back anything:
neither the numbers that there are nor what has been found. -/
theorem invariant_of_goesOn
    (isReached : Relation.ReflTransGen (GoesOn program selector) .initial state) :
    state.Invariant program selector ∧
      ∀ next, GoesOn program selector state next → Grows state next := by
  obtain ⟨lawful, isComplete⟩ := complete_of_goesOn isReached
  have processed {id : PointerId} {var : VarId} {context : ContextId} {object : QualifiedId}
      (isVar : state.flow.pointer? id = some (.var var context))
      (isHeld : object ∈ (state.flow.objects id).elements) :
      state.ObjectDone program selector var context object := by
    rcases isComplete with rfl | complete
    · cases isHeld
    · exact complete.accessed isHeld isVar
  refine ⟨?_, fun next goesOn => (advances_goesOn closed_univ lawful goesOn).toGrows⟩
  constructor
  case flowing =>
      intro source target object isEdge isHeld
      exact lawful.flowing (ArrivalSet.contains_iff.mp isEdge) isHeld
  case called =>
      intro edge isEdge
      rcases isComplete with rfl | complete
      · cases isEdge
      · exact (complete.linked isEdge).1
  case included =>
      intro id var context object source target isVar isHeld isRequired
      exact connected_of_objectDone (processed isVar isHeld) isRequired
  case resolved =>
      intro id var context object site invoke method isVar isHeld isCall isReceiver isTarget
      have isListed := mem_callsOn.mpr ⟨_, isCall, isReceiver⟩
      exact runs_of_callDone lawful.numbered ((processed isVar isHeld).2 site isListed) isCall
        isTarget
  case stored => exact stored state

/-- An object that is stored in a field of itself, loaded again and called. -/
def selfLinkedText : String := "class Main { field Main next; method m() : void { return; }
  static method main() : void { var Main x, y; x = new Main; x.next = x; y = x.next;
  invokevirtual y.<Main: void m()>(); return; } }"

/-- The call has been found, and neither has its receiver arrived nor is its method reachable. -/
theorem invariant_of_goesOn_selfLinked : ∃ program state,
    Program.ofText selfLinkedText = .ok program ∧
    Relation.ReflTransGen (GoesOn program (.receivers 1)) .initial state ∧
    state.flow.edges.size = 2 ∧ state.calls.edges.length = 1 ∧ state.worklist.size = 2 ∧
    state.Invariant program (.receivers 1) ∧
      ∀ next, GoesOn program (.receivers 1) state next → Grows state next := by
  have passes : (Program.ofText selfLinkedText).toOption.any (fun program =>
      (start program .initial).toOption.any fun started =>
        let state := advance program (.receivers 1) 4 started
        decide (state.flow.edges.size = 2 ∧ state.calls.edges.length = 1 ∧
          state.worklist.size = 2)) = true := by decide +kernel
  obtain ⟨program, isProgram, starts⟩ := exists_of_test passes
  obtain ⟨started, isStarted, isMiddle⟩ := exists_of_test starts
  have isReached := goesOn_advance (.receivers 1) 4 (.single (.inl isStarted))
  obtain ⟨edges, calls, work⟩ := of_decide_eq_true isMiddle
  exact ⟨program, _, isProgram, isReached, edges, calls, work,
    invariant_of_goesOn isReached⟩

end State

end PointsTo

end TacAnalysis
