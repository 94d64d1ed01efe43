/-
# Points-to analysis

Computes which objects every pointer may hold, and which methods every call may
run, for a whole program. The two depend on each other: a call on an object is
resolved when the object reaches its receiver, and resolving it lets objects flow
to the parameters and from the result of the method it runs. One worklist serves
both, and only objects that a pointer did not hold yet are passed on.
-/

import TacAnalysis.CallGraph
import TacAnalysis.Hierarchy
import TacAnalysis.PointsTo.Selector
import TacAnalysis.PointsTo.Worklist

namespace TacAnalysis.PointsTo

instance : CallSite QualifiedSite QualifiedMethod where
  container call := ⟨call.context, call.site.method⟩

/-- A call graph of methods in contexts. -/
abbrev QualifiedCallGraph := CallGraph QualifiedSite QualifiedMethod

/-- A points-to analysis in progress. -/
structure State where
  contexts : Contexts
  heap : Heap
  flow : FlowGraph
  worklist : Worklist
  calls : QualifiedCallGraph
  /-- The number of pieces of work done. -/
  iterations : Nat
  deriving DecidableEq, Inhabited

namespace State

/-- Before the analysis nothing is known, and there is nothing to do. -/
def initial : State := ⟨.initial, .empty, .empty, .empty, .empty, 0⟩

/-- Leaves work for later. -/
def schedule (state : State) (item : WorkItem) : State :=
  { state with worklist := state.worklist.push item }

/-- Takes notice of a pointer. -/
def meet (state : State) (pointer : Pointer) : State :=
  { state with flow := (state.flow.intern pointer).2 }

/-- Schedules an object for a pointer. -/
def send (state : State) (object : QualifiedId) (pointer : Pointer) : State :=
  let (id, flow) := state.flow.intern pointer
  { state with flow }.schedule (.objects id (.singleton object))

/-- Lets objects flow from a pointer to another, beginning with those it already
holds. -/
def connect (state : State) (source target : Pointer) : State :=
  let (sourceId, flow) := state.flow.intern source
  let (targetId, flow) := flow.intern target
  let (isNew, flow) := flow.addEdge sourceId targetId
  let objects := flow.objects sourceId
  if isNew && !objects.isEmpty then { state with flow }.schedule (.objects targetId objects)
  else { state with flow }

variable (program : Program)

/-- Connects two variables in their contexts when the variable that receives, or
gives, is of a reference type. -/
def connectIf (typed : VarId) (state : State) (source target : Pointer) : State :=
  if program.isReference typed then state.connect source target else state

/-- Passes arguments to parameters, by position. -/
def passArguments (state : State) (call : QualifiedSite) (arguments : List VarId)
    (callee : QualifiedMethod) : State :=
  (arguments.zip (program.methodDef callee.method).params).foldl
    (fun state (argument, parameter) =>
      connectIf program parameter state (.var argument call.context)
        (.var parameter callee.context))
    state

/-- Passes the values that a method returns to the result of a call. -/
def passResult (state : State) (call : QualifiedSite) (result : Option VarId)
    (callee : QualifiedMethod) : State :=
  match result with
  | none => state
  | some result =>
      if program.isReference result then
        (program.methodDef callee.method).returned.foldl
          (fun state value =>
            state.connect (.var value callee.context) (.var result call.context))
          (state.meet (.var result call.context))
      else state

/-- Records that a call may run a method. The first time, the method is scheduled
and linked to the call. -/
def link (state : State) (call : QualifiedSite) (invoke : Invoke) (callee : QualifiedMethod) :
    State :=
  let (isNew, calls) := state.calls.addEdge ⟨invoke.kind, call, callee⟩
  if isNew then
    let called := { state with calls }.schedule (.method callee)
    passResult program (passArguments program called call invoke.args callee) call invoke.result
      callee
  else state

variable (selector : Selector)

/-- Resolves a static call. -/
def callStatic (state : State) (call : QualifiedSite) (invoke : Invoke) : State :=
  match program.dispatch invoke.target.owner invoke.target.sub with
  | none => state
  | some method =>
      let (context, contexts) := selector.calleeContext state.contexts call none
      link program { state with contexts } call invoke ⟨context, method⟩

/-- Processes an allocation: an object reaches a variable. -/
def allocate (state : State) (context : ContextId) (site : Site) (target : VarId) (ty : Ty) :
    State :=
  let (object, heap) := state.heap.allocate site ty
  let (heapContext, contexts) := selector.heapContext state.contexts context
  let (qualified, heap) := heap.qualify heapContext object
  { state with heap, contexts }.send qualified (.var target context)

/-- Processes a statement of a method that has become reachable. Accesses to
instance fields and to arrays, and calls on objects, wait for the objects. -/
def visitStmt (state : State) (point : QualifiedSite) : State :=
  let context := point.context
  match program.stmt point.site with
  | .new target ty => state.allocate selector context point.site target ty
  | .copy target source | .cast target _ source =>
      connectIf program target state (.var source context) (.var target context)
  | .loadField target none field =>
      connectIf program target state (.staticField field) (.var target context)
  | .storeField none field source =>
      connectIf program source state (.var source context) (.staticField field)
  | .call invoke =>
      if invoke.kind = .static then callStatic program selector state point invoke else state
  | _ => state

/-- Makes a method reachable, and processes its statements the first time. -/
def visitMethod (state : State) (method : QualifiedMethod) : State :=
  let (isNew, calls) := state.calls.addReachable method
  if isNew then
    (program.sitesOf method.method).foldl
      (fun state site => visitStmt program selector state ⟨method.context, site⟩)
      { state with calls }
  else state

/-- Processes an access to a field or an element of an object that has reached the
base of the access. -/
def visitAccess (state : State) (object : QualifiedId) (point : QualifiedSite) : State :=
  let context := point.context
  match program.stmt point.site with
  | .storeField _ field source =>
      connectIf program source state (.var source context) (.instanceField object field)
  | .loadField target _ field =>
      connectIf program target state (.instanceField object field) (.var target context)
  | .storeArray _ _ source =>
      connectIf program source state (.var source context) (.elements object)
  | .loadArray target _ _ =>
      connectIf program target state (.elements object) (.var target context)
  | _ => state

/-- The class on which calls on an object of a type dispatch. Arrays have the
methods of the root class. -/
def receiverClass? (ty : Ty) : Option ClassId :=
  match ty with
  | .named name => program.classNamed? name
  | .array _ => program.classNamed? rootClassName
  | _ => none

/-- The method that a call runs on an object of a type. An object whose class is
no subtype of the class that the call names cannot be a receiver of the call. -/
def target? (invoke : Invoke) (ty : Ty) : Option MethodId :=
  match invoke.kind with
  | .special => program.dispatch invoke.target.owner invoke.target.sub
  | _ => do
      let cls ← receiverClass? program ty
      if program.isSubtype cls invoke.target.owner then program.dispatch cls invoke.target.sub
      else none

/-- Resolves a call on an object that has reached its receiver. -/
def callOn (state : State) (object : QualifiedId) (call : QualifiedSite) (invoke : Invoke) :
    State :=
  match target? program invoke (state.heap.typeOf object) with
  | none => state
  | some method =>
      let (context, contexts) := selector.calleeContext state.contexts call
        (some (state.heap.qualifiedObject object))
      let state := { state with contexts }
      let received := match (program.methodDef method).this with
        | some this => state.send object (.var this context)
        | none => state
      link program received call invoke ⟨context, method⟩

/-- Processes a call whose receiver an object has reached. -/
def visitCall (state : State) (object : QualifiedId) (point : QualifiedSite) : State :=
  match program.stmt point.site with
  | .call invoke => callOn program selector state object point invoke
  | _ => state

/-- Processes the accesses and calls through a variable that an object has
reached. -/
def visitObject (var : VarId) (context : ContextId) (state : State) (object : QualifiedId) :
    State :=
  let accesses := program.fieldStores var ++ program.fieldLoads var ++
    program.arrayStores var ++ program.arrayLoads var
  let accessed := accesses.foldl
    (fun state site => visitAccess program state object ⟨context, site⟩) state
  (program.callsOn var).foldl
    (fun state site => visitCall program selector state object ⟨context, site⟩) accessed

/-- Lets a pointer hold new objects, and schedules them for the pointers that
objects flow to from there. -/
def pass (state : State) (pointer : PointerId) (news : ObjectSet) : State :=
  if news.isEmpty then state
  else
    (state.flow.successors pointer).foldl
      (fun state successor => state.schedule (.objects successor news))
      { state with flow := state.flow.hold pointer news }

/-- Processes objects that reach a pointer. Those it already holds are not looked
at again. -/
def visitPointer (state : State) (pointer : PointerId) (objects : ObjectSet) : State :=
  let news := (state.flow.objects pointer).missing objects
  let passed := state.pass pointer news
  match passed.flow.pointer? pointer with
  | some (.var var context) =>
      news.elements.foldl (visitObject program selector var context) passed
  | _ => passed

/-- Does a piece of work. -/
def visit (state : State) : WorkItem → State
  | .method method => visitMethod program selector state method
  | .objects pointer objects => visitPointer program selector state pointer objects

/-- Does the work to do first, if there is any. -/
def step? (state : State) : Option State :=
  state.worklist.pop?.map fun (item, worklist) =>
    visit program selector { state with worklist, iterations := state.iterations + 1 } item

/-- Records the entry methods and schedules them, in the empty context. -/
def enter (state : State) : State :=
  program.entries.foldl
    (fun state method =>
      let entry : QualifiedMethod := ⟨Contexts.emptyContext, method⟩
      { state with calls := state.calls.addEntry entry }.schedule (.method entry))
    state

/-- Schedules the entry methods, without which there is nothing to analyze. -/
def start (state : State) : Except AnalysisError State :=
  if program.entries.isEmpty then .error .noEntryMethod else .ok (enter program state)

/-- Works until there is nothing left to do. There is no answer when that takes
more than a number of steps. -/
def run : (steps : Nat) → State → Except AnalysisError State
  | 0, state => if state.worklist.isEmpty then .ok state else .error .unsettled
  | steps + 1, state =>
      match step? program selector state with
      | none => .ok state
      | some next => run steps next

/-- Schedules the entry methods and works until there is nothing left to do. -/
def solve (steps : Nat) (state : State) : Except AnalysisError State := do
  run program selector steps (← start program state)

end State

end TacAnalysis.PointsTo
