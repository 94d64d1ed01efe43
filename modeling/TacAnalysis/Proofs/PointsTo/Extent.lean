/-
# How far a points-to analysis goes

A variable belongs to a method, so that what is known of the methods that run in contexts is
known of the variables in these contexts. For a property of methods, calls and objects to
hold of all that an analysis finds out, it is enough that it goes along with calls and with
allocations; accesses, assignments and the passing of arguments and results need not be
looked at.
-/

import TacAnalysis.Proofs.PointsTo.Findings
import TacAnalysis.Proofs.Resolution.Ownership

namespace TacAnalysis.PointsTo

/-- A property of methods, of calls and of objects that the rules of an analysis keep, where
they apply to some findings. -/
structure Extent (program : Program) (selector : Selector) (facts : Set Finding) where
  runs : Activation → Prop
  calls : CallKind → List ContextItem → Site → Activation → Prop
  allocates : Origin → Prop
  entry {method : MethodId} : method ∈ program.entries → runs ⟨[], method⟩
  allocation {context : List ContextItem} {site : Site} {target : VarId} {ty : Ty} :
    runs ⟨context, site.method⟩ → .reachable ⟨context, site.method⟩ ∈ facts →
    program.stmt site = .new target ty → allocates ⟨selector.heapList context, site⟩
  staticCall {context : List ContextItem} {site : Site} {invoke : Invoke} {method : MethodId} :
    runs ⟨context, site.method⟩ → program.stmt site = .call invoke → invoke.kind = .static →
    program.dispatch invoke.target.owner invoke.target.sub = some method →
    .calls .static context site ⟨selector.staticList context site, method⟩ ∈ facts →
    calls .static context site ⟨selector.staticList context site, method⟩
  instanceCall {context : List ContextItem} {site : Site} {invoke : Invoke} {receiver : VarId}
      {object : Origin} {method : MethodId} :
    runs ⟨context, site.method⟩ → allocates object → program.stmt site = .call invoke →
    invoke.receiver = some receiver →
    Resolves program invoke (allocatedTy program object.site) method →
    .calls invoke.kind context site ⟨selector.receiverList context site object, method⟩ ∈ facts →
    calls invoke.kind context site ⟨selector.receiverList context site object, method⟩
  caller {kind : CallKind} {context : List ContextItem} {site : Site} {callee : Activation} :
    calls kind context site callee → runs ⟨context, site.method⟩
  callee {kind : CallKind} {context : List ContextItem} {site : Site} {callee : Activation} :
    calls kind context site callee → runs callee

namespace Extent

variable {program : Program} {selector : Selector} {facts : Set Finding}

/-- Variables are those of methods that may run. -/
def Reaches (extent : Extent program selector facts) : Place → Prop
  | .var holder context => extent.runs ⟨context, (program.localDef holder).method⟩
  | _ => True

/-- Findings are about what may run, be called and be allocated. -/
def Admits (extent : Extent program selector facts) : Finding → Prop
  | .reachable activation => extent.runs activation
  | .holds place object => extent.Reaches place ∧ extent.allocates object
  | .flows _ target => extent.Reaches target
  | .calls kind context site callee => extent.calls kind context site callee

variable (extent : Extent program selector facts)

/-- The variables of a statement are reached along with its method. -/
theorem reaches_iff (owned : program.Owned) {site : Site} {var : VarId}
    {context : List ContextItem} (mentions : (program.stmt site).Mentions var) :
    extent.Reaches (.var var context) ↔ extent.runs ⟨context, site.method⟩ := by
  rw [Reaches, (owned site var mentions).2]

/-- The receiver and the parameters of a method are reached along with it. -/
theorem reaches_entryVar (owns : program.OwnsEntryVars) {callee : Activation} {var : VarId}
    (runs : extent.runs callee) (isEntryVar : var ∈ (program.methodDef callee.method).entryVars) :
    extent.Reaches (.var var callee.context) := by
  rw [Reaches, (owns callee.method var isEntryVar).2]
  exact runs

/-- No rule leads out of the findings that a property goes with. -/
theorem closed (owned : program.Owned) (owns : program.OwnsEntryVars)
    (closed : Closed program selector facts) :
    Closed program selector {finding | finding ∈ facts ∧ extent.Admits finding} := by
  have defines {context : List ContextItem} {site : Site} {var : VarId}
      (runs : extent.runs ⟨context, site.method⟩) (isDef : (program.stmt site).def? = some var) :
      extent.Reaches (.var var context) :=
    (extent.reaches_iff owned (.inl isDef)).mpr runs
  have accesses {context : List ContextItem} {site : Site} {base target : VarId}
      (isReached : extent.Reaches (.var base context)) (isRead : base ∈ (program.stmt site).uses)
      (isDef : (program.stmt site).def? = some target) : extent.Reaches (.var target context) :=
    defines ((extent.reaches_iff owned (.inr isRead)).mp isReached) isDef
  have callEdge {context : List ContextItem} {site : Site} {invoke : Invoke} {receiver : VarId}
      {object : Origin} {method : MethodId}
      (isHeld : .holds (.var receiver context) object ∈ facts ∧
        extent.Admits (.holds (.var receiver context) object))
      (isCall : program.stmt site = .call invoke) (isReceiver : invoke.receiver = some receiver)
      (resolves : Resolves program invoke (allocatedTy program object.site) method) :
      extent.calls invoke.kind context site
        ⟨selector.receiverList context site object, method⟩ := by
    have isRead : receiver ∈ (program.stmt site).uses := by simp [isCall, Stmt.uses, isReceiver]
    have runs := (extent.reaches_iff owned (.inr isRead)).mp isHeld.2.1
    exact extent.instanceCall runs isHeld.2.2 isCall isReceiver resolves
      (closed.instanceCall isHeld.1 isCall isReceiver resolves)
  constructor
  case entry =>
      intro method isEntry
      exact ⟨closed.entry isEntry, extent.entry isEntry⟩
  case allocation =>
      intro context site target ty isReachable isNew
      exact ⟨closed.allocation isReachable.1 isNew, defines isReachable.2 (by rw [isNew]; rfl),
        extent.allocation isReachable.2 isReachable.1 isNew⟩
  case copy =>
      intro context site target source isReachable isCopy isReference
      exact ⟨closed.copy isReachable.1 isCopy isReference,
        defines isReachable.2 (by rw [isCopy]; rfl)⟩
  case cast =>
      intro context site target source ty isReachable isCast isReference
      exact ⟨closed.cast isReachable.1 isCast isReference,
        defines isReachable.2 (by rw [isCast]; rfl)⟩
  case staticLoad =>
      intro context site target field isReachable isLoad isReference
      exact ⟨closed.staticLoad isReachable.1 isLoad isReference,
        defines isReachable.2 (by rw [isLoad]; rfl)⟩
  case staticStore =>
      intro context site source field isReachable isStore isReference
      exact ⟨closed.staticStore isReachable.1 isStore isReference, trivial⟩
  case staticCall =>
      intro context site invoke method isReachable isCall isStatic dispatched
      have isFact := closed.staticCall isReachable.1 isCall isStatic dispatched
      exact ⟨isFact, extent.staticCall isReachable.2 isCall isStatic dispatched isFact⟩
  case fieldStore =>
      intro context site base source field object isHeld isStore isReference
      exact ⟨closed.fieldStore isHeld.1 isStore isReference, trivial⟩
  case fieldLoad =>
      intro context site base target field object isHeld isLoad isReference
      have isRead : base ∈ (program.stmt site).uses := by simp [isLoad, Stmt.uses]
      exact ⟨closed.fieldLoad isHeld.1 isLoad isReference,
        accesses isHeld.2.1 isRead (by rw [isLoad]; rfl)⟩
  case elementStore =>
      intro context site base index source object isHeld isStore isReference
      exact ⟨closed.elementStore isHeld.1 isStore isReference, trivial⟩
  case elementLoad =>
      intro context site base index target object isHeld isLoad isReference
      have isRead : base ∈ (program.stmt site).uses := by simp [isLoad, Stmt.uses]
      exact ⟨closed.elementLoad isHeld.1 isLoad isReference,
        accesses isHeld.2.1 isRead (by rw [isLoad]; rfl)⟩
  case instanceCall =>
      intro context site invoke receiver object method isHeld isCall isReceiver resolves
      exact ⟨closed.instanceCall isHeld.1 isCall isReceiver resolves,
        callEdge isHeld isCall isReceiver resolves⟩
  case this =>
      intro context site invoke receiver this object method isHeld isCall isReceiver resolves
        isThis
      have runs := extent.callee (callEdge isHeld isCall isReceiver resolves)
      refine ⟨closed.this isHeld.1 isCall isReceiver resolves isThis, ?_, isHeld.2.2⟩
      exact extent.reaches_entryVar owns runs (List.mem_append_left _ (Option.mem_toList.mpr isThis))
  case callee =>
      intro kind context site callee isEdge
      exact ⟨closed.callee isEdge.1, extent.callee isEdge.2⟩
  case argument =>
      intro kind context site callee invoke argument parameter isEdge isCall isPassed isReference
      refine ⟨closed.argument isEdge.1 isCall isPassed isReference, ?_⟩
      exact extent.reaches_entryVar owns (extent.callee isEdge.2)
        (List.mem_append_right _ (List.of_mem_zip isPassed).2)
  case result =>
      intro kind context site callee invoke result value isEdge isCall isResult isReference
        isReturned
      exact ⟨closed.result isEdge.1 isCall isResult isReference isReturned,
        defines (extent.caller isEdge.2) (by rw [isCall]; exact isResult)⟩
  case flow =>
      intro source target object isFlow isHeld
      exact ⟨closed.flow isFlow.1 isHeld.1, isFlow.2, isHeld.2.2⟩

end Extent

end TacAnalysis.PointsTo
