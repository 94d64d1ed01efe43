/-
# Points-to analysis refines class hierarchy analysis

Both analyses resolve calls on objects, one from the objects that reach the receiver, the
other one from the declared type alone. A receiver that is not of a subtype of the class
named at the call is passed over, so that the methods found from objects are among those
found from the type. What class hierarchy analysis allows for is therefore closed under
the rules of points-to analysis, whatever the contexts: nothing more is ever found out.
-/

import TacAnalysis.Proofs.PointsTo.EntryMethods
import TacAnalysis.Proofs.PointsTo.Extent
import TacAnalysis.Proofs.PointsTo.Settled
import TacAnalysis.Proofs.Resolution.Hierarchy
import TacAnalysis.Proofs.Resolution.Reading

namespace TacAnalysis.PointsTo

variable {program : Program} {selector : Selector} {calls : CallGraph Site MethodId}

/-- The method that a call runs on an object is one of those that the declared types allow. -/
theorem Resolves.mem_resolve {invoke : Invoke} {ty : Ty} {method : MethodId}
    (resolves : Resolves program invoke ty method) (linked : program.Linked)
    (notStatic : invoke.kind ≠ .static) : method ∈ program.resolve invoke := by
  unfold Program.resolve
  cases resolves with
  | special isSpecial dispatched =>
      rw [isSpecial]
      exact Option.mem_toList.mpr dispatched
  | dynamic notSpecial _ isSubtype dispatched =>
      have isCallee : method ∈ ascending ((program.descendants invoke.target.owner).filterMap
          (program.dispatch · invoke.target.sub)) := by
        rw [mem_ascending, List.mem_filterMap]
        exact ⟨_, linked.isSubtype_iff.mp isSubtype, dispatched⟩
      cases isKind : invoke.kind with
      | static => exact absurd isKind notStatic
      | special => exact absurd isKind notSpecial
      | virtual => exact isCallee
      | interface => exact isCallee

/-- A variable belongs to a method that a call graph reaches. -/
def OwnerReached (program : Program) (calls : CallGraph Site MethodId) (var : VarId) : Prop :=
  (program.localDef var).method ∈ calls.reachable

/-- A place is not a variable of a method that a call graph does not reach. -/
def Place.Within (program : Program) (calls : CallGraph Site MethodId) : Place → Prop
  | .var holder _ => OwnerReached program calls holder
  | _ => True

/-- A call graph allows for a finding: only variables of reachable methods hold anything,
and calls run nothing but what the graph has edges to. -/
def Finding.Within (program : Program) (calls : CallGraph Site MethodId) : Finding → Prop
  | .reachable activation => activation.method ∈ calls.reachable
  | .holds place _ => place.Within program calls
  | .flows _ target => target.Within program calls
  | .calls kind _ site callee => ⟨kind, site, callee.method⟩ ∈ calls.edges

section Closed

variable {text : String}

/-- The edge of a call on an object is one of the call graph. -/
theorem mem_edges_of_resolves (isProgram : Program.ofText text = .ok program)
    (isGraph : program.IsHierarchyGraph calls) {site : Site} {invoke : Invoke}
    {receiver : VarId} {ty : Ty} {method : MethodId} (isReachable : site.method ∈ calls.reachable)
    (isCall : program.stmt site = .call invoke) (isReceiver : invoke.receiver = some receiver)
    (resolves : Resolves program invoke ty method) :
    ⟨invoke.kind, site, method⟩ ∈ calls.edges := by
  have notStatic : invoke.kind ≠ .static := by
    intro isStatic
    cases ((Program.callFits_ofText isProgram isCall).mp isStatic).symm.trans isReceiver
  apply (isGraph.edges _).mpr
  refine ⟨isReachable, Program.mem_methodEdges.mpr ⟨rfl, invoke, isCall, rfl, ?_⟩⟩
  exact resolves.mem_resolve (Program.linked_ofText isProgram) notStatic

/-- What the call graph of class hierarchy analysis reaches and has edges to. -/
def hierarchyExtent (selector : Selector) (isProgram : Program.ofText text = .ok program)
    (isGraph : program.IsHierarchyGraph calls) : Extent program selector Set.univ where
  runs activation := activation.method ∈ calls.reachable
  calls kind _ site callee := ⟨kind, site, callee.method⟩ ∈ calls.edges
  allocates _ := True
  entry {method} isEntry := isGraph.started method isEntry
  allocation _ _ _ := trivial
  staticCall {context site invoke method} isReachable isCall isStatic dispatched _ := by
    apply (isGraph.edges _).mpr
    refine ⟨isReachable, Program.mem_methodEdges.mpr ⟨rfl, invoke, isCall, isStatic.symm, ?_⟩⟩
    unfold Program.resolve
    rw [isStatic]
    exact Option.mem_toList.mpr dispatched
  instanceCall isReachable _ isCall isReceiver resolves _ :=
    mem_edges_of_resolves isProgram isGraph isReachable isCall isReceiver resolves
  caller isEdge := ((isGraph.edges _).mp isEdge).1
  callee isEdge := isGraph.closed _ isEdge

/-- No rule of points-to analysis leads out of what the call graph of class hierarchy
analysis allows for. -/
theorem closed_within (isProgram : Program.ofText text = .ok program)
    (isGraph : program.IsHierarchyGraph calls) :
    Closed program selector {finding | finding.Within program calls} := by
  have sameFindings : {finding | finding.Within program calls} = {finding | finding ∈ Set.univ ∧
      (hierarchyExtent selector isProgram isGraph).Admits finding} := by
    have samePlaces (place : Place) : place.Within program calls ↔
        (hierarchyExtent selector isProgram isGraph).Reaches place := by
      cases place <;> rfl
    ext finding
    refine Iff.trans ?_ (and_iff_right trivial).symm
    cases finding with
    | reachable activation => rfl
    | holds place object => exact (samePlaces place).trans (and_iff_left trivial).symm
    | flows source target => exact samePlaces target
    | calls kind context site callee => rfl
  rw [sameFindings]
  exact Extent.closed _ (Program.owned_ofText isProgram) (Program.ownsEntryVars_ofText isProgram)
    State.closed_univ

end Closed

namespace State

variable {state : State}

/-- What points-to analysis finds out is within the call graph of class hierarchy
analysis. -/
theorem within_of_shows {text : String} {steps : Nat}
    (isProgram : Program.ofText text = .ok program)
    (isGraph : program.IsHierarchyGraph calls)
    (solved : program.pointsTo selector steps = .ok state) {finding : Finding}
    (shows : state.Shows finding) : finding.Within program calls :=
  (complete_solve (closed_within isProgram isGraph) solved).1.findings_subset shows

/-- Whatever the contexts, the call graph found from objects has the entry methods of the
one found from declared types, in the same order, and no methods or edges but those of the
latter. -/
theorem refines_hierarchyCallGraph {text : String} {steps : Nat}
    (isProgram : Program.ofText text = .ok program)
    (solved : program.pointsTo selector steps = .ok state) :
    ∃ calls, program.hierarchyCallGraph = .ok calls ∧
      state.callGraph.entries = calls.entries ∧
      (∀ method ∈ state.callGraph.reachable, method ∈ calls.reachable) ∧
      ∀ edge ∈ state.callGraph.edges, edge ∈ calls.edges ∧
        ∃ invoke, program.stmt edge.site = .call invoke ∧ edge.kind = invoke.kind ∧
          edge.callee ∈ program.resolve invoke := by
  obtain ⟨calls, isBuilt⟩ : ∃ calls, program.hierarchyCallGraph = .ok calls := by
    have isStarted : ¬ program.entries.isEmpty = true := by
      rw [(run_of_pointsTo solved).1]
      exact Bool.false_ne_true
    rw [Program.hierarchyCallGraph, if_neg isStarted]
    exact ⟨_, rfl⟩
  have isGraph := Program.isHierarchyGraph isBuilt
  refine ⟨calls, isBuilt, entries_callGraph_eq solved isBuilt, ?_, ?_⟩
  · intro method isReachable
    obtain ⟨qualified, isQualified, rfl⟩ := mem_reachable_callGraph.mp isReachable
    have shows : state.Shows (.reachable (state.activation qualified)) :=
      ⟨qualified, isQualified, rfl⟩
    exact within_of_shows isProgram isGraph solved shows
  · intro edge isEdge
    obtain ⟨qualified, isQualified, rfl⟩ := mem_edges_callGraph.mp isEdge
    have shows : state.Shows (.calls qualified.kind (state.contextList qualified.site.context)
        qualified.site.site (state.activation qualified.callee)) :=
      ⟨qualified, isQualified, rfl, rfl, rfl, rfl⟩
    have isHierarchyEdge : plainEdge qualified ∈ calls.edges :=
      within_of_shows isProgram isGraph solved shows
    have isCall := Program.mem_methodEdges.mp ((isGraph.edges _).mp isHierarchyEdge).2
    exact ⟨isHierarchyEdge, isCall.2⟩

/-- A program that calls a method of a class on an object of a subclass overriding it. -/
def overridingText : String := "class A { method m() : void { return; }
  static method main() : void { var A x; x = new B; invokevirtual x.<A: void m()>(); return; } }
  class B extends A { method m() : void { return; } }"

/-- Where two methods may run by the declared type, the object that reaches the receiver
leaves one. -/
theorem refines_overriding : ∃ program state,
    Program.ofText overridingText = .ok program ∧
    program.pointsTo (.receivers 1) 20 = .ok state ∧
    state.calls.edges.map (fun edge => edge.callee.method) = [2] ∧
    ∃ calls, program.hierarchyCallGraph = .ok calls ∧
      state.callGraph.entries = calls.entries ∧
      (∀ method ∈ state.callGraph.reachable, method ∈ calls.reachable) ∧
      ∀ edge ∈ state.callGraph.edges, edge ∈ calls.edges ∧
        ∃ invoke, program.stmt edge.site = .call invoke ∧ edge.kind = invoke.kind ∧
          edge.callee ∈ program.resolve invoke := by
  have passes : (Program.ofText overridingText).toOption.any (fun program =>
      (program.pointsTo (.receivers 1) 20).toOption.any fun state =>
        decide (state.calls.edges.map (fun edge => edge.callee.method) = [2])) = true := by
    decide +kernel
  obtain ⟨program, isProgram, ends⟩ := exists_of_test passes
  obtain ⟨state, solved, holds⟩ := exists_of_test ends
  exact ⟨program, state, isProgram, solved, of_decide_eq_true holds,
    refines_hierarchyCallGraph isProgram solved⟩

end State

end TacAnalysis.PointsTo
