/-
# The methods that class hierarchy analysis reaches

A method may be scheduled several times, and before it is marked as reachable; visited
again, it adds nothing. The visits come to an end, and what they make reachable is the least
set of methods that has the entry methods and the callees of its calls: whatever is
scheduled is an entry method or the callee of a call in a reachable method, so that the
visits do not lead out of any such set.
-/

import Mathlib.Order.Bounds.Basic
import TacAnalysis.Proofs.ClassHierarchyAnalysis
import TacAnalysis.Proofs.Resolution.Building

namespace TacAnalysis

/-- Entry methods are recorded once each, in the order of their first occurrences. -/
theorem CallGraph.entries_foldl_addEntry {Point Method : Type} [DecidableEq Point]
    [DecidableEq Method] [CallSite Point Method] (methods : List Method)
    (graph : CallGraph Point Method) :
    (methods.foldl .addEntry graph).entries =
      graph.entries ++ (methods.filter fun method => !graph.entries.contains method).eraseDups := by
  induction methods generalizing graph with
  | nil => exact (List.append_nil _).symm
  | cons method methods ih =>
      rw [List.foldl_cons, ih, addEntry]
      by_cases isOld : graph.entries.contains method = true
      · rw [if_pos isOld, List.filter_cons_of_neg (by simpa using isOld)]
      · have sameTest (other : Method) : (!(graph.entries ++ [method]).contains other) =
            (!other == method && !graph.entries.contains other) := by
          rw [List.contains_append, Bool.not_or, Bool.and_comm, List.contains_cons,
            List.contains_nil, Bool.or_false]
        rw [if_neg isOld, List.filter_cons_of_pos (by simpa using isOld), List.eraseDups_cons,
          List.filter_filter, List.append_assoc, List.singleton_append]
        simp only [sameTest]

namespace Program

variable {program : Program} {state last : CallGraphState} {methods : Set MethodId}
  {method : MethodId} {pending : List MethodId}

section Entries

theorem entries_visitMethod :
    (program.visitMethod state method).graph.entries = state.graph.entries := by
  rw [visitMethod_eq]
  split
  case isTrue => rfl
  case isFalse =>
      rw [(CallGraphState.adds_foldl _ _).entries]
      exact CallGraph.entries_addReachable _

theorem entries_growCallGraph {steps : Nat} :
    (program.growCallGraph steps state).graph.entries = state.graph.entries := by
  induction steps generalizing state with
  | zero => rfl
  | succ steps ih =>
      rw [growCallGraph]
      split
      case h_1 => rfl
      case h_2 => rw [ih, entries_visitMethod]

/-- Class hierarchy analysis records the entry methods of a program in order. -/
theorem entries_hierarchyCallGraph {calls : CallGraph Site MethodId}
    (isGraph : program.hierarchyCallGraph = .ok calls) :
    calls.entries =
      (program.entries.foldl .addEntry (.empty : CallGraph Site MethodId)).entries := by
  obtain ⟨-, rfl⟩ := hierarchyCallGraph_eq_ok_iff.mp isGraph
  exact entries_growCallGraph

end Entries

/-- Scheduled methods are visited in order, until none is left. -/
inductive Visits (program : Program) : CallGraphState → CallGraphState → Prop where
  | done {state : CallGraphState} : state.pending = [] → Visits program state state
  | visit {state last : CallGraphState} {method : MethodId} {pending : List MethodId} :
      state.pending = method :: pending →
      Visits program (program.visitMethod { state with pending } method) last →
      Visits program state last

/-- Steps that leave nothing scheduled are the visits of all that is scheduled. -/
theorem visits_growCallGraph {steps : Nat}
    (isDone : (program.growCallGraph steps state).pending = []) :
    program.Visits state (program.growCallGraph steps state) := by
  induction steps generalizing state with
  | zero => exact .done isDone
  | succ steps ih =>
      rw [growCallGraph] at isDone ⊢
      split at isDone
      case h_1 noneLeft => exact .done noneLeft
      case h_2 areScheduled => exact .visit areScheduled (ih isDone)

/-- A set of methods has those that analyses start from, and every method that a call in a
method of the set may run. -/
structure ClosedUnderCalls (program : Program) (methods : Set MethodId) : Prop where
  entry {method : MethodId} : method ∈ program.entries → method ∈ methods
  callee {site : Site} {invoke : Invoke} {callee : MethodId} : site.method ∈ methods →
    program.stmt site = .call invoke → callee ∈ program.resolve invoke → callee ∈ methods

/-- All methods that are reachable or scheduled are in a set. -/
structure CallGraphState.Inside (state : CallGraphState) (methods : Set MethodId) : Prop where
  reachable : ∀ method ∈ state.graph.reachable, method ∈ methods
  pending : ∀ method ∈ state.pending, method ∈ methods

/-- What is scheduled along with edges are their callees. -/
theorem CallGraphState.mem_pending_foldl {edges : List (CallEdge Site MethodId)}
    (isPending : method ∈ (edges.foldl .addEdge state).pending) :
    method ∈ state.pending ∨ ∃ edge ∈ edges, edge.callee = method := by
  induction edges generalizing state with
  | nil => exact .inl isPending
  | cons edge edges ih =>
      rcases ih isPending with isPending | ⟨other, isOther, isCallee⟩
      · simp only [addEdge] at isPending
        split at isPending
        case isTrue => exact .inl isPending
        case isFalse =>
            rcases List.mem_append.mp isPending with isOld | isLast
            · exact .inl isOld
            · exact .inr ⟨edge, List.mem_cons_self, (List.mem_singleton.mp isLast).symm⟩
      · exact .inr ⟨other, List.mem_cons_of_mem _ isOther, isCallee⟩

/-- Visiting a scheduled method does not lead out of a set that is closed under calls. -/
theorem CallGraphState.Inside.visit (inside : state.Inside methods)
    (closed : program.ClosedUnderCalls methods) (areScheduled : state.pending = method :: pending) :
    (program.visitMethod { state with pending } method).Inside methods := by
  obtain ⟨isIn, areIn⟩ := List.forall_mem_cons.mp (areScheduled ▸ inside.pending)
  rw [visitMethod_eq]
  split
  case isTrue => exact ⟨inside.reachable, areIn⟩
  case isFalse =>
      constructor
      · intro other isReachable
        rw [(CallGraphState.adds_foldl _ _).reachable, CallGraph.mem_addReachable] at isReachable
        rcases isReachable with isOld | rfl
        · exact inside.reachable other isOld
        · exact isIn
      · intro other isPending
        rcases CallGraphState.mem_pending_foldl isPending with isOld | ⟨edge, isEdge, rfl⟩
        · exact areIn other isOld
        · obtain ⟨isSite, invoke, isCall, -, isCallee⟩ := mem_methodEdges.mp isEdge
          exact closed.callee (isSite ▸ isIn) isCall isCallee

/-- However many methods are visited, none is outside of a set that is closed under calls. -/
theorem Visits.inside (visits : program.Visits state last)
    (closed : program.ClosedUnderCalls methods) (inside : state.Inside methods) :
    last.Inside methods := by
  induction visits with
  | done => exact inside
  | visit areScheduled _ ih => exact ih (inside.visit closed areScheduled)

theorem inside_entered (closed : program.ClosedUnderCalls methods) :
    program.entered.Inside methods where
  reachable method isReachable := by
    rw [entered, (foldl_addEntry _ _).1] at isReachable
    cases isReachable
  pending _ isEntry := closed.entry isEntry

/-- The methods of a graph that has all callees are closed under calls. -/
theorem IsHierarchyGraph.closedUnderCalls {calls : CallGraph Site MethodId}
    (isGraph : program.IsHierarchyGraph calls) :
    program.ClosedUnderCalls {method | method ∈ calls.reachable} where
  entry isEntry := isGraph.started _ isEntry
  callee {site invoke callee} isReachable isCall isCallee := by
    have isEdge : ⟨invoke.kind, site, callee⟩ ∈ calls.edges :=
      (isGraph.edges _).mpr ⟨isReachable, mem_methodEdges.mpr ⟨rfl, invoke, isCall, rfl, isCallee⟩⟩
    exact isGraph.closed _ isEdge

/-- Class hierarchy analysis comes to an end whenever there is an entry method. The methods
that it reaches are the least set that is closed under calls, its edges are those of the calls
in these methods, and its entry methods are those of the program, without repetitions. -/
theorem isLeast_reachable_hierarchyCallGraph (hasEntry : program.entries ≠ []) :
    ∃ last, program.Visits program.entered last ∧ program.hierarchyCallGraph = .ok last.graph ∧
      IsLeast {methods | program.ClosedUnderCalls methods}
        {method | method ∈ last.graph.reachable} ∧
      (∀ kind site callee, ⟨kind, site, callee⟩ ∈ last.graph.edges ↔
        site.method ∈ last.graph.reachable ∧
          ∃ invoke, program.stmt site = .call invoke ∧ kind = invoke.kind ∧
            callee ∈ program.resolve invoke) ∧
      last.graph.entries = program.entries.eraseDups := by
  have visits := visits_growCallGraph program.tracks_grown.2
  have isBuilt := hierarchyCallGraph_eq_ok_iff.mpr ⟨hasEntry, rfl⟩
  have isGraph := isHierarchyGraph isBuilt
  refine ⟨_, visits, isBuilt, ⟨isGraph.closedUnderCalls, ?_⟩, ?_, ?_⟩
  · intro methods closed method isReachable
    exact (visits.inside closed (inside_entered closed)).reachable method isReachable
  · intro kind site callee
    rw [isGraph.edges, mem_methodEdges]
    simp only [true_and]
  · rw [entries_hierarchyCallGraph isBuilt, CallGraph.entries_foldl_addEntry]
    simp [CallGraph.empty]

/-- A program with an entry method given twice, a method that calls itself, a call that
nothing answers and a method that is never called. -/
def repeatedEntryText : String := "abstract class A { abstract method a() : void;
  static method m() : void { invokestatic <A: void m()>(); invokestatic <A: void x()>(); }
  static method o() : void { } } entry <A: void m()>; entry <A: void a()>; entry <A: void m()>;"

/-- The abstract entry method is reachable, and the methods that are not called are not. -/
theorem isLeast_reachable_repeatedEntry : ∃ program : Program,
    Program.ofText repeatedEntryText = .ok program ∧ program.entries ≠ [] ∧
    program.entries = [1, 0, 1] ∧
    ∃ last, program.Visits program.entered last ∧ program.hierarchyCallGraph = .ok last.graph ∧
      last.graph.reachable = [1, 0] ∧
      IsLeast {methods | program.ClosedUnderCalls methods}
        {method | method ∈ last.graph.reachable} ∧
      (∀ kind site callee, ⟨kind, site, callee⟩ ∈ last.graph.edges ↔
        site.method ∈ last.graph.reachable ∧
          ∃ invoke, program.stmt site = .call invoke ∧ kind = invoke.kind ∧
            callee ∈ program.resolve invoke) ∧
      last.graph.entries = program.entries.eraseDups := by
  have passes : (Program.ofText repeatedEntryText).toOption.any (fun program =>
      decide (program.entries = [1, 0, 1]) && program.hierarchyCallGraph.toOption.any fun calls =>
        decide (calls.reachable = [1, 0])) = true := by decide +kernel
  obtain ⟨program, isProgram, holds⟩ := exists_of_test passes
  obtain ⟨areEntries, reaches⟩ := Bool.and_eq_true_iff.mp holds
  have areEntries := of_decide_eq_true areEntries
  have hasEntry : program.entries ≠ [] := by rw [areEntries]; exact List.cons_ne_nil _ _
  obtain ⟨last, visits, isBuilt, isLeast⟩ := isLeast_reachable_hierarchyCallGraph hasEntry
  rw [isBuilt] at reaches
  exact ⟨program, isProgram, hasEntry, areEntries, last, visits, isBuilt,
    of_decide_eq_true reaches, isLeast⟩

end Program

end TacAnalysis
