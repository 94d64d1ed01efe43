/-
# The call graph of class hierarchy analysis

The call graph is complete: its entry methods are reachable, and so is every method that
a call in a reachable method may run, along an edge of the graph; and it has no other
edges. What is scheduled is visited in time, since each method adds its edges once, so
that the methods scheduled and the edges still to come never exceed the steps left.
-/

import Mathlib.Algebra.BigOperators.Group.Finset.Basic
import TacAnalysis.ClassHierarchyAnalysis

namespace TacAnalysis

namespace Program

variable {program : Program}

section Dispatch

variable {sub : Subsignature} {method : MethodId}

/-- Dispatch finds methods that have a body. -/
theorem hasBody_of_dispatchWithin {limit : Nat} {cls : Option ClassId}
    (isFound : program.dispatchWithin sub limit cls = some method) :
    (program.methodDef method).hasBody = true := by
  induction limit generalizing cls with
  | zero => cases cls <;> cases isFound
  | succ limit ih =>
      cases cls with
      | none => cases isFound
      | some id =>
          rw [dispatchWithin] at isFound
          split at isFound
          case h_1 declared _ =>
              split at isFound
              case isTrue => exact ih isFound
              case isFalse isConcrete =>
                  cases isFound
                  simpa [MethodDef.hasBody] using isConcrete
          case h_2 => exact ih isFound

/-- The methods that a call may run have a body. -/
theorem hasBody_of_mem_resolve {invoke : Invoke} (isCallee : method ∈ program.resolve invoke) :
    (program.methodDef method).hasBody = true := by
  unfold resolve at isCallee
  simp only at isCallee
  split at isCallee
  case h_1 => exact hasBody_of_dispatchWithin (Option.mem_toList.mp isCallee)
  case h_2 => exact hasBody_of_dispatchWithin (Option.mem_toList.mp isCallee)
  case h_3 =>
      obtain ⟨cls, -, isFound⟩ := List.mem_filterMap.mp (mem_ascending.mp isCallee)
      exact hasBody_of_dispatchWithin isFound
  case h_4 =>
      obtain ⟨cls, -, isFound⟩ := List.mem_filterMap.mp (mem_ascending.mp isCallee)
      exact hasBody_of_dispatchWithin isFound

end Dispatch

/-- The edges of the calls of a method. -/
def methodEdges (program : Program) (method : MethodId) : List (CallEdge Site MethodId) :=
  (program.callsOf method).flatMap fun call => program.edgesOf call.1 call.2

theorem mem_methodEdges {method : MethodId} {edge : CallEdge Site MethodId} :
    edge ∈ program.methodEdges method ↔ edge.site.method = method ∧
      ∃ invoke, program.stmt edge.site = .call invoke ∧ edge.kind = invoke.kind ∧
        edge.callee ∈ program.resolve invoke := by
  simp only [methodEdges, callsOf, edgesOf, List.mem_flatMap, List.mem_filterMap, List.mem_map,
    Option.map_eq_some_iff]
  constructor
  · rintro ⟨-, ⟨site, isSite, invoke, isInvoke, rfl⟩, callee, isCallee, rfl⟩
    obtain ⟨index, -, rfl⟩ := List.mem_map.mp isSite
    exact ⟨rfl, invoke, Stmt.invoke?_eq_some_iff.mp isInvoke, rfl, isCallee⟩
  · rintro ⟨rfl, invoke, isCall, isKind, isCallee⟩
    have isSite : edge.site ∈ program.sitesOf edge.site.method := mem_sitesOf (by simp [isCall])
    refine ⟨_, ⟨edge.site, isSite, invoke, Stmt.invoke?_eq_some_iff.mpr isCall, rfl⟩,
      edge.callee, isCallee, ?_⟩
    cases edge
    cases isKind
    rfl

/-- Past the end of the table of methods there are no calls. -/
theorem methodEdges_eq_nil {method : MethodId} (pastEnd : program.methods.size ≤ method) :
    program.methodEdges method = [] := by
  rw [methodEdges, callsOf, sitesOf, methodDef, Array.getD, dif_neg (Nat.not_lt.mpr pastEnd)]
  rfl

section Building

variable {state next : CallGraphState} {method : MethodId}

/-- What adding edges makes of a call graph under construction: it has these edges too, and
each of their callees is reachable or scheduled. -/
structure CallGraphState.Adds (state : CallGraphState) (added : List (CallEdge Site MethodId))
    (next : CallGraphState) : Prop where
  reachable : next.graph.reachable = state.graph.reachable
  entries : next.graph.entries = state.graph.entries
  edges : ∀ edge, edge ∈ next.graph.edges ↔ edge ∈ state.graph.edges ∨ edge ∈ added
  pending : ∀ method ∈ state.pending, method ∈ next.pending
  scheduled : ∀ edge ∈ added, edge.callee ∈ next.graph.reachable ∨ edge.callee ∈ next.pending
  length : next.pending.length ≤ state.pending.length + added.length

theorem CallGraphState.adds_addEdge (state : CallGraphState) (edge : CallEdge Site MethodId) :
    state.Adds [edge] (state.addEdge edge) where
  reachable := CallGraph.reachable_addEdge _
  entries := CallGraph.entries_addEdge _
  edges other := by simp only [addEdge, CallGraph.mem_addEdge, List.mem_singleton]
  pending other isPending := by
    simp only [addEdge]
    split
    · exact isPending
    · exact List.mem_append_left _ isPending
  scheduled other isOther := by
    cases List.mem_singleton.mp isOther
    simp only [addEdge, CallGraph.reachable_addEdge]
    split
    case isTrue isReachable => exact .inl (List.contains_iff_mem.mp isReachable)
    case isFalse => exact .inr (List.mem_append_right _ List.mem_cons_self)
  length := by
    simp only [addEdge, List.length_singleton]
    split
    · exact Nat.le_succ _
    · exact (List.length_append).le

theorem CallGraphState.adds_foldl (state : CallGraphState)
    (edges : List (CallEdge Site MethodId)) :
    state.Adds edges (edges.foldl .addEdge state) := by
  induction edges generalizing state with
  | nil => exact ⟨rfl, rfl, by simp, fun _ => id, nofun, le_rfl⟩
  | cons edge edges ih =>
      have first := state.adds_addEdge edge
      have rest := ih (state.addEdge edge)
      refine ⟨rest.reachable.trans first.reachable, rest.entries.trans first.entries, ?_,
        fun method isPending => rest.pending method (first.pending method isPending), ?_, ?_⟩
      · intro other
        rw [List.foldl_cons, rest.edges, first.edges, List.mem_singleton, or_assoc,
          List.mem_cons]
      · intro other isOther
        rcases List.mem_cons.mp isOther with rfl | isLater
        · rw [List.foldl_cons, rest.reachable]
          exact (first.scheduled _ List.mem_cons_self).imp_right (rest.pending _)
        · exact rest.scheduled other isLater
      · have firstLength := first.length
        have restLength := rest.length
        simp only [List.foldl_cons, List.length_cons, List.length_nil] at *
        omega

/-- Visiting a method that is not reachable yet makes it reachable, then adds its edges. -/
theorem visitMethod_eq (state : CallGraphState) (method : MethodId) :
    program.visitMethod state method =
      if method ∈ state.graph.reachable then state
      else (program.methodEdges method).foldl .addEdge
        { state with graph := (state.graph.addReachable method).2 } := by
  rw [visitMethod, methodEdges, List.foldl_flatMap]
  by_cases isReachable : method ∈ state.graph.reachable
  · have isOld : state.graph.contains method = true := List.contains_iff_mem.mpr isReachable
    simp only [CallGraph.addReachable, isOld, if_pos isReachable, Bool.false_eq_true, if_true,
      if_false]
  · have isNew : state.graph.contains method = false :=
      Bool.eq_false_iff.mpr fun isOld => isReachable (List.contains_iff_mem.mp isOld)
    simp only [CallGraph.addReachable, isNew, if_neg isReachable, Bool.false_eq_true, if_true,
      if_false]

/-- A call graph under construction has the entry methods of its program, which are
reachable or scheduled, exactly the edges of the calls in reachable methods, and no callee
that is neither reachable nor scheduled. -/
structure Tracks (program : Program) (state : CallGraphState) : Prop where
  entries : ∀ method, method ∈ state.graph.entries ↔ method ∈ program.entries
  started : ∀ method ∈ program.entries,
    method ∈ state.graph.reachable ∨ method ∈ state.pending
  edges : ∀ edge, edge ∈ state.graph.edges ↔
    edge.site.method ∈ state.graph.reachable ∧ edge ∈ program.methodEdges edge.site.method
  scheduled : ∀ edge ∈ state.graph.edges,
    edge.callee ∈ state.graph.reachable ∨ edge.callee ∈ state.pending

/-- The number of edges that are still to be added at most. -/
def remaining (program : Program) (state : CallGraphState) : Nat :=
  ∑ method ∈ Finset.range program.methods.size \ state.graph.reachable.toFinset,
    (program.methodEdges method).length

/-- A method that becomes reachable has no edges to add any more. -/
theorem remaining_add_length (isNew : method ∉ state.graph.reachable)
    (areReachable : ∀ other, other ∈ next.graph.reachable ↔
      other ∈ state.graph.reachable ∨ other = method) :
    (program.methodEdges method).length + program.remaining next = program.remaining state := by
  have isInsert : next.graph.reachable.toFinset =
      insert method state.graph.reachable.toFinset := by
    ext other
    simp only [List.mem_toFinset, areReachable, Finset.mem_insert, or_comm]
  rw [remaining, remaining, isInsert, Finset.sdiff_insert]
  by_cases inTable : method < program.methods.size
  · refine Finset.add_sum_erase _ (fun method => (program.methodEdges method).length) ?_
    exact Finset.mem_sdiff.mpr ⟨Finset.mem_range.mpr inTable, by rwa [List.mem_toFinset]⟩
  · rw [Finset.erase_eq_of_notMem, methodEdges_eq_nil (Nat.not_lt.mp inTable), List.length_nil,
      Nat.zero_add]
    exact fun isMember => inTable (Finset.mem_range.mp (Finset.mem_sdiff.mp isMember).1)

/-- Visiting the first scheduled method keeps what is known of a call graph, and uses up one
of the visits still to come. -/
theorem Tracks.visit {pending : List MethodId} (tracks : program.Tracks state)
    (areScheduled : state.pending = method :: pending) :
    program.Tracks (program.visitMethod { state with pending } method) ∧
      (program.visitMethod { state with pending } method).pending.length +
        program.remaining (program.visitMethod { state with pending } method) + 1 ≤
        state.pending.length + program.remaining state := by
  have split (other : MethodId) : other ∈ state.pending ↔ other = method ∨ other ∈ pending := by
    rw [areScheduled, List.mem_cons]
  rw [visitMethod_eq]
  split
  case isTrue isOld =>
      -- A method scheduled twice is visited once.
      have stays (other : MethodId) (isKnown : other ∈ state.graph.reachable ∨
          other ∈ state.pending) : other ∈ state.graph.reachable ∨ other ∈ pending := by
        rw [split] at isKnown
        rcases isKnown with isReachable | rfl | isPending
        · exact .inl isReachable
        · exact .inl isOld
        · exact .inr isPending
      refine ⟨⟨tracks.entries, fun other isEntry => stays other (tracks.started other isEntry),
        tracks.edges, fun edge isEdge => stays _ (tracks.scheduled edge isEdge)⟩, ?_⟩
      have sameRemaining : program.remaining { state with pending } = program.remaining state :=
        rfl
      simp only [areScheduled, List.length_cons]
      omega
  case isFalse isNew =>
      generalize isNext : (program.methodEdges method).foldl CallGraphState.addEdge
        ⟨(state.graph.addReachable method).2, pending⟩ = next
      have adds := isNext ▸ CallGraphState.adds_foldl
        ⟨(state.graph.addReachable method).2, pending⟩ (program.methodEdges method)
      have areReachable (other : MethodId) : other ∈ next.graph.reachable ↔
          other ∈ state.graph.reachable ∨ other = method := by
        rw [adds.reachable, CallGraph.mem_addReachable]
      have stays (other : MethodId) (isKnown : other ∈ state.graph.reachable ∨
          other ∈ state.pending) : other ∈ next.graph.reachable ∨ other ∈ next.pending := by
        rw [areReachable]
        rw [split] at isKnown
        rcases isKnown with isReachable | rfl | isPending
        · exact .inl (.inl isReachable)
        · exact .inl (.inr rfl)
        · exact .inr (adds.pending other isPending)
      have areEdges (edge : CallEdge Site MethodId) : edge ∈ next.graph.edges ↔
          edge ∈ state.graph.edges ∨ edge ∈ program.methodEdges method := by
        rw [adds.edges, CallGraph.edges_addReachable]
      refine ⟨⟨fun other => ?_, fun other isEntry => stays other (tracks.started other isEntry),
        fun edge => ?_, fun edge isEdge => ?_⟩, ?_⟩
      · rw [adds.entries, CallGraph.entries_addReachable]
        exact tracks.entries other
      · rw [areEdges, tracks.edges, areReachable, or_and_right]
        apply or_congr_right
        constructor
        · intro isEdge
          have isSite := (mem_methodEdges.mp isEdge).1
          exact ⟨isSite, isSite ▸ isEdge⟩
        · rintro ⟨isSite, isEdge⟩
          exact isSite ▸ isEdge
      · rcases (areEdges edge).mp isEdge with isOld | isAdded
        · exact stays _ (tracks.scheduled edge isOld)
        · exact adds.scheduled edge isAdded
      · have isUsed : (program.methodEdges method).length + program.remaining next =
            program.remaining state := remaining_add_length isNew areReachable
        have isBounded := adds.length
        simp only [areScheduled, List.length_cons] at *
        omega

/-- With as many steps as there may be visits, every scheduled method is visited. -/
theorem Tracks.grow {steps : Nat} (tracks : program.Tracks state)
    (isEnough : state.pending.length + program.remaining state ≤ steps) :
    program.Tracks (program.growCallGraph steps state) ∧
      (program.growCallGraph steps state).pending = [] := by
  induction steps generalizing state with
  | zero => exact ⟨tracks, List.eq_nil_of_length_eq_zero (by rw [growCallGraph]; omega)⟩
  | succ steps ih =>
      rw [growCallGraph]
      split
      case h_1 isDone => exact ⟨tracks, isDone⟩
      case h_2 method pending areScheduled =>
          obtain ⟨nextTracks, isLess⟩ := tracks.visit areScheduled
          exact ih nextTracks (by omega)

end Building

/-- A call graph of what the calls of a program may run: its entry methods are those of the
program, they are reachable, and the reachable methods are closed under the edges, which are
those of the calls in reachable methods. -/
structure IsHierarchyGraph (program : Program) (calls : CallGraph Site MethodId) : Prop where
  entries : ∀ method, method ∈ calls.entries ↔ method ∈ program.entries
  started : ∀ method ∈ program.entries, method ∈ calls.reachable
  edges : ∀ edge, edge ∈ calls.edges ↔
    edge.site.method ∈ calls.reachable ∧ edge ∈ program.methodEdges edge.site.method
  closed : ∀ edge ∈ calls.edges, edge.callee ∈ calls.reachable

/-- Recording entry methods makes nothing reachable and adds no edges. -/
theorem foldl_addEntry (entries : List MethodId) (graph : CallGraph Site MethodId) :
    (entries.foldl .addEntry graph).reachable = graph.reachable ∧
      (entries.foldl .addEntry graph).edges = graph.edges ∧
      ∀ method, method ∈ (entries.foldl .addEntry graph).entries ↔
        method ∈ graph.entries ∨ method ∈ entries :=
  ⟨CallGraph.read_foldl _ (fun _ _ => CallGraph.reachable_addEntry _) _ _,
    CallGraph.read_foldl _ (fun _ _ => CallGraph.edges_addEntry _) _ _,
    CallGraph.mem_foldl _ (fun _ _ _ => CallGraph.mem_addEntry _) _ _⟩

/-- Before the first visit, the entry methods are recorded and scheduled. -/
def entered (program : Program) : CallGraphState :=
  ⟨program.entries.foldl .addEntry .empty, program.entries⟩

theorem tracks_entered : program.Tracks program.entered := by
  obtain ⟨noneReachable, noEdges, areEntries⟩ := foldl_addEntry program.entries .empty
  refine ⟨fun method => ?_, fun _ => .inr, fun edge => ?_, fun edge isEdge => ?_⟩
  · exact (areEntries method).trans (or_iff_right List.not_mem_nil)
  · simp only [entered, noEdges, noneReachable]
    exact ⟨nofun, fun isBoth => absurd isBoth.1 List.not_mem_nil⟩
  · simp only [entered, noEdges] at isEdge
    cases isEdge

/-- Every method that is scheduled while the call graph is built is visited in the steps
allowed for. -/
theorem tracks_grown :
    program.Tracks (program.growCallGraph program.schedulingBound program.entered) ∧
      (program.growCallGraph program.schedulingBound program.entered).pending = [] := by
  have noneReachable := (foldl_addEntry program.entries .empty).1
  have isBound : program.entered.pending.length + program.remaining program.entered =
      program.schedulingBound := by
    rw [remaining, entered, noneReachable, schedulingBound, List.length_flatMap]
    rfl
  exact tracks_entered.grow isBound.le

theorem hierarchyCallGraph_eq_ok_iff {calls : CallGraph Site MethodId} :
    program.hierarchyCallGraph = .ok calls ↔ program.entries ≠ [] ∧
      (program.growCallGraph program.schedulingBound program.entered).graph = calls := by
  rw [hierarchyCallGraph]
  split
  case isTrue noEntry =>
      simp only [List.isEmpty_iff.mp noEntry, ne_eq, not_true_eq_false, false_and, reduceCtorEq]
  case isFalse hasEntry =>
      rw [List.isEmpty_iff] at hasEntry
      rw [and_iff_right hasEntry, Except.ok.injEq]
      rfl

/-- The call graph of class hierarchy analysis has exactly what it has to have. -/
theorem isHierarchyGraph {calls : CallGraph Site MethodId}
    (isGraph : program.hierarchyCallGraph = .ok calls) : program.IsHierarchyGraph calls := by
  obtain ⟨-, rfl⟩ := hierarchyCallGraph_eq_ok_iff.mp isGraph
  obtain ⟨grown, isDone⟩ := program.tracks_grown
  refine ⟨grown.entries, fun method isEntry => ?_, grown.edges, fun edge isEdge => ?_⟩
  · simpa [isDone] using grown.started method isEntry
  · simpa [isDone] using grown.scheduled edge isEdge

end Program

end TacAnalysis
