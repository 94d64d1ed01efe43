/-
# Contexts are call strings

With call sites for contexts, the context of a method is a chain of calls, each made in a
method that the one before may run, the last of which may run the method itself. A context
that has its full length has forgotten where the chain begins; a shorter one begins in an
entry method. Calls keep this: their context is that of the caller with the call itself
more, and less the oldest call when there are too many. Objects are allocated in the last
part of the context of a method that may run.
-/

import TacAnalysis.Proofs.PointsTo.Bounds
import TacAnalysis.Proofs.PointsTo.Extent
import TacAnalysis.Proofs.PointsTo.Shortening
import TacAnalysis.Proofs.PointsTo.Updates

namespace TacAnalysis.PointsTo

/-- Call sites are the calls by which a method may have come to run, the oldest first and at
most `limit` of them. -/
structure IsCallString (program : Program) (callees : Site → List MethodId) (limit : Nat)
    (sites : List Site) (method : MethodId) : Prop where
  short : sites.length ≤ limit
  entry : sites = [] → method ∈ program.entries
  last : ∀ site ∈ sites.getLast?, method ∈ callees site
  chain : sites.IsChain fun first second => second.method ∈ callees first
  first : sites.length < limit → ∀ site ∈ sites.head?, site.method ∈ program.entries

section CallStrings

variable {program : Program} {callees : Site → List MethodId} {limit : Nat} {sites : List Site}
  {site : Site} {method : MethodId}

theorem isCallString_entry (isEntry : method ∈ program.entries) :
    IsCallString program callees limit [] method where
  short := Nat.zero_le _
  entry _ := isEntry
  last := nofun
  chain := .nil
  first := nofun

/-- A call made in a method that has come to run adds a call site, and the oldest one is
forgotten when there are too many. -/
theorem IsCallString.call (isCallString : IsCallString program callees (limit + 1) sites site.method)
    (isCallee : method ∈ callees site) :
    IsCallString program callees (limit + 1) (mostRecent (limit + 1) (sites ++ [site])) method := by
  rw [mostRecent_append]
  constructor
  case short =>
      rw [List.length_append, List.length_singleton]
      exact Nat.succ_le_succ length_mostRecent_le
  case entry =>
      intro isEmpty
      exact absurd isEmpty (List.append_ne_nil_of_right_ne_nil _ (List.cons_ne_nil site []))
  case last =>
      intro last isLast
      rw [List.getLast?_concat, Option.mem_some_iff] at isLast
      rwa [← isLast]
  case chain =>
      refine List.isChain_append.mpr ⟨isCallString.chain.drop _, .singleton site, ?_⟩
      intro last isLast head isHead
      rw [List.head?_cons, Option.mem_some_iff] at isHead
      rw [mostRecent, List.getLast?_drop] at isLast
      split at isLast
      case isTrue => cases isLast
      case isFalse =>
          rw [← isHead]
          exact isCallString.last last isLast
  case first =>
      intro isShort head isHead
      -- A context that is still short has not forgotten any call.
      have isShorter : sites.length < limit := by
        rw [List.length_append, List.length_singleton, mostRecent, List.length_drop] at isShort
        omega
      rw [mostRecent_eq_self isShorter.le] at isHead
      cases sites with
      | nil =>
          rw [List.nil_append, List.head?_cons, Option.mem_some_iff] at isHead
          rw [← isHead]
          exact isCallString.entry rfl
      | cons first others => exact isCallString.first (Nat.lt_succ_of_lt isShorter) head isHead

end CallStrings

namespace State

variable {program : Program} {limit : Nat} {state : State}

/-- A method runs in a context that is a call string of it. -/
def RunsByCalls (program : Program) (state : State) (limit : Nat) (activation : Activation) :
    Prop :=
  ∃ sites, activation.context = sites.map .callSite ∧
    IsCallString program state.calleesAt limit sites activation.method

/-- A call that an analysis finds is one of those that its callees may come to run by. -/
theorem RunsByCalls.call {kind : CallKind} {context : List ContextItem} {site : Site}
    {method : MethodId} (runs : state.RunsByCalls program (limit + 1) ⟨context, site.method⟩)
    (isCall : .calls kind context site
      ⟨mostRecent (limit + 1) (context ++ [.callSite site]), method⟩ ∈ state.findings) :
    state.RunsByCalls program (limit + 1)
      ⟨mostRecent (limit + 1) (context ++ [.callSite site]), method⟩ := by
  obtain ⟨sites, rfl, isCallString⟩ := runs
  have isCallee : method ∈ state.calleesAt site := mem_calleesAt_iff.mpr ⟨_, _, _, isCall⟩
  refine ⟨_, ?_, isCallString.call isCallee⟩
  rw [← mostRecent_map, List.map_append, List.map_singleton]

/-- Methods run in call strings, and allocate in the last parts of their contexts. -/
def callStrings (program : Program) (state : State) (limit : Nat) :
    Extent program (.callSites (limit + 1)) state.findings where
  runs := state.RunsByCalls program (limit + 1)
  calls _ context site callee := state.RunsByCalls program (limit + 1) ⟨context, site.method⟩ ∧
    state.RunsByCalls program (limit + 1) callee
  allocates object := ∃ context, .reachable ⟨context, object.site.method⟩ ∈ state.findings ∧
    object.context = mostRecent limit context
  entry isEntry := ⟨[], rfl, isCallString_entry isEntry⟩
  allocation _ isReachable _ := ⟨_, isReachable, rfl⟩
  staticCall runs _ _ _ isCall := ⟨runs, runs.call isCall⟩
  instanceCall runs _ _ _ _ isCall := ⟨runs, runs.call isCall⟩
  caller := And.left
  callee := And.right

/-- A context that is found to be made of call sites is made of them. -/
theorem get_of_contextList {context : ContextId} {sites : List Site}
    (isList : state.contextList context = sites.map .callSite) :
    state.contexts.get context = sites.map .callSite := by
  unfold contextList at isList
  generalize state.contexts.get context = elements at isList
  induction elements generalizing sites with
  | nil =>
      rw [List.map_nil, eq_comm, List.map_eq_nil_iff] at isList
      rw [isList, List.map_nil]
  | cons element elements ih =>
      cases sites with
      | nil => cases isList
      | cons site sites =>
          rw [List.map_cons, List.map_cons, List.cons.injEq] at isList
          cases element with
          | callSite other =>
              cases isList.1
              rw [List.map_cons, ih isList.2]
          | receiver object => cases isList.1

section Solved

variable {text : String} {steps : Nat} (isProgram : Program.ofText text = .ok program)
  (solved : program.pointsTo (.callSites (limit + 1)) steps = .ok state)

include isProgram solved

/-- No rule leads out of what is found of methods that run in call strings. -/
theorem closed_callStrings : Closed program (.callSites (limit + 1))
    {finding | finding ∈ state.findings ∧ (state.callStrings program limit).Admits finding} := by
  have owned := Program.owned_ofText isProgram
  obtain ⟨lawful, complete, settled⟩ := complete_solve closed_univ solved
  exact (state.callStrings program limit).closed owned (Program.ownsEntryVars_ofText isProgram)
    (closed_findings lawful complete settled)

theorem exists_callString {method : QualifiedMethod} (isReachable : method ∈ state.calls.reachable) :
    ∃ sites, state.contexts.get method.context = sites.map .callSite ∧
      IsCallString program state.calleesAt (limit + 1) sites method.method := by
  have isFound : .reachable (state.activation method) ∈ state.findings :=
    ⟨method, isReachable, rfl⟩
  obtain ⟨lawful, -, -⟩ := complete_solve (closed_callStrings isProgram solved) solved
  obtain ⟨-, sites, isList, isCallString⟩ := lawful.findings_subset isFound
  exact ⟨sites, get_of_contextList isList, isCallString⟩

/-- The context of an object is the last part of that of a method which allocates it. -/
theorem exists_allocating {object : QualifiedObject}
    (isObject : object ∈ state.heap.qualified.elements) :
    ∃ allocating ∈ state.calls.reachable,
      allocating.method = (state.heap.object object.object).site.method ∧
      state.contextList object.context =
        mostRecent limit (state.contextList allocating.context) := by
  obtain ⟨number, isNumber⟩ := List.mem_iff_getElem?.mp isObject
  have isRead : state.heap.qualifiedObject number = object := by
    rw [Heap.qualifiedObject, ArrivalSet.get?, isNumber, Option.getD_some]
  obtain ⟨place, -, -, context, ⟨allocating, isReachable, isActivation⟩, isLast⟩ :=
    exists_held (closed_callStrings isProgram solved) solved (ArrivalSet.lt_size isNumber)
  rw [origin, Heap.objectOf, isRead] at isActivation isLast
  rw [activation, Activation.mk.injEq] at isActivation
  rw [← isActivation.1] at isLast
  exact ⟨allocating, isReachable, isActivation.2, isLast⟩

end Solved

/-- The contexts of methods are call strings, and those of objects the last parts of the
contexts of methods that allocate them. -/
structure HasCallStrings (program : Program) (limit : Nat) (state : State) : Prop where
  methods : ∀ method ∈ state.calls.reachable, ∃ sites,
    state.contexts.get method.context = sites.map .callSite ∧
      IsCallString program state.calleesAt limit sites method.method
  objects : ∀ object ∈ state.heap.qualified.elements, ∃ sites,
    state.contexts.get object.context = sites.map .callSite ∧ sites.length ≤ limit - 1 ∧
      ∃ allocating ∈ state.calls.reachable,
        allocating.method = (state.heap.object object.object).site.method ∧
        ∃ callers, state.contexts.get allocating.context = callers.map .callSite ∧
          sites <:+ callers

/-- With call sites for contexts, methods and objects are told apart by real call strings. -/
theorem hasCallStrings_pointsTo {text : String} {steps : Nat}
    (isProgram : Program.ofText text = .ok program) (isLimit : 1 ≤ limit)
    (solved : program.pointsTo (.callSites limit) steps = .ok state) :
    HasCallStrings program limit state := by
  obtain ⟨limit, rfl⟩ := Nat.exists_eq_add_of_le' isLimit
  refine ⟨fun _ => exists_callString isProgram solved, fun object isObject => ?_⟩
  obtain ⟨allocating, isReachable, isMethod, isLast⟩ := exists_allocating isProgram solved isObject
  obtain ⟨callers, areCallers, -⟩ := exists_callString isProgram solved isReachable
  refine ⟨mostRecent limit callers, get_of_contextList ?_, length_mostRecent_le, allocating,
    isReachable, isMethod, callers, areCallers, List.drop_suffix _ _⟩
  rw [isLast, contextList, areCallers, List.map_map, mostRecent_map]
  rfl

/-- A program in which a method calls itself. -/
def recursiveText : String := "class Main { static method f() : void { var Main x; x = new Main;
  invokestatic <Main: void f()>(); return; }
  static method main() : void { invokestatic <Main: void f()>(); return; } }"

/-- The method runs in three contexts, the last of which holds the same call twice, and
allocates in two. -/
theorem hasCallStrings_recursive : ∃ program state,
    Program.ofText recursiveText = .ok program ∧ 1 ≤ 2 ∧
    program.pointsTo (.callSites 2) 20 = .ok state ∧
    state.calls.reachable = [⟨0, 1⟩, ⟨1, 0⟩, ⟨2, 0⟩, ⟨4, 0⟩] ∧
    state.contexts.get 4 = [.callSite ⟨0, 1⟩, .callSite ⟨0, 1⟩] ∧
    state.heap.qualified.elements = [⟨1, 0⟩, ⟨3, 0⟩] ∧
    HasCallStrings program 2 state := by
  have passes : (Program.ofText recursiveText).toOption.any (fun program =>
      (program.pointsTo (.callSites 2) 20).toOption.any fun state =>
        decide (state.calls.reachable = [⟨0, 1⟩, ⟨1, 0⟩, ⟨2, 0⟩, ⟨4, 0⟩] ∧
          state.contexts.get 4 = [.callSite ⟨0, 1⟩, .callSite ⟨0, 1⟩] ∧
          state.heap.qualified.elements = [⟨1, 0⟩, ⟨3, 0⟩])) = true := by decide +kernel
  obtain ⟨program, isProgram, ends⟩ := exists_of_test passes
  obtain ⟨state, solved, holds⟩ := exists_of_test ends
  obtain ⟨areReachable, isContext, areObjects⟩ := of_decide_eq_true holds
  exact ⟨program, state, isProgram, by decide, solved, areReachable, isContext, areObjects,
    hasCallStrings_pointsTo isProgram (by decide) solved⟩

end State

end TacAnalysis.PointsTo
