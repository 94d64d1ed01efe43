/-
# Points-to analyses end

A piece of work that adds no finding adds no work either: a method that was reachable
already is left alone, and so are objects that their pointer held already. Findings are
never taken back, and a program leaves room for finitely many of them. So the analysis
ends, whatever the selector and however the methods call each other: first the findings
run out, then the work.
-/

import Mathlib.Data.Set.Card
import TacAnalysis.Proofs.PointsTo.Bounds
import TacAnalysis.Proofs.PointsTo.Settled

namespace TacAnalysis.PointsTo.State

variable {program : Program} {selector : Selector} {facts : Set Finding}
variable {state old new : State} {worklist : Worklist}

/-- What has been found out stays so. -/
theorem Grows.findings_subset (grows : Grows old new) (lawful : Lawful program facts old) :
    old.findings ⊆ new.findings := by
  have numbered := lawful.numbered
  intro finding shows
  cases finding with
  | reachable activation =>
      obtain ⟨method, isReachable, rfl⟩ := shows
      have known := (lawful.justified.scheduled (.inl isReachable)).1
      exact ⟨method, grows.reachable isReachable, grows.activation_eq numbered known⟩
  | holds place object =>
      obtain ⟨id, pointer, number, isPointer, isHeld, rfl, rfl⟩ := shows
      obtain ⟨-, -, known, -⟩ := lawful.justified.delivered (.inl isHeld)
      exact ⟨id, pointer, number, grows.pointer? isPointer, grows.held isHeld,
        grows.place_eq numbered (numbered.knows isPointer), grows.origin_eq numbered known⟩
  | flows source target =>
      obtain ⟨edge, isEdge, first, second, isFirst, isSecond, rfl, rfl⟩ := shows
      exact ⟨edge, grows.edges isEdge, first, second, grows.pointer? isFirst,
        grows.pointer? isSecond, grows.place_eq numbered (numbered.knows isFirst),
        grows.place_eq numbered (numbered.knows isSecond)⟩
  | calls kind context site callee =>
      obtain ⟨edge, isEdge, rfl, rfl, rfl, rfl⟩ := shows
      obtain ⟨knownSite, knownCallee, -⟩ := lawful.justified.calls isEdge
      exact ⟨edge, grows.calls isEdge, rfl, grows.contextList_eq numbered knownSite, rfl,
        grows.activation_eq numbered knownCallee⟩

/-- A method that becomes reachable is a new finding. -/
theorem exists_found_of_reachable (grows : Grows old new) (lawfulOld : Lawful program facts old)
    (lawfulNew : Lawful program facts new) {method : QualifiedMethod}
    (isReachable : method ∈ new.calls.reachable) (wasNot : method ∉ old.calls.reachable) :
    ∃ finding ∈ new.findings, finding ∉ old.findings := by
  refine ⟨.reachable (new.activation method), ⟨method, isReachable, rfl⟩, ?_⟩
  rintro ⟨other, wasReachable, sameActivation⟩
  obtain ⟨knownOther, -⟩ := lawfulOld.justified.scheduled (.inl wasReachable)
  obtain ⟨known, -⟩ := lawfulNew.justified.scheduled (.inl isReachable)
  rw [← grows.activation_eq lawfulOld.numbered knownOther] at sameActivation
  have sameContext := lawfulNew.numbered.contextList_injective (grows.contexts_size knownOther)
    known (congrArg Activation.context sameActivation)
  have sameMethod : other.method = method.method := congrArg Activation.method sameActivation
  have isSame : other = method := by
    cases other
    cases method
    simp_all
  exact wasNot (isSame ▸ wasReachable)

/-- An object that a pointer comes to hold is a new finding. -/
theorem exists_found_of_held (grows : Grows old new) (lawfulOld : Lawful program facts old)
    (lawfulNew : Lawful program facts new) {id : PointerId} {object : QualifiedId}
    (isHeld : object ∈ (new.flow.objects id).elements)
    (wasNot : object ∉ (old.flow.objects id).elements) :
    ∃ finding ∈ new.findings, finding ∉ old.findings := by
  obtain ⟨pointer, isPointer, known, -⟩ := lawfulNew.justified.delivered (.inl isHeld)
  refine ⟨.holds (new.place pointer) (new.origin object),
    ⟨id, pointer, object, isPointer, isHeld, rfl, rfl⟩, ?_⟩
  rintro ⟨otherId, other, number, wasPointer, wasHeld, samePlace, sameOrigin⟩
  obtain ⟨-, -, knownNumber, -⟩ := lawfulOld.justified.delivered (.inl wasHeld)
  have knownOther := lawfulOld.numbered.knows wasPointer
  rw [← grows.place_eq lawfulOld.numbered knownOther] at samePlace
  rw [← grows.origin_eq lawfulOld.numbered knownNumber] at sameOrigin
  have sameObject := lawfulNew.numbered.origin_injective (grows.qualified_size knownNumber) known
    sameOrigin
  have samePointer := lawfulNew.numbered.place_injective (grows.knows knownOther)
    (lawfulNew.numbered.knows isPointer) samePlace
  have isSame : new.flow.pointer? otherId = some pointer :=
    samePointer ▸ grows.pointer? wasPointer
  have sameId : otherId = id := ArrivalSet.number_unique isSame isPointer
  rw [sameId, sameObject] at wasHeld
  exact wasNot wasHeld

/-- A method that was not reachable is found to be so. -/
theorem exists_found_visitMethod (closed : Closed program selector facts)
    (lawful : Lawful program facts state) {method : QualifiedMethod}
    (isWork : state.worklist.items = .method method :: worklist.items)
    (isNew : method ∉ state.calls.reachable) :
    ∃ finding ∈ (visitMethod program selector (state.taken worklist) method).findings,
      finding ∉ state.findings := by
  have advances := advances_visitMethod closed lawful isWork
  obtain ⟨recorded, -⟩ := advances_recorded closed lawful isWork isNew
  have isReachable := recorded.toGrows.reachable
    ((CallGraph.mem_addReachable state.calls).mpr (.inr rfl))
  exact exists_found_of_reachable advances.toGrows lawful advances.lawful isReachable isNew

/-- An object that its pointer did not hold is found to be held. -/
theorem exists_found_visitPointer (closed : Closed program selector facts)
    (lawful : Lawful program facts state) {id : PointerId} {objects : ObjectSet}
    (isWork : state.worklist.items = .objects id objects :: worklist.items)
    {object : QualifiedId}
    (isNew : object ∈ ((state.flow.objects id).missing objects).elements) :
    ∃ finding ∈ (visitPointer program selector (state.taken worklist) id objects).findings,
      finding ∉ state.findings := by
  have advances := advances_visitPointer closed lawful isWork
  obtain ⟨passed, -⟩ := advances_passed closed lawful isWork
  have isHeld := passed.toGrows.held
    ((passes_pass state id _ worklist).held.mpr (.inr ⟨rfl, isNew⟩))
  exact exists_found_of_held advances.toGrows lawful advances.lawful isHeld
    (ArrivalSet.mem_missing.mp isNew).2

/-- A step finds something out, or else leaves less work than there was. -/
theorem exists_found_or_shorter (closed : Closed program selector facts)
    (lawful : Lawful program facts state) (isStep : step? program selector state = some new) :
    (∃ finding ∈ new.findings, finding ∉ state.findings) ∨
      new.worklist.items.length < state.worklist.items.length := by
  obtain ⟨item, worklist, isWork, rfl⟩ := exists_of_step isStep
  have isShorter : (state.taken worklist).worklist.items.length <
      state.worklist.items.length := by
    rw [isWork]
    exact Nat.lt_succ_self _
  cases item with
  | method method =>
      rw [visit]
      by_cases isOld : method ∈ state.calls.reachable
      · rw [visitMethod_of_mem isOld]
        exact .inr isShorter
      · exact .inl (exists_found_visitMethod closed lawful isWork isOld)
  | objects id objects =>
      rw [visit]
      cases areNew : ((state.flow.objects id).missing objects).elements with
      | nil =>
          rw [visitPointer_of_missing_eq_nil areNew]
          exact .inr isShorter
      | cons object others =>
          have isNew : object ∈ ((state.flow.objects id).missing objects).elements := by
            rw [areNew]
            exact List.mem_cons_self
          exact .inl (exists_found_visitPointer closed lawful isWork isNew)

/-- There is room for fewer findings once something has been found out. -/
theorem ncard_unfound_lt (finite : facts.Finite) (grows : Grows old new)
    (lawfulOld : Lawful program facts old) (lawfulNew : Lawful program facts new)
    (isFound : ∃ finding ∈ new.findings, finding ∉ old.findings) :
    (facts \ new.findings).ncard < (facts \ old.findings).ncard := by
  obtain ⟨finding, isIn, wasNot⟩ := isFound
  have isFact := lawfulNew.findings_subset isIn
  apply Set.ncard_lt_ncard _ finite.sdiff
  exact ⟨Set.sdiff_subset_sdiff_right (grows.findings_subset lawfulOld),
    fun isSubset => (isSubset ⟨isFact, wasNot⟩).2 isIn⟩

/-- From a lawful state, there is a number of steps that are needed and suffice to do all
the work. -/
theorem run_ends {state : State} (closed : Closed program selector facts) (finite : facts.Finite)
    (lawful : Lawful program facts state) :
    ∃ bound final, final.worklist.items = [] ∧ ∀ steps,
      run program selector steps state =
        if bound ≤ steps then .ok final else .error .unsettled := by
  cases isStep : step? program selector state with
  | none =>
      have isEmpty : state.worklist.items = [] := by
        unfold step? Worklist.pop? at isStep
        split at isStep
        case h_1 isEmpty => exact isEmpty
        case h_2 => cases isStep
      refine ⟨0, state, isEmpty, fun steps => ?_⟩
      cases steps with
      | zero => simp [run, Worklist.isEmpty, isEmpty]
      | succ steps => simp [run, isStep]
  | some next =>
      have advances := advances_step closed lawful isStep
      obtain ⟨bound, final, isEmpty, isRun⟩ := run_ends closed finite advances.lawful
      refine ⟨bound + 1, final, isEmpty, fun steps => ?_⟩
      cases steps with
      | zero =>
          obtain ⟨item, worklist, isWork, -⟩ := exists_of_step isStep
          simp [run, Worklist.isEmpty, isWork]
      | succ steps => simp [run, isStep, isRun]
termination_by ((facts \ state.findings).ncard, state.worklist.items.length)
decreasing_by
  have unfound_le := Set.ncard_le_ncard
    (Set.sdiff_subset_sdiff_right (advances.toGrows.findings_subset lawful)) finite.sdiff
  rcases exists_found_or_shorter closed lawful isStep with isFound | isShorter
  · exact .left _ _ (ncard_unfound_lt finite advances.toGrows lawful advances.lawful isFound)
  · rcases unfound_le.lt_or_eq with isLess | isSame
    · exact .left _ _ isLess
    · rw [isSame]
      exact .right _ isShorter

/-- A points-to analysis of a program with an entry method ends: some number of steps is
needed, and suffices, to do all the work. -/
theorem pointsTo_ends (hasEntry : program.entries ≠ []) (selector : Selector) :
    ∃ bound final, final.worklist.items = [] ∧ ∀ steps, program.pointsTo selector steps =
      if bound ≤ steps then .ok final else .error .unsettled := by
  have finite := finite_bounded program selector.limit
  have closed : Closed program selector {finding | finding.Bounded program selector.limit} :=
    closed_bounded
  obtain ⟨lawful, -⟩ := complete_enter closed
  obtain ⟨bound, final, isEmpty, isRun⟩ := run_ends closed finite lawful
  refine ⟨bound, final, isEmpty, fun steps => ?_⟩
  have isStart : start program .initial = .ok (enter program .initial) := by
    rw [start, if_neg (by simpa using hasEntry)]
  rw [← isRun, Program.pointsTo, solve, isStart]
  rfl

/-- The entry method passes a new object to a method which calls the entry method again. -/
theorem pointsTo_ends_recursive : ∃ program,
    Program.ofText "class A {
      static method f(A p) : void { invokestatic <A: void main()>(); return; }
      static method main() : void { var A x; x = new A;
        invokestatic <A: void f(A)>(x); return; } }" = .ok program ∧
    program.entries ≠ [] ∧ ∃ bound final, final.worklist.items = [] ∧ ∀ steps,
      program.pointsTo (.callSites 2) steps =
        if bound ≤ steps then .ok final else .error .unsettled := by
  have passes : (Program.ofText "class A {
      static method f(A p) : void { invokestatic <A: void main()>(); return; }
      static method main() : void { var A x; x = new A;
        invokestatic <A: void f(A)>(x); return; } }").toOption.any
      (fun program => !program.entries.isEmpty) = true := by decide +kernel
  obtain ⟨program, isProgram, isSome⟩ := exists_of_test passes
  have hasEntry : program.entries ≠ [] := by simpa using isSome
  exact ⟨program, isProgram, hasEntry, pointsTo_ends hasEntry (.callSites 2)⟩

end TacAnalysis.PointsTo.State
