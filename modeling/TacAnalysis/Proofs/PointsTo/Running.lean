/-
# Runs of a points-to analysis

An analysis is complete when every rule that applies to what it has found has
been applied, what has been sent counting as found. It is so once the entry
methods are scheduled, every step keeps it so, and it is still lawful and
complete when nothing is left to do.
-/

import TacAnalysis.PointsTo.Result
import TacAnalysis.Proofs.PointsTo.Visiting

namespace TacAnalysis.PointsTo.State

/-- Every rule that applies to what a state records has been applied. -/
structure Complete (program : Program) (selector : Selector) (state : State) : Prop where
  entered {method : MethodId} : method ∈ program.entries →
    state.Scheduled ⟨Contexts.emptyContext, method⟩
  linked {edge : CallEdge QualifiedSite QualifiedMethod} : edge ∈ state.calls.edges →
    state.LinkDone program edge
  visited {method : QualifiedMethod} : method ∈ state.calls.reachable →
    state.MethodDone program selector method
  accessed {id : PointerId} {var : VarId} {context : ContextId} {object : QualifiedId} :
    object ∈ (state.flow.objects id).elements → state.flow.pointer? id = some (.var var context) →
    state.ObjectDone program selector var context object

variable {program : Program} {selector : Selector} {facts : Set Finding}
variable {state old new : State}

/-- Work that deals with whatever it adds keeps an analysis complete. -/
theorem Advances.complete (lawful : Lawful program facts old)
    (complete : Complete program selector old)
    (advances : Advances program selector facts old new) :
    Complete program selector new where
  entered isEntry := advances.toGrows.scheduled (complete.entered isEntry)
  linked isEdge := by
    rcases advances.linked isEdge with isOld | done
    · exact advances.toGrows.linkDone (complete.linked isOld)
    · exact done
  visited isReachable := by
    rcases advances.visited isReachable with isOld | done
    · exact advances.toGrows.methodDone (complete.visited isOld)
    · exact done
  accessed isHeld isVar := by
    rcases advances.accessed isHeld isVar with isOld | done
    · obtain ⟨pointer, isPointer, -⟩ := lawful.justified.delivered (Or.inl isOld)
      cases (advances.toGrows.pointer? isPointer).symm.trans isVar
      exact advances.toGrows.objectDone (complete.accessed isOld isPointer)
    · exact done

/-- The state without findings is lawful for any of them. -/
theorem lawful_initial : Lawful program facts .initial where
  numbered := by
    refine ⟨rfl, ?_, List.nodup_nil, nofun, nofun, nofun⟩
    intro list object isList isIn
    rw [List.mem_singleton.mp isList] at isIn
    cases isIn
  justified := by
    refine ⟨?_, ?_, nofun, nofun⟩
    · rintro id object (isHeld | ⟨objects, isWork, -⟩)
      · cases isHeld
      · cases isWork
    · rintro method (isReachable | isWork)
      · cases isReachable
      · cases isWork
  flowing := nofun

/-- Recording an entry method changes nothing that the rules are about. -/
theorem advances_addEntry (selector : Selector) (lawful : Lawful program facts state)
    (entry : QualifiedMethod) :
    Advances program selector facts state { state with calls := state.calls.addEntry entry } := by
  have sameEdges : (state.calls.addEntry entry).edges = state.calls.edges :=
    CallGraph.edges_addEntry _
  have sameReachable : (state.calls.addEntry entry).reachable = state.calls.reachable :=
    CallGraph.reachable_addEntry _
  have scheduled {method : QualifiedMethod} :
      ({ state with calls := state.calls.addEntry entry } : State).Scheduled method ↔
        state.Scheduled method := by
    simp only [Scheduled, sameReachable]
  have grows : Grows state { state with calls := state.calls.addEntry entry } := by
    refine ⟨List.prefix_refl _, List.prefix_refl _, List.prefix_refl _, List.prefix_refl _, id,
      List.Subset.refl _, ?_, ?_, id, scheduled.mpr⟩
    · rw [sameReachable]
      exact List.Subset.refl _
    · rw [sameEdges]
      exact List.Subset.refl _
  refine ⟨grows, ⟨lawful.numbered.of_same rfl rfl rfl, ?_, lawful.flowing⟩, ?_, ?_, ?_⟩
  · apply grows.justified lawful.numbered lawful.justified id scheduled.mp (List.Subset.refl _)
    rw [sameEdges]
    exact List.Subset.refl _
  · intro edge isEdge
    exact Or.inl (by rwa [sameEdges] at isEdge)
  · intro method isReachable
    exact Or.inl (by rwa [sameReachable] at isReachable)
  · exact fun isHeld _ => Or.inl isHeld

/-- Recording the entry methods schedules them. -/
theorem advances_enter (closed : Closed program selector facts)
    (lawful : Lawful program facts state) :
    Advances program selector facts state (enter program state) ∧
      ∀ method ∈ program.entries,
        (enter program state).Scheduled ⟨Contexts.emptyContext, method⟩ := by
  refine Advances.foldl (fun method state => state.Scheduled ⟨Contexts.emptyContext, method⟩) lawful
    (fun grows done => grows.scheduled done) ?_
  intro middle advances method isEntry
  have recorded := advances_addEntry selector advances.lawful
    ⟨Contexts.emptyContext, method⟩
  have isEmpty := recorded.lawful.numbered.emptyContext
  have scheduled := keeps_schedule (.method ⟨Contexts.emptyContext, method⟩) recorded.lawful
    ⟨ArrivalSet.lt_size isEmpty, by
      rw [activation, contextList, Contexts.get_of_get? isEmpty]
      exact closed.entry isEntry⟩
  exact ⟨recorded.trans scheduled.advances, scheduled_schedule⟩

/-- Before the first step, the analysis is lawful and complete. -/
theorem complete_enter (closed : Closed program selector facts) :
    Lawful program facts (enter program .initial) ∧
      Complete program selector (enter program .initial) := by
  have nothing : Lawful program facts .initial := lawful_initial
  obtain ⟨advances, entered⟩ := advances_enter closed nothing
  refine ⟨advances.lawful, ⟨fun isEntry => entered _ isEntry, ?_, ?_, ?_⟩⟩
  · intro edge isEdge
    exact (advances.linked isEdge).resolve_left nofun
  · intro method isReachable
    exact (advances.visited isReachable).resolve_left nofun
  · intro id var context object isHeld isVar
    exact (advances.accessed isHeld isVar).resolve_left nofun

/-- A run that ends leaves nothing to do, and what every step preserves. -/
theorem run_induction {motive : State → Prop}
    (step : ∀ {old new}, motive old → step? program selector old = some new → motive new)
    {steps : Nat} (start : motive old) (isRun : run program selector steps old = .ok new) :
    motive new ∧ new.worklist.items = [] := by
  induction steps generalizing old with
  | zero =>
      unfold run at isRun
      split at isRun
      case isTrue isEmpty =>
          cases isRun
          exact ⟨start, List.isEmpty_iff.mp isEmpty⟩
      case isFalse => cases isRun
  | succ steps ih =>
      unfold run at isRun
      split at isRun
      case h_1 isLast =>
          cases isRun
          refine ⟨start, ?_⟩
          unfold step? Worklist.pop? at isLast
          split at isLast
          case h_1 isEmpty => exact isEmpty
          case h_2 => cases isLast
      case h_2 next isStep => exact ih (step start isStep) isRun

/-- A run that ends leaves a lawful and complete state. -/
theorem complete_run (closed : Closed program selector facts) {steps : Nat}
    (lawful : Lawful program facts old) (complete : Complete program selector old)
    (isRun : run program selector steps old = .ok new) :
    Lawful program facts new ∧ Complete program selector new ∧ new.worklist.items = [] := by
  let Good (state : State) : Prop := Lawful program facts state ∧ Complete program selector state
  have keeps {old new : State} (isGood : Good old) (isStep : step? program selector old = some new) :
      Good new := by
    have advances := advances_step closed isGood.1 isStep
    exact ⟨advances.lawful, advances.complete isGood.1 isGood.2⟩
  obtain ⟨⟨newLawful, newComplete⟩, settled⟩ :=
    run_induction (motive := Good) keeps ⟨lawful, complete⟩ isRun
  exact ⟨newLawful, newComplete, settled⟩

/-- An analysis is a run once the entry methods, of which there are some, are recorded. -/
theorem run_of_pointsTo {steps : Nat} (solved : program.pointsTo selector steps = .ok state) :
    program.entries.isEmpty = false ∧
      run program selector steps (enter program .initial) = .ok state := by
  unfold Program.pointsTo solve start at solved
  cases isEmpty : program.entries.isEmpty with
  | true =>
      rw [isEmpty] at solved
      cases solved
  | false =>
      rw [isEmpty] at solved
      exact ⟨rfl, solved⟩

/-- A solved state is lawful for every closed set of findings, and complete, and
nothing is left to do. -/
theorem complete_solve (closed : Closed program selector facts) {steps : Nat}
    (solved : program.pointsTo selector steps = .ok state) :
    Lawful program facts state ∧ Complete program selector state ∧ state.worklist.items = [] := by
  obtain ⟨lawful, complete⟩ := complete_enter closed
  exact complete_run closed lawful complete (run_of_pointsTo solved).2

end TacAnalysis.PointsTo.State
