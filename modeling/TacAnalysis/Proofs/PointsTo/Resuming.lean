/-
# Analyses that are interrupted

An analysis may be driven step by step before it is run to its end. Running it schedules the
entry methods again, wherever it has got to. What is done in a step depends neither on the
work that is left nor on how much has been done, but only adds to the end of the work. So the
entry methods that come late are no more in the way than if they were not there: they are done
after the work that was left at the time, which includes the entry methods that are not
reachable yet, and nothing remains to be done for them but to count them.
-/

import TacAnalysis.Proofs.PointsTo.Ending
import TacAnalysis.Proofs.PointsTo.EntryMethods

namespace TacAnalysis

namespace PointsTo.State

/-- A state in which some work comes before the work there is, and more of it has been done. -/
def before (items : List WorkItem) (count : Nat) (state : State) : State :=
  { state with
    worklist := ⟨items ++ state.worklist.items⟩, iterations := state.iterations + count }

/-- Does a number of pieces of work, or all of them when there are fewer. -/
def advance (program : Program) (selector : Selector) : (count : Nat) → State → State
  | 0, state => state
  | count + 1, state =>
      match step? program selector state with
      | none => state
      | some next => advance program selector count next

variable {program : Program} {selector : Selector} {state old new final : State}
  {items : List WorkItem} {count : Nat}

-- Each operation reads what is known and adds to the end of the work, so that it commutes with
-- putting other work before; the lemmas follow the operations from the innermost one outwards.
section Commuting

@[simp] theorem contexts_before : (before items count state).contexts = state.contexts := rfl

@[simp] theorem heap_before : (before items count state).heap = state.heap := rfl

@[simp] theorem flow_before : (before items count state).flow = state.flow := rfl

@[simp] theorem calls_before : (before items count state).calls = state.calls := rfl

variable (state)

theorem foldl_before {Item : Type} {apply : State → Item → State} {list : List Item}
    (commutes : ∀ state item,
      apply (before items count state) item = before items count (apply state item)) :
    list.foldl apply (before items count state) = before items count (list.foldl apply state) :=
  List.foldl_hom (before items count) commutes

theorem schedule_before (item : WorkItem) :
    (before items count state).schedule item = before items count (state.schedule item) := by
  simp [schedule, before, Worklist.push]

theorem send_before {object : QualifiedId} {pointer : Pointer} :
    (before items count state).send object pointer =
      before items count (state.send object pointer) := by
  simp [send, schedule, before, Worklist.push]

theorem connect_before {source target : Pointer} :
    (before items count state).connect source target =
      before items count (state.connect source target) := by
  simp only [connect, flow_before, apply_ite (before items count)]
  refine ite_congr rfl (fun _ => ?_) fun _ => rfl
  simp [schedule, before, Worklist.push]

theorem connectIf_before {typed : VarId} {source target : Pointer} :
    connectIf program typed (before items count state) source target =
      before items count (connectIf program typed state source target) := by
  unfold connectIf
  split
  case isTrue => exact connect_before state
  case isFalse => rfl

theorem passArguments_before {call : QualifiedSite} {arguments : List VarId}
    {callee : QualifiedMethod} :
    passArguments program (before items count state) call arguments callee =
      before items count (passArguments program state call arguments callee) :=
  foldl_before state fun state _ => connectIf_before state

theorem passResult_before {call : QualifiedSite} {result : Option VarId}
    {callee : QualifiedMethod} :
    passResult program (before items count state) call result callee =
      before items count (passResult program state call result callee) := by
  unfold passResult
  split
  case h_1 => rfl
  case h_2 =>
      split
      case isTrue => exact foldl_before (state.meet _) fun state _ => connect_before state
      case isFalse => rfl

theorem link_before {call : QualifiedSite} {invoke : Invoke} {callee : QualifiedMethod} :
    link program (before items count state) call invoke callee =
      before items count (link program state call invoke callee) := by
  simp only [link, calls_before, apply_ite (before items count)]
  refine ite_congr rfl (fun _ => ?_) fun _ => rfl
  let called : State := { state with calls := (state.calls.addEdge ⟨invoke.kind, call, callee⟩).2 }
  rw [← passResult_before, ← passArguments_before, ← schedule_before called]
  rfl

theorem callStatic_before {call : QualifiedSite} {invoke : Invoke} :
    callStatic program selector (before items count state) call invoke =
      before items count (callStatic program selector state call invoke) := by
  unfold callStatic
  split
  case h_1 => rfl
  case h_2 => exact link_before { state with contexts := _ }

theorem allocate_before {context : ContextId} {site : Site} {target : VarId} {ty : Ty} :
    (before items count state).allocate selector context site target ty =
      before items count (state.allocate selector context site target ty) :=
  send_before { state with heap := _, contexts := _ }

theorem visitStmt_before {point : QualifiedSite} :
    visitStmt program selector (before items count state) point =
      before items count (visitStmt program selector state point) := by
  unfold visitStmt
  simp only
  split
  case h_1 => exact allocate_before state
  case h_6 =>
      split
      case isTrue => exact callStatic_before state
      case isFalse => rfl
  case h_7 => rfl
  all_goals exact connectIf_before state

theorem visitMethod_before {method : QualifiedMethod} :
    visitMethod program selector (before items count state) method =
      before items count (visitMethod program selector state method) := by
  simp only [visitMethod, calls_before, apply_ite (before items count)]
  refine ite_congr rfl (fun _ => ?_) fun _ => rfl
  let recorded : State := { state with calls := (state.calls.addReachable method).2 }
  have commutes (state : State) (site : Site) :
      visitStmt program selector (before items count state) ⟨method.context, site⟩ =
        before items count (visitStmt program selector state ⟨method.context, site⟩) :=
    visitStmt_before state
  exact foldl_before recorded commutes

theorem visitAccess_before {object : QualifiedId} {point : QualifiedSite} :
    visitAccess program (before items count state) object point =
      before items count (visitAccess program state object point) := by
  unfold visitAccess
  simp only
  split
  case h_5 => rfl
  all_goals exact connectIf_before state

theorem callOn_before {object : QualifiedId} {call : QualifiedSite} {invoke : Invoke} :
    callOn program selector (before items count state) object call invoke =
      before items count (callOn program selector state object call invoke) := by
  simp only [callOn, heap_before, contexts_before]
  split
  case h_1 => rfl
  case h_2 =>
      split
      case h_1 =>
          rw [← link_before, ← send_before { state with contexts := _ }]
          rfl
      case h_2 => exact link_before { state with contexts := _ }

theorem visitCall_before {object : QualifiedId} {point : QualifiedSite} :
    visitCall program selector (before items count state) object point =
      before items count (visitCall program selector state object point) := by
  unfold visitCall
  split
  case h_1 => exact callOn_before state
  case h_2 => rfl

theorem visitObject_before {var : VarId} {context : ContextId} {object : QualifiedId} :
    visitObject program selector var context (before items count state) object =
      before items count (visitObject program selector var context state object) := by
  simp only [visitObject]
  rw [foldl_before _ fun state _ => visitAccess_before state,
    foldl_before _ fun state _ => visitCall_before state]

theorem pass_before {pointer : PointerId} {news : ObjectSet} :
    (before items count state).pass pointer news =
      before items count (state.pass pointer news) := by
  simp only [pass, flow_before, apply_ite (before items count)]
  refine ite_congr rfl (fun _ => rfl) fun _ => ?_
  exact foldl_before { state with flow := _ } fun state _ => schedule_before state _

theorem visitPointer_before {pointer : PointerId} {objects : ObjectSet} :
    visitPointer program selector (before items count state) pointer objects =
      before items count (visitPointer program selector state pointer objects) := by
  simp only [visitPointer, flow_before, pass_before]
  split
  case h_1 => exact foldl_before _ fun state _ => visitObject_before state
  case h_2 => rfl

/-- What a piece of work does depends neither on the work left nor on how much has been done,
and leaves both alone. -/
theorem visit_before (item : WorkItem) :
    visit program selector (before items count state) item =
      before items count (visit program selector state item) := by
  cases item with
  | method method => exact visitMethod_before state
  | objects pointer objects => exact visitPointer_before state

end Commuting

section Working

variable {item : WorkItem} {front back rest : List WorkItem} {steps : Nat}
  {method : QualifiedMethod} {late : List QualifiedMethod}

/-- A state in which there is no work to do, and none has been done. -/
def idle (state : State) : State := { state with worklist := .empty, iterations := 0 }

theorem step_taken (isWork : state.worklist.items = item :: rest) :
    step? program selector state =
      some (visit program selector (state.taken ⟨rest⟩) item) := by
  rw [step?, Worklist.pop?, isWork]
  rfl

/-- A step does the first piece of work as if there were no other, and puts the work that it
leads to behind the rest. -/
theorem step_of_cons (isWork : state.worklist.items = item :: rest) :
    step? program selector state =
      some (before rest (state.iterations + 1) (visit program selector state.idle item)) := by
  rw [step_taken isWork, ← visit_before]
  simp [before, idle, Worklist.empty, taken]

theorem step_of_nil (isDone : state.worklist.items = []) :
    step? program selector state = none := by
  rw [step?, Worklist.pop?, isDone, Option.map_none]

/-- A method that has been processed is reachable. -/
theorem mem_reachable_visitMethod :
    method ∈ (visitMethod program selector state method).calls.reachable := by
  have isRecorded : method ∈ (state.calls.addReachable method).2.reachable :=
    (CallGraph.mem_addReachable _).mpr (.inr rfl)
  unfold visitMethod
  simp only
  split
  case isTrue =>
      have updates (state : State) (site : Site) : Updates selector state
          (visitStmt program selector state ⟨method.context, site⟩) := updates_visitStmt
      exact (Updates.foldl updates _).reachable_subset isRecorded
  case isFalse isOld =>
      by_contra notReachable
      exact isOld (by simp [CallGraph.addReachable, CallGraph.contains, notReachable])

/-- A method that is reachable, or is to be processed, remains so when work is done. -/
theorem waits_of_visit
    (waits : method ∈ state.calls.reachable ∨ .method method ∈ item :: rest) :
    method ∈ (visit program selector state item).calls.reachable ∨ .method method ∈ rest := by
  rcases waits with isReachable | isWork
  · exact .inl (updates_visit.reachable_subset isReachable)
  · rcases List.mem_cons.mp isWork with rfl | isRest
    · exact .inl mem_reachable_visitMethod
    · exact .inr isRest

/-- Having more steps than needed changes nothing. -/
theorem run_of_le {more : Nat} (isRun : run program selector steps state = .ok final)
    (isLess : steps ≤ more) : run program selector more state = .ok final := by
  induction steps generalizing state more with
  | zero =>
      rw [run] at isRun
      split at isRun
      case isTrue isDone =>
          cases isRun
          cases more with
          | zero => rw [run, if_pos isDone]
          | succ more => rw [run, step_of_nil (List.isEmpty_iff.mp isDone)]
      case isFalse => cases isRun
  | succ steps ih =>
      obtain ⟨more, rfl⟩ := Nat.exists_eq_add_of_le' (Nat.le_of_add_left_le isLess)
      rw [run] at isRun ⊢
      split at isRun
      case h_1 isLast => exact isRun
      case h_2 next isStep => exact ih isRun (Nat.le_of_succ_le_succ isLess)

theorem step_counted : step? program selector (before [] count state) =
    (step? program selector state).map (before [] count) := by
  cases isWork : state.worklist.items with
  | nil =>
      have sameWork : (before [] count state).worklist.items = [] := isWork
      rw [step_of_nil isWork, step_of_nil sameWork, Option.map_none]
  | cons item rest =>
      have sameWork : (before [] count state).worklist.items = item :: rest := isWork
      have sameCount : state.iterations + count + 1 = state.iterations + 1 + count :=
        Nat.add_right_comm _ _ _
      rw [step_taken isWork, step_taken sameWork, Option.map_some, ← visit_before]
      simp only [before, taken, sameCount, List.nil_append]

/-- How much has been done before does not matter to what is done. -/
theorem run_counted : run program selector steps (before [] count state) =
    (run program selector steps state).map (before [] count) := by
  induction steps generalizing state with
  | zero =>
      rw [run, run, apply_ite (Except.map _)]
      rfl
  | succ steps ih =>
      rw [run, run, step_counted]
      cases step? program selector state with
      | none => rfl
      | some next => exact ih

/-- Processing methods that are reachable already only counts. -/
theorem run_reachable (state : State)
    (areReachable : ∀ method ∈ late, method ∈ state.calls.reachable) :
    run program selector (steps + late.length)
        { state with worklist := ⟨late.map .method ++ back⟩ } =
      run program selector steps
        { state with worklist := ⟨back⟩, iterations := state.iterations + late.length } := by
  induction late generalizing state with
  | nil => rfl
  | cons method late ih =>
      let next : State := { state with iterations := state.iterations + 1 }
      have isOld := areReachable method List.mem_cons_self
      have areOthers : ∀ method ∈ late, method ∈ next.calls.reachable := fun method isLate =>
        areReachable method (List.mem_cons_of_mem _ isLate)
      have isStep : step? program selector
          { state with worklist := ⟨(method :: late).map .method ++ back⟩ } =
            some { next with worklist := ⟨late.map .method ++ back⟩ } := by
        rw [step_taken rfl, visit]
        exact congrArg some (visitMethod_of_mem isOld)
      rw [List.length_cons, ← Nat.add_assoc, run, isStep]
      simp only [ih next areOthers, next, Nat.add_right_comm, Nat.add_assoc]

/-- Methods that come late, and are reachable already or will be once the work in front of them
is done, only count. The induction is on this work: whatever it leads to comes behind them. -/
theorem run_late (isRun : run program selector steps state = .ok final)
    (areItems : state.worklist.items = front ++ back)
    (areWaiting : ∀ method ∈ late, method ∈ state.calls.reachable ∨ .method method ∈ front) :
    run program selector (steps + late.length)
        { state with worklist := ⟨front ++ late.map .method ++ back⟩ } =
      .ok { final with iterations := final.iterations + late.length } := by
  induction front generalizing state back steps with
  | nil =>
      have areReachable : ∀ method ∈ late, method ∈ state.calls.reachable := fun method isLate =>
        (areWaiting method isLate).resolve_right List.not_mem_nil
      have isCounted : run program selector steps (before [] late.length state) =
          .ok (before [] late.length final) := by
        rw [run_counted, isRun]
        rfl
      rw [before, areItems] at isCounted
      exact (run_reachable state areReachable).trans isCounted
  | cons item front ih =>
      cases steps with
      | zero =>
          rw [run, Worklist.isEmpty, areItems] at isRun
          cases isRun
      | succ steps =>
          have isFirst : ({ state with worklist := ⟨item :: front ++ late.map .method ++ back⟩ } :
              State).worklist.items = item :: (front ++ late.map .method ++ back) := rfl
          have stillWaiting : ∀ method ∈ late,
              method ∈ (visit program selector state.idle item).calls.reachable ∨
                .method method ∈ front :=
            fun method isLate => waits_of_visit (areWaiting method isLate)
          rw [run, step_of_cons areItems] at isRun
          rw [Nat.succ_add, run, step_of_cons isFirst]
          have isRest := ih isRun (List.append_assoc _ _ _) stillWaiting
          rwa [← List.append_assoc] at isRest

end Working

section Driving

variable {steps : Nat} {method : QualifiedMethod}

/-- What has been done by hand need not be done again. -/
theorem run_advance (isRun : run program selector steps state = .ok final) :
    run program selector steps (advance program selector count state) = .ok final := by
  induction count generalizing state steps with
  | zero => exact isRun
  | succ count ih =>
      rw [advance]
      split
      case h_1 => exact isRun
      case h_2 next isStep =>
          cases steps with
          | zero =>
              obtain ⟨item, worklist, isWork, -⟩ := exists_of_step isStep
              rw [run, Worklist.isEmpty, isWork] at isRun
              cases isRun
          | succ steps =>
              rw [run, isStep] at isRun
              exact run_of_le (ih isRun) (Nat.le_succ _)

/-- What every step preserves holds wherever an analysis is driven to. -/
theorem advance_induction {motive : State → Prop}
    (step : ∀ {old new}, motive old → step? program selector old = some new → motive new)
    (start : motive state) : motive (advance program selector count state) := by
  induction count generalizing state with
  | zero => exact start
  | succ count ih =>
      rw [advance]
      split
      case h_1 => exact start
      case h_2 next isStep => exact ih (step start isStep)

/-- Methods that are scheduled stay so. -/
theorem scheduled_advance (isScheduled : state.Scheduled method) :
    (advance program selector count state).Scheduled method := by
  let Waits (other : State) : Prop := other.Scheduled method
  refine advance_induction (motive := Waits) (fun {old new} isScheduled isStep => ?_) isScheduled
  obtain ⟨item, worklist, isWork, rfl⟩ := exists_of_step isStep
  have waits : method ∈ (old.taken worklist).calls.reachable ∨
      .method method ∈ item :: worklist.items := by rwa [← isWork]
  exact (waits_of_visit waits).imp_right fun isRest => updates_visit.announces.work isRest

/-- No work adds to the entry methods. -/
theorem entries_advance :
    (advance program selector count state).calls.entries = state.calls.entries := by
  let Same (other : State) : Prop := other.calls.entries = state.calls.entries
  refine advance_induction (motive := Same) (fun isSame isStep => ?_) rfl
  obtain ⟨item, worklist, -, rfl⟩ := exists_of_step isStep
  exact updates_visit.entries.trans isSame

/-- Entry methods that are recorded already are only scheduled. -/
theorem enter_of_recorded (areRecorded : ∀ method ∈ program.entries,
    ⟨Contexts.emptyContext, method⟩ ∈ state.calls.entries) :
    enter program state = { state with worklist := ⟨state.worklist.items ++
      (program.entries.map (QualifiedMethod.mk Contexts.emptyContext)).map .method⟩ } := by
  simp only [enter]
  generalize program.entries = methods at areRecorded ⊢
  induction methods generalizing state with
  | nil => simp
  | cons method methods ih =>
      have isOld : state.calls.addEntry ⟨Contexts.emptyContext, method⟩ = state.calls :=
        if_pos (List.contains_iff_mem.mpr (areRecorded method List.mem_cons_self))
      let next := state.schedule (.method ⟨Contexts.emptyContext, method⟩)
      have areOld : ∀ method ∈ methods, ⟨Contexts.emptyContext, method⟩ ∈ next.calls.entries :=
        fun method isEntry => areRecorded method (List.mem_cons_of_mem _ isEntry)
      simp only [List.foldl_cons, isOld]
      rw [ih areOld]
      simp [next, schedule, Worklist.push]

/-- Running an analysis that has been driven by hand only counts the entry methods again. -/
theorem run_enter_advance (count : Nat)
    (isRun : run program selector steps (enter program .initial) = .ok final)
    (areScheduled : ∀ method ∈ program.entries,
      (enter program .initial).Scheduled ⟨Contexts.emptyContext, method⟩) :
    run program selector (steps + program.entries.length)
        (enter program (advance program selector count (enter program .initial))) =
      .ok { final with iterations := final.iterations + program.entries.length } := by
  let driven := advance program selector count (enter program .initial)
  have areRecorded : ∀ method ∈ program.entries,
      ⟨Contexts.emptyContext, method⟩ ∈ driven.calls.entries := by
    intro method isEntry
    rw [entries_advance]
    exact mem_entries_enter isEntry
  have areWaiting : ∀ method ∈ program.entries.map (QualifiedMethod.mk Contexts.emptyContext),
      method ∈ driven.calls.reachable ∨ .method method ∈ driven.worklist.items := by
    intro method isLate
    obtain ⟨id, isEntry, rfl⟩ := List.mem_map.mp isLate
    exact scheduled_advance (areScheduled id isEntry)
  have isLate := run_late (run_advance isRun) (List.append_nil _).symm areWaiting
  rw [List.length_map, List.append_nil] at isLate
  rwa [enter_of_recorded areRecorded]

end Driving

end PointsTo.State

/-- The points-to analysis of a program that is driven by hand through a number of pieces of
work, and then run to its end in at most a number of steps. -/
def Program.pointsToAfter (program : Program) (selector : PointsTo.Selector) (count steps : Nat) :
    Except AnalysisError PointsTo.State := do
  let started ← PointsTo.State.start program .initial
  PointsTo.State.solve program selector steps
    (PointsTo.State.advance program selector count started)

namespace PointsTo.State

variable {program : Program}

/-- Driving an analysis by hand before it is run changes nothing but the number of pieces of
work, of which there is one more for each entry method, counted as often as it is one. -/
theorem pointsToAfter_eq (hasEntry : program.entries ≠ []) (selector : Selector) :
    ∃ bound final, ∀ count steps, bound ≤ steps →
      program.pointsTo selector steps = .ok final ∧
        program.pointsToAfter selector count steps =
          .ok { final with iterations := final.iterations + program.entries.length } := by
  have finite := finite_bounded program selector.limit
  have closed : Closed program selector {finding | finding.Bounded program selector.limit} :=
    closed_bounded
  obtain ⟨lawful, complete⟩ := complete_enter closed
  obtain ⟨bound, final, -, isRun⟩ := run_ends closed finite lawful
  have isStart (state : State) : start program state = .ok (enter program state) := by
    rw [start, if_neg (by simpa using hasEntry)]
  have isFinal : run program selector bound (enter program .initial) = .ok final := by
    rw [isRun, if_pos (Nat.le_refl _)]
  refine ⟨bound + program.entries.length, final, fun count steps isEnough => ⟨?_, ?_⟩⟩
  · rw [Program.pointsTo, solve, isStart]
    exact run_of_le isFinal (Nat.le_of_add_right_le isEnough)
  · have isResumed := run_enter_advance count isFinal fun _ => complete.entered
    rw [Program.pointsToAfter, isStart]
    show solve program selector steps (advance program selector count _) = _
    rw [solve, isStart]
    exact run_of_le isResumed isEnough

/-- A program whose entry methods call each other, one of them being given twice. -/
def reenteredText : String := "class A {
  static method f(A p) : void { invokestatic <A: void main()>(); return; }
  static method main() : void { var A x; x = new A; invokestatic <A: void f(A)>(x); return; } }
  entry <A: void main()>; entry <A: void f(A)>; entry <A: void main()>;"

/-- The three entry methods are counted once more, at whatever point the analysis is run. -/
theorem pointsToAfter_eq_reentered : ∃ program, Program.ofText reenteredText = .ok program ∧
    program.entries ≠ [] ∧ program.entries = [1, 0, 1] ∧
    ∃ bound final, ∀ count steps, bound ≤ steps →
      program.pointsTo (.callSites 1) steps = .ok final ∧
        program.pointsToAfter (.callSites 1) count steps =
          .ok { final with iterations := final.iterations + program.entries.length } := by
  have passes : (Program.ofText reenteredText).toOption.any (fun program =>
      decide (program.entries = [1, 0, 1])) = true := by decide +kernel
  obtain ⟨program, isProgram, holds⟩ := exists_of_test passes
  have areEntries := of_decide_eq_true holds
  have hasEntry : program.entries ≠ [] := by
    rw [areEntries]
    exact List.cons_ne_nil _ _
  exact ⟨program, isProgram, hasEntry, areEntries, pointsToAfter_eq hasEntry (.callSites 1)⟩

end PointsTo.State

end TacAnalysis
