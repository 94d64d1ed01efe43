/-
# Soundness of points-to analysis

Whatever happens when a program runs has been predicted by the analysis: the
methods that are executed, the methods that a call site runs, and the objects that
variables, fields and elements refer to, an object being known by where it was
allocated.
-/

import TacAnalysis.Proofs.PointsTo.Abstraction
import TacAnalysis.Proofs.PointsTo.Settled
import TacAnalysis.Proofs.PointsTo.Sites

namespace TacAnalysis.PointsTo

open Execution

namespace State

variable (state : State)

/-- The analysis knows an object that is allocated where the one at an address was,
among some. -/
def Locates (objects : List ObjectId) (machine : Machine) (address : Address) : Prop :=
  ∃ object ∈ objects, machine.siteAt? address = some (state.heap.object object).site

/-- What an analysis says about a machine is right. -/
structure Predicts (machine : Machine) : Prop where
  method {frame : Frame} : frame ∈ machine.stack → frame.method ∈ state.reachableMethods
  /-- A frame that waits for another one waits at a call that may run its method. -/
  call {above below : List Frame} {callee caller : Frame} :
    machine.stack = above ++ callee :: caller :: below →
    callee.method ∈ state.calleesAt caller.site
  var {frame : Frame} {var : VarId} {address : Address} : frame ∈ machine.stack →
    frame.vars var = some (.reference address) →
    state.Locates (state.objectsInVar var) machine address
  static {field : FieldId} {address : Address} : machine.statics field = .reference address →
    state.Locates (state.objectsInStatic field) machine address
  field {base address : Address} {object : Instance} {field : FieldId} :
    machine.objects[base]? = some object → object.fields field = .reference address →
    ∃ holder, (state.heap.object holder).site = object.site ∧
      state.Locates (state.objectsInField holder field) machine address
  element {base address : Address} {object : Instance} {index : Datum} :
    machine.objects[base]? = some object → object.elements index = .reference address →
    ∃ holder, (state.heap.object holder).site = object.site ∧
      state.Locates (state.objectsInArray holder) machine address

variable {state} {program : Program} {selector : Selector} {origins : List Origin}
variable {machine : Machine}

/-- What covers a reference is shown to hold an object allocated where the one referred to
was. -/
theorem exists_held_of_covers (accounts : AccountsFor program state.findings origins machine)
    {place : Place} {address : Address}
    (covers : Covers state.findings origins place (.reference address)) :
    ∃ origin, state.Shows (.holds place origin) ∧ machine.siteAt? address = some origin.site := by
  obtain ⟨origin, isOrigin, isHeld⟩ := covers address rfl
  refine ⟨origin, isHeld, ?_⟩
  have inUse : address < machine.objects.length := by
    rw [accounts.size]
    exact (List.getElem?_eq_some_iff.mp isOrigin).1
  have isObject := List.getElem?_eq_getElem inUse
  rw [Machine.siteAt?, isObject, Option.map_some, (accounts.objects isObject isOrigin).site]

/-- An analysis locates an object in what it tells of when it tells of one that is allocated
where the object was. -/
theorem locates_of_site {objects : List ObjectId} {address : Address} {site : Site}
    (isSite : machine.siteAt? address = some site)
    (isFound : ∃ object ∈ objects, state.siteOf object = site) :
    state.Locates objects machine address := by
  obtain ⟨object, isIn, rfl⟩ := isFound
  exact ⟨object, isIn, isSite⟩

/-- A frame of a stack is in some context. -/
theorem exists_placed {facts : Set Finding} {context : List ContextItem} {frames : List Frame}
    (stacked : Stacked program facts origins context frames) {frame : Frame}
    (isIn : frame ∈ frames) : ∃ other, Placed facts origins other frame := by
  induction stacked with
  | bottom placed =>
      rw [List.mem_singleton.mp isIn]
      exact ⟨_, placed⟩
  | call placed _ _ _ ih =>
      rcases List.mem_cons.mp isIn with rfl | isBelow
      · exact ⟨_, placed⟩
      · exact ih isBelow

/-- A frame of a stack is called by the one below. -/
theorem exists_calls {facts : Set Finding} {context : List ContextItem} {frames : List Frame}
    (stacked : Stacked program facts origins context frames) {above below : List Frame}
    {callee caller : Frame} (isStack : frames = above ++ callee :: caller :: below) :
    ∃ kind waiting called, .calls kind waiting caller.site ⟨called, callee.method⟩ ∈ facts := by
  induction stacked generalizing above with
  | bottom _ =>
      have sameLength := congrArg List.length isStack
      simp at sameLength
      omega
  | call _ _ _ isFact ih =>
      cases above with
      | nil =>
          cases isStack
          exact ⟨_, _, _, isFact⟩
      | cons first rest =>
          rw [List.cons_append, List.cons.injEq] at isStack
          exact ih isStack.2

/-- What accounts for a machine predicts it. -/
theorem predicts_of_accountsFor (accounts : AccountsFor program state.findings origins machine) :
    state.Predicts machine := by
  have stacked {frame : Frame} (isIn : frame ∈ machine.stack) :
      ∃ context, Placed state.findings origins context frame := by
    rcases accounts.stack with isEmpty | ⟨context, stacked⟩
    · rw [isEmpty] at isIn
      cases isIn
    · exact exists_placed stacked isIn
  constructor
  case method =>
      intro frame isIn
      obtain ⟨context, placed⟩ := stacked isIn
      exact mem_reachableMethods_iff.mpr ⟨_, placed.reachable⟩
  case call =>
      intro above below callee caller isStack
      rcases accounts.stack with isEmpty | ⟨context, stacked⟩
      · rw [isEmpty] at isStack
        simp at isStack
      · obtain ⟨kind, waiting, called, isCall⟩ := exists_calls stacked isStack
        exact mem_calleesAt_iff.mpr ⟨kind, waiting, called, isCall⟩
  case var =>
      intro frame var address isIn isHeld
      obtain ⟨context, placed⟩ := stacked isIn
      obtain ⟨origin, isShown, isSite⟩ := exists_held_of_covers accounts (placed.held isHeld)
      exact locates_of_site isSite (exists_inVar_iff.mpr ⟨context, origin, isShown, rfl⟩)
  case static =>
      intro field address isHeld
      obtain ⟨origin, isShown, isSite⟩ :=
        exists_held_of_covers accounts (isHeld ▸ accounts.statics field)
      exact locates_of_site isSite (exists_inStatic_iff.mpr ⟨origin, isShown, rfl⟩)
  case field =>
      intro base address object field isObject isHeld
      obtain ⟨holder, isHolder, modelled⟩ := accounts.exists_origin isObject
      obtain ⟨origin, isShown, isSite⟩ :=
        exists_held_of_covers accounts (isHeld ▸ modelled.fields field)
      obtain ⟨other, isOther, isIn⟩ :=
        exists_inField_iff.mpr ⟨holder, origin, isShown, rfl, rfl⟩
      exact ⟨other, isOther.trans modelled.site.symm, locates_of_site isSite isIn⟩
  case element =>
      intro base address object index isObject isHeld
      obtain ⟨holder, isHolder, modelled⟩ := accounts.exists_origin isObject
      obtain ⟨origin, isShown, isSite⟩ :=
        exists_held_of_covers accounts (isHeld ▸ modelled.elements index)
      obtain ⟨other, isOther, isIn⟩ :=
        exists_inArray_iff.mpr ⟨holder, origin, isShown, rfl, rfl⟩
      exact ⟨other, isOther.trans modelled.site.symm, locates_of_site isSite isIn⟩

/-- The analysis predicts every machine of every run in which only variables of a
reference type hold references. -/
theorem predicts_of_run {steps : Nat}
    (solved : program.pointsTo selector steps = .ok state) {run : List Machine}
    (isRun : Run program run) (typed : ∀ machine ∈ run, machine.ReferencesTyped program) :
    ∀ machine ∈ run, state.Predicts machine := by
  obtain ⟨lawful, complete, settled⟩ := complete_solve closed_univ solved
  have closed := closed_findings lawful complete settled
  intro machine isIn
  obtain ⟨origins, accounts⟩ := accountsFor_run closed isRun typed machine isIn
  exact predicts_of_accountsFor accounts

/-- A program in which an object is allocated and one of its methods called. -/
def callingText : String := "class Main { method m() : void { return; }
  static method main() : void { var Main x; x = new Main; invokevirtual x.<Main: void m()>();
    return; } }"

/-- A method that starts, at the allocation of an object. -/
def beforeNew : Machine := ⟨[⟨1, 0, fun _ => none⟩], [], fun _ => .null⟩

/-- The object has been allocated, and is about to be called. -/
def afterNew : Machine :=
  ⟨[Frame.assign ⟨1, 0, fun _ => none⟩ 1 (some (.reference 0))],
    [⟨⟨1, 0⟩, .named "Main", fun _ => .null, fun _ => .null⟩], fun _ => .null⟩

/-- A method has been called on the object. -/
def afterCall (method : MethodDef) : Machine :=
  { afterNew with stack :=
    ⟨0, 0, calleeVars method (some (.reference 0))
      (Function.update (fun _ => none) 1 (some (.reference 0))) []⟩ :: afterNew.stack }

/-- An object is allocated and one of its methods called. -/
theorem predicts_call : ∃ program state run,
    Program.ofText callingText = .ok program ∧
    program.pointsTo (.callSites 2) 20 = .ok state ∧ Run program run ∧
    (∀ machine ∈ run, machine.ReferencesTyped program) ∧
    (∃ machine ∈ run, machine.stack.length = 2) ∧ ∀ machine ∈ run, state.Predicts machine := by
  have passes : (Program.ofText callingText).toOption.any (fun program =>
      (program.pointsTo (.callSites 2) 20).toOption.any fun _ => decide (1 ∈ program.entries ∧
        program.stmt ⟨1, 0⟩ = .new 1 (.named "Main") ∧ program.stmt ⟨1, 1⟩ =
          .call ⟨none, .virtual, ⟨1, ⟨"m", [], .void⟩⟩, some 1, []⟩ ∧
        program.classNamed? "Main" = some 1 ∧ program.isSubtype 1 1 = true ∧
        program.dispatch 1 ⟨"m", [], .void⟩ = some 0 ∧ (program.methodDef 0).this = some 0 ∧
        program.isReference 0 = true ∧
        program.isReference 1 = true)) = true := by decide +kernel
  obtain ⟨program, isProgram, ends⟩ := exists_of_test passes
  obtain ⟨state, solved, holds⟩ := exists_of_test ends
  obtain ⟨isEntry, isNew, isCall, isNamed, isSubtype, dispatched, isThis, isReference, isOther⟩ :=
    of_decide_eq_true holds
  have starts : Starts program beforeNew := ⟨⟨1, isEntry, fun _ => none, rfl, nofun⟩, rfl, nofun⟩
  have allocates : Step program beforeNew afterNew :=
    .new rfl isNew (fun _ _ => nofun) fun _ _ => nofun
  have resolves : Resolves program ⟨none, .virtual, ⟨1, ⟨"m", [], .void⟩⟩, some 1, []⟩
      (.named "Main") 0 := .dynamic nofun (.named isNamed) isSubtype dispatched
  have calls : Step program afterNew (afterCall (program.methodDef 0)) :=
    @Step.callOn program afterNew _ [] ⟨none, .virtual, ⟨1, ⟨"m", [], .void⟩⟩, some 1, []⟩ 1 0 _ 0
      rfl isCall nofun rfl rfl rfl (fun _ => nofun) resolves
  have isRun := Run.step (Run.step (Run.start starts) allocates) calls
  have callerTyped (var : VarId) (address : Address)
      (isHeld : Function.update (fun _ => none) 1 (some (.reference 0)) var =
        some (Datum.reference address)) : program.isReference var = true := by
    by_cases same : var = 1
    · rw [same]
      exact isOther
    · rw [Function.update_of_ne same] at isHeld
      cases isHeld
  have typed : ∀ machine ∈ [afterCall (program.methodDef 0), afterNew, beforeNew],
      machine.ReferencesTyped program := by
    have calleeTyped (var : VarId) (address : Address)
        (isHeld : calleeVars (program.methodDef 0) (some (.reference 0))
          (Function.update (fun _ => none) 1 (some (.reference 0))) [] var =
            some (Datum.reference address)) : program.isReference var = true := by
      unfold calleeVars at isHeld
      rw [isThis] at isHeld
      split at isHeld
      case isTrue same =>
          cases same
          exact isReference
      case isFalse => cases isHeld
    intro machine isIn frame isFrame var address isHeld
    simp only [List.mem_cons, List.not_mem_nil, or_false] at isIn
    rcases isIn with rfl | rfl | rfl
    · rcases List.mem_cons.mp isFrame with rfl | isCaller
      · exact calleeTyped var address isHeld
      · rw [List.mem_singleton.mp isCaller] at isHeld
        exact callerTyped var address isHeld
    · rw [List.mem_singleton.mp isFrame] at isHeld
      exact callerTyped var address isHeld
    · rw [List.mem_singleton.mp isFrame] at isHeld
      cases isHeld
  exact ⟨program, state, _, isProgram, solved, isRun, typed, ⟨_, List.mem_cons_self, rfl⟩,
    predicts_of_run solved isRun typed⟩

end State

end TacAnalysis.PointsTo
