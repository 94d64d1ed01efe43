/-
# Runs across methods

A program is executed across its methods, each along the arcs of its control flow graph.
A call that class hierarchy analysis resolves enters one of the methods found: the
receiver and the parameters get what the receiver and the arguments of the call hold, and
no other variable is assigned. From the exit of the method the caller goes on with the
variables that it had, except that the result of the call gets what is returned; it is not
assigned when nothing is. Every other statement is executed as in a walk through a single
body, which gives anything that fits to the result of a call that is not resolved.

Which of the methods found is entered does not depend on the receiver, so that more runs
are considered here than those in which objects are followed.
-/

import TacAnalysis.ClassHierarchyAnalysis
import TacAnalysis.Proofs.Execution.Walk

namespace TacAnalysis.Calls

open Walk (Able AllFit Content Fits Store)

/-- A method being executed: where a walk through its body is, and what it returns once it is
at its exit. -/
structure Frame extends Walk.State where
  method : MethodId
  returned : Option Content

/-- A program being executed: the method being executed, and the callers waiting for it, the
last one first. -/
structure State where
  active : Frame
  callers : List Frame

/-- What a variable gets when something is handed over to it: the same, if the variable can
hold that, and otherwise anything that it can hold. -/
inductive Receives (program : Program) (var : VarId) (held : Content) : Content → Prop where
  | same : Fits program var held → Receives program var held held
  | any {content : Content} : ¬ Fits program var held → Fits program var content →
      Receives program var held content

/-- The variables that a call hands over, with those that they are handed over to: the
receiver, then the arguments in order. -/
def handovers (invoke : Invoke) (method : MethodDef) : List (VarId × VarId) :=
  invoke.receiver.toList.zip method.this.toList ++ invoke.args.zip method.params

/-- The variables of a method that a call enters. -/
structure Enters (program : Program) (invoke : Invoke) (given : Store) (method : MethodDef)
    (vars : Store) : Prop where
  receives : ∀ handover ∈ handovers invoke method, ∃ held content,
    given handover.1 = some held ∧ vars handover.2 = some content ∧
      Receives program handover.2 held content
  others : ∀ var, (∀ handover ∈ handovers invoke method, handover.2 ≠ var) → vars var = none

/-- The variables of a caller after a call, given the result of the call and what is
returned. -/
inductive Resumes (program : Program) (vars : Store) :
    Option VarId → Option Content → Store → Prop where
  | unused {returned : Option Content} : Resumes program vars none returned vars
  | nothing {result : VarId} :
      Resumes program vars (some result) none (Function.update vars result none)
  | value {result : VarId} {held content : Content} : Receives program result held content →
      Resumes program vars (some result) (some held) (Function.update vars result (some content))

/-- What a statement returns. -/
def returned? (vars : Store) : Stmt → Option Content
  | .ret (some var) => vars var
  | _ => none

/-- A step of a run. -/
inductive Step (program : Program) : State → State → Prop where
  | within {frame : Frame} {callers : List Frame} {next : Walk.State} :
      (∀ invoke, (program.methodDef frame.method).flow.stmtAt frame.node = .call invoke →
        program.resolve invoke = []) →
      Walk.Step program (program.methodDef frame.method) frame.toState next →
      Step program ⟨frame, callers⟩
        ⟨⟨next, frame.method,
          returned? frame.vars ((program.methodDef frame.method).flow.stmtAt frame.node)⟩,
          callers⟩
  | call {frame : Frame} {callers : List Frame} {invoke : Invoke} {callee : MethodId}
      {vars : Store} :
      (program.methodDef frame.method).flow.stmtAt frame.node = .call invoke →
      Able frame.vars (.call invoke) → callee ∈ program.resolve invoke →
      Enters program invoke frame.vars (program.methodDef callee) vars →
      Step program ⟨frame, callers⟩ ⟨⟨⟨.entry, vars⟩, callee, none⟩, frame :: callers⟩
  | ret {frame caller : Frame} {callers : List Frame} {arc : Arc FlowNode Branch}
      {vars : Store} :
      frame.node = .exit → arc ∈ (program.methodDef caller.method).flow.graph.arcs →
      arc.source = caller.node →
      Resumes program caller.vars
        ((program.methodDef caller.method).flow.stmtAt caller.node).def? frame.returned vars →
      Step program ⟨frame, caller :: callers⟩ ⟨⟨⟨arc.target, vars⟩, caller.method, none⟩, callers⟩

/-- An entry method is about to be entered: its receiver and parameters hold anything that
fits them. -/
structure Starts (program : Program) (state : State) : Prop where
  isEntry : state.active.method ∈ program.entries
  hasBody : (program.methodDef state.active.method).hasBody = true
  vars : Walk.Starts program (program.methodDef state.active.method) state.active.toState
  returned : state.active.returned = none
  callers : state.callers = []

/-- A run of a program, the last state first. -/
inductive Run (program : Program) : List State → Prop where
  | start {state : State} : Starts program state → Run program [state]
  | step {state next : State} {past : List State} : Run program (state :: past) →
      Step program state next → Run program (next :: state :: past)

section Handing

variable {program : Program} {var : VarId} {held content : Content} {vars new : Store}
  {result : Option VarId} {returned : Option Content}

theorem Receives.fits (receives : Receives program var held content) :
    Fits program var content := by
  cases receives with
  | same fits => exact fits
  | any _ fits => exact fits

/-- A variable that can hold what is handed over to it gets just that. -/
theorem Receives.eq_of_fits (receives : Receives program var held content)
    (fits : Fits program var held) : content = held := by
  cases receives with
  | same => rfl
  | any isUnfit => exact absurd fits isUnfit

/-- A word is handed over from a variable that holds integers to another one as it is. -/
theorem Receives.eq_word {word : Int32} {source : VarId}
    (receives : Receives program var held (.word word)) (fits : Fits program source held)
    (isInt : program.holdsInt source = true) : held = .word word := by
  obtain ⟨given, rfl⟩ := Walk.exists_word_of_fits fits isInt
  exact (receives.eq_of_fits receives.fits).symm

theorem Enters.allFit {invoke : Invoke} {given : Store} {method : MethodDef}
    (enters : Enters program invoke given method vars) : AllFit program vars := by
  intro var content isHeld
  by_cases isHandedOver : ∃ handover ∈ handovers invoke method, handover.2 = var
  · obtain ⟨handover, isHandover, rfl⟩ := isHandedOver
    obtain ⟨held, received, -, isReceived, receives⟩ := enters.receives handover isHandover
    cases isReceived.symm.trans isHeld
    exact receives.fits
  · have isLocal := enters.others var fun handover isHandover isVar =>
      isHandedOver ⟨handover, isHandover, isVar⟩
    cases isLocal.symm.trans isHeld

/-- A caller keeps the variables that are not the result of the call. -/
theorem Resumes.eq_of_ne (resumes : Resumes program vars result returned new)
    (isOther : result ≠ some var) : new var = vars var := by
  cases resumes with
  | unused => rfl
  | nothing =>
      rw [Function.update_of_ne]
      rintro rfl
      exact isOther rfl
  | value _ =>
      rw [Function.update_of_ne]
      rintro rfl
      exact isOther rfl

/-- The result of a call gets what is returned. -/
theorem Resumes.receives (resumes : Resumes program vars (some var) returned new)
    (isHeld : new var = some content) :
    ∃ held, returned = some held ∧ Receives program var held content := by
  cases resumes with
  | nothing =>
      rw [Function.update_self] at isHeld
      cases isHeld
  | value receives =>
      rw [Function.update_self] at isHeld
      cases isHeld
      exact ⟨_, rfl, receives⟩

theorem Resumes.allFit (resumes : Resumes program vars result returned new)
    (allFit : AllFit program vars) : AllFit program new := by
  intro var content isHeld
  by_cases isResult : result = some var
  · subst isResult
    obtain ⟨held, -, receives⟩ := resumes.receives isHeld
    exact receives.fits
  · rw [resumes.eq_of_ne isResult] at isHeld
    exact allFit var content isHeld

end Handing

end TacAnalysis.Calls
