/-
# The jumps of a resolved program

A label stands for the position of a statement, so that the statements of a method
jump to statements of the same method only. What concerns methods one by one has to
be checked when a method is declared, since nothing else changes the methods of a
program being resolved.
-/

import TacAnalysis.Proofs.Resolution.Ownership

namespace TacAnalysis

namespace Stmt

/-- Renaming variables changes no jump. -/
theorem jumps_rename {onDef onUse : VarId → VarId} {stmt : Stmt} :
    (stmt.rename onDef onUse).jumps = stmt.jumps := by
  cases stmt <;> rfl

end Stmt

/-- Every statement that a method jumps to is one of its own. -/
def MethodDef.JumpsInside (method : MethodDef) : Prop :=
  ∀ stmt ∈ method.body, ∀ target ∈ stmt.jumps, target < method.body.size

namespace Scope

variable {scope new : Scope} {size : Nat}

/-- Labels stand for positions before a given one. -/
def LabelsBelow (scope : Scope) (size : Nat) : Prop := ∀ entry ∈ scope.labels, entry.2 < size

theorem labelsBelow_declareLabels {lines : List Source.Line} {position : Nat}
    (isNew : scope.declareLabels position lines = .ok new)
    (below : scope.LabelsBelow (position + lines.length)) :
    new.LabelsBelow (position + lines.length) := by
  induction lines generalizing scope position with
  | nil =>
      cases isNew
      exact below
  | cons line lines ih =>
      have sameEnd : position + (line :: lines).length = position + 1 + lines.length := by
        rw [List.length_cons]
        omega
      rw [sameEnd] at below ⊢
      unfold declareLabels at isNew
      split at isNew
      case h_1 => exact ih isNew below
      case h_2 label isLabel =>
          split at isNew
          case isTrue => cases isNew
          case isFalse =>
              apply ih isNew
              intro entry isEntry
              rcases List.mem_append.mp isEntry with isOld | isLast
              · exact below entry isOld
              · rw [List.mem_singleton.mp isLast]
                simp only
                omega

theorem lt_of_resolveLabel {name : String} {position : Nat} (below : scope.LabelsBelow size)
    (isResolved : scope.resolveLabel name = .ok position) : position < size := by
  unfold resolveLabel at isResolved
  split at isResolved
  case h_1 found isFound =>
      cases isResolved
      obtain ⟨before, after, isSplit, -⟩ := List.lookup_eq_some_iff.mp isFound
      exact below (name, position) (by rw [isSplit]; simp)
  case h_2 => cases isResolved

theorem jumps_resolveAssignment {target : VarId} {operand : Source.Operand} {stmt : Stmt}
    (isResolved : scope.resolveAssignment target operand = .ok stmt) : stmt.jumps = [] := by
  cases operand with
  | new ty =>
      obtain ⟨_, -, isPure⟩ := Resolved.bind_eq_ok.mp isResolved
      cases isPure
      rfl
  | literal value =>
      cases isResolved
      rfl
  | copy name =>
      obtain ⟨_, -, isPure⟩ := Resolved.bind_eq_ok.mp isResolved
      cases isPure
      rfl
  | cast ty name =>
      obtain ⟨_, -, isRest⟩ := Resolved.bind_eq_ok.mp isResolved
      obtain ⟨_, -, isPure⟩ := Resolved.bind_eq_ok.mp isRest
      cases isPure
      rfl
  | binary op left right =>
      obtain ⟨_, -, isPure⟩ := Resolved.bind_eq_ok.mp isResolved
      cases isPure
      rfl
  | field path =>
      obtain ⟨_, -, isPure⟩ := Resolved.bind_eq_ok.mp isResolved
      cases isPure
      rfl
  | element base index =>
      obtain ⟨_, -, isRest⟩ := Resolved.bind_eq_ok.mp isResolved
      obtain ⟨_, -, isPure⟩ := Resolved.bind_eq_ok.mp isRest
      cases isPure
      rfl
  | call exp =>
      obtain ⟨_, -, isPure⟩ := Resolved.bind_eq_ok.mp isResolved
      cases isPure
      rfl

/-- A statement jumps only to positions that labels stand for. -/
theorem jumps_resolveAction {action : Source.Action} {stmt : Stmt}
    (below : scope.LabelsBelow size) (isResolved : scope.resolveAction action = .ok stmt) :
    ∀ target ∈ stmt.jumps, target < size := by
  intro target isJump
  cases action with
  | nop =>
      cases isResolved
      cases isJump
  | assign name operand =>
      obtain ⟨_, -, isRest⟩ := Resolved.bind_eq_ok.mp isResolved
      rw [jumps_resolveAssignment isRest] at isJump
      cases isJump
  | storeField path source =>
      obtain ⟨_, -, isRest⟩ := Resolved.bind_eq_ok.mp isResolved
      obtain ⟨_, -, isPure⟩ := Resolved.bind_eq_ok.mp isRest
      cases isPure
      cases isJump
  | storeElement base index source =>
      obtain ⟨_, -, isRest⟩ := Resolved.bind_eq_ok.mp isResolved
      obtain ⟨_, -, isRest⟩ := Resolved.bind_eq_ok.mp isRest
      obtain ⟨_, -, isPure⟩ := Resolved.bind_eq_ok.mp isRest
      cases isPure
      cases isJump
  | call exp =>
      obtain ⟨_, -, isPure⟩ := Resolved.bind_eq_ok.mp isResolved
      cases isPure
      cases isJump
  | branch op left right label =>
      obtain ⟨_, -, isRest⟩ := Resolved.bind_eq_ok.mp isResolved
      obtain ⟨position, isPosition, isPure⟩ := Resolved.bind_eq_ok.mp isRest
      cases isPure
      rw [List.mem_singleton.mp isJump]
      exact lt_of_resolveLabel below isPosition
  | goto label =>
      obtain ⟨position, isPosition, isPure⟩ := Resolved.bind_eq_ok.mp isResolved
      cases isPure
      rw [List.mem_singleton.mp isJump]
      exact lt_of_resolveLabel below isPosition
  | switch scrutinee cases default =>
      obtain ⟨_, -, isRest⟩ := Resolved.bind_eq_ok.mp isResolved
      obtain ⟨targets, areTargets, isRest⟩ := Resolved.bind_eq_ok.mp isRest
      obtain ⟨position, isPosition, isPure⟩ := Resolved.bind_eq_ok.mp isRest
      cases isPure
      rcases List.mem_append.mp isJump with isCase | isDefault
      · obtain ⟨entry, isEntry, rfl⟩ := List.mem_map.mp isCase
        obtain ⟨written, -, isResolved⟩ := Resolved.exists_of_mem_mapM areTargets isEntry
        obtain ⟨found, isFound, isPure⟩ := Resolved.bind_eq_ok.mp isResolved
        cases isPure
        exact lt_of_resolveLabel below isFound
      · rw [List.mem_singleton.mp isDefault]
        exact lt_of_resolveLabel below isPosition
  | ret value =>
      obtain ⟨_, -, isPure⟩ := Resolved.bind_eq_ok.mp isResolved
      cases isPure
      cases isJump

/-- The statements of a body jump inside the body. -/
theorem jumps_resolveLines {lines : List Source.Line} {body : Array Stmt}
    (noLabels : scope.labels = []) (isResolved : scope.resolveLines lines = .ok body) :
    ∀ stmt ∈ body, ∀ target ∈ stmt.jumps, target < body.size := by
  obtain ⟨labelled, isLabelled, isRest⟩ := Resolved.bind_eq_ok.mp isResolved
  obtain ⟨stmts, areStmts, isPure⟩ := Resolved.bind_eq_ok.mp isRest
  cases isPure
  have below : scope.LabelsBelow (0 + lines.length) := by
    intro entry isEntry
    rw [noLabels] at isEntry
    cases isEntry
  have labelledBelow := labelsBelow_declareLabels isLabelled below
  rw [Nat.zero_add, ← Resolved.length_mapM areStmts] at labelledBelow
  intro stmt isStmt
  obtain ⟨line, -, isAction⟩ :=
    Resolved.exists_of_mem_mapM areStmts (List.mem_toArray.mp isStmt)
  exact jumps_resolveAction labelledBelow isAction

end Scope

namespace Program

variable {program new : Program}

/-- What holds of every method of a program. -/
def AllMethods (good : MethodDef → Prop) (program : Program) : Prop :=
  ∀ method ∈ program.methods, good method

theorem AllMethods.of_eq {good : MethodDef → Prop} (areGood : program.AllMethods good)
    (sameMethods : new.methods = program.methods) : new.AllMethods good := by
  rw [AllMethods, sameMethods]
  exact areGood

/-- A number past the end of the table stands for a method without statements. -/
theorem AllMethods.methodDef {good : MethodDef → Prop} (areGood : program.AllMethods good)
    (isGood : good default) (id : MethodId) : good (program.methodDef id) := by
  rw [Program.methodDef, Array.getD]
  split
  case isTrue inTable => exact areGood _ (Array.getElem_mem inTable)
  case isFalse => exact isGood

/-- Adding a method leaves the others as they are. -/
theorem AllMethods.addSplit {good : MethodDef → Prop} {method : MethodDef}
    (others : program.AllMethods good) (isGood : good (program.splitMethod method))
    (isNew : program.declaredMethod? method.owner method.sub = none) :
    (program.addSplit method isNew).AllMethods good := by
  intro other isOther
  rw [methods_addSplit] at isOther
  rcases Array.mem_push.mp isOther with isOld | rfl
  · exact others other isOld
  · exact isGood

/-- Splitting the variables of a method leaves its jumps as they are. -/
theorem jumpsInside_splitMethod {method : MethodDef} (areInside : method.JumpsInside) :
    (program.splitMethod method).JumpsInside := by
  intro stmt isStmt target isJump
  obtain ⟨original, isOriginal, onDef, onUse, rfl⟩ := Code.exists_of_mem_split isStmt
  rw [Stmt.jumps_rename] at isJump
  have sameSize : (program.splitMethod method).body.size = method.body.size := Code.size_split
  rw [sameSize]
  exact areInside original isOriginal target isJump

theorem jumpsInside_declareMethod {owner : ClassId} {decl : Source.MethodDecl}
    (others : program.AllMethods MethodDef.JumpsInside)
    (isNew : declareMethod owner program decl = .ok new) :
    new.AllMethods MethodDef.JumpsInside := by
  obtain ⟨header, scope, body, declares⟩ := exists_of_declareMethod isNew
  have extend := (Scope.extends_declareVars declares.isHeader).trans
    (Scope.extends_declareVars declares.isScope)
  rw [declares.isNew]
  refine (others.of_eq extend.methods).addSplit (jumpsInside_splitMethod ?_) _
  exact Scope.jumps_resolveLines extend.labels declares.isBody

/-- In the program that a text stands for, methods jump to statements of their own. -/
theorem jumpsInside_ofText {text : String} (isProgram : ofText text = .ok program)
    (id : MethodId) : (program.methodDef id).JumpsInside := by
  have areInside : program.AllMethods MethodDef.JumpsInside :=
    ofText_induction (fun method isIn => absurd isIn (Array.not_mem_empty method))
      (fun _ _ same areInside => areInside.of_eq same.methods) jumpsInside_declareMethod isProgram
  exact areInside.methodDef (fun stmt isStmt => absurd isStmt (Array.not_mem_empty stmt)) id

end Program

end TacAnalysis
