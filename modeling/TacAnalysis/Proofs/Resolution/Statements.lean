/-
# What statements name

A statement names nothing but what is there: fields of the table, accessed through a
variable unless they are static, methods of classes that exist, called with as many
arguments as they have parameters, and types built on classes that exist. It is resolved
once all classes and fields are declared, and the names of variables have no part in it, so
that splitting leaves it as it is.
-/

import TacAnalysis.Proofs.Resolution.Members

namespace TacAnalysis

namespace Program

variable {program old new : Program}

/-- The class of a method that is named exists, and so do the classes that the types of its
subsignature are built on. -/
structure TargetExists (program : Program) (target : MethodRef) : Prop where
  owner : target.owner < program.classes.size
  returns : program.TypeExists target.sub.ret
  params : ∀ ty ∈ target.sub.params, program.TypeExists ty

/-- A field is accessed through a variable unless it is static. -/
structure AccessFits (program : Program) (base : Option VarId) (field : FieldId) : Prop where
  inTable : field < program.fields.size
  base_eq_none_iff : base = none ↔ (program.fieldDef field).isStatic = true

/-- The classes of a program are the same, and further fields come after those that were
there. -/
structure KeepsFields (old new : Program) : Prop where
  classes : new.classes = old.classes
  fields : ∃ more, new.fields = old.fields ++ more

theorem TargetExists.keep {target : MethodRef} (exists_ : old.TargetExists target)
    (keeps : old.KeepsFields new) : new.TargetExists target where
  owner := keeps.classes ▸ exists_.owner
  returns := exists_.returns.of_classes keeps.classes
  params ty isParam := (exists_.params ty isParam).of_classes keeps.classes

theorem AccessFits.keep {base : Option VarId} {field : FieldId} (fits : old.AccessFits base field)
    (keeps : old.KeepsFields new) : new.AccessFits base field := by
  obtain ⟨more, areFields⟩ := keeps.fields
  have sameField : new.fieldDef field = old.fieldDef field := by
    rw [fieldDef, fieldDef, Array.getD_eq_getD_getElem?, Array.getD_eq_getD_getElem?, areFields,
      Array.getElem?_append_left fits.inTable]
  refine ⟨?_, sameField ▸ fits.base_eq_none_iff⟩
  rw [areFields, Array.size_append]
  exact Nat.lt_add_right _ fits.inTable

theorem targetExists_of_resolveMethod {name : Source.MethodName} {target : MethodRef}
    (isResolved : program.resolveMethod name = .ok target) : program.TargetExists target := by
  obtain ⟨⟨⟩, returns, isRest⟩ := Resolved.bind_eq_ok.mp isResolved
  obtain ⟨⟨⟩, params, isRest⟩ := Resolved.bind_eq_ok.mp isRest
  obtain ⟨owner, isOwner, isPure⟩ := Resolved.bind_eq_ok.mp isRest
  cases isPure
  exact ⟨lt_size_of_classNamed? (classNamed?_of_resolveClass isOwner),
    checkType_eq_ok_iff.mp returns, forM_checkType_eq_ok_iff.mp params⟩

theorem lt_size_of_inheritedField? {name : String} {limit : Nat} {start : Option ClassId}
    {field : FieldId} (isFound : program.inheritedField? name limit start = some field) :
    field < program.fields.size := by
  induction limit generalizing start with
  | zero => cases start <;> cases isFound
  | succ limit ih =>
      cases start with
      | none => cases isFound
      | some id =>
          rw [inheritedField?] at isFound
          split at isFound
          case h_1 isDeclared =>
              cases isFound
              rw [declaredField?_eq_findIdx?] at isDeclared
              obtain ⟨inTable, -⟩ := Array.findIdx?_eq_some_iff_getElem.mp isDeclared
              exact inTable
          case h_2 => exact ih isFound

end Program

/-- What a statement names is there, and it is used as what it is. -/
def Stmt.Fits (program : Program) : Stmt → Prop
  | .new _ ty | .cast _ ty _ => program.TypeExists ty
  | .loadField _ base field | .storeField base field _ => program.AccessFits base field
  | .call invoke => program.TargetExists invoke.target ∧
      invoke.args.length = invoke.target.sub.params.length
  | _ => True

namespace Stmt.Fits

variable {program old new : Program} {stmt : Stmt}

theorem keep (fits : stmt.Fits old) (keeps : old.KeepsFields new) : stmt.Fits new := by
  cases stmt with
  | new _ ty | cast _ ty _ => exact Program.TypeExists.of_classes fits keeps.classes
  | loadField _ base field | storeField base field _ => exact Program.AccessFits.keep fits keeps
  | call invoke => exact ⟨fits.1.keep keeps, fits.2⟩
  | _ => trivial

theorem rename {onDef onUse : VarId → VarId} (fits : stmt.Fits program) :
    (stmt.rename onDef onUse).Fits program := by
  cases stmt with
  | loadField _ base field | storeField base field _ =>
      exact ⟨fits.inTable, Option.map_eq_none_iff.trans fits.base_eq_none_iff⟩
  | call invoke => exact ⟨fits.1, (List.length_map _).trans fits.2⟩
  | _ => exact fits

end Stmt.Fits

namespace Scope

variable {scope : Scope}

theorem accessFits_of_resolveFieldIn {owner : ClassId} {name : String} {isStatic : Bool}
    {field : FieldId} (isResolved : scope.resolveFieldIn owner name isStatic = .ok field) :
    field < scope.program.fields.size ∧ (scope.program.fieldDef field).isStatic = isStatic := by
  unfold resolveFieldIn at isResolved
  simp only at isResolved
  split at isResolved
  case h_1 => cases isResolved
  case h_2 found isFound =>
      split at isResolved
      case isTrue sameKind =>
          cases isResolved
          exact ⟨Program.lt_size_of_inheritedField? isFound, sameKind⟩
      case isFalse => cases isResolved

theorem accessFits_of_resolveField {path : Source.FieldPath} {base : Option VarId}
    {field : FieldId} (isResolved : scope.resolveField path = .ok (base, field)) :
    scope.program.AccessFits base field := by
  cases path with
  | ofBase baseName name =>
      obtain ⟨found, -, isRest⟩ := Resolved.bind_eq_ok.mp isResolved
      obtain ⟨owner, -, isRest⟩ := Resolved.bind_eq_ok.mp isRest
      obtain ⟨field, isField, isPure⟩ := Resolved.bind_eq_ok.mp isRest
      cases isPure
      obtain ⟨inTable, isInstance⟩ := accessFits_of_resolveFieldIn isField
      exact ⟨inTable, by simp [isInstance]⟩
  | ofClass ownerName name =>
      obtain ⟨owner, -, isRest⟩ := Resolved.bind_eq_ok.mp isResolved
      obtain ⟨field, isField, isPure⟩ := Resolved.bind_eq_ok.mp isRest
      cases isPure
      obtain ⟨inTable, isStatic⟩ := accessFits_of_resolveFieldIn isField
      exact ⟨inTable, by simp [isStatic]⟩

theorem stmtFits_of_resolveCall {result : Option VarId} {exp : Source.CallExp} {invoke : Invoke}
    (isResolved : scope.resolveCall result exp = .ok invoke) :
    (Stmt.call invoke).Fits scope.program := by
  obtain ⟨target, isTarget, isRest⟩ := Resolved.bind_eq_ok.mp isResolved
  split at isRest
  case isTrue => cases isRest
  case isFalse sameLength =>
      obtain ⟨receiver, -, isRest⟩ := Resolved.bind_eq_ok.mp isRest
      obtain ⟨args, areArgs, isPure⟩ := Resolved.bind_eq_ok.mp isRest
      cases isPure
      exact ⟨Program.targetExists_of_resolveMethod isTarget,
        (Resolved.length_mapM areArgs).trans (not_not.mp sameLength).symm⟩

theorem stmtFits_of_resolveAssignment {target : VarId} {operand : Source.Operand} {stmt : Stmt}
    (isResolved : scope.resolveAssignment target operand = .ok stmt) :
    stmt.Fits scope.program := by
  cases operand with
  | new ty =>
      obtain ⟨⟨⟩, isChecked, isPure⟩ := Resolved.bind_eq_ok.mp isResolved
      cases isPure
      exact Program.checkType_eq_ok_iff.mp isChecked
  | literal value =>
      cases isResolved
      trivial
  | copy name | binary op left right =>
      obtain ⟨_, -, isPure⟩ := Resolved.bind_eq_ok.mp isResolved
      cases isPure
      trivial
  | cast ty name =>
      obtain ⟨⟨⟩, isChecked, isRest⟩ := Resolved.bind_eq_ok.mp isResolved
      obtain ⟨source, -, isPure⟩ := Resolved.bind_eq_ok.mp isRest
      cases isPure
      exact Program.checkType_eq_ok_iff.mp isChecked
  | field path =>
      obtain ⟨⟨base, field⟩, isField, isPure⟩ := Resolved.bind_eq_ok.mp isResolved
      cases isPure
      exact accessFits_of_resolveField isField
  | element base index =>
      obtain ⟨_, -, isRest⟩ := Resolved.bind_eq_ok.mp isResolved
      obtain ⟨_, -, isPure⟩ := Resolved.bind_eq_ok.mp isRest
      cases isPure
      trivial
  | call exp =>
      obtain ⟨invoke, isInvoke, isPure⟩ := Resolved.bind_eq_ok.mp isResolved
      cases isPure
      exact stmtFits_of_resolveCall isInvoke

theorem stmtFits_of_resolveAction {action : Source.Action} {stmt : Stmt}
    (isResolved : scope.resolveAction action = .ok stmt) : stmt.Fits scope.program := by
  cases action with
  | nop =>
      cases isResolved
      trivial
  | assign name operand =>
      obtain ⟨_, -, isRest⟩ := Resolved.bind_eq_ok.mp isResolved
      exact stmtFits_of_resolveAssignment isRest
  | storeField path source =>
      obtain ⟨⟨base, field⟩, isField, isRest⟩ := Resolved.bind_eq_ok.mp isResolved
      obtain ⟨_, -, isPure⟩ := Resolved.bind_eq_ok.mp isRest
      cases isPure
      exact accessFits_of_resolveField isField
  | call exp =>
      obtain ⟨invoke, isInvoke, isPure⟩ := Resolved.bind_eq_ok.mp isResolved
      cases isPure
      exact stmtFits_of_resolveCall isInvoke
  | goto label | ret value =>
      obtain ⟨_, -, isPure⟩ := Resolved.bind_eq_ok.mp isResolved
      cases isPure
      trivial
  | branch op left right label =>
      obtain ⟨_, -, isRest⟩ := Resolved.bind_eq_ok.mp isResolved
      obtain ⟨_, -, isPure⟩ := Resolved.bind_eq_ok.mp isRest
      cases isPure
      trivial
  | storeElement base index source | switch scrutinee cases default =>
      obtain ⟨_, -, isRest⟩ := Resolved.bind_eq_ok.mp isResolved
      obtain ⟨_, -, isRest⟩ := Resolved.bind_eq_ok.mp isRest
      obtain ⟨_, -, isPure⟩ := Resolved.bind_eq_ok.mp isRest
      cases isPure
      trivial

theorem stmtFits_of_resolveLines {lines : List Source.Line} {body : Array Stmt}
    (isResolved : scope.resolveLines lines = .ok body) :
    ∀ stmt ∈ body, stmt.Fits scope.program := by
  obtain ⟨labelled, isLabelled, isRest⟩ := Resolved.bind_eq_ok.mp isResolved
  obtain ⟨stmts, areStmts, isPure⟩ := Resolved.bind_eq_ok.mp isRest
  cases isPure
  intro stmt isStmt
  obtain ⟨line, -, isAction⟩ :=
    Resolved.exists_of_mem_mapM areStmts (List.mem_toArray.mp isStmt)
  rw [← (declareLabels_eq isLabelled).1]
  exact stmtFits_of_resolveAction isAction

end Scope

namespace Program

variable {program old new : Program}

/-- All statements of a program fit it. -/
def StmtsFit (program : Program) : Prop :=
  program.AllMethods (MethodDef.AllStmts (Stmt.Fits program))

theorem StmtsFit.keep (fit : old.StmtsFit) (keeps : old.KeepsFields new)
    (sameMethods : new.methods = old.methods) : new.StmtsFit :=
  AllMethods.of_eq (fun method isMethod stmt isStmt => (fit method isMethod stmt isStmt).keep keeps)
    sameMethods

theorem StmtsFit.declareField {owner : ClassId} {name : String} {decl : Source.FieldDecl}
    (fit : old.StmtsFit) (isNew : declareField owner name old decl = .ok new) : new.StmtsFit := by
  obtain ⟨⟨⟩, -, isRest⟩ := Resolved.bind_eq_ok.mp isNew
  split at isRest
  case isFalse => cases isRest
  case isTrue =>
      cases isRest
      exact fit.keep ⟨rfl, _, Array.push_eq_append⟩ rfl

theorem StmtsFit.declareMethod {owner : ClassId} {decl : Source.MethodDecl} (fit : old.StmtsFit)
    (isNew : declareMethod owner old decl = .ok new) : new.StmtsFit := by
  obtain ⟨header, scope, body, declares⟩ := exists_of_declareMethod isNew
  have isScopeProgram := declares.lists.program
  have keeps : old.KeepsFields scope.program := by
    rw [isScopeProgram]
    exact ⟨rfl, #[], Array.append_empty.symm⟩
  have others : scope.program.AllMethods (MethodDef.AllStmts (Stmt.Fits scope.program)) :=
    fit.keep keeps (by rw [isScopeProgram, methods_addLocals])
  have isFitting : (writtenMethod owner old decl scope body).AllStmts (Stmt.Fits scope.program) :=
    Scope.stmtFits_of_resolveLines declares.isBody
  have areFitting := others.addSplit (isFitting.splitMethod Stmt.Fits.rename) declares.staysFresh
  rw [declares.isNew]
  exact fun method isMethod stmt isStmt => (areFitting method isMethod stmt isStmt).keep
    ⟨rfl, #[], Array.append_empty.symm⟩

/-- In the program that a text stands for, statements fit. -/
theorem stmtsFit_ofText {text : String} (isProgram : ofText text = .ok program) :
    program.StmtsFit := by
  obtain ⟨decls, -, isResolved⟩ := Resolved.bind_eq_ok.mp isProgram
  refine members_induction isResolved (fun start _ _ noMethods _ => ?_)
    (fun _ _ fit isNew => fit.declareField isNew)
    (fun _ _ _ _ _ _ fit isNew => fit.declareMethod isNew)
    (fun old entries fit => fit.keep ⟨rfl, #[], Array.append_empty.symm⟩ rfl)
  intro method isMethod
  rw [noMethods] at isMethod
  cases Array.not_mem_empty method isMethod

end Program

end TacAnalysis
