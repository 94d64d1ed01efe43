/-
# Printed statements are resolved to themselves

A statement is printed by names only, as it is written in a text. In the scope of its method,
what is printed stands for the same statement: its variables are told apart by their names,
its call finds the same method, and a field that is inherited is printed with the class that
declares it, where it is found again.
-/

import TacAnalysis.Program.Printer
import TacAnalysis.Proofs.Lists
import TacAnalysis.Proofs.Resolution.Provenance
import TacAnalysis.Proofs.Resolution.Signatures
import TacAnalysis.Proofs.Resolution.WellFormed

namespace TacAnalysis

open Source (Action CallExp FieldPath MethodName Operand)

namespace Program

section Printed

variable (program : Program)

/-- The access to a field that is printed for its base variable, if it has one. -/
def accessPath (base : Option VarId) (id : FieldId) : FieldPath :=
  match base with
  | some base => .ofBase (program.renderVar base) (program.fieldDef id).name
  | none => .ofClass (program.classDef (program.fieldDef id).owner).name (program.fieldDef id).name

/-- The call that is printed. -/
def callOf (invoke : Invoke) : CallExp where
  kind := invoke.kind
  receiver := invoke.receiver.map program.renderVar
  target := ⟨(program.classDef invoke.target.owner).name, invoke.target.sub⟩
  args := invoke.args.map program.renderVar

/-- What is printed for a position that statements jump to. -/
def labelOf (position : Nat) : String := "@" ++ toString position

/-- The action that is printed for a statement. -/
def actionOf : Stmt → Action
  | .nop => .nop
  | .new target ty => .assign (program.renderVar target) (.new ty)
  | .literal target value => .assign (program.renderVar target) (.literal value)
  | .copy target source => .assign (program.renderVar target) (.copy (program.renderVar source))
  | .cast target ty source =>
      .assign (program.renderVar target) (.cast ty (program.renderVar source))
  | .binary target exp => .assign (program.renderVar target)
      (.binary exp.op (program.renderVar exp.left) (program.renderVar exp.right))
  | .loadField target base field =>
      .assign (program.renderVar target) (.field (program.accessPath base field))
  | .storeField base field source =>
      .storeField (program.accessPath base field) (program.renderVar source)
  | .loadArray target base index => .assign (program.renderVar target)
      (.element (program.renderVar base) (program.renderVar index))
  | .storeArray base index source => .storeElement (program.renderVar base)
      (program.renderVar index) (program.renderVar source)
  | .call invoke =>
      match invoke.result with
      | some result => .assign (program.renderVar result) (.call (program.callOf invoke))
      | none => .call (program.callOf invoke)
  | .branch cond target => .branch cond.op (program.renderVar cond.left)
      (program.renderVar cond.right) (labelOf target)
  | .goto target => .goto (labelOf target)
  | .switch scrutinee cases default => .switch (program.renderVar scrutinee)
      (cases.map fun entry => (entry.1, labelOf entry.2)) (labelOf default)
  | .ret value => .ret (value.map program.renderVar)

variable {program} {stmt : Stmt}

theorem render_accessPath {base : Option VarId} {field : FieldId} :
    (program.accessPath base field).render = program.renderAccess base field := by
  cases base <;> rfl

theorem render_callOf {invoke : Invoke} : program.renderInvoke invoke =
    invoke.result.elim "" (fun var => program.renderVar var ++ " = ") ++
      (program.callOf invoke).render := by
  obtain ⟨result, kind, target, receiver, args⟩ := invoke
  cases receiver <;> simp [renderInvoke, callOf, CallExp.render, renderTarget, String.append_assoc]

/-- A statement is printed as its action is written. -/
theorem render_actionOf : (program.actionOf stmt).render = program.renderStmt stmt := by
  apply String.toList_inj.mp
  cases stmt with
  | literal target value =>
      cases value <;> simp [actionOf, renderStmt, Action.render, Operand.render]
  | call invoke =>
      rw [actionOf, renderStmt, render_callOf]
      cases invoke.result <;> simp [Action.render, Operand.render]
  | «switch» scrutinee cases default =>
      have sameCase : (Source.renderEntry ∘ fun entry => (entry.1, labelOf entry.2)) =
          renderCase := by
        funext entry
        apply String.toList_inj.mp
        simp [Source.renderEntry, labelOf, renderCase]
      simp only [actionOf, renderStmt, Action.render, List.map_map, sameCase]
      simp [labelOf]
  | ret value => cases value <;> rfl
  | _ =>
      simp [actionOf, renderStmt, Action.render, Operand.render, render_accessPath, renderBinary,
        labelOf]

end Printed

section Scopes

variable {program : Program} {id : MethodId} {var : VarId} {scope : Scope}

/-- The scope of a method: the variables that it declares, found by their names. -/
def scopeOf (program : Program) (id : MethodId) : Scope where
  program := program
  signature := program.signature id
  vars := ((program.methodDef id).vars.filter (program.KeepsName ·)).map fun var =>
    (program.renderVar var, var)
  labels := []

/-- A variable that has kept its name is found by it. -/
theorem resolveVar_scopeOf (fits : program.MethodFits id (program.methodDef id))
    (owns : program.Owns id var) (keeps : program.KeepsName var) :
    (program.scopeOf id).resolveVar (program.renderVar var) = .ok var := by
  have isListed : var ∈ (program.methodDef id).vars.filter (program.KeepsName ·) :=
    List.mem_filter.mpr ⟨fits.mem_vars.mpr owns, decide_eq_true keeps⟩
  have differ : (((program.methodDef id).vars.filter (program.KeepsName ·)).map
      program.renderVar).Nodup := fits.namesDiffer.sublist (List.filter_sublist.map _)
  rw [Scope.resolveVar, scopeOf, lookup_map_of_nodup differ isListed]

theorem inheritedField?_of_eq {old new : Program} (sameClasses : new.classes = old.classes)
    (sameFields : new.fields = old.fields) {name : String} {limit : Nat}
    {start : Option ClassId} :
    new.inheritedField? name limit start = old.inheritedField? name limit start := by
  induction limit generalizing start with
  | zero => cases start <;> rfl
  | succ limit ih =>
      cases start with
      | none => rfl
      | some id =>
          rw [inheritedField?, inheritedField?, declaredField?_of_eq sameFields, classDef, classDef,
            sameClasses]
          split
          case h_1 => rfl
          case h_2 => exact ih

/-- A field is found under its name. -/
theorem name_of_inheritedField? {name : String} {limit : Nat} {start : Option ClassId}
    {field : FieldId} (isFound : program.inheritedField? name limit start = some field) :
    (program.fieldDef field).name = name := by
  induction limit generalizing start with
  | zero => cases start <;> cases isFound
  | succ limit ih =>
      cases start with
      | none => cases isFound
      | some id =>
          rw [inheritedField?] at isFound
          split at isFound
          case h_1 isDeclared =>
              cases isFound
              rw [declaredField?_eq_findIdx?] at isDeclared
              obtain ⟨inTable, isField, -⟩ := Array.findIdx?_eq_some_iff_getElem.mp isDeclared
              rw [fieldDef, Array.getD, dif_pos inTable]
              exact congrArg Prod.snd (belongs_iff.mp isField)
          case h_2 => exact ih isFound

/-- Fields belong to classes of the table. -/
theorem owner_mem_classes (members : program.MembersFit) {field : FieldId}
    (inTable : field < program.fields.size) :
    (program.fieldDef field).owner < program.classes.size ∧
      program.classDef (program.fieldDef field).owner ∈ program.classes := by
  have isListed : program.fieldDef field ∈ program.fields := by
    rw [fieldDef, Array.getD, dif_pos inTable]
    exact Array.getElem_mem inTable
  have ownerInTable := (members.fields _ isListed).1
  refine ⟨ownerInTable, ?_⟩
  rw [classDef, Array.getD, dif_pos ownerInTable]
  exact Array.getElem_mem ownerInTable

theorem resolveFieldIn_eq_ok_iff {owner : ClassId} {name : String} {isStatic : Bool}
    {field : FieldId} : scope.resolveFieldIn owner name isStatic = .ok field ↔
      scope.program.inheritedField? name scope.program.classes.size (some owner) = some field ∧
        (scope.program.fieldDef field).isStatic = isStatic := by
  constructor
  · intro isResolved
    unfold Scope.resolveFieldIn at isResolved
    simp only at isResolved
    split at isResolved
    case h_1 => cases isResolved
    case h_2 found isFound =>
        split at isResolved
        case isTrue sameKind =>
            cases isResolved
            exact ⟨isFound, sameKind⟩
        case isFalse => cases isResolved
  · rintro ⟨isFound, sameKind⟩
    rw [Scope.resolveFieldIn]
    simp only [isFound, sameKind, if_true]

/-- What a name stands for in the scope of a method is a variable of the method, by its
name. -/
theorem HasScope.of_resolveVar (hasScope : program.HasScope id scope) {name : String}
    (isResolved : scope.resolveVar name = .ok var) : program.Owns id var ∧
      program.localDef var = scope.program.localDef var ∧ program.renderVar var = name := by
  unfold Scope.resolveVar at isResolved
  split at isResolved
  case h_1 found isFound =>
      cases isResolved
      exact hasScope.vars _ (Table.mem_of_lookup isFound)
  case h_2 => cases isResolved

theorem HasScope.resolveClass (hasScope : program.HasScope id scope) {name : String} :
    program.resolveClass name = scope.program.resolveClass name := by
  rw [Program.resolveClass, Program.resolveClass, classNamed?_of_eq hasScope.classes]

end Scopes

section Reading

variable {program : Program} {id : MethodId} {scope : Scope}

/-- What is resolved one by one in two ways is resolved as a list. -/
theorem mapM_of_agree {Value Result : Type} {resolve other : Value → Resolved Result}
    {back : Result → Value} {items : List Value} {results : List Result}
    (agree : ∀ item ∈ items, ∀ result, resolve item = .ok result →
      back result = item ∧ other item = .ok result)
    (areResolved : items.mapM resolve = .ok results) :
    results.map back = items ∧ items.mapM other = .ok results := by
  induction items generalizing results with
  | nil =>
      cases areResolved
      exact ⟨rfl, rfl⟩
  | cons item items ih =>
      obtain ⟨agreesFirst, agreeOthers⟩ := List.forall_mem_cons.mp agree
      rw [List.mapM_cons] at areResolved ⊢
      obtain ⟨first, isFirst, isRest⟩ := Resolved.bind_eq_ok.mp areResolved
      obtain ⟨others, areOthers, isPure⟩ := Resolved.bind_eq_ok.mp isRest
      cases isPure
      obtain ⟨isBack, isOther⟩ := agreesFirst first isFirst
      obtain ⟨areBack, areOther⟩ := ih agreeOthers areOthers
      refine ⟨by rw [List.map_cons, isBack, areBack], ?_⟩
      exact Resolved.bind_eq_ok.mpr ⟨first, isOther, Resolved.bind_eq_ok.mpr ⟨_, areOther, rfl⟩⟩

theorem mapM_option_of_agree {Value Result : Type} {resolve other : Value → Resolved Result}
    {back : Result → Value} {item? : Option Value} {result? : Option Result}
    (agree : ∀ item ∈ item?, ∀ result, resolve item = .ok result →
      back result = item ∧ other item = .ok result)
    (isResolved : item?.mapM resolve = .ok result?) :
    result?.map back = item? ∧ item?.mapM other = .ok result? := by
  cases item? with
  | none =>
      cases isResolved
      exact ⟨rfl, rfl⟩
  | some item =>
      obtain ⟨result, isResult, isPure⟩ := Resolved.bind_eq_ok.mp isResolved
      cases isPure
      obtain ⟨isBack, isOther⟩ := agree item rfl result isResult
      exact ⟨congrArg some isBack, Resolved.bind_eq_ok.mpr ⟨result, isOther, rfl⟩⟩

/-- Names are found in a program and in the scope of one of its methods. -/
structure FindsNames (program : Program) (id : MethodId) (scope : Scope) : Prop where
  classes : program.ClassesFit
  classesSpelled : program.ClassesSpelled
  members : program.MembersFit
  methodFits : program.MethodFits id (program.methodDef id)
  hasScope : program.HasScope id scope

namespace FindsNames

/-- A variable is printed by the name that it was written with. -/
theorem resolveVar (finds : program.FindsNames id scope) {name : String} {var : VarId}
    (isName : Source.IsIdentifier name) (isResolved : scope.resolveVar name = .ok var) :
    program.renderVar var = name ∧ (program.scopeOf id).resolveVar name = .ok var := by
  obtain ⟨owns, -, sameName⟩ := finds.hasScope.of_resolveVar isResolved
  have keeps : program.KeepsName var := by
    change '#' ∉ (program.renderVar var).toList
    exact sameName ▸ plain_of_isIdentifier isName
  exact ⟨sameName, sameName ▸ resolveVar_scopeOf finds.methodFits owns keeps⟩

theorem fieldDef_eq (finds : program.FindsNames id scope) :
    program.fieldDef = scope.program.fieldDef := by
  funext field
  rw [fieldDef, fieldDef, finds.hasScope.fields]

/-- A field that is accessed through a variable is printed as it is written. -/
theorem resolveField_ofBase (finds : program.FindsNames id scope) {base name : String} {var : VarId}
    {owner : ClassId} {field : FieldId} (isName : Source.IsIdentifier base)
    (isBase : scope.resolveVar base = .ok var)
    (isOwner : scope.resolveBaseClass name var = .ok owner)
    (isField : scope.resolveFieldIn owner name false = .ok field) :
    program.accessPath (some var) field = .ofBase base name ∧
      (program.scopeOf id).resolveField (.ofBase base name) = .ok (some var, field) := by
  obtain ⟨isInherited, isInstance⟩ := resolveFieldIn_eq_ok_iff.mp isField
  obtain ⟨-, sameDef, -⟩ := finds.hasScope.of_resolveVar isBase
  obtain ⟨sameName, isVar⟩ := finds.resolveVar isName isBase
  have isClass : (program.scopeOf id).resolveBaseClass name var = .ok owner := by
    rw [← isOwner, Scope.resolveBaseClass, Scope.resolveBaseClass, ← sameDef]
    simp only [scopeOf, finds.hasScope.resolveClass]
  have isBaseField : (program.scopeOf id).resolveFieldIn owner name false = .ok field := by
    refine resolveFieldIn_eq_ok_iff.mpr ⟨?_, (congrFun finds.fieldDef_eq field).symm ▸ isInstance⟩
    rw [← isInherited, ← finds.hasScope.classes]
    exact inheritedField?_of_eq finds.hasScope.classes finds.hasScope.fields
  constructor
  · rw [accessPath, sameName, finds.fieldDef_eq, name_of_inheritedField? isInherited]
  · refine Resolved.bind_eq_ok.mpr ⟨var, isVar, ?_⟩
    refine Resolved.bind_eq_ok.mpr ⟨owner, isClass, ?_⟩
    exact Resolved.bind_eq_ok.mpr ⟨field, isBaseField, rfl⟩

/-- A static field is printed with the class that declares it, where it is found again. -/
theorem resolveField_ofClass (finds : program.FindsNames id scope) {name : String}
    {owner : ClassId} {field : FieldId} (isName : Source.IsIdentifier name)
    (isField : scope.resolveFieldIn owner name true = .ok field) :
    (program.accessPath none field).IsSpelled ∧
      (program.scopeOf id).resolveField (program.accessPath none field) = .ok (none, field) := by
  obtain ⟨isInherited, isStatic⟩ := resolveFieldIn_eq_ok_iff.mp isField
  have inTable : field < program.fields.size :=
    (congrArg Array.size finds.hasScope.fields).symm ▸ lt_size_of_inheritedField? isInherited
  obtain ⟨ownerInTable, isClass⟩ := owner_mem_classes finds.members inTable
  have sameName : (program.fieldDef field).name = name := by
    rw [finds.fieldDef_eq, name_of_inheritedField? isInherited]
  have isDeclared : program.declaredField? (program.fieldDef field).owner
      (program.fieldDef field).name = some field :=
    finds.members.declaredField?_eq_some_iff.mpr ⟨inTable, rfl, rfl⟩
  have isFound : program.inheritedField? (program.fieldDef field).name program.classes.size
      (some (program.fieldDef field).owner) = some field := by
    obtain ⟨limit, isSize⟩ := Nat.exists_eq_add_of_lt ownerInTable
    rw [isSize, inheritedField?, isDeclared]
  refine ⟨⟨finds.classesSpelled _ isClass, sameName ▸ isName⟩, ?_⟩
  refine Resolved.bind_eq_ok.mpr ⟨_, resolveClass_name finds.classes ownerInTable, ?_⟩
  refine Resolved.bind_eq_ok.mpr ⟨field, resolveFieldIn_eq_ok_iff.mpr ⟨isFound, ?_⟩, rfl⟩
  exact (congrFun finds.fieldDef_eq field).symm ▸ isStatic

/-- An access to a field is found again as it is printed. -/
theorem resolveField (finds : program.FindsNames id scope) {path : FieldPath}
    {base : Option VarId} {field : FieldId} (isSpelled : path.IsSpelled)
    (isResolved : scope.resolveField path = .ok (base, field)) :
    (program.accessPath base field).IsSpelled ∧
      (program.scopeOf id).resolveField (program.accessPath base field) = .ok (base, field) := by
  cases path with
  | ofBase baseName name =>
      obtain ⟨var, isVar, isRest⟩ := Resolved.bind_eq_ok.mp isResolved
      obtain ⟨owner, isOwner, isRest⟩ := Resolved.bind_eq_ok.mp isRest
      obtain ⟨_, isField, isPure⟩ := Resolved.bind_eq_ok.mp isRest
      cases isPure
      obtain ⟨isPath, isFound⟩ := finds.resolveField_ofBase isSpelled.1 isVar isOwner isField
      rw [isPath]
      exact ⟨isSpelled, isFound⟩
  | ofClass ownerName name =>
      obtain ⟨owner, isOwner, isRest⟩ := Resolved.bind_eq_ok.mp isResolved
      obtain ⟨_, isField, isPure⟩ := Resolved.bind_eq_ok.mp isRest
      cases isPure
      exact finds.resolveField_ofClass isSpelled.2 isField

/-- A method that is called is printed as it is written. -/
theorem resolveMethod (finds : program.FindsNames id scope) {name : MethodName}
    {target : MethodRef} (isResolved : scope.program.resolveMethod name = .ok target) :
    ⟨(program.classDef target.owner).name, target.sub⟩ = name ∧
      program.resolveMethod name = .ok target := by
  have exists_ := targetExists_of_resolveMethod isResolved
  obtain ⟨⟨⟩, -, isRest⟩ := Resolved.bind_eq_ok.mp isResolved
  obtain ⟨⟨⟩, -, isRest⟩ := Resolved.bind_eq_ok.mp isRest
  obtain ⟨owner, isOwner, isPure⟩ := Resolved.bind_eq_ok.mp isRest
  cases isPure
  rw [← finds.hasScope.resolveClass] at isOwner
  obtain ⟨inTable, isName⟩ := finds.classes.named_iff.mp (classNamed?_of_resolveClass isOwner)
  have exist : ∀ ty ∈ name.sub.ret :: name.sub.params, program.TypeExists ty :=
    List.forall_mem_cons.mpr ⟨exists_.returns.of_classes finds.hasScope.classes,
      fun ty isParam => (exists_.params ty isParam).of_classes finds.hasScope.classes⟩
  have sameName : ⟨(program.classDef owner).name, name.sub⟩ = name := by rw [isName]
  exact ⟨sameName, sameName ▸ resolveMethod_eq_ok finds.classes inTable exist⟩

/-- A call is printed as it is written. -/
theorem resolveCall (finds : program.FindsNames id scope) {result : Option VarId} {exp : CallExp}
    {invoke : Invoke} (isSpelled : exp.IsSpelled)
    (isResolved : scope.resolveCall result exp = .ok invoke) :
    program.callOf invoke = exp ∧ (program.scopeOf id).resolveCall result exp = .ok invoke := by
  obtain ⟨target, isTarget, isRest⟩ := Resolved.bind_eq_ok.mp isResolved
  split at isRest
  case isTrue => cases isRest
  case isFalse sameLength =>
      obtain ⟨receiver, isReceiver, isRest⟩ := Resolved.bind_eq_ok.mp isRest
      obtain ⟨args, areArgs, isPure⟩ := Resolved.bind_eq_ok.mp isRest
      cases isPure
      obtain ⟨sameTarget, targetFound⟩ := finds.resolveMethod isTarget
      obtain ⟨sameReceiver, receiverFound⟩ := mapM_option_of_agree
        (fun name isName _ => finds.resolveVar (isSpelled.receiver name isName)) isReceiver
      obtain ⟨sameArgs, argsFound⟩ := mapM_of_agree
        (fun name isName _ => finds.resolveVar (isSpelled.args name isName)) areArgs
      refine ⟨by rw [callOf, sameReceiver, sameArgs, sameTarget], ?_⟩
      refine Resolved.bind_eq_ok.mpr ⟨target, targetFound, ?_⟩
      rw [if_neg sameLength]
      refine Resolved.bind_eq_ok.mpr ⟨receiver, receiverFound, ?_⟩
      exact Resolved.bind_eq_ok.mpr ⟨args, argsFound, rfl⟩

theorem checkType (finds : program.FindsNames id scope) {ty : Ty}
    (isChecked : scope.program.checkType ty = .ok ()) : program.checkType ty = .ok () :=
  checkType_eq_ok_iff.mpr ((checkType_eq_ok_iff.mp isChecked).of_classes finds.hasScope.classes)

/-- What is printed on the right-hand side of an assignment is resolved to the same
statement. -/
theorem resolveAssignment (finds : program.FindsNames id scope) {target : VarId}
    {operand : Operand} {stmt : Stmt} (isSpelled : operand.IsSpelled)
    (isResolved : scope.resolveAssignment target operand = .ok stmt) :
    ∃ printed, program.actionOf stmt = .assign (program.renderVar target) printed ∧
      printed.IsSpelled ∧ (program.scopeOf id).resolveAssignment target printed = .ok stmt := by
  cases operand with
  | new ty =>
      obtain ⟨⟨⟩, isChecked, isPure⟩ := Resolved.bind_eq_ok.mp isResolved
      cases isPure
      exact ⟨.new ty, rfl, isSpelled,
        Resolved.bind_eq_ok.mpr ⟨(), finds.checkType isChecked, rfl⟩⟩
  | literal value =>
      cases isResolved
      exact ⟨.literal value, rfl, isSpelled, rfl⟩
  | copy name =>
      obtain ⟨source, isSource, isPure⟩ := Resolved.bind_eq_ok.mp isResolved
      cases isPure
      obtain ⟨sameName, found⟩ := finds.resolveVar isSpelled isSource
      exact ⟨.copy name, by rw [actionOf, sameName], isSpelled,
        Resolved.bind_eq_ok.mpr ⟨source, found, rfl⟩⟩
  | cast ty name =>
      obtain ⟨⟨⟩, isChecked, isRest⟩ := Resolved.bind_eq_ok.mp isResolved
      obtain ⟨source, isSource, isPure⟩ := Resolved.bind_eq_ok.mp isRest
      cases isPure
      obtain ⟨sameName, found⟩ := finds.resolveVar isSpelled.2 isSource
      refine ⟨.cast ty name, by rw [actionOf, sameName], isSpelled, ?_⟩
      exact Resolved.bind_eq_ok.mpr ⟨(), finds.checkType isChecked,
        Resolved.bind_eq_ok.mpr ⟨source, found, rfl⟩⟩
  | binary op left right =>
      obtain ⟨exp, isExp, isPure⟩ := Resolved.bind_eq_ok.mp isResolved
      cases isPure
      obtain ⟨first, isFirst, isRest⟩ := Resolved.bind_eq_ok.mp isExp
      obtain ⟨second, isSecond, isPure⟩ := Resolved.bind_eq_ok.mp isRest
      cases isPure
      obtain ⟨sameFirst, firstFound⟩ := finds.resolveVar isSpelled.1 isFirst
      obtain ⟨sameSecond, secondFound⟩ := finds.resolveVar isSpelled.2 isSecond
      refine ⟨.binary op left right, by rw [actionOf, sameFirst, sameSecond], isSpelled, ?_⟩
      have isExp : (program.scopeOf id).resolveBinary op left right = .ok ⟨op, first, second⟩ :=
        Resolved.bind_eq_ok.mpr ⟨first, firstFound,
          Resolved.bind_eq_ok.mpr ⟨second, secondFound, rfl⟩⟩
      exact Resolved.bind_eq_ok.mpr ⟨_, isExp, rfl⟩
  | field path =>
      obtain ⟨⟨base, field⟩, isField, isPure⟩ := Resolved.bind_eq_ok.mp isResolved
      cases isPure
      obtain ⟨pathSpelled, found⟩ := finds.resolveField isSpelled isField
      exact ⟨.field (program.accessPath base field), rfl, pathSpelled,
        Resolved.bind_eq_ok.mpr ⟨_, found, rfl⟩⟩
  | element baseName indexName =>
      obtain ⟨base, isBase, isRest⟩ := Resolved.bind_eq_ok.mp isResolved
      obtain ⟨index, isIndex, isPure⟩ := Resolved.bind_eq_ok.mp isRest
      cases isPure
      obtain ⟨sameBase, baseFound⟩ := finds.resolveVar isSpelled.1 isBase
      obtain ⟨sameIndex, indexFound⟩ := finds.resolveVar isSpelled.2 isIndex
      refine ⟨.element baseName indexName, by rw [actionOf, sameBase, sameIndex], isSpelled, ?_⟩
      exact Resolved.bind_eq_ok.mpr ⟨base, baseFound,
        Resolved.bind_eq_ok.mpr ⟨index, indexFound, rfl⟩⟩
  | call exp =>
      obtain ⟨invoke, isInvoke, isPure⟩ := Resolved.bind_eq_ok.mp isResolved
      cases isPure
      obtain ⟨sameCall, found⟩ := finds.resolveCall isSpelled isInvoke
      have isResult := (Scope.mem_of_resolveCall isInvoke).1
      refine ⟨.call exp, ?_, isSpelled, Resolved.bind_eq_ok.mpr ⟨invoke, found, rfl⟩⟩
      simp only [actionOf, isResult, sameCall]

/-- What is printed for a statement that is no jump is resolved to the same statement. -/
theorem resolveAction (finds : program.FindsNames id scope) {action : Action} {stmt : Stmt}
    (isSpelled : action.IsSpelled) (isResolved : scope.resolveAction action = .ok stmt)
    (noJumps : stmt.jumps = []) : (program.actionOf stmt).IsSpelled ∧
      (program.scopeOf id).resolveAction (program.actionOf stmt) = .ok stmt := by
  cases action with
  | nop =>
      cases isResolved
      exact ⟨trivial, rfl⟩
  | assign name operand =>
      obtain ⟨target, isTarget, isRest⟩ := Resolved.bind_eq_ok.mp isResolved
      obtain ⟨sameName, targetFound⟩ := finds.resolveVar isSpelled.1 isTarget
      obtain ⟨printed, isPrinted, operandSpelled, found⟩ :=
        finds.resolveAssignment isSpelled.2 isRest
      rw [isPrinted, sameName]
      exact ⟨⟨isSpelled.1, operandSpelled⟩, Resolved.bind_eq_ok.mpr ⟨target, targetFound, found⟩⟩
  | storeField path name =>
      obtain ⟨⟨base, field⟩, isField, isRest⟩ := Resolved.bind_eq_ok.mp isResolved
      obtain ⟨source, isSource, isPure⟩ := Resolved.bind_eq_ok.mp isRest
      cases isPure
      obtain ⟨pathSpelled, found⟩ := finds.resolveField isSpelled.1 isField
      obtain ⟨sameName, sourceFound⟩ := finds.resolveVar isSpelled.2 isSource
      rw [actionOf, sameName]
      exact ⟨⟨pathSpelled, isSpelled.2⟩, Resolved.bind_eq_ok.mpr ⟨_, found,
        Resolved.bind_eq_ok.mpr ⟨source, sourceFound, rfl⟩⟩⟩
  | storeElement baseName indexName name =>
      obtain ⟨base, isBase, isRest⟩ := Resolved.bind_eq_ok.mp isResolved
      obtain ⟨index, isIndex, isRest⟩ := Resolved.bind_eq_ok.mp isRest
      obtain ⟨source, isSource, isPure⟩ := Resolved.bind_eq_ok.mp isRest
      cases isPure
      obtain ⟨sameBase, baseFound⟩ := finds.resolveVar isSpelled.1 isBase
      obtain ⟨sameIndex, indexFound⟩ := finds.resolveVar isSpelled.2.1 isIndex
      obtain ⟨sameName, sourceFound⟩ := finds.resolveVar isSpelled.2.2 isSource
      rw [actionOf, sameBase, sameIndex, sameName]
      exact ⟨isSpelled, Resolved.bind_eq_ok.mpr ⟨base, baseFound, Resolved.bind_eq_ok.mpr
        ⟨index, indexFound, Resolved.bind_eq_ok.mpr ⟨source, sourceFound, rfl⟩⟩⟩⟩
  | call exp =>
      obtain ⟨invoke, isInvoke, isPure⟩ := Resolved.bind_eq_ok.mp isResolved
      cases isPure
      obtain ⟨sameCall, found⟩ := finds.resolveCall isSpelled isInvoke
      have isPrinted : program.actionOf (.call invoke) = .call exp := by
        simp only [actionOf, (Scope.mem_of_resolveCall isInvoke).1, sameCall]
      rw [isPrinted]
      exact ⟨isSpelled, Resolved.bind_eq_ok.mpr ⟨invoke, found, rfl⟩⟩
  | ret name? =>
      obtain ⟨value, isValue, isPure⟩ := Resolved.bind_eq_ok.mp isResolved
      cases isPure
      obtain ⟨sameName, found⟩ := mapM_option_of_agree
        (fun name isName _ => finds.resolveVar (isSpelled name isName)) isValue
      rw [actionOf, sameName]
      exact ⟨isSpelled, Resolved.bind_eq_ok.mpr ⟨value, found, rfl⟩⟩
  | goto label =>
      obtain ⟨_, -, isPure⟩ := Resolved.bind_eq_ok.mp isResolved
      cases isPure
      cases noJumps
  | branch op left right label =>
      obtain ⟨_, -, isRest⟩ := Resolved.bind_eq_ok.mp isResolved
      obtain ⟨_, -, isPure⟩ := Resolved.bind_eq_ok.mp isRest
      cases isPure
      cases noJumps
  | «switch» scrutinee cases default =>
      obtain ⟨_, -, isRest⟩ := Resolved.bind_eq_ok.mp isResolved
      obtain ⟨_, -, isRest⟩ := Resolved.bind_eq_ok.mp isRest
      obtain ⟨_, -, isPure⟩ := Resolved.bind_eq_ok.mp isRest
      cases isPure
      exact absurd noJumps (List.append_ne_nil_of_right_ne_nil _ (List.cons_ne_nil _ _))

end FindsNames

end Reading

end Program

end TacAnalysis
