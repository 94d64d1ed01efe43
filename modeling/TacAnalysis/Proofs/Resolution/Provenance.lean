/-
# What statements are read from

Methods are declared one after another, once all classes and fields are there, so that what
a statement names is looked up in the tables that the program ends up with. Splitting gives
new names to some of its variables, each with a sign that no word has. A statement whose
variables have all kept their names is therefore one that an action of the text stands for
as it is, in the scope of its method.
-/

import TacAnalysis.Proofs.Resolution.Members
import TacAnalysis.Proofs.Source.Actions

namespace TacAnalysis

theorem Scope.vars_declareLabels {scope new : Scope} {lines : List Source.Line} {position : Nat}
    (isNew : scope.declareLabels position lines = .ok new) : new.vars = scope.vars := by
  induction lines generalizing scope position with
  | nil =>
      cases isNew
      rfl
  | cons line lines ih =>
      unfold declareLabels at isNew
      split at isNew
      case h_1 => exact ih isNew
      case h_2 =>
          split at isNew
          case isTrue => cases isNew
          case isFalse =>
              have sameVars := ih isNew
              exact sameVars

namespace Program

variable {program old new : Program} {id : MethodId} {var : VarId}

section Induction

variable {decls : Source.Declarations}

theorem fields_declareMethod {owner : ClassId} {decl : Source.MethodDecl}
    (isNew : declareMethod owner old decl = .ok new) : new.fields = old.fields := by
  obtain ⟨header, scope, body, declares⟩ := exists_of_declareMethod isNew
  rw [declares.isNew]
  exact (congrArg Program.fields declares.lists.program :)

/-- What holds once all classes and fields are declared and before there is any method, and
is preserved when methods are declared, holds of the program that declarations stand for. -/
theorem methods_induction {good : Program → Prop} (isProgram : ofDeclarations decls = .ok program)
    (start : ∀ start, start.methods = #[] → good start)
    (method : ∀ {owner : ClassId} {old new : Program}, ∀ cls ∈ decls.classes,
      ∀ decl ∈ cls.methods, good old → declareMethod owner old decl = .ok new → good new)
    (entries : ∀ old entries, good old → good { old with entries }) : good program := by
  obtain ⟨declared, isDeclared, isRest⟩ := Resolved.bind_eq_ok.mp isProgram
  obtain ⟨linked, isLinked, isRest⟩ := Resolved.bind_eq_ok.mp isRest
  obtain ⟨-, -, isRest⟩ := Resolved.bind_eq_ok.mp isRest
  obtain ⟨fielded, isFielded, isRest⟩ := Resolved.bind_eq_ok.mp isRest
  obtain ⟨methoded, isMethoded, isRest⟩ := Resolved.bind_eq_ok.mp isRest
  have isBare : SameMethods root fielded := by
    have linkedIsBare : SameMethods root linked := Resolved.foldlM_preserves
      (fun _ _ _ _ isBare isLinked => isBare.trans (sameMembers_linkClass isLinked).toSameMethods)
      (sameMembers_declareClasses isDeclared).toSameMethods isLinked
    refine Resolved.foldlM_preserves (fun cls _ old new isBare isNew => ?_) linkedIsBare isFielded
    obtain ⟨owner, -, areFields⟩ := Resolved.bind_eq_ok.mp isNew
    exact Resolved.foldlM_preserves (fun _ _ _ _ isBare isNew =>
      isBare.trans (sameMethods_declareField isNew)) isBare areFields
  have methodedIsGood : good methoded := by
    refine Resolved.foldlM_preserves (fun cls isClass old new isGood isNew => ?_)
      (start fielded isBare.methods) isMethoded
    obtain ⟨owner, -, areMethods⟩ := Resolved.bind_eq_ok.mp isNew
    exact Resolved.foldlM_preserves
      (fun decl isDecl _ _ isGood isNew => method cls isClass decl isDecl isGood isNew)
      isGood areMethods
  split at isRest
  case isTrue =>
      cases isRest
      exact entries methoded _ methodedIsGood
  case isFalse =>
      obtain ⟨found, -, isPure⟩ := Resolved.bind_eq_ok.mp isRest
      cases isPure
      exact entries methoded _ methodedIsGood

end Induction

section Reading

/-- Only methods of the table have statements. -/
theorem lt_size_of_body {index : Nat} (inBody : index < (program.methodDef id).body.size) :
    id < program.methods.size := by
  rcases Nat.lt_or_ge id program.methods.size with inTable | pastEnd
  · exact inTable
  · rw [methodDef, Array.getD, dif_neg (Nat.not_lt.mpr pastEnd)] at inBody
    cases inBody

/-- The name of a variable tells that it has not been split from another one. -/
def KeepsName (program : Program) (var : VarId) : Prop :=
  '#' ∉ (program.localDef var).name.toList

instance : DecidablePred program.KeepsName := fun _ => inferInstanceAs (Decidable (_ ∉ _))

/-- A scope is that of a method of a program: it has the classes and the fields of the program,
and its variables are variables of the method. -/
structure HasScope (program : Program) (id : MethodId) (scope : Scope) : Prop where
  classes : program.classes = scope.program.classes
  fields : program.fields = scope.program.fields
  vars : ∀ entry ∈ scope.vars, program.Owns id entry.2 ∧
    program.localDef entry.2 = scope.program.localDef entry.2 ∧
    (program.localDef entry.2).name = entry.1

/-- A statement is one that an action of the text stands for in the scope of a method. -/
def IsRead (program : Program) (id : MethodId) (stmt : Stmt) : Prop :=
  ∃ (scope : Scope) (action : Source.Action), program.HasScope id scope ∧ action.IsSpelled ∧
    scope.resolveAction action = .ok stmt

/-- The statements of a program whose variables have kept their names are read. -/
def StmtsRead (program : Program) : Prop :=
  ∀ site : Site, site.index < (program.methodDef site.method).body.size →
    (∀ var, (program.stmt site).Mentions var → program.KeepsName var) →
      program.IsRead site.method (program.stmt site)

theorem HasScope.keep {scope : Scope} {more : Array Local} (hasScope : old.HasScope id scope)
    (sameClasses : new.classes = old.classes) (sameFields : new.fields = old.fields)
    (added : new.locals = old.locals ++ more) : new.HasScope id scope where
  classes := sameClasses.trans hasScope.classes
  fields := sameFields.trans hasScope.fields
  vars entry isEntry := by
    obtain ⟨owns, same, isName⟩ := hasScope.vars entry isEntry
    have sameDef : new.localDef entry.2 = old.localDef entry.2 := localDef_of_append added owns.1
    exact ⟨owns_of_append added owns, sameDef.trans same, sameDef ▸ isName⟩

theorem IsRead.keep {stmt : Stmt} {more : Array Local} (isRead : old.IsRead id stmt)
    (sameClasses : new.classes = old.classes) (sameFields : new.fields = old.fields)
    (added : new.locals = old.locals ++ more) : new.IsRead id stmt := by
  obtain ⟨scope, action, hasScope, isAction⟩ := isRead
  exact ⟨scope, action, hasScope.keep sameClasses sameFields added, isAction⟩

end Reading

section Splitting

variable {method : MethodDef} {name : VarId}

/-- A variable that splitting adds has another name than it was declared with. -/
theorem not_keepsName_added {origin : VarId × Nat}
    (isNew : program.declaredMethod? method.owner method.sub = none)
    (isAdded : origin ∈ (program.splitting method).added) :
    ¬ (program.addSplit method isNew).KeepsName (program.locals.size +
      (program.splitting method).added.idxOf origin) := by
  rw [KeepsName, localDef_addSplit_added isNew isAdded, not_not, splitLocal]
  simp

theorem eq_of_isName (isNew : program.declaredMethod? method.owner method.sub = none)
    (isName : method.code.IsName program.locals.size var name)
    (keeps : (program.addSplit method isNew).KeepsName name) : name = var := by
  rcases isName with isName | ⟨rank, isAdded, isName⟩
  · exact isName
  · rw [isName] at keeps
    exact absurd keeps (not_keepsName_added isNew isAdded)

/-- A statement of the method that is split is one that it has as written, when all variables
of the statement keep their names. -/
theorem stmt_addSplit_of_keepsName {site : Site}
    (isNew : program.declaredMethod? method.owner method.sub = none)
    (isLast : site.method = program.methods.size)
    (inBody : site.index < ((program.addSplit method isNew).methodDef site.method).body.size)
    (keep : ∀ var, ((program.addSplit method isNew).stmt site).Mentions var →
      (program.addSplit method isNew).KeepsName var) :
    (program.addSplit method isNew).stmt site ∈ method.body := by
  have isSplit : (program.addSplit method isNew).stmt site =
      (method.code.afterSplit program.locals.size).stmt site.index := by
    rw [stmt, isLast, methodDef_addSplit_last]
    rfl
  have inWritten : site.index < method.body.size := by
    rw [isLast, methodDef_addSplit_last] at inBody
    exact inBody.trans_eq Code.size_afterSplit
  have isWritten : method.code.stmt site.index = method.body[site.index] := by
    simp [Code.stmt, MethodDef.code, Array.getD, inWritten]
  rw [isSplit, Code.stmt_afterSplit] at keep ⊢
  suffices sameStmt : (method.code.stmt site.index).rename _ _ = method.code.stmt site.index by
    rw [sameStmt, isWritten]
    exact Array.getElem_mem inWritten
  apply Stmt.rename_eq_self
  · intro var isDef
    refine eq_of_isName isNew (Code.isName_nameAt _ _ _ _) (keep _ (.inl ?_))
    rw [Stmt.def?_rename, isDef]
    rfl
  · intro var isUsed
    refine eq_of_isName isNew (Code.isName_readFor _ _ _ _) (keep _ (.inr ?_))
    rw [Stmt.uses_rename]
    exact List.mem_map_of_mem isUsed

end Splitting

section Declaring

variable {owner : ClassId} {decl : Source.MethodDecl} {header scope labelled : Scope}
  {body : Array Stmt}

/-- The variables in the scope of a method are found by the names that they have. -/
theorem Declares.names (declares : Declares owner old decl header scope body new) :
    ∀ entry ∈ scope.vars, (scope.program.localDef entry.2).name = entry.1 := by
  have added : scope.program.locals = old.locals ++ ((declaredVars (old.classDef owner).name
      decl).map (Source.TypedName.toLocal old.methods.size)).toArray :=
    congrArg Program.locals declares.lists.program
  have areLocals := map_localDef_range' added
  have areVars : scope.vars.map Prod.snd = List.range' old.locals.size ((declaredVars
      (old.classDef owner).name decl).map (Source.TypedName.toLocal old.methods.size)).length := by
    rw [List.length_map]
    exact declares.lists.varIds
  have sameNames : scope.vars.map (fun entry => (scope.program.localDef entry.2).name) =
      scope.vars.map Prod.fst := by
    have sameNames := congrArg (List.map Local.name) areLocals
    rw [← areVars, List.map_map, List.map_map, List.map_map] at sameNames
    exact sameNames.trans declares.lists.names.symm
  exact List.map_inj_left.mp sameNames

/-- The scope of a method that is declared is that of the method in the program. -/
theorem Declares.hasScope (declares : Declares owner old decl header scope body new) :
    new.HasScope old.methods.size scope := by
  obtain ⟨headerOwned, headerMethods, -⟩ :=
    Scope.owned_declareVars declares.isHeader (by intro var isIn; cases isIn)
  obtain ⟨owned, scopeMethods, -⟩ := Scope.owned_declareVars declares.isScope headerOwned
  obtain ⟨added, areAdded⟩ : ∃ added, new.locals = scope.program.locals ++ added := by
    rw [declares.isNew]
    exact ⟨_, rfl⟩
  constructor
  case classes => rw [declares.isNew]; rfl
  case fields => rw [declares.isNew]; rfl
  case vars =>
      intro entry isEntry
      have owns := owned entry.2 (List.mem_map_of_mem isEntry)
      rw [scopeMethods, headerMethods] at owns
      have sameDef : new.localDef entry.2 = scope.program.localDef entry.2 :=
        localDef_of_append areAdded owns.1
      exact ⟨owns_of_append areAdded owns, sameDef, sameDef ▸ declares.names entry isEntry⟩

theorem HasScope.of_labels (hasScope : program.HasScope id scope)
    (sameProgram : labelled.program = scope.program) (sameVars : labelled.vars = scope.vars) :
    program.HasScope id labelled where
  classes := sameProgram ▸ hasScope.classes
  fields := sameProgram ▸ hasScope.fields
  vars := sameVars ▸ sameProgram ▸ hasScope.vars

/-- What a statement of a body is read from. -/
theorem Declares.isRead (declares : Declares owner old decl header scope body new)
    (areSpelled : decl.AllActions Source.Action.IsSpelled) {stmt : Stmt} (isStmt : stmt ∈ body) :
    new.IsRead old.methods.size stmt := by
  obtain ⟨labelled, isLabelled, isRest⟩ := Resolved.bind_eq_ok.mp declares.isBody
  obtain ⟨stmts, areStmts, isPure⟩ := Resolved.bind_eq_ok.mp isRest
  cases isPure
  obtain ⟨line, isLine, isAction⟩ :=
    Resolved.exists_of_mem_mapM areStmts (List.mem_toArray.mp isStmt)
  have isSpelled : line.action.IsSpelled := by
    cases hasBody : decl.body with
    | none =>
        rw [hasBody] at isLine
        cases isLine
    | some block =>
        rw [hasBody] at isLine
        exact areSpelled block hasBody line isLine
  exact ⟨labelled, line.action, declares.hasScope.of_labels (Scope.declareLabels_eq isLabelled).1
    (Scope.vars_declareLabels isLabelled), isSpelled, isAction⟩

/-- Whatever is read where a method is declared is read in the scope of the method, and what
was read before still is. -/
theorem StmtsRead.declareMethod (areRead : old.StmtsRead) (owned : old.Owned)
    (areSpelled : decl.AllActions Source.Action.IsSpelled)
    (isNew : declareMethod owner old decl = .ok new) : new.StmtsRead := by
  obtain ⟨header, scope, body, declares⟩ := exists_of_declareMethod isNew
  have extend := (Scope.extends_declareVars declares.isHeader).trans
    (Scope.extends_declareVars declares.isScope)
  obtain ⟨added, areAdded⟩ := extend.locals
  have sameMethods : scope.program.methods = old.methods := extend.methods
  intro site inBody keep
  rcases Nat.lt_trichotomy site.method old.methods.size with isOld | isLast | pastEnd
  case inl =>
      have isBefore : site.method < scope.program.methods.size := sameMethods ▸ isOld
      have sameDef : new.methodDef site.method = old.methodDef site.method := by
        rw [declares.isNew, methodDef_addSplit_of_lt isBefore, methodDef, methodDef, sameMethods]
      have sameStmt : new.stmt site = old.stmt site := by rw [stmt, stmt, sameDef]
      obtain ⟨more, areLocals⟩ : ∃ more, new.locals = old.locals ++ more := by
        rw [declares.isNew]
        change ∃ more, scope.program.locals ++ _ = _
        rw [areAdded, Array.append_assoc]
        exact ⟨_, rfl⟩
      rw [sameDef] at inBody
      rw [sameStmt] at keep ⊢
      refine (areRead site inBody fun var mentions => ?_).keep (classes_declareMethod isNew)
        (fields_declareMethod isNew) areLocals
      have keeps := keep var mentions
      rwa [KeepsName, localDef_of_append areLocals (owned site var mentions).1] at keeps
  case inr.inl =>
      have isScopeLast : site.method = scope.program.methods.size :=
        isLast.trans (congrArg Array.size sameMethods.symm)
      have isWritten : new.stmt site ∈ body := by
        rw [declares.isNew] at inBody keep ⊢
        exact stmt_addSplit_of_keepsName declares.staysFresh isScopeLast inBody keep
      rw [isLast]
      exact declares.isRead areSpelled isWritten
  case inr.inr =>
      have inTable := lt_size_of_body inBody
      rw [declares.isNew, size_methods_addSplit, sameMethods] at inTable
      exact absurd (Nat.le_of_lt_succ inTable) (Nat.not_le.mpr pastEnd)

/-- In the program that a text stands for, every statement whose variables have kept their
names is what an action of the text stands for in the scope of its method. -/
theorem stmtsRead_ofText {text : String} (isProgram : ofText text = .ok program) :
    program.StmtsRead := by
  obtain ⟨decls, isParsed, isResolved⟩ := Resolved.bind_eq_ok.mp isProgram
  have areSpelled := Source.allActions_of_parse Source.Reader.yields_spelledAction isParsed
  let Good (program : Program) : Prop := program.Owned ∧ program.StmtsRead
  have areRead : Good program := by
    refine methods_induction isResolved (fun start noMethods => ?_)
      (fun cls isClass decl isDecl isGood isNew => ?_) (fun old entries isGood => ?_)
    · have noStmts (site : Site) : start.methodDef site.method = default := by
        rw [methodDef, noMethods]
        rfl
      refine ⟨fun site var mentions => ?_, fun site inBody _ => ?_⟩
      · rw [stmt, noStmts] at mentions
        exact absurd mentions Stmt.not_mentions_nop
      · rw [noStmts] at inBody
        cases inBody
    · exact ⟨owned_declareMethod isGood.1 isNew,
        isGood.2.declareMethod isGood.1 (areSpelled cls isClass decl isDecl) isNew⟩
    · refine ⟨isGood.1, fun site inBody keep => ?_⟩
      exact (isGood.2 site inBody keep).keep rfl rfl Array.append_empty.symm
  exact areRead.2

end Declaring

end Program

end TacAnalysis
