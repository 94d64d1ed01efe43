/-
# The variables of a resolved program

Every variable belongs to the method that declares it or that it was split for,
and the statements of a method mention no variables but those of the method. This
holds of every program that a text stands for: resolving a name looks it up among
the variables declared for the method at hand, and splitting replaces variables
by new ones of the same method.
-/

import TacAnalysis.Proofs.Resolution.Building
import TacAnalysis.Proofs.Resolution.Naming

namespace TacAnalysis

/-- A variable is defined or read by a statement. -/
def Stmt.Mentions (stmt : Stmt) (var : VarId) : Prop :=
  stmt.def? = some var ∨ var ∈ stmt.uses

/-- A variable is in the table of a program, and belongs to a method. -/
def Program.Owns (program : Program) (method : MethodId) (var : VarId) : Prop :=
  var < program.locals.size ∧ (program.localDef var).method = method

/-- The statements of a method mention no variables but its own. -/
def Program.Owned (program : Program) : Prop :=
  ∀ site var, (program.stmt site).Mentions var → program.Owns site.method var

namespace Scope

variable {scope : Scope} {var : VarId}

/-- The variables that names stand for. -/
def varIds (scope : Scope) : List VarId := scope.vars.map Prod.snd

theorem mem_of_resolveVar {name : String} (isResolved : scope.resolveVar name = .ok var) :
    var ∈ scope.varIds := by
  unfold resolveVar at isResolved
  split at isResolved
  case h_1 found isFound =>
      cases isResolved
      obtain ⟨before, after, isSplit, -⟩ := List.lookup_eq_some_iff.mp isFound
      rw [varIds, isSplit]
      simp
  case h_2 => cases isResolved

theorem mem_of_resolveField {path : Source.FieldPath} {base : Option VarId} {field : FieldId}
    (isResolved : scope.resolveField path = .ok (base, field)) (isBase : base = some var) :
    var ∈ scope.varIds := by
  cases path with
  | ofBase baseName name =>
      obtain ⟨found, isFound, isRest⟩ := Resolved.bind_eq_ok.mp isResolved
      obtain ⟨owner, -, isRest⟩ := Resolved.bind_eq_ok.mp isRest
      obtain ⟨number, -, isPure⟩ := Resolved.bind_eq_ok.mp isRest
      cases isPure
      cases isBase
      exact mem_of_resolveVar isFound
  | ofClass owner name =>
      obtain ⟨found, -, isRest⟩ := Resolved.bind_eq_ok.mp isResolved
      obtain ⟨number, -, isPure⟩ := Resolved.bind_eq_ok.mp isRest
      cases isPure
      cases isBase

theorem mem_of_pair {first second : VarId} (isFirst : first ∈ scope.varIds)
    (isSecond : second ∈ scope.varIds) (isIn : var ∈ [first, second]) : var ∈ scope.varIds := by
  rcases List.mem_cons.mp isIn with rfl | isLast
  · exact isFirst
  · rw [List.mem_singleton.mp isLast]
    exact isSecond

theorem mem_of_binary {op : BinOp} {left right : String} {exp : BinExp}
    (isResolved : scope.resolveBinary op left right = .ok exp)
    (isIn : var ∈ [exp.left, exp.right]) : var ∈ scope.varIds := by
  obtain ⟨first, isFirst, isRest⟩ := Resolved.bind_eq_ok.mp isResolved
  obtain ⟨second, isSecond, isPure⟩ := Resolved.bind_eq_ok.mp isRest
  cases isPure
  exact mem_of_pair (mem_of_resolveVar isFirst) (mem_of_resolveVar isSecond) isIn

/-- An optional name stands for an optional variable. -/
theorem mem_of_mapM_option {name : Option String} {result : Option VarId}
    (isResolved : name.mapM scope.resolveVar = .ok result) (isVar : result = some var) :
    var ∈ scope.varIds := by
  cases name with
  | none =>
      cases isResolved
      cases isVar
  | some name =>
      obtain ⟨found, isFound, isPure⟩ := Resolved.bind_eq_ok.mp isResolved
      cases isPure
      cases isVar
      exact mem_of_resolveVar isFound

theorem mem_of_resolveCall {result : Option VarId} {exp : Source.CallExp} {invoke : Invoke}
    (isResolved : scope.resolveCall result exp = .ok invoke) :
    invoke.result = result ∧ ∀ var ∈ (Stmt.call invoke).uses, var ∈ scope.varIds := by
  obtain ⟨target, -, isRest⟩ := Resolved.bind_eq_ok.mp isResolved
  split at isRest
  case isTrue => cases isRest
  case isFalse =>
      obtain ⟨receiver, isReceiver, isRest⟩ := Resolved.bind_eq_ok.mp isRest
      obtain ⟨args, areArgs, isPure⟩ := Resolved.bind_eq_ok.mp isRest
      cases isPure
      refine ⟨rfl, ?_⟩
      intro var isUsed
      rcases List.mem_append.mp isUsed with isIn | isIn
      · exact mem_of_mapM_option isReceiver (Option.mem_toList.mp isIn)
      · obtain ⟨name, -, isVar⟩ := Resolved.exists_of_mem_mapM areArgs isIn
        exact mem_of_resolveVar isVar

/-- An assignment mentions its target and variables that names stand for. -/
theorem mem_of_resolveAssignment {target : VarId} {operand : Source.Operand} {stmt : Stmt}
    (isTarget : target ∈ scope.varIds)
    (isResolved : scope.resolveAssignment target operand = .ok stmt) (isIn : stmt.Mentions var) :
    var ∈ scope.varIds := by
  cases operand with
  | new ty =>
      obtain ⟨-, -, isPure⟩ := Resolved.bind_eq_ok.mp isResolved
      cases isPure
      rcases isIn with isDef | isUsed
      · cases isDef
        exact isTarget
      · cases isUsed
  | literal value =>
      cases isResolved
      rcases isIn with isDef | isUsed
      · cases isDef
        exact isTarget
      · cases isUsed
  | copy name =>
      obtain ⟨source, isSource, isPure⟩ := Resolved.bind_eq_ok.mp isResolved
      cases isPure
      rcases isIn with isDef | isUsed
      · cases isDef
        exact isTarget
      · rw [List.mem_singleton.mp isUsed]
        exact mem_of_resolveVar isSource
  | cast ty name =>
      obtain ⟨-, -, isRest⟩ := Resolved.bind_eq_ok.mp isResolved
      obtain ⟨source, isSource, isPure⟩ := Resolved.bind_eq_ok.mp isRest
      cases isPure
      rcases isIn with isDef | isUsed
      · cases isDef
        exact isTarget
      · rw [List.mem_singleton.mp isUsed]
        exact mem_of_resolveVar isSource
  | binary op left right =>
      obtain ⟨exp, isExp, isPure⟩ := Resolved.bind_eq_ok.mp isResolved
      cases isPure
      rcases isIn with isDef | isUsed
      · cases isDef
        exact isTarget
      · exact mem_of_binary isExp isUsed
  | field path =>
      obtain ⟨⟨base, field⟩, isField, isPure⟩ := Resolved.bind_eq_ok.mp isResolved
      cases isPure
      rcases isIn with isDef | isUsed
      · cases isDef
        exact isTarget
      · exact mem_of_resolveField isField (Option.mem_toList.mp isUsed)
  | element base index =>
      obtain ⟨first, isFirst, isRest⟩ := Resolved.bind_eq_ok.mp isResolved
      obtain ⟨second, isSecond, isPure⟩ := Resolved.bind_eq_ok.mp isRest
      cases isPure
      rcases isIn with isDef | isUsed
      · cases isDef
        exact isTarget
      · exact mem_of_pair (mem_of_resolveVar isFirst) (mem_of_resolveVar isSecond) isUsed
  | call exp =>
      obtain ⟨invoke, isInvoke, isPure⟩ := Resolved.bind_eq_ok.mp isResolved
      cases isPure
      obtain ⟨isResult, areUsed⟩ := mem_of_resolveCall isInvoke
      rcases isIn with isDef | isUsed
      · cases isResult.symm.trans isDef
        exact isTarget
      · exact areUsed var isUsed

/-- The statement of an action mentions only variables that names stand for. -/
theorem mem_of_resolveAction {action : Source.Action} {stmt : Stmt}
    (isResolved : scope.resolveAction action = .ok stmt) (isIn : stmt.Mentions var) :
    var ∈ scope.varIds := by
  cases action with
  | nop =>
      cases isResolved
      rcases isIn with isDef | isUsed
      · cases isDef
      · cases isUsed
  | assign target operand =>
      obtain ⟨found, isTarget, isRest⟩ := Resolved.bind_eq_ok.mp isResolved
      exact mem_of_resolveAssignment (mem_of_resolveVar isTarget) isRest isIn
  | storeField path source =>
      obtain ⟨⟨base, field⟩, isField, isRest⟩ := Resolved.bind_eq_ok.mp isResolved
      obtain ⟨found, isSource, isPure⟩ := Resolved.bind_eq_ok.mp isRest
      cases isPure
      rcases isIn with isDef | isUsed
      · cases isDef
      · rcases List.mem_append.mp isUsed with isBase | isLast
        · exact mem_of_resolveField isField (Option.mem_toList.mp isBase)
        · rw [List.mem_singleton.mp isLast]
          exact mem_of_resolveVar isSource
  | storeElement base index source =>
      obtain ⟨first, isFirst, isRest⟩ := Resolved.bind_eq_ok.mp isResolved
      obtain ⟨second, isSecond, isRest⟩ := Resolved.bind_eq_ok.mp isRest
      obtain ⟨third, isThird, isPure⟩ := Resolved.bind_eq_ok.mp isRest
      cases isPure
      rcases isIn with isDef | isUsed
      · cases isDef
      · rcases List.mem_cons.mp isUsed with rfl | isRest
        · exact mem_of_resolveVar isFirst
        · exact mem_of_pair (mem_of_resolveVar isSecond) (mem_of_resolveVar isThird) isRest
  | call exp =>
      obtain ⟨invoke, isInvoke, isPure⟩ := Resolved.bind_eq_ok.mp isResolved
      cases isPure
      obtain ⟨isResult, areUsed⟩ := mem_of_resolveCall isInvoke
      rcases isIn with isDef | isUsed
      · cases isResult.symm.trans isDef
      · exact areUsed var isUsed
  | branch op left right label =>
      obtain ⟨exp, isExp, isRest⟩ := Resolved.bind_eq_ok.mp isResolved
      obtain ⟨position, -, isPure⟩ := Resolved.bind_eq_ok.mp isRest
      cases isPure
      rcases isIn with isDef | isUsed
      · cases isDef
      · exact mem_of_binary isExp isUsed
  | goto label =>
      obtain ⟨position, -, isPure⟩ := Resolved.bind_eq_ok.mp isResolved
      cases isPure
      rcases isIn with isDef | isUsed
      · cases isDef
      · cases isUsed
  | switch scrutinee cases default =>
      obtain ⟨found, isScrutinee, isRest⟩ := Resolved.bind_eq_ok.mp isResolved
      obtain ⟨targets, -, isRest⟩ := Resolved.bind_eq_ok.mp isRest
      obtain ⟨position, -, isPure⟩ := Resolved.bind_eq_ok.mp isRest
      cases isPure
      rcases isIn with isDef | isUsed
      · cases isDef
      · rw [List.mem_singleton.mp isUsed]
        exact mem_of_resolveVar isScrutinee
  | ret value =>
      obtain ⟨found, isValue, isPure⟩ := Resolved.bind_eq_ok.mp isResolved
      cases isPure
      rcases isIn with isDef | isUsed
      · cases isDef
      · exact mem_of_mapM_option isValue (Option.mem_toList.mp isUsed)

end Scope

namespace Stmt

variable {onDef onUse : VarId → VarId} {stmt : Stmt}

/-- Renaming maps the variable that a statement defines. -/
theorem def?_rename : (stmt.rename onDef onUse).def? = stmt.def?.map onDef := by
  cases stmt <;> rfl

/-- Renaming maps the variables that a statement reads, in their order. -/
theorem uses_rename : (stmt.rename onDef onUse).uses = stmt.uses.map onUse := by
  cases stmt with
  | loadField target base field => cases base <;> rfl
  | storeField base field source => cases base <;> rfl
  | call invoke =>
      obtain ⟨result, kind, target, receiver, args⟩ := invoke
      cases receiver <;> rfl
  | ret value => cases value <;> rfl
  | _ => rfl

theorem not_mentions_nop {var : VarId} : ¬nop.Mentions var := by
  rintro (isDef | isUsed)
  · cases isDef
  · cases isUsed

/-- Renaming changes nothing where the variables of a statement are left as they are. -/
theorem rename_eq_self (keepsDef : ∀ var, stmt.def? = some var → onDef var = var)
    (keepsUses : ∀ var ∈ stmt.uses, onUse var = var) : stmt.rename onDef onUse = stmt := by
  have option {onVar : VarId → VarId} {var? : Option VarId}
      (keeps : ∀ var ∈ var?, onVar var = var) : var?.map onVar = var? :=
    (Option.map_congr keeps).trans Option.map_id'
  cases stmt with
  | loadField target base field =>
      simp only [uses, Option.mem_toList] at keepsUses
      rw [rename, keepsDef target rfl, option keepsUses]
  | storeField base field source =>
      simp only [uses, List.forall_mem_append, Option.mem_toList, List.forall_mem_singleton]
        at keepsUses
      rw [rename, option keepsUses.1, keepsUses.2]
  | call invoke =>
      simp only [uses, List.forall_mem_append, Option.mem_toList] at keepsUses
      have keepsResult : ∀ var ∈ invoke.result, onDef var = var := keepsDef
      rw [rename, option keepsResult, option keepsUses.1,
        (List.map_congr_left keepsUses.2).trans (List.map_id _)]
  | ret value =>
      simp only [uses, Option.mem_toList] at keepsUses
      rw [rename, option keepsUses]
  | _ => simp_all [rename, def?, uses]

/-- A variable mentioned by a renamed statement is the image of one that the
statement mentions. -/
theorem exists_of_mentions_rename {var : VarId} (isIn : (stmt.rename onDef onUse).Mentions var) :
    ∃ original, stmt.Mentions original ∧ (var = onDef original ∨ var = onUse original) := by
  rcases isIn with isDef | isUsed
  · rw [def?_rename] at isDef
    obtain ⟨original, isOriginal, rfl⟩ := Option.map_eq_some_iff.mp isDef
    exact ⟨original, Or.inl isOriginal, Or.inl rfl⟩
  · rw [uses_rename] at isUsed
    obtain ⟨original, isOriginal, rfl⟩ := List.mem_map.mp isUsed
    exact ⟨original, Or.inr isOriginal, Or.inr rfl⟩

end Stmt

namespace Code

variable {code : Code} {fresh var : VarId} {index : Nat}

theorem lt_size_of_mentions (mentions : (code.stmt index).Mentions var) :
    index < code.body.size :=
  mentions.elim lt_size_of_def? lt_size_of_uses

/-- What mentions a variable is a statement of the body. -/
theorem mem_body_of_mentions (mentions : (code.stmt index).Mentions var) :
    code.stmt index ∈ code.body := by
  have inBody := lt_size_of_mentions mentions
  rw [stmt, Array.getD, dif_pos inBody]
  exact Array.getElem_mem inBody

/-- Code mentions nothing but some variables, which come before those to be added. -/
structure Confined (code : Code) (vars : List VarId) (fresh : VarId) : Prop where
  entryVars : ∀ var ∈ code.entryVars, var ∈ vars
  mentions : ∀ index var, (code.stmt index).Mentions var → var ∈ vars
  below : ∀ var ∈ vars, var < fresh

theorem Confined.mem_of_definesAt {vars : List VarId} {site : DefSite}
    (confined : code.Confined vars fresh) (defines : code.DefinesAt var site) : var ∈ vars := by
  cases site with
  | entry => exact confined.entryVars var defines
  | stmt index => exact confined.mentions index var (.inl defines)

/-- A variable that is added is split from one that is defined on entry or by a statement. -/
theorem mem_of_mem_added {vars : List VarId} {entry : VarId × Nat}
    (confined : code.Confined vars fresh) (isAdded : entry ∈ (code.split fresh).added) :
    entry.1 ∈ vars := by
  obtain ⟨-, site, defines, -⟩ := mem_added.mp isAdded
  exact confined.mem_of_definesAt defines

/-- A split statement mentions variables of the original one, and added ones. -/
theorem mentions_split
    (isIn : ((code.split fresh).body.getD index .nop).Mentions var) :
    (code.stmt index).Mentions var ∨ ∃ position, var = fresh + position ∧
      position < (code.split fresh).added.length := by
  have ofName {original : VarId} (isOriginal : (code.stmt index).Mentions original)
      (isName : code.IsName fresh original var) :
      (code.stmt index).Mentions var ∨ ∃ position, var = fresh + position ∧
        position < (code.split fresh).added.length := by
    rcases isName with rfl | ⟨rank, isAdded, isFresh⟩
    · exact .inl isOriginal
    · exact .inr ⟨_, isFresh, List.idxOf_lt_length_of_mem isAdded⟩
  rw [stmt_split] at isIn
  obtain ⟨original, isOriginal, rfl | rfl⟩ := Stmt.exists_of_mentions_rename isIn
  · exact ofName isOriginal (code.isName_nameAt fresh original _)
  · exact ofName isOriginal (code.isName_readFor fresh original index)

end Code

section Tables

variable {old new : Program} {more : Array Local} {method : MethodId}

/-- Variables stay as they are when others are added to the table. -/
theorem Program.localDef_of_append (added : new.locals = old.locals ++ more) {var : VarId}
    (inTable : var < old.locals.size) : new.localDef var = old.localDef var := by
  rw [localDef, localDef, Array.getD_eq_getD_getElem?, Array.getD_eq_getD_getElem?, added,
    Array.getElem?_append_left inTable]

/-- An added variable is found after those that were there. -/
theorem Program.localDef_added (added : new.locals = old.locals ++ more) {position : Nat}
    {var : Local} (isAdded : more[position]? = some var) :
    new.localDef (old.locals.size + position) = var := by
  rw [localDef, Array.getD_eq_getD_getElem?, added,
    Array.getElem?_append_right (Nat.le_add_right _ _), Nat.add_sub_cancel_left, isAdded]
  rfl

/-- Variables belong to the same methods when others are added to the table. -/
theorem Program.owns_of_append (added : new.locals = old.locals ++ more) {var : VarId}
    (owns : old.Owns method var) : new.Owns method var := by
  obtain ⟨inTable, belongs⟩ := owns
  refine ⟨?_, ?_⟩
  · rw [added, Array.size_append]
    exact Nat.lt_add_right _ inTable
  · rw [localDef_of_append added inTable]
    exact belongs

/-- An added variable belongs to the method it is added for. -/
theorem Program.owns_added (added : new.locals = old.locals ++ more) {position : Nat} {var : Local}
    (isAdded : more[position]? = some var) (belongs : var.method = method) :
    new.Owns method (old.locals.size + position) := by
  obtain ⟨inMore, -⟩ := Array.getElem?_eq_some_iff.mp isAdded
  refine ⟨?_, ?_⟩
  · rw [added, Array.size_append]
    exact Nat.add_lt_add_left inMore _
  · rw [localDef_added added isAdded]
    exact belongs

end Tables

namespace Scope

variable {scope new : Scope}

/-- The variables that names stand for belong to the method being declared. -/
def Owned (scope : Scope) : Prop :=
  ∀ var ∈ scope.varIds, scope.program.Owns scope.program.methods.size var

theorem owned_declareVar {var : Local} {name : String} (owned : scope.Owned)
    (belongs : var.method = scope.program.methods.size) :
    Owned { scope with
      program := scope.program.addLocals [var]
      vars := scope.vars ++ [(name, scope.program.locals.size)] } := by
  intro other isIn
  rw [varIds, List.map_append, List.mem_append] at isIn
  rcases isIn with isOld | isLast
  · exact Program.owns_of_append rfl (owned other isOld)
  · rw [List.map_singleton, List.mem_singleton] at isLast
    rw [isLast]
    have isLast : [var].toArray[0]? = some var := rfl
    exact Program.owns_added rfl isLast belongs

/-- Declaring variables adds them to the table and changes no other. -/
theorem owned_declareVars {decls : List Source.TypedName}
    (isNew : scope.declareVars decls = .ok new) (owned : scope.Owned) :
    new.Owned ∧ new.program.methods = scope.program.methods ∧
      ∀ {method var}, scope.program.Owns method var → new.program.Owns method var := by
  induction decls generalizing scope with
  | nil =>
      cases isNew
      exact ⟨owned, rfl, id⟩
  | cons decl decls ih =>
      obtain ⟨-, -, isRest⟩ := Resolved.bind_eq_ok.mp isNew
      split at isRest
      case isTrue => cases isRest
      case isFalse =>
          obtain ⟨declared, sameMethods, others⟩ := ih isRest (owned_declareVar owned rfl)
          exact ⟨declared, sameMethods,
            fun owns => others (Program.owns_of_append rfl owns)⟩

/-- A scope has more variables than another one, and nothing else has changed. -/
structure Extends (scope new : Scope) : Prop where
  classes : new.program.classes = scope.program.classes
  methods : new.program.methods = scope.program.methods
  labels : new.labels = scope.labels
  vars : ∃ names, new.vars = scope.vars ++ names
  locals : ∃ added, new.program.locals = scope.program.locals ++ added

theorem Extends.trans {middle : Scope} (first : scope.Extends middle)
    (second : middle.Extends new) :
    scope.Extends new := by
  obtain ⟨names, areNames⟩ := first.vars
  obtain ⟨others, areOthers⟩ := second.vars
  obtain ⟨added, areAdded⟩ := first.locals
  obtain ⟨more, areMore⟩ := second.locals
  refine ⟨second.classes.trans first.classes, second.methods.trans first.methods,
    second.labels.trans first.labels, ⟨names ++ others, ?_⟩, ⟨added ++ more, ?_⟩⟩
  · rw [areOthers, areNames, List.append_assoc]
  · rw [areMore, areAdded, Array.append_assoc]

theorem extends_declareVars {decls : List Source.TypedName}
    (isNew : scope.declareVars decls = .ok new) : scope.Extends new := by
  induction decls generalizing scope with
  | nil =>
      cases isNew
      exact ⟨rfl, rfl, rfl, ⟨[], (List.append_nil _).symm⟩, ⟨#[], Array.append_empty.symm⟩⟩
  | cons decl decls ih =>
      obtain ⟨-, -, isRest⟩ := Resolved.bind_eq_ok.mp isNew
      split at isRest
      case isTrue => cases isRest
      case isFalse =>
          have first : scope.Extends { scope with
              program := scope.program.addLocals
                [⟨decl.name, decl.ty, scope.program.methods.size⟩]
              vars := scope.vars ++ [(decl.name, scope.program.locals.size)] } :=
            ⟨rfl, rfl, rfl, ⟨_, rfl⟩, ⟨_, rfl⟩⟩
          exact first.trans (ih isRest)

/-- The first variable declared in a scope comes first, and has the type it is given. -/
theorem declareVars_first {decl : Source.TypedName} {decls : List Source.TypedName}
    (noVars : scope.vars = []) (isNew : scope.declareVars (decl :: decls) = .ok new) :
    (∃ names, new.vars = (decl.name, scope.program.locals.size) :: names) ∧
      ∃ var, new.program.locals[scope.program.locals.size]? = some var ∧ var.ty = decl.ty := by
  obtain ⟨-, -, isRest⟩ := Resolved.bind_eq_ok.mp isNew
  split at isRest
  case isTrue => cases isRest
  case isFalse =>
      obtain ⟨-, -, -, ⟨names, areNames⟩, ⟨added, areAdded⟩⟩ := extends_declareVars isRest
      refine ⟨⟨names, by rw [areNames, noVars]; rfl⟩,
        ⟨⟨decl.name, decl.ty, scope.program.methods.size⟩, ?_, rfl⟩⟩
      rw [areAdded, Array.getElem?_append_left (by simp), Program.locals_addLocals,
        Array.getElem?_append_right le_rfl, Nat.sub_self]
      rfl

theorem declareLabels_eq {lines : List Source.Line} {position : Nat}
    (isNew : scope.declareLabels position lines = .ok new) :
    new.program = scope.program ∧ new.varIds = scope.varIds := by
  induction lines generalizing scope position with
  | nil =>
      cases isNew
      exact ⟨rfl, rfl⟩
  | cons line lines ih =>
      unfold declareLabels at isNew
      split at isNew
      case h_1 => exact ih isNew
      case h_2 label isLabel =>
          split at isNew
          case isTrue => cases isNew
          case isFalse =>
              have labelled := ih isNew
              exact labelled

/-- The statements of a body mention only variables that names stand for. -/
theorem mem_of_resolveLines {lines : List Source.Line} {body : Array Stmt}
    (isResolved : scope.resolveLines lines = .ok body) {stmt : Stmt} (isStmt : stmt ∈ body)
    {var : VarId} (isIn : stmt.Mentions var) : var ∈ scope.varIds := by
  obtain ⟨labelled, isLabelled, isRest⟩ := Resolved.bind_eq_ok.mp isResolved
  obtain ⟨stmts, areStmts, isPure⟩ := Resolved.bind_eq_ok.mp isRest
  cases isPure
  obtain ⟨line, -, isAction⟩ :=
    Resolved.exists_of_mem_mapM areStmts (List.mem_toArray.mp isStmt)
  rw [← (declareLabels_eq isLabelled).2]
  exact mem_of_resolveAction isAction isIn

end Scope

namespace Program

variable {program new : Program}

/-- Past the end of a table of methods there is nothing to own. -/
theorem stmt_of_ge {site : Site} (pastEnd : program.methods.size ≤ site.method) :
    program.stmt site = .nop := by
  have isDefault : program.methodDef site.method = default := by
    simp [methodDef, Array.getD, Nat.not_lt.mpr pastEnd]
  rw [stmt, isDefault]
  rfl

theorem methodDef_addSplit_of_lt {method : MethodDef} {id : MethodId}
    {isNew : program.declaredMethod? method.owner method.sub = none}
    (inTable : id < program.methods.size) :
    (program.addSplit method isNew).methodDef id = program.methodDef id := by
  rw [methodDef, methodDef, methods_addSplit, Array.getD_eq_getD_getElem?,
    Array.getD_eq_getD_getElem?, Array.getElem?_push_lt inTable, Array.getElem?_eq_getElem inTable]

theorem methodDef_addSplit_last {method : MethodDef}
    {isNew : program.declaredMethod? method.owner method.sub = none} :
    (program.addSplit method isNew).methodDef program.methods.size =
      program.splitMethod method := by
  rw [methodDef, methods_addSplit, Array.getD_eq_getD_getElem?, Array.getElem?_push_size]
  rfl

theorem size_methods_addSplit {method : MethodDef}
    {isNew : program.declaredMethod? method.owner method.sub = none} :
    (program.addSplit method isNew).methods.size = program.methods.size + 1 := by
  rw [methods_addSplit, Array.size_push]

/-- Adding a method, split, whose statements mention only its own variables. -/
theorem owned_addSplit (owned : program.Owned) {method : MethodDef}
    {isNew : program.declaredMethod? method.owner method.sub = none}
    (areOwn : ∀ var ∈ method.vars, program.Owns program.methods.size var)
    (confined : method.code.Confined method.vars program.locals.size) :
    (program.addSplit method isNew).Owned := by
  have added : (program.addSplit method isNew).locals =
      program.locals ++ ((program.splitting method).added.map program.splitLocal).toArray := rfl
  intro site var mentions
  rcases Nat.lt_trichotomy site.method program.methods.size with before | isLast | after
  · rw [stmt, methodDef_addSplit_of_lt before] at mentions
    exact owns_of_append added (owned site var mentions)
  · rw [stmt, isLast, methodDef_addSplit_last] at mentions
    rw [isLast]
    rcases Code.mentions_split mentions with isOriginal | ⟨position, rfl, inAdded⟩
    · exact owns_of_append added (areOwn var (confined.mentions _ var isOriginal))
    · have isAdded : ((program.splitting method).added.map program.splitLocal).toArray[position]? =
          some (program.splitLocal (program.splitting method).added[position]) := by
        simp [splitting, inAdded]
      exact owns_added added isAdded
        (areOwn _ (Code.mem_of_mem_added confined (List.getElem_mem inAdded))).2
  · have pastEnd : (program.addSplit method isNew).methods.size ≤ site.method := by
      rw [size_methods_addSplit]
      exact after
    rw [stmt_of_ge pastEnd] at mentions
    exact absurd mentions Stmt.not_mentions_nop

/-- The statements of a program mention the variables of their methods as long as
the methods are the same and own their variables. -/
theorem owned_of_keeps (owned : program.Owned) (sameMethods : new.methods = program.methods)
    (keeps : ∀ {method var}, program.Owns method var → new.Owns method var) : new.Owned := by
  intro site var mentions
  exact keeps (owned site var (by rwa [stmt, methodDef, ← sameMethods]))

/-- The receiver and the parameters of a declared method are among the variables in
scope. -/
theorem mem_varIds_of_mem_entryVars {owner : ClassId} {decl : Source.MethodDecl} {scope : Scope}
    {body : Array Stmt} {var : VarId}
    (isEntryVar : var ∈ (writtenMethod owner program decl scope body).entryVars) :
    var ∈ scope.varIds := by
  rcases List.mem_append.mp isEntryVar with isThis | isParam
  · have isThis := Option.mem_toList.mp isThis
    simp only [writtenMethod] at isThis
    split at isThis
    case isTrue => cases isThis
    case isFalse => exact List.mem_of_head? isThis
  · exact List.mem_of_mem_take (List.mem_of_mem_drop isParam)

/-- A method mentions nothing but what it declares. -/
theorem Declares.confined {owner : ClassId} {decl : Source.MethodDecl} {header scope : Scope}
    {body : Array Stmt} (declares : Declares owner program decl header scope body new) :
    (writtenMethod owner program decl scope body).code.Confined
      (writtenMethod owner program decl scope body).vars scope.program.locals.size := by
  obtain ⟨headerOwned, -, -⟩ :=
    Scope.owned_declareVars declares.isHeader (by intro var isIn; cases isIn)
  obtain ⟨owned, -, -⟩ := Scope.owned_declareVars declares.isScope headerOwned
  refine ⟨fun var => mem_varIds_of_mem_entryVars, fun index var mentions => ?_,
    fun var isVar => (owned var isVar).1⟩
  exact Scope.mem_of_resolveLines declares.isBody (Code.mem_body_of_mentions mentions) mentions

/-- Declaring a method. -/
theorem owned_declareMethod {owner : ClassId} {decl : Source.MethodDecl} (owned : program.Owned)
    (isNew : declareMethod owner program decl = .ok new) : new.Owned := by
  obtain ⟨header, scope, body, declares⟩ := exists_of_declareMethod isNew
  obtain ⟨headerOwned, headerMethods, keepsHeader⟩ :=
    Scope.owned_declareVars declares.isHeader (by intro var isIn; cases isIn)
  obtain ⟨scopeOwned, scopeMethods, keepsScope⟩ :=
    Scope.owned_declareVars declares.isScope headerOwned
  have before : scope.program.Owned := owned_of_keeps owned
    (scopeMethods.trans headerMethods) fun owns => keepsScope (keepsHeader owns)
  rw [declares.isNew]
  exact owned_addSplit before scopeOwned declares.confined

/-- In the program that a text stands for, the statements of a method mention no
variables but its own. -/
theorem owned_ofText {text : String} (isProgram : ofText text = .ok program) : program.Owned := by
  refine ofText_induction ?_ (fun _ _ same owned => ?_) owned_declareMethod isProgram
  · intro site var mentions
    rw [stmt_of_ge (Nat.zero_le _)] at mentions
    exact absurd mentions Stmt.not_mentions_nop
  · refine owned_of_keeps owned same.methods fun owns => ?_
    rwa [Owns, localDef, same.locals]

/-- The receivers and parameters of all methods are variables of theirs. -/
def OwnsEntryVars (program : Program) : Prop :=
  ∀ id var, var ∈ (program.methodDef id).entryVars → program.Owns id var

theorem entryVars_of_ge {id : MethodId} (pastEnd : program.methods.size ≤ id) :
    (program.methodDef id).entryVars = [] := by
  have isDefault : program.methodDef id = default := by
    simp [methodDef, Array.getD, Nat.not_lt.mpr pastEnd]
  rw [isDefault]
  rfl

theorem ownsEntryVars_declareMethod {owner : ClassId} {decl : Source.MethodDecl}
    (owns : program.OwnsEntryVars) (isNew : declareMethod owner program decl = .ok new) :
    new.OwnsEntryVars := by
  obtain ⟨header, scope, body, declares⟩ := exists_of_declareMethod isNew
  obtain ⟨headerOwned, headerMethods, keepsHeader⟩ :=
    Scope.owned_declareVars declares.isHeader (by intro var isIn; cases isIn)
  obtain ⟨scopeOwned, scopeMethods, keepsScope⟩ :=
    Scope.owned_declareVars declares.isScope headerOwned
  have sameMethods : scope.program.methods = program.methods := scopeMethods.trans headerMethods
  intro id var isEntryVar
  rw [declares.isNew] at isEntryVar ⊢
  apply owns_of_append rfl
  rcases Nat.lt_trichotomy id scope.program.methods.size with inTable | rfl | pastEnd
  · rw [methodDef_addSplit_of_lt inTable, methodDef, sameMethods] at isEntryVar
    exact keepsScope (keepsHeader (owns id var isEntryVar))
  · rw [methodDef_addSplit_last] at isEntryVar
    exact scopeOwned var (declares.confined.entryVars var isEntryVar)
  · rw [entryVars_of_ge (by rw [size_methods_addSplit]; exact pastEnd)] at isEntryVar
    cases isEntryVar

/-- In the program that a text stands for, the receiver and the parameters of a method are
variables of the method. -/
theorem ownsEntryVars_ofText {text : String} (isProgram : ofText text = .ok program) :
    program.OwnsEntryVars := by
  refine ofText_induction (fun id var isEntryVar => ?_) (fun _ _ same owns id var isEntryVar => ?_)
    ownsEntryVars_declareMethod isProgram
  · rw [entryVars_of_ge (Nat.zero_le id)] at isEntryVar
    cases isEntryVar
  · rw [methodDef, same.methods] at isEntryVar
    rw [Owns, localDef, same.locals]
    exact owns id var isEntryVar

/-- The receiver of a method, if it has one, is a variable of a class type. -/
def ReceiverNamed (locals : Array Local) (method : MethodDef) : Prop :=
  ∀ var, method.this = some var →
    ∃ receiver, locals[var]? = some receiver ∧ ∃ name, receiver.ty = .named name

/-- The receivers of all methods are variables of class types. -/
def ReceiversNamed (program : Program) : Prop :=
  ∀ method ∈ program.methods, ReceiverNamed program.locals method

theorem receiverNamed_append {locals more : Array Local} {method : MethodDef}
    (isNamed : ReceiverNamed locals method) : ReceiverNamed (locals ++ more) method := by
  intro var isThis
  obtain ⟨receiver, isReceiver, isNamed⟩ := isNamed var isThis
  obtain ⟨inTable, -⟩ := Array.getElem?_eq_some_iff.mp isReceiver
  exact ⟨receiver, by rw [Array.getElem?_append_left inTable, isReceiver], isNamed⟩

theorem receiversNamed_declareMethod {owner : ClassId} {decl : Source.MethodDecl}
    (areNamed : program.ReceiversNamed) (isNew : declareMethod owner program decl = .ok new) :
    new.ReceiversNamed := by
  obtain ⟨header, scope, body, declares⟩ := exists_of_declareMethod isNew
  have extend := (Scope.extends_declareVars declares.isHeader).trans
    (Scope.extends_declareVars declares.isScope)
  obtain ⟨added, areAdded⟩ := extend.locals
  rw [declares.isNew]
  intro method isMethod
  apply receiverNamed_append
  rcases Array.mem_push.mp isMethod with isOld | rfl
  · rw [methods_addLocals, extend.methods] at isOld
    rw [areAdded]
    exact receiverNamed_append (areNamed method isOld)
  · intro var isThis
    simp only [writtenMethod] at isThis
    split at isThis
    case isTrue => cases isThis
    case isFalse isInstance =>
        have isFirst : headerVars (program.classDef owner).name decl =
            ⟨.named (program.classDef owner).name, "this"⟩ :: decl.params := by
          rw [headerVars, if_neg isInstance, List.singleton_append]
        have isHeader := declares.isHeader
        rw [isFirst] at isHeader
        obtain ⟨⟨names, areNames⟩, receiver, isReceiver, isNamed⟩ :=
          Scope.declareVars_first rfl isHeader
        obtain ⟨-, -, -, ⟨others, areOthers⟩, ⟨more, areMore⟩⟩ :=
          Scope.extends_declareVars declares.isScope
        rw [areOthers, areNames] at isThis
        cases isThis
        obtain ⟨inTable, -⟩ := Array.getElem?_eq_some_iff.mp isReceiver
        exact ⟨receiver, by rw [areMore, Array.getElem?_append_left inTable, isReceiver],
          _, isNamed⟩

/-- In the program that a text stands for, no receiver holds an integer. -/
theorem holdsInt_this_ofText {text : String} (isProgram : ofText text = .ok program)
    {id : MethodId} {var : VarId} (isThis : (program.methodDef id).this = some var) :
    program.holdsInt var = false := by
  have areNamed : program.ReceiversNamed := by
    refine ofText_induction (fun method isIn => absurd isIn (Array.not_mem_empty method))
      (fun _ _ same areNamed => ?_) receiversNamed_declareMethod isProgram
    rw [ReceiversNamed, same.methods, same.locals]
    exact areNamed
  rw [methodDef, Array.getD] at isThis
  split at isThis
  case isTrue inTable =>
      obtain ⟨receiver, isReceiver, name, isNamed⟩ :=
        areNamed _ (Array.getElem_mem inTable) var isThis
      rw [holdsInt, localDef, Array.getD_eq_getD_getElem?, isReceiver, Option.getD_some, isNamed]
      rfl
  case isFalse => cases isThis

end Program

end TacAnalysis
