/-
# Splitting keeps the meaning of methods

A method is split when it is declared, and no other method is concerned. Webs of
different variables never get the same name, since the variables that are added come
after all the others. So a definition and the statements that read it agree on a name,
whatever path leads from the one to the others, and nothing else on the path defines that
name. The receiver and the parameters keep their names.
-/

import Mathlib.Data.List.Basic
import TacAnalysis.Proofs.Execution.Traces

namespace TacAnalysis

namespace Code

variable {code : Code} {vars : List VarId} {fresh : VarId} {index : Nat}
  {var first second name : VarId} {rank : Nat}

/-- The code that splitting gives. -/
def afterSplit (code : Code) (fresh : VarId) : Code := ⟨code.entryVars, (code.split fresh).body⟩

theorem stmt_afterSplit : (code.afterSplit fresh).stmt index =
    (code.stmt index).rename (fun var => code.nameAt fresh var (.stmt index))
      (code.readFor fresh index) :=
  stmt_split

theorem size_afterSplit : (code.afterSplit fresh).body.size = code.body.size := size_split

theorem def?_afterSplit : ((code.afterSplit fresh).stmt index).def? =
    (code.stmt index).def?.map (code.nameAt fresh · (.stmt index)) := by
  rw [stmt_afterSplit, Stmt.def?_rename]

/-- Different variables never go by the same name. -/
theorem IsName.injective (isFirstName : code.IsName fresh first name)
    (isSecondName : code.IsName fresh second name) (isFirst : first < fresh)
    (isSecond : second < fresh) : first = second := by
  have isNew (position : Nat) : ¬fresh + position < fresh :=
    Nat.not_lt.mpr (Nat.le_add_right fresh position)
  rcases isFirstName with rfl | ⟨rank, isAdded, isName⟩
  · rcases isSecondName with isSame | ⟨otherRank, -, isName⟩
    · exact isSame
    · rw [isName] at isFirst
      exact absurd isFirst (isNew _)
  · rcases isSecondName with rfl | ⟨otherRank, -, isOtherName⟩
    · rw [isName] at isSecond
      exact absurd isSecond (isNew _)
    · have sameEntry := (List.idxOf_inj isAdded).mp
        (Nat.add_left_cancel (isName.symm.trans isOtherName))
      exact congrArg Prod.fst sameEntry

/-- Only a definition of a variable is, after splitting, a definition of what stands for
it. -/
theorem def?_of_def?_afterSplit (confined : code.Confined vars fresh) (isVar : var ∈ vars)
    (isName : code.IsName fresh var name)
    (isDef : ((code.afterSplit fresh).stmt index).def? = some name) :
    (code.stmt index).def? = some var := by
  rw [def?_afterSplit, Option.map_eq_some_iff] at isDef
  obtain ⟨original, isOriginal, rfl⟩ := isDef
  have isIn := confined.mentions index original (.inl isOriginal)
  rw [isOriginal, isName.injective (code.isName_nameAt fresh original _)
    (confined.below var isVar) (confined.below original isIn)]

/-- Whatever path leads to a statement, it reads what the same definition has given. -/
theorem sameSource_afterSplit (confined : code.Confined vars fresh) {past : List Nat}
    (isPath : code.Path past index) (isRead : var ∈ (code.stmt index).uses) :
    code.SameSource (code.afterSplit fresh) past var (code.readFor fresh index var) := by
  have isVar := confined.mentions index var (.inr isRead)
  have areOthers {positions : List Nat}
      (noDef : ∀ other ∈ positions, (code.stmt other).def? ≠ some var) :
      ∀ other ∈ positions, ((code.afterSplit fresh).stmt other).def? ≠
        some (code.readFor fresh index var) := by
    intro other isOther isDef
    exact noDef other isOther
      (def?_of_def?_afterSplit confined isVar (code.isName_readFor fresh var index) isDef)
  constructor
  case last =>
      intro later source earlier isSplit isDef noDef
      rw [isSplit] at isPath
      have defines : code.DefinesAt var (.stmt source) := isDef
      refine ⟨?_, areOthers noDef⟩
      rw [def?_afterSplit, isDef, Option.map_some,
        readFor_eq_nameAt fresh defines isRead (arrives_of_path isPath noDef)]
  case undefined => exact areOthers
  case entryVar =>
      intro noDef isEntryVar
      have defines : code.DefinesAt var .entry := isEntryVar
      rw [readFor_eq_nameAt fresh defines isRead (arrives_entry isPath noDef), nameAt_entry defines]
  case unassigned =>
      intro notEntryVar isEntryVar
      rcases code.isName_readFor fresh var index with isName | ⟨rank, -, isName⟩
      · rw [isName] at isEntryVar
        exact notEntryVar isEntryVar
      · have isBelow := confined.below _ (confined.entryVars _ isEntryVar)
        rw [isName] at isBelow
        exact absurd isBelow (Nat.not_lt.mpr (Nat.le_add_right _ _))

end Code

/-- The type of a variable. -/
def Program.tyOf (program : Program) (var : VarId) : Ty := (program.localDef var).ty

namespace Program

variable {program new : Program} {method : MethodDef} {var name : VarId}
  {isNew : program.declaredMethod? method.owner method.sub = none}

theorem tyOf_addSplit_of_lt (inTable : var < program.locals.size) :
    (program.addSplit method isNew).tyOf var = program.tyOf var := by
  rw [tyOf, tyOf, localDef_of_append rfl inTable]

/-- The variable added for a web is found at its number. -/
theorem localDef_addSplit_added {origin : VarId × Nat}
    (isNew : program.declaredMethod? method.owner method.sub = none)
    (isAdded : origin ∈ (program.splitting method).added) :
    (program.addSplit method isNew).localDef (program.locals.size +
      (program.splitting method).added.idxOf origin) = program.splitLocal origin := by
  refine localDef_added rfl ?_
  rw [List.getElem?_toArray, List.getElem?_map, List.getElem?_idxOf isAdded, Option.map_some]

/-- Splitting keeps types. -/
theorem tyOf_of_isName (isName : method.code.IsName program.locals.size var name)
    (inTable : var < program.locals.size) :
    (program.addSplit method isNew).tyOf name = program.tyOf var := by
  rcases isName with rfl | ⟨rank, isAdded, rfl⟩
  · exact tyOf_addSplit_of_lt inTable
  · have isLocal := localDef_addSplit_added isNew isAdded
    exact (congrArg Local.ty isLocal :)

/-- Splitting names the variables of the statements of a method otherwise. -/
theorem keepsSources_addSplit
    (isNew : program.declaredMethod? method.owner method.sub = none)
    (confined : method.code.Confined method.vars program.locals.size) :
    method.code.KeepsSources (method.code.afterSplit program.locals.size)
      program.tyOf (program.addSplit method isNew).tyOf where
  entryVars := rfl
  size := Code.size_afterSplit
  renames index := by
    refine ⟨_, _, Code.stmt_afterSplit, ?_, ?_, ?_⟩
    · intro var isDef
      have isVar := confined.mentions index var (.inl isDef)
      exact tyOf_of_isName (Code.isName_nameAt _ _ _ _) (confined.below var isVar)
    · intro var isRead
      have isVar := confined.mentions index var (.inr isRead)
      exact tyOf_of_isName (Code.isName_readFor _ _ _ _) (confined.below var isVar)
    · intro past isPath var isRead
      exact Code.sameSource_afterSplit confined isPath isRead

end Program

/-- A method does after splitting what it does as it is written. Its receiver and its
parameters are the same, every path is taken by both, statements read what the same
definitions have given, and whatever statements mean, the traces are the same. -/
structure MethodDef.SplitsInto (written split : MethodDef) (tyOf splitTyOf : VarId → Ty) :
    Prop where
  this : split.this = written.this
  params : split.params = written.params
  keepsSources : written.code.KeepsSources split.code tyOf splitTyOf
  reaches_iff : ∀ {Value World : Type} (meaning : Trace.Meaning Value World)
    (vars : VarId → Option Value) (world : World) (past : List (Trace.Event Value World))
    (situation : Trace.Situation Value World),
    (∀ var, var ∉ written.entryVars → vars var = none) →
    (split.code.Reaches splitTyOf meaning vars world past situation ↔
      written.code.Reaches tyOf meaning vars world past situation)

namespace Program

variable {program new : Program} {method : MethodDef}

theorem splitsInto_addSplit
    (isNew : program.declaredMethod? method.owner method.sub = none)
    (confined : method.code.Confined method.vars program.locals.size) :
    method.SplitsInto (program.splitMethod method) program.tyOf
      (program.addSplit method isNew).tyOf := by
  have keeps := keepsSources_addSplit isNew confined
  exact ⟨rfl, rfl, keeps, fun _ _ _ _ _ noneElse => keeps.reaches_iff noneElse⟩

end Program

namespace Program

variable {program new : Program} {owner : ClassId} {decl : Source.MethodDecl}

section Declaring

variable {header scope : Scope} {body : Array Stmt}

/-- A method is put after the others in the table, split. -/
theorem Declares.methodDef_last (declares : Declares owner program decl header scope body new) :
    new.methodDef program.methods.size =
      scope.program.splitMethod (writtenMethod owner program decl scope body) := by
  have sameMethods : scope.program.methods = program.methods :=
    (Scope.extends_declareVars declares.isScope).methods.trans
      (Scope.extends_declareVars declares.isHeader).methods
  rw [declares.isNew, ← sameMethods, methodDef_addSplit_last]

end Declaring

/-- Every body that is declared is split without changing what it does. -/
theorem splitsInto_declareMethod (isNew : declareMethod owner program decl = .ok new) :
    ∃ header scope body, Declares owner program decl header scope body new ∧
      (writtenMethod owner program decl scope body).SplitsInto
        (new.methodDef program.methods.size) scope.program.tyOf new.tyOf := by
  obtain ⟨header, scope, body, declares⟩ := exists_of_declareMethod isNew
  refine ⟨header, scope, body, declares, ?_⟩
  rw [declares.methodDef_last, declares.isNew]
  exact splitsInto_addSplit declares.staysFresh declares.confined

/-- `static int reuse(int x)`, which copies its parameter, assigns it anew and returns
it. -/
def reuseDecl : Source.MethodDecl where
  name := "reuse"
  params := [⟨.int, "x"⟩]
  ret := .int
  isStatic := true
  isAbstract := false
  body := some ⟨[⟨.int, "y"⟩], [⟨none, .assign "y" (.copy "x")⟩,
    ⟨none, .assign "x" (.literal (.int 2))⟩, ⟨none, .ret (some "x")⟩]⟩

/-- The parameter is copied, and what is returned is another variable. -/
theorem splitsInto_reuse : ∃ new, declareMethod 0 root reuseDecl = .ok new ∧
    (new.methodDef 0).params = [0] ∧
    (new.methodDef 0).body = #[.copy 1 0, .literal 2 (.int 2), .ret (some 2)] ∧
    ∃ header scope body, Declares 0 root reuseDecl header scope body new ∧
      (writtenMethod 0 root reuseDecl scope body).SplitsInto (new.methodDef 0)
        scope.program.tyOf new.tyOf := by
  have passes : (declareMethod 0 root reuseDecl).toOption.any (fun new =>
      decide ((new.methodDef 0).params = [0] ∧ (new.methodDef 0).body =
        #[.copy 1 0, .literal 2 (.int 2), .ret (some 2)])) = true := by decide +kernel
  obtain ⟨new, isNew, holds⟩ := exists_of_test passes
  obtain ⟨areParams, isBody⟩ := of_decide_eq_true holds
  exact ⟨new, isNew, areParams, isBody, splitsInto_declareMethod isNew⟩

end Program

end TacAnalysis
