/-
# Splitting is exact

Two definitions of a variable get the same variable exactly if a chain of definitions leads
from the one to the other, in which consecutive ones reach a common statement reading the
variable. Splitting takes away definitions that kept others from reaching a statement: more
definitions may reach more statements afterwards, but a chain stays a chain, so that all
definitions of a variable are linked once the variable is that of a single web. Splitting
again finds one web for each variable, and has nothing to do.
-/

import TacAnalysis.Proofs.Resolution.Splitting

namespace TacAnalysis

open Relation (ReflTransGen)

/-- Where all definitions are of the first web, nothing is added. -/
theorem Code.added_eq_nil {code : Code}
    (areFirst : ∀ var site, code.DefinesAt var site → code.rankOf var site = 0) :
    code.naming.added = [] := by
  refine List.eq_nil_iff_forall_not_mem.mpr fun entry isAdded => ?_
  obtain ⟨isOther, site, defines, isRank⟩ := mem_added.mp isAdded
  exact isOther (isRank.symm.trans (areFirst _ site defines))

namespace Code

variable {code : Code} {var : VarId} {site first second : DefSite} {index next : Nat}

section Names

variable {vars : List VarId} {fresh name : VarId} {other : VarId}

/-- The variable that gets a value at a site in place of a variable. What has a value on entry
goes by its own name. -/
def definedAt? (code : Code) (var : VarId) : DefSite → Option VarId
  | .entry => some var
  | .stmt index => (code.stmt index).def?

theorem definedAt?_afterSplit (isSite : code.DefinesAt var site) :
    (code.afterSplit fresh).definedAt? var site = some (code.nameAt fresh var site) := by
  cases site with
  | entry => rw [nameAt_entry isSite, definedAt?]
  | stmt index => rw [definedAt?, def?_afterSplit, isSite, Option.map_some]

/-- Webs go by the same name only if they are the same web of the same variable. -/
theorem eq_of_nameAt_eq (confined : code.Confined vars fresh)
    (isFirst : code.DefinesAt var first) (isSecond : code.DefinesAt other second)
    (sameName : code.nameAt fresh var first = code.nameAt fresh other second) :
    var = other ∧ code.rankOf var first = code.rankOf other second := by
  have below {var : VarId} {site : DefSite} (isSite : code.DefinesAt var site) : var < fresh :=
    confined.below var (confined.mem_of_definesAt isSite)
  have isNew {old position : Nat} (isOld : old < fresh) (isSame : old = fresh + position) : False :=
    Nat.not_lt.mpr (Nat.le_add_right fresh position) (isSame ▸ isOld)
  rcases nameAt_cases fresh isFirst with ⟨isName, isZero⟩ | ⟨isAdded, isName⟩ <;>
    rcases nameAt_cases fresh isSecond with ⟨isOtherName, isOtherZero⟩ | ⟨-, isOtherName⟩ <;>
    rw [isName, isOtherName] at sameName
  · exact ⟨sameName, isZero.trans isOtherZero.symm⟩
  · exact (isNew (below isFirst) sameName).elim
  · exact (isNew (below isSecond) sameName.symm).elim
  · exact Prod.mk.inj ((List.idxOf_inj isAdded).mp (Nat.add_left_cancel sameName))

theorem nameAt_eq_iff_linked (confined : code.Confined vars fresh)
    (isFirst : code.DefinesAt var first) (isSecond : code.DefinesAt var second) :
    code.nameAt fresh var first = code.nameAt fresh var second ↔
      code.Linked var first second := by
  rw [← rankOf_eq_iff_linked isFirst]
  constructor
  · intro sameName
    exact (eq_of_nameAt_eq confined isFirst isSecond sameName).2
  · intro sameRank
    rw [nameAt_eq isFirst, nameAt_eq isSecond, sameRank]

end Names

section Again

variable {vars : List VarId} {fresh name : VarId}

theorem successors_afterSplit :
    (code.afterSplit fresh).successors index = code.successors index := by
  rw [successors, stmt_afterSplit, Stmt.successors_rename, size_afterSplit, successors]

/-- The sites that define a name after splitting are those of one web. -/
theorem exists_of_definesAt_afterSplit (isSite : (code.afterSplit fresh).DefinesAt name site) :
    ∃ var, code.DefinesAt var site ∧ code.nameAt fresh var site = name := by
  cases site with
  | entry =>
      have isEntryVar : code.DefinesAt name .entry := isSite
      exact ⟨name, isEntryVar, nameAt_entry isEntryVar⟩
  | stmt index =>
      have isName : (code.stmt index).def?.map (code.nameAt fresh · (.stmt index)) = some name :=
        def?_afterSplit.symm.trans isSite
      obtain ⟨var, isDef, isNamed⟩ := Option.map_eq_some_iff.mp isName
      exact ⟨var, isDef, isNamed⟩

theorem definesAt_afterSplit (isSite : code.DefinesAt var site) :
    (code.afterSplit fresh).DefinesAt (code.nameAt fresh var site) site := by
  cases site with
  | entry =>
      rw [nameAt_entry isSite]
      exact isSite
  | stmt index => exact definedAt?_afterSplit isSite

/-- After splitting, a definition still reaches the statements that read its name, since what
defines the name has defined the variable. -/
theorem arrives_afterSplit (confined : code.Confined vars fresh) (isVar : var ∈ vars)
    (isName : code.IsName fresh var name) (arrives : code.Arrives var site index) :
    (code.afterSplit fresh).Arrives name site index := by
  induction arrives with
  | entry => exact .entry
  | stmt isNext =>
      apply Arrives.stmt
      rwa [successors_afterSplit]
  | step _ isOther isNext ih =>
      refine .step ih (fun isDef => ?_) ?_
      · exact isOther (def?_of_def?_afterSplit confined isVar isName isDef)
      · rwa [successors_afterSplit]

/-- Definitions that meet do so after splitting too. -/
theorem meet_afterSplit (confined : code.Confined vars fresh) (meet : code.Meet var first second) :
    (code.afterSplit fresh).Meet (code.nameAt fresh var first) first second := by
  obtain ⟨isFirst, isSecond, index, isRead, arrives, arrivesToo⟩ := meet
  have isVar := confined.mem_of_definesAt isFirst
  have isReadName := readFor_eq_nameAt fresh isFirst isRead arrives
  have sameName := readFor_eq_nameAt fresh isSecond isRead arrivesToo
  have isName := code.isName_readFor fresh var index
  have isReadAgain : code.readFor fresh index var ∈
      ((code.afterSplit fresh).stmt index).uses := by
    rw [stmt_afterSplit, Stmt.uses_rename]
    exact List.mem_map_of_mem isRead
  rw [← isReadName]
  refine ⟨?_, ?_, index, isReadAgain, ?_, ?_⟩
  · rw [isReadName]
    exact definesAt_afterSplit isFirst
  · rw [sameName]
    exact definesAt_afterSplit isSecond
  · exact arrives_afterSplit confined isVar isName arrives
  · exact arrives_afterSplit confined isVar isName arrivesToo

/-- After splitting, all definitions of a variable are linked. -/
theorem linked_afterSplit (confined : code.Confined vars fresh)
    (isFirst : (code.afterSplit fresh).DefinesAt name first)
    (isSecond : (code.afterSplit fresh).DefinesAt name second) :
    (code.afterSplit fresh).Linked name first second := by
  obtain ⟨var, isVar, rfl⟩ := exists_of_definesAt_afterSplit isFirst
  obtain ⟨other, isOther, sameName⟩ := exists_of_definesAt_afterSplit isSecond
  obtain ⟨rfl, -⟩ := eq_of_nameAt_eq confined isOther isVar sameName
  have linked := (nameAt_eq_iff_linked confined isVar isOther).mp sameName.symm
  clear sameName isSecond isOther
  induction linked with
  | refl => exact .refl
  | tail isChain meet ih =>
      have sameName := (nameAt_eq_iff_linked confined isVar meet.definesFirst).mpr isChain
      have meets := meet_afterSplit confined meet
      rw [← sameName] at meets
      exact ih.tail meets

/-- Where all definitions of every variable are linked, there is one web for each variable, and
it comes first. -/
theorem rankOf_of_linked (areLinked : ∀ var first second, code.DefinesAt var first →
    code.DefinesAt var second → code.Linked var first second) (isSite : code.DefinesAt var site) :
    code.rankOf var site = 0 := by
  have areSame : ∀ root ∈ code.rootsOf var, root = code.webs.rootOf (var, site) := by
    intro root isRoot
    obtain ⟨other, isOther, rfl⟩ := exists_of_mem_rootsOf isRoot
    exact rootOf_webs_eq_iff.mpr ⟨rfl, areLinked var other site isOther isSite⟩
  refine idxOf_eq_zero_of_least (code.pairwise_rootsOf var) (mem_rootsOf isSite)
    fun root isRoot => ?_
  rw [areSame root isRoot, Std.compare_self]
  exact nofun

/-- Where all definitions of every variable are linked, there is nothing to split. -/
theorem split_of_linked (areLinked : ∀ var first second, code.DefinesAt var first →
    code.DefinesAt var second → code.Linked var first second) :
    code.split fresh = ⟨code.body, []⟩ := by
  have noneAdded : (code.split fresh).added = [] :=
    added_eq_nil fun _ _ => rankOf_of_linked areLinked
  have keeps {var name : VarId} (isName : code.IsName fresh var name) : name = var := by
    rcases isName with isSame | ⟨rank, isAdded, -⟩
    · exact isSame
    · rw [noneAdded] at isAdded
      cases isAdded
  have sameBody : (code.split fresh).body = code.body := by
    refine Array.ext size_split fun index inSplit inBody => ?_
    have isStmt : (code.split fresh).body.getD index .nop = _ := stmt_split
    rw [Stmt.rename_eq_self (fun var _ => keeps (code.isName_nameAt fresh var _))
      (fun var _ => keeps (code.isName_readFor fresh var index))] at isStmt
    simpa [stmt, Array.getD, inSplit, inBody] using isStmt
  rw [← sameBody, ← noneAdded]

end Again

end Code

/-- Splitting gives a variable to every web of definitions, and only to one. Definitions of a
variable get the same variable exactly if they are linked; those linked to the first one keep
the variable itself, as do the statements that read it where no definition reaches them. What
has been split is not split again, whatever numbers new variables were to get. -/
structure MethodDef.SplitsExactly (written split : MethodDef) : Prop where
  entryVars : split.entryVars = written.entryVars
  size : split.body.size = written.body.size
  sameVar_iff : ∀ var first second, written.code.DefinesAt var first →
    written.code.DefinesAt var second →
      (split.code.definedAt? var first = split.code.definedAt? var second ↔
        written.code.Linked var first second)
  keepsFirst : ∀ var first site, written.code.DefinesAt var first →
    (∀ other, written.code.DefinesAt var other → ¬other.Precedes first) →
      written.code.Linked var first site → split.code.definedAt? var site = some var
  renames : ∀ index, ∃ onDef onUse,
    split.code.stmt index = (written.code.stmt index).rename onDef onUse ∧
      ∀ var ∈ (written.code.stmt index).uses,
        (∀ site, written.code.DefinesAt var site → ¬written.code.Arrives var site index) →
          onUse var = var
  again : ∀ fresh, split.code.split fresh = ⟨split.body, []⟩

namespace Program

variable {program new : Program} {method : MethodDef} {owner : ClassId}
  {decl : Source.MethodDecl}

theorem splitsExactly_splitMethod
    (confined : method.code.Confined method.vars program.locals.size) :
    method.SplitsExactly (program.splitMethod method) := by
  constructor
  case entryVars => rfl
  case size => exact Code.size_afterSplit
  case sameVar_iff =>
      intro var first second isFirst isSecond
      change (method.code.afterSplit program.locals.size).definedAt? var first =
        (method.code.afterSplit program.locals.size).definedAt? var second ↔ _
      rw [Code.definedAt?_afterSplit isFirst, Code.definedAt?_afterSplit isSecond,
        Option.some_inj]
      exact Code.nameAt_eq_iff_linked confined isFirst isSecond
  case keepsFirst =>
      intro var first site isFirst isEarliest linked
      have isSite := Code.definesAt_of_linked linked isFirst
      have sameName := (Code.nameAt_eq_iff_linked confined isFirst isSite).mpr linked
      refine (Code.definedAt?_afterSplit isSite).trans ?_
      rw [← sameName, Code.nameAt_eq isFirst, Code.rankOf_first isFirst isEarliest, webVar,
        if_pos rfl]
  case renames =>
      intro index
      refine ⟨_, _, Code.stmt_afterSplit, fun var isRead notReached => ?_⟩
      exact Code.readFor_eq_self notReached isRead
  case again =>
      intro fresh
      exact Code.split_of_linked fun _ _ _ => Code.linked_afterSplit confined

/-- Every body that is declared is split into its webs. -/
theorem splitsExactly_declareMethod (isNew : declareMethod owner program decl = .ok new) :
    ∃ header scope body, Declares owner program decl header scope body new ∧
      (writtenMethod owner program decl scope body).SplitsExactly
        (new.methodDef program.methods.size) := by
  obtain ⟨header, scope, body, declares⟩ := exists_of_declareMethod isNew
  refine ⟨header, scope, body, declares, ?_⟩
  rw [declares.methodDef_last]
  exact splitsExactly_splitMethod declares.confined

/-- `static int count(int x)`, which counts up to its parameter, reads a variable that nothing
defines, and assigns its counter anew before returning and, out of reach, after it. -/
def countDecl : Source.MethodDecl where
  name := "count"
  params := [⟨.int, "x"⟩]
  ret := .int
  isStatic := true
  isAbstract := false
  body := some ⟨[⟨.int, "y"⟩, ⟨.int, "z"⟩],
    [⟨none, .assign "y" (.copy "x")⟩,
    ⟨some "L", .assign "y" (.binary .add "y" "z")⟩,
    ⟨none, .branch .lt "y" "x" "L"⟩,
    ⟨none, .assign "y" (.literal (.int 2))⟩,
    ⟨none, .ret (some "y")⟩,
    ⟨none, .assign "y" (.copy "x")⟩,
    ⟨none, .ret (some "y")⟩]⟩

/-- The counter of the loop is one variable, and each of the assignments after it another. -/
theorem splitsExactly_count : ∃ new, declareMethod 0 root countDecl = .ok new ∧
    (new.methodDef 0).body = #[.copy 1 0, .binary 1 ⟨.add, 1, 2⟩, .branch ⟨.lt, 1, 0⟩ 1,
      .literal 3 (.int 2), .ret (some 3), .copy 4 0, .ret (some 4)] ∧
    ∃ header scope body, Declares 0 root countDecl header scope body new ∧
      (writtenMethod 0 root countDecl scope body).SplitsExactly (new.methodDef 0) := by
  have passes : (declareMethod 0 root countDecl).toOption.any (fun new =>
      decide ((new.methodDef 0).body = #[.copy 1 0, .binary 1 ⟨.add, 1, 2⟩,
        .branch ⟨.lt, 1, 0⟩ 1, .literal 3 (.int 2), .ret (some 3), .copy 4 0,
        .ret (some 4)])) = true := by decide +kernel
  obtain ⟨new, isNew, isBody⟩ := exists_of_test passes
  exact ⟨new, isNew, of_decide_eq_true isBody, splitsExactly_declareMethod isNew⟩

end Program

end TacAnalysis
