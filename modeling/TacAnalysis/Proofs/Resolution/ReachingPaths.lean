/-
# Reaching definitions by paths

A path is a list of statements in which each comes right after the one before. The
definitions found for a statement are those that some path leads from without meeting another
definition of the variable on the way: what holds on entry is led from by the paths that begin
at the first statement, and a statement by the nonempty paths that begin at itself. The
statements of a method that is declared come after each other inside of its body only.
-/

import Mathlib.Data.List.Chain
import TacAnalysis.Proofs.Resolution.Jumps
import TacAnalysis.Proofs.Resolution.Splitting

namespace TacAnalysis

namespace Code

variable {code : Code} {var : VarId} {site : DefSite} {index next : Nat} {between : List Nat}

/-- Control leads from each statement of a list right to the next one. -/
def IsPath (code : Code) (stmts : List Nat) : Prop :=
  stmts.IsChain fun index next => next ∈ code.successors index

/-- Control leads from a site to a statement along those between the two. -/
def LeadsAlong (code : Code) : DefSite → List Nat → Nat → Prop
  | .entry, between, index =>
      code.IsPath (between ++ [index]) ∧ (between ++ [index]).head? = some 0
  | .stmt source, between, index => code.IsPath (source :: between ++ [index])

theorem leadsAlong_entry_nil : code.LeadsAlong .entry [] index ↔ index = 0 := by
  simp [LeadsAlong, IsPath]

theorem leadsAlong_stmt_nil :
    code.LeadsAlong (.stmt next) [] index ↔ index ∈ code.successors next := by
  simp [LeadsAlong, IsPath]

/-- The last statement between a site and another one is led to from the site, and leads to the
other one. -/
theorem leadsAlong_append : code.LeadsAlong site (between ++ [index]) next ↔
    code.LeadsAlong site between index ∧ next ∈ code.successors index := by
  have splits (stmts : List Nat) : code.IsPath (stmts ++ [index] ++ [next]) ↔
      code.IsPath (stmts ++ [index]) ∧ next ∈ code.successors index := by
    rw [IsPath, List.append_assoc, List.singleton_append, List.isChain_append_cons_cons, IsPath]
    simp
  cases site with
  | entry =>
      have sameHead : (between ++ [index] ++ [next]).head? = (between ++ [index]).head? := by
        cases between <;> rfl
      rw [LeadsAlong, LeadsAlong, splits, sameHead, and_right_comm]
  | stmt source => exact splits (source :: between)

/-- A definition arrives where paths lead on which the variable is not defined anew. -/
theorem arrives_iff : code.Arrives var site index ↔ ∃ between, code.LeadsAlong site between index ∧
    ∀ other ∈ between, (code.stmt other).def? ≠ some var := by
  constructor
  · intro arrives
    induction arrives with
    | entry => exact ⟨[], leadsAlong_entry_nil.mpr rfl, nofun⟩
    | stmt isNext => exact ⟨[], leadsAlong_stmt_nil.mpr isNext, nofun⟩
    | @step site index next _ isOther isNext ih =>
        obtain ⟨between, leads, areOthers⟩ := ih
        refine ⟨between ++ [index], leadsAlong_append.mpr ⟨leads, isNext⟩, ?_⟩
        rw [List.forall_mem_append, List.forall_mem_singleton]
        exact ⟨areOthers, isOther⟩
  · rintro ⟨between, leads, areOthers⟩
    induction between using List.reverseRecOn generalizing index with
    | nil =>
        cases site with
        | entry =>
            rw [leadsAlong_entry_nil.mp leads]
            exact .entry
        | stmt source => exact .stmt (leadsAlong_stmt_nil.mp leads)
    | append_singleton between last ih =>
        obtain ⟨leads, isNext⟩ := leadsAlong_append.mp leads
        rw [List.forall_mem_append, List.forall_mem_singleton] at areOthers
        exact .step (ih leads areOthers.1) areOthers.2 isNext

/-- The search for reaching definitions does not leave the code and comes to an end, when no
statement is queued. It finds for a statement what some path from the first statement leads to
it from without defining the variable, out of what holds on entry, and the statements that some
path of one step or more leads to it from without defining the variable in between. -/
structure FindsReaching (code : Code) : Prop where
  inside : ∀ index, ∀ next ∈ code.successors index, next < code.body.size
  ends : ∃ last, code.Visits code.startPropagation last ∧ code.reachingDefinitions = last.reaching
  entry_iff : ∀ index < code.body.size, ∀ var,
    (var, .entry) ∈ (code.reachingDefinitions.get index).elements ↔ var ∈ code.entryVars ∧
      ∃ before, code.IsPath (before ++ [index]) ∧ (before ++ [index]).head? = some 0 ∧
        ∀ other ∈ before, (code.stmt other).def? ≠ some var
  stmt_iff : ∀ index < code.body.size, ∀ var source,
    (var, .stmt source) ∈ (code.reachingDefinitions.get index).elements ↔
      (code.stmt source).def? = some var ∧
        ∃ between, code.IsPath (source :: between ++ [index]) ∧
          ∀ other ∈ between, (code.stmt other).def? ≠ some var

theorem findsReaching_of_inside
    (inside : ∀ index, ∀ next ∈ code.successors index, next < code.body.size) :
    code.FindsReaching where
  inside := inside
  ends := code.exists_visits
  entry_iff index inBody var := by
    rw [mem_reachingDefinitions inBody, arrives_iff]
    simp only [LeadsAlong, and_assoc, DefinesAt]
  stmt_iff index inBody var source := by
    rw [mem_reachingDefinitions inBody, arrives_iff]
    rfl

end Code

/-- The statements after those of a method whose jumps stay inside do not leave it either. -/
theorem MethodDef.JumpsInside.successors {method : MethodDef} (inside : method.JumpsInside)
    (index : Nat) : ∀ next ∈ method.code.successors index, next < method.code.body.size := by
  intro next isNext
  have inBody : index < method.body.size := Code.lt_size_of_successor isNext
  have isStmt : method.code.stmt index = method.body[index] := by
    simp [Code.stmt, code, Array.getD, inBody]
  rw [Code.successors, isStmt, Stmt.successors, List.mem_append] at isNext
  rcases isNext with isJump | isFollowing
  · exact inside _ (Array.getElem_mem inBody) next isJump
  · split at isFollowing
    case isTrue hasNext =>
        rw [List.mem_singleton.mp isFollowing]
        exact of_decide_eq_true (Bool.and_eq_true_iff.mp hasNext).2
    case isFalse => cases isFollowing

namespace Program

variable {program new : Program} {owner : ClassId} {decl : Source.MethodDecl}

/-- For the body of every method that is declared, the definitions found to reach a statement
are those that paths lead from, before its variables are split and afterwards. -/
theorem findsReaching_declareMethod (isNew : declareMethod owner program decl = .ok new) :
    ∃ header scope body, Declares owner program decl header scope body new ∧
      (writtenMethod owner program decl scope body).code.FindsReaching ∧
      (new.methodDef program.methods.size).code.FindsReaching := by
  obtain ⟨header, scope, body, declares⟩ := exists_of_declareMethod isNew
  have extend := (Scope.extends_declareVars declares.isHeader).trans
    (Scope.extends_declareVars declares.isScope)
  have jumpsInside : (writtenMethod owner program decl scope body).JumpsInside :=
    Scope.jumps_resolveLines extend.labels declares.isBody
  refine ⟨header, scope, body, declares, ?_, ?_⟩
  · exact Code.findsReaching_of_inside jumpsInside.successors
  · rw [declares.methodDef_last]
    exact Code.findsReaching_of_inside (jumpsInside_splitMethod jumpsInside).successors

/-- `static int spin(int x)`, with a jump to its first statement, one to the jump itself, and an
assignment out of reach from which control goes back into reach. -/
def spinDecl : Source.MethodDecl where
  name := "spin"
  params := [⟨.int, "x"⟩]
  ret := .int
  isStatic := true
  isAbstract := false
  body := some ⟨[⟨.int, "y"⟩],
    [⟨some "L", .assign "y" (.copy "x")⟩,
    ⟨none, .assign "x" (.binary .add "x" "y")⟩,
    ⟨some "M", .branch .lt "y" "x" "M"⟩,
    ⟨none, .branch .eq "y" "x" "L"⟩,
    ⟨none, .ret (some "y")⟩,
    ⟨none, .assign "y" (.copy "x")⟩,
    ⟨none, .goto "M"⟩]⟩

/-- The parameter and its assignment reach the first statement, and the jump to itself is reached
by the assignments in reach and by the one out of reach. -/
theorem findsReaching_spin : ∃ new, declareMethod 0 root spinDecl = .ok new ∧
    ((new.methodDef 0).code.reachingDefinitions.get 0).elements =
      [(0, .entry), (1, .stmt 0), (0, .stmt 1), (1, .stmt 5)] ∧
    ((new.methodDef 0).code.reachingDefinitions.get 2).elements =
      [(1, .stmt 0), (0, .stmt 1), (1, .stmt 5)] ∧
    ∃ header scope body, Declares 0 root spinDecl header scope body new ∧
      (writtenMethod 0 root spinDecl scope body).code.FindsReaching ∧
      (new.methodDef 0).code.FindsReaching := by
  have passes : (declareMethod 0 root spinDecl).toOption.any (fun new =>
      decide (((new.methodDef 0).code.reachingDefinitions.get 0).elements =
        [(0, .entry), (1, .stmt 0), (0, .stmt 1), (1, .stmt 5)] ∧
      ((new.methodDef 0).code.reachingDefinitions.get 2).elements =
        [(1, .stmt 0), (0, .stmt 1), (1, .stmt 5)])) = true := by decide +kernel
  obtain ⟨new, isNew, holds⟩ := exists_of_test passes
  obtain ⟨atFirst, atJump⟩ := of_decide_eq_true holds
  exact ⟨new, isNew, atFirst, atJump, findsReaching_declareMethod isNew⟩

end Program

end TacAnalysis
