/-
# Walks through a method body

The body of one method is executed on its own, from the entry of its control flow
graph along the arcs. A variable of a type that fits in 32 bits holds a word, and
words are computed with exactly: literals, copies and operators on words give one
word, and a condition or a switch on words chooses the arc taken. Whatever else is
assigned may be anything that fits the variable, so that allocations, loads, casts,
calls and numbers of other types are not restricted.

A walk is stuck when a statement reads an unassigned variable, and when it divides
by the word zero.
-/

import Mathlib.Logic.Function.Basic
import TacAnalysis.Proofs.ControlFlow
import TacAnalysis.Proofs.Execution.Arithmetic

namespace TacAnalysis.Walk

/-- What a variable holds: a word, or something that is not followed any closer. -/
inductive Content where
  | word (value : Int32)
  | other (token : Nat)
  deriving DecidableEq, Inhabited

/-- The variables of a body being executed, those that are assigned. -/
abbrev Store := VarId → Option Content

/-- A body being executed: the node about to be executed, and the variables. -/
structure State where
  node : FlowNode
  vars : Store

/-- A variable can hold a content: words go into the variables of a type that fits in
32 bits, and nothing else does. -/
def Fits (program : Program) (var : VarId) : Content → Prop
  | .word _ => program.holdsInt var = true
  | .other _ => program.holdsInt var = false

/-- The content that a statement gives, where that depends on what it reads only. -/
def determined? (vars : Store) : Stmt → Option Content
  | .literal _ (.int value) => some (.word value)
  | .copy _ source => vars source
  | .binary _ exp =>
      match vars exp.left, vars exp.right with
      | some (.word left), some (.word right) =>
          some (.word (.ofInt (exp.op.result left.toInt right.toInt)))
      | _, _ => none
  | _ => none

/-- The words that comparing anything else than words may give. -/
def Allows (stmt : Stmt) (content : Content) : Prop :=
  ∀ target exp, stmt = .binary target exp → exp.op.isCondition = true →
    ∀ word, content = .word word → word = 0 ∨ word = 1

/-- What a statement may give to the variable that it defines: the content determined by
what it reads, if the variable can hold that, and otherwise anything that it can hold. -/
inductive Gives (program : Program) (vars : Store) (stmt : Stmt) (target : VarId) :
    Content → Prop where
  | determined {content : Content} : determined? vars stmt = some content →
      Fits program target content → Gives program vars stmt target content
  | any {content : Content} :
      (∀ known, determined? vars stmt = some known → ¬ Fits program target known) →
      Fits program target content → Allows stmt content →
      Gives program vars stmt target content

/-- What a statement makes of the variables. -/
inductive Assigns (program : Program) (vars : Store) (stmt : Stmt) : Store → Prop where
  | nothing : stmt.def? = none → Assigns program vars stmt vars
  | gives {target : VarId} {content : Content} : stmt.def? = some target →
      Gives program vars stmt target content →
      Assigns program vars stmt (Function.update vars target (some content))

/-- A statement can be executed: the variables that it reads are assigned, and it does
not divide by the word zero. -/
structure Able (vars : Store) (stmt : Stmt) : Prop where
  assigned : ∀ var ∈ stmt.uses, vars var ≠ none
  divides : ∀ target exp, stmt = .binary target exp → exp.op.canThrow = true →
    vars exp.right ≠ some (.word 0)

/-- A branch that a statement may take. A condition on words is true unless it gives zero;
a switch on a word takes a case of that value, or the default when there is none. -/
def Takes (vars : Store) : Stmt → Branch → Prop
  | .branch cond _, branch => ∀ left right, vars cond.left = some (.word left) →
      vars cond.right = some (.word right) →
      branch = if cond.op.result left.toInt right.toInt = 0 then .ifFalse else .ifTrue
  | .switch scrutinee cases _, branch => ∀ word, vars scrutinee = some (.word word) →
      branch = if word ∈ cases.map Prod.fst then .case word else .default
  | _, _ => True

/-- A step of a walk. -/
inductive Step (program : Program) (method : MethodDef) (state : State) : State → Prop where
  | mk {arc : Arc FlowNode Branch} {vars : Store} : arc ∈ method.flow.graph.arcs →
      arc.source = state.node → Able state.vars (method.flow.stmtAt state.node) →
      Takes state.vars (method.flow.stmtAt state.node) arc.label →
      Assigns program state.vars (method.flow.stmtAt state.node) vars →
      Step program method state ⟨arc.target, vars⟩

/-- A method is about to be entered: its receiver and parameters hold anything that fits
them, and no other variable is assigned. -/
structure Starts (program : Program) (method : MethodDef) (state : State) : Prop where
  node : state.node = .entry
  entryVars : ∀ var ∈ method.entryVars, ∃ content, state.vars var = some content ∧
    Fits program var content
  others : ∀ var, var ∉ method.entryVars → state.vars var = none

/-- A walk through a method, the last state first. -/
inductive Run (program : Program) (method : MethodDef) : List State → Prop where
  | start {state : State} : Starts program method state → Run program method [state]
  | step {state next : State} {past : List State} : Run program method (state :: past) →
      Step program method state next → Run program method (next :: state :: past)

section Fitting

variable {program : Program} {method : MethodDef} {vars new : Store} {stmt : Stmt}
  {target var : VarId} {content : Content} {word : Int32}

/-- A variable that holds integers can hold nothing but a word. -/
theorem exists_word_of_fits (fits : Fits program var content)
    (isInt : program.holdsInt var = true) : ∃ word, content = .word word := by
  cases content with
  | word word => exact ⟨word, rfl⟩
  | other token => cases isInt.symm.trans fits

theorem Gives.fits (gives : Gives program vars stmt target content) :
    Fits program target content := by
  cases gives with
  | determined _ fits => exact fits
  | any _ fits _ => exact fits

/-- Every variable that is assigned holds what it can hold. -/
def AllFit (program : Program) (vars : Store) : Prop :=
  ∀ var content, vars var = some content → Fits program var content

theorem Assigns.allFit (assigns : Assigns program vars stmt new) (allFit : AllFit program vars) :
    AllFit program new := by
  cases assigns with
  | nothing => exact allFit
  | gives _ gives =>
      intro var content isHeld
      rw [Function.update_apply] at isHeld
      split at isHeld
      case isTrue isTarget =>
          cases isHeld
          exact isTarget ▸ gives.fits
      case isFalse => exact allFit var content isHeld

theorem Run.allFit {run : List State} (isRun : Run program method run) :
    ∀ state ∈ run, AllFit program state.vars := by
  induction isRun with
  | start starts =>
      intro state isState var content isHeld
      rw [List.mem_singleton.mp isState] at isHeld
      by_cases isEntryVar : var ∈ method.entryVars
      · obtain ⟨given, isGiven, fits⟩ := starts.entryVars var isEntryVar
        cases isGiven.symm.trans isHeld
        exact fits
      · cases (starts.others var isEntryVar).symm.trans isHeld
  | step isRun isStep ih =>
      intro state isState
      rcases List.mem_cons.mp isState with rfl | isPast
      · cases isStep with
        | mk _ _ _ _ assigns => exact assigns.allFit (ih _ List.mem_cons_self)
      · exact ih state isPast

/-- A walk stays within the nodes of the control flow graph, and never comes back to the
entry. -/
theorem Run.mem_nodes {run : List State} (isRun : Run program method run)
    (areInside : method.JumpsInside) : ∀ state ∈ run, state.node ∈ method.flow.graph.nodes := by
  induction isRun with
  | start starts =>
      intro state isState
      rw [List.mem_singleton.mp isState, starts.node]
      exact mem_flowNodes.mpr (.inl rfl)
  | step isRun isStep ih =>
      intro state isState
      rcases List.mem_cons.mp isState with rfl | isPast
      · cases isStep with
        | mk isArc => exact method.target_mem_nodes areInside isArc
      · exact ih state isPast

end Fitting

section Arcs

variable {program : Program} {method : MethodDef}

/-- A step of a walk along a given arc. -/
structure StepAlong (program : Program) (method : MethodDef) (arc : Arc FlowNode Branch)
    (state next : State) : Prop where
  isArc : arc ∈ method.flow.graph.arcs
  source : arc.source = state.node
  target : next.node = arc.target
  able : Able state.vars (method.flow.stmtAt state.node)
  takes : Takes state.vars (method.flow.stmtAt state.node) arc.label
  assigns : Assigns program state.vars (method.flow.stmtAt state.node) next.vars

/-- A walk through a method along the arcs that it takes, the last ones first. -/
inductive RunAlong (program : Program) (method : MethodDef) :
    List (Arc FlowNode Branch) → List State → Prop where
  | start {state : State} : Starts program method state → RunAlong program method [] [state]
  | step {arcs : List (Arc FlowNode Branch)} {arc : Arc FlowNode Branch} {state next : State}
      {past : List State} : RunAlong program method arcs (state :: past) →
      StepAlong program method arc state next →
      RunAlong program method (arc :: arcs) (next :: state :: past)

/-- The walks are the walks along some arcs. -/
theorem exists_runAlong_iff {run : List State} :
    (∃ arcs, RunAlong program method arcs run) ↔ Run program method run := by
  constructor
  · rintro ⟨arcs, isRun⟩
    induction isRun with
    | start starts => exact .start starts
    | @step arcs arc state next past _ isStep ih =>
        obtain ⟨node, vars⟩ := next
        cases isStep.target
        exact .step ih (.mk isStep.isArc isStep.source isStep.able isStep.takes isStep.assigns)
  · intro isRun
    induction isRun with
    | start starts => exact ⟨[], .start starts⟩
    | step _ isStep ih =>
        obtain ⟨arcs, isRun⟩ := ih
        cases isStep with
        | mk isArc isSource able takes assigns =>
            exact ⟨_, .step isRun ⟨isArc, isSource, rfl, able, takes, assigns⟩⟩

end Arcs

section Reading

variable {program : Program} {vars other : Store} {stmt : Stmt} {target : VarId}
  {content : Content} {branch : Branch}

/-- What a statement does depends on the variables that it reads only. -/
theorem Able.congr (able : Able vars stmt) (agree : ∀ var ∈ stmt.uses, other var = vars var) :
    Able other stmt where
  assigned var isUsed := by
    rw [agree var isUsed]
    exact able.assigned var isUsed
  divides target exp isBinary canThrow := by
    have isUsed : exp.right ∈ stmt.uses := by simp [isBinary, Stmt.uses]
    rw [agree exp.right isUsed]
    exact able.divides target exp isBinary canThrow

theorem Takes.congr (takes : Takes vars stmt branch)
    (agree : ∀ var ∈ stmt.uses, other var = vars var) : Takes other stmt branch := by
  cases stmt with
  | branch cond position =>
      intro left right isLeft isRight
      rw [agree cond.left (by simp [Stmt.uses])] at isLeft
      rw [agree cond.right (by simp [Stmt.uses])] at isRight
      exact takes left right isLeft isRight
  | switch scrutinee cases default =>
      intro word isHeld
      rw [agree scrutinee (by simp [Stmt.uses])] at isHeld
      exact takes word isHeld
  | _ => trivial

theorem determined?_congr (agree : ∀ var ∈ stmt.uses, other var = vars var) :
    determined? other stmt = determined? vars stmt := by
  cases stmt with
  | literal result value => cases value <;> rfl
  | copy result source => exact agree source (by simp [Stmt.uses])
  | binary result exp =>
      simp only [determined?, agree exp.left (by simp [Stmt.uses]),
        agree exp.right (by simp [Stmt.uses])]
  | _ => rfl

theorem Gives.congr (gives : Gives program vars stmt target content)
    (agree : ∀ var ∈ stmt.uses, other var = vars var) :
    Gives program other stmt target content := by
  have isSame := determined?_congr agree
  cases gives with
  | determined isKnown fits => exact .determined (isSame.trans isKnown) fits
  | any isFree fits allows =>
      exact .any (fun known isKnown => isFree known (isSame.symm.trans isKnown)) fits allows

variable {new : Store} {var : VarId}

/-- A statement leaves the variables alone that it does not define. -/
theorem Assigns.eq_of_ne (assigns : Assigns program vars stmt new)
    (isOther : stmt.def? ≠ some var) : new var = vars var := by
  cases assigns with
  | nothing => rfl
  | gives isDef _ =>
      rw [Function.update_of_ne]
      rintro rfl
      exact isOther isDef

/-- From variables that agree on what a statement reads, it may give the same. -/
theorem Assigns.congr (assigns : Assigns program vars stmt new)
    (agree : ∀ var ∈ stmt.uses, other var = vars var) :
    ∃ otherNew, Assigns program other stmt otherNew ∧
      ∀ var, stmt.def? = some var → otherNew var = new var := by
  cases assigns with
  | nothing noDef => exact ⟨other, .nothing noDef, fun var isDef => nomatch noDef.symm.trans isDef⟩
  | gives isDef gives =>
      refine ⟨_, .gives isDef (gives.congr agree), fun var isVar => ?_⟩
      cases isDef.symm.trans isVar
      rw [Function.update_self, Function.update_self]

end Reading

end TacAnalysis.Walk
