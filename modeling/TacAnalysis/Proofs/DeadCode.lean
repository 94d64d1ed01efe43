/-
# Removing dead code

Control follows feasible branches only, since the constants known before a node are
right about every walk that reaches it. A dead statement that a walk executes therefore
does nothing but assign a variable that is not live after it. Without the dead
statements there is a walk along the same arcs, in which the live variables hold the
same contents everywhere, so that it performs the same stores and calls and returns the
same.
-/

import TacAnalysis.DeadCode
import TacAnalysis.Proofs.Dataflow.ConstantSoundness
import TacAnalysis.Proofs.Dataflow.Liveness
import TacAnalysis.Proofs.Graph.Search
import TacAnalysis.Proofs.Resolution.Reading

namespace TacAnalysis

open Walk

/-- The method with nothing done in the place of some of its statements. -/
def MethodDef.without (method : MethodDef) (dead : List Nat) : MethodDef :=
  method.withBody (method.body.mapIdx fun index stmt => if index ∈ dead then .nop else stmt)

section Removal

variable {method : MethodDef} {dead : List Nat} {node : FlowNode} {index : Nat}

theorem stmt_without (method : MethodDef) (dead : List Nat) (index : Nat) :
    (method.without dead).stmt index = if index ∈ dead then .nop else method.stmt index := by
  rw [MethodDef.stmt, MethodDef.stmt, MethodDef.without, MethodDef.body_withBody,
    Array.getD_eq_getD_getElem?, Array.getD_eq_getD_getElem?, Array.getElem?_mapIdx]
  cases method.body[index]? with
  | none => simp
  | some stmt => rfl

/-- At a node nothing is done any more, or what was done before. -/
theorem stmtAt_without_cases (method : MethodDef) (dead : List Nat) (node : FlowNode) :
    (∃ index ∈ dead, node = .stmt index ∧ (method.without dead).flow.stmtAt node = .nop) ∨
      (method.without dead).flow.stmtAt node = method.flow.stmtAt node := by
  cases node with
  | entry => exact .inr rfl
  | exit => exact .inr rfl
  | stmt index =>
      by_cases isDead : index ∈ dead
      · exact .inl ⟨index, isDead, rfl, (stmt_without method dead index).trans (if_pos isDead)⟩
      · exact .inr ((stmt_without method dead index).trans (if_neg isDead))

theorem branches_of_onlyAssigns {stmt : Stmt} (onlyAssigns : stmt.onlyAssigns = true)
    (size : Nat) : stmt.branches index size = Stmt.nop.branches index size := by
  cases stmt with
  | literal | copy | binary => rfl
  | _ => cases onlyAssigns

/-- The arcs stay when the statements removed are executed one after the other. -/
theorem mem_arcs_without {arc : Arc FlowNode Branch} (isArc : arc ∈ method.flow.graph.arcs)
    (onlyAssign : ∀ index ∈ dead, arc.source = .stmt index →
      (method.stmt index).onlyAssigns = true) :
    arc ∈ (method.without dead).flow.graph.arcs := by
  have sameSize : (method.without dead).body.size = method.body.size := Array.size_mapIdx
  apply mem_flowArcs_iff.mpr
  rw [sameSize]
  refine (mem_flowArcs_iff.mp isArc).imp_right fun ⟨index, inBody, isSource, isStep⟩ => ?_
  refine ⟨index, inBody, isSource, ?_⟩
  show (arc.label, arc.target) ∈ ((method.without dead).stmt index).branches index method.body.size
  rw [stmt_without]
  split
  case isTrue isDead =>
      rw [← branches_of_onlyAssigns (onlyAssign index isDead isSource)]
      exact isStep
  case isFalse => exact isStep

end Removal

section Feasibility

variable {program : Program} {stmt : Stmt} {vars : Store} {fact : ConstFact} {branch : Branch}

/-- A comparison gives one or zero. -/
theorem BinOp.result_of_isCondition {op : BinOp} (isCondition : op.isCondition = true)
    (left right : Int) : op.result left right = 0 ∨ op.result left right = 1 := by
  cases op with
  | eq | ne | lt | le | gt | ge =>
      simp only [result]
      split
      · simp
      · simp
  | _ => cases isCondition

/-- A variable known to be constant holds that constant when it is read. -/
theorem exists_word_of_constant (able : Able vars stmt) (allFit : AllFit program vars)
    (areInts : ∀ var, fact.get var ≠ .undefined → program.holdsInt var = true)
    (describes : ∀ var word, program.holdsInt var = true → vars var = some (.word word) →
      fact.get var = .constant word ∨ fact.get var = .notConstant) {var : VarId} {word : Int32}
    (isUsed : var ∈ stmt.uses) (isConstant : fact.get var = .constant word) :
    vars var = some (.word word) := by
  have isInt : program.holdsInt var = true := areInts var (by simp [isConstant])
  obtain ⟨held, isHeld⟩ := exists_word_of_uses able allFit isUsed isInt
  rcases describes var held isInt isHeld with isSame | isTop
  · cases isConstant.symm.trans isSame
    exact isHeld
  · cases isConstant.symm.trans isTop

/-- A comparison of words is zero when the integers do not compare. -/
theorem BinOp.compute_eq_zero_iff {op : BinOp} (isCondition : op.isCondition = true)
    (left right : Int32) : op.compute left right = 0 ↔ op.result left.toInt right.toInt = 0 := by
  rw [compute_eq]
  rcases result_of_isCondition isCondition left.toInt right.toInt with isZero | isOne
  · rw [isZero]
    decide
  · rw [isOne]
    decide

/-- An operator gives a constant to constants only. -/
theorem BinOp.constants_of_evaluate {op : BinOp} {left right : Value} {word : Int32}
    (isConstant : op.evaluate left right = .constant word) : ∃ first second,
      left = .constant first ∧ right = .constant second ∧ word = op.compute first second := by
  unfold evaluate at isConstant
  split at isConstant
  case isTrue => cases isConstant
  case isFalse =>
      cases left with
      | constant first =>
          cases right with
          | constant second => exact ⟨first, second, rfl, rfl, (Value.constant.inj isConstant).symm⟩
          | _ => cases isConstant
      | _ => cases right <;> cases isConstant

/-- The branch taken is one that the constants allow. -/
theorem mayTake_of_takes (able : Able vars stmt) (allFit : AllFit program vars)
    (compares : stmt.Compares)
    (areInts : ∀ var, fact.get var ≠ .undefined → program.holdsInt var = true)
    (describes : ∀ var word, program.holdsInt var = true → vars var = some (.word word) →
      fact.get var = .constant word ∨ fact.get var = .notConstant)
    (takes : Takes vars stmt branch) : stmt.mayTake fact branch = true := by
  have isWord {var : VarId} {word : Int32} (isUsed : var ∈ stmt.uses)
      (isConstant : fact.get var = .constant word) : vars var = some (.word word) :=
    exists_word_of_constant able allFit areInts describes isUsed isConstant
  cases stmt with
  | branch cond target =>
      simp only [Stmt.mayTake]
      split
      case h_1 value isValue =>
          obtain ⟨left, right, isLeft, isRight, rfl⟩ := BinOp.constants_of_evaluate isValue
          have isTaken := takes left right (isWord (by simp [Stmt.uses]) isLeft)
            (isWord (by simp [Stmt.uses]) isRight)
          rw [isTaken, decide_eq_true_eq]
          simp only [BinOp.compute_eq_zero_iff compares]
      case h_2 => rfl
  | switch scrutinee cases default =>
      simp only [Stmt.mayTake]
      split
      case h_1 value isValue =>
          have isTaken := takes value (isWord (by simp [Stmt.uses]) isValue)
          rw [isTaken, decide_eq_true_eq]
          simp only [List.mem_map, List.any_eq_true, decide_eq_true_eq]
      case h_2 => rfl
  | _ => rfl

variable {flow : ControlFlow} {constants : FlowNode → ConstFact}

/-- The nodes found are those that open branches lead to from the entry. -/
theorem mem_feasibleNodes {node : FlowNode} : node ∈ flow.feasibleNodes constants ↔
    Relation.ReflTransGen (flow.openLinks constants).Leads .entry node :=
  Graph.mem_search

theorem entry_mem_feasibleNodes : .entry ∈ flow.feasibleNodes constants :=
  mem_feasibleNodes.mpr .refl

/-- What a branch that constants allow leads to from a node control can reach can be reached. -/
theorem target_mem_feasibleNodes {arc : Arc FlowNode Branch} (isArc : arc ∈ flow.graph.arcs)
    (isReached : arc.source ∈ flow.feasibleNodes constants)
    (mayTake : (flow.stmtAt arc.source).mayTake (constants arc.source) arc.label = true) :
    arc.target ∈ flow.feasibleNodes constants := by
  have isOpen := ControlFlow.mem_openArcs.mpr ⟨isArc, rfl, mayTake⟩
  exact mem_feasibleNodes.mpr ((mem_feasibleNodes.mp isReached).tail (List.mem_map_of_mem isOpen))

/-- The dead statements are those that control cannot reach, and those that assign a variable
that is not live and do nothing else. -/
theorem mem_deadStatements {live : FlowNode → SetFact VarId} {index : Nat} :
    index ∈ flow.deadStatements constants live ↔ index < flow.method.body.size ∧
      (.stmt index ∉ flow.feasibleNodes constants ∨
        (flow.method.stmt index).onlyAssigns = true ∧
          ∃ target, (flow.method.stmt index).def? = some target ∧ target ∉ live (.stmt index)) := by
  rw [ControlFlow.deadStatements, List.mem_filter, List.mem_range]
  simp [ControlFlow.isUselessAt, ControlFlow.stmtAt, Option.any_eq_true,
    ← SetFact.contains_iff_mem]

end Feasibility

section Analysis

variable {program : Program} {id : MethodId} {steps : Nat} {dead : List Nat}

/-- The dead statements are found from the constants and the live variables of the method. -/
theorem exists_of_deadCode (areDead : program.deadCode steps id = .ok dead) :
    ∃ constants live, program.propagateConstants steps id = .ok constants ∧
      (program.methodDef id).liveVariables steps = .ok live ∧
      dead = (program.methodDef id).flow.deadStatements constants.before.get live.after.get := by
  obtain ⟨flow, isFlow, areDead⟩ := Resolved.bind_eq_ok.mp areDead
  obtain ⟨constants, areConstants, areDead⟩ := Resolved.bind_eq_ok.mp areDead
  obtain ⟨live, areLive, isPure⟩ := Resolved.bind_eq_ok.mp areDead
  obtain ⟨hasBody, rfl⟩ := ControlFlow.ofMethod_eq_ok_iff.mp isFlow
  cases isPure
  refine ⟨constants, live, ?_, ?_, rfl⟩
  · rw [Program.propagateConstants_eq_forward hasBody, areConstants]
  · rw [MethodDef.liveVariables, isFlow]
    exact areLive

theorem backward_of_liveVariables {method : MethodDef} {live : NodeFacts FlowNode (SetFact VarId)}
    (areLive : method.liveVariables steps = .ok live) :
    liveAnalysis.backward method.flow steps = .ok live := by
  obtain ⟨flow, isFlow, areLive⟩ := Resolved.bind_eq_ok.mp areLive
  obtain ⟨-, rfl⟩ := ControlFlow.ofMethod_eq_ok_iff.mp isFlow
  exact areLive

end Analysis

namespace Walk

variable {program : Program} {method : MethodDef} {dead : List Nat} {steps : Nat}
  {live : NodeFacts FlowNode (SetFact VarId)} {arc : Arc FlowNode Branch}
  {state next other : State}

/-- Stores, calls and returns. -/
def hasEffect : Stmt → Bool
  | .storeField _ _ _ | .storeArray _ _ _ | .call _ | .ret _ => true
  | _ => false

/-- The store, call or return that is about to be executed, with the contents that it
reads. -/
def performed? (method : MethodDef) (state : State) : Option (Stmt × List (Option Content)) :=
  let stmt := method.flow.stmtAt state.node
  if hasEffect stmt then some (stmt, stmt.uses.map state.vars) else none

/-- A walk through a method without some statements is where another one is in the whole
method: at the same node, the live variables hold the same, and the same is performed. -/
structure Mirrors (method : MethodDef) (dead : List Nat)
    (live : NodeFacts FlowNode (SetFact VarId)) (state other : State) : Prop where
  node : other.node = state.node
  vars : ∀ var ∈ live.before.get state.node, other.vars var = state.vars var
  performed : performed? (method.without dead) other = performed? method state

/-- If the statement about to be executed is removed, it only assigns a variable that is not
live. -/
def Spares (method : MethodDef) (dead : List Nat) (live : NodeFacts FlowNode (SetFact VarId))
    (state : State) : Prop :=
  ∀ index ∈ dead, state.node = .stmt index → (method.stmt index).onlyAssigns = true ∧
    ∃ target, (method.stmt index).def? = some target ∧ target ∉ live.after.get state.node

/-- What is live where an arc leads is live after its source. -/
theorem mem_after_of_step (areLive : liveAnalysis.backward method.flow steps = .ok live)
    (isNode : state.node ∈ method.flow.graph.nodes)
    (isStep : StepAlong program method arc state next) {var : VarId}
    (isLive : var ∈ live.before.get next.node) : var ∈ live.after.get state.node := by
  have isInside : state.node ≠ .exit := isStep.source ▸ source_ne_exit isStep.isArc
  refine (mem_after_iff areLive isNode isInside).mpr ⟨next.node, ?_, isLive⟩
  exact (Digraph.mem_successors _).mpr ⟨arc, isStep.isArc, isStep.source, isStep.target.symm⟩

/-- A step is mirrored by one that leaves the statement out, or executes the same statement. -/
theorem exists_step_without (areLive : liveAnalysis.backward method.flow steps = .ok live)
    (isNode : state.node ∈ method.flow.graph.nodes) (spares : Spares method dead live state)
    (sameNode : other.node = state.node)
    (agree : ∀ var ∈ live.before.get state.node, other.vars var = state.vars var)
    (isStep : StepAlong program method arc state next) :
    ∃ otherNext, StepAlong program (method.without dead) arc other otherNext ∧
      otherNext.node = next.node ∧
      ∀ var ∈ live.before.get next.node, otherNext.vars var = next.vars var := by
  have isSource : arc.source = other.node := isStep.source.trans sameNode.symm
  have isArc : arc ∈ (method.without dead).flow.graph.arcs :=
    mem_arcs_without isStep.isArc fun index isDead isStmt =>
      (spares index isDead (isStep.source.symm.trans isStmt)).1
  have sameOthers {var : VarId} (isLive : var ∈ live.after.get state.node)
      (isOther : (method.flow.stmtAt state.node).def? ≠ some var) :
      next.vars var = other.vars var := by
    rw [isStep.assigns.eq_of_ne isOther]
    exact (agree var ((mem_before_iff areLive isNode).mpr (.inr ⟨isLive, isOther⟩))).symm
  rcases stmtAt_without_cases method dead state.node with
    ⟨index, isDead, isStmt, isNop⟩ | sameStmt
  · rw [← sameNode] at isNop
    obtain ⟨-, target, isDef, isUnread⟩ := spares index isDead isStmt
    refine ⟨⟨arc.target, other.vars⟩, ⟨isArc, isSource, rfl, ?_, ?_, ?_⟩, isStep.target.symm, ?_⟩
    · exact isNop ▸ ⟨nofun, nofun⟩
    · exact isNop ▸ trivial
    · exact isNop ▸ .nothing rfl
    · intro var isLive
      have isAfter := mem_after_of_step areLive isNode isStep isLive
      refine (sameOthers isAfter fun isVar => ?_).symm
      rw [isStmt] at isVar
      cases isDef.symm.trans isVar
      exact isUnread isAfter
  · have sameStmt := (congrArg _ sameNode).trans sameStmt
    have sameUses (var : VarId) (isUsed : var ∈ (method.flow.stmtAt state.node).uses) :
        other.vars var = state.vars var :=
      agree var ((mem_before_iff areLive isNode).mpr (.inl isUsed))
    obtain ⟨vars, assigns, sameDefined⟩ := isStep.assigns.congr sameUses
    refine ⟨⟨arc.target, vars⟩, ⟨isArc, isSource, rfl, ?_, ?_, ?_⟩, isStep.target.symm, ?_⟩
    · exact sameStmt ▸ isStep.able.congr sameUses
    · exact sameStmt ▸ isStep.takes.congr sameUses
    · exact sameStmt ▸ assigns
    · intro var isLive
      have isAfter := mem_after_of_step areLive isNode isStep isLive
      by_cases isDefined : (method.flow.stmtAt state.node).def? = some var
      · exact sameDefined var isDefined
      · exact (assigns.eq_of_ne isDefined).trans (sameOthers isAfter isDefined).symm

/-- Where the live variables hold the same, the same is performed. -/
theorem mirrors_of_agree (areLive : liveAnalysis.backward method.flow steps = .ok live)
    (isNode : state.node ∈ method.flow.graph.nodes) (spares : Spares method dead live state)
    (sameNode : other.node = state.node)
    (agree : ∀ var ∈ live.before.get state.node, other.vars var = state.vars var) :
    Mirrors method dead live state other := by
  refine ⟨sameNode, agree, ?_⟩
  rw [performed?, performed?, sameNode]
  rcases stmtAt_without_cases method dead state.node with
    ⟨index, isDead, isStmt, isNop⟩ | sameStmt
  · have noEffect : hasEffect (method.flow.stmtAt state.node) = false := by
      have onlyAssigns := (spares index isDead isStmt).1
      rw [isStmt]
      show hasEffect (method.stmt index) = false
      cases isShape : method.stmt index with
      | storeField | storeArray | call | ret =>
          rw [isShape] at onlyAssigns
          cases onlyAssigns
      | _ => rfl
    rw [isNop, noEffect]
    rfl
  · have sameContents : (method.flow.stmtAt state.node).uses.map other.vars =
        (method.flow.stmtAt state.node).uses.map state.vars :=
      List.map_congr_left fun var isUsed =>
        agree var ((mem_before_iff areLive isNode).mpr (.inl isUsed))
    rw [sameStmt, sameContents]

section Runs

variable {id : MethodId} {constants : NodeFacts FlowNode ConstFact} {text : String}

/-- Walks stay among the nodes that control can reach through the branches that constants
allow. -/
theorem mem_feasibleNodes_of_run (isProgram : Program.ofText text = .ok program)
    (areConstants : program.propagateConstants steps id = .ok constants)
    (areInts : ∀ stmt ∈ (program.methodDef id).body, ∀ target, ¬ Converts program stmt target)
    {run : List State} (isRun : Run program (program.methodDef id) run) :
    ∀ state ∈ run,
      state.node ∈ (program.methodDef id).flow.feasibleNodes constants.before.get := by
  have areInside := Program.jumpsInside_ofText isProgram id
  have noConversion (node : FlowNode) (target : VarId) :
      ¬ Converts program ((program.methodDef id).flow.stmtAt node) target := by
    rcases (program.methodDef id).flow.stmtAt_mem node with isNop | isMember
    · rw [isNop]
      exact fun converts => converts
    · exact areInts _ isMember target
  have describes {run : List State} (isRun : Run program (program.methodDef id) run) :=
    describes_of_run areConstants areInside
      (fun _ isThis => Program.holdsInt_this_ofText isProgram isThis)
      (fun _ state _ _ target converts => absurd converts (noConversion state.node target)) isRun
  have isForward := Program.forward_of_propagateConstants areConstants
  induction isRun with
  | start starts =>
      intro state isState
      rw [List.mem_singleton.mp isState, starts.node]
      exact entry_mem_feasibleNodes
  | @step state next past isRun isStep ih =>
      intro other isState
      rcases List.mem_cons.mp isState with rfl | isPast
      · cases isStep with
        | @mk arc vars isArc isSource able takes assigns =>
            have compares : ((program.methodDef id).flow.stmtAt state.node).Compares := by
              rcases (program.methodDef id).flow.stmtAt_mem state.node with isNop | isMember
              · rw [isNop]
                trivial
              · exact Program.compares_ofText isProgram id _ isMember
            have isNode := isRun.mem_nodes areInside state List.mem_cons_self
            have isAbout := (program.keeps_constantAnalysis _).before isForward isNode
            have mayTake := mayTake_of_takes able (isRun.allFit state List.mem_cons_self) compares
              (fun var isKnown => (List.mem_filter.mp (isAbout.mem var isKnown)).2)
              (describes isRun state List.mem_cons_self) takes
            have isReached := ih state List.mem_cons_self
            rw [← isSource] at mayTake isReached
            exact target_mem_feasibleNodes isArc isReached mayTake
      · exact ih other isPast

/-- The dead statements that a walk executes only assign variables that are not live. -/
theorem spares_of_run (live : NodeFacts FlowNode (SetFact VarId))
    (isProgram : Program.ofText text = .ok program)
    (areConstants : program.propagateConstants steps id = .ok constants)
    (areInts : ∀ stmt ∈ (program.methodDef id).body, ∀ target, ¬ Converts program stmt target)
    {run : List State} (isRun : Run program (program.methodDef id) run) :
    ∀ state ∈ run, Spares (program.methodDef id)
      ((program.methodDef id).flow.deadStatements constants.before.get live.after.get) live
      state := by
  intro state isState index isDead isStmt
  have isReached := mem_feasibleNodes_of_run isProgram areConstants areInts isRun state isState
  rw [isStmt] at isReached ⊢
  rcases (mem_deadStatements.mp isDead).2 with isUnreached | isUseless
  · exact absurd isReached isUnreached
  · exact isUseless

/-- A walk is mirrored by one along the same arcs, when it executes no removed statement that
does more than to assign a variable that is not live. -/
theorem exists_run_without (areLive : liveAnalysis.backward method.flow steps = .ok live)
    (areInside : method.JumpsInside) {arcs : List (Arc FlowNode Branch)} {run : List State}
    (isRun : RunAlong program method arcs run)
    (spare : ∀ state ∈ run, Spares method dead live state) :
    ∃ others, RunAlong program (method.without dead) arcs others ∧
      List.Forall₂ (Mirrors method dead live) run others := by
  have areNodes := (exists_runAlong_iff.mp ⟨arcs, isRun⟩).mem_nodes areInside
  induction isRun with
  | @start state starts =>
      refine ⟨[state], .start ⟨starts.node, starts.entryVars, starts.others⟩, .cons ?_ .nil⟩
      exact mirrors_of_agree areLive (areNodes state List.mem_cons_self)
        (spare state List.mem_cons_self) rfl fun _ _ => rfl
  | @step arcs arc state next past isRun isStep ih =>
      obtain ⟨isNode, areNodes⟩ := List.forall_mem_cons.mp areNodes
      obtain ⟨spares, spare⟩ := List.forall_mem_cons.mp spare
      obtain ⟨others, isOtherRun, mirror⟩ := ih spare areNodes
      cases mirror with
      | @cons _ other _ otherPast mirrors mirror =>
          obtain ⟨otherNext, isOtherStep, sameNode, agree⟩ := exists_step_without areLive
            (areNodes state List.mem_cons_self) (spare state List.mem_cons_self) mirrors.node
            mirrors.vars isStep
          refine ⟨otherNext :: other :: otherPast, .step isOtherRun isOtherStep, .cons ?_ ?_⟩
          · exact mirrors_of_agree areLive isNode spares sameNode agree
          · exact .cons mirrors mirror

/-- Without the dead statements, a method in which no integer is made of other variables has a
walk along the same arcs as any walk of the whole method. The live variables hold the same at
every point, and the same stores, calls and returns are performed. None of these, no jump, and
nothing that allocates, loads, casts or divides is dead when it is executed. -/
theorem exists_run_without_dead (isProgram : Program.ofText text = .ok program)
    (areDead : program.deadCode steps id = .ok dead)
    (areInts : ∀ stmt ∈ (program.methodDef id).body, ∀ target, ¬ Converts program stmt target) :
    ∃ live, (program.methodDef id).liveVariables steps = .ok live ∧
      ∀ arcs run, RunAlong program (program.methodDef id) arcs run →
        (∃ others, RunAlong program ((program.methodDef id).without dead) arcs others ∧
          List.Forall₂ (Mirrors (program.methodDef id) dead live) run others) ∧
        ∀ state ∈ run, ∀ index ∈ dead, state.node = .stmt index →
          (∃ target value, (program.methodDef id).stmt index = .literal target value) ∨
          (∃ target source, (program.methodDef id).stmt index = .copy target source) ∨
          ∃ target exp, (program.methodDef id).stmt index = .binary target exp ∧
            exp.op.canThrow = false := by
  obtain ⟨constants, live, areConstants, areLive, rfl⟩ := exists_of_deadCode areDead
  refine ⟨live, areLive, fun arcs run isRun => ?_⟩
  have spare := spares_of_run live isProgram areConstants areInts
    (exists_runAlong_iff.mp ⟨arcs, isRun⟩)
  constructor
  · exact exists_run_without (backward_of_liveVariables areLive)
      (Program.jumpsInside_ofText isProgram id) isRun spare
  · intro state isState index isDead isStmt
    have onlyAssigns := (spare state isState index isDead isStmt).1
    cases isShape : (program.methodDef id).stmt index with
    | literal target value => exact .inl ⟨target, value, rfl⟩
    | copy target source => exact .inr (.inl ⟨target, source, rfl⟩)
    | binary target exp =>
        rw [isShape] at onlyAssigns
        exact .inr (.inr ⟨target, exp, rfl, by simpa [Stmt.onlyAssigns] using onlyAssigns⟩)
    | _ =>
        rw [isShape] at onlyAssigns
        cases onlyAssigns

/-- Constants decide a jump, and a sum and a product are never read. -/
def decidedText : String := "class Main { static method main(int n) : int { var int x, y, z;
  x = 1; y = n + x; z = x; if z == x goto D; y = n / x; return y;
  D: y = x; z = n * n; return y; } }"

/-- The sum, the product and the way that the jump never takes are dead. -/
theorem exists_run_without_dead_decided : ∃ program, Program.ofText decidedText = .ok program ∧
    program.deadCode 20 0 = .ok [1, 4, 5, 7] ∧
    (∀ stmt ∈ (program.methodDef 0).body, ∀ target, ¬ Converts program stmt target) ∧
    ∃ live, (program.methodDef 0).liveVariables 20 = .ok live ∧
      ∀ arcs run, RunAlong program (program.methodDef 0) arcs run →
        (∃ others, RunAlong program ((program.methodDef 0).without [1, 4, 5, 7]) arcs others ∧
          List.Forall₂ (Mirrors (program.methodDef 0) [1, 4, 5, 7] live) run others) ∧
        ∀ state ∈ run, ∀ index ∈ [1, 4, 5, 7], state.node = .stmt index →
          (∃ target value, (program.methodDef 0).stmt index = .literal target value) ∨
          (∃ target source, (program.methodDef 0).stmt index = .copy target source) ∨
          ∃ target exp, (program.methodDef 0).stmt index = .binary target exp ∧
            exp.op.canThrow = false := by
  have passes : (Program.ofText decidedText).toOption.any (fun program =>
      (program.deadCode 20 0).toOption.any fun dead => decide (dead = [1, 4, 5, 7] ∧
        ∀ stmt ∈ (program.methodDef 0).body, ∀ target ∈ stmt.def?,
          ¬ Converts program stmt target)) = true := by decide +kernel
  obtain ⟨program, isProgram, ends⟩ := exists_of_test passes
  obtain ⟨dead, areDead, holds⟩ := exists_of_test ends
  obtain ⟨rfl, areInts⟩ := of_decide_eq_true holds
  have noConversion : ∀ stmt ∈ (program.methodDef 0).body, ∀ target,
      ¬ Converts program stmt target := by
    intro stmt isMember target converts
    exact areInts stmt isMember target converts.def?_eq.1 converts
  exact ⟨program, isProgram, areDead, noConversion,
    exists_run_without_dead isProgram areDead noConversion⟩

end Runs

end Walk

end TacAnalysis
