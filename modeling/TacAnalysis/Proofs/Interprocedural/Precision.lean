/-
# Precision of constant propagation across methods

Constant propagation across methods knows more of the parameters of a method and of the results
of its calls than constant propagation in the method by itself, for which they are not constant.
Each of the two is compared with what the other one knows. The constants that one finds are
known to the other, unless it knows a value not to be constant, and apart from the values that
circulate after a division by zero, the values found across methods are below the others. An
entry method that calls nothing is seen by both in the same way.
-/

import TacAnalysis.Proofs.Interprocedural.Comparison
import TacAnalysis.Proofs.Interprocedural.Constants

namespace TacAnalysis

namespace Program

variable {program : Program} {calls : CallGraph Site MethodId} {id callee : MethodId}
  {under : Value → Value → Prop} {site : Site} {fact : ConstFact} {arc : Arc FlowNode Branch}

/-- A method as constant propagation in it sees it. -/
def ownView (program : Program) (id : MethodId) : View FlowNode where
  method := program.methodDef id
  equations := program.constantEquations id
  place := fun node => node
  out _ fact := fact

/-- What is left of a fact on the way to the next nodes of the method: without the result of a
linked call, which comes from the methods called. -/
def keptFact (program : Program) (calls : CallGraph Site MethodId) (place : MethodNode)
    (fact : ConstFact) : ConstFact :=
  ((InterFlow.ofCallGraph program calls).siteAt? place).elim fact (program.bypassFact · fact)

theorem keptFact_of_none {place : MethodNode}
    (isPlain : (InterFlow.ofCallGraph program calls).siteAt? place = none) :
    program.keptFact calls place fact = fact := by
  rw [keptFact, isPlain, Option.elim_none]

theorem keptFact_of_some {place : MethodNode}
    (isSite : (InterFlow.ofCallGraph program calls).siteAt? place = some site) :
    program.keptFact calls place fact = program.bypassFact site fact := by
  rw [keptFact, isSite, Option.elim_some]

/-- A method as constant propagation across methods sees it. -/
def sharedView (program : Program) (calls : CallGraph Site MethodId) (id : MethodId) :
    View MethodNode where
  method := program.methodDef id
  equations := program.interConstantAnalysis.equations (.ofCallGraph program calls)
  place node := ⟨id, node⟩
  out node fact := program.keptFact calls ⟨id, node⟩ fact

section Entering

variable (comparison : Value.IsComparison under)

include comparison

theorem under_unknownArguments (method : MethodDef) (var : VarId) :
    under ((program.unknownArguments method).get var)
      ((program.unknownArguments method).get var) := by
  rw [get_unknownArguments]
  split
  · exact comparison.notConstant _
  · exact comparison.undefined _

/-- A call tells no more of the parameters of a method than that nothing is known of them. -/
theorem under_enterFact (var : VarId) : under ((program.enterFact site callee fact).get var)
    ((program.unknownArguments (program.methodDef callee)).get var) := by
  rw [enterFact]
  refine List.foldlRecOn (motive := fun entered => under (ConstFact.get entered var) _) _ _
    (comparison.undefined _) ?_
  intro entered isUnder binding isBinding
  obtain ⟨isBound, isInt⟩ := List.mem_filter.mp isBinding
  rw [ConstFact.get_set]
  split
  case isTrue isParam =>
      have inParams : var ∈ (program.methodDef callee).params := by
        rw [bindings] at isBound
        split at isBound
        · exact isParam ▸ (List.of_mem_zip isBound).2
        · cases isBound
      rw [get_unknownArguments, if_pos ⟨inParams, isParam ▸ isInt⟩]
      exact comparison.notConstant _
  case isFalse => exact isUnder

end Entering

section Shared

variable {innerSteps : Nat} {inner : NodeFacts FlowNode ConstFact}
  (comparison : Value.IsComparison under) (isGraph : program.IsHierarchyGraph calls)
  (areInside : (program.methodDef id).JumpsInside)
  (areInner : program.propagateConstants innerSteps id = .ok inner)

include comparison isGraph areInside areInner

/-- In a method by itself, the result of a call is not constant. -/
theorem under_leaveFact
    (isCallee : callee ∈ (InterFlow.ofCallGraph program calls).calleesOf site)
    (isOwn : site.method = id) (isArc : arc ∈ (program.methodDef id).flow.graph.arcs)
    (isSource : arc.source = .stmt site.index) (var : VarId) :
    under ((program.leaveFact site callee fact).get var)
      ((inner.before.get arc.target).get var) := by
  subst isOwn
  obtain ⟨-, invoke, isCall, -⟩ := (InterFlow.mem_calleesOf_hierarchy isGraph).mp isCallee
  rw [get_leaveFact]
  split
  case isTrue isResult =>
      have isTop := constantTransfer_le_before areInner areInside isArc
        (MethodDef.source_mem_nodes isArc) var
      rw [isSource] at isTop
      change (program.constantTransfer (program.stmt site) _).get var ≤ _ at isTop
      rw [get_constantTransfer, if_pos isResult, isCall] at isTop
      exact comparison.trans (comparison.notConstant _) isTop
  case isFalse => exact comparison.undefined _

/-- What enters a node of a method compares when what leaves the nodes leading to it does. -/
theorem under_along {result : MethodNode → ConstFact} {node : FlowNode} {var : VarId}
    {step : Arc MethodNode Transfer} (isStep : (InterFlow.ofCallGraph program calls).IsStep step)
    (isTarget : step.target = ⟨id, node⟩)
    (areUnder : ∀ arc ∈ (program.methodDef id).flow.graph.arcs, arc.target = node →
      under ((program.keptFact calls ⟨id, arc.source⟩ (result ⟨id, arc.source⟩)).get var)
        ((inner.before.get node).get var)) :
    under ((program.interConstantAnalysis.along step.label (result step.source)).get var)
      ((inner.before.get node).get var) := by
  cases isStep with
  | @within method arc isMethod isArc isPlain =>
      obtain ⟨rfl, rfl⟩ := MethodNode.mk.inj isTarget
      have isUnder := areUnder arc isArc rfl
      rwa [keptFact_of_none isPlain] at isUnder
  | @bypass site arc isArc isSource isLinked =>
      obtain ⟨rfl, rfl⟩ := MethodNode.mk.inj isTarget
      have isSite := InterFlow.siteAt?_eq_some_iff.mpr ⟨rfl, isLinked⟩
      have isUnder := areUnder arc isArc rfl
      rw [isSource, keptFact_of_some isSite] at isUnder
      exact isUnder
  | @enter site callee isCallee =>
      obtain ⟨rfl, rfl⟩ := MethodNode.mk.inj isTarget
      rw [before_entry areInner]
      exact under_enterFact comparison var
  | @leave site callee arc isArc isSource isCallee =>
      obtain ⟨rfl, rfl⟩ := MethodNode.mk.inj isTarget
      exact under_leaveFact comparison isGraph areInside areInner isCallee rfl isArc isSource var

/-- Constant propagation across methods can be compared with what is known in a method by
itself. -/
theorem follows_sharedView (isMethod : id ∈ (InterFlow.ofCallGraph program calls).methods) :
    (program.sharedView calls id).Follows program under inner.before.get where
  comparison
  unknown rounds node var notInt := by
    have keeps := (program.keeps_interConstantAnalysis (.ofCallGraph program calls)).equations
    exact get_eq_undefined (keeps.join fun inflow _ => keeps.result rounds inflow.1)
      (fun _ isIn => mem_intVars.mp isIn) notInt
  initial node := by
    show program.keptFact calls ⟨id, node⟩ .empty = .empty
    cases isSite : (InterFlow.ofCallGraph program calls).siteAt? ⟨id, node⟩ with
    | none => exact keptFact_of_none isSite
    | some site =>
        rw [keptFact_of_some isSite, bypassFact]
        cases (program.stmt site).def? <;> rfl
  join rounds node isNode var areUnder := by
    have keeps := (program.keeps_interConstantAnalysis (.ofCallGraph program calls)).equations
    apply Equations.under_join comparison rfl keeps (keeps.result rounds)
    · show under (((program.interConstantAnalysis.equations _).seed ⟨id, node⟩).get var) _
      rw [InterAnalysis.seed_eq]
      split
      case isTrue isEntry =>
          rw [show node = .entry from isEntry.1, before_entry areInner]
          exact under_unknownArguments comparison _ var
      case isFalse => exact comparison.undefined _
    · intro inflow isInflow
      obtain ⟨step, isStep, isTarget, rfl⟩ := InterAnalysis.mem_inflow.mp isInflow
      exact under_along comparison isGraph areInside areInner
        (InterFlow.mem_arcs_iff.mp isStep) isTarget areUnder
  transfer rounds arc isArc var isUnder := by
    have isKnown := constantTransfer_le_before areInner areInside isArc
      (MethodDef.source_mem_nodes isArc) var
    have goesOn := comparison.trans isUnder isKnown
    show under ((program.keptFact calls ⟨id, arc.source⟩ (program.interConstantAnalysis.transferAt
      (.ofCallGraph program calls) ⟨id, arc.source⟩ _)).get var) _
    rw [InterAnalysis.transferAt_eq, InterFlow.isCallAt]
    cases isSite : (InterFlow.ofCallGraph program calls).siteAt? ⟨id, arc.source⟩ with
    | none =>
        rw [keptFact_of_none isSite, InterFlow.stmtAt_eq isMethod]
        exact goesOn
    | some site =>
        -- The call lets the fact through, apart from its result.
        obtain ⟨isPlace, isLinked⟩ := InterFlow.siteAt?_eq_some_iff.mp isSite
        obtain ⟨rfl, isSource⟩ := MethodNode.mk.inj isPlace
        rw [keptFact_of_some isSite]
        show under ((program.bypassFact site _).get var) _
        rw [get_bypassFact]
        split
        case isTrue => exact comparison.undefined _
        case isFalse notResult =>
            rw [isSource] at goesOn ⊢
            change under ((program.constantTransfer (program.stmt site) _).get var) _ at goesOn
            rw [get_constantTransfer, if_neg fun isBoth => notResult isBoth.1] at goesOn
            exact goesOn

end Shared

section Own

variable {steps : Nat} {facts : NodeFacts MethodNode ConstFact}

theorem keeps_ownView (program : Program) (id : MethodId) :
    (program.ownView id).equations.Keeps
      (ConstFact.About (program.trackedVars (program.methodDef id))) :=
  (program.keeps_constantAnalysis (program.methodDef id)).directed

theorem unknown_ownView {var : VarId} (rounds : Nat) (node : FlowNode)
    (notInt : program.holdsInt var = false) :
    ((program.ownView id).joined rounds node).get var = .undefined := by
  have keeps := program.keeps_ownView id
  exact get_eq_undefined (keeps.join fun inflow _ => keeps.result rounds inflow.1)
    (fun _ isTracked => (List.mem_filter.mp isTracked).2) notInt

/-- What a call makes of a fact compares with what is known after the call when it compares with
what the call makes of what is known before: nothing is known of the result, and the call lets
everything else through. -/
theorem under_before_of_call (comparison : Value.IsComparison under)
    (isTop : ∀ value, under .notConstant value) (areFacts : program.interConstantAnalysis.analyze
      (.ofCallGraph program calls) steps = .ok facts)
    (areInside : (program.methodDef site.method).JumpsInside)
    (isCallee : callee ∈ (InterFlow.ofCallGraph program calls).calleesOf site) {invoke : Invoke}
    (isCall : program.stmt site = .call invoke)
    (isArc : arc ∈ (program.methodDef site.method).flow.graph.arcs)
    (isSource : arc.source = .stmt site.index) {var : VarId}
    (unknown : program.holdsInt var = false → fact.get var = .undefined)
    (isUnder : under ((program.constantTransfer (program.stmt site) fact).get var)
      ((program.constantTransfer (program.stmt site)
        (facts.before.get ⟨site.method, .stmt site.index⟩)).get var)) :
    under ((program.constantTransfer (program.stmt site) fact).get var)
      ((facts.before.get ⟨site.method, arc.target⟩).get var) := by
  rw [get_constantTransfer] at isUnder ⊢
  rw [get_constantTransfer] at isUnder
  split at isUnder
  case isTrue isResult =>
      rw [if_pos isResult, isCall]
      exact isTop _
  case isFalse notResult =>
      rw [if_neg notResult]
      by_cases isDef : (program.stmt site).def? = some var
      · rw [unknown (Bool.eq_false_iff.mpr fun isInt => notResult ⟨isDef, isInt⟩)]
        exact comparison.undefined _
      · have isAround := bypassFact_le_before areFacts areInside isCallee isArc isSource var
        change (program.bypassFact site _).get var ≤ _ at isAround
        rw [get_bypassFact, if_neg isDef] at isAround
        exact comparison.trans isUnder isAround

/-- Constant propagation in a method can be compared with what is known of it across methods
by relations that not constant has to everything, and by the others in an entry method without
linked calls. -/
theorem follows_ownView (comparison : Value.IsComparison under)
    (isGraph : program.IsHierarchyGraph calls) (areInside : (program.methodDef id).JumpsInside)
    (areFacts : program.interConstantAnalysis.analyze (.ofCallGraph program calls) steps =
      .ok facts)
    (isMethod : id ∈ (InterFlow.ofCallGraph program calls).methods)
    (isCovered : (∀ value, under .notConstant value) ∨ id ∈ calls.entries ∧
      ∀ node, (InterFlow.ofCallGraph program calls).siteAt? ⟨id, node⟩ = none) :
    (program.ownView id).Follows program under fun node => facts.before.get ⟨id, node⟩ where
  comparison
  unknown rounds node _ := unknown_ownView rounds node
  initial _ := rfl
  join rounds node isNode var areUnder := by
    have keeps := program.keeps_ownView id
    apply Equations.under_join comparison rfl keeps (keeps.result rounds)
    · show under (ConstFact.get (if node = .entry then
        program.unknownArguments (program.methodDef id) else .empty) var) _
      split
      case isTrue isEntry =>
          rw [isEntry]
          rcases isCovered with isTop | ⟨isStart, -⟩
          · rw [get_unknownArguments]
            split
            · exact isTop _
            · exact comparison.undefined _
          · exact comparison.trans (under_unknownArguments comparison _ var)
              (unknownArguments_le_before areFacts isStart isMethod var)
      case isFalse => exact comparison.undefined _
    · intro inflow isInflow
      obtain ⟨-, source, isSource, rfl⟩ := Analysis.mem_inflow_directed.mp isInflow
      obtain ⟨arc, isArc, isTarget, rfl⟩ := (Digraph.mem_predecessors _).mp isSource
      exact areUnder arc isArc isTarget
  transfer rounds arc isArc var isUnder := by
    show under ((program.constantTransfer ((program.methodDef id).flow.stmtAt arc.source)
      _).get var) ((facts.before.get ⟨id, arc.target⟩).get var)
    cases isSite : (InterFlow.ofCallGraph program calls).siteAt? ⟨id, arc.source⟩ with
    | none =>
        exact comparison.trans isUnder
          (constantTransfer_le_interBefore areFacts areInside isMethod isArc isSite var)
    | some site =>
        obtain ⟨isPlace, isLinked⟩ := InterFlow.siteAt?_eq_some_iff.mp isSite
        obtain ⟨rfl, isSource⟩ := MethodNode.mk.inj isPlace
        obtain ⟨callee, isCallee⟩ := List.exists_mem_of_ne_nil _ isLinked
        obtain ⟨-, invoke, isCall, -⟩ := (InterFlow.mem_calleesOf_hierarchy isGraph).mp isCallee
        have isTop : ∀ value, under .notConstant value :=
          isCovered.resolve_right fun isEntry => nomatch (isEntry.2 _).symm.trans isSite
        rw [isSource] at isUnder ⊢
        exact under_before_of_call comparison isTop areFacts areInside isCallee isCall isArc
          isSource (unknown_ownView rounds _) isUnder

end Own

section Precision

variable {steps innerSteps : Nat} {facts : NodeFacts MethodNode ConstFact}
  {inner : NodeFacts FlowNode ConstFact} {node : FlowNode} {text : String} {var : VarId}

/-- A method that calls nothing has no linked calls. -/
theorem siteAt?_eq_none (isGraph : program.IsHierarchyGraph calls)
    (noCalls : ∀ stmt ∈ (program.methodDef id).body, stmt.invoke? = none) (node : FlowNode) :
    (InterFlow.ofCallGraph program calls).siteAt? ⟨id, node⟩ = none := by
  apply Option.eq_none_iff_forall_ne_some.mpr
  intro site isSite
  obtain ⟨isPlace, isLinked⟩ := InterFlow.siteAt?_eq_some_iff.mp isSite
  obtain ⟨rfl, -⟩ := MethodNode.mk.inj isPlace
  obtain ⟨callee, isCallee⟩ := List.exists_mem_of_ne_nil _ isLinked
  obtain ⟨-, invoke, isCall, -⟩ := (InterFlow.mem_calleesOf_hierarchy isGraph).mp isCallee
  rcases (program.methodDef site.method).flow.stmtAt_mem (.stmt site.index) with isNop | isIn
  · cases isCall.symm.trans isNop
  · cases (Stmt.invoke?_eq_some_iff.mpr isCall).symm.trans (noCalls _ isIn)

/-- The facts across methods are those joined when the solver has settled. -/
theorem joined_sharedView
    (areFacts : program.interConstantAnalysis.analyze (.ofCallGraph program calls) steps =
      .ok facts)
    (isMethod : id ∈ (InterFlow.ofCallGraph program calls).methods)
    (isNode : node ∈ (program.methodDef id).flow.graph.nodes) :
    (program.sharedView calls id).joined steps node = facts.before.get ⟨id, node⟩ ∧
      (program.sharedView calls id).IsSettled steps node := by
  obtain ⟨isDone, rfl⟩ := InterAnalysis.analyze_eq_ok_iff.mp areFacts
  have inGraph : (⟨id, node⟩ : MethodNode) ∈ (InterFlow.ofCallGraph program calls).graph.nodes :=
    InterFlow.mem_nodes.mpr ⟨isMethod, isNode⟩
  exact View.isSettled_of_queue_eq_nil InterAnalysis.propagates isDone inGraph

/-- The facts of a method by itself are those joined when the solver has settled. -/
theorem joined_ownView (areInner : program.propagateConstants innerSteps id = .ok inner)
    (isNode : node ∈ (program.methodDef id).flow.graph.nodes) :
    (program.ownView id).joined innerSteps node = inner.before.get node ∧
      (program.ownView id).IsSettled innerSteps node := by
  obtain ⟨isDone, rfl⟩ := Analysis.forward_eq_ok_iff.mp (forward_of_propagateConstants areInner)
  exact View.isSettled_of_queue_eq_nil Analysis.propagates_forward isDone
    (ControlFlow.mem_forwardOrder isNode)

/-- Constant propagation across methods knows a value as well as constant propagation in a
method by itself does, or better, and just as well in an entry method that calls nothing, save
for the values that the result of a division by zero of what is not constant reaches through a
cycle. -/
theorem precise_propagateConstantsAcross (isProgram : ofText text = .ok program)
    (isBuilt : program.hierarchyCallGraph = .ok calls) (isReachable : id ∈ calls.reachable)
    (areFacts : program.propagateConstantsAcross steps = .ok facts)
    (areInner : program.propagateConstants innerSteps id = .ok inner)
    (isNode : node ∈ (program.methodDef id).flow.graph.nodes)
    (notOwn : ¬ (program.methodDef id).Circulates program inner.before.get ⟨node, var⟩) :
    (facts.before.get ⟨id, node⟩).get var ≤ (inner.before.get node).get var ∧
      (id ∈ program.entries →
        (∀ stmt ∈ (program.methodDef id).body, stmt.invoke? = none) →
        ¬ (program.methodDef id).Circulates program (fun node => facts.before.get ⟨id, node⟩)
          ⟨node, var⟩ →
        (facts.before.get ⟨id, node⟩).get var = (inner.before.get node).get var) := by
  obtain ⟨_, isSame, areFacts⟩ := propagateConstantsAcross_eq_ok_iff.mp areFacts
  cases isBuilt.symm.trans isSame
  have isGraph := isHierarchyGraph isBuilt
  have areInside := jumpsInside_ofText isProgram id
  have isMethod := InterFlow.mem_methods.mpr ⟨isReachable, hasBody_of_propagateConstants areInner⟩
  have shared {node : FlowNode} (isNode : node ∈ (program.methodDef id).flow.graph.nodes) :=
    joined_sharedView areFacts isMethod isNode
  have own {node : FlowNode} (isNode : node ∈ (program.methodDef id).flow.graph.nodes) :=
    joined_ownView areInner isNode
  have isBelow : (facts.before.get ⟨id, node⟩).get var ≤ (inner.before.get node).get var := by
    rw [← (shared isNode).1]
    apply (follows_sharedView Value.isComparison_le isGraph areInside areInner isMethod).joined_le
      (fun _ isOther => (shared isOther).2) _ notOwn isNode
    intro other isOther var
    have follows := follows_ownView Value.isComparison_confirmed isGraph areInside areFacts
      isMethod (.inl fun _ => nofun)
    rw [(shared isOther).1, ← (own isOther).1]
    exact follows.confirmed_joined innerSteps isOther var
  refine ⟨isBelow, fun isEntry noCalls notShared => ?_⟩
  have isAbove : (inner.before.get node).get var ≤ (facts.before.get ⟨id, node⟩).get var := by
    rw [← (own isNode).1]
    apply (follows_ownView Value.isComparison_le isGraph areInside areFacts isMethod
      (.inr ⟨(isGraph.entries id).mpr isEntry, siteAt?_eq_none isGraph noCalls⟩)).joined_le
      (fun _ isOther => (own isOther).2) _ notShared isNode
    intro other isOther var
    have follows := follows_sharedView Value.isComparison_confirmed isGraph areInside areInner
      isMethod
    rw [(own isOther).1, ← (shared isOther).1]
    exact follows.confirmed_joined steps isOther var
  exact le_antisymm isBelow isAbove

/-- A method that divides what it is given by zero, after a loop. -/
def dividedText : String := "class Main { static method main(int n) : int { var int d, q;
  L: d = 0; if n > d goto L; q = n / d; return q; } }"

/-- The quotient is not used in a loop, so that both analyses know the same after it. -/
theorem precise_divided : ∃ program calls facts inner, ofText dividedText = .ok program ∧
    program.hierarchyCallGraph = .ok calls ∧ 0 ∈ calls.reachable ∧
    program.propagateConstantsAcross 30 = .ok facts ∧
    program.propagateConstants 30 0 = .ok inner ∧
    program.dividesByZero (inner.before.get (.stmt 2)) ((program.methodDef 0).stmt 2) = true ∧
    ∀ var, (facts.before.get ⟨0, .stmt 3⟩).get var ≤ (inner.before.get (.stmt 3)).get var ∧
      (facts.before.get ⟨0, .stmt 3⟩).get var = (inner.before.get (.stmt 3)).get var := by
  have passes : (ofText dividedText).toOption.any (fun program =>
      program.hierarchyCallGraph.toOption.any fun calls =>
      (program.propagateConstantsAcross 30).toOption.any fun facts =>
      (program.propagateConstants 30 0).toOption.any fun inner => decide
        (0 ∈ calls.reachable ∧ 0 ∈ program.entries ∧
          (∀ stmt ∈ (program.methodDef 0).body, stmt.invoke? = none) ∧
          .stmt 3 ∈ (program.methodDef 0).flow.graph.nodes ∧
          program.dividesByZero (inner.before.get (.stmt 2)) ((program.methodDef 0).stmt 2) = true ∧
          ∀ arc ∈ (program.methodDef 0).flow.graph.arcs,
            (program.dividesByZero (inner.before.get arc.source)
              ((program.methodDef 0).flow.stmtAt arc.source) = true →
              4 ≤ (program.methodDef 0).position arc.target) ∧
            (program.dividesByZero (facts.before.get ⟨0, arc.source⟩)
              ((program.methodDef 0).flow.stmtAt arc.source) = true →
              4 ≤ (program.methodDef 0).position arc.target) ∧
            (4 ≤ (program.methodDef 0).position arc.source →
              (program.methodDef 0).position arc.source <
                (program.methodDef 0).position arc.target))) = true := by
    decide +kernel
  obtain ⟨program, isProgram, builds⟩ := exists_of_test passes
  obtain ⟨calls, isBuilt, propagates⟩ := exists_of_test builds
  obtain ⟨facts, areFacts, ends⟩ := exists_of_test propagates
  obtain ⟨inner, areInner, holds⟩ := exists_of_test ends
  obtain ⟨isReachable, isEntry, noCalls, isNode, divides, areLate⟩ := of_decide_eq_true holds
  refine ⟨program, calls, facts, inner, isProgram, isBuilt, isReachable, areFacts, areInner,
    divides, fun var => ?_⟩
  have notOwn := MethodDef.not_circulates_of_rises
    (fun arc isArc => (areLate arc isArc).1) (fun arc isArc => (areLate arc isArc).2.2)
    ⟨.stmt 3, var⟩
  have notShared : ¬ (program.methodDef 0).Circulates program
      (fun node => facts.before.get ⟨0, node⟩) ⟨.stmt 3, var⟩ :=
    MethodDef.not_circulates_of_rises
      (fun arc isArc => (areLate arc isArc).2.1) (fun arc isArc => (areLate arc isArc).2.2) _
  have isPrecise := precise_propagateConstantsAcross isProgram isBuilt isReachable areFacts areInner
    isNode notOwn
  exact ⟨isPrecise.1, isPrecise.2 isEntry noCalls notShared⟩

/-- A method that divides what it is given by zero before a loop. The division comes before the
divisor in the text, and after it when the method runs. -/
def lingeringText : String := "class Main { static method main(int n) : void { var int d, q;
  goto D; L: n = (int) n; q = n / d; H: if n < n goto H; return; D: d = 0; goto L; } }"

/-- Visited in the order of the text, the division is visited before the divisor is known, and
the quotient stays in the loop. -/
theorem imprecise_lingering : ∃ program calls facts inner, ofText lingeringText = .ok program ∧
    program.hierarchyCallGraph = .ok calls ∧ 0 ∈ calls.reachable ∧
    program.propagateConstantsAcross 40 = .ok facts ∧
    program.propagateConstants 40 0 = .ok inner ∧
    .stmt 3 ∈ (program.methodDef 0).flow.graph.nodes ∧
    program.entries = [0] ∧ (∀ stmt ∈ (program.methodDef 0).body, stmt.invoke? = none) ∧
    ¬ (facts.before.get ⟨0, .stmt 3⟩).get 2 ≤ (inner.before.get (.stmt 3)).get 2 := by
  have passes : (ofText lingeringText).toOption.any (fun program =>
      program.hierarchyCallGraph.toOption.any fun calls =>
      (program.propagateConstantsAcross 40).toOption.any fun facts =>
      (program.propagateConstants 40 0).toOption.any fun inner => decide
        (0 ∈ calls.reachable ∧ .stmt 3 ∈ (program.methodDef 0).flow.graph.nodes ∧
          program.entries = [0] ∧ (∀ stmt ∈ (program.methodDef 0).body, stmt.invoke? = none) ∧
          (facts.before.get ⟨0, .stmt 3⟩).get 2 = .notConstant ∧
          (inner.before.get (.stmt 3)).get 2 = .undefined)) = true := by decide +kernel
  obtain ⟨program, isProgram, builds⟩ := exists_of_test passes
  obtain ⟨calls, isBuilt, propagates⟩ := exists_of_test builds
  obtain ⟨facts, areFacts, ends⟩ := exists_of_test propagates
  obtain ⟨inner, areInner, holds⟩ := exists_of_test ends
  obtain ⟨isReachable, isNode, areEntries, noCalls, isTop, isUnknown⟩ := of_decide_eq_true holds
  refine ⟨program, calls, facts, inner, isProgram, isBuilt, isReachable, areFacts, areInner,
    isNode, areEntries, noCalls, ?_⟩
  rw [isTop, isUnknown]
  exact fun isBelow => nomatch (le_bot_iff.mp isBelow : Value.notConstant = .undefined)

end Precision

end Program

end TacAnalysis
