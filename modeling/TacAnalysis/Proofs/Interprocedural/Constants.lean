/-
# Constants across methods

Entering a method gives each parameter the value of its argument, leaving it gives the
result of the call what the returned variables have in common, and the other variables
keep their values around the call. All three give more when more is known, and they
know nothing of variables that do not hold integers, so that constant propagation across
methods is monotone as long as no statement divides integers.
-/

import TacAnalysis.Interprocedural.ConstantPropagation
import TacAnalysis.Proofs.Dataflow.Constants
import TacAnalysis.Proofs.Dataflow.Interprocedural
import TacAnalysis.Proofs.Interprocedural.Graph

namespace TacAnalysis

namespace Program

variable {program : Program} {site : Site} {callee : MethodId} {fact other : ConstFact}
  {var : VarId} {value : Value}

/-- The variables of a program that hold integers. -/
def intVars (program : Program) : List VarId :=
  (List.range program.locals.size).filter program.holdsInt

theorem mem_intVars : var ∈ program.intVars ↔ program.holdsInt var = true := by
  have inTable (isInt : program.holdsInt var = true) : var < program.locals.size := by
    by_contra pastEnd
    rw [holdsInt, localDef, Array.getD, dif_neg pastEnd] at isInt
    cases isInt
  rw [intVars, List.mem_filter, List.mem_range]
  exact ⟨And.right, fun isInt => ⟨inTable isInt, isInt⟩⟩

section Steps

/-- A parameter has at least the value that each of its arguments has. -/
theorem le_get_enterFact (isBound : ∃ arg, (arg, var) ∈ program.bindings site callee)
    (isInt : program.holdsInt var = true)
    (areAbove : ∀ arg, (arg, var) ∈ program.bindings site callee → value ≤ fact.get arg) :
    value ≤ (program.enterFact site callee fact).get var := by
  have bound (bindings : List (VarId × VarId)) (entered : ConstFact)
      (areAbove : ∀ arg, (arg, var) ∈ bindings → value ≤ fact.get arg)
      (isBound : (∃ arg, (arg, var) ∈ bindings) ∨ value ≤ entered.get var) :
      value ≤ (bindings.foldl
        (fun entered binding => entered.set binding.2 (fact.get binding.1)) entered).get var := by
    induction bindings generalizing entered with
    | nil =>
        rcases isBound with ⟨arg, isIn⟩ | isAbove
        · cases isIn
        · exact isAbove
    | cons first bindings ih =>
        apply ih _ fun arg isIn => areAbove arg (List.mem_cons_of_mem _ isIn)
        rw [ConstFact.get_set]
        by_cases isFirst : var = first.2
        · rw [if_pos isFirst]
          exact .inr (areAbove first.1 (isFirst ▸ List.mem_cons_self))
        · rw [if_neg isFirst]
          refine isBound.imp_left fun ⟨arg, isIn⟩ => ⟨arg, ?_⟩
          exact (List.mem_cons.mp isIn).resolve_left fun isSame =>
            isFirst (congrArg Prod.snd isSame)
  apply bound
  · intro arg isIn
    exact areAbove arg (List.mem_of_mem_filter isIn)
  · obtain ⟨arg, isIn⟩ := isBound
    exact .inl ⟨arg, List.mem_filter.mpr ⟨isIn, isInt⟩⟩

theorem enterFact_le_enterFact (isBelow : fact ≤ other) :
    program.enterFact site callee fact ≤ program.enterFact site callee other := by
  have rises (bindings : List (VarId × VarId)) (entered above : ConstFact)
      (isBelow' : entered ≤ above) :
      bindings.foldl (fun entered binding => entered.set binding.2 (fact.get binding.1)) entered ≤
        bindings.foldl (fun entered binding => entered.set binding.2 (other.get binding.1))
          above := by
    induction bindings generalizing entered above with
    | nil => exact isBelow'
    | cons first bindings ih =>
        apply ih
        intro var
        show (entered.set _ _).get var ≤ (above.set _ _).get var
        rw [ConstFact.get_set, ConstFact.get_set]
        split
        · exact isBelow first.1
        · exact isBelow' var
  exact rises _ _ _ le_rfl

/-- What the variables that a method may return have in common. -/
def returnedValue (program : Program) (callee : MethodId) (fact : ConstFact) : Value :=
  (program.methodDef callee).returned.foldl (fun value var => value.meet (fact.get var)) .undefined

theorem get_le_returnedValue (isReturned : var ∈ (program.methodDef callee).returned) :
    fact.get var ≤ program.returnedValue callee fact := by
  have rises (vars : List VarId) (value : Value) :
      value ≤ vars.foldl (fun value var => value.meet (fact.get var)) value ∧
        ∀ var ∈ vars, fact.get var ≤ vars.foldl (fun value var => value.meet (fact.get var))
          value := by
    induction vars generalizing value with
    | nil => exact ⟨le_rfl, nofun⟩
    | cons first vars ih =>
        obtain ⟨metIsBelow, othersAreBelow⟩ := ih (value.meet (fact.get first))
        rw [Value.meet_eq_sup, sup_le_iff] at metIsBelow
        exact ⟨metIsBelow.1, List.forall_mem_cons.mpr ⟨metIsBelow.2, othersAreBelow⟩⟩
  exact (rises _ _).2 var isReturned

theorem returnedValue_le_returnedValue (isBelow : fact ≤ other) :
    program.returnedValue callee fact ≤ program.returnedValue callee other := by
  have rises (vars : List VarId) (value above : Value) (isBelow' : value ≤ above) :
      vars.foldl (fun value var => value.meet (fact.get var)) value ≤
        vars.foldl (fun value var => value.meet (other.get var)) above := by
    induction vars generalizing value above with
    | nil => exact isBelow'
    | cons first vars ih => exact ih _ _ (sup_le_sup isBelow' (isBelow first))
  exact rises _ _ _ le_rfl

theorem get_leaveFact : (program.leaveFact site callee fact).get var =
    if (program.stmt site).def? = some var ∧ program.holdsInt var = true then
      program.returnedValue callee fact
    else .undefined := by
  rw [leaveFact]
  cases (program.stmt site).def? with
  | none => simp [ConstFact.get_empty]
  | some result =>
      simp only [Option.some.injEq]
      by_cases isInt : program.holdsInt result = true
      · rw [if_pos isInt, ConstFact.get_set, ConstFact.get_empty]
        by_cases isResult : var = result
        · rw [if_pos isResult, if_pos ⟨isResult.symm, isResult ▸ isInt⟩]
          rfl
        · rw [if_neg isResult, if_neg fun isBoth => isResult isBoth.1.symm]
      · rw [if_neg isInt, if_neg]
        · rfl
        · rintro ⟨rfl, isTracked⟩
          exact isInt isTracked

theorem get_bypassFact : (program.bypassFact site fact).get var =
    if (program.stmt site).def? = some var then .undefined else fact.get var := by
  rw [bypassFact]
  cases (program.stmt site).def? with
  | none => simp
  | some result => simp [ConstFact.get_erase, eq_comm]

theorem leaveFact_le_leaveFact (isBelow : fact ≤ other) :
    program.leaveFact site callee fact ≤ program.leaveFact site callee other := by
  intro var
  show (program.leaveFact site callee fact).get var ≤ (program.leaveFact site callee other).get var
  rw [get_leaveFact, get_leaveFact]
  split
  · exact returnedValue_le_returnedValue isBelow
  · exact le_rfl

theorem bypassFact_le_bypassFact (isBelow : fact ≤ other) :
    program.bypassFact site fact ≤ program.bypassFact site other := by
  intro var
  show (program.bypassFact site fact).get var ≤ (program.bypassFact site other).get var
  rw [get_bypassFact, get_bypassFact]
  split
  · exact le_rfl
  · exact isBelow var

end Steps

section Analysis

/-- Constant propagation across methods goes from facts about variables holding integers to
such facts. -/
theorem keeps_interConstantAnalysis (program : Program) (flow : InterFlow) :
    program.interConstantAnalysis.Keeps flow (ConstFact.About program.intVars) where
  boundary node := by
    refine List.foldlRecOn (motive := ConstFact.About program.intVars) _ _
      ConstFact.about_empty fun _ isAbout var isParam => ?_
    exact isAbout.set (mem_intVars.mpr (List.mem_filter.mp isParam).2) _
  initial := ConstFact.about_empty
  meet _ _ isAbout otherIs := isAbout.meet otherIs
  transfer node fact isAbout := by
    rw [InterAnalysis.transferAt_eq]
    split
    · exact isAbout
    · exact about_constantTransfer isAbout fun _ _ isInt => mem_intVars.mpr isInt
  along arc _ fact isAbout := by
    cases arc.label with
    | within branch => exact isAbout
    | bypass site =>
        show ConstFact.About program.intVars (program.bypassFact site fact)
        rw [bypassFact]
        cases (program.stmt site).def? with
        | none => exact isAbout
        | some result => exact isAbout.erase result
    | enter site callee =>
        refine List.foldlRecOn (motive := ConstFact.About program.intVars) _ _
          ConstFact.about_empty fun _ isAbout binding isBinding => ?_
        exact isAbout.set (mem_intVars.mpr (List.mem_filter.mp isBinding).2) _
    | leave site callee =>
        show ConstFact.About program.intVars (program.leaveFact site callee fact)
        rw [leaveFact]
        cases (program.stmt site).def? with
        | none => exact ConstFact.about_empty
        | some result =>
            simp only
            split
            case isTrue isInt => exact ConstFact.about_empty.set (mem_intVars.mpr isInt) _
            case isFalse => exact ConstFact.about_empty

/-- Constant propagation across methods is monotone when no statement divides integers. -/
theorem isMonotone_interConstantAnalysis {flow : InterFlow}
    (isSafe : ∀ node, ¬ program.DividesInts (flow.stmtAt node)) :
    program.interConstantAnalysis.IsMonotone flow (ConstFact.About program.intVars) where
  keeps := program.keeps_interConstantAnalysis flow
  lattice := ConstFact.isSemilattice _
  transfer node first second _ otherIs isBelow := by
    rw [InterAnalysis.transferAt_eq, InterAnalysis.transferAt_eq]
    split
    · exact isBelow
    · apply constantTransfer_le_constantTransfer _ isBelow (isSafe node)
      exact fun _ => get_eq_undefined otherIs fun _ isIn => mem_intVars.mp isIn
  along arc _ _ _ _ _ isBelow := by
    cases arc.label with
    | within branch => exact isBelow
    | bypass site => exact bypassFact_le_bypassFact isBelow
    | enter site callee => exact enterFact_le_enterFact isBelow
    | leave site callee => exact leaveFact_le_leaveFact isBelow

end Analysis

/-- The facts across methods are those of the graph of class hierarchy analysis. -/
theorem propagateConstantsAcross_eq_ok_iff {steps : Nat} {facts : NodeFacts MethodNode ConstFact} :
    program.propagateConstantsAcross steps = .ok facts ↔
      ∃ calls, program.hierarchyCallGraph = .ok calls ∧
        program.interConstantAnalysis.analyze (.ofCallGraph program calls) steps = .ok facts := by
  rw [propagateConstantsAcross]
  cases program.hierarchyCallGraph with
  | error error => exact ⟨nofun, fun ⟨_, isGraph, _⟩ => nomatch isGraph⟩
  | ok calls =>
      constructor
      · exact fun areFacts => ⟨calls, rfl, areFacts⟩
      · rintro ⟨_, isGraph, areFacts⟩
        cases isGraph
        exact areFacts

section Facts

variable {calls : CallGraph Site MethodId} {steps : Nat} {facts : NodeFacts MethodNode ConstFact}
  {id : MethodId} {arc : Arc FlowNode Branch}
  (areFacts : program.interConstantAnalysis.analyze (.ofCallGraph program calls) steps = .ok facts)

include areFacts

/-- The fact after the source of a step, transferred along it, is below the fact before its
target. -/
theorem along_le_before
    {step : Arc MethodNode Transfer}
    (isStep : (InterFlow.ofCallGraph program calls).IsStep step)
    (isNode : step.target ∈ (InterFlow.ofCallGraph program calls).graph.nodes) :
    program.interConstantAnalysis.along step.label (facts.after.get step.source) ≤
      facts.before.get step.target :=
  ((program.keeps_interConstantAnalysis _).le_before
    (fun _ second isAbout _ => isAbout.isCanonical.le_meet second) areFacts isNode).1 _
    (InterFlow.mem_arcs_iff.mpr isStep) rfl

/-- Out of a statement that is not a linked call flows what it makes of the fact before
it. -/
theorem constantTransfer_le_interBefore
    (areInside : (program.methodDef id).JumpsInside)
    (isMethod : id ∈ (InterFlow.ofCallGraph program calls).methods)
    (isArc : arc ∈ (program.methodDef id).flow.graph.arcs)
    (isPlain : (InterFlow.ofCallGraph program calls).siteAt? ⟨id, arc.source⟩ = none) :
    program.constantTransfer ((program.methodDef id).flow.stmtAt arc.source)
      (facts.before.get ⟨id, arc.source⟩) ≤ facts.before.get ⟨id, arc.target⟩ := by
  have isAfter := (InterAnalysis.solves_of_analyze areFacts).transfers ⟨id, arc.source⟩
    (InterFlow.mem_nodes.mpr ⟨isMethod, MethodDef.source_mem_nodes isArc⟩)
  rw [InterFlow.isCallAt, isPlain, InterFlow.stmtAt_eq isMethod] at isAfter
  have isBelow := along_le_before areFacts (.within isMethod isArc isPlain)
    (InterFlow.mem_nodes.mpr ⟨isMethod, MethodDef.target_mem_nodes areInside isArc⟩)
  rwa [isAfter] at isBelow

/-- A linked call lets the fact before it through. -/
theorem after_call
    (isCallee : callee ∈ (InterFlow.ofCallGraph program calls).calleesOf site) :
    facts.after.get ⟨site.method, .stmt site.index⟩ =
      facts.before.get ⟨site.method, .stmt site.index⟩ := by
  have isSite : (InterFlow.ofCallGraph program calls).siteAt?
      ⟨site.method, .stmt site.index⟩ = some site :=
    InterFlow.siteAt?_eq_some_iff.mpr ⟨rfl, List.ne_nil_of_mem isCallee⟩
  obtain ⟨isMethod, isPoint, -⟩ := InterFlow.mem_calleesOf.mp isCallee
  have isAfter := (InterAnalysis.solves_of_analyze areFacts).transfers
    ⟨site.method, .stmt site.index⟩
    (InterFlow.mem_nodes.mpr ⟨isMethod, stmt_mem_nodes isPoint⟩)
  rw [InterFlow.isCallAt, isSite] at isAfter
  exact isAfter

theorem enterFact_le_before
    (isCallee : callee ∈ (InterFlow.ofCallGraph program calls).calleesOf site) :
    program.enterFact site callee (facts.before.get ⟨site.method, .stmt site.index⟩) ≤
      facts.before.get ⟨callee, .entry⟩ := by
  obtain ⟨-, -, -, isMethod⟩ := InterFlow.mem_calleesOf.mp isCallee
  have isBelow := along_le_before areFacts (.enter isCallee)
    (InterFlow.mem_nodes.mpr ⟨isMethod, mem_flowNodes.mpr (.inl rfl)⟩)
  rwa [after_call areFacts isCallee] at isBelow

theorem bypassFact_le_before
    (areInside : (program.methodDef site.method).JumpsInside)
    (isCallee : callee ∈ (InterFlow.ofCallGraph program calls).calleesOf site)
    (isArc : arc ∈ (program.methodDef site.method).flow.graph.arcs)
    (isSource : arc.source = .stmt site.index) :
    program.bypassFact site (facts.before.get ⟨site.method, .stmt site.index⟩) ≤
      facts.before.get ⟨site.method, arc.target⟩ := by
  obtain ⟨isMethod, -⟩ := InterFlow.mem_calleesOf.mp isCallee
  have isBelow := along_le_before areFacts
    (.bypass isArc isSource (List.ne_nil_of_mem isCallee))
    (InterFlow.mem_nodes.mpr ⟨isMethod, MethodDef.target_mem_nodes areInside isArc⟩)
  rwa [after_call areFacts isCallee] at isBelow

theorem leaveFact_le_before
    (areInside : (program.methodDef site.method).JumpsInside)
    (isCallee : callee ∈ (InterFlow.ofCallGraph program calls).calleesOf site)
    (isArc : arc ∈ (program.methodDef site.method).flow.graph.arcs)
    (isSource : arc.source = .stmt site.index) :
    program.leaveFact site callee (facts.before.get ⟨callee, .exit⟩) ≤
      facts.before.get ⟨site.method, arc.target⟩ := by
  obtain ⟨isMethod, -, -, calleeIs⟩ := InterFlow.mem_calleesOf.mp isCallee
  have isPlain : (InterFlow.ofCallGraph program calls).siteAt? ⟨callee, .exit⟩ = none := rfl
  have isAfter := (InterAnalysis.solves_of_analyze areFacts).transfers ⟨callee, .exit⟩
    (InterFlow.mem_nodes.mpr ⟨calleeIs, mem_flowNodes.mpr (.inr (.inr rfl))⟩)
  rw [InterFlow.isCallAt, isPlain, InterFlow.stmtAt_eq calleeIs] at isAfter
  have isBelow := along_le_before areFacts (.leave isArc isSource isCallee)
    (InterFlow.mem_nodes.mpr ⟨isMethod, MethodDef.target_mem_nodes areInside isArc⟩)
  rwa [isAfter] at isBelow

/-- Nothing is known of the integers that an entry method is given. -/
theorem unknownArguments_le_before
    (isEntry : id ∈ calls.entries)
    (isMethod : id ∈ (InterFlow.ofCallGraph program calls).methods) :
    program.unknownArguments (program.methodDef id) ≤ facts.before.get ⟨id, .entry⟩ :=
  ((program.keeps_interConstantAnalysis _).le_before
    (fun _ second isAbout _ => isAbout.isCanonical.le_meet second) areFacts
    (show ⟨id, .entry⟩ ∈ (InterFlow.ofCallGraph program calls).graph.nodes from
      InterFlow.mem_nodes.mpr ⟨isMethod, mem_flowNodes.mpr (.inl rfl)⟩)).2 rfl
    (InterFlow.mem_entries.mpr ⟨isEntry, isMethod⟩)

end Facts

end Program

end TacAnalysis
