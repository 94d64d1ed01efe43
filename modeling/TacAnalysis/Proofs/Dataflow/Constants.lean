/-
# Constant propagation as equations

The facts of constant propagation are about the variables that hold integers and
that a method receives or defines. The module says what every step of the analysis
makes of the values of variables, and when the analysis ends: a division may give
less when more is known of its divisor, so that results fall, and as joined facts
are recomputed from scratch, a fall may go round a loop for ever.
-/

import TacAnalysis.ConstantPropagation
import TacAnalysis.Proofs.ControlFlow
import TacAnalysis.Proofs.Dataflow.ConstantFacts
import TacAnalysis.Proofs.Dataflow.Intraprocedural

namespace TacAnalysis

/-- The facts about finitely many variables form a join-semilattice. -/
theorem ConstFact.isSemilattice (vars : List VarId) :
    IsSemilattice (ConstFact.About vars) .empty ConstFact.meet where
  antisymm _ _ isAbout otherIs := isAbout.isCanonical.eq_of_le otherIs.isCanonical
  bottom_le fact _ := empty_le fact
  join_le_iff first second fact isAbout _ _ := by
    have isMeet : first.meet second ≤ fact ↔
        ∀ var, first.get var ⊔ second.get var ≤ fact.get var := by
      rw [le_iff]
      simp only [isAbout.isCanonical.get_meet]
    rw [isMeet]
    simp only [sup_le_iff, forall_and, le_iff]
  rising := inferInstance

/-- The variables whose values make up the one that a statement defines. -/
def Stmt.sources : Stmt → List VarId
  | .copy _ source => [source]
  | .binary _ exp => [exp.left, exp.right]
  | _ => []

namespace Program

variable {program : Program} {method : MethodDef} {fact : ConstFact} {stmt : Stmt} {var : VarId}

/-- The variables that constant propagation follows in a method. -/
def trackedVars (program : Program) (method : MethodDef) : List VarId :=
  (method.params ++ method.body.toList.filterMap Stmt.def?).filter program.holdsInt

/-- The equations of constant propagation in a method. -/
def constantEquations (program : Program) (id : MethodId) : Equations FlowNode ConstFact :=
  (program.constantAnalysis (program.methodDef id)).forwardEquations (program.methodDef id).flow

section Steps

theorem get_unknownArguments (program : Program) (method : MethodDef) (var : VarId) :
    (program.unknownArguments method).get var =
      if var ∈ method.params ∧ program.holdsInt var = true then .notConstant else .undefined := by
  have given (vars : List VarId) (fact : ConstFact) :
      (vars.foldl (fun fact var => fact.set var .notConstant) fact).get var =
        if var ∈ vars then .notConstant else fact.get var := by
    induction vars generalizing fact with
    | nil => rfl
    | cons first vars ih =>
        rw [List.foldl_cons, ih, ConstFact.get_set]
        by_cases isLater : var ∈ vars
        · rw [if_pos isLater, if_pos (List.mem_cons_of_mem _ isLater)]
        · simp only [isLater, if_false, List.mem_cons, or_false]
  rw [unknownArguments, given, ConstFact.get_empty]
  simp only [List.mem_filter]

/-- A statement changes the value of the variable it defines, if that holds integers. -/
theorem get_constantTransfer (program : Program) (stmt : Stmt) (fact : ConstFact) (var : VarId) :
    (program.constantTransfer stmt fact).get var =
      if stmt.def? = some var ∧ program.holdsInt var = true then stmt.definedValue fact
      else fact.get var := by
  rw [constantTransfer]
  cases stmt.def? with
  | none => simp
  | some target =>
      simp only [Option.some.injEq]
      by_cases isTracked : program.holdsInt target = true
      · rw [if_pos isTracked, ConstFact.get_set]
        by_cases isTarget : var = target
        · rw [if_pos isTarget, if_pos ⟨isTarget.symm, isTarget ▸ isTracked⟩]
        · rw [if_neg isTarget, if_neg fun isBoth => isTarget isBoth.1.symm]
      · rw [if_neg isTracked, if_neg]
        rintro ⟨rfl, isInt⟩
        exact isTracked isInt

theorem about_constantTransfer {vars : List VarId} (isAbout : ConstFact.About vars fact)
    (isTracked : ∀ var, stmt.def? = some var → program.holdsInt var = true → var ∈ vars) :
    ConstFact.About vars (program.constantTransfer stmt fact) := by
  rw [constantTransfer]
  cases isDef : stmt.def? with
  | none => exact isAbout
  | some target =>
      simp only
      split
      case isTrue isInt => exact isAbout.set (isTracked target isDef isInt) _
      case isFalse => exact isAbout

theorem mem_trackedVars_of_def {node : FlowNode} (isDef : (method.flow.stmtAt node).def? = some var)
    (isInt : program.holdsInt var = true) : var ∈ program.trackedVars method := by
  refine List.mem_filter.mpr ⟨List.mem_append_right _ (List.mem_filterMap.mpr ?_), isInt⟩
  rcases method.flow.stmtAt_mem node with isNop | isMember
  · rw [isNop] at isDef
    cases isDef
  · exact ⟨_, Array.mem_toList_iff.mpr isMember, isDef⟩

/-- Constant propagation goes from facts about the followed variables to such facts. -/
theorem keeps_constantAnalysis (program : Program) (method : MethodDef) :
    (program.constantAnalysis method).Keeps method.flow
      (ConstFact.About (program.trackedVars method)) where
  boundary := by
    have given (vars : List VarId) (areTracked : ∀ var ∈ vars, var ∈ program.trackedVars method) :
        ConstFact.About (program.trackedVars method)
          (vars.foldl (fun fact var => fact.set var .notConstant) .empty) :=
      List.foldlRecOn (motive := ConstFact.About (program.trackedVars method)) _ _
        ConstFact.about_empty fun _ isAbout var isIn => isAbout.set (areTracked var isIn) _
    apply given
    intro var isParam
    obtain ⟨isParam, isInt⟩ := List.mem_filter.mp isParam
    exact List.mem_filter.mpr ⟨List.mem_append_left _ isParam, isInt⟩
  initial := ConstFact.about_empty
  meet _ _ isAbout otherIs := isAbout.meet otherIs
  transfer _ _ isAbout :=
    about_constantTransfer isAbout fun _ isDef isInt => mem_trackedVars_of_def isDef isInt

/-- Nothing is known of a variable of another type. -/
theorem get_eq_undefined {vars : List VarId} (isAbout : ConstFact.About vars fact)
    (areInts : ∀ var ∈ vars, program.holdsInt var = true)
    (isOther : program.holdsInt var = false) : fact.get var = .undefined := by
  by_contra isKnown
  cases isOther.symm.trans (areInts var (isAbout.mem var isKnown))

end Steps

section Facts

variable {id : MethodId} {steps : Nat} {facts : NodeFacts FlowNode ConstFact}

theorem propagateConstants_eq_forward (hasBody : (program.methodDef id).hasBody = true)
    (steps : Nat) : program.propagateConstants steps id =
      (program.constantAnalysis (program.methodDef id)).forward (program.methodDef id).flow
        steps := by
  rw [propagateConstants, ControlFlow.ofMethod_eq_ok_iff.mpr ⟨hasBody, rfl⟩]
  rfl

theorem hasBody_of_propagateConstants (areFacts : program.propagateConstants steps id = .ok facts) :
    (program.methodDef id).hasBody = true := by
  by_contra noBody
  rw [propagateConstants, ControlFlow.ofMethod, if_neg noBody] at areFacts
  cases areFacts

theorem forward_of_propagateConstants (areFacts : program.propagateConstants steps id = .ok facts) :
    (program.constantAnalysis (program.methodDef id)).forward (program.methodDef id).flow steps =
      .ok facts := by
  rw [← propagateConstants_eq_forward (hasBody_of_propagateConstants areFacts), areFacts]

/-- The parameters that hold integers may have any value on entry, and nothing is known of
the other variables. -/
theorem before_entry (areFacts : program.propagateConstants steps id = .ok facts) :
    facts.before.get .entry = program.unknownArguments (program.methodDef id) :=
  (Analysis.solves_of_forward (forward_of_propagateConstants areFacts)).starts
    (mem_flowNodes.mpr (.inl rfl))

/-- The fact before a node is above what the nodes leading to it make of the facts before
them. -/
theorem constantTransfer_le_before (areFacts : program.propagateConstants steps id = .ok facts)
    (areInside : (program.methodDef id).JumpsInside) {arc : Arc FlowNode Branch}
    (isArc : arc ∈ (program.methodDef id).flow.graph.arcs)
    (isNode : arc.source ∈ (program.methodDef id).flow.graph.nodes) :
    program.constantTransfer ((program.methodDef id).flow.stmtAt arc.source)
      (facts.before.get arc.source) ≤ facts.before.get arc.target := by
  have isForward := forward_of_propagateConstants areFacts
  have isAfter := (Analysis.solves_of_forward isForward).transfers _ isNode
  have isBelow := Analysis.after_le_before (program.keeps_constantAnalysis (program.methodDef id))
    (fun _ second isAbout _ => isAbout.isCanonical.le_meet second) isForward isArc
    (MethodDef.target_mem_nodes areInside isArc) (target_ne_entry isArc)
  rwa [isAfter] at isBelow

end Facts

section Settling

/-- A statement divides integers: its result, its dividend and its divisor all hold
integers. -/
def DividesInts (program : Program) (stmt : Stmt) : Prop :=
  ∃ target exp, stmt = .binary target exp ∧ exp.op.canThrow = true ∧
    program.holdsInt target = true ∧ program.holdsInt exp.left = true ∧
    program.holdsInt exp.right = true

instance (program : Program) (stmt : Stmt) : Decidable (program.DividesInts stmt) :=
  match stmt with
  | .binary target exp =>
      decidable_of_iff (exp.op.canThrow = true ∧ program.holdsInt target = true ∧
        program.holdsInt exp.left = true ∧ program.holdsInt exp.right = true)
        ⟨fun divides => ⟨target, exp, rfl, divides⟩, fun ⟨_, _, isBinary, divides⟩ => by
          cases isBinary
          exact divides⟩
  | .nop | .new _ _ | .literal _ _ | .copy _ _ | .cast _ _ _ | .loadField _ _ _
  | .storeField _ _ _ | .loadArray _ _ _ | .storeArray _ _ _ | .call _ | .branch _ _ | .goto _
  | .switch _ _ _ | .ret _ => .isFalse fun ⟨_, _, isBinary, _⟩ => nomatch isBinary

/-- Whether a statement divides what is not constant by zero, for a variable that holds
integers. -/
def dividesByZero (program : Program) (fact : ConstFact) : Stmt → Bool
  | .binary target exp =>
      exp.op.canThrow && program.holdsInt target && fact.get exp.left = .notConstant &&
        fact.get exp.right = .constant 0
  | _ => false

theorem dividesInts_of_dividesByZero
    (noOthers : ∀ var, program.holdsInt var = false → fact.get var = .undefined)
    (divides : program.dividesByZero fact stmt = true) : program.DividesInts stmt := by
  have holdsInt {var : VarId} (isKnown : fact.get var ≠ .undefined) :
      program.holdsInt var = true := by
    by_contra notInt
    exact isKnown (noOthers var (Bool.eq_false_iff.mpr notInt))
  cases stmt with
  | binary target exp =>
      simp only [dividesByZero, Bool.and_eq_true, decide_eq_true_eq] at divides
      obtain ⟨⟨⟨canThrow, isInt⟩, isTop⟩, isZero⟩ := divides
      exact ⟨target, exp, rfl, canThrow, isInt, holdsInt (by simp [isTop]),
        holdsInt (by simp [isZero])⟩
  | _ => cases divides

/-- A statement gives more when more is known of what it reads, unless it turns out to divide
by zero what is not constant. -/
theorem definedValue_le_definedValue {other : ConstFact}
    (areBelow : ∀ source ∈ stmt.sources, fact.get source ≤ other.get source)
    (isDef : stmt.def? = some var) (isInt : program.holdsInt var = true)
    (isSafe : program.dividesByZero other stmt = true →
      ∀ source ∈ stmt.sources, (other.get source).Confirmed (fact.get source)) :
    stmt.definedValue fact ≤ stmt.definedValue other := by
  cases stmt with
  | literal target value => cases value <;> exact le_rfl
  | copy target source => exact areBelow source (List.mem_singleton.mpr rfl)
  | binary target exp =>
      have leftIsBelow := areBelow exp.left List.mem_cons_self
      have rightIsRead : exp.right ∈ (Stmt.binary target exp).sources :=
        List.mem_cons_of_mem _ List.mem_cons_self
      have rightIsBelow := areBelow exp.right rightIsRead
      apply BinOp.evaluate_le_evaluate leftIsBelow rightIsBelow
      intro canThrow isTop isZero
      cases isDef
      have areConfirmed := isSafe (by simp [dividesByZero, canThrow, isInt, isTop, isZero])
      exact le_antisymm (isZero ▸ rightIsBelow) (areConfirmed exp.right rightIsRead 0 isZero)
  | _ => exact le_rfl

/-- A constant that a statement gives is confirmed when those that it reads are. -/
theorem confirmed_definedValue {other : ConstFact}
    (areConfirmed : ∀ source ∈ stmt.sources, (fact.get source).Confirmed (other.get source)) :
    (stmt.definedValue fact).Confirmed (stmt.definedValue other) := by
  cases stmt with
  | literal target value =>
      intro word isWord
      cases value <;> exact isWord ▸ le_rfl
  | copy target source => exact areConfirmed source (List.mem_singleton.mpr rfl)
  | binary target exp =>
      exact BinOp.confirmed_evaluate (areConfirmed exp.left List.mem_cons_self)
        (areConfirmed exp.right (List.mem_cons_of_mem _ List.mem_cons_self))
  | _ => exact nofun

/-- A statement that divides no integers gives more when more is known before it. -/
theorem constantTransfer_le_constantTransfer {other : ConstFact}
    (noOthers : ∀ var, program.holdsInt var = false → other.get var = .undefined)
    (isBelow : fact ≤ other) (isSafe : ¬ program.DividesInts stmt) :
    program.constantTransfer stmt fact ≤ program.constantTransfer stmt other := by
  intro var
  show (program.constantTransfer stmt fact).get var ≤ (program.constantTransfer stmt other).get var
  rw [get_constantTransfer, get_constantTransfer]
  split
  case isTrue isDef =>
      apply definedValue_le_definedValue (fun source _ => isBelow source) isDef.1 isDef.2
      exact fun divides => absurd (dividesInts_of_dividesByZero noOthers divides) isSafe
  case isFalse => exact isBelow var

/-- Constant propagation is monotone in a method that divides no integers. -/
theorem isMonotone_constantAnalysis (isSafe : ∀ index, ¬ program.DividesInts (method.stmt index)) :
    (program.constantAnalysis method).IsMonotone method.flow
      (ConstFact.About (program.trackedVars method)) where
  keeps := program.keeps_constantAnalysis method
  lattice := ConstFact.isSemilattice _
  transfer node _ _ _ otherIs isBelow := by
    have noOthers (var : VarId) (isOther : program.holdsInt var = false) :=
      get_eq_undefined otherIs (fun _ isTracked => (List.mem_filter.mp isTracked).2) isOther
    apply constantTransfer_le_constantTransfer noOthers isBelow
    cases node with
    | stmt index => exact isSafe index
    | entry => rintro ⟨target, exp, isBinary, -⟩; cases isBinary
    | exit => rintro ⟨target, exp, isBinary, -⟩; cases isBinary

variable {id : MethodId}

theorem propagateConstants_eq (hasBody : (program.methodDef id).hasBody = true) (steps : Nat) :
    program.propagateConstants steps id =
      if ((program.constantEquations id).after steps).queue = [] then
        .ok ⟨((program.constantEquations id).after steps).joined,
          ((program.constantEquations id).after steps).result⟩
      else .error .unsettled := by
  rw [propagateConstants_eq_forward hasBody, Analysis.forward_eq, ← constantEquations]

/-- Constant propagation in a method ends exactly when, from some round on, no round
lets the fact after a node fall; and it ends when no variable holding integers is the
result of dividing integers. -/
theorem propagateConstants_ends_iff (hasBody : (program.methodDef id).hasBody = true) :
    ((∃ steps facts, program.propagateConstants steps id = .ok facts) ↔
      ∃ bound, ∀ rounds, bound ≤ rounds → ¬ (program.constantEquations id).Falls rounds) ∧
    ((∀ index, ¬ program.DividesInts ((program.methodDef id).stmt index)) →
      ∃ steps facts, program.propagateConstants steps id = .ok facts) := by
  have keeps : (program.constantEquations id).Keeps _ :=
    (program.keeps_constantAnalysis (program.methodDef id)).directed
  have settles := Equations.settles_iff keeps Analysis.spans_forward
    fun _ _ isAbout otherIs => isAbout.isCanonical.eq_of_le otherIs.isCanonical
  have ends : (∃ steps facts, program.propagateConstants steps id = .ok facts) ↔
      ∃ bound, ∀ rounds, bound ≤ rounds → ¬ (program.constantEquations id).Falls rounds := by
    rw [← settles]
    constructor
    · rintro ⟨steps, facts, areFacts⟩
      rw [propagateConstants_eq hasBody] at areFacts
      split at areFacts
      case isTrue isSettled => exact ⟨steps, isSettled⟩
      case isFalse => cases areFacts
    · rintro ⟨steps, isSettled⟩
      exact ⟨steps, _, by rw [propagateConstants_eq hasBody, if_pos isSettled]⟩
  refine ⟨ends, fun isSafe => ends.mpr ⟨0, fun rounds _ => ?_⟩⟩
  exact (isMonotone_constantAnalysis isSafe).directed.not_falls keeps rounds

/-- A method whose statements after the first one cannot be reached. The quotient is not
constant as long as nothing is known of the divisor, and nothing is known of it once the
divisor is found to be zero; both changes then go round the loop at the end, one behind
the other. -/
def pulseText : String := "class Main { static method main() : void { var int n, d, q;
  return; n = (int) n; goto G; Z1: goto G; d = 0; goto Z1; G: q = n / d; goto R0; R7: goto R0;
  R6: goto R7; R5: goto R6; R4: goto R5; R3: goto R4; R2: goto R3; R1: goto R2; R0: goto R1; } }"

/-- The state after 39 rounds comes back 16 rounds later. -/
theorem pulse_queue_ne_nil : ∃ program, ofText pulseText = .ok program ∧
    (program.methodDef 0).hasBody = true ∧
    ∀ rounds, ((program.constantEquations 0).after rounds).queue ≠ [] := by
  have passes : (ofText pulseText).toOption.any (fun program =>
      decide ((program.methodDef 0).hasBody = true ∧
        (program.constantEquations 0).after (39 + 16) = (program.constantEquations 0).after 39 ∧
        ((program.constantEquations 0).after 39).queue ≠ [])) = true := by decide +kernel
  obtain ⟨program, isProgram, holds⟩ := exists_of_test passes
  obtain ⟨hasBody, recurs, isQueued⟩ := of_decide_eq_true holds
  exact ⟨program, isProgram, hasBody,
    Equations.queue_ne_nil_of_recurs recurs (by decide) isQueued⟩

/-- Constant propagation does not always end. -/
theorem propagateConstants_pulse : ∃ program, ofText pulseText = .ok program ∧
    (program.methodDef 0).hasBody = true ∧
    ∀ steps, program.propagateConstants steps 0 = .error .unsettled := by
  obtain ⟨program, isProgram, hasBody, isQueued⟩ := pulse_queue_ne_nil
  refine ⟨program, isProgram, hasBody, fun steps => ?_⟩
  rw [propagateConstants_eq hasBody, if_neg (isQueued steps)]

/-- In a method that keeps constant propagation going, results fall again and again. -/
theorem falls_pulse : ∃ program, ofText pulseText = .ok program ∧
    (program.methodDef 0).hasBody = true ∧
    ∀ bound, ∃ rounds, bound ≤ rounds ∧ (program.constantEquations 0).Falls rounds := by
  obtain ⟨program, isProgram, hasBody, isQueued⟩ := pulse_queue_ne_nil
  refine ⟨program, isProgram, hasBody, fun bound => ?_⟩
  by_contra rises
  have ends := (propagateConstants_ends_iff hasBody).1.mpr
    ⟨bound, fun rounds isLater falls => rises ⟨rounds, isLater, falls⟩⟩
  obtain ⟨steps, facts, areFacts⟩ := ends
  rw [propagateConstants_eq hasBody, if_neg (isQueued steps)] at areFacts
  cases areFacts

end Settling

end Program

end TacAnalysis
