/-
# Soundness of constant propagation

Along every walk through a method, the fact before the node about to be executed gives
each variable that holds an integer either that integer or the value not constant. One
kind of statement is an exception: a copy or an operator that makes an integer of a
variable of another type is given no value, although executing it assigns one. The
facts are right exactly when every such statement that a walk executes is followed by
a fact in which its variable is not constant for another reason.
-/

import TacAnalysis.Proofs.Dataflow.Constants
import TacAnalysis.Proofs.Execution.Walk

namespace TacAnalysis

/-- Operators on values that are right about their operands are right about the result. -/
theorem BinOp.constant_le_evaluate {op : BinOp} {first second : Int32} {left right : Value}
    (leftIsAbove : .constant first ≤ left) (rightIsAbove : .constant second ≤ right)
    (isSafe : op.canThrow = true → second ≠ 0) :
    .constant (op.compute first second) ≤ op.evaluate left right := by
  have noFailure : op.canThrow = true → right ≠ .constant 0 := by
    intro canThrow isZero
    subst isZero
    rcases Value.constant_le_iff.mp rightIsAbove with isSame | isTop
    · cases isSame
      exact isSafe canThrow rfl
    · cases isTop
  rcases Value.constant_le_iff.mp leftIsAbove with rfl | rfl
  · rcases Value.constant_le_iff.mp rightIsAbove with rfl | rfl
    · unfold evaluate
      split
      case isTrue fails =>
          obtain ⟨canThrow, isZero⟩ := Bool.and_eq_true_iff.mp fails
          exact absurd (of_decide_eq_true isZero) (noFailure canThrow)
      case isFalse => exact le_rfl
    · rw [evaluate_of_top (.inr rfl) noFailure]
      exact Value.le_notConstant _
  · rw [evaluate_of_top (.inl rfl) noFailure]
    exact Value.le_notConstant _

namespace Walk

variable {program : Program} {method : MethodDef} {stmt : Stmt} {vars : Store} {target : VarId}
  {fact : ConstFact}

/-- A statement makes an integer of variables of other types, by copying or by an
operator. -/
def Converts (program : Program) (stmt : Stmt) (target : VarId) : Prop :=
  match stmt with
  | .copy result source =>
      result = target ∧ program.holdsInt target = true ∧ program.holdsInt source = false
  | .binary result exp =>
      result = target ∧ program.holdsInt target = true ∧
        (program.holdsInt exp.left = false ∨ program.holdsInt exp.right = false)
  | _ => False

instance (program : Program) (stmt : Stmt) (target : VarId) :
    Decidable (Converts program stmt target) :=
  match stmt with
  | .copy _ _ | .binary _ _ => inferInstanceAs (Decidable (_ ∧ _ ∧ _))
  | .nop | .new _ _ | .literal _ _ | .cast _ _ _ | .loadField _ _ _ | .storeField _ _ _
  | .loadArray _ _ _ | .storeArray _ _ _ | .call _ | .branch _ _ | .goto _ | .switch _ _ _
  | .ret _ => inferInstanceAs (Decidable False)

/-- The fact before the node about to be executed gives every variable holding an integer
that integer, or the value not constant. -/
def Describes (program : Program) (facts : NodeFacts FlowNode ConstFact) (state : State) : Prop :=
  ∀ var word, program.holdsInt var = true → state.vars var = some (.word word) →
    (facts.before.get state.node).get var = .constant word ∨
      (facts.before.get state.node).get var = .notConstant

section Statements

theorem Gives.eq_of_determined {content known : Content}
    (gives : Gives program vars stmt target content) (isKnown : determined? vars stmt = some known)
    (fits : Fits program target known) : content = known := by
  cases gives with
  | determined isDetermined _ => exact Option.some.inj (isDetermined.symm.trans isKnown)
  | any isFree _ _ => exact absurd fits (isFree known isKnown)

/-- A variable that holds integers holds a word when a statement reads it. -/
theorem exists_word_of_uses (able : Able vars stmt) (allFit : AllFit program vars) {var : VarId}
    (isUsed : var ∈ stmt.uses) (isInt : program.holdsInt var = true) :
    ∃ word, vars var = some (.word word) := by
  cases isHeld : vars var with
  | none => exact absurd isHeld (able.assigned var isUsed)
  | some content =>
      obtain ⟨word, rfl⟩ := exists_word_of_fits (allFit var content isHeld) isInt
      exact ⟨word, rfl⟩

/-- The word that a statement gives is a value that the analysis gives to it, unless the
statement makes an integer of variables of other types. -/
theorem constant_le_definedValue {word : Int32} (able : Able vars stmt)
    (allFit : AllFit program vars) (gives : Gives program vars stmt target (.word word))
    (isDef : stmt.def? = some target) (isInt : program.holdsInt target = true)
    (converts : ¬ Converts program stmt target)
    (describes : ∀ var word, program.holdsInt var = true → vars var = some (.word word) →
      .constant word ≤ fact.get var) : .constant word ≤ stmt.definedValue fact := by
  cases stmt with
  | literal result value =>
      cases value with
      | int value =>
          cases gives.eq_of_determined rfl isInt
          exact le_rfl
      | null => exact Value.le_notConstant _
  | copy result source =>
      cases isDef
      cases isSource : program.holdsInt source with
      | false => exact absurd ⟨rfl, isInt, isSource⟩ converts
      | true =>
          obtain ⟨held, isHeld⟩ := exists_word_of_uses able allFit List.mem_cons_self isSource
          cases gives.eq_of_determined isHeld isInt
          exact describes source word isSource isHeld
  | binary result exp =>
      cases isDef
      cases isLeft : program.holdsInt exp.left with
      | false => exact absurd ⟨rfl, isInt, .inl isLeft⟩ converts
      | true =>
          cases isRight : program.holdsInt exp.right with
          | false => exact absurd ⟨rfl, isInt, .inr isRight⟩ converts
          | true =>
              obtain ⟨left, leftIsHeld⟩ :=
                exists_word_of_uses able allFit List.mem_cons_self isLeft
              obtain ⟨right, rightIsHeld⟩ :=
                exists_word_of_uses able allFit (by simp [Stmt.uses]) isRight
              have isKnown : determined? vars (.binary target exp) =
                  some (.word (.ofInt (exp.op.result left.toInt right.toInt))) := by
                simp only [determined?, leftIsHeld, rightIsHeld]
              cases gives.eq_of_determined isKnown isInt
              rw [← BinOp.compute_eq]
              apply BinOp.constant_le_evaluate (describes exp.left left isLeft leftIsHeld)
                (describes exp.right right isRight rightIsHeld)
              intro canThrow isZero
              rw [isZero] at rightIsHeld
              exact able.divides target exp rfl canThrow rightIsHeld
  | _ => exact Value.le_notConstant _

/-- After a statement has been executed, what is transferred through it is a value of every
variable that holds an integer, unless the statement makes that integer of variables of other
types. -/
theorem constant_le_constantTransfer {new : Store} {var : VarId} {word : Int32}
    (able : Able vars stmt) (allFit : AllFit program vars)
    (assigns : Assigns program vars stmt new) (isInt : program.holdsInt var = true)
    (converts : ¬ Converts program stmt var)
    (describes : ∀ var word, program.holdsInt var = true → vars var = some (.word word) →
      .constant word ≤ fact.get var) (isHeld : new var = some (.word word)) :
    .constant word ≤ (program.constantTransfer stmt fact).get var := by
  rw [Program.get_constantTransfer]
  cases assigns with
  | nothing noDef =>
      rw [if_neg (by simp [noDef])]
      exact describes var word isInt isHeld
  | gives isDef gives =>
      rw [Function.update_apply] at isHeld
      split at isHeld
      case isTrue isTarget =>
          cases isHeld
          subst isTarget
          rw [if_pos ⟨isDef, isInt⟩]
          exact constant_le_definedValue able allFit gives isDef isInt converts describes
      case isFalse isOther =>
          rw [if_neg fun isBoth => isOther (Option.some.inj (isBoth.1.symm.trans isDef))]
          exact describes var word isInt isHeld

theorem Converts.def?_eq (converts : Converts program stmt target) :
    stmt.def? = some target ∧ program.holdsInt target = true := by
  cases stmt with
  | copy result source => exact ⟨congrArg some converts.1, converts.2.1⟩
  | binary result exp => exact ⟨congrArg some converts.1, converts.2.1⟩
  | _ => cases converts

/-- What a converting statement gives is not determined by what it reads: it may be zero or
one. -/
theorem Converts.gives (converts : Converts program stmt target) (allFit : AllFit program vars)
    {word : Int32} (isFlag : word = 0 ∨ word = 1) :
    Gives program vars stmt target (.word word) := by
  obtain ⟨-, isInt⟩ := converts.def?_eq
  refine .any ?_ isInt fun _ _ _ _ other isSame => (Content.word.inj isSame) ▸ isFlag
  intro known isKnown fits
  obtain ⟨held, rfl⟩ := exists_word_of_fits fits isInt
  cases stmt with
  | copy result source => cases (allFit _ _ isKnown).symm.trans converts.2.2
  | binary result exp =>
      simp only [determined?] at isKnown
      split at isKnown
      case h_1 left right leftIsHeld rightIsHeld =>
          rcases converts.2.2 with isOther | isOther
          · cases (allFit _ _ leftIsHeld).symm.trans isOther
          · cases (allFit _ _ rightIsHeld).symm.trans isOther
      case h_2 => cases isKnown
  | _ => cases converts

end Statements

section Runs

variable {id : MethodId} {steps : Nat} {facts : NodeFacts FlowNode ConstFact}

theorem describes_iff_le {state : State} : Describes program facts state ↔
    ∀ var word, program.holdsInt var = true → state.vars var = some (.word word) →
      .constant word ≤ (facts.before.get state.node).get var := by
  simp only [Describes, Value.constant_le_iff]

/-- The receiver holds no integer, so that only parameters may hold integers when a method is
entered. -/
theorem Starts.unknownArguments_eq {state : State} (starts : Starts program method state)
    (noThis : ∀ var, method.this = some var → program.holdsInt var = false) {var : VarId}
    {content : Content} (isInt : program.holdsInt var = true)
    (isHeld : state.vars var = some content) :
    (program.unknownArguments method).get var = .notConstant := by
  have isParam : var ∈ method.params := by
    by_contra isOther
    have isLocal : var ∉ method.entryVars := by
      intro isEntryVar
      rcases List.mem_append.mp isEntryVar with isThis | isParam
      · cases isInt.symm.trans (noThis var (Option.mem_toList.mp isThis))
      · exact isOther isParam
    cases (starts.others var isLocal).symm.trans isHeld
  rw [Program.get_unknownArguments, if_pos ⟨isParam, isInt⟩]

theorem describes_of_starts (areFacts : program.propagateConstants steps id = .ok facts)
    (noThis : ∀ var, (program.methodDef id).this = some var → program.holdsInt var = false)
    {state : State} (starts : Starts program (program.methodDef id) state) :
    Describes program facts state := by
  intro var word isInt isHeld
  rw [starts.node, Program.before_entry areFacts]
  exact .inr (starts.unknownArguments_eq noThis isInt isHeld)

/-- A step keeps the facts right, if they are right about what a converting statement gives. -/
theorem describes_of_step (areFacts : program.propagateConstants steps id = .ok facts)
    (areInside : (program.methodDef id).JumpsInside) {state next : State}
    (isNode : state.node ∈ (program.methodDef id).flow.graph.nodes)
    (allFit : AllFit program state.vars) (describes : Describes program facts state)
    (isStep : Step program (program.methodDef id) state next)
    (isGiven : ∀ target,
      Converts program ((program.methodDef id).flow.stmtAt state.node) target →
        (facts.before.get next.node).get target = .notConstant) :
    Describes program facts next := by
  rw [describes_iff_le] at describes ⊢
  cases isStep with
  | @mk arc vars isArc isSource able takes assigns =>
      intro var word isInt isHeld
      change vars var = some (.word word) at isHeld
      rw [← isSource] at isNode able assigns isGiven describes
      by_cases converts :
          Converts program ((program.methodDef id).flow.stmtAt arc.source) var
      · exact isGiven var converts ▸ Value.le_notConstant _
      exact le_trans
        (constant_le_constantTransfer able allFit assigns isInt converts describes isHeld)
        (Program.constantTransfer_le_before areFacts areInside isArc isNode var)

/-- The facts describe every state of a walk whose converting statements they are right
about. -/
theorem describes_of_run (areFacts : program.propagateConstants steps id = .ok facts)
    (areInside : (program.methodDef id).JumpsInside)
    (noThis : ∀ var, (program.methodDef id).this = some var → program.holdsInt var = false)
    (areGiven : ∀ next state past,
      Run program (program.methodDef id) (next :: state :: past) → ∀ target,
        Converts program ((program.methodDef id).flow.stmtAt state.node) target →
          (facts.before.get next.node).get target = .notConstant)
    {run : List State} (isRun : Run program (program.methodDef id) run) :
    ∀ state ∈ run, Describes program facts state := by
  induction isRun with
  | start starts =>
      intro state isState
      rw [List.mem_singleton.mp isState]
      exact describes_of_starts areFacts noThis starts
  | @step state next past isRun isStep ih =>
      intro other isState
      rcases List.mem_cons.mp isState with rfl | isPast
      · exact describes_of_step areFacts areInside
          (isRun.mem_nodes areInside state List.mem_cons_self)
          (isRun.allFit state List.mem_cons_self) (ih state List.mem_cons_self) isStep
          (areGiven _ _ _ (.step isRun isStep))
      · exact ih other isPast

/-- In a program that a text stands for, the facts describe every state of every walk
exactly when the variable of each converting statement that a walk executes is not
constant in the fact that follows. -/
theorem describes_iff {text : String} (isProgram : Program.ofText text = .ok program)
    (areFacts : program.propagateConstants steps id = .ok facts) :
    (∀ run, Run program (program.methodDef id) run →
      ∀ state ∈ run, Describes program facts state) ↔
    ∀ next state past, Run program (program.methodDef id) (next :: state :: past) →
      ∀ target, Converts program ((program.methodDef id).flow.stmtAt state.node) target →
        (facts.before.get next.node).get target = .notConstant := by
  constructor
  · intro describes next state past isRun target converts
    cases isRun with
    | step isPast isStep =>
        cases isStep with
        | mk isArc isSource able takes assigns =>
            obtain ⟨isDef, isInt⟩ := converts.def?_eq
            have described (word : Int32) (isFlag : word = 0 ∨ word = 1) :=
              describes _ (.step isPast (.mk isArc isSource able takes (.gives isDef
                (converts.gives (isPast.allFit state List.mem_cons_self) isFlag))))
                _ List.mem_cons_self target word isInt (Function.update_self _ _ _)
            rcases described 0 (.inl rfl) with isZero | isTop
            · rcases described 1 (.inr rfl) with isOne | isTop
              · cases isZero.symm.trans isOne
              · exact isTop
            · exact isTop
  · intro areGiven run isRun
    exact describes_of_run areFacts (Program.jumpsInside_ofText isProgram id)
      (fun _ isThis => Program.holdsInt_this_ofText isProgram isThis) areGiven isRun

/-- An integer is copied from a variable of another type on one of two ways to a statement,
after a parameter has been copied to the same variable. -/
def joinedText : String := "class Main { static method main(long l, int c) : int { var int x;
  x = c; if c == x goto J; x = l; J: return x; } }"

/-- The copy is followed by a fact in which its variable is not constant, because of the other
way. -/
theorem describes_joined : ∃ program facts, Program.ofText joinedText = .ok program ∧
    program.propagateConstants 6 0 = .ok facts ∧
    Converts program ((program.methodDef 0).stmt 2) 2 ∧
    ∀ run, Run program (program.methodDef 0) run →
      ∀ state ∈ run, Describes program facts state := by
  have passes : (Program.ofText joinedText).toOption.any (fun program =>
      (program.propagateConstants 6 0).toOption.any fun facts =>
        decide (Converts program ((program.methodDef 0).stmt 2) 2 ∧
          ∀ arc ∈ (program.methodDef 0).flow.graph.arcs,
            ∀ target ∈ ((program.methodDef 0).flow.stmtAt arc.source).def?,
              Converts program ((program.methodDef 0).flow.stmtAt arc.source) target →
                (facts.before.get arc.target).get target = .notConstant)) = true := by
    decide +kernel
  obtain ⟨program, isProgram, ends⟩ := exists_of_test passes
  obtain ⟨facts, areFacts, holds⟩ := exists_of_test ends
  obtain ⟨converts, areGiven⟩ := of_decide_eq_true holds
  refine ⟨program, facts, isProgram, areFacts, converts,
    (describes_iff isProgram areFacts).mpr ?_⟩
  intro next state past isRun target converts
  cases isRun with
  | step _ isStep =>
      cases isStep with
      | mk isArc isSource =>
          rw [← isSource] at converts
          exact areGiven _ isArc target converts.def?_eq.1 converts

/-- An integer is copied from a variable of another type on one of two ways to a statement,
and a constant on the other one. -/
def chosenText : String := "class Main { static method main(long l, int c) : int { var int x;
  x = 1; if c == x goto J; x = l; J: return x; } }"

/-- The statements of the method: its parameters are variables 0 and 1. -/
def chosenBody : Array Stmt :=
  #[.literal 2 (.int 1), .branch ⟨.eq, 1, 2⟩ 3, .copy 2 0, .ret (some 2)]

/-- The parameters of the method, its other variable not being assigned yet. -/
def chosenVars : Store
  | 0 => some (.other 0)
  | 1 => some (.word 5)
  | _ => none

/-- The walk that copies the parameter of the other type, which happens to give seven. -/
theorem run_chosen {method : MethodDef} (isBody : method.body = chosenBody)
    (areEntryVars : method.entryVars = [0, 1]) (isOther : program.holdsInt 0 = false)
    (isParam : program.holdsInt 1 = true) (isInt : program.holdsInt 2 = true) :
    Run program method [
      ⟨.stmt 3, Function.update (Function.update chosenVars 2 (some (.word 1))) 2
        (some (.word 7))⟩,
      ⟨.stmt 2, Function.update chosenVars 2 (some (.word 1))⟩,
      ⟨.stmt 1, Function.update chosenVars 2 (some (.word 1))⟩,
      ⟨.stmt 0, chosenVars⟩, ⟨.entry, chosenVars⟩] := by
  have isArc (arc : Arc FlowNode Branch) (isIn : arc ∈ flowArcs chosenBody) :
      arc ∈ method.flow.graph.arcs := by
    rw [← isBody] at isIn
    exact isIn
  have isStmt (index : Nat) : method.flow.stmtAt (.stmt index) = chosenBody.getD index .nop := by
    rw [← isBody]
    rfl
  have starts : Starts program method ⟨.entry, chosenVars⟩ := by
    refine ⟨rfl, fun var isEntryVar => ?_, fun var isLocal => ?_⟩
    · rw [areEntryVars] at isEntryVar
      rcases List.mem_cons.mp isEntryVar with rfl | isLast
      · exact ⟨_, rfl, isOther⟩
      · cases List.mem_singleton.mp isLast
        exact ⟨_, rfl, isParam⟩
    · rw [areEntryVars] at isLocal
      match var with
      | 0 | 1 => simp at isLocal
      | _ + 2 => rfl
  have enters : Step program method ⟨.entry, chosenVars⟩ ⟨.stmt 0, chosenVars⟩ :=
    .mk (isArc ⟨.entry, .sequence, .stmt 0⟩ (by decide)) rfl ⟨nofun, nofun⟩ trivial
      (.nothing rfl)
  refine .step (.step (.step (.step (.start starts) enters) ?sets) ?passes) ?copies
  case sets =>
    refine .mk (isArc ⟨.stmt 0, .sequence, .stmt 1⟩ (by decide)) rfl ?_ ?_ ?_ <;> rw [isStmt]
    · exact ⟨nofun, nofun⟩
    · trivial
    · exact .gives rfl (.determined rfl isInt)
  case passes =>
    -- Five is not one, so that the condition is false.
    refine .mk (isArc ⟨.stmt 1, .ifFalse, .stmt 2⟩ (by decide)) rfl ?_ ?_ ?_ <;> rw [isStmt]
    · refine ⟨fun var isUsed => ?_, nofun⟩
      rcases List.mem_cons.mp (show var ∈ [1, 2] from isUsed) with rfl | isLast
      · exact nofun
      · cases List.mem_singleton.mp isLast
        exact nofun
    · intro left right isLeft isRight
      cases (show some (Content.word 5) = some (.word left) from isLeft)
      cases (show some (Content.word 1) = some (.word right) from isRight)
      rfl
    · exact .nothing rfl
  case copies =>
    refine .mk (isArc ⟨.stmt 2, .sequence, .stmt 3⟩ (by decide)) rfl ?_ ?_ ?_ <;> rw [isStmt]
    · refine ⟨fun var isUsed => ?_, nofun⟩
      cases List.mem_singleton.mp (show var ∈ [0] from isUsed)
      exact nofun
    · trivial
    · refine .gives rfl (.any (fun known isKnown fits => ?_) isInt nofun)
      cases (show some (Content.other 0) = some known from isKnown)
      cases isInt.symm.trans fits

/-- The facts may be wrong: they give the variable the constant of one way, although the other
way has been taken. -/
theorem not_describes_chosen : ∃ program facts run state,
    Program.ofText chosenText = .ok program ∧ program.propagateConstants 6 0 = .ok facts ∧
    Run program (program.methodDef 0) run ∧ state ∈ run ∧ state.node = .stmt 3 ∧
    program.holdsInt 2 = true ∧ state.vars 2 = some (.word 7) ∧
    (facts.before.get state.node).get 2 = .constant 1 ∧ ¬ Describes program facts state := by
  have passes : (Program.ofText chosenText).toOption.any (fun program =>
      (program.propagateConstants 6 0).toOption.any fun facts =>
        decide ((program.methodDef 0).body = chosenBody ∧
          (program.methodDef 0).entryVars = [0, 1] ∧ program.holdsInt 0 = false ∧
          program.holdsInt 1 = true ∧ program.holdsInt 2 = true ∧
          (facts.before.get (.stmt 3)).get 2 = .constant 1)) = true := by decide +kernel
  obtain ⟨program, isProgram, ends⟩ := exists_of_test passes
  obtain ⟨facts, areFacts, holds⟩ := exists_of_test ends
  obtain ⟨isBody, areEntryVars, isOther, isParam, isInt, isWrong⟩ := of_decide_eq_true holds
  refine ⟨program, facts, _, _, isProgram, areFacts,
    run_chosen isBody areEntryVars isOther isParam isInt, List.mem_cons_self, rfl, isInt, rfl,
    isWrong, fun describes => ?_⟩
  rcases describes 2 7 isInt rfl with isSeven | isTop
  · cases isWrong.symm.trans isSeven
  · cases isWrong.symm.trans isTop

end Runs

end Walk

end TacAnalysis
