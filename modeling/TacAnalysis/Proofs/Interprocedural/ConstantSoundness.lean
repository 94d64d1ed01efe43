/-
# Soundness of constants across methods

Along every run of a program across its methods, the fact before the node about to be
executed gives each variable that holds an integer either that integer or the value not
constant, provided that integers are only made, handed over and returned from integers.
The invariant is about the whole stack: each waiting caller is at a call linked to the
method above it, and the fact before that call still describes its variables. Returning
combines this fact, which flows around the call, with the one at the exit of the method.
-/

import TacAnalysis.Proofs.Dataflow.ConstantSoundness
import TacAnalysis.Proofs.Execution.Calls
import TacAnalysis.Proofs.Interprocedural.Constants

namespace TacAnalysis

namespace Calls

open Walk (Able AllFit Content Converts)

variable {program : Program} {calls : CallGraph Site MethodId} {steps : Nat}
  {facts : NodeFacts MethodNode ConstFact}

/-- A statement takes integers from integers: a copy or an operator that defines an integer
reads integers, the arguments of a call for parameters that hold integers hold integers, and so
do the variables returned for a result that holds integers, whatever method the call may
run. -/
structure KeepsInts (program : Program) (stmt : Stmt) : Prop where
  computed : ∀ target, ¬ Converts program stmt target
  handedOver : ∀ invoke, stmt = .call invoke → ∀ callee ∈ program.resolve invoke,
    ∀ handover ∈ invoke.args.zip (program.methodDef callee).params,
      program.holdsInt handover.2 = true → program.holdsInt handover.1 = true
  returned : ∀ invoke, stmt = .call invoke → ∀ callee ∈ program.resolve invoke,
    ∀ result, invoke.result = some result → program.holdsInt result = true →
      ∀ var ∈ (program.methodDef callee).returned, program.holdsInt var = true

theorem keepsInts_iff {stmt : Stmt} : KeepsInts program stmt ↔
    (∀ target ∈ stmt.def?, ¬ Converts program stmt target) ∧
      ∀ invoke ∈ stmt.invoke?, ∀ callee ∈ program.resolve invoke,
        (∀ handover ∈ invoke.args.zip (program.methodDef callee).params,
          program.holdsInt handover.2 = true → program.holdsInt handover.1 = true) ∧
        ∀ result ∈ invoke.result, program.holdsInt result = true →
          ∀ var ∈ (program.methodDef callee).returned, program.holdsInt var = true := by
  constructor
  · intro keeps
    refine ⟨fun target _ => keeps.computed target, fun invoke isInvoke callee isCallee => ?_⟩
    have isCall := Stmt.invoke?_eq_some_iff.mp isInvoke
    exact ⟨keeps.handedOver invoke isCall callee isCallee,
      keeps.returned invoke isCall callee isCallee⟩
  · rintro ⟨areComputed, areCalled⟩
    refine ⟨fun target converts => areComputed target converts.def?_eq.1 converts,
      fun invoke isCall callee isCallee => ?_, fun invoke isCall callee isCallee => ?_⟩
    · exact (areCalled invoke (Stmt.invoke?_eq_some_iff.mpr isCall) callee isCallee).1
    · exact (areCalled invoke (Stmt.invoke?_eq_some_iff.mpr isCall) callee isCallee).2

instance (stmt : Stmt) : Decidable (KeepsInts program stmt) :=
  decidable_of_iff _ keepsInts_iff.symm

/-- The fact before the node about to be executed gives every variable of a frame that holds
an integer that integer, or the value not constant. -/
def Describes (program : Program) (facts : NodeFacts MethodNode ConstFact) (frame : Frame) :
    Prop :=
  ∀ var word, program.holdsInt var = true → frame.vars var = some (.word word) →
    (facts.before.get ⟨frame.method, frame.node⟩).get var = .constant word ∨
      (facts.before.get ⟨frame.method, frame.node⟩).get var = .notConstant

theorem describes_iff_le {frame : Frame} : Describes program facts frame ↔
    ∀ var word, program.holdsInt var = true → frame.vars var = some (.word word) →
      .constant word ≤ (facts.before.get ⟨frame.method, frame.node⟩).get var := by
  simp only [Describes, Value.constant_le_iff]

/-- A frame is at a node of its method, which is one of the graph, its variables hold what
they can, the facts describe it, and it returns what a variable holds that its method may
return. -/
structure Placed (program : Program) (calls : CallGraph Site MethodId)
    (facts : NodeFacts MethodNode ConstFact) (frame : Frame) : Prop where
  isMethod : frame.method ∈ (InterFlow.ofCallGraph program calls).methods
  allFit : AllFit program frame.vars
  describes : Describes program facts frame
  returns : ∀ content, frame.returned = some content → frame.node = .exit ∧
    ∃ var ∈ (program.methodDef frame.method).returned, frame.vars var = some content

/-- The frames of a stack are placed, and each of them but the first one is at a call linked
to the method of the frame before it. -/
inductive Stacked (program : Program) (calls : CallGraph Site MethodId)
    (facts : NodeFacts MethodNode ConstFact) : Frame → List Frame → Prop where
  | bottom {frame : Frame} : Placed program calls facts frame →
      Stacked program calls facts frame []
  | call {frame caller : Frame} {callers : List Frame} {site : Site} :
      Placed program calls facts frame → Stacked program calls facts caller callers →
      caller.method = site.method → caller.node = .stmt site.index →
      frame.method ∈ (InterFlow.ofCallGraph program calls).calleesOf site →
      Stacked program calls facts frame (caller :: callers)

section Stack

variable {frame next : Frame} {callers : List Frame}

theorem Stacked.placed (stacked : Stacked program calls facts frame callers) :
    Placed program calls facts frame := by
  cases stacked with
  | bottom placed => exact placed
  | call placed => exact placed

/-- The frame at the top may go on within its method. -/
theorem Stacked.replace (stacked : Stacked program calls facts frame callers)
    (placed : Placed program calls facts next) (isSame : next.method = frame.method) :
    Stacked program calls facts next callers := by
  cases stacked with
  | bottom => exact .bottom placed
  | call _ stacked isMethod isNode isCallee =>
      exact .call placed stacked isMethod isNode (isSame ▸ isCallee)

end Stack

/-- Only a return statement returns something, and it leads to the exit. -/
theorem exists_of_returned? {method : MethodDef} {arc : Arc FlowNode Branch}
    {vars : Walk.Store} {content : Content} (isArc : arc ∈ method.flow.graph.arcs)
    (isReturned : returned? vars (method.flow.stmtAt arc.source) = some content) :
    arc.target = .exit ∧ ∃ var ∈ method.returned,
      method.flow.stmtAt arc.source = .ret (some var) ∧ vars var = some content := by
  rcases mem_flowArcs isArc with ⟨isEntry, -⟩ | ⟨index, inBody, isSource, isBranch⟩
  · rw [isEntry] at isReturned
    cases isReturned
  · have isStmt : method.flow.stmtAt arc.source = method.body.getD index .nop := by
      rw [isSource]
      rfl
    have isMember : method.body.getD index .nop ∈ method.body := by
      rw [Array.getD, dif_pos inBody]
      exact Array.getElem_mem inBody
    rw [isStmt] at isReturned ⊢
    generalize method.body.getD index .nop = stmt at *
    unfold returned? at isReturned
    split at isReturned
    case h_1 var =>
        exact ⟨congrArg Prod.snd (List.mem_singleton.mp isBranch), var,
          MethodDef.mem_returned.mpr isMember, rfl, isReturned⟩
    case h_2 => cases isReturned

section Steps

variable {frame caller : Frame} {callers : List Frame} {callee : MethodId} {invoke : Invoke}
  {site : Site} {vars : Walk.Store} (isGraph : program.IsHierarchyGraph calls)
  (areFacts : program.interConstantAnalysis.analyze (.ofCallGraph program calls) steps = .ok facts)
  (keeps : ∀ site, KeepsInts program (program.stmt site))

include areFacts keeps

include isGraph in
/-- A statement that is no call that can be resolved leaves the top frame placed. -/
theorem Placed.within (placed : Placed program calls facts frame)
    (areInside : (program.methodDef frame.method).JumpsInside) {next : Walk.State}
    (isPlain : ∀ invoke, (program.methodDef frame.method).flow.stmtAt frame.node = .call invoke →
      program.resolve invoke = [])
    (isStep : Walk.Step program (program.methodDef frame.method) frame.toState next) :
    Placed program calls facts ⟨next, frame.method,
      returned? frame.vars ((program.methodDef frame.method).flow.stmtAt frame.node)⟩ := by
  cases isStep with
  | @mk arc new isArc isSource able takes assigns =>
      have isUnlinked :
          (InterFlow.ofCallGraph program calls).siteAt? ⟨frame.method, arc.source⟩ = none := by
        rw [Option.eq_none_iff_forall_ne_some]
        intro site isSite
        obtain ⟨isPlace, isLinked⟩ := InterFlow.siteAt?_eq_some_iff.mp isSite
        obtain ⟨isMethod, isNode⟩ := MethodNode.mk.inj isPlace
        obtain ⟨callee, isCallee⟩ := List.exists_mem_of_ne_nil _ isLinked
        obtain ⟨-, invoke, isCall, isResolved⟩ :=
          (InterFlow.mem_calleesOf_hierarchy isGraph).mp isCallee
        rw [isPlain invoke (by rw [← isSource, isNode, isMethod]; exact isCall)] at isResolved
        cases isResolved
      have noConversion (target : VarId) : ¬ Converts program
          ((program.methodDef frame.method).flow.stmtAt frame.node) target := by
        rw [← isSource]
        cases arc.source with
        | stmt index => exact (keeps ⟨frame.method, index⟩).computed target
        | entry => exact id
        | exit => exact id
      refine ⟨placed.isMethod, assigns.allFit placed.allFit, ?_, ?_⟩
      · have describes := describes_iff_le.mp placed.describes
        refine describes_iff_le.mpr fun var word isInt isHeld => ?_
        have transferred := Program.constantTransfer_le_interBefore areFacts areInside
          placed.isMethod isArc isUnlinked var
        rw [isSource] at transferred
        exact le_trans (Walk.constant_le_constantTransfer able placed.allFit assigns isInt
          (noConversion var) describes isHeld) transferred
      · intro content isReturned
        rw [← isSource] at isReturned assigns
        obtain ⟨isExit, var, isVar, isRet, isHeld⟩ := exists_of_returned? isArc isReturned
        rw [isRet] at assigns
        exact ⟨isExit, var, isVar, (assigns.eq_of_ne nofun).trans isHeld⟩

/-- The callee of a call is entered with variables that the facts describe. -/
theorem Placed.enter (placed : Placed program calls facts frame)
    (noThis : ∀ var, (program.methodDef callee).this = some var → program.holdsInt var = false)
    (isMethod : frame.method = site.method) (isNode : frame.node = .stmt site.index)
    (isCall : program.stmt site = .call invoke) (isResolved : callee ∈ program.resolve invoke)
    (isCallee : callee ∈ (InterFlow.ofCallGraph program calls).calleesOf site)
    (enters : Enters program invoke frame.vars (program.methodDef callee) vars) :
    Placed program calls facts ⟨⟨.entry, vars⟩, callee, none⟩ := by
  refine ⟨(InterFlow.mem_calleesOf.mp isCallee).2.2.2, enters.allFit, ?_, nofun⟩
  have describes := describes_iff_le.mp placed.describes
  rw [isMethod, isNode] at describes
  refine describes_iff_le.mpr fun var word isInt isHeld => ?_
  have areBindings : program.bindings site callee =
      invoke.args.zip (program.methodDef callee).params := by
    rw [Program.bindings, isCall]
    rfl
  -- Since the receiver is no integer, the word has been handed over from an argument.
  have isParam : ∃ arg, (arg, var) ∈ program.bindings site callee := by
    rw [areBindings]
    by_contra isLocal
    have isUnassigned : vars var = none := by
      refine enters.others var fun handover isHandover isVar => ?_
      subst isVar
      rcases List.mem_append.mp isHandover with isThis | isArg
      · have isThis := Option.mem_toList.mp (List.of_mem_zip isThis).2
        cases isInt.symm.trans (noThis _ isThis)
      · exact isLocal ⟨_, isArg⟩
    cases isUnassigned.symm.trans isHeld
  refine le_trans (Program.le_get_enterFact isParam isInt fun arg isBound => ?_)
    (Program.enterFact_le_before areFacts isCallee var)
  rw [areBindings] at isBound
  obtain ⟨held, content, isGiven, isReceived, receives⟩ :=
    enters.receives (arg, var) (List.mem_append_right _ isBound)
  cases isReceived.symm.trans isHeld
  have argIsInt := (keeps site).handedOver invoke isCall callee isResolved _ isBound isInt
  cases receives.eq_word (placed.allFit arg held isGiven) argIsInt
  exact describes arg word argIsInt isGiven

/-- A caller goes on with variables that the facts describe. -/
theorem Placed.resume (placed : Placed program calls facts frame)
    (callerPlaced : Placed program calls facts caller)
    (areInside : (program.methodDef caller.method).JumpsInside)
    (isMethod : caller.method = site.method) (isNode : caller.node = .stmt site.index)
    (isCall : program.stmt site = .call invoke)
    (isResolved : frame.method ∈ program.resolve invoke)
    (isCallee : frame.method ∈ (InterFlow.ofCallGraph program calls).calleesOf site)
    (isExit : frame.node = .exit) {arc : Arc FlowNode Branch}
    (isArc : arc ∈ (program.methodDef caller.method).flow.graph.arcs)
    (isSource : arc.source = caller.node)
    (resumes : Resumes program caller.vars invoke.result frame.returned vars) :
    Placed program calls facts ⟨⟨arc.target, vars⟩, caller.method, none⟩ := by
  refine ⟨callerPlaced.isMethod, resumes.allFit callerPlaced.allFit, ?_, nofun⟩
  have describes := describes_iff_le.mp callerPlaced.describes
  have calleeDescribes := describes_iff_le.mp placed.describes
  rw [isNode] at describes isSource
  rw [isExit] at calleeDescribes
  rw [isMethod] at describes areInside isArc ⊢
  refine describes_iff_le.mpr fun var word isInt isHeld => ?_
  change vars var = some (.word word) at isHeld
  have isDef : (program.stmt site).def? = invoke.result := by rw [isCall]; rfl
  by_cases isResult : invoke.result = some var
  · rw [isResult] at resumes
    obtain ⟨held, isReturned, receives⟩ := resumes.receives isHeld
    obtain ⟨-, source, isSourceVar, isGiven⟩ := placed.returns held isReturned
    have sourceIsInt := (keeps site).returned invoke isCall frame.method isResolved var isResult
      isInt source isSourceVar
    cases receives.eq_word (placed.allFit source held isGiven) sourceIsInt
    have left := Program.leaveFact_le_before areFacts areInside isCallee isArc isSource var
    rw [Program.get_leaveFact, if_pos ⟨isDef.trans isResult, isInt⟩] at left
    calc Value.constant word
      _ ≤ (facts.before.get ⟨frame.method, .exit⟩).get source :=
        calleeDescribes source word sourceIsInt isGiven
      _ ≤ program.returnedValue frame.method (facts.before.get ⟨frame.method, .exit⟩) :=
        Program.get_le_returnedValue isSourceVar
      _ ≤ (facts.before.get ⟨site.method, arc.target⟩).get var := left
  · rw [resumes.eq_of_ne isResult] at isHeld
    have around := Program.bypassFact_le_before areFacts areInside isCallee isArc isSource var
    rw [Program.get_bypassFact, if_neg (isDef ▸ isResult)] at around
    exact le_trans (describes var word isInt isHeld) around

end Steps

section Runs

variable (isGraph : program.IsHierarchyGraph calls)
  (areFacts : program.interConstantAnalysis.analyze (.ofCallGraph program calls) steps = .ok facts)
  (keeps : ∀ site, KeepsInts program (program.stmt site))
  (areInside : ∀ id, (program.methodDef id).JumpsInside)
  (noThis : ∀ id var, (program.methodDef id).this = some var → program.holdsInt var = false)

include isGraph areFacts noThis

/-- An entry method is entered with variables that the facts describe. -/
theorem Starts.placed {state : State} (starts : Starts program state) :
    Placed program calls facts state.active := by
  have isMethod : state.active.method ∈ (InterFlow.ofCallGraph program calls).methods :=
    InterFlow.mem_methods.mpr ⟨isGraph.started _ starts.isEntry, starts.hasBody⟩
  refine ⟨isMethod, (Walk.Run.start starts.vars).allFit _ List.mem_cons_self, ?_, ?_⟩
  · refine describes_iff_le.mpr fun var word isInt isHeld => ?_
    have isBelow := Program.unknownArguments_le_before areFacts
      ((isGraph.entries _).mpr starts.isEntry) isMethod var
    change (program.unknownArguments (program.methodDef state.active.method)).get var ≤ _
      at isBelow
    rw [starts.vars.unknownArguments_eq (noThis _) isInt isHeld] at isBelow
    rw [starts.vars.node]
    exact le_trans (Value.le_notConstant _) isBelow
  · rw [starts.returned]
    exact nofun

include keeps areInside

/-- A step of a run leaves the stack in order. -/
theorem Stacked.step {state next : State}
    (stacked : Stacked program calls facts state.active state.callers)
    (isStep : Step program state next) :
    Stacked program calls facts next.active next.callers := by
  cases isStep with
  | within isPlain isStep =>
      exact stacked.replace
        (stacked.placed.within isGraph areFacts keeps (areInside _) isPlain isStep) rfl
  | @call frame callers invoke callee vars isCall able isResolved enters =>
      cases isNode : frame.node with
      | entry =>
          rw [isNode] at isCall
          cases isCall
      | exit =>
          rw [isNode] at isCall
          cases isCall
      | stmt index =>
          rw [isNode] at isCall
          have isSite : program.stmt ⟨frame.method, index⟩ = .call invoke := isCall
          have isCallee : callee ∈
              (InterFlow.ofCallGraph program calls).calleesOf ⟨frame.method, index⟩ :=
            (InterFlow.mem_calleesOf_hierarchy isGraph).mpr
              ⟨stacked.placed.isMethod, invoke, isSite, isResolved⟩
          exact .call (stacked.placed.enter areFacts keeps (noThis callee) rfl isNode isSite
            isResolved isCallee enters) stacked rfl isNode isCallee
  | @ret frame caller callers arc vars isExit isArc isSource resumes =>
      cases stacked with
      | call placed stacked isMethod isNode isCallee =>
          obtain ⟨-, invoke, isCall, isResolved⟩ :=
            (InterFlow.mem_calleesOf_hierarchy isGraph).mp isCallee
          have isStmt : (program.methodDef caller.method).flow.stmtAt caller.node =
              .call invoke := by
            rw [isMethod, isNode]
            exact isCall
          rw [isStmt] at resumes
          exact stacked.replace (placed.resume areFacts keeps stacked.placed (areInside _) isMethod
            isNode isCall isResolved isCallee isExit isArc isSource resumes) rfl

/-- The stack is in order all along a run. -/
theorem Run.stacked {run : List State} (isRun : Run program run) :
    ∀ state ∈ run, Stacked program calls facts state.active state.callers := by
  induction isRun with
  | start starts =>
      intro state isState
      rw [List.mem_singleton.mp isState, starts.callers]
      exact .bottom (starts.placed isGraph areFacts noThis)
  | step _ isStep ih =>
      intro state isState
      rcases List.mem_cons.mp isState with rfl | isPast
      · exact (ih _ List.mem_cons_self).step isGraph areFacts keeps areInside noThis isStep
      · exact ih state isPast

end Runs

/-- In a program that a text stands for and in which integers come from integers, the facts
of constant propagation across methods describe the method being executed all along every
run. -/
theorem describes_active {text : String} (isProgram : Program.ofText text = .ok program)
    (keeps : ∀ site, KeepsInts program (program.stmt site))
    (areFacts : program.propagateConstantsAcross steps = .ok facts)
    {run : List State} (isRun : Run program run) :
    ∀ state ∈ run, Describes program facts state.active := by
  obtain ⟨calls, isGraph, areFacts⟩ := Program.propagateConstantsAcross_eq_ok_iff.mp areFacts
  intro state isState
  exact (isRun.stacked (Program.isHierarchyGraph isGraph) areFacts keeps
    (Program.jumpsInside_ofText isProgram) (fun _ _ => Program.holdsInt_this_ofText isProgram)
    state isState).placed.describes

/-- Executing a statement other than a call is a step of the method being executed. -/
theorem Step.of_walk {method : MethodDef} {id : MethodId} {state next : Walk.State}
    {callers : List Frame} {given returned : Option Content}
    (isMethod : program.methodDef id = method)
    (isPlain : (method.flow.stmtAt state.node).invoke? = none)
    (isReturned : returned? state.vars (method.flow.stmtAt state.node) = returned)
    (isStep : Walk.Step program method state next) :
    Step program ⟨⟨state, id, given⟩, callers⟩ ⟨⟨next, id, returned⟩, callers⟩ := by
  subst isMethod isReturned
  refine .within (fun invoke isCall => ?_) isStep
  rw [show (program.methodDef id).flow.stmtAt state.node = .call invoke from isCall] at isPlain
  cases isPlain

/-- A method calls itself with one unless that is what it has been given, and returns one in
the end. -/
def againText : String := "class Main { static method main(int n) : int { var int x, y;
  x = 1; if n == x goto D; y = invokestatic <Main: int main(int)>(x); return y; D: return x; } }"

/-- The call: its argument is variable 1, its result variable 2. -/
def againCall : Invoke := ⟨some 2, .static, ⟨1, "main", [.int], .int⟩, none, [1]⟩

/-- The method, whose parameter is variable 0. -/
def againMethod : MethodDef where
  owner := 1
  sub := ⟨"main", [.int], .int⟩
  isStatic := true
  isAbstract := false
  this := none
  params := [0]
  vars := [0, 1, 2]
  body := #[.literal 1 (.int 1), .branch ⟨.eq, 0, 1⟩ 4, .call againCall, .ret (some 2),
    .ret (some 1)]

/-- The variables of the method when it is given an integer. -/
def givenVars (word : Int32) : Walk.Store := Function.update (fun _ => none) 0 (some (.word word))

/-- The variables of the method once the constant has been assigned. -/
def setVars (word : Int32) : Walk.Store := Function.update (givenVars word) 1 (some (.word 1))

/-- The condition can be evaluated whatever the method is given. -/
theorem able_again (word : Int32) : Able (setVars word) (.branch ⟨.eq, 0, 1⟩ 4) := by
  refine ⟨fun var isUsed => ?_, nofun⟩
  rcases List.mem_cons.mp (show var ∈ [0, 1] from isUsed) with rfl | isLast
  · exact nofun
  · cases List.mem_singleton.mp isLast
    exact nofun

/-- The condition compares what the method is given with one. -/
theorem takes_again {word : Int32} {branch : Branch}
    (isBranch : branch = if BinOp.eq.result word.toInt 1 = 0 then .ifFalse else .ifTrue) :
    Walk.Takes (setVars word) (.branch ⟨.eq, 0, 1⟩ 4) branch := by
  intro left right isLeft isRight
  cases (show some (Content.word word) = some (.word left) from isLeft)
  cases (show some (Content.word 1) = some (.word right) from isRight)
  exact isBranch

section Again

variable (isMethod : program.methodDef 0 = againMethod)
  (areInts : ∀ var ∈ [0, 1, 2], program.holdsInt var = true)

include isMethod areInts

/-- The method assigns the constant whatever it is given. -/
theorem Run.sets {word : Int32} {callers : List Frame} {past : List State}
    (isRun : Run program (⟨⟨⟨.entry, givenVars word⟩, 0, none⟩, callers⟩ :: past)) :
    ∃ past, Run program (⟨⟨⟨.stmt 1, setVars word⟩, 0, none⟩, callers⟩ :: past) := by
  have begins : Walk.Step program againMethod ⟨.entry, givenVars word⟩ ⟨.stmt 0, givenVars word⟩ :=
    .mk (show ⟨.entry, .sequence, .stmt 0⟩ ∈ againMethod.flow.graph.arcs by decide) rfl
      ⟨nofun, nofun⟩ trivial (.nothing rfl)
  have sets : Walk.Step program againMethod ⟨.stmt 0, givenVars word⟩ ⟨.stmt 1, setVars word⟩ :=
    .mk (show ⟨.stmt 0, .sequence, .stmt 1⟩ ∈ againMethod.flow.graph.arcs by decide) rfl
      ⟨nofun, nofun⟩ trivial (.gives rfl (.determined rfl (areInts 1 (by decide))))
  exact ⟨_, (isRun.step (.of_walk isMethod rfl rfl begins)).step (.of_walk isMethod rfl rfl sets)⟩

/-- The run that is given five, calls the method again and comes back with one. -/
theorem exists_run_again (isEntry : 0 ∈ program.entries)
    (isResolved : program.resolve againCall = [0]) :
    ∃ past, Run program (⟨⟨⟨.stmt 3, Function.update (setVars 5) 2 (some (.word 1))⟩, 0, none⟩,
      []⟩ :: past) := by
  have starts : Starts program ⟨⟨⟨.entry, givenVars 5⟩, 0, none⟩, []⟩ := by
    refine ⟨isEntry, by rw [isMethod]; rfl, ⟨rfl, ?_, ?_⟩, rfl, rfl⟩
    · rw [isMethod]
      intro var isParam
      cases List.mem_singleton.mp (show var ∈ [0] from isParam)
      exact ⟨_, rfl, areInts 0 (by decide)⟩
    · rw [isMethod]
      intro var isLocal
      have isOther : var ≠ 0 := fun isParam => isLocal (isParam ▸ List.mem_cons_self)
      show givenVars 5 var = none
      rw [givenVars, Function.update_of_ne isOther]
  have goesOn : Walk.Step program againMethod ⟨.stmt 1, setVars 5⟩ ⟨.stmt 2, setVars 5⟩ :=
    .mk (show ⟨.stmt 1, .ifFalse, .stmt 2⟩ ∈ againMethod.flow.graph.arcs by decide) rfl
      (able_again 5) (takes_again (by decide)) (.nothing rfl)
  have callsAgain : Step program ⟨⟨⟨.stmt 2, setVars 5⟩, 0, none⟩, []⟩
      ⟨⟨⟨.entry, givenVars 1⟩, 0, none⟩, [⟨⟨.stmt 2, setVars 5⟩, 0, none⟩]⟩ := by
    refine .call (by rw [isMethod]; rfl) ⟨fun var isUsed => ?_, nofun⟩
      (by rw [isResolved]; exact List.mem_cons_self) ⟨?_, ?_⟩
    · cases List.mem_singleton.mp (show var ∈ [1] from isUsed)
      exact nofun
    · rw [isMethod]
      intro handover isHandover
      cases List.mem_singleton.mp (show handover ∈ [(1, 0)] from isHandover)
      exact ⟨_, _, rfl, rfl, .same (areInts 0 (by decide))⟩
    · rw [isMethod]
      intro var isLocal
      exact Function.update_of_ne (isLocal (1, 0) List.mem_cons_self).symm _ _
  have skips : Walk.Step program againMethod ⟨.stmt 1, setVars 1⟩ ⟨.stmt 4, setVars 1⟩ :=
    .mk (show ⟨.stmt 1, .ifTrue, .stmt 4⟩ ∈ againMethod.flow.graph.arcs by decide) rfl
      (able_again 1) (takes_again (by decide)) (.nothing rfl)
  have leaves : Walk.Step program againMethod ⟨.stmt 4, setVars 1⟩ ⟨.exit, setVars 1⟩ := by
    refine .mk (show ⟨.stmt 4, .leave, .exit⟩ ∈ againMethod.flow.graph.arcs by decide) rfl
      ⟨fun var isUsed => ?_, nofun⟩ trivial (.nothing rfl)
    cases List.mem_singleton.mp (show var ∈ [1] from isUsed)
    exact nofun
  obtain ⟨_, isRun⟩ := Run.sets isMethod areInts (.start starts)
  have isOuterRun := (isRun.step (.of_walk isMethod rfl rfl goesOn)).step callsAgain
  obtain ⟨_, isInnerRun⟩ := Run.sets isMethod areInts isOuterRun
  have isExit : Step program ⟨⟨⟨.stmt 4, setVars 1⟩, 0, none⟩, [⟨⟨.stmt 2, setVars 5⟩, 0, none⟩]⟩
      ⟨⟨⟨.exit, setVars 1⟩, 0, some (.word 1)⟩, [⟨⟨.stmt 2, setVars 5⟩, 0, none⟩]⟩ :=
    .of_walk isMethod rfl rfl leaves
  have isExitRun := (isInnerRun.step (.of_walk isMethod rfl rfl skips)).step isExit
  have isArc : ⟨.stmt 2, .sequence, .stmt 3⟩ ∈ (program.methodDef 0).flow.graph.arcs := by
    rw [isMethod]
    decide
  have returns : Resumes program (setVars 5)
      ((program.methodDef 0).flow.stmtAt (.stmt 2)).def? (some (.word 1))
      (Function.update (setVars 5) 2 (some (.word 1))) := by
    rw [isMethod]
    exact .value (.same (areInts 2 (by decide)))
  exact ⟨_, isExitRun.step (@Step.ret _ _ ⟨⟨.stmt 2, setVars 5⟩, 0, none⟩ _
    ⟨.stmt 2, .sequence, .stmt 3⟩ _ rfl isArc rfl returns)⟩

end Again

/-- The facts give the one that comes back to the caller, although the parameter is not
constant. -/
theorem describes_active_again : ∃ program facts past,
    Program.ofText againText = .ok program ∧
    (∀ site, KeepsInts program (program.stmt site)) ∧
    program.propagateConstantsAcross 40 = .ok facts ∧
    (facts.before.get ⟨0, .stmt 3⟩).get 0 = .notConstant ∧
    (facts.before.get ⟨0, .stmt 3⟩).get 2 = .constant 1 ∧
    Run program (⟨⟨⟨.stmt 3, Function.update (setVars 5) 2 (some (.word 1))⟩, 0, none⟩, []⟩ ::
      past) ∧
    Describes program facts
      ⟨⟨.stmt 3, Function.update (setVars 5) 2 (some (.word 1))⟩, 0, none⟩ := by
  have passes : (Program.ofText againText).toOption.any (fun program =>
      (program.propagateConstantsAcross 40).toOption.any fun facts =>
        decide (program.methodDef 0 = againMethod ∧
          (∀ var ∈ [0, 1, 2], program.holdsInt var = true) ∧ 0 ∈ program.entries ∧
          program.resolve againCall = [0] ∧
          (∀ id < program.methods.size, ∀ site ∈ program.sitesOf id,
            KeepsInts program (program.stmt site)) ∧
          (facts.before.get ⟨0, .stmt 3⟩).get 0 = .notConstant ∧
          (facts.before.get ⟨0, .stmt 3⟩).get 2 = .constant 1)) = true := by
    decide +kernel
  obtain ⟨program, isProgram, ends⟩ := exists_of_test passes
  obtain ⟨facts, areFacts, holds⟩ := exists_of_test ends
  obtain ⟨isMethod, areInts, isEntry, isResolved, areKept, isTop, isOne⟩ :=
    of_decide_eq_true holds
  have keeps (site : Site) : KeepsInts program (program.stmt site) := by
    by_cases isStmt : program.stmt site = .nop
    · rw [isStmt]
      exact ⟨fun _ => id, nofun, nofun⟩
    · exact areKept site.method (Program.lt_size_of_stmt isStmt) site (Program.mem_sitesOf isStmt)
  obtain ⟨past, isRun⟩ := exists_run_again isMethod areInts isEntry isResolved
  exact ⟨program, facts, past, isProgram, keeps, areFacts, isTop, isOne, isRun,
    describes_active isProgram keeps areFacts isRun _ List.mem_cons_self⟩

end Calls

end TacAnalysis
