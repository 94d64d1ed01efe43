/-
# Contexts tell receivers apart

With receivers for contexts, a method that is called on an object runs in the context of
the object with the object itself more. Contexts of objects are one element shorter than
those of methods, so that nothing is forgotten on such a call, and the context tells which
object it was. Unless its statements assign it, the variable for the receiver gets objects
from these calls only: a static call may run the method too, in the context of its caller,
but then passes no object to the variable.
-/

import TacAnalysis.Proofs.PointsTo.Bounds
import TacAnalysis.Proofs.PointsTo.Settled
import TacAnalysis.Proofs.PointsTo.Shortening
import TacAnalysis.Proofs.Resolution.Members

namespace TacAnalysis.PointsTo

/-- A variable stands for the receiver of a method, and no statement of the method assigns
it. -/
structure IsReceiver (program : Program) (method : MethodId) (this : VarId) : Prop where
  isThis : (program.methodDef method).this = some this
  steady : ∀ stmt ∈ (program.methodDef method).body, stmt.def? ≠ some this

/-- Contexts of objects are shorter than those of methods, and a variable holds only objects
that its contexts end in. Nothing flows to it. -/
def Finding.EndsIn (this : VarId) (limit : Nat) : Finding → Prop
  | .holds place object => object.context.length ≤ limit ∧
      ∀ context, place = .var this context → context = object.context ++ [.receiver object.site]
  | .flows _ target => ∀ context, target ≠ .var this context
  | _ => True

section Closed

variable {program : Program} {method : MethodId} {this var : VarId} {limit : Nat}

/-- A variable that a statement assigns is another one. -/
theorem IsReceiver.ne_of_def (isReceiver : IsReceiver program method this)
    (owned : program.Owned) (owns : program.OwnsEntryVars) {site : Site}
    (isDef : (program.stmt site).def? = some var) : var ≠ this := by
  rintro rfl
  have isEntryVar : var ∈ (program.methodDef method).entryVars :=
    List.mem_append_left _ (Option.mem_toList.mpr isReceiver.isThis)
  have sameMethod : site.method = method :=
    (owned site var (.inl isDef)).2.symm.trans (owns method var isEntryVar).2
  rw [Program.stmt, MethodDef.stmt, Array.getD_eq_getD_getElem?, sameMethod] at isDef
  cases isStmt : (program.methodDef method).body[site.index]? with
  | none =>
      rw [isStmt] at isDef
      cases isDef
  | some stmt =>
      rw [isStmt] at isDef
      exact isReceiver.steady stmt (Array.mem_of_getElem? isStmt) isDef

/-- A parameter of a method is another variable. -/
theorem IsReceiver.ne_of_parameter (isReceiver : IsReceiver program method this)
    (owns : program.OwnsEntryVars) (fit : program.MembersFit) {callee : MethodId}
    (isParameter : var ∈ (program.methodDef callee).params) : var ≠ this := by
  rintro rfl
  have isEntryVar : var ∈ (program.methodDef callee).entryVars :=
    List.mem_append_right _ isParameter
  have isThis := Option.mem_toList.mpr isReceiver.isThis
  have sameMethod : callee = method :=
    (owns callee var isEntryVar).2.symm.trans (owns method var (List.mem_append_left _ isThis)).2
  rw [sameMethod] at isParameter
  exact (List.nodup_append.mp (fit.nodup_entryVars method)).2.2 var isThis var isParameter rfl

/-- The context in which a method runs that is called on an object ends in the object. -/
theorem receiverList_eq {context : List ContextItem} {site : Site} {object : Origin}
    (isShort : object.context.length ≤ limit) :
    Selector.receiverList (.receivers (limit + 1)) context site object =
      object.context ++ [.receiver object.site] := by
  rw [Selector.receiverList, Selector.calleeList, mostRecent_append, mostRecent_eq_self isShort]

/-- No rule leads out of the findings in which a receiver is what its contexts end in. -/
theorem closed_endsIn (isReceiver : IsReceiver program method this) (owned : program.Owned)
    (owns : program.OwnsEntryVars) (fit : program.MembersFit) :
    Closed program (.receivers (limit + 1)) {finding | finding.EndsIn this limit} := by
  have assigned {site : Site} {var : VarId} {context : List ContextItem}
      (isDef : (program.stmt site).def? = some var) (other : List ContextItem) :
      Place.var var context ≠ .var this other := by
    intro same
    exact isReceiver.ne_of_def owned owns isDef (Place.var.inj same).1
  constructor
  case entry =>
      intros
      exact trivial
  case allocation =>
      intro context site target ty _ isNew
      refine ⟨length_mostRecent_le, fun other same => ?_⟩
      exact absurd same (assigned (by rw [isNew]; rfl) other)
  case copy =>
      intro context site target source _ isCopy _
      exact assigned (by rw [isCopy]; rfl)
  case cast =>
      intro context site target source ty _ isCast _
      exact assigned (by rw [isCast]; rfl)
  case staticLoad =>
      intro context site target field _ isLoad _
      exact assigned (by rw [isLoad]; rfl)
  case staticStore =>
      intros
      exact nofun
  case staticCall =>
      intros
      exact trivial
  case fieldStore =>
      intros
      exact nofun
  case fieldLoad =>
      intro context site base target field object _ isLoad _
      exact assigned (by rw [isLoad]; rfl)
  case elementStore =>
      intros
      exact nofun
  case elementLoad =>
      intro context site base index target object _ isLoad _
      exact assigned (by rw [isLoad]; rfl)
  case instanceCall =>
      intros
      exact trivial
  case this =>
      intro context site invoke receiver other object callee isHeld _ _ _ _
      refine ⟨isHeld.1, fun ending same => ?_⟩
      rw [receiverList_eq isHeld.1] at same
      exact (Place.var.inj same).2.symm
  case callee =>
      intros
      exact trivial
  case argument =>
      intro kind context site callee invoke argument parameter _ _ isPassed _ other same
      have isParameter := (List.of_mem_zip isPassed).2
      exact isReceiver.ne_of_parameter owns fit isParameter (Place.var.inj same).1
  case result =>
      intro kind context site callee invoke result value _ isCall isResult _ _
      exact assigned (by rw [isCall]; exact isResult)
  case flow =>
      intro source target object isFlow isHeld
      exact ⟨isHeld.1, fun context same => absurd same (isFlow context)⟩

end Closed

namespace State

variable {program : Program} {method : MethodId} {this : VarId} {limit : Nat} {state : State}

/-- A context tells which object a variable holds in it, if it holds any: the context of the
object with the object itself more. -/
structure TellsReceiver (state : State) (this : VarId) (context : ContextId) : Prop where
  atMostOne {id : PointerId} : state.flow.pointer? id = some (.var this context) →
    (state.flow.objects id).elements.length ≤ 1
  endsIn {id : PointerId} {object : QualifiedId} :
    state.flow.pointer? id = some (.var this context) →
    object ∈ (state.flow.objects id).elements →
    state.contexts.get context =
      state.contexts.get (state.heap.qualifiedObject object).context ++
        [.receiver (state.heap.objectOf object)]

section Lawful

variable {context : ContextId}
  (lawful : Lawful program {finding | finding.EndsIn this limit} state)

include lawful

/-- The context of a variable ends in any object that the variable holds. -/
theorem contextList_of_held {id : PointerId} {object : QualifiedId}
    (isVar : state.flow.pointer? id = some (.var this context))
    (isHeld : object ∈ (state.flow.objects id).elements) :
    object < state.heap.qualified.size ∧ state.contextList context =
      (state.origin object).context ++ [.receiver (state.origin object).site] := by
  obtain ⟨pointer, isPointer, known, -, endsIn⟩ := lawful.justified.delivered (.inl isHeld)
  cases isVar.symm.trans isPointer
  exact ⟨known, endsIn _ rfl⟩

/-- Contexts that end in the same way end in the same object. -/
theorem eq_of_held {id : PointerId} {first second : QualifiedId}
    (isVar : state.flow.pointer? id = some (.var this context))
    (isFirst : first ∈ (state.flow.objects id).elements)
    (isSecond : second ∈ (state.flow.objects id).elements) : first = second := by
  obtain ⟨knownFirst, endsInFirst⟩ := contextList_of_held lawful isVar isFirst
  obtain ⟨knownSecond, endsInSecond⟩ := contextList_of_held lawful isVar isSecond
  obtain ⟨sameContext, sameReceiver⟩ :=
    List.append_inj' (endsInFirst.symm.trans endsInSecond) rfl
  have sameSite := ContextItem.receiver.inj (List.cons.inj sameReceiver).1
  have sameOrigin : state.origin first = state.origin second :=
    congrArg₂ Origin.mk sameContext sameSite
  exact lawful.numbered.origin_injective knownFirst knownSecond sameOrigin

theorem get_of_held {id : PointerId} {object : QualifiedId}
    (isVar : state.flow.pointer? id = some (.var this context))
    (isHeld : object ∈ (state.flow.objects id).elements) :
    state.contexts.get context =
      state.contexts.get (state.heap.qualifiedObject object).context ++
        [.receiver (state.heap.objectOf object)] := by
  obtain ⟨known, endsIn⟩ := contextList_of_held lawful isVar isHeld
  refine lawful.numbered.eq_of_map_item (fun _ => lawful.numbered.receiver_known) ?_ ?_
  · intro other isIn
    rcases List.mem_append.mp isIn with isOlder | isLast
    · exact lawful.numbered.receiver_known isOlder
    · cases List.mem_singleton.mp isLast
      exact (lawful.numbered.qualifiedObject known).2
  · rw [List.map_append]
    exact endsIn

end Lawful

/-- With receivers for contexts, the context of a method that does not assign its receiver
tells which object the method is called on. -/
theorem tellsReceiver_pointsTo {text : String} {steps : Nat} (isLimit : 1 ≤ limit)
    (isProgram : Program.ofText text = .ok program)
    (solved : program.pointsTo (.receivers limit) steps = .ok state)
    (isReceiver : IsReceiver program method this) (context : ContextId) :
    state.TellsReceiver this context := by
  obtain ⟨limit, rfl⟩ := Nat.exists_eq_add_of_le' isLimit
  obtain ⟨lawful, -, -⟩ := complete_solve (closed_endsIn isReceiver
    (Program.owned_ofText isProgram) (Program.ownsEntryVars_ofText isProgram)
    (Program.membersFit_ofText isProgram)) solved
  refine ⟨fun {id} isVar => ?_, get_of_held lawful⟩
  rw [← List.toFinset_card_of_nodup (state.flow.objects id).distinct]
  refine Finset.card_le_one.mpr fun first isFirst second isSecond => ?_
  exact eq_of_held lawful isVar (List.mem_toFinset.mp isFirst) (List.mem_toFinset.mp isSecond)

/-- A program that runs a method on two objects, and without any. -/
def twoReceiversText : String := "class Main { method m() : void { return; }
  static method main() : void { var Main x, y; x = new Main; y = new Main;
  invokevirtual x.<Main: void m()>(); invokevirtual y.<Main: void m()>();
  invokestatic <Main: void m()>(); return; } }"

/-- The method runs in three contexts, and has a receiver in two of them. -/
theorem tellsReceiver_twoReceivers : ∃ program state,
    Program.ofText twoReceiversText = .ok program ∧ 1 ≤ 1 ∧
    program.pointsTo (.receivers 1) 20 = .ok state ∧ IsReceiver program 0 0 ∧
    state.calls.reachable = [⟨0, 1⟩, ⟨0, 0⟩, ⟨1, 0⟩, ⟨2, 0⟩] ∧
    state.flow.number? (.var 0 0) = none ∧
    (state.flow.pointer? 2 = some (.var 0 1) ∧ (state.flow.objects 2).elements = [0]) ∧
    (state.flow.pointer? 3 = some (.var 0 2) ∧ (state.flow.objects 3).elements = [1]) ∧
    ∀ context, state.TellsReceiver 0 context := by
  have passes : (Program.ofText twoReceiversText).toOption.any (fun program =>
      (program.pointsTo (.receivers 1) 20).toOption.any fun state =>
        decide (((program.methodDef 0).this = some 0 ∧
            ∀ stmt ∈ (program.methodDef 0).body, stmt.def? ≠ some 0) ∧
          state.calls.reachable = [⟨0, 1⟩, ⟨0, 0⟩, ⟨1, 0⟩, ⟨2, 0⟩] ∧
          state.flow.number? (.var 0 0) = none ∧
          (state.flow.pointer? 2 = some (.var 0 1) ∧ (state.flow.objects 2).elements = [0]) ∧
          (state.flow.pointer? 3 = some (.var 0 2) ∧
            (state.flow.objects 3).elements = [1]))) = true := by decide +kernel
  obtain ⟨program, isProgram, ends⟩ := exists_of_test passes
  obtain ⟨state, solved, holds⟩ := exists_of_test ends
  obtain ⟨⟨isThis, steady⟩, areReachable, noPointer, holdsFirst, holdsSecond⟩ :=
    of_decide_eq_true holds
  exact ⟨program, state, isProgram, by decide, solved, ⟨isThis, steady⟩, areReachable, noPointer,
    holdsFirst, holdsSecond, fun context =>
      tellsReceiver_pointsTo (by decide) isProgram solved ⟨isThis, steady⟩ context⟩

end State

end TacAnalysis.PointsTo
