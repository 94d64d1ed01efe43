/-
# What points-to analysis tells, by allocation

Objects are told apart by numbers, which mean something only within one analysis. Known by
where they are allocated, the objects that an analysis tells of are those of the findings
that it shows, in whatever contexts: in this form its answers are compared with those of
another analysis, and with the objects of a running program.
-/

import TacAnalysis.PointsTo.Result
import TacAnalysis.Proofs.PointsTo.Findings

namespace TacAnalysis.PointsTo.State

variable {state : State} {allocation : Site}

/-- Where the objects of a number are allocated. -/
def siteOf (state : State) (object : ObjectId) : Site := (state.heap.object object).site

/-- An analysis finds objects allocated at a point in a variable when it finds that the
variable holds them in some context. -/
theorem exists_inVar_iff {var : VarId} :
    (∃ object ∈ state.objectsInVar var, state.siteOf object = allocation) ↔
      ∃ context origin, state.Shows (.holds (.var var context) origin) ∧
        origin.site = allocation := by
  constructor
  · rintro ⟨object, isIn, rfl⟩
    obtain ⟨id, context, isPointer, qualified, isHeld, rfl⟩ := mem_objectsInVar.mp isIn
    exact ⟨_, _, ⟨id, _, qualified, isPointer, isHeld, rfl, rfl⟩, rfl⟩
  · rintro ⟨context, origin, ⟨id, pointer, qualified, isPointer, isHeld, isPlace, rfl⟩, rfl⟩
    cases pointer with
    | var other number =>
        cases isPlace
        exact ⟨_, mem_objectsInVar.mpr ⟨id, number, isPointer, qualified, isHeld, rfl⟩, rfl⟩
    | _ => cases isPlace

theorem exists_inStatic_iff {field : FieldId} :
    (∃ object ∈ state.objectsInStatic field, state.siteOf object = allocation) ↔
      ∃ origin, state.Shows (.holds (.staticField field) origin) ∧ origin.site = allocation := by
  constructor
  · rintro ⟨object, isIn, rfl⟩
    obtain ⟨id, isPointer, qualified, isHeld, rfl⟩ := mem_objectsInStatic.mp isIn
    exact ⟨_, ⟨id, _, qualified, isPointer, isHeld, rfl, rfl⟩, rfl⟩
  · rintro ⟨origin, ⟨id, pointer, qualified, isPointer, isHeld, isPlace, rfl⟩, rfl⟩
    cases pointer with
    | staticField other =>
        cases isPlace
        exact ⟨_, mem_objectsInStatic.mpr ⟨id, isPointer, qualified, isHeld, rfl⟩, rfl⟩
    | _ => cases isPlace

theorem exists_inField_iff {field : FieldId} {base : Site} :
    (∃ holder, state.siteOf holder = base ∧
        ∃ object ∈ state.objectsInField holder field, state.siteOf object = allocation) ↔
      ∃ holder origin, state.Shows (.holds (.instanceField holder field) origin) ∧
        holder.site = base ∧ origin.site = allocation := by
  constructor
  · rintro ⟨_, rfl, object, isIn, rfl⟩
    obtain ⟨id, holder, isPointer, rfl, qualified, isHeld, rfl⟩ := mem_objectsInField.mp isIn
    exact ⟨_, _, ⟨id, _, qualified, isPointer, isHeld, rfl, rfl⟩, rfl, rfl⟩
  · rintro ⟨_, origin, ⟨id, pointer, qualified, isPointer, isHeld, isPlace, rfl⟩, rfl, rfl⟩
    cases pointer with
    | instanceField holder other =>
        cases isPlace
        have isIn := mem_objectsInField.mpr ⟨id, holder, isPointer, rfl, qualified, isHeld, rfl⟩
        exact ⟨_, rfl, _, isIn, rfl⟩
    | _ => cases isPlace

theorem exists_inArray_iff {array : Site} :
    (∃ holder, state.siteOf holder = array ∧
        ∃ object ∈ state.objectsInArray holder, state.siteOf object = allocation) ↔
      ∃ holder origin, state.Shows (.holds (.elements holder) origin) ∧
        holder.site = array ∧ origin.site = allocation := by
  constructor
  · rintro ⟨_, rfl, object, isIn, rfl⟩
    obtain ⟨id, holder, isPointer, rfl, qualified, isHeld, rfl⟩ := mem_objectsInArray.mp isIn
    exact ⟨_, _, ⟨id, _, qualified, isPointer, isHeld, rfl, rfl⟩, rfl, rfl⟩
  · rintro ⟨_, origin, ⟨id, pointer, qualified, isPointer, isHeld, isPlace, rfl⟩, rfl, rfl⟩
    cases pointer with
    | elements holder =>
        cases isPlace
        have isIn := mem_objectsInArray.mpr ⟨id, holder, isPointer, rfl, qualified, isHeld, rfl⟩
        exact ⟨_, rfl, _, isIn, rfl⟩
    | _ => cases isPlace

theorem mem_reachableMethods_iff {method : MethodId} : method ∈ state.reachableMethods ↔
    ∃ context, state.Shows (.reachable ⟨context, method⟩) := by
  rw [mem_reachableMethods]
  constructor
  · rintro ⟨context, isReachable⟩
    exact ⟨_, _, isReachable, rfl⟩
  · rintro ⟨_, ⟨context, _⟩, isReachable, isActivation⟩
    cases isActivation
    exact ⟨context, isReachable⟩

theorem mem_calleesAt_iff {site : Site} {method : MethodId} : method ∈ state.calleesAt site ↔
    ∃ kind context callee, state.Shows (.calls kind context site ⟨callee, method⟩) := by
  rw [mem_calleesAt]
  constructor
  · rintro ⟨edge, isEdge, rfl, rfl⟩
    exact ⟨_, _, _, edge, isEdge, rfl, rfl, rfl, rfl⟩
  · rintro ⟨kind, context, callee, edge, isEdge, -, -, isSite, isCallee⟩
    exact ⟨edge, isEdge, isSite, congrArg Activation.method isCallee⟩

end TacAnalysis.PointsTo.State
