/-
# Longer contexts only refine points-to analysis

A selector that remembers more tells more contexts apart, and a context that it chooses
becomes, once shortened, the one that the other selector chooses. The findings that are
those of the shorter contexts once their contexts are shortened are therefore closed under
the rules of the longer ones. Contexts of objects are one element shorter than those of
methods, and are shortened to one element less.
-/

import TacAnalysis.Proofs.PointsTo.Settled
import TacAnalysis.Proofs.PointsTo.Sites

namespace TacAnalysis.PointsTo

section MostRecent

variable {Item : Type} {elements : List Item} {limit other : Nat}

theorem mostRecent_nil : mostRecent limit ([] : List Item) = [] := List.drop_nil

theorem mostRecent_zero : mostRecent 0 elements = [] := List.drop_length

theorem mostRecent_map {Other : Type} {read : Item → Other} :
    mostRecent limit (elements.map read) = (mostRecent limit elements).map read := by
  rw [mostRecent, mostRecent, List.length_map, List.map_drop]

/-- What is recent among the elements kept is what is recent among all of them, as long as
enough are kept. -/
theorem mostRecent_mostRecent (isEnough : limit ≤ other) :
    mostRecent limit (mostRecent other elements) = mostRecent limit elements := by
  unfold mostRecent
  rw [List.length_drop, List.drop_drop]
  congr 1
  omega

theorem mostRecent_append {element : Item} :
    mostRecent (limit + 1) (elements ++ [element]) = mostRecent limit elements ++ [element] := by
  unfold mostRecent
  rw [List.length_append, List.length_singleton, Nat.add_sub_add_right,
    List.drop_append_of_le_length (Nat.sub_le _ _)]

/-- The last element counts among those that are kept. -/
theorem mostRecent_append_mostRecent {element : Item} (isEnough : limit ≤ other + 1) :
    mostRecent limit (mostRecent other elements ++ [element]) =
      mostRecent limit (elements ++ [element]) := by
  cases limit with
  | zero => rw [mostRecent_zero, mostRecent_zero]
  | succ limit =>
      have isEnough : limit ≤ other := Nat.le_of_succ_le_succ isEnough
      rw [mostRecent_append, mostRecent_append, mostRecent_mostRecent isEnough]

/-- The contexts of objects are one element shorter than those of methods. -/
theorem mostRecent_pred (isLess : limit < other) :
    mostRecent (limit - 1) (mostRecent (other - 1) elements) =
      mostRecent (limit - 1) (mostRecent limit elements) := by
  have isLessOne : limit - 1 ≤ other - 1 := Nat.sub_le_sub_right isLess.le 1
  rw [mostRecent_mostRecent isLessOne, mostRecent_mostRecent (Nat.sub_le limit 1)]

end MostRecent

section Shortening

variable (limit : Nat)

/-- An object in a shorter context. -/
def Origin.shorten (object : Origin) : Origin :=
  { object with context := mostRecent (limit - 1) object.context }

/-- A method in a shorter context. -/
def Activation.shorten (activation : Activation) : Activation :=
  { activation with context := mostRecent limit activation.context }

/-- A place in a shorter context. -/
def Place.shorten : Place → Place
  | .var holder context => .var holder (mostRecent limit context)
  | .staticField field => .staticField field
  | .instanceField base field => .instanceField (base.shorten limit) field
  | .elements array => .elements (array.shorten limit)

/-- A finding about shorter contexts. -/
def Finding.shorten : Finding → Finding
  | .reachable activation => .reachable (activation.shorten limit)
  | .holds place object => .holds (place.shorten limit) (object.shorten limit)
  | .flows source target => .flows (source.shorten limit) (target.shorten limit)
  | .calls kind context site callee =>
      .calls kind (mostRecent limit context) site (callee.shorten limit)

/-- The contexts that one selector chooses are those that another one chooses, once they
are shortened. -/
structure Selector.Shortens (coarse fine : Selector) : Prop where
  heap {Item : Type} (context : List Item) :
    mostRecent (limit - 1) (fine.heapList context) = coarse.heapList (mostRecent limit context)
  callee {Item : Type} (caller : List Item) (call : Item) (receiver : Option (List Item × Item)) :
    mostRecent limit (fine.calleeList caller call receiver) =
      coarse.calleeList (mostRecent limit caller) call
        (receiver.map fun entry => (mostRecent (limit - 1) entry.1, entry.2))

end Shortening

section Selectors

variable {limit more : Nat} {coarse fine : Selector}

/-- Without contexts, all contexts are shortened to the empty one. -/
theorem Selector.shortens_insensitive : Selector.Shortens 0 .insensitive fine :=
  ⟨fun _ => mostRecent_zero, fun _ _ _ => mostRecent_zero⟩

theorem Selector.shortens_callSites (isLess : limit < more) :
    Selector.Shortens limit (.callSites limit) (.callSites more) where
  heap _ := mostRecent_pred isLess
  callee caller call receiver := by
    rw [calleeList, calleeList, mostRecent_mostRecent isLess.le,
      mostRecent_append_mostRecent (Nat.le_succ limit)]

theorem Selector.shortens_receivers (isLess : limit < more) :
    Selector.Shortens limit (.receivers limit) (.receivers more) where
  heap _ := mostRecent_pred isLess
  callee caller call receiver := by
    cases receiver with
    | none => rfl
    | some entry =>
        have isEnough : limit ≤ limit - 1 + 1 := by omega
        rw [Option.map_some, calleeList, calleeList, mostRecent_mostRecent isLess.le,
          mostRecent_append_mostRecent isEnough]

/-- Remembering fewer elements of the same kind shortens contexts. -/
theorem Selector.shortens_ofKind? {kind : String} (isCoarse : ofKind? limit kind = some coarse)
    (isFine : ofKind? more kind = some fine) (isLess : limit < more) :
    Selector.Shortens limit coarse fine := by
  have isSome : more ≠ 0 := Nat.ne_of_gt (Nat.zero_lt_of_lt isLess)
  unfold ofKind? at isCoarse isFine
  rw [if_neg isSome, if_neg isSome] at isFine
  by_cases isNone : limit = 0
  · rw [if_pos isNone, if_pos isNone] at isCoarse
    have isInsensitive : coarse = .insensitive := by
      split at isCoarse
      · exact (Option.some.inj isCoarse).symm
      · split at isCoarse
        · exact (Option.some.inj isCoarse).symm
        · cases isCoarse
    rw [isNone, isInsensitive]
    exact shortens_insensitive
  · rw [if_neg isNone, if_neg isNone] at isCoarse
    split at isCoarse
    case isTrue isCall =>
        rw [if_pos isCall] at isFine
        cases isCoarse
        cases isFine
        exact shortens_callSites isLess
    case isFalse notCall =>
        rw [if_neg notCall] at isFine
        split at isCoarse
        case isTrue isObj =>
            rw [if_pos isObj] at isFine
            cases isCoarse
            cases isFine
            exact shortens_receivers isLess
        case isFalse => cases isCoarse

variable {program : Program} {facts : Set Finding}

theorem Selector.Shortens.staticList (shortens : Selector.Shortens limit coarse fine)
    (context : List ContextItem) (site : Site) :
    mostRecent limit (fine.staticList context site) =
      coarse.staticList (mostRecent limit context) site :=
  shortens.callee context (.callSite site) none

theorem Selector.Shortens.receiverList (shortens : Selector.Shortens limit coarse fine)
    (context : List ContextItem) (site : Site) (object : Origin) :
    mostRecent limit (fine.receiverList context site object) =
      coarse.receiverList (mostRecent limit context) site (object.shorten limit) :=
  shortens.callee context (.callSite site) (some (object.context, .receiver object.site))

/-- The findings that shorter contexts make of a closed set are closed under the rules of
longer ones. -/
theorem Selector.Shortens.closed (shortens : Selector.Shortens limit coarse fine)
    (closed : Closed program coarse facts) :
    Closed program fine {finding | finding.shorten limit ∈ facts} := by
  constructor
  case entry =>
      intro method isEntry
      show Finding.reachable ⟨mostRecent limit [], method⟩ ∈ facts
      rw [mostRecent_nil]
      exact closed.entry isEntry
  case allocation =>
      intro context site target ty isReachable isNew
      show Finding.holds (.var target (mostRecent limit context))
        ⟨mostRecent (limit - 1) (fine.heapList context), site⟩ ∈ facts
      rw [shortens.heap]
      exact closed.allocation isReachable isNew
  case copy =>
      intro context site target source isReachable isCopy isReference
      exact closed.copy isReachable isCopy isReference
  case cast =>
      intro context site target source ty isReachable isCast isReference
      exact closed.cast isReachable isCast isReference
  case staticLoad =>
      intro context site target field isReachable isLoad isReference
      exact closed.staticLoad isReachable isLoad isReference
  case staticStore =>
      intro context site source field isReachable isStore isReference
      exact closed.staticStore isReachable isStore isReference
  case staticCall =>
      intro context site invoke method isReachable isCall isStatic dispatched
      show Finding.calls .static (mostRecent limit context) site
        ⟨mostRecent limit (fine.staticList context site), method⟩ ∈ facts
      rw [shortens.staticList]
      exact closed.staticCall isReachable isCall isStatic dispatched
  case fieldStore =>
      intro context site base source field object isHeld isStore isReference
      exact closed.fieldStore isHeld isStore isReference
  case fieldLoad =>
      intro context site base target field object isHeld isLoad isReference
      exact closed.fieldLoad isHeld isLoad isReference
  case elementStore =>
      intro context site base index source object isHeld isStore isReference
      exact closed.elementStore isHeld isStore isReference
  case elementLoad =>
      intro context site base index target object isHeld isLoad isReference
      exact closed.elementLoad isHeld isLoad isReference
  case instanceCall =>
      intro context site invoke receiver object method isHeld isCall isReceiver resolves
      show Finding.calls invoke.kind (mostRecent limit context) site
        ⟨mostRecent limit (fine.receiverList context site object), method⟩ ∈ facts
      rw [shortens.receiverList]
      exact closed.instanceCall isHeld isCall isReceiver resolves
  case this =>
      intro context site invoke receiver this object method isHeld isCall isReceiver resolves isThis
      show Finding.holds (.var this (mostRecent limit (fine.receiverList context site object)))
        (object.shorten limit) ∈ facts
      rw [shortens.receiverList]
      exact closed.this isHeld isCall isReceiver resolves isThis
  case callee =>
      intro kind context site callee isCall
      exact closed.callee isCall
  case argument =>
      intro kind context site callee invoke argument parameter isEdge isCall isPassed isReference
      exact closed.argument isEdge isCall isPassed isReference
  case result =>
      intro kind context site callee invoke result value isEdge isCall isResult isReference
        isReturned
      exact closed.result isEdge isCall isResult isReference isReturned
  case flow =>
      intro source target object isFlow isHeld
      exact closed.flow isFlow isHeld

end Selectors

namespace State

variable {program : Program} {state coarse fine : State}

/-- One result is included in another one, objects being known by where they are
allocated. -/
structure IncludedIn (fine coarse : State) : Prop where
  var {var : VarId} {object : ObjectId} : object ∈ fine.objectsInVar var →
    ∃ other ∈ coarse.objectsInVar var, coarse.siteOf other = fine.siteOf object
  staticField {field : FieldId} {object : ObjectId} : object ∈ fine.objectsInStatic field →
    ∃ other ∈ coarse.objectsInStatic field, coarse.siteOf other = fine.siteOf object
  instanceField {base object : ObjectId} {field : FieldId} :
    object ∈ fine.objectsInField base field →
    ∃ otherBase, coarse.siteOf otherBase = fine.siteOf base ∧
      ∃ other ∈ coarse.objectsInField otherBase field, coarse.siteOf other = fine.siteOf object
  elements {array object : ObjectId} : object ∈ fine.objectsInArray array →
    ∃ otherArray, coarse.siteOf otherArray = fine.siteOf array ∧
      ∃ other ∈ coarse.objectsInArray otherArray, coarse.siteOf other = fine.siteOf object
  callees {site : Site} : fine.calleesAt site ⊆ coarse.calleesAt site
  methods : fine.reachableMethods ⊆ coarse.reachableMethods

/-- A result whose findings another one shows in shorter contexts is included in it. -/
theorem includedIn_of_shorten {limit : Nat}
    (shows : ∀ finding, fine.Shows finding → coarse.Shows (finding.shorten limit)) :
    fine.IncludedIn coarse where
  var isIn := by
    obtain ⟨context, origin, isHeld, isSite⟩ := exists_inVar_iff.mp ⟨_, isIn, rfl⟩
    exact exists_inVar_iff.mpr ⟨_, _, shows _ isHeld, isSite⟩
  staticField isIn := by
    obtain ⟨origin, isHeld, isSite⟩ := exists_inStatic_iff.mp ⟨_, isIn, rfl⟩
    exact exists_inStatic_iff.mpr ⟨_, shows _ isHeld, isSite⟩
  instanceField isIn := by
    obtain ⟨holder, origin, isHeld, isBase, isSite⟩ := exists_inField_iff.mp ⟨_, rfl, _, isIn, rfl⟩
    exact exists_inField_iff.mpr ⟨_, _, shows _ isHeld, isBase, isSite⟩
  elements isIn := by
    obtain ⟨holder, origin, isHeld, isArray, isSite⟩ := exists_inArray_iff.mp ⟨_, rfl, _, isIn, rfl⟩
    exact exists_inArray_iff.mpr ⟨_, _, shows _ isHeld, isArray, isSite⟩
  callees {site} method isCallee := by
    obtain ⟨kind, context, callee, isCall⟩ := mem_calleesAt_iff.mp isCallee
    exact mem_calleesAt_iff.mpr ⟨_, _, _, shows _ isCall⟩
  methods method isReachable := by
    obtain ⟨context, isReachable⟩ := mem_reachableMethods_iff.mp isReachable
    exact mem_reachableMethods_iff.mpr ⟨_, shows _ isReachable⟩

/-- Remembering one more call site or receiver, the analysis finds out nothing more about
the objects and the methods of a program. -/
theorem includedIn_of_longer {kind : String} {limit steps moreSteps : Nat}
    {coarseSelector fineSelector : Selector}
    (isCoarse : Selector.ofKind? limit kind = some coarseSelector)
    (isFine : Selector.ofKind? (limit + 1) kind = some fineSelector)
    (solvedCoarse : program.pointsTo coarseSelector steps = .ok coarse)
    (solvedFine : program.pointsTo fineSelector moreSteps = .ok fine) :
    fine.IncludedIn coarse := by
  have shortens := Selector.shortens_ofKind? isCoarse isFine (Nat.lt_succ_self limit)
  obtain ⟨lawful, complete, settled⟩ := complete_solve closed_univ solvedCoarse
  have closed := closed_findings lawful complete settled
  apply includedIn_of_shorten
  intro finding shows
  exact (complete_solve (shortens.closed closed) solvedFine).1.findings_subset shows

/-- A program in which two objects pass through one method. -/
def passedText : String := "class Main { static method same(Main o) : Main { return o; }
  static method main() : void { var Main x, y; x = new Main; y = new Main;
  x = invokestatic <Main: Main same(Main)>(x); y = invokestatic <Main: Main same(Main)>(y); } }"

/-- Both objects come back from either call to an analysis without contexts, and one from
each call to an analysis that remembers it. -/
theorem includedIn_passed : ∃ program coarse fine,
    Program.ofText passedText = .ok program ∧
    program.pointsTo .insensitive 20 = .ok coarse ∧
    program.pointsTo (.callSites 1) 20 = .ok fine ∧
    (coarse.flow.varPointers 3).map (fun id => (coarse.flow.objects id).elements) = [[0, 1]] ∧
    (fine.flow.varPointers 3).map (fun id => (fine.flow.objects id).elements) = [[0]] ∧
    fine.IncludedIn coarse := by
  have passes : (Program.ofText passedText).toOption.any (fun program =>
      (program.pointsTo .insensitive 20).toOption.any fun coarse =>
      (program.pointsTo (.callSites 1) 20).toOption.any fun fine => decide
        ((coarse.flow.varPointers 3).map (fun id => (coarse.flow.objects id).elements) = [[0, 1]] ∧
          (fine.flow.varPointers 3).map (fun id => (fine.flow.objects id).elements) = [[0]])) =
      true := by decide +kernel
  obtain ⟨program, isProgram, solves⟩ := exists_of_test passes
  obtain ⟨coarse, solvedCoarse, compares⟩ := exists_of_test solves
  obtain ⟨fine, solvedFine, holds⟩ := exists_of_test compares
  obtain ⟨isBoth, isOne⟩ := of_decide_eq_true holds
  have isCoarse : Selector.ofKind? 0 "call" = some .insensitive := rfl
  have isFine : Selector.ofKind? (0 + 1) "call" = some (.callSites 1) := rfl
  exact ⟨program, coarse, fine, isProgram, solvedCoarse, solvedFine, isBoth, isOne,
    includedIn_of_longer isCoarse isFine solvedCoarse solvedFine⟩

end State

end TacAnalysis.PointsTo
