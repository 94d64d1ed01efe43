/-
# The findings that a program leaves room for

A program has finitely many points, variables, fields and methods, and a selector keeps
contexts below a length of its own. Findings made of these are finitely many, and no rule
of points-to analysis leads out of them: recursive methods meet the same contexts again,
since contexts that would be too long lose their oldest elements.
-/

import Mathlib.Data.Finite.Prod
import Mathlib.Data.Set.Finite.Lattice
import Mathlib.Data.Set.Finite.List
import TacAnalysis.Proofs.PointsTo.Findings
import TacAnalysis.Proofs.Resolution.Ownership

namespace TacAnalysis

/-- The field that a statement accesses. -/
def Stmt.field? : Stmt → Option FieldId
  | loadField _ _ field | storeField _ field _ => some field
  | _ => none

namespace Program

variable (program : Program)

/-- The points at which a program does something. -/
def points : Set Site := {site | program.stmt site ≠ .nop}

/-- The variables that statements mention, and those holding a value when a method
starts. -/
def mentionedVars : Set VarId :=
  (⋃ site ∈ program.points, {var | (program.stmt site).Mentions var}) ∪
    ⋃ id ∈ {id | id < program.methods.size}, {var | var ∈ (program.methodDef id).entryVars}

/-- The fields that statements access. -/
def accessedFields : Set FieldId :=
  ⋃ site ∈ program.points, {field | (program.stmt site).field? = some field}

/-- The methods of the table, and those that analyses start from. -/
def runnableMethods : Set MethodId :=
  {id | id < program.methods.size} ∪ {id | id ∈ program.entries}

theorem finite_points : program.points.Finite := by
  have areListed : program.points ⊆
      {site | site ∈ (List.range program.methods.size).flatMap program.sitesOf} := by
    intro site isPoint
    exact List.mem_flatMap.mpr
      ⟨site.method, List.mem_range.mpr (lt_size_of_stmt isPoint), mem_sitesOf isPoint⟩
  exact (List.finite_toSet _).subset areListed

theorem finite_mentionedVars : program.mentionedVars.Finite := by
  apply Set.Finite.union
  · refine program.finite_points.biUnion fun site _ => ?_
    have areListed : {var | (program.stmt site).Mentions var} ⊆
        {var | var ∈ (program.stmt site).def?.toList ++ (program.stmt site).uses} := by
      intro var mentions
      exact List.mem_append.mpr (mentions.imp_left Option.mem_toList.mpr)
    exact (List.finite_toSet _).subset areListed
  · exact (Set.finite_lt_nat _).biUnion fun id _ => List.finite_toSet _

theorem finite_accessedFields : program.accessedFields.Finite := by
  refine program.finite_points.biUnion fun site _ => ?_
  have areListed : {field | (program.stmt site).field? = some field} ⊆
      {field | field ∈ (program.stmt site).field?.toList} :=
    fun _ isField => Option.mem_toList.mpr isField
  exact (List.finite_toSet _).subset areListed

theorem finite_runnableMethods : program.runnableMethods.Finite :=
  (Set.finite_lt_nat _).union (List.finite_toSet _)

variable {program} {site : Site} {var : VarId}

theorem mem_points_of_mentions (mentions : (program.stmt site).Mentions var) :
    site ∈ program.points := by
  intro isNop
  rw [isNop] at mentions
  exact Stmt.not_mentions_nop mentions

theorem mem_mentionedVars (mentions : (program.stmt site).Mentions var) :
    var ∈ program.mentionedVars :=
  .inl (Set.mem_biUnion (mem_points_of_mentions mentions) mentions)

/-- Past the end of the table, methods have no variables. -/
theorem mem_mentionedVars_of_entryVar {id : MethodId}
    (isEntryVar : var ∈ (program.methodDef id).entryVars) : var ∈ program.mentionedVars := by
  rcases Nat.lt_or_ge id program.methods.size with inTable | pastEnd
  · exact .inr (Set.mem_biUnion inTable isEntryVar)
  · rw [entryVars_of_ge pastEnd] at isEntryVar
    cases isEntryVar

theorem mem_accessedFields {field : FieldId} (isField : (program.stmt site).field? = some field) :
    field ∈ program.accessedFields := by
  refine Set.mem_biUnion (x := site) (fun isNop => ?_) isField
  rw [isNop] at isField
  cases isField

/-- What is dispatched to is in the table. -/
theorem lt_size_of_dispatch {cls : ClassId} {sub : Subsignature} {id : MethodId}
    (dispatched : program.dispatch cls sub = some id) : id < program.methods.size := by
  have within {limit : Nat} {start : Option ClassId}
      (isFound : program.dispatchWithin sub limit start = some id) :
      id < program.methods.size := by
    induction limit generalizing start with
    | zero => cases start <;> cases isFound
    | succ limit ih =>
        cases start with
        | none => cases isFound
        | some owner =>
            unfold dispatchWithin at isFound
            split at isFound
            case h_1 method isDeclared =>
                split at isFound
                case isTrue => exact ih isFound
                case isFalse =>
                    cases isFound
                    rw [declaredMethod?_eq_findIdx?] at isDeclared
                    exact (Array.findIdx?_eq_some_iff_getElem.mp isDeclared).1
            case h_2 => exact ih isFound
  exact within dispatched

end Program

namespace PointsTo

/-- The most elements that contexts of methods have. -/
def Selector.limit : Selector → Nat
  | insensitive => 0
  | callSites limit | receivers limit => limit

theorem length_mostRecent_le {Item : Type} {limit : Nat} {elements : List Item} :
    (mostRecent limit elements).length ≤ limit := by
  rw [mostRecent, List.length_drop]
  omega

theorem Selector.length_calleeList_le {Item : Type} {selector : Selector} {caller : List Item}
    {call : Item} {receiver : Option (List Item × Item)}
    (isShort : caller.length ≤ selector.limit) :
    (selector.calleeList caller call receiver).length ≤ selector.limit := by
  cases selector with
  | insensitive => exact Nat.zero_le _
  | callSites limit => exact length_mostRecent_le
  | receivers limit =>
      cases receiver with
      | none => exact isShort
      | some entry => exact length_mostRecent_le

theorem Selector.length_heapList_le {Item : Type} {selector : Selector} {context : List Item} :
    (selector.heapList context).length ≤ selector.limit := by
  cases selector with
  | insensitive => exact Nat.zero_le _
  | callSites limit | receivers limit => exact length_mostRecent_le.trans (Nat.sub_le _ _)

section Bounded

variable (program : Program) (limit : Nat)

/-- The elements of contexts are points of the program. -/
def ContextItem.point : ContextItem → Site
  | .callSite site | .receiver site => site

/-- A context that is short enough and made of points of the program. -/
def BoundedContext (context : List ContextItem) : Prop :=
  context.length ≤ limit ∧ ∀ item ∈ context, item.point ∈ program.points

/-- An origin in a context that is bounded. -/
def Origin.Bounded (object : Origin) : Prop :=
  BoundedContext program limit object.context ∧ object.site ∈ program.points

/-- A method of the program in a context that is bounded. -/
def Activation.Bounded (activation : Activation) : Prop :=
  BoundedContext program limit activation.context ∧ activation.method ∈ program.runnableMethods

/-- A place made of what the program mentions, in contexts that are bounded. -/
def Place.Bounded : Place → Prop
  | .var holder context =>
      holder ∈ program.mentionedVars ∧ BoundedContext program limit context
  | .staticField field => field ∈ program.accessedFields
  | .instanceField base field => base.Bounded program limit ∧ field ∈ program.accessedFields
  | .elements array => array.Bounded program limit

/-- A finding made of what the program mentions, in contexts that are bounded. -/
def Finding.Bounded : Finding → Prop
  | .reachable activation => activation.Bounded program limit
  | .holds place object => place.Bounded program limit ∧ object.Bounded program limit
  | .flows source target => source.Bounded program limit ∧ target.Bounded program limit
  | .calls _ context site callee => BoundedContext program limit context ∧
      site ∈ program.points ∧ callee.Bounded program limit

theorem finite_boundedContext : {context | BoundedContext program limit context}.Finite := by
  have areItems : {item : ContextItem | item.point ∈ program.points}.Finite := by
    apply ((program.finite_points.image .callSite).union
      (program.finite_points.image .receiver)).subset
    intro item isItem
    cases item with
    | callSite site => exact .inl ⟨site, isItem, rfl⟩
    | receiver site => exact .inr ⟨site, isItem, rfl⟩
  have : Finite {item : ContextItem | item.point ∈ program.points} := areItems
  apply ((List.finite_length_le {item : ContextItem | item.point ∈ program.points} limit).image
    (List.map Subtype.val)).subset
  rintro context ⟨isShort, areIn⟩
  refine ⟨context.attachWith _ areIn, ?_, List.attachWith_map_subtype_val _⟩
  rw [Set.mem_ofPred_eq, List.length_attachWith]
  exact isShort

theorem finite_boundedOrigin : {object : Origin | object.Bounded program limit}.Finite := by
  apply ((finite_boundedContext program limit).image2 Origin.mk program.finite_points).subset
  rintro object ⟨isContext, isPoint⟩
  exact ⟨_, isContext, _, isPoint, rfl⟩

theorem finite_boundedActivation :
    {activation : Activation | activation.Bounded program limit}.Finite := by
  apply ((finite_boundedContext program limit).image2 Activation.mk
    program.finite_runnableMethods).subset
  rintro activation ⟨isContext, isMethod⟩
  exact ⟨_, isContext, _, isMethod, rfl⟩

theorem finite_boundedPlace : {place : Place | place.Bounded program limit}.Finite := by
  have contexts := finite_boundedContext program limit
  have origins := finite_boundedOrigin program limit
  have fields := program.finite_accessedFields
  apply ((program.finite_mentionedVars.image2 Place.var contexts).union
    ((fields.image .staticField).union ((origins.image2 .instanceField fields).union
      (origins.image .elements)))).subset
  intro place isBounded
  cases place with
  | var holder context => exact .inl ⟨holder, isBounded.1, context, isBounded.2, rfl⟩
  | staticField field => exact .inr (.inl ⟨field, isBounded, rfl⟩)
  | instanceField base field =>
      exact .inr (.inr (.inl ⟨base, isBounded.1, field, isBounded.2, rfl⟩))
  | elements array => exact .inr (.inr (.inr ⟨array, isBounded, rfl⟩))

/-- A program leaves room for finitely many findings. -/
theorem finite_bounded : {finding : Finding | finding.Bounded program limit}.Finite := by
  have contexts := finite_boundedContext program limit
  have activations := finite_boundedActivation program limit
  have places := finite_boundedPlace program limit
  have origins := finite_boundedOrigin program limit
  have kinds : (Set.univ : Set CallKind).Finite :=
    (List.finite_toSet [.static, .special, .virtual, .interface]).subset fun kind _ => by
      cases kind <;> simp
  have calls := (kinds.prod contexts).image2
    (fun call => Finding.calls call.1 call.2) program.finite_points
  apply ((activations.image .reachable).union ((places.image2 .holds origins).union
    ((places.image2 .flows places).union
      (calls.image2 (fun call => call) activations)))).subset
  intro finding isBounded
  cases finding with
  | reachable activation => exact .inl ⟨activation, isBounded, rfl⟩
  | holds place object => exact .inr (.inl ⟨place, isBounded.1, object, isBounded.2, rfl⟩)
  | flows source target =>
      exact .inr (.inr (.inl ⟨source, isBounded.1, target, isBounded.2, rfl⟩))
  | calls kind context site callee =>
      exact .inr (.inr (.inr ⟨_, ⟨(kind, context), ⟨trivial, isBounded.1⟩, site,
        isBounded.2.1, rfl⟩, callee, isBounded.2.2, rfl⟩))

end Bounded

section Closed

variable {program : Program} {selector : Selector} {context : List ContextItem} {site : Site}

theorem boundedContext_staticList (isContext : BoundedContext program selector.limit context)
    (isPoint : site ∈ program.points) :
    BoundedContext program selector.limit (selector.staticList context site) := by
  refine ⟨Selector.length_calleeList_le isContext.1, fun item isIn => ?_⟩
  rcases Selector.mem_calleeList isIn with isCaller | rfl | ⟨entry, isReceiver, -⟩
  · exact isContext.2 item isCaller
  · exact isPoint
  · cases isReceiver

theorem boundedContext_receiverList (isContext : BoundedContext program selector.limit context)
    (isPoint : site ∈ program.points) {object : Origin}
    (isObject : object.Bounded program selector.limit) :
    BoundedContext program selector.limit (selector.receiverList context site object) := by
  refine ⟨Selector.length_calleeList_le isContext.1, fun item isIn => ?_⟩
  rcases Selector.mem_calleeList isIn with isCaller | rfl | ⟨entry, isReceiver, isItem⟩
  · exact isContext.2 item isCaller
  · exact isPoint
  · cases isReceiver
    rcases isItem with isOlder | rfl
    · exact isObject.1.2 item isOlder
    · exact isObject.2

theorem boundedContext_heapList (isContext : BoundedContext program selector.limit context) :
    BoundedContext program selector.limit (selector.heapList context) :=
  ⟨Selector.length_heapList_le, fun item isIn => isContext.2 item (Selector.mem_heapList isIn)⟩

theorem mem_runnableMethods_of_resolves {invoke : Invoke} {ty : Ty} {method : MethodId}
    (resolves : Resolves program invoke ty method) : method ∈ program.runnableMethods := by
  cases resolves with
  | special _ dispatched => exact .inl (Program.lt_size_of_dispatch dispatched)
  | dynamic _ _ _ dispatched => exact .inl (Program.lt_size_of_dispatch dispatched)

/-- The variables of a statement are places of the program. -/
theorem bounded_var {limit : Nat} {var : VarId} (isContext : BoundedContext program limit context)
    (mentions : (program.stmt site).Mentions var) : (Place.var var context).Bounded program limit :=
  ⟨Program.mem_mentionedVars mentions, isContext⟩

/-- The receiver and the parameters of a method are places of the program. -/
theorem bounded_entryVar {limit : Nat} {method : MethodId} {var : VarId}
    (isContext : BoundedContext program limit context)
    (isEntryVar : var ∈ (program.methodDef method).entryVars) :
    (Place.var var context).Bounded program limit :=
  ⟨Program.mem_mentionedVars_of_entryVar isEntryVar, isContext⟩

/-- What a method returns is read by its statements. -/
theorem bounded_returned {limit : Nat} {method : MethodId} {var : VarId}
    (isContext : BoundedContext program limit context)
    (isReturned : var ∈ (program.methodDef method).returned) :
    (Place.var var context).Bounded program limit := by
  obtain ⟨index, inBody, isReturn⟩ :=
    Array.mem_iff_getElem.mp (MethodDef.mem_returned.mp isReturned)
  have isStmt : program.stmt ⟨method, index⟩ = .ret (some var) := by
    simp [Program.stmt, MethodDef.stmt, Array.getD, inBody, isReturn]
  have isRead : (program.stmt ⟨method, index⟩).Mentions var := .inr (by simp [isStmt, Stmt.uses])
  exact bounded_var isContext isRead

/-- No rule of points-to analysis leads out of what a program leaves room for. -/
theorem closed_bounded :
    Closed program selector {finding | finding.Bounded program selector.limit} := by
  constructor
  case entry =>
      intro method isEntry
      exact ⟨⟨Nat.zero_le _, nofun⟩, .inr isEntry⟩
  case allocation =>
      intro context site target ty isReachable isNew
      have isDef : (program.stmt site).Mentions target := .inl (by rw [isNew]; rfl)
      exact ⟨bounded_var isReachable.1 isDef, boundedContext_heapList isReachable.1,
        Program.mem_points_of_mentions isDef⟩
  case copy =>
      intro context site target source isReachable isCopy _
      exact ⟨bounded_var isReachable.1 (.inr (by rw [isCopy]; simp [Stmt.uses])),
        bounded_var isReachable.1 (.inl (by rw [isCopy]; rfl))⟩
  case cast =>
      intro context site target source ty isReachable isCast _
      exact ⟨bounded_var isReachable.1 (.inr (by rw [isCast]; simp [Stmt.uses])),
        bounded_var isReachable.1 (.inl (by rw [isCast]; rfl))⟩
  case staticLoad =>
      intro context site target field isReachable isLoad _
      exact ⟨Program.mem_accessedFields (by rw [isLoad]; rfl),
        bounded_var isReachable.1 (.inl (by rw [isLoad]; rfl))⟩
  case staticStore =>
      intro context site source field isReachable isStore _
      exact ⟨bounded_var isReachable.1 (.inr (by rw [isStore]; simp [Stmt.uses])),
        Program.mem_accessedFields (by rw [isStore]; rfl)⟩
  case staticCall =>
      intro context site invoke method isReachable isCall _ dispatched
      have isPoint : site ∈ program.points := by simp [Program.points, isCall]
      exact ⟨isReachable.1, isPoint, boundedContext_staticList isReachable.1 isPoint,
        .inl (Program.lt_size_of_dispatch dispatched)⟩
  case fieldStore =>
      intro context site base source field object isHeld isStore _
      exact ⟨bounded_var isHeld.1.2 (.inr (by rw [isStore]; simp [Stmt.uses])),
        isHeld.2, Program.mem_accessedFields (by rw [isStore]; rfl)⟩
  case fieldLoad =>
      intro context site base target field object isHeld isLoad _
      exact ⟨⟨isHeld.2, Program.mem_accessedFields (by rw [isLoad]; rfl)⟩,
        bounded_var isHeld.1.2 (.inl (by rw [isLoad]; rfl))⟩
  case elementStore =>
      intro context site base index source object isHeld isStore _
      exact ⟨bounded_var isHeld.1.2 (.inr (by rw [isStore]; simp [Stmt.uses])), isHeld.2⟩
  case elementLoad =>
      intro context site base index target object isHeld isLoad _
      exact ⟨isHeld.2, bounded_var isHeld.1.2 (.inl (by rw [isLoad]; rfl))⟩
  case instanceCall =>
      intro context site invoke receiver object method isHeld isCall _ resolves
      have isPoint : site ∈ program.points := by simp [Program.points, isCall]
      exact ⟨isHeld.1.2, isPoint, boundedContext_receiverList isHeld.1.2 isPoint isHeld.2,
        mem_runnableMethods_of_resolves resolves⟩
  case this =>
      intro context site invoke receiver this object method isHeld isCall _ _ isThis
      have isPoint : site ∈ program.points := by simp [Program.points, isCall]
      have isEntryVar : this ∈ (program.methodDef method).entryVars :=
        List.mem_append_left _ (Option.mem_toList.mpr isThis)
      exact ⟨bounded_entryVar (boundedContext_receiverList isHeld.1.2 isPoint isHeld.2) isEntryVar,
        isHeld.2⟩
  case callee =>
      intro kind context site callee isCall
      exact isCall.2.2
  case argument =>
      intro kind context site callee invoke argument parameter isEdge isCall isPassed _
      obtain ⟨isArgument, isParameter⟩ := List.of_mem_zip isPassed
      exact ⟨bounded_var isEdge.1 (.inr (by rw [isCall]; simp [Stmt.uses, isArgument])),
        bounded_entryVar isEdge.2.2.1 (List.mem_append_right _ isParameter)⟩
  case result =>
      intro kind context site callee invoke result value isEdge isCall isResult _ isReturned
      exact ⟨bounded_returned isEdge.2.2.1 isReturned,
        bounded_var isEdge.1 (.inl (by rw [isCall]; exact isResult))⟩
  case flow =>
      intro source target object isFlow isHeld
      exact ⟨isFlow.2, isHeld.2⟩

end Closed

end PointsTo

end TacAnalysis
