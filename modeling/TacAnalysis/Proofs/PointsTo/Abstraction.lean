/-
# What findings say about an execution

A closed set of findings accounts for a machine: every object has an origin, every
frame a context, and whatever holds a reference is found to hold the origin of the
object. One step of the machine keeps this so, provided that references stay in
variables of a reference type.
-/

import TacAnalysis.Proofs.Execution.Machine

namespace TacAnalysis.PointsTo

open Execution

variable {program : Program} {selector : Selector} {facts : Set Finding}
variable {origins : List Origin} {machine next : Machine} {frame : Frame} {callers : List Frame}
variable {context : List ContextItem} {datum : Datum}

/-- A place is found to hold what a datum refers to. -/
def Covers (facts : Set Finding) (origins : List Origin) (place : Place) (datum : Datum) : Prop :=
  ∀ address, datum = .reference address →
    ∃ origin, origins[address]? = some origin ∧ .holds place origin ∈ facts

/-- A frame is in a context of its method, where its variables are found to hold
what they refer to. -/
structure Placed (facts : Set Finding) (origins : List Origin) (context : List ContextItem)
    (frame : Frame) : Prop where
  reachable : .reachable ⟨context, frame.method⟩ ∈ facts
  held {var : VarId} {datum : Datum} : frame.vars var = some datum →
    Covers facts origins (.var var context) datum

/-- A stack of frames, the first one in a context, in which every frame waits for a
call that is found to run the method of the frame called. -/
inductive Stacked (program : Program) (facts : Set Finding) (origins : List Origin) :
    List ContextItem → List Frame → Prop where
  | bottom {context : List ContextItem} {frame : Frame} : Placed facts origins context frame →
      Stacked program facts origins context [frame]
  | call {context caller : List ContextItem} {frame waiting : Frame} {callers : List Frame}
      {invoke : Invoke} : Placed facts origins context frame →
      Stacked program facts origins caller (waiting :: callers) →
      program.stmt waiting.site = .call invoke →
      .calls invoke.kind caller waiting.site ⟨context, frame.method⟩ ∈ facts →
      Stacked program facts origins context (frame :: waiting :: callers)

/-- An object is what its origin says, and what it refers to is found to be held by
its fields and elements. -/
structure Modelled (program : Program) (facts : Set Finding) (origins : List Origin)
    (object : Instance) (origin : Origin) : Prop where
  site : object.site = origin.site
  ty : object.ty = allocatedTy program origin.site
  fields (field : FieldId) :
    Covers facts origins (.instanceField origin field) (object.fields field)
  elements (index : Datum) : Covers facts origins (.elements origin) (object.elements index)

/-- Findings account for a machine, with an origin for each of its objects. -/
structure AccountsFor (program : Program) (facts : Set Finding) (origins : List Origin)
    (machine : Machine) : Prop where
  stack : machine.stack = [] ∨
    ∃ context, Stacked program facts origins context machine.stack
  size : machine.objects.length = origins.length
  objects {address : Address} {object : Instance} {origin : Origin} :
    machine.objects[address]? = some object → origins[address]? = some origin →
    Modelled program facts origins object origin
  statics (field : FieldId) :
    Covers facts origins (.staticField field) (machine.statics field)

/-- What is found to flow from one place to another is held by the latter too. The
flow is needed only if there is a reference. -/
theorem Covers.flow (closed : Closed program selector facts) {source target : Place}
    (covers : Covers facts origins source datum)
    (isFlow : ∀ address, datum = .reference address → .flows source target ∈ facts) :
    Covers facts origins target datum := by
  intro address isReference
  obtain ⟨origin, isOrigin, isHeld⟩ := covers address isReference
  exact ⟨origin, isOrigin, closed.flow (isFlow address isReference) isHeld⟩

theorem covers_of_no_reference {place : Place} (isOther : ∀ address, datum ≠ .reference address) :
    Covers facts origins place datum :=
  fun address isReference => absurd isReference (isOther address)

/-- Storing what its place is found to hold. -/
theorem covers_update {Key : Type} [DecidableEq Key] {place : Key → Place} {read : Key → Datum}
    {key : Key} (covers : ∀ other, Covers facts origins (place other) (read other))
    (stored : Covers facts origins (place key) datum) (other : Key) :
    Covers facts origins (place other) (Function.update read key datum other) := by
  by_cases same : other = key
  · rw [same, Function.update_self]
    exact stored
  · rw [Function.update_of_ne same]
    exact covers other

/-- Origins of new objects change nothing for the objects there were. -/
theorem Covers.append {place : Place} (covers : Covers facts origins place datum)
    (origin : Origin) : Covers facts (origins ++ [origin]) place datum := by
  intro address isReference
  obtain ⟨other, isOther, isHeld⟩ := covers address isReference
  refine ⟨other, ?_, isHeld⟩
  rw [List.getElem?_append_left (List.getElem?_eq_some_iff.mp isOther).1]
  exact isOther

theorem Placed.append (placed : Placed facts origins context frame) (origin : Origin) :
    Placed facts (origins ++ [origin]) context frame :=
  ⟨placed.reachable, fun isHeld => (placed.held isHeld).append origin⟩

theorem Stacked.append {frames : List Frame}
    (stacked : Stacked program facts origins context frames) (origin : Origin) :
    Stacked program facts (origins ++ [origin]) context frames := by
  induction stacked with
  | bottom placed => exact .bottom (placed.append origin)
  | call placed _ isCall isFact ih => exact .call (placed.append origin) ih isCall isFact

theorem Modelled.append {object : Instance} {origin : Origin}
    (modelled : Modelled program facts origins object origin) (other : Origin) :
    Modelled program facts (origins ++ [other]) object origin where
  site := modelled.site
  ty := modelled.ty
  fields field := (modelled.fields field).append other
  elements index := (modelled.elements index).append other

/-- The frame at the head of a stack is in a context. -/
theorem Stacked.placed (stacked : Stacked program facts origins context (frame :: callers)) :
    Placed facts origins context frame := by
  cases stacked with
  | bottom placed => exact placed
  | call placed _ _ _ => exact placed

/-- The frame at the head of a stack may be replaced by one of the same method. -/
theorem Stacked.replace {other : Frame}
    (stacked : Stacked program facts origins context (frame :: callers))
    (placed : Placed facts origins context other) (sameMethod : other.method = frame.method) :
    Stacked program facts origins context (other :: callers) := by
  cases stacked with
  | bottom _ => exact .bottom placed
  | call _ below isCall isFact =>
      rw [← sameMethod] at isFact
      exact .call placed below isCall isFact

/-- Going on at another position changes no variable. -/
theorem Placed.goto (placed : Placed facts origins context frame) (index : Nat) :
    Placed facts origins context (frame.goto index) :=
  ⟨placed.reachable, placed.held⟩

/-- Assigning to a variable what it is found to hold. -/
theorem Placed.assign (placed : Placed facts origins context frame) {target : VarId}
    {assigned : Option Datum}
    (covers : ∀ datum, assigned = some datum → Covers facts origins (.var target context) datum) :
    Placed facts origins context (frame.assign target assigned) := by
  refine ⟨placed.reachable, ?_⟩
  intro var datum isHeld
  by_cases same : var = target
  · subst same
    rw [Frame.vars_assign, Function.update_self] at isHeld
    exact covers datum isHeld
  · rw [Frame.vars_assign, Function.update_of_ne same] at isHeld
    exact placed.held isHeld

/-- What an assignment may give to its target is found to be held there. -/
theorem covers_of_computes (closed : Closed program selector facts)
    (accounts : AccountsFor program facts origins machine)
    (placed : Placed facts origins context frame) {target : VarId}
    (isTarget : (program.stmt frame.site).def? = some target)
    (computes : Computes machine frame.vars (program.stmt frame.site) datum)
    (typed : ∀ address, datum = .reference address → program.isReference target = true) :
    Covers facts origins (.var target context) datum := by
  generalize isStmt : program.stmt frame.site = stmt at isTarget computes
  have isReachable := placed.reachable
  cases computes with
  | int => exact covers_of_no_reference nofun
  | null => exact covers_of_no_reference nofun
  | convert result isSource => exact covers_of_no_reference nofun
  | binary result isLeft isRight => exact covers_of_no_reference nofun
  | copy isSource =>
      cases isTarget
      exact (placed.held isSource).flow closed fun address isReference =>
        closed.copy isReachable isStmt (typed address isReference)
  | cast isSource =>
      cases isTarget
      exact (placed.held isSource).flow closed fun address isReference =>
        closed.cast isReachable isStmt (typed address isReference)
  | loadStatic =>
      cases isTarget
      exact (accounts.statics _).flow closed fun address isReference =>
        closed.staticLoad isReachable isStmt (typed address isReference)
  | loadField isBase isObject =>
      cases isTarget
      obtain ⟨origin, isOrigin, isHeld⟩ := placed.held isBase _ rfl
      exact ((accounts.objects isObject isOrigin).fields _).flow closed fun address isReference =>
        closed.fieldLoad isHeld isStmt (typed address isReference)
  | loadElement isBase isIndex isObject =>
      cases isTarget
      obtain ⟨origin, isOrigin, isHeld⟩ := placed.held isBase _ rfl
      exact ((accounts.objects isObject isOrigin).elements _).flow closed fun address isReference =>
        closed.elementLoad isHeld isStmt (typed address isReference)

/-- A method that has been called is in the context it is found to be called in. -/
theorem placed_callee (closed : Closed program selector facts) {caller : List ContextItem}
    (placed : Placed facts origins caller frame) {invoke : Invoke} {method : MethodId}
    {receiver : Option Datum} (isCall : program.stmt frame.site = .call invoke)
    (isFact : .calls invoke.kind caller frame.site ⟨context, method⟩ ∈ facts)
    (getsThis : ∀ this datum, (program.methodDef method).this = some this →
      receiver = some datum → Covers facts origins (.var this context) datum)
    (typed : ∀ var address, calleeVars (program.methodDef method) receiver frame.vars invoke.args
      var = some (.reference address) → program.isReference var = true) :
    Placed facts origins context
      ⟨method, 0, calleeVars (program.methodDef method) receiver frame.vars invoke.args⟩ := by
  refine ⟨closed.callee isFact, ?_⟩
  intro var datum isHeld
  have isReference (address : Address) (same : datum = .reference address) :
      program.isReference var = true := by
    rw [same] at isHeld
    exact typed var address isHeld
  change calleeVars _ _ _ _ var = some datum at isHeld
  unfold calleeVars at isHeld
  split at isHeld
  case isTrue isThis => exact getsThis var datum isThis isHeld
  case isFalse =>
      obtain ⟨⟨argument, parameter⟩, isPassed, isArgument⟩ := Option.bind_eq_some_iff.mp isHeld
      have sameParameter : parameter = var := by simpa using List.find?_some isPassed
      rw [← sameParameter] at isReference ⊢
      exact (placed.held isArgument).flow closed fun address same =>
        closed.argument isFact isCall (List.mem_of_find?_eq_some isPassed)
          (isReference address same)

/-- A variable that a method returns is among those it may return. -/
theorem mem_returned {var : VarId} (isReturn : program.stmt frame.site = .ret (some var)) :
    var ∈ (program.methodDef frame.method).returned := by
  have inBody : frame.index < (program.methodDef frame.method).body.size := by
    by_contra pastEnd
    have isNop : program.stmt frame.site = .nop := by
      simp [Program.stmt, MethodDef.stmt, Frame.site, Array.getD, pastEnd]
    rw [isNop] at isReturn
    cases isReturn
  have isStmt : (program.methodDef frame.method).body[frame.index] = .ret (some var) := by
    simpa [Program.stmt, MethodDef.stmt, Frame.site, Array.getD, inBody] using isReturn
  rw [MethodDef.mem_returned, ← isStmt]
  exact Array.getElem_mem inBody

/-- The variable that receives what a method returns is found to hold it. -/
theorem placed_resume (closed : Closed program selector facts) {caller : List ContextItem}
    {waiting : Frame} {invoke : Invoke} {returned : Option Datum}
    (placed : Placed facts origins context frame) (below : Placed facts origins caller waiting)
    (isCall : program.stmt waiting.site = .call invoke)
    (isFact : .calls invoke.kind caller waiting.site ⟨context, frame.method⟩ ∈ facts)
    (returns : Returns program frame returned)
    (typed : ∀ var address, (waiting.resume invoke returned).vars var = some (.reference address) →
      program.isReference var = true) :
    Placed facts origins caller (waiting.resume invoke returned) := by
  unfold Frame.resume at typed ⊢
  split
  case h_1 => exact below.goto _
  case h_2 result isResult =>
      rw [isResult] at typed
      refine below.assign ?_
      intro datum isDatum
      cases returns with
      | nothing _ => cases isDatum
      | pastEnd _ => cases isDatum
      | value isReturn isHeld =>
          cases isDatum
          refine (placed.held isHeld).flow closed fun address isReference => ?_
          refine closed.result isFact isCall isResult (typed result address ?_)
            (mem_returned isReturn)
          rw [Frame.vars_assign, Function.update_self, isReference]

section Steps

variable (accounts : AccountsFor program facts origins machine)

include accounts in
theorem AccountsFor.stacked (isStack : machine.stack = frame :: callers) :
    ∃ context, Stacked program facts origins context (frame :: callers) := by
  rcases accounts.stack with isEmpty | stacked
  · rw [isStack] at isEmpty
    cases isEmpty
  · rwa [isStack] at stacked

include accounts in
/-- Only the stack changes. -/
theorem AccountsFor.restack {frames : List Frame}
    (stacked : Stacked program facts origins context frames) :
    AccountsFor program facts origins { machine with stack := frames } :=
  ⟨Or.inr ⟨context, stacked⟩, accounts.size, accounts.objects, accounts.statics⟩

include accounts in
/-- The object at an address has an origin. -/
theorem AccountsFor.exists_origin {address : Address} {object : Instance}
    (isObject : machine.objects[address]? = some object) :
    ∃ origin, origins[address]? = some origin ∧ Modelled program facts origins object origin := by
  have inUse : address < origins.length := by
    rw [← accounts.size]
    exact (List.getElem?_eq_some_iff.mp isObject).1
  exact ⟨_, List.getElem?_eq_getElem inUse,
    accounts.objects isObject (List.getElem?_eq_getElem inUse)⟩

include accounts in
/-- A new object gets the origin that its allocation is found to have. -/
theorem AccountsFor.new (closed : Closed program selector facts)
    (isStack : machine.stack = frame :: callers) {target : VarId} {ty : Ty}
    (isNew : program.stmt frame.site = .new target ty) {fields : FieldId → Datum}
    {elements : Datum → Datum} (noFields : ∀ field address, fields field ≠ .reference address)
    (noElements : ∀ index address, elements index ≠ .reference address) :
    ∃ origin, AccountsFor program facts (origins ++ [origin]) { machine with
      stack := frame.assign target (some (.reference machine.objects.length)) :: callers
      objects := machine.objects ++ [⟨frame.site, ty, fields, elements⟩] } := by
  obtain ⟨context, stacked⟩ := accounts.stacked isStack
  have placed := stacked.placed
  have allocated := closed.allocation placed.reachable isNew
  refine ⟨⟨selector.heapList context, frame.site⟩, Or.inr ⟨context, ?_⟩, ?_, ?_, ?_⟩
  · refine (stacked.append _).replace ((placed.append _).assign ?_) rfl
    intro datum isDatum address isReference
    cases isDatum
    cases isReference
    refine ⟨_, ?_, allocated⟩
    rw [accounts.size, List.getElem?_concat_length]
  · simp only [List.length_append, List.length_singleton, accounts.size]
  · intro address object origin isObject isOrigin
    rcases Nat.lt_or_ge address machine.objects.length with isOld | notOld
    · rw [List.getElem?_append_left isOld] at isObject
      rw [List.getElem?_append_left (by rwa [← accounts.size])] at isOrigin
      exact (accounts.objects isObject isOrigin).append _
    · have isLast : address = machine.objects.length := by
        have inUse := (List.getElem?_eq_some_iff.mp isObject).1
        rw [List.length_append, List.length_singleton] at inUse
        exact Nat.le_antisymm (Nat.le_of_lt_succ inUse) notOld
      rw [isLast, List.getElem?_concat_length] at isObject
      rw [isLast, accounts.size, List.getElem?_concat_length] at isOrigin
      cases isObject
      cases isOrigin
      refine ⟨rfl, ?_, fun field => covers_of_no_reference (noFields field),
        fun index => covers_of_no_reference (noElements index)⟩
      simp only [allocatedTy, isNew]
  · exact fun field => (accounts.statics field).append _

include accounts in
/-- An object may be replaced by one that its origin accounts for as well. -/
theorem AccountsFor.set {frames : List Frame} {address : Address} {changed : Instance}
    {origin : Origin} (stacked : Stacked program facts origins context frames)
    (isOrigin : origins[address]? = some origin)
    (modelled : Modelled program facts origins changed origin) :
    AccountsFor program facts origins
      { machine with stack := frames, objects := machine.objects.set address changed } := by
  refine ⟨Or.inr ⟨context, stacked⟩, ?_, ?_, accounts.statics⟩
  · simp only [List.length_set, accounts.size]
  · intro other object another isObject isAnother
    by_cases same : address = other
    · subst same
      cases isOrigin.symm.trans isAnother
      have inUse : address < machine.objects.length := by
        rw [accounts.size]
        exact (List.getElem?_eq_some_iff.mp isOrigin).1
      rw [List.getElem?_set_self inUse] at isObject
      cases isObject
      exact modelled
    · rw [List.getElem?_set_ne same] at isObject
      exact accounts.objects isObject isAnother

include accounts in
/-- Storing in a field of an object what the field is found to hold. -/
theorem AccountsFor.storeField {frames : List Frame} {address : Address} {object : Instance}
    {origin : Origin} {field : FieldId}
    (stacked : Stacked program facts origins context frames)
    (isObject : machine.objects[address]? = some object)
    (isOrigin : origins[address]? = some origin)
    (covers : Covers facts origins (.instanceField origin field) datum) :
    AccountsFor program facts origins { machine with
      stack := frames
      objects := machine.objects.set address
        { object with fields := Function.update object.fields field datum } } := by
  have modelled := accounts.objects isObject isOrigin
  refine accounts.set stacked isOrigin ⟨modelled.site, modelled.ty, ?_, modelled.elements⟩
  exact covers_update modelled.fields covers

include accounts in
/-- Storing in an element of an array what its elements are found to hold. -/
theorem AccountsFor.storeElement {frames : List Frame} {address : Address} {object : Instance}
    {origin : Origin} {index : Datum}
    (stacked : Stacked program facts origins context frames)
    (isObject : machine.objects[address]? = some object)
    (isOrigin : origins[address]? = some origin)
    (covers : Covers facts origins (.elements origin) datum) :
    AccountsFor program facts origins { machine with
      stack := frames
      objects := machine.objects.set address
        { object with elements := Function.update object.elements index datum } } := by
  have modelled := accounts.objects isObject isOrigin
  refine accounts.set stacked isOrigin ⟨modelled.site, modelled.ty, modelled.fields, ?_⟩
  exact covers_update modelled.elements covers

include accounts in
/-- Calling a method, on an object or not. -/
theorem AccountsFor.call (closed : Closed program selector facts)
    {caller : List ContextItem}
    (stacked : Stacked program facts origins caller (frame :: callers)) {invoke : Invoke}
    {method : MethodId} {receiver : Option Datum} (isCall : program.stmt frame.site = .call invoke)
    (isFact : .calls invoke.kind caller frame.site ⟨context, method⟩ ∈ facts)
    (getsThis : ∀ this datum, (program.methodDef method).this = some this →
      receiver = some datum → Covers facts origins (.var this context) datum)
    (typed : Machine.ReferencesTyped program { machine with stack :=
      ⟨method, 0, calleeVars (program.methodDef method) receiver frame.vars invoke.args⟩ ::
        frame :: callers }) :
    AccountsFor program facts origins { machine with stack :=
      ⟨method, 0, calleeVars (program.methodDef method) receiver frame.vars invoke.args⟩ ::
        frame :: callers } :=
  accounts.restack (.call (placed_callee closed stacked.placed isCall isFact getsThis
    fun var address isHeld => typed _ List.mem_cons_self var address isHeld) stacked isCall isFact)

include accounts in
/-- One step of an execution. -/
theorem AccountsFor.step (closed : Closed program selector facts)
    (isStep : Step program machine next) (typed : next.ReferencesTyped program) :
    ∃ newOrigins, AccountsFor program facts newOrigins next := by
  cases isStep with
  | skip isStack isNop _ =>
      obtain ⟨context, stacked⟩ := accounts.stacked isStack
      exact ⟨origins, accounts.restack (stacked.replace (stacked.placed.goto _) rfl)⟩
  | jump isStack _ _ _ =>
      obtain ⟨context, stacked⟩ := accounts.stacked isStack
      exact ⟨origins, accounts.restack (stacked.replace (stacked.placed.goto _) rfl)⟩
  | @assign frame callers target datum isStack isTarget computes =>
      obtain ⟨context, stacked⟩ := accounts.stacked isStack
      have covers := covers_of_computes closed accounts stacked.placed isTarget computes (by
        intro address isReference
        refine typed _ List.mem_cons_self target address ?_
        rw [Frame.vars_assign, Function.update_self, isReference])
      refine ⟨origins, accounts.restack (stacked.replace (stacked.placed.assign ?_) rfl)⟩
      intro other isDatum
      cases isDatum
      exact covers
  | new isStack isNew noFields noElements =>
      obtain ⟨origin, newAccounts⟩ := accounts.new closed isStack isNew noFields noElements
      exact ⟨origins ++ [origin], newAccounts⟩
  | @storeStatic frame callers source field datum isStack isStore isSource =>
      obtain ⟨context, stacked⟩ := accounts.stacked isStack
      refine ⟨origins, Or.inr ⟨context, stacked.replace (stacked.placed.goto _) rfl⟩,
        accounts.size, accounts.objects, ?_⟩
      refine covers_update accounts.statics ?_
      refine (stacked.placed.held isSource).flow closed fun address isReference => ?_
      rw [isReference] at isSource
      exact closed.staticStore stacked.placed.reachable isStore
        (typed _ List.mem_cons_self source address isSource)
  | @storeField frame callers base source field address object datum isStack isStore isBase isObject
      isSource =>
      obtain ⟨context, stacked⟩ := accounts.stacked isStack
      obtain ⟨origin, isOrigin, isHeld⟩ := stacked.placed.held isBase address rfl
      refine ⟨origins, accounts.storeField (stacked.replace (stacked.placed.goto _) rfl) isObject
        isOrigin ?_⟩
      refine (stacked.placed.held isSource).flow closed fun other isReference => ?_
      rw [isReference] at isSource
      exact closed.fieldStore isHeld isStore (typed _ List.mem_cons_self source other isSource)
  | @storeElement frame callers base index source address object position datum isStack isStore
      isBase isObject isIndex isSource =>
      obtain ⟨context, stacked⟩ := accounts.stacked isStack
      obtain ⟨origin, isOrigin, isHeld⟩ := stacked.placed.held isBase address rfl
      refine ⟨origins, accounts.storeElement (stacked.replace (stacked.placed.goto _) rfl) isObject
        isOrigin ?_⟩
      refine (stacked.placed.held isSource).flow closed fun other isReference => ?_
      rw [isReference] at isSource
      exact closed.elementStore isHeld isStore (typed _ List.mem_cons_self source other isSource)
  | callStatic isStack isCall isStatic areArgs dispatched =>
      obtain ⟨context, stacked⟩ := accounts.stacked isStack
      have isFact := closed.staticCall stacked.placed.reachable isCall isStatic dispatched
      rw [← isStatic] at isFact
      exact ⟨origins, accounts.call closed stacked isCall isFact nofun typed⟩
  | @callOn frame callers invoke receiver address object method isStack isCall notStatic isReceiver
      isBase isObject areArgs resolves =>
      obtain ⟨context, stacked⟩ := accounts.stacked isStack
      obtain ⟨origin, isOrigin, isHeld⟩ := stacked.placed.held isBase address rfl
      rw [(accounts.objects isObject isOrigin).ty] at resolves
      refine ⟨origins, accounts.call closed stacked isCall
        (closed.instanceCall isHeld isCall isReceiver resolves) ?_ typed⟩
      intro this datum isThis isDatum other isReference
      cases isDatum
      cases isReference
      exact ⟨origin, isOrigin, closed.this isHeld isCall isReceiver resolves isThis⟩
  | @ret callee caller callers invoke returned isStack returns isCall =>
      obtain ⟨context, stacked⟩ := accounts.stacked isStack
      cases stacked with
      | call placed below isOther isFact =>
          cases isCall.symm.trans isOther
          have resumed := placed_resume closed placed below.placed isCall isFact returns
            fun var address isHeld => typed _ List.mem_cons_self var address isHeld
          have sameMethod : (caller.resume invoke returned).method = caller.method := by
            unfold Frame.resume
            split <;> rfl
          exact ⟨origins, accounts.restack (below.replace resumed sameMethod)⟩
  | halt isStack returns =>
      exact ⟨origins, Or.inl rfl, accounts.size, accounts.objects, accounts.statics⟩

end Steps

/-- Before the first step there are no objects. -/
theorem accountsFor_start (closed : Closed program selector facts)
    (starts : Starts program machine) :
    AccountsFor program facts [] machine := by
  obtain ⟨method, isEntry, vars, isStack, noReferences⟩ := starts.entry
  refine ⟨Or.inr ⟨[], ?_⟩, ?_, ?_, ?_⟩
  · rw [isStack]
    refine .bottom ⟨closed.entry isEntry, ?_⟩
    intro var datum isHeld
    refine covers_of_no_reference fun address isReference => ?_
    rw [isReference] at isHeld
    exact noReferences var address isHeld
  · rw [starts.objects]
    rfl
  · intro address object origin _ isOrigin
    cases isOrigin
  · exact fun field => covers_of_no_reference (starts.statics field)

/-- All along a run, a closed set of findings accounts for the machine. -/
theorem accountsFor_run (closed : Closed program selector facts) {run : List Machine}
    (isRun : Run program run) (typed : ∀ machine ∈ run, machine.ReferencesTyped program) :
    ∀ machine ∈ run, ∃ origins, AccountsFor program facts origins machine := by
  induction isRun with
  | start starts =>
      intro machine isIn
      rw [List.mem_singleton.mp isIn]
      exact ⟨[], accountsFor_start closed starts⟩
  | step _ isStep ih =>
      have before := ih fun machine isIn => typed machine (List.mem_cons_of_mem _ isIn)
      intro machine isIn
      rcases List.mem_cons.mp isIn with rfl | isOld
      · obtain ⟨origins, accounts⟩ := before _ List.mem_cons_self
        exact accounts.step closed isStep (typed machine List.mem_cons_self)
      · exact before machine isOld

end TacAnalysis.PointsTo
