/-
# What readers yield

A condition on the values that a reader yields follows from conditions on the readers it
is made of, whatever the text. What holds of every action that is read holds of every
statement of the program, as long as resolving and renaming keep it. In this way the
conditional jumps of a program are found to be comparisons, and its static calls to be
those without a receiver.
-/

import TacAnalysis.Proofs.Resolution.Jumps

namespace TacAnalysis

namespace Source

namespace Reader

variable {α β : Type} {reader : Reader α} {good : α → Prop}

/-- Every value that a reader yields satisfies a condition. -/
def Yields (reader : Reader α) (good : α → Prop) : Prop :=
  ∀ text value rest, reader text = .matched value rest → good value

theorem yields_true (reader : Reader α) : reader.Yields fun _ => True := fun _ _ _ _ => trivial

theorem yields_pure {value : α} (isGood : good value) : Yields (pure value) good := by
  intro text read rest isMatched
  cases isMatched
  exact isGood

theorem yields_fail : Yields fail good := fun _ _ _ isMatched => nomatch isMatched

theorem Yields.bind {first : Reader β} {next : β → Reader α} {firstGood : β → Prop}
    (yields : first.Yields firstGood) (nextYields : ∀ value, firstGood value →
      (next value).Yields good) : (first >>= next).Yields good := by
  intro text value rest isMatched
  change Reader.bind first next text = _ at isMatched
  unfold Reader.bind at isMatched
  split at isMatched
  case h_1 read between isFirst =>
      exact nextYields read (yields text read between isFirst) between value rest isMatched
  case h_2 => cases isMatched
  case h_3 => cases isMatched

/-- What comes before the last reader does not matter. -/
theorem yields_bind {first : Reader β} {next : β → Reader α}
    (nextYields : ∀ value, (next value).Yields good) : (first >>= next).Yields good :=
  (yields_true first).bind fun value _ => nextYields value

theorem Yields.map {first : Reader β} {firstGood : β → Prop} {f : β → α}
    (yields : first.Yields firstGood) (areGood : ∀ value, firstGood value → good (f value)) :
    (f <$> first).Yields good :=
  yields.bind fun value isGood => yields_pure (areGood value isGood)

theorem Yields.orElse {second : Reader α} (yields : reader.Yields good)
    (secondYields : second.Yields good) : (reader <|> second).Yields good := by
  intro text value rest isMatched
  change Reader.orElse reader (fun _ => second) text = _ at isMatched
  unfold Reader.orElse at isMatched
  split at isMatched
  case h_1 => exact secondYields text value rest isMatched
  case h_2 => exact yields text value rest isMatched

theorem yields_firstOf {readers : List (Reader α)}
    (yield : ∀ reader ∈ readers, Yields reader good) : (firstOf readers).Yields good := by
  induction readers with
  | nil => exact yields_fail
  | cons first readers ih =>
      obtain ⟨firstYields, othersYield⟩ := List.forall_mem_cons.mp yield
      exact firstYields.orElse (ih othersYield)

theorem Yields.many (yields : reader.Yields good) :
    reader.many.Yields fun values => ∀ value ∈ values, good value := by
  have upTo (limit : Nat) : (manyUpTo reader limit).Yields fun values =>
      ∀ value ∈ values, good value := by
    induction limit with
    | zero => exact yields_pure nofun
    | succ limit ih =>
        intro text values rest isMatched
        unfold manyUpTo at isMatched
        split at isMatched
        case h_1 first between isFirst =>
            split at isMatched
            case h_1 others _ areOthers =>
                cases isMatched
                exact List.forall_mem_cons.mpr
                  ⟨yields text first between isFirst, ih between others _ areOthers⟩
            case h_2 => cases isMatched
            case h_3 => cases isMatched
        case h_2 =>
            cases isMatched
            exact nofun
        case h_3 => cases isMatched
  exact fun text => upTo text.length text

theorem Yields.between {opening closing : String} (yields : reader.Yields good) :
    (between opening closing reader).Yields good := by
  show ((mark opening >>= fun _ => reader) >>= fun value =>
    mark closing >>= fun _ => pure value).Yields good
  refine (yields_bind fun _ => yields).bind fun value isGood => ?_
  exact yields_bind fun _ => yields_pure isGood

end Reader

/-- Every action of a method declaration satisfies a condition. -/
def MethodDecl.AllActions (good : Action → Prop) (decl : MethodDecl) : Prop :=
  ∀ body, decl.body = some body → ∀ line ∈ body.lines, good line.action

section Actions

variable {good : Action → Prop}

namespace Reader

theorem yields_line (yields : action.Yields good) : line.Yields fun line => good line.action := by
  refine yields_bind fun _ => yields.bind fun what isGood => ?_
  exact yields_bind fun _ => yields_pure isGood

theorem yields_body (yields : action.Yields good) :
    body.Yields fun body => ∀ line ∈ body.lines, good line.action := by
  have items : ((Sum.inl <$> variableDecls) <|> (Sum.inr <$> line)).Yields
      fun item => ∀ line : Line, item = Sum.inr line → good line.action := by
    apply Yields.orElse
    · exact (yields_true _).map fun _ _ _ isLine => nomatch isLine
    · exact (yields_line yields).map fun _ isGood _ isLine => Sum.inr.inj isLine ▸ isGood
  refine items.many.between.bind fun items areGood => yields_pure ?_
  intro line isLine
  obtain ⟨item, isItem, isRight⟩ := List.mem_filterMap.mp isLine
  exact areGood item isItem line (Sum.getRight?_eq_some_iff.mp isRight)

theorem yields_method (yields : action.Yields good) :
    method.Yields (MethodDecl.AllActions good) := by
  have block : (((fun _ => none) <$> mark ";") <|> (some <$> body)).Yields
      fun block => ∀ body, block = some body → ∀ line ∈ body.lines, good line.action := by
    apply Yields.orElse
    · exact (yields_true _).map fun _ _ _ isBody => nomatch isBody
    · exact (yields_body yields).map fun _ isGood _ isBody => Option.some.inj isBody ▸ isGood
  refine yields_bind fun _ => yields_bind fun _ => yields_bind fun _ => yields_bind fun _ =>
    yields_bind fun _ => yields_bind fun _ => block.bind fun block isGood => yields_pure isGood

theorem yields_classDecl (yields : action.Yields good) :
    classDecl.Yields fun cls => ∀ decl ∈ cls.methods, decl.AllActions good := by
  have members : ((Sum.inl <$> field) <|> (Sum.inr <$> method)).Yields
      fun item => ∀ decl : MethodDecl, item = Sum.inr decl → decl.AllActions good := by
    apply Yields.orElse
    · exact (yields_true _).map fun _ _ _ isMethod => nomatch isMethod
    · exact (yields_method yields).map fun _ isGood _ isMethod => Sum.inr.inj isMethod ▸ isGood
  refine yields_bind fun _ => yields_bind fun _ => yields_bind fun _ => yields_bind fun _ =>
    yields_bind fun _ => members.many.between.bind fun items areGood => yields_pure ?_
  intro decl isDecl
  obtain ⟨item, isItem, isRight⟩ := List.mem_filterMap.mp isDecl
  exact areGood item isItem decl (Sum.getRight?_eq_some_iff.mp isRight)

theorem yields_declarations (yields : action.Yields good) :
    declarations.Yields fun decls => ∀ cls ∈ decls.classes, ∀ decl ∈ cls.methods,
      decl.AllActions good := by
  have items : ((Sum.inl <$> classDecl) <|> (Sum.inr <$> entry)).Yields
      fun item => ∀ cls : ClassDecl, item = Sum.inl cls →
        ∀ decl ∈ cls.methods, decl.AllActions good := by
    apply Yields.orElse
    · exact (yields_classDecl yields).map fun _ areGood _ isClass => Sum.inl.inj isClass ▸ areGood
    · exact (yields_true _).map fun _ _ _ isClass => nomatch isClass
  refine items.many.bind fun items areGood => yields_pure ?_
  intro cls isClass
  obtain ⟨item, isItem, isLeft⟩ := List.mem_filterMap.mp isClass
  exact areGood item isItem cls (Sum.getLeft?_eq_some_iff.mp isLeft)

end Reader

/-- What holds of every action that is read holds of every action of a text. -/
theorem allActions_of_parse (yields : Reader.action.Yields good) {text : List Char}
    {decls : Declarations} (areDecls : parse text = .ok decls) :
    ∀ cls ∈ decls.classes, ∀ decl ∈ cls.methods, decl.AllActions good := by
  unfold parse at areDecls
  split at areDecls
  case h_1 found rest isFound =>
      split at areDecls
      case h_1 =>
          cases areDecls
          exact Reader.yields_declarations yields text decls rest isFound
      case h_2 => cases areDecls
  case h_2 => cases areDecls
  case h_3 => cases areDecls

end Actions

end Source

/-- Every statement of a method satisfies a condition. -/
def MethodDef.AllStmts (good : Stmt → Prop) (method : MethodDef) : Prop :=
  ∀ stmt ∈ method.body, good stmt

/-- Past the end of a body there are only statements that do nothing. -/
theorem MethodDef.AllStmts.stmt {program : Program} {site : Site} {good : Stmt → Prop}
    (areGood : (program.methodDef site.method).AllStmts good) (isGood : good .nop) :
    good (program.stmt site) := by
  rw [Program.stmt, MethodDef.stmt, Array.getD]
  split
  case isTrue inBody => exact areGood _ (Array.getElem_mem inBody)
  case isFalse => exact isGood

/-- What does not depend on the names of variables holds after splitting. -/
theorem MethodDef.AllStmts.splitMethod {program : Program} {method : MethodDef}
    {good : Stmt → Prop} (isGood : method.AllStmts good)
    (renames : ∀ {onDef onUse stmt}, good stmt → good (Stmt.rename onDef onUse stmt)) :
    (program.splitMethod method).AllStmts good := by
  intro stmt isStmt
  obtain ⟨original, isOriginal, onDef, onUse, rfl⟩ := Code.exists_of_mem_split isStmt
  exact renames (isGood original isOriginal)

/-- A condition on statements follows from one on the actions that they stand for, and
does not depend on the names of variables. -/
structure Carries (goodAction : Source.Action → Prop) (good : Stmt → Prop) : Prop where
  resolve {scope : Scope} {action : Source.Action} {stmt : Stmt} : goodAction action →
    scope.resolveAction action = .ok stmt → good stmt
  rename {onDef onUse : VarId → VarId} {stmt : Stmt} : good stmt → good (stmt.rename onDef onUse)

namespace Carries

variable {goodAction : Source.Action → Prop} {good : Stmt → Prop}

theorem resolveLines (carries : Carries goodAction good) {scope : Scope}
    {lines : List Source.Line} {body : Array Stmt}
    (areGood : ∀ line ∈ lines, goodAction line.action)
    (isResolved : scope.resolveLines lines = .ok body) : ∀ stmt ∈ body, good stmt := by
  obtain ⟨labelled, -, isRest⟩ := Resolved.bind_eq_ok.mp isResolved
  obtain ⟨stmts, areStmts, isPure⟩ := Resolved.bind_eq_ok.mp isRest
  cases isPure
  intro stmt isStmt
  obtain ⟨line, isLine, isAction⟩ :=
    Resolved.exists_of_mem_mapM areStmts (List.mem_toArray.mp isStmt)
  exact carries.resolve (areGood line isLine) isAction

variable {program new : Program}

theorem declareMethod (carries : Carries goodAction good) {owner : ClassId}
    {decl : Source.MethodDecl} (areGood : decl.AllActions goodAction)
    (others : program.AllMethods (MethodDef.AllStmts good))
    (isNew : Program.declareMethod owner program decl = .ok new) :
    new.AllMethods (MethodDef.AllStmts good) := by
  obtain ⟨header, scope, body, declares⟩ := Program.exists_of_declareMethod isNew
  have extend := (Scope.extends_declareVars declares.isHeader).trans
    (Scope.extends_declareVars declares.isScope)
  have areGoodLines : ∀ line ∈ decl.body.elim [] Source.Body.lines, goodAction line.action := by
    cases isBody : decl.body with
    | none => exact nofun
    | some block => exact areGood block isBody
  rw [declares.isNew]
  have isGood : (Program.writtenMethod owner program decl scope body).AllStmts good :=
    carries.resolveLines areGoodLines declares.isBody
  exact (others.of_eq extend.methods).addSplit (isGood.splitMethod carries.rename) _

/-- What every action that is read makes hold of the statement that it stands for holds of
all statements of a program. -/
theorem allStmts_ofText (carries : Carries goodAction good)
    (yields : Source.Reader.action.Yields goodAction) {text : String}
    (isProgram : Program.ofText text = .ok program) (id : MethodId) :
    (program.methodDef id).AllStmts good := by
  obtain ⟨decls, areDecls, isRest⟩ := Resolved.bind_eq_ok.mp isProgram
  have declares (cls : Source.ClassDecl) (isClass : cls ∈ decls.classes)
      (decl : Source.MethodDecl) (isDecl : decl ∈ cls.methods) : decl.AllActions goodAction :=
    Source.allActions_of_parse yields areDecls cls isClass decl isDecl
  have areGood : program.AllMethods (MethodDef.AllStmts good) :=
    Program.ofDeclarations_induction (fun method isIn => absurd isIn (Array.not_mem_empty method))
      (fun _ _ same areGood => areGood.of_eq same.methods)
      (fun cls isClass decl isDecl => carries.declareMethod (declares cls isClass decl isDecl))
      isRest
  exact areGood.methodDef (fun stmt isStmt => absurd isStmt (Array.not_mem_empty stmt)) id

end Carries

section Comparisons

/-- A conditional jump compares. -/
def Source.Action.Compares : Source.Action → Prop
  | .branch op _ _ _ => op.isCondition = true
  | _ => True

/-- A conditional jump compares. -/
def Stmt.Compares : Stmt → Prop
  | .branch cond _ => cond.op.isCondition = true
  | _ => True

/-- The conditional jumps of a method compare. -/
def MethodDef.Compares (method : MethodDef) : Prop := method.AllStmts Stmt.Compares

namespace Source.Reader

theorem yields_comparison : comparison.Yields fun op => op.isCondition = true := by
  refine yields_bind fun op => ?_
  split
  case isTrue isCondition => exact yields_pure isCondition
  case isFalse => exact yields_fail

theorem yields_branch : branch.Yields Action.Compares := by
  refine yields_bind fun _ => yields_bind fun _ => yields_comparison.bind fun op isCondition => ?_
  exact yields_bind fun _ => yields_bind fun _ => yields_bind fun _ => yields_pure isCondition

/-- What holds of every switch holds of those that are read. -/
theorem yields_switch {good : Action → Prop}
    (areGood : ∀ scrutinee cases default, good (.switch scrutinee cases default)) :
    switch.Yields good := by
  refine yields_bind fun _ => yields_bind fun _ => yields_bind fun entries => ?_
  rcases switchDefaults entries with _ | ⟨label, _ | _⟩
  · exact fun _ _ _ isMatched => nomatch isMatched
  · exact yields_pure (areGood _ _ _)
  · exact fun _ _ _ isMatched => nomatch isMatched

/-- The conditional jumps that are read compare. -/
theorem yields_compares : action.Yields Action.Compares := by
  have others {α : Type} (reader : Reader α) {f : α → Action}
      (areGood : ∀ value, (f value).Compares) :
      (f <$> reader).Yields Action.Compares :=
    (yields_true reader).map fun value _ => areGood value
  refine yields_firstOf ?_
  simp only [List.forall_mem_cons]
  refine ⟨others _ fun _ => trivial, others _ fun _ => trivial, others _ fun _ => trivial,
    yields_branch, yields_switch fun _ _ _ => trivial, others _ fun _ => trivial, ?fieldStore,
    ?elementStore, ?assignment, nofun⟩
  case fieldStore =>
    exact yields_bind fun _ => yields_bind fun _ => yields_bind fun _ => yields_pure trivial
  case elementStore =>
    exact yields_bind fun _ => yields_bind fun _ => yields_bind fun _ => yields_pure trivial
  case assignment =>
    exact yields_bind fun _ => yields_bind fun _ => yields_bind fun _ => yields_pure trivial

end Source.Reader

theorem Stmt.compares_rename {onDef onUse : VarId → VarId} {stmt : Stmt} :
    (stmt.rename onDef onUse).Compares ↔ stmt.Compares := by
  cases stmt <;> rfl

namespace Scope

variable {scope : Scope}

theorem compares_resolveAssignment {target : VarId} {operand : Source.Operand} {stmt : Stmt}
    (isResolved : scope.resolveAssignment target operand = .ok stmt) : stmt.Compares := by
  have noJumps := jumps_resolveAssignment isResolved
  cases stmt with
  | branch cond target => cases noJumps
  | _ => trivial

theorem compares_resolveAction {action : Source.Action} {stmt : Stmt}
    (compares : action.Compares) (isResolved : scope.resolveAction action = .ok stmt) :
    stmt.Compares := by
  cases action with
  | nop =>
      cases isResolved
      trivial
  | assign name operand =>
      obtain ⟨_, -, isRest⟩ := Resolved.bind_eq_ok.mp isResolved
      exact compares_resolveAssignment isRest
  | storeField path source =>
      obtain ⟨_, -, isRest⟩ := Resolved.bind_eq_ok.mp isResolved
      obtain ⟨_, -, isPure⟩ := Resolved.bind_eq_ok.mp isRest
      cases isPure
      trivial
  | storeElement base index source =>
      obtain ⟨_, -, isRest⟩ := Resolved.bind_eq_ok.mp isResolved
      obtain ⟨_, -, isRest⟩ := Resolved.bind_eq_ok.mp isRest
      obtain ⟨_, -, isPure⟩ := Resolved.bind_eq_ok.mp isRest
      cases isPure
      trivial
  | branch op left right label =>
      obtain ⟨cond, isCond, isRest⟩ := Resolved.bind_eq_ok.mp isResolved
      obtain ⟨_, -, isPure⟩ := Resolved.bind_eq_ok.mp isRest
      cases isPure
      obtain ⟨_, -, isRest⟩ := Resolved.bind_eq_ok.mp isCond
      obtain ⟨_, -, isPure⟩ := Resolved.bind_eq_ok.mp isRest
      cases isPure
      exact compares
  | switch scrutinee cases default =>
      obtain ⟨_, -, isRest⟩ := Resolved.bind_eq_ok.mp isResolved
      obtain ⟨_, -, isRest⟩ := Resolved.bind_eq_ok.mp isRest
      obtain ⟨_, -, isPure⟩ := Resolved.bind_eq_ok.mp isRest
      cases isPure
      trivial
  | call exp | goto label | ret value =>
      obtain ⟨_, -, isPure⟩ := Resolved.bind_eq_ok.mp isResolved
      cases isPure
      trivial

end Scope

theorem carries_compares : Carries Source.Action.Compares Stmt.Compares :=
  ⟨Scope.compares_resolveAction, Stmt.compares_rename.mpr⟩

/-- In the program that a text stands for, conditional jumps compare. -/
theorem Program.compares_ofText {program : Program} {text : String}
    (isProgram : ofText text = .ok program) (id : MethodId) : (program.methodDef id).Compares :=
  carries_compares.allStmts_ofText Source.Reader.yields_compares isProgram id

end Comparisons

section Receivers

/-- A call is made on a receiver unless it is static. -/
def Source.CallExp.Fits (exp : Source.CallExp) : Prop :=
  exp.kind = .static ↔ exp.receiver = none

/-- A call is made on a receiver unless it is static. -/
def Source.Operand.CallFits : Source.Operand → Prop
  | .call exp => exp.Fits
  | _ => True

/-- A call is made on a receiver unless it is static. -/
def Source.Action.CallFits : Source.Action → Prop
  | .assign _ operand => operand.CallFits
  | .call exp => exp.Fits
  | _ => True

/-- A call is made on a receiver unless it is static. -/
def Stmt.CallFits : Stmt → Prop
  | .call invoke => invoke.kind = .static ↔ invoke.receiver = none
  | _ => True

namespace Source.Reader

theorem yields_oneOfKeywords {α : Type} {table : List (String × α)} :
    (oneOfKeywords table).Yields fun value => value ∈ table.map Prod.snd := by
  apply yields_firstOf
  intro reader isReader
  obtain ⟨entry, isEntry, rfl⟩ := List.mem_map.mp isReader
  exact (yields_true _).map fun _ _ => List.mem_map_of_mem isEntry

/-- The calls that are read are made on a receiver unless they are static. -/
theorem yields_call : call.Yields CallExp.Fits := by
  apply Yields.orElse
  · refine yields_bind fun _ => yields_bind fun _ => yields_bind fun _ => yields_pure ?_
    exact ⟨fun _ => rfl, fun _ => rfl⟩
  · refine yields_oneOfKeywords.bind fun kind isKind => yields_bind fun receiver => ?_
    refine yields_bind fun _ => yields_bind fun _ => yields_bind fun _ => yields_pure ?_
    constructor
    · rintro rfl
      exact absurd isKind (by decide)
    · exact nofun

theorem yields_operand : operand.Yields Operand.CallFits := by
  have others {α : Type} (reader : Reader α) {f : α → Operand}
      (areGood : ∀ value, (f value).CallFits) : (f <$> reader).Yields Operand.CallFits :=
    (yields_true reader).map fun value _ => areGood value
  refine yields_firstOf ?_
  simp only [List.forall_mem_cons]
  refine ⟨others _ fun _ => trivial, yields_call.map fun _ fits => fits, ?cast,
    others _ fun _ => trivial, others _ fun _ => trivial, others _ fun _ => trivial,
    others _ fun _ => trivial, ?binary, others _ fun _ => trivial, nofun⟩
  case cast => exact yields_bind fun _ => yields_bind fun _ => yields_pure trivial
  case binary =>
    exact yields_bind fun _ => yields_bind fun _ => yields_bind fun _ => yields_pure trivial

theorem yields_callFits : action.Yields Action.CallFits := by
  have others {α : Type} (reader : Reader α) {f : α → Action}
      (areGood : ∀ value, (f value).CallFits) : (f <$> reader).Yields Action.CallFits :=
    (yields_true reader).map fun value _ => areGood value
  refine yields_firstOf ?_
  simp only [List.forall_mem_cons]
  refine ⟨others _ fun _ => trivial, others _ fun _ => trivial, others _ fun _ => trivial,
    ?branch, yields_switch fun _ _ _ => trivial, yields_call.map fun _ fits => fits, ?fieldStore,
    ?elementStore, ?assignment, nofun⟩
  case branch =>
    exact yields_bind fun _ => yields_bind fun _ => yields_bind fun _ => yields_bind fun _ =>
      yields_bind fun _ => yields_bind fun _ => yields_pure trivial
  case fieldStore =>
    exact yields_bind fun _ => yields_bind fun _ => yields_bind fun _ => yields_pure trivial
  case elementStore =>
    exact yields_bind fun _ => yields_bind fun _ => yields_bind fun _ => yields_pure trivial
  case assignment =>
    exact yields_bind fun _ => yields_bind fun _ => yields_operand.bind fun _ fits =>
      yields_pure fits

end Source.Reader

theorem Stmt.callFits_rename {onDef onUse : VarId → VarId} {stmt : Stmt} :
    (stmt.rename onDef onUse).CallFits ↔ stmt.CallFits := by
  cases stmt with
  | call invoke => simp only [rename, CallFits, Option.map_eq_none_iff]
  | _ => rfl

namespace Scope

variable {scope : Scope}

theorem fits_resolveCall {result : Option VarId} {exp : Source.CallExp} {invoke : Invoke}
    (fits : exp.Fits) (isResolved : scope.resolveCall result exp = .ok invoke) :
    invoke.kind = .static ↔ invoke.receiver = none := by
  obtain ⟨target, -, isRest⟩ := Resolved.bind_eq_ok.mp isResolved
  split at isRest
  case isTrue => cases isRest
  case isFalse =>
      obtain ⟨receiver, isReceiver, isRest⟩ := Resolved.bind_eq_ok.mp isRest
      obtain ⟨args, -, isPure⟩ := Resolved.bind_eq_ok.mp isRest
      cases isPure
      apply fits.trans
      cases written : exp.receiver with
      | none =>
          rw [written] at isReceiver
          cases isReceiver
          exact ⟨fun _ => rfl, fun _ => rfl⟩
      | some name =>
          rw [written] at isReceiver
          obtain ⟨found, -, isFound⟩ := Resolved.bind_eq_ok.mp isReceiver
          cases isFound
          exact ⟨nofun, nofun⟩

theorem callFits_resolveAssignment {target : VarId} {operand : Source.Operand} {stmt : Stmt}
    (fits : operand.CallFits) (isResolved : scope.resolveAssignment target operand = .ok stmt) :
    stmt.CallFits := by
  cases operand with
  | call exp =>
      obtain ⟨invoke, isInvoke, isPure⟩ := Resolved.bind_eq_ok.mp isResolved
      cases isPure
      exact fits_resolveCall fits isInvoke
  | literal value =>
      cases isResolved
      trivial
  | new ty | copy name | binary op left right | field path =>
      obtain ⟨_, -, isPure⟩ := Resolved.bind_eq_ok.mp isResolved
      cases isPure
      trivial
  | cast ty name | element base index =>
      obtain ⟨_, -, isRest⟩ := Resolved.bind_eq_ok.mp isResolved
      obtain ⟨_, -, isPure⟩ := Resolved.bind_eq_ok.mp isRest
      cases isPure
      trivial

theorem callFits_resolveAction {action : Source.Action} {stmt : Stmt} (fits : action.CallFits)
    (isResolved : scope.resolveAction action = .ok stmt) : stmt.CallFits := by
  cases action with
  | assign name operand =>
      obtain ⟨_, -, isRest⟩ := Resolved.bind_eq_ok.mp isResolved
      exact callFits_resolveAssignment fits isRest
  | call exp =>
      obtain ⟨invoke, isInvoke, isPure⟩ := Resolved.bind_eq_ok.mp isResolved
      cases isPure
      exact fits_resolveCall fits isInvoke
  | nop =>
      cases isResolved
      trivial
  | goto label | ret value =>
      obtain ⟨_, -, isPure⟩ := Resolved.bind_eq_ok.mp isResolved
      cases isPure
      trivial
  | storeField path source | branch op left right label =>
      obtain ⟨_, -, isRest⟩ := Resolved.bind_eq_ok.mp isResolved
      obtain ⟨_, -, isPure⟩ := Resolved.bind_eq_ok.mp isRest
      cases isPure
      trivial
  | storeElement base index source | switch scrutinee cases default =>
      obtain ⟨_, -, isRest⟩ := Resolved.bind_eq_ok.mp isResolved
      obtain ⟨_, -, isRest⟩ := Resolved.bind_eq_ok.mp isRest
      obtain ⟨_, -, isPure⟩ := Resolved.bind_eq_ok.mp isRest
      cases isPure
      trivial

end Scope

theorem carries_callFits : Carries Source.Action.CallFits Stmt.CallFits :=
  ⟨Scope.callFits_resolveAction, Stmt.callFits_rename.mpr⟩

/-- In the program that a text stands for, calls are made on a receiver unless they are
static. -/
theorem Program.callFits_ofText {program : Program} {text : String}
    (isProgram : ofText text = .ok program) {site : Site} {invoke : Invoke}
    (isCall : program.stmt site = .call invoke) :
    invoke.kind = .static ↔ invoke.receiver = none := by
  have areFitting := carries_callFits.allStmts_ofText Source.Reader.yields_callFits isProgram
    site.method
  have fits := areFitting.stmt trivial
  rw [isCall] at fits
  exact fits

end Receivers

end TacAnalysis
