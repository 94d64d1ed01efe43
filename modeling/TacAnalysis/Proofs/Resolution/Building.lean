/-
# How a program is resolved

Resolving goes through the declarations of a text one after another, and stops at the
first one that has no meaning. Only the declaration of a method changes the methods
and the variables of the program, so that what it preserves holds of every program
that a text stands for.
-/

import TacAnalysis.Program.Resolution

namespace TacAnalysis

section Resolving

variable {Value Result : Type}

/-- Two steps succeed when the first one does and the second one does with its
result. -/
theorem Resolved.bind_eq_ok {Error : Type} {first : Except Error Value}
    {next : Value → Except Error Result} {result : Result} :
    first >>= next = .ok result ↔ ∃ value, first = .ok value ∧ next value = .ok result := by
  cases first with
  | error error => simp [bind, Except.bind]
  | ok value => simp [bind, Except.bind]

/-- A step that is told where its value comes from. -/
theorem Resolved.attach_bind_eq_ok {first : Resolved Value}
    {next : { value // first = .ok value } → Resolved Result} {result : Result} :
    first.attach >>= next = .ok result ↔ ∃ value isFirst, next ⟨value, isFirst⟩ = .ok result := by
  cases first with
  | error error => simp [attach, bind, Except.bind]
  | ok value => simp [attach, bind, Except.bind]

/-- What every item preserves, a list of items preserves. -/
theorem Resolved.foldlM_preserves {good : Result → Prop} {apply : Result → Value → Resolved Result}
    {items : List Value} {old new : Result}
    (preserves : ∀ item ∈ items, ∀ old new, good old → apply old item = .ok new → good new)
    (isGood : good old) (isNew : items.foldlM apply old = .ok new) : good new := by
  induction items generalizing old with
  | nil =>
      cases isNew
      exact isGood
  | cons item items ih =>
      rw [List.foldlM_cons, bind_eq_ok] at isNew
      obtain ⟨middle, isMiddle, isRest⟩ := isNew
      exact ih (fun other isIn => preserves other (List.mem_cons_of_mem _ isIn))
        (preserves item List.mem_cons_self old middle isGood isMiddle) isRest

/-- Each result of resolving a list comes from an item of the list. -/
theorem Resolved.exists_of_mem_mapM {resolve : Value → Resolved Result} {items : List Value}
    {results : List Result} (areResults : items.mapM resolve = .ok results) {result : Result}
    (isResult : result ∈ results) : ∃ item ∈ items, resolve item = .ok result := by
  induction items generalizing results with
  | nil =>
      cases areResults
      cases isResult
  | cons item items ih =>
      rw [List.mapM_cons, bind_eq_ok] at areResults
      obtain ⟨first, isFirst, areOthers⟩ := areResults
      obtain ⟨others, isRest, isPure⟩ := bind_eq_ok.mp areOthers
      cases isPure
      rcases List.mem_cons.mp isResult with rfl | isIn
      · exact ⟨item, List.mem_cons_self, isFirst⟩
      · obtain ⟨other, isOther, isResolved⟩ := ih isRest isIn
        exact ⟨other, List.mem_cons_of_mem _ isOther, isResolved⟩

/-- A list has one result for each of its items. -/
theorem Resolved.length_mapM {resolve : Value → Resolved Result} {items : List Value}
    {results : List Result} (areResults : items.mapM resolve = .ok results) :
    results.length = items.length := by
  induction items generalizing results with
  | nil =>
      cases areResults
      rfl
  | cons item items ih =>
      rw [List.mapM_cons, bind_eq_ok] at areResults
      obtain ⟨first, -, areOthers⟩ := areResults
      obtain ⟨others, isRest, isPure⟩ := bind_eq_ok.mp areOthers
      cases isPure
      rw [List.length_cons, List.length_cons, ih isRest]

/-- An outcome that passes a test is a value that does. -/
theorem exists_of_test {Error : Type} {outcome : Except Error Value} {test : Value → Bool}
    (passes : outcome.toOption.any test = true) :
    ∃ value, outcome = .ok value ∧ test value = true := by
  cases outcome with
  | error error => cases passes
  | ok value => exact ⟨value, rfl, passes⟩

end Resolving

namespace Program

variable {program new : Program}

/-- Two programs have the same methods and the same variables. -/
structure SameMethods (program new : Program) : Prop where
  methods : new.methods = program.methods
  locals : new.locals = program.locals

theorem SameMethods.refl (program : Program) : SameMethods program program := ⟨rfl, rfl⟩

theorem SameMethods.trans {middle : Program} (first : SameMethods program middle)
    (second : SameMethods middle new) : SameMethods program new :=
  ⟨second.methods.trans first.methods, second.locals.trans first.locals⟩

/-- Two programs have the same fields, too. -/
structure SameMembers (program new : Program) : Prop extends SameMethods program new where
  fields : new.fields = program.fields

theorem SameMembers.refl (program : Program) : SameMembers program program := ⟨.refl program, rfl⟩

theorem SameMembers.trans {middle : Program} (first : SameMembers program middle)
    (second : SameMembers middle new) : SameMembers program new :=
  ⟨first.toSameMethods.trans second.toSameMethods, second.fields.trans first.fields⟩

theorem sameMembers_declareClasses {decls : List Source.ClassDecl} {rootDeclared : Bool}
    (isNew : program.declareClasses rootDeclared decls = .ok new) : SameMembers program new := by
  induction decls generalizing program rootDeclared with
  | nil =>
      cases isNew
      exact .refl _
  | cons decl decls ih =>
      unfold declareClasses at isNew
      split at isNew
      case isTrue => exact ih isNew
      case isFalse =>
          obtain ⟨declared, isDeclared, isRest⟩ := Resolved.bind_eq_ok.mp isNew
          refine SameMembers.trans ?_ (ih isRest)
          unfold declareClass at isDeclared
          split at isDeclared
          case isTrue =>
              cases isDeclared
              exact ⟨⟨rfl, rfl⟩, rfl⟩
          case isFalse => cases isDeclared

theorem sameMembers_linkClass {decl : Source.ClassDecl} (isNew : program.linkClass decl = .ok new) :
    SameMembers program new := by
  obtain ⟨id, -, isRest⟩ := Resolved.bind_eq_ok.mp isNew
  have finish {superclass : Option ClassId} {names : List String}
      (isLinked : (names.mapM program.resolveInterface >>= fun interfaces =>
        pure (program.withSupertypes id superclass interfaces)) = Except.ok new) :
      SameMembers program new := by
    obtain ⟨interfaces, -, isPure⟩ := Resolved.bind_eq_ok.mp isLinked
    cases isPure
    exact ⟨⟨rfl, rfl⟩, rfl⟩
  split at isRest
  case isTrue =>
      split at isRest
      case isTrue => exact finish isRest
      case isFalse => cases isRest
  case isFalse =>
      obtain ⟨superclass, -, isLinked⟩ := Resolved.bind_eq_ok.mp isRest
      exact finish isLinked

theorem sameMethods_declareField {owner : ClassId} {name : String} {decl : Source.FieldDecl}
    (isNew : declareField owner name program decl = .ok new) : SameMethods program new := by
  obtain ⟨-, -, isRest⟩ := Resolved.bind_eq_ok.mp isNew
  split at isRest
  case isTrue =>
      cases isRest
      exact ⟨rfl, rfl⟩
  case isFalse => cases isRest

/-- The method that a declaration stands for as it is written, once the variables in scope
and the statements are known. -/
def writtenMethod (owner : ClassId) (program : Program) (decl : Source.MethodDecl)
    (scope : Scope) (body : Array Stmt) : MethodDef where
  owner := owner
  sub := decl.sub
  isStatic := decl.isStatic
  isAbstract := decl.isAbstract
  this := if decl.isStatic then none else (scope.vars.map Prod.snd).head?
  params := ((scope.vars.map Prod.snd).take
    (headerVars (program.classDef owner).name decl).length).drop
      ((headerVars (program.classDef owner).name decl).length - decl.params.length)
  vars := scope.vars.map Prod.snd
  body := body

/-- What declaring a method goes through: its header, its other variables, and its
body. -/
structure Declares (owner : ClassId) (program : Program) (decl : Source.MethodDecl)
    (header scope : Scope) (body : Array Stmt) (new : Program) : Prop where
  isFresh : program.declaredMethod? owner decl.sub = none
  fits : bodyFits decl = true
  returns : program.checkType decl.ret = .ok ()
  isHeader : Scope.declareVars ⟨program, renderSignature (program.classDef owner).name decl.sub,
    [], []⟩ (headerVars (program.classDef owner).name decl) = .ok header
  isScope : header.declareVars (decl.body.elim [] Source.Body.vars) = .ok scope
  isBody : scope.resolveLines (decl.body.elim [] Source.Body.lines) = .ok body
  staysFresh : scope.program.declaredMethod? (writtenMethod owner program decl scope body).owner
    (writtenMethod owner program decl scope body).sub = none
  isNew : new = scope.program.addSplit (writtenMethod owner program decl scope body) staysFresh

theorem exists_of_declareMethod {owner : ClassId} {decl : Source.MethodDecl}
    (isNew : declareMethod owner program decl = .ok new) :
    ∃ header scope body, Declares owner program decl header scope body new := by
  unfold declareMethod at isNew
  simp only at isNew
  split at isNew
  case isFalse => cases isNew
  case isTrue isFresh =>
      split at isNew
      case isTrue => cases isNew
      case isFalse fits =>
          obtain ⟨⟨⟩, returns, isRest⟩ := Resolved.bind_eq_ok.mp isNew
          obtain ⟨header, isHeader, isRest⟩ := Resolved.attach_bind_eq_ok.mp isRest
          obtain ⟨scope, isScope, isRest⟩ := Resolved.attach_bind_eq_ok.mp isRest
          obtain ⟨body, isBody, isPure⟩ := Resolved.bind_eq_ok.mp isRest
          cases isPure
          exact ⟨header, scope, body, isFresh, by simpa using fits, returns, isHeader, isScope,
            isBody, _, rfl⟩

/-- What holds of the program without methods, depends on methods and variables only,
and is preserved when one of the methods declared is added, holds of the program that
declarations stand for. -/
theorem ofDeclarations_induction {good : Program → Prop} (rootIsGood : good root)
    (sameMethods : ∀ old new, SameMethods old new → good old → good new)
    {decls : Source.Declarations}
    (declares : ∀ {owner : ClassId} {old new : Program}, ∀ cls ∈ decls.classes,
      ∀ decl ∈ cls.methods, good old → declareMethod owner old decl = .ok new → good new)
    (isProgram : ofDeclarations decls = .ok program) : good program := by
  obtain ⟨declared, isDeclared, isRest⟩ := Resolved.bind_eq_ok.mp isProgram
  obtain ⟨linked, isLinked, isRest⟩ := Resolved.bind_eq_ok.mp isRest
  obtain ⟨-, -, isRest⟩ := Resolved.bind_eq_ok.mp isRest
  obtain ⟨fielded, isFielded, isRest⟩ := Resolved.bind_eq_ok.mp isRest
  obtain ⟨methoded, isMethoded, isRest⟩ := Resolved.bind_eq_ok.mp isRest
  have declaredIsGood : good declared :=
    sameMethods _ _ (sameMembers_declareClasses isDeclared).toSameMethods rootIsGood
  have linkedIsGood : good linked := Resolved.foldlM_preserves
    (fun _ _ _ _ isGood isLinked =>
      sameMethods _ _ (sameMembers_linkClass isLinked).toSameMethods isGood)
    declaredIsGood isLinked
  have fieldedIsGood : good fielded := by
    refine Resolved.foldlM_preserves (fun decl _ old new isGood isNew => ?_)
      linkedIsGood isFielded
    obtain ⟨owner, -, areFields⟩ := Resolved.bind_eq_ok.mp isNew
    exact Resolved.foldlM_preserves
      (fun _ _ _ _ isGood isDeclared =>
        sameMethods _ _ (sameMethods_declareField isDeclared) isGood)
      isGood areFields
  have methodedIsGood : good methoded := by
    refine Resolved.foldlM_preserves (fun cls isClass old new isGood isNew => ?_)
      fieldedIsGood isMethoded
    obtain ⟨owner, -, areMethods⟩ := Resolved.bind_eq_ok.mp isNew
    exact Resolved.foldlM_preserves
      (fun decl isDecl _ _ isGood isDeclared => declares cls isClass decl isDecl isGood isDeclared)
      isGood areMethods
  split at isRest
  case isTrue =>
      cases isRest
      exact sameMethods methoded _ ⟨rfl, rfl⟩ methodedIsGood
  case isFalse =>
      obtain ⟨entries, -, isPure⟩ := Resolved.bind_eq_ok.mp isRest
      cases isPure
      exact sameMethods methoded _ ⟨rfl, rfl⟩ methodedIsGood

/-- What holds of the program without methods, depends on methods and variables only,
and is preserved when a method is declared, holds of every resolved program. -/
theorem ofText_induction {good : Program → Prop} (rootIsGood : good root)
    (sameMethods : ∀ old new, SameMethods old new → good old → good new)
    (declares : ∀ {owner : ClassId} {decl : Source.MethodDecl} {old new : Program}, good old →
      declareMethod owner old decl = .ok new → good new)
    {text : String} (isProgram : ofText text = .ok program) : good program := by
  obtain ⟨decls, -, isRest⟩ := Resolved.bind_eq_ok.mp isProgram
  exact ofDeclarations_induction rootIsGood sameMethods (fun _ _ _ _ => declares) isRest

end Program

end TacAnalysis
