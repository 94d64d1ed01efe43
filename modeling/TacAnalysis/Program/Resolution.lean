/-
# Resolution of names

Turns the declarations of a text into a program. Classes are declared and linked
first, then fields, then methods with their bodies, in the order of the text; the
first thing that has no meaning is the error reported. The root class always
exists, and a text may declare it once more.
-/

import TacAnalysis.Program.Webs
import TacAnalysis.Source.Grammar

namespace TacAnalysis

open Source (ClassDecl FieldDecl MethodDecl MethodName FieldPath CallExp Operand Action TypedName)

/-- The outcome of resolving part of a text. -/
abbrev Resolved := Except ProgramError

/-- An outcome whose value is known to come from it. -/
def Resolved.attach {Value : Type} (outcome : Resolved Value) :
    Resolved { value // outcome = .ok value } :=
  match outcome with
  | .ok value => .ok ⟨value, rfl⟩
  | .error error => .error error

namespace Program

/-- The class of a name, which has to exist. -/
def resolveClass (program : Program) (name : String) : Resolved ClassId :=
  match program.classNamed? name with
  | some id => .ok id
  | none => .error (.classNotFound name)

/-- The interface of a name, which has to exist and be one. -/
def resolveInterface (program : Program) (name : String) : Resolved ClassId := do
  let id ← program.resolveClass name
  if (program.classDef id).isInterface then pure id
  else .error (.invalid (.notAnInterface name))

/-- Checks that the class a type is built on exists. -/
def checkType (program : Program) (ty : Ty) : Resolved Unit :=
  match ty.innermost with
  | .named name => do discard (program.resolveClass name)
  | _ => pure ()

/-- The method reference of a method named in full, whose types and class have
to exist. -/
def resolveMethod (program : Program) (name : MethodName) : Resolved MethodRef := do
  program.checkType name.sub.ret
  name.sub.params.forM program.checkType
  let owner ← program.resolveClass name.owner
  pure ⟨owner, name.sub⟩

/-- The program holding the root class only. -/
def root : Program := empty.addClass ⟨rootClassName, false, false, none, []⟩ rfl

/-- Declares a class, still without its supertypes. -/
def declareClass (program : Program) (decl : ClassDecl) : Resolved Program :=
  if isNew : program.classNamed? decl.name = none then
    pure (program.addClass ⟨decl.name, decl.isInterface, decl.isAbstract, none, []⟩ isNew)
  else .error (.duplicate (.className decl.name))

/-- Declares classes in order. The first declaration of the root class is the
one of the existing class. -/
def declareClasses (program : Program) : (rootDeclared : Bool) → List ClassDecl →
    Resolved Program
  | _, [] => pure program
  | rootDeclared, decl :: decls =>
      if decl.name = rootClassName && !rootDeclared then program.declareClasses true decls
      else do
        let program ← program.declareClass decl
        program.declareClasses rootDeclared decls

/-- The superclass a class declaration stands for: the root class where none is
given, except for the root class itself. -/
def superclassOf (program : Program) (id : ClassId) (decl : ClassDecl) :
    Resolved (Option ClassId) :=
  match decl.superNames with
  | [] => pure (if id = 0 then none else some 0)
  | [name] => do
      let superclass ← program.resolveClass name
      if (program.classDef superclass).isInterface then
        .error (.invalid (.classExtendsInterface decl.name name))
      else pure (some superclass)
  | _ => .error (.invalid (.severalSuperclasses decl.name))

/-- Records the supertypes of a class. -/
def linkClass (program : Program) (decl : ClassDecl) : Resolved Program := do
  let id ← program.resolveClass decl.name
  let (superclass, interfaceNames) ←
    if decl.isInterface then
      if decl.interfaceNames.isEmpty then pure (none, decl.superNames)
      else .error (.invalid (.interfaceImplements decl.name))
    else do
      let superclass ← program.superclassOf id decl
      pure (superclass, decl.interfaceNames)
  let interfaces ← interfaceNames.mapM program.resolveInterface
  pure (program.withSupertypes id superclass interfaces)

/-- Whether the superclass chain starting at a class has at most `limit` classes. -/
def chainWithin (program : Program) : (limit : Nat) → Option ClassId → Bool
  | _, none => true
  | 0, some _ => false
  | limit + 1, some id => program.chainWithin limit (program.classDef id).superclass

/-- Checks that no superclass chain goes on for ever: no chain that ends is
longer than the number of classes. -/
def checkInheritance (program : Program) : Resolved Unit :=
  match program.classes.find? fun cls =>
    !program.chainWithin program.classes.size cls.superclass with
  | some cls => .error (.invalid (.cyclicInheritance cls.name))
  | none => pure ()

/-- Declares a field of a class. -/
def declareField (owner : ClassId) (ownerName : String) (program : Program) (decl : FieldDecl) :
    Resolved Program := do
  program.checkType decl.ty
  if isNew : program.declaredField? owner decl.name = none then
    pure (program.addField ⟨decl.name, owner, decl.ty, decl.isStatic⟩ isNew)
  else .error (.duplicate (.field ownerName decl.name))

/-- The field a class has under a name, declared by itself or by the closest of
its superclasses, looked for in at most `limit` classes. -/
def inheritedField? (program : Program) (name : String) :
    (limit : Nat) → Option ClassId → Option FieldId
  | _, none => none
  | 0, some _ => none
  | limit + 1, some id =>
      match program.declaredField? id name with
      | some field => some field
      | none => program.inheritedField? name limit (program.classDef id).superclass

end Program

/-- What the names in a method body stand for: the program so far, the signature
of the method, its variables and its labels. -/
structure Scope where
  program : Program
  signature : String
  vars : List (String × VarId)
  labels : List (String × Nat)

namespace Scope

/-- The variable of a name. -/
def resolveVar (scope : Scope) (name : String) : Resolved VarId :=
  match scope.vars.lookup name with
  | some var => .ok var
  | none => .error (.variableNotFound name scope.signature)

/-- The position of a label. -/
def resolveLabel (scope : Scope) (name : String) : Resolved Nat :=
  match scope.labels.lookup name with
  | some position => .ok position
  | none => .error (.labelNotFound name)

/-- The class of the object in a variable through which a field is accessed. -/
def resolveBaseClass (scope : Scope) (field : String) (base : VarId) : Resolved ClassId :=
  match (scope.program.localDef base).ty with
  | .named name => scope.program.resolveClass name
  | ty => .error (.invalid (.fieldOfNonClass field ty))

/-- The field a class has under a name, static or not as the access to it. -/
def resolveFieldIn (scope : Scope) (owner : ClassId) (name : String) (isStatic : Bool) :
    Resolved FieldId :=
  let program := scope.program
  match program.inheritedField? name program.classes.size (some owner) with
  | none => .error (.fieldNotFound (program.classDef owner).name name)
  | some id =>
      let field := program.fieldDef id
      if field.isStatic = isStatic then .ok id
      else .error (.invalid (.staticMismatch (program.classDef field.owner).name name))

/-- The base variable and the field of an access. -/
def resolveField (scope : Scope) : FieldPath → Resolved (Option VarId × FieldId)
  | .ofBase base name => do
      let base ← scope.resolveVar base
      let owner ← scope.resolveBaseClass name base
      let field ← scope.resolveFieldIn owner name false
      pure (some base, field)
  | .ofClass owner name => do
      let owner ← scope.program.resolveClass owner
      let field ← scope.resolveFieldIn owner name true
      pure (none, field)

/-- A call with the variable receiving its result. -/
def resolveCall (scope : Scope) (result : Option VarId) (exp : CallExp) : Resolved Invoke := do
  let target ← scope.program.resolveMethod exp.target
  if target.sub.params.length ≠ exp.args.length then
    .error (.invalid (.argumentCount target.sub))
  else
    let receiver ← exp.receiver.mapM scope.resolveVar
    let args ← exp.args.mapM scope.resolveVar
    pure { result, kind := exp.kind, target, receiver, args }

/-- An operator applied to two variables. -/
def resolveBinary (scope : Scope) (op : BinOp) (left right : String) : Resolved BinExp := do
  let left ← scope.resolveVar left
  let right ← scope.resolveVar right
  pure ⟨op, left, right⟩

/-- The assignment of an operand to a variable. -/
def resolveAssignment (scope : Scope) (target : VarId) : Operand → Resolved Stmt
  | .new ty => do
      scope.program.checkType ty
      pure (.new target ty)
  | .literal value => pure (.literal target value)
  | .copy name => do
      let source ← scope.resolveVar name
      pure (.copy target source)
  | .cast ty name => do
      scope.program.checkType ty
      let source ← scope.resolveVar name
      pure (.cast target ty source)
  | .binary op left right => do
      let exp ← scope.resolveBinary op left right
      pure (.binary target exp)
  | .field path => do
      let (base, field) ← scope.resolveField path
      pure (.loadField target base field)
  | .element base index => do
      let base ← scope.resolveVar base
      let index ← scope.resolveVar index
      pure (.loadArray target base index)
  | .call exp => do
      let invoke ← scope.resolveCall (some target) exp
      pure (.call invoke)

/-- The statement an action stands for. -/
def resolveAction (scope : Scope) : Action → Resolved Stmt
  | .nop => pure .nop
  | .assign target operand => do
      let target ← scope.resolveVar target
      scope.resolveAssignment target operand
  | .storeField path source => do
      let (base, field) ← scope.resolveField path
      let source ← scope.resolveVar source
      pure (.storeField base field source)
  | .storeElement base index source => do
      let base ← scope.resolveVar base
      let index ← scope.resolveVar index
      let source ← scope.resolveVar source
      pure (.storeArray base index source)
  | .call exp => do
      let invoke ← scope.resolveCall none exp
      pure (.call invoke)
  | .branch op left right label => do
      let cond ← scope.resolveBinary op left right
      let target ← scope.resolveLabel label
      pure (.branch cond target)
  | .goto label => do
      let target ← scope.resolveLabel label
      pure (.goto target)
  | .switch scrutinee cases default => do
      let scrutinee ← scope.resolveVar scrutinee
      let cases ← cases.mapM fun entry => do
        let target ← scope.resolveLabel entry.2
        pure (entry.1, target)
      let default ← scope.resolveLabel default
      pure (.switch scrutinee cases default)
  | .ret value => do
      let value ← value.mapM scope.resolveVar
      pure (.ret value)

/-- Declares variables in order, numbered after the ones of the program. -/
def declareVars (scope : Scope) : List TypedName → Resolved Scope
  | [] => pure scope
  | decl :: decls => do
      scope.program.checkType decl.ty
      if (scope.vars.lookup decl.name).isSome then
        .error (.duplicate (.localName decl.name scope.signature))
      else
        let var : Local := ⟨decl.name, decl.ty, scope.program.methods.size⟩
        declareVars { scope with
          program := scope.program.addLocals [var]
          vars := scope.vars ++ [(decl.name, scope.program.locals.size)] } decls

/-- Declaring variables leaves the methods as they are. -/
theorem methods_declareVars {scope new : Scope} {decls : List TypedName}
    (isNew : scope.declareVars decls = .ok new) : new.program.methods = scope.program.methods := by
  induction decls generalizing scope with
  | nil =>
      cases isNew
      rfl
  | cons decl decls ih =>
      unfold declareVars at isNew
      cases isType : scope.program.checkType decl.ty with
      | error error =>
          rw [isType] at isNew
          cases isNew
      | ok =>
          rw [isType] at isNew
          change (if _ then _ else _) = _ at isNew
          split at isNew
          case isTrue => cases isNew
          case isFalse => exact (ih isNew :)

/-- Declares the labels of statements, the first one being at a position. -/
def declareLabels (scope : Scope) : (position : Nat) → List Source.Line → Resolved Scope
  | _, [] => pure scope
  | position, line :: lines =>
      match line.label with
      | none => scope.declareLabels (position + 1) lines
      | some label =>
          if (scope.labels.lookup label).isSome then .error (.duplicate (.label label))
          else declareLabels { scope with labels := scope.labels ++ [(label, position)] }
            (position + 1) lines

/-- The statements of a body in a scope where its variables are declared. -/
def resolveLines (scope : Scope) (lines : List Source.Line) : Resolved (Array Stmt) := do
  let scope ← scope.declareLabels 0 lines
  let stmts ← lines.mapM fun line => scope.resolveAction line.action
  pure stmts.toArray

end Scope

/-- The statements of a method, with its receiver and its parameters. -/
def MethodDef.code (method : MethodDef) : Code := ⟨method.entryVars, method.body⟩

namespace Program

/-- The variable split from another one for the web of a rank. -/
def splitLocal (program : Program) (origin : VarId × Nat) : Local :=
  let var := program.localDef origin.1
  { var with name := var.name ++ "#" ++ toString origin.2 }

/-- The webs of a method whose variables have been declared and whose statements are known. -/
def splitting (program : Program) (method : MethodDef) : Splitting :=
  method.code.split program.locals.size

/-- A method with a variable for every web of definitions. -/
def splitMethod (program : Program) (method : MethodDef) : MethodDef :=
  let splitting := program.splitting method
  { method.withBody splitting.body with
    vars := method.vars ++ (List.range splitting.added.length).map (program.locals.size + ·) }

/-- Adds a method, giving every web of definitions a variable of its own. -/
def addSplit (program : Program) (method : MethodDef)
    (isNew : program.declaredMethod? method.owner method.sub = none) : Program :=
  let added := (program.splitting method).added.map program.splitLocal
  (program.addLocals added).addMethod (program.splitMethod method) isNew

theorem methods_addSplit {program : Program} {method : MethodDef}
    {isNew : program.declaredMethod? method.owner method.sub = none} :
    (program.addSplit method isNew).methods = program.methods.push (program.splitMethod method) :=
  methods_addMethod (program.splitMethod method) isNew

/-- The variables a method declares before its body: its receiver, unless it is
static, and its parameters. -/
def headerVars (ownerName : String) (decl : MethodDecl) : List TypedName :=
  (if decl.isStatic then [] else [⟨.named ownerName, "this"⟩]) ++ decl.params

/-- Whether a declaration has a body exactly when it needs one. -/
def bodyFits (decl : MethodDecl) : Bool :=
  decl.isAbstract != decl.body.isSome && !(decl.isAbstract && decl.isStatic)

/-- Declares a method of a class. -/
def declareMethod (owner : ClassId) (program : Program) (decl : MethodDecl) :
    Resolved Program := do
  let ownerName := (program.classDef owner).name
  if isNew : program.declaredMethod? owner decl.sub = none then
    if !bodyFits decl then .error (.invalid (.bodyMismatch ownerName decl.sub))
    else
      program.checkType decl.ret
      let header := headerVars ownerName decl
      let scope : Scope := ⟨program, renderSignature ownerName decl.sub, [], []⟩
      let ⟨scope, isHeader⟩ ← (scope.declareVars header).attach
      let ⟨scope, isScope⟩ ← (scope.declareVars (decl.body.elim [] Source.Body.vars)).attach
      let body ← scope.resolveLines (decl.body.elim [] Source.Body.lines)
      let vars := scope.vars.map Prod.snd
      let method : MethodDef :=
        { owner, sub := decl.sub, isStatic := decl.isStatic, isAbstract := decl.isAbstract
          this := if decl.isStatic then none else vars.head?
          params := (vars.take header.length).drop (header.length - decl.params.length)
          vars, body }
      have sameMethods := (Scope.methods_declareVars isScope).trans
        (Scope.methods_declareVars isHeader)
      have isNew : scope.program.declaredMethod? method.owner method.sub = none :=
        (declaredMethod?_of_eq sameMethods _ _).trans isNew
      pure (scope.program.addSplit method isNew)
  else .error (.duplicate (.method ownerName decl.sub))

/-- Declares the fields of a class. -/
def declareFields (program : Program) (decl : ClassDecl) : Resolved Program := do
  let owner ← program.resolveClass decl.name
  decl.fields.foldlM (declareField owner decl.name) program

/-- Declares the methods of a class. -/
def declareMethods (program : Program) (decl : ClassDecl) : Resolved Program := do
  let owner ← program.resolveClass decl.name
  decl.methods.foldlM (declareMethod owner) program

/-- The method an entry directive designates. -/
def resolveEntry (program : Program) (name : MethodName) : Resolved MethodId := do
  let ref ← program.resolveMethod name
  match program.declaredMethod? ref.owner ref.sub with
  | some id => pure id
  | none => .error (.methodNotFound name.owner name.sub)

/-- The methods analyses start from when no directive says so: the static ones
named `main`. -/
def mainMethods (program : Program) : List MethodId :=
  (List.range program.methods.size).filter fun id =>
    let method := program.methodDef id
    method.isStatic && method.sub.name == "main"

/-- The program that declarations stand for. -/
def ofDeclarations (decls : Source.Declarations) : Resolved Program := do
  let program ← root.declareClasses false decls.classes
  let program ← decls.classes.foldlM linkClass program
  program.checkInheritance
  let program ← decls.classes.foldlM declareFields program
  let program ← decls.classes.foldlM declareMethods program
  let entries ←
    if decls.entries.isEmpty then pure program.mainMethods
    else decls.entries.mapM program.resolveEntry
  pure { program with entries }

/-- The program of a text. -/
def ofText (text : String) : Resolved Program := do
  let decls ← Source.parse text.toList
  ofDeclarations decls

end Program

end TacAnalysis
