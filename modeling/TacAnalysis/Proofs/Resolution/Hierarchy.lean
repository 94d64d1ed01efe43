/-
# The class hierarchy of a resolved program

Classes are declared first, without supertypes, and linked to their supertypes then. In
the program that a text stands for, superclasses link classes to classes, and everything
that a type is declared to implement or extend besides its superclass is an interface.
So the links that are followed downwards are those that are followed upwards: the
descendants of a type are its subtypes.
-/

import TacAnalysis.Hierarchy
import TacAnalysis.Proofs.Graph.Search
import TacAnalysis.Proofs.Resolution.Ownership

namespace TacAnalysis

open Relation (ReflTransGen)

namespace Program

variable {program old new : Program}

section Linked

/-- Superclasses link classes to classes, and all other supertypes are interfaces. -/
structure Linked (program : Program) : Prop where
  superclass {sub sup : ClassId} : (program.classDef sub).superclass = some sup →
    program.isInterface sub = false ∧ program.isInterface sup = false
  interfaces {sub sup : ClassId} : sup ∈ (program.classDef sub).interfaces →
    program.isInterface sup = true

variable {sub sup : ClassId}

theorem mem_hierarchyArcs {link : Inheritance} :
    ⟨sub, link, sup⟩ ∈ program.hierarchyGraph.arcs ↔ sub ∈ program.classIds ∧
      ((program.classDef sub).superclass = some sup ∧ link = .extension ∨
        sup ∈ (program.classDef sub).interfaces ∧
          link = if program.isInterface sub then .extension else .implementation) := by
  simp only [hierarchyGraph, List.mem_flatMap, List.mem_append, List.mem_map, Option.mem_toList,
    isInterface, Arc.mk.injEq]
  constructor
  · rintro ⟨id, isClass, ⟨other, isSuperclass, rfl, rfl, rfl⟩ | ⟨other, isNamed, rfl, rfl, rfl⟩⟩
    · exact ⟨isClass, .inl ⟨isSuperclass, rfl⟩⟩
    · exact ⟨isClass, .inr ⟨isNamed, rfl⟩⟩
  · rintro ⟨isClass, ⟨isSuperclass, rfl⟩ | ⟨isNamed, rfl⟩⟩
    · exact ⟨sub, isClass, .inl ⟨sup, isSuperclass, rfl, rfl, rfl⟩⟩
    · exact ⟨sub, isClass, .inr ⟨sup, isNamed, rfl, rfl, rfl⟩⟩

/-- A type is declared to extend or to implement another one. -/
def Inherits (program : Program) (cls sup : ClassId) : Prop :=
  (program.classDef cls).superclass = some sup ∨ sup ∈ (program.classDef cls).interfaces

theorem lt_size_of_inherits (inherits : program.Inherits sub sup) :
    sub < program.classes.size := by
  rcases Nat.lt_or_ge sub program.classes.size with inTable | pastEnd
  · exact inTable
  · have isDefault : program.classDef sub = default := by
      rw [classDef, Array.getD, dif_neg (Nat.not_lt.mpr pastEnd)]
    rw [Inherits, isDefault] at inherits
    rcases inherits with isSuperclass | isNamed
    · cases isSuperclass
    · cases isNamed

/-- The arcs of the hierarchy lead to what types are declared to extend or to implement. -/
theorem leads_outLinks_iff :
    program.hierarchyGraph.outLinks.Leads sub sup ↔ program.Inherits sub sup := by
  rw [Digraph.leads_outLinks]
  constructor
  · rintro ⟨⟨_, link, _⟩, isArc, rfl, rfl⟩
    exact (mem_hierarchyArcs.mp isArc).2.imp And.left And.left
  · intro inherits
    have isClass := List.mem_range.mpr (lt_size_of_inherits inherits)
    rcases inherits with isSuperclass | isNamed
    · exact ⟨_, mem_hierarchyArcs.mpr ⟨isClass, .inl ⟨isSuperclass, rfl⟩⟩, rfl, rfl⟩
    · exact ⟨_, mem_hierarchyArcs.mpr ⟨isClass, .inr ⟨isNamed, rfl⟩⟩, rfl, rfl⟩

/-- The supertypes of a type are those that it inherits from in some steps or none. -/
theorem isSubtype_iff_path :
    program.isSubtype sub sup = true ↔ ReflTransGen program.Inherits sub sup := by
  have sameSteps : program.hierarchyGraph.outLinks.Leads = program.Inherits :=
    funext fun _ => funext fun _ => propext leads_outLinks_iff
  have isIn : sup ∈ program.ancestors sub ↔
      sup ∈ Graph.search program.hierarchyGraph.outLinks .freshStack [sub] [] :=
    SetFact.mem_ofList
  rw [isSubtype, List.contains_iff_mem, isIn, Graph.mem_search, sameSteps]

/-- The types looked at below a type are those that inherit from it. -/
theorem Linked.leads_subtypeLinks_iff (linked : program.Linked) :
    program.subtypeLinks.Leads sup sub ↔ program.Inherits sub sup := by
  have isSubtype_iff : program.subtypeLinks.Leads sup sub ↔ sub ∈ program.subtypes sup := .rfl
  rw [isSubtype_iff, subtypes]
  constructor
  · intro isSubtype
    suffices ∃ link, ⟨sub, link, sup⟩ ∈ program.hierarchyGraph.arcs by
      obtain ⟨link, isArc⟩ := this
      exact (mem_hierarchyArcs.mp isArc).2.imp And.left And.left
    split at isSubtype
    case isTrue =>
        rcases List.mem_append.mp isSubtype with isImplementor | isSubinterface
        · exact ⟨_, (mem_directSubtypes.mp isImplementor).1⟩
        · exact ⟨_, (mem_directSubtypes.mp isSubinterface).1⟩
    case isFalse => exact ⟨_, (mem_directSubtypes.mp isSubtype).1⟩
  · intro inherits
    have isClass := List.mem_range.mpr (lt_size_of_inherits inherits)
    rcases inherits with isSuperclass | isNamed
    · obtain ⟨subIsClass, supIsClass⟩ := linked.superclass isSuperclass
      rw [if_neg (Bool.eq_false_iff.mp supIsClass)]
      exact mem_directSubtypes.mpr
        ⟨mem_hierarchyArcs.mpr ⟨isClass, .inl ⟨isSuperclass, rfl⟩⟩, subIsClass⟩
    · rw [if_pos (linked.interfaces isNamed), List.mem_append]
      have isArc := mem_hierarchyArcs.mpr ⟨isClass, .inr ⟨isNamed, rfl⟩⟩
      cases isKind : program.isInterface sub with
      | false =>
          rw [isKind] at isArc
          exact .inl (mem_directSubtypes.mpr ⟨isArc, isKind⟩)
      | true =>
          rw [isKind] at isArc
          exact .inr (mem_directSubtypes.mpr ⟨isArc, isKind⟩)

/-- The subtypes of a type are found going upwards from them or downwards from it. -/
theorem Linked.isSubtype_iff (linked : program.Linked) :
    program.isSubtype sub sup = true ↔ sub ∈ program.descendants sup := by
  have sameSteps : program.subtypeLinks.Leads = Function.swap program.Inherits :=
    funext fun _ => funext fun _ => propext linked.leads_subtypeLinks_iff
  rw [isSubtype_iff_path, descendants, Graph.mem_search, sameSteps, Relation.reflTransGen_swap]

end Linked

section Declaring

variable {name : String} {id : ClassId} {decl : Source.ClassDecl}

/-- Classes keep their numbers, and remain classes or interfaces. -/
structure KeepsClasses (old new : Program) : Prop where
  named {name : String} {id : ClassId} : old.classNamed? name = some id →
    new.classNamed? name = some id ∧ new.isInterface id = old.isInterface id

theorem KeepsClasses.refl : KeepsClasses old old := ⟨fun isNamed => ⟨isNamed, rfl⟩⟩

theorem KeepsClasses.trans {middle : Program} (first : KeepsClasses old middle)
    (second : KeepsClasses middle new) : KeepsClasses old new where
  named isNamed := by
    obtain ⟨isNamedThen, sameThen⟩ := first.named isNamed
    obtain ⟨isNamedNow, sameNow⟩ := second.named isNamedThen
    exact ⟨isNamedNow, sameNow.trans sameThen⟩

/-- The root class has the first number, and is not an interface. -/
structure Rooted (program : Program) : Prop where
  named : program.classNamed? rootClassName = some 0
  isClass : program.isInterface 0 = false

theorem Rooted.keep (rooted : old.Rooted) (keeps : KeepsClasses old new) : new.Rooted :=
  ⟨(keeps.named rooted.named).1, (keeps.named rooted.named).2.trans rooted.isClass⟩

/-- What a declaration declares has a number, and is no interface unless it is declared as
one. -/
def Respects (program : Program) (decl : Source.ClassDecl) : Prop :=
  ∃ id, program.classNamed? decl.name = some id ∧
    (program.isInterface id = true → decl.isInterface = true)

theorem Respects.keep (respects : old.Respects decl) (keeps : KeepsClasses old new) :
    new.Respects decl := by
  obtain ⟨id, isNamed, isDeclared⟩ := respects
  obtain ⟨isNamedNow, sameKind⟩ := keeps.named isNamed
  exact ⟨id, isNamedNow, fun isInterface => isDeclared (sameKind ▸ isInterface)⟩

/-- No class is linked to supertypes. -/
def Unlinked (program : Program) : Prop :=
  ∀ id, (program.classDef id).superclass = none ∧ (program.classDef id).interfaces = []

theorem Unlinked.linked (unlinked : program.Unlinked) : program.Linked where
  superclass {sub sup} isSuperclass := by
    rw [(unlinked sub).1] at isSuperclass
    cases isSuperclass
  interfaces {sub sup} isNamed := by
    rw [(unlinked sub).2] at isNamed
    cases isNamed

section Adding

variable {cls : ClassDef} {isNew : program.classNamed? cls.name = none}

theorem classDef_addClass_of_lt (inTable : id < program.classes.size) :
    (program.addClass cls isNew).classDef id = program.classDef id := by
  rw [classDef, classDef, addClass, Array.getD_eq_getD_getElem?, Array.getD_eq_getD_getElem?,
    Array.getElem?_push_lt inTable, Array.getElem?_eq_getElem inTable]

theorem classDef_addClass_size :
    (program.addClass cls isNew).classDef program.classes.size = cls := by
  rw [classDef, addClass, Array.getD_eq_getD_getElem?, Array.getElem?_push_size, Option.getD_some]

/-- The class that is added is found by its name, and the others are found as before. -/
theorem classNamed?_addClass : (program.addClass cls isNew).classNamed? name =
    if name == cls.name then some program.classes.size else program.classNamed? name :=
  lookup_insertEntry _ _ _ _

end Adding

/-- Classes are found by their names. -/
theorem classNamed?_eq : program.classNamed? name =
    (program.classes.map ClassDef.name).findIdx? (· == name) := by
  rw [classNamed?_eq_findIdx?, Array.findIdx?_map]
  rfl

theorem lt_size_of_classNamed? (isNamed : program.classNamed? name = some id) :
    id < program.classes.size := by
  rw [classNamed?_eq_findIdx?] at isNamed
  obtain ⟨inTable, -⟩ := Array.findIdx?_eq_some_iff_getElem.mp isNamed
  exact inTable

theorem classNamed?_of_resolveClass (isResolved : program.resolveClass name = .ok id) :
    program.classNamed? name = some id := by
  unfold resolveClass at isResolved
  split at isResolved
  case h_1 isFound =>
      cases isResolved
      exact isFound
  case h_2 => cases isResolved

/-- Declaring a class adds it at the end of the table. -/
theorem declareClass_spec (isNew : program.declareClass decl = .ok new) :
    KeepsClasses program new ∧ new.Respects decl ∧ (program.Unlinked → new.Unlinked) := by
  unfold declareClass at isNew
  split at isNew
  case isFalse => cases isNew
  case isTrue isFresh =>
      cases isNew
      refine ⟨⟨fun {name id} isNamed => ?_⟩, ⟨program.classes.size, ?_, ?_⟩, fun unlinked id => ?_⟩
      · have isOther : ¬name == decl.name := by
          intro isSame
          rw [eq_of_beq isSame, isFresh] at isNamed
          cases isNamed
        rw [classNamed?_addClass, if_neg isOther, isInterface,
          classDef_addClass_of_lt (lt_size_of_classNamed? isNamed)]
        exact ⟨isNamed, rfl⟩
      · rw [classNamed?_addClass, if_pos (beq_self_eq_true _)]
      · rw [isInterface, classDef_addClass_size]
        exact id
      · rcases Nat.lt_trichotomy id program.classes.size with inTable | rfl | pastEnd
        · rw [classDef_addClass_of_lt inTable]
          exact unlinked id
        · rw [classDef_addClass_size]
          exact ⟨rfl, rfl⟩
        · rw [classDef, addClass, Array.getD, dif_neg]
          · exact ⟨rfl, rfl⟩
          · rw [Array.size_push]
            exact Nat.not_lt.mpr pastEnd

/-- Declaring classes keeps those that are there, and links none. -/
theorem declareClasses_spec {decls : List Source.ClassDecl} {rootDeclared : Bool}
    (isNew : program.declareClasses rootDeclared decls = .ok new) (rooted : program.Rooted) :
    KeepsClasses program new ∧ (∀ decl ∈ decls, new.Respects decl) ∧
      (program.Unlinked → new.Unlinked) := by
  induction decls generalizing program rootDeclared with
  | nil =>
      cases isNew
      exact ⟨.refl, List.forall_mem_nil _, id⟩
  | cons decl decls ih =>
      unfold declareClasses at isNew
      split at isNew
      case isTrue isRoot =>
          obtain ⟨keeps, respect, links⟩ := ih isNew rooted
          refine ⟨keeps, List.forall_mem_cons.mpr ⟨⟨0, ?_, ?_⟩, respect⟩, links⟩
          · rw [Bool.and_eq_true, decide_eq_true_eq] at isRoot
            rw [isRoot.1]
            exact (rooted.keep keeps).named
          · rw [(rooted.keep keeps).isClass]
            exact fun isInterface => absurd isInterface Bool.false_ne_true
      case isFalse =>
          obtain ⟨declared, isDeclared, isRest⟩ := Resolved.bind_eq_ok.mp isNew
          obtain ⟨keepsFirst, respects, linksFirst⟩ := declareClass_spec isDeclared
          obtain ⟨keeps, respect, links⟩ := ih isRest (rooted.keep keepsFirst)
          exact ⟨keepsFirst.trans keeps, List.forall_mem_cons.mpr ⟨respects.keep keeps, respect⟩,
            fun unlinked => links (linksFirst unlinked)⟩

end Declaring

section Linking

variable {decl : Source.ClassDecl}

theorem isInterface_of_resolveInterface {name : String} {id : ClassId}
    (isResolved : program.resolveInterface name = .ok id) : program.isInterface id = true := by
  obtain ⟨found, -, isRest⟩ := Resolved.bind_eq_ok.mp isResolved
  split at isRest
  case isTrue isInterface =>
      cases isRest
      exact isInterface
  case isFalse => cases isRest

/-- Only the root class is declared to have no superclass; any other one is a class. -/
theorem superclassOf_spec {id : ClassId} {superclass : Option ClassId} (rooted : program.Rooted)
    (isResolved : program.superclassOf id decl = .ok superclass) :
    (superclass = none → id = 0) ∧ ∀ sup, superclass = some sup →
      sup < program.classes.size ∧ program.isInterface sup = false := by
  unfold superclassOf at isResolved
  split at isResolved
  case h_1 =>
      split at isResolved
      case isTrue isRoot =>
          cases isResolved
          exact ⟨fun _ => isRoot, nofun⟩
      case isFalse =>
          cases isResolved
          refine ⟨nofun, fun sup isSup => ?_⟩
          cases isSup
          exact ⟨lt_size_of_classNamed? rooted.named, rooted.isClass⟩
  case h_2 =>
      obtain ⟨found, isFound, isRest⟩ := Resolved.bind_eq_ok.mp isResolved
      split at isRest
      case isTrue => cases isRest
      case isFalse isClass =>
          cases isRest
          refine ⟨nofun, fun sup isSup => ?_⟩
          cases isSup
          exact ⟨lt_size_of_classNamed? (classNamed?_of_resolveClass isFound),
            Bool.eq_false_iff.mpr isClass⟩
  case h_3 => cases isResolved

/-- What may be recorded when a class is linked: a superclass that is no interface, which
only the root class and interfaces have none of, and interfaces. -/
structure Links (program : Program) (decl : Source.ClassDecl) (id : ClassId)
    (superclass : Option ClassId) (interfaces : List ClassId) : Prop where
  named : program.classNamed? decl.name = some id
  absent : superclass = none → id = 0 ∨ decl.isInterface = true
  isClass {sup : ClassId} : superclass = some sup →
    decl.isInterface = false ∧ program.isInterface sup = false
  inTable {sup : ClassId} : superclass = some sup → sup < program.classes.size
  areInterfaces {sup : ClassId} : sup ∈ interfaces → program.isInterface sup = true

theorem exists_of_linkClass (rooted : program.Rooted) (isNew : program.linkClass decl = .ok new) :
    ∃ id superclass interfaces, program.Links decl id superclass interfaces ∧
      new = program.withSupertypes id superclass interfaces := by
  obtain ⟨id, isResolved, isRest⟩ := Resolved.bind_eq_ok.mp isNew
  have isNamed := classNamed?_of_resolveClass isResolved
  have finish {superclass : Option ClassId} {names : List String}
      (isAbsent : superclass = none → id = 0 ∨ decl.isInterface = true)
      (areClasses : ∀ sup, superclass = some sup → decl.isInterface = false ∧
        sup < program.classes.size ∧ program.isInterface sup = false)
      (isLinked : (names.mapM program.resolveInterface >>= fun interfaces =>
        pure (program.withSupertypes id superclass interfaces)) = Except.ok new) :
      ∃ id superclass interfaces, program.Links decl id superclass interfaces ∧
        new = program.withSupertypes id superclass interfaces := by
    obtain ⟨interfaces, areResolved, isPure⟩ := Resolved.bind_eq_ok.mp isLinked
    cases isPure
    refine ⟨id, superclass, interfaces, ⟨isNamed, isAbsent, fun isSup => ?_,
      fun isSup => (areClasses _ isSup).2.1, fun isIn => ?_⟩, rfl⟩
    · exact ⟨(areClasses _ isSup).1, (areClasses _ isSup).2.2⟩
    · obtain ⟨name, -, isInterface⟩ := Resolved.exists_of_mem_mapM areResolved isIn
      exact isInterface_of_resolveInterface isInterface
  split at isRest
  case isTrue isInterface =>
      split at isRest
      case isTrue =>
          refine finish (fun _ => .inr isInterface) (fun sup isSup => ?_) isRest
          cases isSup
      case isFalse => cases isRest
  case isFalse isClass =>
      obtain ⟨superclass, isSuperclass, isLinked⟩ := Resolved.bind_eq_ok.mp isRest
      obtain ⟨isRoot, areClasses⟩ := superclassOf_spec rooted isSuperclass
      exact finish (fun isNone => .inl (isRoot isNone))
        (fun sup isSup => ⟨Bool.eq_false_iff.mpr isClass, areClasses sup isSup⟩) isLinked

variable {id other : ClassId} {superclass : Option ClassId} {interfaces : List ClassId}

theorem classDef_withSupertypes :
    (program.withSupertypes id superclass interfaces).classDef other =
      if id = other ∧ other < program.classes.size then
        { program.classDef other with superclass, interfaces }
      else program.classDef other := by
  rw [classDef, classDef, withSupertypes, Array.getD_eq_getD_getElem?,
    Array.getD_eq_getD_getElem?, Array.getElem?_modify]
  by_cases inTable : other < program.classes.size
  · simp only [inTable, and_true, Array.getElem?_eq_getElem]
    split <;> rfl
  · have noClass : program.classes[other]? = none :=
      Array.getElem?_eq_none (Nat.not_lt.mp inTable)
    simp only [inTable, and_false, if_false, noClass]
    split <;> rfl

theorem isInterface_withSupertypes :
    (program.withSupertypes id superclass interfaces).isInterface other =
      program.isInterface other := by
  rw [isInterface, classDef_withSupertypes]
  split <;> rfl

theorem names_withSupertypes :
    (program.withSupertypes id superclass interfaces).classes.map ClassDef.name =
      program.classes.map ClassDef.name := by
  apply Array.ext
  · simp only [withSupertypes, Array.size_map, Array.size_modify]
  · intro position _ _
    simp only [withSupertypes, Array.getElem_map, Array.getElem_modify]
    split <;> rfl

theorem keepsClasses_withSupertypes :
    KeepsClasses program (program.withSupertypes id superclass interfaces) where
  named isNamed := by
    rw [classNamed?_eq, names_withSupertypes, ← classNamed?_eq]
    exact ⟨isNamed, isInterface_withSupertypes⟩

/-- Linking a class leads from linked classes to linked classes. -/
theorem linked_linkClass (linked : program.Linked) (rooted : program.Rooted)
    (respects : program.Respects decl) (isNew : program.linkClass decl = .ok new) :
    new.Linked ∧ KeepsClasses program new := by
  obtain ⟨id, superclass, interfaces, links, rfl⟩ := exists_of_linkClass rooted isNew
  refine ⟨⟨fun {sub sup} isSuperclass => ?_, fun {sub sup} isInterface => ?_⟩,
    keepsClasses_withSupertypes⟩
  · rw [isInterface_withSupertypes, isInterface_withSupertypes]
    rw [classDef_withSupertypes] at isSuperclass
    split at isSuperclass
    case isTrue isLinked =>
        obtain ⟨isClass, isSupClass⟩ := links.isClass isSuperclass
        obtain ⟨found, isFound, isDeclared⟩ := respects
        cases links.named.symm.trans isFound
        refine ⟨Bool.eq_false_iff.mpr fun isInterface => ?_, isSupClass⟩
        rw [← isLinked.1] at isInterface
        cases isClass.symm.trans (isDeclared isInterface)
    case isFalse => exact linked.superclass isSuperclass
  · rw [isInterface_withSupertypes]
    rw [classDef_withSupertypes] at isInterface
    split at isInterface
    case isTrue => exact links.areInterfaces isInterface
    case isFalse => exact linked.interfaces isInterface

end Linking

section Resolving

variable {decls : Source.Declarations}

theorem unlinked_root : root.Unlinked := by
  intro id
  match id with
  | 0 => exact ⟨rfl, rfl⟩
  | _ + 1 => exact ⟨rfl, rfl⟩

theorem rooted_root : root.Rooted := ⟨by decide +kernel, rfl⟩

/-- What keeps the classes item by item keeps them for a list of items. -/
theorem classes_foldlM {Item : Type} {apply : Program → Item → Resolved Program}
    {items : List Item} (keeps : ∀ old item new, apply old item = .ok new →
      new.classes = old.classes) (isNew : items.foldlM apply old = .ok new) :
    new.classes = old.classes := by
  let Same (program : Program) : Prop := program.classes = old.classes
  have preserves (item : Item) (_ : item ∈ items) (middle next : Program) (same : Same middle)
      (isNext : apply middle item = .ok next) : Same next :=
    (keeps middle item next isNext).trans same
  have isSame : Same old := rfl
  have isSameStill : Same new := Resolved.foldlM_preserves preserves isSame isNew
  exact isSameStill

theorem classes_declareField {owner : ClassId} {name : String} {decl : Source.FieldDecl}
    (isNew : declareField owner name program decl = .ok new) : new.classes = program.classes := by
  obtain ⟨-, -, isRest⟩ := Resolved.bind_eq_ok.mp isNew
  split at isRest
  case isTrue =>
      cases isRest
      rfl
  case isFalse => cases isRest

theorem classes_declareMethod {owner : ClassId} {decl : Source.MethodDecl}
    (isNew : declareMethod owner program decl = .ok new) : new.classes = program.classes := by
  obtain ⟨header, scope, body, declares⟩ := exists_of_declareMethod isNew
  have extend := (Scope.extends_declareVars declares.isHeader).trans
    (Scope.extends_declareVars declares.isScope)
  rw [declares.isNew]
  exact extend.classes

/-- The classes of a program are those that its class declarations stand for, and their
superclasses have been checked. -/
theorem exists_of_ofDeclarations (isProgram : ofDeclarations decls = .ok program) :
    ∃ declared linked, root.declareClasses false decls.classes = .ok declared ∧
      decls.classes.foldlM linkClass declared = .ok linked ∧
      linked.checkInheritance = .ok () ∧ program.classes = linked.classes := by
  obtain ⟨declared, isDeclared, isRest⟩ := Resolved.bind_eq_ok.mp isProgram
  obtain ⟨linked, isLinked, isRest⟩ := Resolved.bind_eq_ok.mp isRest
  obtain ⟨⟨⟩, isChecked, isRest⟩ := Resolved.bind_eq_ok.mp isRest
  obtain ⟨fielded, isFielded, isRest⟩ := Resolved.bind_eq_ok.mp isRest
  obtain ⟨methoded, isMethoded, isRest⟩ := Resolved.bind_eq_ok.mp isRest
  have sameClasses : methoded.classes = linked.classes := by
    refine (classes_foldlM (fun old cls new isNew => ?_) isMethoded).trans
      (classes_foldlM (fun old cls new isNew => ?_) isFielded)
    · obtain ⟨owner, -, areMethods⟩ := Resolved.bind_eq_ok.mp isNew
      exact classes_foldlM (fun _ _ _ => classes_declareMethod) areMethods
    · obtain ⟨owner, -, areFields⟩ := Resolved.bind_eq_ok.mp isNew
      exact classes_foldlM (fun _ _ _ => classes_declareField) areFields
  refine ⟨declared, linked, isDeclared, isLinked, isChecked, ?_⟩
  split at isRest
  case isTrue =>
      cases isRest
      exact sameClasses
  case isFalse =>
      obtain ⟨entries, -, isPure⟩ := Resolved.bind_eq_ok.mp isRest
      cases isPure
      exact sameClasses

theorem Linked.of_classes (linked : old.Linked) (same : new.classes = old.classes) :
    new.Linked := by
  have sameDef (id : ClassId) : new.classDef id = old.classDef id := by
    rw [classDef, classDef, same]
  constructor
  · intro sub sup isSuperclass
    rw [sameDef] at isSuperclass
    rw [isInterface, isInterface, sameDef, sameDef]
    exact linked.superclass isSuperclass
  · intro sub sup isNamed
    rw [sameDef] at isNamed
    rw [isInterface, sameDef]
    exact linked.interfaces isNamed

/-- In the program that a text stands for, superclasses link classes to classes, and all
other supertypes are interfaces. -/
theorem linked_ofText {text : String} (isProgram : ofText text = .ok program) :
    program.Linked := by
  obtain ⟨decls, -, isResolved⟩ := Resolved.bind_eq_ok.mp isProgram
  obtain ⟨declared, linked, isDeclared, isLinked, -, sameClasses⟩ :=
    exists_of_ofDeclarations isResolved
  obtain ⟨keeps, respect, links⟩ := declareClasses_spec isDeclared rooted_root
  have areLinked :
      linked.Linked ∧ linked.Rooted ∧ ∀ decl ∈ decls.classes, linked.Respects decl := by
    apply Resolved.foldlM_preserves _ _ isLinked
    · intro decl isDecl old new isGood isNew
      obtain ⟨oldLinked, rooted, respect⟩ := isGood
      obtain ⟨newLinked, keeps⟩ := linked_linkClass oldLinked rooted (respect decl isDecl) isNew
      exact ⟨newLinked, rooted.keep keeps,
        fun other isOther => (respect other isOther).keep keeps⟩
    · exact ⟨(links unlinked_root).linked, rooted_root.keep keeps, respect⟩
  exact areLinked.1.of_classes sameClasses

end Resolving

end Program

end TacAnalysis
