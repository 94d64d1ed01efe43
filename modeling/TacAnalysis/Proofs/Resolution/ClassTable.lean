/-
# The table of classes

A class is found by its name exactly, and the root class comes first. Only interfaces and
the root class have no superclass, so that a chain of superclasses that ends does so at the
root class. The chains of a program have been checked to end: none comes back to a class,
and so none is longer than the table.
-/

import Mathlib.Data.Set.Card
import TacAnalysis.Proofs.Lists
import TacAnalysis.Proofs.Resolution.Hierarchy

namespace TacAnalysis

open Relation (ReflTransGen)

namespace Program

variable {program old new : Program} {id sub sup : ClassId} {name : String}

/-- Classes have different names. -/
def NamesDiffer (program : Program) : Prop :=
  (program.classes.toList.map ClassDef.name).Nodup

theorem classNamed?_eq_some_iff (namesDiffer : program.NamesDiffer) :
    program.classNamed? name = some id ↔
      id < program.classes.size ∧ (program.classDef id).name = name := by
  rw [classNamed?_eq_findIdx?]
  exact findIdx?_eq_some_iff_of_nodup ClassDef.name namesDiffer fun _ => beq_iff_eq

section Declaring

variable {decl : Source.ClassDecl} {decls : List Source.ClassDecl} {rootDeclared : Bool}

/-- A declaration declares the class of a number, which is an interface if it is declared as
one. The root class always is a class. -/
structure DeclaredAs (program : Program) (decl : Source.ClassDecl) (id : ClassId) : Prop where
  named : program.classNamed? decl.name = some id
  kind : id = 0 ∨ program.isInterface id = decl.isInterface

theorem DeclaredAs.keep (isDeclared : old.DeclaredAs decl id) (keeps : KeepsClasses old new) :
    new.DeclaredAs decl id := by
  obtain ⟨isNamed, sameKind⟩ := keeps.named isDeclared.named
  exact ⟨isNamed, isDeclared.kind.imp_right fun isKind => sameKind.trans isKind⟩

theorem declaredAs_declareClass (isNew : program.declareClass decl = .ok new) :
    new.DeclaredAs decl program.classes.size ∧ new.classes.size = program.classes.size + 1 ∧
      (program.NamesDiffer → new.NamesDiffer) := by
  unfold declareClass at isNew
  split at isNew
  case isFalse => cases isNew
  case isTrue isFresh =>
      cases isNew
      refine ⟨⟨?_, .inr ?_⟩, Array.size_push _, fun namesDiffer => ?_⟩
      · rw [classNamed?_addClass, if_pos (beq_self_eq_true _)]
      · rw [isInterface, classDef_addClass_size]
      · rw [classNamed?_eq_findIdx?] at isFresh
        exact nodup_push namesDiffer (fun _ => beq_iff_eq) isFresh rfl

/-- Every declaration declares a class, and every class besides the first ones is declared. -/
theorem declaredAs_declareClasses (isNew : program.declareClasses rootDeclared decls = .ok new)
    (rooted : program.Rooted) (namesDiffer : program.NamesDiffer) :
    (∀ decl ∈ decls, ∃ id, new.DeclaredAs decl id) ∧
      (∀ id < new.classes.size, program.classes.size ≤ id →
        ∃ decl ∈ decls, new.DeclaredAs decl id) ∧
      new.NamesDiffer := by
  induction decls generalizing program rootDeclared with
  | nil =>
      cases isNew
      exact ⟨List.forall_mem_nil _,
        fun id inTable pastEnd => absurd inTable (Nat.not_lt.mpr pastEnd), namesDiffer⟩
  | cons decl decls ih =>
      unfold declareClasses at isNew
      split at isNew
      case isTrue isRoot =>
          obtain ⟨keeps, -, -⟩ := declareClasses_spec isNew rooted
          obtain ⟨areDeclared, isCovered, differ⟩ := ih isNew rooted namesDiffer
          rw [Bool.and_eq_true, decide_eq_true_eq] at isRoot
          refine ⟨List.forall_mem_cons.mpr ⟨⟨0, ?_, .inl rfl⟩, areDeclared⟩, ?_, differ⟩
          · rw [isRoot.1]
            exact (rooted.keep keeps).named
          · intro id inTable isOther
            obtain ⟨other, isIn, isDeclared⟩ := isCovered id inTable isOther
            exact ⟨other, List.mem_cons_of_mem _ isIn, isDeclared⟩
      case isFalse =>
          obtain ⟨declared, isDeclared, isRest⟩ := Resolved.bind_eq_ok.mp isNew
          obtain ⟨keepsFirst, -, -⟩ := declareClass_spec isDeclared
          obtain ⟨isFirst, hasSize, differ⟩ := declaredAs_declareClass isDeclared
          have rootedToo := rooted.keep keepsFirst
          obtain ⟨keeps, -, -⟩ := declareClasses_spec isRest rootedToo
          obtain ⟨areDeclared, isCovered, differs⟩ := ih isRest rootedToo (differ namesDiffer)
          refine ⟨List.forall_mem_cons.mpr ⟨⟨_, isFirst.keep keeps⟩, areDeclared⟩, ?_, differs⟩
          intro id inTable isOther
          rcases Nat.eq_or_lt_of_le isOther with rfl | isLater
          · exact ⟨decl, List.mem_cons_self, isFirst.keep keeps⟩
          · obtain ⟨other, isIn, isDeclared⟩ := isCovered id inTable (by omega)
            exact ⟨other, List.mem_cons_of_mem _ isIn, isDeclared⟩

end Declaring

section Linking

variable {decl : Source.ClassDecl} {decls : List Source.ClassDecl}

/-- A class that is no interface has a superclass, unless it is the root class. -/
def Settled (program : Program) (id : ClassId) : Prop :=
  (program.classDef id).superclass = none → id = 0 ∨ program.isInterface id = true

/-- Superclasses are in the table. -/
def SuperclassesListed (program : Program) : Prop :=
  ∀ {sub sup}, (program.classDef sub).superclass = some sup → sup < program.classes.size

theorem size_withSupertypes {superclass : Option ClassId} {interfaces : List ClassId} :
    (program.withSupertypes id superclass interfaces).classes.size = program.classes.size :=
  Array.size_modify

/-- What holds of a program with some of its classes linked. -/
structure Linking (program : Program) (decls : List Source.ClassDecl) : Prop where
  rooted : program.Rooted
  declared {decl : Source.ClassDecl} : decl ∈ decls → ∃ id, program.DeclaredAs decl id
  namesDiffer : program.NamesDiffer
  listed : program.SuperclassesListed

/-- Classes keep their numbers, and those that are settled remain so. -/
structure KeepsSettled (old new : Program) : Prop extends KeepsClasses old new where
  size : new.classes.size = old.classes.size
  settled {id : ClassId} : old.Settled id → new.Settled id

theorem KeepsSettled.refl : KeepsSettled old old := ⟨.refl, rfl, id⟩

theorem KeepsSettled.trans {middle : Program} (first : KeepsSettled old middle)
    (second : KeepsSettled middle new) : KeepsSettled old new :=
  ⟨first.toKeepsClasses.trans second.toKeepsClasses, second.size.trans first.size,
    fun settled => second.settled (first.settled settled)⟩

/-- Linking a class settles it. -/
theorem Linking.linkClass (linking : old.Linking decls) (isDecl : decl ∈ decls)
    (isNew : old.linkClass decl = .ok new) : new.Linking decls ∧ KeepsSettled old new ∧
      ∀ id, old.DeclaredAs decl id → new.Settled id := by
  obtain ⟨linked, superclass, interfaces, links, rfl⟩ := exists_of_linkClass linking.rooted isNew
  have keeps : KeepsClasses old (old.withSupertypes linked superclass interfaces) :=
    keepsClasses_withSupertypes
  have settles : (old.withSupertypes linked superclass interfaces).Settled linked := by
    intro isNone
    rw [isInterface_withSupertypes]
    rw [classDef_withSupertypes, if_pos ⟨rfl, lt_size_of_classNamed? links.named⟩] at isNone
    obtain ⟨id, isNamed, isKind⟩ := linking.declared isDecl
    cases links.named.symm.trans isNamed
    rcases links.absent isNone with isRoot | isInterface
    · exact .inl isRoot
    · exact isKind.imp_right fun isKind => isKind.trans isInterface
  refine ⟨⟨linking.rooted.keep keeps, fun isIn => ?_, ?_, fun {sub sup} isSuperclass => ?_⟩,
    ⟨keeps, size_withSupertypes, fun {id} settled => ?_⟩, fun id isDeclared => ?_⟩
  · obtain ⟨id, isDeclared⟩ := linking.declared isIn
    exact ⟨id, isDeclared.keep keeps⟩
  · have sameNames : (old.withSupertypes linked superclass interfaces).classes.map ClassDef.name =
        old.classes.map ClassDef.name := names_withSupertypes
    rw [NamesDiffer, ← Array.toList_map, sameNames, Array.toList_map]
    exact linking.namesDiffer
  · rw [size_withSupertypes]
    rw [classDef_withSupertypes] at isSuperclass
    split at isSuperclass
    case isTrue => exact links.inTable isSuperclass
    case isFalse => exact linking.listed isSuperclass
  · by_cases isLinked : linked = id
    · exact isLinked ▸ settles
    · rw [Settled, classDef_withSupertypes, if_neg fun same => isLinked same.1,
        isInterface_withSupertypes]
      exact settled
  · cases links.named.symm.trans isDeclared.named
    exact settles

/-- Linking the classes of a program settles all that are declared. -/
theorem Linking.foldlM_linkClass {done : List Source.ClassDecl} (linking : old.Linking decls)
    (areDecls : done ⊆ decls) (isNew : done.foldlM Program.linkClass old = .ok new) :
    new.Linking decls ∧ KeepsSettled old new ∧
      ∀ decl ∈ done, ∀ id, old.DeclaredAs decl id → new.Settled id := by
  induction done generalizing old with
  | nil =>
      cases isNew
      exact ⟨linking, .refl, List.forall_mem_nil _⟩
  | cons decl done ih =>
      rw [List.foldlM_cons] at isNew
      obtain ⟨middle, isMiddle, isRest⟩ := Resolved.bind_eq_ok.mp isNew
      obtain ⟨isDecl, areOthers⟩ := List.cons_subset.mp areDecls
      obtain ⟨middleLinking, keepsFirst, settles⟩ := linking.linkClass isDecl isMiddle
      obtain ⟨newLinking, keeps, settleOthers⟩ := ih middleLinking areOthers isRest
      refine ⟨newLinking, keepsFirst.trans keeps, List.forall_mem_cons.mpr ⟨?_, ?_⟩⟩
      · exact fun id isDeclared => keeps.settled (settles id isDeclared)
      · exact fun other isOther id isDeclared =>
          settleOthers other isOther id (isDeclared.keep keepsFirst.toKeepsClasses)

end Linking

section Chains

/-- A class is the superclass of another one. -/
def IsSuperclass (program : Program) (sup sub : ClassId) : Prop :=
  (program.classDef sub).superclass = some sup

/-- The superclasses of a class: itself, its superclass, the superclass of that, and so on. -/
def Superclasses (program : Program) (id : ClassId) : Set ClassId :=
  {sup | ReflTransGen (fun sub sup => program.IsSuperclass sup sub) id sup}

theorem acc_of_chainWithin {limit : Nat} (isShort : program.chainWithin limit (some id) = true) :
    Acc program.IsSuperclass id := by
  induction limit generalizing id with
  | zero => cases isShort
  | succ limit ih =>
      rw [chainWithin] at isShort
      refine ⟨_, fun sup isSuperclass => ih ?_⟩
      rwa [show (program.classDef id).superclass = some sup from isSuperclass] at isShort

/-- Once superclasses are checked, going from superclass to superclass ends. -/
theorem wellFounded_of_checkInheritance (isChecked : program.checkInheritance = .ok ()) :
    WellFounded program.IsSuperclass := by
  refine ⟨fun id => ⟨_, fun sup isSuperclass => ?_⟩⟩
  unfold checkInheritance at isChecked
  split at isChecked
  case h_1 => cases isChecked
  case h_2 noneFails =>
      have areShort := Array.find?_eq_none.mp noneFails
      rcases Nat.lt_or_ge id program.classes.size with inTable | pastEnd
      · have isShort := areShort _ (Array.getElem_mem inTable)
        rw [IsSuperclass, classDef, Array.getD, dif_pos inTable] at isSuperclass
        rw [show program.classes[id].superclass = some sup from isSuperclass] at isShort
        exact acc_of_chainWithin (by simpa using isShort)
      · rw [IsSuperclass, classDef, Array.getD, dif_neg (Nat.not_lt.mpr pastEnd)] at isSuperclass
        cases isSuperclass

theorem Superclasses.subset_of_listed (listed : program.SuperclassesListed)
    (inTable : id < program.classes.size) :
    program.Superclasses id ⊆ Finset.range program.classes.size := by
  intro sup isAbove
  rw [Finset.mem_coe, Finset.mem_range]
  induction isAbove with
  | refl => exact inTable
  | tail _ isSuperclass _ => exact listed isSuperclass

/-- A chain of superclasses has no more classes than there are superclasses. -/
theorem chainWithin_of_ncard_le {limit : Nat} (acyclic : WellFounded program.IsSuperclass)
    (finite : (program.Superclasses id).Finite)
    (fits : (program.Superclasses id).ncard ≤ limit) :
    program.chainWithin limit (some id) = true := by
  induction limit generalizing id with
  | zero =>
      have isEmpty := (Set.ncard_eq_zero finite).mp (Nat.le_zero.mp fits)
      have isIn : id ∈ program.Superclasses id := ReflTransGen.refl
      rw [isEmpty] at isIn
      cases isIn
  | succ limit ih =>
      rw [chainWithin]
      cases isSuperclass : (program.classDef id).superclass with
      | none => simp [chainWithin]
      | some sup =>
          have isSubset : program.Superclasses sup ⊂ program.Superclasses id := by
            refine ⟨fun other isAbove => ReflTransGen.head isSuperclass isAbove,
              fun isSuperset => ?_⟩
            have isBack : id ∈ program.Superclasses sup := isSuperset ReflTransGen.refl
            have isCycle := (Relation.TransGen.head' (r := fun sub sup =>
              program.IsSuperclass sup sub) isSuperclass isBack).swap
            exact acyclic.transGen.irrefl.irrefl id isCycle
          have isLess := Set.ncard_lt_ncard isSubset finite
          exact ih (finite.subset isSubset.subset) (by omega)

/-- The root class is above every class that is no interface. -/
theorem zero_mem_superclasses (acyclic : WellFounded program.IsSuperclass)
    (linked : program.Linked) (settled : ∀ id < program.classes.size, program.Settled id)
    (listed : program.SuperclassesListed) (inTable : id < program.classes.size)
    (isClass : program.isInterface id = false) : 0 ∈ program.Superclasses id := by
  induction id using acyclic.induction with
  | _ id ih =>
      cases isSuperclass : (program.classDef id).superclass with
      | none =>
          rcases settled id inTable isSuperclass with rfl | isInterface
          · exact ReflTransGen.refl
          · exact absurd (isClass.symm.trans isInterface) Bool.false_ne_true
      | some sup =>
          have isAbove := ih sup isSuperclass (listed isSuperclass)
            (linked.superclass isSuperclass).2
          exact ReflTransGen.head isSuperclass isAbove

end Chains

/-- The table of classes of a program is well formed. -/
structure ClassesFit (program : Program) : Prop where
  named_iff {name : String} {id : ClassId} : program.classNamed? name = some id ↔
    id < program.classes.size ∧ (program.classDef id).name = name
  rootFirst : program.classNamed? rootClassName = some 0
  superclass_eq_none_iff {id : ClassId} : id < program.classes.size →
    ((program.classDef id).superclass = none ↔ program.isInterface id = true ∨ id = 0)
  superclass {sub sup : ClassId} : (program.classDef sub).superclass = some sup →
    sup < program.classes.size ∧ program.isInterface sup = false
  acyclic : WellFounded program.IsSuperclass
  chains {id : ClassId} : id < program.classes.size →
    program.chainWithin program.classes.size (some id) = true
  interfaces {sub sup : ClassId} : sup ∈ (program.classDef sub).interfaces →
    sup < program.classes.size ∧ program.isInterface sup = true

/-- A table whose classes are linked, settled and checked is well formed. -/
theorem Linking.classesFit {decls : List Source.ClassDecl} (linking : program.Linking decls)
    (linked : program.Linked) (settled : ∀ id < program.classes.size, program.Settled id)
    (isChecked : program.checkInheritance = .ok ()) : program.ClassesFit where
  named_iff := classNamed?_eq_some_iff linking.namesDiffer
  rootFirst := linking.rooted.named
  superclass_eq_none_iff {id} inTable := by
    constructor
    · exact fun isNone => (settled id inTable isNone).symm
    · intro isTop
      cases isSuperclass : (program.classDef id).superclass with
      | none => rfl
      | some sup =>
          have acyclic := wellFounded_of_checkInheritance isChecked
          obtain ⟨isClass, isSupClass⟩ := linked.superclass isSuperclass
          rcases isTop with isInterface | rfl
          · exact absurd (isClass.symm.trans isInterface) Bool.false_ne_true
          · have isBack := zero_mem_superclasses acyclic linked settled linking.listed
              (linking.listed isSuperclass) isSupClass
            have isCycle := (Relation.TransGen.head' (r := fun sub sup =>
              program.IsSuperclass sup sub) isSuperclass isBack).swap
            exact absurd isCycle (acyclic.transGen.irrefl.irrefl 0)
  superclass isSuperclass := ⟨linking.listed isSuperclass, (linked.superclass isSuperclass).2⟩
  acyclic := wellFounded_of_checkInheritance isChecked
  chains {id} inTable := by
    have isSubset := Superclasses.subset_of_listed linking.listed inTable
    apply chainWithin_of_ncard_le (wellFounded_of_checkInheritance isChecked)
      ((Finset.finite_toSet _).subset isSubset)
    have fits := Set.ncard_le_ncard isSubset (Finset.finite_toSet _)
    rwa [Set.ncard_coe_finset, Finset.card_range] at fits
  interfaces {sub sup} isNamed := by
    have isInterface := linked.interfaces isNamed
    refine ⟨Nat.lt_of_not_le fun pastEnd => ?_, isInterface⟩
    rw [Program.isInterface, classDef, Array.getD, dif_neg (Nat.not_lt.mpr pastEnd)] at isInterface
    cases isInterface

theorem chainWithin_of_classes (same : new.classes = old.classes) (limit : Nat)
    (start : Option ClassId) : new.chainWithin limit start = old.chainWithin limit start := by
  induction limit generalizing start with
  | zero => cases start <;> rfl
  | succ limit ih =>
      cases start with
      | none => rfl
      | some id => rw [chainWithin, chainWithin, ih, classDef, classDef, same]

theorem ClassesFit.of_classes (fit : old.ClassesFit) (same : new.classes = old.classes) :
    new.ClassesFit := by
  have sameDef : new.classDef = old.classDef := funext fun id => by rw [classDef, classDef, same]
  have sameNamed : new.classNamed? = old.classNamed? := funext (classNamed?_of_eq same)
  have sameKind : new.isInterface = old.isInterface := funext fun id => by
    rw [isInterface, isInterface, sameDef]
  have sameRelation : new.IsSuperclass = old.IsSuperclass := funext fun sup => funext fun sub => by
    rw [IsSuperclass, IsSuperclass, sameDef]
  constructor
  · rw [same, sameDef, sameNamed]
    exact fit.named_iff
  · rw [sameNamed]
    exact fit.rootFirst
  · rw [same, sameDef, sameKind]
    exact fit.superclass_eq_none_iff
  · rw [same, sameDef, sameKind]
    exact fit.superclass
  · rw [sameRelation]
    exact fit.acyclic
  · intro id
    rw [same, chainWithin_of_classes same]
    exact fit.chains
  · rw [same, sameDef, sameKind]
    exact fit.interfaces

/-- In the program that a text stands for, the table of classes is well formed. -/
theorem classesFit_ofText {text : String} (isProgram : ofText text = .ok program) :
    program.ClassesFit := by
  have isLinkedProgram := linked_ofText isProgram
  obtain ⟨decls, -, isResolved⟩ := Resolved.bind_eq_ok.mp isProgram
  obtain ⟨declared, linked, isDeclared, isLinked, isChecked, same⟩ :=
    exists_of_ofDeclarations isResolved
  have linkedIsLinked : linked.Linked := isLinkedProgram.of_classes same.symm
  obtain ⟨keeps, -, unlink⟩ := declareClasses_spec isDeclared rooted_root
  have rootDiffers : root.NamesDiffer := List.nodup_singleton _
  obtain ⟨areDeclared, isCovered, namesDiffer⟩ :=
    declaredAs_declareClasses isDeclared rooted_root rootDiffers
  have start : declared.Linking decls.classes := by
    refine ⟨rooted_root.keep keeps, fun isDecl => areDeclared _ isDecl, namesDiffer, ?_⟩
    intro sub sup isSuperclass
    rw [(unlink unlinked_root sub).1] at isSuperclass
    cases isSuperclass
  obtain ⟨linking, kept, settle⟩ := start.foldlM_linkClass (List.Subset.refl _) isLinked
  refine (linking.classesFit linkedIsLinked (fun id inTable => ?_) isChecked).of_classes same
  rcases Nat.eq_zero_or_pos id with rfl | isOther
  · exact fun _ => .inl rfl
  · obtain ⟨decl, isDecl, isDeclaredAs⟩ := isCovered id (kept.size ▸ inTable) isOther
    exact settle decl isDecl id isDeclaredAs

end Program

end TacAnalysis
