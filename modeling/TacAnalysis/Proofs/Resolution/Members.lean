/-
# Fields, methods and variables

Fields and methods are declared one after another, once the classes are known. A class has
no two fields of one name and no two methods of one subsignature, so that both are found
exactly. The variables of a method are all those that belong to it, and every class that a
declared type is built on exists. A method still fits when others are added, since what they
add comes after what is there.
-/

import TacAnalysis.Proofs.Resolution.ClassTable
import TacAnalysis.Proofs.Resolution.Declaring

namespace TacAnalysis

namespace Program

variable {program old new : Program}

section Induction

variable {decls : Source.Declarations}

/-- What holds once classes are linked and before there is anything else, and is preserved
when fields and methods of these classes are declared, holds of the program that
declarations stand for. -/
theorem members_induction {good : Program → Prop}
    (isProgram : ofDeclarations decls = .ok program)
    (start : ∀ start, start.classes = program.classes → start.fields = #[] →
      start.methods = #[] → start.locals = #[] → good start)
    (field : ∀ {owner : ClassId} {name : String} {decl : Source.FieldDecl} {old new : Program},
      old.classes = program.classes → owner < program.classes.size → good old →
        declareField owner name old decl = .ok new → good new)
    (method : ∀ {owner : ClassId} {old new : Program}, ∀ cls ∈ decls.classes,
      ∀ decl ∈ cls.methods, old.classes = program.classes → owner < program.classes.size →
        good old → declareMethod owner old decl = .ok new → good new)
    (entries : ∀ old entries, good old → good { old with entries }) : good program := by
  obtain ⟨declared, isDeclared, isRest⟩ := Resolved.bind_eq_ok.mp isProgram
  obtain ⟨linked, isLinked, isRest⟩ := Resolved.bind_eq_ok.mp isRest
  obtain ⟨-, -, isRest⟩ := Resolved.bind_eq_ok.mp isRest
  obtain ⟨fielded, isFielded, isRest⟩ := Resolved.bind_eq_ok.mp isRest
  obtain ⟨methoded, isMethoded, isRest⟩ := Resolved.bind_eq_ok.mp isRest
  have sameClasses : linked.classes = program.classes := by
    obtain ⟨_, _, isDeclaredToo, isLinkedToo, -, same⟩ := exists_of_ofDeclarations isProgram
    cases isDeclared.symm.trans isDeclaredToo
    cases isLinked.symm.trans isLinkedToo
    exact same.symm
  have isBare : SameMembers root linked := Resolved.foldlM_preserves
    (fun _ _ _ _ isBare isLinked => isBare.trans (sameMembers_linkClass isLinked))
    (sameMembers_declareClasses isDeclared) isLinked
  let Good (middle : Program) : Prop := middle.classes = program.classes ∧ good middle
  have linkedIsGood : Good linked :=
    ⟨sameClasses, start linked sameClasses isBare.fields isBare.methods isBare.locals⟩
  have inTable {old : Program} {name : String} {owner : ClassId} (isGood : Good old)
      (isOwner : old.resolveClass name = .ok owner) : owner < program.classes.size :=
    isGood.1 ▸ lt_size_of_classNamed? (classNamed?_of_resolveClass isOwner)
  have fieldedIsGood : Good fielded := by
    refine Resolved.foldlM_preserves (fun cls _ old new isGood isNew => ?_) linkedIsGood isFielded
    obtain ⟨owner, isOwner, areFields⟩ := Resolved.bind_eq_ok.mp isNew
    have ownerInTable := inTable isGood isOwner
    refine Resolved.foldlM_preserves (fun decl _ old new isGood isNew => ?_) isGood areFields
    exact ⟨(classes_declareField isNew).trans isGood.1, field isGood.1 ownerInTable isGood.2 isNew⟩
  have methodedIsGood : Good methoded := by
    refine Resolved.foldlM_preserves (fun cls isClass old new isGood isNew => ?_) fieldedIsGood
      isMethoded
    obtain ⟨owner, isOwner, areMethods⟩ := Resolved.bind_eq_ok.mp isNew
    have ownerInTable := inTable isGood isOwner
    refine Resolved.foldlM_preserves (fun decl isDecl old new isGood isNew => ?_) isGood areMethods
    exact ⟨(classes_declareMethod isNew).trans isGood.1,
      method cls isClass decl isDecl isGood.1 ownerInTable isGood.2 isNew⟩
  split at isRest
  case isTrue =>
      cases isRest
      exact entries methoded _ methodedIsGood.2
  case isFalse =>
      obtain ⟨found, -, isPure⟩ := Resolved.bind_eq_ok.mp isRest
      cases isPure
      exact entries methoded _ methodedIsGood.2

end Induction

section Table

variable {id : MethodId} {method : MethodDef} {var : VarId}

/-- A method fits the tables of a program: its variables are those that belong to it and
have different names, the receiver, if the method has one, comes first, and the parameters
follow, of the types that the subsignature says. -/
structure MethodFits (program : Program) (id : MethodId) (method : MethodDef) : Prop where
  owner : method.owner < program.classes.size
  types : ∀ ty ∈ method.sub.ret :: method.sub.params, program.TypeExists ty
  mem_vars {var : VarId} : var ∈ method.vars ↔ program.Owns id var
  namesDiffer : (method.vars.map fun var => (program.localDef var).name).Nodup
  entryVars : method.entryVars <+: method.vars
  this_eq_none_iff : method.this = none ↔ method.isStatic = true
  receiver {var : VarId} : method.this = some var →
    program.localDef var = ⟨"this", .named (program.classDef method.owner).name, id⟩
  params : method.params.map program.tyOf = method.sub.params
  noBody : method.isAbstract = true → method.body = #[]

/-- The fields, the methods and the variables of a program fit its table of classes. -/
structure MembersFit (program : Program) : Prop where
  fieldsDiffer : (program.fields.toList.map fun field => (field.owner, field.name)).Nodup
  fields : ∀ field ∈ program.fields,
    field.owner < program.classes.size ∧ program.TypeExists field.ty
  methodsDiffer : (program.methods.toList.map fun method => (method.owner, method.sub)).Nodup
  methods {id : MethodId} {method : MethodDef} :
    program.methods[id]? = some method → program.MethodFits id method
  locals : ∀ var ∈ program.locals,
    var.method < program.methods.size ∧ program.TypeExists var.ty

/-- A class declares a field under a name exactly if the field is one of the class and has
the name. -/
theorem MembersFit.declaredField?_eq_some_iff (fit : program.MembersFit) {owner : ClassId}
    {name : String} {field : FieldId} : program.declaredField? owner name = some field ↔
      field < program.fields.size ∧ (program.fieldDef field).owner = owner ∧
        (program.fieldDef field).name = name := by
  rw [← Prod.mk_inj, declaredField?_eq_findIdx?]
  exact findIdx?_eq_some_iff_of_nodup _ fit.fieldsDiffer fun _ => belongs_iff

/-- A class declares a method with a subsignature exactly if the method is one of the class
and has the subsignature. -/
theorem MembersFit.declaredMethod?_eq_some_iff (fit : program.MembersFit) {owner : ClassId}
    {sub : Subsignature} : program.declaredMethod? owner sub = some id ↔
      id < program.methods.size ∧ (program.methodDef id).owner = owner ∧
        (program.methodDef id).sub = sub := by
  rw [← Prod.mk_inj, declaredMethod?_eq_findIdx?]
  exact findIdx?_eq_some_iff_of_nodup _ fit.methodsDiffer fun _ => belongs_iff

theorem MembersFit.methodFits (fit : program.MembersFit) (inTable : id < program.methods.size) :
    program.MethodFits id (program.methodDef id) := by
  rw [methodDef, Array.getD, dif_pos inTable]
  exact fit.methods (Array.getElem?_eq_getElem inTable)

/-- What belongs to a method is not changed by variables of another one. -/
theorem owns_iff_of_append {vars : List Local} (added : new.locals = old.locals ++ vars.toArray)
    (areOthers : ∀ var ∈ vars, var.method ≠ id) : new.Owns id var ↔ old.Owns id var := by
  refine ⟨fun ⟨inTable, belongs⟩ => ?_, owns_of_append added⟩
  rcases Nat.lt_or_ge var old.locals.size with isOld | isAdded
  · exact ⟨isOld, localDef_of_append added isOld ▸ belongs⟩
  · obtain ⟨position, rfl⟩ := Nat.exists_eq_add_of_le isAdded
    rw [added, Array.size_append, Nat.add_lt_add_iff_left, List.size_toArray] at inTable
    rw [localDef_added added (by rw [List.getElem?_toArray, List.getElem?_eq_getElem inTable])]
      at belongs
    exact absurd belongs (areOthers _ (List.getElem_mem inTable))

/-- A method still fits when another one is added with its variables. -/
theorem MethodFits.of_extends {other : MethodDef} {vars : List Local}
    (fits : old.MethodFits id method) (extends_ : Extends old other vars new)
    (areOthers : ∀ var ∈ vars, var.method ≠ id) : new.MethodFits id method := by
  have same {var : VarId} (isVar : var ∈ method.vars) : new.localDef var = old.localDef var :=
    localDef_of_append extends_.locals (fits.mem_vars.mp isVar).1
  have isVar {var : VarId} (isEntryVar : var ∈ method.entryVars) : var ∈ method.vars :=
    fits.entryVars.subset isEntryVar
  constructor
  case owner => exact extends_.classes ▸ fits.owner
  case types => exact fun ty isNamed => (fits.types ty isNamed).of_classes extends_.classes
  case mem_vars => exact fits.mem_vars.trans (owns_iff_of_append extends_.locals areOthers).symm
  case namesDiffer =>
      rw [List.map_congr_left fun var isVar => congrArg Local.name (same isVar)]
      exact fits.namesDiffer
  case entryVars => exact fits.entryVars
  case this_eq_none_iff => exact fits.this_eq_none_iff
  case receiver =>
      intro var isThis
      rw [same (isVar (List.mem_append_left _ (Option.mem_toList.mpr isThis))), classDef,
        extends_.classes]
      exact fits.receiver isThis
  case params =>
      rw [← fits.params]
      refine List.map_congr_left fun var isParam => congrArg Local.ty (same (isVar ?_))
      exact List.mem_append_right _ isParam
  case noBody => exact fits.noBody

variable {owner : ClassId} {decl : Source.MethodDecl} {vars : List Local}

/-- The variables of the method that is added are found in the table. -/
theorem Adds.map_vars (adds : Adds owner old decl method vars)
    (extends_ : Extends old method vars new) : method.vars.map new.localDef = vars := by
  rw [adds.varIds]
  exact map_localDef_range' extends_.locals

/-- The receiver and the parameters are found in the table as they are declared. -/
theorem Adds.map_entryVars (adds : Adds owner old decl method vars)
    (extends_ : Extends old method vars new) :
    method.entryVars.map new.localDef = (headerVars (old.classDef owner).name decl).map
      (Source.TypedName.toLocal old.methods.size) := by
  have isPrefix := adds.entryVars_prefix.map new.localDef
  rw [adds.map_vars extends_] at isPrefix
  have sameLength : (method.entryVars.map new.localDef).length =
      ((headerVars (old.classDef owner).name decl).map
        (Source.TypedName.toLocal old.methods.size)).length := by
    rw [adds.entryVars, List.length_map, List.length_map, List.length_range']
  exact (List.prefix_of_prefix_length_le isPrefix adds.isHeader sameLength.le).eq_of_length
    sameLength

/-- The variables of the method that is added are those that belong to it. -/
theorem Adds.mem_vars (adds : Adds owner old decl method vars)
    (extends_ : Extends old method vars new)
    (below : ∀ var ∈ old.locals, var.method < old.methods.size) :
    var ∈ method.vars ↔ new.Owns old.methods.size var := by
  have size : new.locals.size = old.locals.size + vars.length := by
    rw [extends_.locals]
    exact Array.size_append
  rw [adds.varIds, List.mem_range'_1, Owns, size]
  constructor
  · rintro ⟨isAdded, inTable⟩
    obtain ⟨position, rfl⟩ := Nat.exists_eq_add_of_le isAdded
    have inVars := Nat.lt_of_add_lt_add_left inTable
    have isVar : vars.toArray[position]? = some vars[position] := by
      rw [List.getElem?_toArray, List.getElem?_eq_getElem inVars]
    refine ⟨inTable, ?_⟩
    rw [localDef_added extends_.locals isVar]
    exact adds.belong _ (List.getElem_mem inVars)
  · rintro ⟨inTable, belongs⟩
    refine ⟨Nat.le_of_not_lt fun isOld => ?_, inTable⟩
    rw [localDef_of_append extends_.locals isOld, localDef, Array.getD, dif_pos isOld] at belongs
    exact absurd belongs (below _ (Array.getElem_mem isOld)).ne

/-- The method that is added fits. -/
theorem Adds.methodFits (adds : Adds owner old decl method vars)
    (extends_ : Extends old method vars new) (inTable : owner < old.classes.size)
    (below : ∀ var ∈ old.locals, var.method < old.methods.size) :
    new.MethodFits old.methods.size method := by
  have header := adds.map_entryVars extends_
  rw [headerVars, MethodDef.entryVars, ← adds.isStatic, List.map_append, List.map_append] at header
  constructor
  case owner =>
      rw [adds.isOwner, extends_.classes]
      exact inTable
  case types =>
      rw [adds.isSub]
      exact fun ty isNamed => (adds.signatureTypes ty isNamed).of_classes extends_.classes
  case mem_vars => exact adds.mem_vars extends_ below
  case namesDiffer =>
      have sameNames := congrArg (List.map Local.name) (adds.map_vars extends_)
      rw [List.map_map] at sameNames
      exact sameNames ▸ adds.differ
  case entryVars => exact adds.entryVars_prefix
  case this_eq_none_iff => exact adds.receiver
  case receiver =>
      intro var isThis
      have isInstance : method.isStatic ≠ true := fun isStatic => by
        cases isThis.symm.trans (adds.receiver.mpr isStatic)
      rw [isThis, if_neg isInstance] at header
      rw [adds.isOwner, classDef, extends_.classes]
      exact (List.cons.inj header).1
  case params =>
      have sameTypes : method.params.map new.localDef =
          decl.params.map (Source.TypedName.toLocal old.methods.size) := by
        by_cases isStatic : method.isStatic = true
        · rw [adds.receiver.mpr isStatic, if_pos isStatic] at header
          exact header
        · obtain ⟨var, isThis⟩ := Option.ne_none_iff_exists'.mp (mt adds.receiver.mp isStatic)
          rw [isThis, if_neg isStatic] at header
          exact (List.cons.inj header).2
      have sameTypes := congrArg (List.map Local.ty) sameTypes
      rw [List.map_map, List.map_map] at sameTypes
      rw [adds.isSub]
      exact sameTypes
  case noBody => exact adds.noBody

theorem MethodFits.of_eq (fits : old.MethodFits id method) (sameClasses : new.classes = old.classes)
    (sameLocals : new.locals = old.locals) : new.MethodFits id method := by
  have sameDef : new.localDef = old.localDef := by
    funext var
    rw [localDef, localDef, sameLocals]
  have sameType : new.tyOf = old.tyOf := by
    funext var
    rw [tyOf, tyOf, sameDef]
  constructor
  case owner => exact sameClasses ▸ fits.owner
  case types => exact fun ty isNamed => (fits.types ty isNamed).of_classes sameClasses
  case mem_vars =>
      unfold Owns
      rw [sameDef, sameLocals]
      exact fits.mem_vars
  case namesDiffer => exact sameDef ▸ fits.namesDiffer
  case entryVars => exact fits.entryVars
  case this_eq_none_iff => exact fits.this_eq_none_iff
  case receiver =>
      rw [sameDef, classDef, sameClasses]
      exact fits.receiver
  case params => exact sameType ▸ fits.params
  case noBody => exact fits.noBody

/-- Before anything is declared in classes, everything fits. -/
theorem membersFit_of_empty (noFields : program.fields = #[]) (noMethods : program.methods = #[])
    (noLocals : program.locals = #[]) : program.MembersFit where
  fieldsDiffer := by simp [noFields]
  fields := by simp [noFields]
  methodsDiffer := by simp [noMethods]
  methods := by simp [noMethods]
  locals := by simp [noLocals]

theorem MembersFit.declareField {name : String} {decl : Source.FieldDecl}
    (fit : old.MembersFit) (inTable : owner < old.classes.size)
    (isNew : declareField owner name old decl = .ok new) : new.MembersFit := by
  obtain ⟨⟨⟩, isChecked, isRest⟩ := Resolved.bind_eq_ok.mp isNew
  split at isRest
  case isFalse => cases isRest
  case isTrue isFresh =>
      cases isRest
      rw [declaredField?_eq_findIdx?] at isFresh
      constructor
      case fieldsDiffer => exact nodup_push fit.fieldsDiffer (fun _ => belongs_iff) isFresh rfl
      case fields =>
          intro field isField
          rcases Array.mem_push.mp isField with isOld | rfl
          · obtain ⟨isBelow, typeExists⟩ := fit.fields field isOld
            exact ⟨isBelow, typeExists.of_classes rfl⟩
          · exact ⟨inTable, (checkType_eq_ok_iff.mp isChecked).of_classes rfl⟩
      case methodsDiffer => exact fit.methodsDiffer
      case methods => exact fun isMethod => (fit.methods isMethod).of_eq rfl rfl
      case locals =>
          intro var isVar
          obtain ⟨isBelow, typeExists⟩ := fit.locals var isVar
          exact ⟨isBelow, typeExists.of_classes rfl⟩

theorem MembersFit.of_extends (fit : old.MembersFit) (inTable : owner < old.classes.size)
    (adds : Adds owner old decl method vars) (extends_ : Extends old method vars new) :
    new.MembersFit := by
  have below : ∀ var ∈ old.locals, var.method < old.methods.size :=
    fun var isVar => (fit.locals var isVar).1
  constructor
  case fieldsDiffer => exact extends_.fields ▸ fit.fieldsDiffer
  case fields =>
      rw [extends_.fields, extends_.classes]
      intro field isField
      obtain ⟨isBelow, typeExists⟩ := fit.fields field isField
      exact ⟨isBelow, typeExists.of_classes extends_.classes⟩
  case methodsDiffer =>
      have isFresh := adds.isFresh
      rw [declaredMethod?_eq_findIdx?] at isFresh
      rw [extends_.methods]
      refine nodup_push fit.methodsDiffer (fun _ => belongs_iff) isFresh ?_
      rw [adds.isOwner, adds.isSub]
  case methods =>
      intro id other isMethod
      rw [extends_.methods, Array.getElem?_push] at isMethod
      split at isMethod
      case isTrue isLast =>
          cases isMethod
          exact isLast ▸ adds.methodFits extends_ inTable below
      case isFalse =>
          obtain ⟨isBelow, -⟩ := Array.getElem?_eq_some_iff.mp isMethod
          exact (fit.methods isMethod).of_extends extends_ fun var isVar =>
            (adds.belong var isVar).trans_ne isBelow.ne'
  case locals =>
      intro var isVar
      rw [extends_.methods, Array.size_push]
      rw [extends_.locals] at isVar
      rcases Array.mem_append.mp isVar with isOld | isAdded
      · obtain ⟨isBelow, typeExists⟩ := fit.locals var isOld
        exact ⟨Nat.lt_succ_of_lt isBelow, typeExists.of_classes extends_.classes⟩
      · have isVar := List.mem_toArray.mp isAdded
        exact ⟨Nat.lt_succ_of_le (adds.belong var isVar).le,
          (adds.types var isVar).of_classes extends_.classes⟩

/-- In the program that a text stands for, fields, methods and variables fit. -/
theorem membersFit_ofText {text : String} (isProgram : ofText text = .ok program) :
    program.MembersFit := by
  obtain ⟨decls, isParsed, isResolved⟩ := Resolved.bind_eq_ok.mp isProgram
  refine members_induction isResolved (fun _ _ => membersFit_of_empty) ?_ ?_ ?_
  case refine_1 =>
      intro owner name decl old new sameClasses inTable fit isNew
      exact fit.declareField (sameClasses ▸ inTable) isNew
  case refine_2 =>
      intro owner old new cls isClass decl isDecl sameClasses inTable fit isNew
      have isSpelled := (Source.isSpelled_of_parse isParsed cls isClass).methods decl isDecl
      obtain ⟨method, vars, extends_, adds⟩ := exists_adds_of_declareMethod isSpelled isNew
      exact fit.of_extends (sameClasses ▸ inTable) adds extends_
  case refine_3 =>
      intro old entries fit
      exact ⟨fit.fieldsDiffer, fit.fields, fit.methodsDiffer,
        fun isMethod => (fit.methods isMethod).of_eq rfl rfl, fit.locals⟩

/-- The receiver and the parameters of a method are different variables. -/
theorem MembersFit.nodup_entryVars (fit : program.MembersFit) (id : MethodId) :
    (program.methodDef id).entryVars.Nodup := by
  rcases Nat.lt_or_ge id program.methods.size with inTable | pastEnd
  · have isMethod : program.methods[id]? = some (program.methodDef id) := by
      simp [methodDef, Array.getD, inTable]
    have fits := fit.methods isMethod
    exact (List.Nodup.of_map _ fits.namesDiffer).sublist fits.entryVars.sublist
  · rw [entryVars_of_ge pastEnd]
    exact List.nodup_nil

end Table

end Program

end TacAnalysis
