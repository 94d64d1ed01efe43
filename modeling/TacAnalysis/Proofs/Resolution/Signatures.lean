/-
# Methods are told by their signatures

The signature of a method names its class and its subsignature in full. It is read off the
front of any text, and resolves to the method and to no other one: the class is found by its
name, the types of the subsignature are built on classes that exist, and no two methods of a
class have one subsignature. An entry directive that is written with it makes an analysis
start from the method.
-/

import TacAnalysis.Proofs.Resolution.Members
import TacAnalysis.Proofs.Source.Signatures

namespace TacAnalysis

namespace Program

variable {program old new : Program} {id : MethodId}

section Spelling

/-- Classes have the names of classes. -/
def ClassesSpelled (program : Program) : Prop :=
  ∀ cls ∈ program.classes, Source.IsClassName cls.name

theorem classesSpelled_root : root.ClassesSpelled := by
  intro cls isClass
  obtain rfl := List.mem_singleton.mp (Array.mem_toList_iff.mpr isClass)
  exact ⟨'j', "ava/lang/Object".toList, rfl, rfl, List.all_eq_true.mp rfl⟩

theorem ClassesSpelled.declareClasses {decls : List Source.ClassDecl} {rootDeclared : Bool}
    (areSpelled : old.ClassesSpelled) (declared : ∀ decl ∈ decls, Source.IsClassName decl.name)
    (isNew : old.declareClasses rootDeclared decls = .ok new) : new.ClassesSpelled := by
  induction decls generalizing old rootDeclared with
  | nil =>
      cases isNew
      exact areSpelled
  | cons decl decls ih =>
      obtain ⟨isSpelled, areOthers⟩ := List.forall_mem_cons.mp declared
      unfold Program.declareClasses at isNew
      split at isNew
      case isTrue => exact ih areSpelled areOthers isNew
      case isFalse =>
          obtain ⟨middle, isMiddle, isRest⟩ := Resolved.bind_eq_ok.mp isNew
          refine ih (fun cls isClass => ?_) areOthers isRest
          unfold declareClass at isMiddle
          split at isMiddle
          case isFalse => cases isMiddle
          case isTrue =>
              cases isMiddle
              rcases Array.mem_push.mp isClass with isOld | rfl
              · exact areSpelled cls isOld
              · exact isSpelled

theorem ClassesSpelled.linkClass {decl : Source.ClassDecl} (areSpelled : old.ClassesSpelled)
    (rooted : old.Rooted) (isNew : old.linkClass decl = .ok new) :
    new.ClassesSpelled ∧ new.Rooted := by
  obtain ⟨linked, superclass, interfaces, -, rfl⟩ := exists_of_linkClass rooted isNew
  refine ⟨fun cls isClass => ?_, rooted.keep keepsClasses_withSupertypes⟩
  have isName := Array.mem_map_of_mem (f := ClassDef.name) isClass
  rw [names_withSupertypes] at isName
  obtain ⟨other, isOther, sameName⟩ := Array.mem_map.mp isName
  exact sameName ▸ areSpelled other isOther

/-- In the program that a text stands for, classes have the names of classes. -/
theorem classesSpelled_ofText {text : String} (isProgram : ofText text = .ok program) :
    program.ClassesSpelled := by
  obtain ⟨decls, isParsed, isResolved⟩ := Resolved.bind_eq_ok.mp isProgram
  obtain ⟨declared, linked, isDeclared, isLinked, -, sameClasses⟩ :=
    exists_of_ofDeclarations isResolved
  obtain ⟨keeps, -, -⟩ := declareClasses_spec isDeclared rooted_root
  have declaredSpelled : declared.ClassesSpelled := classesSpelled_root.declareClasses
    (fun decl isDecl => (Source.isSpelled_of_parse isParsed decl isDecl).name) isDeclared
  have linkedSpelled : linked.ClassesSpelled ∧ linked.Rooted := by
    apply Resolved.foldlM_preserves _ _ isLinked
    · exact fun decl _ old new isGood isNew => isGood.1.linkClass isGood.2 isNew
    · exact ⟨declaredSpelled, rooted_root.keep keeps⟩
  rw [ClassesSpelled, sameClasses]
  exact linkedSpelled.1

/-- The name of a method and the types of its subsignature are spelled as such. -/
structure SignatureSpelled (sub : Subsignature) : Prop where
  name : Source.IsIdentifier sub.name
  types : ∀ ty ∈ sub.ret :: sub.params, ty.IsSpelled

/-- In the program that a text stands for, the subsignatures of methods are spelled as such. -/
theorem signatureSpelled_ofText {text : String} (isProgram : ofText text = .ok program)
    (isMethod : id < program.methods.size) : SignatureSpelled (program.methodDef id).sub := by
  obtain ⟨decls, isParsed, isResolved⟩ := Resolved.bind_eq_ok.mp isProgram
  have areSpelled : program.AllMethods fun method => SignatureSpelled method.sub := by
    refine ofDeclarations_induction (fun method isIn => absurd isIn (Array.not_mem_empty method))
      (fun _ _ same areSpelled => areSpelled.of_eq same.methods) ?_ isResolved
    intro owner old new cls isClass decl isDecl areSpelled isNew method isMethod
    have isSpelled := (Source.isSpelled_of_parse isParsed cls isClass).methods decl isDecl
    obtain ⟨added, vars, extends_, adds⟩ := exists_adds_of_declareMethod isSpelled isNew
    rw [extends_.methods] at isMethod
    rcases Array.mem_push.mp isMethod with isOld | rfl
    · exact areSpelled method isOld
    · rw [adds.isSub]
      refine ⟨isSpelled.name, List.forall_mem_cons.mpr ⟨isSpelled.ret, ?_⟩⟩
      exact List.forall_mem_map.mpr fun param isParam => (isSpelled.params param isParam).ty
  rw [methodDef, Array.getD, dif_pos isMethod]
  exact areSpelled _ (Array.getElem_mem isMethod)

end Spelling

section Directives

variable {decls : Source.Declarations} {name : Source.MethodName}

/-- With an entry directive in place of those of a text, the program is the same but for the
method that analyses start from. -/
theorem ofDeclarations_entry (isProgram : ofDeclarations decls = .ok program)
    (isEntry : program.resolveEntry name = .ok id) :
    ofDeclarations { decls with entries := [name] } = .ok { program with entries := [id] } := by
  obtain ⟨declared, isDeclared, isRest⟩ := Resolved.bind_eq_ok.mp isProgram
  obtain ⟨linked, isLinked, isRest⟩ := Resolved.bind_eq_ok.mp isRest
  obtain ⟨⟨⟩, isChecked, isRest⟩ := Resolved.bind_eq_ok.mp isRest
  obtain ⟨fielded, areFields, isRest⟩ := Resolved.bind_eq_ok.mp isRest
  obtain ⟨methoded, areMethods, isRest⟩ := Resolved.bind_eq_ok.mp isRest
  have same : ∃ entries, program = { methoded with entries } := by
    split at isRest
    case isTrue => cases isRest; exact ⟨_, rfl⟩
    case isFalse =>
        obtain ⟨entries, -, isPure⟩ := Resolved.bind_eq_ok.mp isRest
        cases isPure
        exact ⟨entries, rfl⟩
  obtain ⟨entries, rfl⟩ := same
  refine Resolved.bind_eq_ok.mpr ⟨declared, isDeclared, ?_⟩
  refine Resolved.bind_eq_ok.mpr ⟨linked, isLinked, ?_⟩
  refine Resolved.bind_eq_ok.mpr ⟨(), isChecked, ?_⟩
  refine Resolved.bind_eq_ok.mpr ⟨fielded, areFields, ?_⟩
  refine Resolved.bind_eq_ok.mpr ⟨methoded, areMethods, ?_⟩
  refine Resolved.bind_eq_ok.mpr ⟨[id], ?_, rfl⟩
  have isEntryBefore : methoded.resolveEntry name = .ok id := isEntry
  rw [List.mapM_cons, isEntryBefore]
  rfl

end Directives

section Names

/-- A method, named in full. -/
def nameOf (program : Program) (id : MethodId) : Source.MethodName :=
  ⟨(program.classDef (program.methodDef id).owner).name, (program.methodDef id).sub⟩

theorem signature_eq :
    program.signature id = renderSignature (program.nameOf id).owner (program.nameOf id).sub := rfl

theorem resolveClass_name (classes : program.ClassesFit) {owner : ClassId}
    (inTable : owner < program.classes.size) :
    program.resolveClass (program.classDef owner).name = .ok owner := by
  rw [resolveClass, classes.named_iff.mpr ⟨inTable, rfl⟩]

/-- The name of a class and a subsignature resolve to the two, where the classes exist that
types are built on. -/
theorem resolveMethod_eq_ok (classes : program.ClassesFit) {owner : ClassId} {sub : Subsignature}
    (inTable : owner < program.classes.size)
    (exist : ∀ ty ∈ sub.ret :: sub.params, program.TypeExists ty) :
    program.resolveMethod ⟨(program.classDef owner).name, sub⟩ = .ok ⟨owner, sub⟩ := by
  obtain ⟨isRet, areParams⟩ := List.forall_mem_cons.mp exist
  refine Resolved.bind_eq_ok.mpr ⟨(), checkType_eq_ok_iff.mpr isRet, ?_⟩
  refine Resolved.bind_eq_ok.mpr ⟨(), forM_checkType_eq_ok_iff.mpr areParams, ?_⟩
  exact Resolved.bind_eq_ok.mpr ⟨_, resolveClass_name classes inTable, rfl⟩

/-- A method that is named in full resolves to its class and its subsignature. -/
theorem resolveMethod_nameOf (classes : program.ClassesFit)
    (fits : program.MethodFits id (program.methodDef id)) :
    program.resolveMethod (program.nameOf id) =
      .ok ⟨(program.methodDef id).owner, (program.methodDef id).sub⟩ :=
  resolveMethod_eq_ok classes fits.owner fits.types

/-- An entry directive for a method that is named in full designates it. -/
theorem resolveEntry_nameOf (classes : program.ClassesFit) (members : program.MembersFit)
    (inTable : id < program.methods.size) :
    program.resolveEntry (program.nameOf id) = .ok id := by
  have isDeclared := members.declaredMethod?_eq_some_iff.mpr ⟨inTable, rfl, rfl⟩
  refine Resolved.bind_eq_ok.mpr ⟨_, resolveMethod_nameOf classes (members.methodFits inTable), ?_⟩
  simp only [isDeclared]
  rfl

end Names

/-- A method is told from all others by its signature: it is read as the name of the method in
full, which resolves to the method, and so does an entry directive that is written with it. -/
structure ToldBySignature (program : Program) (id : MethodId) : Prop where
  read (rest : List Char) : Source.Reader.methodName ((program.signature id).toList ++ rest) =
    .matched (program.nameOf id) rest
  resolves : program.resolveMethod (program.nameOf id) =
    .ok ⟨(program.methodDef id).owner, (program.methodDef id).sub⟩
  differs {other : MethodId} : other < program.methods.size →
    program.signature other = program.signature id → other = id
  entryRead (rest : List Char) :
    Source.Reader.entry (("entry " ++ program.signature id ++ ";").toList ++ rest) =
      .matched (program.nameOf id) rest
  entryResolves : program.resolveEntry (program.nameOf id) = .ok id

/-- Every method of a program that a text stands for is told by its signature. With an entry
directive for it in place of those of the text, the program is the same but for starting from
the method. -/
theorem toldBySignature_ofText {text : String} (isProgram : ofText text = .ok program)
    (inTable : id < program.methods.size) : program.ToldBySignature id ∧
      ∃ decls, Source.parse text.toList = .ok decls ∧
        ofDeclarations { decls with entries := [program.nameOf id] } =
          .ok { program with entries := [id] } := by
  have classes := classesFit_ofText isProgram
  have members := membersFit_ofText isProgram
  have isOwner {id : MethodId} (inTable : id < program.methods.size) :
      Source.IsClassName (program.nameOf id).owner := by
    have inClasses := (members.methodFits inTable).owner
    rw [nameOf, classDef, Array.getD, dif_pos inClasses]
    exact classesSpelled_ofText isProgram _ (Array.getElem_mem inClasses)
  have isRead {id : MethodId} (inTable : id < program.methods.size) (rest : List Char) :
      Source.Reader.methodName ((program.signature id).toList ++ rest) =
        .matched (program.nameOf id) rest := by
    have isSpelled := signatureSpelled_ofText isProgram inTable
    rw [signature_eq]
    exact Source.Reader.methodName_append (isOwner inTable) isSpelled.name isSpelled.types
  have entryResolves := resolveEntry_nameOf classes members inTable
  constructor
  · constructor
    case read => exact isRead inTable
    case resolves => exact resolveMethod_nameOf classes (members.methodFits inTable)
    case differs =>
        intro other isOther sameSignature
        have sameRead := isRead isOther []
        rw [sameSignature, isRead inTable []] at sameRead
        have sameName := (Source.Outcome.matched.inj sameRead).1
        have isEntry := resolveEntry_nameOf classes members isOther
        rw [← sameName, entryResolves] at isEntry
        exact (Except.ok.inj isEntry).symm
    case entryRead =>
        intro rest
        have isSpelled := signatureSpelled_ofText isProgram inTable
        rw [signature_eq]
        exact Source.Reader.entry_append (isOwner inTable) isSpelled.name isSpelled.types
    case entryResolves => exact entryResolves
  · obtain ⟨decls, isParsed, isResolved⟩ := Resolved.bind_eq_ok.mp isProgram
    exact ⟨decls, isParsed, ofDeclarations_entry isResolved entryResolves⟩

/-- The name of a class may start like a primitive type when a word goes on there. -/
theorem toldBySignature_ofText_arrays : ∃ program,
    ofText "class intA/b { abstract method f(intA/b[][] x, int y) : int[]; }" = .ok program ∧
      0 < program.methods.size ∧
      program.signature 0 = "<intA/b: int[] f(intA/b[][],int)>" ∧
      program.ToldBySignature 0 ∧ ∃ decls,
        Source.parse "class intA/b { abstract method f(intA/b[][] x, int y) : int[]; }".toList =
          .ok decls ∧
        ofDeclarations { decls with entries := [program.nameOf 0] } =
          .ok { program with entries := [0] } := by
  have passes : (ofText "class intA/b { abstract method f(intA/b[][] x, int y) : int[]; }"
      ).toOption.any (fun program => decide (0 < program.methods.size ∧
        program.signature 0 = "<intA/b: int[] f(intA/b[][],int)>")) = true := by decide +kernel
  obtain ⟨program, isProgram, isShaped⟩ := exists_of_test passes
  obtain ⟨inTable, isSignature⟩ := of_decide_eq_true isShaped
  exact ⟨program, isProgram, inTable, isSignature, toldBySignature_ofText isProgram inTable⟩

end Program

end TacAnalysis
