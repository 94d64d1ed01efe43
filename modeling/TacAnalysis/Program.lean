/-
# Programs

A program is a table of classes, a table of fields, a table of methods and a
table of variables, each entry being designated by its position, together with
the methods that whole program analyses start from. Beside these tables there are
indexes: the classes by their names, the fields and methods of each class, and the
statements accessing memory through each variable. Tables and indexes grow together.
-/

import TacAnalysis.Access
import TacAnalysis.Index

namespace TacAnalysis

/-- A class or an interface. The interfaces are the ones a class implements, or
the ones an interface extends, in declaration order. -/
structure ClassDef where
  name : String
  isInterface : Bool
  declaredAbstract : Bool
  superclass : Option ClassId
  interfaces : List ClassId
  deriving DecidableEq, Inhabited

/-- Interfaces are abstract whether they are declared so or not. -/
def ClassDef.isAbstract (cls : ClassDef) : Bool :=
  cls.isInterface || cls.declaredAbstract

/-- A field and the class declaring it. -/
structure FieldDef where
  name : String
  owner : ClassId
  ty : Ty
  isStatic : Bool
  deriving DecidableEq, Inhabited

/-- A variable of a method: its receiver, a parameter or a local. -/
structure Local where
  name : String
  ty : Ty
  method : MethodId
  deriving DecidableEq, Inhabited

/-- A method. An abstract method has no statements; a static one has no
receiver variable. The variables it may return are listed beside its body. -/
structure MethodDef where
  owner : ClassId
  sub : Subsignature
  isStatic : Bool
  isAbstract : Bool
  this : Option VarId
  params : List VarId
  vars : List VarId
  body : Array Stmt
  returned : List VarId := returnedVars body
  listsReturned : ListsReturned body returned := by exact listsReturned_returnedVars _
  deriving DecidableEq

instance : Inhabited MethodDef where
  default :=
    { owner := default, sub := default, isStatic := default, isAbstract := default
      this := default, params := default, vars := default, body := default }

namespace MethodDef

/-- Abstract methods are the only ones without a body. -/
def hasBody (method : MethodDef) : Bool := !method.isAbstract

/-- The statement at a position, a `nop` past the end. -/
def stmt (method : MethodDef) (index : Nat) : Stmt := method.body.getD index .nop

/-- The method with other statements. -/
def withBody (method : MethodDef) (body : Array Stmt) : MethodDef :=
  { method with
    body, returned := returnedVars body, listsReturned := listsReturned_returnedVars body }

theorem body_withBody {method : MethodDef} {body : Array Stmt} :
    (method.withBody body).body = body :=
  rfl

/-- The variables holding a value when the method starts. -/
def entryVars (method : MethodDef) : List VarId := method.this.toList ++ method.params

/-- The variables that a method may return are those of its return statements. -/
theorem mem_returned {method : MethodDef} {var : VarId} :
    var ∈ method.returned ↔ .ret (some var) ∈ method.body := by
  have areListed : method.returned = returnedVars method.body := method.listsReturned
  rw [areListed, mem_returnedVars]

end MethodDef

/-- The points of the methods of a table where a statement is a given access, by
method and position. -/
def allAccessSites (methods : Array MethodDef) (access : Access) : List Site :=
  methods.toList.zipIdx.flatMap fun entry => accessSites entry.2 entry.1.body access

theorem mem_allAccessSites {methods : Array MethodDef} {access : Access} {site : Site} :
    site ∈ allAccessSites methods access ↔
      ((methods.getD site.method default).stmt site.index).access? = some access := by
  have isThere : methods.getD site.method default = methods[site.method]?.getD default :=
    Array.getD_eq_getD_getElem?
  simp only [allAccessSites, List.mem_flatMap, List.mem_zipIdx_iff_getElem?, Array.getElem?_toList,
    mem_accessSites, isThere]
  constructor
  · rintro ⟨entry, isMethod, isNumber, isAccess⟩
    rw [isNumber, isMethod]
    exact isAccess
  · intro isAccess
    cases isMethod : methods[site.method]? with
    | some method => exact ⟨(method, site.method), isMethod, rfl, by rwa [isMethod] at isAccess⟩
    | none =>
        rw [isMethod] at isAccess
        cases isAccess

/-- A whole program. -/
structure Program where
  classes : Array ClassDef
  fields : Array FieldDef
  methods : Array MethodDef
  locals : Array Local
  entries : List MethodId
  /-- The numbers of classes by name. -/
  classNumbers : List (String × ClassId)
  /-- The numbers of the fields of each class by name. -/
  fieldNumbers : Table ClassId (List (String × FieldId))
  /-- The numbers of the methods of each class by subsignature. -/
  methodNumbers : Table ClassId (List (Subsignature × MethodId))
  /-- The points of each access through a variable. -/
  accesses : Table Access (List Site)
  indexesClasses : Indexes classNumbers classes fun name cls => cls.name == name
  indexesFields : ∀ owner,
    Indexes (fieldNumbers.get owner) fields (belongs FieldDef.owner FieldDef.name owner)
  indexesMethods : ∀ owner,
    Indexes (methodNumbers.get owner) methods (belongs MethodDef.owner MethodDef.sub owner)
  listsAccesses : ∀ access, accesses.get access = allAccessSites methods access

namespace Program

/-- The program of nothing. -/
def empty : Program where
  classes := #[]
  fields := #[]
  methods := #[]
  locals := #[]
  entries := []
  classNumbers := []
  fieldNumbers := .constant []
  methodNumbers := .constant []
  accesses := .constant []
  indexesClasses := .nil
  indexesFields _ := .nil
  indexesMethods _ := .nil
  listsAccesses _ := rfl

instance : Inhabited Program := ⟨empty⟩

variable (program : Program)

/-- The class of a number. -/
def classDef (id : ClassId) : ClassDef := program.classes.getD id default

/-- The field of a number. -/
def fieldDef (id : FieldId) : FieldDef := program.fields.getD id default

/-- The method of a number. -/
def methodDef (id : MethodId) : MethodDef := program.methods.getD id default

/-- The variable of a number. -/
def localDef (id : VarId) : Local := program.locals.getD id default

/-- The statement at a program point. -/
def stmt (site : Site) : Stmt := (program.methodDef site.method).stmt site.index

/-- The class of a name. -/
def classNamed? (name : String) : Option ClassId := program.classNumbers.lookup name

/-- The method a class itself declares with a subsignature. -/
def declaredMethod? (owner : ClassId) (sub : Subsignature) : Option MethodId :=
  (program.methodNumbers.get owner).lookup sub

/-- The field a class itself declares with a name. -/
def declaredField? (owner : ClassId) (name : String) : Option FieldId :=
  (program.fieldNumbers.get owner).lookup name

section Searching

variable {program} {other : Program}

/-- The index of classes gives what searching the classes does. -/
theorem classNamed?_eq_findIdx? {name : String} :
    program.classNamed? name = program.classes.findIdx? fun cls => cls.name == name :=
  program.indexesClasses.lookup name

theorem classNamed?_of_eq (same : other.classes = program.classes) (name : String) :
    other.classNamed? name = program.classNamed? name := by
  rw [classNamed?_eq_findIdx?, classNamed?_eq_findIdx?, same]

/-- The index of the methods of a class gives what searching the methods does. -/
theorem declaredMethod?_eq_findIdx? {owner : ClassId} {sub : Subsignature} :
    program.declaredMethod? owner sub =
      program.methods.findIdx? (belongs MethodDef.owner MethodDef.sub owner sub) :=
  (program.indexesMethods owner).lookup sub

theorem declaredMethod?_of_eq (same : other.methods = program.methods) (owner : ClassId)
    (sub : Subsignature) : other.declaredMethod? owner sub = program.declaredMethod? owner sub := by
  rw [declaredMethod?_eq_findIdx?, declaredMethod?_eq_findIdx?, same]

/-- The index of the fields of a class gives what searching the fields does. -/
theorem declaredField?_eq_findIdx? {owner : ClassId} {name : String} :
    program.declaredField? owner name =
      program.fields.findIdx? (belongs FieldDef.owner FieldDef.name owner name) :=
  (program.indexesFields owner).lookup name

theorem declaredField?_of_eq (same : other.fields = program.fields) (owner : ClassId)
    (name : String) : other.declaredField? owner name = program.declaredField? owner name := by
  rw [declaredField?_eq_findIdx?, declaredField?_eq_findIdx?, same]

end Searching

/-- The methods of a class, in the order of their subsignatures. -/
def methodsOf (owner : ClassId) : List MethodId := (program.methodNumbers.get owner).map Prod.snd

/-- The fields of a class, in the order of their names. -/
def fieldsOf (owner : ClassId) : List FieldId := (program.fieldNumbers.get owner).map Prod.snd

/-- The first method of a class having a name, in the order of subsignatures. -/
def methodNamed? (className name : String) : Option MethodId := do
  let owner ← program.classNamed? className
  (program.methodsOf owner).find? fun id => (program.methodDef id).sub.name == name

/-- The field of a class having a name. -/
def fieldNamed? (className name : String) : Option FieldId := do
  let owner ← program.classNamed? className
  program.declaredField? owner name

/-- The variable of a method having a name. -/
def localNamed? (method : MethodId) (name : String) : Option VarId :=
  (program.methodDef method).vars.find? fun var => (program.localDef var).name == name

/-- The program points of a method. -/
def sitesOf (method : MethodId) : List Site :=
  (List.range (program.methodDef method).body.size).map fun index => ⟨method, index⟩

/-- Past the end of a body there are only statements that do nothing. -/
theorem mem_sitesOf {program : Program} {site : Site} (isStmt : program.stmt site ≠ .nop) :
    site ∈ program.sitesOf site.method := by
  rcases Nat.lt_or_ge site.index (program.methodDef site.method).body.size with inBody | pastEnd
  · exact List.mem_map.mpr ⟨site.index, List.mem_range.mpr inBody, rfl⟩
  · exact absurd (by simp [stmt, MethodDef.stmt, Array.getD, Nat.not_lt.mpr pastEnd]) isStmt

/-- Past the end of the table there are only methods without statements. -/
theorem lt_size_of_stmt {program : Program} {site : Site} (isStmt : program.stmt site ≠ .nop) :
    site.method < program.methods.size := by
  rcases Nat.lt_or_ge site.method program.methods.size with inTable | pastEnd
  · exact inTable
  · refine absurd ?_ isStmt
    rw [stmt, methodDef, Array.getD, dif_neg (Nat.not_lt.mpr pastEnd)]
    rfl

/-- The points that go through a variable in one way. -/
def sitesThrough (kind : AccessKind) (var : VarId) : List Site := program.accesses.get ⟨kind, var⟩

/-- The points listed for an access are those where a statement is that access. -/
theorem mem_accesses {program : Program} {access : Access} {site : Site} :
    site ∈ program.accesses.get access ↔ (program.stmt site).access? = some access := by
  rw [program.listsAccesses, mem_allAccessSites]
  rfl

/-- The stores to an instance field of the object in a variable. -/
def fieldStores (var : VarId) : List Site := program.sitesThrough .fieldStore var

/-- The loads of an instance field of the object in a variable. -/
def fieldLoads (var : VarId) : List Site := program.sitesThrough .fieldLoad var

/-- The stores to an element of the array in a variable. -/
def arrayStores (var : VarId) : List Site := program.sitesThrough .arrayStore var

/-- The loads of an element of the array in a variable. -/
def arrayLoads (var : VarId) : List Site := program.sitesThrough .arrayLoad var

/-- The calls whose receiver is a variable. -/
def callsOn (var : VarId) : List Site := program.sitesThrough .call var

/-- Whether a variable is of a type whose values fit in 32 signed bits. -/
def holdsInt (var : VarId) : Bool := (program.localDef var).ty.holdsInt

/-- Whether a variable is of a class or array type. -/
def isReference (var : VarId) : Bool := (program.localDef var).ty.isReference

section Growing

/-- Adds a class with a new name. -/
def addClass (cls : ClassDef) (isNew : program.classNamed? cls.name = none) : Program :=
  { program with
    classes := program.classes.push cls
    classNumbers := insertEntry cls.name program.classes.size program.classNumbers
    indexesClasses := program.indexesClasses.push (fun _ => Bool.beq_comm) isNew }

/-- Records the supertypes of a class. -/
def withSupertypes (id : ClassId) (superclass : Option ClassId) (interfaces : List ClassId) :
    Program :=
  { program with
    classes := program.classes.modify id fun cls => { cls with superclass, interfaces }
    indexesClasses := program.indexesClasses.of_keys (by
      apply Array.ext
      · simp only [Array.size_map, Array.size_modify]
      · intro position _ _
        simp only [Array.getElem_map, Array.getElem_modify]
        split <;> rfl) }

/-- Adds a field with a name that is new in its class. -/
def addField (field : FieldDef) (isNew : program.declaredField? field.owner field.name = none) :
    Program :=
  { program with
    fields := program.fields.push field
    fieldNumbers := program.fieldNumbers.enter field.owner field.name program.fields.size
    indexesFields := Indexes.push_owned program.indexesFields isNew }

/-- Adds variables. -/
def addLocals (vars : List Local) : Program :=
  { program with locals := program.locals ++ vars.toArray }

@[simp] theorem locals_addLocals (vars : List Local) :
    (program.addLocals vars).locals = program.locals ++ vars.toArray :=
  rfl

@[simp] theorem methods_addLocals (vars : List Local) :
    (program.addLocals vars).methods = program.methods :=
  rfl

/-- Adds a method with a subsignature that is new in its class, and lists its
statements. -/
def addMethod (method : MethodDef)
    (isNew : program.declaredMethod? method.owner method.sub = none) : Program :=
  let id := program.methods.size
  let register := Register.addBody ⟨program.accesses, []⟩ id method.body
  let listed : MethodDef := { method with
    returned := register.returned
    listsReturned := Register.listsReturned_addBody program.accesses id method.body }
  have isNew : (program.methodNumbers.get listed.owner).lookup listed.sub = none := isNew
  { program with
    methods := program.methods.push listed
    methodNumbers := program.methodNumbers.enter listed.owner listed.sub id
    accesses := register.accesses
    indexesMethods := Indexes.push_owned program.indexesMethods isNew
    listsAccesses := fun access => by
      rw [Register.get_accesses_addBody, program.listsAccesses, allAccessSites, allAccessSites,
        Array.toList_push, List.zipIdx_append, List.flatMap_append, Nat.zero_add,
        List.zipIdx_singleton, List.flatMap_singleton, Array.length_toList] }

/-- A method that is added comes last. -/
theorem methods_addMethod {program : Program} (method : MethodDef)
    (isNew : program.declaredMethod? method.owner method.sub = none) :
    (program.addMethod method isNew).methods = program.methods.push method := by
  have areListed : (Register.addBody ⟨program.accesses, []⟩ program.methods.size
      method.body).returned = method.returned :=
    (Register.listsReturned_addBody _ _ _).trans method.listsReturned.symm
  simp only [addMethod, areListed]

end Growing

end Program

end TacAnalysis
