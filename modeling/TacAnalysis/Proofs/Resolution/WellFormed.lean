/-
# Programs are well formed

Whatever is found at a number in the tables of a program is what was declared, so that
tables can be used without any check: names lead to numbers and back, looking for a field or
a method along superclasses ends, the members of a class and the accesses through a variable
are listed exactly, and a statement mentions and names nothing but what is there. This holds
of every program that a text stands for.
-/

import TacAnalysis.Hierarchy
import TacAnalysis.Proofs.Lists
import TacAnalysis.Proofs.Resolution.Statements

namespace TacAnalysis

/-- What a statement goes through is a variable that it mentions. -/
theorem Stmt.mentions_of_access? {stmt : Stmt} {access : Access}
    (isAccess : stmt.access? = some access) : stmt.Mentions access.base := by
  right
  cases stmt with
  | storeField base field source =>
      obtain ⟨var, rfl, rfl⟩ := Option.map_eq_some_iff.mp isAccess
      exact List.mem_cons_self
  | loadField target base field =>
      obtain ⟨var, rfl, rfl⟩ := Option.map_eq_some_iff.mp isAccess
      exact List.mem_cons_self
  | storeArray base index source =>
      cases isAccess
      exact List.mem_cons_self
  | loadArray target base index =>
      cases isAccess
      exact List.mem_cons_self
  | call invoke =>
      obtain ⟨var, isReceiver, rfl⟩ := Option.map_eq_some_iff.mp isAccess
      rw [uses, isReceiver]
      exact List.mem_cons_self
  | _ => cases isAccess

namespace Program

variable {program : Program}

section Chains

variable {limit : Nat} {start : Option ClassId}

/-- A field is found within the length of the chain of superclasses, or not at all. -/
theorem inheritedField?_of_chainWithin {name : String}
    (isShort : program.chainWithin limit start = true) (more : Nat) :
    program.inheritedField? name (limit + more) start =
      program.inheritedField? name limit start := by
  induction limit generalizing start with
  | zero =>
      cases start with
      | none => cases more <;> rfl
      | some id => cases isShort
  | succ limit ih =>
      rw [Nat.add_right_comm]
      cases start with
      | none => rfl
      | some id =>
          rw [inheritedField?, inheritedField?]
          cases program.declaredField? id name with
          | some field => rfl
          | none => exact ih isShort

/-- A method is found within the length of the chain of superclasses, or not at all. -/
theorem dispatchWithin_of_chainWithin {sub : Subsignature}
    (isShort : program.chainWithin limit start = true) (more : Nat) :
    program.dispatchWithin sub (limit + more) start = program.dispatchWithin sub limit start := by
  induction limit generalizing start with
  | zero =>
      cases start with
      | none => cases more <;> rfl
      | some id => cases isShort
  | succ limit ih =>
      rw [Nat.add_right_comm]
      cases start with
      | none => rfl
      | some id => rw [dispatchWithin, dispatchWithin, ih isShort]

end Chains

section Members

variable {owner : ClassId}

/-- The fields of a class are those that belong to it. -/
theorem MembersFit.mem_fieldsOf (fit : program.MembersFit) {field : FieldId} :
    field ∈ program.fieldsOf owner ↔
      field < program.fields.size ∧ (program.fieldDef field).owner = owner := by
  rw [fieldsOf, List.mem_map]
  constructor
  · rintro ⟨⟨name, field⟩, isEntry, rfl⟩
    obtain ⟨inTable, isOwner, -⟩ :=
      fit.declaredField?_eq_some_iff.mp ((program.indexesFields owner).mem_iff.mp isEntry)
    exact ⟨inTable, isOwner⟩
  · rintro ⟨inTable, isOwner⟩
    have isDeclared := fit.declaredField?_eq_some_iff.mpr ⟨inTable, isOwner, rfl⟩
    exact ⟨_, (program.indexesFields owner).mem_iff.mpr isDeclared, rfl⟩

/-- The methods of a class are those that belong to it. -/
theorem MembersFit.mem_methodsOf (fit : program.MembersFit) {method : MethodId} :
    method ∈ program.methodsOf owner ↔
      method < program.methods.size ∧ (program.methodDef method).owner = owner := by
  rw [methodsOf, List.mem_map]
  constructor
  · rintro ⟨⟨sub, method⟩, isEntry, rfl⟩
    obtain ⟨inTable, isOwner, -⟩ :=
      fit.declaredMethod?_eq_some_iff.mp ((program.indexesMethods owner).mem_iff.mp isEntry)
    exact ⟨inTable, isOwner⟩
  · rintro ⟨inTable, isOwner⟩
    have isDeclared := fit.declaredMethod?_eq_some_iff.mpr ⟨inTable, isOwner, rfl⟩
    exact ⟨_, (program.indexesMethods owner).mem_iff.mpr isDeclared, rfl⟩

end Members

section Accesses

variable {access : Access}

/-- The points of an access are listed by methods, and for each method in the order of its
statements. -/
theorem pairwise_allAccessSites {methods : Array MethodDef} :
    (allAccessSites methods access).Pairwise fun first second =>
      first.method < second.method ∨ first.method = second.method ∧ first.index < second.index := by
  rw [allAccessSites, List.pairwise_flatMap]
  constructor
  · intro entry _
    rw [accessSites, List.pairwise_map]
    exact ((pairwise_zipIdx _).filter _).imp fun isLess => .inr ⟨rfl, isLess⟩
  · refine (pairwise_zipIdx _).imp fun {first second} isLess site isFirst other isSecond => .inl ?_
    rw [(mem_accessSites.mp isFirst).1, (mem_accessSites.mp isSecond).1]
    exact isLess

/-- The points of an access through a variable are all in the method of the variable, and
come in the order of its statements. -/
theorem Owned.pairwise_accesses (owned : program.Owned) :
    (program.accesses.get access).Pairwise fun first second => first.index < second.index := by
  have ofVar {site : Site} (isAccess : site ∈ program.accesses.get access) :
      (program.localDef access.base).method = site.method :=
    (owned site _ (Stmt.mentions_of_access? (program.mem_accesses.mp isAccess))).2
  have inOrder := program.listsAccesses access ▸ pairwise_allAccessSites
  refine inOrder.imp_of_mem fun isFirst isSecond isBefore => ?_
  rcases isBefore with isOther | ⟨-, isBefore⟩
  · exact absurd ((ofVar isFirst).symm.trans (ofVar isSecond)) isOther.ne
  · exact isBefore

/-- The accesses through variables and the calls on them are listed, each once and in the
order of the method, and so are the variables that a method may return. -/
structure AccessesListed (program : Program) : Prop where
  mem_fieldStores {var : VarId} {site : Site} : site ∈ program.fieldStores var ↔
    ∃ field source, program.stmt site = .storeField (some var) field source
  mem_fieldLoads {var : VarId} {site : Site} : site ∈ program.fieldLoads var ↔
    ∃ target field, program.stmt site = .loadField target (some var) field
  mem_arrayStores {var : VarId} {site : Site} : site ∈ program.arrayStores var ↔
    ∃ index source, program.stmt site = .storeArray var index source
  mem_arrayLoads {var : VarId} {site : Site} : site ∈ program.arrayLoads var ↔
    ∃ target index, program.stmt site = .loadArray target var index
  mem_callsOn {var : VarId} {site : Site} : site ∈ program.callsOn var ↔
    ∃ invoke, program.stmt site = .call invoke ∧ invoke.receiver = some var
  inOrder {var : VarId} : ∀ sites ∈ [program.fieldStores var, program.fieldLoads var,
    program.arrayStores var, program.arrayLoads var, program.callsOn var],
      sites.Pairwise fun first second => first.index < second.index
  mem_returned {id : MethodId} {var : VarId} : var ∈ (program.methodDef id).returned ↔
    ∃ index, program.stmt ⟨id, index⟩ = .ret (some var)
  returnedOnce {id : MethodId} : (program.methodDef id).returned.Nodup

theorem Owned.accessesListed (owned : program.Owned) : program.AccessesListed where
  mem_fieldStores {var site} := by
    refine program.mem_accesses.trans ?_
    cases program.stmt site <;> simp [Stmt.access?]
  mem_fieldLoads {var site} := by
    refine program.mem_accesses.trans ?_
    cases program.stmt site <;> simp [Stmt.access?]
  mem_arrayStores {var site} := by
    refine program.mem_accesses.trans ?_
    cases program.stmt site <;> simp [Stmt.access?]
  mem_arrayLoads {var site} := by
    refine program.mem_accesses.trans ?_
    cases program.stmt site <;> simp [Stmt.access?]
  mem_callsOn {var site} := by
    refine program.mem_accesses.trans ?_
    cases program.stmt site <;> simp [Stmt.access?]
  inOrder {var} sites isList := by
    simp only [List.mem_cons, List.not_mem_nil, or_false] at isList
    rcases isList with rfl | rfl | rfl | rfl | rfl <;> exact owned.pairwise_accesses
  mem_returned {id var} := by
    rw [MethodDef.mem_returned, Array.mem_iff_getElem?]
    refine exists_congr fun index => ?_
    rw [stmt, MethodDef.stmt, Array.getD_eq_getD_getElem?]
    cases (program.methodDef id).body[index]? with
    | none => simp
    | some stmt => simp
  returnedOnce {id} := by
    have areListed : (program.methodDef id).returned = returnedVars (program.methodDef id).body :=
      (program.methodDef id).listsReturned
    rw [areListed]
    exact nodup_eraseDups _

end Accesses

/-- A program is well formed: what its tables say of classes, of fields, methods and
variables, and of statements fits together. -/
structure WellFormed (program : Program) : Prop where
  classes : program.ClassesFit
  fieldLookup {id : ClassId} {name : String} {limit : Nat} : id < program.classes.size →
    program.classes.size ≤ limit → program.inheritedField? name limit (some id) =
      program.inheritedField? name program.classes.size (some id)
  dispatch {id : ClassId} {sub : Subsignature} {limit : Nat} : id < program.classes.size →
    program.classes.size ≤ limit →
      program.dispatchWithin sub limit (some id) = program.dispatch id sub
  members : program.MembersFit
  declaredField {owner : ClassId} {name : String} {field : FieldId} :
    program.declaredField? owner name = some field ↔ field < program.fields.size ∧
      (program.fieldDef field).owner = owner ∧ (program.fieldDef field).name = name
  declaredMethod {owner : ClassId} {sub : Subsignature} {method : MethodId} :
    program.declaredMethod? owner sub = some method ↔ method < program.methods.size ∧
      (program.methodDef method).owner = owner ∧ (program.methodDef method).sub = sub
  fieldsOf {owner : ClassId} {field : FieldId} : field ∈ program.fieldsOf owner ↔
    field < program.fields.size ∧ (program.fieldDef field).owner = owner
  methodsOf {owner : ClassId} {method : MethodId} : method ∈ program.methodsOf owner ↔
    method < program.methods.size ∧ (program.methodDef method).owner = owner
  mentions {site : Site} {var : VarId} :
    (program.stmt site).Mentions var → var ∈ (program.methodDef site.method).vars
  jumps {site : Site} {target : Nat} : target ∈ (program.stmt site).jumps →
    target < (program.methodDef site.method).body.size
  stmts {site : Site} : (program.stmt site).Fits program
  calls {site : Site} {invoke : Invoke} : program.stmt site = .call invoke →
    (invoke.kind = .static ↔ invoke.receiver = none)
  accesses : program.AccessesListed

/-- Every program that a text stands for is well formed. -/
theorem wellFormed_ofText {text : String} (isProgram : ofText text = .ok program) :
    program.WellFormed := by
  have classes := classesFit_ofText isProgram
  have members := membersFit_ofText isProgram
  have owned := owned_ofText isProgram
  constructor
  case classes => exact classes
  case fieldLookup =>
      intro id name limit inTable isLonger
      obtain ⟨more, rfl⟩ := Nat.exists_eq_add_of_le isLonger
      exact inheritedField?_of_chainWithin (classes.chains inTable) more
  case dispatch =>
      intro id sub limit inTable isLonger
      obtain ⟨more, rfl⟩ := Nat.exists_eq_add_of_le isLonger
      exact dispatchWithin_of_chainWithin (classes.chains inTable) more
  case members => exact members
  case declaredField => exact members.declaredField?_eq_some_iff
  case declaredMethod => exact members.declaredMethod?_eq_some_iff
  case fieldsOf => exact members.mem_fieldsOf
  case methodsOf => exact members.mem_methodsOf
  case mentions =>
      intro site var isMentioned
      have inTable : site.method < program.methods.size := by
        apply lt_size_of_stmt
        exact fun isNop => Stmt.not_mentions_nop (isNop ▸ isMentioned)
      exact (members.methodFits inTable).mem_vars.mpr (owned site var isMentioned)
  case jumps =>
      intro site target isJump
      have areInside : (program.methodDef site.method).AllStmts fun stmt => ∀ target ∈ stmt.jumps,
          target < (program.methodDef site.method).body.size :=
        jumpsInside_ofText isProgram site.method
      exact areInside.stmt (List.forall_mem_nil _) target isJump
  case stmts =>
      intro site
      have areFitting := (stmtsFit_ofText isProgram).methodDef
        (fun stmt isStmt => absurd isStmt (Array.not_mem_empty stmt)) site.method
      exact areFitting.stmt trivial
  case calls => exact callFits_ofText isProgram
  case accesses => exact owned.accessesListed

/-- An interface and a class that implements it. A parameter that is used for another value
is split. -/
theorem wellFormed_ofText_shape : ∃ program,
    Program.ofText "interface Shape { abstract method area(int by) : int; }
      class Square implements Shape { static field int made;
        method area(int by) : int { Square::made = by; by = by * by; return by; } }" = .ok program ∧
      program.classes.size = 3 ∧ program.localNamed? 1 "by#1" = some 4 ∧ program.WellFormed := by
  have passes : (Program.ofText "interface Shape { abstract method area(int by) : int; }
      class Square implements Shape { static field int made;
        method area(int by) : int { Square::made = by; by = by * by; return by; } }").toOption.any
      (fun program => decide (program.classes.size = 3 ∧
        program.localNamed? 1 "by#1" = some 4)) = true := by decide +kernel
  obtain ⟨program, isProgram, isShaped⟩ := exists_of_test passes
  obtain ⟨hasClasses, isSplit⟩ := of_decide_eq_true isShaped
  exact ⟨program, isProgram, hasClasses, isSplit, wellFormed_ofText isProgram⟩

end Program

end TacAnalysis
