/-
# What a declared method adds

The variables of a method are those that it declares, the receiver and the parameters first,
followed by those that are split from them. They are found in the table at the numbers that
come next, the class that their types are built on exists, and no two have one name: names
are words, and the rank of a web is set apart by a sign that no word has.
-/

import Mathlib.Data.List.Nodup
import TacAnalysis.Proofs.Resolution.Hierarchy
import TacAnalysis.Proofs.Resolution.Splitting
import TacAnalysis.Proofs.Source.Spelling

namespace TacAnalysis

namespace Program

variable {program old new : Program}

section Types

variable {ty : Ty}

/-- The class that a type is built on exists, if it is built on one. -/
def TypeExists (program : Program) (ty : Ty) : Prop :=
  ∀ name, ty.innermost = .named name → ∃ id, program.classNamed? name = some id

theorem checkType_eq_ok_iff : program.checkType ty = .ok () ↔ program.TypeExists ty := by
  unfold checkType TypeExists
  split
  case h_1 name isNamed =>
      rw [isNamed]
      constructor
      · rintro isChecked _ ⟨⟩
        obtain ⟨id, isFound, -⟩ := Resolved.bind_eq_ok.mp isChecked
        exact ⟨id, classNamed?_of_resolveClass isFound⟩
      · intro exists_
        obtain ⟨id, isNamed⟩ := exists_ name rfl
        refine Resolved.bind_eq_ok.mpr ⟨id, ?_, rfl⟩
        rw [resolveClass, isNamed]
  case h_2 notNamed => exact ⟨fun _ name isNamed => absurd isNamed (notNamed name), fun _ => rfl⟩

theorem forM_checkType_eq_ok_iff {types : List Ty} :
    types.forM program.checkType = .ok () ↔ ∀ ty ∈ types, program.TypeExists ty := by
  induction types with
  | nil => exact ⟨fun _ => List.forall_mem_nil _, fun _ => rfl⟩
  | cons ty types ih =>
      rw [List.forall_mem_cons, ← ih, ← checkType_eq_ok_iff]
      refine Resolved.bind_eq_ok.trans ?_
      exact ⟨fun ⟨⟨⟩, isFirst, isRest⟩ => ⟨isFirst, isRest⟩,
        fun ⟨isFirst, isRest⟩ => ⟨(), isFirst, isRest⟩⟩

theorem TypeExists.of_classes (typeExists : old.TypeExists ty) (same : new.classes = old.classes) :
    new.TypeExists ty := by
  intro name isNamed
  rw [classNamed?_of_eq same]
  exact typeExists name isNamed

/-- Adding variables twice is adding them at once. -/
theorem addLocals_addLocals {vars more : List Local} :
    (program.addLocals vars).addLocals more = program.addLocals (vars ++ more) := by
  simp [addLocals]

end Types

end Program

/-- The variable of a method that is declared with a type and a name. -/
def Source.TypedName.toLocal (method : MethodId) (decl : Source.TypedName) : Local :=
  ⟨decl.name, decl.ty, method⟩

namespace Scope

variable {scope new : Scope} {decls : List Source.TypedName}

/-- Variables have been declared: they are added to the table and to the scope in their
order, their types exist, and their names differ. -/
structure Lists (scope : Scope) (decls : List Source.TypedName) (new : Scope) : Prop where
  program : new.program = scope.program.addLocals
    (decls.map (Source.TypedName.toLocal scope.program.methods.size))
  varIds : new.varIds = scope.varIds ++ List.range' scope.program.locals.size decls.length
  names : new.vars.map Prod.fst = scope.vars.map Prod.fst ++ decls.map Source.TypedName.name
  types : ∀ decl ∈ decls, scope.program.TypeExists decl.ty
  differ : (scope.vars.map Prod.fst).Nodup → (new.vars.map Prod.fst).Nodup

theorem lists_declareVars (isNew : scope.declareVars decls = .ok new) : scope.Lists decls new := by
  induction decls generalizing scope with
  | nil =>
      cases isNew
      exact ⟨by simp [Program.addLocals], by simp, by simp, List.forall_mem_nil _, id⟩
  | cons decl decls ih =>
      obtain ⟨⟨⟩, isChecked, isRest⟩ := Resolved.bind_eq_ok.mp isNew
      split at isRest
      case isTrue => cases isRest
      case isFalse isFresh =>
          have rest := ih isRest
          have isOther (name : String) (isListed : name ∈ scope.vars.map Prod.fst) :
              name ≠ decl.name := by
            rintro rfl
            obtain ⟨entry, isEntry, sameName⟩ := List.mem_map.mp isListed
            rw [Bool.not_eq_true, Option.isSome_eq_false_iff, Option.isNone_iff_eq_none,
              List.lookup_eq_none_iff] at isFresh
            simpa [sameName] using isFresh entry isEntry
          constructor
          case program =>
            rw [rest.program, Program.addLocals_addLocals]
            rfl
          case varIds =>
            rw [rest.varIds]
            simp [varIds, Program.addLocals, List.range'_succ]
          case names =>
            rw [rest.names]
            simp
          case types =>
            exact List.forall_mem_cons.mpr ⟨Program.checkType_eq_ok_iff.mp isChecked,
              fun other isOther => (rest.types other isOther).of_classes rfl⟩
          case differ =>
            intro differ
            apply rest.differ
            rw [List.map_append, List.nodup_append]
            refine ⟨differ, List.nodup_singleton _, fun name isListed other isLast => ?_⟩
            rw [List.map_singleton, List.mem_singleton] at isLast
            exact isLast ▸ isOther name isListed

theorem declareVars_append {first second : List Source.TypedName} {middle : Scope}
    (isMiddle : scope.declareVars first = .ok middle)
    (isNew : middle.declareVars second = .ok new) :
    scope.declareVars (first ++ second) = .ok new := by
  induction first generalizing scope with
  | nil =>
      cases isMiddle
      exact isNew
  | cons decl first ih =>
      obtain ⟨⟨⟩, isChecked, isRest⟩ := Resolved.bind_eq_ok.mp isMiddle
      refine Resolved.bind_eq_ok.mpr ⟨(), isChecked, ?_⟩
      split at isRest
      case isTrue => cases isRest
      case isFalse isFresh =>
          rw [if_neg isFresh]
          exact ih isRest

end Scope

namespace Program

variable {program old new : Program}

section Naming

variable {vars : List VarId} {added : List (VarId × Nat)}

/-- The rank of a web is told apart from the name of its variable. -/
theorem eq_of_splitName {first second : String} {rank other : Nat}
    (isPlain : '#' ∉ first.toList) (isPlainToo : '#' ∉ second.toList)
    (same : first ++ "#" ++ toString rank = second ++ "#" ++ toString other) :
    first = second ∧ rank = other := by
  have sameText : first.toList ++ '#' :: (toString rank).toList =
      second.toList ++ '#' :: (toString other).toList := by
    simpa using congrArg String.toList same
  have front {name rest : List Char} (isPlain : '#' ∉ name) :
      (name ++ '#' :: rest).takeWhile (· != '#') = name := by
    rw [List.takeWhile_append_of_pos fun c isIn =>
      bne_iff_ne.mpr (ne_of_mem_of_not_mem isIn isPlain)]
    simp
  have sameName := congrArg (List.takeWhile (· != '#')) sameText
  rw [front isPlain, front isPlainToo] at sameName
  rw [sameName] at sameText
  obtain ⟨-, sameDigits⟩ := List.cons.inj (List.append_cancel_left sameText)
  refine ⟨String.toList_inj.mp sameName, ?_⟩
  have isRank (rank : Nat) : Nat.ofDigitChars 10 (toString rank).toList 0 = rank := by
    rw [Nat.toString_eq_repr, Nat.repr, String.toList_ofList]
    exact Nat.ofDigitChars_toDigits (by decide) (by decide)
  rw [← isRank rank, sameDigits, isRank]

/-- Split variables have names of their own. -/
theorem nodup_names_split (differ : ((vars.map program.localDef).map Local.name).Nodup)
    (arePlain : ∀ var ∈ vars.map program.localDef, '#' ∉ var.name.toList)
    (addedDiffer : added.Nodup) (areVars : ∀ origin ∈ added, origin.1 ∈ vars) :
    ((vars.map program.localDef ++ added.map program.splitLocal).map Local.name).Nodup := by
  have isPlain {origin : VarId × Nat} (isAdded : origin ∈ added) :
      '#' ∉ (program.localDef origin.1).name.toList :=
    arePlain _ (List.mem_map_of_mem (areVars origin isAdded))
  rw [List.map_append, List.nodup_append, List.map_map, List.map_map]
  rw [List.map_map] at differ
  refine ⟨differ, addedDiffer.map_on fun first isFirst second isSecond same => ?_, ?_⟩
  · obtain ⟨sameName, sameRank⟩ := eq_of_splitName (isPlain isFirst) (isPlain isSecond) same
    exact Prod.ext (List.inj_on_of_nodup_map differ (areVars first isFirst)
      (areVars second isSecond) sameName) sameRank
  · intro name isName other isOther same
    obtain ⟨var, isVar, rfl⟩ := List.mem_map.mp isName
    obtain ⟨origin, -, rfl⟩ := List.mem_map.mp isOther
    apply arePlain _ (List.mem_map_of_mem isVar)
    rw [Function.comp_apply] at same
    simp [same, splitLocal]

end Naming

section Declaring

variable {owner : ClassId} {decl : Source.MethodDecl} {header scope : Scope} {body : Array Stmt}

/-- What the variables of a method are declared with: the receiver and the parameters come
first, then the variables of the body. -/
def declaredVars (ownerName : String) (decl : Source.MethodDecl) :
    List Source.TypedName :=
  headerVars ownerName decl ++ decl.body.elim [] Source.Body.vars

theorem Declares.lists (declares : Declares owner old decl header scope body new) :
    Scope.Lists ⟨old, renderSignature (old.classDef owner).name decl.sub, [], []⟩
      (declaredVars (old.classDef owner).name decl) scope :=
  Scope.lists_declareVars (Scope.declareVars_append declares.isHeader declares.isScope)

theorem Declares.varIds (declares : Declares owner old decl header scope body new) :
    scope.vars.map Prod.snd =
      List.range' old.locals.size (headerVars (old.classDef owner).name decl).length ++
        List.range' (old.locals.size + (headerVars (old.classDef owner).name decl).length)
          (decl.body.elim [] Source.Body.vars).length := by
  rw [List.range'_append_1, ← List.length_append]
  exact declares.lists.varIds

/-- Methods that are not static have a receiver. -/
theorem Declares.this_eq_none_iff (declares : Declares owner old decl header scope body new) :
    (writtenMethod owner old decl scope body).this = none ↔ decl.isStatic = true := by
  rw [writtenMethod, declares.varIds]
  by_cases isStatic : decl.isStatic = true
  · simp [isStatic]
  · simp [headerVars, isStatic, List.range'_succ]

/-- The receiver and the parameters are the first variables of a method. -/
theorem Declares.entryVars (declares : Declares owner old decl header scope body new) :
    (writtenMethod owner old decl scope body).entryVars =
      List.range' old.locals.size (headerVars (old.classDef owner).name decl).length := by
  rw [MethodDef.entryVars, writtenMethod, declares.varIds, List.take_left' List.length_range']
  by_cases isStatic : decl.isStatic = true
  · simp [headerVars, isStatic]
  · simp [headerVars, isStatic, List.range'_succ]

/-- An abstract method has no statements. -/
theorem Declares.body_eq_empty (declares : Declares owner old decl header scope body new)
    (isAbstract : decl.isAbstract = true) : body = #[] := by
  have fits := declares.fits
  cases hasBody : decl.body with
  | some body => simp [bodyFits, isAbstract, hasBody] at fits
  | none =>
      have isBody := declares.isBody
      rw [hasBody] at isBody
      cases isBody
      rfl

/-- Variables that are added to the table are found at the numbers that come next. -/
theorem map_localDef_range' {vars : List Local} (added : new.locals = old.locals ++ vars.toArray) :
    (List.range' old.locals.size vars.length).map new.localDef = vars := by
  refine List.ext_getElem (by simp) fun position inRange inVars => ?_
  rw [List.getElem_map, List.getElem_range', Nat.one_mul]
  apply localDef_added added
  rw [List.getElem?_toArray, List.getElem?_eq_getElem inVars]

/-- A program is another one with a method, last among the methods, and the variables of the
method, last among the variables. -/
structure Extends (old : Program) (method : MethodDef) (vars : List Local) (new : Program) :
    Prop where
  classes : new.classes = old.classes
  fields : new.fields = old.fields
  methods : new.methods = old.methods.push method
  locals : new.locals = old.locals ++ vars.toArray

/-- A method and its variables, the receiver and the parameters first, are what a declaration
adds to a program. -/
structure Adds (owner : ClassId) (old : Program) (decl : Source.MethodDecl) (method : MethodDef)
    (vars : List Local) : Prop where
  isFresh : old.declaredMethod? owner decl.sub = none
  isOwner : method.owner = owner
  isSub : method.sub = decl.sub
  receiver : method.this = none ↔ method.isStatic = true
  isStatic : method.isStatic = decl.isStatic
  entryVars : method.entryVars =
    List.range' old.locals.size (headerVars (old.classDef owner).name decl).length
  isHeader : (headerVars (old.classDef owner).name decl).map
    (Source.TypedName.toLocal old.methods.size) <+: vars
  varIds : method.vars = List.range' old.locals.size vars.length
  belong : ∀ var ∈ vars, var.method = old.methods.size
  types : ∀ var ∈ vars, old.TypeExists var.ty
  returns : old.TypeExists decl.ret
  differ : (vars.map Local.name).Nodup
  noBody : method.isAbstract = true → method.body = #[]

theorem Adds.entryVars_prefix {method : MethodDef} {vars : List Local}
    (adds : Adds owner old decl method vars) : method.entryVars <+: method.vars := by
  have isShort := adds.isHeader.length_le
  rw [List.length_map] at isShort
  obtain ⟨others, isLength⟩ := Nat.exists_eq_add_of_le isShort
  rw [adds.entryVars, adds.varIds, isLength, ← List.range'_append_1]
  exact List.prefix_append _ _

/-- The classes that the types of the subsignature are built on exist. -/
theorem Adds.signatureTypes {method : MethodDef} {vars : List Local}
    (adds : Adds owner old decl method vars) :
    ∀ ty ∈ decl.sub.ret :: decl.sub.params, old.TypeExists ty := by
  refine List.forall_mem_cons.mpr ⟨adds.returns, List.forall_mem_map.mpr fun param isParam => ?_⟩
  apply adds.types (param.toLocal old.methods.size)
  apply adds.isHeader.subset
  exact List.mem_map_of_mem (List.mem_append_right _ isParam)

theorem plain_of_isIdentifier {name : String} (isSpelled : Source.IsIdentifier name) :
    '#' ∉ name.toList := by
  obtain ⟨first, rest, isText, starts, continue_⟩ := isSpelled
  rw [isText]
  rintro (_ | ⟨_, isIn⟩)
  · cases starts
  · cases continue_ _ isIn

/-- Names that are declared are told apart from those of split variables. -/
theorem plain_of_mem_declaredVars {ownerName : String} (isSpelled : decl.IsSpelled) :
    ∀ var ∈ declaredVars ownerName decl, '#' ∉ var.name.toList := by
  intro var isDeclared
  rcases List.mem_append.mp isDeclared with isHeader | isBodyVar
  · rcases List.mem_append.mp isHeader with isThis | isParam
    · split at isThis
      case isTrue => cases isThis
      case isFalse =>
          rw [List.mem_singleton.mp isThis]
          exact (by decide : '#' ∉ "this".toList)
    · exact plain_of_isIdentifier (isSpelled.params var isParam).name
  · exact plain_of_isIdentifier (isSpelled.vars var isBodyVar).name

/-- What a declaration adds as it is written. -/
theorem Declares.adds (declares : Declares owner old decl header scope body new) :
    Adds owner old decl (writtenMethod owner old decl scope body)
      ((declaredVars (old.classDef owner).name decl).map
        (Source.TypedName.toLocal old.methods.size)) where
  isFresh := declares.isFresh
  isOwner := rfl
  isSub := rfl
  receiver := declares.this_eq_none_iff
  isStatic := rfl
  entryVars := declares.entryVars
  isHeader := List.IsPrefix.map _ (List.prefix_append _ _)
  varIds := by
    rw [List.length_map]
    exact declares.lists.varIds
  belong := List.forall_mem_map.mpr fun _ _ => rfl
  types := List.forall_mem_map.mpr declares.lists.types
  returns := checkType_eq_ok_iff.mp declares.returns
  differ := by
    have differ := declares.lists.differ List.nodup_nil
    rw [declares.lists.names] at differ
    rwa [List.map_map]
  noBody := declares.body_eq_empty

/-- Splitting adds further variables, and renames those of statements. -/
theorem Adds.split {method : MethodDef} {vars : List Local} {before : Program}
    (adds : Adds owner old decl method vars) (arePlain : ∀ var ∈ vars, '#' ∉ var.name.toList)
    (isBefore : before = old.addLocals vars)
    (confined : method.code.Confined method.vars before.locals.size) :
    Adds owner old decl (before.splitMethod method)
      (vars ++ (before.splitting method).added.map before.splitLocal) := by
  have isLocals : before.locals = old.locals ++ vars.toArray := congrArg Program.locals isBefore
  have areVars : method.vars.map before.localDef = vars := by
    rw [adds.varIds]
    exact map_localDef_range' isLocals
  have size : before.locals.size = old.locals.size + vars.length := by
    rw [isLocals]
    exact Array.size_append
  have isSplit {entry : VarId × Nat} (isAdded : entry ∈ (before.splitting method).added) :
      ∃ var ∈ vars, (before.splitLocal entry).method = var.method ∧
        (before.splitLocal entry).ty = var.ty := by
    refine ⟨before.localDef entry.1, ?_, rfl, rfl⟩
    rw [← areVars]
    exact List.mem_map_of_mem (Code.mem_of_mem_added confined isAdded)
  constructor
  case isFresh => exact adds.isFresh
  case isOwner => exact adds.isOwner
  case isSub => exact adds.isSub
  case receiver => exact adds.receiver
  case isStatic => exact adds.isStatic
  case entryVars => exact adds.entryVars
  case isHeader => exact adds.isHeader.trans (List.prefix_append _ _)
  case varIds =>
      rw [List.length_append, List.length_map, ← List.range'_append_1, ← adds.varIds, ← size,
        List.range'_eq_map_range]
      rfl
  case belong =>
      refine List.forall_mem_append.mpr ⟨adds.belong, ?_⟩
      refine List.forall_mem_map.mpr fun entry isAdded => ?_
      obtain ⟨var, isVar, sameMethod, -⟩ := isSplit isAdded
      exact sameMethod.trans (adds.belong var isVar)
  case types =>
      refine List.forall_mem_append.mpr ⟨adds.types, ?_⟩
      refine List.forall_mem_map.mpr fun entry isAdded => ?_
      obtain ⟨var, isVar, -, sameType⟩ := isSplit isAdded
      exact sameType ▸ adds.types var isVar
  case returns => exact adds.returns
  case differ =>
      rw [← areVars]
      refine nodup_names_split ?_ ?_ Code.nodup_added fun _ => Code.mem_of_mem_added confined
      · exact areVars ▸ adds.differ
      · exact areVars ▸ arePlain
  case noBody =>
      intro isAbstract
      have isEmpty := adds.noBody isAbstract
      apply Array.eq_empty_of_size_eq_zero
      rw [show (before.splitMethod method).body.size = method.body.size from Code.size_afterSplit,
        isEmpty]
      rfl

/-- What is there once the variables of a method have been declared, and the method is added,
split. -/
theorem extends_addSplit {method : MethodDef} {vars : List Local} {before : Program}
    (isBefore : before = old.addLocals vars)
    (isNew : before.declaredMethod? method.owner method.sub = none) :
    Extends old (before.splitMethod method)
      (vars ++ (before.splitting method).added.map before.splitLocal)
      (before.addSplit method isNew) := by
  subst isBefore
  refine ⟨rfl, rfl, methods_addSplit, ?_⟩
  rw [← List.append_toArray, ← Array.append_assoc]
  rfl

/-- Declaring a method adds it with its variables, those that are split included. -/
theorem exists_adds_of_declareMethod (isSpelled : decl.IsSpelled)
    (isNew : declareMethod owner old decl = .ok new) :
    ∃ method vars, Extends old method vars new ∧ Adds owner old decl method vars := by
  obtain ⟨header, scope, body, declares⟩ := exists_of_declareMethod isNew
  refine ⟨_, _, ?_, declares.adds.split
    (List.forall_mem_map.mpr (plain_of_mem_declaredVars isSpelled)) declares.lists.program
    declares.confined⟩
  rw [declares.isNew]
  exact extends_addSplit declares.lists.program declares.staysFresh

end Declaring

end Program

end TacAnalysis
