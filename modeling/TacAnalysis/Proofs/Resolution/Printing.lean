/-
# What is printed is read back

A statement that is printed and then read as a line of a program text is the same statement
again, in the scope of its method. What a keyword captures is the exception: a static field is
printed with the name of its class first, and where a keyword that is a statement or an operand
by itself is the first part of that name, up to a slash, no more than the keyword is read.
-/

import TacAnalysis.Proofs.Resolution.PrintedStatements

namespace TacAnalysis

open Source (Action Operand keywords)

namespace Program

section Printing

variable {program : Program} {site : Site} {stmt : Stmt}

/-- No class and no variable has the name of a keyword. Fields and methods may. -/
structure AvoidsKeywords (program : Program) : Prop where
  classes : ∀ cls ∈ program.classes, cls.name ∉ keywords
  locals : ∀ var ∈ program.locals, var.name ∉ keywords

instance : DecidablePred AvoidsKeywords := fun program =>
  decidable_of_iff ((∀ cls ∈ program.classes, cls.name ∉ keywords) ∧
    ∀ var ∈ program.locals, var.name ∉ keywords)
    ⟨fun avoids => ⟨avoids.1, avoids.2⟩, fun avoids => ⟨avoids.classes, avoids.locals⟩⟩

/-- What is printed for a statement is, with a semicolon, read to its end as a line without a
label, and what is read is resolved to the statement in the scope of its method. -/
def ReadsBack (program : Program) (site : Site) : Prop :=
  ∃ action, Source.Reader.line (program.renderStmt (program.stmt site) ++ ";").toList =
      .matched ⟨none, action⟩ [] ∧
    (program.scopeOf site.method).resolveAction action = .ok (program.stmt site)

/-- The class that declares a static field has a name that goes on with a slash after a keyword
which is all that a statement or an operand may consist of. -/
def IsCaptured (program : Program) : Stmt → Prop
  | .storeField none field _ =>
      Source.Opens "nop" (program.classDef (program.fieldDef field).owner).name ∨
        Source.Opens "return" (program.classDef (program.fieldDef field).owner).name
  | .loadField _ none field =>
      Source.Opens "null" (program.classDef (program.fieldDef field).owner).name
  | _ => False

/-- The name of a variable has no slash, so that only the names of classes are captured. -/
theorem isCaptured_actionOf (isSpelled : (program.actionOf stmt).IsSpelled) :
    (program.actionOf stmt).IsCaptured ↔ program.IsCaptured stmt := by
  have notOpens {name word : String} (isName : Source.IsIdentifier name) :
      ¬ Source.Opens word name := fun opens => isName.slash_not_mem opens.slash_mem
  cases stmt with
  | loadField target base field =>
      cases base with
      | none => exact Iff.rfl
      | some base => exact iff_false_intro (notOpens isSpelled.2.1)
  | storeField base field source =>
      cases base with
      | none => exact Iff.rfl
      | some base =>
          exact iff_false_intro (not_or.mpr ⟨notOpens isSpelled.1.1, notOpens isSpelled.1.1⟩)
  | call invoke =>
      cases isResult : invoke.result <;>
        simp [actionOf, isResult, Action.IsCaptured, Operand.IsCaptured, IsCaptured]
  | _ => exact Iff.rfl

theorem isJump_actionOf (noJumps : stmt.jumps = []) : (program.actionOf stmt).isJump = false := by
  cases stmt with
  | call invoke => cases isResult : invoke.result <;> simp [actionOf, isResult, Action.isJump]
  | «switch» scrutinee cases default =>
      exact absurd noJumps (List.append_ne_nil_of_right_ne_nil _ (List.cons_ne_nil _ _))
  | branch | goto => cases noJumps
  | _ => rfl

theorem renderVar_notKeyword (avoids : program.AvoidsKeywords) {var : VarId}
    (inTable : var < program.locals.size) : program.renderVar var ∉ keywords := by
  rw [renderVar, localDef, Array.getD, dif_pos inTable]
  exact avoids.locals _ (Array.getElem_mem inTable)

theorem head_accessPath (avoids : program.AvoidsKeywords) (members : program.MembersFit)
    {base : Option VarId} {field : FieldId} (fits : program.AccessFits base field)
    (inTable : ∀ var ∈ base, var < program.locals.size) :
    (program.accessPath base field).head ∉ keywords := by
  cases base with
  | some base => exact renderVar_notKeyword avoids (inTable base rfl)
  | none =>
      exact avoids.classes _ (owner_mem_classes members fits.inTable).2

/-- The names that come first in what is printed are those of variables and classes. -/
theorem heads_actionOf (avoids : program.AvoidsKeywords) (members : program.MembersFit)
    (fits : stmt.Fits program) (inTable : ∀ var, stmt.Mentions var → var < program.locals.size) :
    ∀ name ∈ (program.actionOf stmt).heads, name ∉ keywords := by
  have isVar (var : VarId) (mentions : stmt.Mentions var) : program.renderVar var ∉ keywords :=
    renderVar_notKeyword avoids (inTable var mentions)
  cases stmt with
  | nop | ret | branch | goto | «switch» => exact List.forall_mem_nil _
  | new target ty => exact List.forall_mem_singleton.mpr (isVar target (.inl rfl))
  | literal target value => exact List.forall_mem_singleton.mpr (isVar target (.inl rfl))
  | cast target ty source => exact List.forall_mem_singleton.mpr (isVar target (.inl rfl))
  | copy target source =>
      exact List.forall_mem_cons.mpr ⟨isVar target (.inl rfl),
        List.forall_mem_singleton.mpr (isVar source (.inr List.mem_cons_self))⟩
  | binary target exp =>
      exact List.forall_mem_cons.mpr ⟨isVar target (.inl rfl),
        List.forall_mem_singleton.mpr (isVar exp.left (.inr List.mem_cons_self))⟩
  | loadArray target base index =>
      exact List.forall_mem_cons.mpr ⟨isVar target (.inl rfl),
        List.forall_mem_singleton.mpr (isVar base (.inr List.mem_cons_self))⟩
  | storeArray base index source =>
      exact List.forall_mem_singleton.mpr (isVar base (.inr List.mem_cons_self))
  | loadField target base field =>
      refine List.forall_mem_cons.mpr ⟨isVar target (.inl rfl), List.forall_mem_singleton.mpr ?_⟩
      exact head_accessPath avoids members fits fun var isBase =>
        inTable var (.inr (Option.mem_toList.mpr isBase))
  | storeField base field source =>
      refine List.forall_mem_singleton.mpr ?_
      exact head_accessPath avoids members fits fun var isBase =>
        inTable var (.inr (List.mem_append_left _ (Option.mem_toList.mpr isBase)))
  | call invoke =>
      cases isResult : invoke.result with
      | none =>
          simp only [actionOf, isResult]
          exact List.forall_mem_nil _
      | some result =>
          simp only [actionOf, isResult]
          exact List.forall_mem_singleton.mpr (isVar result (.inl isResult))

theorem eq_of_mentions_store {field : FieldId} {source var : VarId}
    (mentions : (Stmt.storeField none field source).Mentions var) : source = var := by
  rcases mentions with isDef | isUsed
  · cases isDef
  · exact (List.mem_singleton.mp isUsed).symm

/-- A statement is printed in such a way that it is read back, except for static fields of
classes whose names start with certain keywords: it is no jump, all its variables have kept
their names, and no class and no variable has the name of a keyword. -/
theorem readsBack_iff {text : String} (isProgram : ofText text = .ok program)
    (avoids : program.AvoidsKeywords)
    (inBody : site.index < (program.methodDef site.method).body.size)
    (noJumps : (program.stmt site).jumps = [])
    (keep : ∀ var, (program.stmt site).Mentions var → program.KeepsName var) :
    program.ReadsBack site ↔ ¬ program.IsCaptured (program.stmt site) := by
  have members := membersFit_ofText isProgram
  obtain ⟨scope, action, hasScope, actionSpelled, isResolved⟩ :=
    stmtsRead_ofText isProgram site inBody keep
  have finds : program.FindsNames site.method scope := ⟨classesFit_ofText isProgram,
    classesSpelled_ofText isProgram, members, members.methodFits (lt_size_of_body inBody), hasScope⟩
  obtain ⟨isSpelled, isResolved⟩ := finds.resolveAction actionSpelled isResolved noJumps
  have fits : (program.stmt site).Fits program :=
    ((stmtsFit_ofText isProgram).methodDef (fun stmt isStmt => absurd isStmt
      (Array.not_mem_empty stmt)) site.method).stmt trivial
  have notKeywords := heads_actionOf avoids members fits fun var mentions =>
    (owned_ofText isProgram site var mentions).1
  have notJump : (program.actionOf (program.stmt site)).isJump = false := isJump_actionOf noJumps
  rw [← isCaptured_actionOf isSpelled, ReadsBack, ← render_actionOf]
  constructor
  · rintro ⟨read, isRead, -⟩ isCaptured
    cases (Source.Reader.line_captured isSpelled notJump notKeywords isCaptured).symm.trans isRead
  · intro notCaptured
    exact ⟨_, Source.Reader.line_render isSpelled notJump notKeywords notCaptured, isResolved⟩

/-- A store to an inherited field is printed through the class that declares it. -/
theorem readsBack_inherited : ∃ program,
    ofText "class A { static field int f; } class B extends A {
      static method m(int x) : void { B::f = x; } }" = .ok program ∧
    program.renderStmt (program.stmt ⟨0, 0⟩) = "A::f = x" ∧ program.ReadsBack ⟨0, 0⟩ := by
  have passes : (ofText "class A { static field int f; } class B extends A {
      static method m(int x) : void { B::f = x; } }").toOption.any (fun program =>
        decide (program.AvoidsKeywords ∧ 0 < (program.methodDef 0).body.size ∧
          program.stmt ⟨0, 0⟩ = .storeField none 0 0 ∧ program.KeepsName 0 ∧
          (program.classDef (program.fieldDef 0).owner).name = "A" ∧
          program.renderStmt (program.stmt ⟨0, 0⟩) = "A::f = x")) = true := by decide +kernel
  obtain ⟨program, isProgram, holds⟩ := exists_of_test passes
  obtain ⟨avoids, inBody, isStmt, keeps, isOwner, isPrinted⟩ := of_decide_eq_true holds
  refine ⟨program, isProgram, isPrinted, (readsBack_iff isProgram avoids inBody (isStmt ▸ rfl)
    fun var mentions => ?_).mpr ?_⟩
  · rw [isStmt] at mentions
    exact eq_of_mentions_store mentions ▸ keeps
  · rw [isStmt, IsCaptured, isOwner]
    decide

/-- In a class whose name starts with `nop`, what is printed for the same store ends after that
word. -/
theorem not_readsBack_inherited : ∃ program,
    ofText "class nop/A { static field int f; } class B extends nop/A {
      static method m(int x) : void { B::f = x; } }" = .ok program ∧ program.AvoidsKeywords ∧
    (∀ field ∈ program.fields, field.name ∉ keywords) ∧
    (∀ method ∈ program.methods, method.sub.name ∉ keywords) ∧
    0 < (program.methodDef 0).body.size ∧ (program.stmt ⟨0, 0⟩).jumps = [] ∧
    (∀ var, (program.stmt ⟨0, 0⟩).Mentions var → program.KeepsName var) ∧
    program.renderStmt (program.stmt ⟨0, 0⟩) = "nop/A::f = x" ∧ ¬ program.ReadsBack ⟨0, 0⟩ := by
  have passes : (ofText "class nop/A { static field int f; } class B extends nop/A {
      static method m(int x) : void { B::f = x; } }").toOption.any (fun program =>
        decide (program.AvoidsKeywords ∧ (∀ field ∈ program.fields, field.name ∉ keywords) ∧
          (∀ method ∈ program.methods, method.sub.name ∉ keywords) ∧
          0 < (program.methodDef 0).body.size ∧ program.stmt ⟨0, 0⟩ = .storeField none 0 0 ∧
          program.KeepsName 0 ∧
          program.renderStmt (program.stmt ⟨0, 0⟩) = "nop/A::f = x")) = true := by decide +kernel
  have notRead : Source.Reader.line ("nop/A::f = x" ++ ";").toList = .unmatched := by
    decide +kernel
  obtain ⟨program, isProgram, holds⟩ := exists_of_test passes
  obtain ⟨avoids, fields, methods, inBody, isStmt, keeps, isPrinted⟩ := of_decide_eq_true holds
  refine ⟨program, isProgram, avoids, fields, methods, inBody, isStmt ▸ rfl,
    fun var mentions => ?_, isPrinted, ?_⟩
  · rw [isStmt] at mentions
    exact eq_of_mentions_store mentions ▸ keeps
  · rintro ⟨action, isRead, -⟩
    rw [isPrinted] at isRead
    cases notRead.symm.trans isRead

end Printing

end Program

end TacAnalysis
