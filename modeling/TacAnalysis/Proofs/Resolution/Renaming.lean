/-
# Renaming the variables of a statement

A statement consists of its form, which is all of it but its variables, of the variable that it
defines and of those that it reads. Nothing else is in a statement, so that there is a single
way of renaming variables that maps what is defined and what is read, and keeps the form. This
holds where a statement reads the variable that it defines, too: the one occurrence follows one
map, and the other the other.
-/

import TacAnalysis.Proofs.Execution.Traces

namespace TacAnalysis

namespace Stmt

/-- All of a statement but its variables. Whether there is a base, a receiver, a result or a
value is part of the form, which variable it is is not. -/
inductive Form where
  | nop
  | new (ty : Ty)
  | literal (value : Literal)
  | copy
  | cast (ty : Ty)
  | binary (op : BinOp)
  | loadField (hasBase : Bool) (field : FieldId)
  | storeField (hasBase : Bool) (field : FieldId)
  | loadArray
  | storeArray
  | call (hasResult : Bool) (kind : CallKind) (target : MethodRef) (hasReceiver : Bool)
  | branch (op : BinOp) (target : Nat)
  | goto (target : Nat)
  | switch (cases : List (Int32 × Nat)) (default : Nat)
  | ret (hasValue : Bool)

/-- The form of a statement. -/
def form : Stmt → Form
  | nop => .nop
  | new _ ty => .new ty
  | literal _ value => .literal value
  | copy _ _ => .copy
  | cast _ ty _ => .cast ty
  | binary _ exp => .binary exp.op
  | loadField _ base field => .loadField base.isSome field
  | storeField base field _ => .storeField base.isSome field
  | loadArray _ _ _ => .loadArray
  | storeArray _ _ _ => .storeArray
  | call invoke => .call invoke.result.isSome invoke.kind invoke.target invoke.receiver.isSome
  | branch cond target => .branch cond.op target
  | goto target => .goto target
  | switch _ cases default => .switch cases default
  | ret value => .ret value.isSome

variable {stmt renamed first second : Stmt} {onDef onUse : VarId → VarId}

theorem form_rename : (stmt.rename onDef onUse).form = stmt.form := by
  cases stmt with
  | loadField target base field => simp [rename, form]
  | storeField base field source => simp [rename, form]
  | call invoke => simp [rename, form]
  | ret value => simp [rename, form]
  | _ => rfl

/-- The form of a statement, what it defines and what it reads are all there is to it. -/
theorem eq_of_form_eq (sameForm : first.form = second.form) (sameDef : first.def? = second.def?)
    (sameUses : first.uses = second.uses) : first = second := by
  -- Statements of different kinds differ in form.
  cases first <;> cases second <;> simp only [form, reduceCtorEq] at sameForm
  case binary.binary target exp otherTarget otherExp =>
    obtain ⟨op, left, right⟩ := exp
    obtain ⟨otherOp, otherLeft, otherRight⟩ := otherExp
    simp_all [def?, uses]
  case loadField.loadField target base field otherTarget otherBase otherField =>
    cases base <;> cases otherBase <;> simp_all [def?, uses]
  case storeField.storeField base field source otherBase otherField otherSource =>
    cases base <;> cases otherBase <;> simp_all [uses]
  case call.call invoke otherInvoke =>
    obtain ⟨result, kind, target, receiver, args⟩ := invoke
    obtain ⟨otherResult, otherKind, otherTarget, otherReceiver, otherArgs⟩ := otherInvoke
    -- Whether there is a receiver tells where the arguments begin.
    cases receiver <;> cases otherReceiver <;> simp_all [def?, uses]
  case branch.branch cond target otherCond otherTarget =>
    obtain ⟨op, left, right⟩ := cond
    obtain ⟨otherOp, otherLeft, otherRight⟩ := otherCond
    simp_all [uses]
  case ret.ret value otherValue =>
    cases value <;> cases otherValue <;> simp_all [uses]
  all_goals simp_all [def?, uses]

/-- A statement has the form of another one, and its variables are the images of those of the
other one, in the same order. -/
structure IsRenamed (onDef onUse : VarId → VarId) (stmt renamed : Stmt) : Prop where
  form : renamed.form = stmt.form
  def? : renamed.def? = stmt.def?.map onDef
  uses : renamed.uses = stmt.uses.map onUse

/-- Renaming its variables gives the only statement of the form of a statement that has the
images of its variables. -/
theorem isRenamed_iff : stmt.IsRenamed onDef onUse renamed ↔ renamed = stmt.rename onDef onUse := by
  constructor
  · intro isRenamed
    refine eq_of_form_eq ?_ ?_ ?_
    · rw [isRenamed.form, form_rename]
    · rw [isRenamed.def?, def?_rename]
    · rw [isRenamed.uses, uses_rename]
  · rintro rfl
    exact ⟨form_rename, def?_rename, uses_rename⟩

theorem IsRenamed.refl (stmt : Stmt) : stmt.IsRenamed id id stmt :=
  ⟨rfl, Option.map_id_apply.symm, (List.map_id _).symm⟩

theorem IsRenamed.trans {thenDef thenUse : VarId → VarId} {middle : Stmt}
    (toMiddle : stmt.IsRenamed onDef onUse middle)
    (toRenamed : middle.IsRenamed thenDef thenUse renamed) :
    stmt.IsRenamed (thenDef ∘ onDef) (thenUse ∘ onUse) renamed where
  form := toRenamed.form.trans toMiddle.form
  def? := by rw [toRenamed.def?, toMiddle.def?, Option.map_map]
  uses := by rw [toRenamed.uses, toMiddle.uses, List.map_map]

/-- What a way of renaming the variables of statements has to do: map what is defined and what
is read, each by its own map, and change nothing else. -/
structure IsRenaming (rename : (VarId → VarId) → (VarId → VarId) → Stmt → Stmt) : Prop where
  renamed_iff : ∀ onDef onUse stmt renamed,
    stmt.IsRenamed onDef onUse renamed ↔ renamed = rename onDef onUse stmt
  successors : ∀ onDef onUse stmt index size,
    (rename onDef onUse stmt).successors index size = stmt.successors index size
  id : ∀ stmt, rename id id stmt = stmt
  comp : ∀ onDef onUse thenDef thenUse stmt,
    rename thenDef thenUse (rename onDef onUse stmt) =
      rename (thenDef ∘ onDef) (thenUse ∘ onUse) stmt

/-- Statements are renamed as they have to be, and there is no other way to do it. -/
theorem isRenaming_rename :
    IsRenaming (fun onDef onUse stmt => stmt.rename onDef onUse) ∧
      ∀ rename, IsRenaming rename ↔ rename = fun onDef onUse stmt => stmt.rename onDef onUse := by
  have isRenaming : IsRenaming (fun onDef onUse stmt => stmt.rename onDef onUse) := {
    renamed_iff _ _ _ _ := isRenamed_iff
    successors _ _ _ _ _ := successors_rename
    id stmt := (isRenamed_iff.mp (.refl stmt)).symm
    comp _ _ _ _ _ := isRenamed_iff.mp ((isRenamed_iff.mpr rfl).trans (isRenamed_iff.mpr rfl)) }
  refine ⟨isRenaming, fun rename => ⟨fun isOther => ?_, fun isSame => isSame ▸ isRenaming⟩⟩
  funext onDef onUse stmt
  exact isRenamed_iff.mp ((isOther.renamed_iff onDef onUse stmt _).mpr rfl)

/-- A call whose receiver, argument and result are one variable defines another one than it
reads. -/
example (target : MethodRef) :
    (call ⟨some 0, .virtual, target, some 0, [0]⟩).rename (· + 1) (· + 2) =
      call ⟨some 1, .virtual, target, some 2, [2]⟩ :=
  rfl

end Stmt

end TacAnalysis
