/-
# Traces of method bodies

What a method body does step after step, whatever its statements mean. A statement is
executed in a situation, which says all about it except how its variables are named:
what it does with them, their types, what those that it reads hold, and the world around
them. What may come of a situation is left open, so that nothing here depends on how
numbers, objects or calls behave.

Code has the same traces as other code when each of its statements reads, under another
name, what the same statement has given.
-/

import Mathlib.Logic.Function.Basic
import TacAnalysis.Proofs.Resolution.Ownership

namespace TacAnalysis

namespace Stmt

variable {stmt : Stmt} {onDef onUse : VarId → VarId}

/-- A statement regardless of its variables. -/
def shape (stmt : Stmt) : Stmt := stmt.rename (fun _ => 0) (fun _ => 0)

theorem shape_rename : (stmt.rename onDef onUse).shape = stmt.shape := by
  cases stmt with
  | loadField target base field => cases base <;> rfl
  | storeField base field source => cases base <;> rfl
  | call invoke =>
      obtain ⟨result, kind, target, receiver, args⟩ := invoke
      cases result <;> cases receiver <;> simp [shape, rename, Function.comp_def]
  | ret value => cases value <;> rfl
  | _ => rfl

theorem successors_rename {index size : Nat} :
    (stmt.rename onDef onUse).successors index size = stmt.successors index size := by
  cases stmt <;> rfl

end Stmt

namespace Trace

/-- What a statement finds when it is executed. -/
structure Situation (Value World : Type) where
  shape : Stmt
  target : Option Ty
  operands : List (Ty × Option Value)
  world : World

/-- What a statement does: what it gives to the variable that it defines, if any, the
world that it leaves and the position that it goes to. -/
structure Outcome (Value World : Type) where
  given : Option Value
  world : World
  next : Nat

/-- What may come of a situation. -/
abbrev Meaning (Value World : Type) := Situation Value World → Outcome Value World → Prop

/-- A statement that has been executed. -/
structure Event (Value World : Type) where
  index : Nat
  situation : Situation Value World
  outcome : Outcome Value World

/-- A body being executed: the position of the next statement, the variables and the
world. -/
structure State (Value World : Type) where
  index : Nat
  vars : VarId → Option Value
  world : World

end Trace

open Trace

variable {Value World : Type}

namespace Code

variable (code : Code) (tyOf : VarId → Ty)

/-- What the next statement finds. -/
def situation (state : State Value World) : Situation Value World where
  shape := (code.stmt state.index).shape
  target := (code.stmt state.index).def?.map tyOf
  operands := (code.stmt state.index).uses.map fun var => (tyOf var, state.vars var)
  world := state.world

/-- What the next statement makes of a state. -/
def execute (state : State Value World) (outcome : Outcome Value World) : State Value World where
  index := outcome.next
  vars := match (code.stmt state.index).def? with
    | none => state.vars
    | some var => Function.update state.vars var outcome.given
  world := outcome.world

/-- An execution from the first statement up to a state, the last event first. -/
inductive Run (meaning : Meaning Value World) (vars : VarId → Option Value) (world : World) :
    List (Event Value World) → State Value World → Prop where
  | start : Run meaning vars world [] ⟨0, vars, world⟩
  | step {past : List (Event Value World)} {state : State Value World}
      {outcome : Outcome Value World} :
      Run meaning vars world past state → meaning (code.situation tyOf state) outcome →
      outcome.next ∈ code.successors state.index →
      Run meaning vars world (⟨state.index, code.situation tyOf state, outcome⟩ :: past)
        (code.execute state outcome)

/-- Some events may lead to a situation. -/
def Reaches (meaning : Meaning Value World) (vars : VarId → Option Value) (world : World)
    (past : List (Event Value World)) (situation : Situation Value World) : Prop :=
  ∃ state, code.Run tyOf meaning vars world past state ∧ code.situation tyOf state = situation

end Code

section Contents

variable {code : Code} {tyOf : VarId → Ty} {meaning : Meaning Value World}
  {vars : VarId → Option Value} {world : World} {past : List (Event Value World)}
  {state : State Value World} {outcome : Outcome Value World} {var : VarId}

theorem Code.vars_execute_of_def (isDef : (code.stmt state.index).def? = some var) :
    (code.execute state outcome).vars var = outcome.given := by
  simp only [execute, isDef, Function.update_self]

theorem Code.vars_execute_of_ne (isOther : (code.stmt state.index).def? ≠ some var) :
    (code.execute state outcome).vars var = state.vars var := by
  unfold execute
  cases isDef : (code.stmt state.index).def? with
  | none => rfl
  | some other =>
      apply Function.update_of_ne
      rintro rfl
      exact isOther isDef

/-- Events happen along a path. -/
theorem Code.Run.path (isRun : code.Run tyOf meaning vars world past state) :
    code.Path (past.map Event.index) state.index := by
  induction isRun with
  | start => exact .start
  | step _ _ isNext ih => exact .step ih isNext

/-- A variable holds what its last definition has given. -/
theorem Code.Run.vars_of_last (isRun : code.Run tyOf meaning vars world past state)
    {later earlier : List (Event Value World)} {event : Event Value World}
    (isSplit : past = later ++ event :: earlier)
    (isDef : (code.stmt event.index).def? = some var)
    (areOthers : ∀ other ∈ later, (code.stmt other.index).def? ≠ some var) :
    state.vars var = event.outcome.given := by
  induction isRun generalizing later with
  | start => cases later <;> cases isSplit
  | step _ _ _ ih =>
      cases later with
      | nil =>
          cases isSplit
          exact vars_execute_of_def isDef
      | cons last later =>
          rw [List.forall_mem_cons] at areOthers
          cases isSplit
          rw [vars_execute_of_ne areOthers.1]
          exact ih rfl areOthers.2

/-- A variable that has not been defined holds what it held at the start. -/
theorem Code.Run.vars_of_undefined (isRun : code.Run tyOf meaning vars world past state)
    (areOthers : ∀ other ∈ past, (code.stmt other.index).def? ≠ some var) :
    state.vars var = vars var := by
  induction isRun with
  | start => rfl
  | step _ _ _ ih =>
      rw [List.forall_mem_cons] at areOthers
      rw [vars_execute_of_ne areOthers.1]
      exact ih areOthers.2

end Contents

/-- After the statements of a path, what other code reads under one name comes from
where a variable does. -/
structure Code.SameSource (code other : Code) (past : List Nat) (var read : VarId) : Prop where
  /-- The last definition of the variable is the last definition of the name. -/
  last : ∀ later source earlier, past = later ++ source :: earlier →
    (code.stmt source).def? = some var →
    (∀ index ∈ later, (code.stmt index).def? ≠ some var) →
    (other.stmt source).def? = some read ∧ ∀ index ∈ later, (other.stmt index).def? ≠ some read
  /-- Without a definition of the variable there is none of the name. -/
  undefined : (∀ index ∈ past, (code.stmt index).def? ≠ some var) →
    ∀ index ∈ past, (other.stmt index).def? ≠ some read
  /-- What the variable holds on entry is read under the same name. -/
  entryVar : (∀ index ∈ past, (code.stmt index).def? ≠ some var) →
    var ∈ code.entryVars → read = var
  /-- What holds nothing on entry is not read under the name of what does. -/
  unassigned : var ∉ code.entryVars → read ∉ code.entryVars

/-- A statement of other code is the one of this code with its variables named otherwise;
their types are the same, and what is read comes from the same definitions whatever
path control takes. -/
structure Code.Renames (code other : Code) (tyOf otherTyOf : VarId → Ty) (index : Nat)
    (onDef onUse : VarId → VarId) : Prop where
  stmt : other.stmt index = (code.stmt index).rename onDef onUse
  defTy : ∀ var, (code.stmt index).def? = some var → otherTyOf (onDef var) = tyOf var
  useTy : ∀ var ∈ (code.stmt index).uses, otherTyOf (onUse var) = tyOf var
  source : ∀ past, code.Path past index → ∀ var ∈ (code.stmt index).uses,
    code.SameSource other past var (onUse var)

/-- Other code consists of the same statements with their variables named otherwise. -/
structure Code.KeepsSources (code other : Code) (tyOf otherTyOf : VarId → Ty) : Prop where
  entryVars : other.entryVars = code.entryVars
  size : other.body.size = code.body.size
  renames : ∀ index, ∃ onDef onUse, code.Renames other tyOf otherTyOf index onDef onUse

section Keeping

variable {code other : Code} {tyOf otherTyOf : VarId → Ty} {meaning : Meaning Value World}
  {vars : VarId → Option Value} {world : World} {past : List (Event Value World)}
  {state otherState : State Value World} {var read : VarId}

theorem Code.KeepsSources.successors (keeps : code.KeepsSources other tyOf otherTyOf)
    (index : Nat) : other.successors index = code.successors index := by
  obtain ⟨onDef, onUse, renames⟩ := keeps.renames index
  rw [Code.successors, renames.stmt, Stmt.successors_rename, keeps.size]
  rfl

/-- After the same events, names with the same source hold the same. -/
theorem Code.SameSource.vars_eq
    (sameSource : code.SameSource other (past.map Event.index) var read)
    (noneElse : ∀ var, var ∉ code.entryVars → vars var = none)
    (isRun : code.Run tyOf meaning vars world past state)
    (isOtherRun : other.Run otherTyOf meaning vars world past otherState) :
    otherState.vars read = state.vars var := by
  cases isLast : past.find? fun event => (code.stmt event.index).def? == some var with
  | none =>
      have areOthers : ∀ event ∈ past, (code.stmt event.index).def? ≠ some var := by
        simpa using isLast
      have noDef : ∀ index ∈ past.map Event.index, (code.stmt index).def? ≠ some var :=
        List.forall_mem_map.mpr areOthers
      have noOtherDef : ∀ event ∈ past, (other.stmt event.index).def? ≠ some read := by
        simpa using sameSource.undefined noDef
      rw [isRun.vars_of_undefined areOthers, isOtherRun.vars_of_undefined noOtherDef]
      by_cases isEntryVar : var ∈ code.entryVars
      · rw [sameSource.entryVar noDef isEntryVar]
      · rw [noneElse var isEntryVar, noneElse read (sameSource.unassigned isEntryVar)]
  | some event =>
      obtain ⟨isDef, later, earlier, isSplit, areOthers⟩ :=
        List.find?_eq_some_iff_append.mp isLast
      have definesLast : (code.stmt event.index).def? = some var := eq_of_beq isDef
      have areOthers : ∀ event ∈ later, (code.stmt event.index).def? ≠ some var := by
        simpa using areOthers
      have isSplitToo : past.map Event.index =
          later.map Event.index ++ event.index :: earlier.map Event.index := by
        rw [isSplit, List.map_append, List.map_cons]
      obtain ⟨isOtherDef, areOthersToo⟩ := sameSource.last _ _ _ isSplitToo definesLast
        (List.forall_mem_map.mpr areOthers)
      have areOthersToo : ∀ event ∈ later, (other.stmt event.index).def? ≠ some read := by
        simpa using areOthersToo
      rw [isRun.vars_of_last isSplit definesLast areOthers,
        isOtherRun.vars_of_last isSplit isOtherDef areOthersToo]

/-- The same events lead to the same situation. -/
theorem Code.KeepsSources.situation_eq (keeps : code.KeepsSources other tyOf otherTyOf)
    (noneElse : ∀ var, var ∉ code.entryVars → vars var = none)
    (isRun : code.Run tyOf meaning vars world past state)
    (isOtherRun : other.Run otherTyOf meaning vars world past otherState)
    (sameIndex : otherState.index = state.index) (sameWorld : otherState.world = state.world) :
    other.situation otherTyOf otherState = code.situation tyOf state := by
  obtain ⟨onDef, onUse, renames⟩ := keeps.renames state.index
  unfold situation
  rw [sameIndex, renames.stmt, Stmt.shape_rename, Stmt.def?_rename, Stmt.uses_rename, sameWorld,
    Option.map_map, List.map_map]
  congr 1
  case e_target => exact Option.map_congr renames.defTy
  case e_operands =>
      apply List.map_congr_left
      intro var isRead
      rw [Function.comp_apply, renames.useTy var isRead]
      have sameSource := renames.source _ isRun.path var isRead
      rw [sameSource.vars_eq noneElse isRun isOtherRun]

/-- Code whose situations are the same after the same events, and that leads to the same
positions, does the same. -/
theorem Code.Run.transfer (sameNext : ∀ index, other.successors index = code.successors index)
    (sameSituation : ∀ {past state otherState}, code.Run tyOf meaning vars world past state →
      other.Run otherTyOf meaning vars world past otherState →
      otherState.index = state.index → otherState.world = state.world →
      other.situation otherTyOf otherState = code.situation tyOf state)
    (isRun : code.Run tyOf meaning vars world past state) :
    ∃ otherState, other.Run otherTyOf meaning vars world past otherState ∧
      otherState.index = state.index ∧ otherState.world = state.world := by
  induction isRun with
  | start => exact ⟨_, .start, rfl, rfl⟩
  | @step past state outcome isRun means isNext ih =>
      obtain ⟨otherState, isOtherRun, sameIndex, sameWorld⟩ := ih
      have isSame := sameSituation isRun isOtherRun sameIndex sameWorld
      have otherMeans : meaning (other.situation otherTyOf otherState) outcome := isSame ▸ means
      have isOtherNext : outcome.next ∈ other.successors otherState.index := by
        rw [sameNext, sameIndex]
        exact isNext
      have isStep := Code.Run.step isOtherRun otherMeans isOtherNext
      rw [isSame, sameIndex] at isStep
      exact ⟨_, isStep, rfl, rfl⟩

/-- Naming variables otherwise changes neither the traces nor what statements find after
them. -/
theorem Code.KeepsSources.reaches_iff (keeps : code.KeepsSources other tyOf otherTyOf)
    (noneElse : ∀ var, var ∉ code.entryVars → vars var = none)
    {situation : Situation Value World} :
    other.Reaches otherTyOf meaning vars world past situation ↔
      code.Reaches tyOf meaning vars world past situation := by
  constructor
  · rintro ⟨otherState, isOtherRun, isSituation⟩
    obtain ⟨state, isRun, sameIndex, sameWorld⟩ := isOtherRun.transfer
      (fun index => (keeps.successors index).symm)
      (fun isOtherRun isRun sameIndex sameWorld =>
        (keeps.situation_eq noneElse isRun isOtherRun sameIndex.symm sameWorld.symm).symm)
    refine ⟨state, isRun, ?_⟩
    rw [← keeps.situation_eq noneElse isRun isOtherRun sameIndex.symm sameWorld.symm]
    exact isSituation
  · rintro ⟨state, isRun, isSituation⟩
    obtain ⟨otherState, isOtherRun, sameIndex, sameWorld⟩ := isRun.transfer keeps.successors
      (keeps.situation_eq noneElse)
    refine ⟨otherState, isOtherRun, ?_⟩
    rw [keeps.situation_eq noneElse isRun isOtherRun sameIndex sameWorld]
    exact isSituation

end Keeping

end TacAnalysis
