/-
# Accesses through variables

The statements that access what a variable holds, and the calls on it, are listed under
the variable, so that they are at hand when an object reaches it. The variables that a
method returns are listed with the method. Both lists are made by going through the
statements of a method, once these are final.
-/

import TacAnalysis.Ascending
import TacAnalysis.Stmt
import TacAnalysis.Table

namespace TacAnalysis

/-- The ways in which a statement goes through a variable. -/
inductive AccessKind where
  | fieldStore
  | fieldLoad
  | arrayStore
  | arrayLoad
  | call
  deriving DecidableEq, Inhabited

/-- A way of going through a variable. -/
structure Access where
  kind : AccessKind
  base : VarId
  deriving DecidableEq, Inhabited

/-- The access that a statement is: to a field or an element of what a variable holds, or
a call on it. -/
def Stmt.access? : Stmt → Option Access
  | storeField base _ _ => base.map (⟨.fieldStore, ·⟩)
  | loadField _ base _ => base.map (⟨.fieldLoad, ·⟩)
  | storeArray base _ _ => some ⟨.arrayStore, base⟩
  | loadArray _ base _ => some ⟨.arrayLoad, base⟩
  | call invoke => invoke.receiver.map (⟨.call, ·⟩)
  | _ => none

/-- The variable that a statement returns. -/
def Stmt.returned? : Stmt → Option VarId
  | ret value => value
  | _ => none

/-- The points of a method where a statement is a given access. -/
def accessSites (method : MethodId) (body : Array Stmt) (access : Access) : List Site :=
  (body.toList.zipIdx.filter fun entry => entry.1.access? == some access).map fun entry =>
    ⟨method, entry.2⟩

theorem mem_accessSites {method : MethodId} {body : Array Stmt} {access : Access} {site : Site} :
    site ∈ accessSites method body access ↔
      site.method = method ∧ (body.getD site.index .nop).access? = some access := by
  simp only [accessSites, List.mem_map, List.mem_filter, List.mem_zipIdx_iff_getElem?,
    Array.getElem?_toList, beq_iff_eq]
  constructor
  · rintro ⟨entry, ⟨isStmt, isAccess⟩, rfl⟩
    refine ⟨rfl, ?_⟩
    rw [Array.getD_eq_getD_getElem?, isStmt]
    exact isAccess
  · rintro ⟨rfl, isAccess⟩
    refine ⟨(body.getD site.index .nop, site.index), ⟨?_, isAccess⟩, rfl⟩
    rw [Array.getD_eq_getD_getElem?] at isAccess ⊢
    cases isStmt : body[site.index]? with
    | some stmt => rfl
    | none =>
        rw [isStmt] at isAccess
        cases isAccess

/-- The variables that statements return, in order of first appearance. -/
def returnedVars (body : Array Stmt) : List VarId :=
  (body.toList.filterMap Stmt.returned?).eraseDups

theorem mem_returnedVars {body : Array Stmt} {var : VarId} :
    var ∈ returnedVars body ↔ .ret (some var) ∈ body := by
  rw [returnedVars, List.mem_eraseDups, List.mem_filterMap]
  constructor
  · rintro ⟨stmt, isStmt, isReturned⟩
    cases stmt with
    | ret value =>
        cases isReturned
        exact Array.mem_toList_iff.mp isStmt
    | _ => cases isReturned
  · exact fun isStmt => ⟨_, Array.mem_toList_iff.mpr isStmt, rfl⟩

/-- A list is that of the variables which the statements of a body return. -/
def ListsReturned (body : Array Stmt) (returned : List VarId) : Prop := returned = returnedVars body

theorem listsReturned_returnedVars (body : Array Stmt) : ListsReturned body (returnedVars body) :=
  rfl

/-- What has been listed so far: the points of each access, and the variables that the
method at hand returns. -/
structure Register where
  accesses : Table Access (List Site)
  returned : List VarId

namespace Register

/-- Lists a statement. -/
def add (register : Register) (site : Site) (stmt : Stmt) : Register :=
  match stmt.access? with
  | some access =>
      { register with
        accesses := register.accesses.set access (register.accesses.get access ++ [site]) }
  | none =>
      match stmt.returned? with
      | some var =>
          if register.returned.contains var then register
          else { register with returned := register.returned ++ [var] }
      | none => register

/-- Lists the statements of a method in their order. -/
def addBody (register : Register) (method : MethodId) (body : Array Stmt) : Register :=
  body.toList.zipIdx.foldl (fun register entry => register.add ⟨method, entry.2⟩ entry.1) register

variable {register : Register} {site : Site} {stmt : Stmt} {method : MethodId} {access : Access}

theorem get_accesses_add : (register.add site stmt).accesses.get access =
    register.accesses.get access ++ if stmt.access? == some access then [site] else [] := by
  unfold add
  split
  case h_1 found isFound =>
      rw [isFound, Table.get_set]
      by_cases isSame : access = found
      · rw [isSame, beq_self_eq_true, beq_self_eq_true, if_pos rfl, if_pos rfl]
      · have isOther : (some found == some access) = false := by simpa using Ne.symm isSame
        rw [beq_false_of_ne isSame, isOther, if_neg Bool.false_ne_true,
          if_neg Bool.false_ne_true, List.append_nil]
  case h_2 isNone =>
      rw [isNone]
      show _ = _ ++ []
      rw [List.append_nil]
      split
      · split <;> rfl
      · rfl

/-- Every statement of a method is listed as the access that it is. -/
theorem get_accesses_addBody (register : Register) (method : MethodId) (body : Array Stmt)
    (access : Access) : (register.addBody method body).accesses.get access =
      register.accesses.get access ++ accessSites method body access := by
  unfold addBody accessSites
  induction body.toList.zipIdx generalizing register with
  | nil => exact (List.append_nil _).symm
  | cons entry entries ih =>
      rw [List.foldl_cons, ih, get_accesses_add, List.append_assoc, List.filter_cons]
      split <;> rfl

/-- What a statement returns is listed, unless it is listed already. -/
theorem returned_add {before : List VarId} (areListed : register.returned = before.eraseDups) :
    (register.add site stmt).returned = (before ++ stmt.returned?.toList).eraseDups := by
  unfold add
  split
  case h_1 access isAccess =>
      have noValue : stmt.returned? = none := by
        cases stmt with
        | ret value => cases isAccess
        | _ => rfl
      rw [noValue, Option.toList_none, List.append_nil, areListed]
  case h_2 =>
      cases stmt.returned? with
      | none => rw [Option.toList_none, List.append_nil, areListed]
      | some var =>
          simp only [Option.toList_some, eraseDups_append_singleton, areListed, contains_eraseDups]
          split <;> simp only [areListed]

/-- The variables that a method returns are listed once each. -/
theorem listsReturned_addBody (accesses : Table Access (List Site)) (method : MethodId)
    (body : Array Stmt) : ListsReturned body (addBody ⟨accesses, []⟩ method body).returned := by
  have listed (entries : List (Stmt × Nat)) (before : List VarId) (register : Register)
      (areListed : register.returned = before.eraseDups) :
      (entries.foldl (fun register entry => register.add ⟨method, entry.2⟩ entry.1)
        register).returned =
          (before ++ (entries.map Prod.fst).filterMap Stmt.returned?).eraseDups := by
    induction entries generalizing before register with
    | nil => simpa using areListed
    | cons entry entries ih =>
        rw [List.foldl_cons, ih _ _ (returned_add areListed), List.map_cons, List.append_assoc]
        cases isReturned : entry.1.returned? <;> simp [isReturned]
  rw [ListsReturned, addBody, listed _ [] _ rfl, List.zipIdx_map_fst, List.nil_append,
    returnedVars]

end Register

end TacAnalysis
