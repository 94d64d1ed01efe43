/-
# The order of set facts

Every operation on set facts is described by its elements. Sets kept in ascending order
are the same when they have the same elements, and those that contain only some given
variables form a finite join-semilattice, whose join is the union.
-/

import Mathlib.Data.Set.Finite.Powerset
import Mathlib.Data.Set.Finite.List
import TacAnalysis.Dataflow.SetFact
import TacAnalysis.Proofs.Dataflow.LeastSolution
import TacAnalysis.Stmt

namespace TacAnalysis.SetFact

/-- A set of given variables, in ascending order. -/
structure Within (vars : List VarId) (fact : SetFact VarId) : Prop where
  ascending : fact.elements.Pairwise (· < ·)
  mem : ∀ var ∈ fact, var ∈ vars

section Order

variable {vars : List VarId} {fact other : SetFact VarId} {var : VarId}

/-- A set is below another one when that has all its elements. -/
instance : Preorder (SetFact VarId) where
  le fact other := ∀ var ∈ fact, var ∈ other
  le_refl _ _ isIn := isIn
  le_trans _ _ _ isBelow isAbove var isIn := isAbove var (isBelow var isIn)

theorem le_iff : fact ≤ other ↔ ∀ var ∈ fact, var ∈ other := Iff.rfl

theorem ascending_insertElement {elements : List VarId} (ascending : elements.Pairwise (· < ·)) :
    (insertElement var elements).Pairwise (· < ·) :=
  (pairwise_insertElement (ascending.imp Nat.compare_eq_lt.mpr)).imp Nat.compare_eq_lt.mp

theorem within_empty : Within vars empty :=
  ⟨List.Pairwise.nil, fun _ isIn => absurd isIn not_mem_empty⟩

theorem Within.insert (isWithin : Within vars fact) (isIn : var ∈ vars) :
    Within vars (fact.insert var) where
  ascending := ascending_insertElement isWithin.ascending
  mem other isOther := by
    rcases mem_insert.mp isOther with rfl | isOld
    · exact isIn
    · exact isWithin.mem other isOld

theorem Within.erase (isWithin : Within vars fact) (var : VarId) :
    Within vars (fact.erase var) where
  ascending := isWithin.ascending.filter _
  mem other isOther := isWithin.mem other (mem_erase.mp isOther).1

theorem Within.foldl_insert (isWithin : Within vars fact) {elements : List VarId}
    (areIn : ∀ var ∈ elements, var ∈ vars) :
    Within vars (elements.foldl SetFact.insert fact) :=
  List.foldlRecOn (motive := Within vars) _ _ isWithin fun _ isWithin var isElement =>
    isWithin.insert (areIn var isElement)

/-- Sets in ascending order that have the same elements are the same. -/
theorem Within.ext (isWithin : Within vars fact) (otherIs : Within vars other)
    (agree : ∀ var, var ∈ fact ↔ var ∈ other) : fact = other := by
  have sameElements : fact.elements = other.elements :=
    List.Pairwise.eq_of_mem_iff isWithin.ascending otherIs.ascending fun {var} => agree var
  cases fact
  cases other
  exact congrArg SetFact.mk sameElements

/-- There are finitely many sets of given variables. -/
instance (vars : List VarId) : Finite { fact // Within vars fact } := by
  have isFinite : { elements : Set VarId | elements ⊆ { var | var ∈ vars } }.Finite :=
    (List.finite_toSet vars).finite_subsets
  have isInside (fact : { fact // Within vars fact }) :
      { var | var ∈ fact.1 } ∈ { elements : Set VarId | elements ⊆ { var | var ∈ vars } } :=
    fact.2.mem
  have := isFinite.to_subtype
  apply Finite.of_injective fun fact => (⟨{ var | var ∈ fact.1 }, isInside fact⟩ :
    { elements // elements ∈ { elements : Set VarId | elements ⊆ { var | var ∈ vars } } })
  intro first second isSame
  exact Subtype.ext (first.2.ext second.2 (Set.ext_iff.mp (Subtype.mk.inj isSame)))

/-- The sets of given variables form a join-semilattice. -/
theorem isSemilattice (vars : List VarId) :
    IsSemilattice (Within vars) empty fun fact target => target.union fact where
  antisymm _ _ isWithin otherIs isBelow isAbove :=
    isWithin.ext otherIs fun var => ⟨le_iff.mp isBelow var, le_iff.mp isAbove var⟩
  bottom_le _ _ := fun _ isIn => absurd isIn not_mem_empty
  join_le_iff first second fact _ _ _ := by
    simp only [le_iff, mem_union, or_imp, forall_and]
  rising := Finite.to_wellFoundedGT

end Order

end TacAnalysis.SetFact
