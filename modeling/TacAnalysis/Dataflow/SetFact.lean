/-
# Set facts

Finite sets kept as ascending lists, so that two facts with the same elements
are the same fact.
-/

namespace TacAnalysis

/-- A finite set, its elements in ascending order. -/
structure SetFact (α : Type) where
  elements : List α
  deriving DecidableEq, Inhabited

namespace SetFact

variable {α : Type} [Ord α]

/-- The set without elements. -/
def empty : SetFact α := ⟨[]⟩

/-- Inserts an element into an ascending list. -/
def insertElement (element : α) : List α → List α
  | [] => [element]
  | first :: others =>
      match compare element first with
      | .lt => element :: first :: others
      | .eq => first :: others
      | .gt => first :: insertElement element others

variable (fact : SetFact α)

/-- Whether an element is in the set. -/
def contains (element : α) : Bool :=
  fact.elements.any fun other => (compare element other).isEq

/-- The set with an element more. -/
def insert (element : α) : SetFact α := ⟨insertElement element fact.elements⟩

/-- The set without an element. -/
def erase (element : α) : SetFact α :=
  ⟨fact.elements.filter fun other => !(compare element other).isEq⟩

/-- The elements of both sets. -/
def union (other : SetFact α) : SetFact α := other.elements.foldl insert fact

/-- The set of the elements of a list. -/
def ofList (elements : List α) : SetFact α := elements.foldl insert empty

/-- Adds an element, and says whether it was missing. -/
def add (element : α) : Bool × SetFact α := (!fact.contains element, fact.insert element)

/-- Removes an element, and says whether it was there. -/
def remove (element : α) : Bool × SetFact α := (fact.contains element, fact.erase element)

/-- Adds the elements of another set, and says whether some were missing. -/
def addAll (other : SetFact α) : Bool × SetFact α :=
  let all := fact.union other
  (all.elements.length ≠ fact.elements.length, all)

/-- Takes over another set, and says whether that is a change. -/
def copyFrom [DecidableEq α] (source : SetFact α) : Bool × SetFact α :=
  (fact ≠ source, source)

section Elements

variable {α : Type} {fact : SetFact α} {element other : α}

instance : Membership α (SetFact α) := ⟨fun fact element => element ∈ fact.elements⟩

theorem mem_def : element ∈ fact ↔ element ∈ fact.elements := Iff.rfl

theorem not_mem_empty : element ∉ (empty : SetFact α) := List.not_mem_nil

variable [Ord α] [Std.LawfulEqOrd α]

theorem contains_iff_mem : fact.contains element = true ↔ element ∈ fact := by
  simp [contains, mem_def, Ordering.isEq_iff_eq_eq]

theorem mem_insertElement {elements : List α} :
    other ∈ insertElement element elements ↔ other = element ∨ other ∈ elements := by
  induction elements with
  | nil => simp [insertElement]
  | cons first elements ih =>
      rw [insertElement]
      split
      case h_1 => exact List.mem_cons
      case h_2 isSame =>
          have isFirst : element = first := Std.LawfulEqOrd.eq_of_compare isSame
          simp [isFirst]
      case h_3 =>
          rw [List.mem_cons, List.mem_cons, ih]
          exact or_left_comm

theorem mem_insert : other ∈ fact.insert element ↔ other = element ∨ other ∈ fact :=
  mem_insertElement

theorem mem_erase : other ∈ fact.erase element ↔ other ∈ fact ∧ other ≠ element := by
  have isKept (kept : α) : (!(compare element kept).isEq) = true ↔ kept ≠ element := by
    rw [Bool.not_eq_true', ← Bool.not_eq_true, Ordering.isEq_iff_eq_eq,
      Std.LawfulEqOrd.compare_eq_iff_eq, eq_comm]
  rw [mem_def, erase, List.mem_filter, isKept, mem_def]

theorem mem_foldl_insert {elements : List α} :
    other ∈ elements.foldl insert fact ↔ other ∈ elements ∨ other ∈ fact := by
  induction elements generalizing fact with
  | nil => simp
  | cons first elements ih =>
      rw [List.foldl_cons, ih, mem_insert, List.mem_cons]
      exact or_left_comm.trans (or_assoc.symm)

theorem mem_union {second : SetFact α} :
    other ∈ fact.union second ↔ other ∈ second ∨ other ∈ fact :=
  mem_foldl_insert

theorem mem_ofList {elements : List α} : element ∈ ofList elements ↔ element ∈ elements :=
  mem_foldl_insert.trans (or_iff_left not_mem_empty)

theorem pairwise_insertElement [Std.TransOrd α] {elements : List α}
    (areOrdered : elements.Pairwise (compare · · = .lt)) :
    (insertElement element elements).Pairwise (compare · · = .lt) := by
  induction elements with
  | nil => exact List.pairwise_singleton _ _
  | cons first elements ih =>
      obtain ⟨isLeast, areOthersOrdered⟩ := List.pairwise_cons.mp areOrdered
      rw [insertElement]
      split
      case h_1 isBefore =>
          refine List.pairwise_cons.mpr ⟨fun other isIn => ?_, areOrdered⟩
          rcases List.mem_cons.mp isIn with rfl | isLater
          · exact isBefore
          · exact Std.TransCmp.lt_trans isBefore (isLeast other isLater)
      case h_2 => exact areOrdered
      case h_3 isAfter =>
          refine List.pairwise_cons.mpr ⟨fun other isIn => ?_, ih areOthersOrdered⟩
          rcases mem_insertElement.mp isIn with rfl | isOld
          · exact Std.OrientedCmp.lt_of_gt isAfter
          · exact isLeast other isOld

/-- The elements of a set come in ascending order. -/
theorem pairwise_ofList [Std.TransOrd α] (elements : List α) :
    (ofList elements).elements.Pairwise (compare · · = .lt) :=
  List.foldlRecOn (motive := fun fact : SetFact α => fact.elements.Pairwise (compare · · = .lt))
    elements insert List.Pairwise.nil fun _ areOrdered _ _ => pairwise_insertElement areOrdered

end Elements

end SetFact

end TacAnalysis
