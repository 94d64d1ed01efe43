/-
# Ascending lists

Collections are shown in ascending order and without repetition, whatever the
order in which their elements were found.
-/

namespace TacAnalysis

/-- The elements of a list without repetition, in ascending order. -/
def ascending {α : Type} [BEq α] [Ord α] (elements : List α) : List α :=
  elements.eraseDups.mergeSort fun first second => (compare first second).isLE

theorem mem_ascending {α : Type} [BEq α] [LawfulBEq α] [Ord α] {element : α} {elements : List α} :
    element ∈ ascending elements ↔ element ∈ elements := by
  simp [ascending]

theorem nodup_eraseDups {α : Type} [BEq α] [LawfulBEq α] (elements : List α) :
    elements.eraseDups.Nodup := by
  match elements with
  | [] => exact List.nodup_nil
  | first :: rest =>
      rw [List.eraseDups_cons, List.nodup_cons]
      refine ⟨fun isIn => ?_, nodup_eraseDups (rest.filter fun other => !other == first)⟩
      have differs := (List.mem_filter.mp (List.mem_eraseDups.mp isIn)).2
      simp at differs
termination_by elements.length
decreasing_by exact Nat.lt_succ_of_le (List.length_filter_le _ _)

theorem contains_eraseDups {α : Type} [BEq α] [LawfulBEq α] (elements : List α) (element : α) :
    elements.eraseDups.contains element = elements.contains element := by
  rw [Bool.eq_iff_iff, List.contains_iff_mem, List.contains_iff_mem, List.mem_eraseDups]

/-- What is already there once stays as it is. -/
theorem eraseDups_of_nodup {α : Type} [BEq α] [LawfulBEq α] {elements : List α}
    (areDistinct : elements.Nodup) : elements.eraseDups = elements := by
  induction elements with
  | nil => rfl
  | cons first rest ih =>
      obtain ⟨isNew, areDistinct⟩ := List.nodup_cons.mp areDistinct
      have others : (rest.filter fun other => !other == first) = rest := by
        refine List.filter_eq_self.mpr fun other isIn => ?_
        have differs : other ≠ first := fun isSame => isNew (isSame ▸ isIn)
        rw [beq_false_of_ne differs, Bool.not_false]
      rw [List.eraseDups_cons, others, ih areDistinct]

/-- An element more is kept when it has not been there before. -/
theorem eraseDups_append_singleton {α : Type} [BEq α] [LawfulBEq α] (elements : List α)
    (element : α) : (elements ++ [element]).eraseDups =
      if elements.contains element then elements.eraseDups
      else elements.eraseDups ++ [element] := by
  rw [List.eraseDups_append, List.removeAll, List.filter_cons, List.elem_eq_contains]
  split
  case isTrue isNew =>
    rw [if_neg (by simpa using isNew), List.filter_nil]
    rfl
  case isFalse isKnown =>
    rw [if_pos (by simpa using isKnown), List.filter_nil]
    exact List.append_nil _

theorem nodup_ascending {α : Type} [BEq α] [LawfulBEq α] [Ord α] (elements : List α) :
    (ascending elements).Nodup :=
  (List.mergeSort_perm _ _).nodup_iff.mpr (nodup_eraseDups elements)

/-- Repetitions make no difference. -/
theorem ascending_eraseDups {α : Type} [BEq α] [LawfulBEq α] [Ord α] (elements : List α) :
    ascending elements.eraseDups = ascending elements := by
  rw [ascending, eraseDups_of_nodup (nodup_eraseDups elements), ascending]

/-- Numbers in ascending order are listed once each. -/
theorem pairwise_ascending (elements : List Nat) : (ascending elements).Pairwise (· < ·) := by
  have areOrdered : (ascending elements).Pairwise (· ≤ ·) := by
    refine (List.pairwise_mergeSort (fun first second third => ?_) (fun first second => ?_)
      elements.eraseDups).imp Nat.isLE_compare.mp
    · simp only [Nat.isLE_compare]
      exact Nat.le_trans
    · simp only [Bool.or_eq_true, Nat.isLE_compare]
      exact Nat.le_total first second
  exact areOrdered.imp₂ (fun _ _ isLess differs => Nat.lt_of_le_of_ne isLess differs)
    (nodup_ascending elements)

end TacAnalysis
