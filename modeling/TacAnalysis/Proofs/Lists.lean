/-
# Lists whose elements are told apart

General facts about lists and arrays, for programs, call graphs and the states of an
analysis alike: elements are found by a key that no two of them share, elements that are
all different stay so when a new one is added, and a list that has grown holds what it has
held, at the same positions.
-/

import Mathlib.Data.List.Nodup

namespace TacAnalysis

section Keys

variable {Item Part Image Key : Type} {items : List Item} {keyOf : Item → Key} {item : Item}

/-- Parts that are listed item by item, and tell which item they are from, are those of the
item when only its own are kept. -/
theorem filter_flatMap_of_key [DecidableEq Key] (keyOf : Item → Key) (parts : Item → List Part)
    (key : Part → Key) (areDistinct : (items.map keyOf).Nodup)
    (areKeyed : ∀ item ∈ items, ∀ part ∈ parts item, key part = keyOf item)
    (isIn : item ∈ items) :
    (items.flatMap parts).filter (fun part => key part = keyOf item) = parts item := by
  have nothing {others : List Item} (areIn : others ⊆ items)
      (areOthers : keyOf item ∉ others.map keyOf) :
      (others.flatMap parts).filter (fun part => key part = keyOf item) = [] := by
    refine List.filter_eq_nil_iff.mpr fun part isPart isSame => ?_
    obtain ⟨other, isOther, isPart⟩ := List.mem_flatMap.mp isPart
    rw [decide_eq_true_eq, areKeyed other (areIn isOther) part isPart] at isSame
    exact areOthers (isSame ▸ List.mem_map_of_mem isOther)
  obtain ⟨before, after, rfl⟩ := List.append_of_mem isIn
  rw [List.map_append, List.map_cons] at areDistinct
  obtain ⟨-, distinctAfter, apart⟩ := List.nodup_append.mp areDistinct
  have notBefore : keyOf item ∉ before.map keyOf := fun isBefore =>
    apart _ isBefore _ List.mem_cons_self rfl
  rw [List.flatMap_append, List.flatMap_cons, List.filter_append, List.filter_append,
    nothing (List.subset_append_left _ _) notBefore,
    nothing (List.subset_append_of_subset_right _ (List.subset_cons_self _ _))
      (List.nodup_cons.mp distinctAfter).1,
    List.nil_append, List.append_nil]
  exact List.filter_eq_self.mpr fun part isPart =>
    decide_eq_true (areKeyed item isIn part isPart)

/-- An item listed under a key that the others do not have is looked up by it. -/
theorem lookup_map_of_nodup [BEq Key] [LawfulBEq Key] (differ : (items.map keyOf).Nodup)
    (isIn : item ∈ items) :
    (items.map fun item => (keyOf item, item)).lookup (keyOf item) = some item := by
  induction items with
  | nil => cases isIn
  | cons first items ih =>
      obtain ⟨isFresh, differ⟩ := List.nodup_cons.mp differ
      rw [List.map_cons, List.lookup_cons]
      rcases List.mem_cons.mp isIn with rfl | isOther
      · rw [beq_self_eq_true]
      · have isOtherKey : (keyOf item == keyOf first) = false :=
          beq_false_of_ne fun same => isFresh (same ▸ List.mem_map_of_mem isOther)
        rw [isOtherKey]
        exact ih differ isOther

/-- Lists are the same when their images are, under a map that tells their elements
apart. -/
theorem eq_of_map_eq {read : Item → Image} {left right : List Item}
    (injective : ∀ first ∈ left, ∀ second ∈ right, read first = read second → first = second)
    (same : left.map read = right.map read) : left = right := by
  induction left generalizing right with
  | nil => exact (List.map_eq_nil_iff.mp same.symm).symm
  | cons first left ih =>
      cases right with
      | nil => cases same
      | cons second right =>
          rw [List.map_cons, List.map_cons, List.cons.injEq] at same
          have sameHead := injective first List.mem_cons_self second List.mem_cons_self same.1
          have sameTail := ih (fun other isLeft another isRight =>
            injective other (List.mem_cons_of_mem _ isLeft) another
              (List.mem_cons_of_mem _ isRight)) same.2
          rw [sameHead, sameTail]

end Keys

section Positions

variable {Element : Type} {elements : List Element}

/-- What is found in a list is found at the same place in a longer one. -/
theorem getElem?_of_prefix {longer : List Element} {position : Nat} {element : Element}
    (extended : elements <+: longer) (found : elements[position]? = some element) :
    longer[position]? = some element := by
  obtain ⟨rest, rfl⟩ := extended
  exact (List.getElem?_append_left (List.getElem?_eq_some_iff.mp found).1).trans found

/-- Elements are numbered in ascending order. -/
theorem pairwise_zipIdx (elements : List Element) :
    elements.zipIdx.Pairwise fun first second => first.2 < second.2 := by
  refine List.pairwise_map.mp ?_
  rw [List.zipIdx_map_snd]
  exact List.pairwise_lt_range'

variable [BEq Element] [LawfulBEq Element]

/-- An element that was not there is there once. -/
theorem nodup_append_of_not_contains {element : Element} (areDistinct : elements.Nodup)
    (isNew : ¬ elements.contains element = true) : (elements ++ [element]).Nodup := by
  refine List.nodup_append.mpr ⟨areDistinct, List.nodup_cons.mpr ⟨nofun, .nil⟩, ?_⟩
  intro other isOther last isLast isSame
  rw [isSame, List.mem_singleton.mp isLast] at isOther
  exact isNew (List.contains_iff_mem.mpr isOther)

/-- What comes before all others in an ordered list is at the front of it. -/
theorem idxOf_eq_zero_of_least [Ord Element] {least : Element}
    (areOrdered : elements.Pairwise (compare · · = .lt)) (isIn : least ∈ elements)
    (isLeast : ∀ other ∈ elements, compare other least ≠ .lt) : elements.idxOf least = 0 := by
  cases areOrdered with
  | nil => cases isIn
  | @cons head elements isFirst =>
      rcases List.mem_cons.mp isIn with rfl | isLater
      · exact List.idxOf_cons_self
      · exact absurd (isFirst least isLater) (isLeast head List.mem_cons_self)

end Positions

section Arrays

variable {Item Key : Type} {table : Array Item} {key : Item → Key} {test : Item → Bool}
  {wanted : Key} {position : Nat}

/-- Where the items of a table have different keys, a key is looked up exactly. -/
theorem findIdx?_eq_some_iff_of_nodup [Inhabited Item] (key : Item → Key)
    (areDistinct : (table.toList.map key).Nodup)
    (isTest : ∀ item, test item = true ↔ key item = wanted) :
    table.findIdx? test = some position ↔
      position < table.size ∧ key (table.getD position default) = wanted := by
  rw [Array.findIdx?_eq_some_iff_getElem]
  constructor
  · rintro ⟨inTable, passes, -⟩
    refine ⟨inTable, ?_⟩
    rw [Array.getD, dif_pos inTable]
    exact (isTest _).mp passes
  · rintro ⟨inTable, isKey⟩
    rw [Array.getD, dif_pos inTable] at isKey
    refine ⟨inTable, (isTest _).mpr isKey, fun other isBefore passes => ?_⟩
    have sameKey := ((isTest _).mp passes).trans isKey.symm
    have inList : other < (table.toList.map key).length := by
      simpa using Nat.lt_trans isBefore inTable
    have inListToo : position < (table.toList.map key).length := by simpa using inTable
    have sameKeys : (table.toList.map key)[other] = (table.toList.map key)[position] := by
      simpa using sameKey
    exact absurd (areDistinct.getElem_inj_iff.mp sameKeys) (Nat.ne_of_lt isBefore)

/-- An item is added under a key that is not found. -/
theorem nodup_push {item : Item} (areDistinct : (table.toList.map key).Nodup)
    (isTest : ∀ item, test item = true ↔ key item = wanted)
    (isFresh : table.findIdx? test = none) (isKey : key item = wanted) :
    ((table.push item).toList.map key).Nodup := by
  rw [Array.toList_push, List.map_append, List.nodup_append]
  refine ⟨areDistinct, List.nodup_singleton _, ?_⟩
  intro old isOld new isNew sameKey
  obtain ⟨other, isOther, rfl⟩ := List.mem_map.mp isOld
  rw [List.map_singleton, List.mem_singleton] at isNew
  have notFound := Array.findIdx?_eq_none_iff.mp isFresh other (Array.mem_toList_iff.mp isOther)
  rw [(isTest other).mpr (sameKey.trans (isNew.trans isKey))] at notFound
  cases notFound

end Arrays

end TacAnalysis
