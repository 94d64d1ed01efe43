/-
# Sets in order of arrival

Finite sets that remember the order their elements arrived in. The position of
an element is its number: it is given on arrival and never changes, so that a
set of this kind also numbers the things it holds. Elements are looked up in an
index, which is kept beside the list of them.
-/

import TacAnalysis.Table

namespace TacAnalysis

/-- A finite set, its elements in the order they arrived in, and the index that
they are looked up in. -/
structure ArrivalSet (α : Type) where
  elements : List α
  index : List (α × Nat)
  distinct : elements.Nodup
  indexed : index = elements.zipIdx
  deriving DecidableEq

namespace ArrivalSet

variable {α : Type}

/-- The set without elements. -/
def empty : ArrivalSet α := ⟨[], [], .nil, rfl⟩

instance : Inhabited (ArrivalSet α) := ⟨empty⟩

/-- The set of one element. -/
def singleton (element : α) : ArrivalSet α := ⟨[element], [(element, 0)], by simp, rfl⟩

/-- The set with a new element more. -/
def append (set : ArrivalSet α) (element : α) (isNew : element ∉ set.elements) : ArrivalSet α where
  elements := set.elements ++ [element]
  index := set.index ++ [(element, set.elements.length)]
  distinct := List.nodup_append.mpr
    ⟨set.distinct, by simp, fun first isIn second isElement equal => by simp_all⟩
  indexed := by rw [set.indexed, List.zipIdx_append, Nat.zero_add, List.zipIdx_singleton]

variable (set : ArrivalSet α)

/-- The number of elements. -/
def size : Nat := set.elements.length

/-- Whether there are no elements. -/
def isEmpty : Bool := set.elements.isEmpty

/-- The element of a number. -/
def get? (number : Nat) : Option α := set.elements[number]?

section Numbers

variable {set} {element : α} {number : Nat}

/-- The index lists what has a number. -/
theorem mem_index : (element, number) ∈ set.index ↔ set.get? number = some element := by
  rw [set.indexed]
  exact List.mem_zipIdx_iff_getElem?

/-- An element has a single number. -/
theorem number_unique {first second : Nat} (atFirst : set.get? first = some element)
    (atSecond : set.get? second = some element) : first = second := by
  obtain ⟨isIn, _⟩ := List.getElem?_eq_some_iff.mp atFirst
  exact (List.getElem?_inj isIn set.distinct).mp (atFirst.trans atSecond.symm)

/-- What has a number is in the set. -/
theorem mem_of_get? (known : set.get? number = some element) : element ∈ set.elements :=
  List.mem_of_getElem? known

/-- Numbers below the size are in use. -/
theorem exists_get? (small : number < set.size) : ∃ element, set.get? number = some element :=
  ⟨set.elements[number], List.getElem?_eq_getElem small⟩

/-- Numbers in use are below the size. -/
theorem lt_size (known : set.get? number = some element) : number < set.size :=
  (List.getElem?_eq_some_iff.mp known).1

end Numbers

variable [DecidableEq α]

/-- The number of an element. -/
def number? (element : α) : Option Nat := set.index.lookup element

/-- Whether an element is in the set. -/
def contains (element : α) : Bool := (set.number? element).isSome

section Lookup

variable {set} {element : α} {number : Nat}

/-- The number of an element is the one that it is found under. -/
theorem number?_eq_some_iff : set.number? element = some number ↔
    set.get? number = some element := by
  rw [number?, Table.lookup_eq_some_iff_mem fun element => set.elements.idxOf element]
  · exact mem_index
  · rintro ⟨entry, place⟩ isEntry
    have isPlace := mem_index.mp isEntry
    have inUse := List.idxOf_lt_length_of_mem (mem_of_get? isPlace)
    exact number_unique isPlace (List.getElem?_eq_some_iff.mpr ⟨inUse, List.getElem_idxOf inUse⟩)

theorem contains_iff : set.contains element = true ↔ element ∈ set.elements := by
  simp only [contains, Option.isSome_iff_exists, number?_eq_some_iff]
  exact List.mem_iff_getElem?.symm

theorem number?_eq_none_iff : set.number? element = none ↔ element ∉ set.elements := by
  rw [← contains_iff, contains, Option.not_isSome_iff_eq_none]

end Lookup

/-- The set with an element more, unless it is there already. -/
def insert (element : α) : ArrivalSet α :=
  if isIn : set.contains element then set else set.append element (mt contains_iff.mpr isIn)

/-- The number of an element, which is added to the set on the first request. -/
def intern (element : α) : Nat × ArrivalSet α :=
  ((set.number? element).getD set.size, set.insert element)

/-- Adds an element, and says whether it is new. -/
def add (element : α) : Bool × ArrivalSet α := (!set.contains element, set.insert element)

/-- The set with the elements of another one more, in their order. -/
def union (other : ArrivalSet α) : ArrivalSet α :=
  other.elements.foldl (fun union element => union.insert element) set

/-- Adds the elements of another set, and says whether some are new. -/
def addAll (other : ArrivalSet α) : Bool × ArrivalSet α :=
  (other.elements.any fun element => !set.contains element, set.union other)

/-- The elements of another set that are not in this one. -/
def missing (other : ArrivalSet α) : ArrivalSet α :=
  (other.elements.filter fun element => !set.contains element).foldl
    (fun missing element => missing.insert element) empty

variable {set}

theorem mem_insert {element other : α} :
    other ∈ (set.insert element).elements ↔ other ∈ set.elements ∨ other = element := by
  unfold insert
  split
  case isTrue isIn =>
    exact (or_iff_left_of_imp fun isSame => isSame ▸ contains_iff.mp isIn).symm
  case isFalse => simp only [append, List.mem_append, List.mem_singleton]

theorem mem_foldl_insert {arriving : List α} {element : α} :
    element ∈ (arriving.foldl (fun set element => set.insert element) set).elements ↔
      element ∈ set.elements ∨ element ∈ arriving := by
  induction arriving generalizing set with
  | nil => simp
  | cons first rest ih => simp [ih, mem_insert, or_assoc]

theorem mem_missing {others : ArrivalSet α} {element : α} :
    element ∈ (set.missing others).elements ↔
      element ∈ others.elements ∧ element ∉ set.elements := by
  rw [missing, mem_foldl_insert, List.mem_filter, Bool.not_eq_true', ← Bool.not_eq_true,
    contains_iff]
  exact or_iff_right List.not_mem_nil

theorem mem_union {others : ArrivalSet α} {element : α} :
    element ∈ (set.union others).elements ↔
      element ∈ set.elements ∨ element ∈ others.elements :=
  mem_foldl_insert

/-- Numbers never change: what is in the set keeps its number when others arrive. -/
theorem get?_insert {element other : α} {number : Nat} (known : set.get? number = some other) :
    (set.insert element).get? number = some other := by
  unfold insert
  split
  · exact known
  · exact (List.getElem?_append_left (List.getElem?_eq_some_iff.mp known).1).trans known

/-- The number given to an element is the one it is found under. -/
theorem get?_intern {element : α} :
    (set.intern element).2.get? (set.intern element).1 = some element := by
  unfold intern insert
  split
  case isTrue isIn =>
    obtain ⟨number, isNumber⟩ := Option.isSome_iff_exists.mp isIn
    rw [isNumber]
    exact number?_eq_some_iff.mp isNumber
  case isFalse isNew =>
    rw [Option.not_isSome_iff_eq_none.mp isNew]
    simp [get?, size, append]

/-- Arriving elements come after all others. -/
theorem prefix_insert {element : α} : set.elements <+: (set.insert element).elements := by
  unfold insert
  split
  · exact List.prefix_refl _
  · exact List.prefix_append _ _

theorem prefix_foldl_insert {arriving : List α} :
    set.elements <+: (arriving.foldl (fun set element => set.insert element) set).elements := by
  induction arriving generalizing set with
  | nil => exact List.prefix_refl _
  | cons first rest ih => exact prefix_insert.trans ih

/-- Arriving elements that leave the size as it is are all there already. -/
theorem mem_of_size_foldl_insert {arriving : List α} {element : α}
    (sameSize : (arriving.foldl (fun set element => set.insert element) set).size = set.size)
    (isArriving : element ∈ arriving) : element ∈ set.elements := by
  rw [prefix_foldl_insert.eq_of_length sameSize.symm]
  exact mem_foldl_insert.mpr (.inr isArriving)

theorem size_le_insert {element : α} : set.size ≤ (set.insert element).size :=
  prefix_insert.length_le

/-- Inserting an element gives a number to it and to no other. -/
theorem lt_size_insert {element : α} {number : Nat} (inUse : number < (set.insert element).size) :
    number < set.size ∨ number = (set.intern element).1 := by
  unfold insert at inUse
  split at inUse
  case isTrue => exact .inl inUse
  case isFalse isNew =>
    rw [size, append, List.length_append, List.length_singleton] at inUse
    rw [intern, Option.not_isSome_iff_eq_none.mp isNew]
    exact Nat.lt_succ_iff_lt_or_eq.mp inUse

/-- Inserting again what is in the set changes nothing. -/
theorem insert_of_mem {element : α} (isIn : element ∈ set.elements) : set.insert element = set := by
  rw [insert, dif_pos (contains_iff.mpr isIn)]

/-- Inserting what is not in the set yet makes it larger by one. -/
theorem size_insert_of_notMem {element : α} (isNew : element ∉ set.elements) :
    (set.insert element).size = set.size + 1 := by
  rw [insert, dif_neg (mt contains_iff.mp isNew), size, append, List.length_append,
    List.length_singleton, size]

/-- Asking again for the number of what is in the set changes nothing. -/
theorem intern_of_get? {element : α} {number : Nat} (known : set.get? number = some element) :
    set.intern element = (number, set) := by
  rw [intern, number?_eq_some_iff.mpr known, insert_of_mem (mem_of_get? known)]
  rfl

end ArrivalSet

end TacAnalysis
