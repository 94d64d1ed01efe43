/-
# Indexes

An ordered map lists its keys in their order, each with a value. The items of a table
are looked up by key in such a map beside the table, in which the values are the
numbers of the items. Items are added to table and index together, so that looking a
key up and searching the table for it give the same number.
-/

import TacAnalysis.Table

namespace TacAnalysis

variable {Item Key Value Owner : Type}

/-- Enters a value under a key, in the order of the keys. It takes the place of the
value that the key has had before. -/
def insertEntry [BEq Key] [Ord Key] (key : Key) (value : Value) :
    List (Key × Value) → List (Key × Value)
  | [] => [(key, value)]
  | entry :: entries =>
      if entry.1 == key then (key, value) :: entries
      else if (compare key entry.1).isLT then (key, value) :: entry :: entries
      else entry :: insertEntry key value entries

section Entering

variable [BEq Key] [LawfulBEq Key] [Ord Key] {key : Key} {value : Value}
  {entries : List (Key × Value)}

theorem lookup_insertEntry (key other : Key) (value : Value) (entries : List (Key × Value)) :
    (insertEntry key value entries).lookup other =
      if other == key then some value else entries.lookup other := by
  induction entries with
  | nil =>
      unfold insertEntry
      cases same : other == key <;> simp [List.lookup_cons, same]
  | cons entry entries ih =>
      obtain ⟨first, recorded⟩ := entry
      unfold insertEntry
      by_cases isFound : first = key
      · subst isFound
        cases same : other == first <;> simp [List.lookup_cons, same]
      · simp only [beq_false_of_ne isFound, Bool.false_eq_true, if_false]
        split
        case isTrue => cases same : other == key <;> simp [List.lookup_cons, same]
        case isFalse =>
          rw [List.lookup_cons, ih, List.lookup_cons]
          cases same : other == first
          · rfl
          · rw [eq_of_beq same, beq_false_of_ne isFound]
            rfl

/-- What is entered under a new key is there besides what there has been. -/
theorem perm_insertEntry (isNew : entries.lookup key = none) :
    (insertEntry key value entries).Perm ((key, value) :: entries) := by
  induction entries with
  | nil => exact .refl _
  | cons entry entries ih =>
      rw [List.lookup_eq_none_iff, List.forall_mem_cons] at isNew
      have isOther : ¬entry.1 == key := by
        simpa using (bne_iff_ne.mp isNew.1).symm
      rw [insertEntry, if_neg isOther]
      split
      case isTrue => exact .refl _
      case isFalse =>
        exact ((ih (List.lookup_eq_none_iff.mpr isNew.2)).cons entry).trans (.swap _ _ _)

end Entering

/-- An index of a table: each key is listed at most once, with the number of the first
item that has it. -/
structure Indexes [BEq Key] (entries : List (Key × Nat)) (items : Array Item)
    (hasKey : Key → Item → Bool) : Prop where
  lookup : ∀ key, entries.lookup key = items.findIdx? (hasKey key)
  keysDiffer : (entries.map Prod.fst).Nodup

namespace Indexes

section Items

variable [BEq Key] {entries : List (Key × Nat)} {items : Array Item}
  {hasKey : Key → Item → Bool} {item : Item}

theorem nil : Indexes ([] : List (Key × Nat)) (#[] : Array Item) hasKey :=
  ⟨fun _ => by simp, .nil⟩

/-- Items without a key are not listed. -/
theorem push_other (indexes : Indexes entries items hasKey)
    (noKey : ∀ key, hasKey key item = false) : Indexes entries (items.push item) hasKey where
  lookup key := by
    rw [indexes.lookup, Array.findIdx?_push, noKey, if_neg Bool.false_ne_true, Option.or_none]
  keysDiffer := indexes.keysDiffer

variable [LawfulBEq Key]

/-- What is listed is what is found. -/
theorem mem_iff (indexes : Indexes entries items hasKey) {key : Key} {number : Nat} :
    (key, number) ∈ entries ↔ entries.lookup key = some number := by
  refine ⟨fun isEntry => ?_, Table.mem_of_lookup⟩
  have differ := indexes.keysDiffer
  obtain ⟨before, after, rfl⟩ := List.append_of_mem isEntry
  rw [List.map_append, List.map_cons, List.nodup_append] at differ
  refine List.lookup_eq_some_iff.mpr ⟨before, after, rfl, fun entry isBefore => ?_⟩
  have isOther := differ.2.2 _ (List.mem_map_of_mem isBefore) _ List.mem_cons_self
  simpa using isOther.symm

omit [LawfulBEq Key] in
/-- Items that are changed otherwise than in their keys are found as before. -/
theorem of_keys {keyOf : Item → Key} {new : Array Item}
    (indexes : Indexes entries items fun key item => keyOf item == key)
    (sameKeys : new.map keyOf = items.map keyOf) :
    Indexes entries new fun key item => keyOf item == key where
  lookup key := by
    have found (items : Array Item) : items.findIdx? (keyOf · == key) =
        (items.map keyOf).findIdx? (· == key) := by
      rw [Array.findIdx?_map]
      rfl
    rw [indexes.lookup, found, found, sameKeys]
  keysDiffer := indexes.keysDiffer

variable [Ord Key]

/-- An item with a new key is listed with the number that comes next. -/
theorem push (indexes : Indexes entries items hasKey) {key : Key}
    (isKey : ∀ other, hasKey other item = (other == key)) (isNew : entries.lookup key = none) :
    Indexes (insertEntry key items.size entries) (items.push item) hasKey where
  lookup other := by
    rw [lookup_insertEntry, Array.findIdx?_push, ← indexes.lookup, isKey]
    by_cases isSame : other = key
    · rw [isSame, isNew, beq_self_eq_true, if_pos rfl, Option.none_or]
    · rw [beq_false_of_ne isSame, if_neg Bool.false_ne_true, if_neg Bool.false_ne_true,
        Option.or_none]
  keysDiffer := by
    have isListed : (insertEntry key items.size entries).Perm ((key, items.size) :: entries) :=
      perm_insertEntry isNew
    rw [(isListed.map Prod.fst).nodup_iff, List.map_cons, List.nodup_cons]
    refine ⟨fun isIn => ?_, indexes.keysDiffer⟩
    obtain ⟨entry, isEntry, rfl⟩ := List.mem_map.mp isIn
    have isOther := List.lookup_eq_none_iff.mp isNew entry isEntry
    simp at isOther

end Items

end Indexes

/-- Whether an item belongs to an owner and has a key there. -/
def belongs [BEq Owner] [BEq Key] (ownerOf : Item → Owner) (keyOf : Item → Key) (owner : Owner)
    (key : Key) (item : Item) : Bool :=
  ownerOf item == owner && keyOf item == key

theorem belongs_iff [BEq Owner] [LawfulBEq Owner] [BEq Key] [LawfulBEq Key]
    {ownerOf : Item → Owner} {keyOf : Item → Key} {owner : Owner} {key : Key} {item : Item} :
    belongs ownerOf keyOf owner key item = true ↔ (ownerOf item, keyOf item) = (owner, key) := by
  simp [belongs]

/-- Enters a number under a key in the index of an owner. -/
def Table.enter [BEq Owner] [BEq Key] [Ord Key] (table : Table Owner (List (Key × Nat)))
    (owner : Owner) (key : Key) (number : Nat) : Table Owner (List (Key × Nat)) :=
  table.set owner (insertEntry key number (table.get owner))

/-- An item with a key that is new for its owner is listed with the number that comes next. -/
theorem Indexes.push_owned [BEq Owner] [LawfulBEq Owner] [BEq Key] [LawfulBEq Key] [Ord Key]
    {table : Table Owner (List (Key × Nat))} {items : Array Item} {ownerOf : Item → Owner}
    {keyOf : Item → Key} {item : Item}
    (indexes : ∀ owner, Indexes (table.get owner) items (belongs ownerOf keyOf owner))
    (isNew : (table.get (ownerOf item)).lookup (keyOf item) = none) (owner : Owner) :
    Indexes ((table.enter (ownerOf item) (keyOf item) items.size).get owner) (items.push item)
      (belongs ownerOf keyOf owner) := by
  rw [Table.enter, Table.get_set]
  by_cases isOwner : owner = ownerOf item
  · rw [isOwner, beq_self_eq_true, if_pos rfl]
    refine (indexes _).push (fun key => ?_) isNew
    rw [belongs, beq_self_eq_true, Bool.true_and, Bool.beq_comm]
  · rw [beq_false_of_ne isOwner, if_neg Bool.false_ne_true]
    refine (indexes owner).push_other fun key => ?_
    rw [belongs, beq_false_of_ne (Ne.symm isOwner), Bool.false_and]

end TacAnalysis
