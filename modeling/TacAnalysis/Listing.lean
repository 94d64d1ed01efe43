/-
# Listings

Tables that list values under keys, each value once under a key and each key once,
in the order they came in. What a listing holds is told by the items it has been
made from, each giving a key and a value.
-/

import TacAnalysis.Ascending
import TacAnalysis.Table

namespace TacAnalysis.Table

variable {Item Key Value : Type}

/-- The keys under which something is listed. -/
def keys (table : Table Key (List Value)) : List Key := table.entries.map Prod.fst

variable [BEq Key]

theorem keys_set [LawfulBEq Key] (table : Table Key (List Value)) (key : Key)
    (values : List Value) : (table.set key values).keys =
      if table.keys.contains key then table.keys else table.keys ++ [key] := by
  unfold keys set
  induction table.entries with
  | nil => simp [setEntry]
  | cons entry entries ih =>
      rw [setEntry]
      split
      case isTrue isKey => simp [beq_iff_eq.mp isKey]
      case isFalse isOther =>
          have differs : key ≠ entry.1 := fun isSame => isOther (beq_iff_eq.mpr isSame.symm)
          simp only [List.map_cons, List.contains_cons, ih, beq_false_of_ne differs,
            Bool.false_or]
          split <;> rfl

variable [BEq Value]

/-- Lists a value under a key, unless it is listed there already. -/
def list (table : Table Key (List Value)) (key : Key) (value : Value) : Table Key (List Value) :=
  if (table.get key).contains value then table else table.set key (table.get key ++ [value])

/-- A table lists the values of some items by their keys. -/
structure Lists (table : Table Key (List Value)) (key : Item → Key) (value : Item → Value)
    (items : List Item) : Prop where
  get : ∀ wanted, table.get wanted =
    ((items.filter fun item => key item == wanted).map value).eraseDups
  keys : table.keys = (items.map key).eraseDups

variable {key : Item → Key} {value : Item → Value} {items : List Item}

theorem lists_nil : (constant [] : Table Key (List Value)).Lists key value [] :=
  ⟨fun _ => rfl, rfl⟩

variable [LawfulBEq Key] [LawfulBEq Value] {table : Table Key (List Value)}

theorem Lists.get_list (lists : table.Lists key value items) (item : Item) (wanted : Key) :
    (table.list (key item) (value item)).get wanted =
      (((items ++ [item]).filter fun item => key item == wanted).map value).eraseDups := by
  rw [List.filter_append, List.map_append, List.filter_cons, List.filter_nil, Table.list]
  by_cases isWanted : key item = wanted
  · subst isWanted
    rw [beq_self_eq_true, if_pos rfl, List.map_singleton, eraseDups_append_singleton, lists.get]
    simp only [contains_eraseDups]
    split
    · exact lists.get _
    · rw [get_set, beq_self_eq_true, if_pos rfl]
  · rw [beq_false_of_ne isWanted, if_neg Bool.false_ne_true, List.map_nil, List.append_nil,
      ← lists.get]
    split
    · rfl
    · rw [get_set, beq_false_of_ne (Ne.symm isWanted), if_neg Bool.false_ne_true]

theorem Lists.keys_list (lists : table.Lists key value items) (item : Item) :
    (table.list (key item) (value item)).keys = ((items ++ [item]).map key).eraseDups := by
  rw [List.map_append, List.map_singleton, eraseDups_append_singleton, Table.list, lists.get]
  simp only [contains_eraseDups]
  split
  case isTrue isListed =>
      -- A value is listed only under the key of some item.
      have isKnown : (items.map key).contains (key item) = true := by
        obtain ⟨other, isOther, -⟩ := List.mem_map.mp (List.contains_iff_mem.mp isListed)
        obtain ⟨isItem, isKey⟩ := List.mem_filter.mp isOther
        exact List.contains_iff_mem.mpr (List.mem_map.mpr ⟨other, isItem, beq_iff_eq.mp isKey⟩)
      rw [if_pos isKnown, lists.keys]
  case isFalse => rw [keys_set, lists.keys, contains_eraseDups]

/-- Listing the value of one more item under its key. -/
theorem Lists.list (lists : table.Lists key value items) (item : Item) :
    (table.list (key item) (value item)).Lists key value (items ++ [item]) :=
  ⟨lists.get_list item, lists.keys_list item⟩

/-- The listing of some items by their keys. -/
def listBy (key : Item → Key) (value : Item → Value) (items : List Item) :
    Table Key (List Value) :=
  items.foldl (fun table item => table.list (key item) (value item)) (constant [])

theorem lists_listBy (key : Item → Key) (value : Item → Value) (items : List Item) :
    (listBy key value items).Lists key value items := by
  have listed (before : List Item) (table : Table Key (List Value))
      (lists : table.Lists key value before) :
      (items.foldl (fun table item => table.list (key item) (value item)) table).Lists key value
        (before ++ items) := by
    induction items generalizing before table with
    | nil => simpa using lists
    | cons item items ih =>
        rw [List.append_cons]
        exact ih _ _ (lists.list item)
  exact listed [] _ lists_nil

end TacAnalysis.Table
