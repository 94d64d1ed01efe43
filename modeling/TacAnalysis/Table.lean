/-
# Tables

Total maps of which only finitely many values are recorded, the other keys
having a value in common.
-/

namespace TacAnalysis

/-- The values of keys, those never recorded having a value in common. -/
structure Table (Key Value : Type) where
  fallback : Value
  entries : List (Key × Value)
  deriving DecidableEq, Inhabited

namespace Table

variable {Key Value : Type}

/-- The table giving one value to every key. -/
def constant (value : Value) : Table Key Value := ⟨value, []⟩

variable [BEq Key]

/-- The value of a key. -/
def get (table : Table Key Value) (key : Key) : Value :=
  (table.entries.lookup key).getD table.fallback

/-- The value recorded for a key, if there is one. -/
def get? (table : Table Key Value) (key : Key) : Option Value := table.entries.lookup key

/-- Records a value in a list of keys with their values. -/
def setEntry (key : Key) (value : Value) : List (Key × Value) → List (Key × Value)
  | [] => [(key, value)]
  | entry :: entries =>
      if entry.1 == key then (key, value) :: entries else entry :: setEntry key value entries

/-- Gives a value to a key. -/
def set (table : Table Key Value) (key : Key) (value : Value) : Table Key Value :=
  { table with entries := setEntry key value table.entries }

theorem lookup_setEntry [LawfulBEq Key] (key other : Key) (value : Value)
    (entries : List (Key × Value)) :
    (setEntry key value entries).lookup other =
      if other == key then some value else entries.lookup other := by
  induction entries with
  | nil =>
      unfold setEntry
      cases same : other == key <;> simp [List.lookup_cons, same]
  | cons entry entries ih =>
      obtain ⟨first, recorded⟩ := entry
      unfold setEntry
      by_cases found : first = key
      · subst found
        cases same : other == first <;> simp [List.lookup_cons, same]
      · have differs : (first == key) = false := by simpa using found
        simp only [differs, Bool.false_eq_true, if_false, List.lookup_cons, ih]
        cases same : other == first
        · rfl
        · have : other = first := by simpa using same
          simp [this, differs]

/-- A value that is found is listed with its key. -/
theorem mem_of_lookup [LawfulBEq Key] {entries : List (Key × Value)} {key : Key} {value : Value}
    (isFound : entries.lookup key = some value) : (key, value) ∈ entries := by
  obtain ⟨before, after, isSplit, -⟩ := List.lookup_eq_some_iff.mp isFound
  rw [isSplit]
  exact List.mem_append_right _ List.mem_cons_self

/-- When the values listed depend on their keys only, they are the ones that are found. -/
theorem lookup_eq_some_iff_mem [LawfulBEq Key] {entries : List (Key × Value)} {key : Key}
    {value : Value} (valueOf : Key → Value)
    (areValues : ∀ entry ∈ entries, entry.2 = valueOf entry.1) :
    entries.lookup key = some value ↔ (key, value) ∈ entries := by
  constructor
  · exact mem_of_lookup
  · intro isEntry
    cases isFound : entries.lookup key with
    | none =>
        have isOther := List.lookup_eq_none_iff.mp isFound _ isEntry
        simp at isOther
    | some found =>
        have isListed := areValues _ (mem_of_lookup isFound)
        exact congrArg some (isListed.trans (areValues _ isEntry).symm)

theorem get?_set [LawfulBEq Key] (table : Table Key Value) (key other : Key) (value : Value) :
    (table.set key value).get? other = if other == key then some value else table.get? other :=
  lookup_setEntry key other value table.entries

/-- A key has the value it was given last, whatever the others were given. -/
theorem get_set [LawfulBEq Key] (table : Table Key Value) (key other : Key) (value : Value) :
    (table.set key value).get other = if other == key then value else table.get other := by
  simp only [get, set, lookup_setEntry]
  split <;> rfl

end Table

end TacAnalysis
