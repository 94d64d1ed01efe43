/-
# Facts under edits

Facts that start out empty and are edited by updates, removals, copies, clearing and
meets always record their variables in ascending order, and only those about which
something is known. So the structure of a fact is the function from variables to values
that it stands for: what an edit says about changes of the structure holds of the
values, and the laws of the meet of values are laws of the meet of facts.
-/

import Mathlib.Logic.Function.Basic
import Mathlib.Order.Bounds.Basic
import TacAnalysis.Proofs.Dataflow.ConstantFacts

namespace TacAnalysis

namespace ConstFact

variable {fact other third : ConstFact} {var : VarId} {value : Value}

section Flags

theorem update_snd (fact : ConstFact) (var : VarId) (value : Value) :
    (fact.update var value).2 = fact.set var value := by
  cases value <;> rfl

theorem copyFrom_snd (fact source : ConstFact) : (fact.copyFrom source).2 = source := by
  rw [copyFrom]
  split
  case isTrue isSame => exact isSame
  case isFalse => rfl

theorem Canonical.lookup_iff (isCanonical : fact.Canonical) :
    fact.values.lookup var = some value ↔ fact.get var = value ∧ value ≠ .undefined :=
  (lookup_eq_some_iff isCanonical.ascending).trans isCanonical.mem_values_iff

/-- An update is reported when it gives the variable another value. -/
theorem Canonical.update_fst (isCanonical : fact.Canonical) :
    (fact.update var value).1 = true ↔ fact.get var ≠ value := by
  cases value with
  | undefined =>
      rw [update, Option.isSome_iff_exists]
      constructor
      · rintro ⟨found, isFound⟩ isUnknown
        obtain ⟨rfl, isKnown⟩ := isCanonical.lookup_iff.mp isFound
        exact isKnown isUnknown
      · intro isKnown
        exact ⟨_, isCanonical.lookup_iff.mpr ⟨rfl, isKnown⟩⟩
  | constant word => simp [update, isCanonical.lookup_iff]
  | notConstant => simp [update, isCanonical.lookup_iff]

/-- An update is reported when it changes the value of some variable. -/
theorem Canonical.update_fst_iff (isCanonical : fact.Canonical) :
    (fact.update var value).1 = true ↔
      ∃ asked, (fact.update var value).2.get asked ≠ fact.get asked := by
  rw [isCanonical.update_fst, update_snd]
  constructor
  · intro differs
    refine ⟨var, ?_⟩
    rw [get_set, if_pos rfl]
    exact differs.symm
  · rintro ⟨asked, differs⟩ isSame
    rw [get_set] at differs
    split at differs
    case isTrue isVar => exact differs (isVar ▸ isSame.symm)
    case isFalse => exact differs rfl

/-- Canonical facts are the same when they give every variable the same value. -/
theorem Canonical.eq_iff (isCanonical : fact.Canonical) (otherIs : other.Canonical) :
    fact = other ↔ ∀ var, fact.get var = other.get var :=
  ⟨fun isSame _ => isSame ▸ rfl, isCanonical.ext otherIs⟩

/-- Taking over a fact is reported when it changes the value of some variable. -/
theorem Canonical.copyFrom_fst_iff (isCanonical : fact.Canonical) (otherIs : other.Canonical) :
    (fact.copyFrom other).1 = true ↔
      ∃ asked, (fact.copyFrom other).2.get asked ≠ fact.get asked := by
  have isReported : (fact.copyFrom other).1 = true ↔ fact ≠ other := by
    rw [copyFrom]
    split
    case isTrue isSame => simp [isSame]
    case isFalse differs => simp [differs]
  rw [isReported, copyFrom_snd, Ne, isCanonical.eq_iff otherIs, not_forall]
  simp only [ne_comm]

end Flags

section Meet

theorem Canonical.meet_comm (isCanonical : fact.Canonical) (otherIs : other.Canonical) :
    fact.meet other = other.meet fact := by
  refine (otherIs.meet fact).ext (isCanonical.meet other) fun var => ?_
  rw [isCanonical.get_meet, otherIs.get_meet, sup_comm]

theorem Canonical.meet_assoc (isCanonical : fact.Canonical) (otherIs : other.Canonical)
    (thirdIs : third.Canonical) : (fact.meet other).meet third = fact.meet (other.meet third) := by
  refine (thirdIs.meet _).ext ((thirdIs.meet other).meet fact) fun var => ?_
  rw [(otherIs.meet fact).get_meet, isCanonical.get_meet, isCanonical.get_meet, otherIs.get_meet,
    sup_assoc]

theorem Canonical.meet_self (isCanonical : fact.Canonical) : fact.meet fact = fact := by
  refine (isCanonical.meet fact).ext isCanonical fun var => ?_
  rw [isCanonical.get_meet, sup_idem]

theorem Canonical.meet_empty (isCanonical : fact.Canonical) : fact.meet empty = fact := by
  refine (canonical_empty.meet fact).ext isCanonical fun var => ?_
  rw [isCanonical.get_meet, get_empty]
  exact sup_bot_eq _

theorem Canonical.isLUB_meet (isCanonical : fact.Canonical) (target : ConstFact) :
    IsLUB {fact, target} (fact.meet target) := by
  constructor
  · intro below isOne
    rcases isOne with isFact | isTarget
    · exact isFact ▸ (isCanonical.le_meet target).1
    · exact isTarget ▸ (isCanonical.le_meet target).2
  · intro above isAbove var
    show (fact.meet target).get var ≤ above.get var
    rw [isCanonical.get_meet]
    exact sup_le (isAbove (.inl rfl) var) (isAbove (.inr rfl) var)

end Meet

end ConstFact

/-- Nothing known comes first, then the constants, then not constant. -/
theorem Value.le_iff_eq_or {first second : Value} :
    first ≤ second ↔ first = second ∨ first = .undefined ∨ second = .notConstant := by
  rw [Value.le_iff]
  cases first <;> cases second <;> simp [height]

theorem Value.isLUB_meet (first second : Value) : IsLUB {first, second} (first.meet second) :=
  isLUB_pair

/-- An edit of one of several facts. -/
inductive FactEdit where
  | update (target : Nat) (var : VarId) (value : Value)
  | remove (target : Nat) (var : VarId)
  | copyFrom (target source : Nat)
  | clear (target : Nat)
  | meet (source target : Nat)

namespace FactEdit

/-- The facts after an edit. -/
def apply (facts : Nat → ConstFact) : FactEdit → Nat → ConstFact
  | update target var value => Function.update facts target ((facts target).update var value).2
  | remove target var => Function.update facts target ((facts target).remove var).2
  | copyFrom target source =>
      Function.update facts target ((facts target).copyFrom (facts source)).2
  | clear target => Function.update facts target .empty
  | meet source target => Function.update facts target ((facts source).meet (facts target))

/-- The facts after some edits, all of them being empty before. -/
def applyAll (edits : List FactEdit) : Nat → ConstFact := edits.foldl apply fun _ => .empty

/-- An edit keeps facts canonical. -/
theorem canonical_apply {facts : Nat → ConstFact} (areCanonical : ∀ i, (facts i).Canonical)
    (edit : FactEdit) (i : Nat) : (edit.apply facts i).Canonical := by
  have replaced {target : Nat} {fact : ConstFact} (isCanonical : fact.Canonical) :
      (Function.update facts target fact i).Canonical := by
    rw [Function.update_apply]
    split
    · exact isCanonical
    · exact areCanonical i
  cases edit with
  | update target var value =>
      refine replaced ?_
      rw [ConstFact.update_snd]
      exact (areCanonical target).set var value
  | remove target var => exact replaced ((areCanonical target).erase var)
  | copyFrom target source =>
      refine replaced ?_
      rw [ConstFact.copyFrom_snd]
      exact areCanonical source
  | clear => exact replaced ConstFact.canonical_empty
  | meet source target => exact replaced ((areCanonical target).meet (facts source))

/-- Edits keep facts canonical. -/
theorem canonical_applyAll (edits : List FactEdit) (i : Nat) : (applyAll edits i).Canonical := by
  refine List.foldlRecOn (motive := fun facts => ∀ i, (facts i).Canonical) edits apply ?_ ?_ i
  · exact fun _ => ConstFact.canonical_empty
  · exact fun _ areCanonical edit _ => canonical_apply areCanonical edit

end FactEdit

/-- Facts represent the values they give: they record nothing that is not known, their structure
is determined by their values, edits report changes of values, and the meet is the one of
values. -/
structure Represents (facts : Nat → ConstFact) : Prop where
  known i : ∀ entry ∈ (facts i).values, entry.2 ≠ .undefined
  eq_iff i j : facts i = facts j ↔ ∀ var, (facts i).get var = (facts j).get var
  get_update i var value asked : ((facts i).update var value).2.get asked =
    if asked = var then value else (facts i).get asked
  update_iff i var value : ((facts i).update var value).1 = true ↔
    ∃ asked, ((facts i).update var value).2.get asked ≠ (facts i).get asked
  remove_fst i var : ((facts i).remove var).1 = (facts i).get var
  get_remove i var asked : ((facts i).remove var).2.get asked =
    if asked = var then .undefined else (facts i).get asked
  copyFrom_snd i j : ((facts i).copyFrom (facts j)).2 = facts j
  copyFrom_iff i j : ((facts i).copyFrom (facts j)).1 = true ↔
    ∃ asked, ((facts i).copyFrom (facts j)).2.get asked ≠ (facts i).get asked
  get_meet i j var :
    ((facts i).meet (facts j)).get var = ((facts i).get var).meet ((facts j).get var)
  meet_comm i j : (facts i).meet (facts j) = (facts j).meet (facts i)
  meet_assoc i j k :
    ((facts i).meet (facts j)).meet (facts k) = (facts i).meet ((facts j).meet (facts k))
  meet_self i : (facts i).meet (facts i) = facts i
  meet_empty i : (facts i).meet .empty = facts i
  empty_meet i : ConstFact.empty.meet (facts i) = facts i
  isLUB_meet i j : IsLUB {facts i, facts j} ((facts i).meet (facts j))

/-- Facts that are edited represent the values they give. Facts are compared by the values of
all variables, and values by the order in which the meet of two of them is the least one above
both. -/
theorem represents_applyAll (edits : List FactEdit) :
    Represents (FactEdit.applyAll edits) ∧
      (∀ fact other : ConstFact, fact ≤ other ↔ ∀ var, fact.get var ≤ other.get var) ∧
      (∀ first second : Value,
        first ≤ second ↔ first = second ∨ first = .undefined ∨ second = .notConstant) ∧
      ∀ first second : Value, IsLUB {first, second} (first.meet second) := by
  have areCanonical := FactEdit.canonical_applyAll edits
  refine ⟨?_, fun _ _ => ConstFact.le_iff, fun _ _ => Value.le_iff_eq_or, Value.isLUB_meet⟩
  exact {
    known i := (areCanonical i).known
    eq_iff i j := (areCanonical i).eq_iff (areCanonical j)
    get_update i var value asked := by
      rw [ConstFact.update_snd]
      exact ConstFact.get_set _ var asked value
    update_iff i _ _ := (areCanonical i).update_fst_iff
    remove_fst _ _ := rfl
    get_remove i var asked := ConstFact.get_erase _ var asked
    copyFrom_snd _ _ := ConstFact.copyFrom_snd _ _
    copyFrom_iff i j := (areCanonical i).copyFrom_fst_iff (areCanonical j)
    get_meet i j var := (areCanonical i).get_meet _ var
    meet_comm i j := (areCanonical i).meet_comm (areCanonical j)
    meet_assoc i j k := (areCanonical i).meet_assoc (areCanonical j) (areCanonical k)
    meet_self i := (areCanonical i).meet_self
    meet_empty i := (areCanonical i).meet_empty
    empty_meet i := (ConstFact.canonical_empty.meet_comm (areCanonical i)).trans
      (areCanonical i).meet_empty
    isLUB_meet i j := (areCanonical i).isLUB_meet _ }

end TacAnalysis
