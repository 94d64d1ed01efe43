/-
# The order of constant facts

A value is below another one when more may be known after it: nothing known comes
first, then the constants, then not constant. The meet of two values is their least
upper bound. Facts are compared variable by variable; a fact that records its
variables in ascending order, and only those about which something is known, is
determined by the values it gives. Facts about finitely many variables cannot rise
for ever.
-/

import Mathlib.Data.Fintype.Pi
import Mathlib.Data.List.Sort
import Mathlib.Order.Lattice
import TacAnalysis.Dataflow.ConstFact

namespace TacAnalysis

namespace Value

/-- How high a value is. -/
def height : Value → Fin 3
  | undefined => 0
  | constant _ => 1
  | notConstant => 2

/-- Different constants are not comparable. -/
instance : PartialOrder Value where
  le first second := first = second ∨ first.height < second.height
  le_refl _ := .inl rfl
  le_trans first second third := by
    rintro (rfl | isBelow) (rfl | isAbove)
    · exact .inl rfl
    · exact .inr isAbove
    · exact .inr isBelow
    · exact .inr (isBelow.trans isAbove)
  le_antisymm first second := by
    rintro (rfl | isBelow) (isSame | isAbove)
    · rfl
    · rfl
    · exact isSame.symm
    · exact absurd (isBelow.trans isAbove) (lt_irrefl _)

theorem le_iff {first second : Value} :
    first ≤ second ↔ first = second ∨ first.height < second.height := Iff.rfl

theorem height_lt_of_lt {first second : Value} (isBelow : first < second) :
    first.height < second.height := by
  rcases isBelow.le with rfl | isLower
  · exact absurd isBelow (lt_irrefl _)
  · exact isLower

theorem height_le_of_le {first second : Value} (isBelow : first ≤ second) :
    first.height ≤ second.height := by
  rcases isBelow with rfl | isLower
  · exact le_rfl
  · exact isLower.le

instance : OrderBot Value where
  bot := undefined
  bot_le value := by
    cases value with
    | undefined => exact le_rfl
    | constant => exact .inr (show (0 : Fin 3) < 1 by decide)
    | notConstant => exact .inr (show (0 : Fin 3) < 2 by decide)

theorem undefined_le (value : Value) : undefined ≤ value := bot_le

theorem le_notConstant (value : Value) : value ≤ notConstant := by
  cases value with
  | undefined => exact .inr (show (0 : Fin 3) < 2 by decide)
  | constant => exact .inr (show (1 : Fin 3) < 2 by decide)
  | notConstant => exact le_rfl

theorem constant_le_iff {word : Int32} {value : Value} :
    constant word ≤ value ↔ value = constant word ∨ value = notConstant := by
  cases value <;> simp [le_iff, height, eq_comm]

theorem exists_constant {value : Value} (isKnown : value ≠ .undefined)
    (isLow : value ≠ .notConstant) : ∃ word, value = .constant word := by
  cases value with
  | undefined => exact absurd rfl isKnown
  | constant word => exact ⟨word, rfl⟩
  | notConstant => exact absurd rfl isLow

theorem eq_of_le {first second : Value} (isBelow : first ≤ second)
    (isKnown : first ≠ .undefined) (isNotTop : second ≠ .notConstant) : first = second := by
  cases first with
  | undefined => exact absurd rfl isKnown
  | constant word => exact ((constant_le_iff.mp isBelow).resolve_right isNotTop).symm
  | notConstant => exact absurd (le_antisymm (le_notConstant _) isBelow) isNotTop

/-- The meet of two values is the least value above both. -/
instance : SemilatticeSup Value where
  sup := meet
  le_sup_left first second := by
    cases first <;> cases second <;> simp only [meet, le_notConstant, undefined_le, le_refl]
    split
    · exact le_rfl
    · exact le_notConstant _
  le_sup_right first second := by
    cases first <;> cases second <;> simp only [meet, le_notConstant, undefined_le, le_refl]
    split
    case isTrue isSame => rw [isSame]
    case isFalse => exact le_notConstant _
  sup_le first second third isFirst isSecond := by
    cases first <;> cases second <;> simp only [meet] <;> try assumption
    split
    · exact isFirst
    case isFalse differ =>
        rw [constant_le_iff] at isFirst isSecond
        rcases isFirst with rfl | rfl
        · rcases isSecond with isSame | isTop
          · cases isSame
            exact absurd rfl differ
          · cases isTop
        · exact le_rfl

theorem meet_eq_sup (first second : Value) : first.meet second = first ⊔ second := rfl

/-- A value that is a constant is confirmed by that constant and by not constant; other
values are confirmed by all. -/
def Confirmed (value other : Value) : Prop :=
  ∀ word, value = .constant word → .constant word ≤ other

/-- A relation that puts values under others: unknown ones under all, all of them under not
constant, a meet under what its values are under, and what is under a value under those above
it. -/
structure IsComparison (under : Value → Value → Prop) : Prop where
  undefined (value : Value) : under .undefined value
  notConstant (value : Value) : under value .notConstant
  meet {first second value : Value} :
    under first value → under second value → under (first ⊔ second) value
  trans {first second value : Value} : under first second → second ≤ value → under first value

theorem isComparison_le : IsComparison (· ≤ ·) where
  undefined := undefined_le
  notConstant := le_notConstant
  meet := sup_le
  trans := le_trans

theorem isComparison_confirmed : IsComparison Confirmed where
  undefined _ := nofun
  notConstant _ word _ := le_notConstant (.constant word)
  meet {first second value} firstIs secondIs word isWord := by
    -- Both values are below the constant, and one of them is known.
    have firstIsBelow : first ≤ .constant word := isWord ▸ le_sup_left
    have secondIsBelow : second ≤ .constant word := isWord ▸ le_sup_right
    by_cases isUnknown : first = .undefined
    · by_cases isOther : second = .undefined
      · rw [isUnknown, isOther] at isWord
        cases isWord
      · exact secondIs word (eq_of_le secondIsBelow isOther nofun)
    · exact firstIs word (eq_of_le firstIsBelow isUnknown nofun)
  trans isConfirmed isBelow word isWord := (isConfirmed word isWord).trans isBelow

end Value

section Operators

open Value

variable {op : BinOp} {left right newLeft newRight : Value}

theorem BinOp.evaluate_of_top (isTop : left = .notConstant ∨ right = .notConstant)
    (isSafe : op.canThrow = true → right ≠ .constant 0) :
    op.evaluate left right = .notConstant := by
  have noFailure : (op.canThrow && decide (right = .constant 0)) = false := by
    cases canThrow : op.canThrow with
    | false => rfl
    | true => simpa using isSafe canThrow
  unfold evaluate
  rw [noFailure, if_neg Bool.false_ne_true]
  rcases isTop with rfl | rfl
  · rfl
  · cases left <;> rfl

theorem BinOp.evaluate_of_unknown (isUnknown : left = .undefined ∨ right = .undefined)
    (leftIsLow : left ≠ .notConstant) (rightIsLow : right ≠ .notConstant) :
    op.evaluate left right = .undefined := by
  unfold evaluate
  split
  · rfl
  · rcases isUnknown with rfl | rfl
    · cases right <;> first | rfl | exact absurd rfl rightIsLow
    · cases left <;> first | rfl | exact absurd rfl leftIsLow

theorem BinOp.evaluate_of_zero (canThrow : op.canThrow = true) :
    op.evaluate left (.constant 0) = .undefined := by
  simp [evaluate, canThrow]

/-- More is known of a result when more is known of the operands, unless what is divided is
not constant and the divisor turns out to be zero. -/
theorem BinOp.evaluate_le_evaluate (leftIsBelow : left ≤ newLeft)
    (rightIsBelow : right ≤ newRight)
    (isSafe : op.canThrow = true → newLeft = .notConstant → newRight = .constant 0 →
      right = .constant 0) :
    op.evaluate left right ≤ op.evaluate newLeft newRight := by
  by_cases fails : op.canThrow = true ∧ right = .constant 0
  · rw [fails.2, evaluate_of_zero fails.1]
    exact undefined_le _
  by_cases isTop : newLeft = .notConstant ∨ newRight = .notConstant
  · have noFailure : op.canThrow = true → newRight ≠ .constant 0 := by
      intro canThrow isZero
      subst isZero
      have leftIsTop : newLeft = .notConstant := isTop.resolve_right nofun
      exact fails ⟨canThrow, isSafe canThrow leftIsTop rfl⟩
    rw [evaluate_of_top isTop noFailure]
    exact le_notConstant _
  · rw [not_or] at isTop
    by_cases isUnknown : left = .undefined ∨ right = .undefined
    · have leftIsLow : left ≠ .notConstant := fun isSame =>
        isTop.1 (le_antisymm (le_notConstant _) (isSame ▸ leftIsBelow))
      have rightIsLow : right ≠ .notConstant := fun isSame =>
        isTop.2 (le_antisymm (le_notConstant _) (isSame ▸ rightIsBelow))
      rw [evaluate_of_unknown isUnknown leftIsLow rightIsLow]
      exact undefined_le _
    · rw [not_or] at isUnknown
      rw [Value.eq_of_le leftIsBelow isUnknown.1 isTop.1,
        Value.eq_of_le rightIsBelow isUnknown.2 isTop.2]

/-- A result is constant only when both operands are. -/
theorem BinOp.of_evaluate_eq_constant {word : Int32}
    (isConstant : op.evaluate left right = .constant word) :
    (op.canThrow = true → right ≠ .constant 0) ∧
      ∃ first second, left = .constant first ∧ right = .constant second := by
  have noFailure : op.canThrow = true → right ≠ .constant 0 := by
    intro canThrow isZero
    rw [isZero, evaluate_of_zero canThrow] at isConstant
    cases isConstant
  refine ⟨noFailure, ?_⟩
  by_cases isTop : left = .notConstant ∨ right = .notConstant
  · rw [evaluate_of_top isTop noFailure] at isConstant
    cases isConstant
  · rw [not_or] at isTop
    by_cases isUnknown : left = .undefined ∨ right = .undefined
    · rw [evaluate_of_unknown isUnknown isTop.1 isTop.2] at isConstant
      cases isConstant
    · rw [not_or] at isUnknown
      obtain ⟨first, isFirst⟩ := exists_constant isUnknown.1 isTop.1
      obtain ⟨second, isSecond⟩ := exists_constant isUnknown.2 isTop.2
      exact ⟨first, second, isFirst, isSecond⟩

/-- Constants found once are still found, unless they turn out not to be constant, when
this is so for the operands. -/
theorem BinOp.confirmed_evaluate (leftIs : left.Confirmed newLeft)
    (rightIs : right.Confirmed newRight) :
    (op.evaluate left right).Confirmed (op.evaluate newLeft newRight) := by
  intro word isWord
  obtain ⟨noFailure, first, second, rfl, rfl⟩ := of_evaluate_eq_constant isWord
  rcases constant_le_iff.mp (leftIs first rfl) with rfl | leftIsTop
  · rcases constant_le_iff.mp (rightIs second rfl) with rfl | rightIsTop
    · rw [isWord]
    · rw [evaluate_of_top (.inr rightIsTop) (by rw [rightIsTop]; exact fun _ => nofun)]
      exact le_notConstant _
  · have newNoFailure (canThrow : op.canThrow = true) : newRight ≠ .constant 0 := by
      intro isZero
      rcases constant_le_iff.mp (rightIs second rfl) with isSame | isTop
      · exact noFailure canThrow (isSame.symm.trans isZero)
      · cases isTop.symm.trans isZero
    rw [evaluate_of_top (.inl leftIsTop) newNoFailure]
    exact le_notConstant _

end Operators

namespace ConstFact

variable {fact other target : ConstFact} {var : VarId} {value : Value}

section Values

theorem lookup_cons_eq (entry : VarId × Value) (entries : List (VarId × Value)) (asked : VarId) :
    (entry :: entries).lookup asked =
      if asked = entry.1 then some entry.2 else entries.lookup asked := by
  rw [List.lookup_cons]
  by_cases isFirst : asked = entry.1
  · rw [if_pos isFirst, beq_iff_eq.mpr isFirst]
  · rw [if_neg isFirst, beq_eq_false_iff_ne.mpr isFirst]

theorem lookup_insertValue (entries : List (VarId × Value)) (asked : VarId) :
    (insertValue var value entries).lookup asked =
      if asked = var then some value else entries.lookup asked := by
  induction entries with
  | nil => simp [insertValue, lookup_cons_eq]
  | cons entry entries ih =>
      rw [insertValue]
      split
      · rw [lookup_cons_eq]
      split
      case isTrue isSame =>
          rw [lookup_cons_eq, lookup_cons_eq]
          by_cases isVar : asked = var
          · rw [if_pos isVar, if_pos isVar]
          · rw [if_neg isVar, if_neg isVar, if_neg (isSame ▸ isVar)]
      case isFalse differs =>
          rw [lookup_cons_eq, lookup_cons_eq, ih]
          by_cases isFirst : asked = entry.1
          · have isOther : asked ≠ var := fun isVar => differs (isVar ▸ isFirst)
            rw [if_pos isFirst, if_neg isOther, if_pos isFirst]
          · rw [if_neg isFirst, if_neg isFirst]

theorem get_empty (var : VarId) : empty.get var = .undefined := rfl

theorem get_erase (fact : ConstFact) (var asked : VarId) :
    (fact.erase var).get asked = if asked = var then .undefined else fact.get asked := by
  obtain ⟨entries⟩ := fact
  simp only [get, erase]
  induction entries with
  | nil => simp
  | cons entry entries ih =>
      rw [List.filter_cons]
      by_cases isErased : entry.1 = var
      · rw [if_neg (by simp [isErased]), ih, lookup_cons_eq]
        by_cases isVar : asked = var
        · rw [if_pos isVar, if_pos isVar]
        · rw [if_neg isVar, if_neg isVar, if_neg (isErased ▸ isVar)]
      · rw [if_pos (by simp [isErased]), lookup_cons_eq, lookup_cons_eq]
        by_cases isFirst : asked = entry.1
        · have isOther : asked ≠ var := fun isVar => isErased (isFirst ▸ isVar)
          rw [if_pos isFirst, if_neg isOther, if_pos isFirst]
        · rw [if_neg isFirst, if_neg isFirst, ih]

/-- A fact gives a variable the value it was given last. -/
theorem get_set (fact : ConstFact) (var asked : VarId) (value : Value) :
    (fact.set var value).get asked = if asked = var then value else fact.get asked := by
  cases value with
  | undefined => exact get_erase fact var asked
  | constant word =>
      simp only [get, set, lookup_insertValue]
      split <;> rfl
  | notConstant =>
      simp only [get, set, lookup_insertValue]
      split <;> rfl

end Values

/-- Variables are recorded in ascending order, and only when something is known. -/
structure Canonical (fact : ConstFact) : Prop where
  ascending : fact.values.Pairwise fun first second => first.1 < second.1
  known : ∀ entry ∈ fact.values, entry.2 ≠ .undefined

section Canonical

theorem canonical_empty : empty.Canonical := ⟨List.Pairwise.nil, by simp [empty]⟩

theorem Canonical.erase (isCanonical : fact.Canonical) (var : VarId) :
    (fact.erase var).Canonical where
  ascending := isCanonical.ascending.filter _
  known entry isIn := isCanonical.known entry (List.mem_of_mem_filter isIn)

theorem mem_insertValue {entries : List (VarId × Value)} {entry : VarId × Value}
    (isIn : entry ∈ insertValue var value entries) : entry = (var, value) ∨ entry ∈ entries := by
  induction entries with
  | nil => exact .inl (List.mem_singleton.mp isIn)
  | cons first entries ih =>
      rw [insertValue] at isIn
      split at isIn
      · exact List.mem_cons.mp isIn
      split at isIn
      · rcases List.mem_cons.mp isIn with isNew | isOld
        · exact .inl isNew
        · exact .inr (List.mem_cons_of_mem _ isOld)
      · rcases List.mem_cons.mp isIn with rfl | isLater
        · exact .inr List.mem_cons_self
        · exact (ih isLater).imp_right (List.mem_cons_of_mem _)

theorem ascending_insertValue {entries : List (VarId × Value)}
    (ascending : entries.Pairwise fun first second => first.1 < second.1) :
    (insertValue var value entries).Pairwise fun first second => first.1 < second.1 := by
  induction entries with
  | nil => exact List.pairwise_singleton _ _
  | cons first entries ih =>
      obtain ⟨isLeast, areAscending⟩ := List.pairwise_cons.mp ascending
      rw [insertValue]
      split
      case isTrue isBefore =>
          refine List.pairwise_cons.mpr ⟨fun entry isIn => ?_, ascending⟩
          rcases List.mem_cons.mp isIn with rfl | isLater
          · exact isBefore
          · exact Nat.lt_trans isBefore (isLeast entry isLater)
      split
      case isTrue isSame => exact List.pairwise_cons.mpr ⟨isSame ▸ isLeast, areAscending⟩
      case isFalse notBefore differs =>
          refine List.pairwise_cons.mpr ⟨fun entry isIn => ?_, ih areAscending⟩
          rcases mem_insertValue isIn with rfl | isOld
          · exact Nat.lt_of_le_of_ne (Nat.le_of_not_lt notBefore) (Ne.symm differs)
          · exact isLeast entry isOld

theorem Canonical.set (isCanonical : fact.Canonical) (var : VarId) (value : Value) :
    (fact.set var value).Canonical := by
  have inserted (isKnown : value ≠ .undefined) :
      Canonical ⟨insertValue var value fact.values⟩ := by
    refine ⟨ascending_insertValue isCanonical.ascending, fun entry isIn => ?_⟩
    rcases mem_insertValue isIn with rfl | isOld
    · exact isKnown
    · exact isCanonical.known entry isOld
  cases value with
  | undefined => exact isCanonical.erase var
  | constant word => exact inserted (by simp)
  | notConstant => exact inserted (by simp)

theorem Canonical.meet (isCanonical : target.Canonical) (fact : ConstFact) :
    (fact.meet target).Canonical := by
  rw [ConstFact.meet]
  exact List.foldlRecOn (motive := Canonical) _ _ isCanonical fun target isCanonical entry _ =>
    isCanonical.set entry.1 _

theorem lookup_eq_some_iff {entries : List (VarId × Value)}
    (ascending : entries.Pairwise fun first second => first.1 < second.1) :
    entries.lookup var = some value ↔ (var, value) ∈ entries := by
  induction entries with
  | nil => simp
  | cons entry entries ih =>
      obtain ⟨isLeast, areAscending⟩ := List.pairwise_cons.mp ascending
      rw [lookup_cons_eq, List.mem_cons]
      by_cases isFirst : var = entry.1
      · have isUnique : (var, value) ∉ entries := by
          intro isLater
          exact absurd (isLeast _ isLater) (isFirst ▸ Nat.lt_irrefl _)
        simp [isFirst, Prod.ext_iff, eq_comm, isFirst ▸ isUnique]
      · have differs : (var, value) ≠ entry := fun isSame => isFirst (congrArg Prod.fst isSame)
        simp [isFirst, differs, ih areAscending]

/-- A canonical fact records the values it gives, and no others. -/
theorem Canonical.mem_values_iff (isCanonical : fact.Canonical) :
    (var, value) ∈ fact.values ↔ fact.get var = value ∧ value ≠ .undefined := by
  rw [← lookup_eq_some_iff isCanonical.ascending, get]
  cases isFound : fact.values.lookup var with
  | none => simpa using fun isSame => isSame.symm
  | some found =>
      have isIn := (lookup_eq_some_iff isCanonical.ascending).mp isFound
      have isKnown := isCanonical.known _ isIn
      constructor
      · rintro ⟨⟩
        exact ⟨rfl, isKnown⟩
      · rintro ⟨isValue, -⟩
        exact congrArg some isValue

/-- Canonical facts that give every variable the same value are the same. -/
theorem Canonical.ext (isCanonical : fact.Canonical) (otherIs : other.Canonical)
    (agree : ∀ var, fact.get var = other.get var) : fact = other := by
  have sameValues : fact.values = other.values := by
    have irreflexive : Std.Irrefl fun first second : VarId × Value => first.1 < second.1 :=
      ⟨fun entry => Nat.lt_irrefl entry.1⟩
    have antisymmetric : Std.Antisymm fun first second : VarId × Value => first.1 < second.1 :=
      ⟨fun first second isBelow isAbove => absurd (Nat.lt_trans isBelow isAbove) (Nat.lt_irrefl _)⟩
    apply List.Pairwise.eq_of_mem_iff isCanonical.ascending otherIs.ascending
    rintro ⟨var, value⟩
    rw [isCanonical.mem_values_iff, otherIs.mem_values_iff, agree]
  cases fact
  cases other
  exact congrArg ConstFact.mk sameValues

/-- The meet of two facts gives a variable the meet of its values. -/
theorem Canonical.get_meet (isCanonical : fact.Canonical) (target : ConstFact) (var : VarId) :
    (fact.meet target).get var = fact.get var ⊔ target.get var := by
  have met (entries : List (VarId × Value))
      (ascending : entries.Pairwise fun first second => first.1 < second.1) (target : ConstFact) :
      (ConstFact.meet ⟨entries⟩ target).get var = get ⟨entries⟩ var ⊔ target.get var := by
    induction entries generalizing target with
    | nil => exact (bot_sup_eq _).symm
    | cons entry entries ih =>
        obtain ⟨isLeast, areAscending⟩ := List.pairwise_cons.mp ascending
        have rest := ih areAscending (target.set entry.1 (entry.2.meet (target.get entry.1)))
        have first : get ⟨entry :: entries⟩ var =
            if var = entry.1 then entry.2 else get ⟨entries⟩ var := by
          rw [get, lookup_cons_eq]
          split <;> rfl
        calc (ConstFact.meet ⟨entry :: entries⟩ target).get var
          _ = get ⟨entries⟩ var ⊔
                (target.set entry.1 (entry.2.meet (target.get entry.1))).get var := rest
          _ = get ⟨entry :: entries⟩ var ⊔ target.get var := by
              rw [get_set, first]
              by_cases isFirst : var = entry.1
              · have isLast : get ⟨entries⟩ var = ⊥ := by
                  have noEntry : entries.lookup var = none := by
                    refine Option.eq_none_iff_forall_ne_some.mpr fun value isFound => ?_
                    have isLater := (lookup_eq_some_iff areAscending).mp isFound
                    exact absurd (isLeast _ isLater) (isFirst ▸ Nat.lt_irrefl _)
                  rw [get, noEntry]
                  rfl
                rw [isLast, bot_sup_eq, if_pos isFirst, if_pos isFirst, Value.meet_eq_sup, isFirst]
              · rw [if_neg isFirst, if_neg isFirst]
  exact met fact.values isCanonical.ascending target

end Canonical

section Order

/-- A fact is below another one when it gives every variable a lower value. -/
instance : Preorder ConstFact := Preorder.lift get

theorem le_iff : fact ≤ other ↔ ∀ var, fact.get var ≤ other.get var := Iff.rfl

theorem Canonical.eq_of_le (isCanonical : fact.Canonical) (otherIs : other.Canonical)
    (isBelow : fact ≤ other) (isAbove : other ≤ fact) : fact = other :=
  isCanonical.ext otherIs fun var => (isBelow var).antisymm (isAbove var)

theorem empty_le (fact : ConstFact) : empty ≤ fact := fun var => Value.undefined_le (fact.get var)

theorem Canonical.le_meet (isCanonical : fact.Canonical) (target : ConstFact) :
    fact ≤ fact.meet target ∧ target ≤ fact.meet target := by
  constructor
  · intro var
    show fact.get var ≤ (fact.meet target).get var
    rw [isCanonical.get_meet]
    exact le_sup_left
  · intro var
    show target.get var ≤ (fact.meet target).get var
    rw [isCanonical.get_meet]
    exact le_sup_right

/-- A canonical fact in which nothing is known but of some variables. -/
structure About (vars : List VarId) (fact : ConstFact) : Prop where
  isCanonical : fact.Canonical
  mem : ∀ var, fact.get var ≠ .undefined → var ∈ vars

variable {vars : List VarId}

theorem about_empty : About vars empty := ⟨canonical_empty, fun _ isKnown => absurd rfl isKnown⟩

theorem About.set (isAbout : About vars fact) (isIn : var ∈ vars) (value : Value) :
    About vars (fact.set var value) := by
  refine ⟨isAbout.isCanonical.set var value, fun asked isKnown => ?_⟩
  rw [get_set] at isKnown
  split at isKnown
  case isTrue isVar => exact isVar ▸ isIn
  case isFalse => exact isAbout.mem asked isKnown

theorem About.erase (isAbout : About vars fact) (var : VarId) : About vars (fact.erase var) := by
  refine ⟨isAbout.isCanonical.erase var, fun asked isKnown => isAbout.mem asked ?_⟩
  rw [get_erase] at isKnown
  split at isKnown
  · exact absurd rfl isKnown
  · exact isKnown

theorem About.meet (isAbout : About vars fact) (targetIs : About vars target) :
    About vars (fact.meet target) := by
  refine ⟨targetIs.isCanonical.meet fact, fun asked isKnown => ?_⟩
  rw [isAbout.isCanonical.get_meet] at isKnown
  by_cases isIn : fact.get asked = .undefined
  · have isTarget : target.get asked ≠ .undefined := fun isUnknown =>
      isKnown (by rw [isIn, isUnknown]; rfl)
    exact targetIs.mem asked isTarget
  · exact isAbout.mem asked isIn

/-- Facts about finitely many variables cannot rise for ever. -/
instance : WellFoundedGT { fact // About vars fact } := by
  let heights (fact : { fact // About vars fact }) (var : { var // var ∈ vars }) : Fin 3 :=
    (fact.1.get var).height
  have isStrict : StrictMono heights := by
    intro first second isBelow
    have notAbove : ∃ var, ¬ second.1.get var ≤ first.1.get var := by
      by_contra isAbove
      exact isBelow.not_ge fun var => by_contra fun isNot => isAbove ⟨var, isNot⟩
    obtain ⟨var, isHigher⟩ := notAbove
    have isIn : var ∈ vars := by
      apply second.2.mem var
      intro isUnknown
      rw [isUnknown] at isHigher
      exact isHigher (Value.undefined_le _)
    refine Pi.lt_def.mpr ⟨fun var => Value.height_le_of_le (isBelow.le var.1), ⟨var, isIn⟩, ?_⟩
    exact Value.height_lt_of_lt (lt_of_le_not_ge (isBelow.le var) isHigher)
  exact isStrict.wellFoundedGT

end Order

end ConstFact

end TacAnalysis
