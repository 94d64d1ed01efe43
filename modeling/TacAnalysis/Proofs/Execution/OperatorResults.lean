/-
# What operators give, in terms of integers

The result of an operator on two words is described without any arithmetic of words:
an integer is reduced to the congruent one in the signed range, a quotient is the one
truncated toward zero, a remainder is what is left modulo 2 ^ 32, bits are those of
two's complement, and the count of a shift is congruent to the right operand and
between 0 and 31. Every description is met by one integer, which is the result that
constant propagation finds.
-/

import Mathlib.Algebra.Order.Ring.Int
import Mathlib.Data.Int.Bitwise
import Mathlib.Data.Int.ModEq
import TacAnalysis.ConstantPropagation
import TacAnalysis.Proofs.Dataflow.ConstantFacts
import TacAnalysis.Proofs.Execution.Arithmetic

namespace TacAnalysis

/-- The integer in the signed range of 32 bits that is congruent to a value. -/
def IsReduction (value word : Int) : Prop :=
  -2 ^ 31 ≤ word ∧ word < 2 ^ 31 ∧ word ≡ value [ZMOD 2 ^ 32]

/-- The quotient of two integers, truncated toward zero. -/
def IsQuotient (dividend divisor quotient : Int) : Prop :=
  quotient.natAbs * divisor.natAbs ≤ dividend.natAbs ∧
    dividend.natAbs < (quotient.natAbs + 1) * divisor.natAbs ∧
    0 ≤ quotient * (dividend * divisor)

/-- What is left of a dividend modulo 2 ^ 32, once the quotient has been reduced: it is
smaller than the divisor and has the sign of the dividend. -/
def IsRemainder (dividend divisor remainder : Int) : Prop :=
  ∃ exact quotient, IsQuotient dividend divisor exact ∧ IsReduction exact quotient ∧
    dividend ≡ quotient * divisor + remainder [ZMOD 2 ^ 32] ∧
    remainder.natAbs < divisor.natAbs ∧ (remainder = 0 ∨ remainder.sign = dividend.sign)

/-- The greatest integer that does not exceed a value divided by a positive divisor. -/
def IsFloor (value divisor floor : Int) : Prop :=
  floor * divisor ≤ value ∧ value < (floor + 1) * divisor

/-- The integer whose bits in two's complement are those of two integers, combined. -/
def IsBitwise (combine : Bool → Bool → Bool) (left right word : Int) : Prop :=
  ∀ position, word.testBit position = combine (left.testBit position) (right.testBit position)

/-- The count of a shift, between 0 and 31. -/
def IsCount (right : Int) (count : Nat) : Prop := count < 32 ∧ (count : Int) ≡ right [ZMOD 32]

/-- The integer that says whether a comparison holds. -/
def IsFlag (holds : Prop) (word : Int) : Prop := word = 1 ∧ holds ∨ word = 0 ∧ ¬ holds

/-- What an operator gives on two integers. -/
def BinOp.IsResult (op : BinOp) (left right word : Int) : Prop :=
  match op with
  | .add => IsReduction (left + right) word
  | .sub => IsReduction (left - right) word
  | .mul => IsReduction (left * right) word
  | .div => ∃ quotient, IsQuotient left right quotient ∧ IsReduction quotient word
  | .rem => IsRemainder left right word
  | .and => IsBitwise Bool.and left right word
  | .or => IsBitwise Bool.or left right word
  | .xor => IsBitwise Bool.xor left right word
  | .shl => ∃ count, IsCount right count ∧ IsReduction (left * 2 ^ count) word
  | .shr => ∃ count, IsCount right count ∧ IsFloor left (2 ^ count) word
  | .ushr => ∃ count unsigned floor, IsCount right count ∧
      (0 ≤ unsigned ∧ unsigned < 2 ^ 32 ∧ unsigned ≡ left [ZMOD 2 ^ 32]) ∧
      IsFloor unsigned (2 ^ count) floor ∧ IsReduction floor word
  | .eq => IsFlag (left = right) word
  | .ne => IsFlag (left ≠ right) word
  | .lt => IsFlag (left < right) word
  | .le => IsFlag (left ≤ right) word
  | .gt => IsFlag (left > right) word
  | .ge => IsFlag (left ≥ right) word

section Descriptions

variable {value dividend divisor quotient remainder : Int}

theorem isReduction_iff {word : Int} : IsReduction value word ↔ word = value.bmod (2 ^ 32) := by
  have isModEq : word ≡ value [ZMOD 2 ^ 32] ↔ (2 ^ 32 : Int) ∣ word - value :=
    Int.modEq_comm.trans Int.modEq_iff_dvd
  rw [eq_comm, Int.bmod_eq_iff (by decide), IsReduction, isModEq]
  rfl

/-- The truncated quotient is not of the other sign than the dividend and the divisor. -/
theorem tdiv_mul_nonneg (dividend divisor : Int) :
    0 ≤ dividend.tdiv divisor * (dividend * divisor) := by
  rcases le_total 0 dividend with isNonneg | isNonpos
  · rcases le_total 0 divisor with divisorNonneg | divisorNonpos
    · exact mul_nonneg (Int.tdiv_nonneg isNonneg divisorNonneg)
        (mul_nonneg isNonneg divisorNonneg)
    · exact mul_nonneg_of_nonpos_of_nonpos
        (Int.tdiv_nonpos_of_nonneg_of_nonpos isNonneg divisorNonpos)
        (mul_nonpos_of_nonneg_of_nonpos isNonneg divisorNonpos)
  · rcases le_total 0 divisor with divisorNonneg | divisorNonpos
    · have isNeg : 0 ≤ -dividend := neg_nonneg.mpr isNonpos
      have isQuotient : 0 ≤ -(dividend.tdiv divisor) := by
        rw [← Int.neg_tdiv]
        exact Int.tdiv_nonneg isNeg divisorNonneg
      exact mul_nonneg_of_nonpos_of_nonpos (neg_nonneg.mp isQuotient)
        (mul_nonpos_of_nonpos_of_nonneg isNonpos divisorNonneg)
    · exact mul_nonneg (Int.tdiv_nonneg_of_nonpos_of_nonpos isNonpos divisorNonpos)
        (mul_nonneg_of_nonpos_of_nonpos isNonpos divisorNonpos)

theorem isQuotient_iff (isNonzero : divisor ≠ 0) :
    IsQuotient dividend divisor quotient ↔ quotient = dividend.tdiv divisor := by
  have isPositive : 0 < divisor.natAbs := Int.natAbs_pos.mpr isNonzero
  have isSize : (dividend.tdiv divisor).natAbs = dividend.natAbs / divisor.natAbs :=
    Int.natAbs_tdiv dividend divisor
  constructor
  · rintro ⟨isLow, isHigh, sameSign⟩
    have sameSize : quotient.natAbs = (dividend.tdiv divisor).natAbs :=
      isSize ▸ (Nat.div_eq_of_lt_le isLow isHigh).symm
    rcases Int.natAbs_eq_natAbs_iff.mp sameSize with isSame | isOpposite
    · exact isSame
    · -- Both signs are possible only for zero.
      have isZero : dividend.tdiv divisor * (dividend * divisor) = 0 := by
        rw [isOpposite, neg_mul, neg_nonneg] at sameSign
        exact le_antisymm sameSign (tdiv_mul_nonneg dividend divisor)
      have quotientIs : dividend.tdiv divisor = 0 := by
        rcases mul_eq_zero.mp isZero with isZero | isZero
        · exact isZero
        · rw [(mul_eq_zero.mp isZero).resolve_right isNonzero, Int.zero_tdiv]
      rw [isOpposite, quotientIs, neg_zero]
  · rintro rfl
    refine ⟨?_, ?_, tdiv_mul_nonneg dividend divisor⟩
    · rw [isSize]
      exact Nat.div_mul_le_self _ _
    · rw [isSize, mul_comm]
      exact Nat.lt_mul_div_succ _ isPositive

/-- Integers of the same sign that are smaller than a word are the same when they are
congruent. -/
theorem eq_of_modEq_of_sign {first second : Int} (isModEq : first ≡ second [ZMOD 2 ^ 32])
    (firstSign : first = 0 ∨ first.sign = dividend.sign)
    (secondSign : second = 0 ∨ second.sign = dividend.sign)
    (firstSize : first.natAbs < 2 ^ 31) (secondSize : second.natAbs < 2 ^ 31) :
    first = second := by
  have sameSign : (0 ≤ first ∧ 0 ≤ second) ∨ (first ≤ 0 ∧ second ≤ 0) := by
    rcases lt_trichotomy dividend 0 with isNegative | isZero | isPositive
    · rw [Int.sign_eq_neg_one_of_neg isNegative] at firstSign secondSign
      simp only [Int.sign_eq_neg_one_iff_neg] at firstSign secondSign
      omega
    · rw [isZero, Int.sign_zero] at firstSign secondSign
      simp only [Int.sign_eq_zero_iff_zero, or_self] at firstSign secondSign
      omega
    · rw [Int.sign_eq_one_of_pos isPositive] at firstSign secondSign
      simp only [Int.sign_eq_one_iff_pos] at firstSign secondSign
      omega
  have isDivided : (2 ^ 32 : Int) ∣ second - first := Int.modEq_iff_dvd.mp isModEq
  omega

/-- The remainder of a truncated division is zero or has the sign of the dividend. -/
theorem tmod_eq_zero_or_sign_eq (dividend divisor : Int) :
    dividend.tmod divisor = 0 ∨ (dividend.tmod divisor).sign = dividend.sign := by
  by_cases isZero : dividend.tmod divisor = 0
  · exact .inl isZero
  · refine .inr ?_
    rcases lt_trichotomy dividend 0 with isNegative | rfl | isPositive
    · have isNonpos : dividend.tmod divisor ≤ 0 := by
        have isNonneg := Int.tmod_nonneg divisor (neg_nonneg.mpr isNegative.le)
        rwa [Int.neg_tmod, neg_nonneg] at isNonneg
      rw [Int.sign_eq_neg_one_of_neg isNegative,
        Int.sign_eq_neg_one_of_neg (lt_of_le_of_ne isNonpos isZero)]
    · exact absurd (Int.zero_tmod divisor) isZero
    · have isNonneg := Int.tmod_nonneg divisor isPositive.le
      rw [Int.sign_eq_one_of_pos isPositive,
        Int.sign_eq_one_of_pos (lt_of_le_of_ne isNonneg (Ne.symm isZero))]

theorem isRemainder_iff (isNonzero : divisor ≠ 0) (isWord : divisor.natAbs ≤ 2 ^ 31) :
    IsRemainder dividend divisor remainder ↔ remainder = dividend.tmod divisor := by
  have isLess : (dividend.tmod divisor).natAbs < divisor.natAbs := by
    rw [Int.natAbs_tmod]
    exact Nat.mod_lt _ (Int.natAbs_pos.mpr isNonzero)
  have hasSign := tmod_eq_zero_or_sign_eq dividend divisor
  have isWhole (quotient : Int) (isReduced : IsReduction (dividend.tdiv divisor) quotient) :
      dividend ≡ quotient * divisor + dividend.tmod divisor [ZMOD 2 ^ 32] := by
    calc dividend = dividend.tdiv divisor * divisor + dividend.tmod divisor :=
          (Int.tdiv_mul_add_tmod dividend divisor).symm
      _ ≡ quotient * divisor + dividend.tmod divisor [ZMOD 2 ^ 32] :=
          (isReduced.2.2.symm.mul_right divisor).add_right _
  constructor
  · rintro ⟨exact, quotient, isExact, isReduced, isLeft, isSmaller, isSigned⟩
    rw [(isQuotient_iff isNonzero).mp isExact] at isReduced
    have isModEq : remainder ≡ dividend.tmod divisor [ZMOD 2 ^ 32] :=
      Int.ModEq.add_left_cancel' _ (isLeft.symm.trans (isWhole quotient isReduced))
    exact eq_of_modEq_of_sign isModEq isSigned hasSign (lt_of_lt_of_le isSmaller isWord)
      (lt_of_lt_of_le isLess isWord)
  · rintro rfl
    exact ⟨_, _, (isQuotient_iff isNonzero).mpr rfl, isReduction_iff.mpr rfl,
      isWhole _ (isReduction_iff.mpr rfl), isLess, hasSign⟩

theorem isFloor_iff {floor : Int} (isPositive : 0 < divisor) :
    IsFloor value divisor floor ↔ floor = value / divisor := by
  rw [IsFloor, ← Int.le_ediv_iff_mul_le isPositive, ← Int.ediv_lt_iff_lt_mul isPositive]
  omega

theorem isCount_iff {right : Int} {count : Nat} :
    IsCount right count ↔ count = (right % 32).toNat := by
  rw [IsCount, Int.ModEq]
  omega

theorem isFlag_iff {holds : Prop} [Decidable holds] {word : Int} :
    IsFlag holds word ↔ word = if holds then 1 else 0 := by
  unfold IsFlag
  split <;> rename_i isTrue <;> simp [isTrue]

end Descriptions

section Bits

/-- The bits of the integer of a word: beyond those of the word, its sign is repeated. -/
theorem testBit_toInt (word : BitVec 32) (position : Nat) :
    word.toInt.testBit position = if position < 32 then word.getLsbD position else word.msb := by
  have isBound : word.toNat < 2 ^ 32 := word.isLt
  have isLow (isHigh : ¬ position < 32) : word.toNat.testBit position = false :=
    Nat.testBit_lt_two_pow (lt_of_lt_of_le isBound (Nat.pow_le_pow_right (by decide) (by omega)))
  rw [BitVec.toInt_eq_msb_cond]
  cases sign : word.msb with
  | true =>
      have isNegative : (word.toNat : Int) - 2 ^ 32 = .negSucc (2 ^ 32 - (word.toNat + 1)) := by
        rw [Int.negSucc_eq]
        omega
      rw [if_pos rfl, Nat.cast_pow, Nat.cast_ofNat, isNegative]
      show (!(2 ^ 32 - (word.toNat + 1)).testBit position) = _
      rw [Nat.testBit_two_pow_sub_succ isBound]
      split
      case isTrue isPosition => simp [isPosition, BitVec.getLsbD]
      case isFalse isPosition => simp [isPosition]
  | false =>
      rw [if_neg Bool.false_ne_true]
      show word.toNat.testBit position = _
      split
      · rfl
      case isFalse isPosition => exact isLow isPosition

/-- Integers with the same bits are the same. -/
theorem eq_of_testBit {first second : Int}
    (sameBits : ∀ position, first.testBit position = second.testBit position) :
    first = second := by
  -- Far enough to the left, the bits are those of the sign.
  have differ (low high : Nat) : ∃ position, low.testBit position ≠ !high.testBit position := by
    refine ⟨low + high, ?_⟩
    rw [Nat.testBit_lt_two_pow (lt_of_le_of_lt (Nat.le_add_right low high) Nat.lt_two_pow_self),
      Nat.testBit_lt_two_pow (lt_of_le_of_lt (Nat.le_add_left high low) Nat.lt_two_pow_self)]
    decide
  cases first with
  | ofNat first =>
      cases second with
      | ofNat second => exact congrArg _ (Nat.eq_of_testBit_eq sameBits)
      | negSucc second =>
          obtain ⟨position, differs⟩ := differ first second
          exact absurd (sameBits position) differs
  | negSucc first =>
      cases second with
      | ofNat second =>
          obtain ⟨position, differs⟩ := differ second first
          exact absurd (sameBits position).symm differs
      | negSucc second =>
          refine congrArg _ (Nat.eq_of_testBit_eq fun position => ?_)
          exact Bool.not_inj (sameBits position)

/-- A word whose bits are combined from those of two words is what combining their integers
gives. -/
theorem isBitwise_iff {combine : Bool → Bool → Bool} {left right word : BitVec 32} {value : Int}
    (areBits : ∀ position < 32, word.getLsbD position =
      combine (left.getLsbD position) (right.getLsbD position)) :
    IsBitwise combine left.toInt right.toInt value ↔ value = word.toInt := by
  have isWord : IsBitwise combine left.toInt right.toInt word.toInt := by
    intro position
    rw [testBit_toInt, testBit_toInt, testBit_toInt]
    split
    case isTrue isPosition => exact areBits position isPosition
    case isFalse =>
        have isLast (word : BitVec 32) : word.msb = word.getLsbD 31 := word.msb_eq_getLsbD_last
        rw [isLast, isLast, isLast]
        exact areBits 31 (by decide)
  constructor
  · intro isValue
    exact eq_of_testBit fun position => (isValue position).trans (isWord position).symm
  · rintro rfl
    exact isWord

end Bits

/-- The word that an operator computes is the only integer that meets its description. -/
theorem BinOp.isResult_iff {op : BinOp} {left right : Int32} {value : Int}
    (isDefined : op.canThrow = true → right ≠ 0) :
    op.IsResult left.toInt right.toInt value ↔ value = (op.compute left right).toInt := by
  have isNonzero (canThrow : op.canThrow = true) : right.toInt ≠ 0 := by
    intro isZero
    exact isDefined canThrow (Int32.toInt_inj.mp isZero)
  have isWord : right.toInt.natAbs ≤ 2 ^ 31 := by
    have isLow := right.le_toInt
    have isHigh := right.toInt_lt
    omega
  have isPower (count : Nat) : (0 : Int) < 2 ^ count := Int.pow_pos (by decide)
  have isReduced (value word : Int) :
      IsReduction value word ↔ word = (Int32.ofInt value).toInt := by
    rw [isReduction_iff, Int32.toInt_ofInt]
    rfl
  have flag (holds : Prop) [Decidable holds] :
      IsFlag holds value ↔ value = (wordOfFlag holds).toInt := by
    rw [isFlag_iff]
    by_cases isTrue : holds
    · simp [isTrue, wordOfFlag]
    · simp [isTrue, wordOfFlag]
  cases op with
  | add => rw [IsResult, isReduced, compute_eq, result]
  | sub => rw [IsResult, isReduced, compute_eq, result]
  | mul => rw [IsResult, isReduced, compute_eq, result]
  | div =>
      rw [compute_eq, result, ← isReduced]
      simp only [IsResult, isQuotient_iff (isNonzero rfl), exists_eq_left]
  | rem =>
      rw [IsResult, isRemainder_iff (isNonzero rfl) isWord, ← Int32.toInt_mod]
      rfl
  | and =>
      show _ ↔ value = (left.toBitVec &&& right.toBitVec).toInt
      exact isBitwise_iff fun position _ => BitVec.getLsbD_and
  | or =>
      show _ ↔ value = (left.toBitVec ||| right.toBitVec).toInt
      exact isBitwise_iff fun position _ => BitVec.getLsbD_or
  | xor =>
      show _ ↔ value = (left.toBitVec ^^^ right.toBitVec).toInt
      exact isBitwise_iff fun position _ => BitVec.getLsbD_xor
  | shl =>
      rw [compute_eq, result, ← isReduced]
      simp only [IsResult, isCount_iff, exists_eq_left]
  | shr =>
      simp only [IsResult, isCount_iff, exists_eq_left, isFloor_iff (isPower _)]
      rw [← toInt_shiftRight]
      rfl
  | ushr =>
      have isUnsigned (unsigned : Int) :
          (0 ≤ unsigned ∧ unsigned < 2 ^ 32 ∧ unsigned ≡ left.toInt [ZMOD 2 ^ 32]) ↔
            unsigned = left.toInt % 2 ^ 32 := by
        rw [Int.ModEq]
        omega
      rw [compute_eq, result, ← isReduced]
      simp only [IsResult, isCount_iff, isUnsigned, isFloor_iff (isPower _), exists_and_left,
        exists_eq_left]
  | eq =>
      rw [IsResult, flag, compute]
      simp only [Int32.toInt_inj]
  | ne =>
      rw [IsResult, flag, compute]
      simp only [ne_eq, Int32.toInt_inj]
  | lt =>
      rw [IsResult, flag, compute]
      simp only [Int32.lt_iff_toInt_lt]
  | le =>
      rw [IsResult, flag, compute]
      simp only [Int32.le_iff_toInt_le]
  | gt =>
      rw [IsResult, flag, compute]
      simp only [Int32.lt_iff_toInt_lt, gt_iff_lt]
  | ge =>
      rw [IsResult, flag, compute]
      simp only [Int32.le_iff_toInt_le, ge_iff_le]

/-- On two constants, an operator has no value exactly when it divides by zero. Otherwise
its value is the constant that the operator stands for, and no other integer meets the
description of the operator. -/
theorem BinExp.evaluate_constants (exp : BinExp) (fact : ConstFact) (left right : Int32)
    (leftIs : fact.get exp.left = .constant left)
    (rightIs : fact.get exp.right = .constant right) :
    (exp.evaluate fact = .undefined ↔ (exp.op = .div ∨ exp.op = .rem) ∧ right = 0) ∧
      (¬((exp.op = .div ∨ exp.op = .rem) ∧ right = 0) →
        ∃ word, exp.evaluate fact = .constant word ∧
          ∀ value, exp.op.IsResult left.toInt right.toInt value ↔ value = word.toInt) := by
  have divides : exp.op.canThrow = true ↔ exp.op = .div ∨ exp.op = .rem := by
    cases exp.op <;> decide
  rw [← divides, BinExp.evaluate, leftIs, rightIs]
  by_cases fails : exp.op.canThrow = true ∧ right = 0
  · refine ⟨⟨fun _ => fails, fun _ => ?_⟩, fun isDefined => absurd fails isDefined⟩
    rw [fails.2]
    exact BinOp.evaluate_of_zero fails.1
  · have isConstant : exp.op.evaluate (.constant left) (.constant right) =
        .constant (exp.op.compute left right) := by
      rw [BinOp.evaluate, if_neg (by simpa using fails)]
    have isDefined (canThrow : exp.op.canThrow = true) : right ≠ 0 := fun isZero =>
      fails ⟨canThrow, isZero⟩
    rw [isConstant]
    refine ⟨⟨fun isUndefined => ?_, fun isZero => absurd isZero fails⟩,
      fun _ => ⟨_, rfl, fun _ => BinOp.isResult_iff isDefined⟩⟩
    cases isUndefined

/-- The least word divided by -1 is a word again. -/
theorem BinExp.evaluate_least_by_minus_one :
    ∃ word, (BinExp.mk .div 0 1).evaluate ⟨[(0, .constant (-2147483648)), (1, .constant (-1))]⟩ =
        .constant word ∧
      ∀ value, BinOp.div.IsResult (-2147483648) (-1) value ↔ value = word.toInt :=
  (BinExp.evaluate_constants (.mk .div 0 1) ⟨[(0, .constant (-2147483648)), (1, .constant (-1))]⟩
    (-2147483648) (-1) rfl rfl).2 (by decide)

example : BinOp.compute .div (-2147483648) (-1) = -2147483648 := by decide

example : BinOp.compute .shl 1 (-31) = 2 := by decide

end TacAnalysis
