/-
# The integers that operators give

Every operator is a function on integers whose result is reduced to 32 signed bits:
division truncates, a shift multiplies or divides by a power of two, its count being
taken modulo 32, and an unsigned shift starts from the unsigned value. The operators
on 32-bit words compute these functions.
-/

import Mathlib.Algebra.Group.Int.Defs
import Mathlib.Algebra.Group.Nat.Defs
import TacAnalysis.Dataflow.Value

namespace TacAnalysis

namespace BinOp

/-- What an operator gives on two integers, before it is reduced to 32 bits. -/
def result (op : BinOp) (left right : Int) : Int :=
  match op with
  | .add => left + right
  | .sub => left - right
  | .mul => left * right
  | .div => left.tdiv right
  | .rem => left.tmod right
  | .and => (BitVec.ofInt 32 left &&& BitVec.ofInt 32 right).toInt
  | .or => (BitVec.ofInt 32 left ||| BitVec.ofInt 32 right).toInt
  | .xor => (BitVec.ofInt 32 left ^^^ BitVec.ofInt 32 right).toInt
  | .shl => left * 2 ^ (right % 32).toNat
  | .shr => left / 2 ^ (right % 32).toNat
  | .ushr => left % 2 ^ 32 / 2 ^ (right % 32).toNat
  | .eq => if left = right then 1 else 0
  | .ne => if left = right then 0 else 1
  | .lt => if left < right then 1 else 0
  | .le => if left ≤ right then 1 else 0
  | .gt => if right < left then 1 else 0
  | .ge => if right ≤ left then 1 else 0

variable {left right : Int32}

section Shifts

/-- The count of a shift is between 0 and 31. -/
theorem toNat_smod (right : Int32) :
    (right.toBitVec.smod 32#32).toNat = (right.toInt % 32).toNat := by
  have isCount : (right.toBitVec.smod 32#32).toInt = right.toInt % 32 := by
    rw [BitVec.toInt_smod]
    show right.toInt.fmod 32 = right.toInt % 32
    rw [Int.fmod_eq_emod_of_nonneg _ (by decide)]
  have isNonneg : 0 ≤ (right.toBitVec.smod 32#32).toInt := by
    rw [isCount]
    exact Int.emod_nonneg _ (by decide)
  have bound := (right.toBitVec.smod 32#32).isLt
  rw [← isCount]
  rw [BitVec.toInt_eq_toNat_cond] at isNonneg ⊢
  split
  · rfl
  · omega

theorem toInt_shiftLeft :
    (left <<< right).toInt = (left.toInt * 2 ^ (right.toInt % 32).toNat).bmod (2 ^ 32) := by
  show (left.toBitVec <<< right.toBitVec.smod 32#32).toInt = _
  rw [BitVec.shiftLeft_eq', BitVec.toInt_shiftLeft, toNat_smod, Nat.shiftLeft_eq, Int.natCast_mul,
    ← Int.bmod_mul_bmod, ← BitVec.toInt_eq_toNat_bmod, Int.natCast_pow]
  rfl

theorem toInt_shiftRight :
    (left >>> right).toInt = left.toInt / 2 ^ (right.toInt % 32).toNat := by
  show (left.toBitVec.sshiftRight' (right.toBitVec.smod 32#32)).toInt = _
  rw [BitVec.toInt_sshiftRight', toNat_smod, Int.shiftRight_eq_div_pow]
  rfl

theorem toInt_ushiftRight : ((left.toUInt32 >>> right.toUInt32).toInt32).toInt =
    (left.toInt % 2 ^ 32 / 2 ^ (right.toInt % 32).toNat).bmod (2 ^ 32) := by
  have unsigned (word : Int32) : (word.toUInt32.toNat : Int) = word.toInt % 2 ^ 32 := by
    show (word.toBitVec.toNat : Int) = word.toBitVec.toInt % 2 ^ 32
    have bound := word.toBitVec.isLt
    rw [BitVec.toInt_eq_toNat_cond]
    split
    · omega
    · omega
  have sameCount : right.toUInt32.toNat % 32 = (right.toInt % 32).toNat := by
    have isWord := unsigned right
    omega
  show (left.toUInt32 >>> right.toUInt32).toBitVec.toInt = _
  rw [BitVec.toInt_eq_toNat_bmod]
  show ((left.toUInt32 >>> right.toUInt32).toNat : Int).bmod (2 ^ 32) = _
  rw [UInt32.toNat_shiftRight, Nat.shiftRight_eq_div_pow, sameCount, Int.natCast_ediv, unsigned,
    Int.natCast_pow]
  rfl

end Shifts

/-- An operator on words computes the integer that it stands for. -/
theorem compute_eq (op : BinOp) (left right : Int32) :
    op.compute left right = .ofInt (op.result left.toInt right.toInt) := by
  have flag (test : Bool) : wordOfFlag test = .ofInt (if test then 1 else 0) := by
    cases test <;> rfl
  have bits (word : Int32) : BitVec.ofInt 32 word.toInt = word.toBitVec := BitVec.ofInt_toInt
  cases op with
  | add => simp [compute, result]
  | sub => simp [compute, result]
  | mul => simp [compute, result]
  | div =>
      rw [← Int32.toInt_inj, Int32.toInt_ofInt]
      exact Int32.toInt_div left right
  | rem =>
      rw [result, ← Int32.toInt_mod, Int32.ofInt_toInt]
      rfl
  | and =>
      rw [result, bits, bits]
      exact (Int32.ofInt_toInt (left &&& right)).symm
  | or =>
      rw [result, bits, bits]
      exact (Int32.ofInt_toInt (left ||| right)).symm
  | xor =>
      rw [result, bits, bits]
      exact (Int32.ofInt_toInt (left ^^^ right)).symm
  | shl =>
      rw [← Int32.toInt_inj, Int32.toInt_ofInt]
      exact toInt_shiftLeft
  | shr =>
      rw [result, ← toInt_shiftRight, Int32.ofInt_toInt]
      rfl
  | ushr =>
      rw [← Int32.toInt_inj, Int32.toInt_ofInt]
      exact toInt_ushiftRight
  | eq => simp [compute, result, flag, Int32.toInt_inj]
  | ne => simp [compute, result, flag, Int32.toInt_inj]
  | lt => simp [compute, result, flag, Int32.lt_iff_toInt_lt]
  | le => simp [compute, result, flag, Int32.le_iff_toInt_le]
  | gt => simp [compute, result, flag, Int32.lt_iff_toInt_lt]
  | ge => simp [compute, result, flag, Int32.le_iff_toInt_le]

end BinOp

end TacAnalysis
