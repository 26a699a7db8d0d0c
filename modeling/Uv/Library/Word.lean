import Mathlib

namespace Uv.Library
namespace Word

/-!
# Bit fields of a machine word

A packed record stores several small numbers in one 64-bit word and reads
them back with a shift and a mask.  The arithmetic behind these operations is
elementary: a field is a quotient followed by a remainder, and clearing or
filling a field changes one digit of a mixed-radix expansion.  The lemmas here
move each bit operation to that arithmetic, where it can be decided.
-/

/-- The value of the `width`-bit field of a word that starts at bit `offset`. -/
def field (word : UInt64) (offset width : Nat) : Nat :=
  word.toNat / 2 ^ offset % 2 ^ width

/-- Shift a field down and mask it. -/
lemma shiftRight_and_mask (word shift mask : UInt64) (offset width : Nat)
    (shiftEq : shift.toNat = offset) (small : offset < 64) (maskEq : mask.toNat = 2 ^ width - 1) :
    ((word >>> shift) &&& mask).toNat = field word offset width := by
  rw [UInt64.toNat_and, UInt64.toNat_shiftRight, shiftEq, maskEq, Nat.mod_eq_of_lt small,
    Nat.and_two_pow_sub_one_eq_mod, Nat.shiftRight_eq_div_pow]
  rfl

/-- The lowest field needs no shift. -/
lemma and_mask (word mask : UInt64) (width : Nat) (maskEq : mask.toNat = 2 ^ width - 1) :
    (word &&& mask).toNat = field word 0 width := by
  rw [UInt64.toNat_and, maskEq, Nat.and_two_pow_sub_one_eq_mod]
  simp [field]

/-- Clearing a field keeps the digits above it and the digits below it. -/
lemma and_not_mask (word mask : UInt64) (offset width : Nat) (fits : offset + width <= 64)
    (maskEq : mask.toNat = (2 ^ width - 1) * 2 ^ offset) :
    (word &&& ~~~mask).toNat =
      2 ^ (offset + width) * (word.toNat / 2 ^ (offset + width)) + word.toNat % 2 ^ offset := by
  have maskLt : mask.toNat < 2 ^ 64 := mask.toNat_lt
  have complement : (~~~mask).toNat = 2 ^ 64 - (mask.toNat + 1) := by
    rw [UInt64.toNat_not]
    change 2 ^ 64 - 1 - mask.toNat = _
    omega
  have lowLt : word.toNat % 2 ^ offset < 2 ^ (offset + width) :=
    Nat.lt_of_lt_of_le (Nat.mod_lt _ (Nat.two_pow_pos offset))
      (Nat.pow_le_pow_right (by decide) (Nat.le_add_right offset width))
  apply Nat.eq_of_testBit_eq
  intro index
  rw [UInt64.toNat_and, complement, Nat.testBit_and, Nat.testBit_two_pow_sub_succ maskLt,
    maskEq, Nat.testBit_mul_two_pow, Nat.testBit_two_pow_sub_one,
    Nat.testBit_two_pow_mul_add _ lowLt, Nat.testBit_mod_two_pow, Nat.testBit_div_two_pow]
  by_cases inWord : index < 64
  · by_cases low : index < offset + width
    · rw [if_pos low]
      by_cases below : index < offset
      · simp [inWord, below, Nat.not_le.mpr below]
      · have inside : index - offset < width := by omega
        simp [inWord, below, Nat.not_lt.mp below, inside]
    · rw [if_neg low]
      have outside : ¬ index - offset < width := by omega
      have shifted : index - (offset + width) + (offset + width) = index := by omega
      simp [inWord, outside, shifted]
  · have empty : word.toNat.testBit index = false :=
      Nat.testBit_lt_two_pow (Nat.lt_of_lt_of_le word.toNat_lt
        (Nat.pow_le_pow_right (by decide) (Nat.not_lt.mp inWord)))
    have high : ¬ index < offset + width := by omega
    have shifted : index - (offset + width) + (offset + width) = index := by omega
    rw [if_neg high, shifted, empty, Bool.false_and]

/-- Filling an empty field adds the value at the field's weight. -/
lemma or_shiftLeft (word value shift : UInt64) (offset width : Nat)
    (shiftEq : shift.toNat = offset) (fits : offset + width <= 64) (small : offset < 64)
    (valueLt : value.toNat < 2 ^ width) (empty : field word offset width = 0) :
    (word ||| value <<< shift).toNat = word.toNat + value.toNat * 2 ^ offset := by
  have shifted : (value <<< shift).toNat = value.toNat * 2 ^ offset := by
    rw [UInt64.toNat_shiftLeft, shiftEq, Nat.mod_eq_of_lt small, Nat.shiftLeft_eq]
    apply Nat.mod_eq_of_lt
    calc
      value.toNat * 2 ^ offset < 2 ^ width * 2 ^ offset :=
        (Nat.mul_lt_mul_right (Nat.two_pow_pos offset)).mpr valueLt
      _ = 2 ^ (offset + width) := by rw [<- Nat.pow_add, Nat.add_comm]
      _ <= 2 ^ 64 := Nat.pow_le_pow_right (by decide) fits
  -- The bits of the shifted value lie in the field, which is empty.
  have apart : word.toBitVec &&& (value <<< shift).toBitVec = 0#64 := by
    apply BitVec.eq_of_toNat_eq
    rw [BitVec.toNat_and, UInt64.toNat_toBitVec, UInt64.toNat_toBitVec, shifted]
    apply Nat.eq_of_testBit_eq
    intro index
    rw [Nat.testBit_and, Nat.testBit_mul_two_pow, BitVec.toNat_zero, Nat.zero_testBit]
    by_contra common
    simp only [Bool.and_eq_false_imp, Classical.not_imp, Bool.not_eq_false, decide_eq_true_eq]
      at common
    rcases common with ⟨own, above, bit⟩
    have digit : index - offset < width :=
      (Nat.pow_lt_pow_iff_right (by decide)).mp ((Nat.ge_two_pow_of_testBit bit).trans_lt valueLt)
    have unset := congrArg (Nat.testBit · (index - offset)) empty
    simp only [field, Nat.testBit_mod_two_pow, Nat.testBit_div_two_pow, Nat.zero_testBit, digit,
      decide_true, Bool.true_and, Nat.sub_add_cancel above, own] at unset
    cases unset
  have sum := BitVec.toNat_add_of_and_eq_zero apart
  rw [BitVec.add_eq_or_of_and_eq_zero _ _ apart] at sum
  exact sum.trans (congrArg (word.toNat + ·) shifted)

end Word
end Uv.Library
