import Mathlib.Algebra.Order.Ring.Nat
import Mathlib.Data.Nat.Init

/-!
# Rounding addresses to a power of two

`v & ~(a - 1)` and `(v + (a - 1)) & ~(a - 1)` on words of any width, for an alignment
`a = 2 ^ m`. Rounding down is exact arithmetic (`toNat_alignDown`). Rounding up first adds,
and the sum may leave the word: then the result is zero (`toNat_alignUp_of_wrap`), otherwise
it is the next multiple (`toNat_alignUp`).
-/

namespace Cortos.Lib

variable {w m : Nat}

/-- `v & ~(a - 1)`. -/
def alignDown (v a : BitVec w) : BitVec w := v &&& ~~~(a - 1#w)

/-- `(v + (a - 1)) & ~(a - 1)`. -/
def alignUp (v a : BitVec w) : BitVec w := (v + (a - 1#w)) &&& ~~~(a - 1#w)

theorem alignUp_eq (v a : BitVec w) : alignUp v a = alignDown (v + (a - 1#w)) a := rfl

/-- The mask of the low bits. -/
theorem toNat_twoPow_sub_one (hm : m < w) : (BitVec.twoPow w m - 1#w).toNat = 2 ^ m - 1 := by
  have hlt : 2 ^ m < 2 ^ w := Nat.pow_lt_pow_right (by decide) hm
  have hpos : 0 < 2 ^ m := Nat.two_pow_pos m
  rw [BitVec.toNat_sub_of_le, BitVec.toNat_twoPow_of_lt hm, BitVec.toNat_ofNat,
    Nat.mod_eq_of_lt (by omega)]
  rw [BitVec.le_def, BitVec.toNat_twoPow_of_lt hm, BitVec.toNat_ofNat, Nat.mod_eq_of_lt (by omega)]
  exact hpos

theorem getLsbD_twoPow_sub_one (hm : m < w) (i : Nat) :
    (BitVec.twoPow w m - 1#w).getLsbD i = decide (i < m) := by
  rw [← BitVec.testBit_toNat, toNat_twoPow_sub_one hm, Nat.testBit_two_pow_sub_one]

theorem alignDown_eq_shift (v : BitVec w) (hm : m < w) :
    alignDown v (BitVec.twoPow w m) = (v >>> m) <<< m := by
  refine BitVec.eq_of_getLsbD_eq fun i hi => ?_
  rw [alignDown, BitVec.getLsbD_and, BitVec.getLsbD_not, getLsbD_twoPow_sub_one hm,
    BitVec.getLsbD_shiftLeft, BitVec.getLsbD_ushiftRight]
  by_cases him : i < m
  · simp [him]
  · rw [Nat.add_sub_cancel' (Nat.le_of_not_lt him)]
    simp [him, hi]

/-- Rounding down, in arithmetic. -/
theorem toNat_alignDown (v : BitVec w) (hm : m < w) :
    (alignDown v (BitVec.twoPow w m)).toNat = v.toNat / 2 ^ m * 2 ^ m := by
  have hle : v.toNat / 2 ^ m * 2 ^ m ≤ v.toNat := Nat.div_mul_le_self _ _
  rw [alignDown_eq_shift v hm, BitVec.toNat_shiftLeft, BitVec.toNat_ushiftRight,
    Nat.shiftRight_eq_div_pow, Nat.shiftLeft_eq]
  exact Nat.mod_eq_of_lt (Nat.lt_of_le_of_lt hle v.isLt)

theorem toNat_alignDown_of_dvd {v : BitVec w} (hm : m < w) (h : 2 ^ m ∣ v.toNat) :
    (alignDown v (BitVec.twoPow w m)).toNat = v.toNat := by
  rw [toNat_alignDown v hm, Nat.div_mul_cancel h]

/-- Rounding up, when the sum fits the word. -/
theorem toNat_alignUp {v : BitVec w} (hm : m < w) (hfit : v.toNat + (2 ^ m - 1) < 2 ^ w) :
    (alignUp v (BitVec.twoPow w m)).toNat = (v.toNat + (2 ^ m - 1)) / 2 ^ m * 2 ^ m := by
  rw [alignUp_eq, toNat_alignDown _ hm, BitVec.toNat_add, toNat_twoPow_sub_one hm,
    Nat.mod_eq_of_lt hfit]

/-- Rounding up, when the sum wraps: the carry leaves less than one unit. -/
theorem toNat_alignUp_of_wrap {v : BitVec w} (hm : m < w)
    (hwrap : 2 ^ w ≤ v.toNat + (2 ^ m - 1)) : (alignUp v (BitVec.twoPow w m)).toNat = 0 := by
  have hlt := v.isLt
  have hpow : 2 ^ m < 2 ^ w := Nat.pow_lt_pow_right (by decide) hm
  have hpos : 0 < 2 ^ m := Nat.two_pow_pos m
  have hsum : (v.toNat + (2 ^ m - 1)) % 2 ^ w < 2 ^ m := by
    rw [Nat.mod_eq_sub_mod hwrap, Nat.mod_eq_of_lt (by omega)]
    omega
  rw [alignUp_eq, toNat_alignDown _ hm, BitVec.toNat_add, toNat_twoPow_sub_one hm,
    Nat.div_eq_of_lt hsum, Nat.zero_mul]

theorem dvd_alignUp (v : BitVec w) (hm : m < w) :
    2 ^ m ∣ (alignUp v (BitVec.twoPow w m)).toNat := by
  rw [alignUp_eq, toNat_alignDown _ hm]
  exact Nat.dvd_mul_left _ _

theorem le_alignUp {v : BitVec w} (hm : m < w) (hfit : v.toNat + (2 ^ m - 1) < 2 ^ w) :
    v.toNat ≤ (alignUp v (BitVec.twoPow w m)).toNat := by
  have hpos : 0 < 2 ^ m := Nat.two_pow_pos m
  have hmod := Nat.mod_lt (v.toNat + (2 ^ m - 1)) hpos
  have hdiv := Nat.div_add_mod' (v.toNat + (2 ^ m - 1)) (2 ^ m)
  rw [toNat_alignUp hm hfit]
  omega

theorem alignUp_zero (hm : m < w) : (alignUp 0#w (BitVec.twoPow w m)).toNat = 0 := by
  have hlt : 2 ^ m < 2 ^ w := Nat.pow_lt_pow_right (by decide) hm
  have hpos : 0 < 2 ^ m := Nat.two_pow_pos m
  have hzero : (0#w).toNat = 0 := BitVec.toNat_zero
  rw [toNat_alignUp hm (by omega), hzero, Nat.zero_add, Nat.div_eq_of_lt (by omega), Nat.zero_mul]

end Cortos.Lib
