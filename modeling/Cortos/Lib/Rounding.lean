import Mathlib.Algebra.Order.Floor.Semiring
import Mathlib.Algebra.Order.Floor.Ring
import Mathlib.Algebra.Order.Field.Basic
import Mathlib.Tactic.Ring

/-!
# Conversions that round up

A conversion multiplies by a rate and rounds up to a whole number. Everything a caller
may rely on follows from that: a larger quantity never gives a smaller result, something
never gives nothing, and splitting a quantity in two costs at most one.

- `RoundsUp r n conv`: below `n`, `conv` is the ceiling of the product with `r`, an
  element of any ordered field with a floor.
- `natCast_eq_ceil_div`: a quotient is rounded up exactly when it is the least number of
  divisors that cover the dividend. A machine division is compared with the ceiling
  through this property, not through its formula.
- `mul_add_lt_mul_self`: two numbers below `n` have a product that leaves room, below
  `n * n`, for a rounding term up to `2 * n - 2`.
-/

namespace Cortos.Lib

section Rate

variable {K : Type*} [Field K] [LinearOrder K] [FloorRing K]

/-- On numbers below `n`, `conv` is the product with `r`, rounded up. -/
def RoundsUp (r : K) (n : ℕ) (conv : ℕ → ℕ) : Prop := ∀ x < n, (conv x : ℤ) = ⌈x * r⌉

namespace RoundsUp

variable {r r' : K} {n : ℕ} {conv conv' : ℕ → ℕ} {x y : ℕ}

/-- A whole number that is large enough is not exceeded. -/
theorem le_of_mul_le (h : RoundsUp r n conv) (hx : x < n) {m : ℕ} (hm : (x : K) * r ≤ m) :
    conv x ≤ m := by
  have hceil : ⌈(x : K) * r⌉ ≤ (m : ℤ) := Int.ceil_le.mpr (by rwa [Int.cast_natCast])
  rw [← h x hx] at hceil
  exact Int.ofNat_le.mp hceil

/-- `k` of the smaller units are one of the larger. -/
theorem rescale (h : RoundsUp r n conv) (h' : RoundsUp r' n conv') {k : ℕ} (hr : r = k * r')
    (hx : x < n) (hkx : k * x < n) : conv x = conv' (k * x) := by
  have hproduct : (x : K) * r = ((k * x : ℕ) : K) * r' := by
    rw [hr, Nat.cast_mul]
    ring
  have hceil := h x hx
  rw [hproduct, ← h' _ hkx] at hceil
  exact Int.ofNat_inj.mp hceil

variable [IsStrictOrderedRing K]

theorem mono (h : RoundsUp r n conv) (hr : 0 ≤ r) (hxy : x ≤ y) (hy : y < n) :
    conv x ≤ conv y := by
  have hle : (x : K) * r ≤ y * r := mul_le_mul_of_nonneg_right (Nat.cast_le.mpr hxy) hr
  have hceil := Int.ceil_mono hle
  rw [← h x (Nat.lt_of_le_of_lt hxy hy), ← h y hy] at hceil
  exact Int.ofNat_le.mp hceil

/-- Something is not rounded to nothing. -/
theorem pos (h : RoundsUp r n conv) (hr : 0 < r) (hx : x < n) (hpos : 0 < x) : 0 < conv x := by
  have hceil : 0 < ⌈(x : K) * r⌉ := Int.ceil_pos.mpr (mul_pos (Nat.cast_pos.mpr hpos) hr)
  rw [← h x hx] at hceil
  exact Int.natCast_pos.mp hceil

/-- Two parts are rounded up at least as far as the whole. -/
theorem add_le (h : RoundsUp r n conv) (hxy : x + y < n) : conv (x + y) ≤ conv x + conv y := by
  have hceil := Int.ceil_add_le ((x : K) * r) (y * r)
  rw [← add_mul, ← Nat.cast_add, ← h _ hxy, ← h x (by omega), ← h y (by omega)] at hceil
  exact_mod_cast hceil

/-- And by at most one more. -/
theorem add_le_succ (h : RoundsUp r n conv) (hxy : x + y < n) :
    conv x + conv y ≤ conv (x + y) + 1 := by
  have hceil := Int.ceil_add_ceil_le ((x : K) * r) (y * r)
  rw [← add_mul, ← Nat.cast_add, ← h _ hxy, ← h x (by omega), ← h y (by omega)] at hceil
  exact_mod_cast hceil

end RoundsUp

/-- A quotient is rounded up if it is the least number of divisors that cover the
dividend. -/
theorem natCast_eq_ceil_div [IsStrictOrderedRing K] {a b q : ℕ} (hb : 0 < b)
    (hq : ∀ n, q ≤ n ↔ a ≤ n * b) : (q : ℤ) = ⌈(a : K) / b⌉ := by
  have hceil : ∀ n : ℕ, ⌈(a : K) / b⌉₊ ≤ n ↔ a ≤ n * b := by
    intro n
    rw [Nat.ceil_le, div_le_iff₀ (Nat.cast_pos.mpr hb), ← Nat.cast_mul, Nat.cast_le]
  have heq : q = ⌈(a : K) / b⌉₊ := eq_of_forall_ge_iff fun n => (hq n).trans (hceil n).symm
  have hnonneg : (0 : K) ≤ a / b := div_nonneg (Nat.cast_nonneg a) (Nat.cast_nonneg b)
  rw [heq, Int.natCast_ceil_eq_ceil hnonneg]

end Rate

/-- The room that is left above a product. -/
theorem mul_add_lt_mul_self {n x y c : ℕ} (hx : x < n) (hy : y < n) (hc : c + 1 < 2 * n) :
    x * y + c < n * n := by
  obtain ⟨m, rfl⟩ := Nat.exists_eq_succ_of_ne_zero (Nat.ne_zero_of_lt hx)
  have hproduct : x * y ≤ m * m :=
    Nat.mul_le_mul (Nat.le_of_lt_succ hx) (Nat.le_of_lt_succ hy)
  have hsquare : (m + 1) * (m + 1) = m * m + 2 * m + 1 := by ring
  rw [Nat.succ_eq_add_one, hsquare]
  omega

end Cortos.Lib
