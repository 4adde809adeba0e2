import Mathlib.Algebra.Order.Ring.Nat
import Mathlib.Data.Nat.Init
import Mathlib.Data.List.Basic

/-!
# Bit masks as sets of small indices

A machine word used as a set: bit `i` is set when `i` is in the set. The code
sets a bit with `m |= 1 << i`, clears it with `m &= ~(1 << i)` and finds the
least element with a count of trailing zeros. Each lemma is about one bit
(`getLsbD`), which is how the invariants of the masks are stated.
-/

namespace Cortos.Lib

variable {w : Nat}

/-- `m |= (1 << i)`. -/
def setBit (m : BitVec w) (i : Nat) : BitVec w := m ||| (1#w <<< i)

/-- `m &= ~(1 << i)`. -/
def clearBit (m : BitVec w) (i : Nat) : BitVec w := m &&& ~~~(1#w <<< i)

/-- The number of trailing zero bits: the index of the lowest set bit, or the
width of the word when no bit is set. -/
def countrZero (m : BitVec w) : Nat := ((List.range w).find? fun i => m.getLsbD i).getD w

/-- The number of set bits. -/
def popcount (m : BitVec w) : Nat := (List.range w).countP fun i => m.getLsbD i

theorem getLsbD_one_shiftLeft (i j : Nat) :
    (1#w <<< i).getLsbD j = (decide (j < w) && decide (j = i)) := by
  rw [BitVec.getLsbD_shiftLeft, BitVec.getLsbD_one]
  rcases Nat.lt_trichotomy j i with h | h | h
  · simp [h, Nat.ne_of_lt h]
  · subst h
    by_cases hw : j < w <;> simp [hw]
    omega
  · have h0 : j - i ≠ 0 := by omega
    simp [h0, Nat.ne_of_gt h]

theorem getLsbD_setBit (m : BitVec w) (i j : Nat) :
    (setBit m i).getLsbD j = (m.getLsbD j || (decide (j < w) && decide (j = i))) := by
  rw [setBit, BitVec.getLsbD_or, getLsbD_one_shiftLeft]

theorem getLsbD_clearBit (m : BitVec w) (i j : Nat) :
    (clearBit m i).getLsbD j = (m.getLsbD j && !decide (j = i)) := by
  rw [clearBit, BitVec.getLsbD_and, BitVec.getLsbD_not, getLsbD_one_shiftLeft]
  by_cases hj : j < w
  · simp [hj]
  · simp [BitVec.getLsbD_of_ge m j (by omega)]

theorem eq_zero_iff_getLsbD (m : BitVec w) : m = 0#w ↔ ∀ i, m.getLsbD i = false := by
  constructor
  · rintro rfl i
    simp
  · intro h
    exact BitVec.eq_of_getLsbD_eq fun i _ => by simp [h i]

/-- The scan finds the least set bit of a non-zero word. -/
theorem countrZero_spec {m : BitVec w} (h : m ≠ 0#w) :
    countrZero m < w ∧ m.getLsbD (countrZero m) = true ∧
      ∀ i < countrZero m, m.getLsbD i = false := by
  obtain ⟨i, hi⟩ : ∃ i, m.getLsbD i = true := by
    by_contra hno
    refine h ((eq_zero_iff_getLsbD m).mpr fun i => ?_)
    exact Bool.eq_false_iff.mpr fun hi => hno ⟨i, hi⟩
  have hsome : ((List.range w).find? fun i => m.getLsbD i).isSome := by
    rw [List.find?_isSome]
    exact ⟨i, List.mem_range.mpr (BitVec.lt_of_getLsbD hi), hi⟩
  obtain ⟨k, hk⟩ := Option.isSome_iff_exists.mp hsome
  have hc : countrZero m = k := by simp [countrZero, hk]
  rw [List.find?_range_eq_some] at hk
  obtain ⟨hset, hmem, hleast⟩ := hk
  rw [hc]
  exact ⟨List.mem_range.mp hmem, hset, fun j hj => by simpa using hleast j hj⟩

/-- A word whose least set bit is known. -/
theorem countrZero_eq {m : BitVec w} {k : Nat} (hset : m.getLsbD k = true)
    (hleast : ∀ i < k, m.getLsbD i = false) : countrZero m = k := by
  have hne : m ≠ 0#w := by
    rintro rfl
    simp at hset
  obtain ⟨-, hset', hleast'⟩ := countrZero_spec hne
  rcases Nat.lt_trichotomy (countrZero m) k with h | h | h
  · rw [hleast _ h] at hset'
    cases hset'
  · exact h
  · rw [hleast' _ h] at hset
    cases hset

/-- The set bits of a word that stands for a set of indices below `n`. -/
theorem popcount_eq {m : BitVec w} {n : Nat} {p : Nat → Bool} (hn : n ≤ w)
    (h : ∀ i, m.getLsbD i = true ↔ i < n ∧ p i = true) : popcount m = (List.range n).countP p := by
  obtain ⟨k, rfl⟩ := Nat.exists_eq_add_of_le hn
  have hlow : (List.range n).countP (fun i => m.getLsbD i) = (List.range n).countP p := by
    refine List.countP_congr fun i hi => ?_
    rw [h i]
    exact ⟨fun hbit => hbit.2, fun hp => ⟨List.mem_range.mp hi, hp⟩⟩
  have hhigh : ((List.range k).map (n + ·)).countP (fun i => m.getLsbD i) = 0 := by
    refine List.countP_eq_zero.mpr fun i hi hbit => ?_
    obtain ⟨j, -, rfl⟩ := List.mem_map.mp hi
    have hlt := ((h _).mp hbit).1
    omega
  rw [popcount, List.range_add, List.countP_append, hlow, hhigh, Nat.add_zero]

end Cortos.Lib
