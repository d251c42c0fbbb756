import Mathlib.Algebra.Order.Ring.Int

/-!
# Smoothing filters on machine words

A filter keeps a running value and moves it by a fraction of its distance to each new sample.  Over
the integers, with the fraction rounded towards zero, it never leaves the interval between the two
(`approach_le`, `le_approach`).  Code stores the value in an unsigned word and computes the distance
in signed words; as long as the distance fits, nothing wraps and the word holds the integer
(`toNat_approach`).
-/

namespace ThunderboltStack.Lib

/-- Move `x` towards `s` by the `k`-th part of the distance. -/
def approach (k x s : ℤ) : ℤ :=
  x + (s - x).tdiv k

section Integers

variable {k x s : ℤ}

theorem approach_of_le (h : x ≤ s) : approach k x s = x + (s - x) / k := by
  rw [approach, Int.tdiv_eq_ediv_of_nonneg (by omega)]

theorem approach_of_ge (h : s ≤ x) : approach k x s = x - (x - s) / k := by
  have hneg : s - x = -(x - s) := by omega
  rw [approach, hneg, Int.neg_tdiv, Int.tdiv_eq_ediv_of_nonneg (by omega)]
  rfl

theorem approach_le (hk : 1 ≤ k) : approach k x s ≤ max x s := by
  rcases le_total x s with h | h
  · rw [approach_of_le h, max_eq_right h]
    have hle : (s - x) / k ≤ s - x := Int.ediv_le_self _ (by omega)
    omega
  · rw [approach_of_ge h, max_eq_left h]
    have hnonneg : 0 ≤ (x - s) / k := Int.ediv_nonneg (by omega) (by omega)
    omega

theorem le_approach (hk : 1 ≤ k) : min x s ≤ approach k x s := by
  rcases le_total x s with h | h
  · rw [approach_of_le h, min_eq_left h]
    have hnonneg : 0 ≤ (s - x) / k := Int.ediv_nonneg (by omega) (by omega)
    omega
  · rw [approach_of_ge h, min_eq_right h]
    have hle : (x - s) / k ≤ x - s := Int.ediv_le_self _ (by omega)
    omega

end Integers

section Words

variable {a b : UInt32} {x k : Int32}

theorem toInt_toInt32 (a : UInt32) : a.toInt32.toInt = (a.toNat : ℤ).bmod (2 ^ 32) := by
  rw [← Int32.toInt_toBitVec, UInt32.toBitVec_toInt32, BitVec.toInt_eq_toNat_bmod]
  rfl

/-- The difference of two words, computed in signed words, is exact if it fits. -/
theorem toInt_sub_toInt32 (hlo : -(2 ^ 31 : ℤ) ≤ (a.toNat : ℤ) - b.toNat)
    (hhi : (a.toNat : ℤ) - b.toNat < 2 ^ 31) :
    (a.toInt32 - b.toInt32).toInt = (a.toNat : ℤ) - b.toNat := by
  rw [Int32.toInt_sub, toInt_toInt32, toInt_toInt32, Int.sub_bmod_bmod, Int.bmod_sub_bmod]
  exact Int.bmod_eq_of_le (by omega) (by omega)

theorem toNat_toUInt32 (x : Int32) : (x.toUInt32.toNat : ℤ) = x.toInt % 2 ^ 32 := by
  rw [← UInt32.toNat_toBitVec, Int32.toBitVec_toUInt32, ← Int32.toInt_toBitVec,
    BitVec.toInt_eq_toNat_bmod]
  have hlt : x.toBitVec.toNat < 2 ^ 32 := x.toBitVec.isLt
  have hcast : ((2 ^ 32 : ℕ) : ℤ) = 2 ^ 32 := by simp
  rw [← hcast, Int.bmod_emod, hcast]
  omega

/-- Adding a signed word to a word does not wrap if the sum is a word. -/
theorem toNat_add_toUInt32 (hlo : 0 ≤ (a.toNat : ℤ) + x.toInt)
    (hhi : (a.toNat : ℤ) + x.toInt < 2 ^ 32) :
    ((a + x.toUInt32).toNat : ℤ) = a.toNat + x.toInt := by
  have hx := toNat_toUInt32 x
  rw [UInt32.toNat_add]
  push_cast
  rw [hx]
  omega

/-- A filter in machine words computes the filter on integers if the distance fits. -/
theorem toNat_approach (hk : 1 ≤ k.toInt) (hlo : -(2 ^ 31 : ℤ) ≤ (b.toNat : ℤ) - a.toNat)
    (hhi : (b.toNat : ℤ) - a.toNat < 2 ^ 31) :
    ((a + ((b.toInt32 - a.toInt32) / k).toUInt32).toNat : ℤ) =
      approach k.toInt a.toNat b.toNat := by
  have hdiv : ((b.toInt32 - a.toInt32) / k).toInt = ((b.toNat : ℤ) - a.toNat).tdiv k.toInt := by
    rw [Int32.toInt_div_of_ne_right, toInt_sub_toInt32 hlo hhi]
    rintro rfl
    have hneg : (-1 : Int32).toInt = -1 := rfl
    omega
  have hsum : (a.toNat : ℤ) + ((b.toInt32 - a.toInt32) / k).toInt =
      approach k.toInt a.toNat b.toNat := by rw [hdiv, approach]
  have ha := a.toNat_lt
  have hb := b.toNat_lt
  rw [toNat_add_toUInt32, hsum]
  · rw [hsum]
    calc (0 : ℤ) ≤ min (a.toNat : ℤ) b.toNat := by omega
      _ ≤ approach k.toInt a.toNat b.toNat := le_approach hk
  · rw [hsum]
    calc approach k.toInt a.toNat b.toNat ≤ max (a.toNat : ℤ) b.toNat := approach_le hk
      _ < 2 ^ 32 := by omega

end Words

end ThunderboltStack.Lib
