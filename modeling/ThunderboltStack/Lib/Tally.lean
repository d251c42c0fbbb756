import Mathlib.Data.Set.Card
import Mathlib.Logic.Function.Basic

/-!
# Counters of flagged items

A counter beside a table of items is right if it is the number of items with a flag.  The rules say
how the number follows when one item of the table is replaced.
-/

namespace ThunderboltStack.Lib

variable {α β : Type} [DecidableEq α] {flag : β → Bool} {table table' : α → β} {a : α} {b : β}
  {n : ℕ}

/-- Exactly `n` items of the table have the flag. -/
def Tally (flag : β → Bool) (table : α → β) (n : ℕ) : Prop :=
  {a | flag (table a)}.encard = n

omit [DecidableEq α] in
theorem Tally.congr (h : Tally flag table n) (heq : ∀ a, flag (table' a) = flag (table a)) :
    Tally flag table' n := by
  simpa only [Tally, heq] using h

omit [DecidableEq α] in
theorem tally_zero (h : ∀ a, flag (table a) = false) : Tally flag table 0 := by
  simp [Tally, h]

omit [DecidableEq α] in
/-- Nothing is counted if no item has the flag. -/
theorem Tally.eq_zero (h : Tally flag table n) (hnone : ∀ a, flag (table a) = false) : n = 0 := by
  have hzero : ((n : ℕ) : ℕ∞) = ((0 : ℕ) : ℕ∞) := h.symm.trans (tally_zero hnone)
  exact_mod_cast hzero

omit [DecidableEq α] in
theorem Tally.pos (h : Tally flag table n) (ha : flag (table a)) : 0 < n := by
  have hmem : a ∈ {a | flag (table a)} := ha
  have hne : ((n : ℕ) : ℕ∞) ≠ 0 := by
    rw [← h]
    exact Set.encard_ne_zero_of_mem hmem
  exact Nat.pos_of_ne_zero fun hzero ↦ hne (by simp [hzero])

theorem Tally.set (h : Tally flag table n) (ha : flag (table a) = false) (hb : flag b) :
    Tally flag (Function.update table a b) (n + 1) := by
  have hset : {x | flag (Function.update table a b x)} = insert a {x | flag (table x)} := by
    ext x
    by_cases hx : x = a
    · simp [hx, hb]
    · simp [hx]
  rw [Tally, hset, Set.encard_insert_of_notMem (by simp [ha]), h]
  rfl

theorem Tally.clear (h : Tally flag table n) (ha : flag (table a)) (hb : flag b = false) :
    Tally flag (Function.update table a b) (n - 1) := by
  have hset : {x | flag (Function.update table a b x)} = {x | flag (table x)} \ {a} := by
    ext x
    by_cases hx : x = a
    · simp [hx, hb]
    · simp [hx]
  have hcard := Set.encard_sdiff_singleton_of_mem (show a ∈ {x | flag (table x)} from ha)
  rw [Tally, hset, hcard, h]
  simp

/-- An item keeps the flag, or keeps being without it. -/
theorem Tally.keep (h : Tally flag table n) (hb : flag b = flag (table a)) :
    Tally flag (Function.update table a b) n := by
  apply h.congr
  intro x
  by_cases hx : x = a
  · simp [hx, hb]
  · simp [hx]

/-- The number follows the flag of the item that is replaced. -/
theorem Tally.update {table : α → Bool} (h : Tally id table n) (a : α) (b : Bool) :
    ∃ m, Tally id (Function.update table a b) m ∧ (m : ℤ) = n + b.toNat - (table a).toNat := by
  cases hb : b <;> cases ha : table a
  · exact ⟨n, h.keep (by simp [ha]), by simp⟩
  · have hpos : 0 < n := h.pos (show id (table a) = true by simp [ha])
    exact ⟨n - 1, h.clear (by simp [ha]) rfl, by simp; omega⟩
  · exact ⟨n + 1, h.set (by simp [ha]) rfl, by simp⟩
  · exact ⟨n, h.keep (by simp [ha]), by simp⟩

end ThunderboltStack.Lib
