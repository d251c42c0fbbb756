import Mathlib.Algebra.Order.Ring.Int
import Mathlib.Data.Int.ModEq
import Mathlib.Data.List.Range

/-!
# Windows of a circular array

The occupied part of a circular array of `n` slots is a window: `count` slots from `start` on,
modulo `n`.  A producer adds a slot behind the window, a consumer takes its first one.  As long as
fewer than `n` slots are occupied, the two ends tell the number of slots between them.
-/

namespace ThunderboltStack.Lib

/-- The `count` slots from `start` on. -/
def window (n start count : ℕ) : List ℕ :=
  (List.range count).map fun i ↦ (start + i) % n

variable {n start count : ℕ}

@[simp]
theorem window_zero : window n start 0 = [] := rfl

@[simp]
theorem length_window : (window n start count).length = count := by
  simp [window]

/-- The producer's end. -/
theorem window_succ :
    window n start (count + 1) = window n start count ++ [(start + count) % n] := by
  simp [window, List.range_succ]

/-- The consumer's end. -/
theorem window_succ' (hstart : start < n) :
    window n start (count + 1) = start :: window n ((start + 1) % n) count := by
  rw [window, List.range_succ_eq_map, List.map_cons, List.map_map, Nat.add_zero,
    Nat.mod_eq_of_lt hstart]
  congr 1
  apply List.map_congr_left
  intro i _
  simp only [Function.comp_apply, Nat.mod_add_mod]
  congr 1
  omega

/-- A window and the one behind it. -/
theorem window_add (more : ℕ) :
    window n start (count + more) = window n start count ++ window n (start + count) more := by
  simp [window, List.range_add, Nat.add_assoc]

/-- Windows that begin at the same slot. -/
theorem window_congr {start' : ℕ} (h : start % n = start' % n) :
    window n start count = window n start' count := by
  apply List.map_congr_left
  intro i _
  rw [← Nat.mod_add_mod, h, Nat.mod_add_mod]

/-- Two places less than `n` apart are different slots. -/
theorem slot_ne {i j : ℕ} (hij : i < j) (hj : j < i + n) : (start + i) % n ≠ (start + j) % n := by
  intro heq
  have hdvd : n ∣ start + j - (start + i) := (Nat.modEq_iff_dvd' (by omega)).1 heq
  have hle : n ≤ start + j - (start + i) := Nat.le_of_dvd (by omega) hdvd
  omega

/-- A window and the one behind it have no slot in common, if together they fit. -/
theorem disjoint_window {more : ℕ} (hle : count + more ≤ n) {slot : ℕ}
    (hslot : slot ∈ window n start count) : slot ∉ window n (start + count) more := by
  intro hmore
  obtain ⟨i, hi, rfl⟩ := List.mem_map.1 hslot
  obtain ⟨j, hj, heq⟩ := List.mem_map.1 hmore
  rw [List.mem_range] at hi hj
  rw [Nat.add_assoc] at heq
  exact slot_ne (by omega) (by omega) heq.symm

/-- The slot behind a window that is not full is free. -/
theorem slot_notMem_window (hcount : count < n) : (start + count) % n ∉ window n start count := by
  intro hmem
  obtain ⟨i, hi, heq⟩ := List.mem_map.1 hmem
  exact slot_ne (List.mem_range.1 hi) (by omega) heq

theorem end_eq_start_iff (hstart : start < n) (hcount : count < n) :
    (start + count) % n = start ↔ count = 0 := by
  constructor
  · intro h
    by_contra hne
    have hslots : (start + 0) % n ≠ (start + count) % n :=
      slot_ne (Nat.pos_of_ne_zero hne) (by omega)
    rw [h, Nat.add_zero, Nat.mod_eq_of_lt hstart] at hslots
    contradiction
  · rintro rfl
    rw [Nat.add_zero, Nat.mod_eq_of_lt hstart]

/-- One more slot would make the ends meet. -/
theorem next_end_eq_start_iff (hstart : start < n) (hcount : count < n) :
    ((start + count) % n + 1) % n = start ↔ count + 1 = n := by
  rw [Nat.mod_add_mod, Nat.add_assoc]
  constructor
  · intro h
    by_contra hne
    have hzero := (end_eq_start_iff hstart (by omega)).1 h
    omega
  · intro h
    rw [h, Nat.add_mod_right, Nat.mod_eq_of_lt hstart]

/-- The number of occupied slots is the difference of the ends. -/
theorem end_sub_start (hcount : count < n) :
    (((start + count) % n : ℕ) - (start : ℤ)) % n = count := by
  rw [Int.natCast_mod, Int.emod_sub_emod, Nat.cast_add, add_sub_cancel_left]
  exact Int.emod_eq_of_lt (Int.natCast_nonneg _) (Int.ofNat_lt.2 hcount)

end ThunderboltStack.Lib
