import Mathlib.Algebra.Order.Ring.Nat
import Mathlib.Data.List.Pairwise

/-!
# A clock that wraps

Time is a number of ticks that only grows; a stamp keeps a time in 64 bits.  Two stamps are compared
by the sign of their difference.  `le_of_not_before` says that a distance that was found to have
passed has passed, however often the clock wrapped in between.

Events that are apart by a distance are few in every window (`Spaced.length_window_le`).
-/

namespace ThunderboltStack.Lib

def timeBefore (a b : UInt64) : Bool := 2 ^ 63 ≤ (a - b).toNat

def timeAfter (a b : UInt64) : Bool := timeBefore b a

def timeAfterEq (a b : UInt64) : Bool := !timeBefore a b

def Stamped (stamp : UInt64) (time now : ℕ) : Prop :=
  ∃ taken, time ≤ taken ∧ taken ≤ now ∧ stamp = UInt64.ofNat taken

theorem Stamped.now (now : ℕ) : Stamped (UInt64.ofNat now) now now := ⟨now, le_rfl, le_rfl, rfl⟩

theorem Stamped.later {stamp : UInt64} {time now now' : ℕ} (h : Stamped stamp time now)
    (hle : now ≤ now') : Stamped stamp time now' := by
  obtain ⟨taken, htime, hnow, heq⟩ := h
  exact ⟨taken, htime, hnow.trans hle, heq⟩

/-- A distance that was found to have passed has passed. -/
theorem Stamped.le_of_not_before {stamp : UInt64} {time now distance : ℕ}
    (h : Stamped stamp time now) (hdistance : distance ≤ 2 ^ 63)
    (hbefore : timeBefore (UInt64.ofNat now) (stamp + UInt64.ofNat distance) = false) :
    time + distance ≤ now := by
  obtain ⟨taken, htime, hnow, rfl⟩ := h
  have hless :
      (UInt64.ofNat now - (UInt64.ofNat taken + UInt64.ofNat distance)).toNat < 2 ^ 63 := by
    simpa [timeBefore] using hbefore
  rw [UInt64.toNat_sub, UInt64.toNat_add] at hless
  simp only [UInt64.toNat_ofNat'] at hless
  omega

def Spaced (distance : ℕ) (times : List ℕ) : Prop :=
  times.Pairwise fun later earlier ↦ earlier + distance ≤ later

variable {distance : ℕ} {times : List ℕ}

theorem Spaced.cons {now : ℕ} (h : Spaced distance times)
    (hlast : ∀ last ∈ times.head?, last + distance ≤ now) : Spaced distance (now :: times) := by
  refine List.pairwise_cons.2 ⟨?_, h⟩
  intro time hmem
  cases times with
  | nil => cases hmem
  | cons last rest =>
    have hnow : last + distance ≤ now := hlast last rfl
    rcases List.mem_cons.1 hmem with rfl | hrest
    · exact hnow
    · have hbefore : time + distance ≤ last := (List.pairwise_cons.1 h).1 time hrest
      omega

/-- At most `k` events lie in a window of `k` distances. -/
theorem Spaced.length_window_le (h : Spaced distance times) (start k : ℕ) :
    (times.filter fun time ↦ start ≤ time ∧ time < start + k * distance).length ≤ k := by
  induction times generalizing k with
  | nil => simp
  | cons last rest ih =>
    obtain ⟨hlast, hrest⟩ := List.pairwise_cons.1 h
    by_cases hin : start ≤ last ∧ last < start + k * distance
    · -- the events before the last one lie in a window that is shorter by one distance
      cases k with
      | zero =>
        rw [Nat.zero_mul] at hin
        omega
      | succ k =>
        have hsame : rest.filter (fun time ↦ start ≤ time ∧ time < start + (k + 1) * distance) =
            rest.filter fun time ↦ start ≤ time ∧ time < start + k * distance := by
          apply List.filter_congr
          intro time hmem
          have hbefore := hlast time hmem
          have hmul : (k + 1) * distance = k * distance + distance := Nat.succ_mul _ _
          rw [hmul] at hin
          rw [decide_eq_decide, hmul]
          omega
        rw [List.filter_cons_of_pos (by simpa using hin), hsame, List.length_cons]
        exact Nat.succ_le_succ (ih hrest k)
    · rw [List.filter_cons_of_neg (by simpa using hin)]
      exact ih hrest k

end ThunderboltStack.Lib
