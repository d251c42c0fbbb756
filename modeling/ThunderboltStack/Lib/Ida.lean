import Mathlib.Data.Int.Notation
import Mathlib.Data.Nat.Notation

/-!
# Families of identifier allocators

An allocator hands out the smallest free identifier of a range.  A family has one for every key; its
state says which identifiers are used.  `Taken` relates a family to a later state in which exactly
the listed identifiers, all of them free before, have been taken on top; giving them back restores
the family.
-/

namespace ThunderboltStack.Lib

abbrev Idas (K : Type) : Type := K → ℕ → Bool

namespace Idas

variable {K : Type} [DecidableEq K]

/-- The smallest free identifier from `lo` to `hi`; there is none below zero. -/
def allocRange (used : ℕ → Bool) (lo hi : ℤ) : Option ℕ :=
  if lo < 0 then none
  else (List.range (hi + 1).toNat).find? fun n ↦ decide (lo ≤ n) && !used n

def mark (ids : Idas K) (k : K) (n : ℕ) (b : Bool) : Idas K :=
  fun k' n' ↦ if k' = k ∧ n' = n then b else ids k' n'

def release (ids : Idas K) : List (K × ℕ) → Idas K
  | [] => ids
  | (k, n) :: rest => release (ids.mark k n false) rest

/-- The state after the identifiers in `taken`, free before, have been taken. -/
structure Taken (ids ids' : Idas K) (taken : List (K × ℕ)) : Prop where
  free : ∀ k n, (k, n) ∈ taken → ids k n = false
  used : ∀ k n, ids' k n = (ids k n || decide ((k, n) ∈ taken))

theorem allocRange_free {used : ℕ → Bool} {lo hi : ℤ} {n : ℕ}
    (h : allocRange used lo hi = some n) : used n = false := by
  unfold allocRange at h
  split at h
  · cases h
  · have hfound := List.find?_some h
    simp only [Bool.and_eq_true, Bool.not_eq_true'] at hfound
    exact hfound.2

theorem allocRange_range {used : ℕ → Bool} {lo hi : ℤ} {n : ℕ}
    (h : allocRange used lo hi = some n) : lo ≤ n ∧ n ≤ hi := by
  unfold allocRange at h
  split at h
  · cases h
  · have hfound := List.find?_some h
    simp only [Bool.and_eq_true, decide_eq_true_eq] at hfound
    have hmem := List.mem_range.1 (List.mem_of_find?_eq_some h)
    omega

/-- The only identifier of a range is allocated if it is free. -/
theorem allocRange_self {used : ℕ → Bool} {n : ℕ} (h : used n = false) :
    allocRange used n n = some n := by
  have hneg : ¬(n : ℤ) < 0 := by omega
  have hrange : ((n : ℤ) + 1).toNat = n + 1 := by omega
  have hbelow : (List.range n).find? (fun m : ℕ ↦ decide ((n : ℤ) ≤ m) && !used m) = none := by
    rw [List.find?_eq_none]
    intro m hm
    have hlt := List.mem_range.1 hm
    simp only [Bool.and_eq_true, decide_eq_true_eq, not_and]
    omega
  rw [allocRange, if_neg hneg, hrange, List.range_succ, List.find?_append, hbelow]
  simp [h]

theorem Taken.refl (ids : Idas K) : Taken ids ids [] :=
  ⟨by simp, by simp⟩

/-- One more identifier, free in the later state. -/
theorem Taken.take {ids ids' : Idas K} {taken : List (K × ℕ)} (h : Taken ids ids' taken) {k : K}
    {n : ℕ} (hfree : ids' k n = false) : Taken ids (ids'.mark k n true) (taken ++ [(k, n)]) := by
  have hbefore : ids k n = false := by
    have hused := h.used k n
    rw [hfree] at hused
    exact (Bool.or_eq_false_iff.mp hused.symm).1
  constructor
  · intro k' n' hmem
    rcases List.mem_append.mp hmem with hold | hnew
    · exact h.free k' n' hold
    · cases List.mem_singleton.mp hnew
      exact hbefore
  · intro k' n'
    by_cases hsame : k' = k ∧ n' = n
    · obtain ⟨rfl, rfl⟩ := hsame
      simp [mark]
    · have hother : (k', n') ≠ (k, n) := by
        intro heq
        cases heq
        exact hsame ⟨rfl, rfl⟩
      simp [mark, hsame, hother, h.used k' n']

/-- Taking one list of identifiers after another. -/
theorem Taken.trans {ids ids' ids'' : Idas K} {taken more : List (K × ℕ)} (h : Taken ids ids' taken)
    (h' : Taken ids' ids'' more) : Taken ids ids'' (taken ++ more) where
  free k n hmem := by
    rcases List.mem_append.mp hmem with hold | hnew
    · exact h.free k n hold
    · have hfree := h'.free k n hnew
      rw [h.used] at hfree
      exact (Bool.or_eq_false_iff.mp hfree).1
  used k n := by
    rw [h'.used, h.used, Bool.or_assoc]
    simp

theorem release_append (ids : Idas K) (taken more : List (K × ℕ)) :
    ids.release (taken ++ more) = (ids.release taken).release more := by
  induction taken generalizing ids with
  | nil => rfl
  | cons head rest ih => exact ih _

theorem release_apply (ids : Idas K) (taken : List (K × ℕ)) (k : K) (n : ℕ) :
    ids.release taken k n = (ids k n && !decide ((k, n) ∈ taken)) := by
  induction taken generalizing ids with
  | nil => simp [release]
  | cons head rest ih =>
    obtain ⟨k', n'⟩ := head
    rw [release, ih]
    by_cases hsame : k = k' ∧ n = n'
    · obtain ⟨rfl, rfl⟩ := hsame
      simp [mark]
    · have hother : (k, n) ≠ (k', n') := by
        intro heq
        cases heq
        exact hsame ⟨rfl, rfl⟩
      simp [mark, hsame, hother]

/-- Giving back what was taken restores the family. -/
theorem Taken.release {ids ids' : Idas K} {taken : List (K × ℕ)} (h : Taken ids ids' taken) :
    ids'.release taken = ids := by
  funext k n
  rw [release_apply, h.used]
  by_cases hmem : (k, n) ∈ taken
  · simp [hmem, h.free k n hmem]
  · simp [hmem]

/-- What is free in the later state was not taken. -/
theorem Taken.notMem {ids ids' : Idas K} {taken : List (K × ℕ)} (h : Taken ids ids' taken) {k : K}
    {n : ℕ} (hfree : ids' k n = false) : (k, n) ∉ taken := by
  intro hmem
  have hused := h.used k n
  simp [hfree, hmem] at hused

/-- Giving back only the first of two lists restores the family exactly if the second is empty. -/
theorem Taken.release_eq_iff {ids ids' ids'' : Idas K} {taken more : List (K × ℕ)}
    (h : Taken ids ids' taken) (h' : Taken ids' ids'' more) :
    ids''.release taken = ids ↔ more = [] := by
  constructor
  · intro hsame
    cases more with
    | nil => rfl
    | cons head rest =>
      obtain ⟨k, n⟩ := head
      have hfree := h'.free k n List.mem_cons_self
      have hbefore : ids k n = false := by
        have hused := h.used k n
        rw [hfree] at hused
        exact (Bool.or_eq_false_iff.mp hused.symm).1
      have hleft := congrFun (congrFun hsame k) n
      rw [release_apply, h'.used, hbefore] at hleft
      simp [h.notMem hfree] at hleft
  · rintro rfl
    have hsame : ids'' = ids' := by
      funext k n
      simp [h'.used]
    rw [hsame]
    exact h.release

/-- Taking anything at all changes the family. -/
theorem Taken.ne {ids ids' : Idas K} {taken : List (K × ℕ)} (h : Taken ids ids' taken)
    (hne : taken ≠ []) : ids' ≠ ids := by
  obtain ⟨⟨k, n⟩, hmem⟩ := List.exists_mem_of_ne_nil taken hne
  intro heq
  have hused := h.used k n
  rw [heq, h.free k n hmem] at hused
  simp [hmem] at hused

end Idas

end ThunderboltStack.Lib
