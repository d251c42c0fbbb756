import Mathlib.Data.Nat.Notation

/-!
# Loops

A pass of a loop goes on with another state or returns.  A loop returns if an invariant holds before
every pass and a number gets smaller with every pass; it does not if every pass goes on.
-/

namespace ThunderboltStack.Lib

/-- How a pass of a loop ends. -/
inductive Pass (σ ρ : Type) where
  | again (s : σ)
  | done (r : ρ)

/-- What is known after a pass: `I` of the next state or `Q` of what the loop returns. -/
def Pass.Holds {σ ρ : Type} (I : σ → Prop) (Q : ρ → Prop) : Pass σ ρ → Prop
  | .again s => I s
  | .done r => Q r

variable {σ ρ : Type} {body : σ → Pass σ ρ}

/-- What a loop returns within `n` passes. -/
def loop (body : σ → Pass σ ρ) : ℕ → σ → Option ρ
  | 0, _ => none
  | n + 1, s =>
    match body s with
    | .again s' => loop body n s'
    | .done r => some r

inductive Visits (body : σ → Pass σ ρ) (s₀ : σ) : σ → Prop
  | start : Visits body s₀ s₀
  | again {s s' : σ} (h : Visits body s₀ s) (hbody : body s = .again s') : Visits body s₀ s'

/-- A loop with an invariant and a variant returns. -/
theorem loop_returns {I : σ → Prop} {Q : ρ → Prop} (v : σ → ℕ)
    (h : ∀ s, I s → (body s).Holds (fun s' ↦ I s' ∧ v s' < v s) Q) {s : σ} (hs : I s) :
    ∃ n r, loop body n s = some r ∧ Q r := by
  induction hv : v s using Nat.strongRecOn generalizing s with
  | _ k ih =>
    have hpass := h s hs
    cases hbody : body s with
    | again s' =>
      rw [hbody] at hpass
      obtain ⟨n, r, hn, hr⟩ := ih (v s') (hv ▸ hpass.2) hpass.1 rfl
      exact ⟨n + 1, r, by rw [loop, hbody]; exact hn, hr⟩
    | done r =>
      rw [hbody] at hpass
      exact ⟨1, r, by rw [loop, hbody], hpass⟩

/-- A loop whose passes all go on returns nothing. -/
theorem loop_eq_none {I : σ → Prop} (h : ∀ s, I s → ∃ s', body s = .again s' ∧ I s') (n : ℕ) {s : σ}
    (hs : I s) : loop body n s = none := by
  induction n generalizing s with
  | zero => rfl
  | succ n ih =>
    obtain ⟨s', hbody, hs'⟩ := h s hs
    rw [loop, hbody]
    exact ih hs'

end ThunderboltStack.Lib
