import ThunderboltStack.Cm.Activate
import ThunderboltStack.Lib.Transition
import Mathlib.Algebra.Order.BigOperators.Group.Finset
import Mathlib.Data.Nat.Bitwise

/-!
# The ledger of credits

The copy of the credits of a port is changed by the activation and by the deactivation of every path
through it, some of which fail on the way.  Between two operations it is what it was at the start,
with the credits of the hops of those paths that are active or could not be torn down.
-/

namespace ThunderboltStack.Cm

open ThunderboltStack.Lib

def due (hw : Hardware) (hops : List HopConfig) (port : Port) : ℕ :=
  (hops.map fun hop ↦ if hop.inPort = port ∧ hw.programs port = true then hop.nfcCredits else 0).sum

section Due

variable {hw : Hardware} {hop : HopConfig} {hops : List HopConfig} {port : Port}

@[simp] theorem due_nil : due hw [] port = 0 := rfl

theorem due_cons : due hw (hop :: hops) port = due hw [hop] port + due hw hops port := by
  simp [due]

theorem due_reverse : due hw hops.reverse port = due hw hops port := by
  simp [due, List.sum_reverse]

theorem due_singleton : due hw [hop] port =
    if hop.inPort = port ∧ hw.programs port = true then hop.nfcCredits else 0 := by
  simp [due]

end Due

section Add

variable {hw : Hardware} {bus : Bus} {port : Port} {credits : ℤ} {d : Domain}

theorem portWrite_state : (portWrite hw bus port d).2.config = d.config ∧
    (portWrite hw bus port d).2.regs = d.regs ∧
    (portWrite hw bus port d).2.written = d.written := by
  unfold portWrite
  split
  · exact ⟨rfl, rfl, rfl⟩
  · split <;> exact ⟨rfl, rfl, rfl⟩

/-- No entry of a path is changed with the credits. -/
theorem addNfcCredits_regs : (addNfcCredits hw bus port credits d).2.regs = d.regs ∧
    (addNfcCredits hw bus port credits d).2.written = d.written := by
  unfold addNfcCredits
  split
  · exact ⟨rfl, rfl⟩
  · split
    · exact ⟨rfl, rfl⟩
    · exact portWrite_state.2

/-- The field of the register is replaced, the rest of it is kept. -/
theorem replace_field (config n : ℕ) (h : n < nfcBuffers) :
    config / nfcBuffers * nfcBuffers ||| n = config - config % nfcBuffers + n := by
  have hdisjoint : nfcBuffers * (config / nfcBuffers) + n =
      nfcBuffers * (config / nfcBuffers) ||| n := Nat.two_pow_add_eq_or_of_lt h _
  have hdiv := Nat.div_add_mod config nfcBuffers
  rw [Nat.mul_comm, ← hdisjoint]
  omega

/-- Credits that fit into the field are added to the copy, or taken from it, whether or not the
write to the register succeeds. -/
theorem addNfcCredits_config (hplug : hw.isUnplugged port.sw = false)
    (hfits : hw.programs port = true → 0 ≤ (d.config port % nfcBuffers : ℕ) + credits ∧
      (d.config port % nfcBuffers : ℕ) + credits < nfcBuffers) (p : Port) :
    ((addNfcCredits hw bus port credits d).2.config p : ℤ) =
      d.config p + if port = p ∧ hw.programs p = true then credits else 0 := by
  unfold addNfcCredits
  by_cases hzero : credits = 0
  · simp [hzero]
  · simp only [hzero, hplug, Bool.false_eq_true, or_false, if_false]
    cases hprog : hw.programs port with
    | false =>
      have hnone : ¬(port = p ∧ hw.programs p = true) := by
        rintro ⟨rfl, hp⟩
        rw [hprog] at hp
        cases hp
      simp [hnone]
    | true =>
      have hlow := (hfits hprog).1
      have hhigh := (hfits hprog).2
      simp only [Bool.true_eq_false, if_false, portWrite_state.1]
      have hclamp : (if credits < 0 then max (-((d.config port % nfcBuffers : ℕ) : ℤ)) credits
          else credits) = credits := by
        split
        · exact max_eq_right (by omega)
        · rfl
      rw [hclamp]
      by_cases hp : port = p
      · subst hp
        have hwrap : ((d.config port % nfcBuffers : ℕ) + credits) % 2 ^ 32 =
            (d.config port % nfcBuffers : ℕ) + credits := by
          apply Int.emod_eq_of_lt hlow
          exact hhigh.trans (by decide)
        have hfit : ((d.config port % nfcBuffers : ℕ) + credits).toNat < nfcBuffers := by omega
        have hle := Nat.mod_le (d.config port) nfcBuffers
        rw [Function.update_self, hwrap, replace_field _ _ hfit]
        simp only [hprog, and_self, if_true]
        omega
      · have hne : p ≠ port := fun h ↦ hp h.symm
        rw [Function.update_of_ne hne]
        simp [hp]

end Add

/-! ## All hops of a path -/

section Path

variable {hw : Hardware} {bus : Bus} {hop : HopConfig} {hops before after : List HopConfig}
variable {d : Domain}

theorem deallocateNfc_regs : (deallocateNfc hw bus hops d).regs = d.regs ∧
    (deallocateNfc hw bus hops d).written = d.written := by
  induction hops generalizing d with
  | nil => exact ⟨rfl, rfl⟩
  | cons hop rest ih =>
    have hfirst : (addNfcCredits hw bus hop.inPort (-hop.nfcCredits) d).2.regs = d.regs ∧ _ :=
      addNfcCredits_regs
    exact ⟨ih.1.trans hfirst.1, ih.2.trans hfirst.2⟩

/-- The credits of a hop are added to the copy. -/
theorem hopCredits_added (hplug : ∀ sw, hw.isUnplugged sw = false)
    (h : ∀ p, d.config p % nfcBuffers + due hw [hop] p < nfcBuffers) (p : Port) :
    (addNfcCredits hw bus hop.inPort hop.nfcCredits d).2.config p =
      d.config p + due hw [hop] p := by
  have hfits : hw.programs hop.inPort = true →
      0 ≤ (d.config hop.inPort % nfcBuffers : ℕ) + (hop.nfcCredits : ℤ) ∧
        (d.config hop.inPort % nfcBuffers : ℕ) + (hop.nfcCredits : ℤ) < nfcBuffers := by
    intro hprog
    have hin := h hop.inPort
    simp only [due_singleton, hprog, and_self, if_true] at hin
    omega
  have hconfig : ((addNfcCredits hw bus hop.inPort hop.nfcCredits d).2.config p : ℤ) = _ :=
    addNfcCredits_config (hplug _) hfits p
  rw [due_singleton]
  split_ifs at hconfig ⊢ <;> omega

/-- The credits of a hop are taken from the copy. -/
theorem hopCredits_returned (hplug : ∀ sw, hw.isUnplugged sw = false)
    (h : ∀ p, due hw [hop] p ≤ d.config p % nfcBuffers) (p : Port) :
    (addNfcCredits hw bus hop.inPort (-hop.nfcCredits) d).2.config p =
      d.config p - due hw [hop] p := by
  have hfits : hw.programs hop.inPort = true →
      0 ≤ (d.config hop.inPort % nfcBuffers : ℕ) + -(hop.nfcCredits : ℤ) ∧
        (d.config hop.inPort % nfcBuffers : ℕ) + -(hop.nfcCredits : ℤ) < nfcBuffers := by
    intro hprog
    have hin := h hop.inPort
    have hlt := Nat.mod_lt (d.config hop.inPort) (show 0 < nfcBuffers by decide)
    simp only [due_singleton, hprog, and_self, if_true] at hin
    omega
  have hconfig : ((addNfcCredits hw bus hop.inPort (-hop.nfcCredits) d).2.config p : ℤ) = _ :=
    addNfcCredits_config (hplug _) hfits p
  have hle := (h p).trans (Nat.mod_le _ _)
  rw [due_singleton] at hle ⊢
  split_ifs at hconfig hle ⊢ <;> omega

/-- The credits of hops are taken from the copies. -/
theorem deallocateNfc_config (hplug : ∀ sw, hw.isUnplugged sw = false)
    (h : ∀ p, due hw hops p ≤ d.config p % nfcBuffers) (p : Port) :
    (deallocateNfc hw bus hops d).config p = d.config p - due hw hops p := by
  induction hops generalizing d with
  | nil => rfl
  | cons hop rest ih =>
    have hsplit : ∀ q, due hw (hop :: rest) q = due hw [hop] q + due hw rest q :=
      fun q ↦ due_cons
    have hfirst : ∀ q, (addNfcCredits hw bus hop.inPort (-hop.nfcCredits) d).2.config q =
        d.config q - due hw [hop] q := by
      apply hopCredits_returned hplug
      intro q
      have hq := h q
      rw [hsplit] at hq
      omega
    rw [deallocateNfc, ih, hfirst, hsplit]
    · omega
    · intro q
      have hq := h q
      have hmod : (d.config q - due hw [hop] q) % nfcBuffers =
          d.config q % nfcBuffers - due hw [hop] q := by
        rw [hsplit] at hq
        have hdiv := Nat.div_add_mod (d.config q) nfcBuffers
        have hlt := Nat.mod_lt (d.config q) (show 0 < nfcBuffers by decide)
        unfold nfcBuffers at *
        omega
      rw [hfirst, hmod]
      rw [hsplit] at hq
      omega

theorem mod_add_of_lt {n k : ℕ} (h : n % nfcBuffers + k < nfcBuffers) :
    (n + k) % nfcBuffers = n % nfcBuffers + k := by
  unfold nfcBuffers at *
  omega

theorem mod_sub_of_le {n k : ℕ} (h : k ≤ n % nfcBuffers) :
    (n - k) % nfcBuffers = n % nfcBuffers - k := by
  have hlt := Nat.mod_lt n (show 0 < nfcBuffers by decide)
  unfold nfcBuffers at *
  omega

/-- The credits of all hops are added, or none: if a write fails, those that were added are taken
back. -/
theorem addCredits_config (hplug : ∀ sw, hw.isUnplugged sw = false)
    (hfits : ∀ p, d.config p % nfcBuffers + due hw before p < nfcBuffers)
    (hafter : ∀ p, due hw after p ≤ d.config p % nfcBuffers) (p : Port) :
    (addCredits hw bus before after d).2.config p =
      if (addCredits hw bus before after d).1 = 0 then d.config p + due hw before p
      else d.config p - due hw after p := by
  induction before generalizing after d with
  | nil => simp [addCredits]
  | cons hop rest ih =>
    have hsplit : ∀ q, due hw (hop :: rest) q = due hw [hop] q + due hw rest q := fun q ↦ due_cons
    have hsplit' : ∀ q, due hw (hop :: after) q = due hw [hop] q + due hw after q :=
      fun q ↦ due_cons
    have hfirst : ∀ q, (addNfcCredits hw bus hop.inPort hop.nfcCredits d).2.config q =
        d.config q + due hw [hop] q := by
      apply hopCredits_added hplug
      intro q
      have hq := hfits q
      rw [hsplit] at hq
      omega
    have hmod : ∀ q, (d.config q + due hw [hop] q) % nfcBuffers =
        d.config q % nfcBuffers + due hw [hop] q := by
      intro q
      have hq := hfits q
      rw [hsplit] at hq
      exact mod_add_of_lt (by omega)
    have hheld : ∀ q, due hw (hop :: after) q ≤
        (addNfcCredits hw bus hop.inPort hop.nfcCredits d).2.config q % nfcBuffers := by
      intro q
      have hq := hafter q
      rw [hfirst, hmod, hsplit']
      omega
    rw [addCredits]
    split
    next hne =>
      have hback : (deallocateNfc hw bus (hop :: after)
          (addNfcCredits hw bus hop.inPort hop.nfcCredits d).2).config p = _ :=
        deallocateNfc_config hplug hheld p
      rw [hback, hfirst, hsplit']
      omega
    next hzero =>
      rw [ih _ hheld, hfirst, hsplit, hsplit']
      · split_ifs <;> omega
      · intro q
        have hq := hfits q
        rw [hsplit] at hq
        rw [hfirst, hmod]
        omega

theorem addCredits_regs : (addCredits hw bus before after d).2.regs = d.regs ∧
    (addCredits hw bus before after d).2.written = d.written := by
  induction before generalizing after d with
  | nil => exact ⟨rfl, rfl⟩
  | cons hop rest ih =>
    have hfirst : (addNfcCredits hw bus hop.inPort hop.nfcCredits d).2.regs = d.regs ∧ _ :=
      addNfcCredits_regs
    rw [addCredits]
    split
    · have hback : (deallocateNfc hw bus (hop :: after)
          (addNfcCredits hw bus hop.inPort hop.nfcCredits d).2).regs = _ ∧ _ := deallocateNfc_regs
      exact ⟨hback.1.trans hfirst.1, hback.2.trans hfirst.2⟩
    · exact ⟨ih.1.trans hfirst.1, ih.2.trans hfirst.2⟩

theorem clearCounters_state : (clearCounters hw bus before d).2.config = d.config ∧
    (clearCounters hw bus before d).2.regs = d.regs ∧
    (clearCounters hw bus before d).2.written = d.written := by
  induction before generalizing d with
  | nil => exact ⟨rfl, rfl, rfl⟩
  | cons hop rest ih =>
    have hfirst : (portWrite hw bus hop.inPort d).2.config = d.config ∧ _ := portWrite_state
    unfold clearCounters
    split
    · exact ih
    · simp only
      split
      · exact hfirst
      · exact ⟨ih.1.trans hfirst.1, ih.2.1.trans hfirst.2.1, ih.2.2.trans hfirst.2.2⟩

end Path

/-- The credits of a path are returned from `config`, and every entry that was written since `d₀` is
disabled. -/
structure Undone (hw : Hardware) (path : PathConfig) (d₀ : Domain) (config : Port → ℕ)
    (d' : Domain) : Prop where
  config : ∀ p, d'.config p = config p - due hw path.hops p
  written : ∃ new, d'.written = new ++ d₀.written ∧ ∀ entry ∈ new, d'.Disabled entry

theorem einval_ne_zero : einval ≠ 0 := by decide

section Activate

variable {hw : Hardware} {path : PathConfig} {hops after : List HopConfig} {d₀ d : Domain}

/-- A rollback keeps the credits if it cannot disable the hops, and returns them otherwise. -/
theorem activationRollback_cases (bus : Bus) (hplug : ∀ sw, hw.isUnplugged sw = false)
    (htouch : Touches (hops.map HopConfig.entry) d₀ d)
    (hheld : ∀ p, due hw path.hops p ≤ d.config p % nfcBuffers) :
    let r := activationRollback hw bus path hops d
    r.1 = .teardownFailed ∧ r.2.config = d.config ∨
      r.1 = .inactive ∧ Undone hw path d₀ d.config r.2 := by
  have hdown : Touches (hops.map HopConfig.entry) d
      (deactivateHops hw bus path.clearFc hops 0 d).2 := touches_deactivateHops
  simp only [activationRollback]
  split
  next hne => exact Or.inl ⟨rfl, hdown.config⟩
  next hzero =>
    have hback : (deallocateNfc hw bus path.hops
        (deactivateHops hw bus path.clearFc hops 0 d).2).regs = _ ∧ _ := deallocateNfc_regs
    refine Or.inr ⟨rfl, ?_, ?_⟩
    · intro p
      rw [deallocateNfc_config hplug _ p, hdown.config]
      rw [hdown.config]
      exact hheld
    · obtain ⟨new, hnew, hin⟩ := (htouch.trans hdown).written
      refine ⟨new, hback.2.trans hnew, ?_⟩
      intro entry hmem
      obtain ⟨hop, hhop, rfl⟩ := List.mem_map.1 (hin entry hmem)
      rw [Domain.Disabled, hback.1]
      exact disabled_deactivateHops hplug (not_not.1 hzero) hop hhop

/-- The three ends of the activation of the hops. -/
theorem activateHops_cases (bus : Bus) (before : List HopConfig)
    (hplug : ∀ sw, hw.isUnplugged sw = false)
    (htouch : Touches (after.map HopConfig.entry) d₀ d)
    (hheld : ∀ p, due hw path.hops p ≤ d.config p % nfcBuffers) :
    let r := activateHops hw bus path before after d
    r.1 = 0 ∧ r.2.1 = .active ∧ r.2.2.config = d.config ∨
      r.1 ≠ 0 ∧ (r.2.1 = .teardownFailed ∧ r.2.2.config = d.config ∨
        r.2.1 = .inactive ∧ Undone hw path d₀ d.config r.2.2) := by
  induction before generalizing after d with
  | nil => exact Or.inl ⟨rfl, rfl, rfl⟩
  | cons hop rest ih =>
    have hprog : Touches [hop.entry] d
        (programHop hw bus path hop rest.isEmpty after.isEmpty d).2 := touches_programHop
    have hnext : Touches ((hop :: after).map HopConfig.entry) d₀
        (programHop hw bus path hop rest.isEmpty after.isEmpty d).2 := by
      apply (htouch.mono _).trans (hprog.mono _)
      · intro entry hmem
        exact List.mem_cons_of_mem _ hmem
      · intro entry hmem
        exact List.mem_singleton.1 hmem ▸ List.mem_cons_self
    have hheld' : ∀ p, due hw path.hops p ≤
        (programHop hw bus path hop rest.isEmpty after.isEmpty d).2.config p % nfcBuffers := by
      rw [hprog.config]
      exact hheld
    simp only [activateHops]
    split
    next hne =>
      have hroll := activationRollback_cases bus hplug hnext hheld'
      rw [hprog.config] at hroll
      exact Or.inr ⟨hne, hroll⟩
    next hzero =>
      have hrest := ih hnext hheld'
      rw [hprog.config] at hrest
      exact hrest

/-- The four ends of an activation: it is refused, or the path is active and has its credits, or the
path keeps them because it could not be disabled, or nothing is left of it. -/
theorem pathActivate_cases (bus : Bus) (state : PathState)
    (hplug : ∀ sw, hw.isUnplugged sw = false)
    (hfits : ∀ p, d.config p % nfcBuffers + due hw path.hops p < nfcBuffers) :
    let r := pathActivate hw bus path state d
    r.1 ≠ 0 ∧ r.2.1 = state ∧ r.2.2 = d ∨
      state = .inactive ∧
        ((r.1 = 0 ∧ r.2.1 = .active ∨ r.1 ≠ 0 ∧ r.2.1 = .teardownFailed) ∧
            (∀ p, r.2.2.config p = d.config p + due hw path.hops p) ∨
          r.1 ≠ 0 ∧ r.2.1 = .inactive ∧ r.2.2.config = d.config ∧
            ∃ new, r.2.2.written = new ++ d.written ∧ ∀ entry ∈ new, r.2.2.Disabled entry) := by
  simp only [pathActivate]
  split
  · exact Or.inl ⟨einval_ne_zero, rfl, rfl⟩
  · split
    · exact Or.inl ⟨einval_ne_zero, rfl, rfl⟩
    next hstate =>
      refine Or.inr ⟨not_not.1 hstate, ?_⟩
      have hclear : (clearCounters hw bus path.hops.reverse d).2.config = d.config ∧ _ :=
        clearCounters_state
      split
      next hne => exact Or.inr ⟨hne, rfl, hclear.1, [], hclear.2.2, by simp⟩
      next =>
        have hfits' : ∀ p, (clearCounters hw bus path.hops.reverse d).2.config p % nfcBuffers +
            due hw path.hops.reverse p < nfcBuffers := by
          intro p
          rw [hclear.1, due_reverse]
          exact hfits p
        have hadd : ∀ p, (addCredits hw bus path.hops.reverse []
            (clearCounters hw bus path.hops.reverse d).2).2.config p = _ :=
          addCredits_config hplug hfits' fun p ↦ Nat.zero_le _
        have hregs : (addCredits hw bus path.hops.reverse []
            (clearCounters hw bus path.hops.reverse d).2).2.regs = _ ∧ _ := addCredits_regs
        have hwritten := hregs.2.trans hclear.2.2
        simp only [hclear.1, due_reverse, due_nil, Nat.sub_zero] at hadd
        split
        next hne =>
          simp only [if_neg hne] at hadd
          exact Or.inr ⟨hne, rfl, funext hadd, [], hwritten, by simp⟩
        next hzero =>
          simp only [if_pos (not_not.1 hzero)] at hadd
          have hheld : ∀ p, due hw path.hops p ≤ (addCredits hw bus path.hops.reverse []
              (clearCounters hw bus path.hops.reverse d).2).2.config p % nfcBuffers := by
            intro p
            rw [hadd, mod_add_of_lt (hfits p)]
            omega
          have hrefl : Touches (([] : List HopConfig).map HopConfig.entry) _ _ :=
            .refl (addCredits hw bus path.hops.reverse []
              (clearCounters hw bus path.hops.reverse d).2).2
          rcases activateHops_cases bus path.hops.reverse hplug hrefl hheld with
            ⟨hret, hstate, hconfig⟩ | ⟨hret, ⟨hstate, hconfig⟩ | ⟨hstate, hundone⟩⟩
          · exact Or.inl ⟨Or.inl ⟨hret, hstate⟩, fun p ↦ by rw [hconfig, hadd]⟩
          · exact Or.inl ⟨Or.inr ⟨hret, hstate⟩, fun p ↦ by rw [hconfig, hadd]⟩
          · obtain ⟨new, hnew, hdis⟩ := hundone.written
            refine Or.inr ⟨hret, hstate, ?_, new, by rw [hnew, hwritten], hdis⟩
            funext p
            rw [hundone.config, hadd]
            omega

/-- The three ends of a deactivation: it is refused, or the path keeps its credits because it could
not be disabled, or it is inactive and its credits are returned. -/
theorem pathDeactivate_cases (bus : Bus) (state : PathState)
    (hplug : ∀ sw, hw.isUnplugged sw = false)
    (hheld : state ≠ .inactive → ∀ p, due hw path.hops p ≤ d.config p % nfcBuffers) :
    let r := pathDeactivate hw bus path state d
    r.1 ≠ 0 ∧ r.2.1 = state ∧ r.2.2 = d ∨
      state ≠ .inactive ∧
        (r.1 ≠ 0 ∧ r.2.1 = .teardownFailed ∧ r.2.2.config = d.config ∨
          r.1 = 0 ∧ r.2.1 = .inactive ∧
            ∀ p, r.2.2.config p = d.config p - due hw path.hops p) := by
  have hdown : Touches (path.hops.map HopConfig.entry) d
      (deactivateHops hw bus path.clearFc path.hops 0 d).2 := touches_deactivateHops
  simp only [pathDeactivate]
  split
  · exact Or.inl ⟨einval_ne_zero, rfl, rfl⟩
  · split
    · exact Or.inl ⟨einval_ne_zero, rfl, rfl⟩
    next hstate =>
      refine Or.inr ⟨hstate, ?_⟩
      split
      next hne => exact Or.inl ⟨hne, rfl, hdown.config⟩
      next =>
        refine Or.inr ⟨rfl, rfl, ?_⟩
        intro p
        rw [deallocateNfc_config hplug _ p, hdown.config]
        rw [hdown.config]
        exact hheld hstate

end Activate

/-! ## Many paths -/

/-- Paths with their states, and the domain they are programmed in. -/
structure Paths (I : Type) where
  path : I → PathConfig
  state : I → PathState
  domain : Domain

inductive PathOp (I : Type) where
  | fill (i : I) (path : PathConfig)
  | activate (i : I) (bus : Bus)
  | deactivate (i : I) (bus : Bus)

section System

variable {I : Type} [DecidableEq I]

/-- The paths after an operation on path `i` that returned `r`. -/
def Paths.after (s : Paths I) (i : I) (r : ℤ × PathState × Domain) : Paths I :=
  { s with state := Function.update s.state i r.2.1, domain := r.2.2 }

/-- Runs of operations, from copies of the credits as they were read. -/
def pathSystem (I : Type) [DecidableEq I] (hw : Hardware) (config₀ : Port → ℕ) :
    System (Paths I) (PathOp I) where
  init s := (∀ i, s.state i = .inactive) ∧ s.domain.config = config₀
  step s op s' :=
    match op with
    | .fill i path => s.state i = .inactive ∧ s' = { s with path := Function.update s.path i path }
    | .activate i bus => s' = s.after i (pathActivate hw bus (s.path i) (s.state i) s.domain)
    | .deactivate i bus => s' = s.after i (pathDeactivate hw bus (s.path i) (s.state i) s.domain)

/-- The credits of an activation fit into the registers. -/
def Fits (hw : Hardware) (s : Paths I) : PathOp I → Prop
  | .activate i _ => ∀ p, s.domain.config p % nfcBuffers + due hw (s.path i).hops p < nfcBuffers
  | _ => True

def Paths.held (hw : Hardware) (s : Paths I) (p : Port) (i : I) : ℕ :=
  if s.state i = .inactive then 0 else due hw (s.path i).hops p

variable [Fintype I]

structure Ledger (hw : Hardware) (config₀ : Port → ℕ) (s : Paths I) : Prop where
  config : ∀ p, s.domain.config p = config₀ p + ∑ i, s.held hw p i
  fits : ∀ p, config₀ p % nfcBuffers + ∑ i, s.held hw p i < nfcBuffers

variable {hw : Hardware} {config₀ : Port → ℕ} {s : Paths I}

theorem sum_replace {f g : I → ℕ} (i : I) (h : ∀ j, j ≠ i → g j = f j) :
    (∑ j, g j) + f i = (∑ j, f j) + g i := by
  have hrest : ∑ j ∈ Finset.univ.erase i, g j = ∑ j ∈ Finset.univ.erase i, f j :=
    Finset.sum_congr rfl fun j hj ↦ h j (Finset.ne_of_mem_erase hj)
  rw [← Finset.add_sum_erase Finset.univ g (Finset.mem_univ i),
    ← Finset.add_sum_erase Finset.univ f (Finset.mem_univ i), hrest]
  omega

omit [Fintype I] in
theorem held_after (r : ℤ × PathState × Domain) (p : Port) (i : I) :
    (s.after i r).held hw p i =
      if r.2.1 = .inactive then 0 else due hw (s.path i).hops p := by
  simp [Paths.held, Paths.after]

theorem sum_held_after (hw : Hardware) (s : Paths I) (r : ℤ × PathState × Domain) (p : Port)
    (i : I) :
    (∑ j, (s.after i r).held hw p j) + s.held hw p i =
      (∑ j, s.held hw p j) + (s.after i r).held hw p i := by
  apply sum_replace
  intro j hj
  simp [Paths.held, Paths.after, Function.update_of_ne hj]

omit [DecidableEq I] in
/-- The field of a register holds the credits that were there and those of the paths. -/
theorem Ledger.field (h : Ledger hw config₀ s) (p : Port) :
    s.domain.config p % nfcBuffers = config₀ p % nfcBuffers + ∑ i, s.held hw p i := by
  rw [h.config, mod_add_of_lt (h.fits p)]

omit [DecidableEq I] in
theorem Ledger.held_le (h : Ledger hw config₀ s) {i : I} (hstate : s.state i ≠ .inactive)
    (p : Port) : due hw (s.path i).hops p ≤ s.domain.config p % nfcBuffers := by
  have hle : s.held hw p i ≤ ∑ j, s.held hw p j :=
    Finset.single_le_sum (fun j _ ↦ Nat.zero_le _) (Finset.mem_univ i)
  rw [Paths.held, if_neg hstate] at hle
  rw [h.field]
  omega

/-- An operation that moves the copies by what the path comes to hold keeps the ledger. -/
theorem Ledger.after (h : Ledger hw config₀ s) (i : I) (r : ℤ × PathState × Domain)
    (hmove : ∀ p, r.2.2.config p + s.held hw p i =
      s.domain.config p + (s.after i r).held hw p i)
    (hfits : ∀ p, s.domain.config p % nfcBuffers + (s.after i r).held hw p i <
      nfcBuffers + s.held hw p i) : Ledger hw config₀ (s.after i r) where
  config p := by
    have hsum := sum_held_after hw s r p i
    have hp := hmove p
    have hc := h.config p
    show r.2.2.config p = _
    omega
  fits p := by
    have hsum := sum_held_after hw s r p i
    have hp := hfits p
    have hf := h.field p
    omega

/-- An operation that is refused changes nothing. -/
theorem Ledger.refused (h : Ledger hw config₀ s) {i : I} {r : ℤ × PathState × Domain}
    (hstate : r.2.1 = s.state i) (hd : r.2.2 = s.domain) : Ledger hw config₀ (s.after i r) := by
  have hsame : ∀ p, (s.after i r).held hw p i = s.held hw p i := by
    intro p
    rw [held_after, hstate]
    rfl
  apply h.after i r
  · intro p
    rw [hsame, hd]
  · intro p
    have hlt := Nat.mod_lt (s.domain.config p) (show 0 < nfcBuffers by decide)
    rw [hsame]
    omega

/-- An activation that fits keeps the ledger. -/
theorem Ledger.activate (hplug : ∀ sw, hw.isUnplugged sw = false) (h : Ledger hw config₀ s)
    {i : I} {bus : Bus} (hfits : Fits hw s (.activate i bus)) :
    Ledger hw config₀ (s.after i (pathActivate hw bus (s.path i) (s.state i) s.domain)) := by
  rcases pathActivate_cases bus (s.state i) hplug hfits with
    ⟨-, hstate, hd⟩ | ⟨hinactive, ⟨hstate, hconfig⟩ | ⟨-, hstate, hconfig, -⟩⟩
  · exact h.refused hstate hd
  · have hbefore : ∀ p, s.held hw p i = 0 := fun p ↦ if_pos hinactive
    have hheld : ∀ p,
        (s.after i (pathActivate hw bus (s.path i) (s.state i) s.domain)).held hw p i =
          due hw (s.path i).hops p := by
      intro p
      rw [held_after]
      rcases hstate with ⟨-, hstate⟩ | ⟨-, hstate⟩ <;> rw [hstate] <;> rfl
    apply h.after
    · intro p
      rw [hconfig, hbefore, hheld]
      omega
    · intro p
      have hp := hfits p
      rw [hbefore, hheld]
      omega
  · have hbefore : ∀ p, s.held hw p i = 0 := fun p ↦ if_pos hinactive
    have hheld : ∀ p,
        (s.after i (pathActivate hw bus (s.path i) (s.state i) s.domain)).held hw p i = 0 := by
      intro p
      rw [held_after, hstate]
      rfl
    apply h.after
    · intro p
      rw [hconfig, hbefore, hheld]
    · intro p
      have hlt := Nat.mod_lt (s.domain.config p) (show 0 < nfcBuffers by decide)
      rw [hbefore, hheld]
      omega

/-- A deactivation keeps the ledger, whether it succeeds or not. -/
theorem Ledger.deactivate (hplug : ∀ sw, hw.isUnplugged sw = false) (h : Ledger hw config₀ s)
    {i : I} {bus : Bus} :
    Ledger hw config₀ (s.after i (pathDeactivate hw bus (s.path i) (s.state i) s.domain)) := by
  rcases pathDeactivate_cases bus (s.state i) hplug h.held_le with
    ⟨-, hstate, hd⟩ | ⟨hactive, ⟨-, hstate, hconfig⟩ | ⟨-, hstate, hconfig⟩⟩
  · exact h.refused hstate hd
  · have hheld : ∀ p,
        (s.after i (pathDeactivate hw bus (s.path i) (s.state i) s.domain)).held hw p i =
          s.held hw p i := by
      intro p
      rw [held_after, hstate, Paths.held, if_neg hactive]
      rfl
    apply h.after
    · intro p
      rw [hconfig, hheld]
    · intro p
      have hlt := Nat.mod_lt (s.domain.config p) (show 0 < nfcBuffers by decide)
      rw [hheld]
      omega
  · have hbefore : ∀ p, s.held hw p i = due hw (s.path i).hops p := fun p ↦ if_neg hactive
    have hheld : ∀ p,
        (s.after i (pathDeactivate hw bus (s.path i) (s.state i) s.domain)).held hw p i = 0 := by
      intro p
      rw [held_after, hstate]
      rfl
    apply h.after
    · intro p
      have hle := (h.held_le hactive p).trans (Nat.mod_le _ _)
      rw [hconfig, hbefore, hheld]
      omega
    · intro p
      have hlt := Nat.mod_lt (s.domain.config p) (show 0 < nfcBuffers by decide)
      rw [hheld]
      omega

theorem Ledger.fill (h : Ledger hw config₀ s) {i : I} {path : PathConfig}
    (hstate : s.state i = .inactive) :
    Ledger hw config₀ { s with path := Function.update s.path i path } := by
  have hheld : ∀ p j, Paths.held hw { s with path := Function.update s.path i path } p j =
      s.held hw p j := by
    intro p j
    by_cases hj : j = i
    · subst hj
      simp [Paths.held, hstate]
    · simp [Paths.held, Function.update_of_ne hj]
  constructor
  · simpa only [hheld] using h.config
  · simpa only [hheld] using h.fits

/-- The ledger is right in every state that paths which fit lead to. -/
theorem ledger_of_reach (hplug : ∀ sw, hw.isUnplugged sw = false)
    (hs : (pathSystem I hw config₀).Reach (Fits hw) s) : Ledger hw config₀ s := by
  apply hs.invariant
  · rintro s ⟨hinactive, hconfig⟩
    have hheld : ∀ p i, s.held hw p i = 0 := fun p i ↦ if_pos (hinactive i)
    constructor
    · intro p
      simp [hheld, hconfig]
    · intro p
      simpa [hheld] using Nat.mod_lt (config₀ p) (show 0 < nfcBuffers by decide)
  · intro s op s' h hfits hstep
    cases op with
    | fill i path =>
      obtain ⟨hstate, rfl⟩ := hstep
      exact h.fill hstate
    | activate i bus =>
      subst hstep
      exact h.activate hplug hfits
    | deactivate i bus =>
      subst hstep
      exact h.deactivate hplug

end System

/-- `tb_path_deactivate` again and again until it succeeds, for at most as many times as there are
elements in the list. -/
def retryDeactivate (hw : Hardware) (path : PathConfig) : List Bus → PathState → Domain →
    ℤ × PathState × Domain
  | [], state, d => (etimedout, state, d)
  | bus :: rest, state, d =>
    let r := pathDeactivate hw bus path state d
    if r.1 = 0 then r else retryDeactivate hw path rest r.2.1 r.2.2

/-- Retries return the credits once, with the call that succeeds. -/
theorem retryDeactivate_config {hw : Hardware} {path : PathConfig} {buses : List Bus}
    {state : PathState} {d : Domain} (hplug : ∀ sw, hw.isUnplugged sw = false)
    (hheld : ∀ p, due hw path.hops p ≤ d.config p % nfcBuffers) (hstate : state ≠ .inactive)
    (h : (retryDeactivate hw path buses state d).1 = 0) :
    (retryDeactivate hw path buses state d).2.1 = .inactive ∧
      ∀ p, (retryDeactivate hw path buses state d).2.2.config p =
        d.config p - due hw path.hops p := by
  induction buses generalizing state d with
  | nil => cases h
  | cons bus rest ih =>
    simp only [retryDeactivate] at h ⊢
    rcases pathDeactivate_cases bus state hplug fun _ ↦ hheld with
      ⟨hret, hsame, hd⟩ | ⟨-, ⟨hret, hfailed, hconfig⟩ | ⟨hret, hinactive, hconfig⟩⟩
    · simp only [if_neg hret, hsame, hd] at h ⊢
      exact ih hheld hstate h
    · simp only [if_neg hret, hfailed] at h ⊢
      rw [← hconfig] at hheld ⊢
      exact ih hheld (by decide) h
    · simp only [if_pos hret]
      exact ⟨hinactive, hconfig⟩

/-- In every state between operations the copy of the credits of a port is what it was, with the
credits that the paths which are active or could not be torn down hold of it.  An activation that
returns an error leaves a path that could not be torn down, or has returned the credits and disabled
every entry it wrote; and a deactivation that is retried until it succeeds returns the credits of
each hop once.  Credits are held of lane adapters and of routers before USB4. -/
theorem path_credit_ledger {I : Type} [DecidableEq I] [Fintype I] (hw : Hardware)
    (hplug : ∀ sw, hw.isUnplugged sw = false) (config₀ : Port → ℕ) (s : Paths I)
    (hs : (pathSystem I hw config₀).Reach (Fits hw) s) :
    (∀ p, s.domain.config p % nfcBuffers = config₀ p % nfcBuffers + ∑ i, s.held hw p i) ∧
      (∀ i bus, Fits hw s (.activate i bus) →
        let r := pathActivate hw bus (s.path i) (s.state i) s.domain
        r.1 ≠ 0 → r.2.1 = .teardownFailed ∨
          r.2.2.config = s.domain.config ∧
            ∃ new, r.2.2.written = new ++ s.domain.written ∧ ∀ entry ∈ new, r.2.2.Disabled entry) ∧
      ∀ i buses, s.state i ≠ .inactive →
        let r := retryDeactivate hw (s.path i) buses (s.state i) s.domain
        r.1 = 0 → r.2.1 = .inactive ∧
          ∀ p, r.2.2.config p % nfcBuffers + due hw (s.path i).hops p =
            s.domain.config p % nfcBuffers := by
  have hledger := ledger_of_reach hplug hs
  refine ⟨hledger.field, ?_, ?_⟩
  · intro i bus hfits r hret
    rcases pathActivate_cases bus (s.state i) hplug hfits with
      ⟨-, -, hd⟩ | ⟨-, ⟨⟨hzero, -⟩ | ⟨-, hfailed⟩, -⟩ | ⟨-, -, hconfig, hwritten⟩⟩
    · exact Or.inr ⟨congrArg Domain.config hd, [], congrArg Domain.written hd, by simp⟩
    · exact absurd hzero hret
    · exact Or.inl hfailed
    · exact Or.inr ⟨hconfig, hwritten⟩
  · intro i buses hstate r hret
    have hheld := hledger.held_le hstate
    have hback := retryDeactivate_config hplug hheld hstate hret
    refine ⟨hback.1, ?_⟩
    intro p
    rw [hback.2, mod_sub_of_le (hheld p)]
    have hp := hheld p
    omega

def usb4Hardware : Hardware where
  isUnplugged _ := false
  isUsb4 _ := true
  isNull port := decide (1 ≤ port.num ∧ port.num ≤ 4)

def videoPath : PathConfig where
  hops := [
    { inPort := ⟨0, 5⟩, inHopIndex := 9, outPort := ⟨0, 1⟩, nextHopIndex := 8, nfcCredits := 12 },
    { inPort := ⟨1, 1⟩, inHopIndex := 8, outPort := ⟨1, 14⟩, nextHopIndex := 9, nfcCredits := 18 }]
  weight := 1

def videoStart : Paths Unit where
  path _ := videoPath
  state _ := .inactive
  domain := { config := fun _ ↦ 0, regs := fun _ _ ↦ {} }

def videoActive : Paths Unit :=
  videoStart.after () (pathActivate usb4Hardware {} videoPath .inactive videoStart.domain)

theorem videoActive_reach :
    (pathSystem Unit usb4Hardware fun _ ↦ 0).Reach (Fits usb4Hardware) videoActive := by
  have hstart : (pathSystem Unit usb4Hardware fun _ ↦ 0).Reach (Fits usb4Hardware) videoStart :=
    .start ⟨fun _ ↦ rfl, rfl⟩
  have hfits : Fits usb4Hardware videoStart (.activate () {}) := by
    intro p
    have hdue : due usb4Hardware videoPath.hops p ≤ 30 := by
      simp only [due, videoPath, List.map_cons, List.map_nil, List.sum_cons, List.sum_nil]
      split_ifs <;> omega
    show 0 % nfcBuffers + due usb4Hardware videoPath.hops p < nfcBuffers
    unfold nfcBuffers
    omega
  exact .next hstart hfits rfl

theorem path_credit_ledger_video :
    videoActive.state () = .active ∧ videoActive.domain.config ⟨1, 1⟩ % nfcBuffers = 18 := by
  have hledger := (path_credit_ledger usb4Hardware (fun _ ↦ rfl) _ videoActive
    videoActive_reach).1 ⟨1, 1⟩
  refine ⟨by decide +kernel, hledger.trans ?_⟩
  decide +kernel

/-- The DP adapter of a USB4 router has no credits added for its hop, which is to take 12. -/
theorem adapter_credits_skipped :
    videoActive.state () = .active ∧
      videoPath.hops.map (fun hop ↦ (hop.inPort, hop.nfcCredits)) = [(⟨0, 5⟩, 12), (⟨1, 1⟩, 18)] ∧
      videoActive.domain.config ⟨0, 5⟩ % nfcBuffers = 0 := by
  decide +kernel

end ThunderboltStack.Cm
