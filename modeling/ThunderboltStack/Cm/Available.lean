import Mathlib.Data.Nat.Notation
import Mathlib.Algebra.Order.Ring.Int
import Mathlib.Tactic.Ring

/-!
# Credits that a lane adapter has for PCIe and DMA

`tb_available_credits()` of `tunnel.c`.  The credits of a port and the preferences of its router are
unsigned, the computation is signed, and the number of DisplayPort streams comes from a division
that is unsigned again.  If the credits of the port do not cover what is set aside for USB 3, PCIe
and DMA, the dividend is negative, and the division takes it for a number near `2 ^ 32`.
-/

namespace ThunderboltStack.Cm

/-- The value of a number stored in an `int`. -/
def toInt32 (x : ℤ) : ℤ :=
  (x + 2 ^ 31) % 2 ^ 32 - 2 ^ 31

/-- The value of a number stored in an `unsigned int`. -/
def toUInt32 (x : ℤ) : ℕ :=
  (x % 2 ^ 32).toNat

def minNotZero (x y : UInt32) : UInt32 :=
  if x = 0 then y else if y = 0 then x else min x y

/-- The credits of a port, the preferences of its router and the parameter `dma_credits` of the
driver. -/
structure CreditParams where
  totalCredits : UInt32
  ctlCredits : UInt32
  maxUsb3Credits : UInt32
  minDpAuxCredits : UInt32
  minDpMainCredits : UInt32
  maxPcieCredits : UInt32
  maxDmaCredits : UInt32
  dmaCreditsParam : UInt32

/-- What the firmware permits: `tb_acpi_may_tunnel_*()` and `tb_acpi_is_xdomain_allowed()`. -/
structure AcpiPermits where
  usb3 : Bool
  dp : Bool
  pcie : Bool
  xdomain : Bool

def minDmaCredits : ℕ := 1

namespace CreditParams

variable (p : CreditParams) (acpi : AcpiPermits)

def usableCredits : UInt32 := p.totalCredits - p.ctlCredits

def dpCredits : UInt32 := p.minDpAuxCredits + p.minDpMainCredits

/-- The variable `usb3` of `tb_available_credits()`. -/
def usb3 : ℤ := if acpi.usb3 then toInt32 p.maxUsb3Credits.toNat else 0

/-- The variable `pcie`. -/
def pcie : ℤ := if acpi.pcie then toInt32 p.maxPcieCredits.toNat else 0

/-- The variable `spare`, with credits for a second DMA tunnel. -/
def spare : ℤ :=
  if acpi.xdomain then
    toInt32 (toInt32 (minNotZero p.maxDmaCredits p.dmaCreditsParam).toNat + minDmaCredits)
  else 0

def maxDpStreams : ℕ :=
  let credits := toInt32 p.usableCredits.toNat
  let aside := toInt32 (toInt32 (p.usb3 acpi + p.pcie acpi) + p.spare acpi)
  if acpi.dp then
    if p.dpCredits ≠ 0 then toUInt32 (toInt32 (credits - aside)) / p.dpCredits.toNat else 0
  else 0

/-- `tb_available_credits()`: the credits it returns and the number of streams it stores. -/
def availableCredits : ℕ × ℕ :=
  let credits := toInt32 p.usableCredits.toNat
  let ndp := p.maxDpStreams acpi
  let credits := toInt32 (credits - ndp * p.dpCredits.toNat)
  let credits := toInt32 (credits - p.usb3 acpi)
  ((max credits 0).toNat, ndp)

/-! ## The bound -/

def budget : ℕ := p.totalCredits.toNat - p.ctlCredits.toNat

def usb3Credits : ℕ := if acpi.usb3 then p.maxUsb3Credits.toNat else 0

def setAside : ℕ :=
  p.usb3Credits acpi + (if acpi.pcie then p.maxPcieCredits.toNat else 0) +
    if acpi.xdomain then (minNotZero p.maxDmaCredits p.dmaCreditsParam).toNat + minDmaCredits else 0

/-- Neither the available credits nor those of the streams exceed what the port has. -/
def WithinBudget : Prop :=
  (p.availableCredits acpi).1 ≤ p.budget ∧
    (p.availableCredits acpi).2 * (p.minDpAuxCredits.toNat + p.minDpMainCredits.toNat) ≤ p.budget

def CountsStreams : Prop :=
  acpi.dp = true ∧ p.dpCredits ≠ 0

instance : Decidable (p.CountsStreams acpi) :=
  inferInstanceAs (Decidable (_ ∧ _))

/-- The sums and differences of `tb_available_credits()` fit into an `int`, and the credits of a
stream into an `unsigned int`. -/
structure Representable : Prop where
  setAside : p.setAside acpi < 2 ^ 31
  usable : p.totalCredits.toNat < p.ctlCredits.toNat + 2 ^ 31
  difference : p.ctlCredits.toNat + p.setAside acpi ≤ p.totalCredits.toNat + 2 ^ 31
  stream : p.minDpAuxCredits.toNat + p.minDpMainCredits.toNat < 2 ^ 32

/-- If streams are counted, the port has the credits that are set aside, or the wrapped difference
is at least smaller than the credits of one stream.  If none are, what is missing for USB 3 does not
wrap to a positive number. -/
def Covers : Prop :=
  if p.CountsStreams acpi then
    p.ctlCredits.toNat + p.setAside acpi ≤ p.totalCredits.toNat ∨
      2 ^ 32 + p.totalCredits.toNat < p.ctlCredits.toNat + p.setAside acpi + p.dpCredits.toNat
  else
    p.ctlCredits.toNat + p.usb3Credits acpi ≤ p.totalCredits.toNat + 2 ^ 31 ∨
      p.totalCredits.toNat + 2 ^ 32 ≤ p.ctlCredits.toNat + p.usb3Credits acpi ∧
        p.ctlCredits.toNat + p.usb3Credits acpi ≤ p.totalCredits.toNat + 2 ^ 32 + 2 ^ 31

variable {p acpi}

theorem toInt32_of_fits {x : ℤ} (hlo : -2 ^ 31 ≤ x) (hhi : x < 2 ^ 31) : toInt32 x = x := by
  unfold toInt32
  omega

/-- The value of an `int` differs from the number stored by a multiple of `2 ^ 32`. -/
theorem toInt32_spec (x : ℤ) :
    ∃ k : ℤ, toInt32 x = x + 2 ^ 32 * k ∧ -2 ^ 31 ≤ toInt32 x ∧ toInt32 x < 2 ^ 31 := by
  refine ⟨-((x + 2 ^ 31) / 2 ^ 32), ?_⟩
  unfold toInt32
  omega

theorem toUInt32_of_nonneg {x : ℤ} (hlo : 0 ≤ x) (hhi : x < 2 ^ 32) : (toUInt32 x : ℤ) = x := by
  unfold toUInt32
  omega

theorem toUInt32_of_neg {x : ℤ} (hlo : -2 ^ 32 ≤ x) (hhi : x < 0) :
    (toUInt32 x : ℤ) = x + 2 ^ 32 := by
  unfold toUInt32
  omega

theorem usb3_eq_toInt32 : p.usb3 acpi = toInt32 (p.usb3Credits acpi) := by
  unfold usb3 usb3Credits
  split <;> rfl

section Values

variable (h : p.Representable acpi)

include h

/-- The usable credits are computed as a signed difference. -/
theorem toInt32_usable :
    toInt32 p.usableCredits.toNat = (p.totalCredits.toNat : ℤ) - p.ctlCredits.toNat := by
  have hctl := p.ctlCredits.toNat_lt
  have htotal := p.totalCredits.toNat_lt
  have hlo := h.difference
  have hhi := h.usable
  rw [usableCredits, UInt32.toNat_sub, toInt32]
  omega

theorem usb3_eq : p.usb3 acpi = p.usb3Credits acpi := by
  have hset := h.setAside
  rw [usb3_eq_toInt32]
  unfold setAside at hset
  exact toInt32_of_fits (by omega) (by omega)

/-- The credits set aside are computed as their sum. -/
theorem aside_eq :
    toInt32 (toInt32 (p.usb3 acpi + p.pcie acpi) + p.spare acpi) = (p.setAside acpi : ℤ) := by
  have hset := h.setAside
  have hpcie : p.pcie acpi = ((if acpi.pcie then p.maxPcieCredits.toNat else 0 : ℕ) : ℤ) := by
    unfold setAside at hset
    unfold pcie
    split
    · next hperm =>
      rw [if_pos hperm] at hset
      exact toInt32_of_fits (by omega) (by omega)
    · rfl
  have hspare : p.spare acpi = ((if acpi.xdomain then
      (minNotZero p.maxDmaCredits p.dmaCreditsParam).toNat + minDmaCredits else 0 : ℕ) : ℤ) := by
    unfold setAside at hset
    unfold spare
    split
    · next hperm =>
      rw [if_pos hperm] at hset
      rw [toInt32_of_fits (x := ((minNotZero _ _).toNat : ℤ)) (by omega) (by omega),
        toInt32_of_fits (by omega) (by omega), Nat.cast_add]
    · rfl
  have husb3 := usb3_eq h
  unfold setAside at hset ⊢
  have hinner : toInt32 (p.usb3 acpi + p.pcie acpi) = p.usb3 acpi + p.pcie acpi :=
    toInt32_of_fits (by omega) (by omega)
  rw [hinner, toInt32_of_fits (by omega) (by omega), husb3, hpcie, hspare]
  push_cast
  rfl

theorem dpCredits_eq : p.dpCredits.toNat = p.minDpAuxCredits.toNat + p.minDpMainCredits.toNat := by
  rw [dpCredits, UInt32.toNat_add]
  exact Nat.mod_eq_of_lt h.stream

/-- The streams are counted in the difference, or in the number near `2 ^ 32` that a negative
difference wraps to. -/
theorem maxDpStreams_cases (hcounts : p.CountsStreams acpi) : ∃ rest : ℕ,
    (p.ctlCredits.toNat + p.setAside acpi + rest = p.totalCredits.toNat ∨
      p.totalCredits.toNat < p.ctlCredits.toNat + p.setAside acpi ∧
        p.ctlCredits.toNat + p.setAside acpi + rest = p.totalCredits.toNat + 2 ^ 32) ∧
    p.maxDpStreams acpi = rest / p.dpCredits.toNat := by
  have hset := h.setAside
  have hlo := h.difference
  have hhi := h.usable
  have hndp : p.maxDpStreams acpi = toUInt32 ((p.totalCredits.toNat : ℤ) - p.ctlCredits.toNat -
      p.setAside acpi) / p.dpCredits.toNat := by
    simp only [maxDpStreams, hcounts.1, hcounts.2, if_true, ne_eq, not_false_eq_true,
      toInt32_usable h, aside_eq h]
    rw [toInt32_of_fits (by omega) (by omega)]
  refine ⟨_, ?_, hndp⟩
  by_cases hcovered : p.ctlCredits.toNat + p.setAside acpi ≤ p.totalCredits.toNat
  · left
    have hrest := toUInt32_of_nonneg (x := (p.totalCredits.toNat : ℤ) - p.ctlCredits.toNat -
      p.setAside acpi) (by omega) (by omega)
    omega
  · right
    have hrest := toUInt32_of_neg (x := (p.totalCredits.toNat : ℤ) - p.ctlCredits.toNat -
      p.setAside acpi) (by omega) (by omega)
    omega

/-- The credits that are returned, if those of the streams leave enough for USB 3. -/
theorem availableCredits_le {taken : ℕ}
    (htaken : p.maxDpStreams acpi * p.dpCredits.toNat = taken)
    (henough : taken = 0 ∨ p.ctlCredits.toNat + p.setAside acpi + taken ≤ p.totalCredits.toNat) :
    (p.availableCredits acpi).1 ≤ p.budget := by
  have hset := h.setAside
  have hlo := h.difference
  have hhi := h.usable
  have husb3 := usb3_eq h
  have hle : p.usb3Credits acpi ≤ p.setAside acpi := by
    unfold setAside
    omega
  have hcast : (p.maxDpStreams acpi : ℤ) * p.dpCredits.toNat = taken := by
    exact_mod_cast htaken
  simp only [availableCredits, toInt32_usable h, hcast, budget]
  rw [toInt32_of_fits (x := (p.totalCredits.toNat : ℤ) - p.ctlCredits.toNat - taken) (by omega)
    (by omega), toInt32_of_fits (by omega) (by omega)]
  omega

/-- Counting streams, the function keeps to the budget exactly if it is not counting in a wrapped
difference. -/
theorem withinBudget_counting_iff (hcounts : p.CountsStreams acpi) :
    p.WithinBudget acpi ↔ p.ctlCredits.toNat + p.setAside acpi ≤ p.totalCredits.toNat ∨
      2 ^ 32 + p.totalCredits.toNat <
        p.ctlCredits.toNat + p.setAside acpi + p.dpCredits.toNat := by
  have hset := h.setAside
  have hhi := h.usable
  obtain ⟨rest, hrest, hndp⟩ := maxDpStreams_cases h hcounts
  unfold WithinBudget
  rw [← dpCredits_eq h]
  change (p.availableCredits acpi).1 ≤ p.budget ∧
    p.maxDpStreams acpi * p.dpCredits.toNat ≤ p.budget ↔ _
  constructor
  · rintro ⟨-, hstreams⟩
    rw [hndp, budget] at hstreams
    have hpos : 0 < p.dpCredits.toNat := by
      have hne : p.dpCredits.toNat ≠ 0 := fun hzero ↦ hcounts.2 (UInt32.toNat_inj.1 hzero)
      omega
    have hlast : rest < rest / p.dpCredits.toNat * p.dpCredits.toNat + p.dpCredits.toNat :=
      Nat.lt_div_mul_add hpos
    -- a wrapped dividend has room for a stream beyond the budget
    by_cases hfits : rest < p.dpCredits.toNat
    · omega
    · have hone : p.dpCredits.toNat ≤ rest / p.dpCredits.toNat * p.dpCredits.toNat :=
        Nat.le_mul_of_pos_left _ (Nat.div_pos (by omega) hpos)
      omega
  · have hdiv : rest / p.dpCredits.toNat * p.dpCredits.toNat ≤ rest := Nat.div_mul_le_self _ _
    rintro (hcovered | hwrapped)
    · refine ⟨availableCredits_le h rfl (.inr ?_), ?_⟩
      · rw [hndp]
        omega
      · rw [hndp, budget]
        omega
    · have hzero : p.maxDpStreams acpi = 0 := by
        rw [hndp]
        exact Nat.div_eq_of_lt (by omega)
      rw [hzero, Nat.zero_mul]
      exact ⟨availableCredits_le h (by rw [hzero, Nat.zero_mul]) (.inl rfl), Nat.zero_le _⟩

end Values

/-- Without streams, only USB 3 is subtracted. -/
theorem withinBudget_plain_iff (hcounts : ¬ p.CountsStreams acpi) :
    p.WithinBudget acpi ↔
      p.ctlCredits.toNat + p.usb3Credits acpi ≤ p.totalCredits.toNat + 2 ^ 31 ∨
      p.totalCredits.toNat + 2 ^ 32 ≤ p.ctlCredits.toNat + p.usb3Credits acpi ∧
        p.ctlCredits.toNat + p.usb3Credits acpi ≤ p.totalCredits.toNat + 2 ^ 32 + 2 ^ 31 := by
  have hndp : p.maxDpStreams acpi = 0 := by
    unfold maxDpStreams
    simp only [ite_eq_right_iff, ne_eq]
    exact fun hperm hcredits ↦ absurd ⟨hperm, hcredits⟩ hcounts
  have hctl := p.ctlCredits.toNat_lt
  have htotal := p.totalCredits.toNat_lt
  have husb3 : p.usb3Credits acpi < 2 ^ 32 := by
    have hlt := p.maxUsb3Credits.toNat_lt
    unfold usb3Credits
    split <;> omega
  have hfst : (p.availableCredits acpi).1 =
      (max (toInt32 (toInt32 (toInt32 p.usableCredits.toNat) - p.usb3 acpi)) 0).toNat := by
    simp [availableCredits, hndp]
  have hsnd : (p.availableCredits acpi).2 = 0 := hndp
  -- the result is the difference, up to a multiple of `2 ^ 32`
  obtain ⟨k, hk, hlo, hhi⟩ : ∃ k : ℤ,
      toInt32 (toInt32 (toInt32 p.usableCredits.toNat) - p.usb3 acpi) = (p.totalCredits.toNat : ℤ) -
        p.ctlCredits.toNat - p.usb3Credits acpi + 2 ^ 32 * k ∧
      -2 ^ 31 ≤ toInt32 (toInt32 (toInt32 p.usableCredits.toNat) - p.usb3 acpi) ∧
      toInt32 (toInt32 (toInt32 p.usableCredits.toNat) - p.usb3 acpi) < 2 ^ 31 := by
    obtain ⟨k₁, hk₁, -⟩ := toInt32_spec p.usableCredits.toNat
    obtain ⟨k₂, hk₂, -⟩ := toInt32_spec (toInt32 p.usableCredits.toNat)
    obtain ⟨k₃, hk₃, -⟩ := toInt32_spec (p.usb3Credits acpi)
    obtain ⟨k₄, hk₄, hlo, hhi⟩ :=
      toInt32_spec (toInt32 (toInt32 p.usableCredits.toNat) - p.usb3 acpi)
    obtain ⟨k₅, hk₅⟩ : ∃ k : ℤ, (p.usableCredits.toNat : ℤ) =
        (p.totalCredits.toNat : ℤ) - p.ctlCredits.toNat + 2 ^ 32 * k := by
      refine ⟨if p.ctlCredits.toNat ≤ p.totalCredits.toNat then 0 else 1, ?_⟩
      rw [usableCredits, UInt32.toNat_sub]
      split <;> omega
    rw [← usb3_eq_toInt32] at hk₃
    refine ⟨k₁ + k₂ - k₃ + k₄ + k₅, ?_, hlo, hhi⟩
    rw [hk₄, hk₂, hk₁, hk₃, hk₅]
    ring
  rw [WithinBudget, hfst, hsnd, Nat.zero_mul, budget]
  generalize toInt32 (toInt32 (toInt32 p.usableCredits.toNat) - p.usb3 acpi) = v at hk hlo hhi
  omega

/-- As long as the arithmetic that counts streams fits, `tb_available_credits()` keeps to what the
port has exactly if the port covers what is set aside. -/
theorem available_credits_within_budget_iff (p : CreditParams) (acpi : AcpiPermits)
    (h : p.CountsStreams acpi → p.Representable acpi) : p.WithinBudget acpi ↔ p.Covers acpi := by
  unfold Covers
  split
  · next hcounts => exact withinBudget_counting_iff (h hcounts) hcounts
  · next hcounts => exact withinBudget_plain_iff hcounts

end CreditParams

/-- A port of a router that prefers 14 credits for USB 3, 32 for PCIe, 14 for DMA and 1 + 18 for a
DisplayPort stream. -/
def sampleCredits (total : UInt32) : CreditParams where
  totalCredits := total
  ctlCredits := 2
  maxUsb3Credits := 14
  minDpAuxCredits := 1
  minDpMainCredits := 18
  maxPcieCredits := 32
  maxDmaCredits := 14
  dmaCreditsParam := 14

def allPermits : AcpiPermits := ⟨true, true, true, true⟩

theorem available_credits_within_budget_large :
    (sampleCredits 120).Representable allPermits ∧ (sampleCredits 120).WithinBudget allPermits := by
  have h : (sampleCredits 120).Representable allPermits := by
    constructor <;> decide
  refine ⟨h, (CreditParams.available_credits_within_budget_iff _ _ fun _ ↦ h).2 ?_⟩
  unfold CreditParams.Covers
  decide

/-- A port with 32 credits, two of them for control packets, is said to have 60 for PCIe and DMA and
226050908 streams. -/
theorem available_credits_beyond_total :
    (sampleCredits 32).availableCredits allPermits = (60, 226050908) ∧
      (sampleCredits 32).budget = 30 ∧ ¬ (sampleCredits 32).WithinBudget allPermits := by
  unfold CreditParams.WithinBudget
  decide

end ThunderboltStack.Cm
