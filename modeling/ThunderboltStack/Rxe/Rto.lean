import ThunderboltStack.Lib.Smoothing

/-!
# The adaptive retransmit deadline

`rxe_comp.c` measures the round-trip time between an acknowledgement that made progress and the next
one, smooths the samples as TCP does, and derives the delay of the retransmit timer from the result:
the deadline, shifted by the number of consecutive timeouts and capped by the timeout of the queue
pair.

The filter stores unsigned words and computes differences in signed ones.  It computes the filter on
integers as long as each sample differs from the smoothed value by less than `2 ^ 31`; the caller
clamps a sample to 32 bits only.
-/

namespace ThunderboltStack.Rxe

open ThunderboltStack.Lib

/-- The round-trip estimate of a completer. -/
structure RttEstimate where
  srttUs : UInt32 := 0
  rttvarUs : UInt32 := 0
  deriving DecidableEq

def absDiff (a b : UInt32) : UInt32 :=
  if b < a then a - b else b - a

def rtoSample (e : RttEstimate) (sampleUs : UInt32) : RttEstimate :=
  if e.srttUs = 0 then { srttUs := sampleUs, rttvarUs := sampleUs / 2 }
  else
    { rttvarUs := e.rttvarUs +
        (((absDiff sampleUs e.srttUs).toInt32 - e.rttvarUs.toInt32) / 4).toUInt32
      srttUs := e.srttUs + ((sampleUs.toInt32 - e.srttUs.toInt32) / 8).toUInt32 }

def rtoRun (samples : List UInt32) : RttEstimate :=
  samples.foldl rtoSample {}

def rtoDeadlineUs (e : RttEstimate) : UInt32 :=
  e.srttUs + 4 * e.rttvarUs

def retransBackoffJiffies (qpTimeout base : UInt64) (shift : UInt32) : UInt64 :=
  if base = 0 ∨ qpTimeout = 0 then qpTimeout
  else
    let d := base <<< (min shift 16).toUInt64
    let d := min d qpTimeout
    if d = 0 then 1 else d

/-! ## Bounds of the filter -/

def Near (e : RttEstimate) (sampleUs : UInt32) : Prop :=
  e.srttUs = 0 ∨ absDiff sampleUs e.srttUs < 0x80000000

/-- Every sample is near the estimate that it updates. -/
def Steady : RttEstimate → List UInt32 → Prop
  | _, [] => True
  | e, s :: samples => Near e s ∧ Steady (rtoSample e s) samples

/-- The estimate is between the samples, and its variation below the largest of them. -/
structure Within (samples : List UInt32) (e : RttEstimate) : Prop where
  low : ∃ s ∈ samples, s ≤ e.srttUs
  high : ∃ s ∈ samples, e.srttUs ≤ s
  variation : ∃ s ∈ samples, e.rttvarUs ≤ s
  half : e.rttvarUs.toNat < 2 ^ 31

section Filter

variable {e : RttEstimate} {s : UInt32} {seen samples : List UInt32}

theorem toNat_absDiff (a b : UInt32) :
    (absDiff a b).toNat = ((a.toNat : ℤ) - b.toNat).natAbs := by
  unfold absDiff
  split
  · next h =>
    have hlt : b.toNat < a.toNat := h
    rw [UInt32.toNat_sub_of_le _ _ (UInt32.le_of_lt h)]
    omega
  · next h =>
    have hle : a.toNat ≤ b.toNat := Nat.le_of_not_lt h
    rw [UInt32.toNat_sub_of_le _ _ hle]
    omega

theorem high_append {a a' : UInt32} (h : ∃ x ∈ seen, a ≤ x)
    (ha : a'.toNat ≤ max a.toNat s.toNat) : ∃ x ∈ seen ++ [s], a' ≤ x := by
  obtain ⟨x, hx, hax⟩ := h
  have hax' : a.toNat ≤ x.toNat := hax
  rcases Nat.le_total a.toNat s.toNat with hle | hle
  · refine ⟨s, by simp, UInt32.le_iff_toNat_le.2 ?_⟩
    omega
  · refine ⟨x, by simp [hx], UInt32.le_iff_toNat_le.2 ?_⟩
    omega

theorem low_append {a a' : UInt32} (h : ∃ x ∈ seen, x ≤ a)
    (ha : min a.toNat s.toNat ≤ a'.toNat) : ∃ x ∈ seen ++ [s], x ≤ a' := by
  obtain ⟨x, hx, hxa⟩ := h
  have hxa' : x.toNat ≤ a.toNat := hxa
  rcases Nat.le_total a.toNat s.toNat with hle | hle
  · refine ⟨x, by simp [hx], UInt32.le_iff_toNat_le.2 ?_⟩
    omega
  · refine ⟨s, by simp, UInt32.le_iff_toNat_le.2 ?_⟩
    omega

theorem within_first (h : e.srttUs = 0) : Within (seen ++ [s]) (rtoSample e s) := by
  have hhalf : (s / 2).toNat = s.toNat / 2 := UInt32.toNat_div s 2
  have hlt := s.toNat_lt
  have hfirst : rtoSample e s = { srttUs := s, rttvarUs := s / 2 } := by simp [rtoSample, h]
  rw [hfirst]
  constructor
  · exact ⟨s, by simp, UInt32.le_refl s⟩
  · exact ⟨s, by simp, UInt32.le_refl s⟩
  · refine ⟨s, by simp, UInt32.le_iff_toNat_le.2 ?_⟩
    calc (s / 2).toNat = s.toNat / 2 := hhalf
      _ ≤ s.toNat := Nat.div_le_self _ _
  · calc (s / 2).toNat = s.toNat / 2 := hhalf
      _ < 2 ^ 31 := by omega

/-- A sample that is near moves the estimate towards itself: neither of the two filters wraps. -/
theorem within_next (h : Within seen e) (hzero : e.srttUs ≠ 0)
    (hnear : absDiff s e.srttUs < 0x80000000) : Within (seen ++ [s]) (rtoSample e s) := by
  have hdiff : (absDiff s e.srttUs).toNat < 2 ^ 31 := hnear
  have habs := toNat_absDiff s e.srttUs
  have hvar := h.half
  have hsrtt : ((rtoSample e s).srttUs.toNat : ℤ) = approach 8 e.srttUs.toNat s.toNat := by
    simp only [rtoSample, hzero, if_false]
    exact toNat_approach (k := 8) (by decide) (by omega) (by omega)
  have hrttvar : ((rtoSample e s).rttvarUs.toNat : ℤ) =
      approach 4 e.rttvarUs.toNat (absDiff s e.srttUs).toNat := by
    simp only [rtoSample, hzero, if_false]
    exact toNat_approach (k := 4) (by decide) (by omega) (by omega)
  have hsrttLow := le_approach (k := 8) (x := e.srttUs.toNat) (s := s.toNat) (by decide)
  have hsrttHigh := approach_le (k := 8) (x := e.srttUs.toNat) (s := s.toNat) (by decide)
  have hvarHigh := approach_le (k := 4) (x := e.rttvarUs.toNat)
    (s := (absDiff s e.srttUs).toNat) (by decide)
  constructor
  · exact low_append h.low (by omega)
  · exact high_append h.high (by omega)
  · rcases le_total (absDiff s e.srttUs).toNat e.rttvarUs.toNat with hle | hle
    · exact high_append h.variation (by omega)
    · -- the distance is below the sample or below the old estimate
      have hdist : (absDiff s e.srttUs).toNat ≤ max e.srttUs.toNat s.toNat := by omega
      exact high_append h.high (by omega)
  · omega

theorem within_sample (h : Within seen e ∨ e.srttUs = 0) (hnear : Near e s) :
    Within (seen ++ [s]) (rtoSample e s) := by
  by_cases hzero : e.srttUs = 0
  · exact within_first hzero
  · exact within_next (h.resolve_right hzero) hzero (hnear.resolve_left hzero)

/-- The bounds hold after every sequence of samples that are near. -/
theorem within_foldl (h : Within seen e ∨ e.srttUs = 0) (hsteady : Steady e samples)
    (hne : samples ≠ []) : Within (seen ++ samples) (samples.foldl rtoSample e) := by
  induction samples generalizing e seen with
  | nil => exact absurd rfl hne
  | cons s rest ih =>
    have hnext : Within (seen ++ [s]) (rtoSample e s) := within_sample h hsteady.1
    cases rest with
    | nil => exact hnext
    | cons s' rest =>
      have hrest := ih (.inl hnext) hsteady.2 (List.cons_ne_nil s' rest)
      rwa [List.append_assoc, List.singleton_append] at hrest

end Filter

section Delay

variable {qpTimeout base : UInt64} {shift : UInt32}

/-- The deadline is above the smoothed time unless the sum wraps. -/
theorem srtt_le_deadline_iff (e : RttEstimate) : e.srttUs ≤ rtoDeadlineUs e ↔
    e.srttUs.toNat + (4 * e.rttvarUs).toNat < 2 ^ 32 := by
  have hsrtt := e.srttUs.toNat_lt
  have hvar := (4 * e.rttvarUs).toNat_lt
  rw [UInt32.le_iff_toNat_le, rtoDeadlineUs, UInt32.toNat_add]
  omega

/-- The delay after `k` doublings, in numbers. -/
def delayAfter (T b k : ℕ) : ℕ :=
  max 1 (min (b * 2 ^ k % 2 ^ 64) T)

/-- The backoff is the delay after `shift` doublings, of which at most sixteen count. -/
theorem toNat_backoff (hbase : base ≠ 0) (htimeout : qpTimeout ≠ 0) (shift : UInt32) :
    (retransBackoffJiffies qpTimeout base shift).toNat =
      delayAfter qpTimeout.toNat base.toNat (min shift.toNat 16) := by
  have hmin : (min shift 16).toUInt64.toNat = min shift.toNat 16 := by
    rw [UInt32.toNat_toUInt64]
    exact UInt32.toNat_min shift 16
  have hshifted : (base <<< (min shift 16).toUInt64).toNat =
      base.toNat * 2 ^ min shift.toNat 16 % 2 ^ 64 := by
    have hlt : min shift.toNat 16 % 64 = min shift.toNat 16 := Nat.mod_eq_of_lt (by omega)
    rw [UInt64.toNat_shiftLeft, hmin, hlt, Nat.shiftLeft_eq]
  have hcapped : (min (base <<< (min shift 16).toUInt64) qpTimeout).toNat =
      min (base.toNat * 2 ^ min shift.toNat 16 % 2 ^ 64) qpTimeout.toNat := by
    rw [← hshifted]
    exact UInt64.toNat_min _ qpTimeout
  simp only [retransBackoffJiffies, hbase, htimeout, or_self, if_false]
  split
  · next hzero =>
    rw [hzero] at hcapped
    rw [delayAfter, ← hcapped]
    rfl
  · next hpos =>
    have hne : (min (base <<< (min shift 16).toUInt64) qpTimeout).toNat ≠ 0 :=
      fun heq ↦ hpos (UInt64.toNat_inj.1 heq)
    rw [hcapped] at hne ⊢
    exact (max_eq_right (Nat.one_le_iff_ne_zero.2 hne)).symm

def Fits (qpTimeout base : UInt64) : Prop :=
  ∀ k ≤ 16, 2 ^ 64 ≤ base.toNat * 2 ^ k → qpTimeout.toNat ≤ max (base.toNat * 2 ^ k % 2 ^ 64) 1

theorem delayAfter_le {T b k : ℕ} (hT : 1 ≤ T) : delayAfter T b k ≤ T := by
  unfold delayAfter
  omega

theorem le_delayAfter_iff {T b k : ℕ} (hT : 1 ≤ T) :
    T ≤ delayAfter T b k ↔ T ≤ max (b * 2 ^ k % 2 ^ 64) 1 := by
  unfold delayAfter
  omega

/-- If the delay does not fall, then the first doubling that wraps gives the timeout, and so do the
ones after it. -/
theorem timeout_of_wrap {T b : ℕ} (hT : 1 ≤ T) (hb : b < 2 ^ 64) {k : ℕ}
    (hmono : ∀ j < k, delayAfter T b j ≤ delayAfter T b (j + 1)) (hwrap : 2 ^ 64 ≤ b * 2 ^ k) :
    T ≤ delayAfter T b k := by
  induction k with
  | zero => omega
  | succ k ih =>
    have hstep := hmono k (Nat.lt_succ_self k)
    by_cases hearlier : 2 ^ 64 ≤ b * 2 ^ k
    · calc T ≤ delayAfter T b k := ih (fun j hj ↦ hmono j (Nat.lt_succ_of_lt hj)) hearlier
        _ ≤ delayAfter T b (k + 1) := hstep
    · have hdouble : b * 2 ^ (k + 1) = 2 * (b * 2 ^ k) := by
        rw [pow_succ, ← mul_assoc, mul_comm]
      rw [delayAfter, delayAfter, hdouble] at hstep
      rw [hdouble] at hwrap
      rw [delayAfter, hdouble]
      omega

/-- The delay grows with the shift unless a shift wraps below the timeout. -/
theorem backoff_mono_iff (hbase : base ≠ 0) (htimeout : qpTimeout ≠ 0) :
    (∀ shift shift' : UInt32, shift ≤ shift' → retransBackoffJiffies qpTimeout base shift ≤
      retransBackoffJiffies qpTimeout base shift') ↔ Fits qpTimeout base := by
  have hT : 1 ≤ qpTimeout.toNat :=
    Nat.one_le_iff_ne_zero.2 fun h ↦ htimeout (UInt64.toNat_inj.1 h)
  constructor
  · intro hmono k hk hwrap
    apply (le_delayAfter_iff hT).1
    apply timeout_of_wrap hT base.toNat_lt _ hwrap
    intro j hj
    have hshift : ∀ n ≤ 16, (UInt32.ofNat n).toNat = n :=
      fun n hn ↦ UInt32.toNat_ofNat_of_lt' (Nat.lt_of_le_of_lt hn (by decide))
    have hle := hmono (UInt32.ofNat j) (UInt32.ofNat (j + 1)) (by
      rw [UInt32.le_iff_toNat_le, hshift j (by omega), hshift (j + 1) (by omega)]
      omega)
    rw [UInt64.le_iff_toNat_le, toNat_backoff hbase htimeout, toNat_backoff hbase htimeout,
      hshift j (by omega), hshift (j + 1) (by omega), min_eq_left (by omega),
      min_eq_left (by omega)] at hle
    exact hle
  · intro hfits shift shift' hle
    rw [UInt64.le_iff_toNat_le, toNat_backoff hbase htimeout, toNat_backoff hbase htimeout]
    have hle' : min shift.toNat 16 ≤ min shift'.toNat 16 :=
      min_le_min_right 16 (UInt32.le_iff_toNat_le.1 hle)
    generalize min shift.toNat 16 = j at hle'
    have hk : min shift'.toNat 16 ≤ 16 := Nat.min_le_right _ _
    generalize min shift'.toNat 16 = k at hle' hk
    by_cases hwrap : 2 ^ 64 ≤ base.toNat * 2 ^ k
    · calc delayAfter qpTimeout.toNat base.toNat j ≤ qpTimeout.toNat := delayAfter_le hT
        _ ≤ delayAfter qpTimeout.toNat base.toNat k := (le_delayAfter_iff hT).2 (hfits k hk hwrap)
    · have hpow : base.toNat * 2 ^ j ≤ base.toNat * 2 ^ k :=
        Nat.mul_le_mul_left _ (Nat.pow_le_pow_right (by omega) hle')
      unfold delayAfter
      rw [Nat.mod_eq_of_lt (by omega), Nat.mod_eq_of_lt (by omega)]
      omega

theorem backoff_bounds (hbase : base ≠ 0) (htimeout : qpTimeout ≠ 0) (shift : UInt32) :
    1 ≤ retransBackoffJiffies qpTimeout base shift ∧
      retransBackoffJiffies qpTimeout base shift ≤ qpTimeout := by
  have hdelay := toNat_backoff hbase htimeout shift
  have hpos : qpTimeout.toNat ≠ 0 := fun h ↦ htimeout (UInt64.toNat_inj.1 h)
  constructor
  · apply UInt64.le_iff_toNat_le.2
    rw [hdelay]
    exact Nat.le_max_left _ _
  · apply UInt64.le_iff_toNat_le.2
    rw [hdelay]
    exact delayAfter_le (Nat.one_le_iff_ne_zero.2 hpos)

end Delay

/-- After every sequence of samples that are near, the smoothed time is between the samples and its
variation below the largest.  The deadline is above the smoothed time if and only if it does not
wrap.  The delay is positive and at most the timeout, and it grows with the shift if and only if no
shift wraps below the timeout. -/
theorem retransmit_deadline_bounds (samples : List UInt32) (e : RttEstimate)
    (qpTimeout base : UInt64) (hbase : base ≠ 0) (htimeout : qpTimeout ≠ 0) :
    (samples ≠ [] → Steady {} samples → (∃ s ∈ samples, s ≤ (rtoRun samples).srttUs) ∧
      (∃ s ∈ samples, (rtoRun samples).srttUs ≤ s) ∧
      ∃ s ∈ samples, (rtoRun samples).rttvarUs ≤ s) ∧
    (e.srttUs ≤ rtoDeadlineUs e ↔ e.srttUs.toNat + (4 * e.rttvarUs).toNat < 2 ^ 32) ∧
    (∀ shift, 1 ≤ retransBackoffJiffies qpTimeout base shift ∧
      retransBackoffJiffies qpTimeout base shift ≤ qpTimeout) ∧
    ((∀ shift shift' : UInt32, shift ≤ shift' → retransBackoffJiffies qpTimeout base shift ≤
      retransBackoffJiffies qpTimeout base shift') ↔ Fits qpTimeout base) := by
  refine ⟨?_, srtt_le_deadline_iff e, backoff_bounds hbase htimeout,
    backoff_mono_iff hbase htimeout⟩
  intro hne hsteady
  have hwithin : Within ([] ++ samples) (rtoRun samples) := within_foldl (.inr rfl) hsteady hne
  exact ⟨hwithin.low, hwithin.high, hwithin.variation⟩

theorem retransmit_deadline_bounds_sample :
    (∃ s ∈ [100, 300, 20], s ≤ (rtoRun [100, 300, 20]).srttUs) ∧
      (∃ s ∈ [100, 300, 20], (rtoRun [100, 300, 20]).srttUs ≤ s) ∧
      1 ≤ retransBackoffJiffies 1000 10 3 ∧ retransBackoffJiffies 1000 10 3 ≤ 1000 := by
  have hsteady : Steady {} [100, 300, 20] :=
    ⟨.inl rfl, .inr (by decide), .inr (by decide), trivial⟩
  obtain ⟨hfilter, -, hdelay, -⟩ :=
    retransmit_deadline_bounds [100, 300, 20] {} 1000 10 (by decide) (by decide)
  obtain ⟨hlow, hhigh, -⟩ := hfilter (by simp) hsteady
  exact ⟨hlow, hhigh, hdelay 3⟩

/-- A sample that is far away moves the smoothed time below all samples; the deadline of a single
long sample is below that sample; and a shift of a large base takes the delay back to one tick. -/
theorem retransmit_deadline_wraps :
    (rtoRun [100, 0xffffffff]).srttUs < 100 ∧ (rtoRun [100, 0xffffffff]).srttUs < 0xffffffff ∧
      rtoDeadlineUs (rtoRun [0x60000000]) < (rtoRun [0x60000000]).srttUs ∧
      retransBackoffJiffies 0xffffffffffffffff 0x1000000000000 16 <
        retransBackoffJiffies 0xffffffffffffffff 0x1000000000000 15 := by
  decide +kernel

end ThunderboltStack.Rxe
