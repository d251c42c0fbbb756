import Mathlib.Data.Finset.Card
import Mathlib.Logic.Relation
import Mathlib.Order.Filter.AtTopBot.Basic
import Mathlib.Order.Filter.Finite

/-!
# Recursive descent with a bound on its depth

A node has numbered items, and an item is refused, is a leaf or leads to another node.  A descent
looks at the items of a node in order, goes down at an item that leads to a node, and stops at the
first refusal.  Nothing makes the nodes below a node smaller, so a descent is given a depth; it is
`deep` if it would have to go further down.

`Opens` says which nodes a descent gets to from a node without mentioning a depth.  A descent of a
depth beyond the number of nodes is deep exactly if it gets to a node that lies below itself.
-/

namespace ThunderboltStack.Lib

inductive Item (N : Type) where
  | refused
  | leaf
  | node (child : N)

structure Items (N : Type) where
  width : N → ℕ
  item : N → ℕ → Item N

inductive Verdict where
  | accepted
  | refused
  | deep
  deriving DecidableEq

inductive Event (N : Type) where
  | enter (n : N)
  | item (n : N) (i : ℕ)

structure Descent (N : Type) where
  verdict : Verdict
  trace : List (Event N)

namespace Items

variable {N : Type} (g : Items N)

/-- The items of a node from `i` on, `k` of them. -/
def scan (below : N → Descent N) (n : N) : ℕ → ℕ → Descent N
  | 0, _ => ⟨.accepted, []⟩
  | k + 1, i =>
    match g.item n i with
    | .refused => ⟨.refused, [.item n i]⟩
    | .leaf =>
      let rest := scan below n k (i + 1)
      ⟨rest.verdict, .item n i :: rest.trace⟩
    | .node m =>
      if (below m).verdict = .accepted then
        let rest := scan below n k (i + 1)
        ⟨rest.verdict, .item n i :: ((below m).trace ++ rest.trace)⟩
      else ⟨(below m).verdict, .item n i :: (below m).trace⟩

def descend : ℕ → N → Descent N
  | 0, _ => ⟨.deep, []⟩
  | d + 1, n =>
    let items := g.scan (descend d) n (g.width n) 0
    ⟨items.verdict, .enter n :: items.trace⟩

inductive Accepted : N → Prop where
  | intro {n : N} (hitem : ∀ i < g.width n, g.item n i ≠ .refused)
      (hbelow : ∀ i < g.width n, ∀ m, g.item n i = .node m → Accepted m) : Accepted n

def Clear (n : N) (i : ℕ) : Prop :=
  g.item n i ≠ .refused ∧ ∀ m, g.item n i = .node m → g.Accepted m

/-- A descent that is in `n` goes down to `m`, unless it does not come back from an earlier node. -/
def Opens (n m : N) : Prop :=
  ∃ i < g.width n, g.item n i = .node m ∧ ∀ j < i, g.Clear n j

/-- What a descent from `root` comes across, if it is not cut off. -/
def Visits (root : N) : Event N → Prop
  | .enter n => Relation.ReflTransGen g.Opens root n
  | .item n i => Relation.ReflTransGen g.Opens root n ∧ i < g.width n ∧ ∀ j < i, g.Clear n j

section Scan

variable {g} {below : N → Descent N} {n : N} {k i : ℕ}

def Passes (g : Items N) (below : N → Descent N) (n : N) (i : ℕ) : Prop :=
  g.item n i ≠ .refused ∧ ∀ m, g.item n i = .node m → (below m).verdict = .accepted

/-- Where the range from `i` starts with `i` itself. -/
theorem exists_range_succ {p : ℕ → Prop} {q : ℕ → Prop} :
    (∃ j, i ≤ j ∧ j < i + (k + 1) ∧ (∀ l, i ≤ l → l < j → q l) ∧ p j) ↔
      p i ∨ q i ∧ ∃ j, i + 1 ≤ j ∧ j < i + 1 + k ∧ (∀ l, i + 1 ≤ l → l < j → q l) ∧ p j := by
  constructor
  · rintro ⟨j, hij, hj, hq, hp⟩
    rcases Nat.eq_or_lt_of_le hij with rfl | hlt
    · exact .inl hp
    · exact .inr ⟨hq i le_rfl hlt, j, hlt, by omega, fun l hl ↦ hq l (by omega), hp⟩
  · rintro (hp | ⟨hqi, j, hij, hj, hq, hp⟩)
    · exact ⟨i, le_rfl, by omega, fun l hl hl' ↦ absurd hl' (by omega), hp⟩
    · refine ⟨j, by omega, by omega, fun l hl hlj ↦ ?_, hp⟩
      rcases Nat.eq_or_lt_of_le hl with rfl | hlt
      · exact hqi
      · exact hq l hlt hlj

/-- A scan accepts exactly if every item passes. -/
theorem scan_accepted_iff :
    (g.scan below n k i).verdict = .accepted ↔ ∀ j, i ≤ j → j < i + k → g.Passes below n j := by
  induction k generalizing i with
  | zero => simp [scan]; omega
  | succ k ih =>
    have hsplit : (∀ j, i ≤ j → j < i + (k + 1) → g.Passes below n j) ↔
        g.Passes below n i ∧ ∀ j, i + 1 ≤ j → j < i + 1 + k → g.Passes below n j := by
      constructor
      · exact fun h ↦ ⟨h i le_rfl (by omega), fun j hj hj' ↦ h j (by omega) (by omega)⟩
      · rintro ⟨hi, h⟩ j hj hj'
        rcases Nat.eq_or_lt_of_le hj with rfl | hlt
        · exact hi
        · exact h j hlt (by omega)
    rw [hsplit, ← ih, scan]
    cases hitem : g.item n i with
    | refused | leaf => simp [Passes, hitem]
    | node m => by_cases hm : (below m).verdict = .accepted <;> simp [Passes, hitem, hm]

theorem scan_deep_iff :
    (g.scan below n k i).verdict = .deep ↔
      ∃ j, i ≤ j ∧ j < i + k ∧ (∀ l, i ≤ l → l < j → g.Passes below n l) ∧
        ∃ m, g.item n j = .node m ∧ (below m).verdict = .deep := by
  induction k generalizing i with
  | zero => simp [scan]; omega
  | succ k ih =>
    rw [exists_range_succ, ← ih, scan]
    cases hitem : g.item n i with
    | refused | leaf => simp [Passes, hitem]
    | node m => by_cases hm : (below m).verdict = .accepted <;> simp [Passes, hitem, hm]

theorem mem_scan_trace {e : Event N} :
    e ∈ (g.scan below n k i).trace ↔
      ∃ j, i ≤ j ∧ j < i + k ∧ (∀ l, i ≤ l → l < j → g.Passes below n l) ∧
        (e = .item n j ∨ ∃ m, g.item n j = .node m ∧ e ∈ (below m).trace) := by
  induction k generalizing i with
  | zero => simp [scan]; omega
  | succ k ih =>
    rw [exists_range_succ, ← ih, scan]
    cases hitem : g.item n i with
    | refused | leaf => simp [Passes, hitem]
    | node m => by_cases hm : (below m).verdict = .accepted <;> simp [Passes, hitem, hm, or_assoc]

end Scan

section Accept

variable {g} {n m : N} {d : ℕ}

theorem accepted_of_descend (h : (g.descend d n).verdict = .accepted) : g.Accepted n := by
  induction d generalizing n with
  | zero => cases h
  | succ d ih =>
    have hpass := scan_accepted_iff.mp h
    constructor
    · exact fun i hi ↦ (hpass i (Nat.zero_le i) (by omega)).1
    · exact fun i hi m hm ↦ ih ((hpass i (Nat.zero_le i) (by omega)).2 m hm)

/-- A descent goes down at the first item whose node takes it too deep. -/
theorem descend_deep_of_below {i : ℕ} (hi : i < g.width n) (hitem : g.item n i = .node m)
    (hdeep : (g.descend d m).verdict = .deep)
    (hclear : ∀ j < i, g.item n j ≠ .refused ∧ ∀ m, g.item n j = .node m →
      (g.descend d m).verdict = .accepted ∨ (g.descend d m).verdict = .deep) :
    (g.descend (d + 1) n).verdict = .deep := by
  classical
  have hex : ∃ j, ∃ m, g.item n j = .node m ∧ (g.descend d m).verdict = .deep :=
    ⟨i, m, hitem, hdeep⟩
  have hle : Nat.find hex ≤ i := Nat.find_min' hex ⟨m, hitem, hdeep⟩
  refine scan_deep_iff.mpr ⟨Nat.find hex, Nat.zero_le _, by omega, fun l _ hl ↦ ?_,
    Nat.find_spec hex⟩
  have hl' := hclear l (by omega)
  refine ⟨hl'.1, fun m' hm' ↦ (hl'.2 m' hm').resolve_right fun hdeep' ↦ ?_⟩
  exact Nat.find_min hex hl ⟨m', hm', hdeep'⟩

theorem Accepted.descend (h : g.Accepted n) (d : ℕ) :
    (g.descend d n).verdict = .accepted ∨ (g.descend d n).verdict = .deep := by
  induction h generalizing d with
  | @intro n hitem _ ih =>
    cases d with
    | zero => exact .inr rfl
    | succ d =>
      by_cases hex : ∃ i, i < g.width n ∧ ∃ m, g.item n i = .node m ∧
          (g.descend d m).verdict = .deep
      · obtain ⟨i, hi, m, hm, hdeep⟩ := hex
        exact .inr (descend_deep_of_below hi hm hdeep fun j hj ↦
          ⟨hitem j (by omega), fun m' hm' ↦ ih j (by omega) m' hm' d⟩)
      · refine .inl (scan_accepted_iff.mpr fun j _ hj ↦ ⟨hitem j (by omega), fun m hm ↦ ?_⟩)
        have hj' : j < g.width n := by omega
        exact (ih j hj' m hm d).resolve_right fun hdeep ↦ hex ⟨j, hj', m, hm, hdeep⟩

/-- Items that hold for every larger depth below do so one level up. -/
theorem eventually_succ {p : ℕ → Prop} {q : ℕ → Prop} (hp : ∀ᶠ d in Filter.atTop, p d)
    (hpq : ∀ d, p d → q (d + 1)) : ∀ᶠ d in Filter.atTop, q d := by
  filter_upwards [(Filter.tendsto_sub_atTop_nat 1).eventually hp,
    Filter.eventually_ge_atTop 1] with d hd hpos
  obtain ⟨d, rfl⟩ := Nat.exists_eq_add_of_le' hpos
  exact hpq d (by simpa using hd)

/-- Finitely many items pass once the descents below them are accepted. -/
theorem eventually_passes {w : ℕ} (hitem : ∀ i < w, g.item n i ≠ .refused)
    (hbelow : ∀ i < w, ∀ m, g.item n i = .node m →
      ∀ᶠ d in Filter.atTop, (g.descend d m).verdict = .accepted) :
    ∀ᶠ d in Filter.atTop, ∀ i < w, g.Passes (g.descend d) n i := by
  have hall : ∀ᶠ d in Filter.atTop, ∀ i ∈ Finset.range w, g.Passes (g.descend d) n i := by
    rw [Filter.eventually_all_finset]
    intro i hi
    have hi' := Finset.mem_range.mp hi
    cases hcase : g.item n i with
    | refused => exact absurd hcase (hitem i hi')
    | leaf => simp [Passes, hcase]
    | node m =>
      filter_upwards [hbelow i hi' m hcase] with d hd
      simpa [Passes, hcase] using hd
  filter_upwards [hall] with d hd i hi
  exact hd i (Finset.mem_range.mpr hi)

theorem Accepted.eventually (h : g.Accepted n) :
    ∀ᶠ d in Filter.atTop, (g.descend d n).verdict = .accepted := by
  induction h with
  | intro hitem _ ih =>
    apply eventually_succ (eventually_passes hitem ih)
    intro d hd
    exact scan_accepted_iff.mpr fun j _ hj ↦ hd j (by omega)

end Accept

/-! ## What a descent comes across -/

section Visit

variable {g} {n m root : N} {d : ℕ} {e : Event N}

theorem Visits.head (hopen : g.Opens n m) (h : g.Visits m e) : g.Visits n e := by
  cases e with
  | enter n' => exact .head hopen h
  | item n' i => exact ⟨.head hopen h.1, h.2⟩

theorem clear_of_passes {i : ℕ} (h : g.Passes (g.descend d) n i) : g.Clear n i :=
  ⟨h.1, fun m hm ↦ accepted_of_descend (h.2 m hm)⟩

theorem visits_of_mem_trace (h : e ∈ (g.descend d n).trace) : g.Visits n e := by
  induction d generalizing n with
  | zero => cases h
  | succ d ih =>
    rcases List.mem_cons.mp h with rfl | hscan
    · exact .refl
    · obtain ⟨j, -, hj, hpass, hcase⟩ := mem_scan_trace.mp hscan
      have hclear : ∀ l < j, g.Clear n l := fun l hl ↦ clear_of_passes (hpass l (Nat.zero_le l) hl)
      rcases hcase with rfl | ⟨m, hm, hmem⟩
      · exact ⟨.refl, by omega, hclear⟩
      · exact (ih hmem).head ⟨j, by omega, hm, hclear⟩

theorem eventually_passes_of_clear {i : ℕ} (h : ∀ j < i, g.Clear n j) :
    ∀ᶠ d in Filter.atTop, ∀ j < i, g.Passes (g.descend d) n j :=
  eventually_passes (fun j hj ↦ (h j hj).1) fun j hj m hm ↦ ((h j hj).2 m hm).eventually

theorem eventually_mem_of_opens (hopen : g.Opens n m)
    (h : ∀ᶠ d in Filter.atTop, e ∈ (g.descend d m).trace) :
    ∀ᶠ d in Filter.atTop, e ∈ (g.descend d n).trace := by
  obtain ⟨i, hi, hitem, hclear⟩ := hopen
  apply eventually_succ (h.and (eventually_passes_of_clear hclear))
  rintro d ⟨hmem, hpass⟩
  refine List.mem_cons_of_mem _ (mem_scan_trace.mpr ⟨i, Nat.zero_le i, by omega, ?_, ?_⟩)
  · exact fun l _ hl ↦ hpass l hl
  · exact .inr ⟨m, hitem, hmem⟩

theorem eventually_mem_of_reach (hreach : Relation.ReflTransGen g.Opens root n)
    (h : ∀ᶠ d in Filter.atTop, e ∈ (g.descend d n).trace) :
    ∀ᶠ d in Filter.atTop, e ∈ (g.descend d root).trace := by
  induction hreach using Relation.ReflTransGen.head_induction_on with
  | refl => exact h
  | head hopen _ ih => exact eventually_mem_of_opens hopen ih

theorem Visits.eventually_mem (h : g.Visits root e) :
    ∀ᶠ d in Filter.atTop, e ∈ (g.descend d root).trace := by
  cases e with
  | enter n =>
    apply eventually_mem_of_reach h
    apply eventually_succ (Filter.Eventually.of_forall fun _ ↦ trivial)
    exact fun d _ ↦ List.mem_cons_self
  | item n i =>
    obtain ⟨hreach, hi, hclear⟩ := h
    apply eventually_mem_of_reach hreach
    apply eventually_succ (eventually_passes_of_clear hclear)
    intro d hpass
    refine List.mem_cons_of_mem _ (mem_scan_trace.mpr ⟨i, Nat.zero_le i, by omega, ?_, .inl rfl⟩)
    exact fun l _ hl ↦ hpass l hl

/-- What is visited is what descents of some depth come across. -/
theorem exists_mem_trace_iff : (∃ d, e ∈ (g.descend d root).trace) ↔ g.Visits root e :=
  ⟨fun ⟨_, h⟩ ↦ visits_of_mem_trace h, fun h ↦ h.eventually_mem.exists⟩

end Visit

section Cycle

variable {g} {n m root : N} {d : ℕ}

theorem Opens.not_deep (hopen : g.Opens n m) (h : (g.descend (d + 1) n).verdict ≠ .deep) :
    (g.descend d m).verdict ≠ .deep := by
  obtain ⟨i, hi, hitem, hclear⟩ := hopen
  intro hdeep
  apply h
  apply descend_deep_of_below hi hitem hdeep
  exact fun j hj ↦ ⟨(hclear j hj).1, fun m' hm' ↦ ((hclear j hj).2 m' hm').descend d⟩

theorem exists_opens_of_deep (h : (g.descend (d + 1) n).verdict = .deep) :
    ∃ m, g.Opens n m ∧ (g.descend d m).verdict = .deep := by
  obtain ⟨j, -, hj, hpass, m, hm, hdeep⟩ := scan_deep_iff.mp h
  exact ⟨m, ⟨j, by omega, hm, fun l hl ↦ clear_of_passes (hpass l (Nat.zero_le l) hl)⟩, hdeep⟩

/-- The depth that is enough gets smaller along `Opens`. -/
theorem exists_lt_of_opens (hopen : g.Opens n m) (h : (g.descend d n).verdict ≠ .deep) :
    ∃ d' < d, (g.descend d' m).verdict ≠ .deep := by
  cases d with
  | zero => exact absurd rfl h
  | succ d => exact ⟨d, Nat.lt_succ_self d, hopen.not_deep h⟩

theorem exists_lt_of_transGen (hbelow : Relation.TransGen g.Opens n m)
    (h : (g.descend d n).verdict ≠ .deep) : ∃ d' < d, (g.descend d' m).verdict ≠ .deep := by
  induction hbelow with
  | single hopen => exact exists_lt_of_opens hopen h
  | tail _ hopen ih =>
    obtain ⟨d₁, hlt₁, h₁⟩ := ih
    obtain ⟨d₂, hlt₂, h₂⟩ := exists_lt_of_opens hopen h₁
    exact ⟨d₂, hlt₂.trans hlt₁, h₂⟩

/-- No depth is enough for a node that lies below itself. -/
theorem deep_of_cycle (hcycle : Relation.TransGen g.Opens n n) (d : ℕ) :
    (g.descend d n).verdict = .deep := by
  induction d using Nat.strong_induction_on with
  | _ d ih =>
    by_contra h
    obtain ⟨d', hlt, h'⟩ := exists_lt_of_transGen hcycle h
    exact h' (ih d' hlt)

/-- Without a cycle the depth of a descent is at most the number of nodes. -/
theorem not_deep_of_acyclic (nodes : Finset N)
    (hnodes : ∀ m, Relation.ReflTransGen g.Opens n m → m ∈ nodes)
    (hacyclic : ∀ m, Relation.ReflTransGen g.Opens n m → ¬ Relation.TransGen g.Opens m m)
    (hd : nodes.card ≤ d) : (g.descend d n).verdict ≠ .deep := by
  classical
  -- going down from `n` leaves `n` behind for good, so one node fewer is left for the rest
  induction d generalizing n nodes with
  | zero =>
    have hmem := hnodes n .refl
    have hempty := Finset.card_eq_zero.mp (Nat.le_zero.mp hd)
    rw [hempty] at hmem
    cases hmem
  | succ d ih =>
    intro hdeep
    obtain ⟨m, hopen, hdeep'⟩ := exists_opens_of_deep hdeep
    refine ih (nodes.erase n) ?_ ?_ ?_ hdeep'
    · intro m' hm'
      refine Finset.mem_erase.mpr ⟨?_, hnodes m' (.head hopen hm')⟩
      rintro rfl
      exact hacyclic m' .refl (.head' hopen hm')
    · exact fun m' hm' ↦ hacyclic m' (.head hopen hm')
    · have hcard := Finset.card_erase_lt_of_mem (hnodes n .refl)
      omega

/-- A descent as deep as there are nodes is cut off exactly if it gets to a cycle. -/
theorem descend_not_deep_iff (nodes : Finset N)
    (hnodes : ∀ m, Relation.ReflTransGen g.Opens root m → m ∈ nodes) (hd : nodes.card ≤ d) :
    (g.descend d root).verdict ≠ .deep ↔
      ∀ m, Relation.ReflTransGen g.Opens root m → ¬ Relation.TransGen g.Opens m m := by
  constructor
  · intro h m hreach hcycle
    rcases Relation.reflTransGen_iff_eq_or_transGen.mp hreach with rfl | hbelow
    · exact h (deep_of_cycle hcycle d)
    · obtain ⟨d', -, h'⟩ := exists_lt_of_transGen hbelow h
      exact h' (deep_of_cycle hcycle d')
  · exact fun hacyclic ↦ not_deep_of_acyclic nodes hnodes hacyclic hd

end Cycle

end Items

end ThunderboltStack.Lib
