import ThunderboltStack.PropertyBlock.Reach

/-!
# The accesses of the parser

An access is inside if a read is in the block, a write is in what was allocated for it, and a count
is not negative.  Which entries and directories keep their accesses inside can be told from their
fields; the range check of the parser does not ask for all of it.
-/

namespace ThunderboltStack.PropertyBlock

open ThunderboltStack.Lib Relation

/-- An access that stays inside a block of `len` dwords and what was allocated. -/
def Access.Inside (len : ℕ) : Access → Prop
  | .read i n => ∀ k < n, i + k < len
  | .write size i n => ∀ k < n, 0 ≤ i + k ∧ i + k < size
  | .count n => 0 ≤ n

/-- A nested directory has its UUID in the block, and its length counts it. -/
def Node.Fits (len : ℕ) (n : Node) : Prop :=
  n.isRoot = false → n.offset + 4 ≤ len ∧ 4 ≤ n.len

namespace Block

variable (m : Block) (b : ℕ)

def ReadsValue : Prop :=
  match (m.entry b).type with
  | .directory | .data | .text => (m.entry b).length ≤ m.len
  | .value => (m.entry b).length = 1
  | .unknown => False

structure EntryFits : Prop where
  header : b + 2 < m.len
  value : m.ReadsValue b → b + 3 < m.len
  data : m.valid b = true → (m.entry b).type = .data →
    (m.entry b).length = 0 ∨ (m.entry b).value + (m.entry b).length ≤ m.len
  text : m.valid b = true → (m.entry b).type = .text →
    (m.entry b).length ≠ 0 ∧ (m.entry b).value + (m.entry b).length ≤ m.len

/-- What keeps the accesses for every directory and entry the parser gets to inside. -/
def Fits : Prop :=
  ∀ n, ReflTransGen m.directories.Opens m.root n → n.Fits m.len ∧
    ∀ i < n.nentries, (∀ j < i, m.directories.Clear n j) → m.EntryFits (entryAt n i)

end Block

section Access

variable {len i n : ℕ}

@[simp] theorem inside_read_succ : (Access.read i (n + 1)).Inside len ↔ i + n < len := by
  constructor
  · exact fun h ↦ h n (Nat.lt_succ_self n)
  · intro h k hk
    omega

theorem inside_read_iff : (Access.read i n).Inside len ↔ n = 0 ∨ i + n ≤ len := by
  cases n with
  | zero => simp [Access.Inside]
  | succ n =>
    rw [inside_read_succ]
    omega

@[simp] theorem inside_write_all : (Access.write n 0 n).Inside len := by
  intro k hk
  omega

@[simp] theorem inside_write_last :
    (Access.write (4 * n) ((n : ℤ) * 4 - 1) 1).Inside len ↔ n ≠ 0 := by
  constructor
  · intro h
    have hfirst := (h 0 Nat.one_pos).1
    omega
  · intro h k hk
    omega

@[simp] theorem inside_count {c : ℤ} : (Access.count c).Inside len ↔ 0 ≤ c := Iff.rfl

end Access

section Own

variable {m : Block} {b : ℕ} {n : Node}

theorem dirAccesses_inside_iff : (∀ a ∈ Block.dirAccesses n, a.Inside m.len) ↔ n.Fits m.len := by
  cases hroot : n.isRoot with
  | true => simp [Block.dirAccesses, Node.Fits, Node.contentCount, hroot]
  | false =>
    simp only [Block.dirAccesses, Node.Fits, Node.contentCount, hroot, Bool.false_eq_true, if_false,
      List.cons_append, List.nil_append, List.forall_mem_cons, List.not_mem_nil, inside_read_iff,
      inside_count]
    simp only [false_imp_iff, implies_true, and_true, forall_true_left]
    omega

theorem entryValid_inside_iff :
    (∀ a ∈ (m.entryValid b).log, a.Inside m.len) ↔
      b + 2 < m.len ∧
        ((m.entry b).type ≠ .value → m.ReadsValue b → b + 3 < m.len) := by
  unfold Block.entryValid Block.ReadsValue
  cases htype : (m.entry b).type with
  | unknown | value => simp [Bind.bind, Run.bind, access, pure, htype]
  | directory | data | text =>
    by_cases hlen : m.len < (m.entry b).length
    · simp [Bind.bind, Run.bind, access, pure, htype, hlen]
    · simp [Bind.bind, Run.bind, access, pure, htype, hlen, Nat.not_lt.mp hlen]

/-- The accesses of an entry are inside exactly if the entry fits. -/
theorem entryAccesses_inside_iff :
    (∀ a ∈ m.entryAccesses b, a.Inside m.len) ↔ m.EntryFits b := by
  have hsplit : m.EntryFits b ↔ (b + 2 < m.len ∧
      ((m.entry b).type ≠ .value → m.ReadsValue b → b + 3 < m.len)) ∧
      ((m.entry b).type = .value → m.ReadsValue b → b + 3 < m.len) ∧
      (m.valid b = true → (m.entry b).type = .data →
        (m.entry b).length = 0 ∨ (m.entry b).value + (m.entry b).length ≤ m.len) ∧
      (m.valid b = true → (m.entry b).type = .text →
        (m.entry b).length ≠ 0 ∧ (m.entry b).value + (m.entry b).length ≤ m.len) := by
    constructor
    · rintro ⟨hheader, hvalue, hdata, htext⟩
      exact ⟨⟨hheader, fun _ ↦ hvalue⟩, fun _ ↦ hvalue, hdata, htext⟩
    · rintro ⟨⟨hheader, hother⟩, hvalue, hdata, htext⟩
      refine ⟨hheader, ?_, hdata, htext⟩
      by_cases htype : (m.entry b).type = .value
      · exact hvalue htype
      · exact hother htype
  rw [hsplit, Block.entryAccesses, List.forall_mem_append, entryValid_inside_iff]
  apply and_congr_right
  rintro ⟨hheader, -⟩
  have hkey : b + 1 < m.len := by omega
  cases hv : m.valid b with
  | false =>
    simp only [Bool.false_eq_true, if_false, List.not_mem_nil, false_imp_iff, implies_true,
      and_true, true_iff]
    intro htype hread
    simp only [Block.ReadsValue, Block.valid, htype] at hread hv
    simp [hread] at hv
  | true =>
    cases htype : (m.entry b).type with
    | unknown | directory => simp [hkey]
    | data => simp [hkey, inside_read_iff]
    | text =>
      simp only [if_true, List.forall_mem_cons, inside_read_succ, inside_read_iff, hkey]
      simp
      omega
    | value =>
      have hread : m.ReadsValue b := by
        simp only [Block.valid, htype] at hv
        simpa [Block.ReadsValue, htype] using hv
      simp [hkey, hread]

end Own

section Whole

variable {m : Block}

/-- The parser stays inside at every depth exactly if the block fits. -/
theorem parseDirAt_inside_iff :
    (∀ depth, ∀ a ∈ (m.parseDirAt depth m.root).log, a.Inside m.len) ↔ m.Fits := by
  have hlog : ∀ depth, (m.parseDirAt depth m.root).log =
      (m.directories.descend depth m.root).trace.flatMap m.accesses :=
    fun depth ↦ (Block.parseDirAt_follows depth m.root).2
  have hvisits : (∀ depth, ∀ a ∈ (m.parseDirAt depth m.root).log, a.Inside m.len) ↔
      ∀ e, m.directories.Visits m.root e → ∀ a ∈ m.accesses e, a.Inside m.len := by
    constructor
    · intro h e hvisit a ha
      obtain ⟨depth, hmem⟩ := Items.exists_mem_trace_iff.mpr hvisit
      apply h depth a
      rw [hlog]
      exact List.mem_flatMap.mpr ⟨e, hmem, ha⟩
    · intro h depth a ha
      rw [hlog] at ha
      obtain ⟨e, hmem, ha'⟩ := List.mem_flatMap.mp ha
      exact h e (Items.visits_of_mem_trace hmem) a ha'
  rw [hvisits]
  constructor
  · intro h n hreach
    refine ⟨dirAccesses_inside_iff.mp (h (.enter n) hreach), fun i hi hclear ↦ ?_⟩
    exact entryAccesses_inside_iff.mp (h (.item n i) ⟨hreach, hi, hclear⟩)
  · intro h e hvisit
    cases e with
    | enter n => exact dirAccesses_inside_iff.mpr (h n hvisit).1
    | item n i =>
      obtain ⟨hreach, hi, hclear⟩ := hvisit
      exact entryAccesses_inside_iff.mpr ((h n hreach).2 i hi hclear)

end Whole

/-- All accesses of the parser are inside exactly if the block has the header it looks at and every
directory and entry it gets to fits. -/
theorem parse_accesses_inside_iff (m : Block) :
    (∀ depth, ∀ a ∈ (m.parseDir depth).log, a.Inside m.len) ↔
      0 < m.len ∧ (m.dwords 0 = 0x55584401 → 1 < m.len) ∧ (m.HeaderOk → m.Fits) := by
  by_cases hheader : m.HeaderOk
  · rw [← parseDirAt_inside_iff]
    simp only [Block.parseDir_of_header hheader, List.forall_mem_cons, inside_read_succ,
      forall_and, forall_const, hheader, hheader.1, Nat.add_zero]
  · by_cases hmagic : m.dwords 0 = 0x55584401
    · simp [Block.parseDir_of_not_header hheader, hheader, hmagic]
    · simp [Block.parseDir_of_not_header hheader, hheader, hmagic]

/-- A root directory with data whose end is past `2 ^ 32` and with a text of no length. -/
def wrapBlock : Block where
  dwords i := [0x55584401, 8, 0x64617461, 0, 0x64000008, 0xfffffff8,
    0x74657874, 0, 0x74000000, 0].getD i 0
  len := 10

/-- The parser reads the data 2^32 dwords away, and ends the text before the memory it has for it.
-/
theorem parse_accesses_outside :
    Access.read 0xfffffff8 8 ∈ (wrapBlock.parseDir 1).log ∧
      ¬ (Access.read 0xfffffff8 8).Inside wrapBlock.len ∧
      Access.write 0 (-1) 1 ∈ (wrapBlock.parseDir 1).log ∧
      ¬ (Access.write 0 (-1) 1).Inside wrapBlock.len := by
  have hlog : (wrapBlock.parseDir 1).log = [.read 0 1, .read 1 1, .count 8, .read 4 1, .read 5 1,
      .read 2 2, .read 0xfffffff8 8, .write 32 0 32, .read 8 1, .read 9 1, .read 6 2, .read 0 0,
      .write 0 0 0, .write 0 (-1) 1] := rfl
  rw [hlog]
  refine ⟨by simp, ?_, by simp, ?_⟩
  · rw [inside_read_iff]
    decide
  · intro h
    exact absurd (h 0 Nat.one_pos).1 (by decide)

end ThunderboltStack.PropertyBlock
