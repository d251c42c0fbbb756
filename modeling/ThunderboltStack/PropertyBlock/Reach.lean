import ThunderboltStack.Lib.Descent
import ThunderboltStack.PropertyBlock.Parse

/-!
# What the parser gets to

The parser is a descent over the directories of the block: an entry is refused, is a property of its
own or leads to another directory.  This module says what the parser accesses at each directory and
entry and relates a parse to the descent, so that its depth and its accesses can be told from the
directories and entries it gets to.
-/

namespace ThunderboltStack.PropertyBlock

open ThunderboltStack.Lib

def Outcome.verdict {α : Type} : Outcome α → Verdict
  | .ok _ => .accepted
  | .null => .refused
  | .deep => .deep

def Outcome.map {α β : Type} (f : α → β) : Outcome α → Outcome β
  | .ok a => .ok (f a)
  | .null => .null
  | .deep => .deep

namespace Block

variable (m : Block)

/-- An entry that `tb_property_entry_valid` lets pass. -/
def valid (b : ℕ) : Bool :=
  match (m.entry b).type with
  | .directory | .data | .text =>
    decide ((m.entry b).length ≤ m.len ∧
      ((m.entry b).value + (m.entry b).length) % 2 ^ 32 ≤ m.len)
  | .value => (m.entry b).length == 1
  | .unknown => true

def target (b : ℕ) : Node := ⟨(m.entry b).value, (m.entry b).length, false⟩

/-- What the parser finds at dword `b`. -/
def itemAt (b : ℕ) : Item Node :=
  if m.valid b then
    if (m.entry b).type = .directory then .node (m.target b) else .leaf
  else .refused

/-- The place of entry `i` of a directory. -/
def entryAt (n : Node) (i : ℕ) : ℕ := n.contentOffset + 4 * i

/-- The directories of the block, with what their entries lead to. -/
def directories : Items Node where
  width n := n.nentries
  item n i := m.itemAt (entryAt n i)

/-- The accesses for the entry at dword `b`, those of a directory it leads to apart. -/
def entryAccesses (b : ℕ) : List Access :=
  (m.entryValid b).log ++
    if m.valid b then
      .read b 2 ::
        match (m.entry b).type with
        | .data => [.read (m.entry b).value (m.entry b).length,
            .write (4 * (m.entry b).length) 0 (4 * (m.entry b).length)]
        | .text => [.read (m.entry b).value (m.entry b).length,
            .write (4 * (m.entry b).length) 0 (4 * (m.entry b).length),
            .write (4 * (m.entry b).length) (((m.entry b).length : ℤ) * 4 - 1) 1]
        | .value => [.read (b + 3) 1]
        | .directory | .unknown => []
    else []

def dirAccesses (n : Node) : List Access :=
  (if n.isRoot then [] else [.read n.offset 4]) ++ [.count n.contentCount]

def accesses : Event Node → List Access
  | .enter n => dirAccesses n
  | .item n i => m.entryAccesses (entryAt n i)

def leafAt (b : ℕ) : Leaf :=
  match (m.entry b).type with
  | .data => .data (m.dwdata (m.entry b).value (m.entry b).length)
  | .text => .text (m.textAt (m.entry b).value (m.entry b).length)
  | .value => .immediate (.ofNat (m.entry b).value)
  | .directory | .unknown => .unknown

variable {m}

theorem entryValid_outcome (b : ℕ) : (m.entryValid b).outcome = .ok (m.valid b) := by
  unfold entryValid valid
  cases htype : (m.entry b).type with
  | unknown | value => simp [Bind.bind, Run.bind, access, pure, htype]
  | directory | data | text =>
    by_cases hlen : m.len < (m.entry b).length
    · simp [Bind.bind, Run.bind, access, pure, htype, hlen]
    · have hsum : (!decide (m.len < ((m.entry b).value + (m.entry b).length) % 2 ^ 32)) =
          decide (((m.entry b).value + (m.entry b).length) % 2 ^ 32 ≤ m.len) := by
        rw [← decide_not, decide_eq_decide]
        exact Nat.not_lt
      simp only [Bind.bind, Run.bind, access, pure, htype, hlen, hsum, if_false]
      simp [Nat.not_lt.mp hlen]

/-- The parse of an entry, by what is found there. -/
theorem parse_eq (parseDir : Node → Run Dir) (b : ℕ) :
    m.parse parseDir b =
      match m.itemAt b with
      | .refused => ⟨.null, m.entryAccesses b⟩
      | .leaf => ⟨.ok (.leaf (m.entry b).key (m.leafAt b)), m.entryAccesses b⟩
      | .node n => ⟨(parseDir n).outcome.map (.dir (m.entry b).key),
          m.entryAccesses b ++ (parseDir n).log⟩ := by
  have hvalid := entryValid_outcome (m := m) b
  unfold parse itemAt entryAccesses leafAt
  cases hv : m.valid b with
  | false => simp [Bind.bind, Run.bind, failed, hvalid, hv]
  | true =>
    cases htype : (m.entry b).type with
    | directory =>
      have hchild : ∀ r : Run Dir, r.bind (fun dir ↦ pure (Property.dir (m.entry b).key dir)) =
          ⟨r.outcome.map (.dir (m.entry b).key), r.log⟩ := by
        rintro ⟨outcome, log⟩
        cases outcome <;> simp [Run.bind, Outcome.map, pure]
      simp [Bind.bind, Run.bind, access, hvalid, hv, htype] at hchild ⊢
      simp [hchild, target]
    | data | text | value | unknown =>
      simp [Bind.bind, Run.bind, access, pure, hvalid, hv, htype]

variable (m) in
/-- A parse that ends like a descent, with the accesses of what the descent comes across. -/
def Follows {α : Type} (r : Run α) (d : Descent Node) : Prop :=
  r.outcome.verdict = d.verdict ∧ r.log = d.trace.flatMap m.accesses

/-- The loop over the entries is a scan of the items of its directory. -/
theorem parseEntries_follows {parseDir : Node → Run Dir} {below : Node → Descent Node}
    (hbelow : ∀ n, m.Follows (parseDir n) (below n)) (n : Node) (k i : ℕ) :
    m.Follows (m.parseEntries parseDir k (entryAt n i)) (m.directories.scan below n k i) := by
  induction k generalizing i with
  | zero => exact ⟨rfl, rfl⟩
  | succ k ih =>
    have hrest := ih (i + 1)
    have hnext : entryAt n i + 4 = entryAt n (i + 1) := by
      unfold entryAt
      omega
    rw [parseEntries, parse_eq, Items.scan, hnext]
    have hitem : m.directories.item n i = m.itemAt (entryAt n i) := rfl
    rw [hitem]
    generalize m.parseEntries parseDir k (entryAt n (i + 1)) = rest at hrest
    generalize m.directories.scan below n k (i + 1) = scanned at hrest
    obtain ⟨hverdict, hlog⟩ := hrest
    cases m.itemAt (entryAt n i) with
    | refused => simp [Follows, Bind.bind, Run.bind, Outcome.verdict, accesses]
    | leaf =>
      cases hout : rest.outcome <;>
        simp [Follows, Bind.bind, Run.bind, pure, accesses, hout, ← hverdict, hlog, Outcome.verdict]
    | node n' =>
      obtain ⟨hchild, hchildLog⟩ := hbelow n'
      cases hdir : (parseDir n').outcome with
      | ok dir =>
        cases hout : rest.outcome <;>
          simp [Follows, Bind.bind, Run.bind, pure, accesses, hout, ← hverdict, hlog, hdir,
            ← hchild, hchildLog, Outcome.verdict, Outcome.map]
      | null | deep =>
        simp [Follows, Bind.bind, Run.bind, accesses, hdir, ← hchild, hchildLog, Outcome.verdict,
          Outcome.map]

/-- The parser descends as the directories lead it. -/
theorem parseDirAt_follows (depth : ℕ) (n : Node) :
    m.Follows (m.parseDirAt depth n) (m.directories.descend depth n) := by
  induction depth generalizing n with
  | zero => exact ⟨rfl, rfl⟩
  | succ depth ih =>
    have hentries := parseEntries_follows ih n n.nentries 0
    rw [parseDirAt, Items.descend]
    have hwidth : m.directories.width n = n.nentries := rfl
    have hstart : entryAt n 0 = n.contentOffset := rfl
    rw [hwidth]
    rw [hstart] at hentries
    generalize m.parseEntries (m.parseDirAt depth) n.nentries n.contentOffset = run at hentries
    generalize m.directories.scan (m.directories.descend depth) n n.nentries 0 = scanned at hentries
    obtain ⟨hverdict, hlog⟩ := hentries
    cases hroot : n.isRoot <;> cases hout : run.outcome <;>
      simp [Follows, Bind.bind, Run.bind, pure, access, accesses, dirAccesses, hroot, hout,
        ← hverdict, hlog, Outcome.verdict]

variable (m) in
def HeaderOk : Prop := m.dwords 0 = 0x55584401 ∧ m.root.len ≤ m.len

theorem parseDir_of_header (h : m.HeaderOk) (depth : ℕ) :
    m.parseDir depth = ⟨(m.parseDirAt depth m.root).outcome,
      .read 0 1 :: .read 1 1 :: (m.parseDirAt depth m.root).log⟩ := by
  simp [parseDir, Bind.bind, Run.bind, access, h.1, Nat.not_lt.mpr h.2]

theorem parseDir_of_not_header (h : ¬ m.HeaderOk) (depth : ℕ) :
    m.parseDir depth =
      ⟨.null, .read 0 1 :: if m.dwords 0 = 0x55584401 then [.read 1 1] else []⟩ := by
  by_cases hmagic : m.dwords 0 = 0x55584401
  · have hlen : m.len < m.root.len := Nat.not_le.mp fun hle ↦ h ⟨hmagic, hle⟩
    simp [parseDir, Bind.bind, Run.bind, access, failed, hmagic, hlen]
  · simp [parseDir, Bind.bind, Run.bind, access, failed, hmagic]

end Block

end ThunderboltStack.PropertyBlock
