import Mathlib.Data.Finset.Prod
import ThunderboltStack.PropertyBlock.Reach

/-!
# The depth of the parser

An entry may lead to any directory that passes the range check, also to one the parser is in.  The
range check leaves at most `(len + 1) ^ 2` nested directories of a block of `len` dwords, so the
depth of a parse that gets to no cycle is bounded by the length of the block.
-/

namespace ThunderboltStack.PropertyBlock

open ThunderboltStack.Lib Relation

/-- A depth that is enough for the directories of a block of `len` dwords. -/
def depthBound (len : ℕ) : ℕ := (len + 1) * (len + 1) + 1

namespace Block

variable {m : Block} {n n' : Node} {b : ℕ}

/-- A directory of `l` dwords whose end is at `s`, as 32 bits have it. -/
def ending (p : ℕ × ℕ) : Node := ⟨(p.1 + (2 ^ 32 - p.2)) % 2 ^ 32, p.2, false⟩

variable (m) in
def nodes : Finset Node :=
  insert m.root ((Finset.range (m.len + 1) ×ˢ Finset.range (m.len + 1)).image ending)

theorem card_nodes_le : m.nodes.card ≤ depthBound m.len := by
  have himage : ((Finset.range (m.len + 1) ×ˢ Finset.range (m.len + 1)).image ending).card ≤ _ :=
    Finset.card_image_le
  rw [Finset.card_product, Finset.card_range] at himage
  exact (Finset.card_insert_le _ _).trans (Nat.succ_le_succ himage)

theorem itemAt_node (h : m.itemAt b = .node n) :
    m.valid b = true ∧ (m.entry b).type = .directory ∧ n = m.target b := by
  unfold itemAt at h
  split at h
  · rename_i hvalid
    split at h
    · rename_i htype
      exact ⟨hvalid, htype, (Item.node.inj h).symm⟩
    · cases h
  · cases h

theorem target_mem_nodes (hvalid : m.valid b = true) (htype : (m.entry b).type = .directory) :
    m.target b ∈ m.nodes := by
  rw [valid, htype] at hvalid
  have hrange := of_decide_eq_true hvalid
  have hlength : (m.entry b).length < 2 ^ 16 := Nat.mod_lt _ (by decide)
  have hvalue : (m.entry b).value < 2 ^ 32 := (m.dwords (b + 3)).toNat_lt
  apply Finset.mem_insert_of_mem
  refine Finset.mem_image.mpr
    ⟨(((m.entry b).value + (m.entry b).length) % 2 ^ 32, (m.entry b).length), ?_, ?_⟩
  · rw [Finset.mem_product, Finset.mem_range, Finset.mem_range]
    exact ⟨Nat.lt_succ_of_le hrange.2, Nat.lt_succ_of_le hrange.1⟩
  · simp only [ending, target, Node.mk.injEq, and_self, and_true]
    omega

theorem mem_nodes (h : ReflTransGen m.directories.Opens m.root n) : n ∈ m.nodes := by
  cases h with
  | refl => exact Finset.mem_insert_self _ _
  | tail _ hopen =>
    obtain ⟨i, -, hitem, -⟩ := hopen
    obtain ⟨hvalid, htype, rfl⟩ := itemAt_node hitem
    exact target_mem_nodes hvalid htype

theorem parseDirAt_deep_iff {depth : ℕ} :
    (m.parseDirAt depth n).outcome = .deep ↔ (m.directories.descend depth n).verdict = .deep := by
  rw [← (parseDirAt_follows depth n).1]
  cases (m.parseDirAt depth n).outcome <;> simp [Outcome.verdict]

end Block

/-- The parser returns within the depth bound of its block exactly if, where the header is accepted,
no directory it gets to leads back to itself. -/
theorem parse_depth_bounded_iff (m : Block) :
    (m.parseDir (depthBound m.len)).outcome ≠ .deep ↔
      (m.HeaderOk → ∀ n, ReflTransGen m.directories.Opens m.root n →
        ¬ TransGen m.directories.Opens n n) := by
  by_cases hheader : m.HeaderOk
  · have hdescend : (m.directories.descend (depthBound m.len) m.root).verdict ≠ .deep ↔ _ :=
      Items.descend_not_deep_iff m.nodes (fun n hn ↦ Block.mem_nodes hn) Block.card_nodes_le
    rw [Block.parseDir_of_header hheader, ne_eq, Block.parseDirAt_deep_iff]
    exact hdescend.trans ⟨fun h _ ↦ h, fun h ↦ h hheader⟩
  · rw [Block.parseDir_of_not_header hheader]
    simp [hheader]

/-- A root directory with one entry, for a directory whose only entry is for that directory. -/
def loopBlock : Block where
  dwords i := [0x55584401, 4, 0x6c6f6f70, 0, 0x44000008, 6,
    1, 2, 3, 4, 0x6c6f6f70, 0, 0x44000008, 6].getD i 0
  len := 14

def loopNode : Node := ⟨6, 8, false⟩

theorem loopBlock_deep (depth : ℕ) : (loopBlock.parseDir depth).outcome = .deep := by
  have hheader : loopBlock.HeaderOk := by
    constructor <;> decide
  have hroot : loopBlock.directories.item loopBlock.root 0 = .node loopNode := rfl
  have hloop : loopBlock.directories.item loopNode 0 = .node loopNode := rfl
  have hcycle : TransGen loopBlock.directories.Opens loopNode loopNode :=
    .single ⟨0, by decide, hloop, by simp⟩
  have hopen : loopBlock.directories.Opens loopBlock.root loopNode := ⟨0, by decide, hroot, by simp⟩
  rw [Block.parseDir_of_header hheader, Block.parseDirAt_deep_iff]
  by_contra hdeep
  obtain ⟨depth', -, hdeep'⟩ := Items.exists_lt_of_opens hopen hdeep
  exact hdeep' (Items.deep_of_cycle hcycle depth')

/-- No depth is enough for the directory that leads to itself, the bound of the block included. -/
theorem parse_loop_deep :
    (loopBlock.parseDir (depthBound loopBlock.len)).outcome = .deep ∧
      ¬ ∃ depth, (loopBlock.parseDir depth).outcome ≠ .deep :=
  ⟨loopBlock_deep _, fun ⟨depth, h⟩ ↦ h (loopBlock_deep depth)⟩

end ThunderboltStack.PropertyBlock
