import Mathlib.Data.Fin.VecNotation
import ThunderboltStack.PropertyBlock.Layout

/-!
# Formatting and parsing a tree of directories

The formatter is given a block and fails if the block is too short.  It also fails where the end of
a nested directory does not fit in an `int`.  Where it does not, it leaves the layout in the block,
and the parser returns the tree.
-/

namespace ThunderboltStack.PropertyBlock

/-! ## What the formatter returns -/

/-- The directories below get their place from `x` on in a block of `len` dwords. -/
def Props.Fits (ps : Props) (len x : ℕ) : Prop :=
  ps.nested = 0 ∨ x + ps.nested ≤ len ∧ x + ps.nested < 2 ^ 31

section Start

variable {len start : ℕ} {c : Cursor} {ps : Props} {uuid : Option Uuid} {mem : Memory}

/-- Without a wrap, the checks ask for the end of the directory only. -/
theorem formatStart_eq
    (hwrap : start + dirLength false uuid ps + ps.dataLen false < 2 ^ 32) :
    formatStart len uuid ps mem start =
      if start + dirLength false uuid ps + ps.dataLen false ≤ len then
        some ⟨mem.storeAll start (headerDwords (dirLength false uuid ps) uuid),
          start + headerLen uuid, start + dirLength false uuid ps,
          start + dirLength false uuid ps + ps.dataLen false⟩
      else none := by
  have hdata : (start + dirLength false uuid ps) % 2 ^ 32 = start + dirLength false uuid ps :=
    Nat.mod_eq_of_lt (by omega)
  have hend : (start + ps.dataLen false + dirLength false uuid ps) % 2 ^ 32 =
      start + dirLength false uuid ps + ps.dataLen false := by
    rw [Nat.add_right_comm]
    exact Nat.mod_eq_of_lt hwrap
  simp only [formatStart, hdata, hend]
  rw [if_neg (by omega)]
  split_ifs <;> first | rfl | omega

theorem putLeaf_dirEnd (key : Key) (value : Leaf) : (c.putLeaf key value).dirEnd = c.dirEnd := by
  cases value <;> rfl

end Start

namespace Cursor

/-- In the directory at `dir_end`, with its header written. -/
def enter (c : Cursor) (key : Key) (uuid : Option Uuid) (ps : Props) : Cursor where
  mem := (c.mem.putKey c.entry key .directory).storeAll c.dirEnd
    (headerDwords (dirLength false uuid ps) uuid)
  entry := c.dirEnd + headerLen uuid
  dataOffset := c.dirEnd + dirLength false uuid ps
  dirEnd := c.dirEnd + dirLength false uuid ps + ps.dataLen false

def leave (c : Cursor) (uuid : Option Uuid) (ps : Props) (mem : Memory) (dirEnd : ℕ) : Cursor where
  mem := mem.putFields c.entry (dirLength false uuid ps) c.dirEnd
  entry := c.entry + 4
  dataOffset := c.dataOffset
  dirEnd := dirEnd

end Cursor

section Return

variable {len : ℕ} {c : Cursor} {key : Key} {uuid : Option Uuid} {ps rest : Props}

/-- What the formatter does at a directory. -/
theorem formatProps_dir (hwrap : c.dirEnd + dirLength false uuid ps + ps.dataLen false < 2 ^ 32) :
    formatProps len (.dir key uuid ps rest) c =
      let sub := formatProps len ps (c.enter key uuid ps)
      if (c.enter key uuid ps).dirEnd ≤ len then
        if toInt sub.ret < 0 then ⟨sub.mem, toInt sub.ret⟩
        else formatProps len rest (c.leave uuid ps sub.mem (toInt sub.ret).toNat)
      else ⟨c.mem.putKey c.entry key .directory, -22⟩ := by
  rw [formatProps, formatStart_eq hwrap]
  by_cases hstart : c.dirEnd + dirLength false uuid ps + ps.dataLen false ≤ len
  · have hstart' : (c.enter key uuid ps).dirEnd ≤ len := hstart
    simp only [if_pos hstart, if_pos hstart']
    rfl
  · have hstart' : ¬ (c.enter key uuid ps).dirEnd ≤ len := hstart
    simp only [if_neg hstart, if_neg hstart']

def Props.Returns (ps : Props) (len x : ℕ) (ret : ℤ) : Prop :=
  (ps.Fits len x → ret = (x + ps.nested : ℕ)) ∧ (¬ ps.Fits len x → ret < 0 ∧ -2 ^ 31 ≤ ret)

/-- The value of a nested call as the caller gets it. -/
theorem Props.Returns.toInt {x : ℕ} {ret : ℤ} (h : ps.Returns len x ret) (hx : x ≤ len)
    (hwrap : x + ps.nested < 2 ^ 32) :
    toInt ret = (x + ps.nested : ℕ) ∧ x + ps.nested ≤ len ∧ x + ps.nested < 2 ^ 31 ∨
      toInt ret < 0 ∧ -2 ^ 31 ≤ toInt ret ∧ ¬ (x + ps.nested ≤ len ∧ x + ps.nested < 2 ^ 31) := by
  by_cases hfits : ps.Fits len x
  · have hret := h.1 hfits
    unfold Props.Fits at hfits
    unfold PropertyBlock.toInt
    omega
  · have hret := h.2 hfits
    unfold Props.Fits at hfits
    unfold PropertyBlock.toInt
    omega

/-- The loop returns the end of its data if all fits and an error if not. -/
theorem formatProps_returns (hwrap : c.dirEnd + ps.nested < 2 ^ 32) :
    ps.Returns len c.dirEnd (formatProps len ps c).ret := by
  induction ps generalizing c with
  | nil => simp [formatProps, Props.Returns, Props.Fits, Props.nested]
  | leaf key value rest ih =>
    have hend := putLeaf_dirEnd (c := c) key value
    rw [formatProps, ← hend]
    exact ih (by rw [hend]; exact hwrap)
  | dir key uuid properties rest ihp ih =>
    simp only [Props.nested] at hwrap
    have hheader : 2 ≤ dirLength false uuid properties := by
      unfold dirLength headerLen
      split <;> omega
    have hend : (c.enter key uuid properties).dirEnd =
        c.dirEnd + dirLength false uuid properties + properties.dataLen false := rfl
    have hsub := ihp (c := c.enter key uuid properties) (by omega)
    rw [formatProps_dir (by omega)]
    simp only
    by_cases hstart : (c.enter key uuid properties).dirEnd ≤ len
    · rw [if_pos hstart]
      rcases hsub.toInt hstart (by omega) with ⟨hret, hle, hlt⟩ | ⟨hneg, hlow, hno⟩
      · -- the nested call returns the end of the directory, from which the rest goes on
        rw [hret, if_neg (by omega), Int.toNat_natCast]
        have hrest := ih (c := c.leave uuid properties
          (formatProps len properties (c.enter key uuid properties)).mem
          ((c.enter key uuid properties).dirEnd + properties.nested)) (by
            simp only [Cursor.leave]
            omega)
        simp only [Props.Returns, Props.Fits, Props.nested, Cursor.leave] at hrest ⊢
        constructor
        · intro h
          rw [hrest.1 (by omega)]
          omega
        · intro h
          exact hrest.2 (by omega)
      · rw [if_pos hneg]
        simp only [Props.Returns, Props.Fits, Props.nested]
        exact ⟨fun h ↦ absurd h (by omega), fun _ ↦ ⟨hneg, hlow⟩⟩
    · rw [if_neg hstart]
      simp only [Props.Returns, Props.Fits, Props.nested]
      exact ⟨fun h ↦ absurd h (by omega), fun _ ↦ by omega⟩

end Return

section Writes

variable {len n : ℕ} {c : Cursor} {ps : Props} {key : Key} {value : Leaf} {uuid : Option Uuid}

theorem putLeaf_entry : (c.putLeaf key value).entry = c.entry + 4 := by
  cases value <;> rfl

variable (key) in
theorem putLeaf_dataOffset (hvalue : value.payload.length < 2 ^ 16)
    (hwrap : c.dataOffset + value.payload.length < 2 ^ 32) :
    (c.putLeaf key value).dataOffset = c.dataOffset + value.payload.length := by
  cases value with
  | data dwords | text t =>
    simp only [Leaf.payload] at hvalue hwrap
    simp only [Cursor.putLeaf, Cursor.putData, Leaf.payload]
    omega
  | immediate value | unknown => rfl

theorem putLeaf_top_le (hmem : c.mem.top ≤ len) (he : c.entry + 4 ≤ len)
    (hd : c.dataOffset + value.payload.length ≤ len) : (c.putLeaf key value).mem.top ≤ len := by
  cases value with
  | data dwords | text t =>
    apply Memory.putFields_top_le _ he
    apply Memory.storeAll_top_le (Memory.putKey_top_le hmem he)
    rw [List.length_map]
    exact hd
  | immediate value => exact Memory.putFields_top_le (Memory.putKey_top_le hmem he) he
  | unknown => exact Memory.putKey_top_le hmem he

variable (ps) in
theorem dirLength_of_isSome (h : uuid.isSome) :
    headerLen uuid = 4 ∧ dirLength false uuid ps = 4 + 4 * ps.count ∧
      (headerDwords (dirLength false uuid ps) uuid).length = 4 := by
  obtain ⟨u, rfl⟩ := Option.isSome_iff_exists.mp h
  refine ⟨rfl, ?_, List.length_ofFn⟩
  rw [dirLength, Props.len_false]
  rfl

/-- The formatter does not write past the block. -/
theorem formatProps_top_le (hrange : ps.InRange) (hmem : c.mem.top ≤ len)
    (he : c.entry + 4 * ps.count ≤ c.dataOffset) (hd : c.dataOffset + ps.dataLen false ≤ c.dirEnd)
    (hx : c.dirEnd ≤ len) (hwrap : c.dirEnd + ps.nested < 2 ^ 31) :
    (formatProps len ps c).mem.top ≤ len := by
  induction ps generalizing c with
  | nil => exact hmem
  | leaf key value rest ih =>
    simp only [Props.count, Props.dataLen, Props.nested] at he hd hwrap
    have hoffset : (c.putLeaf key value).dataOffset = c.dataOffset + value.payload.length :=
      putLeaf_dataOffset key hrange.1 (by omega)
    have hentry : (c.putLeaf key value).entry = c.entry + 4 := putLeaf_entry
    have hend := putLeaf_dirEnd (c := c) key value
    have htop : (c.putLeaf key value).mem.top ≤ len := putLeaf_top_le hmem (by omega) (by omega)
    exact ih hrange.2 htop (by omega) (by omega) (by omega) (by omega)
  | dir key uuid properties rest ihp ih =>
    obtain ⟨hsome, -, hprange, hrrange⟩ := hrange
    obtain ⟨hheader, hlength, hdwords⟩ := dirLength_of_isSome properties hsome
    simp only [Props.count, Props.dataLen, Props.nested, Bool.false_eq_true, if_false]
      at he hd hwrap
    have hkey : (c.mem.putKey c.entry key .directory).top ≤ len :=
      Memory.putKey_top_le hmem (by omega)
    have hsub (hstart : (c.enter key uuid properties).dirEnd ≤ len) :
        (formatProps len properties (c.enter key uuid properties)).mem.top ≤ len := by
      simp only [Cursor.enter] at hstart
      have hheaderTop : (c.enter key uuid properties).mem.top ≤ len :=
        Memory.storeAll_top_le hkey (by omega)
      apply ihp hprange hheaderTop <;> simp only [Cursor.enter] <;> omega
    rw [formatProps_dir (by omega)]
    simp only
    by_cases hstart : (c.enter key uuid properties).dirEnd ≤ len
    · have hend : (c.enter key uuid properties).dirEnd =
          c.dirEnd + dirLength false uuid properties + properties.dataLen false := rfl
      have hreturns : properties.Returns len (c.enter key uuid properties).dirEnd
          (formatProps len properties (c.enter key uuid properties)).ret :=
        formatProps_returns (by omega)
      rw [if_pos hstart]
      rcases hreturns.toInt hstart (by omega) with ⟨hret, hle, -⟩ | ⟨hneg, -, -⟩
      · rw [hret, if_neg (by omega), Int.toNat_natCast]
        apply ih hrrange
        · exact Memory.putFields_top_le (hsub hstart) (by omega)
        all_goals
          simp only [Cursor.leave]
          omega
      · rw [if_pos hneg]
        exact hsub hstart
    · rw [if_neg hstart]
      exact hkey

end Writes

/-! ## What the formatter leaves -/

section Leaves

variable {len n : ℕ} {c : Cursor} {ps rest : Props} {key : Key} {value : Leaf} {uuid : Option Uuid}

/-- A directory that fits is formatted, and then the rest of the properties. -/
theorem formatProps_dir_of_fits
    (hwrap : c.dirEnd + (dirLength false uuid ps + ps.dataLen false + ps.nested) < 2 ^ 31)
    (hfits : c.dirEnd + (dirLength false uuid ps + ps.dataLen false + ps.nested) ≤ len) :
    formatProps len (.dir key uuid ps rest) c =
      formatProps len rest (c.leave uuid ps (formatProps len ps (c.enter key uuid ps)).mem
        (c.dirEnd + (dirLength false uuid ps + ps.dataLen false + ps.nested))) := by
  have hend : (c.enter key uuid ps).dirEnd =
      c.dirEnd + dirLength false uuid ps + ps.dataLen false := rfl
  have hreturns : ps.Returns len (c.enter key uuid ps).dirEnd
      (formatProps len ps (c.enter key uuid ps)).ret := formatProps_returns (by omega)
  have hstart : (c.enter key uuid ps).dirEnd ≤ len := by omega
  rw [formatProps_dir (by omega)]
  rcases hreturns.toInt hstart (by omega) with ⟨hret, -, -⟩ | ⟨-, -, hno⟩
  · simp only [if_pos hstart, hret]
    rw [if_neg (by omega), Int.toNat_natCast]
    congr 2
    omega
  · exact absurd ⟨by omega, by omega⟩ hno

theorem putData_holds {type : PropertyType} {dwords : List UInt32}
    (hlength : dwords.length < 2 ^ 16) (he : c.entry + 4 ≤ c.dataOffset) (hd : c.dataOffset < 2 ^ 32) :
    EntryHolds ⟨(c.putData key type dwords).mem.dwords, n⟩ c.entry key type dwords.length
        c.dataOffset ∧
      Block.dwdata ⟨(c.putData key type dwords).mem.dwords, n⟩ c.dataOffset dwords.length =
        dwords := by
  constructor
  · apply entryHolds_putFields c.mem _ hlength hd
    exact fun i _ hi ↦ Memory.storeAll_dwords_of_lt (by omega)
  · apply List.ext_get (by simp [Block.dwdata])
    intro k hk hk'
    have hmap : k < (dwords.map swab).length := by rwa [List.length_map]
    have hstored : (c.putData key type dwords).mem.dwords (c.dataOffset + k) =
        (dwords.map swab).get ⟨k, hmap⟩ := by
      rw [Cursor.putData, Memory.putFields_dwords_of_outside (by omega)]
      exact Memory.storeAll_dwords_get k hmap
    simp only [Block.dwdata, List.get_eq_getElem, List.getElem_map, List.getElem_range] at hstored ⊢
    rw [hstored, swab_swab]

theorem putLeaf_holds (hvalue : value.payload.length < 2 ^ 16) (he : c.entry + 4 ≤ c.dataOffset)
    (hd : c.dataOffset < 2 ^ 32) :
    value.Holds ⟨(c.putLeaf key value).mem.dwords, n⟩ c.entry c.dataOffset key := by
  cases value with
  | data dwords | text t => exact putData_holds hvalue he hd
  | immediate value =>
    exact entryHolds_putFields c.mem (fun i _ _ ↦ rfl) (by decide) value.toNat_lt
  | unknown => exact entry_putKey c.mem (fun i _ _ ↦ rfl) rfl

theorem putLeaf_dwords_of_outside {i : ℕ} (he : i < c.entry ∨ c.entry + 4 ≤ i)
    (hd : i < c.dataOffset ∨ c.dataOffset + value.payload.length ≤ i) :
    (c.putLeaf key value).mem.dwords i = c.mem.dwords i := by
  have hdata (type : PropertyType) (dwords : List UInt32)
      (hd : i < c.dataOffset ∨ c.dataOffset + dwords.length ≤ i) :
      (c.putData key type dwords).mem.dwords i = c.mem.dwords i := by
    rw [Cursor.putData, Memory.putFields_dwords_of_outside (by omega),
      Memory.storeAll_dwords_of_outside (by rwa [List.length_map]),
      Memory.putKey_dwords_of_outside (by omega)]
  cases value with
  | data dwords => exact hdata _ dwords hd
  | text t => exact hdata _ t.dwords hd
  | immediate value =>
    rw [Cursor.putLeaf, Memory.putFields_dwords_of_outside (by omega),
      Memory.putKey_dwords_of_outside (by omega)]
  | unknown => rw [Cursor.putLeaf, Memory.putKey_dwords_of_outside (by omega)]

/-- Where everything fits, the formatter leaves the layout and changes nothing else. -/
theorem formatProps_holds (hrange : ps.InRange) (he : c.entry + 4 * ps.count ≤ c.dataOffset)
    (hd : c.dataOffset + ps.dataLen false ≤ c.dirEnd) (hx : c.dirEnd + ps.nested ≤ len)
    (hwrap : c.dirEnd + ps.nested < 2 ^ 31) :
    ps.Holds ⟨(formatProps len ps c).mem.dwords, n⟩ c.entry c.dataOffset c.dirEnd ∧
      ∀ i, ¬ ps.Covers c.entry c.dataOffset c.dirEnd i →
        (formatProps len ps c).mem.dwords i = c.mem.dwords i := by
  induction ps generalizing c with
  | nil => exact ⟨trivial, fun i _ ↦ rfl⟩
  | leaf key value rest ih =>
    simp only [Props.count, Props.dataLen, Props.nested] at he hd hx hwrap
    have hoffset : (c.putLeaf key value).dataOffset = c.dataOffset + value.payload.length :=
      putLeaf_dataOffset key hrange.1 (by omega)
    have hentry : (c.putLeaf key value).entry = c.entry + 4 := putLeaf_entry
    have hend := putLeaf_dirEnd (c := c) key value
    obtain ⟨hrest, hframe⟩ := ih (c := c.putLeaf key value) hrange.2 (by omega) (by omega)
      (by omega) (by omega)
    rw [hoffset, hentry, hend] at hrest hframe
    rw [formatProps]
    simp only [Props.Covers] at hframe
    refine ⟨⟨?_, hrest⟩, ?_⟩
    · apply (putLeaf_holds (n := n) hrange.1 (by omega) (by omega)).congr
      · exact fun i _ _ ↦ hframe i (by omega)
      · exact fun i _ _ ↦ hframe i (by omega)
    · intro i hi
      simp only [Props.Covers, Props.count, Props.dataLen, Props.nested] at hi
      rw [hframe i (by omega)]
      exact putLeaf_dwords_of_outside (by omega) (by omega)
  | dir key uuid properties rest ihp ih =>
    obtain ⟨hsome, hshort, hprange, hrrange⟩ := hrange
    obtain ⟨hheader, hlength, hdwords⟩ := dirLength_of_isSome properties hsome
    simp only [Props.count, Props.dataLen, Props.nested, Bool.false_eq_true, if_false]
      at he hd hx hwrap
    rw [formatProps_dir_of_fits (by omega) (by omega)]
    obtain ⟨hsub, hsubFrame⟩ := ihp (c := c.enter key uuid properties) hprange
      (by simp only [Cursor.enter]; omega) (by simp only [Cursor.enter]; omega)
      (by simp only [Cursor.enter]; omega) (by simp only [Cursor.enter]; omega)
    generalize formatProps len properties (c.enter key uuid properties) = sub at hsub hsubFrame ⊢
    simp only [Cursor.enter, hheader] at hsub hsubFrame
    obtain ⟨hrest, hrestFrame⟩ := ih (c := c.leave uuid properties sub.mem (c.dirEnd +
        (dirLength false uuid properties + properties.dataLen false + properties.nested))) hrrange
      (by simp only [Cursor.leave]; omega) (by simp only [Cursor.leave]; omega)
      (by simp only [Cursor.leave]; omega) (by simp only [Cursor.leave]; omega)
    generalize formatProps len rest _ = final at hrest hrestFrame ⊢
    simp only [Cursor.leave] at hrest hrestFrame
    simp only [Props.Covers] at hsubFrame hrestFrame
    -- the entry and the header are below what the nested call writes
    have hheaderKeep : ∀ i, i < c.dirEnd + 4 → sub.mem.dwords i =
        ((c.mem.putKey c.entry key .directory).storeAll c.dirEnd
          (headerDwords (dirLength false uuid properties) uuid)).dwords i :=
      fun i hi ↦ hsubFrame i (by omega)
    refine ⟨⟨?_, ?_, ?_, hrest⟩, ?_⟩
    · have hentry : EntryHolds ⟨(sub.mem.putFields c.entry (dirLength false uuid properties)
          c.dirEnd).dwords, n⟩ c.entry key .directory (dirLength false uuid properties)
          c.dirEnd := by
        apply entryHolds_putFields c.mem _ hshort (by omega)
        intro i hi hi'
        rw [hheaderKeep i (by omega)]
        exact Memory.storeAll_dwords_of_lt (by omega)
      exact hentry.congr fun i _ _ ↦ hrestFrame i (by omega)
    · obtain ⟨u, rfl⟩ := Option.isSome_iff_exists.mp hsome
      congr 1
      funext i
      have hget : (i : ℕ) < (List.ofFn u).length := by
        rw [List.length_ofFn]
        exact i.isLt
      have hi := i.isLt
      have hword : u i = (List.ofFn u).get ⟨i, hget⟩ := by
        rw [List.get_ofFn]
        rfl
      calc u i = (List.ofFn u).get ⟨i, hget⟩ := hword
        _ = sub.mem.dwords (c.dirEnd + i) := by
          rw [hheaderKeep (c.dirEnd + i) (by omega)]
          exact (Memory.storeAll_dwords_get (i : ℕ) hget).symm
        _ = (sub.mem.putFields c.entry (dirLength false (some u) properties) c.dirEnd).dwords
            (c.dirEnd + i) := (Memory.putFields_dwords_of_outside (by omega)).symm
        _ = final.mem.dwords (c.dirEnd + i) := (hrestFrame (c.dirEnd + i) (by omega)).symm
    · apply hsub.congr hprange
      intro i hi
      simp only [Props.Covers] at hi
      exact (hrestFrame i (by omega)).trans (Memory.putFields_dwords_of_outside (by omega))
    · intro i hi
      simp only [Props.Covers, Props.count, Props.dataLen, Props.nested, Bool.false_eq_true,
        if_false] at hi
      rw [hrestFrame i (by omega), Memory.putFields_dwords_of_outside (by omega),
        hsubFrame i (by omega), Memory.storeAll_dwords_of_outside (by omega)]
      exact Memory.putKey_dwords_of_outside (by omega)

end Leaves

namespace Dir

/-- A root directory, and lengths that the fields of entries can hold. -/
structure InRange (d : Dir) : Prop where
  root : d.uuid = none
  short : dirLength false d.uuid d.properties < 2 ^ 16
  properties : d.properties.InRange

/-- The tree is formatted into a block of the length that was asked for and not into a shorter one,
nothing is written past the block, and the parser returns the tree. -/
structure RoundTrips (d : Dir) : Prop where
  succeeds : ∀ dwords, (d.format d.formatSize { dwords }).ret = 0 ∧
    (d.format d.formatSize { dwords }).mem.top ≤ d.formatSize
  fails : ∀ len < d.formatSize, ∀ dwords, (d.format len { dwords }).ret < 0 ∧
    (d.format len { dwords }).mem.top ≤ len
  parses : ∀ dwords, ∃ least, ∀ depth ≥ least,
    (Block.parseDir ⟨(d.format d.formatSize { dwords }).mem.dwords, d.formatSize⟩ depth).outcome =
      .ok d

def cursor (d : Dir) (mem : Memory) : Cursor where
  mem := mem.storeAll 0 (headerDwords (dirLength false d.uuid d.properties) d.uuid)
  entry := 2
  dataOffset := dirLength false d.uuid d.properties
  dirEnd := dirLength false d.uuid d.properties + d.properties.dataLen false

end Dir

section Tree

variable {d : Dir} {len depth : ℕ} {mem : Memory}

theorem Dir.formatSize_eq (d : Dir) : d.formatSize =
    dirLength false d.uuid d.properties + d.properties.dataLen false + d.properties.nested := by
  have h := d.properties.len_true
  unfold Dir.formatSize dirLength
  omega

theorem Dir.InRange.lengths (h : d.InRange) :
    dirLength false d.uuid d.properties = 2 + 4 * d.properties.count ∧
      dirLength false d.uuid d.properties + d.properties.dataLen false < 2 ^ 31 := by
  have hlen : dirLength false d.uuid d.properties = 2 + 4 * d.properties.count := by
    rw [dirLength, h.root, Props.len_false]
    rfl
  have hdata := d.properties.dataLen_le h.properties
  have hshort := h.short
  exact ⟨hlen, by omega⟩

/-- A directory in range is refused at once or its properties are formatted. -/
theorem Dir.InRange.format_eq (h : d.InRange) :
    d.format len mem =
      if (d.cursor mem).dirEnd ≤ len then
        ⟨(formatProps len d.properties (d.cursor mem)).mem,
          if (formatProps len d.properties (d.cursor mem)).ret < 0 then
            (formatProps len d.properties (d.cursor mem)).ret else 0⟩
      else ⟨mem, -22⟩ := by
  have hlengths := h.lengths.2
  have hheader : headerLen d.uuid = 2 := by rw [h.root]; rfl
  rw [Dir.format, formatStart_eq (by omega)]
  simp only [Nat.zero_add, hheader]
  by_cases hstart : dirLength false d.uuid d.properties + d.properties.dataLen false ≤ len
  · have hstart' : (d.cursor mem).dirEnd ≤ len := hstart
    rw [if_pos hstart, if_pos hstart']
    rfl
  · have hstart' : ¬ (d.cursor mem).dirEnd ≤ len := hstart
    rw [if_neg hstart, if_neg hstart']

/-- The formatter does not write past the end of the block. -/
theorem Dir.InRange.format_top_le (h : d.InRange) (hsize : d.formatSize < 2 ^ 31)
    (hmem : mem.top = 0) : (d.format len mem).mem.top ≤ len := by
  rw [d.formatSize_eq] at hsize
  have hlengths := h.lengths
  rw [h.format_eq]
  by_cases hstart : (d.cursor mem).dirEnd ≤ len
  · rw [if_pos hstart]
    simp only [Dir.cursor] at hstart
    apply formatProps_top_le h.properties
    · apply Memory.storeAll_top_le (by omega)
      rw [h.root]
      simp only [headerDwords, List.length_cons, List.length_nil]
      omega
    all_goals
      simp only [Dir.cursor]
      omega
  · rw [if_neg hstart]
    exact hmem.le.trans (Nat.zero_le len)

theorem Dir.InRange.format_ok (h : d.InRange) (hsize : d.formatSize < 2 ^ 31)
    (hlen : d.formatSize ≤ len) : (d.format len mem).ret = 0 := by
  rw [d.formatSize_eq] at hsize hlen
  have hreturns : d.properties.Returns len (d.cursor mem).dirEnd
      (formatProps len d.properties (d.cursor mem)).ret :=
    formatProps_returns (by simp only [Dir.cursor]; omega)
  have hfits : d.properties.Fits len (d.cursor mem).dirEnd := .inr ⟨hlen, hsize⟩
  have hstart : (d.cursor mem).dirEnd ≤ len := by
    simp only [Dir.cursor]
    omega
  rw [h.format_eq, if_pos hstart, hreturns.1 hfits]
  simp only
  rw [if_neg (by omega)]

/-- A block that is too short, or a tree whose end is no `int`. -/
theorem Dir.InRange.format_fails (h : d.InRange) (hsize : d.formatSize < 2 ^ 32)
    (hno : ¬ (d.formatSize ≤ len ∧ d.formatSize < 2 ^ 31)) : (d.format len mem).ret < 0 := by
  rw [d.formatSize_eq] at hsize hno
  have hlengths := h.lengths.2
  rw [h.format_eq]
  by_cases hstart : (d.cursor mem).dirEnd ≤ len
  · have hreturns : d.properties.Returns len (d.cursor mem).dirEnd
        (formatProps len d.properties (d.cursor mem)).ret :=
      formatProps_returns (by simp only [Dir.cursor]; omega)
    have hfits : ¬ d.properties.Fits len (d.cursor mem).dirEnd := by
      simp only [Props.Fits, Dir.cursor] at hstart ⊢
      omega
    obtain ⟨hneg, -⟩ := hreturns.2 hfits
    rw [if_pos hstart, if_pos hneg]
    exact hneg
  · rw [if_neg hstart]
    exact Int.negSucc_lt_zero 21

/-- Past 32 bits the length of the block is not looked at. -/
theorem formatProps_len (ps : Props) (c : Cursor) {len' : ℕ} (hlen : 2 ^ 32 ≤ len + 1)
    (hlen' : 2 ^ 32 ≤ len' + 1) : formatProps len ps c = formatProps len' ps c := by
  have hstart (uuid : Option Uuid) (ps : Props) (mem : Memory) (start : ℕ) :
      formatStart len uuid ps mem start = formatStart len' uuid ps mem start := by
    have hend := Nat.mod_lt (start + ps.dataLen false + dirLength false uuid ps)
      (by decide : 0 < 2 ^ 32)
    simp only [formatStart]
    rw [if_neg (by omega : ¬ len < _), if_neg (by omega : ¬ len' < _)]
  induction ps generalizing c with
  | nil => rfl
  | leaf key value rest ih => exact ih _
  | dir key uuid properties rest ihp ih =>
    rw [formatProps, formatProps, hstart]
    split
    · rfl
    · simp only [ihp, ih]

/-- The parser returns the tree from the memory that the formatter leaves. -/
theorem Dir.InRange.parse_format (h : d.InRange) (hsize : d.formatSize < 2 ^ 31)
    (hdepth : d.properties.height < depth) :
    (Block.parseDir ⟨(d.format d.formatSize mem).mem.dwords, d.formatSize⟩ depth).outcome =
      .ok d := by
  have hlengths := h.lengths
  have hshort := h.short
  have heq := d.formatSize_eq
  have hstart : (d.cursor mem).dirEnd ≤ d.formatSize := by
    simp only [Dir.cursor]
    omega
  have hend : (d.cursor mem).dirEnd + d.properties.nested = d.formatSize := heq.symm
  obtain ⟨hholds, hframe⟩ := formatProps_holds (c := d.cursor mem) (n := d.formatSize) h.properties
    (by simp only [Dir.cursor]; omega) le_rfl hend.le (by omega)
  rw [h.format_eq, if_pos hstart]
  simp only
  generalize formatProps d.formatSize d.properties (d.cursor mem) = final at hholds hframe
  have hheader : ∀ i < 2, final.mem.dwords i =
      (mem.storeAll 0 [0x55584401, .ofNat (dirLength false d.uuid d.properties - 2)]).dwords i := by
    intro i hi
    rw [hframe i (by simp only [Props.Covers, Dir.cursor]; omega), Dir.cursor, h.root]
    rfl
  have hmagic : final.mem.dwords 0 = 0x55584401 := hheader 0 (by decide)
  have hlength : final.mem.dwords 1 = .ofNat (dirLength false d.uuid d.properties - 2) :=
    hheader 1 (by decide)
  generalize hblock : (Block.mk final.mem.dwords d.formatSize) = m at hholds ⊢
  have hroot : m.root = ⟨0, 4 * d.properties.count, true⟩ := by
    have hlen : (final.mem.dwords 1).toNat = 4 * d.properties.count := by
      rw [hlength, UInt32.toNat_ofNat']
      omega
    rw [← hblock, ← hlen]
    rfl
  have hmlen : m.len = d.formatSize := by rw [← hblock]
  have hok : m.HeaderOk := by
    refine ⟨by rw [← hblock]; exact hmagic, ?_⟩
    rw [hroot, hmlen]
    simp only
    omega
  obtain ⟨depth, rfl⟩ : ∃ k, depth = k + 1 := ⟨depth - 1, by omega⟩
  simp only [Dir.cursor] at hholds
  have hentries : (m.parseEntries (m.parseDirAt depth) d.properties.count 2).outcome =
      .ok d.properties :=
    hholds.parseEntries h.properties (by omega) (by omega) (by omega) (by omega)
  have hcount : m.root.nentries = d.properties.count := by
    rw [hroot]
    simp only [Node.nentries, Node.contentCount, if_true]
    omega
  have hoffset : m.root.contentOffset = 2 := by
    rw [hroot]
    rfl
  rw [← hcount, ← hoffset] at hentries
  have hdir := Block.parseDirAt_ok hentries
  rw [Block.parseDir_of_header hok, hdir, hroot, if_pos rfl, ← h.root]

end Tree

/-- A tree round-trips exactly if it takes up less than `2 ^ 31` dwords: the end of a nested
directory is kept in an `int` on its way. -/
theorem property_tree_round_trips_iff (d : Dir) (h : d.InRange) :
    d.RoundTrips ↔ d.formatSize < 2 ^ 31 := by
  constructor
  · intro hround
    by_contra hsize
    have hok := (hround.succeeds fun _ ↦ 0).1
    rcases Nat.lt_or_ge d.formatSize (2 ^ 32) with hlt | hge
    · have hneg : (d.format d.formatSize { dwords := fun _ ↦ 0 }).ret < 0 :=
        h.format_fails hlt (by omega)
      omega
    · -- a block that is one dword short is not told from one that is long enough
      have hshort := (hround.fails (d.formatSize - 1) (by omega) fun _ ↦ 0).1
      have hlengths := h.lengths.2
      rw [h.format_eq, if_pos (by simp only [Dir.cursor]; omega)] at hok hshort
      rw [formatProps_len d.properties _ (by omega : 2 ^ 32 ≤ d.formatSize - 1 + 1)
        (by omega : 2 ^ 32 ≤ d.formatSize + 1)] at hshort
      omega
  · intro hsize
    constructor
    · exact fun dwords ↦ ⟨h.format_ok hsize le_rfl, h.format_top_le hsize rfl⟩
    · exact fun len hlen dwords ↦
        ⟨h.format_fails (by omega) (by omega), h.format_top_le hsize rfl⟩
    · exact fun dwords ↦ ⟨d.properties.height + 1, fun depth hdepth ↦ h.parse_format hsize hdepth⟩

def sampleTree : Option Dir := do
  let child ← (Dir.create (some ![1, 2, 3, 4])).addText ⟨[0x6e], by decide⟩
    ⟨[0x61, 0x62], by decide⟩
  let root ← (Dir.create none).addImmediate ⟨[0x76], by decide⟩ 7
  root.addDir ⟨[0x64], by decide⟩ child

theorem property_tree_round_trips_sample :
    ∃ d, sampleTree = some d ∧ d.InRange ∧ d.RoundTrips := by
  have hrange : ∃ d, sampleTree = some d ∧ d.InRange ∧ d.formatSize < 2 ^ 31 :=
    ⟨_, rfl, ⟨rfl, by decide, by simp [Props.addTail, Props.cons, Props.InRange, Leaf.payload,
      Dir.create, CString.text, toDwords, dirLength, headerLen, Props.len]⟩, by decide⟩
  obtain ⟨d, hd, hr, hsize⟩ := hrange
  exact ⟨d, hd, hr, (property_tree_round_trips_iff d hr).mpr hsize⟩

/-! ## A tree that is too long -/

def bulkKey : Key := ⟨[0x78], by decide, by decide⟩

def bulk : ℕ → Props
  | 0 => .nil
  | k + 1 => .leaf bulkKey (.data (List.replicate 65535 0)) (bulk k)

theorem bulk_lengths (k : ℕ) :
    (bulk k).count = k ∧ (bulk k).dataLen false = k * 65535 ∧ (bulk k).nested = 0 ∧
      (bulk k).InRange := by
  induction k with
  | zero => simp [bulk, Props.count, Props.dataLen, Props.nested, Props.InRange]
  | succ k ih =>
    obtain ⟨hcount, hdata, hnested, hrange⟩ := ih
    refine ⟨?_, ?_, hnested, ?_, hrange⟩
    · rw [bulk, Props.count, hcount]
    · rw [bulk, Props.dataLen, hdata, Leaf.payload, List.length_replicate]
      omega
    · rw [Leaf.payload, List.length_replicate]
      decide

def bulkDirs : ℕ → Props
  | 0 => .nil
  | k + 1 => .dir bulkKey (some ![0, 0, 0, 0]) (bulk 16382) (bulkDirs k)

theorem bulkDirs_lengths (k : ℕ) :
    (bulkDirs k).count = k ∧ (bulkDirs k).dataLen false = k ∧
      (bulkDirs k).nested = k * 1073659902 ∧ (bulkDirs k).InRange := by
  induction k with
  | zero => simp [bulkDirs, Props.count, Props.dataLen, Props.nested, Props.InRange]
  | succ k ih =>
    obtain ⟨hcount, hdata, hnested, hrange⟩ := ih
    obtain ⟨hbulkCount, hbulkData, hbulkNested, hbulkRange⟩ := bulk_lengths 16382
    have hlength : dirLength false (some ![0, 0, 0, 0]) (bulk 16382) = 65532 := by
      rw [dirLength, Props.len_false, hbulkCount]
      rfl
    refine ⟨?_, ?_, ?_, rfl, ?_, hbulkRange, hrange⟩
    · rw [bulkDirs, Props.count, hcount]
    · rw [bulkDirs, Props.dataLen, hdata, if_neg (by decide)]
      omega
    · rw [bulkDirs, Props.nested, hnested, hbulkData, hbulkNested, hlength]
      omega
    · rw [hlength]
      decide

/-- Three directories of about `2 ^ 30` dwords: all lengths are in range, and the formatter fails
for a block of the length that it asks for. -/
theorem property_tree_too_long :
    (Dir.mk none (bulkDirs 3)).InRange ∧ (Dir.mk none (bulkDirs 3)).formatSize = 3220979723 ∧
      ((Dir.mk none (bulkDirs 3)).format 3220979723 { dwords := fun _ ↦ 0 }).ret < 0 := by
  obtain ⟨hcount, hdata, hnested, hprops⟩ := bulkDirs_lengths 3
  have hlength : dirLength false none (bulkDirs 3) = 14 := by
    rw [dirLength, Props.len_false, hcount]
    rfl
  have hrange : (Dir.mk none (bulkDirs 3)).InRange := by
    refine ⟨rfl, ?_, hprops⟩
    simp only [hlength]
    decide
  have hsize : (Dir.mk none (bulkDirs 3)).formatSize = 3220979723 := by
    rw [Dir.formatSize_eq]
    simp only [hlength, hdata, hnested]
  exact ⟨hrange, hsize, hrange.format_fails (by omega) (by omega)⟩

end ThunderboltStack.PropertyBlock
