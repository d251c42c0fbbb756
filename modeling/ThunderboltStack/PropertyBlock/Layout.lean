import Mathlib.Tactic.IntervalCases
import ThunderboltStack.PropertyBlock.Format
import ThunderboltStack.PropertyBlock.Reach

/-!
# The layout of property blocks

A directory is its header and its entries, the dwords of its properties behind them, and then the
directories below it, one behind the other.  `Holds` says that memory has a list of properties in
this layout.  The formatter produces the layout, and the parser reads it back.
-/

namespace ThunderboltStack.PropertyBlock

namespace Props

def count : Props → ℕ
  | .nil => 0
  | .leaf _ _ rest => rest.count + 1
  | .dir _ _ _ rest => rest.count + 1

def nested : Props → ℕ
  | .nil => 0
  | .leaf _ _ rest => rest.nested
  | .dir _ uuid properties rest =>
    dirLength false uuid properties + properties.dataLen false + properties.nested + rest.nested

def height : Props → ℕ
  | .nil => 0
  | .leaf _ _ rest => rest.height
  | .dir _ _ properties rest => max (properties.height + 1) rest.height

/-- Every directory below has a UUID, and every entry and directory a length below `2 ^ 16`. -/
def InRange : Props → Prop
  | .nil => True
  | .leaf _ value rest => value.payload.length < 2 ^ 16 ∧ rest.InRange
  | .dir _ uuid properties rest =>
    uuid.isSome ∧ dirLength false uuid properties < 2 ^ 16 ∧ properties.InRange ∧ rest.InRange

theorem len_false (ps : Props) : ps.len false = 4 * ps.count := by
  induction ps with
  | nil => rfl
  | leaf _ _ rest ih =>
    simp only [len, count, ih]
    omega
  | dir _ _ _ rest _ ih =>
    simp only [len, count, ih, Bool.false_eq_true, if_false]
    omega

/-- The recursive lengths count the directory itself and what is below. -/
theorem len_true (ps : Props) :
    ps.len true + ps.dataLen true = ps.len false + ps.dataLen false + ps.nested := by
  induction ps with
  | nil => rfl
  | leaf _ _ rest ih =>
    simp only [len, dataLen, nested]
    omega
  | dir _ uuid properties rest ihp ih =>
    simp only [len, dataLen, nested, dirLength, Bool.false_eq_true, if_false, if_true]
    omega

theorem dataLen_le (ps : Props) (h : ps.InRange) : ps.dataLen false ≤ ps.count * 65535 := by
  induction ps with
  | nil => simp [dataLen]
  | leaf _ value rest ih =>
    have hrest := ih h.2
    have hvalue := h.1
    simp only [dataLen, count]
    omega
  | dir _ _ _ rest _ ih =>
    have hrest := ih h.2.2.2
    simp only [dataLen, count, Bool.false_eq_true, if_false]
    omega

end Props

namespace Memory

variable {mem : Memory} {i j e len : ℕ} {v : UInt32} {vs : List UInt32}

@[simp] theorem store_dwords_self : (mem.store i v).dwords i = v := by
  simp [store]

@[simp] theorem store_dwords_ne (h : j ≠ i) : (mem.store i v).dwords j = mem.dwords j := by
  simp [store, h]

theorem storeAll_dwords_of_lt (h : j < i) : (mem.storeAll i vs).dwords j = mem.dwords j := by
  induction vs generalizing mem i with
  | nil => rfl
  | cons v vs ih =>
    rw [storeAll, ih (by omega)]
    exact store_dwords_ne (by omega)

theorem storeAll_dwords_of_le (h : i + vs.length ≤ j) :
    (mem.storeAll i vs).dwords j = mem.dwords j := by
  induction vs generalizing mem i with
  | nil => rfl
  | cons v vs ih =>
    rw [List.length_cons] at h
    rw [storeAll, ih (by omega)]
    exact store_dwords_ne (by omega)

theorem storeAll_dwords_of_outside (h : j < i ∨ i + vs.length ≤ j) :
    (mem.storeAll i vs).dwords j = mem.dwords j :=
  h.elim storeAll_dwords_of_lt storeAll_dwords_of_le

theorem storeAll_dwords_get (k : ℕ) (h : k < vs.length) :
    (mem.storeAll i vs).dwords (i + k) = vs.get ⟨k, h⟩ := by
  induction vs generalizing mem i k with
  | nil => cases h
  | cons v vs ih =>
    cases k with
    | zero =>
      rw [storeAll, storeAll_dwords_of_lt (by omega)]
      exact store_dwords_self
    | succ k =>
      rw [storeAll, ← Nat.add_assoc, Nat.add_right_comm]
      exact ih k (Nat.lt_of_succ_lt_succ h)

theorem store_top_le (hmem : mem.top ≤ len) (h : i < len) : (mem.store i v).top ≤ len :=
  Nat.max_le.mpr ⟨hmem, h⟩

theorem storeAll_top_le (hmem : mem.top ≤ len) (h : i + vs.length ≤ len) :
    (mem.storeAll i vs).top ≤ len := by
  induction vs generalizing mem i with
  | nil => exact hmem
  | cons v vs ih =>
    rw [List.length_cons] at h
    exact ih (store_top_le hmem (by omega)) (by omega)

theorem putKey_top_le {key : Key} {type : PropertyType} (hmem : mem.top ≤ len) (h : e + 4 ≤ len) :
    (mem.putKey e key type).top ≤ len := by
  have hlen : key.dwords.length = 2 := rfl
  have hkey : (mem.storeAll e key.dwords).top ≤ len := storeAll_top_le hmem (by omega)
  exact store_top_le hkey (by omega)

theorem putFields_top_le {length value : ℕ} (hmem : mem.top ≤ len) (h : e + 4 ≤ len) :
    (mem.putFields e length value).top ≤ len :=
  store_top_le (store_top_le hmem (by omega)) (by omega)

theorem putKey_dwords_of_outside {key : Key} {type : PropertyType} (h : j < e ∨ e + 3 ≤ j) :
    (mem.putKey e key type).dwords j = mem.dwords j := by
  have hlen : key.dwords.length = 2 := rfl
  rw [putKey, store_dwords_ne (by omega)]
  exact storeAll_dwords_of_outside (by omega)

theorem putFields_dwords_of_outside {length value : ℕ} (h : j < e + 2 ∨ e + 4 ≤ j) :
    (mem.putFields e length value).dwords j = mem.dwords j := by
  rw [putFields, store_dwords_ne (by omega), store_dwords_ne (by omega)]

end Memory

theorem PropertyType.ofByte_toByte (type : PropertyType) : .ofByte type.toByte = type := by
  cases type <;> rfl

theorem setLength_length (d : UInt32) (length : ℕ) :
    (setLength d length).toNat % 2 ^ 16 = length % 2 ^ 16 := by
  rw [setLength, dword_toNat, UInt8.toNat_ofNat', UInt8.toNat_ofNat']
  omega

/-- The eight characters of a key with the zeros behind it. -/
theorem Key.chars_padded (key : Key) :
    [key.char 0, key.char 1, key.char 2, key.char 3, key.char 4, key.char 5, key.char 6,
        key.char 7] = key.chars ++ List.replicate (8 - key.chars.length) 0 := by
  apply List.ext_getElem?
  intro i
  have hshort := key.short
  rcases Nat.lt_or_ge i 8 with hi | hi
  · have hget : [key.char 0, key.char 1, key.char 2, key.char 3, key.char 4, key.char 5, key.char 6,
        key.char 7][i]? = some (key.char i) := by
      interval_cases i <;> rfl
    rw [hget, Key.char, List.getD_eq_getElem?_getD]
    rcases Nat.lt_or_ge i key.chars.length with hlt | hge
    · simp [List.getElem?_append_left hlt, List.getElem?_eq_getElem hlt]
    · have hrest : i - key.chars.length < 8 - key.chars.length := by omega
      simp [List.getElem?_append_right hge, List.getElem?_eq_none hge, hrest]
  · rw [List.getElem?_eq_none (by simpa using hi), List.getElem?_eq_none (by simp; omega)]

/-- The key of an entry is read back. -/
theorem Key.keyChars_dwords (key : Key) (hi lo : UInt32) (h : key.dwords = [hi, lo]) :
    keyChars hi lo = key.chars := by
  obtain ⟨rfl, rfl⟩ : _ = hi ∧ _ = lo := by simpa [Key.dwords] using h
  have hall : ∀ a ∈ key.chars, (a != 0) = true := by
    intro a ha
    simp only [bne_iff_ne, ne_eq]
    rintro rfl
    exact key.terminated ha
  have hbytes := key.chars_padded
  simp only [keyChars, swab_swab, bytes, byte_dword_zero, byte_dword_one, byte_dword_two,
    byte_dword_three, List.cons_append, List.nil_append, hbytes]
  rw [List.takeWhile_append_of_pos hall]
  cases 8 - key.chars.length <;> simp [List.replicate_succ]

/-- The entry at dword `e` has the given fields. -/
structure EntryHolds (m : Block) (e : ℕ) (key : Key) (type : PropertyType) (length value : ℕ) :
    Prop where
  key : (m.entry e).key = key
  type : (m.entry e).type = type
  length : (m.entry e).length = length
  value : (m.entry e).value = value

section Entry

variable {m m' : Block} {mem mem' : Memory} {e n length value : ℕ} {key : Key} {type : PropertyType}

theorem EntryHolds.congr (h : EntryHolds m e key type length value)
    (heq : ∀ i, e ≤ i → i < e + 4 → m'.dwords i = m.dwords i) :
    EntryHolds m' e key type length value := by
  have hentry : m'.entry e = m.entry e := by
    simp only [Block.entry, heq e (by omega) (by omega), heq (e + 1) (by omega) (by omega),
      heq (e + 2) (by omega) (by omega), heq (e + 3) (by omega) (by omega)]
  exact ⟨hentry ▸ h.key, hentry ▸ h.type, hentry ▸ h.length, hentry ▸ h.value⟩

/-- The key of an entry and its type, from what was stored. -/
theorem entry_putKey (mem : Memory) (hkey : ∀ i, e ≤ i → i < e + 2 →
      m.dwords i = (mem.putKey e key type).dwords i)
    (htype : byte (m.dwords (e + 2)) 3 = byte ((mem.putKey e key type).dwords (e + 2)) 3) :
    (m.entry e).key = key ∧ (m.entry e).type = type := by
  have hzero : 0 < key.dwords.length := Nat.zero_lt_two
  have hone : 1 < key.dwords.length := Nat.one_lt_two
  have hhi : m.dwords e = key.dwords.get ⟨0, hzero⟩ := by
    rw [hkey e (by omega) (by omega), Memory.putKey, Memory.store_dwords_ne (by omega)]
    exact Memory.storeAll_dwords_get 0 hzero
  have hlo : m.dwords (e + 1) = key.dwords.get ⟨1, hone⟩ := by
    rw [hkey (e + 1) (by omega) (by omega), Memory.putKey, Memory.store_dwords_ne (by omega)]
    exact Memory.storeAll_dwords_get 1 hone
  constructor
  · have hchars := key.keyChars_dwords (m.dwords e) (m.dwords (e + 1)) (by rw [hhi, hlo]; rfl)
    have hext : ∀ k : Key, k.chars = key.chars → k = key := by
      rintro ⟨_, _, _⟩ rfl
      rfl
    exact hext _ hchars
  · have hbyte : byte (m.dwords (e + 2)) 3 = type.toByte := by
      rw [htype, Memory.putKey, Memory.store_dwords_self]
      exact byte_dword_three ..
    rw [Block.entry, hbyte]
    exact type.ofByte_toByte

/-- An entry whose key and type stay, and whose fields are filled in. -/
theorem entryHolds_putFields (mem : Memory)
    (hkeep : ∀ i, e ≤ i → i < e + 3 → mem'.dwords i = (mem.putKey e key type).dwords i)
    (hlength : length < 2 ^ 16) (hvalue : value < 2 ^ 32) :
    EntryHolds ⟨(mem'.putFields e length value).dwords, n⟩ e key type length value := by
  have hthird : (mem'.putFields e length value).dwords (e + 2) =
      setLength (mem'.dwords (e + 2)) length := by
    rw [Memory.putFields, Memory.store_dwords_ne (by omega), Memory.store_dwords_self]
  have hfourth : (mem'.putFields e length value).dwords (e + 3) = .ofNat value :=
    Memory.store_dwords_self
  have hhead : (Block.entry ⟨(mem'.putFields e length value).dwords, n⟩ e).key = key ∧
      (Block.entry ⟨(mem'.putFields e length value).dwords, n⟩ e).type = type := by
    apply entry_putKey mem
    · intro i hi hi'
      rw [← hkeep i hi (by omega)]
      exact Memory.putFields_dwords_of_outside (by omega)
    · rw [← hkeep (e + 2) (by omega) (by omega)]
      exact (congrArg (byte · 3) hthird).trans (byte_dword_three ..)
  refine ⟨hhead.1, hhead.2, ?_, ?_⟩
  · simp only [Block.entry, hthird, setLength_length]
    exact Nat.mod_eq_of_lt hlength
  · simp only [Block.entry, hfourth, UInt32.toNat_ofNat']
    exact Nat.mod_eq_of_lt hvalue

end Entry

/-! ## Properties in memory -/

/-- A property that is no directory, with its entry at `e` and its dwords at `d`. -/
def Leaf.Holds (m : Block) (e d : ℕ) (key : Key) : Leaf → Prop
  | .data dwords => EntryHolds m e key .data dwords.length d ∧ m.dwdata d dwords.length = dwords
  | .text t => EntryHolds m e key .text t.dwords.length d ∧ m.dwdata d t.dwords.length = t.dwords
  | .immediate value => EntryHolds m e key .value 1 value.toNat
  | .unknown => (m.entry e).key = key ∧ (m.entry e).type = .unknown

namespace Props

/-- Properties with their entries at `e`, their dwords at `d` and the directories below at `x`. -/
def Holds (m : Block) : Props → ℕ → ℕ → ℕ → Prop
  | .nil, _, _, _ => True
  | .leaf key value rest, e, d, x =>
    value.Holds m e d key ∧ rest.Holds m (e + 4) (d + value.payload.length) x
  | .dir key uuid properties rest, e, d, x =>
    let dirLen := dirLength false uuid properties
    EntryHolds m e key .directory dirLen x ∧ uuid = some (m.uuidAt x) ∧
      properties.Holds m (x + 4) (x + dirLen) (x + dirLen + properties.dataLen false) ∧
      rest.Holds m (e + 4) d (x + (dirLen + properties.dataLen false + properties.nested))

/-- A dword of the entries, of the dwords of the properties or of the directories below. -/
def Covers (ps : Props) (e d x i : ℕ) : Prop :=
  e ≤ i ∧ i < e + 4 * ps.count ∨ d ≤ i ∧ i < d + ps.dataLen false ∨ x ≤ i ∧ i < x + ps.nested

end Props

section Congr

variable {m m' : Block} {e d x : ℕ} {key : Key}

theorem Block.dwdata_congr {n : ℕ} (h : ∀ i, d ≤ i → i < d + n → m'.dwords i = m.dwords i) :
    m'.dwdata d n = m.dwdata d n := by
  unfold Block.dwdata
  apply List.map_congr_left
  intro k hk
  rw [h (d + k) (by omega) (by simpa using List.mem_range.mp hk)]

theorem Leaf.Holds.congr {value : Leaf} (h : value.Holds m e d key)
    (hentry : ∀ i, e ≤ i → i < e + 4 → m'.dwords i = m.dwords i)
    (hdata : ∀ i, d ≤ i → i < d + value.payload.length → m'.dwords i = m.dwords i) :
    value.Holds m' e d key := by
  cases value with
  | data dwords | text t => exact ⟨h.1.congr hentry, (Block.dwdata_congr hdata).trans h.2⟩
  | immediate value => exact EntryHolds.congr h hentry
  | unknown =>
    have heq : m'.entry e = m.entry e := by
      simp only [Block.entry, hentry e (by omega) (by omega), hentry (e + 1) (by omega) (by omega),
        hentry (e + 2) (by omega) (by omega), hentry (e + 3) (by omega) (by omega)]
    exact ⟨heq ▸ h.1, heq ▸ h.2⟩

/-- The layout depends on no dword but its own. -/
theorem Props.Holds.congr {ps : Props} (hrange : ps.InRange) (h : ps.Holds m e d x)
    (heq : ∀ i, ps.Covers e d x i → m'.dwords i = m.dwords i) : ps.Holds m' e d x := by
  induction ps generalizing e d x with
  | nil => trivial
  | leaf key value rest ih =>
    simp only [Props.Covers, Props.count, Props.dataLen, Props.nested] at heq
    refine ⟨h.1.congr (fun i _ _ ↦ heq i (by omega)) (fun i _ _ ↦ heq i (by omega)), ?_⟩
    apply ih hrange.2 h.2
    intro i hi
    unfold Props.Covers at hi
    exact heq i (by omega)
  | dir key uuid properties rest ihp ih =>
    obtain ⟨hsome, -, hprange, hrrange⟩ := hrange
    obtain ⟨hentry, huuid, hprops, hrest⟩ := h
    have hheader : headerLen uuid = 4 := if_pos hsome
    simp only [Props.Covers, Props.count, Props.dataLen, Props.nested, dirLength, hheader,
      Props.len_false, Bool.false_eq_true, if_false] at heq
    refine ⟨hentry.congr fun i _ _ ↦ heq i (by omega), ?_, ?_, ?_⟩
    · rw [huuid]
      congr 1
      funext i
      have hi := i.isLt
      exact (heq (x + i) (by omega)).symm
    · apply ihp hprange hprops
      intro i hi
      simp only [Props.Covers, dirLength, hheader, Props.len_false] at hi
      exact heq i (by omega)
    · apply ih hrrange hrest
      intro i hi
      simp only [Props.Covers, dirLength, hheader, Props.len_false] at hi
      exact heq i (by omega)

end Congr

section ReadBack

variable {m : Block} {e d x : ℕ} {key : Key}

/-- A property that memory holds is parsed as it is. -/
theorem Leaf.Holds.item {value : Leaf} (h : value.Holds m e d key)
    (hlen : m.len < 2 ^ 32) (hd : d + value.payload.length ≤ m.len) :
    m.itemAt e = .leaf ∧ (m.entry e).key = key ∧ m.leafAt e = value := by
  cases value with
  | data dwords =>
    obtain ⟨⟨hkey, htype, hlength, hvalue⟩, hdata⟩ := h
    have hd' : d + dwords.length ≤ m.len := hd
    have hsum : (d + dwords.length) % 2 ^ 32 ≤ m.len := by omega
    have hle : dwords.length ≤ m.len := by omega
    refine ⟨?_, hkey, ?_⟩
    · simp only [Block.itemAt, Block.valid, htype, hlength, hvalue, hsum, hle]
      rfl
    · simp only [Block.leafAt, htype, hlength, hvalue, hdata]
  | text t =>
    obtain ⟨⟨hkey, htype, hlength, hvalue⟩, hdata⟩ := h
    have hd' : d + t.dwords.length ≤ m.len := hd
    have hsum : (d + t.dwords.length) % 2 ^ 32 ≤ m.len := by omega
    have hle : t.dwords.length ≤ m.len := by omega
    refine ⟨?_, hkey, ?_⟩
    · simp only [Block.itemAt, Block.valid, htype, hlength, hvalue, hsum, hle]
      rfl
    · simp only [Block.leafAt, htype, hlength, hvalue, Block.textAt, hdata, t.terminated]
  | immediate value =>
    obtain ⟨hkey, htype, hlength, hvalue⟩ := h
    refine ⟨?_, hkey, ?_⟩
    · simp only [Block.itemAt, Block.valid, htype, hlength]
      rfl
    · simp only [Block.leafAt, htype, hvalue, UInt32.ofNat_toNat]
  | unknown =>
    obtain ⟨hkey, htype⟩ := h
    refine ⟨?_, hkey, ?_⟩
    · simp only [Block.itemAt, Block.valid, htype]
      rfl
    · simp only [Block.leafAt, htype]

theorem EntryHolds.item {dirLen : ℕ} (h : EntryHolds m e key .directory dirLen x)
    (hlen : m.len < 2 ^ 32) (hx : x + dirLen ≤ m.len) : m.itemAt e = .node ⟨x, dirLen, false⟩ := by
  obtain ⟨-, htype, hlength, hvalue⟩ := h
  have hsum : (x + dirLen) % 2 ^ 32 ≤ m.len := by omega
  have hle : dirLen ≤ m.len := by omega
  simp only [Block.itemAt, Block.valid, Block.target, htype, hlength, hvalue, hsum, hle]
  rfl

theorem Block.parseEntries_ok {parseDir : Node → Run Dir} {k : ℕ} {property : Property}
    {rest : Props} (hproperty : (m.parse parseDir e).outcome = .ok property)
    (hrest : (m.parseEntries parseDir k (e + 4)).outcome = .ok rest) :
    (m.parseEntries parseDir (k + 1) e).outcome = .ok (.cons property rest) := by
  simp [parseEntries, Bind.bind, Run.bind, hproperty, hrest, pure]

theorem Block.parseDirAt_ok {depth : ℕ} {n : Node} {ps : Props}
    (h : (m.parseEntries (m.parseDirAt depth) n.nentries n.contentOffset).outcome = .ok ps) :
    (m.parseDirAt (depth + 1) n).outcome =
      .ok ⟨if n.isRoot then none else some (m.uuidAt n.offset), ps⟩ := by
  cases hroot : n.isRoot <;>
    simp [parseDirAt, Bind.bind, Run.bind, access, pure, h, hroot]

/-- The parser reads properties back from their layout. -/
theorem Props.Holds.parseEntries {ps : Props} {depth : ℕ} (hrange : ps.InRange)
    (h : ps.Holds m e d x) (hlen : m.len < 2 ^ 32) (hd : d + ps.dataLen false ≤ m.len)
    (hx : x + ps.nested ≤ m.len) (hdepth : ps.height ≤ depth) :
    (m.parseEntries (m.parseDirAt depth) ps.count e).outcome = .ok ps := by
  induction ps generalizing e d x depth with
  | nil => rfl
  | leaf key value rest ih =>
    simp only [Props.dataLen] at hd
    obtain ⟨hitem, hkey, hleaf⟩ := h.1.item hlen (by omega)
    have hfirst : (m.parse (m.parseDirAt depth) e).outcome = .ok (.leaf key value) := by
      simp only [Block.parse_eq, hitem, hkey, hleaf]
    exact Block.parseEntries_ok hfirst (ih hrange.2 h.2 (by omega) hx hdepth)
  | dir key uuid properties rest ihp ih =>
    obtain ⟨hsome, hshort, hprange, hrrange⟩ := hrange
    obtain ⟨hentry, huuid, hprops, hrest⟩ := h
    have hheader : headerLen uuid = 4 := if_pos hsome
    have hlength : dirLength false uuid properties = 4 + 4 * properties.count := by
      rw [dirLength, hheader, Props.len_false]
    simp only [Props.dataLen, Props.nested, Props.height, Bool.false_eq_true, if_false, Nat.max_le]
      at hd hx hdepth
    have hitem := hentry.item hlen (by omega)
    obtain ⟨depth, rfl⟩ : ∃ k, depth = k + 1 := ⟨depth - 1, by omega⟩
    have hsub := ihp hprange hprops (by omega) (by omega) (Nat.le_of_succ_le_succ hdepth.1)
    let n : Node := ⟨x, dirLength false uuid properties, false⟩
    have hentries : n.nentries = properties.count := by
      simp only [n, Node.nentries, Node.contentCount, hlength, Bool.false_eq_true, if_false]
      omega
    have hoffset : n.contentOffset = x + 4 := by
      simp only [n, Node.contentOffset, Bool.false_eq_true, if_false]
      omega
    rw [← hentries, ← hoffset] at hsub
    have hdir := Block.parseDirAt_ok hsub
    have hchild : (m.parseDirAt (depth + 1) n).outcome = .ok ⟨uuid, properties⟩ := by
      rw [hdir, huuid]
      rfl
    have hfirst : (m.parse (m.parseDirAt (depth + 1)) e).outcome =
        .ok (.dir key ⟨uuid, properties⟩) := by
      simp only [Block.parse_eq, hitem, hentry.key]
      exact congrArg (Outcome.map (Property.dir key)) hchild
    exact Block.parseEntries_ok hfirst (ih hrrange hrest (by omega) (by omega) hdepth.2)

end ReadBack

end ThunderboltStack.PropertyBlock
