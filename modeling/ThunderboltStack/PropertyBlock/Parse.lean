import Mathlib.Algebra.Order.Ring.Nat
import Mathlib.Data.Fintype.Pi
import Mathlib.Data.Int.Notation
import Mathlib.Data.List.TakeWhile

/-!
# The parser of property blocks

`property.c` turns the property block of a peer into a tree of directories.  A block is memory of
dwords with the length the caller gives; what lies behind the length is there as well, and the model
records every access, so that an access outside the block can be told.

A parse runs with a bound on its depth, the nesting of `__tb_property_parse_dir`, and is `deep` if
it would have to go further down.  Memory for the result is taken to be available.
-/

namespace ThunderboltStack.PropertyBlock

def dword (b₀ b₁ b₂ b₃ : UInt8) : UInt32 :=
  .ofNat (b₀.toNat + 2 ^ 8 * b₁.toNat + 2 ^ 16 * b₂.toNat + 2 ^ 24 * b₃.toNat)

/-- Byte `i` of a dword in memory. -/
def byte (d : UInt32) (i : ℕ) : UInt8 := .ofNat (d.toNat / 2 ^ (8 * i))

/-- `be32_to_cpu` and `cpu_to_be32`. -/
def swab (d : UInt32) : UInt32 := dword (byte d 3) (byte d 2) (byte d 1) (byte d 0)

def bytes (d : UInt32) : List UInt8 := [byte d 0, byte d 1, byte d 2, byte d 3]

def forceNul (dwords : List UInt32) : List UInt32 :=
  dwords.dropLast ++ (dwords.getLast?.map fun d ↦ dword (byte d 0) (byte d 1) (byte d 2) 0).toList

section Bytes

variable (b₀ b₁ b₂ b₃ : UInt8)

theorem dword_toNat : (dword b₀ b₁ b₂ b₃).toNat =
    b₀.toNat + 2 ^ 8 * b₁.toNat + 2 ^ 16 * b₂.toNat + 2 ^ 24 * b₃.toNat := by
  have h₀ := b₀.toNat_lt
  have h₁ := b₁.toNat_lt
  have h₂ := b₂.toNat_lt
  have h₃ := b₃.toNat_lt
  rw [dword, UInt32.toNat_ofNat']
  omega

theorem byte_toNat (d : UInt32) (i : ℕ) : (byte d i).toNat = d.toNat / 2 ^ (8 * i) % 2 ^ 8 :=
  UInt8.toNat_ofNat'

@[simp] theorem byte_dword_zero : byte (dword b₀ b₁ b₂ b₃) 0 = b₀ := by
  have h₀ := b₀.toNat_lt
  rw [← UInt8.toNat_inj, byte_toNat, dword_toNat]
  omega

@[simp] theorem byte_dword_one : byte (dword b₀ b₁ b₂ b₃) 1 = b₁ := by
  have h₀ := b₀.toNat_lt
  have h₁ := b₁.toNat_lt
  rw [← UInt8.toNat_inj, byte_toNat, dword_toNat]
  omega

@[simp] theorem byte_dword_two : byte (dword b₀ b₁ b₂ b₃) 2 = b₂ := by
  have h₀ := b₀.toNat_lt
  have h₁ := b₁.toNat_lt
  have h₂ := b₂.toNat_lt
  rw [← UInt8.toNat_inj, byte_toNat, dword_toNat]
  omega

@[simp] theorem byte_dword_three : byte (dword b₀ b₁ b₂ b₃) 3 = b₃ := by
  have h₀ := b₀.toNat_lt
  have h₁ := b₁.toNat_lt
  have h₂ := b₂.toNat_lt
  have h₃ := b₃.toNat_lt
  rw [← UInt8.toNat_inj, byte_toNat, dword_toNat]
  omega

@[simp] theorem dword_byte (d : UInt32) :
    dword (byte d 0) (byte d 1) (byte d 2) (byte d 3) = d := by
  have h := d.toNat_lt
  rw [← UInt32.toNat_inj, dword_toNat, byte_toNat, byte_toNat, byte_toNat, byte_toNat]
  omega

@[simp] theorem swab_swab (d : UInt32) : swab (swab d) = d := by
  simp [swab]

theorem forceNul_forceNul (dwords : List UInt32) :
    forceNul (forceNul dwords) = forceNul dwords := by
  rcases List.eq_nil_or_concat dwords with rfl | ⟨init, last, rfl⟩
  · rfl
  · simp [forceNul]

end Bytes

inductive PropertyType where
  | unknown
  | directory
  | data
  | text
  | value
  deriving DecidableEq

def PropertyType.ofByte : UInt8 → PropertyType
  | 0x44 => .directory
  | 0x64 => .data
  | 0x74 => .text
  | 0x76 => .value
  | _ => .unknown

/-- The key of a property: a string of at most `TB_PROPERTY_KEY_SIZE` characters. -/
structure Key where
  chars : List UInt8
  terminated : 0 ∉ chars
  short : chars.length ≤ 8
  deriving DecidableEq

abbrev Uuid : Type := Fin 4 → UInt32

structure Text where
  dwords : List UInt32
  terminated : forceNul dwords = dwords
  deriving DecidableEq

inductive Leaf where
  | data (dwords : List UInt32)
  | text (text : Text)
  | immediate (value : UInt32)
  | unknown
  deriving DecidableEq

/-- The list of properties of a directory; the properties below a directory stand in its entry. -/
inductive Props where
  | nil
  | leaf (key : Key) (value : Leaf) (rest : Props)
  | dir (key : Key) (uuid : Option Uuid) (properties : Props) (rest : Props)
  deriving DecidableEq

structure Dir where
  uuid : Option Uuid
  properties : Props
  deriving DecidableEq

inductive Property where
  | leaf (key : Key) (value : Leaf)
  | dir (key : Key) (dir : Dir)

def Props.cons : Property → Props → Props
  | .leaf key value, rest => .leaf key value rest
  | .dir key d, rest => .dir key d.uuid d.properties rest

/-- An access to memory, or a count that is derived.  `read` is `n` dwords of the block, and `write`
is `n` bytes from `i` on in an allocation of `size` bytes. -/
inductive Access where
  | read (i n : ℕ)
  | write (size : ℕ) (i : ℤ) (n : ℕ)
  | count (n : ℤ)

inductive Outcome (α : Type) where
  | ok (a : α)
  | null
  | deep
  deriving DecidableEq

structure Run (α : Type) where
  outcome : Outcome α
  log : List Access

def Run.bind {α β : Type} (r : Run α) (f : α → Run β) : Run β :=
  match r.outcome with
  | .ok a => ⟨(f a).outcome, r.log ++ (f a).log⟩
  | .null => ⟨.null, r.log⟩
  | .deep => ⟨.deep, r.log⟩

instance : Monad Run where
  pure a := ⟨.ok a, []⟩
  bind := Run.bind

def access (a : Access) : Run Unit := ⟨.ok (), [a]⟩

/-- The parser returns `NULL`. -/
def failed {α : Type} : Run α := ⟨.null, []⟩

/-! ## The parser -/

/-- A block of `len` dwords. -/
structure Block where
  dwords : ℕ → UInt32
  len : ℕ

structure Entry where
  keyHi : UInt32
  keyLo : UInt32
  length : ℕ
  type : PropertyType
  value : ℕ

/-- The directory a call of `__tb_property_parse_dir` is for. -/
structure Node where
  offset : ℕ
  len : ℕ
  isRoot : Bool
  deriving DecidableEq

namespace Node

/-- `content_offset`, an `unsigned int`. -/
def contentOffset (n : Node) : ℕ := (n.offset + if n.isRoot then 2 else 4) % 2 ^ 32

/-- `content_len` as it is meant. -/
def contentCount (n : Node) : ℤ := if n.isRoot then n.len else (n.len : ℤ) - 4

/-- `nentries`; `content_len` is a `size_t`. -/
def nentries (n : Node) : ℕ := (n.contentCount % 2 ^ 64).toNat / 4

end Node

def keyChars (hi lo : UInt32) : List UInt8 :=
  (bytes (swab hi) ++ bytes (swab lo)).takeWhile (· != 0)

theorem keyChars_terminated (hi lo : UInt32) : 0 ∉ keyChars hi lo := by
  intro hmem
  have hne := List.mem_takeWhile_imp hmem
  simp at hne

theorem keyChars_short (hi lo : UInt32) : (keyChars hi lo).length ≤ 8 := by
  have hprefix : keyChars hi lo <+: bytes (swab hi) ++ bytes (swab lo) :=
    List.takeWhile_prefix _
  simpa [bytes] using hprefix.length_le

/-- `parse_dwdata` of the key of an entry. -/
def Entry.key (e : Entry) : Key where
  chars := keyChars e.keyHi e.keyLo
  terminated := keyChars_terminated e.keyHi e.keyLo
  short := keyChars_short e.keyHi e.keyLo

namespace Block

variable (m : Block)

/-- The entry at dword `b`. -/
def entry (b : ℕ) : Entry where
  keyHi := m.dwords b
  keyLo := m.dwords (b + 1)
  length := (m.dwords (b + 2)).toNat % 2 ^ 16
  type := .ofByte (byte (m.dwords (b + 2)) 3)
  value := (m.dwords (b + 3)).toNat

/-- `parse_dwdata` of `n` dwords of the block. -/
def dwdata (i n : ℕ) : List UInt32 := (List.range n).map fun k ↦ swab (m.dwords (i + k))

/-- `tb_property_entry_valid`.  The value is read only where the type asks for it, and the sum is
one of 32 bits. -/
def entryValid (b : ℕ) : Run Bool := do
  access (.read (b + 2) 1)
  let e := m.entry b
  match e.type with
  | .directory | .data | .text =>
    if m.len < e.length then return false
    access (.read (b + 3) 1)
    return !decide (m.len < (e.value + e.length) % 2 ^ 32)
  | .value => return e.length == 1
  | .unknown => return true

/-- The text of `n` dwords of the block, ended by force. -/
def textAt (i n : ℕ) : Text := ⟨forceNul (m.dwdata i n), forceNul_forceNul _⟩

/-- `tb_property_parse` of the entry at dword `b`, where `parseDir` parses the directories below. -/
def parse (parseDir : Node → Run Dir) (b : ℕ) : Run Property := do
  if !(← m.entryValid b) then failed
  else
    access (.read b 2)
    let e := m.entry b
    match e.type with
    | .directory =>
      let dir ← parseDir ⟨e.value, e.length, false⟩
      return .dir e.key dir
    | .data =>
      access (.read e.value e.length)
      access (.write (4 * e.length) 0 (4 * e.length))
      return .leaf e.key (.data (m.dwdata e.value e.length))
    | .text =>
      access (.read e.value e.length)
      access (.write (4 * e.length) 0 (4 * e.length))
      access (.write (4 * e.length) ((e.length : ℤ) * 4 - 1) 1)
      return .leaf e.key (.text (m.textAt e.value e.length))
    | .value =>
      access (.read (b + 3) 1)
      return .leaf e.key (.immediate (.ofNat e.value))
    | .unknown => return .leaf e.key .unknown

/-- The loop over the entries of a directory, `k` of them from dword `b` on. -/
def parseEntries (parseDir : Node → Run Dir) : ℕ → ℕ → Run Props
  | 0, _ => return .nil
  | k + 1, b => do
    let property ← m.parse parseDir b
    let rest ← parseEntries parseDir k (b + 4)
    return .cons property rest

/-- The UUID at dword `i`. -/
def uuidAt (i : ℕ) : Uuid := fun k ↦ m.dwords (i + k)

/-- `__tb_property_parse_dir`. -/
def parseDirAt : ℕ → Node → Run Dir
  | 0, _ => ⟨.deep, []⟩
  | depth + 1, n => do
    if !n.isRoot then access (.read n.offset 4)
    access (.count n.contentCount)
    let properties ← m.parseEntries (parseDirAt depth) n.nentries n.contentOffset
    return ⟨if n.isRoot then none else some (m.uuidAt n.offset), properties⟩

/-- The root directory, of `rootdir->length`. -/
def root : Node := ⟨0, (m.dwords 1).toNat, true⟩

def parseDir (depth : ℕ) : Run Dir := do
  access (.read 0 1)
  if m.dwords 0 ≠ 0x55584401 then failed
  else
    access (.read 1 1)
    if m.len < m.root.len then failed
    else m.parseDirAt depth m.root

end Block

end ThunderboltStack.PropertyBlock
