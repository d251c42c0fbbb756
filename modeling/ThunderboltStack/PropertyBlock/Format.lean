import Mathlib.Logic.Function.Basic
import ThunderboltStack.PropertyBlock.Parse

/-!
# Building and formatting property directories

The `tb_property_add_*` functions of `property.c`, and the formatter that packs a tree of
directories into a block.  The formatter writes into memory that has what it had before; the model
keeps track of how far up it writes.  Sums of type `size_t` are over properties that are in memory
and do not wrap; offsets are `unsigned int` and the value a nested call returns goes through an
`int`.
-/

namespace ThunderboltStack.PropertyBlock

/-- A string of the caller, without its end. -/
structure CString where
  chars : List UInt8
  terminated : 0 ∉ chars

/-- `tb_property_key_valid`, with the key that is stored. -/
def CString.key? (s : CString) : Option Key :=
  if h : s.chars.length ≤ 8 then some ⟨s.chars, s.terminated, h⟩ else none

def toDwords : List UInt8 → List UInt32
  | b₀ :: b₁ :: b₂ :: b₃ :: rest => dword b₀ b₁ b₂ b₃ :: toDwords rest
  | [b₀, b₁, b₂] => [dword b₀ b₁ b₂ 0]
  | [b₀, b₁] => [dword b₀ b₁ 0 0]
  | [b₀] => [dword b₀ 0 0 0]
  | [] => []

/-- A string and its end take up dwords that end with a zero byte. -/
theorem forceNul_toDwords (chars : List UInt8) :
    forceNul (toDwords (chars ++ [0])) = toDwords (chars ++ [0]) ∧
      toDwords (chars ++ [0]) ≠ [] := by
  fun_induction toDwords chars with
  | case1 b₀ b₁ b₂ b₃ rest ih =>
    obtain ⟨hnul, hne⟩ := ih
    refine ⟨?_, by simp [toDwords]⟩
    simp only [List.cons_append, toDwords]
    rw [forceNul, List.dropLast_cons_of_ne_nil hne, List.getLast?_cons_of_ne_nil hne,
      List.cons_append, ← forceNul, hnul]
  | case2 | case3 | case4 | case5 => simp [toDwords, forceNul]

def CString.text (s : CString) : Text :=
  ⟨toDwords (s.chars ++ [0]), (forceNul_toDwords s.chars).1⟩

def Props.addTail (property : Property) : Props → Props
  | .nil => .cons property .nil
  | .leaf key value rest => .leaf key value (addTail property rest)
  | .dir key uuid properties rest => .dir key uuid properties (addTail property rest)

namespace Dir

/-- `tb_property_create_dir`. -/
def create (uuid : Option Uuid) : Dir := ⟨uuid, .nil⟩

def add (parent : Dir) (key : CString) (property : Key → Property) : Option Dir :=
  key.key?.map fun key ↦ ⟨parent.uuid, parent.properties.addTail (property key)⟩

def addImmediate (parent : Dir) (key : CString) (value : UInt32) : Option Dir :=
  parent.add key (.leaf · (.immediate value))

def addData (parent : Dir) (key : CString) (buf : List UInt8) : Option Dir :=
  parent.add key (.leaf · (.data (toDwords buf)))

def addText (parent : Dir) (key text : CString) : Option Dir :=
  parent.add key (.leaf · (.text text.text))

def addDir (parent : Dir) (key : CString) (dir : Dir) : Option Dir :=
  parent.add key (.dir · dir)

end Dir

/-- The dwords that a property keeps outside its entry. -/
def Leaf.payload : Leaf → List UInt32
  | .data dwords => dwords
  | .text t => t.dwords
  | .immediate _ | .unknown => []

/-- The header of a directory: its UUID, or magic and length of the root directory. -/
def headerLen (uuid : Option Uuid) : ℕ := if uuid.isSome then 4 else 2

/-- The length that `tb_property_dir_length` returns, its header apart. -/
def Props.len (recurse : Bool) : Props → ℕ
  | .nil => 0
  | .leaf _ _ rest => 4 + rest.len recurse
  | .dir _ uuid properties rest =>
    4 + (if recurse then headerLen uuid + properties.len recurse else 0) + rest.len recurse

/-- What `tb_property_dir_length` adds to `data_len`; a directory is padded by a dword. -/
def Props.dataLen (recurse : Bool) : Props → ℕ
  | .nil => 0
  | .leaf _ value rest => value.payload.length + rest.dataLen recurse
  | .dir _ _ properties rest =>
    (if recurse then properties.dataLen recurse else 0) + 1 + rest.dataLen recurse

def dirLength (recurse : Bool) (uuid : Option Uuid) (properties : Props) : ℕ :=
  headerLen uuid + properties.len recurse

/-- `tb_property_format_dir` without a block. -/
def Dir.formatSize (d : Dir) : ℕ :=
  dirLength true d.uuid d.properties + d.properties.dataLen true

structure Memory where
  dwords : ℕ → UInt32
  top : ℕ := 0

namespace Memory

def store (mem : Memory) (i : ℕ) (v : UInt32) : Memory :=
  ⟨Function.update mem.dwords i v, max mem.top (i + 1)⟩

def storeAll (mem : Memory) (i : ℕ) : List UInt32 → Memory
  | [] => mem
  | v :: vs => (mem.store i v).storeAll (i + 1) vs

end Memory

def PropertyType.toByte : PropertyType → UInt8
  | .unknown => 0
  | .directory => 0x44
  | .data => 0x64
  | .text => 0x74
  | .value => 0x76

/-- Character `i` of a key with zeros behind it. -/
def Key.char (key : Key) (i : ℕ) : UInt8 := key.chars.getD i 0

/-- `format_dwdata` of a key. -/
def Key.dwords (key : Key) : List UInt32 :=
  [swab (dword (key.char 0) (key.char 1) (key.char 2) (key.char 3)),
    swab (dword (key.char 4) (key.char 5) (key.char 6) (key.char 7))]

/-- `entry->type` in the third dword of an entry. -/
def setType (d : UInt32) (type : UInt8) : UInt32 := dword (byte d 0) (byte d 1) (byte d 2) type

/-- `entry->length`, a `u16`, in the third dword of an entry. -/
def setLength (d : UInt32) (length : ℕ) : UInt32 :=
  dword (.ofNat length) (.ofNat (length / 2 ^ 8)) (byte d 2) (byte d 3)

namespace Memory

/-- Key and type of the entry at dword `e`. -/
def putKey (mem : Memory) (e : ℕ) (key : Key) (type : PropertyType) : Memory :=
  let mem := mem.storeAll e key.dwords
  mem.store (e + 2) (setType (mem.dwords (e + 2)) type.toByte)

/-- Length and value of the entry at dword `e`. -/
def putFields (mem : Memory) (e length value : ℕ) : Memory :=
  (mem.store (e + 2) (setLength (mem.dwords (e + 2)) length)).store (e + 3) (.ofNat value)

end Memory

/-! ## The formatter -/

/-- Where the formatter is in a directory: `entry`, `data_offset` and `dir_end`. -/
structure Cursor where
  mem : Memory
  entry : ℕ
  dataOffset : ℕ
  dirEnd : ℕ

structure Formatted where
  mem : Memory
  ret : ℤ

namespace Cursor

/-- An entry with its dwords at `data_offset`. -/
def putData (c : Cursor) (key : Key) (type : PropertyType) (dwords : List UInt32) : Cursor where
  mem := ((c.mem.putKey c.entry key type).storeAll c.dataOffset (dwords.map swab)).putFields
    c.entry dwords.length c.dataOffset
  entry := c.entry + 4
  dataOffset := (c.dataOffset + dwords.length % 2 ^ 16) % 2 ^ 32
  dirEnd := c.dirEnd

def putLeaf (c : Cursor) (key : Key) : Leaf → Cursor
  | .data dwords => c.putData key .data dwords
  | .text t => c.putData key .text t.dwords
  | .immediate value =>
    { c with mem := (c.mem.putKey c.entry key .value).putFields c.entry 1 value.toNat,
             entry := c.entry + 4 }
  | .unknown => { c with mem := c.mem.putKey c.entry key .unknown, entry := c.entry + 4 }

end Cursor

/-- The header of a directory of `dirLen` dwords. -/
def headerDwords (dirLen : ℕ) : Option Uuid → List UInt32
  | some uuid => List.ofFn uuid
  | none => [0x55584401, .ofNat (dirLen - 2)]

/-- The start of `__tb_property_format_dir`: the checks and the header of the directory. -/
def formatStart (len : ℕ) (uuid : Option Uuid) (properties : Props) (mem : Memory) (start : ℕ) :
    Option Cursor :=
  let dirLen := dirLength false uuid properties
  let dataOffset := (start + dirLen) % 2 ^ 32
  let dirEnd := (start + properties.dataLen false + dirLen) % 2 ^ 32
  if dirEnd < dataOffset then none
  else if len < dirEnd then none
  else
    some ⟨mem.storeAll start (headerDwords dirLen uuid), start + headerLen uuid, dataOffset, dirEnd⟩

/-- The conversion to `int`. -/
def toInt (z : ℤ) : ℤ := (z + 2 ^ 31) % 2 ^ 32 - 2 ^ 31

/-- The loop over the properties of `__tb_property_format_dir`. A directory is a call of the
function for the directory at `dir_end`, the failure of its checks included. -/
def formatProps (len : ℕ) : Props → Cursor → Formatted
  | .nil, c => ⟨c.mem, c.dirEnd⟩
  | .leaf key value rest, c => formatProps len rest (c.putLeaf key value)
  | .dir key uuid properties rest, c =>
    let mem := c.mem.putKey c.entry key .directory
    match formatStart len uuid properties mem c.dirEnd with
    | none => ⟨mem, -22⟩
    | some child =>
      let sub := formatProps len properties child
      let ret := toInt sub.ret
      if ret < 0 then ⟨sub.mem, ret⟩
      else formatProps len rest
        ⟨sub.mem.putFields c.entry (dirLength false uuid properties) c.dirEnd, c.entry + 4,
          c.dataOffset, ret.toNat⟩

/-- `tb_property_format_dir` into a block of `len` dwords. -/
def Dir.format (d : Dir) (len : ℕ) (mem : Memory) : Formatted :=
  match formatStart len d.uuid d.properties mem 0 with
  | none => ⟨mem, -22⟩
  | some c =>
    let sub := formatProps len d.properties c
    ⟨sub.mem, if sub.ret < 0 then sub.ret else 0⟩

end ThunderboltStack.PropertyBlock
