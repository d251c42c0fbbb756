import ThunderboltStack.PropertyBlock.Format
import ThunderboltStack.Xdomain.ReadBack

/-!
# The properties of the local domain

The template of the local properties changes when a service driver registers or unregisters a
directory, each time with a new generation.  `update_property_block` formats the template for one
XDomain when the generation is newer than that of the block it has; it is called for every request
before the request is answered.

A run of the responder is a sequence of such operations, cut where the chunks of one read are
requested.  Memory and the delivery of packets are the surroundings.
-/

namespace ThunderboltStack.Xdomain

open PropertyBlock (CString Dir Props)

/-- Which allocations of `update_property_block` succeed: the copy of the template, the two
properties added to it, and the block. -/
structure UpdateMem where
  copy : Bool := true
  deviceId : Bool := true
  maxHopId : Bool := true
  block : Bool := true

/-- The local properties: `xdomain_property_dir`, `xdomain_property_block_gen`, and
`local_property_block` of one XDomain with its generation. -/
structure Responder where
  dir : Dir
  gen : UInt32
  block : Option (List UInt32)
  blockGen : UInt32

/-- The operations on the local properties.  `same` says that the directory registered under the key
is the one to unregister. -/
inductive ResponderOp where
  | register (key : CString) (dir : Dir) (mem : Bool)
  | unregister (key : CString) (same : Bool)
  | reannounce
  | update (nodename : CString) (mem : UpdateMem)

/-- `tb_property_find` of a directory. -/
def findDir (key : List UInt8) : Props → Bool
  | .nil => false
  | .leaf _ _ rest => findDir key rest
  | .dir k _ _ rest => k.chars == key || findDir key rest

/-- `tb_property_remove` of the directory that `tb_property_find` finds. -/
def removeDir (key : List UInt8) : Props → Props
  | .nil => .nil
  | .leaf k value rest => .leaf k value (removeDir key rest)
  | .dir k uuid properties rest =>
    if k.chars == key then rest else .dir k uuid properties (removeDir key rest)

/-- The key `deviceid`. -/
def deviceIdKey : CString := ⟨[0x64, 0x65, 0x76, 0x69, 0x63, 0x65, 0x69, 0x64], by decide⟩

/-- The key `maxhopid`. -/
def maxHopIdKey : CString := ⟨[0x6d, 0x61, 0x78, 0x68, 0x6f, 0x70, 0x69, 0x64], by decide⟩

/-- The block that `update_property_block` builds from the template, if it can.  A property that
cannot be added is left out. -/
def buildBlock (dir : Dir) (nodename : CString) (maxHopId : UInt32) (mem : UpdateMem) :
    Option (List UInt32) :=
  if !mem.copy then none
  else
    let dir := if mem.deviceId then (dir.addText deviceIdKey nodename).getD dir else dir
    let dir := if mem.maxHopId then (dir.addImmediate maxHopIdKey maxHopId).getD dir else dir
    let len := PropertyBlock.toInt dir.formatSize
    if len < 0 then none
    else if !mem.block then none
    else
      let formatted := dir.format len.toNat { dwords := fun _ ↦ 0 }
      if formatted.ret ≠ 0 then none
      else some ((List.range len.toNat).map formatted.mem.dwords)

namespace Responder

variable (maxHopId : UInt32)

/-- `update_property_block`. -/
def update (r : Responder) (nodename : CString) (mem : UpdateMem) : Responder :=
  if r.block.isNone ∨ r.blockGen < r.gen then
    match buildBlock r.dir nodename maxHopId mem with
    | none => r
    | some block => { r with block := some block, blockGen := r.gen }
  else r

/-- `tb_register_property_dir`, `tb_unregister_property_dir`, `tb_reannounce_property_dirs` and
`update_property_block`. -/
def step (r : Responder) : ResponderOp → Responder
  | .register key dir mem =>
    if findDir key.chars r.dir.properties ∨ !mem then r
    else
      match r.dir.addDir key dir with
      | none => r
      | some dir => { r with dir := dir, gen := r.gen + 1 }
  | .unregister key same =>
    if findDir key.chars r.dir.properties ∧ same then
      { r with dir := ⟨r.dir.uuid, removeDir key.chars r.dir.properties⟩, gen := r.gen + 1 }
    else r
  | .reannounce => { r with gen := r.gen + 1 }
  | .update nodename mem => r.update maxHopId nodename mem

def run (r : Responder) (ops : List ResponderOp) : Responder :=
  ops.foldl (step maxHopId) r

end Responder

section Generation

variable (maxHopId : UInt32) {r : Responder}

/-- An operation leaves the block alone or replaces it by one of a newer generation. -/
theorem Responder.step_block (op : ResponderOp) :
    (r.step maxHopId op).block = r.block ∧ (r.step maxHopId op).blockGen = r.blockGen ∨
      (r.step maxHopId op).block.isSome ∧
        (r.block.isSome → r.blockGen < (r.step maxHopId op).blockGen) := by
  cases op with
  | register key dir mem =>
    left
    simp only [step]
    split
    · exact ⟨rfl, rfl⟩
    · split <;> exact ⟨rfl, rfl⟩
  | unregister key same =>
    left
    simp only [step]
    split <;> exact ⟨rfl, rfl⟩
  | reannounce => exact .inl ⟨rfl, rfl⟩
  | update nodename mem =>
    simp only [step, update]
    split
    · rename_i hstale
      split
      · exact .inl ⟨rfl, rfl⟩
      · right
        refine ⟨rfl, fun hsome ↦ hstale.resolve_left ?_⟩
        rw [Option.isNone_iff_eq_none]
        exact Option.isSome_iff_ne_none.mp hsome
    · exact .inl ⟨rfl, rfl⟩

/-- A block stays until there is one of a newer generation. -/
theorem Responder.run_block (ops : List ResponderOp) (hsome : r.block.isSome) :
    (r.run maxHopId ops).block = r.block ∧ (r.run maxHopId ops).blockGen = r.blockGen ∨
      r.blockGen < (r.run maxHopId ops).blockGen := by
  induction ops generalizing r with
  | nil => exact .inl ⟨rfl, rfl⟩
  | cons op ops ih =>
    have hrun : r.run maxHopId (op :: ops) = (r.step maxHopId op).run maxHopId ops := rfl
    rw [hrun]
    rcases step_block maxHopId op with ⟨hblock, hgen⟩ | ⟨hnew, hlt⟩
    · have hrest := ih (hblock ▸ hsome)
      rw [hblock, hgen] at hrest
      exact hrest
    · rcases ih hnew with ⟨-, hgen⟩ | hlater
      · right
        rw [hgen]
        exact hlt hsome
      · exact .inr (UInt32.lt_trans (hlt hsome) hlater)

/-- Of two moments of a run, with one generation, both have the one block. -/
theorem Responder.block_of_blockGen {ops ops' : List ResponderOp} (hstart : ops <+: ops')
    (hsome : (r.run maxHopId ops).block.isSome)
    (hgen : (r.run maxHopId ops').blockGen = (r.run maxHopId ops).blockGen) :
    (r.run maxHopId ops').block = (r.run maxHopId ops).block := by
  obtain ⟨rest, rfl⟩ := hstart
  have hrun : r.run maxHopId (ops ++ rest) = (r.run maxHopId ops).run maxHopId rest :=
    List.foldl_append
  rw [hrun] at hgen ⊢
  rcases run_block maxHopId rest hsome with ⟨hblock, -⟩ | hlt
  · exact hblock
  · rw [hgen] at hlt
    exact absurd hlt (UInt32.lt_irrefl _)

end Generation

/-! ## A read against a responder that changes -/

/-- The responder while a block is read: what happens to its properties before the request of each
turn, the update in the handler of that request, memory for the response, and whether the response
is delivered. `resAlloc` and `blockAlloc` are memory of the requester. -/
structure Session where
  localUuid : Uuid
  localRoute : UInt64
  maxHopId : UInt32
  initial : Responder
  ops : ℕ → List ResponderOp
  nodename : ℕ → CString
  mem : ℕ → UpdateMem
  alloc : ℕ → Bool
  delivery : ℕ → Except ℤ Bool
  resAlloc : Bool
  blockAlloc : Bool

namespace Session

variable (s : Session)

/-- What is done to the properties before the request of turn `i` is answered. -/
def script (i : ℕ) : List ResponderOp := s.ops i ++ [.update (s.nodename i) (s.mem i)]

def opsUntil : ℕ → List ResponderOp
  | 0 => s.script 0
  | i + 1 => opsUntil i ++ s.script (i + 1)

/-- The responder when it answers the request of turn `i`. -/
def answering (i : ℕ) : Responder := s.initial.run s.maxHopId (s.opsUntil i)

/-- The XDomain the request of turn `i` is answered from. -/
def xdomain (i : ℕ) : LocalDomain :=
  ⟨s.localUuid, s.localRoute, (s.answering i).block.getD [], (s.answering i).blockGen⟩

def channel (route : UInt64) : Channel where
  resAlloc := s.resAlloc
  blockAlloc := s.blockAlloc
  arrivals i req :=
    match s.delivery i with
    | .error e => .error e
    | .ok false => .ok []
    | .ok true =>
      match propertiesResponse (s.alloc i) (s.xdomain i) (sequence req).toUInt8 req with
      | .ok pkg => .ok [pkg.arrives route]
      | .error _ => .ok []

/-- At some moment the responder has the block, with the generation. -/
def Published (p : Properties) : Prop :=
  ∃ i ops, ops <+: s.opsUntil i ∧ (s.initial.run s.maxHopId ops).block = some p.block ∧
    (s.initial.run s.maxHopId ops).blockGen = p.generation

/-- The offset of the chunk of turn `i`, from the chunks before it. -/
def offset : ℕ → ℕ
  | 0 => 0
  | i + 1 => offset i + (responseLen (s.xdomain i) (.ofNat (offset i))).toNat

/-- The block that answers turn `i`. -/
def block (i : ℕ) : List UInt32 := (s.xdomain i).localPropertyBlock

/-- The answers to the requests up to turn `k` are chunks of the block that answers turn `k`, and
the first one announces its length. -/
def Coherent (k : ℕ) : Prop :=
  (UInt16.ofNat (s.block 0).length).toNat = (s.block k).length ∧
    ∀ i ≤ k, ∀ j, s.offset i ≤ j → j < s.offset (i + 1) → j < (s.block k).length →
      (s.block i).getD j 0 = (s.block k).getD j 0

end Session

end ThunderboltStack.Xdomain
