import Mathlib.Algebra.Order.Ring.Nat

/-!
# Opcodes and headers

The table of `rxe_opcode.c`: for every opcode of the base transport header, what its packet is and
where its headers are.  An opcode is a transport and an operation; the entries of one operation
differ only in the headers that the transport adds.
-/

namespace ThunderboltStack.Rxe

inductive HdrType
  | lrh
  | grh
  | bth
  | reth
  | aeth
  | atmeth
  | atmack
  | ieth
  | rdeth
  | deth
  | immdt
  | feth
  | payload
  deriving DecidableEq

/-- `enum rxe_hdr_length`. -/
def HdrType.bytes : HdrType → ℕ
  | .bth => 12
  | .deth => 8
  | .immdt => 4
  | .reth => 16
  | .aeth => 4
  | .atmack => 8
  | .atmeth => 28
  | .ieth => 4
  | .rdeth => 4
  | .feth => 4
  | .lrh | .grh | .payload => 0

def bthBytes : ℕ := HdrType.bth.bytes

def icrcSize : ℕ := 4

/-- `enum rxe_hdr_mask`, by bits. -/
inductive MaskBit
  | hdr (type : HdrType)
  | req
  | ack
  | send
  | write
  | read
  | atomic
  | flush
  | rwr
  | comp
  | start
  | middle
  | «end»
  | loopback
  | atomicWrite
  deriving DecidableEq

/-- The transports of `ib_pack.h`. -/
inductive Transport
  | rc
  | uc
  | rd
  | ud
  deriving DecidableEq

/-- The operations of `ib_pack.h`. -/
inductive Operation
  | sendFirst
  | sendMiddle
  | sendLast
  | sendLastWithImmediate
  | sendOnly
  | sendOnlyWithImmediate
  | rdmaWriteFirst
  | rdmaWriteMiddle
  | rdmaWriteLast
  | rdmaWriteLastWithImmediate
  | rdmaWriteOnly
  | rdmaWriteOnlyWithImmediate
  | rdmaReadRequest
  | rdmaReadResponseFirst
  | rdmaReadResponseMiddle
  | rdmaReadResponseLast
  | rdmaReadResponseOnly
  | acknowledge
  | atomicAcknowledge
  | compareSwap
  | fetchAdd
  | sendLastWithInvalidate
  | sendOnlyWithInvalidate
  | flush
  | atomicWrite
  deriving DecidableEq

def Operation.ofCode : ℕ → Option Operation
  | 0x00 => some .sendFirst
  | 0x01 => some .sendMiddle
  | 0x02 => some .sendLast
  | 0x03 => some .sendLastWithImmediate
  | 0x04 => some .sendOnly
  | 0x05 => some .sendOnlyWithImmediate
  | 0x06 => some .rdmaWriteFirst
  | 0x07 => some .rdmaWriteMiddle
  | 0x08 => some .rdmaWriteLast
  | 0x09 => some .rdmaWriteLastWithImmediate
  | 0x0a => some .rdmaWriteOnly
  | 0x0b => some .rdmaWriteOnlyWithImmediate
  | 0x0c => some .rdmaReadRequest
  | 0x0d => some .rdmaReadResponseFirst
  | 0x0e => some .rdmaReadResponseMiddle
  | 0x0f => some .rdmaReadResponseLast
  | 0x10 => some .rdmaReadResponseOnly
  | 0x11 => some .acknowledge
  | 0x12 => some .atomicAcknowledge
  | 0x13 => some .compareSwap
  | 0x14 => some .fetchAdd
  | 0x16 => some .sendLastWithInvalidate
  | 0x17 => some .sendOnlyWithInvalidate
  | 0x1c => some .flush
  | 0x1d => some .atomicWrite
  | _ => none

def Transport.ofCode : ℕ → Option Transport
  | 0 => some .rc
  | 1 => some .uc
  | 2 => some .rd
  | 3 => some .ud
  | _ => none

def Operation.headers : Operation → List HdrType
  | .sendFirst | .sendMiddle | .sendLast | .sendOnly => []
  | .sendLastWithImmediate | .sendOnlyWithImmediate => [.immdt]
  | .sendLastWithInvalidate | .sendOnlyWithInvalidate => [.ieth]
  | .rdmaWriteFirst | .rdmaWriteOnly => [.reth]
  | .rdmaWriteMiddle | .rdmaWriteLast => []
  | .rdmaWriteLastWithImmediate => [.immdt]
  | .rdmaWriteOnlyWithImmediate => [.reth, .immdt]
  | .rdmaReadRequest => [.reth]
  | .rdmaReadResponseFirst | .rdmaReadResponseLast | .rdmaReadResponseOnly => [.aeth]
  | .rdmaReadResponseMiddle => []
  | .acknowledge => [.aeth]
  | .atomicAcknowledge => [.aeth, .atmack]
  | .compareSwap | .fetchAdd => [.atmeth]
  | .flush => [.feth, .reth]
  | .atomicWrite => [.reth]

def Operation.bits : Operation → List MaskBit
  | .sendFirst => [.hdr .payload, .req, .rwr, .send, .start]
  | .sendMiddle => [.hdr .payload, .req, .send, .middle]
  | .sendLast | .sendLastWithImmediate | .sendLastWithInvalidate =>
    [.hdr .payload, .req, .comp, .send, .end]
  | .sendOnly | .sendOnlyWithImmediate | .sendOnlyWithInvalidate =>
    [.hdr .payload, .req, .comp, .rwr, .send, .start, .end]
  | .rdmaWriteFirst => [.hdr .payload, .req, .write, .start]
  | .rdmaWriteMiddle => [.hdr .payload, .req, .write, .middle]
  | .rdmaWriteLast => [.hdr .payload, .req, .write, .end]
  | .rdmaWriteLastWithImmediate => [.hdr .payload, .req, .write, .comp, .rwr, .end]
  | .rdmaWriteOnly => [.hdr .payload, .req, .write, .start, .end]
  | .rdmaWriteOnlyWithImmediate => [.hdr .payload, .req, .write, .comp, .rwr, .start, .end]
  | .rdmaReadRequest => [.req, .read, .start, .end]
  | .rdmaReadResponseFirst => [.hdr .payload, .ack, .start]
  | .rdmaReadResponseMiddle => [.hdr .payload, .ack, .middle]
  | .rdmaReadResponseLast => [.hdr .payload, .ack, .end]
  | .rdmaReadResponseOnly => [.hdr .payload, .ack, .start, .end]
  | .acknowledge | .atomicAcknowledge => [.ack, .start, .end]
  | .compareSwap | .fetchAdd => [.req, .atomic, .start, .end]
  | .flush => [.flush, .start, .end, .req]
  | .atomicWrite => [.hdr .payload, .req, .atomicWrite, .start, .end]

def Transport.supports : Transport → Operation → Bool
  | .rc, _ => true
  | .uc, op => op ∈ [.sendFirst, .sendMiddle, .sendLast, .sendLastWithImmediate, .sendOnly,
      .sendOnlyWithImmediate, .rdmaWriteFirst, .rdmaWriteMiddle, .rdmaWriteLast,
      .rdmaWriteLastWithImmediate, .rdmaWriteOnly, .rdmaWriteOnlyWithImmediate]
  | .rd, op => op ∉ [.sendLastWithInvalidate, .sendOnlyWithInvalidate, .flush, .atomicWrite]
  | .ud, op => op ∈ [.sendOnly, .sendOnlyWithImmediate]

/-- The headers that a transport puts before those of the operation: responses of a reliable datagram
have no datagram header. -/
def Transport.headers (t : Transport) (op : Operation) : List HdrType :=
  match t with
  | .rc | .uc => []
  | .rd => if .req ∈ op.bits then [.rdeth, .deth] else [.rdeth]
  | .ud => [.deth]

def omitsPayload : Transport → Operation → Bool
  | _, .flush => true
  | .rd, .acknowledge | .rd, .atomicAcknowledge => true
  | _, _ => false

structure OpcodeInfo where
  mask : List MaskBit
  length : ℕ
  offset : HdrType → ℕ

def headerBytes (headers : List HdrType) : ℕ := (headers.map HdrType.bytes).sum

def Transport.info (t : Transport) (op : Operation) : OpcodeInfo :=
  let headers := .bth :: (t.headers op ++ op.headers)
  { mask := (t.headers op ++ op.headers).map .hdr ++ op.bits
    length := headerBytes headers
    offset := fun type ↦
      if type = .payload then if omitsPayload t op then 0 else headerBytes headers
      else if type ∈ headers then headerBytes (headers.takeWhile (· ≠ type))
      else 0 }

def OpcodeInfo.empty : OpcodeInfo := ⟨[], 0, fun _ ↦ 0⟩

def rxeOpcode (opcode : UInt8) : OpcodeInfo :=
  match Transport.ofCode (opcode.toNat / 32), Operation.ofCode (opcode.toNat % 32) with
  | some t, some op => if t.supports op then t.info op else .empty
  | _, _ => .empty

/-- An opcode has an entry, or its entry is empty. -/
theorem rxeOpcode_cases (opcode : UInt8) :
    (∃ t op, rxeOpcode opcode = Transport.info t op) ∨ rxeOpcode opcode = .empty := by
  unfold rxeOpcode
  split
  · next t op _ _ =>
    split
    · exact .inl ⟨t, op, rfl⟩
    · exact .inr rfl
  · exact .inr rfl

/-- An entry has the base transport header, and its payload is no further than its headers. -/
theorem Transport.info_bounds (t : Transport) (op : Operation) :
    bthBytes ≤ (t.info op).length ∧ (t.info op).offset .payload ≤ (t.info op).length := by
  constructor
  · simp [Transport.info, headerBytes, bthBytes]
  · simp only [Transport.info, if_true]
    split <;> omega

end ThunderboltStack.Rxe
