import ThunderboltStack.Rxe.Opcode
import Mathlib.Algebra.Order.Ring.Int

/-!
# The receive ladder

A data frame from the peer on its way to a queue pair: `tbrxe_client_rx`, `rxe_rcv` with the checks
of `rxe_recv.c`, and the invariant CRC of `rxe_icrc.c`.  Sizes are computed as the C code computes
them: differences of `int`, converted to the 64-bit `size_t`.

The bytes of a packet are a function, as the code reads them by address: those below `paylen` are the
received frame, those behind it are whatever follows the buffer in memory.
-/

namespace ThunderboltStack.Rxe

/-- The conversion of an `int` to `size_t`. -/
def toSize (z : ℤ) : ℕ := (z % 2 ^ 64).toNat

/-- `struct rxe_pkt_info` of a received packet. -/
structure Pkt where
  hdr : ℕ → UInt8
  mask : List MaskBit
  psn : ℕ := 0
  paylen : ℕ
  portNum : ℕ
  opcode : UInt8 := 0

namespace Pkt

variable (pkt : Pkt)

def be32 (offset : ℕ) : ℕ :=
  (pkt.hdr offset).toNat * 2 ^ 24 + (pkt.hdr (offset + 1)).toNat * 2 ^ 16 +
    (pkt.hdr (offset + 2)).toNat * 2 ^ 8 + (pkt.hdr (offset + 3)).toNat

def bthOpcode : UInt8 := pkt.hdr 0

def bthPad : ℕ := (pkt.hdr 1).toNat / 16 % 4

def bthTver : ℕ := (pkt.hdr 1).toNat % 16

def bthPkey : ℕ := (pkt.hdr 2).toNat * 2 ^ 8 + (pkt.hdr 3).toNat

def bthQpn : ℕ := pkt.be32 4 % 2 ^ 24

def bthPsn : ℕ := pkt.be32 8 % 2 ^ 24

def dethQkey : ℕ := pkt.be32 ((rxeOpcode pkt.opcode).offset .deth)

def headerSize : ℕ := (rxeOpcode pkt.opcode).length

/-- The offset of `payload_addr`. -/
def payloadOffset : ℕ := (rxeOpcode pkt.opcode).offset .payload

def payloadSize : ℕ := toSize ((pkt.paylen : ℤ) - pkt.payloadOffset - pkt.bthPad - icrcSize)

end Pkt

/-! ## The invariant CRC -/

/-- One byte of `crc32_le`. -/
def crc32Byte (crc : UInt32) (b : UInt8) : UInt32 :=
  (List.range 8).foldl (fun c _ ↦ if c &&& 1 = 1 then (c >>> 1) ^^^ 0xedb88320 else c >>> 1)
    (crc ^^^ b.toUInt32)

/-- `rxe_crc32` of `len` bytes from `offset`. -/
def crc32 (crc : UInt32) (bytes : ℕ → UInt8) (offset : ℕ) : ℕ → UInt32
  | 0 => crc
  | len + 1 => crc32 (crc32Byte crc (bytes offset)) bytes (offset + 1) len

structure Range where
  offset : ℕ
  size : ℕ
  deriving DecidableEq

namespace Pkt

variable (pkt : Pkt)

/-- The headers behind the base transport header, as `rxe_icrc_hdr` sums them. -/
def icrcHeaders : Range :=
  ⟨bthBytes, toSize ((pkt.headerSize : ℤ) - bthBytes)⟩

/-- The payload and its padding, as `rxe_icrc_check` sums them. -/
def icrcPayload : Range :=
  ⟨pkt.payloadOffset, (pkt.payloadSize + pkt.bthPad) % 2 ^ 64⟩

def icrcOffset : ℕ := pkt.paylen - icrcSize

/-- What `rxe_icrc_check` reads. -/
def icrcReads : List Range :=
  [⟨0, bthBytes⟩, pkt.icrcHeaders, pkt.icrcPayload, ⟨pkt.icrcOffset, icrcSize⟩]

/-- `rxe_icrc_hdr`: the reserved byte before the queue pair number is masked. -/
def icrcHdr : UInt32 :=
  let pshdr := fun i ↦ if i = 4 then 0xff else pkt.hdr i
  crc32 (crc32 0xdebb20e3 pshdr 0 bthBytes) pkt.hdr pkt.icrcHeaders.offset pkt.icrcHeaders.size

def icrcField : UInt32 :=
  (pkt.hdr pkt.icrcOffset).toUInt32 ||| (pkt.hdr (pkt.icrcOffset + 1)).toUInt32 <<< 8 |||
    (pkt.hdr (pkt.icrcOffset + 2)).toUInt32 <<< 16 ||| (pkt.hdr (pkt.icrcOffset + 3)).toUInt32 <<< 24

def icrcCheck : Bool :=
  ~~~(crc32 pkt.icrcHdr pkt.hdr pkt.icrcPayload.offset pkt.icrcPayload.size) == pkt.icrcField

end Pkt

/-! ## The checks -/

/-- `enum ib_qp_type`, as far as packets reach it. -/
inductive QpType
  | rc
  | uc
  | ud
  | gsi
  | other
  deriving DecidableEq

/-- `enum ib_qp_state`, in its order. -/
inductive QpState
  | reset
  | init
  | rtr
  | rts
  | sqd
  | sqe
  | err
  deriving DecidableEq

def QpState.receives : QpState → Bool
  | .reset | .init => false
  | _ => true

def QpState.sends : QpState → Bool
  | .reset | .init | .rtr => false
  | _ => true

structure RecvQp where
  valid : Bool := true
  type : QpType
  state : QpState
  portNum : ℕ := 1
  qkey : ℕ := 0

/-- What the ladder reads of the device: its queue pairs, and those attached to the multicast group
of the packet. -/
structure RecvDev where
  gsiIndex : ℕ := 1
  qp : ℕ → Option RecvQp
  mcg : Option (List ℕ) := none
  gsi : ∀ q ∈ qp gsiIndex, q.type = .gsi

def checkTypeState (pkt : Pkt) (qp : RecvQp) : Bool :=
  let type := pkt.opcode.toNat / 32
  qp.valid &&
    (match qp.type with
      | .rc => type == 0
      | .uc => type == 1
      | .ud | .gsi => type == 3
      | .other => false) &&
    if .req ∈ pkt.mask then qp.state.receives else qp.state.sends

/-- `check_addr`, for packets from the wire. -/
def checkAddr (pkt : Pkt) (qp : RecvQp) : Bool :=
  !(qp.type == .rc || qp.type == .uc) || pkt.portNum == qp.portNum

def gsiQkey : ℕ := 0x80010000

/-- `check_keys`, against the full default partition key. -/
def checkKeys (pkt : Pkt) (qpn : ℕ) (qp : RecvQp) : Bool :=
  pkt.bthPkey % 2 ^ 15 == 0x7fff &&
    (!(qp.type == .ud || qp.type == .gsi) ||
      pkt.dethQkey == if qpn = 1 then gsiQkey else qp.qkey)

def multicastQpn : ℕ := 0xffffff

def hdrCheck (dev : RecvDev) (pkt : Pkt) : Bool :=
  let qpn := pkt.bthQpn
  pkt.bthTver == 0 && qpn != 0 &&
    if qpn ≠ multicastQpn then
      match dev.qp (if qpn = 1 then dev.gsiIndex else qpn) with
      | none => false
      | some qp => checkTypeState pkt qp && checkAddr pkt qp && checkKeys pkt qpn qp
    else .hdr .grh ∈ pkt.mask

/-- What `rxe_rcv` takes from the base transport header. -/
def Pkt.parse (pkt : Pkt) : Pkt :=
  { pkt with
    opcode := pkt.bthOpcode
    psn := pkt.bthPsn
    mask := pkt.mask ++ (rxeOpcode pkt.bthOpcode).mask }

/-- `rxe_rcv` up to the CRC: the packet it then checks. -/
def rcvLadder (dev : RecvDev) (pkt : Pkt) : Option Pkt :=
  if pkt.paylen < bthBytes then none
  else
    let pkt := pkt.parse
    if pkt.paylen < pkt.headerSize then none
    else if !hdrCheck dev pkt then none
    else some pkt

inductive Queue
  | resp
  | comp
  deriving DecidableEq

def rcvPkt (pkt : Pkt) : Queue := if .req ∈ pkt.mask then .resp else .comp

/-- `rxe_rcv_mcast_pkt`: the queue pairs of the group that pass the checks; `clone` says for which
there is memory for a copy of the packet. -/
def rcvMcastPkt (dev : RecvDev) (clone : ℕ → Bool) (pkt : Pkt) : List (ℕ × Queue) :=
  let members := dev.mcg.getD []
  (members.filter fun i ↦
    (dev.qp i).any (fun qp ↦ checkTypeState pkt qp && checkKeys pkt pkt.bthQpn qp) &&
      (clone i || members.getLast? == some i)).map (·, rcvPkt pkt)

/-- `rxe_rcv`: the queues that get the packet. -/
def rcv (dev : RecvDev) (clone : ℕ → Bool) (pkt : Pkt) : List (ℕ × Queue) :=
  match rcvLadder dev pkt with
  | none => []
  | some pkt =>
    if !pkt.icrcCheck then []
    else if pkt.bthQpn = multicastQpn then rcvMcastPkt dev clone pkt
    else [(if pkt.bthQpn = 1 then dev.gsiIndex else pkt.bthQpn, rcvPkt pkt)]

def maxFrame : ℕ := 4096

/-- The bytes at `pkt->hdr`: the frame, and what lies behind it. -/
def frameBytes (frame : List UInt8) (behind : ℕ → UInt8) : ℕ → UInt8 :=
  fun i ↦ if i < frame.length then frame.getD i 0 else behind i

/-- The packet of a data frame for `rxe_rcv`. -/
def framePkt (frame : List UInt8) (behind : ℕ → UInt8) : Pkt where
  hdr := frameBytes frame behind
  mask := [.hdr .grh]
  paylen := frame.length
  portNum := 1

/-- `tbrxe_client_rx` of a data frame: the packet for `rxe_rcv`.  `dev` is the device of the link, if
it has one, and `alloc` says whether there is memory. -/
def clientRx (alloc : Bool) (dev : Option RecvDev) (frame : List UInt8) (behind : ℕ → UInt8) :
    Option (RecvDev × Pkt) :=
  if frame.length < bthBytes + icrcSize ∨ maxFrame < frame.length then none
  else if !alloc then none
  else dev.map (·, framePkt frame behind)

/-- The headers, the padding and the CRC are in the packet and apart, and the CRC is computed over
bytes of the packet. -/
structure Pkt.Fits (pkt : Pkt) : Prop where
  fits : pkt.headerSize + pkt.bthPad + icrcSize ≤ pkt.paylen
  noWrap : (pkt.payloadSize : ℤ) = pkt.paylen - pkt.payloadOffset - pkt.bthPad - icrcSize
  within : ∀ r ∈ pkt.icrcReads, r.offset + r.size ≤ pkt.paylen
  apart : pkt.headerSize ≤ pkt.icrcOffset

theorem toSize_of_nonneg {z : ℤ} (h : 0 ≤ z) (hlt : z < 2 ^ 64) : (toSize z : ℤ) = z := by
  rw [toSize, Int.emod_eq_of_lt h hlt, Int.toNat_of_nonneg h]

section Fits

variable {pkt : Pkt}

theorem bthPad_lt (pkt : Pkt) : pkt.bthPad < 4 :=
  Nat.mod_lt _ (by omega)

/-- An opcode without an entry has no headers, not even the base transport header. -/
theorem headerSize_eq_zero_or (pkt : Pkt) : pkt.headerSize = 0 ∨ bthBytes ≤ pkt.headerSize := by
  unfold Pkt.headerSize
  rcases rxeOpcode_cases pkt.opcode with ⟨t, op, hinfo⟩ | hempty
  · rw [hinfo]
    exact .inr (t.info_bounds op).1
  · rw [hempty]
    exact .inl rfl

/-- With an entry for the opcode, the payload starts no later than the headers end. -/
theorem payloadOffset_le (h : bthBytes ≤ pkt.headerSize) : pkt.payloadOffset ≤ pkt.headerSize := by
  rcases rxeOpcode_cases pkt.opcode with ⟨t, op, hinfo⟩ | hempty
  · rw [Pkt.payloadOffset, Pkt.headerSize, hinfo]
    exact (t.info_bounds op).2
  · rw [Pkt.headerSize, hempty] at h
    exact absurd h (by decide)

/-- Without an entry the remaining headers have a negative size, and the CRC runs over the address
space. -/
theorem icrcHeaders_unsupported (h : pkt.headerSize < bthBytes) :
    pkt.icrcHeaders.size = 2 ^ 64 - bthBytes := by
  rcases rxeOpcode_cases pkt.opcode with ⟨t, op, hinfo⟩ | hempty
  · rw [Pkt.headerSize, hinfo] at h
    exact absurd (t.info_bounds op).1 (Nat.not_le.mpr h)
  · rw [Pkt.icrcHeaders, Pkt.headerSize, hempty]
    decide

/-- The packets that fit are those with an entry and with room for the padding and the CRC. -/
theorem fits_iff (hshort : bthBytes + icrcSize ≤ pkt.paylen) (hlong : pkt.paylen ≤ maxFrame) :
    pkt.Fits ↔ bthBytes ≤ pkt.headerSize ∧
      pkt.headerSize + icrcSize + pkt.bthPad ≤ pkt.paylen := by
  have hicrc : icrcSize = 4 := rfl
  have hbth : bthBytes = 12 := rfl
  have hmax : maxFrame = 4096 := rfl
  have hpad := bthPad_lt pkt
  constructor
  · intro h
    refine ⟨?_, ?_⟩
    · apply Nat.not_lt.mp
      intro hunsupported
      have hsize := icrcHeaders_unsupported hunsupported
      have hread := h.within pkt.icrcHeaders (by simp [Pkt.icrcReads])
      have hstart : pkt.icrcHeaders.offset = bthBytes := rfl
      omega
    · have hfits := h.fits
      omega
  · rintro ⟨hsupported, hfits⟩
    have hoffset := payloadOffset_le hsupported
    have hpayload : (pkt.payloadSize : ℤ) =
        pkt.paylen - pkt.payloadOffset - pkt.bthPad - icrcSize :=
      toSize_of_nonneg (by omega) (by omega)
    have hheaders : (pkt.icrcHeaders.size : ℤ) = pkt.headerSize - bthBytes :=
      toSize_of_nonneg (by omega) (by omega)
    have hsummed : pkt.icrcPayload.size = pkt.payloadSize + pkt.bthPad :=
      Nat.mod_eq_of_lt (by omega)
    refine ⟨by omega, hpayload, ?_, ?_⟩
    · have hstart : pkt.icrcHeaders.offset = bthBytes := rfl
      have hstart' : pkt.icrcPayload.offset = pkt.payloadOffset := rfl
      have hfield : pkt.icrcOffset = pkt.paylen - icrcSize := rfl
      simp only [Pkt.icrcReads, List.forall_mem_cons, List.not_mem_nil, false_imp_iff, implies_true,
        and_true]
      omega
    · rw [Pkt.icrcOffset]
      omega

end Fits

/-! ## The frames that get through -/

structure Pkt.Addressed (pkt : Pkt) : Prop where
  tver : pkt.bthTver = 0
  qpn : pkt.bthQpn ≠ 0
  unicast : pkt.bthQpn ≠ multicastQpn →
    pkt.bthPkey % 2 ^ 15 = 0x7fff ∧ pkt.opcode.toNat / 32 ∈ [0, 1, 3]
  gsi : pkt.bthQpn = 1 → pkt.opcode.toNat / 32 = 3 ∧ pkt.dethQkey = gsiQkey

/-- The headers are good, but the opcode has no entry in the table, or behind the headers there is
no room for the padding and the CRC. -/
def Pkt.Slips (pkt : Pkt) : Prop :=
  pkt.Addressed ∧ (pkt.headerSize = 0 ∨
    pkt.headerSize ≤ pkt.paylen ∧ pkt.paylen < pkt.headerSize + pkt.bthPad + icrcSize)

section Receive

variable {alloc : Bool} {dev : Option RecvDev} {frame : List UInt8} {behind : ℕ → UInt8}
variable {d : RecvDev} {pkt checked : Pkt} {clone : ℕ → Bool}

/-- The header checks let only addressed packets through. -/
theorem addressed_of_hdrCheck (h : hdrCheck d pkt = true) : pkt.Addressed := by
  simp only [hdrCheck, Bool.and_eq_true, beq_iff_eq, bne_iff_ne] at h
  obtain ⟨⟨htver, hqpn⟩, hcheck⟩ := h
  have hqp (hunicast : pkt.bthQpn ≠ multicastQpn) :
      ∃ qp ∈ d.qp (if pkt.bthQpn = 1 then d.gsiIndex else pkt.bthQpn),
        checkTypeState pkt qp = true ∧ checkKeys pkt pkt.bthQpn qp = true := by
    rw [if_pos hunicast] at hcheck
    split at hcheck
    · cases hcheck
    · next qp hfound =>
      simp only [Bool.and_eq_true] at hcheck
      exact ⟨qp, hfound, hcheck.1.1, hcheck.2⟩
  refine ⟨htver, hqpn, fun hunicast ↦ ?_, fun hgsi ↦ ?_⟩
  · obtain ⟨qp, -, htype, hkeys⟩ := hqp hunicast
    simp only [checkTypeState, checkKeys, Bool.and_eq_true, beq_iff_eq] at htype hkeys
    refine ⟨hkeys.1, ?_⟩
    cases hkind : qp.type <;> simp_all
  · obtain ⟨qp, hfound, htype, hkeys⟩ := hqp (by rw [hgsi]; decide)
    rw [if_pos hgsi] at hfound
    have hkind := d.gsi qp hfound
    simp only [checkTypeState, checkKeys, hkind, hgsi, Bool.and_eq_true, beq_iff_eq] at htype hkeys
    exact ⟨htype.1.2, by simpa using hkeys.2⟩

def Pkt.receiver (pkt : Pkt) : RecvQp where
  type :=
    if pkt.bthQpn = 1 then .gsi
    else if pkt.opcode.toNat / 32 = 0 then .rc
    else if pkt.opcode.toNat / 32 = 1 then .uc
    else .ud
  state := .rts
  qkey := pkt.dethQkey

def Pkt.receiverDev (pkt : Pkt) : RecvDev where
  gsiIndex := if pkt.bthQpn = 1 then 1 else pkt.bthQpn + 1
  qp i := if i = pkt.bthQpn then some pkt.receiver else none
  gsi := by
    intro q hq
    by_cases hgsi : pkt.bthQpn = 1
    · simp only [hgsi, if_true, Option.mem_def, Option.some.injEq] at hq
      rw [← hq]
      simp [Pkt.receiver, hgsi]
    · simp [hgsi] at hq

/-- An addressed packet passes the checks of a device made for it. -/
theorem hdrCheck_of_addressed (h : pkt.Addressed) (hport : pkt.portNum = 1)
    (hgrh : .hdr .grh ∈ pkt.mask) : hdrCheck pkt.receiverDev pkt = true := by
  simp only [hdrCheck, h.tver, BEq.rfl, Bool.true_and, Bool.and_eq_true, bne_iff_ne]
  refine ⟨h.qpn, ?_⟩
  split
  · next hunicast =>
    obtain ⟨hpkey, hclass⟩ := h.unicast hunicast
    have hpkey : pkt.bthPkey % 32768 = 0x7fff := hpkey
    by_cases hgsi : pkt.bthQpn = 1
    · obtain ⟨htype, hqkey⟩ := h.gsi hgsi
      simp [Pkt.receiverDev, hgsi, checkTypeState, checkAddr, checkKeys, Pkt.receiver, hpkey, htype, hqkey,
        QpState.receives, QpState.sends]
    · simp only [List.mem_cons, List.not_mem_nil, or_false] at hclass
      obtain hclass | hclass | hclass := hclass <;>
        simp [Pkt.receiverDev, hgsi, checkTypeState, checkAddr, checkKeys, Pkt.receiver, hpkey, hclass, hport,
          QpState.receives, QpState.sends]
  · exact decide_eq_true hgrh

theorem clientRx_some (h : clientRx alloc dev frame behind = some (d, pkt)) :
    pkt = framePkt frame behind := by
  unfold clientRx at h
  split at h
  · cases h
  · split at h
    · cases h
    · obtain ⟨d', -, heq⟩ := Option.map_eq_some_iff.mp h
      cases heq
      rfl

/-- The ladder is the parse of the headers, the length check and the header checks. -/
theorem rcvLadder_eq_some_iff (hlen : bthBytes ≤ pkt.paylen) :
    rcvLadder d pkt = some checked ↔
      checked = pkt.parse ∧ pkt.parse.headerSize ≤ pkt.paylen ∧ hdrCheck d pkt.parse = true := by
  rw [rcvLadder, if_neg (Nat.not_lt.mpr hlen)]
  have hpaylen : pkt.parse.paylen = pkt.paylen := rfl
  dsimp only
  rw [hpaylen]
  split
  · next hshort =>
    simp only [reduceCtorEq, false_iff]
    omega
  · next hroom =>
    split
    · next hbad => simp_all
    · next hgood =>
      rw [Option.some.injEq, eq_comm]
      simp_all

/-- What is queued went through the ladder. -/
theorem rcvLadder_of_rcv (h : rcv d clone pkt ≠ []) : (rcvLadder d pkt).isSome := by
  unfold rcv at h
  split at h
  · exact absurd rfl h
  · next hladder =>
    rw [hladder]
    rfl

end Receive

/-- A frame of the peer fits whenever it gets to the check of its CRC or to a queue, on every device
and whatever is in memory behind it, if and only if it is not one that slips through the ladder. -/
theorem received_packet_fits_iff (frame : List UInt8) (behind : ℕ → UInt8)
    (hshort : bthBytes + icrcSize ≤ frame.length) (hlong : frame.length ≤ maxFrame) :
    (∀ alloc dev clone d pkt, clientRx alloc dev frame behind = some (d, pkt) →
      (rcvLadder d pkt).isSome ∨ rcv d clone pkt ≠ [] →
      ∃ checked, rcvLadder d pkt = some checked ∧ checked.Fits) ↔
        ¬ (framePkt frame behind).parse.Slips := by
  have hbth : bthBytes = 12 := rfl
  have hicrc : icrcSize = 4 := rfl
  have hpaylen : (framePkt frame behind).parse.paylen = frame.length := rfl
  have hlen : bthBytes ≤ (framePkt frame behind).paylen := by
    change bthBytes ≤ frame.length
    omega
  have hfits := @fits_iff (framePkt frame behind).parse (by omega) (by omega)
  constructor
  · rintro hall ⟨haddressed, hlost⟩
    have hcheck := hdrCheck_of_addressed haddressed rfl List.mem_cons_self
    obtain ⟨d, hd⟩ : ∃ d, d = (framePkt frame behind).parse.receiverDev := ⟨_, rfl⟩
    rw [← hd] at hcheck
    have hladder : rcvLadder d (framePkt frame behind) = some (framePkt frame behind).parse :=
      (rcvLadder_eq_some_iff hlen).mpr ⟨rfl, by change _ ≤ frame.length; omega, hcheck⟩
    have hrx : clientRx true (some d) frame behind = some (d, framePkt frame behind) := by
      rw [clientRx, if_neg (by omega)]
      rfl
    obtain ⟨checked, hladder', hgood⟩ :=
      hall true (some d) (fun _ ↦ true) d _ hrx (.inl (by rw [hladder]; rfl))
    obtain rfl := Option.some.inj (hladder.symm.trans hladder')
    have hroom := hfits.mp hgood
    omega
  · intro hslips alloc dev clone d pkt hrx hreach
    obtain rfl := clientRx_some hrx
    have hsome : (rcvLadder d (framePkt frame behind)).isSome := hreach.elim id rcvLadder_of_rcv
    obtain ⟨checked, hladder⟩ := Option.isSome_iff_exists.mp hsome
    obtain ⟨rfl, hheaders, hcheck⟩ := (rcvLadder_eq_some_iff hlen).mp hladder
    refine ⟨_, hladder, hfits.mpr ?_⟩
    have hheaders : (framePkt frame behind).parse.headerSize ≤ frame.length := hheaders
    have hentry := headerSize_eq_zero_or (framePkt frame behind).parse
    have hkept : ¬ ((framePkt frame behind).parse.headerSize = 0 ∨ _) :=
      fun hlost ↦ hslips ⟨addressed_of_hdrCheck hcheck, hlost⟩
    omega

def sampleDev : RecvDev where
  qp i := if i = 17 then some { type := .rc, state := .rts } else none
  gsi := by simp

def headersOnly : List UInt8 :=
  [0x0c, 0, 0xff, 0xff, 0, 0, 0, 17, 0, 0, 0, 0] ++ List.replicate 16 0

/-- A read request without a CRC gets to the check of the CRC, which is then in the headers and
computed over bytes behind the frame. -/
theorem headers_only_reaches_icrc :
    ∃ pkt checked, clientRx true (some sampleDev) headersOnly (fun _ ↦ 0) = some (sampleDev, pkt) ∧
      rcvLadder sampleDev pkt = some checked ∧
      checked.paylen < checked.headerSize + checked.bthPad + icrcSize ∧
      checked.icrcOffset < checked.headerSize ∧
      checked.paylen < checked.icrcPayload.offset + checked.icrcPayload.size :=
  ⟨_, _, rfl, rfl, by decide +kernel, by decide +kernel, by decide +kernel⟩

/-- The same request with four bytes for the CRC. -/
theorem received_packet_fits_sample :
    ∃ pkt, clientRx true (some sampleDev) (headersOnly ++ [0, 0, 0, 0]) (fun _ ↦ 0) =
        some (sampleDev, pkt) ∧
      ∃ checked, rcvLadder sampleDev pkt = some checked ∧ checked.Fits := by
  have hslips : ¬ (framePkt (headersOnly ++ [0, 0, 0, 0]) fun _ ↦ 0).parse.Slips := by
    rintro ⟨-, hlost⟩
    revert hlost
    decide +kernel
  exact ⟨_, rfl, (received_packet_fits_iff (headersOnly ++ [0, 0, 0, 0]) (fun _ ↦ 0) (by decide)
    (by decide)).mpr hslips true (some sampleDev) (fun _ ↦ true) sampleDev _ rfl
    (.inl (by decide +kernel))⟩

end ThunderboltStack.Rxe
