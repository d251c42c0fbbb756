import Mathlib.Data.Int.Notation
import Mathlib.Data.Nat.Notation

/-!
# XDomain packets

The packets of the XDomain discovery protocol as `tb_msgs.h` lays them out, in dwords, and the
matching of a received packet with an outstanding request in `xdomain.c`.  A packet buffer is a
function from dword indices; how much of it was received is a separate number of bytes.
-/

namespace ThunderboltStack.Xdomain

abbrev Words : Type := ℕ → UInt32

/-- `uuid_t`, in dwords. -/
structure Uuid where
  w0 : UInt32
  w1 : UInt32
  w2 : UInt32
  w3 : UInt32
  deriving DecidableEq

/-- The UUID of the XDomain discovery protocol, b638d70e-42ff-40bb-97c2-90e2c0b2ff07. -/
def tbXdpUuid : Uuid :=
  ⟨0x0ed738b6, 0xbb40ff42, 0xe290c297, 0x07ffb2c0⟩

inductive XdpType
  | uuidRequestOld
  | uuidResponse
  | propertiesRequest
  | propertiesResponse
  | propertiesChangedRequest
  | propertiesChangedResponse
  | errorResponse
  | uuidRequest
  | linkStateStatusRequest
  | linkStateStatusResponse
  | linkStateChangeRequest
  | linkStateChangeResponse
  deriving DecidableEq

def XdpType.code : XdpType → UInt32
  | .uuidRequestOld => 1
  | .uuidResponse => 2
  | .propertiesRequest => 3
  | .propertiesResponse => 4
  | .propertiesChangedRequest => 5
  | .propertiesChangedResponse => 6
  | .errorResponse => 7
  | .uuidRequest => 12
  | .linkStateStatusRequest => 15
  | .linkStateStatusResponse => 16
  | .linkStateChangeRequest => 17
  | .linkStateChangeResponse => 18

/-- `tb_xdomain_response_type`. -/
def XdpType.response : XdpType → Option XdpType
  | .uuidRequestOld | .uuidRequest => some .uuidResponse
  | .propertiesRequest => some .propertiesResponse
  | .propertiesChangedRequest => some .propertiesChangedResponse
  | .linkStateStatusRequest => some .linkStateStatusResponse
  | .linkStateChangeRequest => some .linkStateChangeResponse
  | _ => none

/-! ## Sizes, in bytes -/

/-- `sizeof(struct tb_xdomain_header)`. -/
def xdomainHeaderSize : ℕ := 12

/-- `sizeof(struct tb_xdp_header)`. -/
def xdpHeaderSize : ℕ := 32

/-- `sizeof(struct tb_xdp_properties)`. -/
def propertiesSize : ℕ := 68

/-- `sizeof(struct tb_xdp_properties_response)`. -/
def propertiesResponseSize : ℕ := 72

/-- `sizeof(struct tb_xdp_error_response)`. -/
def errorResponseSize : ℕ := 36

/-- `sizeof(struct tb_cfg_header)`. -/
def cfgHeaderSize : ℕ := 8

/-- `tb_xdomain_response_min_size`, for the types of responses. -/
def XdpType.minSize : XdpType → Option ℕ
  | .uuidResponse => some 56
  | .propertiesResponse => some propertiesResponseSize
  | .propertiesChangedResponse => some xdpHeaderSize
  | .linkStateStatusResponse => some 40
  | .linkStateChangeResponse => some 36
  | .errorResponse => some errorResponseSize
  | _ => none

/-- `TB_XDP_PROPERTIES_MAX_DATA_LENGTH`, in dwords. -/
def propertiesMaxDataLength : ℕ := (256 - 4 - propertiesResponseSize) / 4

/-- `TB_XDP_PROPERTIES_MAX_LENGTH`, in dwords. -/
def propertiesMaxLength : ℕ := 500

section Fields

variable (w : Words)

/-- `xd_hdr.route_hi`. -/
def routeHi : UInt32 := w 0

/-- `xd_hdr.route_lo`. -/
def routeLo : UInt32 := w 1

/-- `xd_hdr.length_sn & TB_XDOMAIN_LENGTH_MASK`: dwords of payload after the XDomain header. -/
def lengthField : UInt32 := w 2 &&& 0x3f

def sequence : UInt32 := (w 2 &&& 0x18000000) >>> 27

def protocolUuid : Uuid := ⟨w 3, w 4, w 5, w 6⟩

/-- `type`. -/
def typeField : UInt32 := w 7

/-- `error` of an error response. -/
def errorField : UInt32 := w 8

/-- `src_uuid` of a properties packet. -/
def srcUuid : Uuid := ⟨w 8, w 9, w 10, w 11⟩

/-- `dst_uuid` of a properties packet. -/
def dstUuid : Uuid := ⟨w 12, w 13, w 14, w 15⟩

/-- `offset` of a properties packet. -/
def offsetField : UInt16 := (w 16).toUInt16

/-- `data_length` of a properties response. -/
def dataLengthField : UInt16 := (w 16 >>> 16).toUInt16

/-- `generation` of a properties response. -/
def generationField : UInt32 := w 17

/-- `data[i]` of a properties response. -/
def dataField (i : ℕ) : UInt32 := w (18 + i)

def packetSize : ℕ := (lengthField w).toNat * 4 + xdomainHeaderSize

end Fields

/-- The sequence number in `length_sn`. -/
def snField (seq : UInt8) : UInt32 := (seq.toUInt32 <<< 27) &&& 0x18000000

/-- `tb_xdp_fill_header` for a packet of `size` bytes. -/
def fillHeader (route : UInt64) (seq : UInt8) (type : XdpType) (size : ℕ) : Words
  | 0 => (route >>> 32).toUInt32
  | 1 => route.toUInt32
  | 2 => UInt32.ofNat ((size - xdomainHeaderSize) / 4) ||| snField seq
  | 3 => tbXdpUuid.w0
  | 4 => tbXdpUuid.w1
  | 5 => tbXdpUuid.w2
  | 6 => tbXdpUuid.w3
  | 7 => type.code
  | _ => 0

section Header

variable {n : ℕ} {seq : UInt8}

theorem or_and_mask (a b mask : UInt32) : (a ||| b) &&& mask = a &&& mask ||| b &&& mask := by
  apply UInt32.toNat_inj.mp
  simp only [UInt32.toNat_and, UInt32.toNat_or]
  exact Nat.and_or_distrib_right _ _ _

theorem and_lengthMask (h : n < 64) : UInt32.ofNat n &&& 0x3f = UInt32.ofNat n := by
  have hsize : n < UInt32.size := by
    simp only [UInt32.size]
    omega
  apply UInt32.toNat_inj.mp
  rw [UInt32.toNat_and, UInt32.toNat_ofNat_of_lt' hsize]
  exact (Nat.and_two_pow_sub_one_eq_mod n 6).trans (Nat.mod_eq_of_lt h)

/-- The length that a header word carries next to any sequence number. -/
theorem lengthSn_length (h : n < 64) :
    (UInt32.ofNat n ||| snField seq) &&& 0x3f = UInt32.ofNat n := by
  have hmasks : (0x18000000 &&& 0x3f : UInt32) = 0 := by decide
  rw [or_and_mask, and_lengthMask h, snField, UInt32.and_assoc, hmasks, UInt32.and_zero,
    UInt32.or_zero]

/-- The sequence number that a header word carries next to any length. -/
theorem lengthSn_sequence (h : n < 64) :
    (UInt32.ofNat n ||| snField seq) &&& 0x18000000 = snField seq := by
  have hmasks : (0x3f &&& 0x18000000 : UInt32) = 0 := by decide
  have hlength : UInt32.ofNat n &&& 0x18000000 = 0 := by
    rw [← and_lengthMask h, UInt32.and_assoc, hmasks, UInt32.and_zero]
  rw [or_and_mask, hlength, UInt32.zero_or, snField, UInt32.and_assoc, UInt32.and_self]

/-- A sequence number taken from a header and put into another one is the same there. -/
theorem sequence_echo (seq : UInt8) : snField (snField seq >>> 27).toUInt8 = snField seq := by
  have hall : ∀ s : BitVec 8,
      snField (snField (.ofBitVec s) >>> 27).toUInt8 = snField (.ofBitVec s) := by
    decide +kernel
  exact hall seq.toBitVec

/-- `offset` and `data_length` share a dword. -/
theorem packed_low (low high : UInt16) :
    (low.toUInt32 ||| (high.toUInt32 <<< 16)).toUInt16 = low := by
  apply UInt16.toBitVec_inj.mp
  simp

theorem packed_high (low high : UInt16) :
    ((low.toUInt32 ||| (high.toUInt32 <<< 16)) >>> 16).toUInt16 = high := by
  apply UInt16.toBitVec_inj.mp
  ext i hi
  have hwide : 16 + i < 32 := by omega
  have hlow : i < 32 := by omega
  simp [hwide, hlow, BitVec.getLsbD_eq_getElem hi]

end Header

inductive PkgType
  | error
  | xdomainResp
  | other
  deriving DecidableEq

/-- `struct ctl_pkg`: `size` bytes were received. -/
structure Frame where
  eof : PkgType
  size : ℕ
  buffer : Words

def requestRoute (req : Words) : UInt64 :=
  ((routeHi req &&& 0x7fffffff).toUInt64 <<< 32) ||| (routeLo req).toUInt64

/-- `tb_cfg_get_route`, without the highest bit. -/
def cfgRoute (w : Words) : UInt64 :=
  ((w 0 &&& 0x3fffff).toUInt64 <<< 32) ||| (w 1).toUInt64

/-- The part of `tb_xdomain_match` that is specific to discovery requests. -/
def discoveryMatch (req : Words) (pkg : Frame) (type : XdpType) : Bool :=
  match type.response with
  | none => false
  | some expected =>
    if typeField pkg.buffer = expected.code then
      expected.minSize.any (· ≤ pkg.size) &&
        (type != .propertiesRequest || offsetField pkg.buffer == offsetField req)
    else typeField pkg.buffer = XdpType.errorResponse.code && errorResponseSize ≤ pkg.size

/-- `tb_xdomain_match` for a discovery request of the given type: an error on the route of the
request, or a response in its envelope. -/
def xdomainMatch (req : Words) (type : XdpType) (responseSize : ℕ) (pkg : Frame) : Bool :=
  match pkg.eof with
  | .error => pkg.size < cfgHeaderSize || cfgRoute pkg.buffer == requestRoute req
  | .xdomainResp =>
    xdpHeaderSize ≤ pkg.size && pkg.size ≤ responseSize && packetSize pkg.buffer == pkg.size &&
      (routeHi pkg.buffer &&& 0x7fffffff) == (routeHi req &&& 0x7fffffff) &&
      routeLo pkg.buffer == routeLo req && protocolUuid pkg.buffer == protocolUuid req &&
      sequence pkg.buffer == sequence req && discoveryMatch req pkg type
  | .other => false

/-- `tb_xdomain_copy` of a response: the rest of the response buffer is zero. -/
def xdomainCopy (pkg : Frame) : Words :=
  fun i ↦ if 4 * i < pkg.size then pkg.buffer i else 0

def eio : ℤ := -5

def e2big : ℤ := -7

def eagain : ℤ := -11

def enomem : ℤ := -12

def einval : ℤ := -22

def eopnotsupp : ℤ := -95

def etimedout : ℤ := -110

def ekeyrejected : ℤ := -129

/-- `__tb_xdomain_request`: the request fails to be sent, or the packets in `arrivals` are received
before it times out and the first one that matches completes it. -/
def xdomainRequest (req : Words) (type : XdpType) (responseSize : ℕ)
    (arrivals : Except ℤ (List Frame)) : Except ℤ Frame :=
  match arrivals with
  | .error e => .error e
  | .ok frames =>
    match frames.find? (xdomainMatch req type responseSize) with
    | none => .error etimedout
    | some pkg => if pkg.eof = .error then .error eio else .ok pkg

section Match

variable {req : Words} {type : XdpType} {responseSize : ℕ} {arrivals : Except ℤ (List Frame)}
  {pkg : Frame}

/-- What completes a request is in the response buffer, whole. -/
theorem xdomainRequest_ok (h : xdomainRequest req type responseSize arrivals = .ok pkg) :
    xdpHeaderSize ≤ pkg.size ∧ pkg.size ≤ responseSize ∧
      packetSize pkg.buffer = pkg.size := by
  unfold xdomainRequest at h
  split at h
  · cases h
  · split at h
    · cases h
    · next frames p hfind =>
      split at h
      · cases h
      · next heof =>
        cases h
        have hmatch := List.find?_some hfind
        unfold xdomainMatch at hmatch
        split at hmatch
        · next herror => exact absurd herror heof
        · simp only [Bool.and_eq_true, decide_eq_true_eq, beq_iff_eq] at hmatch
          obtain ⟨⟨⟨⟨⟨⟨⟨hheader, hsize⟩, hpacket⟩, -⟩, -⟩, -⟩, -⟩, -⟩ := hmatch
          exact ⟨hheader, hsize, hpacket⟩
        · cases hmatch

end Match

end ThunderboltStack.Xdomain
