import Mathlib.Algebra.Order.Ring.Nat
import Mathlib.Data.List.Basic

/-!
# Frames of a network packet

`tbnet_start_xmit` of the ThunderboltIP driver: a packet is copied into frames of 4084 bytes, from
a linear part and page fragments, and its checksums are filled in where the stack asks for it.
-/

namespace ThunderboltStack.Tbnet

/-- `sizeof(struct thunderbolt_ip_frame_header)`, `TBNET_FRAME_SIZE`, `TBNET_MAX_PAYLOAD_SIZE`,
`TBNET_MAX_MTU` and `MAX_SKB_FRAGS`. -/
def headerSize : ℕ := 12

@[inherit_doc headerSize]
def frameSize : ℕ := 4096

@[inherit_doc headerSize]
def maxPayloadSize : ℕ := 4084

@[inherit_doc headerSize]
def maxMtu : ℕ := 65536

@[inherit_doc headerSize]
def maxSkbFrags : ℕ := 17

structure FrameHeader where
  frameSize : ℕ
  frameIndex : ℕ
  frameId : ℕ
  frameCount : ℕ
  deriving DecidableEq

/-- A frame in a ring: `frame.size`, which has twelve bits, the header, and the data behind it. -/
structure Frame where
  size : ℕ
  hdr : FrameHeader
  data : List UInt8
  deriving DecidableEq

/-- `tbnet_frame_size`: a full frame has size zero. -/
def Frame.fullSize (f : Frame) : ℕ := if f.size = 0 then frameSize else f.size

/-- What `tbnet_start_xmit` reads of a `struct sk_buff`. -/
structure Skb where
  len : ℕ
  /-- The linear part and the fragments. -/
  head : List UInt8
  frags : List (List UInt8) := []
  /-- `ip_summed == CHECKSUM_PARTIAL`. -/
  needsCsum : Bool := false
  protocol : ℕ := 0
  networkOffset : ℕ := 0
  transportOffset : ℕ := 0
  /-- `skb_is_gso` and `skb_is_gso_v6`. -/
  gsoV6 : Bool := false
  csumStartOffset : ℕ := 0
  csumOffset : ℕ := 0

def Skb.bytes (skb : Skb) : List UInt8 := skb.head ++ skb.frags.flatten

/-- The sum of the 16-bit words of a buffer. -/
def wordSum : List UInt8 → ℕ
  | [] => 0
  | [a] => 256 * a.toNat
  | a :: b :: rest => 256 * a.toNat + b.toNat + wordSum rest

def fold16 (sum : ℕ) : ℕ := if sum = 0 then 0 else (sum - 1) % 65535 + 1

def csumFold (sum : ℕ) : ℕ := 65535 - fold16 sum

def slice (bytes : List UInt8) (off len : ℕ) : List UInt8 := (bytes.drop off).take len

def write16 (bytes : List UInt8) (off value : ℕ) : List UInt8 :=
  (bytes.set off (.ofNat (value / 256))).set (off + 1) (.ofNat (value % 256))

structure CsumPlan where
  ipcso : Option ℕ
  tucso : ℕ
  pseudo : ℕ

/-- `ETH_P_8021Q`, `ETH_P_IP`, `ETH_P_IPV6`, `IPPROTO_TCP` and `IPPROTO_UDP`. -/
def ethP8021q : ℕ := 0x8100

@[inherit_doc ethP8021q]
def ethPIp : ℕ := 0x0800

@[inherit_doc ethP8021q]
def ethPIpv6 : ℕ := 0x86dd

@[inherit_doc ethP8021q]
def ipprotoTcp : ℕ := 6

@[inherit_doc ethP8021q]
def ipprotoUdp : ℕ := 17

namespace Skb

variable (skb : Skb)

def innerProtocol : Option ℕ :=
  if skb.protocol = ethP8021q then
    if 18 ≤ skb.len then some (wordSum (slice skb.bytes 16 2)) else none
  else some skb.protocol

def networkByte (off : ℕ) : ℕ := (skb.head.getD (skb.networkOffset + off) 0).toNat

/-- The choice of the checksums in `tbnet_xmit_csum_and_map`. -/
def csumPlan : Option CsumPlan :=
  skb.innerProtocol.bind fun protocol ↦
    if protocol = ethPIp then
      let plan tucso : CsumPlan :=
        { ipcso := some (skb.networkOffset + 10)
          tucso
          pseudo := wordSum (slice skb.head (skb.networkOffset + 12) 8) + skb.networkByte 9 }
      if skb.networkByte 9 = ipprotoTcp then some (plan (skb.transportOffset + 16))
      else if skb.networkByte 9 = ipprotoUdp then some (plan (skb.transportOffset + 6))
      else none
    else
      let addresses := wordSum (slice skb.head (skb.networkOffset + 8) 32)
      if skb.gsoV6 then
        some { ipcso := none, tucso := skb.transportOffset + 16, pseudo := addresses + ipprotoTcp }
      else if protocol = ethPIpv6 then
        some { ipcso := none, tucso := skb.csumStartOffset + skb.csumOffset
               pseudo := addresses + skb.networkByte 6 }
      else none

def fillIpCsum (plan : CsumPlan) (data : List UInt8) : List UInt8 :=
  match plan.ipcso with
  | none => data
  | some off =>
    let zeroed := write16 data off 0
    let header := slice zeroed skb.networkOffset (4 * (skb.networkByte 0 % 16))
    write16 zeroed off (csumFold (wordSum header))

def fillTransportCsum (plan : CsumPlan) (data : List UInt8) (rest : List (List UInt8)) :
    List UInt8 :=
  let paylen := skb.len - skb.transportOffset
  let data := write16 data plan.tucso (fold16 plan.pseudo)
  let wsum := paylen / 65536 + paylen % 65536 + wordSum (data.drop skb.transportOffset) +
    (rest.map wordSum).sum
  write16 data plan.tucso (csumFold wsum)

def countFrames (frames : List Frame) : List Frame :=
  frames.map fun f ↦ { f with hdr := { f.hdr with frameCount := frames.length } }

/-- `tbnet_xmit_csum_and_map`: the checksums go into the first frame. -/
def csumAndMap (frames : List Frame) : Option (List Frame) :=
  if skb.needsCsum then
    skb.csumPlan.bind fun plan ↦
      match countFrames frames with
      | [] => none
      | first :: rest =>
        let data := skb.fillTransportCsum plan (skb.fillIpCsum plan first.data)
          (rest.map Frame.data)
        some ({ first with data } :: rest)
  else some (countFrames frames)

end Skb

/-! ## The copy loops -/

/-- The inner loop of `tbnet_start_xmit`: fill a frame from the rest of the current piece and from
the fragments behind it.  If the last piece ends with the frame, the cursor stays on it. -/
def fillFrame (src : List UInt8) (frags : List (List UInt8)) (sizeLeft : ℕ) :
    Option (List UInt8 × List UInt8 × List (List UInt8)) :=
  if sizeLeft < src.length then some (src.take sizeLeft, src.drop sizeLeft, frags)
  else
    match frags with
    | frag :: frags =>
      if src.length < sizeLeft then
        (fillFrame frag frags (sizeLeft - src.length)).map fun r ↦ (src ++ r.1, r.2)
      else some (src, frag, frags)
    | [] => if src.length < sizeLeft then none else some (src, src, [])

def fillLast (src : List UInt8) (frags : List (List UInt8)) (dataLen : ℕ) : Option (List UInt8) :=
  if src.length < dataLen then
    match frags with
    | frag :: frags => (fillLast frag frags (dataLen - src.length)).map (src ++ ·)
    | [] => none
  else some (src.take dataLen)

/-- Where `tbnet_start_xmit` is in its packet. -/
structure Cursor where
  src : List UInt8
  frags : List (List UInt8)
  dataLen : ℕ
  /-- The frames that are full. -/
  frames : List Frame := []

def Skb.cursor (skb : Skb) : Cursor := { src := skb.head, frags := skb.frags, dataLen := skb.len }

namespace Cursor

variable (frameId : ℕ) (c : Cursor)

def next : Option Cursor :=
  (fillFrame c.src c.frags maxPayloadSize).map fun r ↦
    { src := r.2.1
      frags := r.2.2
      dataLen := c.dataLen - maxPayloadSize
      frames := c.frames ++
        [{ size := 0
           hdr :=
            { frameSize := maxPayloadSize, frameIndex := c.frames.length
              frameId := frameId % 65536, frameCount := 0 }
           data := r.1 }] }

def last : Option (List Frame) :=
  (fillLast c.src c.frags c.dataLen).map fun data ↦
    c.frames ++
      [{ size := (c.dataLen + headerSize) % 4096
         hdr :=
          { frameSize := c.dataLen, frameIndex := c.frames.length
            frameId := frameId % 65536, frameCount := 0 }
         data }]

theorem dataLen_of_next {c' : Cursor} (h : c.next frameId = some c') :
    c'.dataLen = c.dataLen - maxPayloadSize := by
  obtain ⟨r, -, rfl⟩ := Option.map_eq_some_iff.1 h
  rfl

/-- The frames of the rest of a packet. -/
def fill (frameId : ℕ) (c : Cursor) : Option (List Frame) :=
  if _hlen : maxPayloadSize < c.dataLen then
    match _hnext : c.next frameId with
    | none => none
    | some c' => fill frameId c'
  else c.last frameId
termination_by c.dataLen
decreasing_by
  rw [dataLen_of_next frameId c _hnext]
  unfold maxPayloadSize at _hlen ⊢
  omega

variable {frameId c}

theorem fill_of_next {c' : Cursor} (hlen : maxPayloadSize < c.dataLen)
    (hnext : c.next frameId = some c') : c.fill frameId = c'.fill frameId := by
  rw [fill, dif_pos hlen]
  split
  · next hnone => simp [hnone] at hnext
  · next c'' hsome =>
    rw [hsome] at hnext
    rw [Option.some.inj hnext]

theorem fill_of_last (hlen : ¬ maxPayloadSize < c.dataLen) : c.fill frameId = c.last frameId := by
  rw [fill, dif_neg hlen]

end Cursor

/-- The frames of a packet that `tbnet_start_xmit` gives to the ring. -/
def Skb.xmitFrames (skb : Skb) (frameId : ℕ) : Option (List Frame) :=
  (skb.cursor.fill frameId).bind skb.csumAndMap

end ThunderboltStack.Tbnet
