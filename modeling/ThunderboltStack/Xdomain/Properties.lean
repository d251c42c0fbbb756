import ThunderboltStack.Xdomain.Packet

/-!
# The exchange of property blocks

`tb_xdp_properties_request`, which reads the property block of the peer chunk by chunk, and
`tb_xdp_properties_response`, which answers one chunk.  The control channel is an environment: for
each request it says that sending failed, or which packets arrive.

The loop takes a bound on its turns.  `Exchange.copies` records the copies it makes into the block,
in order, with the packets they are made from.
-/

namespace ThunderboltStack.Xdomain

/-! ## The requester -/

/-- The properties request for `offset`. -/
def propertiesPacket (route : UInt64) (seq : UInt8) (src dst : Uuid) (offset : UInt16) : Words
  | 8 => src.w0
  | 9 => src.w1
  | 10 => src.w2
  | 11 => src.w3
  | 12 => dst.w0
  | 13 => dst.w1
  | 14 => dst.w2
  | 15 => dst.w3
  | 16 => offset.toUInt32
  | i => fillHeader route seq .propertiesRequest propertiesSize i

def responseSize : ℕ := propertiesResponseSize + propertiesMaxDataLength * 4

/-- `tb_xdp_handle_error`.  Error numbers it does not know are no errors. -/
def handleError (res : Words) : Except ℤ Unit :=
  if typeField res ≠ XdpType.errorResponse.code then .ok ()
  else if errorField res = 1 ∨ errorField res = 2 then .error eio
  else if errorField res = 3 then .error eopnotsupp
  else if errorField res = 4 then .error eagain
  else .ok ()

def propertiesIdsOk (res : Words) (localUuid remoteUuid : Uuid) : Bool :=
  srcUuid res == remoteUuid && dstUuid res == localUuid

/-- The variables of the loop: `req.offset`, `data_len` and `data`. The dwords of the allocation are
those below `dataLen`. -/
structure Progress where
  offset : UInt16 := 0
  dataLen : UInt16 := 0
  data : Option Words := none

/-- `len` of a chunk: the dwords of data in a packet, from its length field. -/
def chunkLen (res : Words) : UInt16 :=
  (lengthField res).toUInt16 + UInt16.ofNat (xdomainHeaderSize / 4) -
    UInt16.ofNat (propertiesResponseSize / 4)

/-- The first chunk fixes the length of the block and allocates it; `alloc` says whether there is
memory. -/
def latchLength (alloc : Bool) (p : Progress) (res : Words) : Except ℤ Progress :=
  match p.data with
  | some _ => .ok p
  | none =>
    if propertiesMaxLength < (dataLengthField res).toNat then .error e2big
    else if !alloc then .error enomem
    else .ok { p with dataLen := dataLengthField res, data := some fun _ ↦ 0 }

/-- `memcpy(data + req.offset, res->data, len * 4)` and `req.offset += len`. -/
def copyChunk (p : Progress) (res : Words) : Progress :=
  { p with
    offset := p.offset + chunkLen res
    data := p.data.map fun data i ↦
      if p.offset.toNat ≤ i ∧ i < p.offset.toNat + (chunkLen res).toNat then
        dataField res (i - p.offset.toNat)
      else data i }

def acceptChunk (alloc : Bool) (src dst : Uuid) (p : Progress) (res : Words) :
    Except ℤ Progress := do
  handleError res
  if !propertiesIdsOk res src dst then .error ekeyrejected
  else if (lengthField res).toNat < propertiesResponseSize / 4 then .error einval
  else if offsetField res ≠ p.offset then .error einval
  else
    let p ← latchLength alloc p res
    return copyChunk p res

def Progress.more (p : Progress) : Bool :=
  p.dataLen == 0 || p.offset < p.dataLen

/-- What the requester gets from its surroundings: memory for the response and for the block, and
for the request of each turn the packets that arrive. -/
structure Channel where
  resAlloc : Bool := true
  blockAlloc : Bool := true
  arrivals : ℕ → Words → Except ℤ (List Frame)

/-- What `tb_xdp_properties_request` returns: the block, whose length is its return value, and its
generation. -/
structure Properties where
  block : List UInt32
  generation : UInt32
  deriving DecidableEq

/-- A copy of `len` dwords to `offset` of a block of `dataLen` dwords, from a received packet;
`next` is the offset after it. -/
structure Copy where
  pkg : Frame
  offset : UInt16
  len : UInt16
  dataLen : UInt16
  next : UInt16

structure Exchange where
  copies : List Copy
  result : Option (Except ℤ Properties)

def Progress.block (p : Progress) : List UInt32 :=
  (List.range p.dataLen.toNat).map (p.data.getD fun _ ↦ 0)

/-- The copy that a turn makes when it takes the loop from `p` to `p'`. -/
def copyOf (pkg : Frame) (p p' : Progress) : Copy where
  pkg := pkg
  offset := p.offset
  len := chunkLen (xdomainCopy pkg)
  dataLen := p'.dataLen
  next := p'.offset

section Requester

variable (ch : Channel) (route : UInt64) (seq : UInt8) (src dst : Uuid)

/-- The response to the request of turn `i`. -/
def awaitChunk (i : ℕ) (p : Progress) : Except ℤ Frame :=
  let req := propertiesPacket route seq src dst p.offset
  xdomainRequest req .propertiesRequest responseSize (ch.arrivals i req)

/-- Turn `i` of the loop, up to its condition. -/
def turn (i : ℕ) (p : Progress) : Except ℤ (Frame × Progress) := do
  let pkg ← awaitChunk ch route seq src dst i p
  let p' ← acceptChunk ch.blockAlloc src dst p (xdomainCopy pkg)
  return (pkg, p')

/-- The loop of `tb_xdp_properties_request`, with at most the given number of turns. -/
def propertiesLoop : ℕ → ℕ → Progress → Exchange
  | 0, _, _ => ⟨[], none⟩
  | turns + 1, i, p =>
    match turn ch route seq src dst i p with
    | .error e => ⟨[], some (.error e)⟩
    | .ok (pkg, p') =>
      if p'.more then
        let rest := propertiesLoop turns (i + 1) p'
        ⟨copyOf pkg p p' :: rest.copies, rest.result⟩
      else
        ⟨[copyOf pkg p p'], some (.ok ⟨p'.block, generationField (xdomainCopy pkg)⟩)⟩

def propertiesRequest (turns : ℕ) : Exchange :=
  if ch.resAlloc then propertiesLoop ch route seq src dst turns 0 {}
  else ⟨[], some (.error enomem)⟩

end Requester

theorem lengthField_lt (w : Words) : (lengthField w).toNat < 64 := by
  have h : (lengthField w).toNat = (w 2).toNat &&& 0x3f := by
    simp [lengthField]
  have hmod : (w 2).toNat &&& 0x3f = (w 2).toNat % 2 ^ 6 :=
    Nat.and_two_pow_sub_one_eq_mod _ 6
  omega

theorem chunkLen_toNat {w : Words} (h : 15 ≤ (lengthField w).toNat) :
    (chunkLen w).toNat = (lengthField w).toNat - 15 := by
  have hlt := lengthField_lt w
  have hlen : (lengthField w).toUInt16.toNat = (lengthField w).toNat := by
    rw [UInt32.toNat_toUInt16]
    omega
  simp only [chunkLen, xdomainHeaderSize, propertiesResponseSize, UInt16.toNat_sub, UInt16.toNat_add,
    hlen]
  simp
  omega

theorem latchLength_ok {alloc : Bool} {p q : Progress} {res : Words} :
    latchLength alloc p res = .ok q ↔
      if p.data.isSome then q = p
      else (dataLengthField res).toNat ≤ propertiesMaxLength ∧ alloc ∧
        q = { p with dataLen := dataLengthField res, data := some fun _ ↦ 0 } := by
  unfold latchLength
  cases hdata : p.data with
  | some data => simp [eq_comm]
  | none =>
    simp only [Option.isSome_none, Bool.false_eq_true, if_false]
    split
    · next h => simp [Nat.not_le.mpr h]
    · next h =>
      cases alloc
      · simp
      · simp [Nat.not_lt.mp h, eq_comm]

/-- A chunk is accepted exactly if it answers the request and continues what was read. -/
theorem acceptChunk_ok {alloc : Bool} {src dst : Uuid} {p p' : Progress} {res : Words} :
    acceptChunk alloc src dst p res = .ok p' ↔
      handleError res = .ok () ∧ propertiesIdsOk res src dst ∧
        propertiesResponseSize / 4 ≤ (lengthField res).toNat ∧ offsetField res = p.offset ∧
        ∃ q, latchLength alloc p res = .ok q ∧ p' = copyChunk q res := by
  unfold acceptChunk
  cases handleError res with
  | error e => simp [bind, Except.bind]
  | ok u =>
    cases hids : propertiesIdsOk res src dst with
    | false => simp [bind, Except.bind]
    | true =>
      by_cases hlen : (lengthField res).toNat < propertiesResponseSize / 4
      · simp [bind, Except.bind, hlen, Nat.not_le.mpr hlen]
      · by_cases hoffset : offsetField res = p.offset
        · simp only [bind, Except.bind, hlen, Nat.not_lt.mp hlen, hoffset]
          cases latchLength alloc p res <;> simp [pure, Except.pure, eq_comm]
        · simp [bind, Except.bind, hlen, hoffset]

theorem turn_ok {ch : Channel} {route : UInt64} {seq : UInt8} {src dst : Uuid} {i : ℕ}
    {p p' : Progress} {pkg : Frame} :
    turn ch route seq src dst i p = .ok (pkg, p') ↔
      awaitChunk ch route seq src dst i p = .ok pkg ∧
        acceptChunk ch.blockAlloc src dst p (xdomainCopy pkg) = .ok p' := by
  unfold turn
  cases awaitChunk ch route seq src dst i p with
  | error e => simp [bind, Except.bind]
  | ok received =>
    by_cases hpkg : received = pkg
    · subst hpkg
      cases haccept : acceptChunk ch.blockAlloc src dst p (xdomainCopy received) <;>
        simp [bind, Except.bind, pure, Except.pure, haccept]
    · cases haccept : acceptChunk ch.blockAlloc src dst p (xdomainCopy received) <;>
        simp [bind, Except.bind, pure, Except.pure, haccept, hpkg]

/-! ## The responder -/

/-- The part of `struct tb_xdomain` that the responder reads. -/
structure LocalDomain where
  localUuid : Uuid
  route : UInt64
  localPropertyBlock : List UInt32
  localPropertyBlockGen : UInt32

/-- The dwords of data that answer a request for `offset`. -/
def responseLen (xd : LocalDomain) (offset : UInt16) : UInt16 :=
  min (UInt16.ofNat (xd.localPropertyBlock.length - offset.toNat))
    (UInt16.ofNat propertiesMaxDataLength)

/-- The packet that `tb_xdp_properties_response` sends. -/
def responsePacket (xd : LocalDomain) (seq : UInt8) (req : Words) : Words
  | 8 => xd.localUuid.w0
  | 9 => xd.localUuid.w1
  | 10 => xd.localUuid.w2
  | 11 => xd.localUuid.w3
  | 12 => (srcUuid req).w0
  | 13 => (srcUuid req).w1
  | 14 => (srcUuid req).w2
  | 15 => (srcUuid req).w3
  | 16 => (offsetField req).toUInt32 |||
      ((UInt16.ofNat xd.localPropertyBlock.length).toUInt32 <<< 16)
  | 17 => xd.localPropertyBlockGen
  | i =>
    if 18 ≤ i then
      if i - 18 < (responseLen xd (offsetField req)).toNat then
        xd.localPropertyBlock.getD ((offsetField req).toNat + (i - 18)) 0
      else 0
    else fillHeader xd.route seq .propertiesResponse
      (propertiesResponseSize + (responseLen xd (offsetField req)).toNat * 4) i

/-- `tb_xdp_error_response`: the packet sent. -/
def errorPacket (xd : LocalDomain) (seq : UInt8) (error : UInt32) : Frame where
  eof := .xdomainResp
  size := errorResponseSize
  buffer i := if i = 8 then error else fillHeader xd.route seq .errorResponse errorResponseSize i

/-- `tb_xdp_properties_response`: the packet sent; `alloc` says whether there is memory for it. -/
def propertiesResponse (alloc : Bool) (xd : LocalDomain) (seq : UInt8) (req : Words) :
    Except ℤ Frame :=
  if xd.localUuid ≠ dstUuid req then .ok (errorPacket xd seq 2)
  else if xd.localPropertyBlock.length ≤ (offsetField req).toNat then .error einval
  else if !alloc then .error enomem
  else .ok ⟨.xdomainResp, propertiesResponseSize + (responseLen xd (offsetField req)).toNat * 4,
    responsePacket xd seq req⟩

def Frame.arrives (route : UInt64) (pkg : Frame) : Frame :=
  { pkg with buffer := fun i ↦
      if i = 0 then (route >>> 32).toUInt32 else if i = 1 then route.toUInt32 else pkg.buffer i }

/-- A channel that loses nothing, to a responder that holds its block unchanged. -/
def lossless (xd : LocalDomain) (route : UInt64) : Channel where
  arrivals _ req :=
    match propertiesResponse true xd (sequence req).toUInt8 req with
    | .ok pkg => .ok [pkg.arrives route]
    | .error _ => .ok []

end ThunderboltStack.Xdomain
