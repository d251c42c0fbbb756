import ThunderboltStack.Xdomain.Properties
import Mathlib.Data.List.Basic

/-!
# Reading back a property block

The requester against the responder over a channel that loses nothing.  The two sides agree except
on the last chunk: the requester compares the length field, which does not count the three dwords of
the XDomain header, with the size of the whole response structure, so that it refuses chunks of one
or two dwords.
-/

namespace ThunderboltStack.Xdomain

section Chunk

variable (xd : LocalDomain) (route : UInt64) (seq : UInt8) (src : Uuid) (offset : UInt16)

/-- The request for `offset`. -/
def chunkRequest : Words := propertiesPacket route seq src xd.localUuid offset

def chunk : Frame :=
  Frame.arrives route
    ⟨.xdomainResp, propertiesResponseSize + (responseLen xd offset).toNat * 4,
      responsePacket xd (sequence (chunkRequest xd route seq src offset)).toUInt8
        (chunkRequest xd route seq src offset)⟩

theorem chunkRequest_offset : offsetField (chunkRequest xd route seq src offset) = offset := by
  simp [chunkRequest, offsetField, propertiesPacket]

theorem chunkRequest_sequence :
    sequence (chunkRequest xd route seq src offset) = snField seq >>> 27 := by
  have hword : chunkRequest xd route seq src offset 2 = UInt32.ofNat 14 ||| snField seq := rfl
  rw [sequence, hword, lengthSn_sequence (by omega)]

theorem lossless_arrivals (hoffset : offset.toNat < xd.localPropertyBlock.length) (i : ℕ) :
    (lossless xd route).arrivals i (chunkRequest xd route seq src offset) =
      .ok [chunk xd route seq src offset] := by
  have hdst : dstUuid (chunkRequest xd route seq src offset) = xd.localUuid := rfl
  simp only [lossless, propertiesResponse, hdst, chunkRequest_offset, Nat.not_le.mpr hoffset,
    ne_eq, not_true_eq_false, if_false, Bool.not_true, Bool.false_eq_true]
  rfl

theorem responseLen_eq_min : (responseLen xd offset).toNat =
    min (UInt16.ofNat (xd.localPropertyBlock.length - offset.toNat)).toNat
      propertiesMaxDataLength := by
  have hmaximum : (UInt16.ofNat propertiesMaxDataLength).toNat = propertiesMaxDataLength := by
    decide
  have hmin (a b : UInt16) : (min a b).toNat = min a.toNat b.toNat := by
    have hdef : min a b = if a ≤ b then a else b := rfl
    rw [hdef, Nat.min_def, apply_ite UInt16.toNat]
    simp only [UInt16.le_iff_toNat_le]
  rw [responseLen, hmin, hmaximum]

theorem responseLen_toNat (hmax : xd.localPropertyBlock.length ≤ propertiesMaxLength) :
    (responseLen xd offset).toNat =
      min (xd.localPropertyBlock.length - offset.toNat) propertiesMaxDataLength := by
  simp only [propertiesMaxLength] at hmax
  have hlength : (UInt16.ofNat (xd.localPropertyBlock.length - offset.toNat)).toNat =
      xd.localPropertyBlock.length - offset.toNat :=
    UInt16.toNat_ofNat_of_lt' (by simp only [UInt16.size]; omega)
  rw [responseLen_eq_min, hlength]

end Chunk

section Fields

variable {xd : LocalDomain} {route : UInt64} {seq : UInt8} {src : Uuid} {offset : UInt16}

theorem responsePacket_data {req : Words} {i : ℕ}
    (hi : i < (responseLen xd (offsetField req)).toNat) :
    responsePacket xd seq req (18 + i) =
      xd.localPropertyBlock.getD ((offsetField req).toNat + i) 0 := by
  unfold responsePacket
  split
  all_goals first | omega | skip
  rw [if_pos (by omega), Nat.add_sub_cancel_left, if_pos hi]

/-- The words of a response, but for the route, arrive as they were sent. -/
theorem chunk_word {i : ℕ} (hroute : 2 ≤ i)
    (hi : 4 * i < propertiesResponseSize + (responseLen xd offset).toNat * 4) :
    xdomainCopy (chunk xd route seq src offset) i =
      responsePacket xd (sequence (chunkRequest xd route seq src offset)).toUInt8
        (chunkRequest xd route seq src offset) i := by
  simp only [xdomainCopy, chunk, Frame.arrives, if_pos hi]
  rw [if_neg (by omega), if_neg (by omega)]

theorem chunk_header {i : ℕ} (hroute : 2 ≤ i) (hi : i < 18) :
    xdomainCopy (chunk xd route seq src offset) i =
      responsePacket xd (sequence (chunkRequest xd route seq src offset)).toUInt8
        (chunkRequest xd route seq src offset) i := by
  apply chunk_word hroute
  simp only [propertiesResponseSize]
  omega

theorem chunk_data {i : ℕ} (hi : i < (responseLen xd offset).toNat) :
    dataField (xdomainCopy (chunk xd route seq src offset)) i =
      xd.localPropertyBlock.getD (offset.toNat + i) 0 := by
  have hword : 4 * (18 + i) < propertiesResponseSize + (responseLen xd offset).toNat * 4 := by
    simp only [propertiesResponseSize]
    omega
  rw [dataField, chunk_word (by omega) hword, responsePacket_data, chunkRequest_offset]
  rw [chunkRequest_offset]
  exact hi

theorem chunk_offset : offsetField (xdomainCopy (chunk xd route seq src offset)) = offset := by
  rw [offsetField, chunk_header (by omega) (by omega)]
  exact (packed_low _ _).trans (chunkRequest_offset xd route seq src offset)

theorem chunk_dataLength :
    dataLengthField (xdomainCopy (chunk xd route seq src offset)) =
      UInt16.ofNat xd.localPropertyBlock.length := by
  rw [dataLengthField, chunk_header (by omega) (by omega)]
  exact packed_high _ _

theorem chunk_generation :
    generationField (xdomainCopy (chunk xd route seq src offset)) = xd.localPropertyBlockGen := by
  rw [generationField, chunk_header (by omega) (by omega)]
  rfl

theorem chunk_ids :
    propertiesIdsOk (xdomainCopy (chunk xd route seq src offset)) src xd.localUuid := by
  have hsrc : srcUuid (xdomainCopy (chunk xd route seq src offset)) = xd.localUuid := by
    simp only [srcUuid, chunk_header, Nat.reduceLeDiff, Nat.reduceLT]
    rfl
  have hdst : dstUuid (xdomainCopy (chunk xd route seq src offset)) = src := by
    simp only [dstUuid, chunk_header, Nat.reduceLeDiff, Nat.reduceLT]
    rfl
  simp [propertiesIdsOk, hsrc, hdst]

theorem chunk_type :
    typeField (xdomainCopy (chunk xd route seq src offset)) = XdpType.propertiesResponse.code := by
  rw [typeField, chunk_header (by omega) (by omega)]
  rfl

variable (xd offset) in
theorem responseLen_small : (responseLen xd offset).toNat ≤ 45 := by
  have hmaximum : propertiesMaxDataLength = 45 := rfl
  rw [responseLen_eq_min, hmaximum]
  exact Nat.min_le_right _ _

theorem chunk_lengthSn :
    xdomainCopy (chunk xd route seq src offset) 2 =
      UInt32.ofNat (15 + (responseLen xd offset).toNat) |||
        snField (sequence (chunkRequest xd route seq src offset)).toUInt8 := by
  have hwords : (propertiesResponseSize + (responseLen xd offset).toNat * 4 -
      xdomainHeaderSize) / 4 = 15 + (responseLen xd offset).toNat := by
    simp only [propertiesResponseSize, xdomainHeaderSize]
    omega
  have hoffset := chunkRequest_offset xd route seq src offset
  rw [chunk_header (by omega) (by omega), ← hwords]
  simp only [responsePacket, hoffset]
  rfl

variable (xd route seq src offset) in
/-- The length field of a response does not count the XDomain header. -/
theorem chunk_length :
    (lengthField (xdomainCopy (chunk xd route seq src offset))).toNat =
      15 + (responseLen xd offset).toNat := by
  have hsmall := responseLen_small xd offset
  rw [lengthField, chunk_lengthSn, lengthSn_length (by omega)]
  exact UInt32.toNat_ofNat_of_lt' (by simp only [UInt32.size]; omega)

theorem chunk_sequence :
    sequence (xdomainCopy (chunk xd route seq src offset)) =
      sequence (chunkRequest xd route seq src offset) := by
  have hsmall := responseLen_small xd offset
  rw [sequence, chunk_lengthSn, lengthSn_sequence (by omega), chunkRequest_sequence, sequence_echo]

variable (xd route seq src offset) in
/-- The response of the responder matches the request. -/
theorem chunk_match :
    xdomainMatch (chunkRequest xd route seq src offset) .propertiesRequest responseSize
      (chunk xd route seq src offset) := by
  have hsmall := responseLen_small xd offset
  have hmaximum : propertiesMaxDataLength = 45 := rfl
  have hsize : (chunk xd route seq src offset).size = 72 + (responseLen xd offset).toNat * 4 := rfl
  have hcopy (i : ℕ) (hi : i < 18) : (chunk xd route seq src offset).buffer i =
      xdomainCopy (chunk xd route seq src offset) i := by
    have hreceived : 4 * i < (chunk xd route seq src offset).size := by omega
    rw [xdomainCopy, if_pos hreceived]
  have hpacket : packetSize (chunk xd route seq src offset).buffer =
      (chunk xd route seq src offset).size := by
    have hlength := chunk_length xd route seq src offset
    rw [lengthField, ← hcopy 2 (by omega)] at hlength
    rw [packetSize, lengthField, hlength, hsize, xdomainHeaderSize]
    omega
  have hsequence : sequence (chunk xd route seq src offset).buffer =
      sequence (chunkRequest xd route seq src offset) := by
    rw [← chunk_sequence, sequence, sequence, hcopy 2 (by omega)]
  have htype : typeField (chunk xd route seq src offset).buffer =
      XdpType.propertiesResponse.code := by
    rw [typeField, hcopy 7 (by omega)]
    exact chunk_type
  have hoffset : offsetField (chunk xd route seq src offset).buffer =
      offsetField (chunkRequest xd route seq src offset) := by
    rw [chunkRequest_offset, offsetField, hcopy 16 (by omega)]
    exact chunk_offset
  have huuid : protocolUuid (chunk xd route seq src offset).buffer =
      protocolUuid (chunkRequest xd route seq src offset) := rfl
  have hrouteHi : routeHi (chunk xd route seq src offset).buffer =
      routeHi (chunkRequest xd route seq src offset) := rfl
  have hrouteLo : routeLo (chunk xd route seq src offset).buffer =
      routeLo (chunkRequest xd route seq src offset) := rfl
  have hdiscovery : discoveryMatch (chunkRequest xd route seq src offset)
      (chunk xd route seq src offset) .propertiesRequest := by
    simp only [discoveryMatch, XdpType.response, XdpType.minSize, htype, hoffset, hsize, if_true,
      propertiesResponseSize]
    simp
  have hbounds : xdpHeaderSize ≤ (chunk xd route seq src offset).size ∧
      (chunk xd route seq src offset).size ≤ responseSize := by
    simp only [xdpHeaderSize, responseSize, propertiesResponseSize, hmaximum, hsize]
    omega
  have heof : (chunk xd route seq src offset).eof = .xdomainResp := rfl
  simp [xdomainMatch, heof, hbounds, hpacket, hsequence, huuid, hrouteHi, hrouteLo, hdiscovery]

end Fields

section Loop

variable {xd : LocalDomain} {route : UInt64} {seq : UInt8} {src : Uuid} {i o : ℕ} {p p' : Progress}

theorem lossless_await
    (hoffset : p.offset.toNat < xd.localPropertyBlock.length) :
    awaitChunk (lossless xd route) route seq src xd.localUuid i p =
      .ok (chunk xd route seq src p.offset) := by
  have harrives := lossless_arrivals xd route seq src p.offset hoffset i
  have hmatch := chunk_match xd route seq src p.offset
  have heof : (chunk xd route seq src p.offset).eof = .xdomainResp := rfl
  rw [chunkRequest] at harrives hmatch
  simp [awaitChunk, harrives, xdomainRequest, hmatch, heof]

def remaining (xd : LocalDomain) (p : Progress) : ℕ :=
  xd.localPropertyBlock.length - p.offset.toNat

def due (xd : LocalDomain) (p : Progress) : ℕ :=
  min (remaining xd p) propertiesMaxDataLength

def Held (xd : LocalDomain) (p : Progress) : Prop :=
  p.dataLen.toNat = xd.localPropertyBlock.length ∧
    ∃ d, p.data = some d ∧ ∀ j < p.offset.toNat, d j = xd.localPropertyBlock.getD j 0

def Wants (xd : LocalDomain) (p : Progress) : Prop :=
  p.offset.toNat < xd.localPropertyBlock.length ∧ (p = {} ∨ Held xd p)

/-- A chunk of fewer than three dwords is refused. -/
theorem turn_refused (hmax : xd.localPropertyBlock.length ≤ propertiesMaxLength)
    (hwants : Wants xd p) (hdue : due xd p < 3) (r : Frame × Progress) :
    turn (lossless xd route) route seq src xd.localUuid i p ≠ .ok r := by
  obtain ⟨pkg, p'⟩ := r
  rw [ne_eq, turn_ok, lossless_await hwants.1]
  rintro ⟨hpkg, haccept⟩
  cases hpkg
  obtain ⟨-, -, hlen, -, -⟩ := acceptChunk_ok.mp haccept
  have hdwords : (responseLen xd p.offset).toNat = due xd p := responseLen_toNat xd p.offset hmax
  rw [chunk_length] at hlen
  simp only [propertiesResponseSize] at hlen
  omega

variable (route seq src) in
/-- The first chunk fixes the length of the block; the later ones leave it. -/
theorem latch_held (hmax : xd.localPropertyBlock.length ≤ propertiesMaxLength)
    (hwants : Wants xd p) :
    ∃ q, latchLength true p (xdomainCopy (chunk xd route seq src p.offset)) = .ok q ∧
      q.offset = p.offset ∧ Held xd q := by
  obtain ⟨-, rfl | hheld⟩ := hwants
  · have hlength : (UInt16.ofNat xd.localPropertyBlock.length).toNat =
        xd.localPropertyBlock.length := by
      simp only [propertiesMaxLength] at hmax
      exact UInt16.toNat_ofNat_of_lt' (by simp only [UInt16.size]; omega)
    refine ⟨_, latchLength_ok.mpr ⟨?_, rfl, rfl⟩, rfl, ?_, _, rfl, ?_⟩
    · rw [chunk_dataLength, hlength]
      exact hmax
    · rw [chunk_dataLength, hlength]
    · intro j hj
      exact absurd hj (Nat.not_lt_zero j)
  · obtain ⟨-, d, hdata, -⟩ := id hheld
    refine ⟨p, latchLength_ok.mpr ?_, rfl, hheld⟩
    rw [hdata]
    rfl

variable (route seq src i) in
/-- A chunk of at least three dwords is taken, and the block is held up to its end. -/
theorem turn_taken (hmax : xd.localPropertyBlock.length ≤ propertiesMaxLength)
    (hwants : Wants xd p) (hdue : 3 ≤ due xd p) :
    ∃ p', turn (lossless xd route) route seq src xd.localUuid i p =
        .ok (chunk xd route seq src p.offset, p') ∧
      p'.offset.toNat = p.offset.toNat + due xd p ∧ Held xd p' := by
  obtain ⟨q, hlatch, hoffset, hlength, d, hdata, hprefix⟩ :=
    latch_held route seq src hmax hwants
  have hdwords : (responseLen xd p.offset).toNat = due xd p := responseLen_toNat xd p.offset hmax
  have hfield := chunk_length xd route seq src p.offset
  have hchunk : (chunkLen (xdomainCopy (chunk xd route seq src p.offset))).toNat = due xd p := by
    rw [chunkLen_toNat (by omega), hfield]
    omega
  have hnext : (copyChunk q (xdomainCopy (chunk xd route seq src p.offset))).offset.toNat =
      p.offset.toNat + due xd p := by
    have hfits : p.offset.toNat + due xd p ≤ xd.localPropertyBlock.length := by
      have hinside := hwants.1
      simp only [due, remaining]
      omega
    simp only [propertiesMaxLength] at hmax
    rw [copyChunk, UInt16.toNat_add, hchunk, hoffset]
    omega
  refine ⟨copyChunk q (xdomainCopy (chunk xd route seq src p.offset)), ?_, hnext, hlength, ?_⟩
  · rw [turn_ok, acceptChunk_ok]
    refine ⟨lossless_await hwants.1, ?_, chunk_ids, ?_, chunk_offset, q, hlatch, rfl⟩
    · rw [handleError, chunk_type]
      rfl
    · rw [hfield, propertiesResponseSize]
      omega
  · refine ⟨_, by rw [copyChunk, hdata, Option.map_some], fun j hj ↦ ?_⟩
    rw [hnext] at hj
    rw [hchunk, hoffset]
    split
    · next hcopied =>
      rw [chunk_data (by omega)]
      congr 1
      omega
    · next hkept => exact hprefix j (by rw [hoffset]; omega)

theorem Held.block (hheld : Held xd p) (hend : p.offset.toNat = xd.localPropertyBlock.length) :
    p.block = xd.localPropertyBlock := by
  obtain ⟨hlength, d, hdata, hwords⟩ := hheld
  rw [hend] at hwords
  apply List.ext_getElem
  · simp [Progress.block, hlength]
  · intro j hj hj'
    simp [Progress.block, hdata, hwords j hj', List.getElem?_eq_getElem hj']

theorem Held.more (hheld : Held xd p) (hpos : xd.localPropertyBlock.length ≠ 0) :
    p.more = true ↔ p.offset.toNat < xd.localPropertyBlock.length := by
  have hzero : p.dataLen ≠ 0 := by
    intro hzero
    have hlength := hheld.1
    rw [hzero] at hlength
    exact hpos hlength.symm
  simp [Progress.more, hzero, UInt16.lt_iff_toNat_lt, hheld.1]

theorem Wants.remaining_pos (hwants : Wants xd p) : 0 < remaining xd p :=
  Nat.sub_pos_of_lt hwants.1

/-- A chunk is taken from what remains; the loop goes on if it was not all. -/
theorem turn_remaining (hwants : Wants xd p) (hheld : Held xd p')
    (hnext : p'.offset.toNat = p.offset.toNat + due xd p) :
    remaining xd p' = remaining xd p - due xd p ∧
      (p'.more = true ↔ due xd p < remaining xd p) := by
  have hinside := hwants.1
  have hmore := hheld.more (by omega)
  rw [hmore]
  simp only [remaining]
  omega

/-- Enough turns read the block if no chunk is refused. -/
theorem loop_reads (hmax : xd.localPropertyBlock.length ≤ propertiesMaxLength) (turns : ℕ)
    (hwants : Wants xd p) (hturns : remaining xd p ≤ 45 * turns)
    (hone : remaining xd p % 45 ≠ 1) (htwo : remaining xd p % 45 ≠ 2) :
    (propertiesLoop (lossless xd route) route seq src xd.localUuid turns i p).result =
      some (.ok ⟨xd.localPropertyBlock, xd.localPropertyBlockGen⟩) := by
  induction turns generalizing i p with
  | zero =>
    have hpos := hwants.remaining_pos
    omega
  | succ turns ih =>
    have hpos := hwants.remaining_pos
    have hdue : due xd p = min (remaining xd p) 45 := rfl
    obtain ⟨p', hturn, hnext, hheld⟩ := turn_taken route seq src i hmax hwants (by omega)
    obtain ⟨hrest, hmore⟩ := turn_remaining hwants hheld hnext
    simp only [propertiesLoop, hturn]
    by_cases hlast : remaining xd p ≤ 45
    · have hend : p'.offset.toNat = xd.localPropertyBlock.length := by
        simp only [remaining] at *
        omega
      have hdone : ¬p'.more = true := by
        rw [hmore]
        omega
      rw [if_neg hdone, hheld.block hend, chunk_generation]
    · have hinside : p'.offset.toNat < xd.localPropertyBlock.length := by
        simp only [remaining] at *
        omega
      rw [if_pos (hmore.mpr (by omega))]
      exact ih ⟨hinside, .inr hheld⟩ (by omega) (by omega) (by omega)

/-- If the last chunk has one or two dwords, no number of turns reads the block. -/
theorem loop_fails (hmax : xd.localPropertyBlock.length ≤ propertiesMaxLength) (turns : ℕ)
    (hwants : Wants xd p) (hbad : remaining xd p % 45 = 1 ∨ remaining xd p % 45 = 2)
    (r : Properties) :
    (propertiesLoop (lossless xd route) route seq src xd.localUuid turns i p).result ≠
      some (.ok r) := by
  induction turns generalizing i p with
  | zero => simp [propertiesLoop]
  | succ turns ih =>
    have hdue : due xd p = min (remaining xd p) 45 := rfl
    simp only [propertiesLoop]
    by_cases hrefused : due xd p < 3
    · cases hturn : turn (lossless xd route) route seq src xd.localUuid i p with
      | error e => simp
      | ok taken => exact absurd hturn (turn_refused hmax hwants hrefused taken)
    · obtain ⟨p', hturn, hnext, hheld⟩ := turn_taken route seq src i hmax hwants (by omega)
      obtain ⟨hrest, hmore⟩ := turn_remaining hwants hheld hnext
      have hinside : p'.offset.toNat < xd.localPropertyBlock.length := by
        simp only [remaining] at *
        omega
      simp only [hturn, if_pos (hmore.mpr (by omega))]
      exact ih ⟨hinside, .inr hheld⟩ (by omega)

end Loop

/-- The requester reads back what the responder publishes, whatever the contents, if and only if the
last chunk of the block does not have one or two dwords. -/
theorem properties_read_back_iff (xd : LocalDomain) (route : UInt64) (seq : UInt8) (src : Uuid)
    (hlength : 1 ≤ xd.localPropertyBlock.length)
    (hmax : xd.localPropertyBlock.length ≤ propertiesMaxLength) :
    (∃ turns, (propertiesRequest (lossless xd route) route seq src xd.localUuid turns).result =
        some (.ok ⟨xd.localPropertyBlock, xd.localPropertyBlockGen⟩)) ↔
      xd.localPropertyBlock.length % propertiesMaxDataLength ≠ 1 ∧
        xd.localPropertyBlock.length % propertiesMaxDataLength ≠ 2 := by
  have hmaximum : propertiesMaxDataLength = 45 := rfl
  have hwants : Wants xd {} := ⟨hlength, .inl rfl⟩
  have hremaining : remaining xd {} = xd.localPropertyBlock.length := rfl
  rw [hmaximum, ← hremaining]
  constructor
  · rintro ⟨turns, hresult⟩
    by_contra hbad
    exact loop_fails hmax turns hwants (by omega) _ hresult
  · rintro ⟨hone, htwo⟩
    exact ⟨remaining xd {}, loop_reads hmax _ hwants (by omega) hone htwo⟩

theorem properties_read_back_four :
    ∃ turns, (propertiesRequest (lossless ⟨⟨1, 1, 1, 1⟩, 1, [5, 6, 7, 8], 9⟩ 3) 3 0 ⟨2, 2, 2, 2⟩
      ⟨1, 1, 1, 1⟩ turns).result = some (.ok ⟨[5, 6, 7, 8], 9⟩) :=
  (properties_read_back_iff ⟨⟨1, 1, 1, 1⟩, 1, [5, 6, 7, 8], 9⟩ 3 0 ⟨2, 2, 2, 2⟩
    (by decide) (by decide)).mpr (by decide)

theorem properties_read_back_refused :
    (propertiesRequest (lossless ⟨⟨1, 1, 1, 1⟩, 1, [5], 9⟩ 3) 3 0 ⟨2, 2, 2, 2⟩ ⟨1, 1, 1, 1⟩
      1).result = some (.error einval) := by
  decide +kernel

end ThunderboltStack.Xdomain
