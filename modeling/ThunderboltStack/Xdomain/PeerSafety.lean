import ThunderboltStack.Xdomain.Properties

/-!
# Property reads from an arbitrary peer

The requester against a sequence of packets with arbitrary fields.  It reads only what it received,
advances and ends as long as the packets carry no more than the first one announces.  Nothing in the
loop checks that they do.
-/

namespace ThunderboltStack.Xdomain

/-- The copies of a run stay in the block, read only received dwords and advance, and there are no
more of them than the block has dwords. -/
structure Exchange.Safe (x : Exchange) : Prop where
  inside : ∀ c ∈ x.copies, c.offset.toNat + c.len.toNat ≤ c.dataLen.toNat
  received : ∀ c ∈ x.copies, propertiesResponseSize + 4 * c.len.toNat ≤ c.pkg.size
  advances : ∀ c ∈ x.copies, c.offset < c.next
  bounded : ∀ c ∈ x.copies, x.copies.length ≤ c.dataLen.toNat

/-- The channel on which packet `i` answers the request of turn `i`. -/
def scripted (resAlloc blockAlloc : Bool) (peer : ℕ → Frame) : Channel where
  resAlloc := resAlloc
  blockAlloc := blockAlloc
  arrivals i _ := .ok [peer i]

def payload (pkg : Frame) : ℕ := (pkg.size - propertiesResponseSize) / 4

/-- The dwords of data in the first `n` packets. -/
def sent (peer : ℕ → Frame) : ℕ → ℕ
  | 0 => 0
  | n + 1 => sent peer n + payload (peer n)

def announced (peer : ℕ → Frame) : ℕ := (dataLengthField (peer 0).buffer).toNat

section Peer

variable (resAlloc blockAlloc : Bool) (peer : ℕ → Frame)
variable (route : UInt64) (seq : UInt8) (src dst : Uuid)

/-- The packet is a response to the request for `offset` that the requester takes. -/
def answers (offset : ℕ) (pkg : Frame) : Bool :=
  let res := xdomainCopy pkg
  xdomainMatch (propertiesPacket route seq src dst (.ofNat offset)) .propertiesRequest responseSize
      pkg &&
    pkg.eof != .error && (handleError res).isOk && propertiesIdsOk res src dst &&
    decide (propertiesResponseSize / 4 ≤ (lengthField res).toNat) &&
    offsetField res == .ofNat offset

/-- The requester gets as far as packet `n` and takes it. -/
def Reads : ℕ → Prop
  | 0 => resAlloc ∧ blockAlloc ∧ announced peer ≤ propertiesMaxLength ∧
      answers route seq src dst 0 (peer 0)
  | n + 1 => Reads n ∧ sent peer (n + 1) < announced peer ∧
      answers route seq src dst (sent peer (n + 1)) (peer (n + 1))

/-- The packets that are taken carry no more than the first one announces. -/
def Honest : Prop :=
  ∀ n, Reads resAlloc blockAlloc peer route seq src dst n → sent peer (n + 1) ≤ announced peer

end Peer

section Answers

variable {route : UInt64} {seq : UInt8} {src dst : Uuid} {offset : ℕ} {pkg : Frame}

theorem xdomainRequest_single {req : Words} {type : XdpType} {size : ℕ} {pkg' : Frame} :
    xdomainRequest req type size (.ok [pkg]) = .ok pkg' ↔
      pkg' = pkg ∧ xdomainMatch req type size pkg ∧ pkg.eof ≠ .error := by
  unfold xdomainRequest
  by_cases hmatch : xdomainMatch req type size pkg
  · by_cases heof : pkg.eof = .error <;> simp [hmatch, heof, eq_comm]
  · simp [hmatch]

theorem lengthField_copy (h : xdpHeaderSize ≤ pkg.size) :
    lengthField (xdomainCopy pkg) = lengthField pkg.buffer := by
  have hreceived : 4 * 2 < pkg.size := by
    simp only [xdpHeaderSize] at h
    omega
  simp only [lengthField, xdomainCopy, if_pos hreceived]

/-- A packet that is taken was received whole, and its length field says so. -/
theorem answers_size (h : answers route seq src dst offset pkg) :
    (chunkLen (xdomainCopy pkg)).toNat = payload pkg ∧ 3 ≤ payload pkg ∧
      pkg.size = propertiesResponseSize + 4 * payload pkg := by
  simp only [answers, Bool.and_eq_true, bne_iff_ne, decide_eq_true_eq] at h
  obtain ⟨⟨⟨⟨⟨hmatch, heof⟩, -⟩, -⟩, hlen⟩, -⟩ := h
  obtain ⟨hheader, -, hsize⟩ := xdomainRequest_ok (xdomainRequest_single.mpr ⟨rfl, hmatch, heof⟩)
  simp only [packetSize, xdomainHeaderSize] at hsize
  rw [lengthField_copy hheader] at hlen
  simp only [propertiesResponseSize] at hlen
  have hchunk := chunkLen_toNat (w := xdomainCopy pkg) (by rw [lengthField_copy hheader]; omega)
  rw [lengthField_copy hheader] at hchunk
  simp only [payload, propertiesResponseSize]
  omega

/-- A turn takes packet `i` if it answers the request, with what it does to the length of the
block. -/
theorem turn_scripted {resAlloc blockAlloc : Bool} {peer : ℕ → Frame} {i : ℕ} {p p' : Progress} :
    turn (scripted resAlloc blockAlloc peer) route seq src dst i p = .ok (pkg, p') ↔
      pkg = peer i ∧ answers route seq src dst p.offset.toNat (peer i) ∧
        ∃ q, latchLength blockAlloc p (xdomainCopy (peer i)) = .ok q ∧
          p' = copyChunk q (xdomainCopy (peer i)) := by
  simp only [turn_ok, awaitChunk, scripted, xdomainRequest_single, acceptChunk_ok]
  have hoffset : UInt16.ofNat p.offset.toNat = p.offset := UInt16.ofNat_toNat
  have herror : handleError (xdomainCopy (peer i)) = .ok () ↔
      (handleError (xdomainCopy (peer i))).isOk := by
    cases handleError (xdomainCopy (peer i)) <;> simp [Except.isOk, Except.toBool]
  constructor
  · rintro ⟨⟨rfl, hmatch, heof⟩, hhandle, hids, hlen, hfield, hlatch⟩
    refine ⟨rfl, ?_, hlatch⟩
    simp only [answers, Bool.and_eq_true, bne_iff_ne, decide_eq_true_eq, beq_iff_eq, hoffset]
    exact ⟨⟨⟨⟨⟨hmatch, heof⟩, herror.mp hhandle⟩, hids⟩, hlen⟩, hfield⟩
  · rintro ⟨rfl, hanswers, hlatch⟩
    simp only [answers, Bool.and_eq_true, bne_iff_ne, decide_eq_true_eq, beq_iff_eq,
      hoffset] at hanswers
    obtain ⟨⟨⟨⟨⟨hmatch, heof⟩, hhandle⟩, hids⟩, hlen⟩, hfield⟩ := hanswers
    exact ⟨⟨rfl, hmatch, heof⟩, herror.mpr hhandle, hids, hlen, hfield, hlatch⟩

theorem announced_copy {peer : ℕ → Frame} (h : answers route seq src dst offset (peer 0)) :
    (dataLengthField (xdomainCopy (peer 0))).toNat = announced peer := by
  obtain ⟨-, -, hsize⟩ := answers_size h
  have hreceived : 4 * 16 < (peer 0).size := by
    simp only [propertiesResponseSize] at hsize
    omega
  simp only [announced, dataLengthField, xdomainCopy, if_pos hreceived]

end Answers

section Loop

variable {resAlloc blockAlloc : Bool} {peer : ℕ → Frame}
variable {route : UInt64} {seq : UInt8} {src dst : Uuid} {n m : ℕ} {p p' : Progress} {pkg : Frame}

theorem Reads.answers (h : Reads resAlloc blockAlloc peer route seq src dst n) :
    answers route seq src dst (sent peer n) (peer n) := by
  cases n with
  | zero => exact h.2.2.2
  | succ n => exact h.2.2

theorem Reads.announced_le (h : Reads resAlloc blockAlloc peer route seq src dst n) :
    announced peer ≤ propertiesMaxLength := by
  induction n with
  | zero => exact h.2.2.1
  | succ n ih => exact ih h.1

theorem Reads.has_buffer (h : Reads resAlloc blockAlloc peer route seq src dst n) :
    resAlloc = true := by
  induction n with
  | zero => exact h.1
  | succ n ih => exact ih h.1

/-- A requester that gets to packet `n` has taken every packet before it and wanted more. -/
theorem Reads.of_lt (h : Reads resAlloc blockAlloc peer route seq src dst n) (hm : m < n) :
    Reads resAlloc blockAlloc peer route seq src dst m ∧ sent peer (m + 1) < announced peer := by
  induction n with
  | zero => omega
  | succ n ih =>
    by_cases hlast : m = n
    · subst hlast
      exact ⟨h.1, h.2.1⟩
    · exact ih h.1 (by omega)

variable (resAlloc blockAlloc peer route seq src dst) in
/-- The loop is at packet `n`: it has taken the packets before it and wants more. -/
def At : ℕ → Progress → Prop
  | 0, p => resAlloc ∧ p = {}
  | n + 1, p => Reads resAlloc blockAlloc peer route seq src dst n ∧
      sent peer (n + 1) < announced peer ∧ p.offset.toNat = sent peer (n + 1) ∧
      p.data.isSome ∧ p.dataLen.toNat = announced peer

theorem At.offset (h : At resAlloc blockAlloc peer route seq src dst n p) :
    p.offset.toNat = sent peer n := by
  cases n with
  | zero =>
    rw [h.2]
    rfl
  | succ n => exact h.2.2.1

/-- What a turn at packet `n` does: it takes the packet, and the block has the announced length. -/
theorem At.turn (h : At resAlloc blockAlloc peer route seq src dst n p)
    (hturn : turn (scripted resAlloc blockAlloc peer) route seq src dst n p = .ok (pkg, p')) :
    Reads resAlloc blockAlloc peer route seq src dst n ∧ pkg = peer n ∧
      p'.offset = p.offset + chunkLen (xdomainCopy (peer n)) ∧ p'.data.isSome ∧
      p'.dataLen.toNat = announced peer := by
  obtain ⟨rfl, hanswers, q, hlatch, rfl⟩ := turn_scripted.mp hturn
  rw [h.offset] at hanswers
  rw [latchLength_ok] at hlatch
  cases n with
  | zero =>
    obtain ⟨hres, rfl⟩ := h
    obtain ⟨hmax, halloc, rfl⟩ := hlatch
    have hannounced := announced_copy hanswers
    rw [hannounced] at hmax
    exact ⟨⟨hres, halloc, hmax, hanswers⟩, rfl, rfl, rfl, hannounced⟩
  | succ n =>
    obtain ⟨hreads, hwants, -, hdata, hlen⟩ := h
    rw [if_pos hdata] at hlatch
    subst hlatch
    have hdata' : (copyChunk q (xdomainCopy (peer (n + 1)))).data.isSome := by
      simpa [copyChunk] using hdata
    exact ⟨⟨hreads, hwants, hanswers⟩, rfl, rfl, hdata', hlen⟩

/-- A packet that answers is taken. -/
theorem At.turn_of_reads (h : At resAlloc blockAlloc peer route seq src dst n p)
    (hreads : Reads resAlloc blockAlloc peer route seq src dst n) :
    ∃ p', Xdomain.turn (scripted resAlloc blockAlloc peer) route seq src dst n p =
      .ok (peer n, p') := by
  have hanswers := hreads.answers
  rw [← h.offset] at hanswers
  suffices hlatch : ∃ q, latchLength blockAlloc p (xdomainCopy (peer n)) = .ok q by
    obtain ⟨q, hq⟩ := hlatch
    exact ⟨_, turn_scripted.mpr ⟨rfl, hanswers, q, hq, rfl⟩⟩
  cases n with
  | zero =>
    obtain ⟨-, rfl⟩ := h
    obtain ⟨-, halloc, hmax, -⟩ := hreads
    rw [← announced_copy hanswers] at hmax
    exact ⟨_, latchLength_ok.mpr ⟨hmax, halloc, rfl⟩⟩
  | succ n =>
    have hdata : p.data.isSome := h.2.2.2.1
    exact ⟨p, latchLength_ok.mpr (by rw [if_pos hdata])⟩

/-- The copy of packet `n` has the numbers that the packets say. -/
theorem At.copyOf (h : At resAlloc blockAlloc peer route seq src dst n p)
    (hturn : Xdomain.turn (scripted resAlloc blockAlloc peer) route seq src dst n p =
      .ok (pkg, p')) :
    let c := Xdomain.copyOf pkg p p'
    c.pkg = peer n ∧ c.offset.toNat = sent peer n ∧ c.len.toNat = payload (peer n) ∧
      c.dataLen.toNat = announced peer := by
  obtain ⟨hreads, rfl, -, -, hlen⟩ := h.turn hturn
  exact ⟨rfl, h.offset, (answers_size hreads.answers).1, hlen⟩

/-- While the packets carry no more than announced, the offset after a turn is what they carry. -/
theorem At.next (h : At resAlloc blockAlloc peer route seq src dst n p)
    (hturn : Xdomain.turn (scripted resAlloc blockAlloc peer) route seq src dst n p =
      .ok (pkg, p'))
    (hfits : sent peer (n + 1) ≤ announced peer) :
    p'.offset.toNat = sent peer (n + 1) := by
  obtain ⟨hreads, -, hoffset, -, -⟩ := h.turn hturn
  have hmax := hreads.announced_le
  have hlen := (answers_size hreads.answers).1
  simp only [propertiesMaxLength] at hmax
  simp only [sent] at hfits ⊢
  rw [hoffset, UInt16.toNat_add, h.offset, hlen]
  omega

/-- The loop goes on exactly while the packets carry less than announced. -/
theorem At.more (h : At resAlloc blockAlloc peer route seq src dst n p)
    (hturn : Xdomain.turn (scripted resAlloc blockAlloc peer) route seq src dst n p =
      .ok (pkg, p'))
    (hfits : sent peer (n + 1) ≤ announced peer) :
    p'.more = true ↔ sent peer (n + 1) < announced peer := by
  obtain ⟨hreads, -, -, -, hlen⟩ := h.turn hturn
  have hnext := h.next hturn hfits
  have hpayload := (answers_size hreads.answers).2.1
  have hsent : sent peer (n + 1) = sent peer n + payload (peer n) := rfl
  have hzero : p'.dataLen ≠ 0 := by
    intro hzero
    rw [hzero] at hlen
    simp at hlen
    omega
  simp [Progress.more, hzero, UInt16.lt_iff_toNat_lt, hnext, hlen]

theorem At.step (h : At resAlloc blockAlloc peer route seq src dst n p)
    (hturn : Xdomain.turn (scripted resAlloc blockAlloc peer) route seq src dst n p =
      .ok (pkg, p'))
    (hwants : sent peer (n + 1) < announced peer) :
    At resAlloc blockAlloc peer route seq src dst (n + 1) p' := by
  obtain ⟨hreads, -, -, hdata, hlen⟩ := h.turn hturn
  exact ⟨hreads, hwants, h.next hturn (Nat.le_of_lt hwants), hdata, hlen⟩

/-- The copy stays in a block of `d` dwords, reads received dwords and advances. -/
def Copy.Fits (d : ℕ) (c : Copy) : Prop :=
  c.offset.toNat + c.len.toNat ≤ c.dataLen.toNat ∧
    propertiesResponseSize + 4 * c.len.toNat ≤ c.pkg.size ∧ c.offset < c.next ∧
    c.dataLen.toNat = d

/-- The copy of a packet that carries no more than announced. -/
theorem At.fits (h : At resAlloc blockAlloc peer route seq src dst n p)
    (hturn : Xdomain.turn (scripted resAlloc blockAlloc peer) route seq src dst n p =
      .ok (pkg, p'))
    (hfits : sent peer (n + 1) ≤ announced peer) :
    (Xdomain.copyOf pkg p p').Fits (announced peer) := by
  obtain ⟨hreads, -⟩ := h.turn hturn
  obtain ⟨hpkg, hoffset, hlen, hdataLen⟩ := h.copyOf hturn
  obtain ⟨-, hpayload, hsize⟩ := answers_size hreads.answers
  have hnext : (Xdomain.copyOf pkg p p').next.toNat = sent peer (n + 1) := h.next hturn hfits
  have hsent : sent peer (n + 1) = sent peer n + payload (peer n) := rfl
  rw [Copy.Fits, UInt16.lt_iff_toNat_lt, hnext, hoffset, hlen, hdataLen, hpkg]
  omega

/-- The run from packet `n` on.  It takes at least one dword of the block with every packet, so the
dwords that are missing bound the packets and the turns. -/
theorem loop_safe (hhonest : Honest resAlloc blockAlloc peer route seq src dst) (turns : ℕ)
    (h : At resAlloc blockAlloc peer route seq src dst n p) :
    let x := propertiesLoop (scripted resAlloc blockAlloc peer) route seq src dst turns n p
    (∀ c ∈ x.copies, c.Fits (announced peer)) ∧
      (x.copies ≠ [] → sent peer n + x.copies.length ≤ announced peer) ∧
      (announced peer - sent peer n < turns → x.result ≠ none) := by
  induction turns generalizing n p with
  | zero => simp [propertiesLoop]
  | succ turns ih =>
    simp only [propertiesLoop]
    cases hturn : Xdomain.turn (scripted resAlloc blockAlloc peer) route seq src dst n p with
    | error e => simp
    | ok r =>
      obtain ⟨pkg, p'⟩ := r
      obtain ⟨hreads, -⟩ := h.turn hturn
      have hfits := hhonest n hreads
      have hcopy := h.fits hturn hfits
      have hpayload := (answers_size hreads.answers).2.1
      have hsent : sent peer (n + 1) = sent peer n + payload (peer n) := rfl
      by_cases hmore : p'.more
      · have hwants := (h.more hturn hfits).mp hmore
        obtain ⟨hcopies, hcount, hends⟩ := ih (h.step hturn hwants)
        simp only [hmore, if_true]
        refine ⟨fun c hc ↦ ?_, fun _ ↦ ?_, fun hturns ↦ hends (by omega)⟩
        · rcases List.mem_cons.mp hc with rfl | hrest
          · exact hcopy
          · exact hcopies c hrest
        · rw [List.length_cons]
          by_cases hempty : (propertiesLoop (scripted resAlloc blockAlloc peer) route seq src dst
              turns (n + 1) p').copies = []
          · rw [hempty, List.length_nil]
            omega
          · have hrest := hcount hempty
            omega
      · simp only [hmore]
        refine ⟨fun c hc ↦ ?_, fun _ ↦ ?_, by simp⟩
        · rw [List.mem_singleton.mp hc]
          exact hcopy
        · simp only [Bool.false_eq_true, if_false, List.length_singleton]
          omega

/-- A packet that the requester gets to is copied, as long as those before it fit. -/
theorem loop_copies (hreads : Reads resAlloc blockAlloc peer route seq src dst m) (hle : n ≤ m)
    (h : At resAlloc blockAlloc peer route seq src dst n p) :
    ∃ c ∈ (propertiesLoop (scripted resAlloc blockAlloc peer) route seq src dst
        (m - n + 1) n p).copies,
      c.offset.toNat = sent peer m ∧ c.len.toNat = payload (peer m) ∧
        c.dataLen.toNat = announced peer := by
  obtain ⟨d, rfl⟩ := Nat.exists_eq_add_of_le hle
  clear hle
  rw [Nat.add_sub_cancel_left]
  induction d generalizing n p with
  | zero =>
    obtain ⟨p', hturn⟩ := h.turn_of_reads hreads
    refine ⟨copyOf (peer n) p p', ?_, (h.copyOf hturn).2⟩
    simp only [propertiesLoop, hturn]
    split <;> simp
  | succ d ih =>
    obtain ⟨hfirst, hwants⟩ := hreads.of_lt (m := n) (by omega)
    obtain ⟨p', hturn⟩ := h.turn_of_reads hfirst
    have hmore := (h.more hturn (Nat.le_of_lt hwants)).mpr hwants
    have hindex : n + (d + 1) = n + 1 + d := by omega
    rw [hindex] at hreads ⊢
    obtain ⟨c, hc, hnumbers⟩ := ih (h.step hturn hwants) hreads
    refine ⟨c, ?_, hnumbers⟩
    rw [propertiesLoop]
    simp only [hturn, hmore, if_true]
    exact List.mem_cons_of_mem _ hc

end Loop

section Peer

variable (resAlloc blockAlloc : Bool) (peer : ℕ → Frame)
variable (route : UInt64) (seq : UInt8) (src dst : Uuid)

/-- Reading properties is safe against the packets of the peer, and ends, if and only if they carry
no more than the first one announces. -/
theorem property_read_safe_iff :
    (∀ turns, (propertiesRequest (scripted resAlloc blockAlloc peer) route seq src dst turns).Safe) ∧
        (∃ turns, (propertiesRequest (scripted resAlloc blockAlloc peer) route seq src dst
          turns).result ≠ none) ↔
      Honest resAlloc blockAlloc peer route seq src dst := by
  constructor
  · rintro ⟨hsafe, -⟩ n hreads
    have hres := hreads.has_buffer
    obtain ⟨c, hc, hoffset, hlen, hdataLen⟩ := loop_copies hreads (Nat.zero_le n) ⟨hres, rfl⟩
    have hrun : c ∈ (propertiesRequest (scripted resAlloc blockAlloc peer) route seq src dst
        (n - 0 + 1)).copies := by
      simp only [propertiesRequest, scripted, hres, if_true]
      subst hres
      exact hc
    have hinside := (hsafe _).inside c hrun
    rw [hoffset, hlen, hdataLen] at hinside
    exact hinside
  · intro hhonest
    cases hres : resAlloc with
    | false =>
      refine ⟨fun turns ↦ ?_, 0, by simp [propertiesRequest, scripted]⟩
      constructor <;> simp [propertiesRequest, scripted]
    | true =>
      subst hres
      have hloop := fun turns ↦ loop_safe hhonest turns (n := 0) ⟨rfl, rfl⟩
      refine ⟨fun turns ↦ ?_, announced peer + 1, ?_⟩
      · obtain ⟨hcopies, hcount, -⟩ := hloop turns
        refine ⟨fun c hc ↦ (hcopies c hc).1, fun c hc ↦ (hcopies c hc).2.1,
          fun c hc ↦ (hcopies c hc).2.2.1, fun c hc ↦ ?_⟩
        have hlength := hcount (List.ne_nil_of_mem hc)
        have hempty : sent peer 0 = 0 := rfl
        rw [hempty, Nat.zero_add] at hlength
        rw [(hcopies c hc).2.2.2]
        exact hlength
      · exact (hloop _).2.2 (by simp [sent])

end Peer

/-- A peer that answers every request with three dwords of data and announces a block of one. -/
def overstuffed : Frame where
  eof := .xdomainResp
  size := propertiesResponseSize + 4 * 3
  buffer i :=
    if i = 16 then 0x10000
    else responsePacket ⟨⟨1, 1, 1, 1⟩, 1, [1, 2, 3], 1⟩ 0
      (propertiesPacket 1 0 ⟨2, 2, 2, 2⟩ ⟨1, 1, 1, 1⟩ 0) i

/-- Its packet passes the checks, and three dwords are copied to a block of one. -/
theorem property_read_overruns :
    xdomainMatch (propertiesPacket 1 0 ⟨2, 2, 2, 2⟩ ⟨1, 1, 1, 1⟩ 0) .propertiesRequest responseSize
        overstuffed = true ∧
      propertiesIdsOk overstuffed.buffer ⟨2, 2, 2, 2⟩ ⟨1, 1, 1, 1⟩ = true ∧
      ∃ c ∈ (propertiesRequest (scripted true true fun _ ↦ overstuffed) 1 0 ⟨2, 2, 2, 2⟩
        ⟨1, 1, 1, 1⟩ 1).copies, c.dataLen.toNat < c.offset.toNat + c.len.toNat := by
  decide +kernel

end ThunderboltStack.Xdomain
