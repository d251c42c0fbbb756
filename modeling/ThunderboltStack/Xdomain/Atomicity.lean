import Mathlib.Data.Fin.VecNotation
import ThunderboltStack.Xdomain.Responder

/-!
# Reading properties while they change

Each chunk of a read is answered from the block the responder has at that moment.  The requester
takes the length of the block from the first answer and its generation from the last, and compares
neither in between.  What it returns was published at one moment exactly if the chunks are those of
the block that answered last.
-/

namespace ThunderboltStack.Xdomain

section Chunk

variable {xd : LocalDomain} {route : UInt64} {seq : UInt8} {src dst : Uuid} {alloc : Bool}
variable {p p' : Progress}

/-- What a chunk does to the variables of the loop, whatever block it is from. -/
theorem acceptChunk_chunk
    (haccept : acceptChunk alloc src dst p (xdomainCopy (chunk xd route seq src p.offset)) =
      .ok p') :
    (p.offset.toNat ≤ 500 →
        p'.offset.toNat = p.offset.toNat + (responseLen xd p.offset).toNat) ∧
      (p.data = none → p'.dataLen = .ofNat xd.localPropertyBlock.length ∧ p'.dataLen.toNat ≤ 500) ∧
      (p.data.isSome → p'.dataLen = p.dataLen) ∧
      ∃ d, p'.data = some d ∧
        (∀ j, p.offset.toNat ≤ j → j < p.offset.toNat + (responseLen xd p.offset).toNat →
          d j = xd.localPropertyBlock.getD j 0) ∧
        ∀ d₀, p.data = some d₀ → ∀ j < p.offset.toNat, d j = d₀ j := by
  obtain ⟨-, -, hlen, -, q, hlatch, rfl⟩ := acceptChunk_ok.mp haccept
  have hlength := chunk_length xd route seq src p.offset
  have hchunk : (chunkLen (xdomainCopy (chunk xd route seq src p.offset))).toNat =
      (responseLen xd p.offset).toNat := by
    rw [chunkLen_toNat (by omega), hlength]
    omega
  have hle := responseLen_small xd p.offset
  have hq : q.offset = p.offset ∧ (p.data.isSome → q = p) ∧
      (p.data = none → q.dataLen = .ofNat xd.localPropertyBlock.length ∧ q.dataLen.toNat ≤ 500 ∧
        q.data = some fun _ ↦ 0) := by
    rw [latchLength_ok] at hlatch
    cases hdata : p.data with
    | some d =>
      rw [hdata] at hlatch
      exact ⟨congrArg Progress.offset hlatch, fun _ ↦ hlatch, by simp⟩
    | none =>
      rw [hdata] at hlatch
      obtain ⟨hmax, -, rfl⟩ := hlatch
      exact ⟨rfl, by simp, fun _ ↦ ⟨chunk_dataLength, hmax, rfl⟩⟩
  obtain ⟨hoffset, hkept, hfirst⟩ := hq
  have hsome : ∃ d₁, q.data = some d₁ ∧ ∀ d₀, p.data = some d₀ → d₁ = d₀ := by
    cases hdata : p.data with
    | none => exact ⟨_, (hfirst hdata).2.2, by simp⟩
    | some d₀ =>
      rw [hkept (by rw [hdata]; rfl)]
      exact ⟨d₀, hdata, fun d h ↦ Option.some.inj h⟩
  obtain ⟨d₁, hd₁, hsame⟩ := hsome
  refine ⟨?_, fun h ↦ ⟨(hfirst h).1, (hfirst h).2.1⟩, ?_, _,
    by rw [copyChunk, hd₁, Option.map_some], ?_, ?_⟩
  · intro hsmall
    rw [copyChunk, UInt16.toNat_add, hchunk, hoffset]
    omega
  · intro h
    rw [copyChunk, hkept h]
  · intro j hj hj'
    rw [hoffset, hchunk, if_pos ⟨hj, hj'⟩, chunk_data (by omega)]
    congr 1
    omega
  · intro d₀ hd₀ j hj
    rw [hoffset, if_neg (by omega), hsame d₀ hd₀]

end Chunk

namespace Session

theorem offset_mono (s : Session) : Monotone s.offset :=
  monotone_nat_of_le_succ fun i ↦ by
    rw [offset]
    exact Nat.le_add_right _ _

/-- Every dword below the offset of turn `k` is in one chunk before it. -/
theorem exists_chunk (s : Session) {k j : ℕ} (hj : j < s.offset k) :
    ∃ l < k, s.offset l ≤ j ∧ j < s.offset (l + 1) := by
  induction k with
  | zero => cases hj
  | succ k ih =>
    rcases Nat.lt_or_ge j (s.offset k) with hlt | hge
    · obtain ⟨l, hl, hchunk⟩ := ih hlt
      exact ⟨l, Nat.lt_succ_of_lt hl, hchunk⟩
    · exact ⟨k, Nat.lt_succ_self k, hge, hj⟩

theorem opsUntil_prefix (s : Session) {i j : ℕ} (h : i ≤ j) : s.opsUntil i <+: s.opsUntil j := by
  induction j, h using Nat.le_induction with
  | base => exact List.prefix_rfl
  | succ j _ ih => exact ih.trans (List.prefix_append _ _)

section Turn

variable {s : Session} {route : UInt64} {seq : UInt8} {src : Uuid} {i : ℕ} {p p' : Progress}
variable {pkg : Frame}

/-- What arrives in a turn is the chunk of the block that answers. -/
theorem await_ok
    (h : awaitChunk (s.channel route) route seq src s.localUuid i p = .ok pkg) :
    p.offset.toNat < (s.block i).length ∧ pkg = chunk (s.xdomain i) route seq src p.offset := by
  have hreq : propertiesPacket route seq src s.localUuid p.offset =
      chunkRequest (s.xdomain i) route seq src p.offset := rfl
  have hdst : dstUuid (chunkRequest (s.xdomain i) route seq src p.offset) =
      (s.xdomain i).localUuid := rfl
  simp only [awaitChunk, hreq, channel] at h
  cases hdelivery : s.delivery i with
  | error e => simp [hdelivery, xdomainRequest] at h
  | ok delivered =>
    cases delivered with
    | false => simp [hdelivery, xdomainRequest] at h
    | true =>
      simp only [hdelivery, propertiesResponse, hdst, chunkRequest_offset, ne_eq, not_true_eq_false,
        if_false] at h
      by_cases hoffset : (s.xdomain i).localPropertyBlock.length ≤ p.offset.toNat
      · simp [hoffset, xdomainRequest] at h
      · refine ⟨Nat.not_le.mp hoffset, ?_⟩
        cases halloc : s.alloc i with
        | false => simp [hoffset, halloc, xdomainRequest] at h
        | true =>
          have hmatch := chunk_match (s.xdomain i) route seq src p.offset
          simp only [hoffset, halloc, if_false, Bool.not_true, Bool.false_eq_true] at h
          change xdomainRequest _ _ _ (.ok [chunk (s.xdomain i) route seq src p.offset]) = _ at h
          have heof : (chunk (s.xdomain i) route seq src p.offset).eof = .xdomainResp := rfl
          simpa [xdomainRequest, hmatch, heof, eq_comm] using h

/-- After the first turn: the length is that of the block that answered first, and each chunk is
from the block that answered its turn. -/
structure Latched (s : Session) (i : ℕ) (p : Progress) : Prop where
  length : p.dataLen = .ofNat (s.block 0).length
  short : p.dataLen.toNat ≤ 500
  chunks : ∃ d, p.data = some d ∧ (p.dataLen ≠ 0 → p.offset.toNat = s.offset i ∧
    ∀ l < i, ∀ j, s.offset l ≤ j → j < s.offset (l + 1) → d j = (s.block l).getD j 0)

/-- The loop at the start of turn `i`. -/
def At (s : Session) (i : ℕ) (p : Progress) : Prop :=
  i = 0 ∧ p = {} ∨ 0 < i ∧ s.Latched i p ∧ p.more = true

/-- A turn gets the chunk of its block and latches the length with the bytes so far. -/
theorem At.latched (hat : s.At i p)
    (hturn : turn (s.channel route) route seq src s.localUuid i p = .ok (pkg, p')) :
    s.Latched (i + 1) p' ∧ s.block i ≠ [] ∧
      pkg = chunk (s.xdomain i) route seq src p.offset := by
  obtain ⟨hawait, haccept⟩ := turn_ok.mp hturn
  obtain ⟨hinside, rfl⟩ := await_ok hawait
  have hne : s.block i ≠ [] := by
    intro hnil
    rw [hnil] at hinside
    exact Nat.not_lt_zero _ hinside
  refine ⟨?_, hne, rfl⟩
  obtain ⟨hnext, hfirst, hkept, d, hd, hchunk, hbefore⟩ := acceptChunk_chunk haccept
  rcases hat with ⟨rfl, rfl⟩ | ⟨hpos, hlatched, hmore⟩
  · obtain ⟨hlength, hshort⟩ := hfirst rfl
    refine ⟨hlength, hshort, d, hd, fun _ ↦ ⟨hnext (by decide), fun l hl j hj hj' ↦ ?_⟩⟩
    obtain rfl : l = 0 := by omega
    exact hchunk j (Nat.zero_le j) hj'
  · obtain ⟨d₀, hd₀, hchunks⟩ := hlatched.chunks
    have hlen : p'.dataLen = p.dataLen := hkept (by rw [hd₀]; rfl)
    refine ⟨hlen ▸ hlatched.length, hlen ▸ hlatched.short, d, hd, fun hzero ↦ ?_⟩
    rw [hlen] at hzero
    obtain ⟨hoffset, hold⟩ := hchunks hzero
    have hshort := hlatched.short
    simp only [Progress.more, Bool.or_eq_true, beq_iff_eq, hzero, false_or, decide_eq_true_eq,
      UInt16.lt_iff_toNat_lt] at hmore
    have hadvance : s.offset (i + 1) = s.offset i + (responseLen (s.xdomain i) p.offset).toNat := by
      rw [offset, ← hoffset, UInt16.ofNat_toNat]
    have hstep := hnext (by omega)
    refine ⟨by omega, fun l hl j hj hj' ↦ ?_⟩
    rcases Nat.lt_succ_iff_lt_or_eq.mp hl with hlt | rfl
    · -- an earlier chunk lies below the offset
      have hbelow : s.offset (l + 1) ≤ s.offset i := s.offset_mono hlt
      rw [hbefore d₀ hd₀ j (by omega)]
      exact hold l hlt j hj hj'
    · exact hchunk j (by omega) (by omega)

end Turn

section Loop

variable {s : Session} {route : UInt64} {seq : UInt8} {src : Uuid} {i n : ℕ} {p : Progress}
variable {r : Properties}

/-- A read that ends with the turn after `n` more. -/
theorem loop_ok (hat : s.At i p)
    (hnone : (propertiesLoop (s.channel route) route seq src s.localUuid n i p).result = none)
    (hok : (propertiesLoop (s.channel route) route seq src s.localUuid (n + 1) i p).result =
      some (.ok r)) :
    ∃ p', s.Latched (i + n + 1) p' ∧ p'.more = false ∧ s.block (i + n) ≠ [] ∧
      r = ⟨p'.block, (s.answering (i + n)).blockGen⟩ := by
  induction n generalizing i p with
  | zero =>
    rw [propertiesLoop] at hok
    cases hturn : turn (s.channel route) route seq src s.localUuid i p with
    | error e => simp [hturn] at hok
    | ok taken =>
      obtain ⟨pkg, p'⟩ := taken
      obtain ⟨hlatched, hne, rfl⟩ := hat.latched hturn
      cases hmore : p'.more with
      | true => simp [hturn, hmore, propertiesLoop] at hok
      | false =>
        simp only [hturn, hmore, Bool.false_eq_true, if_false, chunk_generation, Option.some.injEq,
          Except.ok.injEq] at hok
        exact ⟨p', hlatched, hmore, hne, hok.symm⟩
  | succ n ih =>
    rw [propertiesLoop] at hnone hok
    cases hturn : turn (s.channel route) route seq src s.localUuid i p with
    | error e => simp [hturn] at hok
    | ok taken =>
      obtain ⟨pkg, p'⟩ := taken
      obtain ⟨hlatched, -, -⟩ := hat.latched hturn
      cases hmore : p'.more with
      | false => simp [hturn, hmore] at hnone
      | true =>
        simp only [hturn, hmore, if_true] at hnone hok
        have hnext : s.At (i + 1) p' := .inr ⟨Nat.succ_pos i, hlatched, hmore⟩
        have hrest := ih hnext hnone hok
        rw [Nat.add_right_comm i 1 n] at hrest
        exact hrest

/-- The chunks of a finished read make up the block. -/
theorem Latched.block_eq_iff {k : ℕ} (h : s.Latched (k + 1) p) (hmore : p.more = false) :
    p.block = s.block k ↔ s.Coherent k := by
  obtain ⟨d, hd, hchunks⟩ := h.chunks
  simp only [Progress.more, Bool.or_eq_false_iff, beq_eq_false_iff_ne, decide_eq_false_iff_not,
    UInt16.lt_iff_toNat_lt, Nat.not_lt] at hmore
  obtain ⟨hoffset, hwords⟩ := hchunks hmore.1
  have hlength : p.dataLen.toNat = (UInt16.ofNat (s.block 0).length).toNat := by rw [h.length]
  have hblock : p.block = (List.range p.dataLen.toNat).map d := by
    rw [Progress.block, hd]
    rfl
  constructor
  · intro heq
    have hlen : p.dataLen.toNat = (s.block k).length := by
      rw [← heq, hblock, List.length_map, List.length_range]
    refine ⟨by omega, fun l hl j hj hj' hjk ↦ ?_⟩
    rw [← hwords l (by omega) j hj hj', ← heq, hblock]
    simp [List.getD_eq_getElem?_getD, List.getElem?_range (by omega : j < p.dataLen.toNat)]
  · rintro ⟨hfirst, hagree⟩
    apply List.ext_getElem
    · rw [hblock, List.length_map, List.length_range]
      omega
    · intro j hj hj'
      obtain ⟨l, hl, hlj, hjl⟩ := s.exists_chunk (k := k + 1) (j := j) (by
        rw [hblock, List.length_map, List.length_range] at hj
        omega)
      have hword := hagree l (by omega) j hlj hjl hj'
      rw [← hwords l hl j hlj hjl] at hword
      simp only [hblock, List.getElem_map, List.getElem_range, hword]
      simp [List.getD_eq_getElem?_getD, List.getElem?_eq_getElem hj']

end Loop

/-- A block was published with the generation of turn `k` exactly if it is the block of turn `k`. -/
theorem published_iff (s : Session) {k : ℕ} (hne : s.block k ≠ []) (block : List UInt32) :
    s.Published ⟨block, (s.answering k).blockGen⟩ ↔ block = s.block k := by
  have hnow : (s.answering k).block = some (s.block k) := by
    cases hblock : (s.answering k).block with
    | none => exact absurd (by simp [Session.block, xdomain, hblock]) hne
    | some b => simp [Session.block, xdomain, hblock]
  constructor
  · rintro ⟨i, ops, hstart, hblock, hgen⟩
    have hops : ops <+: s.opsUntil (max i k) := hstart.trans (s.opsUntil_prefix (le_max_left i k))
    have hk : s.opsUntil k <+: s.opsUntil (max i k) := s.opsUntil_prefix (le_max_right i k)
    have hsame : (s.answering k).block = (s.initial.run s.maxHopId ops).block := by
      rcases List.prefix_or_prefix_of_prefix hops hk with hbefore | hafter
      · exact Responder.block_of_blockGen s.maxHopId hbefore (by rw [hblock]; rfl) hgen.symm
      · have hsome : (s.answering k).block.isSome := by rw [hnow]; rfl
        exact (Responder.block_of_blockGen s.maxHopId hafter hsome hgen).symm
    rw [hnow, hblock] at hsame
    exact (Option.some.inj hsame).symm
  · rintro rfl
    exact ⟨k, s.opsUntil k, List.prefix_rfl, hnow, rfl⟩

end Session

/-- A read of `k + 1` chunks returns what was published at one moment if and only if its chunks are
chunks of the block that answers the last request, with the length of that block. -/
theorem property_read_atomic_iff (s : Session) (route : UInt64) (seq : UInt8) (src : Uuid) (k : ℕ)
    (r : Properties)
    (hmore : (propertiesRequest (s.channel route) route seq src s.localUuid k).result = none)
    (hok : (propertiesRequest (s.channel route) route seq src s.localUuid (k + 1)).result =
      some (.ok r)) :
    s.Published r ↔ s.Coherent k := by
  have halloc : (s.channel route).resAlloc = true := by
    cases hres : (s.channel route).resAlloc with
    | true => rfl
    | false => simp [propertiesRequest, hres] at hok
  simp only [propertiesRequest, halloc, if_true] at hmore hok
  obtain ⟨p, hlatched, hdone, hne, rfl⟩ := Session.loop_ok (.inl ⟨rfl, rfl⟩) hmore hok
  rw [Nat.zero_add] at hlatched hne ⊢
  rw [s.published_iff hne]
  exact hlatched.block_eq_iff hdone

/-- Values, and a directory with the key `a` behind them. -/
def sampleProps : ℕ → PropertyBlock.Props
  | 0 => .dir ⟨[0x61], by decide, by decide⟩ (some ![1, 2, 3, 4]) .nil .nil
  | n + 1 => .leaf ⟨[0x76], by decide, by decide⟩ (.immediate 7) (sampleProps n)

/-- A block of 56 dwords is read in two chunks, and `ops` happens between them. -/
def sampleSession (ops : List ResponderOp) : Session where
  localUuid := ⟨1, 1, 1, 1⟩
  localRoute := 1
  maxHopId := 11
  initial := ⟨⟨none, sampleProps 9⟩, 1, none, 0⟩
  ops i := if i = 1 then ops else []
  nodename _ := ⟨[0x68], by decide⟩
  mem _ := {}
  alloc _ := true
  delivery _ := .ok true
  resAlloc := true
  blockAlloc := true

/-- A new generation of the same properties in the middle of a read does no harm. -/
theorem property_read_atomic_reannounced :
    ∃ r, (propertiesRequest ((sampleSession [.reannounce]).channel 3) 3 0 ⟨2, 2, 2, 2⟩ ⟨1, 1, 1, 1⟩
        2).result = some (.ok r) ∧ (sampleSession [.reannounce]).Published r := by
  have hsame : (sampleSession [.reannounce]).block 0 = (sampleSession [.reannounce]).block 1 := by
    decide +kernel
  have hlength : ((sampleSession [.reannounce]).block 0).length = 56 := by
    decide +kernel
  have hmore : (propertiesRequest ((sampleSession [.reannounce]).channel 3) 3 0 ⟨2, 2, 2, 2⟩
      ⟨1, 1, 1, 1⟩ 1).result = none := by
    decide +kernel
  have hok : (propertiesRequest ((sampleSession [.reannounce]).channel 3) 3 0 ⟨2, 2, 2, 2⟩
      ⟨1, 1, 1, 1⟩ 2).result = some (.ok ⟨(sampleSession [.reannounce]).block 0, 2⟩) := by
    decide +kernel
  refine ⟨_, hok, (property_read_atomic_iff _ 3 0 ⟨2, 2, 2, 2⟩ 1 _ hmore hok).mpr ⟨?_, ?_⟩⟩
  · rw [← hsame, hlength]
    decide
  · intro i hi j _ _ _
    have hcases : i = 0 ∨ i = 1 := by omega
    rcases hcases with rfl | rfl
    · rw [hsame]
    · rfl

def replaceOps : List ResponderOp :=
  [.unregister ⟨[0x61], by decide⟩ true,
    .register ⟨[0x62], by decide⟩ ⟨some ![1, 2, 3, 4], .nil⟩ true]

/-- The read returns the properties of generation 1 and says that they are those of generation 3. -/
theorem property_read_mislabelled :
    (propertiesRequest ((sampleSession replaceOps).channel 3) 3 0 ⟨2, 2, 2, 2⟩ ⟨1, 1, 1, 1⟩
        2).result = some (.ok ⟨(sampleSession replaceOps).block 0, 3⟩) ∧
      ((sampleSession replaceOps).answering 0).blockGen = 1 ∧
      ¬ (sampleSession replaceOps).Published ⟨(sampleSession replaceOps).block 0, 3⟩ := by
  have hdiffer : (sampleSession replaceOps).block 0 ≠ (sampleSession replaceOps).block 1 := by
    decide +kernel
  have hne : (sampleSession replaceOps).block 1 ≠ [] := by
    decide +kernel
  have hgen : ((sampleSession replaceOps).answering 1).blockGen = 3 := by
    decide +kernel
  refine ⟨by decide +kernel, by decide +kernel, ?_⟩
  rw [← hgen, Session.published_iff _ hne]
  exact hdiffer

end ThunderboltStack.Xdomain
