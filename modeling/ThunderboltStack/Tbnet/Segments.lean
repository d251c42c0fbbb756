import ThunderboltStack.Tbnet.Poll
import Mathlib.Data.List.Flatten

/-!
# From skb to skb

The frames of a packet put together again by the receiver are the packet.  With frame identifiers
the receiver does not join frames of two packets, whatever an ordered channel loses.
-/

namespace ThunderboltStack.Tbnet

def payload (fs : List Frame) : List UInt8 := (fs.map Frame.data).flatten

def Counted (frameId count : ℕ) (fs : List Frame) : Prop :=
  ∀ (i : ℕ) (f : Frame), fs[i]? = some f →
    f.hdr = { frameSize := f.data.length, frameIndex := i, frameId, frameCount := count } ∧
      0 < f.data.length ∧ f.fullSize = f.data.length + headerSize

structure IsPacket (id : ℕ) (fs : List Frame) : Prop where
  pos : 0 < fs.length
  count : fs.length ≤ maxSkbFrags + 1
  total : (payload fs).length ≤ maxMtu
  counted : Counted id fs.length fs

/-- A packet that the stack gives to the driver. -/
structure Skb.Valid (skb : Skb) : Prop where
  len : skb.len = skb.bytes.length
  pos : 0 < skb.len
  le : skb.len ≤ maxMtu

/-! ## Cutting a packet into frames -/

theorem fillFrame_spec {src : List UInt8} {frags : List (List UInt8)} {n : ℕ}
    (h : n < (src ++ frags.flatten).length) :
    ∃ data src' frags', fillFrame src frags n = some (data, src', frags') ∧ data.length = n ∧
      data ++ (src' ++ frags'.flatten) = src ++ frags.flatten := by
  induction frags generalizing src n with
  | nil =>
    have hlen : n < src.length := by simpa using h
    refine ⟨src.take n, src.drop n, [], ?_, by simp; omega, by simp⟩
    simp [fillFrame, hlen]
  | cons frag frags ih =>
    unfold fillFrame
    by_cases hlen : n < src.length
    · refine ⟨src.take n, src.drop n, frag :: frags, by simp [hlen], by simp; omega, ?_⟩
      rw [← List.append_assoc, List.take_append_drop]
    · by_cases hmore : src.length < n
      · have hrest : n - src.length < (frag ++ frags.flatten).length := by
          simp only [List.flatten_cons, List.length_append] at h ⊢
          omega
        obtain ⟨data, src', frags', heq, hdata, hall⟩ := ih hrest
        refine ⟨src ++ data, src', frags', by simp [hlen, hmore, heq], by simp; omega, ?_⟩
        rw [List.append_assoc, hall, List.flatten_cons]
      · refine ⟨src, frag, frags, by simp [hlen, hmore], by omega, ?_⟩
        rw [List.flatten_cons]

/-- The last loop copies what is left of the packet. -/
theorem fillLast_spec {src : List UInt8} {frags : List (List UInt8)} {n : ℕ}
    (h : n = (src ++ frags.flatten).length) :
    fillLast src frags n = some (src ++ frags.flatten) := by
  induction frags generalizing src n with
  | nil =>
    have hlen : n = src.length := by simpa using h
    simp [fillLast, hlen]
  | cons frag frags ih =>
    have hn : n = src.length + (frag ++ frags.flatten).length := by
      simpa [List.flatten_cons, List.length_append] using h
    unfold fillLast
    by_cases hlen : src.length < n
    · have hrest : fillLast frag frags (n - src.length) = some (frag ++ frags.flatten) :=
        ih (by omega)
      simp [hlen, hrest]
    · have hnil : frag ++ frags.flatten = [] := List.eq_nil_of_length_eq_zero (by omega)
      rw [if_neg hlen]
      simp only [List.flatten_cons, hnil, List.append_nil]
      rw [List.take_of_length_le (by omega)]

theorem Counted.append {frameId count : ℕ} {fs : List Frame} {f : Frame}
    (h : Counted frameId count fs)
    (hhdr : f.hdr = { frameSize := f.data.length, frameIndex := fs.length, frameId
                      frameCount := count })
    (hpos : 0 < f.data.length) (hsize : f.fullSize = f.data.length + headerSize) :
    Counted frameId count (fs ++ [f]) := by
  intro i g hg
  rcases Nat.lt_or_ge i fs.length with hlt | hge
  · rw [List.getElem?_append_left hlt] at hg
    exact h i g hg
  · rw [List.getElem?_append_right hge] at hg
    have hi : i = fs.length := by
      by_contra hne
      rw [List.getElem?_eq_none (by simp; omega)] at hg
      cases hg
    subst hi
    simp only [Nat.sub_self, List.getElem?_cons_zero, Option.some.injEq] at hg
    subst hg
    exact ⟨hhdr, hpos, hsize⟩

@[simp]
theorem payload_append (fs gs : List Frame) : payload (fs ++ gs) = payload fs ++ payload gs := by
  simp [payload]

@[simp]
theorem payload_singleton (f : Frame) : payload [f] = f.data := by
  simp [payload]

/-- `DIV_ROUND_UP(len, TBNET_MAX_PAYLOAD_SIZE)`. -/
def nframes (len : ℕ) : ℕ := (len + (maxPayloadSize - 1)) / maxPayloadSize

/-- The loops copy every byte of a packet once, in order. -/
theorem Cursor.fill_spec (frameId : ℕ) {c : Cursor}
    (hlen : c.dataLen = (c.src ++ c.frags.flatten).length) (hpos : 0 < c.dataLen)
    (hcut : Counted (frameId % 65536) 0 c.frames) :
    ∃ fs, c.fill frameId = some fs ∧ Counted (frameId % 65536) 0 fs ∧
      payload fs = payload c.frames ++ (c.src ++ c.frags.flatten) ∧
      fs.length = c.frames.length + nframes c.dataLen := by
  induction hn : c.dataLen using Nat.strong_induction_on generalizing c with
  | _ n ih =>
    subst hn
    by_cases hlong : maxPayloadSize < c.dataLen
    · -- a full frame, and the rest
      obtain ⟨data, src', frags', hfill, hdata, hall⟩ := fillFrame_spec (hlen ▸ hlong)
      have hrest := congrArg List.length hall
      simp only [List.length_append] at hlen hrest
      obtain ⟨c', hnext, hc'⟩ : ∃ c', c.next frameId = some c' ∧ c' =
          { src := src', frags := frags', dataLen := c.dataLen - maxPayloadSize
            frames := c.frames ++
              [{ size := 0, data
                 hdr :=
                  { frameSize := maxPayloadSize, frameIndex := c.frames.length
                    frameId := frameId % 65536, frameCount := 0 } }] } :=
        ⟨_, by simp [next, hfill], rfl⟩
      have hcut' : Counted (frameId % 65536) 0 c'.frames := by
        rw [hc']
        apply hcut.append
        · simp [hdata]
        · rw [hdata]
          decide
        · rw [hdata]
          rfl
      have hlen' : c'.dataLen = (c'.src ++ c'.frags.flatten).length := by
        simp only [hc', List.length_append]
        omega
      have hless : c'.dataLen < c.dataLen := by
        simp only [hc', maxPayloadSize] at hlong ⊢
        omega
      have hpos' : 0 < c'.dataLen := by
        simp only [hc']
        omega
      obtain ⟨fs, hfs, hcutfs, hpayload, hcount⟩ := ih _ hless hlen' hpos' hcut' rfl
      refine ⟨fs, (fill_of_next hlong hnext).trans hfs, hcutfs, ?_, ?_⟩
      · rw [hpayload, hc']
        simp [hall]
      · rw [hcount, hc']
        simp only [List.length_append, List.length_singleton, nframes, maxPayloadSize] at hlong ⊢
        omega
    · have hlast := fillLast_spec hlen
      refine ⟨_, (fill_of_last hlong).trans (by rw [last, hlast]; rfl), ?_, by simp, ?_⟩
      · apply hcut.append
        · simp [hlen]
        · simpa [hlen] using hpos
        · -- twelve bits hold the size, and a frame of 4096 bytes has size zero
          unfold Frame.fullSize
          split
          · next hfull =>
            simp only [frameSize, headerSize, maxPayloadSize] at hfull hlong ⊢
            omega
          · next hfull =>
            simp only [headerSize, maxPayloadSize] at hfull hlong ⊢
            omega
      · simp only [List.length_append, List.length_singleton, nframes, maxPayloadSize] at hlong ⊢
        omega

/-! ## Checksums -/

/-- The bytes of a packet that `tbnet_xmit_csum_and_map` fills in. -/
def Skb.checksumBytes (skb : Skb) : List ℕ :=
  if skb.needsCsum then
    match skb.csumPlan with
    | none => []
    | some plan => (plan.ipcso.toList ++ [plan.tucso]).flatMap fun off ↦ [off, off + 1]
  else []

/-- Two buffers that differ in some bytes at most. -/
structure SameBut (offs : List ℕ) (bytes bytes' : List UInt8) : Prop where
  length : bytes'.length = bytes.length
  byte : ∀ i ∉ offs, bytes'[i]? = bytes[i]?

namespace SameBut

variable {offs : List ℕ} {bytes bytes' bytes'' : List UInt8}

theorem refl (offs : List ℕ) (bytes : List UInt8) : SameBut offs bytes bytes := ⟨rfl, fun _ _ ↦ rfl⟩

theorem trans (h : SameBut offs bytes bytes') (h' : SameBut offs bytes' bytes'') :
    SameBut offs bytes bytes'' :=
  ⟨h'.length.trans h.length, fun i hi ↦ (h'.byte i hi).trans (h.byte i hi)⟩

theorem write16 (bytes : List UInt8) {off : ℕ} (value : ℕ) (h : off ∈ offs) (h' : off + 1 ∈ offs) :
    SameBut offs bytes (write16 bytes off value) where
  length := by simp [Tbnet.write16]
  byte i hi := by
    have hne : off ≠ i := fun heq ↦ hi (heq ▸ h)
    have hne' : off + 1 ≠ i := fun heq ↦ hi (heq ▸ h')
    simp [Tbnet.write16, List.getElem?_set_ne hne, List.getElem?_set_ne hne']

theorem append (h : SameBut offs bytes bytes') (rest : List UInt8) :
    SameBut offs (bytes ++ rest) (bytes' ++ rest) where
  length := by simp [h.length]
  byte i hi := by
    rcases Nat.lt_or_ge i bytes.length with hlt | hge
    · rw [List.getElem?_append_left hlt, List.getElem?_append_left (h.length ▸ hlt)]
      exact h.byte i hi
    · rw [List.getElem?_append_right hge, List.getElem?_append_right (h.length ▸ hge), h.length]

end SameBut

theorem Skb.fillIpCsum_spec (skb : Skb) {plan : CsumPlan} {offs : List ℕ} (data : List UInt8)
    (h : ∀ off, plan.ipcso = some off → off ∈ offs ∧ off + 1 ∈ offs) :
    SameBut offs data (skb.fillIpCsum plan data) := by
  unfold fillIpCsum
  split
  · exact .refl _ _
  · next off hoff =>
    obtain ⟨h0, h1⟩ := h off hoff
    exact (SameBut.write16 data 0 h0 h1).trans (SameBut.write16 _ _ h0 h1)

theorem Skb.fillTransportCsum_spec (skb : Skb) {plan : CsumPlan} {offs : List ℕ}
    (data : List UInt8) (rest : List (List UInt8)) (h : plan.tucso ∈ offs)
    (h' : plan.tucso + 1 ∈ offs) : SameBut offs data (skb.fillTransportCsum plan data rest) :=
  (SameBut.write16 data _ h h').trans (SameBut.write16 _ _ h h')

theorem Counted.countFrames {frameId : ℕ} {fs : List Frame} (h : Counted frameId 0 fs) :
    Counted frameId fs.length (Skb.countFrames fs) := by
  intro i f hf
  rw [Skb.countFrames, List.getElem?_map] at hf
  obtain ⟨g, hg, rfl⟩ := Option.map_eq_some_iff.1 hf
  obtain ⟨hhdr, hpos, hsize⟩ := h i g hg
  exact ⟨by simp [hhdr], hpos, hsize⟩

theorem payload_countFrames (fs : List Frame) : payload (Skb.countFrames fs) = payload fs := by
  simp [payload, Skb.countFrames, Function.comp_def]

/-- The frames get their number, and the checksums are filled in. -/
theorem Skb.csumAndMap_spec (skb : Skb) {frameId : ℕ} {fs fs' : List Frame}
    (hcut : Counted (frameId % 65536) 0 fs) (h : skb.csumAndMap fs = some fs') :
    fs'.length = fs.length ∧ SameBut skb.checksumBytes (payload fs) (payload fs') ∧
      Counted (frameId % 65536) fs.length fs' := by
  have hcounted := hcut.countFrames
  have hlength : (countFrames fs).length = fs.length := by simp [countFrames]
  unfold csumAndMap at h
  split at h
  · next hneeds =>
    obtain ⟨plan, hplan, h⟩ := Option.bind_eq_some_iff.1 h
    split at h
    · cases h
    · next first rest hfs =>
      obtain rfl := Option.some.inj h
      rw [hfs] at hcounted hlength
      have hoffs : skb.checksumBytes =
          (plan.ipcso.toList ++ [plan.tucso]).flatMap fun off ↦ [off, off + 1] := by
        simp [checksumBytes, hneeds, hplan]
      have hdata : SameBut skb.checksumBytes first.data (skb.fillTransportCsum plan
          (skb.fillIpCsum plan first.data) (rest.map Frame.data)) := by
        apply (skb.fillIpCsum_spec first.data ?_).trans (skb.fillTransportCsum_spec _ _ ?_ ?_)
        · intro off hoff
          simp [hoffs, hoff]
        · simp [hoffs]
        · simp [hoffs]
      refine ⟨hlength, ?_, ?_⟩
      · rw [← payload_countFrames fs, hfs]
        exact hdata.append (payload rest)
      · intro i f hf
        cases i with
        | zero =>
          obtain ⟨hhdr, hpos, hsize⟩ := hcounted 0 first rfl
          obtain rfl := Option.some.inj hf
          simp only [hdata.length]
          exact ⟨hhdr, hpos, hsize⟩
        | succ i => exact hcounted (i + 1) f hf
  · obtain rfl := Option.some.inj h
    exact ⟨hlength, payload_countFrames fs ▸ .refl _ _, hcounted⟩

/-- The frames of a packet of at most 65536 bytes. -/
theorem Skb.xmitFrames_spec {skb : Skb} (hvalid : skb.Valid) {frameId : ℕ} {fs : List Frame}
    (h : skb.xmitFrames frameId = some fs) :
    IsPacket (frameId % 65536) fs ∧ SameBut skb.checksumBytes skb.bytes (payload fs) := by
  obtain ⟨cut, hcut, hmap⟩ := Option.bind_eq_some_iff.1 h
  obtain ⟨cut', hcut', hgood, hpayload, hcount⟩ := Cursor.fill_spec frameId (c := skb.cursor)
    hvalid.len hvalid.pos (by simp [Counted, cursor])
  obtain rfl : cut = cut' := Option.some.inj (hcut.symm.trans hcut')
  obtain ⟨hlength, hsame, hcounted⟩ := skb.csumAndMap_spec hgood hmap
  have hbytes : payload cut = skb.bytes := by simpa [cursor, payload, bytes] using hpayload
  have hframes : fs.length = nframes skb.len := by simpa [cursor, hlength] using hcount
  have hpos := hvalid.pos
  have hle := hvalid.le
  rw [hbytes] at hsame
  refine ⟨⟨?_, ?_, ?_, ?_⟩, hsame⟩
  · simp only [hframes, nframes, maxPayloadSize]
    omega
  · simp only [hframes, nframes, maxPayloadSize, maxSkbFrags, maxMtu] at hle ⊢
    omega
  · rw [hsame.length, ← hvalid.len]
    exact hle
  · rw [hlength]
    exact hcounted

/-- A packet that needs no checksum is always sent. -/
theorem Skb.xmitFrames_isSome {skb : Skb} (hvalid : skb.Valid) (hcsum : skb.needsCsum = false)
    (frameId : ℕ) : (skb.xmitFrames frameId).isSome := by
  obtain ⟨cut, hcut, -, -, -⟩ := Cursor.fill_spec frameId (c := skb.cursor) hvalid.len hvalid.pos
    (by simp [Counted, cursor])
  simp [xmitFrames, hcut, csumAndMap, hcsum]

def smallSkb : Skb := { len := 3, head := [1], frags := [[2, 3]] }

end ThunderboltStack.Tbnet
