import ThunderboltStack.Tbnet.Segments
import Mathlib.Data.List.Chain
import Mathlib.Data.List.Forall2

/-!
# Reassembly

What the receiver does with the frames of packets: with all of them, and with those that an ordered
channel leaves over.
-/

namespace ThunderboltStack.Tbnet

structure Holding (fs : List Frame) (i : ℕ) (net : Rx) : Prop where
  more : i + 1 < fs.length
  skb : ∃ skb, net.skb = some skb ∧ skb.bytes = payload (fs.take (i + 1))
  hdr : ∃ f, fs[i]? = some f ∧ net.rxHdr = f.hdr

variable {fs fs' : List Frame} {id id' i j : ℕ} {net : Rx} {rf : RxFrame} {skb : RxSkb}

theorem payload_take_succ {f : Frame} (hf : fs[j]? = some f) :
    payload (fs.take (j + 1)) = payload (fs.take j) ++ f.data := by
  rw [List.take_add_one, hf]
  simp

/-- The frames up to one make the packet, or there are more. -/
theorem takeFrame_packet (hp : IsPacket id fs) {f : Frame} (hf : fs[j]? = some f)
    (hskb : skb.bytes = payload (fs.take (j + 1))) :
    (j + 1 = fs.length ∧ takeFrame f.hdr skb = ({ skb := none, rxHdr := f.hdr }, some skb) ∧
        skb.bytes = payload fs) ∨
      ((takeFrame f.hdr skb).2 = none ∧ Holding fs j (takeFrame f.hdr skb).1) := by
  obtain ⟨hhdr, -, -⟩ := hp.counted j f hf
  have hj : j < fs.length := (List.getElem?_eq_some_iff.1 hf).1
  by_cases hlast : j + 1 = fs.length
  · left
    refine ⟨hlast, ?_, ?_⟩
    · rw [takeFrame, if_pos]
      rw [hhdr]
      simp only
      omega
    · rw [hskb, List.take_of_length_le (by omega)]
  · right
    have hnot : ¬ f.hdr.frameIndex = f.hdr.frameCount - 1 := by
      rw [hhdr]
      simp only
      omega
    rw [takeFrame, if_neg hnot]
    exact ⟨rfl, ⟨by omega, ⟨skb, rfl, hskb⟩, ⟨f, hf, rfl⟩⟩⟩

/-- The size of a frame of a packet is in order. -/
theorem size_packet (hp : IsPacket id fs) (hf : fs[j]? = some rf.frame) :
    ¬ rf.frame.fullSize ≤ headerSize ∧
      ¬ (rf.frame.fullSize - headerSize < rf.frame.hdr.frameSize ∨ rf.frame.hdr.frameSize = 0) := by
  obtain ⟨hhdr, hpos, hsize⟩ := hp.counted j _ hf
  constructor
  · omega
  · rw [hhdr]
    simp only
    omega

theorem checkFrame_start (hp : IsPacket id fs) (hf : fs[j]? = some rf.frame)
    (hgood : rf.crcError = false ∧ rf.overrun = false) (hnone : net.skb = none) :
    checkFrame net rf = if j ≠ 0 then .error .missed else .ok () := by
  obtain ⟨hhdr, -, -⟩ := hp.counted j _ hf
  obtain ⟨hbig, hfits⟩ := size_packet hp hf
  have hpos := hp.pos
  have hcount := hp.count
  have hok : ¬ (fs.length = 0 ∨ maxSkbFrags + 1 < fs.length) := by omega
  simp only [checkFrame, hgood.1, hgood.2, Bool.false_eq_true, if_false, hbig, hfits, hnone]
  simp only [checkFrame.checkStart, hhdr, if_neg hok]

theorem checkFrame_next (hp : IsPacket id fs) (hf : fs[j]? = some rf.frame)
    (hgood : rf.crcError = false ∧ rf.overrun = false) (hskb : net.skb = some skb)
    (hcount : net.rxHdr.frameCount ≠ 0) :
    checkFrame net rf =
      if fs.length ≠ net.rxHdr.frameCount then .error .length
      else if j ≠ net.rxHdr.frameIndex + 1 ∨ id ≠ net.rxHdr.frameId then .error .missed
      else if maxMtu < skb.bytes.length + rf.frame.data.length then .error .length
      else .ok () := by
  obtain ⟨hhdr, -, -⟩ := hp.counted j _ hf
  obtain ⟨hbig, hfits⟩ := size_packet hp hf
  simp only [checkFrame, hgood.1, hgood.2, Bool.false_eq_true, if_false, hbig, hfits, hskb,
    if_pos hcount]
  rw [hhdr]

/-- A frame with an error clears the receiver. -/
theorem pollFrame_bad (hbad : ¬ (rf.crcError = false ∧ rf.overrun = false)) :
    pollFrame net rf = ({ net with skb := none }, none) := by
  have herror : ∃ e, checkFrame net rf = .error e := by
    unfold checkFrame
    cases hcrc : rf.crcError with
    | true => exact ⟨_, rfl⟩
    | false =>
      cases hover : rf.overrun with
      | true => exact ⟨_, rfl⟩
      | false => exact absurd ⟨hcrc, hover⟩ hbad
  obtain ⟨e, he⟩ := herror
  simp [pollFrame, he]

/-- An idle receiver takes the first frame of a packet. -/
theorem pollFrame_start (hp : IsPacket id fs) (hnone : net.skb = none) (hf : fs[j]? = some rf.frame)
    (hgood : rf.crcError = false ∧ rf.overrun = false) :
    pollFrame net rf =
      if j ≠ 0 ∨ rf.built = false then (net, none)
      else takeFrame rf.frame.hdr { linear := rf.frame.data } := by
  obtain ⟨hhdr, -, -⟩ := hp.counted j _ hf
  unfold pollFrame
  rw [checkFrame_start hp hf hgood hnone]
  by_cases hj : j ≠ 0
  · have hsame : ({ net with skb := none } : Rx) = net := by
      cases net
      simp only at hnone
      rw [hnone]
    simp [hj, hsame]
  · have htake : rf.frame.data.take rf.frame.hdr.frameSize = rf.frame.data := by simp [hhdr]
    cases hbuilt : rf.built <;> simp [hj, hnone, htake]

/-- A receiver in a packet takes the next frame of it, and no frame with another identifier. -/
theorem pollFrame_next (hp : IsPacket id fs) (hheld : Holding fs i net) (hp' : IsPacket id' fs')
    (hf : fs'[j]? = some rf.frame) (hgood : rf.crcError = false ∧ rf.overrun = false) :
    (pollFrame net rf = ({ net with skb := none }, none) ∧ ¬ (fs' = fs ∧ j = i + 1)) ∨
      (id' = id ∧ j = i + 1 ∧ ∃ skb, skb.bytes = payload (fs.take (i + 1)) ++ rf.frame.data ∧
        pollFrame net rf = takeFrame rf.frame.hdr skb) := by
  obtain ⟨hmore, ⟨skb, hskb, hbytes⟩, ⟨g, hg, hrx⟩⟩ := hheld
  obtain ⟨hhdr, -, -⟩ := hp'.counted j _ hf
  obtain ⟨hghdr, -, -⟩ := hp.counted i g hg
  rw [hghdr] at hrx
  have hcheck := checkFrame_next hp' hf hgood hskb (by rw [hrx]; simp only; omega)
  rw [hrx] at hcheck
  simp only at hcheck
  by_cases hlen : fs'.length = fs.length
  · by_cases hpos : j = i + 1 ∧ id' = id
    · obtain ⟨rfl, rfl⟩ := hpos
      by_cases hmtu : maxMtu < skb.bytes.length + rf.frame.data.length
      · left
        have herr : checkFrame net rf = .error .length := by simpa [hlen, hmtu] using hcheck
        refine ⟨by simp [pollFrame, herr], ?_⟩
        rintro ⟨rfl, -⟩
        -- the whole packet fits
        have htake := congrArg List.length (payload_take_succ hf)
        have hle : (payload (fs'.take (i + 1 + 1))).length ≤ (payload fs').length := by
          conv_rhs => rw [← List.take_append_drop (i + 1 + 1) fs', payload_append]
          simp
        have htotal := hp.total
        rw [hbytes] at hmtu
        simp only [List.length_append] at htake
        omega
      · right
        have hok : checkFrame net rf = .ok () := by simpa [hlen, hmtu] using hcheck
        refine ⟨rfl, rfl, { skb with frags := skb.frags ++ [rf.frame.data] }, ?_, ?_⟩
        · rw [← hbytes]
          simp [RxSkb.bytes]
        · simp [pollFrame, hok, hskb, hhdr]
    · left
      have herr : checkFrame net rf = .error .missed := by
        rw [hcheck, if_neg (by simpa using hlen), if_pos]
        by_contra hcon
        exact hpos (by simpa using hcon)
      refine ⟨by simp [pollFrame, herr], ?_⟩
      rintro ⟨rfl, rfl⟩
      apply hpos
      refine ⟨rfl, ?_⟩
      obtain ⟨hid, -, -⟩ := hp.counted _ _ hf
      rw [hhdr] at hid
      exact (FrameHeader.mk.inj hid).2.2.1
  · left
    have herr : checkFrame net rf = .error .length := by simpa [hlen] using hcheck
    refine ⟨by simp [pollFrame, herr], ?_⟩
    rintro ⟨rfl, -⟩
    exact hlen rfl

def intact (f : Frame) : RxFrame := { frame := f }

def Ready (fs : List Frame) : ℕ → Rx → Prop
  | 0, net => net.skb = none
  | i + 1, net => Holding fs i net

theorem pollFrame_intact (hp : IsPacket id fs) (hready : Ready fs j net) {f : Frame}
    (hf : fs[j]? = some f) :
    ∃ skb, skb.bytes = payload (fs.take (j + 1)) ∧
      pollFrame net (intact f) = takeFrame f.hdr skb := by
  have hf' : fs[j]? = some (intact f).frame := hf
  rw [payload_take_succ hf]
  cases j with
  | zero =>
    refine ⟨{ linear := f.data }, by simp [RxSkb.bytes, payload], ?_⟩
    rw [pollFrame_start hp hready hf' ⟨rfl, rfl⟩]
    simp [intact]
  | succ i =>
    have hstep := pollFrame_next hp hready hp hf' ⟨rfl, rfl⟩
    exact (hstep.resolve_left fun h ↦ h.2 ⟨rfl, rfl⟩).2.2

/-- A receiver that gets the rest of a packet gives the packet to the stack. -/
theorem poll_rest (hp : IsPacket id fs) (hj : j < fs.length) (hready : Ready fs j net) :
    ∃ p net', poll net ((fs.drop j).map intact) = (net', [p]) ∧ net'.skb = none ∧
      p.bytes = payload fs := by
  induction hn : fs.length - j using Nat.strong_induction_on generalizing j net with
  | _ n ih =>
    have hf : fs[j]? = some (fs.get ⟨j, hj⟩) := List.getElem?_eq_getElem hj
    have hdrop : fs.drop j = fs.get ⟨j, hj⟩ :: fs.drop (j + 1) := List.drop_eq_getElem_cons hj
    obtain ⟨skb, hbytes, hpoll⟩ := pollFrame_intact hp hready hf
    simp only [hdrop, List.map_cons, poll, hpoll]
    rcases takeFrame_packet hp hf hbytes with ⟨hlast, htake, hall⟩ | ⟨hnone, hheld⟩
    · have hend : fs.drop (j + 1) = [] := List.drop_eq_nil_of_le (by omega)
      refine ⟨skb, { skb := none, rxHdr := (fs.get ⟨j, hj⟩).hdr }, ?_, rfl, hall⟩
      rw [htake, hend]
      rfl
    · obtain ⟨p, net', hrest, hidle, hp'⟩ := ih _ (by omega) hheld.more hheld rfl
      refine ⟨p, net', ?_, hidle, hp'⟩
      rw [hnone, hrest]
      rfl

/-- The fragments of an skb under construction are those of the frames behind the first. -/
def Bounded (net : Rx) : Prop :=
  ∀ skb, net.skb = some skb → skb.frags.length = net.rxHdr.frameIndex ∧
    net.rxHdr.frameIndex + 1 < net.rxHdr.frameCount ∧ net.rxHdr.frameCount ≤ maxSkbFrags + 1

theorem checkFrame_ok_start (h : checkFrame net rf = .ok ()) (hnone : net.skb = none) :
    rf.frame.hdr.frameIndex = 0 ∧ rf.frame.hdr.frameCount ≠ 0 ∧
      rf.frame.hdr.frameCount ≤ maxSkbFrags + 1 := by
  simp only [checkFrame, hnone, checkFrame.checkStart] at h
  split_ifs at h with _ _ _ _ hcount hindex
  omega

theorem checkFrame_ok_next (h : checkFrame net rf = .ok ()) (hskb : net.skb = some skb)
    (hcount : net.rxHdr.frameCount ≠ 0) :
    rf.frame.hdr.frameIndex = net.rxHdr.frameIndex + 1 ∧
      rf.frame.hdr.frameCount = net.rxHdr.frameCount := by
  simp only [checkFrame, hskb, if_pos hcount] at h
  split_ifs at h with _ _ _ _ hsame hindex
  omega

theorem Bounded.takeFrame {hdr : FrameHeader} (hfrags : skb.frags.length = hdr.frameIndex)
    (hindex : hdr.frameIndex < hdr.frameCount) (hcount : hdr.frameCount ≤ maxSkbFrags + 1) :
    Bounded (takeFrame hdr skb).1 ∧
      ∀ p, (Tbnet.takeFrame hdr skb).2 = some p → p.frags.length ≤ maxSkbFrags := by
  unfold Tbnet.takeFrame
  split
  · refine ⟨by simp [Bounded], fun p hp ↦ ?_⟩
    obtain rfl := Option.some.inj hp
    omega
  · next hmore =>
    refine ⟨fun p hp ↦ ?_, by simp⟩
    obtain rfl := Option.some.inj hp
    exact ⟨hfrags, show hdr.frameIndex + 1 < hdr.frameCount by omega, hcount⟩

theorem Bounded.pollFrame (h : Bounded net) (rf : RxFrame) :
    Bounded (pollFrame net rf).1 ∧
      ∀ p, (Tbnet.pollFrame net rf).2 = some p → p.frags.length ≤ maxSkbFrags := by
  unfold Tbnet.pollFrame
  split
  · exact ⟨by simp [Bounded], by simp⟩
  · next hok =>
    split
    · next hnone =>
      obtain ⟨hindex, hpos, hcount⟩ := checkFrame_ok_start hok hnone
      split
      · exact Bounded.takeFrame (by simp [hindex]) (by omega) hcount
      · exact ⟨h, by simp⟩
    · next skb hskb =>
      obtain ⟨hfrags, hmore, hcount⟩ := h skb hskb
      obtain ⟨hindex, hsame⟩ := checkFrame_ok_next hok hskb (by omega)
      exact Bounded.takeFrame (by simp [hindex, hfrags]) (by omega) (by omega)

theorem poll_frags_le (h : Bounded net) (rfs : List RxFrame) :
    ∀ p ∈ (poll net rfs).2, p.frags.length ≤ maxSkbFrags := by
  induction rfs generalizing net with
  | nil => simp [poll]
  | cons rf rfs ih =>
    obtain ⟨hnext, hnow⟩ := h.pollFrame rf
    intro p hp
    simp only [poll, List.mem_append, Option.mem_toList] at hp
    rcases hp with hp | hp
    · exact hnow p hp
    · exact ih hnext p hp

/-! ## Frames that get lost -/

/-- The packets of a sender: every packet that is not dropped takes the next identifier. -/
def transmit (frameId : ℕ) : List Skb → List (List Frame)
  | [] => []
  | skb :: skbs =>
    match skb.xmitFrames frameId with
    | none => transmit frameId skbs
    | some fs => fs :: transmit (frameId + 1) skbs

/-- The frames of some packets as they go over the channel, with the number of their packet. -/
def wire (pkts : List (List Frame)) : List (ℕ × Frame) :=
  pkts.zipIdx.flatMap fun p ↦ p.1.map fun f ↦ (p.2, f)

def Numbered (frameId : ℕ) (pkts : List (List Frame)) : Prop :=
  ∀ (n : ℕ) (fs : List Frame), pkts[n]? = some fs → IsPacket ((frameId + n) % 65536) fs

/-- The sender numbers its packets one after the other. -/
theorem numbered_transmit (frameId : ℕ) {skbs : List Skb} (h : ∀ skb ∈ skbs, skb.Valid) :
    Numbered frameId (transmit frameId skbs) := by
  induction skbs generalizing frameId with
  | nil => simp [Numbered, transmit]
  | cons skb skbs ih =>
    have hrest : ∀ skb ∈ skbs, skb.Valid := fun skb hskb ↦ h skb (List.mem_cons_of_mem _ hskb)
    unfold transmit
    split
    · exact ih frameId hrest
    · next fs hfs =>
      intro n gs hgs
      cases n with
      | zero =>
        obtain rfl := Option.some.inj hgs
        exact (Skb.xmitFrames_spec (h skb List.mem_cons_self) hfs).1
      | succ n =>
        have hnext := ih (frameId + 1) hrest n gs hgs
        rwa [Nat.add_right_comm] at hnext

def Before (a b : ℕ × Frame) : Prop :=
  a.1 < b.1 ∨ a.1 = b.1 ∧ a.2.hdr.frameIndex < b.2.hdr.frameIndex

theorem mem_wire {pkts : List (List Frame)} {n : ℕ} {f : Frame} (h : (n, f) ∈ wire pkts) :
    ∃ (fs : List Frame) (j : ℕ), pkts[n]? = some fs ∧ fs[j]? = some f := by
  simp only [wire, List.mem_flatMap, List.mem_map, Prod.mk.injEq] at h
  obtain ⟨⟨fs, m⟩, hfs, g, hg, rfl, rfl⟩ := h
  obtain ⟨j, hj⟩ := List.mem_iff_getElem?.1 hg
  exact ⟨fs, j, List.mem_zipIdx_iff_getElem?.1 hfs, hj⟩

theorem pairwise_wire {frameId : ℕ} {pkts : List (List Frame)} (h : Numbered frameId pkts) :
    (wire pkts).Pairwise Before := by
  rw [wire, List.pairwise_flatMap]
  constructor
  · rintro ⟨fs, n⟩ hmem
    have hp := h n fs (List.mem_zipIdx_iff_getElem?.1 hmem)
    rw [List.pairwise_map, List.pairwise_iff_getElem]
    intro i j hi hj hij
    right
    obtain ⟨hi', -, -⟩ := hp.counted i _ (List.getElem?_eq_getElem hi)
    obtain ⟨hj', -, -⟩ := hp.counted j _ (List.getElem?_eq_getElem hj)
    exact ⟨rfl, by simpa [hi', hj'] using hij⟩
  · rw [List.pairwise_iff_getElem]
    intro i j hi hj hij x hx y hy
    simp only [List.getElem_zipIdx, List.mem_map] at hx hy
    obtain ⟨f, -, rfl⟩ := hx
    obtain ⟨g, -, rfl⟩ := hy
    left
    simpa using hij

section Lossy

variable {frameId : ℕ} {pkts : List (List Frame)}

def Follows (pkts : List (List Frame)) (prev : Option ℕ) (net : Rx) : Prop :=
  net.skb = none ∨
    ∃ (n i : ℕ) (fs : List Frame), prev = some n ∧ pkts[n]? = some fs ∧ Holding fs i net

def Continues (prev : Option ℕ) (net : Rx) (n : ℕ) (f : Frame) : Prop :=
  net.skb = none ∧ f.hdr.frameIndex = 0 ∨ net.skb ≠ none ∧ prev = some n

/-- A frame is dropped or continues its packet, and a packet that comes out is one that was sent. -/
theorem pollFrame_lossy (hn : Numbered frameId pkts) {prev : Option ℕ}
    (hfollows : Follows pkts prev net) {n : ℕ} (hmem : (n, rf.frame) ∈ wire pkts)
    (hgap : ∀ m, prev = some m → m ≤ n ∧ n < m + 65536) :
    (pollFrame net rf).2 = none ∧ (pollFrame net rf).1.skb = none ∨
      Continues prev net n rf.frame ∧
        ((pollFrame net rf).2 = none ∧ Follows pkts (some n) (pollFrame net rf).1 ∨
          (pollFrame net rf).1.skb = none ∧ ∃ p fs, (pollFrame net rf).2 = some p ∧
            pkts[n]? = some fs ∧ p.bytes = payload fs) := by
  obtain ⟨fs, j, hfs, hf⟩ := mem_wire hmem
  have hp := hn n fs hfs
  obtain ⟨hhdr, -, -⟩ := hp.counted j _ hf
  by_cases hgood : rf.crcError = false ∧ rf.overrun = false
  swap
  · exact .inl (by simp [pollFrame_bad hgood])
  -- a frame that is taken completes its packet, or the receiver holds it
  have htaken {skb : RxSkb} (hskb : skb.bytes = payload (fs.take (j + 1)))
      (hpoll : pollFrame net rf = takeFrame rf.frame.hdr skb) :
      (pollFrame net rf).2 = none ∧ Follows pkts (some n) (pollFrame net rf).1 ∨
        (pollFrame net rf).1.skb = none ∧ ∃ p fs, (pollFrame net rf).2 = some p ∧
          pkts[n]? = some fs ∧ p.bytes = payload fs := by
    rw [hpoll]
    rcases takeFrame_packet hp hf hskb with ⟨-, htake, hall⟩ | ⟨hnone, hheld⟩
    · exact .inr ⟨by rw [htake], skb, fs, by rw [htake], hfs, hall⟩
    · exact .inl ⟨hnone, .inr ⟨n, j, fs, rfl, hfs, hheld⟩⟩
  rcases hfollows with hnone | ⟨m, i, gs, hprev, hgs, hheld⟩
  · have hstart := pollFrame_start hp hnone hf hgood
    split at hstart
    · exact .inl (by simp [hstart, hnone])
    · next hj =>
      have hzero : j = 0 := by
        by_contra hne
        exact hj (.inl hne)
      subst hzero
      refine .inr ⟨.inl ⟨hnone, by rw [hhdr]⟩, htaken ?_ hstart⟩
      rw [payload_take_succ hf]
      simp [RxSkb.bytes, payload]
  · obtain ⟨hle, hlt⟩ := hgap m hprev
    have hbusy : net.skb ≠ none := by
      obtain ⟨skb, hskb, -⟩ := hheld.skb
      simp [hskb]
    rcases pollFrame_next (hn m gs hgs) hheld hp hf hgood with
      ⟨hpoll, -⟩ | ⟨hid, rfl, skb, hskb, hpoll⟩
    · exact .inl (by simp [hpoll])
    · -- fewer than 65536 packets on, the same identifier is the same packet
      obtain rfl : m = n := by omega
      obtain rfl : gs = fs := Option.some.inj (hgs.symm.trans hfs)
      refine .inr ⟨.inr ⟨hbusy, hprev⟩, htaken ?_ hpoll⟩
      rw [payload_take_succ hf]
      exact hskb

/-- The packets that go to the stack are some of the packets that were sent, in their order. -/
theorem poll_lossy (hn : Numbered frameId pkts) {prev : Option ℕ} (hfollows : Follows pkts prev net)
    {rcv : List (ℕ × RxFrame)} (hmem : ∀ r ∈ rcv, (r.1, r.2.frame) ∈ wire pkts)
    (horder : rcv.Pairwise fun a b ↦ Before (a.1, a.2.frame) (b.1, b.2.frame))
    (hgap : (prev.toList ++ rcv.map Prod.fst).IsChain fun a b ↦ a ≤ b ∧ b < a + 65536) :
    ∃ ns : List ℕ, ns.Pairwise (· < ·) ∧
      (∀ n ∈ ns, net.skb ≠ none ∧ prev = some n ∨
        ∃ r ∈ rcv, r.1 = n ∧ r.2.frame.hdr.frameIndex = 0) ∧
      List.Forall₂ (fun n p ↦ ∃ fs, pkts[n]? = some fs ∧ p.bytes = payload fs) ns
        (poll net (rcv.map Prod.snd)).2 := by
  induction rcv generalizing net prev with
  | nil => exact ⟨[], .nil, by simp, .nil⟩
  | cons r rcv ih =>
    have hhead : ∀ m, prev = some m → m ≤ r.1 ∧ r.1 < m + 65536 := by
      rintro m rfl
      exact (List.isChain_cons_cons.1 hgap).1
    have hgap' : ((some r.1).toList ++ rcv.map Prod.fst).IsChain
        fun a b ↦ a ≤ b ∧ b < a + 65536 := by
      cases prev with
      | none => exact hgap
      | some m => exact (List.isChain_cons_cons.1 hgap).2
    obtain ⟨hfirst, horder'⟩ := List.pairwise_cons.1 horder
    have hmem' : ∀ r ∈ rcv, (r.1, r.2.frame) ∈ wire pkts :=
      fun r hr ↦ hmem r (List.mem_cons_of_mem _ hr)
    have hstep := pollFrame_lossy hn hfollows (hmem r List.mem_cons_self) hhead
    -- where a packet begins that is delivered later
    have hbegin (hcont : Continues prev net r.1 r.2.frame) : net.skb ≠ none ∧ prev = some r.1 ∨
        ∃ r' ∈ r :: rcv, r'.1 = r.1 ∧ r'.2.frame.hdr.frameIndex = 0 := by
      rcases hcont with ⟨-, hzero⟩ | hbusy
      · exact .inr ⟨r, List.mem_cons_self, rfl, hzero⟩
      · exact .inl hbusy
    have hlater {n : ℕ} (h : ∃ r' ∈ rcv, r'.1 = n ∧ r'.2.frame.hdr.frameIndex = 0) :
        ∃ r' ∈ r :: rcv, r'.1 = n ∧ r'.2.frame.hdr.frameIndex = 0 := by
      obtain ⟨r', hr', heq⟩ := h
      exact ⟨r', List.mem_cons_of_mem _ hr', heq⟩
    simp only [List.map_cons, poll]
    rcases hstep with ⟨hnone, hidle⟩ | ⟨hcont, ⟨hnone, hheld⟩ | ⟨hidle, p, fs, hsome, hfs, hbytes⟩⟩
    · obtain ⟨ns, hns, hfrom, hall⟩ := ih (.inl hidle) hmem' horder' hgap'
      refine ⟨ns, hns, fun n hn ↦ ?_, by simpa [hnone] using hall⟩
      exact .inr (hlater ((hfrom n hn).resolve_left fun h ↦ h.1 hidle))
    · obtain ⟨ns, hns, hfrom, hall⟩ := ih hheld hmem' horder' hgap'
      refine ⟨ns, hns, fun n hn ↦ ?_, by simpa [hnone] using hall⟩
      rcases hfrom n hn with ⟨-, hprev⟩ | hstart
      · exact Option.some.inj hprev ▸ hbegin hcont
      · exact .inr (hlater hstart)
    · obtain ⟨ns, hns, hfrom, hall⟩ := ih (.inl hidle) hmem' horder' hgap'
      have hstart {n : ℕ} (hn : n ∈ ns) : ∃ r' ∈ rcv, r'.1 = n ∧ r'.2.frame.hdr.frameIndex = 0 :=
        (hfrom n hn).resolve_left fun h ↦ h.1 hidle
      refine ⟨r.1 :: ns, List.pairwise_cons.2 ⟨fun n hn ↦ ?_, hns⟩, fun n hn ↦ ?_, ?_⟩
      · obtain ⟨r', hr', rfl, hzero⟩ := hstart hn
        rcases hfirst r' hr' with hlt | ⟨-, hlt⟩
        · exact hlt
        · exact absurd hlt (by simp [hzero])
      · rcases List.mem_cons.1 hn with rfl | hn
        · exact hbegin hcont
        · exact .inr (hlater (hstart hn))
      · rw [hsome]
        exact .cons ⟨fs, hfs, hbytes⟩ hall

end Lossy

/-- Elements at growing places of a list, from some place on. -/
theorem sublist_drop_of_places {α : Type} {l xs : List α} {ns : List ℕ} {k : ℕ}
    (hk : ∀ n ∈ ns, k ≤ n) (hns : ns.Pairwise (· < ·))
    (h : List.Forall₂ (fun n x ↦ l[n]? = some x) ns xs) : xs.Sublist (l.drop k) := by
  induction h generalizing k with
  | nil => exact List.nil_sublist _
  | @cons n x ns xs hx _ ih =>
    obtain ⟨hfirst, hns'⟩ := List.pairwise_cons.1 hns
    obtain ⟨hn, hget⟩ := List.getElem?_eq_some_iff.1 hx
    have hrest := ih (fun m hm ↦ hfirst m hm) hns'
    have hdrop : l.drop n = x :: l.drop (n + 1) := by
      rw [List.drop_eq_getElem_cons hn, hget]
    apply List.Sublist.trans _ (List.drop_sublist_drop_left l (hk n List.mem_cons_self))
    rw [hdrop]
    exact hrest.cons_cons x

/-- Segmentation and reassembly: all frames of a packet make the packet again, but for the checksums
that the driver fills in; with identifiers, an ordered channel that loses frames gives some of the
packets in their order, if fewer than 65536 packets begin between two frames that come one after
the other; and no skb has more than `MAX_SKB_FRAGS` fragments. -/
theorem tbnet_reassembly :
    (∀ (skb : Skb) (frameId : ℕ) (net : Rx), skb.Valid → net.skb = none →
      (skb.needsCsum = false → (skb.xmitFrames frameId).isSome) ∧
      ∀ fs, skb.xmitFrames frameId = some fs →
        ∃ p net', poll net (fs.map intact) = (net', [p]) ∧ net'.skb = none ∧
          SameBut skb.checksumBytes skb.bytes p.bytes) ∧
    (∀ (frameId : ℕ) (skbs : List Skb) (net : Rx) (rcv : List (ℕ × RxFrame)),
      (∀ skb ∈ skbs, skb.Valid) → net.skb = none →
      (rcv.map fun r ↦ (r.1, r.2.frame)).Sublist (wire (transmit frameId skbs)) →
      (rcv.map Prod.fst).IsChain (fun a b ↦ b < a + 65536) →
      ((poll net (rcv.map Prod.snd)).2.map RxSkb.bytes).Sublist
        ((transmit frameId skbs).map payload)) ∧
    ∀ (net : Rx) (rfs : List RxFrame), net.skb = none →
      ∀ p ∈ (poll net rfs).2, p.frags.length ≤ maxSkbFrags := by
  refine ⟨fun skb frameId net hvalid hidle ↦ ⟨fun hcsum ↦ ?_, fun fs hfs ↦ ?_⟩,
    fun frameId skbs net rcv hvalid hidle hsub hgap ↦ ?_, fun net rfs hidle ↦ ?_⟩
  · exact Skb.xmitFrames_isSome hvalid hcsum frameId
  · obtain ⟨hp, hsame⟩ := Skb.xmitFrames_spec hvalid hfs
    obtain ⟨p, net', hpoll, hidle', hbytes⟩ := poll_rest hp hp.pos (show Ready fs 0 net from hidle)
    exact ⟨p, net', hpoll, hidle', hbytes ▸ hsame⟩
  · have hn := numbered_transmit frameId hvalid
    have horder := (pairwise_wire hn).sublist hsub
    rw [List.pairwise_map] at horder
    have hmem (r : ℕ × RxFrame) (hr : r ∈ rcv) :
        (r.1, r.2.frame) ∈ wire (transmit frameId skbs) :=
      hsub.subset (List.mem_map.2 ⟨r, hr, rfl⟩)
    have hchain : (rcv.map Prod.fst).IsChain fun a b ↦ a ≤ b ∧ b < a + 65536 := by
      rw [List.isChain_map, List.isChain_iff_getElem] at hgap ⊢
      intro i hi
      refine ⟨?_, hgap i hi⟩
      rcases List.pairwise_iff_getElem.1 horder i (i + 1) (by omega) hi (by omega) with
        hlt | ⟨heq, -⟩
      · exact hlt.le
      · exact heq.le
    obtain ⟨ns, hns, -, hall⟩ := poll_lossy hn (.inl hidle : Follows _ none net) hmem horder hchain
    apply sublist_drop_of_places (k := 0) (by simp) hns
    rw [List.forall₂_map_right_iff]
    apply hall.imp
    rintro n p ⟨fs, hfs, hbytes⟩
    rw [List.getElem?_map, hfs, hbytes]
    rfl
  · exact poll_frags_le (by simp [Bounded, hidle]) rfs

def idleRx : Rx := { skb := none, rxHdr := ⟨0, 0, 0, 0⟩ }

def longSkb : Skb := { len := 5000, head := List.replicate 5000 7 }

theorem longSkb_valid : longSkb.Valid := by
  constructor <;> decide +kernel

/-- A packet of two frames arrives as it was sent; if its second frame is lost, what arrives is
still made of whole packets. -/
theorem tbnet_reassembly_small :
    (∃ fs p net', longSkb.xmitFrames 0 = some fs ∧ fs.length = 2 ∧
      poll idleRx (fs.map intact) = (net', [p]) ∧ SameBut [] longSkb.bytes p.bytes) ∧
    ∃ f₁ f₂ g, transmit 0 [longSkb, smallSkb] = [[f₁, f₂], [g]] ∧
      ((poll idleRx [intact f₁, intact g]).2.map RxSkb.bytes).Sublist
        [payload [f₁, f₂], payload [g]] := by
  have hsmall : smallSkb.Valid := ⟨rfl, by decide, by decide⟩
  obtain ⟨hsome, hall⟩ := tbnet_reassembly.1 longSkb 0 idleRx longSkb_valid rfl
  obtain ⟨fs, hfs⟩ := Option.isSome_iff_exists.1 (hsome rfl)
  obtain ⟨p, net', hpoll, -, hsame⟩ := hall fs hfs
  have hlen : (longSkb.xmitFrames 0).map List.length = some 2 := by decide +kernel
  have htwo : fs.length = 2 := by simpa [hfs] using hlen
  refine ⟨⟨fs, p, net', hfs, htwo, hpoll, hsame⟩, ?_⟩
  obtain ⟨f₁, f₂, rfl⟩ := List.length_eq_two.1 htwo
  obtain ⟨gs, hgs⟩ := Option.isSome_iff_exists.1
    ((tbnet_reassembly.1 smallSkb 1 idleRx hsmall rfl).1 rfl)
  have hone : (smallSkb.xmitFrames 1).map List.length = some 1 := by decide +kernel
  obtain ⟨g, rfl⟩ := List.length_eq_one_iff.1 (show gs.length = 1 by simpa [hgs] using hone)
  have hsent : transmit 0 [longSkb, smallSkb] = [[f₁, f₂], [g]] := by simp [transmit, hfs, hgs]
  refine ⟨f₁, f₂, g, hsent, ?_⟩
  have hlossy := tbnet_reassembly.2.1 0 [longSkb, smallSkb] idleRx
    [(0, intact f₁), (1, intact g)] (by simp [longSkb_valid, hsmall]) rfl
    (by simp [hsent, wire, intact]) (by simp)
  simpa [hsent] using hlossy

def udpSkb : Skb where
  len := 42
  head := [0, 0, 0, 0, 0, 0, 0, 0, 0, 0, 0, 0, 8, 0,
    0x45, 0, 0, 28, 0, 0, 0, 0, 64, 17, 0, 0, 10, 0, 0, 1, 10, 0, 0, 2,
    0, 7, 0, 7, 0, 8, 0, 0]
  needsCsum := true
  protocol := ethPIp
  networkOffset := 14
  transportOffset := 34

/-- The driver fills in the checksums of a packet that asks for them: what is received is not what
the stack gave to the driver. -/
theorem tbnet_checksum_filled : ∃ fs p net', udpSkb.Valid ∧ udpSkb.xmitFrames 0 = some fs ∧
    poll idleRx (fs.map intact) = (net', [p]) ∧ p.bytes ≠ udpSkb.bytes := by
  have hvalid : udpSkb.Valid := ⟨rfl, by decide, by decide⟩
  have hrun : (udpSkb.xmitFrames 0).any (fun fs ↦ payload fs ≠ udpSkb.bytes) = true := by
    rw [Skb.xmitFrames, Cursor.fill_of_last (by decide)]
    decide +kernel
  obtain ⟨fs, hfs, hne⟩ := (Option.any_eq_true _ _).1 hrun
  have hp := (Skb.xmitFrames_spec hvalid hfs).1
  obtain ⟨p, net', hpoll, -, hbytes⟩ := poll_rest hp hp.pos (show Ready fs 0 idleRx from rfl)
  exact ⟨fs, p, net', hvalid, hfs, hpoll, by simpa [hbytes] using hne⟩

end ThunderboltStack.Tbnet
