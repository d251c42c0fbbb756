import ThunderboltStack.Lib.Circular
import ThunderboltStack.Lib.Transition
import ThunderboltStack.Tbnet.Segments

/-!
# Transmit buffers

The software ring of `tbnet_start_xmit`: two counters say which buffers are available.  The error
path gives back as many buffers as its frame index says, which is one too few if it holds a buffer
at that index.
-/

namespace ThunderboltStack.Tbnet

open ThunderboltStack.Lib

/-- A ring of a size that `tbnet_validate_ring_size` lets pass. -/
structure RingOrder where
  order : ℕ
  le_order : 8 ≤ order
  order_le : order ≤ 12

/-- `tx_ring.size`. -/
def RingOrder.size (r : RingOrder) : ℕ := 2 ^ r.order

/-- Where `tbnet_start_xmit` is: in the loops that fill frames, with the buffers it took, or in the
loop that gives the frames to the ring. -/
inductive XmitPc
  | idle
  | fill (skb : Skb) (cursor : Cursor) (held : List ℕ)
  | submit (todo : List (ℕ × Frame))

/-- `struct tbnet_ring` of the transmit side, and the buffers that are in the ring. -/
structure Tx where
  cons : BitVec 32
  prod : BitVec 32
  frameId : ℕ := 0
  pc : XmitPc := .idle
  inRing : List ℕ := []

/-- The steps of the transmit side: a call of `tbnet_start_xmit`, a frame of it, a frame given to
the ring, and the completion of the oldest frame in the ring. -/
inductive TxEv
  | xmit (skb : Skb)
  | next
  | submit (accepted : Bool)
  | complete

namespace Tx

variable (r : RingOrder) (s : Tx)

/-- `tbnet_available_buffers`. -/
def available : ℕ := (s.prod - s.cons).toNat

/-- `tbnet_alloc_tx_buffers`. -/
def alloc : Tx := { cons := 0, prod := .ofNat 32 (r.size - 1) }

/-- `tbnet_get_tx_buffer`: the ring behind it, and the index of the buffer. -/
def getTxBuffer : Option (Tx × ℕ) :=
  if s.available = 0 then none
  else some ({ s with cons := s.cons + 1 }, s.cons.toNat &&& (r.size - 1))

def errDrop (frameIndex : ℕ) : Tx := { s with cons := s.cons - .ofNat 32 frameIndex, pc := .idle }

def held : List ℕ :=
  match s.pc with
  | .idle => []
  | .fill _ _ held => held
  | .submit todo => todo.map Prod.fst

def step : TxEv → Option Tx
  | .xmit skb =>
    match s.pc with
    | .idle =>
      -- `NETDEV_TX_BUSY`
      if s.available < nframes skb.len then some s
      else
        match s.getTxBuffer r with
        | none => some (s.errDrop 0)
        | some (s', slot) => some { s' with pc := .fill skb skb.cursor [slot] }
    | _ => none
  | .next =>
    match s.pc with
    | .fill skb cursor held =>
      if maxPayloadSize < cursor.dataLen then
        match cursor.next s.frameId with
        | none => some (s.errDrop cursor.frames.length)
        | some cursor' =>
          match s.getTxBuffer r with
          | none => some (s.errDrop cursor'.frames.length)
          | some (s', slot) => some { s' with pc := .fill skb cursor' (held ++ [slot]) }
      else
        match (cursor.last s.frameId).bind skb.csumAndMap with
        | none => some (s.errDrop cursor.frames.length)
        | some frames => some { s with pc := .submit (held.zip frames) }
    | _ => none
  | .submit accepted =>
    match s.pc with
    | .submit ((slot, _) :: todo) =>
      let s' := if accepted then { s with inRing := s.inRing ++ [slot] } else s
      if todo.isEmpty then some { s' with pc := .idle, frameId := s.frameId + 1 }
      else some { s' with pc := .submit todo }
    | _ => none
  | .complete =>
    match s.inRing with
    | [] => none
    | _ :: inRing => some { s with prod := s.prod + 1, inRing }

/-- The transmit side with `TBNET_MATCH_FRAGS_ID`. -/
def system : System Tx TxEv where
  init s := s = alloc r
  step s ev s' := s.step r ev = some s'

def exec : (system r).Exec where
  Act := TxEv
  step s ev := (s.step r ev).map fun s' ↦ (ev, s')
  sound h := by
    obtain ⟨s', hs', heq⟩ := Option.map_eq_some_iff.1 h
    obtain ⟨rfl, rfl⟩ := Prod.mk.inj heq
    exact hs'

/-- A packet that `tbnet_start_xmit` does not drop, and frames that the ring takes. -/
def Clean (_ : Tx) : TxEv → Prop
  | .xmit skb => skb.len ≤ skb.bytes.length ∧ (skb.needsCsum = true → skb.csumPlan.isSome = true)
  | .submit accepted => accepted = true
  | _ => True

/-! ## The counters -/

variable {r s} {s' : Tx} {ev : TxEv}

theorem size_bounds (r : RingOrder) : 0 < r.size ∧ r.size ≤ 4096 := by
  constructor
  · exact Nat.two_pow_pos _
  · exact Nat.pow_le_pow_right (by decide) r.order_le

theorem size_dvd (r : RingOrder) : r.size ∣ 2 ^ 32 :=
  Nat.pow_dvd_pow 2 (r.order_le.trans (by decide))

/-- The buffers from `done` to `taken` are in use, in this order. -/
structure Counters (r : RingOrder) (s : Tx) (taken done : ℕ) : Prop where
  cons : s.cons = .ofNat 32 taken
  prod : s.prod = .ofNat 32 (done + (r.size - 1))
  done_le : done ≤ taken
  taken_le : taken ≤ done + (r.size - 1)
  used : s.inRing ++ s.held = window r.size done (taken - done)

namespace Counters

variable {taken done : ℕ}

theorem available (h : Counters r s taken done) :
    s.available = done + (r.size - 1) - taken := by
  have hsize := size_bounds r
  have hle := h.taken_le
  have hge := h.done_le
  rw [Tx.available, h.cons, h.prod, BitVec.toNat_sub, BitVec.toNat_ofNat, BitVec.toNat_ofNat]
  omega

theorem slot (h : Counters r s taken done) : s.cons.toNat &&& (r.size - 1) = taken % r.size := by
  rw [h.cons, RingOrder.size, Nat.and_two_pow_sub_one_eq_mod, BitVec.toNat_ofNat]
  exact Nat.mod_mod_of_dvd _ (size_dvd r)

theorem take (h : Counters r s taken done) (havailable : s.available ≠ 0)
    (hcons : s'.cons = s.cons + 1) (hprod : s'.prod = s.prod) (hring : s'.inRing = s.inRing)
    (hheld : s'.held = s.held ++ [taken % r.size]) : Counters r s' (taken + 1) done where
  cons := by
    rw [hcons, h.cons]
    apply BitVec.eq_of_toNat_eq
    simp
  prod := hprod.trans h.prod
  done_le := h.done_le.trans (Nat.le_succ _)
  taken_le := by
    rw [h.available] at havailable
    omega
  used := by
    have hge := h.done_le
    have hcount : taken + 1 - done = taken - done + 1 := by omega
    have hplace : done + (taken - done) = taken := by omega
    rw [hring, hheld, ← List.append_assoc, h.used, hcount, window_succ, hplace]

/-- All buffers that the call holds are given back. -/
theorem giveBack (h : Counters r s taken done) :
    Counters r (s.errDrop s.held.length) (taken - s.held.length) done := by
  have hused := h.used
  have hlength := congrArg List.length hused
  rw [List.length_append, length_window] at hlength
  have hge := h.done_le
  have hle := h.taken_le
  have hsplit : taken - done = (taken - s.held.length - done) + s.held.length := by omega
  rw [hsplit, window_add] at hused
  refine ⟨?_, h.prod, by omega, by omega, ?_⟩
  · apply BitVec.eq_of_toNat_eq
    simp only [errDrop, h.cons, BitVec.toNat_sub, BitVec.toNat_ofNat]
    omega
  · have hring := (List.append_inj hused (by rw [length_window]; omega)).1
    simpa [errDrop, held] using hring

/-- The frame at the head of the ring completes. -/
theorem complete (h : Counters r s taken done) {slot : ℕ} {inRing : List ℕ}
    (hring : s.inRing = slot :: inRing) :
    Counters r { s with prod := s.prod + 1, inRing } taken (done + 1) := by
  have hused := h.used
  have hlength := congrArg List.length hused
  have hge := h.done_le
  rw [List.length_append, length_window, hring, List.length_cons] at hlength
  have hone : taken - done = 1 + (taken - (done + 1)) := by omega
  rw [hring, hone, window_add] at hused
  refine ⟨h.cons, ?_, by omega, ?_, ?_⟩
  · rw [h.prod]
    apply BitVec.eq_of_toNat_eq
    have hstep : (1 : BitVec 32).toNat = 1 := rfl
    simp only [BitVec.toNat_add, BitVec.toNat_ofNat, hstep]
    omega
  · have hle := h.taken_le
    omega
  · exact (List.cons.inj hused).2

end Counters

theorem fillFrame_of_lt {src : List UInt8} {frags : List (List UInt8)} {n : ℕ}
    (h : n < (src ++ frags.flatten).length) :
    ∃ data src' frags', fillFrame src frags n = some (data, src', frags') ∧
      (src' ++ frags'.flatten).length = (src ++ frags.flatten).length - n := by
  obtain ⟨data, src', frags', hfill, hdata, hall⟩ := fillFrame_spec h
  have hlength := congrArg List.length hall
  rw [List.length_append] at hlength
  exact ⟨data, src', frags', hfill, by omega⟩

theorem fillLast_of_le {src : List UInt8} {frags : List (List UInt8)} {n : ℕ}
    (h : n ≤ (src ++ frags.flatten).length) : (fillLast src frags n).isSome := by
  induction frags generalizing src n with
  | nil =>
    have hle : ¬ src.length < n := by simpa using h
    simp [fillLast, hle]
  | cons frag frags ih =>
    unfold fillLast
    split
    · have hrest : n - src.length ≤ (frag ++ frags.flatten).length := by
        simp only [List.flatten_cons, List.length_append] at h ⊢
        omega
      simpa using ih hrest
    · rfl

def Intact (s : Tx) : Prop :=
  match s.pc with
  | .fill skb cursor held =>
    held.length = cursor.frames.length + 1 ∧
      cursor.dataLen ≤ (cursor.src ++ cursor.frags.flatten).length ∧
      (skb.needsCsum = true → skb.csumPlan.isSome = true)
  | _ => True

structure Kept (r : RingOrder) (s : Tx) : Prop where
  counters : ∃ taken done, Counters r s taken done
  intact : s.Intact

theorem csumAndMap_isSome {skb : Skb} {frames : List Frame} (hne : frames ≠ [])
    (h : skb.needsCsum = true → skb.csumPlan.isSome = true) : (skb.csumAndMap frames).isSome := by
  unfold Skb.csumAndMap
  split
  · next hneeds =>
    obtain ⟨plan, hplan⟩ := Option.isSome_iff_exists.1 (h hneeds)
    obtain ⟨first, rest, rfl⟩ := List.exists_cons_of_ne_nil hne
    simp [hplan, Skb.countFrames]
  · rfl

theorem last_isSome {cursor : Cursor} (frameId : ℕ) {skb : Skb}
    (hlen : cursor.dataLen ≤ (cursor.src ++ cursor.frags.flatten).length)
    (hcsum : skb.needsCsum = true → skb.csumPlan.isSome = true) :
    ∃ frames, (cursor.last frameId).bind skb.csumAndMap = some frames := by
  obtain ⟨data, hdata⟩ := Option.isSome_iff_exists.1 (fillLast_of_le hlen)
  rw [Cursor.last, hdata, Option.map_some, Option.bind_some]
  exact Option.isSome_iff_exists.1 (csumAndMap_isSome (by simp) hcsum)

theorem length_csumAndMap {skb : Skb} {frames frames' : List Frame}
    (h : skb.csumAndMap frames = some frames') : frames'.length = frames.length := by
  have hcount : (Skb.countFrames frames).length = frames.length := by simp [Skb.countFrames]
  unfold Skb.csumAndMap at h
  split at h
  · obtain ⟨plan, -, h⟩ := Option.bind_eq_some_iff.1 h
    split at h
    · cases h
    · next first rest hframes =>
      obtain rfl := Option.some.inj h
      rw [← hcount, hframes]
      rfl
  · exact Option.some.inj h ▸ hcount

theorem length_last {cursor : Cursor} {frameId : ℕ} {skb : Skb} {frames : List Frame}
    (h : (cursor.last frameId).bind skb.csumAndMap = some frames) :
    frames.length = cursor.frames.length + 1 := by
  obtain ⟨cut, hcut, hmap⟩ := Option.bind_eq_some_iff.1 h
  obtain ⟨data, -, rfl⟩ := Option.map_eq_some_iff.1 hcut
  rw [length_csumAndMap hmap]
  simp

/-- A frame that is not the last one of an intact packet. -/
theorem next_intact {cursor : Cursor} (frameId : ℕ) (hlong : maxPayloadSize < cursor.dataLen)
    (hlen : cursor.dataLen ≤ (cursor.src ++ cursor.frags.flatten).length) :
    ∃ cursor', cursor.next frameId = some cursor' ∧
      cursor'.frames.length = cursor.frames.length + 1 ∧
      cursor'.dataLen ≤ (cursor'.src ++ cursor'.frags.flatten).length := by
  obtain ⟨data, src', frags', hfill, hrest⟩ := fillFrame_of_lt (hlong.trans_le hlen)
  refine ⟨_, by rw [Cursor.next, hfill, Option.map_some], by simp, ?_⟩
  simp only [hrest]
  omega

theorem getTxBuffer_eq_some {slot : ℕ} (h : s.getTxBuffer r = some (s', slot)) :
    s.available ≠ 0 ∧ s' = { s with cons := s.cons + 1 } ∧
      slot = s.cons.toNat &&& (r.size - 1) := by
  unfold getTxBuffer at h
  split at h
  · cases h
  · next hne =>
    obtain ⟨rfl, rfl⟩ := Prod.mk.inj (Option.some.inj h)
    exact ⟨hne, rfl, rfl⟩

theorem Kept.xmit (h : Kept r s) {skb : Skb} (hclean : s.Clean (.xmit skb))
    (hs : s.step r (.xmit skb) = some s') : Kept r s' := by
  obtain ⟨⟨taken, done, hc⟩, hintact⟩ := id h
  simp only [step] at hs
  split at hs
  · next hpc =>
    have hheld : s.held = [] := by simp [held, hpc]
    split at hs
    · exact Option.some.inj hs ▸ h
    · split at hs
      · obtain rfl := Option.some.inj hs
        have hback := hc.giveBack
        simp only [hheld] at hback
        exact ⟨⟨_, _, hback⟩, trivial⟩
      · next s₁ slot hget =>
        obtain rfl := Option.some.inj hs
        obtain ⟨hne, rfl, rfl⟩ := getTxBuffer_eq_some hget
        refine ⟨⟨taken + 1, done, hc.take hne rfl rfl rfl ?_⟩, by simp [Skb.cursor], ?_, hclean.2⟩
        · rw [hheld, ← hc.slot]
          rfl
        · exact hclean.1
  · cases hs

/-- A pass of the fill loop keeps the counters and the buffers. -/
theorem Kept.next (h : Kept r s) (hs : s.step r .next = some s') : Kept r s' := by
  obtain ⟨⟨taken, done, hc⟩, hintact⟩ := h
  simp only [step] at hs
  split at hs
  · next skb cursor held hpc =>
    have hheld : s.held = held := by simp [Tx.held, hpc]
    simp only [Intact, hpc] at hintact
    obtain ⟨hlength, hlen, hcsum⟩ := hintact
    split at hs
    · next hlong =>
      obtain ⟨cursor', hnext, hframes, hlen'⟩ := next_intact s.frameId hlong hlen
      simp only [hnext] at hs
      split at hs
      · obtain rfl := Option.some.inj hs
        have hback := hc.giveBack
        rw [hheld, hlength, ← hframes] at hback
        exact ⟨⟨_, _, hback⟩, trivial⟩
      · next s₁ slot hget =>
        obtain rfl := Option.some.inj hs
        obtain ⟨hne, rfl, rfl⟩ := getTxBuffer_eq_some hget
        refine ⟨⟨taken + 1, done, hc.take hne rfl rfl rfl ?_⟩, ?_, hlen', hcsum⟩
        · rw [hheld, ← hc.slot]
          rfl
        · simp [hlength, hframes]
    · obtain ⟨frames, hframes⟩ := last_isSome s.frameId hlen hcsum
      simp only [hframes] at hs
      obtain rfl := Option.some.inj hs
      refine ⟨⟨taken, done, hc.cons, hc.prod, hc.done_le, hc.taken_le, ?_⟩, trivial⟩
      have hzip : (held.zip frames).map Prod.fst = held := by
        apply List.map_fst_zip
        rw [length_last hframes, hlength]
      rw [← hc.used, hheld]
      exact congrArg _ hzip
  · cases hs

/-- A submission that the ring accepts keeps the counters and the buffers. -/
theorem Kept.submit (h : Kept r s) (hs : s.step r (.submit true) = some s') : Kept r s' := by
  obtain ⟨⟨taken, done, hc⟩, -⟩ := h
  simp only [step] at hs
  split at hs
  · next slot frame todo hpc =>
    have hused := hc.used
    simp only [held, hpc, List.map_cons] at hused
    have hmove : s.inRing ++ [slot] ++ todo.map Prod.fst = window r.size done (taken - done) := by
      rw [← hused, List.append_assoc]
      rfl
    simp only [if_true] at hs
    split at hs
    · next hempty =>
      obtain rfl := Option.some.inj hs
      obtain rfl := List.isEmpty_iff.1 hempty
      exact ⟨⟨taken, done, hc.cons, hc.prod, hc.done_le, hc.taken_le, hmove⟩, trivial⟩
    · obtain rfl := Option.some.inj hs
      exact ⟨⟨taken, done, hc.cons, hc.prod, hc.done_le, hc.taken_le, hmove⟩, trivial⟩
  · cases hs

theorem Kept.step (h : Kept r s) (hclean : s.Clean ev) (hs : s.step r ev = some s') :
    Kept r s' := by
  cases ev with
  | xmit skb => exact h.xmit hclean hs
  | next => exact h.next hs
  | submit accepted =>
    obtain rfl : accepted = true := hclean
    exact h.submit hs
  | complete =>
    obtain ⟨⟨taken, done, hc⟩, hintact⟩ := h
    simp only [Tx.step] at hs
    split at hs
    · cases hs
    · next slot inRing hring =>
      exact Option.some.inj hs ▸ ⟨⟨taken, done + 1, hc.complete hring⟩, hintact⟩

def OnTrack (s : Tx) : Prop :=
  match s.pc with
  | .fill skb cursor _ => cursor.fill s.frameId = skb.cursor.fill s.frameId
  | _ => True

theorem OnTrack.step (h : s.OnTrack) (hs : s.step r ev = some s') : s'.OnTrack := by
  cases ev <;> simp only [Tx.step] at hs
  case xmit skb =>
    split at hs
    · repeat' split at hs
      · exact Option.some.inj hs ▸ h
      · exact Option.some.inj hs ▸ trivial
      · exact Option.some.inj hs ▸ rfl
    · cases hs
  case next =>
    split at hs
    · next skb cursor held hpc =>
      simp only [OnTrack, hpc] at h
      split at hs
      · next hlong =>
        split at hs
        · exact Option.some.inj hs ▸ trivial
        · next cursor' hnext =>
          split at hs
          · exact Option.some.inj hs ▸ trivial
          · next s₁ slot hget =>
            obtain ⟨-, rfl, -⟩ := getTxBuffer_eq_some hget
            exact Option.some.inj hs ▸ (Cursor.fill_of_next hlong hnext).symm.trans h
      · split at hs <;> exact Option.some.inj hs ▸ trivial
    · cases hs
  case submit =>
    split at hs
    · split at hs <;> exact Option.some.inj hs ▸ trivial
    · cases hs
  case complete =>
    split at hs
    · cases hs
    · exact Option.some.inj hs ▸ h

/-- The buffers that `tbnet_get_tx_buffer` can give. -/
def availableSlots (r : RingOrder) (s : Tx) : List ℕ := window r.size s.cons.toNat s.available

end Tx

/-- If no packet is dropped with a buffer at hand and the ring takes every frame, every buffer is
available, in the ring or with the call that fills it, and no buffer in the ring is available. -/
theorem tx_buffers_conserved {r : RingOrder} {s : Tx} (hs : (Tx.system r).Reach Tx.Clean s) :
    s.available + s.inRing.length + s.held.length = r.size - 1 ∧
      ∀ slot ∈ s.inRing, slot ∉ s.availableSlots r := by
  have hkept : Tx.Kept r s := by
    apply hs.invariant
    · rintro s rfl
      refine ⟨⟨0, 0, ?_⟩, trivial⟩
      exact ⟨rfl, by simp [Tx.alloc], le_rfl, Nat.zero_le _, rfl⟩
    · intro s ev s' h hclean hstep
      exact h.step hclean hstep
  obtain ⟨⟨taken, done, hc⟩, -⟩ := hkept
  have havailable := hc.available
  have hge := hc.done_le
  have hle := hc.taken_le
  constructor
  · have hlength := congrArg List.length hc.used
    rw [List.length_append, length_window] at hlength
    omega
  · intro slot hslot
    have hused : slot ∈ window r.size done (taken - done) := by
      rw [← hc.used]
      exact List.mem_append_left _ hslot
    have hstart : s.cons.toNat % r.size = (done + (taken - done)) % r.size := by
      rw [hc.cons, BitVec.toNat_ofNat, Nat.mod_mod_of_dvd _ (Tx.size_dvd r)]
      congr 1
      omega
    rw [Tx.availableSlots, window_congr hstart]
    exact disjoint_window (by omega) hused

def smallRing : RingOrder := ⟨8, by decide, by decide⟩

def isClean (_ : Tx) : TxEv → Bool
  | .xmit skb => skb.len ≤ skb.bytes.length && !skb.needsCsum
  | .submit accepted => accepted
  | _ => true

theorem clean_of_isClean {s : Tx} {ev : TxEv} (h : isClean s ev) : s.Clean ev := by
  cases ev <;> simp_all [isClean, Tx.Clean]

theorem tx_buffers_conserved_busy : ∃ s, (Tx.system smallRing).Reach Tx.Clean s ∧
    s.inRing = [0] ∧ s.available + s.inRing.length + s.held.length = smallRing.size - 1 := by
  obtain ⟨s, hs, hgoal⟩ := System.Exec.reach_of_play (Tx.exec smallRing) isClean
    (fun s ↦ s.inRing = [0])
    ([.xmit smallSkb, .next, .submit true] : List TxEv) rfl
    (by decide +kernel)
  have hclean := hs.mono fun _ _ ↦ clean_of_isClean
  exact ⟨s, hclean, of_decide_eq_true hgoal, (tx_buffers_conserved hclean).1⟩

def strangeSkb : Skb := { len := 3, head := [1, 2, 3], needsCsum := true }

/-- A packet that is dropped for its checksum takes a buffer with it; so does a frame that the ring
refuses. -/
theorem tx_buffer_lost :
    (∃ s s', (Tx.system smallRing).Reachable s ∧ s.step smallRing .next = some s' ∧
      s'.held = [] ∧ s'.available + s'.inRing.length = smallRing.size - 2) ∧
    ∃ s s', (Tx.system smallRing).Reachable s ∧ s.step smallRing (.submit false) = some s' ∧
      s'.held = [] ∧ s'.available + s'.inRing.length = smallRing.size - 2 := by
  constructor
  · obtain ⟨s, hs, hgoal⟩ := System.Exec.reach_of_play (Tx.exec smallRing) (fun _ _ ↦ true)
      (fun s ↦ (s.step smallRing .next).any fun s' ↦
        s'.held = [] ∧ s'.available + s'.inRing.length = smallRing.size - 2)
      ([.xmit strangeSkb] : List TxEv) rfl (by decide +kernel)
    obtain ⟨s', hs', hlost⟩ := (Option.any_eq_true _ _).1 hgoal
    exact ⟨s, s', hs.mono fun _ _ _ ↦ trivial, hs', of_decide_eq_true hlost⟩
  · obtain ⟨s, hs, hgoal⟩ := System.Exec.reach_of_play (Tx.exec smallRing) (fun _ _ ↦ true)
      (fun s ↦ (s.step smallRing (.submit false)).any fun s' ↦
        s'.held = [] ∧ s'.available + s'.inRing.length = smallRing.size - 2)
      ([.xmit smallSkb, .next] : List TxEv) rfl (by decide +kernel)
    obtain ⟨s', hs', hlost⟩ := (Option.any_eq_true _ _).1 hgoal
    exact ⟨s, s', hs.mono fun _ _ _ ↦ trivial, hs', of_decide_eq_true hlost⟩

end ThunderboltStack.Tbnet
