import ThunderboltStack.Ctl.Channel

/-!
# References of control requests

The counter of a request is the number of those who hold it.  If the completion of every request is
decided once, the reference of its call is dropped once, the owner keeps its own, and the counter of
the channel goes back to zero.
-/

namespace ThunderboltStack.Ctl

open ThunderboltStack.Lib

namespace Req

variable {Pkg : Type} {c : ReqCfg Pkg} {q q' : Req Pkg} {ev : Ev Pkg}

def hasTaken (q : Req Pkg) : Bool :=
  match q.caller with
  | .idle | .acquire | .claim | .take => false
  | _ => true

def isHeld (q : Req Pkg) : Bool :=
  match q.grip with
  | .none => false
  | _ => true

/-- Every reference is that of the owner, of the call, of the receive callback or of the packet in
the transmit ring. -/
structure Balanced (q : Req Pkg) : Prop where
  kref : q.kref = q.own.toNat + q.hasTaken.toNat - q.drops + q.isHeld.toNat + q.txRef.toNat
  unsent : q.isEarly ∨ q.caller = .transmit → q.txRef = false

theorem Balanced.scheduleWork (h : q.Balanced) : q.scheduleWork.Balanced := by
  unfold Req.scheduleWork
  split
  · exact h
  · exact ⟨h.kref, h.unsent⟩

/-- The call goes on, with a reference of its own. -/
theorem Balanced.onward (h : q.Balanced) (htaken : q.hasTaken = true) {caller : Caller}
    (htaken' : Req.hasTaken { q with caller } = true)
    (hnext : Req.isEarly { q with caller } = false ∧ caller ≠ .transmit) :
    Balanced { q with caller } where
  kref := by
    have hkref := h.kref
    rw [htaken] at hkref
    rw [htaken']
    exact hkref
  unsent := by simp [hnext]

/-- A move of the call keeps the references balanced. -/
theorem Balanced.callMove (h : q.Balanced) (hmove : CallMove c q ev q') : q'.Balanced := by
  have hkref := h.kref
  cases hmove with
  | early hcall hnext =>
    have hearly : q.isEarly ∧ q.hasTaken = false := by
      rcases hcall with hcall | hcall | hcall <;> simp [isEarly, hasTaken, hcall]
    have htx := h.unsent (.inl hearly.1)
    rw [hearly.2] at hkref
    rcases hnext with rfl | rfl | rfl <;> exact ⟨hkref, fun _ ↦ htx⟩
  | take hcall =>
    refine ⟨?_, fun _ ↦ h.unsent (.inl (by simp [isEarly, hcall]))⟩
    simp only [hasTaken, isHeld, hcall, Bool.toNat_false, Bool.toNat_true] at hkref ⊢
    omega
  | enqueue hcall _ hnext =>
    have htx := h.unsent (.inl (by simp [isEarly, hcall]))
    simp only [hasTaken, hcall] at hkref
    rcases hnext with rfl | rfl <;> exact ⟨hkref, fun _ ↦ htx⟩
  | transmit hcall =>
    have htx := h.unsent (.inr hcall)
    refine ⟨?_, by simp [isEarly]⟩
    simp only [hasTaken, isHeld, hcall, htx, Bool.toNat_false, Bool.toNat_true] at hkref ⊢
    omega
  | errPut hcall hnext =>
    simp only [hasTaken, isHeld, hcall] at hkref
    rcases hnext with rfl | ⟨-, rfl⟩ <;>
      exact ⟨by simp only [hasTaken, isHeld]; omega, by simp [isEarly]⟩
  | lastPut hcall =>
    simp only [hasTaken, isHeld, hcall] at hkref
    exact ⟨by simp only [hasTaken, isHeld]; omega, by simp [isEarly]⟩
  | post hcall hnext =>
    have htaken : q.hasTaken = true := by simp [hasTaken, hcall]
    rcases hnext with rfl | ⟨-, rfl⟩ <;> exact h.onward htaken rfl ⟨rfl, by simp⟩
  | postQueue hcall _ hnext =>
    have htaken : q.scheduleWork.hasTaken = true := by simp [hasTaken, hcall]
    rcases hnext with rfl | ⟨-, rfl⟩ <;> exact h.scheduleWork.onward htaken rfl ⟨rfl, by simp⟩
  | cancelSchedule hcall =>
    exact h.scheduleWork.onward (by simp [hasTaken, hcall]) rfl ⟨rfl, by simp⟩
  | submit hcall hnext =>
    simp only [hasTaken, hcall] at hkref
    rcases hnext with rfl | ⟨-, rfl⟩ <;> exact ⟨hkref, by simp [isEarly]⟩
  | enqueueFailed hcall | transmitFailed hcall | errDequeue hcall | awake hcall | timeout hcall
  | peerTimeout hcall | expireLocal hcall | expire hcall | cancel hcall | cancelDone hcall
  | flushCall hcall | flushLocal hcall | flushDone hcall | localDone hcall | localTimeout hcall
  | clearHold hcall | lastDequeue hcall | leave hcall =>
    simp only [hasTaken, hcall] at hkref
    exact ⟨hkref, by simp [isEarly]⟩

theorem Balanced.workStep (h : q.Balanced) (hs : q.workStep ev = some q') : q'.Balanced := by
  obtain ⟨hkref, hunsent⟩ := h
  cases ev <;> simp only [Req.workStep, reduceCtorEq] at hs
  case workPut =>
    obtain ⟨-, rfl⟩ := Option.ite_some_none_eq_some.1 hs
    refine ⟨?_, hunsent⟩
    simp only [hasTaken, isHeld] at hkref ⊢
    omega
  all_goals
    obtain ⟨-, rfl⟩ := Option.ite_some_none_eq_some.1 hs
    exact ⟨hkref, hunsent⟩

/-- A step of the receive callback between its lookup and its last put. -/
theorem Balanced.regrip (h : q.Balanced) (hheld : q.isHeld = true) (grip : Grip Pkg)
    (hheld' : Req.isHeld { q with grip } = true) : Balanced { q with grip } where
  kref := by
    have hkref := h.kref
    rw [hheld] at hkref
    rw [hheld']
    exact hkref
  unsent := h.unsent

theorem Balanced.rxMove (h : q.Balanced) (hmove : RxMove c q ev q') : q'.Balanced := by
  cases hmove with
  | find hgrip | findIntermediate hgrip | rxPut hgrip =>
    have hkref := h.kref
    refine ⟨?_, h.unsent⟩
    simp only [isHeld, hgrip, hasTaken, Bool.toNat_false, Bool.toNat_true] at hkref ⊢
    omega
  | rxSchedule hgrip => exact h.scheduleWork.regrip (by simp [isHeld, hgrip]) .put rfl
  | intermediateFail hgrip =>
    have hput := h.regrip (by simp [isHeld, hgrip]) .put rfl
    exact Balanced.scheduleWork ⟨hput.kref, hput.unsent⟩
  | @decide pkg hgrip | @decidePeer pkg hgrip =>
    have hmatched := h.regrip (by simp [isHeld, hgrip]) (.matched pkg) rfl
    exact ⟨hmatched.kref, hmatched.unsent⟩
  | @copy pkg hgrip =>
    have hcopied := h.regrip (by simp [isHeld, hgrip]) (.copied pkg) rfl
    exact ⟨hcopied.kref, hcopied.unsent⟩
  | resultErr hgrip | result hgrip =>
    have hschedule := h.regrip (by simp [isHeld, hgrip]) .schedule rfl
    exact ⟨hschedule.kref, hschedule.unsent⟩
  | decideNone hgrip | part hgrip | intermediate hgrip =>
    have hput := h.regrip (by simp [isHeld, hgrip]) .put rfl
    exact ⟨hput.kref, hput.unsent⟩

theorem Balanced.step (h : q.Balanced) (hs : q.step c ev = some q') : q'.Balanced := by
  have hkref := h.kref
  cases step_cases hs with
  | call hmove => exact h.callMove hmove
  | work hwork => exact h.workStep hwork
  | rx hmove => exact h.rxMove hmove
  | txDone htx =>
    refine ⟨?_, fun _ ↦ rfl⟩
    simp only [htx, isHeld, hasTaken, Bool.toNat_true, Bool.toNat_false] at hkref ⊢
    omega
  | stop => exact Balanced.scheduleWork ⟨h.kref, h.unsent⟩
  | drop _ hown =>
    refine ⟨?_, h.unsent⟩
    simp only [hown, isHeld, hasTaken, Bool.toNat_true, Bool.toNat_false] at hkref ⊢
    omega

/-- All that holds of a request whose completion is decided once. -/
structure Sound (c : ReqCfg Pkg) (q : Req Pkg) : Prop where
  counted : q.Counted
  early : q.isEarly → q.Untouched
  balanced : q.Balanced
  plain : c.localEnabled = false → q.Plain c
  held : c.localEnabled = true → q.Held c

theorem sound_of_reach (h : (Req.system c).Reach (Prompt c) q) : q.Sound c := by
  apply h.invariant
  · rintro q rfl
    exact ⟨rfl, fun _ ↦ ⟨rfl, rfl, rfl, rfl, rfl, rfl⟩, ⟨rfl, fun _ ↦ rfl⟩,
      fun _ ↦ ⟨rfl, by simp [alloc], trivial⟩, fun _ ↦ trivial⟩
  · intro q ev q' h hp hs
    exact ⟨h.counted.step hs, Untouched.step h.early h.counted hs, h.balanced.step hs,
      fun hc ↦ (h.plain hc).step hc h.counted h.early hp hs,
      fun hc ↦ (h.held hc).step hc h.counted h.early hp hs⟩

theorem stage_of_not_early (c : ReqCfg Pkg) (h : q.isEarly = false) :
    q.stage c ≠ .fresh ∧ q.stage c ≠ .taken := by
  unfold stage
  cases hcaller : q.caller <;> simp [isEarly, hcaller] at h ⊢
  all_goals
    split
    · simp
    · split <;> simp

/-- Past its first steps, a request has dropped at most one reference. -/
theorem Plain.drops_le (h : q.Plain c) (hcount : q.Counted) (hearly : q.isEarly = false) :
    q.drops ≤ 1 := by
  have hledger := h.ledger
  unfold Counted at hcount
  cases hst : q.stage c with
  | fresh => exact absurd hst (stage_of_not_early c hearly).1
  | taken => exact absurd hst (stage_of_not_early c hearly).2
  | live | flushing =>
    simp only [hst, PlainAt] at hledger
    by_cases hphase : q.phase = .idle
    · simp only [hphase, if_true, reduceCtorEq, if_false] at hcount hledger
      omega
    · simp only [hphase, if_false] at hcount
      split at hledger <;> omega
  | failing | closed | closedFailed =>
    simp only [hst, PlainAt] at hledger
    omega
  | flushed => simp [hst, PlainAt] at hledger

theorem Held.drops_le (h : q.Held c) (hearly : q.isEarly = false) : q.drops ≤ 1 := by
  unfold Held at h
  cases hst : q.stage c with
  | fresh => exact absurd hst (stage_of_not_early c hearly).1
  | taken => exact absurd hst (stage_of_not_early c hearly).2
  | live | failing | flushing | flushed | closed | closedFailed =>
    simp only [hst, HeldAt] at h
    omega

/-- The reference of the call is dropped at most once, and not before it is taken. -/
theorem Sound.drops_le (h : q.Sound c) : q.drops ≤ q.hasTaken.toNat := by
  cases hearly : q.isEarly with
  | true => simp [(h.early hearly).drops]
  | false =>
    have htaken : q.hasTaken = true := by
      unfold hasTaken
      cases hcaller : q.caller <;> simp [isEarly, hcaller] at hearly ⊢
    rw [htaken]
    cases hc : c.localEnabled with
    | true => exact (h.held hc).drops_le hearly
    | false => exact (h.plain hc).drops_le h.counted hearly

/-- The owner of the request keeps its reference. -/
theorem Sound.kref_pos (h : q.Sound c) (hown : q.own = true) : 0 < q.kref := by
  have hkref := h.balanced.kref
  have hdrops := h.drops_le
  simp only [hown, Bool.toNat_true] at hkref
  omega

/-- The call that started the request has returned, and its work is done; an asynchronous call
returns before its work. -/
def Finished (c : ReqCfg Pkg) (q : Req Pkg) : Prop :=
  (∃ err, q.caller = .returned err) ∧ q.pending = false ∧ q.phase = .idle ∧
    (c.kind = .async → q.failed = true ∨ 1 ≤ q.ended)

theorem Sound.drops_returned (h : q.Sound c) {err : ℤ} (hcaller : q.caller = .returned err)
    (hkind : c.kind ≠ .async) : q.drops = 1 := by
  cases hc : c.localEnabled with
  | true =>
    have hledger := h.held hc
    unfold Held at hledger
    cases hfailed : q.failed <;> simp [stage, hcaller, hfailed, hkind, HeldAt] at hledger <;>
      exact hledger.2.2
  | false =>
    have hledger := (h.plain hc).ledger
    cases hfailed : q.failed <;> simp [stage, hcaller, hfailed, hkind, PlainAt] at hledger
    · exact hledger.2.2
    · exact hledger.2

theorem Sound.drops_finished (h : q.Sound c) (hfinished : q.Finished c) : q.drops = 1 := by
  obtain ⟨⟨err, hcaller⟩, -, hphase, hended⟩ := hfinished
  by_cases hkind : c.kind = .async
  · have hc : c.localEnabled = false := by
      by_contra hne
      have hsync := c.local_sync (by simpa using hne)
      rw [hkind] at hsync
      contradiction
    have hledger := (h.plain hc).ledger
    cases hfailed : q.failed <;> simp [stage, hcaller, hfailed, hkind, PlainAt, hphase] at hledger
    · have hone := (hended hkind).resolve_left (by simp [hfailed])
      have hcount := h.counted
      unfold Counted at hcount
      omega
    · exact hledger.2
  · exact h.drops_returned hcaller hkind

end Req

/-! ## Runs of the channel -/

section Runs

variable {R Pkg : Type} [DecidableEq R] {cfg : R → ReqCfg Pkg} {s : Channel R Pkg}

/-- If the completion of each request is decided once, the reference that its call took is dropped
once and the owner keeps its own until it drops it; and `req_works` is zero when all requests that
were started are finished. -/
theorem request_reference_once
    (hs : (Channel.system cfg).Reach (Channel.Each fun r ↦ Req.Prompt (cfg r)) s) :
    (∀ r, (s.reqs r).drops ≤ 1 ∧ ((s.reqs r).own = true → 0 < (s.reqs r).kref) ∧
      ((s.reqs r).isReturned (cfg r) = true → (s.reqs r).drops = 1) ∧
      ((s.reqs r).Finished (cfg r) → (s.reqs r).drops = 1)) ∧
    ((∀ r, (s.reqs r).caller = .idle ∨ (s.reqs r).Finished (cfg r)) → s.reqWorks = 0) := by
  have hsound (r : R) : (s.reqs r).Sound (cfg r) := Req.sound_of_reach (Channel.reach_req hs r)
  constructor
  · intro r
    refine ⟨?_, (hsound r).kref_pos, ?_, (hsound r).drops_finished⟩
    · exact (hsound r).drops_le.trans (Bool.toNat_le _)
    · intro hreturned
      unfold Req.isReturned at hreturned
      split at hreturned
      · next err hcaller => exact (hsound r).drops_returned hcaller (by simpa using hreturned)
      · contradiction
  · intro hall
    apply (Channel.accounted_of_reach hs).eq_zero
    intro r
    rcases hall r with hidle | ⟨⟨err, hcaller⟩, hpending, hphase, -⟩
    · have hearly : (s.reqs r).isEarly = true := by simp [Req.isEarly, hidle]
      have hzero := ((hsound r).early hearly).queued
      obtain ⟨hpending, hphase⟩ := (hsound r).counted.idle (by simp [hzero])
      exact ⟨hpending, hphase, by simp [Channel.slotted, hidle]⟩
    · exact ⟨hpending, hphase, by simp [Channel.slotted, hcaller]⟩

end Runs

def genericCfg : ReqCfg Unit where
  kind := .sync
  ownsCommandSlot := true
  isMatch _ := true
  copy _ := .complete (some 0) (some 0)

def firmwareCfg : ReqCfg Bool where
  kind := .sync
  parts := 2
  ownsCommandSlot := true
  isMatch _ := true
  copy last := if last then .complete (some 1) none else .part (some 0)

def events {Pkg : Type} (evs : List (Ev Pkg)) : List (Op Unit Pkg) := evs.map (.req ())

def sendRun {Pkg : Type} : List (Op Unit Pkg) :=
  .ctlStart :: events [.enter, .acquire, .claim, .take, .enqueue 0, .transmit 0, .post, .txDone]

def copyRun {Pkg : Type} : List (Op Unit Pkg) := events [.copy, .result, .rxSchedule, .rxPut]

def replyRun {Pkg : Type} (pkg : Pkg) : List (Op Unit Pkg) :=
  sendRun ++ events [.find pkg, .decide] ++ copyRun ++
    events [.workBegin, .workCallback, .workTest, .workDequeue, .workPut, .workEnd,
      .awake, .flushCall, .flushDone, .leave]

/-- What `replyRun` needs: the work is queued once. -/
def queuesOnce (s : Channel Unit Unit) : Op Unit Unit → Bool
  | .req _ .rxSchedule => (s.reqs ()).queued = 0 ∧ (s.reqs ()).failed = false
  | .req _ (.transmit ret) => ret = 0
  | .req _ .cancelSchedule | .req _ .stop | .req _ .intermediate => false
  | _ => true

theorem prompt_of_queuesOnce {s : Channel Unit Unit} {op : Op Unit Unit} (h : queuesOnce s op) :
    Channel.Each (fun _ ↦ Req.Prompt genericCfg) s op := by
  cases op with
  | req r ev =>
    cases ev <;> simp [queuesOnce, Channel.Each, Req.Prompt, Req.MayQueue, genericCfg] at h ⊢
    · exact fun hret ↦ absurd h hret
    · exact .inr h
  | ctlStart | enterTeardown | stopBegin | stopRings | stopWalk | stopEnd => trivial

theorem request_reference_once_reply : ∃ s,
    (Channel.system fun _ : Unit ↦ genericCfg).Reach
      (Channel.Each fun _ ↦ Req.Prompt genericCfg) s ∧
    (s.reqs ()).Finished genericCfg ∧ (s.reqs ()).drops = 1 ∧ s.reqWorks = 0 := by
  obtain ⟨s, hs, hgoal⟩ := System.Exec.reach_of_play (Channel.exec fun _ : Unit ↦ genericCfg)
    queuesOnce (fun s ↦ (s.reqs ()).caller = .returned 0 ∧ (s.reqs ()).pending = false ∧
      (s.reqs ()).phase = .idle) (replyRun ()) rfl (by decide +kernel)
  obtain ⟨hcaller, hpending, hphase⟩ := of_decide_eq_true hgoal
  have hreach := hs.mono fun _ _ ↦ prompt_of_queuesOnce
  have hfinished : (s.reqs ()).Finished genericCfg :=
    ⟨⟨0, hcaller⟩, hpending, hphase, by simp [genericCfg]⟩
  have hbalance := request_reference_once hreach
  exact ⟨s, hreach, hfinished, (hbalance.1 ()).2.2.2 hfinished, hbalance.2 fun _ ↦ .inr hfinished⟩

/-- A second packet matches a request whose work already runs: the work runs twice, and the second
run takes the reference of the owner. -/
theorem request_reference_twice : ∃ s, (Channel.system fun _ : Unit ↦ genericCfg).Reachable s ∧
    (s.reqs ()).drops = 2 ∧ (s.reqs ()).own = true ∧ (s.reqs ()).kref = 0 := by
  obtain ⟨s, hs, hgoal⟩ := System.Exec.reach_of_play (Channel.exec fun _ : Unit ↦ genericCfg)
    (fun _ _ ↦ true) (fun s ↦ (s.reqs ()).drops = 2 ∧ (s.reqs ()).own = true ∧
      (s.reqs ()).kref = 0)
    (sendRun ++ events [.find (), .decide] ++ copyRun ++
      events [.workBegin, .workCallback, .find (), .decide, .workTest, .workDequeue, .workPut,
        .workEnd] ++ copyRun ++
      events [.workBegin, .workCallback, .workTest, .workDequeue, .workPut])
    rfl (by decide +kernel)
  exact ⟨s, hs.mono fun _ _ _ ↦ trivial, of_decide_eq_true hgoal⟩

end ThunderboltStack.Ctl
