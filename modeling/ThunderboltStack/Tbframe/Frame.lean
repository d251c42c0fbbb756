import ThunderboltStack.Tbframe.Machine

/-!
# What each family of steps leaves alone

The components of a link that a family of steps cannot change, and the resulting ownership rule:
while a thread holds `session_lock`, no other thread changes the session fields.
-/

namespace ThunderboltStack.Tbframe

open ThunderboltStack.Lib

section Kick

variable (l : Link) (r : DownReason)

theorem kickLocked_eq :
    ∃ queued, kickLocked l = { l with ctl := { l.ctl with queued := queued } } := by
  unfold kickLocked
  split
  · exact ⟨l.ctl.queued, rfl⟩
  · exact ⟨_, rfl⟩

@[simp]
theorem kickLocked_sess : (kickLocked l).sess = l.sess := by
  obtain ⟨queued, h⟩ := kickLocked_eq l
  rw [h]

@[simp]
theorem kickLocked_sh : (kickLocked l).sh = l.sh := by
  obtain ⟨queued, h⟩ := kickLocked_eq l
  rw [h]

@[simp]
theorem kickLocked_prf : (kickLocked l).prf = l.prf := by
  obtain ⟨queued, h⟩ := kickLocked_eq l
  rw [h]

@[simp]
theorem kickLocked_tx : (kickLocked l).tx = l.tx := by
  obtain ⟨queued, h⟩ := kickLocked_eq l
  rw [h]

@[simp]
theorem kickLocked_hw : (kickLocked l).hw = l.hw := by
  obtain ⟨queued, h⟩ := kickLocked_eq l
  rw [h]

@[simp]
theorem kickLocked_his : (kickLocked l).his = l.his := by
  obtain ⟨queued, h⟩ := kickLocked_eq l
  rw [h]

@[simp]
theorem kickLocked_client : (kickLocked l).ctl.client = l.ctl.client := by
  obtain ⟨queued, h⟩ := kickLocked_eq l
  rw [h]

theorem requestDown_eq : ∃ (reason : DownReason) (queued : Work → Bool),
    requestDown r l = { l with
      sh := { l.sh with needsDown := true, downReason := reason }
      ctl := { l.ctl with queued := queued } } := by
  unfold requestDown
  split
  · next h => exact ⟨l.sh.downReason, l.ctl.queued, by rw [← h]⟩
  · obtain ⟨queued, h⟩ :=
      kickLocked_eq { l with sh := { l.sh with needsDown := true, downReason := r } }
    exact ⟨r, queued, h⟩

@[simp]
theorem requestDown_sess : (requestDown r l).sess = l.sess := by
  obtain ⟨reason, queued, h⟩ := requestDown_eq l r
  rw [h]

@[simp]
theorem requestDown_prf : (requestDown r l).prf = l.prf := by
  obtain ⟨reason, queued, h⟩ := requestDown_eq l r
  rw [h]

@[simp]
theorem requestDown_tx : (requestDown r l).tx = l.tx := by
  obtain ⟨reason, queued, h⟩ := requestDown_eq l r
  rw [h]

@[simp]
theorem requestDown_hw : (requestDown r l).hw = l.hw := by
  obtain ⟨reason, queued, h⟩ := requestDown_eq l r
  rw [h]

@[simp]
theorem requestDown_his : (requestDown r l).his = l.his := by
  obtain ⟨reason, queued, h⟩ := requestDown_eq l r
  rw [h]

@[simp]
theorem requestDown_needsDown : (requestDown r l).sh.needsDown = true := by
  obtain ⟨reason, queued, h⟩ := requestDown_eq l r
  rw [h]

@[simp]
theorem requestDown_state : (requestDown r l).sh.state = l.sh.state := by
  obtain ⟨reason, queued, h⟩ := requestDown_eq l r
  rw [h]

@[simp]
theorem requestDown_helloResponder :
    (requestDown r l).sh.helloResponder = l.sh.helloResponder := by
  obtain ⟨reason, queued, h⟩ := requestDown_eq l r
  rw [h]

@[simp]
theorem requestDown_readyResponder :
    (requestDown r l).sh.readyResponder = l.sh.readyResponder := by
  obtain ⟨reason, queued, h⟩ := requestDown_eq l r
  rw [h]

end Kick

section Assets

variable (h : Hardware) (o : AssetOp) (ans : o.Ans)

theorem asset_apply_eq : ∃ (rings : Bool) (inHopids : List UInt16) (paths : Option UInt16),
    o.apply h ans = { h with rings := rings, inHopids := inHopids, paths := paths } := by
  cases o <;> simp only [AssetOp.apply] <;> (repeat' split) <;> exact ⟨_, _, _, rfl⟩

end Assets

section Completions

variable (current : Bool) (c : RxLocals) (l : Link)

def SameButProof (l l' : Link) : Prop :=
  ∃ (p : DataProof) (queued : Work → Bool),
    l' = { l with prf := p, ctl := { l.ctl with queued := queued } }

theorem proofReject_same : SameButProof l (proofReject c l) := by
  simp only [proofReject]
  split
  · obtain ⟨queued, h⟩ := kickLocked_eq { l with prf := _ }
    exact ⟨_, queued, h⟩
  · exact ⟨_, l.ctl.queued, rfl⟩

theorem rxProof_same : SameButProof l (rxProof c l) := by
  simp only [rxProof]
  split
  · exact ⟨_, l.ctl.queued, rfl⟩
  split
  · exact proofReject_same c { l with prf := _ }
  · exact ⟨_, l.ctl.queued, rfl⟩

theorem rxAccount_same : SameButProof l (rxAccount current c l) := by
  simp only [rxAccount]
  split
  · exact ⟨_, l.ctl.queued, rfl⟩
  split
  · obtain ⟨p, queued, h⟩ := rxProof_same c l
    exact ⟨_, queued, by rw [h]⟩
  split <;> exact ⟨_, l.ctl.queued, rfl⟩

@[simp]
theorem rxAccount_sess : (rxAccount current c l).sess = l.sess := by
  obtain ⟨p, queued, h⟩ := rxAccount_same current c l
  rw [h]

@[simp]
theorem rxAccount_sh : (rxAccount current c l).sh = l.sh := by
  obtain ⟨p, queued, h⟩ := rxAccount_same current c l
  rw [h]

@[simp]
theorem rxAccount_tx : (rxAccount current c l).tx = l.tx := by
  obtain ⟨p, queued, h⟩ := rxAccount_same current c l
  rw [h]

@[simp]
theorem rxAccount_rx : (rxAccount current c l).rx = l.rx := by
  obtain ⟨p, queued, h⟩ := rxAccount_same current c l
  rw [h]

@[simp]
theorem rxAccount_hw : (rxAccount current c l).hw = l.hw := by
  obtain ⟨p, queued, h⟩ := rxAccount_same current c l
  rw [h]

@[simp]
theorem rxAccount_his : (rxAccount current c l).his = l.his := by
  obtain ⟨p, queued, h⟩ := rxAccount_same current c l
  rw [h]

@[simp]
theorem rxAccount_remover : (rxAccount current c l).ctl.remover = l.ctl.remover := by
  obtain ⟨p, queued, h⟩ := rxAccount_same current c l
  rw [h]

@[simp]
theorem rxAccount_refcnt : (rxAccount current c l).ctl.refcnt = l.ctl.refcnt := by
  obtain ⟨p, queued, h⟩ := rxAccount_same current c l
  rw [h]

end Completions

/-! ## Families

`xWrites l l'` is `l` with those fields of `l'` that the family `x` writes; a step of the family
from `l` to `l'` thus leads to `xWrites l l'`.  A view that reads none of these fields is kept by
every step of the family. -/

section Families

variable {cfg : LinkCfg} {t : Tid} {l l' : Link} {α : Type}

/-- `l` with the fields of `l'` that the sections of the dispatch and verify contexts write. -/
def dispWrites (l l' : Link) : Link :=
  { l with
    sh := { l.sh with
      needsDown := l'.sh.needsDown, downReason := l'.sh.downReason
      readyResponder := l'.sh.readyResponder, requestSeq := l'.sh.requestSeq }
    prf := { l.prf with
      dataRxTickMark := l'.prf.dataRxTickMark, silentTicks := l'.prf.silentTicks
      keepaliveTxAckMark := l'.prf.keepaliveTxAckMark, txSilentTicks := l'.prf.txSilentTicks
      dataProven := l'.prf.dataProven, dataRxProven := l'.prf.dataRxProven
      dataTxProven := l'.prf.dataTxProven }
    ctl := { l.ctl with queued := l'.ctl.queued, verifyTimer := l'.ctl.verifyTimer } }

theorem disp_writes (o : DispOp) : dispWrites l (o.exec l).2 = (o.exec l).2 := by
  cases o <;> simp only [DispOp.exec, nextRequestSeq, flushReadyDone, zombieCheck, silenceCheck,
    verifyRearm, armVerifyTimer, keepaliveSupersede, requestDown, kickLocked, queueWork] <;>
    (repeat' split) <;> rfl

/-- `l` with the fields of `l'` that steps without the control channel and the frame pools write,
unless they kill the link. -/
def calmWrites (l l' : Link) : Link :=
  { dispWrites l l' with
    sh := { (dispWrites l l').sh with
      removing := l'.sh.removing, parked := l'.sh.parked
      announcePending := l'.sh.announcePending }
    hw := { l.hw with hwActive := l'.hw.hwActive, outHopid := l'.hw.outHopid }
    ctl := { (dispWrites l l').ctl with
      running := l'.ctl.running, timerShutdown := l'.ctl.timerShutdown
      client := l'.ctl.client, listed := l'.ctl.listed }
    his := { l.his with upcalls := l'.his.upcalls } }

/-- A base step writes only what `calmWrites` copies, or marks the link dead. -/
theorem calm_writes {o : BaseOp} {i : o.Inp} {r : o.Res} (h : o.run cfg i l = some (r, l')) :
    calmWrites l l' = l' ∨ l' = markDead l := by
  cases o with
  | read o =>
    obtain ⟨-, rfl⟩ := Prod.mk.inj (Option.some.inj h)
    exact .inl rfl
  | disp o =>
    obtain rfl := link_of_run h
    rw [← disp_writes o]
    exact .inl rfl
  | hw o =>
    cases o <;> simp only [BaseOp.run, HwOp.exec] at h <;> (repeat' split at h) <;> cases h <;>
      exact .inl rfl
  | ctl o =>
    cases o <;> simp only [BaseOp.run, CtlOp.exec, registerScan, kickLocked, queueWork] at h <;>
      (repeat' split at h) <;> cases h <;> first
      | exact .inl rfl
      | exact .inr rfl

/-- `l` with the fields of `l'` that steps without the control channel and the frame pools
write. -/
def baseWrites (l l' : Link) : Link :=
  { calmWrites l l' with
    sh := { (calmWrites l l').sh with state := l'.sh.state }
    his := { (calmWrites l l').his with accepted := l'.his.accepted, spent := l'.his.spent } }

theorem base_writes {o : BaseOp} {i : o.Inp} {r : o.Res} (h : o.run cfg i l = some (r, l')) :
    baseWrites l l' = l' := by
  obtain hcalm | rfl := calm_writes h
  · rw [← hcalm]
    rfl
  · rfl

/-- `l` with the fields of `l'` that the control channel and its sections write. -/
def netWrites (l l' : Link) : Link :=
  { l with
    sh := { l.sh with
      hs := l'.sh.hs, needsDown := l'.sh.needsDown, downReason := l'.sh.downReason
      helloResponder := l'.sh.helloResponder, readyResponder := l'.sh.readyResponder
      helloAttempts := l'.sh.helloAttempts }
    ctl := { l.ctl with queued := l'.ctl.queued }
    his := { l.his with
      sent := l'.his.sent, byeSeen := l'.his.byeSeen, byeAcked := l'.his.byeAcked
      acking := l'.his.acking } }

theorem net_writes (o : NetOp) (i : o.Inp) : netWrites l (o.exec t l i).2 = (o.exec t l i).2 := by
  cases o <;> simp only [NetOp.exec, handleHello, handleReady, flushReadyTake, handleBye,
    requestDown, kickLocked, queueWork] <;> (repeat' split) <;> rfl

/-- `l` with the fields of `l'` that the sections on the TX pool write. -/
def txWrites (l l' : Link) : Link :=
  { l with
    sh := { l.sh with txQuiesced := l'.sh.txQuiesced }
    prf := { l.prf with keepaliveTxSeq := l'.prf.keepaliveTxSeq }
    tx := l'.tx
    hw := { l.hw with txRing := l'.hw.txRing }
    ctl := { l.ctl with refcnt := l'.ctl.refcnt }
    his := { l.his with
      posted := l'.his.posted, numbered := l'.his.numbered, accepted := l'.his.accepted
      returning := l'.his.returning } }

theorem tx_writes {o : TxOp} {i : o.Inp} {r : o.Res} (h : o.exec cfg t l i = some (r, l')) :
    txWrites l l' = l' := by
  cases o with
  | xmit f preUp =>
    simp only [TxOp.exec, xmitLocked] at h
    cases preUp <;> (repeat' split at h) <;> cases h <;> rfl
  | _ =>
    simp only [TxOp.exec, allocFrameLocked] at h
    (repeat' split at h) <;> cases h <;> rfl

/-- `l` with the fields of `l'` that the sections on the RX pool write. -/
def rxWrites (l l' : Link) : Link :=
  { l with
    prf := l'.prf
    rx := l'.rx
    hw := { l.hw with rxRing := l'.hw.rxRing }
    ctl := { l.ctl with queued := l'.ctl.queued, refcnt := l'.ctl.refcnt }
    his := { l.his with received := l'.his.received, returning := l'.his.returning } }

theorem rx_writes {o : RxOp} {i : o.Inp} {r : o.Res} (h : o.exec t l i = some (r, l')) :
    rxWrites l l' = l' := by
  cases o with
  | complete f c data =>
    cases h
    obtain ⟨p, queued, hsame⟩ := rxAccount_same
      ((l.rx.frames f).rxGeneration == l.sess.dataGeneration) c
      { l with his := { l.his with received := rxEvent f c data l :: l.his.received } }
    simp only [hsame]
    rfl
  | _ =>
    simp only [RxOp.exec, takeRxFree, clientPutRxRef] at h
    (repeat' split at h) <;> cases h <;> rfl

/-- `l` with the fields of `l'` that the sections under `session_lock` write. -/
def sessWrites (l l' : Link) : Link :=
  { l with
    sess := l'.sess
    sh := { l'.sh with
      removing := l.sh.removing, parked := l.sh.parked, requestSeq := l.sh.requestSeq }
    prf := l'.prf
    tx := { l.tx with txBlocked := l'.tx.txBlocked }
    hw := { l.hw with
      rings := l'.hw.rings, running := l'.hw.running, inHopids := l'.hw.inHopids
      paths := l'.hw.paths }
    ctl := { l.ctl with queued := l'.ctl.queued, verifyTimer := l'.ctl.verifyTimer }
    his := { l.his with
      genOpen := l'.his.genOpen, numbered := l'.his.numbered, upcalls := l'.his.upcalls
      downs := l'.his.downs, downing := l'.his.downing, accepted := l'.his.accepted
      spent := l'.his.spent, vacated := l'.his.vacated } }

theorem sess_writes (o : SessOp) (i : o.Inp) :
    sessWrites l (o.exec cfg l i).2 = (o.exec cfg l i).2 := by
  cases o with
  | asset o =>
    obtain ⟨rings, inHopids, paths, h⟩ := asset_apply_eq l.hw o i
    simp only [SessOp.exec, h]
    rfl
  | helloApply remote =>
    simp only [SessOp.exec, helloApply]
    (repeat' split) <;> rfl
  | _ =>
    simp only [SessOp.exec, notifyDownLocked, upcall, readyConfirm, maybeUpLocked,
      upDone, armVerifyTimer, probeFailed, revalidated, requestDown, kickLocked, queueWork]
    (repeat' split) <;> rfl

/-- The session sections that neither negotiate, acquire, release nor publish anything. -/
def SessOp.quiet : SessOp → Bool
  | .helloSelect _ | .notifyDown _ _ | .upcallDown _ | .readyConfirm _ | .upcallUp _ => true
  | .upDone | .markQuiesced | .helloFailed | .readyFailed | .proofUnavailable => true
  | .probeAttempt | .probeFailed | .revalidated _ => true
  | _ => false

/-- `l` with the fields of `l'` that these sections write. -/
def quietWrites (l l' : Link) : Link :=
  { l with
    sess := { l.sess with
      helloSelectionPending := l'.sess.helloSelectionPending
      helloSelectionCaps := l'.sess.helloSelectionCaps, upDelivered := l'.sess.upDelivered }
    sh := { l.sh with
      needsDown := l'.sh.needsDown, downReason := l'.sh.downReason
      txQuiesced := l'.sh.txQuiesced, hs := l'.sh.hs, helloAttempts := l'.sh.helloAttempts }
    prf := { l.prf with
      dataProofUnavailableWarned := l'.prf.dataProofUnavailableWarned
      probeAttempts := l'.prf.probeAttempts, probeFailures := l'.prf.probeFailures
      staleDrainBudget := l'.prf.staleDrainBudget }
    ctl := { l.ctl with queued := l'.ctl.queued, verifyTimer := l'.ctl.verifyTimer }
    his := { l.his with upcalls := l'.his.upcalls } }

theorem quiet_writes {o : SessOp} (i : o.Inp) (ho : o.quiet) :
    quietWrites l (o.exec cfg l i).2 = (o.exec cfg l i).2 := by
  cases o with
  | probeAttempt =>
    simp only [SessOp.exec, probeAttempt]
    (repeat' split) <;> rfl
  | helloSelect | notifyDown | upcallDown | readyConfirm | upcallUp | upDone | markQuiesced
  | helloFailed | readyFailed | proofUnavailable | probeFailed | revalidated =>
    simp only [SessOp.exec, notifyDownLocked, upcall, readyConfirm, upDone, armVerifyTimer,
      probeFailed, revalidated, requestDown, kickLocked, queueWork]
    (repeat' split) <;> rfl
  | _ => cases ho

/-- `l` with the fields of `l'` that the start of a program writes. -/
def beginWrites (l l' : Link) : Link :=
  { l with
    tx := { l.tx with frames := l'.tx.frames }
    rx := { l.rx with frames := l'.rx.frames }
    hw := { l.hw with
      txRing := l'.hw.txRing, rxRing := l'.hw.rxRing, callbacks := l'.hw.callbacks }
    ctl := { l.ctl with
      queued := l'.ctl.queued, running := l'.ctl.running, verifyTimer := l'.ctl.verifyTimer
      shutdownMode := l'.ctl.shutdownMode, remover := l'.ctl.remover, refcnt := l'.ctl.refcnt }
    his := { l.his with dispatching := l'.his.dispatching } }

theorem begin_writes {e : Entry} (h : e.begin t l = some l') : beginWrites l l' = l' := by
  cases e <;> simp only [Entry.begin, startWork, takeFromClient, takeFromTxRing, takeFromRxRing,
    verifyTimerFn, queueWork] at h <;> (repeat' split at h) <;> cases h <;> rfl

/-- `l` with the fields of `l'` that the family of a step writes. -/
def HeldOp.writes : HeldOp → Link → Link → Link
  | .base _ => baseWrites
  | .net _ => netWrites
  | .tx _ => txWrites
  | .rx _ => rxWrites
  | .sess _ => sessWrites

@[inherit_doc HeldOp.writes]
def Op.writes : Op → Link → Link → Link
  | .held o => o.writes
  | .lockSession | .unlockSession => fun l l' ↦
      { l with ctl := { l.ctl with sessionLock := l'.ctl.sessionLock } }
  | .callbackDone => fun l l' ↦ { l with hw := { l.hw with callbacks := l'.hw.callbacks } }
  | .dispatchNext | .putLink | .putCreated | .hwDestroy => fun l l' ↦ { l with
      ctl := { l.ctl with refcnt := l'.ctl.refcnt }
      his := { l.his with dispatching := l'.his.dispatching, created := l'.his.created } }

theorem held_writes {o : HeldOp} {i : o.Inp} {r : o.Res} (h : o.run cfg t i l = some (r, l')) :
    o.writes l l' = l' := by
  cases o with
  | base o => exact base_writes h
  | net o =>
    obtain rfl := link_of_run h
    exact net_writes o i
  | tx o => exact tx_writes h
  | rx o => exact rx_writes h
  | sess o =>
    obtain rfl := link_of_run h
    exact sess_writes o i

theorem run_writes {o : Op} {i : o.Inp} {r : o.Res} (h : o.run cfg t i l = some (r, l')) :
    o.writes l l' = l' := by
  cases o with
  | held o => exact held_writes h
  | _ =>
    simp only [Op.run] at h
    (repeat' split at h) <;> cases h <;> rfl

/-- A view of a link that reads nothing a step writes is the same after the step. -/
theorem view_eq {l₁ : Link} (v : Link → α) (hwrites : l₁ = l') (hv : v l₁ = v l) : v l' = v l := by
  rw [← hwrites, hv]

theorem view_disp (v : Link → α) (o : DispOp) (hv : v (dispWrites l (o.exec l).2) = v l) :
    v (o.exec l).2 = v l :=
  view_eq v (disp_writes o) hv

theorem view_calm (v : Link → α) {o : BaseOp} {i : o.Inp} {r : o.Res}
    (h : o.run cfg i l = some (r, l')) (hv : v (calmWrites l l') = v l) :
    v l' = v l ∨ l' = markDead l :=
  (calm_writes h).imp_left fun hwrites ↦ view_eq v hwrites hv

theorem view_base (v : Link → α) {o : BaseOp} {i : o.Inp} {r : o.Res}
    (h : o.run cfg i l = some (r, l')) (hv : v (baseWrites l l') = v l) : v l' = v l :=
  view_eq v (base_writes h) hv

theorem view_net (v : Link → α) (o : NetOp) (i : o.Inp)
    (hv : v (netWrites l (o.exec t l i).2) = v l) : v (o.exec t l i).2 = v l :=
  view_eq v (net_writes o i) hv

theorem view_tx (v : Link → α) {o : TxOp} {i : o.Inp} {r : o.Res}
    (h : o.exec cfg t l i = some (r, l')) (hv : v (txWrites l l') = v l) : v l' = v l :=
  view_eq v (tx_writes h) hv

theorem view_rx (v : Link → α) {o : RxOp} {i : o.Inp} {r : o.Res}
    (h : o.exec t l i = some (r, l')) (hv : v (rxWrites l l') = v l) : v l' = v l :=
  view_eq v (rx_writes h) hv

theorem view_sess (v : Link → α) (o : SessOp) (i : o.Inp)
    (hv : v (sessWrites l (o.exec cfg l i).2) = v l) : v (o.exec cfg l i).2 = v l :=
  view_eq v (sess_writes o i) hv

theorem view_quiet (v : Link → α) {o : SessOp} (i : o.Inp) (ho : o.quiet)
    (hv : v (quietWrites l (o.exec cfg l i).2) = v l) : v (o.exec cfg l i).2 = v l :=
  view_eq v (quiet_writes i ho) hv

theorem view_begin (v : Link → α) {e : Entry} (h : e.begin t l = some l')
    (hv : v (beginWrites l l') = v l) : v l' = v l :=
  view_eq v (begin_writes h) hv

theorem view_held (v : Link → α) {o : HeldOp} {i : o.Inp} {r : o.Res}
    (h : o.run cfg t i l = some (r, l')) (hv : v (o.writes l l') = v l) : v l' = v l :=
  view_eq v (held_writes h) hv

theorem view_run (v : Link → α) {o : Op} {i : o.Inp} {r : o.Res}
    (h : o.run cfg t i l = some (r, l')) (hv : v (o.writes l l') = v l) : v l' = v l :=
  view_eq v (run_writes h) hv

theorem sess_exec_sessionLock (cfg : LinkCfg) (l : Link) (o : SessOp) (i : o.Inp) :
    (o.exec cfg l i).2.ctl.sessionLock = l.ctl.sessionLock :=
  view_sess (·.ctl.sessionLock) o i rfl

end Families

/-- What belongs to the holder of `session_lock`: the session fields, the lock itself and the
history of the session. -/
def owned (l : Link) : Session × Option Tid × ℕ × Bool × Bool :=
  (l.sess, l.ctl.sessionLock, l.his.downs, l.his.downing, l.his.genOpen)

variable {cfg : LinkCfg} {t u : Tid} {l l' : Link}

/-- Only session sections change what the lock holder owns. -/
theorem owned_held {o : HeldOp} {i : o.Inp} {r : o.Res} (h : o.run cfg u i l = some (r, l')) :
    (∃ s : SessOp, o = .sess s) ∨ owned l' = owned l := by
  cases o with
  | sess o => exact .inl ⟨o, rfl⟩
  | _ => exact .inr (view_held owned h rfl)

end ThunderboltStack.Tbframe
