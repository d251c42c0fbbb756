import ThunderboltStack.Tbframe.Publication
import ThunderboltStack.Tbframe.TxOwner

/-!
# The use of the rings

A link starts its rings only when the last completion callback of their previous use returned, opens
a generation only then, and tells its client of a down only after that.  The rings are *spent* once
they were stopped, or the link left UP, since they were started last; rings that are spent belong to
no session that is UP.
-/

namespace ThunderboltStack.Tbframe

open ThunderboltStack.Lib Machine

/-- The rings are stopped, hold nothing, and no callback of theirs is running. -/
def RingsIdle (l : Link) : Prop :=
  l.hw.running = false ∧ l.hw.txRing = [] ∧ l.hw.rxRing = [] ∧ l.hw.callbacks = []

/-- The frame is in the backlog, with the ring, or on its way between them or back. -/
def TxLoc.pending : TxLoc → Bool
  | .queued | .posting _ | .ring | .done _ => true
  | _ => false

/-- Rings that are spent belong to no session that is UP, and accepted frames are pending. -/
structure Lossless (l : Link) : Prop where
  spent : l.his.spent = true → l.sh.state ≠ .up
  stopped : l.hw.running = false → l.his.spent = true
  closed : l.his.spent = true → l.sess.ringsUp = false ∨ l.sh.state = .dead
  quiet : l.ctl.sessionLock = none → l.sess.ringsUp = true ∨ RingsIdle l
  down : l.sh.state ≠ .up → l.his.accepted = []
  pending : ∀ f ∈ l.his.accepted, (l.tx.frames f).loc.pending

/-- Frames are cancelled only for spent rings, rings are started only when they are idle, and they
are idle when a generation is opened and when the client is told of a down. -/
def LossPre : Op → Link → Prop
  | .held (.tx (.complete _ true)), l => l.his.spent = true
  | .held (.sess .bringUpBegin), l | .held (.sess .startRings), l => RingsIdle l
  | .held (.sess .stopRings), l => l.sess.ringsUp = false
  | .held (.sess (.bringUpDone _)), l => l.his.spent = false ∨ l.sh.state = .dead
  | .held (.sess (.upcallDown _)), l => l.sess.ringsUp = false ∧ RingsIdle l
  | .unlockSession, l => l.sess.ringsUp = true ∨ RingsIdle l
  | _, _ => True

def RingPre (o : Op) (l : Link) : Prop :=
  (∀ f, o ≠ .held (.tx (.complete f true))) → LossPre o l

section Steps

variable {cfg : LinkCfg} {t u : Tid} {l l' : Link} {f : ℕ}

/-- A step that neither starts, stops nor hands over the rings: it may at most kill the link. -/
structure Drift (l l' : Link) : Prop where
  ringsUp : l'.sess.ringsUp = l.sess.ringsUp
  running : l'.hw.running = l.hw.running
  idle : RingsIdle l → RingsIdle l'
  state : l'.sh.state = l.sh.state ∧ l'.his.spent = l.his.spent ∨
    l'.sh.state = .dead ∧ l'.his.spent = true

def ringsView (l : Link) :
    Bool × (Bool × List ℕ × List ℕ × List Tid) × LinkState × Bool × List ℕ :=
  (l.sess.ringsUp, (l.hw.running, l.hw.txRing, l.hw.rxRing, l.hw.callbacks), l.sh.state,
    l.his.spent, l.his.accepted)

theorem Drift.of_view (h : ringsView l' = ringsView l) : Drift l l' := by
  simp only [ringsView, Prod.mk.injEq] at h
  obtain ⟨hrings, ⟨hrunning, htx, hrx, hcallbacks⟩, hstate, hspent, -⟩ := h
  refine ⟨hrings, hrunning, ?_, .inl ⟨hstate, hspent⟩⟩
  rw [RingsIdle, RingsIdle, hrunning, htx, hrx, hcallbacks]
  exact id

theorem drift_markDead : Drift l (markDead l) :=
  ⟨rfl, rfl, id, .inr ⟨rfl, rfl⟩⟩

theorem drift_base {o : BaseOp} {i : o.Inp} {r : o.Res} (h : o.run cfg i l = some (r, l')) :
    Drift l l' := by
  obtain hview | rfl := view_calm ringsView h rfl
  · exact .of_view hview
  · exact drift_markDead

theorem ringsView_rx {o : RxOp} {i : o.Inp} {r : o.Res} (h : o.exec t l i = some (r, l')) :
    ringsView l' = ringsView l ∨ l.hw.running = true ∧ ∃ f, l' = postRxAccept f l := by
  cases o <;> simp only [RxOp.exec, takeRxFree, clientPutRxRef] at h <;> (repeat' split at h) <;>
    cases h <;> first
    | exact .inl rfl
    | exact .inr ⟨by assumption, _, rfl⟩
    | exact .inl (by simp [ringsView])

theorem drift_rx {o : RxOp} {i : o.Inp} {r : o.Res} (h : o.exec t l i = some (r, l')) :
    Drift l l' := by
  obtain hview | ⟨hrunning, f, rfl⟩ := ringsView_rx h
  · exact .of_view hview
  · exact ⟨rfl, rfl, fun hidle ↦ by simp [hidle.1] at hrunning, .inl ⟨rfl, rfl⟩⟩

theorem drift_tx {o : TxOp} {i : o.Inp} {r : o.Res} (h : o.exec cfg t l i = some (r, l')) :
    Drift l l' := by
  cases o <;> simp only [TxOp.exec, allocFrameLocked, xmitLocked] at h <;>
    (repeat' split at h) <;> cases h <;> first
    | exact ⟨rfl, rfl, id, .inl ⟨rfl, rfl⟩⟩
    | next hrunning =>
      exact ⟨rfl, rfl, fun hidle ↦ by simp [hidle.1] at hrunning, .inl ⟨rfl, rfl⟩⟩

/-- The session sections that neither start, stop nor hand over the rings, nor publish the link. -/
def SessOp.drifts : SessOp → Bool
  | .startRings | .stopRings | .bringUpDone _ | .downBegin _ | .quarantined | .maybeUp => false
  | _ => true

theorem ringsView_sess {o : SessOp} (i : o.Inp) (h : o.drifts) :
    ringsView (o.exec cfg l i).2 = ringsView l ∨ (o.exec cfg l i).2 = markDead l := by
  cases o with
  | startRings | stopRings | bringUpDone | downBegin | quarantined | maybeUp => cases h
  | markDead => exact .inr rfl
  | asset o =>
    left
    cases o <;> simp only [SessOp.exec, AssetOp.apply] <;> (repeat' split) <;>
      rfl
  | _ =>
    left
    simp only [SessOp.exec, helloSelect, helloApply, bringUpBegin, setRingsAllocated, holdInHopid,
      setPathsOwned, bringUpUndo, notifyDownLocked, upcall, readyConfirm, upDone, markQuiesced,
      pathsGone, downEnd, helloFailed, readyFailed, proofUnavailable, probeAttempt, probeFailed,
      revalidated]
    (repeat' split) <;> simp [ringsView]

theorem drift_sess {o : SessOp} (i : o.Inp) (h : o.drifts) : Drift l (o.exec cfg l i).2 := by
  obtain hview | hdead := ringsView_sess i h
  · exact .of_view hview
  · exact hdead ▸ drift_markDead

def HeldOp.Drifts : HeldOp → Prop
  | .sess o => o.drifts
  | _ => True

theorem drift_held {o : HeldOp} {i : o.Inp} {r : o.Res} (ho : o.Drifts)
    (h : o.run cfg t i l = some (r, l')) : Drift l l' := by
  cases o with
  | base o => exact drift_base h
  | net o => exact .of_view (view_held ringsView h rfl)
  | tx o => exact drift_tx h
  | rx o => exact drift_rx h
  | sess o =>
    obtain rfl := link_of_run h
    exact drift_sess i ho

/-- Rings that are idle have nothing to hand back. -/
theorem drift_begin {e : Entry} (h : e.begin t l = some l') : Drift l l' := by
  cases e with
  | txComplete f canceled =>
    simp only [Entry.begin, takeFromTxRing] at h
    split at h <;> cases h
    next htaken =>
    exact ⟨rfl, rfl, fun hidle ↦ by simp [hidle.2.1] at htaken, .inl ⟨rfl, rfl⟩⟩
  | rxComplete f canceled len pdf bad data =>
    simp only [Entry.begin, takeFromRxRing] at h
    split at h <;> cases h
    next htaken =>
    exact ⟨rfl, rfl, fun hidle ↦ by simp [hidle.2.2.1] at htaken, .inl ⟨rfl, rfl⟩⟩
  | _ =>
    simp only [Entry.begin, startWork, takeFromClient, verifyTimerFn] at h
    (repeat' split at h) <;> cases h <;> exact .of_view rfl

/-- Apart from the session sections every step drifts. -/
theorem drift_run {o : Op} {i : o.Inp} {r : o.Res} (ho : ∀ s, o = .held (.sess s) → s.drifts)
    (h : o.run cfg t i l = some (r, l')) : Drift l l' := by
  cases o with
  | held o =>
    refine drift_held ?_ h
    cases o with
    | sess s => exact ho s rfl
    | _ => trivial
  | callbackDone =>
    cases h
    exact ⟨rfl, rfl, fun hidle ↦ ⟨hidle.1, hidle.2.1, hidle.2.2.1, by simp [hidle.2.2.2]⟩,
      .inl ⟨rfl, rfl⟩⟩
  | _ =>
    simp only [Op.run] at h
    (repeat' split at h) <;> cases h <;> exact ⟨rfl, rfl, id, .inl ⟨rfl, rfl⟩⟩

/-! ## Accepted frames -/

/-- A pending frame stays pending until the ring refuses it to its sender or it is completed. -/
theorem pending_tx {o : TxOp} {i : o.Inp} {r : o.Res} (howned : TxOwned l)
    (hpre : TxPre t (.held (.tx o)) l) (h : o.exec cfg t l i = some (r, l'))
    (hf : (l.tx.frames f).loc.pending) :
    (l'.tx.frames f).loc.pending ∨ o = .ringErr f ∨ ∃ canceled, o = .complete f canceled := by
  have hupdate : ∀ {g : ℕ} {fr : TxFrame}, (f = g → fr.loc.pending) →
      (Function.update l.tx.frames g fr f).loc.pending := by
    intro g fr hfr
    by_cases hfg : f = g
    · subst hfg
      simpa using hfr rfl
    · simpa [hfg] using hf
  have hheld : ∀ {g : ℕ}, (l.tx.frames g).loc = .held t → f ≠ g := by
    rintro g hg rfl
    simp [hg, TxLoc.pending] at hf
  cases o with
  | alloc len isCtrl preUp =>
    simp only [TxOp.exec, allocFrameLocked] at h
    split at h
    · cases h
      exact .inl hf
    split at h
    · cases h
      exact .inl hf
    split at h
    · cases h
      exact .inl hf
    · next g rest hfree =>
      cases h
      refine .inl (hupdate fun hfg ↦ ?_)
      have hloc := (howned.placed g).free (hfree ▸ List.mem_cons_self)
      simp [hfg, hloc, TxLoc.pending] at hf
  | build g dir =>
    cases h
    exact .inl (hupdate fun hfg ↦ absurd hfg (hheld hpre.1))
  | xmit g preUp =>
    simp only [TxOp.exec, xmitLocked] at h
    (repeat' split at h) <;> cases h <;> first
      | exact .inl hf
      | exact .inl (hupdate fun _ ↦ rfl)
  | ringTx g =>
    simp only [TxOp.exec] at h
    (repeat' split at h) <;> cases h
    · exact .inl (hupdate fun _ ↦ rfl)
    · exact .inl hf
  | ringErr g =>
    cases h
    by_cases hfg : f = g
    · exact .inr (.inl (hfg ▸ rfl))
    · exact .inl (hupdate fun heq ↦ absurd heq hfg)
  | refillErr g =>
    cases h
    exact .inl (hupdate fun _ ↦ rfl)
  | splice =>
    cases h
    left
    simp only [spliceQueues]
    split
    · rfl
    · exact hf
  | free g =>
    cases h
    exact .inl (hupdate fun hfg ↦ absurd hfg (hheld hpre))
  | complete g canceled =>
    by_cases hfg : f = g
    · exact .inr (.inr ⟨canceled, hfg ▸ rfl⟩)
    · cases h
      left
      have hreturned : ((txReturn t g { l with tx := txUnpost g canceled l.tx }).2.tx.frames f).loc =
          (l.tx.frames f).loc := by
        simp only [txReturn, txUnpost]
        split <;> simp [hfg]
      rw [← hreturned] at hf
      obtain heq | ⟨n, tx, htake, -, heq⟩ | heq := txRefill_cases cfg t
        (txReturn t g { l with tx := txUnpost g canceled l.tx }).2 canceled
      all_goals simp only [heq]
      · exact hf
      · have hframes := congrArg TxPool.frames (takeQueued_eq htake).1
        simp only [postTx, hframes]
        by_cases hn : f = n
        · subst hn
          simp [TxLoc.pending]
        · simpa [hn] using hf
      · simp only [spliceQueues]
        split
        · rfl
        · exact hf
  | toClient g =>
    cases h
    exact .inl (hupdate fun hfg ↦ absurd hfg (hheld hpre))
  | putLink =>
    cases h
    exact .inl hf

/-- The frames that are accepted after a TX section were accepted before and are not settled by it,
or `__tbframe_xmit` has just accepted them. -/
theorem accepted_tx {o : TxOp} {i : o.Inp} {r : o.Res} (h : o.exec cfg t l i = some (r, l'))
    (hf : f ∈ l'.his.accepted) :
    f ∈ l.his.accepted ∧ o ≠ .ringErr f ∧ (∀ canceled, o ≠ .complete f canceled) ∨
      l.sh.state = .up ∧ (l'.tx.frames f).loc.pending := by
  cases o with
  | xmit g preUp =>
    by_cases hg : f = g ∧ xmitAdmitted false l ∧ preUp = false
    · right
      obtain ⟨rfl, hadmitted, rfl⟩ := hg
      have hup := hadmitted
      simp only [xmitAdmitted, Bool.and_eq_true, Bool.false_eq_true, if_false, beq_iff_eq] at hup
      refine ⟨hup.2, ?_⟩
      simp only [TxOp.exec, xmitLocked, hadmitted, Bool.not_true, Bool.false_eq_true, if_false] at h
      split at h <;> cases h <;> simp [enqueueTx, postTx, TxLoc.pending]
    · left
      refine ⟨?_, by simp, by simp⟩
      simp only [TxOp.exec, xmitLocked] at h
      (repeat' split at h) <;> cases h <;> simp_all [recordAccepted]
  | ringErr g =>
    cases h
    have hf : f ∈ l.his.accepted ∧ f ≠ g := by
      simpa [xmitRingErr, unpost, recordSettled] using hf
    exact .inl ⟨hf.1, by simpa using Ne.symm hf.2, by simp⟩
  | complete g canceled =>
    cases h
    have hf : f ∈ l.his.accepted ∧ f ≠ g := by
      simpa [txCompleteLocked, txReturn, recordSettled] using hf
    exact .inl ⟨hf.1, by simp, by simpa using fun heq ↦ absurd heq.symm hf.2⟩
  | _ =>
    simp only [TxOp.exec, allocFrameLocked] at h
    (repeat' split at h) <;> cases h <;>
      exact .inl ⟨hf, by simp, by simp⟩

/-- A TX section settles an accepted frame only if the ring refuses it to its sender, or if it
completes it. -/
theorem accepted_of_tx {o : TxOp} {i : o.Inp} {r : o.Res} (h : o.exec cfg t l i = some (r, l'))
    (hf : f ∈ l.his.accepted) :
    f ∈ l'.his.accepted ∨ o = .ringErr f ∨ ∃ canceled, o = .complete f canceled := by
  cases o with
  | ringErr g =>
    cases h
    by_cases hg : f = g
    · exact .inr (.inl (hg ▸ rfl))
    · exact .inl (by simpa [xmitRingErr, unpost, recordSettled] using ⟨hf, hg⟩)
  | complete g canceled =>
    cases h
    by_cases hg : f = g
    · exact .inr (.inr ⟨canceled, hg ▸ rfl⟩)
    · exact .inl (by simpa [txCompleteLocked, txReturn, recordSettled] using ⟨hf, hg⟩)
  | _ =>
    simp only [TxOp.exec, allocFrameLocked, xmitLocked] at h
    (repeat' split at h) <;> cases h <;> left <;> first
      | exact hf
      | simp only [recordAccepted]
        split <;> first
          | exact hf
          | exact List.mem_cons_of_mem _ hf

theorem Lossless.drift (h : Lossless l) (hdrift : Drift l l')
    (hlock : l'.ctl.sessionLock = l.ctl.sessionLock)
    (hdown : l'.sh.state ≠ .up → l'.his.accepted = [])
    (hpending : ∀ f ∈ l'.his.accepted, (l'.tx.frames f).loc.pending) : Lossless l' := by
  obtain ⟨hrings, hrunning, hidle, hstate⟩ := hdrift
  refine ⟨fun hspent ↦ ?_, fun hstopped ↦ ?_, fun hspent ↦ ?_, fun hfree ↦ ?_, hdown, hpending⟩
  · obtain ⟨hstate, hkept⟩ | ⟨hdead, -⟩ := hstate
    · rw [hstate]
      exact h.spent (hkept ▸ hspent)
    · simp [hdead]
  · obtain ⟨-, hkept⟩ | ⟨-, hspent⟩ := hstate
    · rw [hkept]
      exact h.stopped (hrunning ▸ hstopped)
    · exact hspent
  · obtain ⟨hstate, hkept⟩ | ⟨hdead, -⟩ := hstate
    · rw [hrings, hstate]
      exact h.closed (hkept ▸ hspent)
    · exact .inr hdead
  · rw [hrings]
    exact (h.quiet (hlock ▸ hfree)).imp_right hidle

theorem Lossless.congr (h : Lossless l) (hview : ringsView l' = ringsView l)
    (hframes : l'.tx.frames = l.tx.frames) (hlock : l'.ctl.sessionLock = l.ctl.sessionLock) :
    Lossless l' := by
  have hstate : l'.sh.state = l.sh.state := congrArg (·.2.2.1) hview
  have haccepted : l'.his.accepted = l.his.accepted := congrArg (·.2.2.2.2) hview
  refine h.drift (.of_view hview) hlock ?_ ?_
  · rw [hstate, haccepted]
    exact h.down
  · rw [hframes, haccepted]
    exact h.pending

theorem lossless_markDead (h : Lossless l) : Lossless (markDead l) :=
  h.drift drift_markDead rfl (fun _ ↦ rfl) (by simp [markDead])

theorem lossless_tx {o : TxOp} {i : o.Inp} {r : o.Res} (h : Lossless l) (howned : TxOwned l)
    (hpre : TxPre t (.held (.tx o)) l) (hrun : o.exec cfg t l i = some (r, l')) : Lossless l' := by
  refine h.drift (drift_tx hrun) (view_tx (·.ctl.sessionLock) hrun rfl) (fun hstate ↦ ?_)
    fun f hf ↦ ?_
  · rw [view_tx (·.sh.state) hrun rfl] at hstate
    refine List.eq_nil_iff_forall_not_mem.2 fun f hf ↦ ?_
    obtain ⟨hold, -⟩ | ⟨hup, -⟩ := accepted_tx hrun hf
    · rw [h.down hstate] at hold
      cases hold
    · exact hstate hup
  · obtain ⟨hold, hring, hcomplete⟩ | ⟨-, hpending⟩ := accepted_tx hrun hf
    · obtain hpending | heq | ⟨canceled, heq⟩ := pending_tx howned hpre hrun (h.pending f hold)
      · exact hpending
      · exact absurd heq hring
      · exact absurd heq (hcomplete canceled)
    · exact hpending

theorem lossless_maybeUp (h : Lossless l) : Lossless (maybeUpLocked cfg l).2 := by
  unfold maybeUpLocked
  split
  · next hready =>
    simp only [Bool.and_eq_true, beq_iff_eq] at hready
    obtain ⟨⟨⟨⟨⟨⟨hinit, -⟩, -⟩, -⟩, hrings⟩, -⟩, -⟩ := hready
    -- rings that are up are not spent
    have hfresh : l.his.spent = false := by
      cases hspent : l.his.spent with
      | false => rfl
      | true => simpa [hrings, hinit] using h.closed hspent
    exact { spent := by simp [hfresh], stopped := h.stopped, closed := by simp [hfresh]
            quiet := h.quiet, down := by simp, pending := h.pending }
  split
  · exact h.congr rfl rfl rfl
  · exact h

/-- The session sections keep the accepted frames pending. -/
theorem lossless_sess (o : SessOp) (i : o.Inp) (h : Lossless l) (hphased : Phased l)
    (hlock : LockPre t (.held (.sess o)) l) (hpre : LossPre (.held (.sess o)) l) :
    Lossless (o.exec cfg l i).2 := by
  have hlocked : l.ctl.sessionLock = some t := hlock
  cases hdrifts : o.drifts with
  | true =>
    obtain hview | hdead := ringsView_sess i hdrifts
    · exact h.congr hview (view_sess (·.tx.frames) o i rfl) (sess_exec_sessionLock cfg l o i)
    · exact hdead ▸ lossless_markDead h
  | false =>
    cases o with
    | startRings =>
      exact { spent := by simp [SessOp.exec, startRings]
              stopped := by simp [SessOp.exec, startRings]
              closed := by simp [SessOp.exec, startRings]
              quiet := by simp [SessOp.exec, startRings, hlocked]
              down := h.down, pending := h.pending }
    | stopRings =>
      have hrings : l.sess.ringsUp = false := hpre
      exact { spent := fun _ ↦ hphased.notUp hrings, stopped := fun _ ↦ rfl
              closed := fun _ ↦ .inl hrings, quiet := by simp [SessOp.exec, stopRunning, hlocked]
              down := h.down, pending := h.pending }
    | bringUpDone e2e =>
      have hpre : l.his.spent = false ∨ l.sh.state = .dead := hpre
      refine { spent := h.spent, stopped := h.stopped, closed := fun hspent ↦ .inr ?_
               quiet := fun _ ↦ .inl rfl, down := h.down, pending := h.pending }
      obtain hfresh | hdead := hpre
      · rw [show l.his.spent = true from hspent] at hfresh
        cases hfresh
      · exact hdead
    | downBegin owner =>
      exact { spent := fun _ ↦ by simp only [SessOp.exec, downBegin]; split <;> simp
              stopped := fun _ ↦ rfl, closed := fun _ ↦ .inl rfl
              quiet := by simp [SessOp.exec, downBegin, hlocked]
              down := fun _ ↦ rfl, pending := by simp [SessOp.exec, downBegin] }
    | quarantined =>
      exact { spent := by simp [SessOp.exec, quarantined], stopped := fun _ ↦ rfl
              closed := fun _ ↦ .inl rfl, quiet := by simp [SessOp.exec, quarantined, hlocked]
              down := fun _ ↦ rfl, pending := by simp [SessOp.exec, quarantined] }
    | maybeUp => exact lossless_maybeUp h
    | _ => cases hdrifts

theorem lossless_held {o : HeldOp} {i : o.Inp} {r : o.Res} (h : Lossless l) (hphased : Phased l)
    (howned : TxOwned l) (hlock : LockPre t (.held o) l) (htx : TxPre t (.held o) l)
    (hpre : RingPre (.held o) l) (hrun : o.run cfg t i l = some (r, l')) : Lossless l' := by
  cases o with
  | base o =>
    obtain hview | rfl := view_calm ringsView hrun rfl
    · exact h.congr hview (view_held (·.tx.frames) hrun rfl) (held_run_lock hrun)
    · exact lossless_markDead h
  | net o =>
    exact h.congr (view_held ringsView hrun rfl) (view_held (·.tx.frames) hrun rfl)
      (held_run_lock hrun)
  | tx o => exact lossless_tx h howned htx hrun
  | rx o =>
    obtain hview | ⟨-, f, rfl⟩ := ringsView_rx hrun
    · exact h.congr hview (view_held (·.tx.frames) hrun rfl) (held_run_lock hrun)
    · exact h.drift (drift_rx hrun) (held_run_lock hrun) h.down h.pending
  | sess o =>
    obtain rfl := link_of_run hrun
    exact lossless_sess o i h hphased hlock (hpre (by simp))

/-- Every step keeps the accepted frames pending. -/
theorem lossless_run {o : Op} {i : o.Inp} {r : o.Res} (h : Lossless l)
    (hG : Settled cfg l (.exec t o i)) (hpre : RingPre o l)
    (hrun : o.run cfg t i l = some (r, l')) : Lossless l' := by
  cases o with
  | held o =>
    exact lossless_held h hG.1.2.1.phased hG.2.1 hG.1.1.1.2.2 hG.2.2 hpre hrun
  | lockSession =>
    simp only [Op.run] at hrun
    split at hrun <;> cases hrun
    exact { h with quiet := by simp }
  | unlockSession =>
    simp only [Op.run] at hrun
    split at hrun <;> cases hrun
    exact { h with quiet := fun _ ↦ hpre (by simp) }
  | callbackDone =>
    exact h.drift (drift_run (by simp) hrun) (by cases hrun; rfl) (by cases hrun; exact h.down)
      (by cases hrun; exact h.pending)
  | _ =>
    exact h.congr (view_run ringsView hrun rfl) (view_run (·.tx.frames) hrun rfl)
      (view_run (·.ctl.sessionLock) hrun rfl)

/-- The start of an event keeps the accepted frames pending. -/
theorem lossless_begin {e : Entry} (h : Lossless l)
    (hbegin : e.begin t l = some l') : Lossless l' := by
  have haccepted := view_begin (·.his.accepted) hbegin rfl
  refine h.drift (drift_begin hbegin) (view_begin (·.ctl.sessionLock) hbegin rfl) ?_ fun f hf ↦ ?_
  · rw [view_begin (·.sh.state) hbegin rfl, haccepted]
    exact h.down
  · rw [haccepted] at hf
    have hf := h.pending f hf
    have hclient : ∀ g, takeFromClient t g l = some l' → (l'.tx.frames f).loc.pending := by
      intro g htake
      unfold takeFromClient at htake
      split at htake <;> cases htake
      next hloc =>
      have hne : f ≠ g := by
        rintro rfl
        simp [hloc, TxLoc.pending] at hf
      simpa [hne] using hf
    cases e with
    | txComplete g canceled =>
      simp only [Entry.begin, takeFromTxRing] at hbegin
      split at hbegin <;> cases hbegin
      by_cases hfg : f = g
      · subst hfg
        simp [TxLoc.pending]
      · simpa [hfg] using hf
    | xmit g | frameFree g => exact hclient g hbegin
    | _ =>
      have hframes : l'.tx.frames = l.tx.frames := congrArg (·.1) (txView_begin rfl hbegin)
      rw [hframes]
      exact hf

theorem lossless_init (h : (linkMachine cfg).init l) : Lossless l := by
  obtain ⟨random, requestSeq, autostart, rfl⟩ := h
  constructor <;> simp [linkCreate, RingsIdle]

/-- An accepted frame is settled by the ring that refuses it to its sender, by its completion, or
by a step after which the link is not UP. -/
theorem accepted_held {o : HeldOp} {i : o.Inp} {r : o.Res} (h : o.run cfg t i l = some (r, l'))
    (hf : f ∈ l.his.accepted) :
    f ∈ l'.his.accepted ∨ o = .tx (.ringErr f) ∨ (∃ canceled, o = .tx (.complete f canceled)) ∨
      l'.sh.state ≠ .up := by
  have hview : ringsView l' = ringsView l → f ∈ l'.his.accepted := fun hview ↦ by
    have haccepted : l'.his.accepted = l.his.accepted := congrArg (·.2.2.2.2) hview
    rw [haccepted]
    exact hf
  cases o with
  | base o =>
    obtain hsame | rfl := view_calm ringsView h rfl
    · exact .inl (hview hsame)
    · exact .inr (.inr (.inr (by simp [markDead])))
  | net o => exact .inl (hview (view_held ringsView h rfl))
  | tx o =>
    obtain hkept | rfl | ⟨canceled, rfl⟩ := accepted_of_tx h hf
    · exact .inl hkept
    · exact .inr (.inl rfl)
    · exact .inr (.inr (.inl ⟨canceled, rfl⟩))
  | rx o =>
    obtain hsame | ⟨-, g, rfl⟩ := ringsView_rx h
    · exact .inl (hview hsame)
    · exact .inl hf
  | sess o =>
    obtain rfl := link_of_run h
    cases hdrifts : o.drifts with
    | true =>
      obtain hsame | hdead := ringsView_sess i hdrifts
      · exact .inl (hview hsame)
      · exact .inr (.inr (.inr (by simp [hdead, markDead])))
    | false =>
      cases o with
      | startRings | stopRings | bringUpDone => exact .inl hf
      | downBegin | quarantined =>
        refine .inr (.inr (.inr ?_))
        simp only [SessOp.exec, downBegin, quarantined]
        (try split) <;> simp
      | maybeUp =>
        left
        simp only [SessOp.exec, maybeUpLocked]
        (repeat' split) <;> exact hf
      | _ => cases hdrifts

theorem callbacks_held {o : HeldOp} {i : o.Inp} {r : o.Res} (h : o.run cfg t i l = some (r, l')) :
    l'.hw.callbacks = l.hw.callbacks := by
  cases o <;> exact view_held (·.hw.callbacks) h rfl

/-- Only its own return to the ring takes a thread out of a callback. -/
theorem callbacks_run {o : Op} {i : o.Inp} {r : o.Res} (h : o.run cfg u i l = some (r, l'))
    (hne : o = .callbackDone → t ≠ u) (ht : t ∈ l.hw.callbacks) : t ∈ l'.hw.callbacks := by
  cases o with
  | held o =>
    rw [callbacks_held h]
    exact ht
  | callbackDone =>
    cases h
    exact (List.mem_erase_of_ne (hne rfl)).2 ht
  | _ =>
    simp only [Op.run] at h
    (repeat' split at h) <;> cases h <;> exact ht

theorem callbacks_begin {e : Entry} (h : e.begin u l = some l') (ht : t ∈ l.hw.callbacks) :
    t ∈ l'.hw.callbacks := by
  cases e <;> simp only [Entry.begin, startWork, takeFromClient, takeFromTxRing, takeFromRxRing,
    verifyTimerFn] at h <;> (repeat' split at h) <;> cases h <;> first
    | exact ht
    | exact List.mem_cons_of_mem u ht

/-- `t` is inside a completion callback. -/
def Calling (t : Tid) (l : Link) : Prop :=
  t ∈ l.hw.callbacks

theorem calling_held {o : HeldOp} {i : o.Inp} {r : o.Res} (hl : Calling t l)
    (hrun : o.run cfg t i l = some (r, l')) : Calling t l' := by
  rw [Calling, callbacks_held hrun]
  exact hl

/-- A callback ends only by its own return. -/
theorem calling_move {G : (linkMachine cfg).Guard} {I : Link → Prop} {Pre : Tid → Op → Link → Prop}
    (hne : u ≠ t) (hmove : (linkMachine cfg).Move G I Pre u l l') (hl : Calling t l) :
    Calling t l' := by
  cases hmove with
  | enter _ _ henter => exact callbacks_begin (enter_eq_some henter).2.1 hl
  | exec _ _ _ hrun => exact callbacks_run hrun (fun _ ↦ Ne.symm hne) hl

theorem RingsIdle.not_calling (h : RingsIdle l) : ¬ Calling t l := by
  rw [Calling, h.2.2.2]
  exact List.not_mem_nil

/-- Until the rings are started again they stay spent, and a link that leaves UP makes them so. -/
theorem spent_run {o : Op} {i : o.Inp} {r : o.Res} (h : o.run cfg u i l = some (r, l'))
    (ho : o ≠ .held (.sess .startRings)) :
    (l.his.spent = true → l'.his.spent = true) ∧
      (l.sh.state = .up → l'.sh.state = .up ∨ l'.his.spent = true) := by
  have hdrifted : Drift l l' → (l.his.spent = true → l'.his.spent = true) ∧
      (l.sh.state = .up → l'.sh.state = .up ∨ l'.his.spent = true) := by
    intro hdrift
    obtain ⟨hstate, hspent⟩ | ⟨-, hspent⟩ := hdrift.state
    · rw [hstate, hspent]
      exact ⟨id, .inl⟩
    · exact ⟨fun _ ↦ hspent, fun _ ↦ .inr hspent⟩
  by_cases hsess : ∀ s, o = .held (.sess s) → s.drifts
  · exact hdrifted (drift_run hsess h)
  · push Not at hsess
    obtain ⟨s, rfl, hs⟩ := hsess
    obtain rfl := link_of_run h
    cases s with
    | startRings => exact absurd rfl ho
    | stopRings | downBegin | quarantined => exact ⟨fun _ ↦ rfl, fun _ ↦ .inr rfl⟩
    | bringUpDone => exact ⟨id, .inl⟩
    | maybeUp =>
      simp only [SessOp.exec, maybeUpLocked]
      (repeat' split) <;> exact ⟨id, fun hup ↦ .inl (by first | rfl | exact hup)⟩
    | _ => exact absurd rfl hs

end Steps

section Programs

variable {cfg : LinkCfg} {t : Tid} {l l' : Link} {α : Type}

/-- A proof about settled runs whose preconditions are those on the use of the rings and, for
cancelled frames, at most that the rings are spent. -/
structure RingProof (cfg : LinkCfg) (G : (linkMachine cfg).Guard) (Pre : Op → Link → Prop) :
    Prop where
  settled : ∀ l s, G l s → Settled cfg l s
  pre : ∀ o l, RingPre o l → (∀ f, o = .held (.tx (.complete f true)) → l.his.spent = true) →
    Pre o l

/-- What the holder of `session_lock` knows about the rings: whether the session has them, whether
they are stopped, idle, or spent, and whether they were started for a session that does not use them
yet. -/
structure RingUse where
  ringsUp : Bool
  stopped : Bool
  idle : Bool
  spent : Bool
  fresh : Bool

/-- `t` holds `session_lock` and knows `v`. -/
structure Knows (t : Tid) (v : RingUse) (l : Link) : Prop where
  lock : l.ctl.sessionLock = some t
  ringsUp : l.sess.ringsUp = v.ringsUp
  stopped : v.stopped = true → l.hw.running = false
  idle : v.idle = true → RingsIdle l
  spent : v.spent = true → l.his.spent = true
  fresh : v.fresh = true → l.his.spent = false ∨ l.sh.state = .dead

/-- What a step of the holder of `session_lock` finds and does to the rings. -/
def ringEffect : Effect heldSig RingUse
  | .sess .bringUpBegin, v, Q => v.idle = true ∧ ∀ r, Q r v
  | .sess .startRings, v, Q => v.idle = true ∧ Q () ⟨v.ringsUp, false, false, false, true⟩
  | .sess .stopRings, v, Q => v.ringsUp = false ∧ Q () ⟨false, true, false, true, false⟩
  | .sess (.bringUpDone _), v, Q => v.fresh = true ∧ Q () { v with ringsUp := true }
  | .sess (.upcallDown _), v, Q => v.ringsUp = false ∧ v.idle = true ∧ Q () v
  | .sess .quarantined, v, Q => Q () { v with ringsUp := false, fresh := false }
  | .sess (.downBegin _), v, Q => ∀ d : DownLocals, d.ringsRunning = v.ringsUp →
      Q d { v with ringsUp := false, spent := true, fresh := false }
  | .sess .maybeUp, v, Q => ∀ r, Q r { v with fresh := false }
  | .tx (.complete _ true), v, Q => v.spent = true ∧ ∀ r, Q r v
  | .base (.hw .flushRings), v, Q => Q () v ∨ v.stopped = true ∧ Q () { v with idle := true }
  | .base (.read .ringsUp), v, Q => Q v.ringsUp v
  | _, v, Q => ∀ r, Q r v

theorem Knows.drift {v : RingUse} (h : Knows t v l) (hdrift : Drift l l')
    (hlock : l'.ctl.sessionLock = l.ctl.sessionLock) : Knows t v l' where
  lock := hlock.trans h.lock
  ringsUp := hdrift.ringsUp.trans h.ringsUp
  stopped hv := hdrift.running.trans (h.stopped hv)
  idle hv := hdrift.idle (h.idle hv)
  spent hv := hdrift.state.elim (fun hs ↦ hs.2.trans (h.spent hv)) And.right
  fresh hv := hdrift.state.elim
    (fun hs ↦ (h.fresh hv).imp hs.2.trans hs.1.trans) (fun hs ↦ .inr hs.1)

/-- A session section finds and does to the rings what its effect says. -/
theorem ringEffect_exec {v : RingUse} {o : SessOp} {Q : o.Res → RingUse → Prop}
    (h : ringEffect (.sess o) v Q) (hl : Knows t v l) (i : o.Inp) :
    LossPre (.held (.sess o)) l ∧ ∃ v', Knows t v' (o.exec cfg l i).2 ∧ Q (o.exec cfg l i).1 v' := by
  have hlock := sess_exec_sessionLock cfg l o i
  cases o with
  | bringUpBegin => exact ⟨hl.idle h.1, v, hl.drift (drift_sess i rfl) hlock, h.2 _⟩
  | startRings =>
    refine ⟨hl.idle h.1, _, ?_, h.2⟩
    exact ⟨hl.lock, hl.ringsUp, by simp, by simp, by simp, fun _ ↦ .inl rfl⟩
  | stopRings =>
    refine ⟨hl.ringsUp.trans h.1, _, ?_, h.2⟩
    exact ⟨hl.lock, hl.ringsUp.trans h.1, fun _ ↦ rfl, by simp, fun _ ↦ rfl, by simp⟩
  | bringUpDone e2e =>
    refine ⟨hl.fresh h.1, _, ?_, h.2⟩
    exact { hl with ringsUp := rfl }
  | upcallDown reason =>
    exact ⟨⟨hl.ringsUp.trans h.1, hl.idle h.2.1⟩, v, hl.drift (drift_sess i rfl) hlock, h.2.2⟩
  | quarantined =>
    refine ⟨trivial, _, ?_, h⟩
    exact { hl with ringsUp := rfl, spent := fun _ ↦ rfl, fresh := by simp }
  | downBegin owner =>
    refine ⟨trivial, _, ?_, h _ hl.ringsUp⟩
    exact { hl with ringsUp := rfl, spent := fun _ ↦ rfl, fresh := by simp }
  | maybeUp =>
    refine ⟨trivial, _, ?_, h _⟩
    simp only [SessOp.exec, maybeUpLocked]
    (repeat' split) <;> exact { hl with fresh := by simp }
  | _ => exact ⟨trivial, v, hl.drift (drift_sess i rfl) hlock, h _⟩

theorem ringPre_tx (o : TxOp) (l : Link) : RingPre (.held (.tx o)) l := by
  intro hne
  cases o with
  | complete f canceled => cases canceled <;> first | trivial | exact absurd rfl (hne f)
  | _ => trivial

section Rules

variable {G : (linkMachine cfg).Guard} {Pre : Op → Link → Prop} (hk : RingProof cfg G Pre)

include hk

theorem RingProof.lockKnown : LockKnown cfg G Lossless (fun _ ↦ Pre) :=
  fun _ _ _ _ _ _ hG ↦ (hk.settled _ _ hG).1.1.1.2.2

/-- The holder of the lock knows whether the rings run and whether they were used. -/
theorem tracks_rings : (linkMachine cfg).Tracks G Lossless (fun _ ↦ Pre) t (Knows t)
    (heldEffect ringEffect) where
  stable v := by
    rintro l l' hl ⟨u, hne, hmove⟩
    have howned := owned_move hk.lockKnown hne hl.lock hmove
    refine hl.drift ?_ (congrArg (·.2.1) howned)
    cases hmove with
    | enter _ _ henter => exact drift_begin (enter_eq_some henter).2.1
    | exec hI hpre hG hrun =>
      refine drift_run ?_ hrun
      rintro s rfl
      have hu : l.ctl.sessionLock = some u := hk.lockKnown l u _ _ hI hpre hG
      exact absurd (Option.some.inj (hu.symm.trans hl.lock)) hne
  exec o v Q h l i r l' hI hl hG hrun := by
    cases o with
    | held o =>
      have hrun : o.run cfg t i l = some (r, l') := hrun
      have hdrift : o.Drifts → Knows t v l' := fun ho ↦
        hl.drift (drift_held ho hrun) (held_run_lock hrun)
      have hpre : ∀ {o : HeldOp}, LossPre (.held o) l → (∀ f, o ≠ .tx (.complete f true)) →
          Pre (.held o) l := fun hloss hne ↦
        hk.pre _ _ (fun _ ↦ hloss) fun f hf ↦ absurd (Op.held.inj hf) (hne f)
      cases o with
      | sess o =>
        obtain ⟨rfl, rfl⟩ := Prod.mk.inj (Option.some.inj hrun)
        obtain ⟨hloss, hv⟩ := ringEffect_exec h hl i
        exact ⟨hpre hloss nofun, hv⟩
      | tx o =>
        cases o with
        | complete f canceled =>
          cases canceled with
          | true =>
            have hspent := hk.pre _ _ (fun hne ↦ absurd rfl (hne f)) fun _ _ ↦ hl.spent h.1
            exact ⟨hspent, v, hdrift trivial, h.2 r⟩
          | false => exact ⟨hpre trivial (by simp), v, hdrift trivial, h r⟩
        | _ => exact ⟨hpre trivial nofun, v, hdrift trivial, h r⟩
      | base o =>
        refine ⟨hpre trivial nofun, ?_⟩
        cases o with
        | hw o =>
          cases o with
          | flushRings =>
            obtain hQ | ⟨hv, hQ⟩ := h
            · exact ⟨v, hdrift trivial, hQ⟩
            · have hrun : (if l.hw.txRing = [] ∧ l.hw.rxRing = [] ∧ l.hw.callbacks = []
                then some ((), l) else none) = some (r, l') := hrun
              obtain ⟨hempty, heq⟩ := Option.ite_some_none_eq_some.1 hrun
              cases heq
              refine ⟨_, ?_, hQ⟩
              exact { hl with idle := fun _ ↦ ⟨hl.stopped hv, hempty⟩ }
          | _ => exact ⟨v, hdrift trivial, h r⟩
        | read o =>
          obtain ⟨rfl, rfl⟩ := Prod.mk.inj (Option.some.inj hrun)
          cases o with
          | ringsUp => exact ⟨v, hl, (congrArg (Q · v) hl.ringsUp).mpr h⟩
          | _ => exact ⟨v, hl, h _⟩
        | _ => exact ⟨v, hdrift trivial, h r⟩
      | _ => exact ⟨hpre trivial nofun, v, hdrift trivial, h r⟩
    | _ => exact h.elim

end Rules

namespace RingUse

attribute [local simp] ringEffect liftM monadLift

variable {v : RingUse}

def Kept (v : RingUse) : Prop :=
  v.ringsUp = true ∨ v.idle = true

theorem keeps_base (o : BaseOp) : ringEffect.Keeps v (.base o) := by
  intro Q h
  cases o with
  | read o => cases o <;> first | exact h | exact h _
  | hw o => cases o <;> first | exact h | exact .inl (h _)
  | _ => exact h

theorem keeps_carries {o : TxOp} (ho : o.carries) : ringEffect.Keeps v (.tx o) := by
  cases o <;> first | exact fun _ h ↦ h | cases ho

theorem keeps_sent (hspent : v.spent = true) (o : TxOp) : ringEffect.Keeps v (.tx o) := by
  intro Q h
  cases o with
  | complete f canceled => cases canceled <;> first | exact h | exact ⟨hspent, h⟩
  | _ => exact h

/-- `tbframe_link_bring_up` starts idle rings; if it fails, they are idle again. -/
theorem wlp_bringUp {Q : ℤ → RingUse → Prop} (hrings : v.ringsUp = false) (hidle : v.idle = true)
    (hQ : ∀ ret (v' : RingUse), v'.Kept → Q ret v') : (bringUp cfg).wlp ringEffect Q v := by
  have hkept : ∀ ret (v' : RingUse), v'.ringsUp = true ∨ v'.idle = true → Q ret v' := hQ
  simp [bringUp, bringUpStopRings, bringUpFreeRings, stopRings, hrings, hidle, hkept]
  intro hopid _ _ n
  refine (Prog.wlp_lift ..).mp (Prog.wlp_of_all
    (all_postRxFrames keeps_base (fun _ _ _ h ↦ h) n) fun ret ↦ ?_)
  simp [bringUpUnclean, bringUpFreeRings, stopRings, quarantinePaths, notifyDown, hkept]

/-- The path and ring part of a down leaves the rings idle. -/
theorem wlp_downDisconnect {d : DownLocals} {Q : ℤ × Bool → RingUse → Prop}
    (hrings : v.ringsUp = false) (hidle : d.ringsRunning = true ∨ v.idle = true)
    (hQ : ∀ r (v' : RingUse), v'.ringsUp = false → v'.idle = true → Q r v') :
    (downDisconnect cfg d).wlp ringEffect Q v := by
  cases hd : d.ringsRunning <;>
    simp_all [downDisconnect, downDisable, stopRings, quarantinePaths]

/-- A down takes the session from its rings and leaves them idle. -/
theorem wlp_downSession {reason : DownReason} {owner : SessionOwner} {Q : ℤ → RingUse → Prop}
    (hkept : v.Kept) (hQ : ∀ ret (v' : RingUse), v'.Kept → Q ret v') :
    (downSession cfg reason owner).wlp ringEffect Q v := by
  refine (Prog.wlp_bind ..).mpr fun d hd ↦ Prog.wlp_bind_of_all (all_downQuiesce keeps_base
    (fun o _ ↦ keeps_sent rfl o) (fun o ho ↦ ?_) reason d) fun reason ↦ ?_
  · cases o <;> first | exact fun _ h ↦ h | cases ho
  refine Prog.wlp_bind_of_all (all_base keeps_base _) fun shutdown ↦
    Prog.wlp_bind_of_all (.when (all_net keeps_base (fun _ _ h ↦ h) _)) fun _ ↦
    (Prog.wlp_bind ..).mpr ?_
  refine wlp_downDisconnect rfl (hd ▸ hkept) fun r v' hrings hidle ↦ Prog.wlp_bind_of_all
    ((heldCode_all keeps_base).downRelease (fun _ ↦ all_sess fun _ h ↦ h) (all_sess fun _ h ↦ h)
      _ _ _) fun _ ↦ ?_
  have hend : ∀ ret, Q ret v' := fun ret ↦ hQ ret v' (.inr hidle)
  simp [notifyDown, hrings, hidle, hend]

theorem wlp_stepBringUp {b : Bool} {Q : Bool → RingUse → Prop} (hkept : v.Kept)
    (hQ : ∀ go (v' : RingUse), v'.Kept → Q go v') : (stepBringUp cfg b).wlp ringEffect Q v := by
  simp [stepBringUp, hQ, hkept]
  exact fun _ hrings ↦ wlp_bringUp hrings (hkept.resolve_left (by simp [hrings]))
    (by simp +contextual [hQ])

/-- A session step ends with the rings up or idle, if it began so. -/
theorem wlp_sessionStep {Q : Unit → RingUse → Prop} (hkept : v.Kept)
    (hQ : ∀ v' : RingUse, v'.Kept → Q () v') : (sessionStepLocked cfg).wlp ringEffect Q v := by
  have hcode := fun {v} ↦ heldCode_all (keeps_base (v := v))
  have hsend := fun {v} ↦ sendCode_all (keeps_base (v := v)) fun _ ho ↦ keeps_carries ho
  simp [sessionStepLocked, stepForward, -Prod.forall]
  rintro (_ | ⟨down, reason, helloDone, ringsUp, readySent⟩)
  · exact hQ v hkept
  simp
  refine ⟨fun _ ↦ wlp_downSession hkept fun _ ↦ hQ, fun _ ↦ Prog.wlp_of_all (hcode.stepHello
    (hcode.helloOnce (all_net keeps_base (fun _ _ h ↦ h) _) fun o ho ↦ ?_) (all_sess fun _ h ↦ h)
      helloDone) fun go ↦ ⟨fun _ ↦ ?_, fun _ ↦ hQ v hkept⟩⟩
  · exact all_sess (by cases o <;> first | exact fun _ h ↦ h | cases ho)
  refine wlp_stepBringUp hkept fun go v' hkept ↦ ⟨fun _ ↦ ?_, fun _ ↦ hQ v' hkept⟩
  refine Prog.wlp_of_all (all_stepReady keeps_base (fun _ _ h ↦ h) (fun _ _ h ↦ h) (fun _ h ↦ h) _)
    fun go ↦ ⟨fun _ ↦ ?_, fun _ ↦ hQ v' hkept⟩
  refine Prog.wlp_of_all (hcode.proveDataPath (all_net keeps_base (fun _ _ h ↦ h) _)
    (hsend.sendKeepalive (fun _ ↦ ⟨fun _ h ↦ h, fun _ ↦ trivial⟩) fun _ ↦
      hsend.frameFree ⟨fun _ h ↦ h, fun _ ↦ trivial⟩) fun o ho ↦ ?_) fun go ↦
        ⟨fun _ ↦ ?_, fun _ ↦ hQ v' hkept⟩
  · exact all_sess (by cases o <;> first | exact fun _ h ↦ h | cases ho)
  · simp [maybeUp]
    rintro (_ | info)
    · exact hQ _ hkept
    · simp
      exact fun _ ↦ hQ _ hkept

end RingUse

/-- A function that leaves rings without a session idle is safe under the lock. -/
theorem ringSafe_withSessionLock {G : (linkMachine cfg).Guard} {Pre : Op → Link → Prop}
    (hk : RingProof cfg G Pre) {p : HeldProg α}
    (hp : ∀ v : RingUse, v.Kept → p.wlp ringEffect (fun _ ↦ RingUse.Kept) v) :
    (linkMachine cfg).Safe G Lossless (fun _ ↦ Pre) t (withSessionLock p) := by
  refine safe_locked (tracks_rings hk) (fun _ ↦ hk.pre _ _ (fun _ ↦ trivial) nofun)
    (fun v l _ hl hv ↦ hk.pre _ _ (fun _ ↦ hv.imp hl.ringsUp.trans hl.idle) nofun)
    (fun l hI hfree ↦ ?_) hp
  obtain hrings | hidle := hI.quiet hfree
  · exact ⟨⟨l.sess.ringsUp, false, false, false, false⟩, ⟨rfl, rfl, nofun, nofun, nofun, nofun⟩,
      .inl hrings⟩
  · exact ⟨⟨l.sess.ringsUp, false, true, false, false⟩,
      ⟨rfl, rfl, nofun, fun _ ↦ hidle, nofun, nofun⟩, .inr rfl⟩

end Programs

/-- In every run the rings are started, and generations opened, only when the rings are idle, and the
client is told of a down only then. -/
theorem ring_verified (cfg : LinkCfg) :
    (linkMachine cfg).Verified (Settled cfg) Lossless fun _ ↦ RingPre where
  init _ h := lossless_init h
  enter t e l p l' hI _ henter := by
    obtain ⟨-, hbegin, rfl⟩ := enter_eq_some henter
    refine ⟨lossless_begin hI hbegin, ?_⟩
    have hk : RingProof cfg (Settled cfg) RingPre := ⟨fun _ _ h ↦ h, fun _ _ h _ ↦ h⟩
    cases he : e.domain with
    | tx =>
      refine safe_onTx (safe_free fun _ _ _ ↦ trivial) (safe_free fun o l ↦ ?_) (fun _ _ ↦ trivial)
        he l' trivial
      cases o with
      | base o => exact fun _ ↦ trivial
      | tx o => exact ringPre_tx o l
    | rx =>
      exact safe_onRx (safe_free fun o _ ↦ by cases o <;> exact fun _ ↦ trivial) (fun _ _ ↦ trivial)
        he l' trivial
    | other =>
      exact safe_prog (safe_free fun _ _ _ ↦ trivial)
        (ringSafe_withSessionLock hk fun _ hv ↦ RingUse.wlp_sessionStep hv fun _ ↦ id)
        (fun _ ↦ ringSafe_withSessionLock hk fun _ hv ↦ RingUse.wlp_downSession hv fun _ _ ↦ id)
        ⟨fun _ _ ↦ trivial, fun _ _ ↦ trivial, fun _ _ ↦ trivial⟩ (fun _ _ ↦ trivial) he
        (fun m _ ↦ safe_free (fun o _ ↦ by cases o <;> exact fun _ ↦ trivial) _) l' trivial
  exec t o i l r l' hI hpre hG hrun := lossless_run hI hG hpre hrun

def Ringed (cfg : LinkCfg) : (linkMachine cfg).Guard :=
  (Settled cfg).with Lossless fun _ ↦ RingPre

theorem ringed_step {cfg : LinkCfg} {c c' : (linkMachine cfg).Config} {s : (linkMachine cfg).Label}
    (hc : (linkMachine cfg).system.Reachable c) (hstep : (linkMachine cfg).Step c s c') :
    Ringed cfg c.state s :=
  (ring_verified cfg).with_step ((settled_reach (G := fun _ _ ↦ True) hc).mono fun _ _ h ↦ h.2)
    (settled_step hc hstep) hstep

theorem ringed_reach {cfg : LinkCfg} {c : (linkMachine cfg).Config}
    (hc : (linkMachine cfg).system.Reachable c) : (linkMachine cfg).Reach (Ringed cfg) c :=
  (ring_verified cfg).strengthen ((settled_reach (G := fun _ _ ↦ True) hc).mono fun _ _ h ↦ h.2)

end ThunderboltStack.Tbframe
