import Mathlib.Data.Int.Notation
import ThunderboltStack.Tbframe.Link

/-!
# The critical sections of tbframe

Each definition is the body of one `link->lock` critical section of `core.c` (or one access the code
makes without the lock), as a function from the link to the values its caller keeps and the link
it leaves.
-/

namespace ThunderboltStack.Tbframe

def eproto : ℤ := -71

def estale : ℤ := -116

def enetdown : ℤ := -100

def enospc : ℤ := -28

def euclean : ℤ := -117

def einval : ℤ := -22

def ebusy : ℤ := -16

def ctrlReserve : ℕ := 64

/-- `TBFRAME_PROBE_RETRIES`, which is also `TBFRAME_STALE_DRAIN_RETRIES`. -/
def probeRetries : ℕ := 30

def dataSilenceTicks : ℕ := 3

def helloRetries : ℕ := 5

def readyRetries : ℕ := 10

def byeRetries : ℕ := 4

def supportedCaps (tf : Tf) : UInt32 :=
  (if tf.e2e then capE2e else 0) ||| (if tf.keepalive then capKeepalive ||| capKeepaliveAck else 0)

def linkWindow (tf : Tf) (remoteRxEntries : UInt16) : ℕ :=
  let cap := min tf.ringEntries.toNat remoteRxEntries.toNat
  if cap ≤ ctrlReserve + 1 then 1 else cap - ctrlReserve

/-- `tbframe_link_apply_remote_locked`. -/
def applyRemote (r : Remote) (h : WireHello) : Remote where
  hopid := h.transmitHopid
  rxEntries := clampEntries h.rxRingEntries
  caps := h.capabilities
  cookie := h.sessionCookie
  previousCookie := if r.cookie ≠ 0 ∧ r.cookie ≠ h.sessionCookie then r.cookie else r.previousCookie
  gidEui64 := h.gidEui64

/-- `tbframe_link_remote_matches_locked`. -/
def remoteMatches (s : Session) (h : WireHello) : Bool :=
  s.helloDone && h.protoVersion == wireVersion && h.transmitHopid == s.remote.hopid &&
    clampEntries h.rxRingEntries == s.remote.rxEntries && h.capabilities == s.remote.caps &&
    h.gidEui64 == s.remote.gidEui64 && h.sessionCookie == s.remote.cookie

def queueWork (w : Work) (c : Control) : Control :=
  { c with queued := Function.update c.queued w true }

/-- `tbframe_link_kick_locked`.  The delay only says when the work runs, so it is left out. -/
def kickLocked (l : Link) : Link :=
  if l.sh.removing || l.sh.parked || l.sh.state == .dead then l
  else { l with ctl := queueWork .session l.ctl }

/-- Request the session to go down for `reason` unless a down is pending already. -/
def requestDown (reason : DownReason) (l : Link) : Link :=
  if l.sh.needsDown then l
  else kickLocked { l with sh := { l.sh with needsDown := true, downReason := reason } }

/-- `mod_timer` on the verify timer, which a shut down timer ignores. -/
def armVerifyTimer (c : Control) : Control :=
  if c.timerShutdown then c else { c with verifyTimer := true }

/-! ## Reads -/

def helloOfferMask (l : Link) : UInt32 :=
  if l.sess.helloSelectionPending then l.sess.helloSelectionCaps
  else if l.sh.helloResponder.seen then l.sh.helloResponder.peer.capabilities
  else 0xffffffff

def fillLocalHello (cfg : LinkCfg) (peerCaps : UInt32) (l : Link) : WireHello where
  protoVersion := wireVersion
  transmitHopid := cfg.localHopid
  rxRingEntries := cfg.tf.ringEntries
  capabilities := supportedCaps cfg.tf &&& peerCaps
  gidEui64 := cfg.localGidEui64
  sessionCookie := l.sess.localCookie

/-- The entry gate of `__tbframe_link_session_step` and what it samples: whether a down is pending
and why, and `hello_done`, `rings_up`, `hs.request_sent`. -/
def stepEntry (l : Link) : Option (Bool × DownReason × Bool × Bool × Bool) :=
  if l.sh.removing || l.sh.parked || l.sh.state == .dead then none
  else some (l.sh.needsDown, l.sh.downReason, l.sess.helloDone, l.sess.ringsUp, l.sh.hs.requestSent)

/-- The entry gate of `tbframe_link_verify_step` and the remote HopID and capabilities it
samples. -/
def verifyEntry (l : Link) : Option (UInt16 × UInt32) :=
  if l.sh.removing || l.sh.parked || l.sh.state != .up then none
  else some (l.sess.remote.hopid, l.sess.remote.caps)

/-- The fence at the head of `tbframe_link_handle_packet`: the packet is refused. -/
def packetFence (op : WireOp) (l : Link) : Bool :=
  (l.sh.removing || l.sh.state == .dead) ||
    ((l.sh.parked || l.sh.needsDown) && (op == .hello || op == .ready))

/-! ## Sections that run under `session_lock` -/

/-- The selection recorded between the two rounds of `tbframe_link_hello_once`. -/
def helloSelect (caps : UInt32) (l : Link) : Link :=
  { l with sess := { l.sess with helloSelectionPending := true, helloSelectionCaps := caps } }

/-- The last section of `tbframe_link_hello_once`. -/
def helloApply (remote : WireHello) (l : Link) : ℤ × Link :=
  if l.sh.helloResponder.seen && !helloMatches remote l.sh.helloResponder.peer then (estale, l)
  else
    let sess := { l.sess with
      remote := applyRemote l.sess.remote remote
      helloDone := true
      helloSelectionPending := false
      helloSelectionCaps := 0 }
    let sh :=
      if l.sh.readyResponder.state = .waiting then l.sh
      else if remoteMatches sess l.sh.readyResponder.peer then
        { l.sh with hs := { l.sh.hs with peerSeen := true } }
      else { l.sh with readyResponder := {}, hs := { l.sh.hs with peerSeen := false } }
    (0, { l with sess := sess, sh := sh })

/-- The proof state of a session that starts or ends.  `probe_attempts` survives a start. -/
def DataProof.restart (p : DataProof) : DataProof :=
  { p with
    dataProven := false
    dataProofUnavailableWarned := false
    dataRx := 0
    dataRxTickMark := 0
    dataRxProven := false
    dataTxProven := false
    keepaliveTxSeq := 0
    keepaliveTxAcked := 0
    keepaliveTxAckMark := 0
    keepalivePeerSeq := 0
    staleDrainActive := false
    staleDrainBudget := 0
    silentTicks := 0
    txSilentTicks := 0 }

/-- The first section of `tbframe_link_bring_up`: the HopID and the E2E mode of the new session. -/
def bringUpBegin (cfg : LinkCfg) (l : Link) : (UInt16 × Bool) × Link :=
  ((l.sess.remote.hopid, cfg.tf.e2e && hasCap l.sess.remote.caps capE2e),
    { l with
      sess := { l.sess with dataGeneration := l.sess.dataGeneration + 1 }
      prf := l.prf.restart
      his := { l.his with genOpen := true, numbered := 0 } })

/-- `link->rings_allocated = b`. -/
def setRingsAllocated (b : Bool) (l : Link) : Link :=
  { l with sess := { l.sess with ringsAllocated := b } }

/-- The in-HopID section of `tbframe_link_bring_up`. -/
def holdInHopid (hopid : UInt16) (l : Link) : Link :=
  { l with sess := { l.sess with activeRemoteHopid := hopid, inHopidHeld := true } }

/-- `link->paths_owned = b`. -/
def setPathsOwned (b : Bool) (l : Link) : Link :=
  { l with sess := { l.sess with pathsOwned := b } }

/-- `link->state = TBFRAME_STATE_DEAD`. -/
def markDead (l : Link) : Link :=
  { l with
    sh := { l.sh with state := .dead }
    his := { l.his with accepted := [], spent := true } }

def startRings (l : Link) : Link :=
  { l with
    hw := { l.hw with running := true }
    his := { l.his with spent := false } }

/-- The first half of `stop_rings`: from here on the rings cancel what they hold. -/
def stopRunning (l : Link) : Link :=
  { l with
    hw := { l.hw with running := false }
    his := { l.his with spent := true } }

/-- The success section of `tbframe_link_bring_up`. -/
def bringUpDone (cfg : LinkCfg) (e2e : Bool) (l : Link) : Link :=
  { l with
    sess := { l.sess with
      ringsUp := true
      pathsEnabled := true
      pathsOwned := true
      e2eActive := e2e
      dataWindow := linkWindow cfg.tf l.sess.remote.rxEntries } }

/-- The section at `err_free_rings`: whether the in-HopID is to be released. -/
def bringUpUndo (l : Link) : Bool × Link :=
  (l.sess.inHopidHeld,
    { l with sess := { l.sess with ringsAllocated := false, inHopidHeld := false } })

/-- The section of `tbframe_link_quarantine_paths`. -/
def quarantined (l : Link) : Link :=
  { l with
    sh := { l.sh with state := .dead }
    sess := { l.sess with
      terminalHandoff := true
      ringsAllocated := false
      ringsUp := false
      pathsEnabled := false
      pathsOwned := false
      inHopidHeld := false }
    his := { l.his with accepted := [], spent := true } }

/-- The section of `tbframe_link_notify_down`: whether the upcall is made. -/
def notifyDownLocked (wasUp terminal : Bool) (l : Link) : Bool × Link :=
  (wasUp || (l.sess.upDelivered && terminal),
    if terminal then { l with sess := { l.sess with upDelivered := false } } else l)

/-- The last section of `tbframe_link_ready_once`. -/
def readyConfirm (remote : WireHello) (l : Link) : ℤ × Link :=
  if remoteMatches l.sess remote then
    (0, { l with sh := { l.sh with hs := { l.sh.hs with requestSent := true, peerSeen := true } } })
  else (estale, l)

/-- `tbframe_link_fill_info_locked`. -/
def fillInfo (cfg : LinkCfg) (l : Link) : LinkInfo where
  gidEui64 := l.sess.remote.gidEui64
  localGidEui64 := cfg.localGidEui64
  route := cfg.route
  rxRingEntries := l.sess.remote.rxEntries
  dataWindow := l.sess.dataWindow
  maxPayload := maxFrame
  e2e := l.sess.e2eActive

/-- The first section of `tbframe_link_maybe_up`: what is delivered with `link_up`, if it is. -/
def maybeUpLocked (cfg : LinkCfg) (l : Link) : Option LinkInfo × Link :=
  if l.sh.state == .init && !l.sh.removing && !l.sh.needsDown && l.sess.helloDone &&
      l.sess.ringsUp && l.sess.pathsEnabled && l.sh.hs.complete then
    (some (fillInfo cfg l), { l with
      sh := { l.sh with
        state := .up
        hs := { l.sh.hs with established := true }
        txQuiesced := false
        announcePending := false }
      tx := { l.tx with txBlocked := false } })
  else if l.sh.state == .up && l.sh.announcePending then
    (some (fillInfo cfg l), { l with sh := { l.sh with announcePending := false } })
  else (none, l)

/-- The last section of `tbframe_link_maybe_up`. -/
def upDone (l : Link) : Link :=
  { l with
    sess := { l.sess with upDelivered := true }
    ctl := if !l.sh.removing && l.sh.state == .up then armVerifyTimer l.ctl else l.ctl }

/-- What `tbframe_link_down_session` keeps of the session it takes down. -/
structure DownLocals where
  wasUp : Bool
  hadRings : Bool
  ringsRunning : Bool
  hadPaths : Bool
  activeSession : Bool
  hadHopid : Bool
  remoteHopid : UInt16

/-- The first section of `tbframe_link_down_session`; `nextCookie` was drawn before it. -/
def downBegin (owner : SessionOwner) (nextCookie : UInt64) (l : Link) : DownLocals × Link :=
  ({ wasUp := l.sh.state == .up
     hadRings := l.sess.ringsAllocated
     ringsRunning := l.sess.ringsUp
     hadPaths := l.sess.pathsOwned
     activeSession := l.sess.ringsUp && l.sess.pathsEnabled
     hadHopid := l.sess.inHopidHeld
     remoteHopid := l.sess.activeRemoteHopid },
    { l with
      sess := { l.sess with
        ringsUp := false
        helloDone := false
        helloSelectionPending := false
        helloSelectionCaps := 0
        localCookie := if owner = .local then nextCookie else l.sess.localCookie }
      sh := { l.sh with
        state := if l.sh.state = .dead then .dead else .init
        needsDown := false
        helloAttempts := 0
        hs := {}
        helloResponder := {}
        readyResponder := {} }
      prf := { l.prf.restart with probeAttempts := 0 }
      tx := { l.tx with txBlocked := false }
      his := { l.his with
        downing := true
        genOpen := false
        accepted := []
        spent := true } })

/-- `link->tx_quiesced = true` in `tbframe_link_down_session`. -/
def markQuiesced (l : Link) : Link :=
  { l with sh := { l.sh with txQuiesced := true } }

/-- The section of `tbframe_link_down_session` after a successful path disconnect. -/
def pathsGone (l : Link) : Link :=
  { l with sess := { l.sess with pathsEnabled := false, pathsOwned := false, inHopidHeld := false } }

def Session.holdsNothing (s : Session) : Bool :=
  !s.ringsAllocated && !s.inHopidHeld && !s.pathsOwned

/-- The last use of the session that `tbframe_link_down_session` took down. -/
def downEnd (l : Link) : Link :=
  { l with his := { l.his with
    downs := l.his.downs + 1
    downing := false
    vacated := l.his.vacated || (l.sh.removing && l.sess.holdsNothing) } }

/-- The section after a failed `tbframe_link_hello_once`: the attempts made. -/
def helloFailed (l : Link) : ℕ × Link :=
  let attempts := l.sh.helloAttempts + 1
  (attempts, { l with
    sh := { l.sh with helloAttempts := if helloRetries ≤ attempts then 0 else attempts } })

/-- The section after a failed `tbframe_link_ready_once`: the attempts made. -/
def readyFailed (l : Link) : ℕ × Link :=
  let attempts := l.sh.hs.attempts + 1
  (attempts, { l with
    sh := { l.sh with
      hs := if readyRetries ≤ attempts then {} else { l.sh.hs with attempts := attempts } } })

/-- The section of `tbframe_link_prove_data_path` for a peer without keepalives. -/
def proofUnavailable (l : Link) : Link :=
  { l with prf := { l.prf with dataProofUnavailableWarned := true } }

/-- What `tbframe_link_prove_data_path` learns after its keepalive. -/
structure ProbeLocals where
  proven : Bool
  staleDraining : Bool
  staleExpired : Bool
  attempts : ℕ

/-- The section of `tbframe_link_prove_data_path` after its keepalive. -/
def probeAttempt (l : Link) : ProbeLocals × Link :=
  let staleDraining := l.prf.staleDrainActive && l.prf.staleDrainBudget != 0
  let prf :=
    if staleDraining then
      { l.prf with staleDrainBudget := l.prf.staleDrainBudget - 1, probeAttempts := 0 }
    else l.prf
  let counted := !(l.prf.dataProven || staleDraining)
  ({ proven := l.prf.dataProven
     staleDraining := staleDraining
     staleExpired := staleDraining && prf.staleDrainBudget == 0
     attempts := if counted then prf.probeAttempts + 1 else 0 },
    { l with
      prf := if counted then { prf with probeAttempts := prf.probeAttempts + 1 } else prf })

/-- The section of `tbframe_link_prove_data_path` when its budget is exhausted. -/
def probeFailed (l : Link) : Link :=
  requestDown .verify { l with
    prf := { l.prf with
      probeAttempts := 0
      probeFailures := l.prf.probeFailures + 1
      dataProofUnavailableWarned := false } }

/-- The section of `tbframe_link_revalidate_stale_data`, given the identity the peer confirmed. -/
def revalidated (reply : Option WireHello) (l : Link) : Link :=
  match reply with
  | none => requestDown .verify l
  | some remote =>
    if !remoteMatches l.sess remote then requestDown .supersede l
    else if l.sh.needsDown then l
    else kickLocked { l with
      prf := { l.prf with staleDrainBudget := probeRetries, probeAttempts := 0 } }

/-! ## Sections of the dispatch and verify contexts -/

def nextRequestSeq (l : Link) : UInt32 × Link :=
  (l.sh.requestSeq + 1, { l with sh := { l.sh with requestSeq := l.sh.requestSeq + 1 } })

/-- A READY that waited for the paths is due once they are enabled and no down is pending. -/
def promoteReady (l : Link) : ReadyResponder :=
  let rr := l.sh.readyResponder
  if rr.state = .pendingPaths ∧ l.sess.pathsEnabled ∧ ¬ l.sh.needsDown then
    { rr with state := .pendingSend }
  else rr

/-- The first section of `tbframe_link_flush_ready_response`, executed by `t`: the READY to
acknowledge. -/
def flushReadyTake (t : Tid) (l : Link) : Option (UInt32 × UInt32) × Link :=
  let rr := promoteReady l
  let l₁ := { l with sh := { l.sh with readyResponder := rr } }
  if rr.state ≠ .pendingSend ∨ l.sh.needsDown ∨ l.sh.removing ∨ l.sh.parked ∨
      ¬ remoteMatches l.sess rr.peer then (none, l₁)
  else
    (some (rr.seq, rr.xdomainSequence),
      { l₁ with his := { l₁.his with acking := (t, rr.peer) :: l₁.his.acking } })

/-- The last section of `tbframe_link_flush_ready_response`. -/
def flushReadyDone (ret : ℤ) (seq xdomainSequence : UInt32) (l : Link) : Link :=
  let rr := l.sh.readyResponder
  if ret = 0 ∧ rr.state = .pendingSend ∧ rr.seq = seq ∧ rr.xdomainSequence = xdomainSequence then
    { l with sh := { l.sh with readyResponder := { rr with state := .acked } } }
  else l

/-- The section of the HELLO case of `tbframe_link_handle_packet`: whether it is acknowledged. -/
def handleHello (remote : WireHello) (l : Link) : Bool × Link :=
  let sh := { l.sh with helloResponder := { seen := true, peer := remote } }
  if l.sess.helloDone && !remoteMatches l.sess remote && sh.state != .up then
    (false, kickLocked { l with
      sh := { sh with hs := sh.hs.supersede, needsDown := true, downReason := .supersede } })
  else if sh.state == .up && !sh.needsDown && !remoteMatches l.sess remote then
    (false, kickLocked { l with
      sh := { sh with
        readyResponder := {}
        needsDown := true
        downReason := .supersede
        helloAttempts := 0
        hs := { sh.hs.supersede with attempts := 0 } } })
  else
    (true, kickLocked { l with
      sh := { sh with readyResponder := {}, helloAttempts := 0, hs := { sh.hs with attempts := 0 } } })

/-- The section of the READY case of `tbframe_link_handle_packet`: whether the READY belongs to
the session. -/
def handleReady (remote : WireHello) (info : WireInfo) (l : Link) : Bool × Link :=
  if l.sess.helloDone && !remoteMatches l.sess remote then (false, l)
  else
    (true, kickLocked { l with
      sh := { l.sh with
        hs := { l.sh.hs with peerSeen := true }
        readyResponder :=
          { state := if l.sess.pathsEnabled && !l.sh.needsDown then .pendingSend else .pendingPaths
            seq := info.seq
            xdomainSequence := info.xdomainSequence
            peer := remote } } })

/-- The link has a session to take down: one that was negotiated, or whose down is under way. -/
def hasSession (l : Link) : Bool :=
  l.sess.helloDone || l.his.downing

/-- The BYE asks for the tear-down of a session that is up or has its rings and paths. -/
def byeActive (l : Link) : Bool :=
  l.sh.state == .up || (l.sess.ringsUp && l.sess.pathsEnabled)

def byeQuiesced (l : Link) : Bool :=
  l.sh.state != .up && l.sh.txQuiesced && l.tx.ringPosted == 0

/-- The section of the BYE case of `tbframe_link_handle_packet`, for a BYE that carries the record
`peer`: whether the link is quiesced, and (for the history) the BYE as it was handled. -/
def handleBye (peer : WireHello) (l : Link) : (Bool × Bye) × Link :=
  let l₁ := if byeActive l then requestDown .logout l else l
  let bye : Bye := { downs := l.his.downs, found := hasSession l, peer := peer }
  ((byeQuiesced l, bye),
    if byeQuiesced l then { l₁ with his := { l₁.his with byeSeen := bye :: l₁.his.byeSeen } }
    else l₁)

/-- The zombie section of `tbframe_link_verify_step`. -/
def zombieCheck (pathsActive : ℤ) (l : Link) : Bool × Link :=
  let zombie := l.sh.hs.zombie (pathsActive != 0)
  (zombie, if zombie && l.sh.state == .up then requestDown .verify l else l)

def rxSilent (p : DataProof) : Bool :=
  p.dataRx == p.dataRxTickMark && dataSilenceTicks ≤ p.silentTicks + 1

/-- No keepalive was acknowledged since the last verify tick, for too many ticks. -/
def txSilent (directional : Bool) (p : DataProof) : Bool :=
  directional && p.keepaliveTxAcked == p.keepaliveTxAckMark && dataSilenceTicks ≤ p.txSilentTicks + 1

def silenceTick (directional : Bool) (p : DataProof) : DataProof :=
  let rxMoved := p.dataRx != p.dataRxTickMark
  let txMoved := p.keepaliveTxAcked != p.keepaliveTxAckMark
  { p with
    dataRxTickMark := if rxMoved then p.dataRx else p.dataRxTickMark
    silentTicks := if rxMoved then 0 else p.silentTicks + 1
    keepaliveTxAckMark :=
      if directional && txMoved then p.keepaliveTxAcked else p.keepaliveTxAckMark
    txSilentTicks := if !directional || txMoved then 0 else p.txSilentTicks + 1 }

/-- The silence section of `tbframe_link_verify_step`: whether the session was condemned. -/
def silenceCheck (directional : Bool) (l : Link) : Bool × Link :=
  if (rxSilent l.prf || txSilent directional l.prf) && l.sh.state == .up && !l.sh.needsDown then
    (true, kickLocked { l with
      sh := { l.sh with needsDown := true, downReason := .verify }
      prf := { silenceTick directional l.prf with
        dataProven := false
        dataRxProven := l.prf.dataRxProven && !rxSilent l.prf
        dataTxProven := l.prf.dataTxProven && !txSilent directional l.prf
        silentTicks := 0
        txSilentTicks := 0 } })
  else (false, { l with prf := silenceTick directional l.prf })

/-- The last section of `tbframe_link_verify_step`. -/
def verifyRearm (l : Link) : Link :=
  if !l.sh.removing && l.sh.state == .up then { l with ctl := armVerifyTimer l.ctl } else l

/-- The section of `tbframe_verify_timer_fn`. -/
def verifyTimerFn (l : Link) : Link :=
  if !l.sh.removing && !l.sh.parked then { l with ctl := queueWork .verify l.ctl } else l

/-- The second section of `tbframe_core_rx_complete`, for a keepalive on an established session. -/
def keepaliveSupersede (cookie : UInt64) (l : Link) : Link :=
  if cookie != l.sess.remote.cookie && l.sh.state == .up then requestDown .supersede l else l

/-! ## TX sections -/

/-- `tbframe_tx_return_locked`: whether a blocked producer may go on.  The reference of the frame
passes to `t`, which drops it later. -/
def txReturn (t : Tid) (f : ℕ) (l : Link) : Bool × Link :=
  let fr := l.tx.frames f
  let woken := l.tx.txBlocked && l.sh.state == .up && !l.sh.removing
  (woken, { l with
    tx := { l.tx with
      ctrlInflight := if fr.chargedCtrl then l.tx.ctrlInflight - 1 else l.tx.ctrlInflight
      dataInflight := if fr.chargedData then l.tx.dataInflight - 1 else l.tx.dataInflight
      frames := Function.update l.tx.frames f
        { fr with chargedCtrl := false, chargedData := false, loc := .free }
      txFree := l.tx.txFree ++ [f]
      txBlocked := l.tx.txBlocked && !woken }
    his := { l.his with returning := t :: l.his.returning } })

/-- `__tbframe_alloc_frame` finds no session to allocate for. -/
def allocRefused (preUp : Bool) (l : Link) : Bool :=
  if preUp then !l.sess.ringsUp || !l.sess.pathsEnabled || l.sh.removing || l.sh.parked ||
    l.sh.state == .dead
  else l.sh.state != .up

def allocFull (isCtrl : Bool) (l : Link) : Bool :=
  if isCtrl then ctrlReserve ≤ l.tx.ctrlInflight else l.sess.dataWindow ≤ l.tx.dataInflight

/-- The section of `__tbframe_alloc_frame`; the frame taken is held by `t`. -/
def allocFrameLocked (t : Tid) (len : ℕ) (isCtrl preUp : Bool) (l : Link) :
    Except ℤ ℕ × Link :=
  if allocRefused preUp l then (.error enetdown, l)
  else if allocFull isCtrl l then (.error enospc, { l with tx := { l.tx with txBlocked := true } })
  else match l.tx.txFree with
    | [] => (.error enospc, { l with tx := { l.tx with txBlocked := true } })
    | f :: rest =>
      let fr := l.tx.frames f
      (.ok f, { l with
        tx := { l.tx with
          txFree := rest
          ctrlInflight := if isCtrl then l.tx.ctrlInflight + 1 else l.tx.ctrlInflight
          dataInflight := if isCtrl then l.tx.dataInflight else l.tx.dataInflight + 1
          frames := Function.update l.tx.frames f { fr with
            chargedCtrl := fr.chargedCtrl || isCtrl
            chargedData := fr.chargedData || !isCtrl
            len := len
            pdf := .data
            isCtrl := isCtrl
            loc := .held t } }
        ctl := { l.ctl with refcnt := l.ctl.refcnt + 1 } })

/-- The numbering section of `tbframe_link_send_keepalive` and the contents it writes to the frame
its caller holds. -/
def buildKeepalive (f : ℕ) (directional : Bool) (l : Link) : Link :=
  let fr := l.tx.frames f
  let seq := l.prf.keepaliveTxSeq + 1
  let data : Keepalive :=
    if directional then
      { sessionCookie := l.sess.localCookie
        sequence := seq
        ackCookie := if l.prf.keepalivePeerSeq ≠ 0 then l.sess.remote.cookie else 0
        ackSequence := l.prf.keepalivePeerSeq }
    else { fr.data with sessionCookie := l.sess.localCookie }
  { l with
    prf := { l.prf with keepaliveTxSeq := seq }
    tx := { l.tx with
      frames := Function.update l.tx.frames f { fr with pdf := .keepalive, data := data } }
    his := { l.his with numbered := l.his.numbered + 1 } }

/-- What the section of `__tbframe_xmit` decides. -/
inductive XmitVerdict
  | refused
  | queued
  | post
  deriving DecidableEq

/-- `__tbframe_xmit` finds a session to transmit for. -/
def xmitAdmitted (preUp : Bool) (l : Link) : Bool :=
  l.sess.ringsUp &&
    (if preUp then !l.sh.removing && !l.sh.parked && l.sh.state != .dead else l.sh.state == .up)

def enqueueTx (f : ℕ) (tx : TxPool) : TxPool :=
  { tx with
    txqCtrl := if (tx.frames f).isCtrl then tx.txqCtrl ++ [f] else tx.txqCtrl
    txqData := if (tx.frames f).isCtrl then tx.txqData else tx.txqData ++ [f]
    frames := Function.update tx.frames f { tx.frames f with loc := .queued } }

def postTx (t : Tid) (f : ℕ) (tx : TxPool) : TxPool :=
  { tx with
    ringPosted := tx.ringPosted + 1
    dataTxSubmitted := tx.dataTxSubmitted + 1
    frames := Function.update tx.frames f { tx.frames f with hwPosted := true, loc := .posting t } }

/-- Record a frame that `__tbframe_xmit` admits for an established session. -/
def recordAccepted (f : ℕ) (preUp : Bool) (h : History) : History :=
  { h with accepted := if preUp then h.accepted else f :: h.accepted }

/-- Record that a frame is no longer in the care of `__tbframe_xmit`. -/
def recordSettled (f : ℕ) (h : History) : History :=
  { h with accepted := h.accepted.filter (· ≠ f) }

/-- The section of `__tbframe_xmit`. -/
def xmitLocked (cfg : LinkCfg) (t : Tid) (f : ℕ) (preUp : Bool) (l : Link) : XmitVerdict × Link :=
  let sh := if preUp then { l.sh with txQuiesced := false } else l.sh
  if !xmitAdmitted preUp l then
    (.refused, { l with tx := { l.tx with dataTxRefused := l.tx.dataTxRefused + 1 } })
  else if cfg.tf.txRingBudget ≠ 0 ∧ cfg.tf.txRingBudget ≤ l.tx.ringPosted then
    (.queued, { l with sh := sh, tx := enqueueTx f l.tx, his := recordAccepted f preUp l.his })
  else (.post, { l with sh := sh, tx := postTx t f l.tx, his := recordAccepted f preUp l.his })

/-- A frame that `ring_tx` rejected is no longer posted; its new holder is `loc`. -/
def unpost (f : ℕ) (loc : TxLoc) (l : Link) : Link :=
  { l with
    tx := { l.tx with
      ringPosted := l.tx.ringPosted - 1
      frames := Function.update l.tx.frames f
        { l.tx.frames f with hwPosted := false, loc := loc } } }

/-- The failure section of `__tbframe_xmit`. -/
def xmitRingErr (t : Tid) (f : ℕ) (l : Link) : Link :=
  unpost f (.held t) { l with
    tx := { l.tx with dataTxRingErr := l.tx.dataTxRingErr + 1 }
    his := recordSettled f l.his }

/-- The failure section of `tbframe_core_tx_complete` for the frame it moved to the ring. -/
def refillErr (t : Tid) (f : ℕ) (l : Link) : Link :=
  unpost f (.done t) l

def takeQueued (tx : TxPool) : Option (ℕ × TxPool) :=
  match tx.txqCtrl, tx.txqData with
  | f :: rest, _ => some (f, { tx with txqCtrl := rest })
  | [], f :: rest => some (f, { tx with txqData := rest })
  | [], [] => none

/-- Splice both software queues to the head of an empty list; their frames go to `t`. -/
def spliceQueues (t : Tid) (tx : TxPool) : List ℕ × TxPool :=
  let flush := tx.txqData ++ tx.txqCtrl
  (flush, { tx with
    txqCtrl := []
    txqData := []
    frames := fun f ↦ if f ∈ flush then { tx.frames f with loc := .done t } else tx.frames f })

/-- The hardware is done with a frame; software-backlog flushes are not ring completions. -/
def txUnpost (f : ℕ) (canceled : Bool) (tx : TxPool) : TxPool :=
  if (tx.frames f).hwPosted then
    { tx with
      dataTxCanceled := if canceled then tx.dataTxCanceled + 1 else tx.dataTxCanceled
      dataTxDone := if canceled then tx.dataTxDone else tx.dataTxDone + 1
      ringPosted := tx.ringPosted - 1
      frames := Function.update tx.frames f { tx.frames f with hwPosted := false } }
  else tx

/-- What `tbframe_core_tx_complete` does with the software backlog: the frame it moves to the ring
and the frames it flushes. -/
def txRefill (cfg : LinkCfg) (t : Tid) (canceled : Bool) (l : Link) :
    Option ℕ × List ℕ × TxPool :=
  if cfg.tf.txRingBudget = 0 then (none, [], l.tx)
  else if !canceled && l.sh.state == .up && l.sess.ringsUp then
    match takeQueued l.tx with
    | none => (none, [], l.tx)
    | some (n, tx) => (some n, [], postTx t n tx)
  else if canceled then (none, spliceQueues t l.tx)
  else (none, [], l.tx)

/-- What `tbframe_core_tx_complete` keeps: whether to wake the client, the frame moved to the ring
and the frames to flush. -/
structure TxLocals where
  release : Bool
  next : Option ℕ
  flush : List ℕ

/-- The section of `tbframe_core_tx_complete`. -/
def txCompleteLocked (cfg : LinkCfg) (t : Tid) (f : ℕ) (canceled : Bool) (l : Link) :
    TxLocals × Link :=
  let returned := txReturn t f { l with tx := txUnpost f canceled l.tx }
  let refilled := txRefill cfg t canceled returned.2
  (⟨returned.1 && !canceled, refilled.1, refilled.2.1⟩,
    { returned.2 with tx := refilled.2.2, his := recordSettled f returned.2.his })

/-- `tbframe_link_put` for the reference of a frame that `t` put back. -/
def putReturned (t : Tid) (l : Link) : Link :=
  { l with
    ctl := { l.ctl with refcnt := l.ctl.refcnt - 1 }
    his := { l.his with returning := l.his.returning.erase t } }

/-! ## RX sections -/

/-- The section of `tbframe_frame_putback_rx`; the reference of the descriptor passes to `t`. -/
def putbackRxLocked (t : Tid) (f : ℕ) (l : Link) : Link :=
  { l with
    rx := { l.rx with
      rxFree := l.rx.rxFree ++ [f]
      frames := Function.update l.rx.frames f { l.rx.frames f with loc := .free } }
    his := { l.his with returning := t :: l.his.returning } }

/-- The section of `tbframe_frame_recycle_rx`: whether the descriptor is reposted. -/
def recycleRxLocked (f : ℕ) (l : Link) : Bool × Link :=
  let repost := l.sess.ringsUp && !l.sh.removing
  (repost, { l with
    rx := if repost then { l.rx with
        frames := Function.update l.rx.frames f
          { l.rx.frames f with rxGeneration := l.sess.dataGeneration } }
      else l.rx })

/-- Take the first descriptor of `rx_free` in the loop of `tbframe_link_bring_up`. -/
def takeRxFree (t : Tid) (l : Link) : Option ℕ × Link :=
  match l.rx.rxFree with
  | [] => (none, l)
  | f :: rest => (some f, { l with
      rx := { l.rx with
        rxFree := rest
        frames := Function.update l.rx.frames f { l.rx.frames f with loc := .held t } }
      ctl := { l.ctl with refcnt := l.ctl.refcnt + 1 } })

/-- `f->rx_generation = link->data_generation` in the loop of `tbframe_link_bring_up`. -/
def stampRx (f : ℕ) (l : Link) : Link :=
  { l with
    rx := { l.rx with
      frames := Function.update l.rx.frames f
        { l.rx.frames f with rxGeneration := l.sess.dataGeneration } } }

/-- What `tbframe_core_rx_complete` computes of a completion before it takes the lock. -/
structure RxLocals where
  len : ℕ
  pdf : Pdf
  bad : Bool
  directional : Bool
  proof : Bool
  cookie : UInt64
  keepalive : Keepalive

/-- The computation of `tbframe_core_rx_complete` before it takes the lock: `data` is the start of
the buffer. -/
def rxLocals (directional : Bool) (len : ℕ) (pdf : Pdf) (bad : Bool) (data : Keepalive) :
    RxLocals :=
  let proof := !bad && pdf == .keepalive && len == keepaliveLen directional
  { len := len
    pdf := pdf
    bad := bad
    directional := directional
    proof := proof && (!directional || data.sequence != 0)
    cookie := if proof then data.sessionCookie else 0
    keepalive := if proof && directional then data else {} }

/-- The keepalive acknowledges one of this link's `sent` keepalives. -/
def RxLocals.acks (c : RxLocals) (localCookie : UInt64) (sent : ℕ) : Bool :=
  c.directional && c.keepalive.ackCookie == localCookie && c.keepalive.ackSequence != 0 &&
    c.keepalive.ackSequence ≤ sent

def proofArrival (c : RxLocals) (p : DataProof) : DataProof :=
  { p with
    dataRxProven := true
    dataTxProven := p.dataTxProven || !c.directional
    keepalivePeerSeq :=
      if c.directional && p.keepalivePeerSeq < c.keepalive.sequence then c.keepalive.sequence
      else p.keepalivePeerSeq }

def proofAck (c : RxLocals) (localCookie : UInt64) (p : DataProof) : DataProof :=
  let acked := c.acks localCookie p.keepaliveTxSeq
  { p with
    dataTxProven := p.dataTxProven || acked
    keepaliveTxAcked :=
      if acked && p.keepaliveTxAcked < c.keepalive.ackSequence then c.keepalive.ackSequence
      else p.keepaliveTxAcked }

def proofAccept (c : RxLocals) (sess : Session) (p : DataProof) : DataProof :=
  let p₁ := proofAck c sess.localCookie (proofArrival c p)
  if p₁.dataRxProven && p₁.dataTxProven && !p₁.dataProven then
    { p₁ with dataProven := true, probeAttempts := 0, probeFailures := 0 }
  else p₁

def proofReject (c : RxLocals) (l : Link) : Link :=
  let p := { l.prf with
    dataRxBadCookie := l.prf.dataRxBadCookie + 1
    dataRxPriorCookie :=
      if c.cookie = l.sess.remote.previousCookie then l.prf.dataRxPriorCookie + 1
      else l.prf.dataRxPriorCookie }
  if l.sh.state != .up && l.sess.ringsUp && l.sess.pathsEnabled && !p.staleDrainActive then
    kickLocked { l with
      prf := { p with
        staleDrainActive := true
        staleDrainBudget := probeRetries
        probeAttempts := 0 } }
  else { l with prf := p }

/-- The record of a completion that `tbframe_core_rx_complete` processes. -/
def rxEvent (f : ℕ) (c : RxLocals) (data : Keepalive) (l : Link) : RxEvent where
  rxGeneration := (l.rx.frames f).rxGeneration
  generation := l.sess.dataGeneration
  len := c.len
  pdf := c.pdf
  bad := c.bad
  data := data

def rxProof (c : RxLocals) (l : Link) : Link :=
  let p := { l.prf with dataRx := l.prf.dataRx + 1 }
  if c.proof && c.cookie == l.sess.remote.cookie && l.sess.ringsUp && l.sess.pathsEnabled then
    { l with prf := proofAccept c l.sess p }
  else if c.proof && c.cookie != l.sess.remote.cookie then proofReject c { l with prf := p }
  else { l with prf := p }

/-- The accounting of `tbframe_core_rx_complete`; `current` says that the descriptor belongs to the
current generation. -/
def rxAccount (current : Bool) (c : RxLocals) (l : Link) : Link :=
  if !current then { l with prf := { l.prf with dataRxStale := l.prf.dataRxStale + 1 } }
  else if !c.bad && c.len ≤ maxFrame then
    { rxProof c l with prf := { (rxProof c l).prf with silentTicks := 0 } }
  else if c.bad then { l with prf := { l.prf with dataRxBad := l.prf.dataRxBad + 1 } }
  else { l with prf := { l.prf with dataRxOversize := l.prf.dataRxOversize + 1 } }

/-- The main section of `tbframe_core_rx_complete`: whether the descriptor belongs to the current
generation, and whether the session is established. -/
def rxCompleteLocked (f : ℕ) (c : RxLocals) (data : Keepalive) (l : Link) :
    (Bool × Bool) × Link :=
  let current := (l.rx.frames f).rxGeneration == l.sess.dataGeneration
  ((current, current && l.sh.state == .up),
    rxAccount current c { l with
      his := { l.his with received := rxEvent f c data l :: l.his.received } })

end ThunderboltStack.Tbframe
