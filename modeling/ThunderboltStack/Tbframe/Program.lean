import ThunderboltStack.Tbframe.Ops

/-!
# tbframe as concurrent programs

The functions of `core.c` that run a link, as programs over its atomic steps, and the machine whose
threads run them: the session, verify and `tx_released` works, and any number of tasks for the
dispatch of control packets, ring completions, client calls, registration and teardown.

Loops whose length depends on what other threads do draw their number of turns first and stop the
thread when it is used up, so every finite run of the code is a run of the model.
-/

namespace ThunderboltStack.Tbframe

open ThunderboltStack.Lib

abbrev BaseProg (α : Type) : Type := Prog baseSig α

abbrev NetProg (α : Type) : Type := Prog netSig α

abbrev TxProg (α : Type) : Type := Prog txSig α

abbrev RxProg (α : Type) : Type := Prog rxSig α

/-- Programs that run under `session_lock`. -/
abbrev HeldProg (α : Type) : Type := Prog heldSig α

/-- Programs that may take `session_lock`. -/
abbrev LinkProg (α : Type) : Type := Prog linkSig α

def read (o : ReadOp) : BaseProg o.Res :=
  .call (S := baseSig) (.read o)

def disp (o : DispOp) : BaseProg o.Res :=
  .call (S := baseSig) (.disp o)

def hw (o : HwOp) : BaseProg o.Res :=
  .call (S := baseSig) (.hw o)

def ctl (o : CtlOp) : BaseProg o.Res :=
  .call (S := baseSig) (.ctl o)

/-- A message on the control channel or a section that acts on one. -/
def net (o : NetOp) : NetProg o.Res :=
  .call (S := netSig) (.net o)

def tx (o : TxOp) : TxProg o.Res :=
  .call (S := txSig) (.tx o)

def rx (o : RxOp) : RxProg o.Res :=
  .call (S := rxSig) (.rx o)

/-- A section under `session_lock`. -/
def sess (o : SessOp) : HeldProg o.Res :=
  .call (S := heldSig) (.sess o)

/-- A backend call that acquires or releases a resource of the session. -/
def asset (o : AssetOp) : HeldProg o.Ans :=
  sess (.asset o)

/-- Run a program with `session_lock` held. -/
def withSessionLock {α : Type} (p : HeldProg α) : LinkProg α := do
  .call (S := linkSig) .lockSession
  let a ← p
  .call (S := linkSig) .unlockSession
  return a

variable (cfg : LinkCfg)

/-! ## Frames -/

def xmit (f : ℕ) (preUp : Bool) : TxProg ℤ := do
  hw .enter
  match ← tx (.xmit f preUp) with
  | .queued =>
    hw .leave
    return 0
  | .refused =>
    hw .leave
    return enetdown
  | .post =>
    let ret ← tx (.ringTx f)
    Prog.when (ret ≠ 0) (tx (.ringErr f))
    hw .leave
    return ret

def frameFree (f : ℕ) : TxProg Unit := do
  let release ← tx (.free f)
  Prog.when release (ctl .queueTxReleased)
  tx .putLink

/-- `tbframe_core_tx_complete`, with a bound on the depth of its recursion. -/
def coreTxComplete : ℕ → ℕ → Bool → TxProg Unit
  | 0, _, _ => ctl .halt
  | n + 1, f, canceled => do
    hw .enter
    let r ← tx (.complete f canceled)
    Prog.forEach r.next.toList fun next ↦ do
      let ret ← tx (.ringTx next)
      Prog.when (ret ≠ 0) do
        tx (.refillErr next)
        coreTxComplete n next true
    hw .leave
    Prog.forEach r.flush fun qf ↦ coreTxComplete n qf true
    Prog.when r.release (ctl .queueTxReleased)
    tx .putLink

def putbackRx (f : ℕ) : RxProg Unit := do
  rx (.putback f)
  rx .putLink

def recycleRx (f : ℕ) : RxProg Unit := do
  hw .enter
  let repost ← rx (.recycle f)
  if repost then
    let ret ← rx (.postRx f)
    hw .leave
    Prog.when (ret ≠ 0) (putbackRx f)
  else
    hw .leave
    putbackRx f

/-- `tbframe_core_rx_complete`.  The `rx_bad` upcall is an observation only and is left out. -/
def coreRxComplete (f : ℕ) (canceled : Bool) (len : ℕ) (pdf : Pdf) (bad : Bool)
    (data : Keepalive) : RxProg Unit := do
  if canceled then putbackRx f
  else
    let caps ← read .remoteCaps
    let c := rxLocals (hasCap caps capKeepaliveAck) len pdf bad data
    let (_, up) ← rx (.complete f c data)
    if !up || bad || maxFrame < len then recycleRx f
    else if pdf = .keepalive then
      Prog.when c.proof (disp (.keepaliveSupersede c.cookie))
      recycleRx f
    else
      rx (.upcallRx f len pdf)
      let last ← rx (.corePut f)
      Prog.when last (recycleRx f)

def sendKeepalive (preUp : Bool) : TxProg ℤ := do
  let caps ← read .remoteCaps
  let directional := hasCap caps capKeepaliveAck
  match ← tx (.alloc (keepaliveLen directional) true preUp) with
  | .error e => return e
  | .ok f =>
    tx (.build f directional)
    let ret ← xmit f preUp
    Prog.when (ret ≠ 0) (frameFree f)
    return ret

/-! ## Negotiation -/

/-- The correlation check on the reply to a request of sequence number `seq`. -/
def replyMatches (op : WireOp) (seq : UInt32) (m : WireMsg) : Bool :=
  m.info.op == op && m.info.seq == seq && m.info.xdomainSequence == seq &&& 3

/-- `tbframe_link_query_hello`: the peer's answer and the capabilities that were offered. -/
def queryHello : NetProg (Except ℤ WireHello × UInt32) := do
  let mask ← read .helloOfferMask
  let hello ← read (.fillLocalHello mask)
  let seq ← disp .nextRequestSeq
  net (.request ⟨hello, ⟨.hello, seq, seq &&& 3, cfg.route⟩⟩)
  match ← net .reply with
  | .error e => return (.error e, hello.capabilities)
  | .ok m =>
    if !replyMatches .helloAck seq m || m.hello.protoVersion != wireVersion then
      return (.error eproto, hello.capabilities)
    else return (.ok m.hello, hello.capabilities)

/-- The rounds of `tbframe_link_hello_once`. -/
def helloRounds : ℕ → HeldProg (Except ℤ WireHello)
  | 0 => return .error eproto
  | n + 1 => do
    match ← queryHello cfg with
    | (.error e, _) => return .error e
    | (.ok remote, offered) =>
      let selected := supportedCaps cfg.tf &&& remote.capabilities
      if offered = selected then return .ok remote
      else
        sess (.helloSelect selected)
        helloRounds n

def helloOnce : HeldProg (Except ℤ Unit) := do
  match ← helloRounds cfg 2 with
  | .error e => return .error e
  | .ok remote =>
    let ret ← sess (.helloApply remote)
    return if ret = 0 then .ok () else .error ret

def revalidateStaleData : HeldProg Unit := do
  let (reply, _) ← queryHello cfg
  sess (.revalidated reply.toOption)

/-- `tbframe_link_ready_once`.  READY keeps its sequence number in eight bits. -/
def readyOnce : HeldProg (Except ℤ Unit) := do
  let caps ← read .remoteCaps
  let hello ← read (.fillLocalHello caps)
  let next ← disp .nextRequestSeq
  let seq := next &&& 0xff
  net (.request ⟨hello, ⟨.ready, seq, seq &&& 3, cfg.route⟩⟩)
  match ← net .reply with
  | .error e => return .error e
  | .ok m =>
    if !replyMatches .readyAck seq m then return .error eproto
    else
      let ret ← sess (.readyConfirm m.hello)
      return if ret = 0 then .ok () else .error ret

def flushReadyResponse : NetProg ℤ := do
  match ← net .flushReadyTake with
  | none => return 0
  | some (seq, xdomainSequence) =>
    let caps ← read .remoteCaps
    let hello ← read (.fillLocalHello caps)
    let ret ← net (.response ⟨hello, ⟨.readyAck, seq, xdomainSequence, cfg.route⟩⟩ none)
    disp (.flushReadyDone ret seq xdomainSequence)
    return if ret < 0 then ret else 0

/-- The retries of `tbframe_link_bye`. -/
def byeRounds (req : WireMsg) : ℕ → NetProg Unit
  | 0 => return
  | n + 1 => do
    net (.request req)
    match ← net .reply with
    | .error _ => byeRounds req n
    | .ok m => if replyMatches .byeAck req.info.seq m then return else byeRounds req n

def bye : NetProg Unit := do
  let caps ← read .remoteCaps
  let hello ← read (.fillLocalHello caps)
  let seq ← disp .nextRequestSeq
  byeRounds ⟨hello, ⟨.bye, seq, seq &&& 3, cfg.route⟩⟩ byeRetries

/-! ## Bring-up and tear-down -/

/-- `stop_rings`: every descriptor comes back through the completion callbacks. -/
def stopRings : HeldProg Unit := do
  sess .stopRings
  hw .flushRings

def quarantinePaths (hopid : UInt16) : HeldProg Bool := do
  if !cfg.quarantine then return false
  else
    let ret ← asset (.quarantinePaths hopid)
    if ret ≠ 0 then return false
    else
      sess .quarantined
      return true

def notifyDown (reason : DownReason) (wasUp terminal : Bool) : HeldProg Unit := do
  let deliver ← sess (.notifyDown wasUp terminal)
  Prog.when deliver (sess (.upcallDown reason))

/-- The loop of `tbframe_link_bring_up` that posts the RX descriptors. -/
def postRxFrames : ℕ → RxProg ℤ
  | 0 => do
    ctl .halt
    return 0
  | n + 1 => do
    match ← rx .takeFree with
    | none => return 0
    | some f =>
      rx (.stamp f)
      let ret ← rx (.postRx f)
      if ret ≠ 0 then
        putbackRx f
        return ret
      else postRxFrames n

/-- `tbframe_link_bring_up` from the label `err_free_rings`. -/
def bringUpFreeRings (hopid : UInt16) (ret : ℤ) : HeldProg ℤ := do
  asset .freeRings
  let held ← sess .bringUpUndo
  Prog.when held (asset (.releaseInHopid hopid))
  return ret

/-- `tbframe_link_bring_up` from the label `err_stop_rings`. -/
def bringUpStopRings (hopid : UInt16) (ret : ℤ) : HeldProg ℤ := do
  stopRings
  bringUpFreeRings hopid ret

/-- `tbframe_link_bring_up` after `enable_paths` rolled back uncleanly. -/
def bringUpUnclean (hopid : UInt16) (ret : ℤ) : HeldProg ℤ := do
  sess (.setPathsOwned true)
  let disconnectRet ← asset (.disablePaths hopid)
  stopRings
  if disconnectRet ≠ 0 then
    let handedOff ← quarantinePaths cfg hopid
    Prog.when (!handedOff) (sess .markDead)
    notifyDown .deadHw false true
    return disconnectRet
  else
    sess (.setPathsOwned false)
    bringUpFreeRings hopid ret

def bringUp : HeldProg ℤ := do
  let (hopid, e2e) ← sess .bringUpBegin
  let ret ← asset (.allocRings e2e)
  if ret ≠ 0 then return ret
  else
    sess (.setRingsAllocated true)
    let ret ← asset (.allocInHopid hopid)
    if ret < 0 then bringUpFreeRings hopid ret
    else
      sess (.holdInHopid hopid)
      sess .startRings
      let n ← ctl .turns
      let ret ← postRxFrames n
      if ret ≠ 0 then bringUpStopRings hopid ret
      else
        let ret ← asset (.enablePaths hopid)
        if ret = euclean then bringUpUnclean cfg hopid ret
        else if ret ≠ 0 then bringUpStopRings hopid ret
        else
          sess (.bringUpDone e2e)
          return 0

/-- `tbframe_link_down_session` up to the quiesce point: the reason it continues with. -/
def downQuiesce (reason : DownReason) (d : DownLocals) : HeldProg DownReason := do
  ctl (.timerDelete false)
  let timedOut ← hw .drain
  Prog.when timedOut (sess .markDead)
  let flush ← tx .splice
  let n ← ctl .turns
  Prog.forEach flush fun qf ↦ coreTxComplete n qf true
  Prog.when d.ringsRunning (hw .quiesceTx)
  sess .markQuiesced
  return if timedOut then .deadHw else reason

/-- The path disconnect of `tbframe_link_down_session`, if the session owned paths. -/
def downDisable (d : DownLocals) : HeldProg ℤ :=
  if d.hadPaths then asset (.disablePaths d.remoteHopid) else return 0

/-- The path and ring part of `tbframe_link_down_session`: what is left of the disconnect error. -/
def downDisconnect (d : DownLocals) : HeldProg (ℤ × Bool) := do
  let ret ← downDisable d
  Prog.when d.ringsRunning stopRings
  if ret ≠ 0 then
    sess .markDead
    let handedOff ← quarantinePaths cfg d.remoteHopid
    return (if handedOff then 0 else ret, true)
  else
    sess .pathsGone
    return (0, false)

/-- The release part of `tbframe_link_down_session`. -/
def downRelease (d : DownLocals) (ret : ℤ) (terminal : Bool) : HeldProg Unit := do
  let handoff ← read .terminalHandoff
  Prog.when (ret = 0 ∧ d.hadRings ∧ terminal ∧ ¬ handoff) (asset .freeRings)
  Prog.when (ret = 0 ∧ d.hadHopid ∧ ¬ handoff) (asset (.releaseInHopid d.remoteHopid))
  Prog.when (ret = 0 ∧ terminal) (sess (.setRingsAllocated false))

def downSession (reason : DownReason) (owner : SessionOwner) : HeldProg ℤ := do
  let d ← sess (.downBegin owner)
  let reason ← downQuiesce reason d
  let shutdown ← read .shutdownMode
  Prog.when ((d.wasUp || d.activeSession) && !shutdown && (reason == .closed || reason == .verify))
    (bye cfg)
  let (ret, failed) ← downDisconnect cfg d
  let reason := if failed then .deadHw else reason
  downRelease d ret reason.terminal
  notifyDown reason d.wasUp reason.terminal
  Prog.when (!reason.terminal) (disp .kick)
  sess .downEnd
  return ret

/-! ## The session step -/

def proveDataPath : HeldProg Bool := do
  let (proven, _, caps) ← read .proofState
  if proven || !cfg.tf.dataProof then return true
  else if !cfg.tf.keepalive || !hasCap caps capKeepalive then
    sess .proofUnavailable
    disp .kick
    return false
  else
    let _ ← sendKeepalive true
    let a ← sess .probeAttempt
    if a.proven then return true
    else if a.staleExpired then
      revalidateStaleData cfg
      return false
    else if a.staleDraining || a.attempts < probeRetries then
      disp .kick
      return false
    else
      sess .probeFailed
      return false

def maybeUp : HeldProg Unit := do
  match ← sess .maybeUp with
  | none => return
  | some info =>
    sess (.upcallUp info)
    sess .upDone

/-- The HELLO part of `__tbframe_link_session_step`: whether the step goes on. -/
def stepHello (helloDone : Bool) : HeldProg Bool := do
  if helloDone then return true
  else
    match ← helloOnce cfg with
    | .ok () => return true
    | .error _ =>
      let attempts ← sess .helloFailed
      Prog.when (helloRetries ≤ attempts) (hw .reannounce)
      disp .kick
      return false

/-- The bring-up part of `__tbframe_link_session_step`: whether the step goes on. -/
def stepBringUp (ringsUp : Bool) : HeldProg Bool := do
  if ringsUp then return true
  else
    let ringsUp ← read .ringsUp
    if ringsUp then return true
    else
      let ret ← bringUp cfg
      if ret ≠ 0 then
        disp .kick
        return false
      else return true

/-- Whether a READY was sent, sampled again if it was not at the start of the step. -/
def sampleReadySent (readySent : Bool) : BaseProg Bool :=
  if readySent then return true else read .requestSent

/-- The READY part of `__tbframe_link_session_step`: whether the step goes on. -/
def stepReady (readySent : Bool) : HeldProg Bool := do
  let ret ← flushReadyResponse cfg
  if ret ≠ 0 then
    disp .kick
    return false
  else
    let readySent ← sampleReadySent readySent
    if readySent then return true
    else
      match ← readyOnce cfg with
      | .ok () => return true
      | .error _ =>
        let attempts ← sess .readyFailed
        Prog.when (readyRetries ≤ attempts) (hw .reannounce)
        disp .kick
        return false

/-- `__tbframe_link_session_step` for a session with no down pending. -/
def stepForward (helloDone ringsUp readySent : Bool) : HeldProg Unit := do
  if ← stepHello cfg helloDone then
    if ← stepBringUp cfg (helloDone && ringsUp) then
      if ← stepReady cfg readySent then
        if ← proveDataPath cfg then maybeUp

/-- The owner of a down requested for `reason`. -/
def downOwner (reason : DownReason) : SessionOwner :=
  if reason = .supersede ∨ reason = .logout then .peer else .local

/-- `__tbframe_link_session_step`. -/
def sessionStepLocked : HeldProg Unit := do
  match ← read .stepEntry with
  | none => return
  | some (down, reason, helloDone, ringsUp, readySent) =>
    if down then
      let _ ← downSession cfg reason (downOwner reason)
    else stepForward cfg helloDone ringsUp readySent

def sessionStep : LinkProg Unit :=
  withSessionLock (sessionStepLocked cfg)

def verifyStep : TxProg Unit := do
  match ← read .verifyEntry with
  | none => return
  | some (hopid, caps) =>
    let ret ← hw (.pathsActive hopid)
    let zombie ← disp (.zombieCheck ret)
    if zombie then return
    else if cfg.tf.keepalive && hasCap caps capKeepalive then
      let _ ← sendKeepalive false
      let silent ← disp (.silenceCheck (hasCap caps capKeepaliveAck))
      if silent then return else disp .verifyRearm
    else disp .verifyRearm

/-- The HELLO case of `tbframe_link_handle_packet`. -/
def handleHelloPacket (m : WireMsg) : NetProg Unit := do
  if m.hello.protoVersion ≠ wireVersion then return
  else
    let ack ← net (.handleHello m.hello)
    Prog.when ack do
      let hello ← read (.fillLocalHello m.hello.capabilities)
      let _ ← net (.response
        ⟨hello, ⟨.helloAck, m.info.seq, m.info.xdomainSequence, cfg.route⟩⟩ none)

/-- The READY case of `tbframe_link_handle_packet`. -/
def handleReadyPacket (m : WireMsg) : NetProg Unit := do
  let ours ← net (.handleReady m.hello m.info)
  Prog.when ours do
    let _ ← flushReadyResponse cfg

/-- The BYE case of `tbframe_link_handle_packet`. -/
def handleByePacket (m : WireMsg) : NetProg Unit := do
  let (quiesced, bye) ← net (.handleBye m.hello)
  Prog.when quiesced do
    let hello ← read (.fillLocalHello m.hello.capabilities)
    let _ ← net (.response
      ⟨hello, ⟨.byeAck, m.info.seq, m.info.xdomainSequence, cfg.route⟩⟩ (some bye))

def handlePacket (m : WireMsg) : NetProg Unit := do
  if m.info.route ≠ cfg.route then return
  else
    let refused ← read (.packetFence m.info.op)
    if refused then return
    else
      match m.info.op with
      | .hello => handleHelloPacket cfg m
      | .ready => handleReadyPacket cfg m
      | .bye => handleByePacket cfg m
      | .helloAck | .readyAck | .byeAck => return

def cancelActivity (permanent : Bool) : BaseProg Unit := do
  ctl (.timerDelete permanent)
  ctl (.cancel .session)
  ctl (.cancel .verify)
  ctl (.cancel .txReleased)

def downParked : LinkProg Unit := do
  let _ ← withSessionLock (downSession cfg .closed .local)

/-- `tbframe_register_client_tf`, as one link sees it. -/
def registerClient : BaseProg Unit := do
  let published ← ctl .publishClient
  Prog.when published (ctl .scanClient)

/-- One pass of the walk over the links in `tbframe_unregister_client_tf`, as one link sees it. -/
def walkPass (p : LinkProg Unit) : LinkProg Unit := do
  let found ← .call (S := linkSig) .dispatchNext
  Prog.when found do
    p
    .call (S := linkSig) .putLink

/-- `tbframe_unregister_client_tf`, as one link sees it. -/
def unregisterClient : LinkProg Unit := do
  ctl (.markListed true false)
  walkPass (cancelActivity false)
  walkPass (downParked cfg)
  walkPass (cancelActivity false)
  ctl .clearClient

/-- `tbframe_prepare_quiesce`, as one link sees it. -/
def prepareQuiesce (removing : Bool) : LinkProg Unit := do
  ctl (.markListed true removing)
  walkPass (cancelActivity true)

def linkShutdown : LinkProg Unit := do
  ctl (.setFlags true false)
  ctl (.timerDelete true)
  ctl (.cancel .session)
  ctl (.cancel .verify)
  downParked cfg
  ctl (.cancel .txReleased)

def linkDestroy (reason : DownReason) : LinkProg ℤ := do
  ctl (.setFlags false true)
  ctl (.timerDelete true)
  ctl (.cancel .session)
  ctl (.cancel .verify)
  let ret ← withSessionLock (downSession cfg reason .local)
  ctl (.cancel .txReleased)
  if ret ≠ 0 then return ret
  else
    ctl .delist
    let handoff ← read .terminalHandoff
    Prog.when (!handoff) (hw .releaseOutHopid)
    .call (S := linkSig) .putCreated
    let zero ← ctl .waitRefsZero
    if zero then return 0
    else
      ctl .forceDead
      return ebusy

/-- `tbframe_service_remove`: a link whose destruction failed keeps its hardware context. -/
def serviceRemove (isUnplugged : Bool) : LinkProg Unit := do
  let ret ← linkDestroy cfg (if isUnplugged then .unplug else .closed)
  Prog.when (ret = 0) (.call (S := linkSig) .hwDestroy)

end ThunderboltStack.Tbframe
