import ThunderboltStack.Lib.Program
import ThunderboltStack.Tbframe.Sections

/-!
# The atomic steps of a tbframe link

The sections of `core.c` grouped into families by what they may touch: `ReadOp` changes nothing,
`SessOp` runs under `session_lock`, `DispOp` belongs to the dispatch and verify contexts, `NetOp` to
the control channel, `TxOp` and `RxOp` work on the frame pools and their rings, `HwOp` and `AssetOp`
call the backend (whose answers are inputs), and `CtlOp` covers work items, references and the
client slot.  `AssetOp` are the calls by which a session acquires and releases what it holds of the
hardware; they are made under `session_lock`.

Signatures say where a function may run and what it may touch.  `baseSig` has neither the control
channel nor a frame pool, `netSig`, `txSig` and `rxSig` add one of them, `heldSig` has all and the
sections under `session_lock`, and `linkSig` adds taking and releasing that lock and the end of the
hardware context.
-/

namespace ThunderboltStack.Tbframe

open ThunderboltStack.Lib

inductive ReadOp
  | helloOfferMask
  | remoteCaps
  | fillLocalHello (peerCaps : UInt32)
  | proofState
  | ringsUp
  | requestSent
  | stepEntry
  | verifyEntry
  | packetFence (op : WireOp)
  | terminalHandoff
  | shutdownMode

@[reducible]
def ReadOp.Res : ReadOp → Type
  | .helloOfferMask => UInt32
  | .remoteCaps => UInt32
  | .fillLocalHello _ => WireHello
  | .proofState => Bool × Bool × UInt32
  | .ringsUp => Bool
  | .requestSent => Bool
  | .stepEntry => Option (Bool × DownReason × Bool × Bool × Bool)
  | .verifyEntry => Option (UInt16 × UInt32)
  | .packetFence _ => Bool
  | .terminalHandoff => Bool
  | .shutdownMode => Bool

def ReadOp.get (cfg : LinkCfg) (l : Link) : (o : ReadOp) → o.Res
  | .helloOfferMask => Tbframe.helloOfferMask l
  | .remoteCaps => l.sess.remote.caps
  | .fillLocalHello peerCaps => Tbframe.fillLocalHello cfg peerCaps l
  | .proofState => (l.prf.dataProven, l.prf.dataProofUnavailableWarned, l.sess.remote.caps)
  | .ringsUp => l.sess.ringsUp
  | .requestSent => l.sh.hs.requestSent
  | .stepEntry => Tbframe.stepEntry l
  | .verifyEntry => Tbframe.verifyEntry l
  | .packetFence op => Tbframe.packetFence op l
  | .terminalHandoff => l.sess.terminalHandoff
  | .shutdownMode => l.ctl.shutdownMode

inductive AssetOp
  | allocRings (e2e : Bool)
  | allocInHopid (hopid : UInt16)
  | enablePaths (hopid : UInt16)
  | disablePaths (hopid : UInt16)
  | quarantinePaths (hopid : UInt16)
  | freeRings
  | releaseInHopid (hopid : UInt16)

@[reducible]
def AssetOp.Ans : AssetOp → Type
  | .freeRings | .releaseInHopid _ => Unit
  | _ => ℤ

/-- The effect of a call on what the backend holds for the link.  Paths whose activation was rolled
back uncleanly (`-EUCLEAN`) remain owned. -/
def AssetOp.apply (h : Hardware) : (o : AssetOp) → o.Ans → Hardware
  | .allocRings _, ret => { h with rings := if ret = 0 then true else h.rings }
  | .allocInHopid hopid, ret =>
      { h with inHopids := if 0 ≤ ret then hopid :: h.inHopids else h.inHopids }
  | .enablePaths hopid, ret =>
      { h with paths := if ret = 0 ∨ ret = euclean then some hopid else h.paths }
  | .disablePaths _, ret => { h with paths := if ret = 0 then none else h.paths }
  | .quarantinePaths _, ret =>
      if ret = 0 then { h with paths := none, rings := false, inHopids := [] } else h
  | .freeRings, _ => { h with rings := false }
  | .releaseInHopid hopid, _ => { h with inHopids := h.inHopids.erase hopid }

/-! ## Session sections -/

/-- Sections executed by the holder of `session_lock`.  `upcallUp` and `upcallDown` are the
`link_up` and `link_down` calls under the read side of `client_rwsem`, `asset`, `startRings` and
`stopRings` are backend calls. -/
inductive SessOp
  | asset (o : AssetOp)
  | helloSelect (caps : UInt32)
  | helloApply (remote : WireHello)
  | bringUpBegin
  | setRingsAllocated (b : Bool)
  | holdInHopid (hopid : UInt16)
  | setPathsOwned (b : Bool)
  | markDead
  | startRings
  | stopRings
  | bringUpDone (e2e : Bool)
  | bringUpUndo
  | quarantined
  | notifyDown (wasUp terminal : Bool)
  | upcallDown (reason : DownReason)
  | readyConfirm (remote : WireHello)
  | maybeUp
  | upcallUp (info : LinkInfo)
  | upDone
  | downBegin (owner : SessionOwner)
  | markQuiesced
  | pathsGone
  | downEnd
  | helloFailed
  | readyFailed
  | proofUnavailable
  | probeAttempt
  | probeFailed
  | revalidated (reply : Option WireHello)

/-- What the backend answers, and the value drawn at random for the next session cookie. -/
@[reducible]
def SessOp.Inp : SessOp → Type
  | .asset o => o.Ans
  | .downBegin _ => UInt64
  | _ => Unit

@[reducible]
def SessOp.Res : SessOp → Type
  | .asset o => o.Ans
  | .helloApply _ => ℤ
  | .bringUpBegin => UInt16 × Bool
  | .bringUpUndo => Bool
  | .notifyDown _ _ => Bool
  | .readyConfirm _ => ℤ
  | .maybeUp => Option LinkInfo
  | .downBegin _ => DownLocals
  | .helloFailed => ℕ
  | .readyFailed => ℕ
  | .probeAttempt => ProbeLocals
  | _ => Unit

def upcall (u : Upcall) (l : Link) : Link :=
  if l.ctl.client then { l with his := { l.his with upcalls := l.his.upcalls ++ [u] } } else l

def SessOp.exec (cfg : LinkCfg) (l : Link) : (o : SessOp) → o.Inp → o.Res × Link
  | .asset o, ans => (ans, { l with hw := o.apply l.hw ans })
  | .helloSelect caps, _ => ((), Tbframe.helloSelect caps l)
  | .helloApply remote, _ => Tbframe.helloApply remote l
  | .bringUpBegin, _ => Tbframe.bringUpBegin cfg l
  | .setRingsAllocated b, _ => ((), Tbframe.setRingsAllocated b l)
  | .holdInHopid hopid, _ => ((), Tbframe.holdInHopid hopid l)
  | .setPathsOwned b, _ => ((), Tbframe.setPathsOwned b l)
  | .markDead, _ => ((), Tbframe.markDead l)
  | .startRings, _ => ((), Tbframe.startRings l)
  | .stopRings, _ => ((), stopRunning l)
  | .bringUpDone e2e, _ => ((), Tbframe.bringUpDone cfg e2e l)
  | .bringUpUndo, _ => Tbframe.bringUpUndo l
  | .quarantined, _ => ((), Tbframe.quarantined l)
  | .notifyDown wasUp terminal, _ => notifyDownLocked wasUp terminal l
  | .upcallDown reason, _ => ((), upcall (.down reason) l)
  | .readyConfirm remote, _ => Tbframe.readyConfirm remote l
  | .maybeUp, _ => maybeUpLocked cfg l
  | .upcallUp info, _ => ((), upcall (.up info) l)
  | .upDone, _ => ((), Tbframe.upDone l)
  | .downBegin owner, random =>
      Tbframe.downBegin owner (newSessionCookie l.sess.localCookie random) l
  | .markQuiesced, _ => ((), Tbframe.markQuiesced l)
  | .pathsGone, _ => ((), Tbframe.pathsGone l)
  | .downEnd, _ => ((), Tbframe.downEnd l)
  | .helloFailed, _ => Tbframe.helloFailed l
  | .readyFailed, _ => Tbframe.readyFailed l
  | .proofUnavailable, _ => ((), Tbframe.proofUnavailable l)
  | .probeAttempt, _ => Tbframe.probeAttempt l
  | .probeFailed, _ => ((), Tbframe.probeFailed l)
  | .revalidated reply, _ => ((), Tbframe.revalidated reply l)

inductive DispOp
  | nextRequestSeq
  | flushReadyDone (ret : ℤ) (seq xdomainSequence : UInt32)
  | zombieCheck (pathsActive : ℤ)
  | silenceCheck (directional : Bool)
  | verifyRearm
  | keepaliveSupersede (cookie : UInt64)
  | kick

/-- The values returned by dispatch and verify sections. -/
@[reducible]
def DispOp.Res : DispOp → Type
  | .nextRequestSeq => UInt32
  | .zombieCheck _ => Bool
  | .silenceCheck _ => Bool
  | _ => Unit

/-- The effect of a dispatch or verify section. -/
def DispOp.exec (l : Link) : (o : DispOp) → o.Res × Link
  | .nextRequestSeq => Tbframe.nextRequestSeq l
  | .flushReadyDone ret seq xdomainSequence =>
      ((), Tbframe.flushReadyDone ret seq xdomainSequence l)
  | .zombieCheck pathsActive => Tbframe.zombieCheck pathsActive l
  | .silenceCheck directional => Tbframe.silenceCheck directional l
  | .verifyRearm => ((), Tbframe.verifyRearm l)
  | .keepaliveSupersede cookie => ((), Tbframe.keepaliveSupersede cookie l)
  | .kick => ((), kickLocked l)

/-! ## The control channel -/

/-- Messages on the control channel and the sections that act on them.  A request is sent by
`request` and its outcome awaited by `reply`.  A BYE_ACK comes with the BYE that it answers. -/
inductive NetOp
  | request (msg : WireMsg)
  | reply
  | response (msg : WireMsg) (bye : Option Bye)
  | handleHello (remote : WireHello)
  | handleReady (remote : WireHello) (info : WireInfo)
  | flushReadyTake
  | handleBye (peer : WireHello)

/-- What the control channel answers. -/
@[reducible]
def NetOp.Inp : NetOp → Type
  | .reply => Except ℤ WireMsg
  | .response _ _ => ℤ
  | _ => Unit

/-- The values returned by the control channel and its sections. -/
@[reducible]
def NetOp.Res : NetOp → Type
  | .request _ => Unit
  | .reply => Except ℤ WireMsg
  | .response _ _ => ℤ
  | .handleHello _ => Bool
  | .handleReady _ _ => Bool
  | .flushReadyTake => Option (UInt32 × UInt32)
  | .handleBye _ => Bool × Bye

/-- The effect of a message, or of a section that acts on one, executed by `t`. -/
def NetOp.exec (t : Tid) (l : Link) : (o : NetOp) → o.Inp → o.Res × Link
  | .request msg, _ => ((), { l with his := { l.his with sent := msg :: l.his.sent } })
  | .reply, outcome => (outcome, l)
  | .response msg bye, ret => (ret, { l with his := { l.his with
      sent := msg :: l.his.sent
      byeAcked := bye.toList ++ l.his.byeAcked
      acking := l.his.acking.filter fun a ↦ a.1 ≠ t } })
  | .handleHello remote, _ => Tbframe.handleHello remote l
  | .handleReady remote info, _ => Tbframe.handleReady remote info l
  | .flushReadyTake, _ => Tbframe.flushReadyTake t l
  | .handleBye peer, _ => Tbframe.handleBye peer l

/-! ## Frame pool sections -/

/-- Sections on the TX pool, and the `ring_tx` call. -/
inductive TxOp
  | alloc (len : ℕ) (isCtrl preUp : Bool)
  | build (f : ℕ) (directional : Bool)
  | xmit (f : ℕ) (preUp : Bool)
  | ringTx (f : ℕ)
  | ringErr (f : ℕ)
  | refillErr (f : ℕ)
  | splice
  | free (f : ℕ)
  | complete (f : ℕ) (canceled : Bool)
  | toClient (f : ℕ)
  | putLink

/-- What `ring_tx` answers. -/
@[reducible]
def TxOp.Inp : TxOp → Type
  | .ringTx _ => ℤ
  | _ => Unit

@[reducible]
def TxOp.Res : TxOp → Type
  | .alloc _ _ _ => Except ℤ ℕ
  | .xmit _ _ => XmitVerdict
  | .ringTx _ => ℤ
  | .splice => List ℕ
  | .free _ => Bool
  | .complete _ _ => TxLocals
  | _ => Unit

def ringTxAccept (f : ℕ) (l : Link) : Link :=
  { l with
    hw := { l.hw with txRing := l.hw.txRing ++ [f] }
    tx := { l.tx with frames := Function.update l.tx.frames f { l.tx.frames f with loc := .ring } }
    his := { l.his with
      posted := { generation := l.sess.dataGeneration
                  len := (l.tx.frames f).len
                  pdf := (l.tx.frames f).pdf
                  data := (l.tx.frames f).data } :: l.his.posted } }

/-- The effect of a TX section executed by `t`.  A ring takes a frame only while it runs. -/
def TxOp.exec (cfg : LinkCfg) (t : Tid) (l : Link) : (o : TxOp) → o.Inp → Option (o.Res × Link)
  | .alloc len isCtrl preUp, _ => some (allocFrameLocked t len isCtrl preUp l)
  | .build f directional, _ => some ((), buildKeepalive f directional l)
  | .xmit f preUp, _ => some (xmitLocked cfg t f preUp l)
  | .ringTx f, ret =>
      if ret = 0 then if l.hw.running then some (0, ringTxAccept f l) else none
      else some (ret, l)
  | .ringErr f, _ => some ((), xmitRingErr t f l)
  | .refillErr f, _ => some ((), Tbframe.refillErr t f l)
  | .splice, _ => some ((spliceQueues t l.tx).1, { l with tx := (spliceQueues t l.tx).2 })
  | .free f, _ => some (txReturn t f l)
  | .complete f canceled, _ => some (txCompleteLocked cfg t f canceled l)
  | .toClient f, _ => some ((), { l with tx := { l.tx with
      frames := Function.update l.tx.frames f { l.tx.frames f with loc := .client } } })
  | .putLink, _ => some ((), putReturned t l)

/-- Sections on the RX pool, and the `post_rx` call.  `upcallRx` is the `rx` call, in which the client
may keep references; `corePut` and `clientPut` drop a reference of the core and of the client. -/
inductive RxOp
  | putback (f : ℕ)
  | recycle (f : ℕ)
  | takeFree
  | stamp (f : ℕ)
  | postRx (f : ℕ)
  | complete (f : ℕ) (c : RxLocals) (data : Keepalive)
  | upcallRx (f : ℕ) (len : ℕ) (pdf : Pdf)
  | corePut (f : ℕ)
  | clientPut (f : ℕ)
  | putLink

/-- What `post_rx` answers, and the references kept by the client during `rx`. -/
@[reducible]
def RxOp.Inp : RxOp → Type
  | .postRx _ => ℤ
  | .upcallRx _ _ _ => ℕ
  | _ => Unit

@[reducible]
def RxOp.Res : RxOp → Type
  | .recycle _ => Bool
  | .takeFree => Option ℕ
  | .postRx _ => ℤ
  | .complete _ _ _ => Bool × Bool
  | .corePut _ => Bool
  | .clientPut _ => Bool
  | _ => Unit

def postRxAccept (f : ℕ) (l : Link) : Link :=
  { l with
    hw := { l.hw with rxRing := l.hw.rxRing ++ [f] }
    rx := { l.rx with
      frames := Function.update l.rx.frames f { l.rx.frames f with loc := .posted } } }

/-- The `rx` call, in which the client keeps `kept` references. -/
def upcallRx (f len : ℕ) (pdf : Pdf) (kept : ℕ) (l : Link) : Link :=
  { l with rx := { l.rx with
    frames := Function.update l.rx.frames f { l.rx.frames f with
      len := len
      pdf := pdf
      rxRefs := 1 + if l.ctl.client then kept else 0
      clientRefs := if l.ctl.client then kept else 0 } } }

def corePutRx (t : Tid) (f : ℕ) (l : Link) : Bool × Link :=
  ((l.rx.frames f).rxRefs == 1, { l with rx := { l.rx with
    frames := Function.update l.rx.frames f { l.rx.frames f with
      rxRefs := (l.rx.frames f).rxRefs - 1
      loc := if (l.rx.frames f).rxRefs = 1 then .held t else .client } } })

def clientPutRxRef (t : Tid) (f : ℕ) (l : Link) : Bool × Link :=
  if (l.rx.frames f).clientRefs = 0 then (false, l)
  else ((l.rx.frames f).rxRefs == 1, { l with rx := { l.rx with
    frames := Function.update l.rx.frames f { l.rx.frames f with
      rxRefs := (l.rx.frames f).rxRefs - 1
      clientRefs := (l.rx.frames f).clientRefs - 1
      loc := if (l.rx.frames f).rxRefs = 1 then .held t else (l.rx.frames f).loc } } })

/-- The effect of an RX section executed by `t`.  A ring takes a descriptor only while it runs. -/
def RxOp.exec (t : Tid) (l : Link) : (o : RxOp) → o.Inp → Option (o.Res × Link)
  | .putback f, _ => some ((), putbackRxLocked t f l)
  | .recycle f, _ => some (recycleRxLocked f l)
  | .takeFree, _ => some (takeRxFree t l)
  | .stamp f, _ => some ((), stampRx f l)
  | .postRx f, ret =>
      if ret = 0 then if l.hw.running then some (0, postRxAccept f l) else none
      else some (ret, l)
  | .complete f c data, _ => some (rxCompleteLocked f c data l)
  | .upcallRx f len pdf, kept => some ((), Tbframe.upcallRx f len pdf kept l)
  | .corePut f, _ => some (corePutRx t f l)
  | .clientPut f, _ => some (clientPutRxRef t f l)
  | .putLink, _ => some ((), putReturned t l)

/-- Other calls into the backend and waits for it.  `enter` and `leave` are the `hw_active`
bracket. -/
inductive HwOp
  | enter
  | leave
  | quiesceTx
  | flushRings
  | releaseOutHopid
  | pathsActive (hopid : UInt16)
  | reannounce
  | drain

/-- What the backend answers; a wait for the publishers answers whether it timed out. -/
@[reducible]
def HwOp.Inp : HwOp → Type
  | .pathsActive _ => ℤ
  | .drain => Bool
  | _ => Unit

@[reducible]
def HwOp.Res : HwOp → Type
  | .pathsActive _ => ℤ
  | .drain => Bool
  | _ => Unit

/-- The effect of a backend call.  `flushRings`, the end of `stop_rings`, waits until every
descriptor was handed back. -/
def HwOp.exec (l : Link) : (o : HwOp) → o.Inp → Option (o.Res × Link)
  | .enter, _ => some ((), { l with hw := { l.hw with hwActive := l.hw.hwActive + 1 } })
  | .leave, _ => some ((), { l with hw := { l.hw with hwActive := l.hw.hwActive - 1 } })
  | .quiesceTx, _ => some ((), l)
  | .flushRings, _ =>
      if l.hw.txRing = [] ∧ l.hw.rxRing = [] ∧ l.hw.callbacks = [] then some ((), l) else none
  | .releaseOutHopid, _ => some ((), { l with hw := { l.hw with outHopid := false } })
  | .pathsActive _, ret => some (ret, l)
  | .reannounce, _ => some ((), l)
  | .drain, timedOut =>
      if l.hw.hwActive = 0 then some (false, l) else if timedOut then some (true, l) else none

/-- Work items, references and the client slot.  `turns` draws the number of turns a loop
takes in the run at hand, and `halt` stops a thread that used them up. -/
inductive CtlOp
  | workDone (w : Work)
  | cancel (w : Work)
  | timerDelete (shutdown : Bool)
  | queueTxReleased
  | setFlags (parked removing : Bool)
  | markListed (parked removing : Bool)
  | delist
  | waitRefsZero
  | forceDead
  | publishClient
  | scanClient
  | clearClient
  | turns
  | halt

/-- Whether the wait for references timed out, and the number of turns of a loop. -/
@[reducible]
def CtlOp.Inp : CtlOp → Type
  | .waitRefsZero => Bool
  | .turns => ℕ
  | _ => Unit

@[reducible]
def CtlOp.Res : CtlOp → Type
  | .waitRefsZero => Bool
  | .publishClient => Bool
  | .turns => ℕ
  | _ => Unit

/-- The per-link part of the scan in `tbframe_register_client_tf`. -/
def registerScan (l : Link) : Link :=
  kickLocked { l with
    sh := { l.sh with
      parked := false
      announcePending := l.sh.announcePending || l.sh.state == .up } }

def setGates (parked removing : Bool) (l : Link) : Link :=
  { l with sh := { l.sh with
    parked := l.sh.parked || parked
    removing := l.sh.removing || removing } }

def CtlOp.exec (l : Link) : (o : CtlOp) → o.Inp → Option (o.Res × Link)
  | .workDone w, _ => some ((),
      { l with ctl := { l.ctl with running := Function.update l.ctl.running w false } })
  | .cancel w, _ =>
      if l.ctl.running w then none
      else some ((), { l with ctl := { l.ctl with queued := Function.update l.ctl.queued w false } })
  | .timerDelete shutdown, _ => some ((), { l with ctl := { l.ctl with
      verifyTimer := false
      timerShutdown := l.ctl.timerShutdown || shutdown } })
  | .queueTxReleased, _ => some ((), { l with ctl := queueWork .txReleased l.ctl })
  | .setFlags parked removing, _ => some ((), setGates parked removing l)
  | .markListed parked removing, _ => some ((),
      if l.ctl.listed then setGates parked removing l else l)
  | .delist, _ => some ((), { l with ctl := { l.ctl with listed := false } })
  | .waitRefsZero, timedOut =>
      if l.ctl.refcnt = 0 then some (true, l) else if timedOut then some (false, l) else none
  | .forceDead, _ => some ((), markDead l)
  | .publishClient, _ =>
      if l.ctl.client then some (false, l)
      else some (true, { l with
        ctl := { l.ctl with client := true }
        his := { l.his with upcalls := [] } })
  | .scanClient, _ => some ((), if l.ctl.listed then registerScan l else l)
  | .clearClient, _ => some ((), { l with ctl := { l.ctl with client := false } })
  | .turns, n => some (n, l)
  | .halt, _ => none

/-! ## All steps together -/

inductive BaseOp
  | read (o : ReadOp)
  | disp (o : DispOp)
  | hw (o : HwOp)
  | ctl (o : CtlOp)

inductive NetStep
  | base (o : BaseOp)
  | net (o : NetOp)

inductive TxStep
  | base (o : BaseOp)
  | tx (o : TxOp)

inductive RxStep
  | base (o : BaseOp)
  | rx (o : RxOp)

/-- A step of a context that holds `session_lock`. -/
inductive HeldOp
  | base (o : BaseOp)
  | net (o : NetOp)
  | tx (o : TxOp)
  | rx (o : RxOp)
  | sess (o : SessOp)

/-- A step of a link.  `dispatchNext` is `tbframe_dispatch_next`, which takes a reference, and
`putLink` drops it; `putCreated` drops the reference of `tbframe_link_create`.  `callbackDone` is the
return to the ring from a completion callback.  `hwDestroy` is `tbframe_hw_destroy`, which frees the
hardware context of a link that was destroyed. -/
inductive Op
  | held (o : HeldOp)
  | lockSession
  | unlockSession
  | dispatchNext
  | putLink
  | putCreated
  | callbackDone
  | hwDestroy

/-- The value a step returns. -/
@[reducible]
def BaseOp.Res : BaseOp → Type
  | .read o => o.Res
  | .disp o => o.Res
  | .hw o => o.Res
  | .ctl o => o.Res

@[inherit_doc BaseOp.Res, reducible]
def NetStep.Res : NetStep → Type
  | .base o => o.Res
  | .net o => o.Res

@[inherit_doc BaseOp.Res, reducible]
def TxStep.Res : TxStep → Type
  | .base o => o.Res
  | .tx o => o.Res

@[inherit_doc BaseOp.Res, reducible]
def RxStep.Res : RxStep → Type
  | .base o => o.Res
  | .rx o => o.Res

@[inherit_doc BaseOp.Res, reducible]
def HeldOp.Res : HeldOp → Type
  | .base o => o.Res
  | .net o => o.Res
  | .tx o => o.Res
  | .rx o => o.Res
  | .sess o => o.Res

@[inherit_doc BaseOp.Res, reducible]
def Op.Res : Op → Type
  | .held o => o.Res
  | .dispatchNext => Bool
  | _ => Unit

/-- The environment's input to a step. -/
@[reducible]
def BaseOp.Inp : BaseOp → Type
  | .hw o => o.Inp
  | .ctl o => o.Inp
  | _ => Unit

@[inherit_doc BaseOp.Inp, reducible]
def HeldOp.Inp : HeldOp → Type
  | .base o => o.Inp
  | .net o => o.Inp
  | .tx o => o.Inp
  | .rx o => o.Inp
  | .sess o => o.Inp

@[inherit_doc BaseOp.Inp, reducible]
def Op.Inp : Op → Type
  | .held o => o.Inp
  | .dispatchNext => Bool
  | _ => Unit

/-- The effect of a step executed by `t`. -/
def BaseOp.run (cfg : LinkCfg) : (o : BaseOp) → o.Inp → Link → Option (o.Res × Link)
  | .read o, _, l => some (o.get cfg l, l)
  | .disp o, _, l => some (o.exec l)
  | .hw o, i, l => o.exec l i
  | .ctl o, i, l => o.exec l i

@[inherit_doc BaseOp.run]
def HeldOp.run (cfg : LinkCfg) (t : Tid) : (o : HeldOp) → o.Inp → Link → Option (o.Res × Link)
  | .base o, i, l => o.run cfg i l
  | .net o, i, l => some (o.exec t l i)
  | .tx o, i, l => o.exec cfg t l i
  | .rx o, i, l => o.exec t l i
  | .sess o, i, l => some (o.exec cfg l i)

/-- The reference that a dispatch on `t` takes. -/
def takeDispatch (t : Tid) (l : Link) : Link :=
  { l with
    ctl := { l.ctl with refcnt := l.ctl.refcnt + 1 }
    his := { l.his with dispatching := t :: l.his.dispatching } }

/-- `tbframe_link_put` for the reference of a dispatch on `t`. -/
def putDispatch (t : Tid) (l : Link) : Link :=
  { l with
    ctl := { l.ctl with refcnt := l.ctl.refcnt - 1 }
    his := { l.his with dispatching := l.his.dispatching.erase t } }

/-- `tbframe_link_put` for the reference of the creation. -/
def putCreated (l : Link) : Link :=
  { l with
    ctl := { l.ctl with refcnt := l.ctl.refcnt - 1 }
    his := { l.his with created := false } }

@[inherit_doc BaseOp.run]
def Op.run (cfg : LinkCfg) (t : Tid) : (o : Op) → o.Inp → Link → Option (o.Res × Link)
  | .held o, i, l => o.run cfg t i l
  | .lockSession, _, l =>
      if l.ctl.sessionLock = none then
        some ((), { l with ctl := { l.ctl with sessionLock := some t } })
      else none
  | .unlockSession, _, l =>
      if l.ctl.sessionLock = some t then
        some ((), { l with ctl := { l.ctl with sessionLock := none } })
      else none
  | .dispatchNext, found, l =>
      if found && l.ctl.listed then some (true, takeDispatch t l) else some (false, l)
  | .putLink, _, l => some ((), putDispatch t l)
  | .putCreated, _, l => some ((), Tbframe.putCreated l)
  | .callbackDone, _, l => some ((), { l with hw := { l.hw with
      callbacks := l.hw.callbacks.erase t } })
  | .hwDestroy, _, l => some ((), l)

@[reducible]
def baseSig : Sig := ⟨BaseOp, BaseOp.Res⟩

@[reducible]
def netSig : Sig := ⟨NetStep, NetStep.Res⟩

@[reducible]
def txSig : Sig := ⟨TxStep, TxStep.Res⟩

@[reducible]
def rxSig : Sig := ⟨RxStep, RxStep.Res⟩

/-- The steps of a context that holds `session_lock`. -/
@[reducible]
def heldSig : Sig := ⟨HeldOp, HeldOp.Res⟩

@[reducible]
def linkSig : Sig := ⟨Op, Op.Res⟩

/-- A base operation is one of each signature. -/
@[reducible]
def baseTx : baseSig.Emb txSig := ⟨.base, fun _ r ↦ r⟩

@[inherit_doc baseTx, reducible]
def baseRx : baseSig.Emb rxSig := ⟨.base, fun _ r ↦ r⟩

@[inherit_doc baseTx, reducible]
def baseNet : baseSig.Emb netSig := ⟨.base, fun _ r ↦ r⟩

@[inherit_doc baseTx, reducible]
def netHeld : netSig.Emb heldSig where
  op
    | .base o => .base o
    | .net o => .net o
  res
    | .base _, r => r
    | .net _, r => r

@[inherit_doc baseTx, reducible]
def txHeld : txSig.Emb heldSig where
  op
    | .base o => .base o
    | .tx o => .tx o
  res
    | .base _, r => r
    | .tx _, r => r

@[inherit_doc baseTx, reducible]
def rxHeld : rxSig.Emb heldSig where
  op
    | .base o => .base o
    | .rx o => .rx o
  res
    | .base _, r => r
    | .rx _, r => r

@[inherit_doc baseTx, reducible]
def baseHeld : baseSig.Emb heldSig := ⟨.base, fun _ r ↦ r⟩

@[inherit_doc baseTx, reducible]
def heldLink : heldSig.Emb linkSig := ⟨.held, fun _ r ↦ r⟩

instance : MonadLiftT (Prog baseSig) (Prog txSig) := ⟨Prog.lift baseTx⟩

instance : MonadLiftT (Prog baseSig) (Prog rxSig) := ⟨Prog.lift baseRx⟩

instance : MonadLiftT (Prog baseSig) (Prog netSig) := ⟨Prog.lift baseNet⟩

instance : MonadLiftT (Prog baseSig) (Prog heldSig) := ⟨Prog.lift baseHeld⟩

instance : MonadLiftT (Prog netSig) (Prog heldSig) := ⟨Prog.lift netHeld⟩

instance : MonadLiftT (Prog txSig) (Prog heldSig) := ⟨Prog.lift txHeld⟩

instance : MonadLiftT (Prog rxSig) (Prog heldSig) := ⟨Prog.lift rxHeld⟩

instance : MonadLiftT (Prog heldSig) (Prog linkSig) := ⟨Prog.lift heldLink⟩

instance : MonadLiftT (Prog baseSig) (Prog linkSig) := ⟨fun p ↦ (p.lift baseHeld).lift heldLink⟩

instance : MonadLiftT (Prog netSig) (Prog linkSig) := ⟨fun p ↦ (p.lift netHeld).lift heldLink⟩

instance : MonadLiftT (Prog txSig) (Prog linkSig) := ⟨fun p ↦ (p.lift txHeld).lift heldLink⟩

instance : MonadLiftT (Prog rxSig) (Prog linkSig) := ⟨fun p ↦ (p.lift rxHeld).lift heldLink⟩

end ThunderboltStack.Tbframe
