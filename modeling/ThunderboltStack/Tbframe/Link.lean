import Mathlib.Logic.Function.Basic
import ThunderboltStack.Tbframe.Wire

/-!
# The state of a tbframe link

`struct tbframe_link` together with what the code can observe of its surroundings: the rings and
paths behind `struct tbframe_hw_ops`, the client slot of `struct tbframe`, and the work items.  The
fields are grouped by who may write them.  `Session` is written only by the holder of
`session_lock`; the other groups are written under `link->lock` from any context.

`History` is not part of the code's state.  It records what happened, so that properties of whole
runs can be stated about the state they reach.
-/

namespace ThunderboltStack.Tbframe

inductive LinkState
  | init
  | up
  | dead
  deriving DecidableEq

inductive DownReason
  | unplug
  | logout
  | supersede
  | verify
  | closed
  | deadHw
  deriving DecidableEq

/-- The reasons that `tbframe_link_down_session` treats as terminal. -/
def DownReason.terminal : DownReason → Bool
  | .closed | .unplug | .deadHw => true
  | _ => false

inductive SessionOwner
  | local
  | peer
  deriving DecidableEq

/-- The contexts that execute link code: the session work, the verify work, the `tx_released` work,
and any number of others (dispatch, ring callbacks, clients, teardown). -/
inductive Tid
  | session
  | verify
  | txReleased
  | task (n : ℕ)
  deriving DecidableEq

inductive Work
  | session
  | verify
  | txReleased
  deriving DecidableEq

/-- The configuration a link reads from its `struct tbframe`. -/
structure Tf where
  ringEntries : UInt16
  e2e : Bool
  keepalive : Bool
  dataProof : Bool
  txRingBudget : ℕ

/-- What is fixed when a link is created.  `quarantine` says that the backend has a
`quarantine_paths` operation. -/
structure LinkCfg where
  tf : Tf
  route : UInt64
  localHopid : UInt16
  localGidEui64 : UInt64
  quarantine : Bool

structure Handshake where
  requestSent : Bool := false
  peerSeen : Bool := false
  established : Bool := false
  attempts : ℕ := 0
  deriving DecidableEq

namespace Handshake

def complete (h : Handshake) : Bool :=
  h.requestSent && h.peerSeen

def supersede (h : Handshake) : Handshake :=
  if h.complete then {} else h

def zombie (h : Handshake) (pathsActive : Bool) : Bool :=
  h.complete && !pathsActive

end Handshake

structure HelloResponder where
  seen : Bool := false
  peer : WireHello := {}
  deriving DecidableEq

/-- `enum tbframe_ready_responder_state`. -/
inductive ReadyState
  | waiting
  | pendingPaths
  | pendingSend
  | acked
  deriving DecidableEq

structure ReadyResponder where
  state : ReadyState := .waiting
  seq : UInt32 := 0
  xdomainSequence : UInt32 := 0
  peer : WireHello := {}
  deriving DecidableEq

/-- The peer identity written by `tbframe_link_apply_remote_locked`. -/
structure Remote where
  hopid : UInt16 := 0
  rxEntries : UInt16 := 0
  caps : UInt32 := 0
  cookie : UInt64 := 0
  previousCookie : UInt64 := 0
  gidEui64 : UInt64 := 0
  deriving DecidableEq

/-- The fields that only a holder of `session_lock` writes. -/
structure Session where
  helloDone : Bool := false
  ringsAllocated : Bool := false
  ringsUp : Bool := false
  pathsEnabled : Bool := false
  pathsOwned : Bool := false
  terminalHandoff : Bool := false
  inHopidHeld : Bool := false
  activeRemoteHopid : UInt16 := 0
  helloSelectionPending : Bool := false
  helloSelectionCaps : UInt32 := 0
  localCookie : UInt64
  remote : Remote := {}
  dataGeneration : ℕ := 0
  dataWindow : ℕ := 0
  e2eActive : Bool := false
  upDelivered : Bool := false

/-- The session fields that other contexts write too. -/
structure Shared where
  state : LinkState := .init
  removing : Bool := false
  parked : Bool := false
  needsDown : Bool := false
  downReason : DownReason := .unplug
  announcePending : Bool := false
  txQuiesced : Bool := true
  hs : Handshake := {}
  helloResponder : HelloResponder := {}
  readyResponder : ReadyResponder := {}
  requestSeq : UInt32
  helloAttempts : ℕ := 0

/-- The data-path proof, the silence detector and the receive diagnostics. -/
structure DataProof where
  dataRx : ℕ := 0
  dataRxTickMark : ℕ := 0
  dataRxProven : Bool := false
  dataTxProven : Bool := false
  keepaliveTxSeq : ℕ := 0
  keepaliveTxAcked : ℕ := 0
  keepaliveTxAckMark : ℕ := 0
  keepalivePeerSeq : ℕ := 0
  dataProven : Bool := false
  dataProofUnavailableWarned : Bool := false
  probeAttempts : ℕ := 0
  probeFailures : ℕ := 0
  staleDrainActive : Bool := false
  staleDrainBudget : ℕ := 0
  silentTicks : ℕ := 0
  txSilentTicks : ℕ := 0
  dataRxBad : ℕ := 0
  dataRxOversize : ℕ := 0
  dataRxStale : ℕ := 0
  dataRxBadCookie : ℕ := 0
  dataRxPriorCookie : ℕ := 0
  deriving DecidableEq

/-- Who holds a TX frame.  `client` frames were handed to the client by `tbframe_alloc_frame`;
`held t`, `posting t` and `done t` frames are in the hands of a running function: before admission,
between the post decision and `ring_tx`, and on their way back to the pool. -/
inductive TxLoc
  | free
  | client
  | held (t : Tid)
  | queued
  | posting (t : Tid)
  | ring
  | done (t : Tid)
  deriving DecidableEq

/-- A TX `struct tbframe_frame_priv`; `data` is the start of its buffer. -/
structure TxFrame where
  len : ℕ := 0
  pdf : Pdf := .data
  isCtrl : Bool := false
  chargedCtrl : Bool := false
  chargedData : Bool := false
  hwPosted : Bool := false
  data : Keepalive := {}
  loc : TxLoc := .free

/-- The TX frame pool, its queues and its counters. -/
structure TxPool where
  frames : ℕ → TxFrame
  txFree : List ℕ
  txqCtrl : List ℕ := []
  txqData : List ℕ := []
  dataInflight : ℕ := 0
  ctrlInflight : ℕ := 0
  ringPosted : ℕ := 0
  txBlocked : Bool := false
  dataTxDone : ℕ := 0
  dataTxSubmitted : ℕ := 0
  dataTxRefused : ℕ := 0
  dataTxRingErr : ℕ := 0
  dataTxCanceled : ℕ := 0

/-- Who holds an RX descriptor. -/
inductive RxLoc
  | free
  | held (t : Tid)
  | posted
  | client
  deriving DecidableEq

/-- An RX `struct tbframe_frame_priv`; `data` is the start of its buffer and `clientRefs` the part
of `rx_refs` that the client still has to return. -/
structure RxFrame where
  rxGeneration : ℕ := 0
  rxRefs : ℕ := 0
  clientRefs : ℕ := 0
  len : ℕ := 0
  pdf : Pdf := .data
  data : Keepalive := {}
  loc : RxLoc := .free

structure RxPool where
  frames : ℕ → RxFrame
  rxFree : List ℕ

/-- What the backend holds: allocated and running rings, the descriptors in them, the in-HopIDs, the
out-HopID (which is `localHopid`) and the path tuple, and the publishers and callbacks that are
inside it. -/
structure Hardware where
  rings : Bool := false
  running : Bool := false
  txRing : List ℕ := []
  rxRing : List ℕ := []
  inHopids : List UInt16 := []
  outHopid : Bool := false
  paths : Option UInt16 := none
  hwActive : ℕ := 0
  callbacks : List Tid := []

/-- Locks, work items, the client slot and the reference count.  `remover` is the context in
which the service driver was detached from the link, which happens once. -/
structure Control where
  sessionLock : Option Tid := none
  queued : Work → Bool := fun _ ↦ false
  running : Work → Bool := fun _ ↦ false
  verifyTimer : Bool := false
  timerShutdown : Bool := false
  client : Bool := false
  listed : Bool := true
  shutdownMode : Bool := false
  remover : Option Tid := none
  refcnt : ℕ := 1

/-- One processed RX completion: the generation of its descriptor and of the link, and what the
hardware reported. -/
structure RxEvent where
  rxGeneration : ℕ
  generation : ℕ
  len : ℕ
  pdf : Pdf
  bad : Bool
  data : Keepalive
  deriving DecidableEq

/-- One frame accepted by `ring_tx`: the generation in which it was posted and its contents. -/
structure TxEvent where
  generation : ℕ
  len : ℕ
  pdf : Pdf
  data : Keepalive
  deriving DecidableEq

/-- `struct tbframe_link_info`, without the attributes that the backend adds. -/
structure LinkInfo where
  gidEui64 : UInt64
  localGidEui64 : UInt64
  route : UInt64
  rxRingEntries : UInt16
  dataWindow : ℕ
  maxPayload : ℕ
  e2e : Bool
  deriving DecidableEq

/-- `link_up` and `link_down` upcalls. -/
inductive Upcall
  | up (info : LinkInfo)
  | down (reason : DownReason)
  deriving DecidableEq

/-- A BYE as the link handled it: the downs completed before, whether it found a session to take
down, and the record that it carried. -/
structure Bye where
  downs : ℕ
  found : Bool
  peer : WireHello
  deriving DecidableEq

/-- What happened so far. -/
structure History where
  /-- Control messages sent, requests and responses. -/
  sent : List WireMsg := []
  /-- RX completions processed. -/
  received : List RxEvent := []
  /-- Frames accepted by `ring_tx`. -/
  posted : List TxEvent := []
  /-- The current generation was opened by a bring-up and not yet closed by a down. -/
  genOpen : Bool := false
  /-- Keepalives numbered by `tbframe_link_send_keepalive` in the current generation. -/
  numbered : ℕ := 0
  /-- `link_up`/`link_down` upcalls made to the client registered last. -/
  upcalls : List Upcall := []
  /-- `tbframe_link_down_session` calls completed, and whether one is under way. -/
  downs : ℕ := 0
  downing : Bool := false
  /-- The BYEs that found the link quiescent, and those for which a BYE_ACK was handed to the control
  channel. -/
  byeSeen : List Bye := []
  byeAcked : List Bye := []
  /-- The contexts that decided to acknowledge a READY and did not hand the READY_ACK over yet, with
  the session that the READY names. -/
  acking : List (Tid × WireHello) := []
  /-- The contexts that hold a reference of a dispatch, and those that put a frame back on its free
  list and did not drop the reference of that frame yet. -/
  dispatching : List Tid := []
  returning : List Tid := []
  /-- The reference taken by the creation of the link was not dropped yet. -/
  created : Bool := true
  /-- The frames that `tbframe_xmit` admitted since the link is UP and that were not completed. -/
  accepted : List ℕ := []
  /-- The rings were stopped, or the link left UP, since they were started last. -/
  spent : Bool := true
  /-- A down that began after `removing` was set left the link without rings, HopID and paths. -/
  vacated : Bool := false

/-- A link and its surroundings. -/
structure Link where
  sess : Session
  sh : Shared
  prf : DataProof := {}
  tx : TxPool
  rx : RxPool
  hw : Hardware := {}
  ctl : Control := {}
  his : History := {}

/-- `tbframe_link_create`: a link with its out-HopID and its pools filled, drawing its first cookie and
request sequence number at random. -/
def linkCreate (cfg : LinkCfg) (random : UInt64) (requestSeq : UInt32) (autostart : Bool) :
    Link where
  sess := { localCookie := newSessionCookie 0 random }
  sh := { requestSeq := requestSeq }
  tx := { frames := fun _ ↦ {}, txFree := List.range cfg.tf.ringEntries.toNat }
  rx := { frames := fun _ ↦ {}, rxFree := List.range cfg.tf.ringEntries.toNat }
  hw := { outHopid := true }
  ctl := { queued := fun w ↦ autostart && w == .session }

end ThunderboltStack.Tbframe
