import ThunderboltStack.Lib.Bytes
import ThunderboltStack.Lib.Observe
import ThunderboltStack.Xdomain.Services

/-!
# The handshake of an XDomain

`tb_xdomain_state_work` of `xdomain.c` walks an XDomain through the exchanges with its peer: the
UUID, the bonding of the two lanes, and the properties.  It is a delayed work that queues itself.
Requests of the peer are handled by works of their own, which look at the state without a lock and
then change it under the lock; other things may happen in between.

A step of a run is the start or the end of a run of the state work, with what the peer answered, the
check or the handling of a request, or something the rest of the driver does.  Delays are not
modelled: a work that is queued may run at any time.
-/

namespace ThunderboltStack.Xdomain

open ThunderboltStack.Lib
open ThunderboltStack.PropertyBlock (Block)

def enodev : ℤ := -19

def enodata : ℤ := -61

/-- `XDOMAIN_STATE_*`. -/
inductive HandshakeState where
  | init
  | uuid
  | linkStatus
  | directBondingEnable
  | directBondingWait
  | linkStateChange
  | linkStatus2
  | bondingUuidLow
  | bondingUuidHigh
  | properties
  | enumerated
  | error
  deriving DecidableEq

def xdomainRetries : ℤ := 10

def directBondRetries : ℤ := 10

/-- `XDOMAIN_BONDING_REARM_ATTEMPTS`. -/
def bondingRearmLimit : ℕ := 5

def uuidBackoffMaxShift : ℕ := 6

def Uuid.isPlaceholder (u : Uuid) : Bool :=
  u == ⟨0xffffffff, 0xffffffff, 0xffffffff, 0xffffffff⟩

def Uuid.bytes (u : Uuid) : List ℕ :=
  ([u.w0, u.w1, u.w2, u.w3].flatMap fun w ↦ leBytes 4 w.toNat).map UInt8.toNat

/-- What a running state work has read: the state, and in `XDOMAIN_STATE_BONDING_UUID_HIGH` the
requested width. -/
structure StateRun where
  state : HandshakeState
  targetLinkWidth : UInt8

inductive Inbound where
  | uuidRequest
  | linkStateChange (tlw : UInt8)
  deriving DecidableEq

/-- `struct tb_xdomain`, what the handshake keeps.  `bonded` says that the lanes of the downstream
port are bonded, or that there is no such port. -/
structure Handshake extends PeerState where
  state : HandshakeState := .init
  /-- `state_work` is queued. -/
  queued : Bool := false
  running : Option StateRun := none
  handlers : List Inbound := []
  remoteUuid : Option Uuid := none
  uuidRetryFailures : ℕ := 0
  bondingPossible : Bool := false
  bondingRearmAttempts : ℕ := 0
  targetLinkWidth : UInt8 := 0
  isUnplugged : Bool := false
  removing : Bool := false
  /-- `device_is_registered`. -/
  registered : Bool := false
  bonded : Bool := false

/-- What the peer and the hardware answer during one run of the state work.  A loop back to this
host answers its own requests. -/
structure Replies where
  /-- `tb_xdp_uuid_request`. -/
  uuid : Except ℤ Uuid := .error etimedout
  /-- The memory of the UUID. -/
  uuidMem : Bool := true
  /-- The supported width of `tb_xdp_link_state_status_request`. -/
  linkStatus : Except ℤ UInt8 := .error etimedout
  /-- `tb_port_read` of the target speed. -/
  portRead : ℤ := 0
  /-- `tb_xdp_link_state_change_request`. -/
  linkStateChange : ℤ := etimedout
  /-- `tb_xdomain_direct_bonding_enable_step`. -/
  directBondingEnable : ℤ := etimedout
  /-- `tb_xdomain_direct_bonding_wait_step`. -/
  directBondingWait : ℤ := etimedout
  /-- `tb_xdomain_lane_bonding_enable`. -/
  laneBondingEnable : ℤ := etimedout
  /-- `tb_port_set_link_width` of lane 1 and of the port, and `tb_port_wait_for_link_width`. -/
  setDualWidth : ℤ := 0
  setWidth : ℤ := 0
  waitWidth : ℤ := etimedout
  /-- `tb_xdp_properties_request`. -/
  properties : Except ℤ (Block × UInt32) := .error etimedout
  /-- `device_add`. -/
  deviceAdd : Bool := true
  /-- The lanes of the port are bonded after the run. -/
  bonded : Bool := false

namespace Handshake

variable (xd : Handshake)

/-- `queue_delayed_work` of `state_work`. -/
def queueWork : Handshake := { xd with queued := true }

def queueState (state : HandshakeState) (retries : ℤ) : Handshake :=
  { xd with state, stateRetries := retries, queued := true }

def startHandshake : Handshake := { xd with state := .init, queued := true }

def queueUuid : Handshake :=
  queueState { xd with uuidRetryFailures := 0 } .uuid xdomainRetries

def queueUuidBackoff : Handshake :=
  queueState
    { xd with
      uuidRetryFailures :=
        if xd.uuidRetryFailures < uuidBackoffMaxShift then xd.uuidRetryFailures + 1
        else xd.uuidRetryFailures }
    .uuid 0

def queueLinkStatus : Handshake := xd.queueState .linkStatus xdomainRetries

def queueLinkStatus2 : Handshake := xd.queueState .linkStatus2 xdomainRetries

def queueBonding (localUuid : Uuid) : Handshake :=
  match xd.remoteUuid with
  | some remote =>
    if remote.bytes < localUuid.bytes then xd.queueState .bondingUuidHigh xdomainRetries
    else xd.queueState .linkStateChange xdomainRetries
  | none => xd.queueState .linkStateChange xdomainRetries

def queueDirectBonding : Handshake := xd.queueState .directBondingEnable directBondRetries

def queueDirectBondingWait : Handshake := xd.queueState .directBondingWait directBondRetries

def queueBondingUuidLow : Handshake := xd.queueState .bondingUuidLow xdomainRetries

def queueProperties : Handshake := xd.queueState .properties xdomainRetries

def bondingRearmNeeded : Bool :=
  xd.bondingPossible && !xd.bonded && xd.bondingRearmAttempts < bondingRearmLimit

def queueBondingRearm : Handshake := if xd.bondingRearmNeeded then xd.queueWork else xd

def failed : Handshake := { xd with state := .error, queued := true }

def retryExchange (ret : ℤ) : Handshake × ℤ :=
  ({ xd with stateRetries := xd.stateRetries - 1 }, if 0 < xd.stateRetries then eagain else ret)

def knowUuid (uuid : Uuid) (mem : Bool) : Handshake × ℤ :=
  match xd.remoteUuid with
  | some remote =>
    if uuid = remote then
      ({ xd with uuidVerified := true, needsUuid := false, uuidRetryFailures := 0 }, 0)
    else if !xd.uuidVerified || remote.isPlaceholder then
      ({ xd with
          remoteUuid := some uuid
          uuidVerified := true
          needsUuid := false
          remotePropertyBlockGen := 0 }, 0)
    else ({ xd with isUnplugged := true }, enodev)
  | none =>
    if mem then
      ({ xd with
          remoteUuid := some uuid
          uuidVerified := true
          needsUuid := false
          uuidRetryFailures := 0 }, 0)
    else (xd, enomem)

def getUuid (localUuid : Uuid) (reply : Except ℤ Uuid) (mem : Bool) : Handshake × ℤ :=
  match reply with
  | .error ret => xd.retryExchange ret
  | .ok uuid =>
    -- An identity of all ones is the absence of an answer.
    if uuid.isPlaceholder then xd.retryExchange enodata
    -- No bonding of lanes for loops.
    else if uuid = localUuid then knowUuid { xd with bondingPossible := false } uuid mem
    else xd.knowUuid uuid mem

def getLinkStatus (reply : Except ℤ UInt8) : Handshake × ℤ :=
  match reply with
  | .error ret => if ret = eopnotsupp then (xd, ret) else xd.retryExchange ret
  | .ok slw => (xd, if slw < 2 then eopnotsupp else 0)

/-- `tb_xdomain_link_state_change`, for both lanes. -/
def changeLinkState (portRead ret : ℤ) : Handshake × ℤ :=
  if portRead ≠ 0 then (xd, portRead)
  else if ret = 0 then (xd, 0)
  else if ret = eopnotsupp then (xd, ret)
  else xd.retryExchange ret

/-- The width that is written to the lane adapters for a requested width: 1 for
`LANE_ADP_CS_1_TARGET_WIDTH_SINGLE` and 2 for `LANE_ADP_CS_1_TARGET_WIDTH_DUAL`. -/
def bondWidth (targetLinkWidth : UInt8) : Option ℕ :=
  if targetLinkWidth = 1 then some 1 else if targetLinkWidth = 3 then some 2 else none

/-- `tb_xdomain_bond_lanes_uuid_high`, with the requested width it has read. -/
def bondLanesUuidHigh (targetLinkWidth : UInt8) (a : Replies) : Handshake × ℤ :=
  match bondWidth targetLinkWidth with
  | none => xd.retryExchange etimedout
  | some width =>
    if a.setDualWidth ≠ 0 then (xd, a.setDualWidth)
    else if a.setWidth ≠ 0 then (xd, a.setWidth)
    else if a.waitWidth ≠ 0 then (xd, a.waitWidth)
    else ({ xd with bonded := 1 < width }, 0)

/-- `tb_xdomain_get_properties`.  The device is added with the first accepted block. -/
def readProperties (depth : ℕ) (reply : Except ℤ (Block × UInt32)) (deviceAdd : Bool) :
    Handshake × ℤ :=
  let r := getProperties depth reply xd.toPeerState
  let first := xd.remoteProperties.isNone && r.1.remoteProperties.isSome
  if first && !deviceAdd then
    ({ xd with toPeerState := { r.1 with services := xd.services } }, enodev)
  else ({ xd with toPeerState := r.1, registered := xd.registered || first }, r.2)

/-! ## The state work -/

/-- `tb_xdomain_bonding_after`, without the fallback to direct bonding. -/
def bondingAfter (ret : ℤ) : Handshake :=
  { xd with bondingPossible := xd.bondingPossible && ret ≠ eopnotsupp }

/-- `tb_xdomain_should_fallback_to_direct_bonding`. -/
def shouldFallback (ret : ℤ) (peerConfirmed : Bool) : Bool :=
  xd.bondingPossible && peerConfirmed && !xd.registered && ret = eopnotsupp

/-- How a run goes on after an exchange: `-EAGAIN` runs the same state again. -/
def afterExchange (r : Handshake × ℤ) (done : Handshake → Handshake)
    (fail : Handshake → ℤ → Handshake) : Handshake :=
  if r.2 = 0 then done r.1 else if r.2 = eagain then r.1.queueWork else fail r.1 r.2

def skipBonding (ret : ℤ) : Handshake := (xd.bondingAfter ret).queueProperties

def uuidDone : Handshake :=
  if xd.bondingPossible then xd.queueLinkStatus else xd.queueProperties

/-- A condemned identity is the end of the handshake, and so is a peer that was enumerated and does
not answer any more; one that did not answer yet is asked again. -/
def uuidFailed (ret : ℤ) : Handshake :=
  if xd.isUnplugged ∨ ret = enomem then xd.failed
  else if xd.remoteProperties.isSome then failed { xd with isUnplugged := true }
  else xd.queueUuidBackoff

/-- `XDOMAIN_STATE_UUID`. -/
def uuidWork (localUuid : Uuid) (a : Replies) : Handshake :=
  afterExchange (xd.getUuid localUuid a.uuid a.uuidMem) uuidDone uuidFailed

/-- `XDOMAIN_STATE_LINK_STATUS`. -/
def linkStatusWork (localUuid : Uuid) (a : Replies) : Handshake :=
  afterExchange (xd.getLinkStatus a.linkStatus) (fun xd ↦ xd.queueBonding localUuid) fun xd ret ↦
    if xd.shouldFallback ret false then xd.queueDirectBonding else xd.skipBonding ret

/-- `XDOMAIN_STATE_LINK_STATE_CHANGE`. -/
def linkStateChangeWork (a : Replies) : Handshake :=
  afterExchange (xd.changeLinkState a.portRead a.linkStateChange) queueLinkStatus2 skipBonding

/-- `XDOMAIN_STATE_LINK_STATUS2`. -/
def linkStatus2Work (a : Replies) : Handshake :=
  afterExchange (xd.getLinkStatus a.linkStatus) queueBondingUuidLow skipBonding

def directBondingWork (ret : ℤ) (done : Handshake → Handshake) : Handshake :=
  if ret = 0 then done xd
  else if ret = eagain ∧ 0 < xd.stateRetries then
    queueWork { xd with stateRetries := xd.stateRetries - 1 }
  else xd.queueProperties

/-- `XDOMAIN_STATE_BONDING_UUID_HIGH`. -/
def bondingUuidHighWork (targetLinkWidth : UInt8) (a : Replies) : Handshake :=
  afterExchange (xd.bondLanesUuidHigh targetLinkWidth a) queueProperties fun xd _ ↦
    xd.queueProperties

def propertiesFailed : Handshake :=
  if xd.remoteUuid.isSome then xd.queueUuid else xd.queueProperties

/-- `XDOMAIN_STATE_PROPERTIES`. -/
def propertiesWork (depth : ℕ) (a : Replies) : Handshake :=
  afterExchange (xd.readProperties depth a.properties a.deviceAdd)
    (fun xd ↦ queueBondingRearm { xd with state := .enumerated }) fun xd _ ↦ xd.propertiesFailed

/-- `XDOMAIN_STATE_ENUMERATED`. -/
def enumeratedWork : Handshake :=
  if xd.bondingRearmNeeded then
    queueLinkStatus { xd with bondingRearmAttempts := xd.bondingRearmAttempts + 1 }
  else xd.queueProperties

/-- `tb_xdomain_state_work`, from the state it has read. -/
def stateWork (localUuid : Uuid) (depth : ℕ) (r : StateRun) (a : Replies) : Handshake :=
  match r.state with
  | .init =>
    if xd.needsUuid then xd.queueUuid
    else if xd.bondingPossible then xd.queueLinkStatus
    else xd.queueProperties
  | .uuid => xd.uuidWork localUuid a
  | .linkStatus => xd.linkStatusWork localUuid a
  | .directBondingEnable =>
    directBondingWork { xd with bonded := a.bonded } a.directBondingEnable queueDirectBondingWait
  | .directBondingWait => xd.directBondingWork a.directBondingWait queueProperties
  | .linkStateChange => xd.linkStateChangeWork a
  | .linkStatus2 => xd.linkStatus2Work a
  | .bondingUuidLow => queueProperties { xd with bonded := a.bonded }
  | .bondingUuidHigh => xd.bondingUuidHighWork r.targetLinkWidth a
  | .properties => xd.propertiesWork depth a
  | .enumerated => xd.enumeratedWork
  -- `__stop_handshake`
  | .error => { xd with stateRetries := 0 }

/-! ## Requests of the peer -/

def acceptsLinkStateChange : Bool :=
  xd.state = .bondingUuidHigh || (xd.state = .enumerated && xd.bondingPossible && !xd.bonded)

/-- The check that `tb_xdp_handle_request` makes without the lock. -/
def checks : Inbound → Bool
  | .uuidRequest => xd.state = .error
  | .linkStateChange _ => xd.acceptsLinkStateChange

/-- What `tb_xdp_handle_request` does under the lock. -/
def handle : Inbound → Handshake
  | .uuidRequest => if xd.removing then xd else xd.startHandshake
  | .linkStateChange tlw =>
    if xd.removing then xd
    else
      let xd := { xd with targetLinkWidth := tlw }
      if xd.state = .enumerated then xd.queueState .bondingUuidHigh xdomainRetries
      else xd.queueWork

/-- The peer asks to read the properties again; with `sysfs`, the first section of `rescan_store`.
-/
def rescan (sysfs : Bool) : Handshake :=
  if sysfs then { xd with remotePropertyBlockGen := 0 }
  else if !xd.removing && xd.registered then queueWork { xd with remotePropertyBlockGen := 0 }
  else xd

/-- `rescan_store` drops the services and queues the state work. -/
def reprobe : Handshake :=
  let xd := { xd with toPeerState := xd.dropServices }
  if xd.removing then xd else xd.queueWork

end Handshake

/-! ## Runs -/

inductive HandshakeAct where
  /-- The state work starts, and ends. -/
  | begin
  | finish (a : Replies)
  /-- The handler of a request makes its check, and one that has made it goes on. -/
  | check (r : Inbound)
  | handle (i : ℕ)
  | rescan (sysfs : Bool)
  | reprobe
  /-- The connection manager condemns the XDomain, or changes the lanes. -/
  | unplug
  | bond (bonded : Bool)
  /-- `stop_handshake`, when the XDomain is removed or suspended, and `start_handshake`. -/
  | stop (remove : Bool)
  | start

namespace Handshake

def step (localUuid : Uuid) (depth : ℕ) (xd : Handshake) : HandshakeAct → Option Handshake
  | .begin =>
    if xd.queued ∧ xd.running.isNone then
      some { xd with queued := false, running := some ⟨xd.state, xd.targetLinkWidth⟩ }
    else none
  | .finish a => xd.running.map fun r ↦ stateWork { xd with running := none } localUuid depth r a
  | .check r => if xd.checks r then some { xd with handlers := xd.handlers ++ [r] } else none
  | .handle i =>
    xd.handlers[i]?.map fun r ↦ handle { xd with handlers := xd.handlers.eraseIdx i } r
  | .rescan sysfs => some (xd.rescan sysfs)
  | .reprobe => some xd.reprobe
  | .unplug => some { xd with isUnplugged := true }
  | .bond bonded => some { xd with bonded }
  | .stop remove =>
    -- The cancellation waits for a state work that is running.
    if xd.running.isNone then
      some { xd with queued := false, stateRetries := 0, removing := xd.removing || remove }
    else none
  | .start => some xd.startHandshake

/-- A new XDomain whose handshake is started. -/
def started (remoteUuid : Option Uuid) (bondingPossible bonded : Bool) : Handshake :=
  startHandshake { remoteUuid, needsUuid := remoteUuid.isNone, bondingPossible, bonded }

end Handshake

/-- The runs of the handshake of an XDomain. -/
def handshakeSystem (localUuid : Uuid) (depth : ℕ) : System Handshake HandshakeAct where
  init xd := ∃ remoteUuid bondingPossible bonded,
    xd = Handshake.started remoteUuid bondingPossible bonded
  step xd l xd' := xd.step localUuid depth l = some xd'

def handshakeExec (localUuid : Uuid) (depth : ℕ) : (handshakeSystem localUuid depth).Exec where
  Act := HandshakeAct
  step xd l := (xd.step localUuid depth l).map fun xd' ↦ (l, xd')
  sound {xd l l' xd'} h := by
    obtain ⟨xd'', hstep, heq⟩ := Option.map_eq_some_iff.1 h
    obtain ⟨rfl, rfl⟩ := Prod.mk.inj heq
    exact hstep

/-! ## What a run of the state work does -/

namespace Handshake

variable {xd before : Handshake} {localUuid : Uuid} {depth : ℕ} {r : StateRun} {a : Replies}
variable {out : Prop}

/-- The handshake is not stuck: the state work is queued, or the handshake is at its end. -/
def Alive (xd : Handshake) : Prop :=
  xd.queued = true ∨ xd.state = .enumerated ∨ xd.state = .error

structure Exchanged (before xd : Handshake) : Prop where
  state : xd.state = before.state
  width : xd.targetLinkWidth = before.targetLinkWidth

/-- A run of the state work goes on, does not touch the requested width, and gives up only if the
XDomain is condemned or `out` holds. -/
structure Proceeds (out : Prop) (before xd : Handshake) : Prop where
  alive : Alive xd
  gives_up : xd.state = .error → before.state = .error ∨ xd.isUnplugged = true ∨ out
  width : xd.targetLinkWidth = before.targetLinkWidth

theorem exchanged_retryExchange {ret : ℤ} : Exchanged xd (xd.retryExchange ret).1 := ⟨rfl, rfl⟩

theorem exchanged_knowUuid {uuid : Uuid} {mem : Bool} (h : Exchanged before xd) :
    Exchanged before (xd.knowUuid uuid mem).1 := by
  unfold knowUuid
  split
  · split_ifs <;> exact ⟨h.state, h.width⟩
  · split_ifs <;> exact ⟨h.state, h.width⟩

theorem exchanged_getUuid {reply : Except ℤ Uuid} {mem : Bool} :
    Exchanged xd (xd.getUuid localUuid reply mem).1 := by
  unfold getUuid
  split
  · exact exchanged_retryExchange
  · split_ifs
    · exact exchanged_retryExchange
    · exact exchanged_knowUuid ⟨rfl, rfl⟩
    · exact exchanged_knowUuid ⟨rfl, rfl⟩

theorem exchanged_getLinkStatus {reply : Except ℤ UInt8} :
    Exchanged xd (xd.getLinkStatus reply).1 := by
  unfold getLinkStatus
  split
  · split
    · exact ⟨rfl, rfl⟩
    · exact exchanged_retryExchange
  · exact ⟨rfl, rfl⟩

theorem exchanged_changeLinkState {portRead ret : ℤ} :
    Exchanged xd (xd.changeLinkState portRead ret).1 := by
  unfold changeLinkState
  split_ifs
  · exact ⟨rfl, rfl⟩
  · exact ⟨rfl, rfl⟩
  · exact ⟨rfl, rfl⟩
  · exact exchanged_retryExchange

theorem exchanged_bondLanesUuidHigh {tlw : UInt8} :
    Exchanged xd (xd.bondLanesUuidHigh tlw a).1 := by
  unfold bondLanesUuidHigh
  split
  · exact exchanged_retryExchange
  · split_ifs <;> exact ⟨rfl, rfl⟩

theorem exchanged_readProperties {reply : Except ℤ (Block × UInt32)} {add : Bool} :
    Exchanged xd (xd.readProperties depth reply add).1 := by
  unfold readProperties
  dsimp only
  split_ifs
  · exact ⟨rfl, rfl⟩
  · exact ⟨rfl, rfl⟩

theorem proceeds_queueWork (h : Exchanged before xd) : Proceeds out before xd.queueWork :=
  ⟨Or.inl rfl, fun hstate ↦ Or.inl (h.state ▸ hstate), h.width⟩

theorem proceeds_queueState {state : HandshakeState} {retries : ℤ} (hne : state ≠ .error)
    (hwidth : xd.targetLinkWidth = before.targetLinkWidth) :
    Proceeds out before (xd.queueState state retries) :=
  ⟨Or.inl rfl, fun hstate ↦ absurd hstate hne, hwidth⟩

theorem proceeds_afterExchange {r : Handshake × ℤ} {done : Handshake → Handshake}
    {fail : Handshake → ℤ → Handshake} (h : Exchanged before r.1)
    (hdone : Proceeds out before (done r.1)) (hfail : Proceeds out before (fail r.1 r.2)) :
    Proceeds out before (afterExchange r done fail) := by
  unfold afterExchange
  split_ifs
  · exact hdone
  · exact proceeds_queueWork h
  · exact hfail

theorem proceeds_skipBonding {ret : ℤ} (h : Exchanged before xd) :
    Proceeds out before (xd.skipBonding ret) :=
  proceeds_queueState (by decide) h.width

def OutOfMemory (a : Replies) : Prop := a.uuid = .error enomem ∨ a.uuidMem = false

theorem retryExchange_enomem {ret : ℤ} (h : (xd.retryExchange ret).2 = enomem) :
    ret = enomem := by
  unfold retryExchange at h
  dsimp only at h
  split at h
  · exact absurd h (by decide)
  · exact h

theorem knowUuid_enomem {uuid : Uuid} {mem : Bool} (h : (xd.knowUuid uuid mem).2 = enomem) :
    mem = false := by
  have hzero : (0 : ℤ) ≠ enomem := by decide
  have henodev : enodev ≠ enomem := by decide
  unfold knowUuid at h
  split at h
  · split_ifs at h
    · exact absurd h hzero
    · exact absurd h hzero
    · exact absurd h henodev
  · split_ifs at h with hmem
    · exact absurd h hzero
    · exact Bool.eq_false_of_not_eq_true hmem

/-- The exchange of the UUID fails with `-ENOMEM` only if memory ran out. -/
theorem getUuid_enomem (h : (xd.getUuid localUuid a.uuid a.uuidMem).2 = enomem) :
    OutOfMemory a := by
  unfold getUuid at h
  split at h
  next ret hreply =>
    left
    rw [hreply, retryExchange_enomem h]
  next uuid hreply =>
    split_ifs at h
    · exact absurd (retryExchange_enomem h) (by decide)
    · exact Or.inr (knowUuid_enomem h)
    · exact Or.inr (knowUuid_enomem h)

theorem proceeds_uuidWork : Proceeds (OutOfMemory a) xd (xd.uuidWork localUuid a) := by
  have h : Exchanged xd (xd.getUuid localUuid a.uuid a.uuidMem).1 := exchanged_getUuid
  apply proceeds_afterExchange h
  · unfold uuidDone
    split
    · exact proceeds_queueState (by decide) h.width
    · exact proceeds_queueState (by decide) h.width
  · unfold uuidFailed
    split_ifs with hcondemned hknown
    · refine ⟨Or.inl rfl, fun _ ↦ Or.inr ?_, h.width⟩
      exact hcondemned.imp id getUuid_enomem
    · exact ⟨Or.inl rfl, fun _ ↦ Or.inr (Or.inl rfl), h.width⟩
    · exact proceeds_queueState (by decide) h.width

theorem proceeds_queueBonding (h : Exchanged before xd) :
    Proceeds out before (xd.queueBonding localUuid) := by
  unfold queueBonding
  split
  · split
    · exact proceeds_queueState (by decide) h.width
    · exact proceeds_queueState (by decide) h.width
  · exact proceeds_queueState (by decide) h.width

theorem proceeds_linkStatusWork : Proceeds out xd (xd.linkStatusWork localUuid a) := by
  have h : Exchanged xd (xd.getLinkStatus a.linkStatus).1 := exchanged_getLinkStatus
  apply proceeds_afterExchange h (proceeds_queueBonding h)
  split
  · exact proceeds_queueState (by decide) h.width
  · exact proceeds_skipBonding h

theorem proceeds_directBondingWork {ret : ℤ} {done : Handshake → Handshake}
    (h : Exchanged before xd) (hdone : Proceeds out before (done xd)) :
    Proceeds out before (xd.directBondingWork ret done) := by
  unfold directBondingWork
  split_ifs
  · exact hdone
  · exact proceeds_queueWork ⟨h.state, h.width⟩
  · exact proceeds_queueState (by decide) h.width

theorem proceeds_propertiesWork : Proceeds out xd (xd.propertiesWork depth a) := by
  have h : Exchanged xd (xd.readProperties depth a.properties a.deviceAdd).1 :=
    exchanged_readProperties
  have hend : HandshakeState.enumerated ≠ .error := by decide
  apply proceeds_afterExchange h
  · unfold queueBondingRearm
    split
    · exact ⟨Or.inl rfl, fun hstate ↦ absurd hstate hend, h.width⟩
    · exact ⟨Or.inr (Or.inl rfl), fun hstate ↦ absurd hstate hend, h.width⟩
  · unfold propertiesFailed
    split
    · exact proceeds_queueState (by decide) h.width
    · exact proceeds_queueState (by decide) h.width

/-- Every way out of every state queues the state work again or is the end. -/
theorem proceeds_stateWork (herror : r.state = .error → Alive xd) :
    Proceeds (OutOfMemory a) xd (xd.stateWork localUuid depth r a) := by
  have hsame : Exchanged xd xd := ⟨rfl, rfl⟩
  unfold stateWork
  split
  case h_1 =>
    split_ifs
    · exact proceeds_queueState (by decide) rfl
    · exact proceeds_queueState (by decide) rfl
    · exact proceeds_queueState (by decide) rfl
  case h_2 => exact proceeds_uuidWork
  case h_3 => exact proceeds_linkStatusWork
  case h_4 => exact proceeds_directBondingWork ⟨rfl, rfl⟩ (proceeds_queueState (by decide) rfl)
  case h_5 => exact proceeds_directBondingWork hsame (proceeds_queueState (by decide) rfl)
  case h_6 =>
    have h : Exchanged xd (xd.changeLinkState a.portRead a.linkStateChange).1 :=
      exchanged_changeLinkState
    exact proceeds_afterExchange h (proceeds_queueState (by decide) h.width)
      (proceeds_skipBonding h)
  case h_7 =>
    have h : Exchanged xd (xd.getLinkStatus a.linkStatus).1 := exchanged_getLinkStatus
    exact proceeds_afterExchange h (proceeds_queueState (by decide) h.width)
      (proceeds_skipBonding h)
  case h_8 => exact proceeds_queueState (by decide) rfl
  case h_9 =>
    have h : Exchanged xd (xd.bondLanesUuidHigh r.targetLinkWidth a).1 :=
      exchanged_bondLanesUuidHigh
    exact proceeds_afterExchange h (proceeds_queueState (by decide) h.width)
      (proceeds_queueState (by decide) h.width)
  case h_10 => exact proceeds_propertiesWork
  case h_11 =>
    unfold enumeratedWork
    split
    · exact proceeds_queueState (by decide) rfl
    · exact proceeds_queueState (by decide) rfl
  case h_12 hstate =>
    exact ⟨herror hstate, fun hend ↦ Or.inl hend, rfl⟩

theorem alive_handle {request : Inbound} (halive : Alive xd) : Alive (xd.handle request) := by
  cases request with
  | uuidRequest =>
    dsimp only [handle]
    split_ifs
    · exact halive
    · exact Or.inl rfl
  | linkStateChange tlw =>
    dsimp only [handle]
    split_ifs
    · exact halive
    · exact Or.inl rfl
    · exact Or.inl rfl

theorem alive_rescan {sysfs : Bool} (halive : Alive xd) : Alive (xd.rescan sysfs) := by
  unfold rescan
  split_ifs
  · exact halive
  · exact Or.inl rfl
  · exact halive

theorem alive_reprobe (halive : Alive xd) : Alive xd.reprobe := by
  unfold reprobe
  dsimp only
  split
  · exact halive
  · exact Or.inl rfl

end Handshake

def sawStop (_ : Handshake) (l : HandshakeAct) (stopped : Bool) : Bool :=
  match l with
  | .stop _ => true
  | .start => false
  | _ => stopped

namespace Handshake

variable {xd xd' : Handshake} {localUuid : Uuid} {depth : ℕ} {l : HandshakeAct} {stopped : Bool}

/-- Until it is stopped the handshake is not stuck, except that its state work may be running.  A
state work that found the handshake at its end leaves it there. -/
def GoesOn (xd : Handshake) (stopped : Bool) : Prop :=
  stopped = false → (∀ r, xd.running = some r → r.state = .error) → Alive xd

theorem running_handle {request : Inbound} : (xd.handle request).running = xd.running := by
  cases request with
  | uuidRequest | linkStateChange tlw =>
    dsimp only [handle]
    split_ifs <;> rfl

theorem running_rescan {sysfs : Bool} : (xd.rescan sysfs).running = xd.running := by
  unfold rescan
  split_ifs <;> rfl

theorem running_reprobe : xd.reprobe.running = xd.running := by
  unfold reprobe
  dsimp only
  split <;> rfl

/-- Every action leaves a handshake alive that was not stopped and whose work is not running. -/
theorem goesOn_step (h : GoesOn xd stopped) (hstep : xd.step localUuid depth l = some xd') :
    GoesOn xd' (sawStop xd l stopped) := by
  intro hstopped hrun
  cases l with
  | begin =>
    simp only [step] at hstep
    split_ifs at hstep
    obtain rfl := Option.some.inj hstep
    -- the state work that starts has read the state
    exact Or.inr (Or.inr (hrun _ rfl))
  | finish a =>
    obtain ⟨r, hr, rfl⟩ := Option.map_eq_some_iff.1 hstep
    apply (proceeds_stateWork _).alive
    intro herror
    have hfound : ∀ r', xd.running = some r' → r'.state = .error := by
      intro r' hr'
      obtain rfl : r = r' := Option.some.inj (hr.symm.trans hr')
      exact herror
    exact h hstopped hfound
  | check request =>
    simp only [step] at hstep
    split_ifs at hstep
    obtain rfl := Option.some.inj hstep
    exact h hstopped hrun
  | handle i =>
    obtain ⟨request, -, rfl⟩ := Option.map_eq_some_iff.1 hstep
    rw [running_handle] at hrun
    exact alive_handle (h hstopped hrun)
  | rescan sysfs =>
    obtain rfl := Option.some.inj hstep
    rw [running_rescan] at hrun
    exact alive_rescan (h hstopped hrun)
  | reprobe =>
    obtain rfl := Option.some.inj hstep
    rw [running_reprobe] at hrun
    exact alive_reprobe (h hstopped hrun)
  | unplug | bond bonded =>
    obtain rfl := Option.some.inj hstep
    exact h hstopped hrun
  | stop remove => cases hstopped
  | start =>
    obtain rfl := Option.some.inj hstep
    exact Or.inl rfl

theorem handle_state_ne {request : Inbound} (hstate : xd.state ≠ .error) :
    (xd.handle request).state ≠ .error := by
  cases request with
  | uuidRequest =>
    dsimp only [handle]
    split_ifs
    · exact hstate
    · exact (by decide : HandshakeState.init ≠ .error)
  | linkStateChange tlw =>
    dsimp only [handle]
    split_ifs
    · exact hstate
    · exact (by decide : HandshakeState.bondingUuidHigh ≠ .error)
    · exact hstate

theorem rescan_state {sysfs : Bool} : (xd.rescan sysfs).state = xd.state := by
  unfold rescan
  split_ifs <;> rfl

theorem reprobe_state : xd.reprobe.state = xd.state := by
  unfold reprobe
  dsimp only
  split <;> rfl

/-- A step into `XDOMAIN_STATE_ERROR`. -/
theorem step_error (hstep : xd.step localUuid depth l = some xd') (hstate : xd.state ≠ .error)
    (herror : xd'.state = .error) :
    xd'.isUnplugged = true ∨ ∃ a, l = .finish a ∧ OutOfMemory a := by
  have hsame : xd'.state ≠ xd.state := fun heq ↦ hstate (heq ▸ herror)
  cases l with
  | begin =>
    simp only [step] at hstep
    split_ifs at hstep
    exact absurd (Option.some.inj hstep ▸ rfl) hsame
  | finish a =>
    obtain ⟨r, -, rfl⟩ := Option.map_eq_some_iff.1 hstep
    by_cases hend : r.state = .error
    · simp only [stateWork, hend] at hsame
      exact absurd rfl hsame
    · have hproceeds : Proceeds (OutOfMemory a) { xd with running := none }
          (stateWork { xd with running := none } localUuid depth r a) :=
        proceeds_stateWork fun h ↦ absurd h hend
      exact ((hproceeds.gives_up herror).resolve_left hstate).imp id fun hout ↦ ⟨a, rfl, hout⟩
  | check request =>
    simp only [step] at hstep
    split_ifs at hstep
    exact absurd (Option.some.inj hstep ▸ rfl) hsame
  | handle i =>
    obtain ⟨request, -, rfl⟩ := Option.map_eq_some_iff.1 hstep
    exact absurd herror (handle_state_ne hstate)
  | rescan sysfs =>
    obtain rfl := Option.some.inj hstep
    exact absurd rescan_state hsame
  | reprobe =>
    obtain rfl := Option.some.inj hstep
    exact absurd reprobe_state hsame
  | unplug | bond bonded => exact absurd (Option.some.inj hstep ▸ rfl) hsame
  | stop remove =>
    simp only [step] at hstep
    split_ifs at hstep
    exact absurd (Option.some.inj hstep ▸ rfl) hsame
  | start =>
    obtain rfl := Option.some.inj hstep
    cases herror

end Handshake

section Run

variable {localUuid : Uuid} {depth : ℕ} {q : Handshake × Bool}

/-- From its start until it is stopped the handshake has its state work queued whenever none runs,
unless it is at its end, and it gives up only if the XDomain is condemned or memory runs out. -/
theorem handshake_never_stalls
    (hreach : ((handshakeSystem localUuid depth).observe false sawStop).Reachable q) :
    (q.2 = false → q.1.running = none →
      q.1.queued = true ∨ q.1.state = .enumerated ∨ q.1.state = .error) ∧
    ∀ l xd', q.1.step localUuid depth l = some xd' → q.1.state ≠ .error → xd'.state = .error →
      xd'.isUnplugged = true ∨ ∃ a, l = .finish a ∧ Handshake.OutOfMemory a := by
  have hgoes : Handshake.GoesOn q.1 q.2 := by
    apply hreach.observe_invariant (I := Handshake.GoesOn)
    · rintro xd ⟨remoteUuid, bondingPossible, bonded, rfl⟩ - -
      exact Or.inl rfl
    · intro xd stopped l xd' _ hI _ hstep
      exact Handshake.goesOn_step hI hstep
  refine ⟨?_, fun l xd' ↦ Handshake.step_error⟩
  intro hstopped hrun
  exact hgoes hstopped (by simp [hrun])

end Run

/-- The first state work of a new XDomain queues the next one. -/
theorem handshake_never_stalls_first :
    ∃ q : Handshake × Bool, q.1.state = .uuid ∧
      (q.1.queued = true ∨ q.1.state = .enumerated ∨ q.1.state = .error) := by
  obtain ⟨q, hreach, hgoal⟩ := System.Exec.reach_of_play
    ((handshakeExec ⟨2, 2, 2, 2⟩ 4).observe :
      ((handshakeSystem ⟨2, 2, 2, 2⟩ 4).observe false sawStop).Exec)
    (fun _ _ ↦ true) (fun q ↦ q.1.state = .uuid && q.1.running.isNone && !q.2)
    [.begin, .finish {}] (s := (Handshake.started none true false, false))
    ⟨⟨none, true, false, rfl⟩, rfl⟩ (by decide +kernel)
  simp only [Bool.and_eq_true, decide_eq_true_eq, Option.isNone_iff_eq_none,
    Bool.not_eq_true'] at hgoal
  exact ⟨q, hgoal.1.1, (handshake_never_stalls (hreach.mono fun _ _ _ ↦ trivial)).1 hgoal.2
    hgoal.1.2⟩

end ThunderboltStack.Xdomain
