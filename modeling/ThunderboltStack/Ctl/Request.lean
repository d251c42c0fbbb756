import ThunderboltStack.Lib.Transition
import Mathlib.Algebra.Order.Ring.Int

/-!
# Control requests

One `struct tb_cfg_request` of `ctl.c` with all that may work on it: the call that started it, its
work item, the receive callback while it holds the request, the transmit callback and the stop of
the control channel.  Each event is one access to the request or one section under a lock.  The
counters and lists at the end of the record follow the request; the code does not have them.
-/

namespace ThunderboltStack.Ctl

open ThunderboltStack.Lib

/-! ## The state machines of a request -/

/-- `-EIO`, `-ENOTCONN`, `-ESHUTDOWN` and `-ETIMEDOUT`. -/
def eio : ℤ := -5

@[inherit_doc eio]
def enotconn : ℤ := -107

@[inherit_doc eio]
def eshutdown : ℤ := -108

@[inherit_doc eio]
def etimedout : ℤ := -110

inductive LocalState
  | disabled
  | waiting
  | accepted
  | failed
  | timedOut
  deriving DecidableEq

inductive PeerState
  | disabled
  | waiting
  | matched
  | canceled
  | timedOut
  deriving DecidableEq

/-- `enum tb_cfg_request_event`. -/
inductive ReqEvent
  | none
  | localAccepted
  | localFailed
  | localTimedOut
  | peerMatched
  | peerTimedOut
  | canceled
  deriving DecidableEq

inductive Action
  | none
  | complete
  | fail
  deriving DecidableEq

def stateStep (loc : LocalState) (peer : PeerState) :
    ReqEvent → Action × LocalState × PeerState
  | .none => (.none, loc, peer)
  | .localAccepted => (.none, if loc = .waiting then .accepted else loc, peer)
  | .localFailed => (.none, if loc = .waiting then .failed else loc, peer)
  | .localTimedOut => (.none, if loc = .waiting then .timedOut else loc, peer)
  | .peerMatched => if peer = .waiting then (.complete, loc, .matched) else (.none, loc, peer)
  | .peerTimedOut => if peer = .waiting then (.fail, loc, .timedOut) else (.none, loc, peer)
  | .canceled => if peer = .waiting then (.fail, loc, .canceled) else (.none, loc, peer)

inductive Owner
  | generic
  | peer
  | none
  deriving DecidableEq

def matchOwner (loc : LocalState) (peer : PeerState) : Owner :=
  if peer ≠ .disabled then .peer else if loc ≠ .disabled then .none else .generic

def localOnlyResult (loc : LocalState) (err : ℤ) : ℤ :=
  if err ≠ 0 then err
  else if loc = .failed then eio
  else if loc = .timedOut then etimedout
  else 0

/-- What `req->copy` does with a packet: it writes a part of the response or none, and it asks for
more packets, or it completes the request and may write the result. -/
inductive Copy
  | part (slot : Option ℕ)
  | complete (slot : Option ℕ) (err : Option ℤ)
  deriving DecidableEq

/-- The part of the response that is written, and the result. -/
def Copy.slot : Copy → Option ℕ
  | .part slot => slot
  | .complete slot _ => slot

@[inherit_doc Copy.slot]
def Copy.err : Copy → Option ℤ
  | .part _ => none
  | .complete _ err => err

/-- `req->copy` returns true. -/
def Copy.completes : Copy → Bool
  | .part _ => false
  | .complete _ _ => true

/-- The call that starts a request: `tb_cfg_request_sync`, `tb_cfg_request_sync_receive`, or
`tb_cfg_request` by itself. -/
inductive Kind
  | sync
  | receive
  | async
  deriving DecidableEq

structure ReqCfg (Pkg : Type) where
  kind : Kind
  hasResponse : Bool := true
  /-- The parts of the response: `npackets` for firmware messages, otherwise one. -/
  parts : ℕ := 1
  /-- `tb_cfg_request_owns_command_slot` of the request type. -/
  ownsCommandSlot : Bool := false
  /-- `state.local` and `state.peer` are `WAITING` at the start. -/
  localEnabled : Bool := false
  peerEnabled : Bool := false
  isMatch : Pkg → Bool
  copy : Pkg → Copy
  intermediate : Pkg → ReqEvent := fun _ ↦ .none
  /-- Only `tb_cfg_request_sync` is called with a local state machine. -/
  local_sync : localEnabled = true → kind = .sync := by decide

/-- Where the call that started the request is. -/
inductive Caller
  | idle
  | acquire
  | claim
  | take
  | enqueue
  | transmit
  | post
  | errDequeue
  | errPut
  | submit
  | wait
  | timedOut
  | expired
  | cancel (err : ℤ)
  | cancelSchedule (err : ℤ)
  | cancelWait (err : ℤ)
  | flushCall
  | flush (target : ℕ)
  | localWait
  | clearHold
  | lastDequeue
  | lastPut
  | leave
  | returned (err : ℤ)
  deriving DecidableEq

/-- Where `tb_cfg_request_work` is. -/
inductive WorkPhase
  | idle
  | begun
  | called
  | dequeue
  | put
  | ending
  deriving DecidableEq

inductive Grip (Pkg : Type)
  | none
  | found (pkg : Pkg)
  | matched (pkg : Pkg)
  | copied (pkg : Pkg)
  | schedule
  | put
  | intermediate (event : ReqEvent)
  deriving DecidableEq

/-- `struct tb_cfg_request` and the places of those who work on it. -/
structure Req (Pkg : Type) where
  loc : LocalState := .disabled
  peer : PeerState := .disabled
  active : Bool := false
  canceled : Bool := false
  holdLocal : Bool := false
  stopped : Bool := false
  /-- `result.err`, the local `ret` of the call, and its completion. -/
  err : ℤ := 0
  ret : ℤ := 0
  done : Bool := false
  caller : Caller := .idle
  pending : Bool := false
  phase : WorkPhase := .idle
  grip : Grip Pkg := .none
  kref : ℤ := 1
  /-- The packet in the transmit ring holds a reference. -/
  txRef : Bool := false
  /-- The owner of the request holds its reference. -/
  own : Bool := true
  /-- Work items accepted by the queue and finished. -/
  queued : ℕ := 0
  ended : ℕ := 0
  /-- How often the reference of the call was dropped. -/
  drops : ℕ := 0
  /-- `tb_cfg_request` or `tb_cfg_request_receive` failed. -/
  failed : Bool := false
  /-- The packets that were given to `req->copy`. -/
  copies : List Pkg := []
  /-- The response or the result was written after the call had returned. -/
  late : Bool := false

inductive Ev (Pkg : Type)
  | enter
  | acquire
  | claim
  | take
  | enqueue (ret : ℤ)
  | transmit (ret : ℤ)
  | post
  | errDequeue
  | errPut
  | submit (ret : ℤ)
  | awake
  | timeout
  | peerTimeout
  | expire
  | cancel
  | cancelSchedule
  | cancelDone
  | flushCall
  | flushDone
  | localDone
  | localTimeout
  | clearHold
  | lastDequeue
  | lastPut
  | leave
  | drop
  | workBegin
  | workCallback
  | workTest
  | workDequeue
  | workPut
  | workEnd
  | find (pkg : Pkg)
  | decide
  | copy
  | result
  | rxSchedule
  | rxPut
  | findIntermediate (pkg : Pkg)
  | intermediate
  | txDone
  | stop

namespace Req

variable {Pkg : Type} (c : ReqCfg Pkg) (q : Req Pkg)

/-- `tb_cfg_request_alloc` and the setting up of a request. -/
def alloc : Req Pkg :=
  { loc := if c.localEnabled then .waiting else .disabled
    peer := if c.peerEnabled then .waiting else .disabled }

/-- `tb_ctl_schedule_req_work`: a work item that is pending is not queued again. -/
def scheduleWork : Req Pkg :=
  if q.pending then q else { q with pending := true, queued := q.queued + 1 }

@[simp]
theorem scheduleWork_holdLocal : q.scheduleWork.holdLocal = q.holdLocal := by
  unfold scheduleWork
  split <;> rfl

@[simp]
theorem scheduleWork_caller : q.scheduleWork.caller = q.caller := by
  unfold scheduleWork
  split <;> rfl

@[simp]
theorem scheduleWork_phase : q.scheduleWork.phase = q.phase := by
  unfold scheduleWork
  split <;> rfl

@[simp]
theorem scheduleWork_grip : q.scheduleWork.grip = q.grip := by
  unfold scheduleWork
  split <;> rfl

@[simp]
theorem scheduleWork_failed : q.scheduleWork.failed = q.failed := by
  unfold scheduleWork
  split <;> rfl

@[simp]
theorem scheduleWork_copies : q.scheduleWork.copies = q.copies := by
  unfold scheduleWork
  split <;> rfl

@[simp]
theorem scheduleWork_late : q.scheduleWork.late = q.late := by
  unfold scheduleWork
  split <;> rfl

def updateState (event : ReqEvent) : Req Pkg :=
  { q with
    loc := (stateStep q.loc q.peer event).2.1
    peer := (stateStep q.loc q.peer event).2.2 }

/-- The synchronous call that started the request is over. -/
def isReturned : Bool :=
  match q.caller with
  | .returned _ => c.kind != .async
  | _ => false

def resultErr : ℤ :=
  if q.ret ≠ 0 then q.ret
  else if c.localEnabled ∧ q.peer = .disabled then localOnlyResult q.loc q.err
  else q.err

def writeResult (err : ℤ) : Req Pkg := { q with err, late := q.late || q.isReturned c }

def callStep : Ev Pkg → Option (Req Pkg)
  | .enter =>
    if q.caller = .idle then
      some { q with
        caller := if c.kind ≠ .sync then .take else if c.ownsCommandSlot then .acquire else .claim }
    else none
  | .acquire => if q.caller = .acquire then some { q with caller := .claim } else none
  | .claim =>
    if q.caller = .claim then some { q with caller := .take } else none
  | .take =>
    if q.caller = .take then
      some { q with
        caller := .enqueue
        canceled := false
        stopped := false
        holdLocal := c.kind ≠ .receive && c.localEnabled
        kref := q.kref + 1 }
    else none
  | .enqueue ret =>
    if q.caller = .enqueue then
      if ret = 0 then
        some { q with active := true, caller := if c.kind = .receive then .submit else .transmit }
      else some { q with ret, failed := true, caller := .errPut }
    else none
  | .transmit ret =>
    if q.caller = .transmit then
      if ret = 0 then
        some { q with kref := q.kref + 1, txRef := true, caller := .post }
      else some { q with ret, failed := true, caller := .errDequeue }
    else none
  | .post =>
    if q.caller = .post then
      let caller := if c.kind = .async then .returned 0 else .wait
      if c.hasResponse then some { q with caller } else some { q.scheduleWork with caller }
    else none
  | .errDequeue =>
    if q.caller = .errDequeue then some { q with active := false, caller := .errPut } else none
  | .errPut =>
    if q.caller = .errPut then
      some { q with
        kref := q.kref - 1
        drops := q.drops + 1
        caller := if c.kind = .async then .returned q.ret else .leave }
    else none
  | .submit ret =>
    if q.caller = .submit then
      some { q with ret, caller := if ret = 0 then .wait else .cancel ret }
    else none
  | .awake => if q.caller = .wait ∧ q.done then some { q with caller := .flushCall } else none
  | .timeout => if q.caller = .wait then some { q with caller := .timedOut } else none
  | .peerTimeout =>
    if q.caller = .timedOut then some { q.updateState .peerTimedOut with caller := .expired }
    else none
  | .expire =>
    if q.caller = .expired then
      if c.localEnabled then
        some { q with canceled := true, err := etimedout, caller := .flushCall }
      else some { q with caller := .cancel etimedout }
    else none
  | .cancel =>
    match q.caller with
    | .cancel err =>
      some { q.updateState .canceled with canceled := true, caller := .cancelSchedule err }
    | _ => none
  | .cancelSchedule =>
    match q.caller with
    | .cancelSchedule err => some { q.scheduleWork with caller := .cancelWait err }
    | _ => none
  | .cancelDone =>
    match q.caller with
    | .cancelWait err =>
      if q.active then none else some { q with err, caller := .flushCall }
    | _ => none
  | .flushCall =>
    if q.caller = .flushCall then some { q with caller := .flush q.queued }
    else none
  | .flushDone =>
    match q.caller with
    | .flush target =>
      if target ≤ q.ended then
        some { q with
          caller := if c.localEnabled then .localWait else .leave }
      else none
    | _ => none
  | .localDone =>
    if q.caller = .localWait ∧ q.loc ≠ .waiting then some { q with caller := .clearHold } else none
  | .localTimeout =>
    if q.caller = .localWait then some { q.updateState .localTimedOut with caller := .clearHold }
    else none
  | .clearHold =>
    if q.caller = .clearHold then some { q with holdLocal := false, caller := .lastDequeue }
    else none
  | .lastDequeue =>
    if q.caller = .lastDequeue then some { q with active := false, caller := .lastPut } else none
  | .lastPut =>
    if q.caller = .lastPut then
      some { q with
        kref := q.kref - 1
        drops := q.drops + 1
        caller := .leave }
    else none
  | .leave =>
    if q.caller = .leave then some { q with caller := .returned (q.resultErr c) } else none
  | _ => none

/-- The steps of `tb_cfg_request_work`.  A work item runs on one worker at a time. -/
def workStep : Ev Pkg → Option (Req Pkg)
  | .workBegin =>
    if q.pending ∧ q.phase = .idle then some { q with pending := false, phase := .begun } else none
  | .workCallback =>
    if q.phase = .begun then
      some { q with phase := .called, done := q.done || !q.canceled || q.stopped }
    else none
  | .workTest =>
    if q.phase = .called then
      some { q with phase := if q.holdLocal then .ending else .dequeue }
    else none
  | .workDequeue =>
    if q.phase = .dequeue then some { q with active := false, phase := .put } else none
  | .workPut =>
    if q.phase = .put then
      some { q with kref := q.kref - 1, drops := q.drops + 1, phase := .ending }
    else none
  | .workEnd =>
    if q.phase = .ending then some { q with phase := .idle, ended := q.ended + 1 } else none
  | _ => none

/-- The steps of `tb_ctl_rx_callback` on a request it found. -/
def rxStep : Ev Pkg → Option (Req Pkg)
  | .find pkg =>
    match q.grip with
    | .none =>
      if q.active ∧ matchOwner q.loc q.peer ≠ .none ∧ c.isMatch pkg then
        some { q with kref := q.kref + 1, grip := .found pkg }
      else none
    | _ => none
  | .decide =>
    match q.grip with
    | .found pkg =>
      match matchOwner q.loc q.peer with
      | .generic => some { q with grip := .matched pkg }
      | .none => some { q with grip := .put }
      | .peer =>
        if q.peer = .waiting then some { q.updateState .peerMatched with grip := .matched pkg }
        else some { q with grip := .put }
    | _ => none
  | .copy =>
    match q.grip with
    | .matched pkg =>
      some { q with
        grip := .copied pkg
        copies := q.copies ++ [pkg]
        late := q.late || (c.copy pkg).slot.isSome && q.isReturned c }
    | _ => none
  | .result =>
    match q.grip with
    | .copied pkg =>
      let grip := if (c.copy pkg).completes then .schedule else .put
      match (c.copy pkg).err with
      | some err => some { q.writeResult c err with grip }
      | none => some { q with grip }
    | _ => none
  | .rxSchedule =>
    match q.grip with
    | .schedule => some { q.scheduleWork with grip := .put }
    | _ => none
  | .rxPut =>
    match q.grip with
    | .put => some { q with kref := q.kref - 1, grip := .none }
    | _ => none
  | .findIntermediate pkg =>
    match q.grip with
    | .none =>
      if q.active ∧ q.loc = .waiting ∧ c.intermediate pkg ≠ .none then
        some { q with kref := q.kref + 1, grip := .intermediate (c.intermediate pkg) }
      else none
    | _ => none
  | .intermediate =>
    match q.grip with
    | .intermediate event =>
      let q' := { q.updateState event with grip := .put }
      if (stateStep q.loc q.peer event).1 = .fail then
        some (q'.writeResult c eio).scheduleWork
      else some q'
    | _ => none
  | _ => none

/-- `tb_cfg_request_stop_state` and the rest of what `tb_ctl_stop` does to a request in the
queue. -/
def stop : Req Pkg :=
  ({ q.writeResult c eshutdown with
    loc := if q.loc = .waiting then .timedOut else q.loc
    peer := if q.peer = .waiting then .canceled else q.peer
    canceled := true
    stopped := true } : Req Pkg).scheduleWork

def step (ev : Ev Pkg) : Option (Req Pkg) :=
  match ev with
  | .workBegin | .workCallback | .workTest | .workDequeue | .workPut | .workEnd => q.workStep ev
  | .find _ | .decide | .copy | .result | .rxSchedule | .rxPut | .findIntermediate _
  | .intermediate => q.rxStep c ev
  | .txDone => if q.txRef then some { q with kref := q.kref - 1, txRef := false } else none
  | .stop => if q.active then some (q.stop c) else none
  | .drop =>
    match q.caller with
    | .returned _ => if q.own then some { q with kref := q.kref - 1, own := false } else none
    | _ => none
  | _ => q.callStep c ev

/-- The request by itself: whatever the rest of the channel lets happen to it. -/
def system : System (Req Pkg) (Ev Pkg) where
  init q := q = alloc c
  step q ev q' := q.step c ev = some q'

end Req

end ThunderboltStack.Ctl
