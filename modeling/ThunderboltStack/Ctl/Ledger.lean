import ThunderboltStack.Ctl.Request

/-!
# The reference of a call

The reference a call takes on its request is dropped by the work item, by the error path of the
call, or, with a local state machine, by the call itself.  A request whose completion is decided
only once drops it once: its work is queued only before it has run, and with a local state machine
it sees that the call holds the request.
-/

namespace ThunderboltStack.Ctl

open ThunderboltStack.Lib

/-- How far the call that started a request is. -/
inductive Stage
  | fresh
  | taken
  | live
  | failing
  | flushing
  | flushed
  | closed
  | closedFailed

namespace Req

variable {Pkg : Type} {c : ReqCfg Pkg} {q q' : Req Pkg} {ev : Ev Pkg} {st : Stage}

@[inherit_doc Stage]
def stage (c : ReqCfg Pkg) (q : Req Pkg) : Stage :=
  match q.caller with
  | .idle | .acquire | .claim | .take => .fresh
  | .enqueue => .taken
  | .errDequeue | .errPut => .failing
  | .flushCall | .flush _ => .flushing
  | .localWait | .clearHold | .lastDequeue | .lastPut => .flushed
  | .leave | .returned _ =>
    if q.failed then .closedFailed else if c.kind = .async then .live else .closed
  | _ => .live

@[simp]
theorem stage_scheduleWork : q.scheduleWork.stage c = q.stage c := by
  simp [stage]

/-- `tb_ctl_schedule_req_work` does not queue the work again after it has run, nor after the call
failed, unless the call holds the request for its local state machine. -/
def MayQueue (c : ReqCfg Pkg) (q : Req Pkg) : Prop :=
  q.pending = true ∨ c.localEnabled = true ∨ q.queued = 0 ∧ q.failed = false

/-- The completion of a request is decided once: the events that queue its work come in time,
`tb_ctl_tx` does not fail after the work was queued, and the work looks at `HOLD_LOCAL` before the
call clears it. -/
def Prompt (c : ReqCfg Pkg) (q : Req Pkg) : Ev Pkg → Prop
  | .post => c.hasResponse = false → q.MayQueue c
  | .cancelSchedule | .rxSchedule | .stop => q.MayQueue c
  | .intermediate => ∀ event, q.grip = .intermediate event →
      (stateStep q.loc q.peer event).1 = .fail → q.MayQueue c
  | .transmit ret => ret ≠ 0 → c.localEnabled = true ∨ q.queued = 0
  | .workTest => c.localEnabled = true → q.holdLocal = true
  | _ => True

/-! ## What a step can do -/

/-- What the ledgers of a request are about. -/
structure Books where
  caller : Caller
  active : Bool
  holdLocal : Bool
  done : Bool
  pending : Bool
  phase : WorkPhase
  queued : ℕ
  ended : ℕ
  drops : ℕ
  failed : Bool

@[inherit_doc Books]
def books (q : Req Pkg) : Books :=
  { caller := q.caller, active := q.active, holdLocal := q.holdLocal, done := q.done,
    pending := q.pending, phase := q.phase, queued := q.queued, ended := q.ended,
    drops := q.drops, failed := q.failed }

/-- `scheduleWork` in the books. -/
def Books.scheduleWork (b : Books) : Books :=
  if b.pending then b else { b with pending := true, queued := b.queued + 1 }

@[simp]
theorem books_scheduleWork : q.scheduleWork.books = q.books.scheduleWork := by
  unfold Req.scheduleWork Books.scheduleWork books
  split <;> rfl

def Books.req (b : Books) : Req Pkg :=
  { caller := b.caller, active := b.active, holdLocal := b.holdLocal, done := b.done,
    pending := b.pending, phase := b.phase, queued := b.queued, ended := b.ended,
    drops := b.drops, failed := b.failed }

/-- What reads the books only holds of requests with the same books. -/
theorem congr_books {P : Req Pkg → Prop} (hP : ∀ q, P q ↔ P q.books.req) (h : P q)
    (hb : q'.books = q.books) : P q' := by
  rw [hP, hb, ← hP]
  exact h

inductive CallMove (c : ReqCfg Pkg) (q : Req Pkg) : Ev Pkg → Req Pkg → Prop
  | take (hcall : q.caller = .take) : CallMove c q .take
      { q with
        caller := .enqueue
        canceled := false
        stopped := false
        holdLocal := c.kind ≠ .receive && c.localEnabled
        kref := q.kref + 1 }
  | enqueue {ret : ℤ} {caller : Caller} (hcall : q.caller = .enqueue) (hret : ret = 0)
      (hnext : caller = .submit ∨ caller = .transmit) :
      CallMove c q (.enqueue ret) { q with active := true, caller }
  | enqueueFailed {ret : ℤ} (hcall : q.caller = .enqueue) (hret : ret ≠ 0) :
      CallMove c q (.enqueue ret) { q with ret, failed := true, caller := .errPut }
  | transmit {ret : ℤ} (hcall : q.caller = .transmit) (hret : ret = 0) : CallMove c q (.transmit ret)
      { q with kref := q.kref + 1, txRef := true, caller := .post }
  | transmitFailed {ret : ℤ} (hcall : q.caller = .transmit) (hret : ret ≠ 0) :
      CallMove c q (.transmit ret) { q with ret, failed := true, caller := .errDequeue }
  | post {caller : Caller} (hcall : q.caller = .post)
      (hnext : caller = .wait ∨ c.kind = .async ∧ caller = .returned 0) :
      CallMove c q .post { q with caller }
  | postQueue {caller : Caller} (hcall : q.caller = .post) (hresponse : c.hasResponse = false)
      (hnext : caller = .wait ∨ c.kind = .async ∧ caller = .returned 0) :
      CallMove c q .post { q.scheduleWork with caller }
  | errDequeue (hcall : q.caller = .errDequeue) :
      CallMove c q .errDequeue { q with active := false, caller := .errPut }
  | errPut {caller : Caller} (hcall : q.caller = .errPut)
      (hnext : caller = .leave ∨ c.kind = .async ∧ caller = .returned q.ret) :
      CallMove c q .errPut { q with kref := q.kref - 1, drops := q.drops + 1, caller }
  | submit {ret : ℤ} {caller : Caller} (hcall : q.caller = .submit)
      (hnext : caller = .wait ∨ ret ≠ 0 ∧ caller = .cancel ret) :
      CallMove c q (.submit ret) { q with ret, caller }
  | awake (hcall : q.caller = .wait) (hdone : q.done = true) :
      CallMove c q .awake { q with caller := .flushCall }
  | timeout (hcall : q.caller = .wait) : CallMove c q .timeout { q with caller := .timedOut }
  | peerTimeout (hcall : q.caller = .timedOut) :
      CallMove c q .peerTimeout { q.updateState .peerTimedOut with caller := .expired }
  | expireLocal (hcall : q.caller = .expired) (hlocal : c.localEnabled = true) :
      CallMove c q .expire { q with canceled := true, err := etimedout, caller := .flushCall }
  | expire (hcall : q.caller = .expired) (hplain : c.localEnabled = false) :
      CallMove c q .expire { q with caller := .cancel etimedout }
  | cancel {err : ℤ} (hcall : q.caller = .cancel err) : CallMove c q .cancel
      { q.updateState .canceled with canceled := true, caller := .cancelSchedule err }
  | cancelSchedule {err : ℤ} (hcall : q.caller = .cancelSchedule err) :
      CallMove c q .cancelSchedule { q.scheduleWork with caller := .cancelWait err }
  | cancelDone {err : ℤ} (hcall : q.caller = .cancelWait err) (hactive : q.active = false) :
      CallMove c q .cancelDone { q with err, caller := .flushCall }
  | flushCall (hcall : q.caller = .flushCall) :
      CallMove c q .flushCall { q with caller := .flush q.queued }
  | flushLocal {target : ℕ} (hcall : q.caller = .flush target) (hended : target ≤ q.ended)
      (hlocal : c.localEnabled = true) : CallMove c q .flushDone { q with caller := .localWait }
  | flushDone {target : ℕ} (hcall : q.caller = .flush target) (hended : target ≤ q.ended)
      (hplain : c.localEnabled = false) : CallMove c q .flushDone { q with caller := .leave }
  | localDone (hcall : q.caller = .localWait) (hloc : q.loc ≠ .waiting) :
      CallMove c q .localDone { q with caller := .clearHold }
  | localTimeout (hcall : q.caller = .localWait) :
      CallMove c q .localTimeout { q.updateState .localTimedOut with caller := .clearHold }
  | clearHold (hcall : q.caller = .clearHold) :
      CallMove c q .clearHold { q with holdLocal := false, caller := .lastDequeue }
  | lastDequeue (hcall : q.caller = .lastDequeue) :
      CallMove c q .lastDequeue { q with active := false, caller := .lastPut }
  | lastPut (hcall : q.caller = .lastPut) : CallMove c q .lastPut
      { q with kref := q.kref - 1, drops := q.drops + 1, caller := .leave }
  | leave (hcall : q.caller = .leave) :
      CallMove c q .leave { q with caller := .returned (q.resultErr c) }
  | early {ev : Ev Pkg} {caller : Caller}
      (hcall : q.caller = .idle ∨ q.caller = .acquire ∨ q.caller = .claim)
      (hnext : caller = .acquire ∨ caller = .claim ∨ caller = .take) :
      CallMove c q ev { q with caller }

theorem callStep_cases (hs : q.callStep c ev = some q') : CallMove c q ev q' := by
  cases ev <;> simp only [Req.callStep, reduceCtorEq] at hs
  all_goals
    repeat' split at hs
    all_goals cases hs
    all_goals constructor <;> first | assumption | simp_all

inductive RxMove (c : ReqCfg Pkg) (q : Req Pkg) : Ev Pkg → Req Pkg → Prop
  | find {pkg : Pkg} (hgrip : q.grip = .none) (hactive : q.active = true)
      (howner : matchOwner q.loc q.peer ≠ .none) (hmatch : c.isMatch pkg = true) :
      RxMove c q (.find pkg) { q with kref := q.kref + 1, grip := .found pkg }
  | decide {pkg : Pkg} (hgrip : q.grip = .found pkg)
      (howner : matchOwner q.loc q.peer = .generic) :
      RxMove c q .decide { q with grip := .matched pkg }
  | decidePeer {pkg : Pkg} (hgrip : q.grip = .found pkg) (hpeer : q.peer = .waiting) :
      RxMove c q .decide { q.updateState .peerMatched with grip := .matched pkg }
  | decideNone {pkg : Pkg} (hgrip : q.grip = .found pkg)
      (howner : matchOwner q.loc q.peer ≠ .generic) : RxMove c q .decide { q with grip := .put }
  | copy {pkg : Pkg} (hgrip : q.grip = .matched pkg) : RxMove c q .copy
      { q with
        grip := .copied pkg
        copies := q.copies ++ [pkg]
        late := q.late || (c.copy pkg).slot.isSome && q.isReturned c }
  | resultErr {pkg : Pkg} {err : ℤ} (hgrip : q.grip = .copied pkg)
      (hcompletes : (c.copy pkg).completes = true) (herr : (c.copy pkg).err = some err) :
      RxMove c q .result { q.writeResult c err with grip := .schedule }
  | result {pkg : Pkg} (hgrip : q.grip = .copied pkg)
      (hcompletes : (c.copy pkg).completes = true) (herr : (c.copy pkg).err = none) :
      RxMove c q .result { q with grip := .schedule }
  | part {pkg : Pkg} (hgrip : q.grip = .copied pkg)
      (hpart : (c.copy pkg).completes = false) : RxMove c q .result { q with grip := .put }
  | rxSchedule (hgrip : q.grip = .schedule) :
      RxMove c q .rxSchedule { q.scheduleWork with grip := .put }
  | rxPut (hgrip : q.grip = .put) :
      RxMove c q .rxPut { q with kref := q.kref - 1, grip := .none }
  | findIntermediate {pkg : Pkg} (hgrip : q.grip = .none) (hactive : q.active = true)
      (hloc : q.loc = .waiting) (hevent : c.intermediate pkg ≠ .none) :
      RxMove c q (.findIntermediate pkg)
        { q with kref := q.kref + 1, grip := .intermediate (c.intermediate pkg) }
  | intermediateFail {event : ReqEvent} (hgrip : q.grip = .intermediate event)
      (hfail : (stateStep q.loc q.peer event).1 = .fail) : RxMove c q .intermediate
      (({ q.updateState event with grip := .put } : Req Pkg).writeResult c eio).scheduleWork
  | intermediate {event : ReqEvent} (hgrip : q.grip = .intermediate event)
      (hgoes : (stateStep q.loc q.peer event).1 ≠ .fail) :
      RxMove c q .intermediate { q.updateState event with grip := .put }

theorem Copy.completes_of_err {copy : Copy} {err : ℤ} (h : copy.err = some err) :
    copy.completes = true := by
  cases copy with
  | part => cases h
  | complete => rfl

/-- A step of the receive callback is one of the moves of its specification. -/
theorem rxStep_cases (hs : q.rxStep c ev = some q') : RxMove c q ev q' := by
  cases ev <;> simp only [Req.rxStep, reduceCtorEq] at hs
  case result =>
    split at hs
    · next pkg hgrip =>
      split at hs
      · next err herr =>
        have hcompletes := Copy.completes_of_err herr
        simp only [hcompletes, if_true, Option.some.injEq] at hs
        exact hs ▸ .resultErr hgrip hcompletes herr
      · next herr =>
        cases hcompletes : (c.copy pkg).completes with
        | true =>
          simp only [hcompletes, if_true, Option.some.injEq] at hs
          exact hs ▸ .result hgrip hcompletes herr
        | false =>
          simp only [hcompletes, Bool.false_eq_true, if_false, Option.some.injEq] at hs
          exact hs ▸ .part hgrip hcompletes
    · cases hs
  all_goals
    repeat' split at hs
    all_goals cases hs
    all_goals constructor <;> first | assumption | simp_all

inductive Move (c : ReqCfg Pkg) (q : Req Pkg) : Ev Pkg → Req Pkg → Prop
  | call {ev : Ev Pkg} {q' : Req Pkg} (hmove : CallMove c q ev q')
      (hs : q.callStep c ev = some q') : Move c q ev q'
  | work {ev : Ev Pkg} {q' : Req Pkg} (hwork : q.workStep ev = some q') : Move c q ev q'
  | rx {ev : Ev Pkg} {q' : Req Pkg} (hmove : RxMove c q ev q') : Move c q ev q'
  | txDone (htx : q.txRef = true) :
      Move c q .txDone { q with kref := q.kref - 1, txRef := false }
  | stop (hactive : q.active = true) : Move c q .stop (q.stop c)
  | drop {err : ℤ} (hcall : q.caller = .returned err) (hown : q.own = true) :
      Move c q .drop { q with kref := q.kref - 1, own := false }

/-- A step is a move of the call, of the receive callback, of the work or of the timer. -/
theorem step_cases (hs : q.step c ev = some q') : Move c q ev q' := by
  cases ev <;> simp only [Req.step] at hs
  case workBegin | workCallback | workTest | workDequeue | workPut | workEnd => exact .work hs
  case find | decide | copy | result | rxSchedule | rxPut | findIntermediate | intermediate =>
    exact .rx (rxStep_cases hs)
  case txDone =>
    obtain ⟨htx, rfl⟩ := Option.ite_some_none_eq_some.1 hs
    exact .txDone htx
  case stop =>
    obtain ⟨hactive, rfl⟩ := Option.ite_some_none_eq_some.1 hs
    exact .stop hactive
  case drop =>
    split at hs
    · next hcall =>
      obtain ⟨hown, rfl⟩ := Option.ite_some_none_eq_some.1 hs
      exact .drop hcall hown
    · cases hs
  all_goals exact .call (callStep_cases hs) hs

/-- A step of the receive callback queues the work, or the books do not see it. -/
theorem RxMove.books (hmove : RxMove c q ev q') :
    q'.books = q.books ∨
      (q.Prompt c ev → q.MayQueue c) ∧ q'.books = q.books.scheduleWork := by
  cases hmove with
  | rxSchedule => exact .inr ⟨id, books_scheduleWork⟩
  | intermediateFail hgrip hfail =>
    exact .inr ⟨fun hp ↦ hp _ hgrip hfail, books_scheduleWork⟩
  | _ => exact .inl rfl

/-- What reads the books only is kept by the steps of all but the call and the work, if it is kept
when the work is queued. -/
theorem Move.books {P : Req Pkg → Prop} (hmove : Move c q ev q') (hP : ∀ q, P q ↔ P q.books.req)
    (h : P q) (hqueue : (q.Prompt c ev → q.MayQueue c) → P q.scheduleWork) :
    CallMove c q ev q' ∨ q.workStep ev = some q' ∨ P q' := by
  cases hmove with
  | call hmove => exact .inl hmove
  | work hwork => exact .inr (.inl hwork)
  | rx hmove =>
    rcases hmove.books with hb | ⟨hq, hb⟩
    · exact .inr (.inr (congr_books hP h hb))
    · exact .inr (.inr (congr_books hP (hqueue hq) (hb.trans books_scheduleWork.symm)))
  | txDone | drop => exact .inr (.inr (congr_books hP h rfl))
  | stop =>
    have hb : (q.stop c).books = q.books.scheduleWork := books_scheduleWork
    exact .inr (.inr (congr_books hP (hqueue id) (hb.trans books_scheduleWork.symm)))

def Counted (q : Req Pkg) : Prop :=
  q.queued = q.ended + q.pending.toNat + if q.phase = .idle then 0 else 1

/-- If as many work items are finished as were accepted, none is pending or running. -/
theorem Counted.idle (h : q.Counted) (hended : q.queued ≤ q.ended) :
    q.pending = false ∧ q.phase = .idle := by
  unfold Counted at h
  split at h
  · next hphase =>
    have hpending : q.pending.toNat = 0 := by omega
    exact ⟨by simpa using hpending, hphase⟩
  · omega

theorem Counted.scheduleWork (h : q.Counted) : q.scheduleWork.Counted := by
  unfold Req.scheduleWork
  split
  · exact h
  · simp_all [Counted]
    omega

theorem Counted.callMove (h : q.Counted) (hmove : CallMove c q ev q') : q'.Counted := by
  cases hmove with
  | postQueue | cancelSchedule => exact h.scheduleWork
  | _ => exact h

theorem workStep_books (hs : q.workStep ev = some q') :
    q'.caller = q.caller ∧ q'.failed = q.failed ∧ q'.holdLocal = q.holdLocal := by
  cases ev <;> simp only [Req.workStep, reduceCtorEq] at hs
  all_goals
    obtain ⟨-, rfl⟩ := Option.ite_some_none_eq_some.1 hs
    exact ⟨rfl, rfl, rfl⟩

theorem Counted.workStep (h : q.Counted) (hs : q.workStep ev = some q') : q'.Counted := by
  cases ev <;> simp only [Req.workStep, reduceCtorEq] at hs
  all_goals
    obtain ⟨hphase, rfl⟩ := Option.ite_some_none_eq_some.1 hs
    simp_all [Counted]
  case workTest => split <;> simp
  case workEnd => omega

theorem Counted.step (h : q.Counted) (hs : q.step c ev = some q') : q'.Counted := by
  rcases (step_cases hs).books (fun _ ↦ Iff.rfl) h fun _ ↦ h.scheduleWork with hcall | hwork | h'
  · exact h.callMove hcall
  · exact h.workStep hwork
  · exact h'

structure Untouched (q : Req Pkg) : Prop where
  active : q.active = false
  grip : q.grip = .none
  queued : q.queued = 0
  drops : q.drops = 0
  done : q.done = false
  failed : q.failed = false

def isEarly (q : Req Pkg) : Bool :=
  match q.caller with
  | .idle | .acquire | .claim | .take | .enqueue => true
  | _ => false

theorem Untouched.callMove (h : q.isEarly → q.Untouched) (hmove : CallMove c q ev q')
    (hearly : q'.isEarly) : q'.Untouched := by
  cases hmove with
  | early hcall _ =>
    obtain ⟨hactive, hgrip, hqueued, hdrops, hdone, hfailed⟩ :=
      h (by rcases hcall with hcall | hcall | hcall <;> simp [isEarly, hcall])
    exact ⟨hactive, hgrip, hqueued, hdrops, hdone, hfailed⟩
  | take hcall =>
    obtain ⟨hactive, hgrip, hqueued, hdrops, hdone, hfailed⟩ := h (by simp [isEarly, hcall])
    exact ⟨hactive, hgrip, hqueued, hdrops, hdone, hfailed⟩
  | enqueue _ _ hnext => rcases hnext with rfl | rfl <;> cases hearly
  | post _ hnext | postQueue _ _ hnext | errPut _ hnext | submit _ hnext =>
    rcases hnext with rfl | ⟨-, rfl⟩ <;> cases hearly
  -- after every other step the call is further
  | _ => cases hearly

/-- No work of an untouched request runs. -/
theorem Untouched.workStep_eq_none (h : q.Untouched) (hcount : q.Counted) :
    q.workStep ev = none := by
  obtain ⟨hpending, hphase⟩ := hcount.idle (by simp [h.queued])
  cases ev <;> simp [Req.workStep, hpending, hphase]

/-- The receive callback does not find an untouched request. -/
theorem Untouched.not_rxMove (h : q.Untouched) : ¬ RxMove c q ev q' := by
  rintro (_ | _) <;> simp_all [h.grip, h.active]

/-- The work runs once and drops the reference, unless the call failed before it was queued. -/
def PlainAt (q : Req Pkg) : Stage → Prop
  | .fresh | .taken => True
  | .live =>
    q.queued ≤ 1 ∧ q.drops = q.ended + (if q.phase = .ending then 1 else 0) ∧
      (q.active = false → q.queued = 1) ∧ (q.done = true → q.queued = 1) ∧ q.failed = false
  | .failing => q.queued = 0 ∧ q.drops = 0 ∧ q.failed = true
  | .flushing =>
    q.queued = 1 ∧ q.drops = q.ended + (if q.phase = .ending then 1 else 0) ∧ q.failed = false
  | .flushed => False
  | .closed => q.queued = 1 ∧ q.ended = 1 ∧ q.drops = 1 ∧ q.failed = false
  | .closedFailed => q.queued = 0 ∧ q.drops = 1 ∧ q.failed = true

@[inherit_doc PlainAt]
structure Plain (c : ReqCfg Pkg) (q : Req Pkg) : Prop where
  hold : q.holdLocal = false
  target : ∀ n, q.caller = .flush n → n = 1
  ledger : q.PlainAt (q.stage c)

theorem PlainAt.scheduleWork (h : q.PlainAt st) (hc : c.localEnabled = false)
    (hq : q.MayQueue c) : q.scheduleWork.PlainAt st := by
  unfold Req.scheduleWork
  split
  · exact h
  · next hpending =>
    obtain ⟨hzero, hfailed⟩ : q.queued = 0 ∧ q.failed = false := by
      simpa [MayQueue, hc, hpending] using hq
    cases st with
    | fresh | taken => trivial
    | live =>
      simp only [PlainAt] at h
      simp [PlainAt, h, hzero]
    | failing | closedFailed => simp [PlainAt, hfailed] at h
    | flushing | closed => simp [PlainAt, hzero] at h
    | flushed => exact h

theorem PlainAt.workStep (h : q.PlainAt st) (hhold : q.holdLocal = false) (hcount : q.Counted)
    (hs : q.workStep ev = some q') : q'.PlainAt st := by
  cases ev <;> simp only [Req.workStep, reduceCtorEq] at hs
  all_goals
    obtain ⟨hphase, rfl⟩ := Option.ite_some_none_eq_some.1 hs
    cases st <;> simp_all [PlainAt, Counted] <;> omega

theorem Untouched.live (h : q.Untouched) (hcount : q.Counted) :
    q.ended = 0 ∧ q.phase = .idle := by
  obtain ⟨hpending, hphase⟩ := hcount.idle (by simp [h.queued])
  simp only [Counted, h.queued, hpending, hphase, Bool.toNat_false, if_true] at hcount
  exact ⟨by omega, hphase⟩

/-- A move of the call keeps the ledger of a request whose work drops the reference. -/
theorem Plain.callMove (h : q.Plain c) (hc : c.localEnabled = false) (hcount : q.Counted)
    (hearly : q.isEarly → q.Untouched) (hp : q.Prompt c ev) (hmove : CallMove c q ev q') :
    q'.Plain c := by
  obtain ⟨hhold, htarget, h⟩ := h
  -- an asynchronous call returns and leaves the request to its work
  have hposted {q : Req Pkg} {caller : Caller} (hq : q.PlainAt .live) (hhold : q.holdLocal = false)
      (hnext : caller = .wait ∨ c.kind = .async ∧ caller = .returned 0) :
      Plain c { q with caller } := by
    rcases hnext with rfl | ⟨hasync, rfl⟩
    · exact ⟨hhold, by simp, hq⟩
    · have hst : stage c { q with caller := .returned 0 } = .live := by
        simp [stage, hasync, hq.2.2.2.2]
      refine ⟨hhold, by simp, ?_⟩
      rw [hst]
      exact hq
  cases hmove with
  | early _ hnext => rcases hnext with rfl | rfl | rfl <;> exact ⟨hhold, by simp, trivial⟩
  | take => exact ⟨by simp [hc], by simp, trivial⟩
  | enqueue hcall _ hnext =>
    have hfresh : q.Untouched := hearly (by simp [isEarly, hcall])
    have hlive : PlainAt { q with active := true } .live := by
      simp [PlainAt, hfresh.queued, hfresh.drops, hfresh.done, hfresh.failed, hfresh.live hcount]
    rcases hnext with rfl | rfl <;> exact ⟨hhold, by simp, hlive⟩
  | enqueueFailed hcall =>
    have hfresh : q.Untouched := hearly (by simp [isEarly, hcall])
    exact ⟨hhold, by simp, hfresh.queued, hfresh.drops, rfl⟩
  | transmitFailed hcall hret =>
    simp only [stage, hcall, PlainAt] at h
    have hzero : q.queued = 0 := (hp hret).resolve_left (by simp [hc])
    have hphase := (hcount.idle (by simp [hzero])).2
    have hended : q.ended = 0 := by
      unfold Counted at hcount
      omega
    exact ⟨hhold, by simp, hzero, by simpa [hphase, hended] using h.2.1, rfl⟩
  | post hcall hnext =>
    simp only [stage, hcall] at h
    exact hposted h hhold hnext
  | postQueue hcall hresponse hnext =>
    simp only [stage, hcall] at h
    exact hposted (h.scheduleWork hc (hp hresponse)) (by simpa using hhold) hnext
  | errPut hcall hnext =>
    simp only [stage, hcall, PlainAt] at h
    rcases hnext with rfl | ⟨-, rfl⟩ <;> exact ⟨hhold, by simp, by simp [stage, PlainAt, h]⟩
  | submit hcall hnext =>
    simp only [stage, hcall] at h
    rcases hnext with rfl | ⟨-, rfl⟩ <;> exact ⟨hhold, by simp, h⟩
  | awake hcall hdone =>
    simp only [stage, hcall, PlainAt] at h
    exact ⟨hhold, by simp, h.2.2.2.1 hdone, h.2.1, h.2.2.2.2⟩
  | cancelSchedule hcall =>
    simp only [stage, hcall] at h
    exact ⟨by simpa using hhold, by simp, h.scheduleWork hc hp⟩
  | cancelDone hcall hactive =>
    simp only [stage, hcall, PlainAt] at h
    exact ⟨hhold, by simp, h.2.2.1 hactive, h.2.1, h.2.2.2.2⟩
  | flushCall hcall =>
    simp only [stage, hcall, PlainAt] at h
    refine ⟨hhold, ?_, h⟩
    intro n hn
    rw [← Caller.flush.inj hn, h.1]
  | @flushDone target hcall hended =>
    simp only [stage, hcall, PlainAt] at h
    -- the one work item is finished
    obtain rfl := htarget target hcall
    have hidle := (hcount.idle (by omega)).2
    have hone : q.ended = 1 := by
      unfold Counted at hcount
      omega
    have hdrops : q.drops = 1 := by simpa [hone, hidle] using h.2.1
    refine ⟨hhold, by simp, ?_⟩
    by_cases hasync : c.kind = .async <;>
      simp [stage, h.1, h.2.2, hasync, PlainAt, hone, hidle, hdrops]
  | expireLocal _ hlocal | flushLocal _ _ hlocal => simp [hc] at hlocal
  | localDone hcall | localTimeout hcall | clearHold hcall | lastDequeue hcall | lastPut hcall =>
    simp [stage, hcall, PlainAt] at h
  | transmit hcall | errDequeue hcall | timeout hcall | peerTimeout hcall | expire hcall
  | cancel hcall | leave hcall =>
    simp only [stage, hcall] at h
    exact ⟨hhold, by simp, h⟩

theorem Plain.scheduleWork (h : q.Plain c) (hc : c.localEnabled = false) (hq : q.MayQueue c) :
    q.scheduleWork.Plain c where
  hold := by simpa using h.hold
  target := by simpa using h.target
  ledger := by simpa using h.ledger.scheduleWork hc hq

theorem Plain.step (h : q.Plain c) (hc : c.localEnabled = false) (hcount : q.Counted)
    (hearly : q.isEarly → q.Untouched) (hp : q.Prompt c ev) (hs : q.step c ev = some q') :
    q'.Plain c := by
  rcases (step_cases hs).books
      (fun _ ↦ ⟨fun h ↦ ⟨h.1, h.2, h.3⟩, fun h ↦ ⟨h.1, h.2, h.3⟩⟩) h
      (fun hq ↦ h.scheduleWork hc (hq hp)) with hcall | hwork | h'
  · exact h.callMove hc hcount hearly hp hcall
  · obtain ⟨hcaller, hfailed, hhold⟩ := workStep_books hwork
    refine ⟨hhold.trans h.hold, hcaller ▸ h.target, ?_⟩
    have hst : q'.stage c = q.stage c := by simp only [stage, hcaller, hfailed]
    rw [hst]
    exact h.ledger.workStep h.hold hcount hwork
  · exact h'

/-- The call drops the reference and the work does not. -/
def HeldAt (q : Req Pkg) : Stage → Prop
  | .fresh | .taken => True
  | .live | .flushing | .flushed =>
    q.phase ≠ .dequeue ∧ q.phase ≠ .put ∧ q.drops = 0 ∧ q.failed = false
  | .failing => q.phase ≠ .dequeue ∧ q.phase ≠ .put ∧ q.drops = 0 ∧ q.failed = true
  | .closed => q.phase ≠ .dequeue ∧ q.phase ≠ .put ∧ q.drops = 1 ∧ q.failed = false
  | .closedFailed => q.phase ≠ .dequeue ∧ q.phase ≠ .put ∧ q.drops = 1 ∧ q.failed = true

@[inherit_doc HeldAt]
def Held (c : ReqCfg Pkg) (q : Req Pkg) : Prop := q.HeldAt (q.stage c)

theorem HeldAt.scheduleWork (h : q.HeldAt st) : q.scheduleWork.HeldAt st := by
  unfold Req.scheduleWork
  split
  · exact h
  · cases st <;> exact h

theorem HeldAt.workStep (h : q.HeldAt st) (hc : c.localEnabled = true) (hp : q.Prompt c ev)
    (hs : q.workStep ev = some q') : q'.HeldAt st := by
  cases ev <;> simp only [Req.workStep, reduceCtorEq] at hs
  case workTest =>
    -- the work goes no further
    obtain ⟨-, rfl⟩ := Option.ite_some_none_eq_some.1 hs
    cases st <;> simp_all [HeldAt, Prompt]
  all_goals
    obtain ⟨hphase, rfl⟩ := Option.ite_some_none_eq_some.1 hs
    cases st <;> simp_all [HeldAt]

/-- A move of the call keeps the ledger of a request whose call drops the reference. -/
theorem Held.callMove (h : q.Held c) (hc : c.localEnabled = true) (hcount : q.Counted)
    (hearly : q.isEarly → q.Untouched) (hmove : CallMove c q ev q') : q'.Held c := by
  have hsync : c.kind = .sync := c.local_sync hc
  unfold Held at h ⊢
  cases hmove with
  | early _ hnext => rcases hnext with rfl | rfl | rfl <;> trivial
  | take => trivial
  | enqueue hcall _ hnext =>
    have hfresh : q.Untouched := hearly (by simp [isEarly, hcall])
    have hphase := (hfresh.live hcount).2
    rcases hnext with rfl | rfl <;> simp [stage, HeldAt, hphase, hfresh.drops, hfresh.failed]
  | enqueueFailed hcall =>
    have hfresh : q.Untouched := hearly (by simp [isEarly, hcall])
    simp [stage, HeldAt, (hfresh.live hcount).2, hfresh.drops]
  | transmitFailed hcall =>
    simp only [stage, hcall, HeldAt] at h
    exact ⟨h.1, h.2.1, h.2.2.1, rfl⟩
  | post hcall hnext =>
    simp only [stage, hcall] at h
    obtain rfl := hnext.resolve_right (by simp [hsync])
    exact h
  | postQueue hcall _ hnext =>
    simp only [stage, hcall] at h
    obtain rfl := hnext.resolve_right (by simp [hsync])
    exact h.scheduleWork
  | errPut hcall hnext =>
    simp only [stage, hcall, HeldAt] at h
    obtain rfl := hnext.resolve_right (by simp [hsync])
    simp [stage, HeldAt, h]
  | lastPut hcall =>
    simp only [stage, hcall, HeldAt] at h
    simp [stage, hsync, HeldAt, h]
  | submit hcall hnext =>
    simp only [stage, hcall] at h
    rcases hnext with rfl | ⟨-, rfl⟩ <;> exact h
  | cancelSchedule hcall =>
    simp only [stage, hcall] at h
    exact h.scheduleWork
  | expire _ hplain | flushDone _ _ hplain => simp [hc] at hplain
  | transmit hcall | errDequeue hcall | awake hcall | timeout hcall | peerTimeout hcall
  | expireLocal hcall | cancel hcall | cancelDone hcall | flushCall hcall | flushLocal hcall
  | localDone hcall | localTimeout hcall | clearHold hcall | lastDequeue hcall | leave hcall =>
    simp only [stage, hcall] at h
    exact h

theorem Held.scheduleWork (h : q.Held c) : q.scheduleWork.Held c := by
  unfold Held
  rw [stage_scheduleWork]
  exact HeldAt.scheduleWork h

theorem Held.step (h : q.Held c) (hc : c.localEnabled = true) (hcount : q.Counted)
    (hearly : q.isEarly → q.Untouched) (hp : q.Prompt c ev) (hs : q.step c ev = some q') :
    q'.Held c := by
  rcases (step_cases hs).books (fun _ ↦ Iff.rfl) h fun _ ↦ h.scheduleWork with
    hcall | hwork | h'
  · exact h.callMove hc hcount hearly hcall
  · obtain ⟨hcaller, hfailed, -⟩ := workStep_books hwork
    have hst : q'.stage c = q.stage c := by simp only [stage, hcaller, hfailed]
    unfold Held
    rw [hst]
    exact HeldAt.workStep h hc hp hwork
  · exact h'

/-- An untouched request moves by its call only. -/
theorem Untouched.step (h : q.isEarly → q.Untouched) (hcount : q.Counted)
    (hs : q.step c ev = some q') (hearly : q'.isEarly) : q'.Untouched := by
  have hsame (hcaller : q'.caller = q.caller) : q.Untouched := by
    apply h
    rwa [isEarly, hcaller] at hearly
  cases step_cases hs with
  | call hmove => exact Untouched.callMove h hmove hearly
  | work hwork =>
    cases hwork.symm.trans ((hsame (workStep_books hwork).1).workStep_eq_none hcount)
  | rx hmove =>
    have hcaller : q'.caller = q.caller := by
      rcases hmove.books with hb | ⟨-, hb⟩
      · exact congrArg Books.caller hb
      · rw [← books_scheduleWork] at hb
        exact (congrArg Books.caller hb).trans q.scheduleWork_caller
    exact absurd hmove (hsame hcaller).not_rxMove
  | txDone =>
    obtain ⟨hactive, hgrip, hqueued, hdrops, hdone, hfailed⟩ := hsame rfl
    exact ⟨hactive, hgrip, hqueued, hdrops, hdone, hfailed⟩
  | stop hactive =>
    have hfalse := (hsame (scheduleWork_caller _)).active
    rw [hactive] at hfalse
    contradiction
  | drop hcall => simp [isEarly, hcall] at hearly

end Req

end ThunderboltStack.Ctl
