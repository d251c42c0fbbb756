import ThunderboltStack.Ctl.Ledger
import ThunderboltStack.Lib.Tally

/-!
# The control channel

`struct tb_ctl` with its requests: the queue, the command slot, the receive callback, the stop of
the channel, and the counter `req_works` of the work that still has to come back to the channel.
-/

namespace ThunderboltStack.Ctl

open ThunderboltStack.Lib

/-- Where `tb_ctl_stop` is: past the fence against new requests, past the stop of the rings, or in
the walk over the queue with `request_queue_lock` held. -/
inductive Stopper (R : Type)
  | idle
  | fenced
  | quiet
  | walking (todo : List R)
  deriving DecidableEq

/-- `struct tb_ctl` and the requests. -/
structure Channel (R Pkg : Type) where
  running : Bool := false
  teardown : Bool := false
  consecTimeouts : ℕ := 0
  reqWorks : ℤ := 0
  /-- `command_sem` is free. -/
  commandSem : Bool := true
  requestQueue : List R := []
  /-- The receive ring runs, and the request its callback holds. -/
  rxRunning : Bool := false
  rx : Option R := none
  stopper : Stopper R := .idle
  reqs : R → Req Pkg

inductive Op (R Pkg : Type)
  | req (r : R) (ev : Ev Pkg)
  | ctlStart
  | enterTeardown
  | stopBegin
  | stopRings
  | stopWalk
  | stopEnd

namespace Channel

variable {R Pkg : Type} [DecidableEq R] (cfg : R → ReqCfg Pkg) (s : Channel R Pkg)

/-- `tb_ctl_request_may_start` and the error of `tb_cfg_request_enqueue`. -/
def enqueueRet : ℤ :=
  if s.running && (!s.teardown || s.consecTimeouts == 0) then 0
  else if s.running then eshutdown
  else enotconn

/-- `request_queue_lock` is free; only the walk of `tb_ctl_stop` holds it for more than a step. -/
def unlocked : Bool :=
  match s.stopper with
  | .walking _ => false
  | _ => true

/-- `tb_cfg_request_find` may come to this request. -/
def findable (pkg : Pkg) (r : R) : Bool :=
  matchOwner (s.reqs r).loc (s.reqs r).peer ≠ .none && (cfg r).isMatch pkg

/-- `tb_cfg_request_find_intermediate` may come to this request. -/
def findableIntermediate (pkg : Pkg) (r : R) : Bool :=
  (s.reqs r).loc = .waiting && (cfg r).intermediate pkg ≠ .none

def allows (r : R) : Ev Pkg → Bool
  | .acquire => s.commandSem
  | .enqueue ret => s.unlocked && ret == s.enqueueRet
  | .errDequeue | .lastDequeue | .workDequeue => s.unlocked
  | .find pkg =>
    s.unlocked && s.rxRunning && s.rx == none &&
      s.requestQueue.find? (s.findable cfg pkg) == some r
  | .findIntermediate pkg =>
    s.unlocked && s.rxRunning && s.rx == none &&
      s.requestQueue.find? (s.findableIntermediate cfg pkg) == some r
  | .decide | .copy | .result | .rxSchedule | .rxPut | .intermediate => s.rx == some r
  | .stop =>
    match s.stopper with
    | .walking (r' :: _) => r == r'
    | _ => false
  | _ => true

/-- The request is counted in `req_works` while its call holds the command slot or waits for it. -/
def ownsSlot (c : ReqCfg Pkg) : Bool := c.kind = .sync && c.ownsCommandSlot

/-- What an event adds to `req_works`: the command slot, and the work items that are accepted and
that end. -/
def works (c : ReqCfg Pkg) (q q' : Req Pkg) : Ev Pkg → ℤ
  | .enter => (ownsSlot c).toNat
  | .leave => -(ownsSlot c).toNat
  | .post | .cancelSchedule | .rxSchedule | .intermediate | .stop => q'.queued - q.queued
  | .workEnd => -1
  | _ => 0

def effect (r : R) (q q' : Req Pkg) : Ev Pkg → Channel R Pkg
  | .acquire => { s with commandSem := false }
  | .enqueue ret => if ret = 0 then { s with requestQueue := s.requestQueue ++ [r] } else s
  | .errDequeue | .lastDequeue | .workDequeue =>
    if q.active then { s with requestQueue := s.requestQueue.erase r } else s
  | .expire => { s with consecTimeouts := s.consecTimeouts + 1 }
  | .find _ | .findIntermediate _ => { s with rx := some r }
  | .decide =>
    match q'.grip with
    | .matched _ => { s with consecTimeouts := 0 }
    | _ => s
  | .rxPut => { s with rx := none }
  | .stop =>
    match s.stopper with
    | .walking (_ :: todo) => { s with stopper := .walking todo }
    | _ => s
  | .leave => if ownsSlot (cfg r) then { s with commandSem := true } else s
  | _ => s

def reqStep (r : R) (ev : Ev Pkg) : Option (Channel R Pkg) :=
  if s.allows cfg r ev then
    ((s.reqs r).step (cfg r) ev).map fun q' ↦
      { s.effect cfg r (s.reqs r) q' ev with
        reqs := Function.update s.reqs r q'
        reqWorks := s.reqWorks + works (cfg r) (s.reqs r) q' ev }
  else none

def step : Op R Pkg → Option (Channel R Pkg)
  | .req r ev => s.reqStep cfg r ev
  | .ctlStart =>
    if s.stopper = .idle ∧ s.running = false then
      some { s with rxRunning := true, teardown := false, running := true }
    else none
  | .enterTeardown => if s.unlocked then some { s with teardown := true } else none
  | .stopBegin =>
    if s.stopper = .idle then some { s with running := false, stopper := .fenced } else none
  | .stopRings =>
    if s.stopper = .fenced ∧ s.rx = none then
      some { s with rxRunning := false, stopper := .quiet }
    else none
  | .stopWalk =>
    if s.stopper = .quiet then some { s with stopper := .walking s.requestQueue } else none
  | .stopEnd => if s.stopper = .walking [] then some { s with stopper := .idle } else none

/-- A channel with its requests, all of them allocated and none started. -/
def system : System (Channel R Pkg) (Op R Pkg) where
  init s := s = { reqs := fun r ↦ Req.alloc (cfg r) }
  step s op s' := s.step cfg op = some s'

def exec : (system cfg).Exec where
  Act := Op R Pkg
  step s op := (s.step cfg op).map fun s' ↦ (op, s')
  sound h := by
    obtain ⟨s', hs', heq⟩ := Option.map_eq_some_iff.1 h
    obtain ⟨rfl, rfl⟩ := Prod.mk.inj heq
    exact hs'

/-- A restriction on the events of each request. -/
def Each (allowed : R → Req Pkg → Ev Pkg → Prop) (s : Channel R Pkg) : Op R Pkg → Prop
  | .req r ev => allowed r (s.reqs r) ev
  | _ => True

variable {cfg s} {s' : Channel R Pkg} {op : Op R Pkg}

/-- A step of the channel leaves the requests alone or is an event of one of them. -/
theorem step_cases (hs : s.step cfg op = some s') :
    (s'.reqs = s.reqs ∧ s'.reqWorks = s.reqWorks) ∨
      ∃ r ev q', op = .req r ev ∧ (s.reqs r).step (cfg r) ev = some q' ∧
        s'.reqs = Function.update s.reqs r q' ∧
        s'.reqWorks = s.reqWorks + works (cfg r) (s.reqs r) q' ev := by
  cases op with
  | req r ev =>
    simp only [step, reqStep] at hs
    split at hs
    · obtain ⟨q', hq', rfl⟩ := Option.map_eq_some_iff.1 hs
      exact .inr ⟨r, ev, q', rfl, hq', rfl, rfl⟩
    · cases hs
  | ctlStart | enterTeardown | stopBegin | stopRings | stopWalk | stopEnd =>
    obtain ⟨-, rfl⟩ := Option.ite_some_none_eq_some.1 hs
    exact .inl ⟨rfl, rfl⟩

/-- Each request runs on its own. -/
theorem reach_req {allowed : R → Req Pkg → Ev Pkg → Prop}
    (hs : (system cfg).Reach (Each allowed) s) (r : R) :
    (Req.system (cfg r)).Reach (allowed r) (s.reqs r) := by
  apply hs.project fun s ↦ s.reqs r
  · rintro s rfl
    rfl
  · intro s op s' hallowed hstep
    rcases step_cases hstep with ⟨hreqs, -⟩ | ⟨r', ev, q', rfl, hq', hreqs, -⟩
    · exact .inl (congrFun hreqs r)
    · by_cases hr : r = r'
      · subst hr
        refine .inr ⟨ev, hallowed, ?_⟩
        rw [hreqs, Function.update_self]
        exact hq'
      · exact .inl (by rw [hreqs, Function.update_of_ne hr])

def busy (q : Req Pkg) : Bool := q.phase ≠ .idle

def slotted (c : ReqCfg Pkg) (q : Req Pkg) : Bool :=
  ownsSlot c &&
    match q.caller with
    | .idle | .returned _ => false
    | _ => true

/-- `req_works` counts the work items that are pending or running and the command slots. -/
def Accounted (cfg : R → ReqCfg Pkg) (s : Channel R Pkg) : Prop :=
  ∃ pending running slots, Tally id (fun r ↦ (s.reqs r).pending) pending ∧
    Tally id (fun r ↦ busy (s.reqs r)) running ∧
    Tally id (fun r ↦ slotted (cfg r) (s.reqs r)) slots ∧
    s.reqWorks = pending + running + slots

/-- A work item is accepted if it was not pending. -/
theorem scheduleWork_pending (q : Req Pkg) :
    (q.scheduleWork.queued : ℤ) - q.queued = q.scheduleWork.pending.toNat - q.pending.toNat := by
  unfold Req.scheduleWork
  split
  · simp
  · next h => simp [h]

def load (c : ReqCfg Pkg) (q : Req Pkg) : ℤ :=
  q.pending.toNat + (busy q).toNat + (slotted c q).toNat

variable {c : ReqCfg Pkg} {q q' : Req Pkg} {ev : Ev Pkg}

theorem load_scheduleWork :
    load c q.scheduleWork = load c q + (q.scheduleWork.queued - q.queued) := by
  have hpending := scheduleWork_pending q
  simp only [load, busy, slotted, Req.scheduleWork_phase, Req.scheduleWork_caller]
  omega

/-- A step of the call changes the load of its request by the work it queues. -/
theorem works_callStep (hs : q.callStep c ev = some q') :
    load c q' = load c q + works c q q' ev := by
  cases ev <;> simp only [Req.callStep, reduceCtorEq] at hs
  case post =>
    have hpending := scheduleWork_pending q
    repeat' split at hs
    all_goals cases hs
    all_goals
      simp_all [load, works, busy, slotted, ownsSlot]
      try omega
  case cancelSchedule =>
    split at hs
    · next err hcall =>
      obtain rfl := Option.some.inj hs
      have hload := load_scheduleWork (c := c) (q := q)
      simpa [load, slotted, busy, works, hcall] using hload
    · cases hs
  all_goals
    repeat' split at hs
    all_goals cases hs
    all_goals simp_all [load, works, busy, slotted, ownsSlot, Req.updateState]

theorem works_workStep (hs : q.workStep ev = some q') :
    load c q' = load c q + works c q q' ev := by
  cases ev <;> simp only [Req.workStep, reduceCtorEq] at hs
  all_goals
    obtain ⟨hphase, rfl⟩ := Option.ite_some_none_eq_some.1 hs
    simp_all [load, works, busy, slotted]
  case workTest => split <;> simp
  all_goals omega

theorem works_rxMove (hmove : Req.RxMove c q ev q') :
    load c q' = load c q + works c q q' ev := by
  cases hmove with
  | rxSchedule | intermediateFail => exact load_scheduleWork
  | intermediate =>
    change load c q = load c q + ((q.queued : ℤ) - q.queued)
    omega
  | _ => exact (Int.add_zero _).symm

/-- An event moves `req_works` as it moves what is counted. -/
theorem load_step (hs : q.step c ev = some q') : load c q' = load c q + works c q q' ev := by
  cases Req.step_cases hs with
  | call _ hs => exact works_callStep hs
  | work hwork => exact works_workStep hwork
  | rx hmove => exact works_rxMove hmove
  | txDone | drop => exact (Int.add_zero _).symm
  | stop => exact load_scheduleWork

/-- Every operation keeps the counter of the channel the sum over its requests. -/
theorem Accounted.step {s s' : Channel R Pkg} (h : s.Accounted cfg) (hs : s.step cfg op = some s') :
    s'.Accounted cfg := by
  obtain ⟨pending, running, slots, hpending, hrunning, hslots, hworks⟩ := h
  rcases step_cases hs with ⟨hreqs, hsame⟩ | ⟨r, ev, q', rfl, hq', hreqs, hmove⟩
  · refine ⟨pending, running, slots, ?_, ?_, ?_, hsame.trans hworks⟩
    · rw [hreqs]
      exact hpending
    · rw [hreqs]
      exact hrunning
    · rw [hreqs]
      exact hslots
  · obtain ⟨pending', hpending', hp⟩ := hpending.update r q'.pending
    obtain ⟨running', hrunning', hr⟩ := hrunning.update r (busy q')
    obtain ⟨slots', hslots', hsl⟩ := hslots.update r (slotted (cfg r) q')
    have hload := load_step hq'
    simp only [load] at hload
    refine ⟨pending', running', slots', ?_, ?_, ?_, ?_⟩
    · refine hpending'.congr fun x ↦ ?_
      rw [hreqs]
      by_cases hx : x = r
      · simp [hx]
      · simp [hx]
    · refine hrunning'.congr fun x ↦ ?_
      rw [hreqs]
      by_cases hx : x = r
      · simp [hx]
      · simp [hx]
    · refine hslots'.congr fun x ↦ ?_
      rw [hreqs]
      by_cases hx : x = r
      · simp [hx]
      · simp [hx]
    · rw [hmove, hworks]
      omega

theorem accounted_of_reach {allowed : Channel R Pkg → Op R Pkg → Prop} {s : Channel R Pkg}
    (hs : (system cfg).Reach allowed s) : s.Accounted cfg := by
  apply hs.invariant
  · rintro s rfl
    refine ⟨0, 0, 0, tally_zero fun r ↦ ?_, tally_zero fun r ↦ ?_, tally_zero fun r ↦ ?_, rfl⟩
    · rfl
    · rfl
    · simp [slotted, Req.alloc]
  · intro s op s' h _ hstep
    exact h.step hstep

omit [DecidableEq R] in
/-- If nothing of any request is counted any more, `req_works` is zero. -/
theorem Accounted.eq_zero {s : Channel R Pkg} (h : s.Accounted cfg)
    (hidle : ∀ r, (s.reqs r).pending = false ∧ (s.reqs r).phase = .idle ∧
      slotted (cfg r) (s.reqs r) = false) : s.reqWorks = 0 := by
  obtain ⟨pending, running, slots, hpending, hrunning, hslots, hworks⟩ := h
  have hp : pending = 0 := hpending.eq_zero fun r ↦ (hidle r).1
  have hr : running = 0 := hrunning.eq_zero fun r ↦ by simp [busy, hidle r]
  have hs : slots = 0 := hslots.eq_zero fun r ↦ (hidle r).2.2
  simp [hworks, hp, hr, hs]

end Channel

end ThunderboltStack.Ctl
