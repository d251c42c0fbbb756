import ThunderboltStack.Ctl.References

/-!
# Replies after the call

`tb_ctl_rx_callback` finds a request under the lock of the queue and copies the packet after it has
dropped the lock.  A synchronous call that returns while the callback is between the two gets its
response written afterwards.  If that does not happen, and if the packets of a response come
complete, a call that returns zero has its whole response.
-/

namespace ThunderboltStack.Ctl

open ThunderboltStack.Lib

namespace Req

variable {Pkg : Type} {c : ReqCfg Pkg} {q q' : Req Pkg} {ev : Ev Pkg}

def pendingWrite (c : ReqCfg Pkg) (q : Req Pkg) : Bool :=
  match q.grip with
  | .found pkg =>
    (matchOwner q.loc q.peer = .generic || q.peer = .waiting) &&
      ((c.copy pkg).slot.isSome || (c.copy pkg).err.isSome)
  | .matched pkg => (c.copy pkg).slot.isSome || (c.copy pkg).err.isSome
  | .copied pkg => (c.copy pkg).err.isSome
  | .intermediate event => (stateStep q.loc q.peer event).1 = .fail
  | _ => false

def Filled (c : ReqCfg Pkg) (copies : List Pkg) : Prop :=
  ∀ i < c.parts, ∃ pkg ∈ copies, (c.copy pkg).slot = some i

/-- `req->copy` reports a complete response without an error. -/
def Accepts (c : ReqCfg Pkg) (pkg : Pkg) : Prop :=
  (c.copy pkg).completes = true ∧ ((c.copy pkg).err = none ∨ (c.copy pkg).err = some 0)

/-- The call does not return while the receive callback is going to write, and the packet that
completes a response comes after the other parts. -/
def Orderly (c : ReqCfg Pkg) (q : Req Pkg) : Ev Pkg → Prop
  | .leave => q.pendingWrite c = false
  | .copy => ∀ pkg, q.grip = .matched pkg → Accepts c pkg → Filled c (q.copies ++ [pkg])
  | _ => True

def GoneAt (c : ReqCfg Pkg) (q : Req Pkg) : Caller → Prop
  | .errPut | .lastPut | .leave => q.active = false
  | .returned _ => c.kind ≠ .async → q.active = false
  | .cancelWait _ | .flushCall => c.localEnabled = false → 1 ≤ q.queued
  | .flush target => c.localEnabled = false → 1 ≤ target
  | _ => True

/-- A request is out of the queue when its work has run, and when its call returns. -/
structure Gone (c : ReqCfg Pkg) (q : Req Pkg) : Prop where
  hold : c.localEnabled = false → q.holdLocal = false
  work : c.localEnabled = false → q.phase = .put ∨ q.phase = .ending ∨ 1 ≤ q.ended →
    q.active = false
  done : q.done = true → 1 ≤ q.queued
  caller : q.GoneAt c q.caller

theorem GoneAt.scheduleWork {caller : Caller} (h : q.GoneAt c caller) :
    q.scheduleWork.GoneAt c caller := by
  unfold Req.scheduleWork
  split
  · exact h
  · cases caller <;> simp only [GoneAt] at h ⊢ <;> first | exact h | omega

theorem Gone.scheduleWork (h : q.Gone c) : q.scheduleWork.Gone c := by
  have hcaller := h.caller.scheduleWork
  unfold Req.scheduleWork at hcaller ⊢
  split at hcaller
  · next hpending =>
    rw [if_pos hpending]
    exact h
  · next hpending =>
    rw [if_neg hpending]
    exact ⟨h.hold, h.work, fun _ ↦ Nat.le_add_left 1 _, hcaller⟩

/-- The queue has accepted the work that it is asked to run. -/
theorem one_le_queued_scheduleWork (hcount : q.Counted) : 1 ≤ q.scheduleWork.queued := by
  unfold Req.scheduleWork
  split
  · next hpending =>
    unfold Counted at hcount
    simp only [hpending, Bool.toNat_true] at hcount
    omega
  · exact Nat.le_add_left 1 _

/-- A step of the work keeps the invariant on requests taken off the queue. -/
theorem Gone.workStep (h : q.Gone c) (hcount : q.Counted) (hs : q.workStep ev = some q') :
    q'.Gone c := by
  obtain ⟨hhold, hwork, hdone, hcaller⟩ := h
  cases ev <;> simp only [Req.workStep, reduceCtorEq] at hs
  case workCallback =>
    obtain ⟨hphase, rfl⟩ := Option.ite_some_none_eq_some.1 hs
    have hqueued : 1 ≤ q.queued := by
      simp only [Counted, hphase, reduceCtorEq, if_false] at hcount
      omega
    exact ⟨hhold, fun hc hor ↦ hwork hc (.inr (.inr (by simpa using hor))), fun _ ↦ hqueued,
      hcaller⟩
  case workDequeue =>
    obtain ⟨-, rfl⟩ := Option.ite_some_none_eq_some.1 hs
    refine ⟨hhold, fun _ _ ↦ rfl, hdone, ?_⟩
    cases hcall : q.caller <;> simp only [hcall, GoneAt] at hcaller ⊢ <;>
      first | exact hcaller | simp
  case workTest =>
    obtain ⟨hphase, rfl⟩ := Option.ite_some_none_eq_some.1 hs
    refine ⟨hhold, fun hc hor ↦ hwork hc (.inr (.inr ?_)), hdone, hcaller⟩
    simpa [hhold hc] using hor
  case workBegin =>
    obtain ⟨-, rfl⟩ := Option.ite_some_none_eq_some.1 hs
    exact ⟨hhold, fun hc hor ↦ hwork hc (.inr (.inr (by simpa using hor))), hdone, hcaller⟩
  case workPut =>
    obtain ⟨hphase, rfl⟩ := Option.ite_some_none_eq_some.1 hs
    exact ⟨hhold, fun hc _ ↦ hwork hc (.inl hphase), hdone, hcaller⟩
  case workEnd =>
    obtain ⟨hphase, rfl⟩ := Option.ite_some_none_eq_some.1 hs
    exact ⟨hhold, fun hc _ ↦ hwork hc (.inr (.inl hphase)), hdone, hcaller⟩

/-- A move of the call keeps the invariant on requests taken off the queue. -/
theorem Gone.callMove (h : q.Gone c) (hcount : q.Counted) (hearly : q.isEarly → q.Untouched)
    (hmove : CallMove c q ev q') : q'.Gone c := by
  have hposted {q : Req Pkg} {caller : Caller} (h : q.Gone c)
      (hnext : caller = .wait ∨ c.kind = .async ∧ caller = .returned 0) :
      Gone c { q with caller } := by
    refine ⟨h.hold, h.work, h.done, ?_⟩
    rcases hnext with rfl | ⟨hasync, rfl⟩
    · trivial
    · exact fun hne ↦ absurd hasync hne
  obtain ⟨hhold, hwork, hdone, hcaller⟩ := id h
  cases hmove with
  | early _ hnext => rcases hnext with rfl | rfl | rfl <;> exact ⟨hhold, hwork, hdone, trivial⟩
  | take => exact ⟨fun hc ↦ by simp [hc], hwork, hdone, trivial⟩
  | enqueue hcall _ hnext =>
    obtain ⟨hended, hphase⟩ := (hearly (by simp [isEarly, hcall])).live hcount
    refine ⟨hhold, fun _ hor ↦ ?_, hdone, ?_⟩
    · simp [hended, hphase] at hor
    · rcases hnext with rfl | rfl <;> trivial
  | enqueueFailed hcall =>
    exact ⟨hhold, hwork, hdone, (hearly (by simp [isEarly, hcall])).active⟩
  | post _ hnext => exact hposted h hnext
  | postQueue _ _ hnext => exact hposted h.scheduleWork hnext
  | errDequeue | lastDequeue => exact ⟨hhold, fun _ _ ↦ rfl, hdone, rfl⟩
  | errPut hcall hnext =>
    simp only [hcall, GoneAt] at hcaller
    refine ⟨hhold, hwork, hdone, ?_⟩
    rcases hnext with rfl | ⟨-, rfl⟩
    · exact hcaller
    · exact fun _ ↦ hcaller
  | submit _ hnext =>
    rcases hnext with rfl | ⟨-, rfl⟩ <;> exact ⟨hhold, hwork, hdone, trivial⟩
  | awake _ hd => exact ⟨hhold, hwork, hdone, fun _ ↦ hdone hd⟩
  | expireLocal _ hlocal => exact ⟨hhold, hwork, hdone, fun hc ↦ by simp [hlocal] at hc⟩
  | cancelSchedule =>
    have h := h.scheduleWork
    exact ⟨h.hold, h.work, h.done, fun _ ↦ one_le_queued_scheduleWork hcount⟩
  | flushDone hcall hended hc =>
    simp only [hcall, GoneAt] at hcaller
    exact ⟨hhold, hwork, hdone, hwork hc (.inr (.inr ((hcaller hc).trans hended)))⟩
  | leave hcall =>
    simp only [hcall, GoneAt] at hcaller
    exact ⟨hhold, hwork, hdone, fun _ ↦ hcaller⟩
  | cancelDone hcall | flushCall hcall | lastPut hcall =>
    simp only [hcall, GoneAt] at hcaller
    exact ⟨hhold, hwork, hdone, hcaller⟩
  | clearHold => exact ⟨fun _ ↦ rfl, hwork, hdone, trivial⟩
  -- after the other steps the call knows nothing of the queue
  | _ => exact ⟨hhold, hwork, hdone, trivial⟩

theorem Gone.step (h : q.Gone c) (hcount : q.Counted) (hearly : q.isEarly → q.Untouched)
    (hs : q.step c ev = some q') : q'.Gone c := by
  rcases (step_cases hs).books
      (fun _ ↦ ⟨fun h ↦ ⟨h.1, h.2, h.3, h.4⟩, fun h ↦ ⟨h.1, h.2, h.3, h.4⟩⟩) h
      (fun _ ↦ h.scheduleWork) with hcall | hwork | h'
  · exact h.callMove hcount hearly hcall
  · exact h.workStep hcount hwork
  · exact h'

/-! ## The response of a call that returns zero -/

def Answered (c : ReqCfg Pkg) (q : Req Pkg) : Prop := q.err ≠ 0 ∨ Filled c q.copies

def AnsweredAt (c : ReqCfg Pkg) (q : Req Pkg) : Caller → Prop
  | .cancel err | .cancelWait err => err ≠ 0
  | .cancelSchedule err => err ≠ 0 ∧ q.canceled = true
  | .errDequeue | .errPut => q.ret ≠ 0
  | .flushCall | .flush _ | .localWait | .clearHold | .lastDequeue | .lastPut => q.Answered c
  | .leave => q.ret ≠ 0 ∨ q.Answered c
  | .returned err => c.kind ≠ .async → err = 0 → Filled c q.copies
  | _ => True

/-- The work of a request is queued when the request is answered or canceled, and its call goes on
when it is answered. -/
structure Answers (c : ReqCfg Pkg) (q : Req Pkg) : Prop where
  schedule : q.grip = .schedule → q.Answered c
  copied : ∀ pkg, q.grip = .copied pkg → Accepts c pkg → Filled c q.copies
  queued : 1 ≤ q.queued → q.canceled = true ∨ q.Answered c
  stopped : q.stopped = true → q.Answered c
  done : q.done = true → q.Answered c
  caller : q.AnsweredAt c q.caller

theorem Filled.append {copies : List Pkg} (h : Filled c copies) (pkg : Pkg) :
    Filled c (copies ++ [pkg]) := by
  intro i hi
  obtain ⟨p, hp, hslot⟩ := h i hi
  exact ⟨p, List.mem_append_left _ hp, hslot⟩

theorem Answers.scheduleWork (h : q.Answers c) (hor : q.canceled = true ∨ q.Answered c) :
    q.scheduleWork.Answers c := by
  unfold Req.scheduleWork
  split
  · exact h
  · exact ⟨h.schedule, h.copied, fun _ ↦ hor, h.stopped, h.done, h.caller⟩

/-- An answered request keeps what the call knows. -/
theorem Answers.of_answered (h : q.Answers c) (hret : q'.ret = q.ret)
    (hcopies : q'.copies = q.copies) (hcaller : q'.caller = q.caller)
    (hcanceled : q.canceled = true → q'.canceled = true)
    (hgrip : ∀ pkg, q'.grip = .copied pkg → q.grip = .copied pkg) (hans : q'.Answered c) :
    q'.Answers c := by
  refine ⟨fun _ ↦ hans, fun pkg hpkg haccepts ↦ ?_, fun _ ↦ .inr hans, fun _ ↦ hans,
    fun _ ↦ hans, ?_⟩
  · rw [hcopies]
    exact h.copied pkg (hgrip pkg hpkg) haccepts
  have hcall := h.caller
  rw [hcaller]
  cases hq : q.caller <;> simp only [hq, AnsweredAt] at hcall ⊢
  case errDequeue | errPut =>
    rw [hret]
    exact hcall
  case cancel | cancelWait => exact hcall
  case cancelSchedule => exact ⟨hcall.1, hcanceled hcall.2⟩
  case leave => exact .inr hans
  case returned =>
    rw [hcopies]
    exact hcall
  case flushCall | flush | localWait | clearHold | lastDequeue | lastPut => exact hans

theorem resultErr_ne_zero (h : q.ret ≠ 0 ∨ q.err ≠ 0) : q.resultErr c ≠ 0 := by
  unfold resultErr
  split
  · assumption
  · next hret =>
    have herr := h.resolve_left hret
    split
    · simp [localOnlyResult, herr]
    · exact herr

theorem Answers.workStep (h : q.Answers c) (hcount : q.Counted) (hs : q.workStep ev = some q') :
    q'.Answers c := by
  obtain ⟨hschedule, hcopied, hqueued, hstopped, hdone, hcaller⟩ := h
  cases ev <;> simp only [Req.workStep, reduceCtorEq] at hs
  case workCallback =>
    obtain ⟨hphase, rfl⟩ := Option.ite_some_none_eq_some.1 hs
    refine ⟨hschedule, hcopied, hqueued, hstopped, fun hd ↦ ?_, hcaller⟩
    simp only [Counted, hphase, reduceCtorEq, if_false] at hcount
    simp only [Bool.or_eq_true, Bool.not_eq_true'] at hd
    rcases hd with (hd | hcanceled) | hs
    · exact hdone hd
    · exact (hqueued (by omega)).resolve_left (by simp [hcanceled])
    · exact hstopped hs
  all_goals
    obtain ⟨-, rfl⟩ := Option.ite_some_none_eq_some.1 hs
    exact ⟨hschedule, hcopied, hqueued, hstopped, hdone, hcaller⟩

/-- An orderly packet keeps the invariant on answered requests. -/
theorem Answers.rxMove (h : q.Answers c) (hp : q.Orderly c ev) (hmove : RxMove c q ev q') :
    q'.Answers c := by
  obtain ⟨hschedule, hcopied, hqueued, hstopped, hdone, hcaller⟩ := id h
  cases hmove with
  | @copy pkg hgrip =>
    have hmore (hans : q.Answered c) : q.err ≠ 0 ∨ Filled c (q.copies ++ [pkg]) :=
      hans.imp_right fun hf ↦ hf.append pkg
    refine ⟨by simp, ?_, fun hq ↦ (hqueued hq).imp_right hmore, fun hs ↦ hmore (hstopped hs),
      fun hd ↦ hmore (hdone hd), ?_⟩
    · intro p hpkg haccepts
      obtain rfl := Grip.copied.inj hpkg
      exact hp _ hgrip haccepts
    · cases hq : q.caller <;> simp only [hq, AnsweredAt] at hcaller ⊢
      case leave => exact hcaller.imp_right hmore
      case returned => exact fun hk he ↦ (hcaller hk he).append pkg
      case flushCall | flush | localWait | clearHold | lastDequeue | lastPut =>
        exact hmore hcaller
      all_goals exact hcaller
  | @resultErr pkg err hgrip hcompletes herr =>
    refine h.of_answered rfl rfl rfl id (by simp) ?_
    by_cases hzero : err = 0
    · exact .inr (hcopied pkg hgrip ⟨hcompletes, .inr (by rw [herr, hzero])⟩)
    · exact .inl hzero
  | result hgrip hcompletes herr =>
    have hans : q.Answered c := .inr (hcopied _ hgrip ⟨hcompletes, .inl herr⟩)
    exact h.of_answered rfl rfl rfl id (by simp) hans
  | rxSchedule hgrip =>
    obtain ⟨-, -, hqueued, hstopped, hdone, hcaller⟩ := h.scheduleWork (.inr (hschedule hgrip))
    exact ⟨by simp, by simp, hqueued, hstopped, hdone, hcaller⟩
  | intermediateFail =>
    have hans : eio ≠ 0 ∨ Filled c q.copies := .inl (by decide)
    apply Answers.scheduleWork
    · exact h.of_answered rfl rfl rfl id (by simp [writeResult]) hans
    · exact .inr hans
  -- the other steps change the place of the callback only
  | _ => exact ⟨by simp, by simp, hqueued, hstopped, hdone, hcaller⟩

/-- A move of the call keeps the invariant on answered requests. -/
theorem Answers.callMove (h : q.Answers c) (hresponse : c.hasResponse = true)
    (hearly : q.isEarly → q.Untouched) (hmove : CallMove c q ev q') : q'.Answers c := by
  obtain ⟨hschedule, hcopied, hqueued, hstopped, hdone, hcaller⟩ := id h
  have hgoes {caller : Caller} (hcaller : q.AnsweredAt c caller) : Answers c { q with caller } :=
    ⟨hschedule, hcopied, hqueued, hstopped, hdone, hcaller⟩
  cases hmove with
  | early _ hnext => rcases hnext with rfl | rfl | rfl <;> exact hgoes trivial
  | take hcall =>
    have hzero := (hearly (by simp [isEarly, hcall])).queued
    refine ⟨hschedule, hcopied, fun hq ↦ ?_, by simp, hdone, trivial⟩
    simp [hzero] at hq
  | enqueue _ _ hnext =>
    rcases hnext with rfl | rfl <;>
      exact ⟨hschedule, hcopied, hqueued, hstopped, hdone, trivial⟩
  | enqueueFailed _ hret | transmitFailed _ hret =>
    exact ⟨hschedule, hcopied, hqueued, hstopped, hdone, hret⟩
  | transmit | peerTimeout => exact ⟨hschedule, hcopied, hqueued, hstopped, hdone, trivial⟩
  | timeout => exact hgoes trivial
  | post _ hnext =>
    rcases hnext with rfl | ⟨hasync, rfl⟩
    · exact hgoes trivial
    · exact hgoes fun hne ↦ absurd hasync hne
  | postQueue _ hnone => simp [hresponse] at hnone
  | errPut hcall hnext =>
    simp only [hcall, AnsweredAt] at hcaller
    refine ⟨hschedule, hcopied, hqueued, hstopped, hdone, ?_⟩
    rcases hnext with rfl | ⟨hasync, rfl⟩
    · exact .inl hcaller
    · exact fun hne ↦ absurd hasync hne
  | submit _ hnext =>
    refine ⟨hschedule, hcopied, hqueued, hstopped, hdone, ?_⟩
    rcases hnext with rfl | ⟨hret, rfl⟩
    · trivial
    · exact hret
  | awake _ hd => exact hgoes (hdone hd)
  | expireLocal =>
    have hans : etimedout ≠ 0 ∨ Filled c q.copies := .inl (by decide)
    exact ⟨fun _ ↦ hans, hcopied, fun _ ↦ .inl rfl, fun _ ↦ hans, fun _ ↦ hans, hans⟩
  | expire => exact hgoes (show etimedout ≠ 0 by decide)
  | cancel hcall =>
    simp only [hcall, AnsweredAt] at hcaller
    exact ⟨hschedule, hcopied, fun _ ↦ .inl rfl, hstopped, hdone, hcaller, rfl⟩
  | cancelSchedule hcall =>
    simp only [hcall, AnsweredAt] at hcaller
    obtain ⟨hschedule, hcopied, hqueued, hstopped, hdone, -⟩ := h.scheduleWork (.inl hcaller.2)
    exact ⟨hschedule, hcopied, hqueued, hstopped, hdone, hcaller.1⟩
  | @cancelDone err hcall =>
    simp only [hcall, AnsweredAt] at hcaller
    have hans : err ≠ 0 ∨ Filled c q.copies := .inl hcaller
    exact ⟨fun _ ↦ hans, hcopied, fun _ ↦ .inr hans, fun _ ↦ hans, fun _ ↦ hans, hans⟩
  | flushDone hcall =>
    simp only [hcall, AnsweredAt] at hcaller
    exact hgoes (.inr hcaller)
  | lastPut hcall =>
    simp only [hcall, AnsweredAt] at hcaller
    exact ⟨hschedule, hcopied, hqueued, hstopped, hdone, .inr hcaller⟩
  | leave hcall =>
    simp only [hcall, AnsweredAt] at hcaller
    refine hgoes fun _ hzero ↦ ?_
    -- a call that returns zero has no error of its own and no error in the result
    by_contra hfilled
    have hans := hcaller.imp_right fun hans ↦ hans.resolve_right hfilled
    exact resultErr_ne_zero hans hzero
  | errDequeue hcall | flushCall hcall | flushLocal hcall | localDone hcall | localTimeout hcall
  | clearHold hcall | lastDequeue hcall =>
    simp only [hcall, AnsweredAt] at hcaller
    exact ⟨hschedule, hcopied, hqueued, hstopped, hdone, hcaller⟩

theorem Answers.step (h : q.Answers c) (hresponse : c.hasResponse = true) (hcount : q.Counted)
    (hearly : q.isEarly → q.Untouched) (hp : q.Orderly c ev) (hs : q.step c ev = some q') :
    q'.Answers c := by
  cases step_cases hs with
  | call hmove => exact h.callMove hresponse hearly hmove
  | work hwork => exact h.workStep hcount hwork
  | rx hmove => exact h.rxMove hp hmove
  | txDone | drop => exact ⟨h.schedule, h.copied, h.queued, h.stopped, h.done, h.caller⟩
  | stop =>
    have hans : eshutdown ≠ 0 ∨ Filled c q.copies := .inl (by decide)
    apply Answers.scheduleWork
    · exact h.of_answered rfl rfl rfl (fun _ ↦ rfl) (fun _ ↦ id) hans
    · exact .inl rfl

def packet? (q : Req Pkg) : Option Pkg :=
  match q.grip with
  | .found pkg | .matched pkg | .copied pkg => some pkg
  | _ => none

/-- All packets that come to `req->copy` match the request. -/
structure Matching (c : ReqCfg Pkg) (q : Req Pkg) : Prop where
  packet : ∀ pkg, q.packet? = some pkg → c.isMatch pkg = true
  copies : ∀ pkg ∈ q.copies, c.isMatch pkg = true

theorem CallMove.packets (hmove : CallMove c q ev q') :
    q'.grip = q.grip ∧ q'.copies = q.copies ∧ q'.late = q.late := by
  cases hmove <;> simp [updateState]

theorem Matching.congr (h : q.Matching c) (hgrip : q'.grip = q.grip)
    (hcopies : q'.copies = q.copies) : q'.Matching c where
  packet := by
    unfold packet?
    rw [hgrip]
    exact h.packet
  copies := hcopies ▸ h.copies

theorem Matching.of_none (h : q.Matching c) (hnone : q'.packet? = none)
    (hcopies : q'.copies = q.copies) : q'.Matching c where
  packet := by simp [hnone]
  copies := hcopies ▸ h.copies

theorem Matching.rxMove (h : q.Matching c) (hmove : RxMove c q ev q') : q'.Matching c := by
  obtain ⟨hpacket, hcopies⟩ := id h
  cases hmove with
  | find _ _ _ hmatch => exact ⟨fun p hp ↦ Option.some.inj hp ▸ hmatch, hcopies⟩
  | @decide pkg hgrip | @decidePeer pkg hgrip =>
    have hmatch : c.isMatch pkg = true := hpacket pkg (by simp [packet?, hgrip])
    exact ⟨fun p hp ↦ Option.some.inj hp ▸ hmatch, hcopies⟩
  | @copy pkg hgrip =>
    have hmatch : c.isMatch pkg = true := hpacket pkg (by simp [packet?, hgrip])
    refine ⟨fun p hp ↦ Option.some.inj hp ▸ hmatch, fun p hp ↦ ?_⟩
    rcases List.mem_append.1 hp with hold | hnew
    · exact hcopies p hold
    · exact List.mem_singleton.1 hnew ▸ hmatch
  | intermediateFail =>
    exact h.of_none (by simp [packet?, writeResult]) (by simp [writeResult, updateState])
  | _ => exact h.of_none rfl (by simp [writeResult, updateState])

/-! ## Writes after the call -/

structure Timely (c : ReqCfg Pkg) (q : Req Pkg) : Prop where
  late : q.late = false
  write : q.isReturned c = true → q.pendingWrite c = false

/-- A synchronous call returns with its last step. -/
theorem CallMove.returned (hmove : CallMove c q ev q') (h : q'.isReturned c = true) :
    ev = .leave ∧ q'.pendingWrite c = q.pendingWrite c := by
  cases hmove with
  | leave => exact ⟨rfl, rfl⟩
  | post _ hnext | postQueue _ _ hnext | errPut _ hnext =>
    rcases hnext with rfl | ⟨hasync, rfl⟩ <;> simp_all [isReturned]
  | enqueue _ _ hnext => rcases hnext with rfl | rfl <;> cases h
  | submit _ hnext => rcases hnext with rfl | ⟨-, rfl⟩ <;> cases h
  | early _ hnext => rcases hnext with rfl | rfl | rfl <;> cases h
  | _ => cases h

theorem Timely.callMove (h : q.Timely c) (hp : q.Orderly c ev) (hmove : CallMove c q ev q') :
    q'.Timely c where
  late := hmove.packets.2.2.trans h.late
  write := by
    intro hreturned
    obtain ⟨rfl, hwrite⟩ := hmove.returned hreturned
    rw [hwrite]
    exact hp

theorem Gone.active_returned (h : q.Gone c) (hreturned : q.isReturned c = true) :
    q.active = false := by
  have hcaller := h.caller
  unfold isReturned at hreturned
  split at hreturned
  · next err hcall =>
    simp only [hcall, GoneAt] at hcaller
    exact hcaller (by simpa using hreturned)
  · contradiction

/-- The receive callback writes no response after the call has returned. -/
theorem Timely.rxMove (h : q.Timely c) (hgone : q.Gone c) (hmove : RxMove c q ev q') :
    q'.Timely c := by
  obtain ⟨hlate, hwrite⟩ := h
  have hactive : q.active = true → q.isReturned c ≠ true := by
    intro hactive hreturned
    rw [hgone.active_returned hreturned] at hactive
    contradiction
  cases hmove with
  | find _ ha | findIntermediate _ ha =>
    exact ⟨hlate, fun hreturned ↦ absurd hreturned (hactive ha)⟩
  | decide hgrip howner =>
    simp only [pendingWrite, hgrip] at hwrite
    exact ⟨hlate, fun hr ↦ by simpa [howner, pendingWrite] using hwrite hr⟩
  | decidePeer hgrip hpeer =>
    simp only [pendingWrite, hgrip] at hwrite
    exact ⟨hlate, fun hr ↦ by simpa [hpeer, pendingWrite] using hwrite hr⟩
  | copy hgrip =>
    simp only [pendingWrite, hgrip, Bool.or_eq_false_iff] at hwrite
    refine ⟨?_, fun hreturned ↦ (hwrite hreturned).2⟩
    cases hreturned : q.isReturned c with
    | false => simp [hlate]
    | true => simp [hlate, (hwrite hreturned).1]
  | resultErr hgrip _ herr =>
    simp only [pendingWrite, hgrip] at hwrite
    have hreturned : q.isReturned c = false := by
      by_contra hne
      simpa [herr] using hwrite (by simpa using hne)
    exact ⟨by simp [writeResult, hlate, hreturned], fun _ ↦ rfl⟩
  | intermediateFail hgrip hfail =>
    simp only [pendingWrite, hgrip] at hwrite
    have hreturned : q.isReturned c = false := by
      by_contra hne
      simpa [hfail] using hwrite (by simpa using hne)
    refine ⟨?_, fun _ ↦ by simp [pendingWrite, writeResult]⟩
    rw [scheduleWork_late]
    exact Bool.or_eq_false_iff.2 ⟨hlate, hreturned⟩
  | rxSchedule => exact ⟨by simpa using hlate, fun _ ↦ rfl⟩
  | decideNone | result | part | rxPut | intermediate => exact ⟨hlate, fun _ ↦ rfl⟩

structure Replied (c : ReqCfg Pkg) (q : Req Pkg) : Prop where
  counted : q.Counted
  early : q.isEarly → q.Untouched
  gone : q.Gone c
  answers : c.hasResponse = true → q.Answers c
  matching : q.Matching c
  timely : q.Timely c

theorem workStep_packets (hs : q.workStep ev = some q') :
    q'.grip = q.grip ∧ q'.copies = q.copies ∧ q'.late = q.late ∧
      q'.isReturned c = q.isReturned c ∧ q'.pendingWrite c = q.pendingWrite c := by
  cases ev <;> simp only [Req.workStep, reduceCtorEq] at hs
  all_goals
    obtain ⟨-, rfl⟩ := Option.ite_some_none_eq_some.1 hs
    exact ⟨rfl, rfl, rfl, rfl, rfl⟩

theorem Matching.step (h : q.Matching c) (hs : q.step c ev = some q') : q'.Matching c := by
  cases step_cases hs with
  | call hmove => exact h.congr hmove.packets.1 hmove.packets.2.1
  | work hwork =>
    obtain ⟨hgrip, hcopies, -⟩ := workStep_packets (c := c) hwork
    exact h.congr hgrip hcopies
  | rx hmove => exact h.rxMove hmove
  | txDone | drop => exact h.congr rfl rfl
  | stop => exact h.congr (by simp [Req.stop, writeResult]) (by simp [Req.stop, writeResult])

theorem Timely.step (h : q.Timely c) (hgone : q.Gone c) (hp : q.Orderly c ev)
    (hs : q.step c ev = some q') : q'.Timely c := by
  cases step_cases hs with
  | call hmove => exact h.callMove hp hmove
  | work hwork =>
    obtain ⟨-, -, hlate, hreturned, hwrite⟩ := workStep_packets (c := c) hwork
    exact ⟨hlate.trans h.late, fun hr ↦ hwrite.trans (h.write (hreturned.symm.trans hr))⟩
  | rx hmove => exact h.rxMove hgone hmove
  | txDone | drop => exact ⟨h.late, h.write⟩
  | stop hactive =>
    have hreturned : q.isReturned c = false := by
      by_contra hne
      rw [hgone.active_returned (by simpa using hne)] at hactive
      contradiction
    constructor
    · unfold Req.stop
      rw [scheduleWork_late]
      exact Bool.or_eq_false_iff.2 ⟨h.late, hreturned⟩
    · have hsame : (q.stop c).isReturned c = q.isReturned c := by
        simp [isReturned, Req.stop, writeResult]
      simp [hsame, hreturned]

theorem replied_of_reach (h : (Req.system c).Reach (Orderly c) q) : q.Replied c := by
  apply h.invariant
  · rintro q rfl
    exact ⟨rfl, fun _ ↦ ⟨rfl, rfl, rfl, rfl, rfl, rfl⟩,
      ⟨fun _ ↦ rfl, by simp [alloc], by simp [alloc], trivial⟩,
      fun _ ↦ ⟨by simp [alloc], by simp [alloc], by simp [alloc], by simp [alloc], by simp [alloc],
        trivial⟩,
      ⟨by simp [packet?, alloc], by simp [alloc]⟩, ⟨rfl, fun _ ↦ rfl⟩⟩
  · intro q ev q' h hp hs
    exact ⟨h.counted.step hs, Untouched.step h.early h.counted hs,
      h.gone.step h.counted h.early hs,
      fun hresponse ↦ (h.answers hresponse).step hresponse h.counted h.early hp hs,
      h.matching.step hs, h.timely.step h.gone hp hs⟩

end Req

/-- If no synchronous call returns while the receive callback is going to write for it, and if the
last packet of a response comes after the others, nothing is written after a call, and a call that
returns zero for a request with a response has all its parts, from packets that match. -/
theorem reply_before_return {R Pkg : Type} [DecidableEq R] {cfg : R → ReqCfg Pkg}
    {s : Channel R Pkg}
    (hs : (Channel.system cfg).Reach (Channel.Each fun r ↦ Req.Orderly (cfg r)) s) (r : R) :
    (s.reqs r).late = false ∧
    (∀ pkg ∈ (s.reqs r).copies, (cfg r).isMatch pkg = true) ∧
    ((cfg r).kind ≠ .async → (cfg r).hasResponse = true → (s.reqs r).caller = .returned 0 →
      Req.Filled (cfg r) (s.reqs r).copies) := by
  have hreplied := Req.replied_of_reach (Channel.reach_req hs r)
  refine ⟨hreplied.timely.late, hreplied.matching.copies, fun hkind hresponse hreturned ↦ ?_⟩
  have hcaller := (hreplied.answers hresponse).caller
  simp only [hreturned, Req.AnsweredAt] at hcaller
  exact hcaller hkind trivial

/-- `replyRun` is orderly: the callback is done when the call returns, and its one packet is the
whole response. -/
def isOrderly (s : Channel Unit Unit) : Op Unit Unit → Bool
  | .req _ .leave => (s.reqs ()).grip = .none
  | _ => true

theorem orderly_of_isOrderly {s : Channel Unit Unit} {op : Op Unit Unit} (h : isOrderly s op) :
    Channel.Each (fun _ ↦ Req.Orderly genericCfg) s op := by
  cases op with
  | req r ev =>
    cases ev with
    | leave =>
      have hgrip : (s.reqs ()).grip = .none := of_decide_eq_true h
      simp [Channel.Each, Req.Orderly, Req.pendingWrite, hgrip]
    | copy =>
      intro pkg _ _ i hi
      exact ⟨(), by simp, by simp only [genericCfg] at hi; simp [genericCfg, Copy.slot]; omega⟩
    | _ => trivial
  | _ => trivial

theorem reply_before_return_sample : ∃ s,
    (Channel.system fun _ : Unit ↦ genericCfg).Reach
      (Channel.Each fun _ ↦ Req.Orderly genericCfg) s ∧
    (s.reqs ()).caller = .returned 0 ∧ (s.reqs ()).late = false ∧
    Req.Filled genericCfg (s.reqs ()).copies := by
  obtain ⟨s, hs, hgoal⟩ := System.Exec.reach_of_play (Channel.exec fun _ : Unit ↦ genericCfg)
    isOrderly (fun s ↦ (s.reqs ()).caller = .returned 0) (replyRun ()) rfl (by decide +kernel)
  have hreturned := of_decide_eq_true hgoal
  have hreach := hs.mono fun _ _ ↦ orderly_of_isOrderly
  have hreply := reply_before_return hreach ()
  exact ⟨s, hreach, hreturned, hreply.1, hreply.2.2 (by decide) rfl hreturned⟩

def timeoutRun : List (Op Unit Unit) :=
  sendRun ++ events [.find (), .timeout, .peerTimeout, .expire, .cancel, .cancelSchedule,
    .workBegin, .workCallback, .workTest, .workDequeue, .workPut, .workEnd, .cancelDone, .flushCall,
    .flushDone, .leave, .decide, .copy]

/-- A packet is copied after the call has timed out and returned; and a call returns zero although
only the last packet of its response came. -/
theorem reply_after_return :
    (∃ s, (Channel.system fun _ : Unit ↦ genericCfg).Reachable s ∧
      (s.reqs ()).caller = .returned etimedout ∧ (s.reqs ()).late = true) ∧
    ∃ s, (Channel.system fun _ : Unit ↦ firmwareCfg).Reachable s ∧
      (s.reqs ()).caller = .returned 0 ∧ ¬ Req.Filled firmwareCfg (s.reqs ()).copies := by
  constructor
  · obtain ⟨s, hs, hgoal⟩ := System.Exec.reach_of_play (Channel.exec fun _ : Unit ↦ genericCfg)
      (fun _ _ ↦ true) (fun s ↦ (s.reqs ()).caller = .returned etimedout ∧ (s.reqs ()).late = true)
      timeoutRun rfl (by decide +kernel)
    exact ⟨s, hs.mono fun _ _ _ ↦ trivial, of_decide_eq_true hgoal⟩
  · obtain ⟨s, hs, hgoal⟩ := System.Exec.reach_of_play (Channel.exec fun _ : Unit ↦ firmwareCfg)
      (fun _ _ ↦ true) (fun s ↦ (s.reqs ()).caller = .returned 0 ∧ (s.reqs ()).copies = [true])
      (replyRun true) rfl (by decide +kernel)
    obtain ⟨hreturned, hcopies⟩ := of_decide_eq_true hgoal
    refine ⟨s, hs.mono fun _ _ _ ↦ trivial, hreturned, fun hfilled ↦ ?_⟩
    obtain ⟨pkg, hpkg, hslot⟩ := hfilled 0 (by decide)
    rw [hcopies] at hpkg
    obtain rfl := List.mem_singleton.1 hpkg
    contradiction

end ThunderboltStack.Ctl
