import ThunderboltStack.Lib.Monitor
import ThunderboltStack.Tbframe.Delivery

/-!
# `link_up` and the first frames of a session

`tbframe_link_maybe_up` publishes the session under the lock and calls `link_up` after it dropped
the lock; `tbframe_register_client_tf` publishes the client and leaves the call of `link_up` for an
established link to its session work.  `tbframe_core_rx_complete` looks at the state alone.

A monitor follows the completion callbacks: a callback carries a frame from the section that decided
to deliver it to the `rx` call.  The observer records whether a `link_up` call is owed to the
client, and the sessions for which the call was made.  A frame reaches the client before `link_up`
if it is admitted while the call is owed, or carried while a client appears; if neither happens,
none does.
-/

namespace ThunderboltStack.Tbframe

open ThunderboltStack.Lib

inductive RxPhase
  | idle
  | calling
  | carrying
  deriving DecidableEq

def RxLocals.payload (c : RxLocals) : Bool :=
  !c.bad && c.len ≤ maxFrame && c.pdf != .keepalive

def RxPhase.next (q : RxPhase) : (o : Op) → o.Res → RxPhase
  | .held (.rx (.complete _ c _)), r => if r.2 && c.payload then .carrying else q
  | .callbackDone, _ => .idle
  | _, _ => q

/-- Completions are processed by callbacks, and delivered by those that carry a frame. -/
def RxPhase.Allows (q : RxPhase) : Op → Prop
  | .held (.rx (.complete _ _ _)) => q = .calling
  | .held (.rx (.upcallRx _ _ _)) => q = .carrying
  | _ => True

def rxMonitor : Monitor linkSig Entry RxPhase where
  idle := .idle
  enter
    | .rxComplete _ _ _ _ _ _ => .calling
    | _ => .idle
  next := RxPhase.next
  allows := RxPhase.Allows
  rests _ := True

section Monitor

variable {cfg : LinkCfg} {q : RxPhase} {α : Type}

/-- The effect of the sections under `session_lock` on the phase of a callback. -/
def carryEffect : Effect heldSig RxPhase
  | o, q, Q => q.Allows (.held o) ∧ ∀ r, Q r (q.next (.held o) r)

attribute [local simp] carryEffect RxPhase.Allows RxPhase.next liftM monadLift

theorem carries_recycleRx (f : ℕ) {Q : Unit → RxPhase → Prop} (hQ : ∀ u q, Q u q) :
    (recycleRx f).wlp (carryEffect.lift rxHeld) Q q := by
  simp [recycleRx, putbackRx, hQ]

theorem carries_coreRxComplete (f : ℕ) (canceled : Bool) (len : ℕ) (pdf : Pdf) (bad : Bool)
    (data : Keepalive) {Q : Unit → RxPhase → Prop} (hQ : ∀ u q, Q u q) :
    (coreRxComplete f canceled len pdf bad data).wlp (carryEffect.lift rxHeld) Q .calling := by
  simp [coreRxComplete, putbackRx, hQ, carries_recycleRx, RxLocals.payload, rxLocals]
  exact fun _ hbad hlen hpdf ↦ ⟨hbad, hlen, hpdf⟩

/-- The phase of a callback follows its program. -/
theorem tracks_prog (e : Entry) :
    (e.prog cfg).wlp rxMonitor.effect (fun _ _ ↦ True) (rxMonitor.enter e) := by
  by_cases hrx : ∃ f canceled len pdf bad data, e = .rxComplete f canceled len pdf bad data
  · obtain ⟨f, canceled, len, pdf, bad, data, rfl⟩ := hrx
    refine (Prog.wlp_bind _ _ _).mpr ((Prog.wlp_lift ..).mpr ((Prog.wlp_lift ..).mpr ?_))
    exact carries_coreRxComplete f canceled len pdf bad data fun _ _ ↦ ⟨trivial, fun _ ↦ trivial⟩
  · have henter : rxMonitor.enter e = .idle := by
      cases e with
      | rxComplete => exact absurd ⟨_, _, _, _, _, _, rfl⟩ hrx
      | _ => rfl
    rw [henter]
    refine Prog.wlp_of_all ((prog_uses e).mono fun o ho ↦ ?_) fun _ ↦ trivial
    cases o with
    | held o =>
      cases o with
      | rx o =>
        cases o with
        | complete f c data =>
          obtain ⟨len, pdf, bad, directional, rfl, -⟩ := ho
          exact absurd ⟨_, _, _, _, _, _, rfl⟩ hrx
        | upcallRx f len pdf =>
          obtain ⟨⟨data, rfl⟩, -⟩ := ho
          exact absurd ⟨_, _, _, _, _, _, rfl⟩ hrx
        | _ => exact fun _ hQ ↦ ⟨trivial, hQ⟩
      | _ => exact fun _ hQ ↦ ⟨trivial, hQ⟩
    | _ => exact fun _ hQ ↦ ⟨trivial, hQ⟩

end Monitor

/-! ## The client's view of a session -/

/-- The phases of the threads, whether a `link_up` call is outstanding, and the generations for
which it was made to the client registered last. -/
structure UpLog where
  phase : Tid → RxPhase := fun _ ↦ .idle
  owed : Bool := false
  announced : List ℕ := []

/-- The record after a step. A call is owed from the section that publishes the session, or from the
publication of a client for an established link, until it is made. -/
def UpLog.see {cfg : LinkCfg} (c : (linkMachine cfg).Config) (s : (linkMachine cfg).Label)
    (o : UpLog) : UpLog where
  phase := Machine.phases rxMonitor c s o.phase
  owed :=
    match s with
    | .exec _ (.held (.sess .maybeUp)) _ => o.owed || (maybeUpLocked cfg c.state).1.isSome
    | .exec _ (.held (.sess (.upcallUp _))) _ => false
    | .exec _ (.held (.base (.ctl .publishClient))) _ =>
        o.owed || (!c.state.ctl.client && c.state.sh.state == .up)
    | _ => o.owed
  announced :=
    match s with
    | .exec _ (.held (.sess (.upcallUp _))) _ =>
        if c.state.ctl.client then c.state.sess.dataGeneration :: o.announced else o.announced
    | .exec _ (.held (.base (.ctl .publishClient))) _ =>
        if c.state.ctl.client then o.announced else []
    | _ => o.announced

/-- The runs of a link with the client's view. -/
def upcallRuns (cfg : LinkCfg) :
    System ((linkMachine cfg).Config × UpLog) (linkMachine cfg).Label :=
  (linkMachine cfg).system.observe {} UpLog.see

/-- No data frame is admitted while a `link_up` call is owed to the client, and no client appears
while a callback carries a frame. -/
def Prompt {cfg : LinkCfg} (p : (linkMachine cfg).Config × UpLog) : (linkMachine cfg).Label → Prop
  | .exec _ (.held (.rx (.complete f c data))) _ =>
      (rxCompleteLocked f c data p.1.state).1.2 && c.payload && p.1.state.ctl.client →
        p.2.owed = false
  | .exec _ (.held (.base (.ctl .publishClient))) _ => ∀ t, p.2.phase t ≠ .carrying
  | _ => True

section Client

variable {cfg : LinkCfg} {t : Tid} {l l' : Link}

theorem client_base {o : BaseOp} {i : o.Inp} {r : o.Res} (ho : o ≠ .ctl .publishClient)
    (h : o.run cfg i l = some (r, l')) (hclient : l'.ctl.client = true) :
    l.ctl.client = true := by
  cases o with
  | read o =>
    obtain ⟨-, rfl⟩ := Prod.mk.inj (Option.some.inj h)
    exact hclient
  | disp o =>
    obtain rfl := link_of_run h
    exact (view_disp (·.ctl.client) o rfl).symm.trans hclient
  | hw o =>
    cases o <;> simp only [BaseOp.run, HwOp.exec] at h <;> (repeat' split at h) <;> cases h <;>
      exact hclient
  | ctl o =>
    cases o with
    | publishClient => exact absurd rfl ho
    | _ =>
      simp only [BaseOp.run, CtlOp.exec, registerScan] at h
      (repeat' split at h) <;> cases h <;> simp_all [setGates, markDead, queueWork]

/-- A client appears by its registration only. -/
theorem client_run {o : Op} {i : o.Inp} {r : o.Res} (h : o.run cfg t i l = some (r, l'))
    (ho : o ≠ .held (.base (.ctl .publishClient))) (hclient : l'.ctl.client = true) :
    l.ctl.client = true := by
  cases o with
  | held o =>
    cases o with
    | base o => exact client_base (fun heq ↦ ho (by rw [heq])) h hclient
    | _ => exact (view_run (·.ctl.client) h rfl).symm.trans hclient
  | _ => exact (view_run (·.ctl.client) h rfl).symm.trans hclient

end Client

section Order

variable {cfg : LinkCfg} {t u : Tid} {l l' : Link} {o o' : UpLog}

theorem monitored_upcalls
    {allowed : (linkMachine cfg).Config × UpLog → (linkMachine cfg).Label → Prop}
    {p : (linkMachine cfg).Config × UpLog} (hp : (upcallRuns cfg).Reach allowed p) :
    Machine.Monitored rxMonitor p.1 p.2.phase := by
  have hsee : ∀ (c : (linkMachine cfg).Config) s o,
      (UpLog.see c s o).phase = Machine.phases rxMonitor c s o.phase := fun _ _ _ ↦ rfl
  apply Machine.monitored_reach (fun _ ↦ rfl) hsee _ hp
  intro t e l q l' henter
  rw [(enter_eq_some henter).2.2]
  exact tracks_prog e

/-- A callback is idle again when it is done. -/
theorem next_ne_idle {q : RxPhase} {o : Op} {r : o.Res} (hallows : q.Allows o)
    (h : q.next o r ≠ .idle) : q ≠ .idle ∧ o ≠ .callbackDone := by
  cases o with
  | held o =>
    refine ⟨?_, by simp⟩
    cases o with
    | rx o =>
      cases o with
      | complete f c data =>
        rintro rfl
        cases hallows
      | _ => exact h
    | _ => exact h
  | callbackDone => exact absurd rfl h
  | _ => exact ⟨h, by simp⟩

/-- A thread that the monitor does not find idle is in a callback. -/
theorem calling_upcalls
    {allowed : (linkMachine cfg).Config × UpLog → (linkMachine cfg).Label → Prop}
    {p : (linkMachine cfg).Config × UpLog} (hp : (upcallRuns cfg).Reach allowed p) :
    ∀ t, p.2.phase t ≠ .idle → Calling t p.1.state := by
  have hp' : (upcallRuns cfg).Reach (fun p s ↦ allowed p s ∧
      Machine.Monitored rxMonitor p.1 p.2.phase) p :=
    hp.strengthen fun _ _ _ hr _ _ ↦ monitored_upcalls hr
  apply System.Reach.observe_invariant
    (I := fun c o ↦ ∀ t, o.phase t ≠ .idle → Calling t c.state) hp'
  · intro c _ t ht
    exact absurd rfl ht
  · intro c o s c' _ h hmon hstep u hu
    cases hstep with
    | @start t e p l' hthread henter =>
      have hbegin := (enter_eq_some henter).2.1
      simp only [UpLog.see, Machine.phases] at hu
      by_cases hut : u = t
      · subst hut
        rw [Function.update_self] at hu
        cases e with
        | rxComplete f canceled len pdf bad data =>
          simp only [Entry.begin, takeFromRxRing] at hbegin
          split at hbegin <;> cases hbegin
          exact List.mem_cons_self
        | _ => exact absurd rfl hu
      · rw [Function.update_of_ne hut] at hu
        exact callbacks_begin hbegin (h u hu)
    | @exec t op k i r l' hthread hrun =>
      have hallows := hmon.2.allows_exec (.exec hthread hrun)
      simp only [UpLog.see, Machine.phases_exec hrun] at hu
      by_cases hut : u = t
      · subst hut
        rw [Function.update_self] at hu
        obtain ⟨hq, hne⟩ := next_ne_idle hallows hu
        exact callbacks_run hrun (fun heq ↦ absurd heq hne) (h u hq)
      · rw [Function.update_of_ne hut] at hu
        exact callbacks_run hrun (fun _ ↦ hut) (h u hu)
    | @finish t hthread =>
      simp only [UpLog.see, Machine.phases] at hu
      by_cases hut : u = t
      · subst hut
        exact absurd (Function.update_self ..) hu
      · rw [Function.update_of_ne hut] at hu
        exact h u hu

/-- In a session of which the client knows, `link_up` was called, unless the call is still owed; and
a callback that carries a frame to the client belongs to such a session. -/
structure Told (l : Link) (o : UpLog) : Prop where
  up : l.sh.state = .up → l.ctl.client = true → o.owed = false →
    l.sess.dataGeneration ∈ o.announced
  carried : ∀ t, o.phase t = .carrying → l.ctl.client = true →
    l.sess.dataGeneration ∈ o.announced

/-- A step that neither publishes the session or a client nor calls `link_up`. -/
theorem Told.keep (h : Told l o) (hstate : l'.sh.state = .up → l.sh.state = .up)
    (hclient : l'.ctl.client = true → l.ctl.client = true)
    (hgen : l'.sess.dataGeneration = l.sess.dataGeneration) (howed : o'.owed = o.owed)
    (hannounced : o'.announced = o.announced)
    (hphase : ∀ u, o'.phase u = .carrying → o.phase u = .carrying ∨
      (l.ctl.client = true → l.sess.dataGeneration ∈ o.announced)) : Told l' o' := by
  constructor
  · intro hup hcl ho
    rw [hgen, hannounced]
    exact h.up (hstate hup) (hclient hcl) (howed.symm.trans ho)
  · intro u hu hcl
    rw [hgen, hannounced]
    obtain hcarrying | hmem := hphase u hu
    · exact h.carried u hcarrying (hclient hcl)
    · exact hmem (hclient hcl)

/-- A callback carries a frame from the section that admits it. -/
theorem carrying_run {q : RxPhase} {o : Op} {i : o.Inp} {r : o.Res}
    (hrun : o.run cfg t i l = some (r, l')) (h : q.next o r = .carrying) :
    q = .carrying ∨ ∃ f c data, o = .held (.rx (.complete f c data)) ∧
      ((rxCompleteLocked f c data l).1.2 && c.payload) = true := by
  cases o with
  | held o =>
    cases o with
    | rx o =>
      cases o with
      | complete f c data =>
        obtain rfl : (rxCompleteLocked f c data l).1 = r := congrArg Prod.fst (Option.some.inj hrun)
        simp only [RxPhase.next] at h
        split at h
        · next hadmitted => exact .inr ⟨f, c, data, rfl, hadmitted⟩
        · exact .inl h
      | _ => exact .inl h
    | _ => exact .inl h
  | callbackDone => cases h
  | _ => exact .inl h

theorem maybeUp_none (h : (maybeUpLocked cfg l).1 = none) : (maybeUpLocked cfg l).2 = l := by
  unfold maybeUpLocked at h ⊢
  split at h
  · cases h
  split at h
  · cases h
  · next hinit hpending => rw [if_neg hinit, if_neg hpending]

/-- A section keeps the order of `link_up` and the frames, if callbacks are prompt. -/
theorem told_exec {c : (linkMachine cfg).Config} {op : Op} {i : op.Inp} {r : op.Res}
    (hcalling : ∀ t, o.phase t ≠ .idle → Calling t c.state) (h : Told c.state o)
    (hG : Ringed cfg c.state (.exec t op i)) (hprompt : Prompt (c, o) (.exec t op i))
    (hrun : op.run cfg t i c.state = some (r, l')) : Told l' (o.see c (.exec t op i)) := by
  have hphase : ∀ u, (o.see c (.exec t op i)).phase u = .carrying → o.phase u = .carrying ∨
      u = t ∧ ∃ f d data, op = .held (.rx (.complete f d data)) ∧
        ((rxCompleteLocked f d data c.state).1.2 && d.payload) = true := by
    intro u hu
    simp only [UpLog.see, Machine.phases_exec (M := linkMachine cfg) hrun] at hu
    by_cases hut : u = t
    · subst hut
      rw [Function.update_self] at hu
      exact (carrying_run hrun hu).imp_right fun hadmitted ↦ ⟨rfl, hadmitted⟩
    · rw [Function.update_of_ne hut] at hu
      exact .inl hu
  have hstate : op ≠ .held (.sess .maybeUp) → l'.sh.state = .up → c.state.sh.state = .up := by
    intro hne hup
    by_contra hdown
    exact hne (publishes_of_run hrun hdown hup).1
  by_cases hbegin : op = .held (.sess .bringUpBegin)
  · subst hbegin
    have hidle : RingsIdle c.state := hG.2.2 (by simp)
    have hdown : c.state.sh.state ≠ .up := by
      intro hup
      have hrings := (hG.1.1.2.1.phased.up hup).1
      rw [hG.1.1.2.2.phase.2] at hrings
      cases hrings
    constructor
    · exact fun hup ↦ absurd (hstate (by simp) hup) hdown
    · intro u hu
      obtain hcarrying | ⟨-, f, d, data, heq, -⟩ := hphase u hu
      · exact absurd (hcalling u (by simp [hcarrying])) hidle.not_calling
      · cases heq
  have hgen : l'.sess.dataGeneration = c.state.sess.dataGeneration := generation_run hrun hbegin
  by_cases hpublish : op = .held (.base (.ctl .publishClient))
  · subst hpublish
    have hnone : ∀ u, (o.see c (.exec t (.held (.base (.ctl .publishClient))) i)).phase u ≠
        .carrying := by
      intro u hu
      obtain hcarrying | ⟨-, f, d, data, heq, -⟩ := hphase u hu
      · exact hprompt u hcarrying
      · cases heq
    constructor
    · intro hup hcl howed
      rw [hgen]
      have hup' := hstate (by simp) hup
      cases hknown : c.state.ctl.client with
      | true =>
        simp only [UpLog.see, hknown, Bool.not_true, Bool.false_and, Bool.or_false] at howed ⊢
        exact h.up hup' hknown howed
      | false => simp [UpLog.see, hknown, hup'] at howed
    · exact fun u hu ↦ absurd hu (hnone u)
  have hclient : l'.ctl.client = true → c.state.ctl.client = true := client_run hrun hpublish
  by_cases hup : op = .held (.sess .maybeUp)
  · subst hup
    obtain rfl : (maybeUpLocked cfg c.state).2 = l' := link_of_run hrun
    constructor
    · intro hup hcl howed
      simp only [UpLog.see, Bool.or_eq_false_iff, Option.isSome_eq_false_iff,
        Option.isNone_iff_eq_none] at howed
      rw [maybeUp_none howed.2] at hup
      rw [hgen]
      exact h.up hup (hclient hcl) howed.1
    · intro u hu hcl
      rw [hgen]
      obtain hcarrying | ⟨-, f, d, data, heq, -⟩ := hphase u hu
      · exact h.carried u hcarrying (hclient hcl)
      · cases heq
  by_cases hcall : ∃ info, op = .held (.sess (.upcallUp info))
  · obtain ⟨info, rfl⟩ := hcall
    have hmem : c.state.ctl.client = true → c.state.sess.dataGeneration ∈
        (o.see c (.exec t (.held (.sess (.upcallUp info))) i)).announced := by
      intro hcl
      simp [UpLog.see, hcl]
    rw [← hgen] at hmem
    exact ⟨fun _ hcl _ ↦ hmem (hclient hcl), fun _ _ hcl ↦ hmem (hclient hcl)⟩
  have hsame : (o.see c (.exec t op i)).owed = o.owed ∧
      (o.see c (.exec t op i)).announced = o.announced := by
    constructor
    all_goals
      simp only [UpLog.see]
      split
      all_goals first
        | rfl
        | (next heq =>
            cases heq
            simp at hup hcall hpublish)
  apply h.keep (hstate hup) hclient hgen hsame.1 hsame.2
  intro u hu
  obtain hcarrying | ⟨rfl, f, d, data, rfl, hadmitted⟩ := hphase u hu
  · exact .inl hcarrying
  · right
    intro hcl
    have howed : o.owed = false := hprompt (by rw [hadmitted, hcl]; rfl)
    have hstate : c.state.sh.state = .up := by
      have hup := (Bool.and_eq_true_iff.1 hadmitted).1
      simpa [rxCompleteLocked] using (Bool.and_eq_true_iff.1 hup).2
    exact h.up hstate hcl howed

/-- Every step keeps the order of `link_up` and the frames. -/
theorem told_step {c c' : (linkMachine cfg).Config} {s : (linkMachine cfg).Label}
    (hcalling : ∀ t, o.phase t ≠ .idle → Calling t c.state) (h : Told c.state o)
    (hG : Ringed cfg c.state s) (hprompt : Prompt (c, o) s)
    (hstep : (linkMachine cfg).Step c s c') : Told c'.state (o.see c s) := by
  cases hstep with
  | @start t e p l' hthread henter =>
    have hbegin := (enter_eq_some henter).2.1
    refine h.keep (fun hup ↦ (view_begin (·.sh.state) hbegin rfl).symm.trans hup)
      (view_begin (·.ctl.client) hbegin rfl).symm.trans (view_begin (·.sess.dataGeneration) hbegin rfl)
      rfl rfl fun u hu ↦ .inl ?_
    simp only [UpLog.see, Machine.phases] at hu
    by_cases hut : u = t
    · subst hut
      rw [Function.update_self] at hu
      cases e <;> cases hu
    · rwa [Function.update_of_ne hut] at hu
  | @exec t op k i r l' hthread hrun => exact told_exec hcalling h hG hprompt hrun
  | @finish t hthread =>
    refine h.keep id id rfl rfl rfl fun u hu ↦ .inl ?_
    simp only [UpLog.see, Machine.phases] at hu
    by_cases hut : u = t
    · subst hut
      rw [Function.update_self] at hu
      cases hu
    · rwa [Function.update_of_ne hut] at hu

theorem told_reach {p : (linkMachine cfg).Config × UpLog}
    (hp : (upcallRuns cfg).Reach Prompt p) : Told p.1.state p.2 := by
  have hp' : (upcallRuns cfg).Reach (fun p s ↦ Prompt p s ∧
      ∀ t, p.2.phase t ≠ .idle → Calling t p.1.state) p :=
    hp.strengthen fun _ _ _ hr _ _ ↦ calling_upcalls hr
  apply System.Reach.observe_invariant (I := fun c o ↦ Told c.state o) hp'
  · rintro c ⟨⟨random, seq, autostart, hcreate⟩, -⟩
    constructor <;> simp [hcreate, linkCreate]
  · intro c o s c' hc h hallowed hstep
    exact told_step hallowed.2 h (ringed_step hc hstep) hallowed.1 hstep

/-- In every run in which no frame is admitted while a `link_up` call is owed, and no client appears
while a callback carries a frame, the client gets a frame only after `link_up` was called for its
session. -/
theorem link_up_precedes_rx {p : (linkMachine cfg).Config × UpLog} {t : Tid} {f len : ℕ} {pdf : Pdf}
    {i : (Op.held (.rx (.upcallRx f len pdf))).Inp} {c' : (linkMachine cfg).Config}
    (hp : (upcallRuns cfg).Reach Prompt p)
    (hstep : (linkMachine cfg).Step p.1 (.exec t (.held (.rx (.upcallRx f len pdf))) i) c')
    (hclient : p.1.state.ctl.client = true) :
    (p.1.state.rx.frames f).rxGeneration ∈ p.2.announced := by
  have hcarrying : p.2.phase t = .carrying := (monitored_upcalls hp).allows_exec hstep
  have hc := hp.reachable
  have hcurrent : Current t f p.1.state :=
    (deliver_verified cfg).pre (ringed_reach hc) (ringed_step hc hstep) hstep
  rw [hcurrent.2.2]
  exact (told_reach hp).carried t hcarrying hclient

end Order

def registerSchedule : List (linkMachine budgetCfg).Act :=
  [.start (.task 2) .registerClient] ++ linkSteps (.task 2) 3 {}

/-- A completion callback comes to its `rx` call. -/
def callbackSchedule : List (linkMachine budgetCfg).Act :=
  [.start (.task 0) (.rxComplete 0 false 100 .data false {})] ++ linkSteps (.task 0) 2 {}

/-- A decidable part of `Prompt`: no client appears while any callback runs. -/
def prompt {cfg : LinkCfg} (p : (linkMachine cfg).Config × UpLog) :
    (linkMachine cfg).Label → Bool
  | .exec _ (.held (.rx (.complete _ _ _))) _ => !p.2.owed
  | .exec _ (.held (.base (.ctl .publishClient))) _ => p.1.state.hw.callbacks == []
  | _ => true

theorem prompt_of_reach {cfg : LinkCfg} {p : (linkMachine cfg).Config × UpLog}
    (hp : (upcallRuns cfg).Reach (fun p s ↦ prompt p s) p) : (upcallRuns cfg).Reach Prompt p := by
  have hp' : (upcallRuns cfg).Reach (fun p s ↦ prompt p s ∧
      ∀ t, p.2.phase t ≠ .idle → Calling t p.1.state) p :=
    hp.strengthen fun _ _ _ hr _ _ ↦ calling_upcalls hr
  apply hp'.mono
  rintro p s ⟨hprompt, hcalling⟩
  unfold prompt at hprompt
  unfold Prompt
  split at hprompt
  · exact fun _ ↦ by simpa using hprompt
  · intro t ht
    have hmem := hcalling t (by simp [ht])
    rw [Calling, beq_iff_eq.1 hprompt] at hmem
    cases hmem
  · trivial

set_option maxRecDepth 10000 in
/-- The session is published under the lock; before `link_up` is called a frame arrives and is
delivered. -/
theorem rx_before_link_up : ∃ p s c', (upcallRuns budgetCfg).Reachable p ∧
    (linkMachine budgetCfg).Step p.1 s c' ∧ deliveredBy s = some (.task 0, 0, 100, .data) ∧
    p.1.state.ctl.client = true ∧ (p.1.state.rx.frames 0).rxGeneration ∉ p.2.announced := by
  obtain ⟨p, hp, hgoal⟩ := System.Exec.reach_of_play
    ((linkMachine budgetCfg).exec.observe : (upcallRuns budgetCfg).Exec) (fun _ _ ↦ true)
    (fun p ↦ ((Machine.act p.1 (.step (.task 0) ({} : Answers).inp)).any fun x ↦
        deliveredBy x.1 == some (.task 0, 0, 100, .data)) && p.1.state.ctl.client &&
      !p.2.announced.contains (p.1.state.rx.frames 0).rxGeneration)
    (registerSchedule ++ upSchedule.take 36 ++ callbackSchedule)
    (s := ((linkMachine budgetCfg).idle _, {}))
    ⟨Machine.init_idle ⟨50, 0, true, rfl⟩, rfl⟩ (by decide +kernel)
  simp only [Bool.and_eq_true, Option.any_eq_true, beq_iff_eq, Bool.not_eq_true',
    List.contains_eq_mem, decide_eq_false_iff_not] at hgoal
  obtain ⟨⟨⟨⟨s, c'⟩, hact, hdelivered⟩, hclient⟩, hnot⟩ := hgoal
  exact ⟨p, s, c', hp.mono fun _ _ _ ↦ trivial, Machine.act_sound hact, hdelivered, hclient, hnot⟩

set_option maxRecDepth 10000 in
theorem link_up_precedes_rx_sample : ∃ p s c', (upcallRuns budgetCfg).Reach Prompt p ∧
    (linkMachine budgetCfg).Step p.1 s c' ∧ deliveredBy s = some (.task 0, 0, 100, .data) ∧
    p.1.state.ctl.client = true ∧ (p.1.state.rx.frames 0).rxGeneration ∈ p.2.announced := by
  obtain ⟨p, hp, hgoal⟩ := System.Exec.reach_of_play
    ((linkMachine budgetCfg).exec.observe : (upcallRuns budgetCfg).Exec) prompt
    (fun p ↦ ((Machine.act p.1 (.step (.task 0) ({} : Answers).inp)).any fun x ↦
        deliveredBy x.1 == some (.task 0, 0, 100, .data)) && p.1.state.ctl.client)
    (registerSchedule ++ upSchedule ++ callbackSchedule)
    (s := ((linkMachine budgetCfg).idle _, {}))
    ⟨Machine.init_idle ⟨50, 0, true, rfl⟩, rfl⟩ (by decide +kernel)
  simp only [Bool.and_eq_true, Option.any_eq_true, beq_iff_eq] at hgoal
  obtain ⟨⟨⟨s, c'⟩, hact, hdelivered⟩, hclient⟩ := hgoal
  have hprompt := prompt_of_reach hp
  have hstep := Machine.act_sound hact
  obtain ⟨i, rfl⟩ := deliveredBy_eq hdelivered
  exact ⟨p, _, c', hprompt, hstep, hdelivered, hclient, link_up_precedes_rx hprompt hstep hclient⟩

end ThunderboltStack.Tbframe
