import ThunderboltStack.Tbframe.Rings

/-!
# The loss model

`tbframe.h` promises its clients that a frame is never silently lost while a link is UP: a frame
that `tbframe_xmit` accepted is completed by the ring, or it is cancelled once the link left UP.

Frames are cancelled by stopped rings, by a session that goes down, and by a completion whose refill
of the ring fails.  The first two happen only when the rings are *spent*: they were stopped, or the
link left UP, since they were started last.  Rings are started only when the last completion
callback of their previous use returned, so a thread that cancels frames keeps the rings spent.  The
third one cancels accepted frames of a link that stays UP.
-/

namespace ThunderboltStack.Tbframe

open ThunderboltStack.Lib Machine

/-- The step is not the one after a failed refill on a link that is still UP. -/
def refillCovered {cfg : LinkCfg} (l : Link) : (linkMachine cfg).Label → Bool
  | .exec _ (.held (.tx (.refillErr _))) _ => l.sh.state != .up
  | _ => true

def LossGuard (cfg : LinkCfg) : (linkMachine cfg).Guard :=
  fun l s ↦ refillCovered l s ∧ Settled cfg l s

section Programs

variable {cfg : LinkCfg} {t : Tid} {α : Type}

theorem loss_ringProof : RingProof cfg (LossGuard cfg) LossPre where
  settled _ _ hG := hG.2
  pre o l hring hspent := by
    by_cases hcancel : ∃ f, o = .held (.tx (.complete f true))
    · obtain ⟨f, rfl⟩ := hcancel
      exact hspent f rfl
    · exact hring fun f hf ↦ hcancel ⟨f, hf⟩

/-- What a thread inside a completion callback knows: nothing more, that the rings are spent or
belong to a link that is UP, or that they are spent. -/
inductive Callback
  | calling
  | refills
  | cancels

/-- `t` is inside a completion callback and knows what it says about the rings. -/
def Callback.In (t : Tid) (l : Link) : Callback → Prop
  | .calling => Calling t l
  | .refills => (l.sh.state = .up ∨ l.his.spent = true) ∧ Calling t l
  | .cancels => l.his.spent = true ∧ Calling t l

def Callback.entered (canceled : Bool) : Callback :=
  if canceled then .cancels else .calling

/-- What the steps of a callback find and what the thread knows after them.  A completion that is
not cancelled flushes nothing, and a refill that fails does so on a link that left UP. -/
def callbackEffect : Effect heldSig Callback
  | .tx (.complete _ false), .calling, Q => ∀ r : TxLocals, r.flush = [] →
      (r.next = none → Q r .calling) ∧ (r.next ≠ none → Q r .refills)
  | .tx (.complete _ true), v, Q => v = .cancels ∧ ∀ r, Q r v
  | .tx (.refillErr _), .refills, Q => Q () .cancels
  | .tx _, v, Q | .base _, v, Q => ∀ r, Q r v
  | _, _, _ => False

theorem Callback.In.keep {v : Callback} {l l' : Link} (h : v.In t l) (hcalling : Calling t l')
    (hspent : (l.his.spent = true → l'.his.spent = true) ∧
      (l.sh.state = .up → l'.sh.state = .up ∨ l'.his.spent = true)) : v.In t l' := by
  cases v with
  | calling => exact hcalling
  | refills => exact ⟨h.1.elim hspent.2 fun h ↦ .inr (hspent.1 h), hcalling⟩
  | cancels => exact ⟨hspent.1 h.1, hcalling⟩

theorem Callback.In.calling {v : Callback} {l : Link} (h : v.In t l) : Calling t l := by
  cases v <;> first | exact h | exact h.2

/-- A completion that is not cancelled flushes nothing, and refills only a link that is UP. -/
theorem txRefill_completed (cfg : LinkCfg) (t : Tid) (l : Link) : (txRefill cfg t false l).2.1 = [] ∧
    ∀ n, (txRefill cfg t false l).1 = some n → l.sh.state = .up := by
  unfold txRefill
  split
  · simp
  split
  · next hup =>
    simp only [Bool.and_eq_true, beq_iff_eq] at hup
    split
    · simp
    · exact ⟨rfl, fun _ _ ↦ hup.1.2⟩
  · simp

/-- A completion callback knows whether it may refill or cancel. -/
theorem tracks_callback : (linkMachine cfg).Tracks (LossGuard cfg) Lossless (fun _ ↦ LossPre) t
    (fun v l ↦ v.In t l) (heldEffect callbackEffect) where
  stable v := by
    rintro l l' hl ⟨u, hne, hmove⟩
    refine hl.keep (calling_move hne hmove hl.calling) ?_
    cases hmove with
    | enter _ _ henter =>
      have hbegin := (enter_eq_some henter).2.1
      rw [view_begin (·.his.spent) hbegin rfl, view_begin (·.sh.state) hbegin rfl]
      exact ⟨id, .inl⟩
    | exec _ hpre _ hrun =>
      -- the rings are not started while a callback runs
      refine spent_run hrun ?_
      rintro rfl
      exact absurd hl.calling (RingsIdle.not_calling hpre)
  exec o v Q h l i r l' hI hl hG hrun := by
    cases o with
    | held o =>
      have hrun : o.run cfg t i l = some (r, l') := hrun
      have hcalling := calling_held hl.calling hrun
      have hspent := fun ho : ∀ s, o ≠ .sess s ↦
        spent_run (show (Op.held o).run cfg t i l = some (r, l') from hrun)
          (by simpa using ho .startRings)
      have hkeep := fun ho ↦ hl.keep hcalling (hspent ho)
      cases o with
      | base o => exact ⟨trivial, v, hkeep nofun, h r⟩
      | tx o =>
        have hkept := hkeep nofun
        cases o with
        | complete f canceled =>
          cases canceled with
          | true =>
            obtain ⟨rfl, hQ⟩ := h
            exact ⟨hl.1, _, hkept, hQ r⟩
          | false =>
            refine ⟨trivial, ?_⟩
            cases v with
            | calling =>
              obtain ⟨rfl, rfl⟩ := Prod.mk.inj (Option.some.inj hrun)
              obtain ⟨hflush, hup⟩ := txRefill_completed cfg t
                (txReturn t f { l with tx := txUnpost f false l.tx }).2
              obtain ⟨hnone, hsome⟩ := h (txCompleteLocked cfg t f false l).1 hflush
              cases hnext : (txCompleteLocked cfg t f false l).1.next with
              | none => exact ⟨.calling, hcalling, hnone hnext⟩
              | some n => exact ⟨.refills, ⟨.inl (hup n hnext), hcalling⟩, hsome (by simp [hnext])⟩
            | _ => exact ⟨_, hkept, h r⟩
        | refillErr f =>
          refine ⟨trivial, ?_⟩
          cases v with
          | refills =>
            have hdown : l.sh.state ≠ .up := by simpa [refillCovered] using hG.1
            exact ⟨.cancels, ⟨(hspent nofun).1 (hl.1.resolve_left hdown), hcalling⟩, h⟩
          | _ => exact ⟨_, hkept, h r⟩
        | _ => exact ⟨trivial, v, hkept, h r⟩
      | _ => exact h.elim
    | _ => exact h.elim

attribute [local simp] callbackEffect liftM monadLift

/-- A callback cancels frames only if the ring did so or its refill failed. -/
theorem wlp_coreTxComplete {n f : ℕ} {canceled : Bool} {Q : Unit → Callback → Prop}
    (hQ : ∀ v, Q () v) :
    ((coreTxComplete n f canceled).lift txHeld).wlp callbackEffect Q (.entered canceled) := by
  have hcancels : ∀ {α : Type} {Q : α → Callback → Prop} (p : TxProg α), (∀ a, Q a .cancels) →
      (p.lift txHeld).wlp callbackEffect Q .cancels := fun p hQ ↦
    Prog.wlp_of_all (all_tx (fun _ _ h ↦ h) (fun o _ h ↦ by
      cases o with
      | complete f canceled => cases canceled <;> first | exact h | exact ⟨rfl, h⟩
      | _ => exact h) p) hQ
  cases canceled with
  | true => exact hcancels _ fun _ ↦ hQ _
  | false =>
    cases n with
    | zero => exact fun _ ↦ hQ _
    | succ n =>
      simp [coreTxComplete, Callback.entered]
      rintro ⟨release, next, flush⟩ rfl
      cases next with
      | none => simp [Prog.forEach, hQ]
      | some next =>
        simp [Prog.forEach, hQ]
        exact fun _ _ ↦ (Prog.wlp_lift ..).mp (hcancels _ fun _ ↦ trivial)

theorem lossSafe_sends (o : TxOp) (ho : o.sends) :
    (linkMachine cfg).Safe (LossGuard cfg) Lossless (fun _ ↦ LossPre) t (txEntry (tx o)) := by
  refine .of_all ⟨fun l ↦ ?_, fun _ ↦ trivial⟩
  cases o <;> trivial

end Programs

/-- In every run in which no refill fails on a link that stays UP, frames are cancelled only for
spent rings. -/
theorem loss_verified (cfg : LinkCfg) :
    (linkMachine cfg).Verified (LossGuard cfg) Lossless fun _ ↦ LossPre where
  init _ h := lossless_init h
  enter t e l p l' hI _ henter := by
    obtain ⟨-, hbegin, rfl⟩ := enter_eq_some henter
    refine ⟨lossless_begin hI hbegin, ?_⟩
    have hbase : ∀ {α : Type} (p : BaseProg α),
        (linkMachine cfg).Safe (LossGuard cfg) Lossless (fun _ ↦ LossPre) t (baseEntry p) :=
      safe_free fun _ _ ↦ trivial
    have hS : SendCode fun _ p ↦ (linkMachine cfg).Safe (LossGuard cfg) Lossless
        (fun _ ↦ LossPre) t (p.lift heldLink) :=
      { heldCode_safe hbase with
        tx := fun o ho ↦ lossSafe_sends o (by cases o <;> first | rfl | cases ho) }
    have hfree := fun f ↦ hS.frameFree (lossSafe_sends (.free f) rfl)
    cases he : e.domain with
    | tx =>
      cases e with
      | verifyWork =>
        have hkeepalive := hS.sendKeepalive (fun f ↦ lossSafe_sends (.xmit f false) rfl) hfree
        exact Safe.bind (hS.verifyStep hkeepalive) (fun _ ↦ hbase _) l' trivial
      | txComplete f canceled =>
        have hin : (Callback.entered canceled).In t l' := by
          simp only [Entry.begin, takeFromTxRing] at hbegin
          split at hbegin <;> cases hbegin
          next htaken =>
          cases canceled with
          | true => exact ⟨hI.stopped (by simpa using htaken.2), List.mem_cons_self⟩
          | false => exact List.mem_cons_self
        refine Triple.bind (tracks_callback.triple (Q := fun _ v ↦ v = .entered canceled)
          (wlp_held (p := (ctl .turns).lift baseHeld) fun _ ↦ rfl)) (fun n ↦ ?_) l' hin
        refine Triple.bind (fun l hl ↦ tracks_callback.triple (wlp_held
          (wlp_coreTxComplete (Q := fun _ _ ↦ True) fun _ ↦ trivial)) l
          (hl.elim fun _ h ↦ h.2 ▸ h.1)) fun _ ↦ ?_
        exact Safe.pre (safe_call (o := .callbackDone) fun _ ↦ trivial)
      | allocFrame len isCtrl =>
        exact hS.clientAlloc len isCtrl l' trivial
      | xmit f => exact hS.clientXmit (lossSafe_sends _ rfl) l' trivial
      | frameFree f => exact hfree f l' trivial
      | _ => cases he
    | rx =>
      exact safe_onRx (safe_free fun o _ ↦ by cases o <;> trivial) (fun _ ↦ trivial) he l' trivial
    | other =>
      exact safe_prog hbase
        (ringSafe_withSessionLock loss_ringProof fun _ hv ↦ RingUse.wlp_sessionStep hv fun _ ↦ id)
        (fun _ ↦ ringSafe_withSessionLock loss_ringProof fun _ hv ↦
          RingUse.wlp_downSession hv fun _ _ ↦ id)
        ⟨fun _ ↦ trivial, fun _ ↦ trivial, fun _ ↦ trivial⟩ (fun _ ↦ trivial) he
        (fun m _ ↦ safe_free (fun o _ ↦ by cases o <;> trivial) _)
        l' trivial
  exec t o i l r l' hI hpre hG hrun := lossless_run hI hG.2 (fun _ ↦ hpre) hrun

/-- In every run in which no refill fails on a link that stays UP, a frame that `tbframe_xmit`
accepted is pending, and the step that ends this completes it uncancelled, reports to its sender
that the ring refused it, or takes the link out of UP. -/
theorem accepted_frames_survive {cfg : LinkCfg} {c c' : (linkMachine cfg).Config}
    {s : (linkMachine cfg).Label} {f : ℕ}
    (hc : (linkMachine cfg).Reach (fun l s ↦ refillCovered l s) c)
    (hstep : (linkMachine cfg).Step c s c') (hf : f ∈ c.state.his.accepted) :
    c.state.sh.state = .up ∧ (c.state.tx.frames f).loc.pending ∧
      (f ∈ c'.state.his.accepted ∨
        (∃ t i, s = .exec t (.held (.tx (.complete f false))) i) ∨
        (∃ t i, s = .exec t (.held (.tx (.ringErr f))) i) ∨ c'.state.sh.state ≠ .up) := by
  have hreach : (linkMachine cfg).Reach (LossGuard cfg) c := settled_reach hc
  obtain ⟨hlossless, -⟩ := (loss_verified cfg).sound hreach
  have hup : c.state.sh.state = .up := by
    by_contra hdown
    rw [hlossless.down hdown] at hf
    cases hf
  refine ⟨hup, hlossless.pending f hf, ?_⟩
  cases hstep with
  | @start t e p l' _ henter =>
    left
    rw [view_begin (·.his.accepted) (enter_eq_some henter).2.1 rfl]
    exact hf
  | @exec t o k i r l' hthread hrun =>
    have hstep := Machine.Step.exec hthread hrun
    cases o with
    | held o =>
      obtain hkept | rfl | ⟨canceled, rfl⟩ | hdown := accepted_held hrun hf
      · exact .inl hkept
      · exact .inr (.inr (.inl ⟨t, i, rfl⟩))
      · cases canceled with
        | false => exact .inr (.inl ⟨t, i, rfl⟩)
        | true =>
          -- the frame would be cancelled on a link that is UP
          have hspent : c.state.his.spent = true := (loss_verified cfg).pre hreach
            ⟨rfl, settled_step (hc.mono fun _ _ _ ↦ trivial) hstep⟩ hstep
          exact absurd hup (hlossless.spent hspent)
      · exact .inr (.inr (.inr hdown))
    | _ =>
      simp only [Op.run] at hrun
      (repeat' split at hrun) <;> cases hrun <;>
        exact .inl hf
  | finish _ => exact .inl hf

/-! ## A refill that fails -/

/-- A link that keeps at most one frame in its ring and does not prove its data path. -/
def budgetCfg : LinkCfg :=
  { sampleCfg .b with tf := { (sampleCfg .b).tf with dataProof := false, txRingBudget := 1 } }

def upSchedule : List (linkMachine budgetCfg).Act :=
  [.start .session .sessionWork] ++ linkSteps .session 6 {} ++
    linkSteps .session 1 (peerAnswer .helloAck 1) ++ linkSteps .session 24 {} ++
    linkSteps .session 1 (peerAnswer .readyAck 2) ++ linkSteps .session 8 {}

/-- The client allocates frame `f` and sends it, in `n` steps. -/
def sendSchedule (f n : ℕ) : List (linkMachine budgetCfg).Act :=
  [.start (.task 0) (.allocFrame 8 true)] ++ linkSteps (.task 0) 3 {} ++
  [.start (.task 0) (.xmit f)] ++ linkSteps (.task 0) n {}

/-- One frame is sent to the ring and another one to the backlog; the first one is completed. -/
def backlogSchedule : List (linkMachine budgetCfg).Act :=
  upSchedule ++ sendSchedule 0 5 ++ sendSchedule 1 4 ++
    [.start (.task 1) (.txComplete 0 false)] ++ linkSteps (.task 1) 2 {}

def refusedSchedule : List (linkMachine budgetCfg).Act :=
  backlogSchedule ++ linkSteps (.task 1) 1 {} ++ linkSteps (.task 1) 1 { ret := -5 } ++
    linkSteps (.task 1) 2 {}

def completionAct : (linkMachine budgetCfg).Act :=
  .step (.task 1) ({} : Answers).inp

def completedBy {cfg : LinkCfg} : (linkMachine cfg).Label → Option (ℕ × Bool)
  | .exec _ (.held (.tx (.complete f canceled))) _ => some (f, canceled)
  | _ => none

theorem completedBy_eq {cfg : LinkCfg} {s : (linkMachine cfg).Label} {f : ℕ} {canceled : Bool}
    (h : completedBy s = some (f, canceled)) :
    ∃ t i, s = .exec t (.held (.tx (.complete f canceled))) i := by
  unfold completedBy at h
  split at h
  · cases h
    exact ⟨_, _, rfl⟩
  · cases h

set_option maxRecDepth 10000 in
/-- A frame that `tbframe_xmit` accepted is cancelled, and the link is UP before and after. -/
theorem accepted_frame_canceled_while_up : ∃ c c' t f i,
    (linkMachine budgetCfg).system.Reachable c ∧
    (linkMachine budgetCfg).Step c (.exec t (.held (.tx (.complete f true))) i) c' ∧
    f ∈ c.state.his.accepted ∧ c.state.sh.state = .up ∧ c'.state.sh.state = .up := by
  obtain ⟨c, hc, hgoal⟩ := System.Exec.reach_of_play (linkMachine budgetCfg).exec
    (fun _ _ ↦ true)
    (fun c ↦ c.state.his.accepted == [1] && c.state.sh.state == .up &&
      (Machine.act c completionAct).any fun x ↦
        completedBy x.1 == some (1, true) && x.2.state.sh.state == .up)
    refusedSchedule (Machine.init_idle ⟨50, 0, true, rfl⟩) (by decide +kernel)
  simp only [Bool.and_eq_true, beq_iff_eq, Option.any_eq_true] at hgoal
  obtain ⟨⟨haccepted, hup⟩, ⟨s, c'⟩, hact, hcanceled, hup'⟩ := hgoal
  obtain ⟨t, i, rfl⟩ := completedBy_eq hcanceled
  exact ⟨c, c', t, 1, i, hc.mono fun _ _ _ ↦ trivial, Machine.act_sound hact, by simp [haccepted],
    hup, hup'⟩

set_option maxRecDepth 10000 in
theorem accepted_frames_survive_sample : ∃ c s c',
    (linkMachine budgetCfg).Reach (fun l s ↦ refillCovered l s) c ∧
    (linkMachine budgetCfg).Step c s c' ∧ c.state.his.accepted = [1, 0] ∧
    completedBy s = some (0, false) ∧ c.state.sh.state = .up ∧
    (c.state.tx.frames 1).loc.pending ∧ (1 ∈ c'.state.his.accepted ∨
      (∃ t i, s = .exec t (.held (.tx (.complete 1 false))) i) ∨
      (∃ t i, s = .exec t (.held (.tx (.ringErr 1))) i) ∨ c'.state.sh.state ≠ .up) := by
  obtain ⟨c, hc, hgoal⟩ := System.Exec.reach_of_play (linkMachine budgetCfg).exec
    (fun c s ↦ refillCovered c.state s)
    (fun c ↦ c.state.his.accepted == [1, 0] && (Machine.act c completionAct).any fun x ↦
      completedBy x.1 == some (0, false))
    backlogSchedule (Machine.init_idle ⟨50, 0, true, rfl⟩) (by decide +kernel)
  simp only [Bool.and_eq_true, beq_iff_eq, Option.any_eq_true] at hgoal
  obtain ⟨haccepted, ⟨s, c'⟩, hact, hcompleted⟩ := hgoal
  have hstep := Machine.act_sound hact
  exact ⟨c, s, c', hc, hstep, haccepted, hcompleted,
    accepted_frames_survive hc hstep (by simp [haccepted])⟩

end ThunderboltStack.Tbframe
