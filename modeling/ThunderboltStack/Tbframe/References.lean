import ThunderboltStack.Tbframe.Lock

/-!
# References to a link

A link is kept by the reference of its creation, by one reference for each frame that is not on a
free list, and by the references of dispatches.  A function that puts a frame back on its free list
drops the reference of that frame later, outside `link->lock`.  Every reference is dropped by the
context that has it, and the reference of the creation is dropped once.
-/

namespace ThunderboltStack.Tbframe

open ThunderboltStack.Lib Machine

def RefPre (t : Tid) : Op → Link → Prop
  | .held (.tx .putLink), l | .held (.rx .putLink), l => t ∈ l.his.returning
  | .putLink, l => t ∈ l.his.dispatching
  | .putCreated, l => l.ctl.remover = some t ∧ l.his.created = true
  | _, _ => True

def Unremoved (l : Link) : Prop :=
  l.ctl.remover = none → l.his.created = true

section Steps

variable {cfg : LinkCfg} {t : Tid} {l l' : Link}

/-- The references that running functions have, and what became of the first one. -/
def refView (l : Link) : List Tid × List Tid × Option Tid × Bool :=
  (l.his.returning, l.his.dispatching, l.ctl.remover, l.his.created)

/-- The section puts a frame back on its free list. -/
def TxOp.returns : TxOp → Bool
  | .free _ | .complete _ _ => true
  | _ => false

@[inherit_doc TxOp.returns]
def RxOp.returns : RxOp → Bool
  | .putback _ => true
  | _ => false

theorem refView_tx {o : TxOp} {i : o.Inp} {r : o.Res} (hput : o ≠ .putLink)
    (h : o.exec cfg t l i = some (r, l')) :
    refView l' = if o.returns then (t :: l.his.returning, (refView l).2) else refView l := by
  cases o with
  | putLink => exact absurd rfl hput
  | _ =>
    simp only [TxOp.exec, allocFrameLocked, xmitLocked] at h
    (repeat' split at h) <;> cases h <;> rfl

theorem refView_rx {o : RxOp} {i : o.Inp} {r : o.Res} (hput : o ≠ .putLink)
    (h : o.exec t l i = some (r, l')) :
    refView l' = if o.returns then (t :: l.his.returning, (refView l).2) else refView l := by
  cases o with
  | putLink => exact absurd rfl hput
  | _ =>
    simp only [RxOp.exec, takeRxFree, clientPutRxRef, rxCompleteLocked] at h
    (repeat' split at h) <;> cases h <;> first
      | rfl
      | simp [refView, RxOp.returns]

/-- A held step leaves the references of dispatches and of the creation alone, and those that other
threads have. -/
theorem refs_held {o : HeldOp} {i : o.Inp} {r : o.Res} (h : o.run cfg t i l = some (r, l')) :
    (refView l').2 = (refView l).2 ∧
      ∀ u ≠ t, l'.his.returning.count u = l.his.returning.count u := by
  have hsame : refView l' = refView l → (refView l').2 = (refView l).2 ∧
      ∀ u ≠ t, l'.his.returning.count u = l.his.returning.count u :=
    fun hview ↦ ⟨congrArg (·.2) hview, fun u _ ↦ congrArg (·.1.count u) hview⟩
  have hreturn : refView l' = (t :: l.his.returning, (refView l).2) →
      (refView l').2 = (refView l).2 ∧
        ∀ u ≠ t, l'.his.returning.count u = l.his.returning.count u := by
    intro hview
    refine ⟨by rw [hview], fun u hu ↦ ?_⟩
    have hcount : l'.his.returning.count u = (t :: l.his.returning).count u :=
      congrArg (·.1.count u) hview
    rw [hcount, List.count_cons_of_ne hu.symm]
  have hput : l' = putReturned t l → (refView l').2 = (refView l).2 ∧
      ∀ u ≠ t, l'.his.returning.count u = l.his.returning.count u := by
    rintro rfl
    exact ⟨rfl, fun u hu ↦ List.count_erase_of_ne hu⟩
  cases o with
  | base o | net o | sess o => exact hsame (view_held refView h rfl)
  | tx o =>
    by_cases ho : o = .putLink
    · subst ho
      exact hput (congrArg Prod.snd (Option.some.inj h)).symm
    · have hview := refView_tx ho h
      split at hview
      · exact hreturn hview
      · exact hsame hview
  | rx o =>
    by_cases ho : o = .putLink
    · subst ho
      exact hput (congrArg Prod.snd (Option.some.inj h)).symm
    · have hview := refView_rx ho h
      split at hview
      · exact hreturn hview
      · exact hsame hview

/-- A section leaves the references of frames and dispatches alone that other threads have. -/
theorem refs_run {o : Op} {i : o.Inp} {r : o.Res} {u : Tid}
    (h : o.run cfg t i l = some (r, l')) (hne : u ≠ t) :
    l'.his.returning.count u = l.his.returning.count u ∧
      l'.his.dispatching.count u = l.his.dispatching.count u := by
  cases o with
  | held o => exact ⟨(refs_held h).2 u hne, congrArg (·.1.count u) (refs_held h).1⟩
  | putLink =>
    cases h
    exact ⟨rfl, List.count_erase_of_ne hne⟩
  | _ =>
    simp only [Op.run] at h
    (repeat' split at h) <;> cases h <;> first
      | exact ⟨rfl, rfl⟩
      | exact ⟨rfl, List.count_cons_of_ne hne.symm⟩

theorem created_run {o : Op} {i : o.Inp} {r : o.Res} (h : o.run cfg t i l = some (r, l')) :
    l'.ctl.remover = l.ctl.remover ∧ (o ≠ .putCreated → l'.his.created = l.his.created) := by
  cases o with
  | held o =>
    have hview := (refs_held h).1
    exact ⟨congrArg (·.2.1) hview, fun _ ↦ congrArg (·.2.2) hview⟩
  | putCreated =>
    cases h
    exact ⟨rfl, fun hne ↦ absurd rfl hne⟩
  | _ =>
    simp only [Op.run] at h
    (repeat' split at h) <;> cases h <;>
      exact ⟨rfl, fun _ ↦ rfl⟩

/-- An event gives its thread at most the reference of a dispatch, or the removal of the link. -/
theorem refs_begin {e : Entry} (h : e.begin t l = some l') :
    l'.his.returning = l.his.returning ∧ l.his.dispatching.Sublist l'.his.dispatching ∧
      l'.his.created = l.his.created ∧
      (l'.ctl.remover = l.ctl.remover ∨ l.ctl.remover = none ∧ l'.ctl.remover = some t) := by
  cases e <;> simp only [Entry.begin, startWork, takeFromClient, takeFromTxRing, takeFromRxRing,
    verifyTimerFn] at h <;> (repeat' split at h) <;> cases h <;> first
    | exact ⟨rfl, List.Sublist.refl _, rfl, .inl rfl⟩
    | exact ⟨rfl, List.sublist_cons_self _ _, rfl, .inl rfl⟩
    | exact ⟨rfl, List.Sublist.refl _, rfl, .inr ⟨by assumption, rfl⟩⟩

end Steps

/-- The references that a thread may drop: those of frames that it put back, those of its
dispatches, and that of the creation. -/
structure Refs where
  returns : ℕ
  dispatches : ℕ
  removes : Bool

structure Refs.Has (t : Tid) (v : Refs) (l : Link) : Prop where
  returns : v.returns ≤ l.his.returning.count t
  dispatches : v.dispatches ≤ l.his.dispatching.count t
  removes : v.removes = true → l.ctl.remover = some t ∧ l.his.created = true

def refEffect : Effect linkSig Refs
  | .held (.tx (.free _)), v, Q => ∀ r, Q r { v with returns := v.returns + 1 }
  | .held (.tx (.complete _ _)), v, Q => ∀ r, Q r { v with returns := v.returns + 1 }
  | .held (.rx (.putback _)), v, Q => ∀ r, Q r { v with returns := v.returns + 1 }
  | .held (.tx .putLink), v, Q => ∃ k, v.returns = k + 1 ∧ Q () { v with returns := k }
  | .held (.rx .putLink), v, Q => ∃ k, v.returns = k + 1 ∧ Q () { v with returns := k }
  | .dispatchNext, v, Q => Q false v ∧ Q true { v with dispatches := v.dispatches + 1 }
  | .putLink, v, Q => ∃ k, v.dispatches = k + 1 ∧ Q () { v with dispatches := k }
  | .putCreated, v, Q => v.removes = true ∧ Q () { v with removes := false }
  | _, v, Q => ∀ r, Q r v

section Programs

variable {cfg : LinkCfg} {t : Tid} {l l' : Link} {v : Refs}

theorem Refs.Has.congr (h : v.Has t l) (hview : refView l' = refView l) : v.Has t l' := by
  simp only [refView, Prod.mk.injEq] at hview
  obtain ⟨hreturning, hdispatching, hremover, hcreated⟩ := hview
  refine ⟨hreturning ▸ h.returns, hdispatching ▸ h.dispatches, ?_⟩
  rw [hremover, hcreated]
  exact h.removes

theorem Refs.Has.returned (h : v.Has t l)
    (hview : refView l' = (t :: l.his.returning, (refView l).2)) :
    Refs.Has t { v with returns := v.returns + 1 } l' := by
  simp only [refView, Prod.mk.injEq] at hview
  obtain ⟨hreturning, hdispatching, hremover, hcreated⟩ := hview
  refine ⟨?_, hdispatching ▸ h.dispatches, by rw [hremover, hcreated]; exact h.removes⟩
  rw [hreturning, List.count_cons_self]
  exact Nat.succ_le_succ h.returns

theorem Refs.Has.put {k : ℕ} (h : v.Has t l) (hk : v.returns = k + 1) :
    t ∈ l.his.returning ∧ Refs.Has t { v with returns := k } (putReturned t l) := by
  have hcount : k + 1 ≤ l.his.returning.count t := hk ▸ h.returns
  refine ⟨List.count_pos_iff.1 (by omega), ?_, h.dispatches, h.removes⟩
  simp only [putReturned, List.count_erase_self]
  omega

/-- A thread knows the references it may drop; other threads leave them alone. -/
theorem tracks_refs : (linkMachine cfg).Tracks (fun _ _ ↦ True) Unremoved RefPre t
    (fun v ↦ v.Has t) refEffect where
  stable v := by
    rintro l l' h ⟨u, hne, hmove⟩
    cases hmove with
    | enter _ _ henter =>
      obtain ⟨hreturning, hdispatching, hcreated, hremover⟩ := refs_begin (enter_eq_some henter).2.1
      refine ⟨hreturning ▸ h.returns, Nat.le_trans h.dispatches (hdispatching.count_le t), ?_⟩
      intro hv
      obtain ⟨hsome, hc⟩ := h.removes hv
      obtain hkept | ⟨hnone, -⟩ := hremover
      · exact ⟨hkept.trans hsome, hcreated.trans hc⟩
      · simp [hsome] at hnone
    | @exec o i r _ hpre _ hrun =>
      obtain ⟨hreturning, hdispatching⟩ := refs_run hrun hne.symm
      refine ⟨hreturning ▸ h.returns, hdispatching ▸ h.dispatches, fun hv ↦ ?_⟩
      obtain ⟨hsome, hc⟩ := h.removes hv
      obtain ⟨hkept, hsame⟩ := created_run (o := o) hrun
      refine ⟨hkept.trans hsome, (hsame ?_).trans hc⟩
      -- the reference of the creation is dropped by the thread that removes the link
      rintro rfl
      have hu : l.ctl.remover = some u := hpre.1
      exact hne (Option.some.inj (hu.symm.trans hsome))
  exec o v Q h l i r l' _ hl _ hrun := by
    have hrun : o.run cfg t i l = some (r, l') := hrun
    cases o with
    | held o =>
      have hrun : o.run cfg t i l = some (r, l') := hrun
      cases o with
      | base o | net o | sess o => exact ⟨trivial, v, hl.congr (view_held refView hrun rfl), h r⟩
      | tx o =>
        have hview := fun ho ↦ refView_tx (o := o) ho hrun
        cases o with
        | putLink =>
          obtain ⟨k, hk, hQ⟩ := h
          cases hrun
          exact ⟨(hl.put hk).1, _, (hl.put hk).2, hQ⟩
        | free f | complete f canceled => exact ⟨trivial, _, hl.returned (hview nofun), h r⟩
        | _ => exact ⟨trivial, _, hl.congr (hview nofun), h r⟩
      | rx o =>
        have hview := fun ho ↦ refView_rx (o := o) ho hrun
        cases o with
        | putLink =>
          obtain ⟨k, hk, hQ⟩ := h
          cases hrun
          exact ⟨(hl.put hk).1, _, (hl.put hk).2, hQ⟩
        | putback f => exact ⟨trivial, _, hl.returned (hview nofun), h r⟩
        | _ => exact ⟨trivial, _, hl.congr (hview nofun), h r⟩
    | dispatchNext =>
      simp only [Op.run] at hrun
      split at hrun <;> cases hrun
      · refine ⟨trivial, { v with dispatches := v.dispatches + 1 },
          ⟨hl.returns, ?_, hl.removes⟩, h.2⟩
        simpa [takeDispatch] using hl.dispatches
      · exact ⟨trivial, _, hl, h.1⟩
    | putLink =>
      obtain ⟨k, hk, hQ⟩ := h
      cases hrun
      have hcount : k + 1 ≤ l.his.dispatching.count t := hk ▸ hl.dispatches
      refine ⟨List.count_pos_iff.1 (by omega), { v with dispatches := k },
        ⟨hl.returns, ?_, hl.removes⟩, hQ⟩
      simp only [putDispatch, List.count_erase_self]
      omega
    | putCreated =>
      cases hrun
      exact ⟨hl.removes h.1, { v with removes := false }, ⟨hl.returns, hl.dispatches, by simp⟩, h.2⟩
    | hwDestroy =>
      cases hrun
      exact ⟨trivial, v, hl.congr rfl, h _⟩
    | _ => exact ⟨trivial, v, hl.congr (view_run refView hrun rfl), h r⟩

/-- The references that a step under `session_lock` gets and drops. -/
abbrev heldRefs : Effect heldSig Refs :=
  refEffect.lift heldLink

theorem heldRefs_apply (o : HeldOp) (v : Refs) (Q : o.Res → Refs → Prop) :
    heldRefs o v Q ↔ refEffect (.held o) v Q :=
  Iff.rfl

attribute [local simp] heldRefs_apply refEffect liftM monadLift

theorem neutral_frameFree (f : ℕ) : (frameFree f).Neutral (heldRefs.lift txHeld) v :=
  fun Q hQ ↦ by simp [frameFree, hQ]

/-- `tbframe_core_tx_complete` drops the reference of its frame after those of the frames it
cancels. -/
theorem neutral_coreTxComplete (n : ℕ) : ∀ f canceled v,
    (coreTxComplete n f canceled).Neutral (heldRefs.lift txHeld) v := by
  induction n with
  | zero => exact fun _ _ _ Q hQ ↦ by simp [coreTxComplete, hQ]
  | succ n ih =>
    intro f canceled v Q hQ
    simp [coreTxComplete]
    intro r
    refine Prog.closed_neutral.forEach (fun g Q hQ ↦ ?_) _ _ fun _ ↦ ?_
    · simp [hQ]
      exact fun _ _ ↦ ih g true _ _ hQ
    · exact Prog.closed_neutral.forEach (ih · true _) _ _ fun _ ↦ by simp [hQ]

theorem neutral_xmit (f : ℕ) (preUp : Bool) :
    (xmit f preUp).Neutral (heldRefs.lift txHeld) v := by
  intro Q hQ
  simp [xmit]
  intro verdict
  cases verdict <;> simp [hQ]

theorem neutral_sendKeepalive (preUp : Bool) :
    (sendKeepalive preUp).Neutral (heldRefs.lift txHeld) v := by
  intro Q hQ
  simp [sendKeepalive]
  rintro caps (e | f)
  · simp [hQ]
  · simp
    refine neutral_xmit f preUp _ fun ret ↦ ?_
    simp [hQ]
    exact fun _ ↦ neutral_frameFree f _ fun _ ↦ hQ ret

theorem neutral_clientAlloc (len : ℕ) (isCtrl : Bool) :
    (clientAlloc len isCtrl).Neutral (heldRefs.lift txHeld) v := by
  intro Q hQ
  simp [clientAlloc, hQ]
  rintro _ _ (e | f) <;> simp [hQ]

theorem neutral_clientXmit (f : ℕ) : (clientXmit f).Neutral (heldRefs.lift txHeld) v := by
  intro Q hQ
  simp [clientXmit]
  exact neutral_xmit f false _ fun ret ↦ by simp [hQ]

theorem neutral_recycleRx (f : ℕ) : (recycleRx f).Neutral (heldRefs.lift rxHeld) v :=
  fun Q hQ ↦ by simp [recycleRx, putbackRx, hQ]

theorem neutral_postRxFrames (n : ℕ) : (postRxFrames n).Neutral (heldRefs.lift rxHeld) v := by
  intro Q hQ
  induction n with
  | zero => simp [postRxFrames, hQ]
  | succ n ih =>
    simp [postRxFrames]
    rintro (_ | f) <;> simp [putbackRx, hQ, ih]

theorem neutral_coreRxComplete (f : ℕ) (canceled : Bool) (len : ℕ) (pdf : Pdf) (bad : Bool)
    (data : Keepalive) :
    (coreRxComplete f canceled len pdf bad data).Neutral (heldRefs.lift rxHeld) v :=
  fun Q hQ ↦ by simp [coreRxComplete, putbackRx, hQ, neutral_recycleRx f Q hQ]

theorem neutral_clientPutRx (f : ℕ) : (clientPutRx f).Neutral (heldRefs.lift rxHeld) v :=
  fun Q hQ ↦ by simp [clientPutRx, hQ, neutral_recycleRx f Q hQ]

theorem neutral_net {α : Type} (p : NetProg α) : (p.lift netHeld).Neutral heldRefs v :=
  Prog.neutral_of_all (all_net (fun _ _ hQ ↦ hQ) (fun _ _ hQ ↦ hQ) p)

theorem neutral_heldCode : HeldCode fun _ p ↦ p.Neutral heldRefs v :=
  heldCode_neutral fun _ _ hQ ↦ hQ

theorem neutral_partCode : PartCode cfg fun _ p ↦ p.Neutral heldRefs v where
  toHeldCode := neutral_heldCode
  sess _ _ hQ := hQ
  net p _ := neutral_net p
  flush := neutral_net _
  post n := (neutral_postRxFrames n).lift
  probe := (neutral_sendKeepalive true).lift
  quiesce reason d Q hQ := by
    have hflush := fun n flush ↦ Prog.closed_neutral.forEach
      (fun f ↦ (neutral_coreTxComplete n f true v).lift) flush
    simp [downQuiesce]
    exact ⟨fun flush n ↦ hflush n flush _ fun _ ↦ by simp [hQ],
      fun flush n ↦ hflush n flush _ fun _ ↦ by simp [hQ]⟩

theorem neutral_withSessionLock {α : Type} {p : HeldProg α} (h : p.Neutral heldRefs v) :
    (withSessionLock p).Neutral refEffect v := by
  intro Q hQ
  simp [withSessionLock]
  exact h _ hQ

theorem neutral_eventCode : EventCode cfg fun _ p ↦ ∀ v, p.Neutral refEffect v where
  toClosed := .all fun _ ↦ Prog.closed_neutral
  base p _ := (neutral_heldCode.base p).lift
  down reason _ := neutral_withSessionLock (neutral_partCode.stepCode.down reason .local)
  walk hp v Q hQ := by
    simp [walkPass, hQ]
    exact hp _ _ fun _ ↦ by simp [hQ]

/-- `tbframe_link_destroy` drops the reference of the creation once. -/
theorem wlp_serviceRemove (isUnplugged : Bool) {Q : Unit → Refs → Prop} (hQ : ∀ v, Q () v) :
    (serviceRemove cfg isUnplugged).wlp refEffect Q ⟨0, 0, true⟩ := by
  simp [serviceRemove, linkDestroy]
  refine neutral_eventCode.down _ _ _ fun ret ↦ ?_
  simp [hQ]

end Programs

/-- In every run, references are dropped by the contexts that have them. -/
theorem ref_verified (cfg : LinkCfg) :
    (linkMachine cfg).Verified (fun _ _ ↦ True) Unremoved RefPre where
  init l h := by
    obtain ⟨random, requestSeq, autostart, rfl⟩ := h
    exact fun _ ↦ rfl
  enter t e l p l' hI _ henter := by
    obtain ⟨-, hbegin, rfl⟩ := enter_eq_some henter
    obtain ⟨-, -, hcreated, hremover⟩ := refs_begin hbegin
    have hI' : Unremoved l' := by
      intro hnone
      obtain hkept | ⟨-, hsome⟩ := hremover
      · exact hcreated.trans (hI (hkept.symm.trans hnone))
      · rw [hnone] at hsome
        cases hsome
    refine ⟨hI', ?_⟩
    have hC : EventCode cfg _ := neutral_eventCode
    have hdone : ∀ v, (Prog.call (S := linkSig) .callbackDone).Neutral refEffect v :=
      fun _ _ hQ ↦ hQ
    have hprog : ∀ {v : Refs}, (e.prog cfg).wlp refEffect (fun _ _ ↦ True) v → v.Has t l' →
        (linkMachine cfg).wp (fun _ _ ↦ True) Unremoved RefPre t (e.prog cfg) (fun _ _ ↦ True) l' :=
      fun hp hv ↦ (tracks_refs.triple hp).post (fun _ _ _ _ ↦ trivial) l' hv
    have hneutral : (∀ v, (e.prog cfg).Neutral refEffect v) →
        (linkMachine cfg).wp (fun _ _ ↦ True) Unremoved RefPre t (e.prog cfg) (fun _ _ ↦ True) l' :=
      fun h ↦ hprog (h ⟨0, 0, false⟩ _ fun _ ↦ trivial) ⟨Nat.zero_le _, Nat.zero_le _, by simp⟩
    cases e with
    | verifyWork =>
      exact hneutral (hC.bind (fun _ ↦ (neutral_heldCode.verifyStep
        (neutral_sendKeepalive false).lift).lift) fun _ ↦ hC.base _)
    | packet m =>
      refine hprog (v := ⟨0, 1, false⟩) ((Prog.wlp_bind ..).mpr
        ((neutral_net _).lift _ fun _ ↦ ⟨0, rfl, trivial⟩)) ⟨Nat.zero_le _, ?_, by simp⟩
      simp only [Entry.begin] at hbegin
      split at hbegin <;> cases hbegin
      exact Nat.succ_le_of_lt (List.count_pos_iff.2 List.mem_cons_self)
    | txComplete f canceled =>
      exact hneutral (hC.bind (hC.base _) fun n ↦ hC.bind
        (fun v ↦ (neutral_coreTxComplete n f canceled v).lift.lift) fun _ ↦ hdone)
    | rxComplete f canceled len pdf bad data =>
      exact hneutral (hC.bind
        (fun _ ↦ (neutral_coreRxComplete f canceled len pdf bad data).lift.lift) fun _ ↦ hdone)
    | allocFrame len isCtrl => exact hneutral fun _ ↦ (neutral_clientAlloc len isCtrl).lift.lift
    | xmit f => exact hneutral fun _ ↦ (neutral_clientXmit f).lift.lift
    | frameFree f => exact hneutral fun _ ↦ (neutral_frameFree f).lift.lift
    | putRx f => exact hneutral fun _ ↦ (neutral_clientPutRx f).lift.lift
    | serviceRemove isUnplugged =>
      refine hprog (wlp_serviceRemove isUnplugged fun _ ↦ trivial)
        ⟨Nat.zero_le _, Nat.zero_le _, fun _ ↦ ?_⟩
      simp only [Entry.begin] at hbegin
      split at hbegin <;> cases hbegin
      next hnone => exact ⟨rfl, hI hnone⟩
    | _ =>
      exact hneutral (hC.other rfl
        (fun _ _ ↦ neutral_withSessionLock neutral_partCode.stepCode.sessionStepLocked)
        (by simp) (by simp))
  exec t o i l r l' hI hpre _ hrun := by
    obtain ⟨hremover, hcreated⟩ := created_run (o := o) hrun
    intro hnone
    have hnone' : l.ctl.remover = none := hremover.symm.trans hnone
    refine (hcreated ?_).trans (hI hnone')
    rintro rfl
    simp [hpre.1] at hnone'

end ThunderboltStack.Tbframe
