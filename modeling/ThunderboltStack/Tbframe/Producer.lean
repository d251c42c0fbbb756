import ThunderboltStack.Lib.Observe
import ThunderboltStack.Tbframe.Backlog
import ThunderboltStack.Tbframe.FramePool
import ThunderboltStack.Tbframe.Stock

/-!
# Refused producers

An allocation that finds its window full sets `tx_blocked`.  The next frame that comes back while
the session is established takes the flag down and queues the `tx_released` work, which tells the
client to try again.

`tbframe_core_tx_complete` takes the flag down for a cancelled frame too, but does not queue the
work then.  On an established link this happens when a refill from the backlog is refused by the
ring.  In all other runs a refused producer is told: until the work is queued, the flag stays set
and a frame stays charged to a window, or a thread that took the flag down has still to queue the
work.
-/

namespace ThunderboltStack.Tbframe

open ThunderboltStack.Lib

/-! ## The duty to queue the work -/

/-- The section took `tx_blocked` down for its thread, which has to queue the work. -/
def HeldOp.Wakes : (o : HeldOp) → o.Res → Prop
  | .tx (.complete _ _), r => TxLocals.release r = true
  | .tx (.free _), r => r = true
  | _, _ => False

/-- The section queues the `tx_released` work, or is the end of a thread that used up its turns. -/
def HeldOp.QueuesReleased : HeldOp → Prop
  | .base (.ctl .queueTxReleased) => True
  | .base o => o.halts
  | _ => False

/-- The duty of a thread that took `tx_blocked` down. -/
def heldWakes : Duties heldSig Unit where
  takes o r _ := o.Wakes r
  meets _ o := o.QueuesReleased

@[inherit_doc heldWakes]
def linkWakes : Duties linkSig Unit where
  takes
    | .held o, r, _ => o.Wakes r
    | _, _, _ => False
  meets _
    | .held o => o.QueuesReleased
    | _ => False

section Programs

variable {cfg : LinkCfg}

/-- A section that does not take the flag down can be forgotten. -/
theorem answers_unwoken {o : HeldOp} (ho : ∀ r, ¬ o.Wakes r) :
    (Prog.call (S := heldSig) o).Answers heldWakes :=
  fun r ↦ ⟨fun _ hr ↦ absurd hr (ho r), trivial⟩

theorem answers_wakeBase {α : Type} (p : BaseProg α) : (p.lift baseHeld).Answers heldWakes :=
  .of_all (all_base (fun _ _ _ ↦ id) p)

theorem wakes_frameFree (f : ℕ) : ((frameFree f).lift txHeld).Answers heldWakes := by
  simp only [frameFree, Prog.lift_bind, Prog.lift_when]
  refine .lift_call_bind (e := txHeld) (o := .tx (.free f)) fun release ↦ ⟨fun _ hr ↦ ?_, ?_⟩
  · have hrelease : release = true := hr
    subst hrelease
    exact .inl trivial
  · exact .bind (.when (answers_wakeBase (ctl .queueTxReleased))) fun _ ↦
      answers_unwoken (o := .tx .putLink) fun _ ↦ id

/-- A completion callback that wakes the producer queues the work for it. -/
theorem wakes_coreTxComplete (n f : ℕ) (canceled : Bool) :
    ((coreTxComplete n f canceled).lift txHeld).Answers heldWakes := by
  induction n generalizing f canceled with
  | zero => exact answers_wakeBase (ctl .halt)
  | succ n ih =>
    simp only [coreTxComplete, Prog.lift_bind, Prog.lift_forEach, Prog.lift_when]
    apply Prog.Answers.bind (answers_wakeBase (hw .enter))
    intro _
    refine .lift_call_bind (e := txHeld) (o := .tx (.complete f canceled)) fun r ↦
      ⟨fun _ hr ↦ ?_, ?_⟩
    · -- the refill and the flush come first
      have hrelease : r.release = true := hr
      refine .of_bind _ fun _ ↦ .of_bind _ fun _ ↦ .of_bind _ fun _ ↦ .bind ?_ _
      simp only [hrelease, Prog.when, if_true]
      exact .inl trivial
    · refine .bind (.forEach (fun next ↦ ?_) _) fun _ ↦ ?_
      · apply Prog.Answers.bind (answers_unwoken (o := .tx (.ringTx next)) fun _ ↦ id)
        intro ret
        exact .when (.bind (answers_unwoken (o := .tx (.refillErr next)) fun _ ↦ id)
          fun _ ↦ ih next true)
      · apply Prog.Answers.bind (answers_wakeBase (hw .leave))
        intro _
        apply Prog.Answers.bind (.forEach (fun g ↦ ih g true) _)
        intro _
        apply Prog.Answers.bind (.when (answers_wakeBase (ctl .queueTxReleased)))
        exact fun _ ↦ answers_unwoken (o := .tx .putLink) fun _ ↦ id

theorem singles_heldWakes : HeldSingles fun _ p ↦ p.Answers heldWakes where
  toClosed := Prog.closed_answers heldWakes
  single o ho := by
    apply answers_unwoken
    intro r hr
    cases o with
    | tx o => cases o <;> first | exact hr | exact ho
    | _ => exact hr
  free := wakes_frameFree
  complete := wakes_coreTxComplete
  flush hk := by
    apply Prog.Answers.bind (answers_unwoken (o := .tx .splice) fun _ ↦ id)
    intro flush
    apply Prog.Answers.bind (answers_wakeBase (ctl .turns))
    intro n
    exact .bind (.forEach (fun f ↦ wakes_coreTxComplete n f true) _) hk

theorem closed_linkWakes :
    LinkClosed cfg (fun _ p ↦ p.Answers heldWakes) fun _ p ↦ p.Answers linkWakes where
  toClosed := Prog.closed_answers linkWakes
  held := singles_heldWakes.closed
  onHeld hp := hp.lift (fun _ _ _ ↦ id) fun _ _ ↦ id
  call o ho r := by
    refine ⟨fun _ hr ↦ ?_, trivial⟩
    cases o with
    | held o => exact absurd rfl (ho o)
    | _ => exact hr.elim

/-- In every run, a thread that took the flag down goes on to queue the work. -/
theorem wakes_dutiful (cfg : LinkCfg) :
    (linkMachine cfg).Dutiful (fun _ _ ↦ True) linkWakes fun _ _ _ ↦ False where
  init _ _ _ _ := id
  enter t e l p l' _ henter := by
    rw [(enter_eq_some henter).2.2]
    exact ⟨closed_linkWakes.prog_of_singles singles_heldWakes e, fun _ _ ↦ False.elim⟩
  exec _ _ _ _ _ _ _ _ _ _ := False.elim

end Programs

/-! ## Producers that wait -/

/-- Whether a client was refused a frame in this session and no `tx_released` work was queued since.
The calls of the client are made on tasks. -/
def producerSee {cfg : LinkCfg} (c : (linkMachine cfg).Config) (s : (linkMachine cfg).Label)
    (waiting : Bool) : Bool :=
  match s with
  | .exec (.task k) (.held (.tx (.alloc len isCtrl false))) _ =>
      match (allocFrameLocked (.task k) len isCtrl false c.state).1 with
      | .error e => waiting || e == enospc
      | .ok _ => waiting
  | .exec _ (.held (.base (.ctl .queueTxReleased))) _ => false
  | .exec _ (.held (.sess .maybeUp)) _ => waiting && c.state.sh.state == .up
  | _ => waiting

/-- The runs of a link with the refused producers. -/
def producerRuns (cfg : LinkCfg) :
    System ((linkMachine cfg).Config × Bool) (linkMachine cfg).Label :=
  (linkMachine cfg).system.observe false producerSee

/-- A thread has still to queue the `tx_released` work. -/
def WakeDue {cfg : LinkCfg} (c : (linkMachine cfg).Config) : Prop :=
  ∃ t p, c.thread t = some p ∧ p.Meets (linkWakes.meets ())

/-- No frame is cancelled on an established link while a producer waits and no thread has to queue
the work. -/
def Notified {cfg : LinkCfg} (p : (linkMachine cfg).Config × Bool) :
    (linkMachine cfg).Label → Prop
  | .exec _ (.held (.tx (.complete _ true))) _ =>
      p.2 = true → p.1.state.sh.state = .up → p.1.state.sh.removing = false → WakeDue p.1
  | _ => True

def Blocked (l : Link) : Prop :=
  l.tx.txBlocked = true ∧ 0 < l.tx.ctrlInflight + l.tx.dataInflight

section Steps

variable {cfg : LinkCfg} {t : Tid} {l l' : Link}

def Windowed (l : Link) : Prop :=
  l.sess.ringsUp = true → 0 < l.sess.dataWindow

theorem linkWindow_pos (tf : Tf) (entries : UInt16) : 0 < linkWindow tf entries := by
  simp only [linkWindow]
  split <;> omega

theorem windowed_sess (o : SessOp) (i : o.Inp) (h : Windowed l) :
    Windowed (o.exec cfg l i).2 := by
  obtain hsame | hset := dataWindow_sess o i (l := l)
  · intro hrings
    rw [hsame]
    cases o with
    | bringUpDone e2e =>
      rw [← hsame]
      exact linkWindow_pos _ _
    | bringUpBegin | quarantined | downBegin owner => first | cases hrings | exact h hrings
    | _ =>
      apply h
      first
      | exact hrings
      | (simp only [SessOp.exec, helloApply, notifyDownLocked, upcall, readyConfirm, maybeUpLocked,
           probeFailed, revalidated] at hrings
         (repeat' split at hrings) <;> simpa using hrings)
  · exact fun _ ↦ hset ▸ linkWindow_pos _ _

/-- A link whose rings are up has a data window. -/
theorem windowed_reach {c : (linkMachine cfg).Config} (hc : (linkMachine cfg).system.Reachable c) :
    Windowed c.state := by
  apply hc.invariant (I := fun c ↦ Windowed c.state)
  · rintro c ⟨⟨random, seq, autostart, hcreate⟩, -⟩
    simp [Windowed, hcreate, linkCreate]
  · intro c s c' h _ hstep
    have hkeep : ∀ {l'}, owned l' = owned c.state → Windowed l' := by
      intro l' howned
      have hsess : l'.sess = c.state.sess := congrArg Prod.fst howned
      rw [Windowed, hsess]
      exact h
    cases hstep with
    | start _ henter => exact hkeep (view_begin owned (enter_eq_some henter).2.1 rfl)
    | @exec t o k i r l' _ hrun =>
      cases o with
      | held o =>
        obtain ⟨o, rfl⟩ | howned := owned_held hrun
        · obtain rfl := link_of_run hrun
          exact windowed_sess o i h
        · exact hkeep howned
      | _ =>
        simp only [Op.run] at hrun
        (repeat' split at hrun) <;> cases hrun <;> exact h
    | finish _ => exact h

/-- An allocation that is refused for lack of space only sets the flag, and some frame is in use. -/
theorem refused_alloc {len : ℕ} {isCtrl : Bool} (hring : 0 < cfg.tf.ringEntries.toNat)
    (hpooled : Pooled cfg l) (hwindow : 0 < l.sess.dataWindow)
    (hrefused : (allocFrameLocked t len isCtrl false l).1 = .error enospc) :
    (allocFrameLocked t len isCtrl false l).2 = { l with tx := { l.tx with txBlocked := true } } ∧
      0 < l.tx.ctrlInflight + l.tx.dataInflight := by
  simp only [allocFrameLocked] at hrefused ⊢
  split at hrefused
  · cases hrefused
  next hup =>
  rw [if_neg hup]
  split at hrefused
  · next hfull =>
    rw [if_pos hfull]
    refine ⟨rfl, ?_⟩
    cases isCtrl with
    | true =>
      have hctrl : 64 ≤ l.tx.ctrlInflight := of_decide_eq_true hfull
      omega
    | false =>
      have hdata : l.sess.dataWindow ≤ l.tx.dataInflight := by simpa [allocFull] using hfull
      omega
  · next hfull =>
    rw [if_neg hfull]
    split at hrefused
    · next hempty =>
      -- every frame of the pool is charged
      have hbalance := hpooled.tx.balance
      rw [hempty, List.length_nil] at hbalance
      exact ⟨rfl, by omega⟩
    · cases hrefused

theorem Ages.not_removing (h : Ages l l') (hremoving : l'.sh.removing = false) :
    l.sh.removing = false := by
  cases hold : l.sh.removing with
  | true => exact (h.removing hold).symm.trans hremoving
  | false => rfl

def totals (l : Link) : Bool × ℕ × ℕ :=
  (l.tx.txBlocked, l.tx.ctrlInflight, l.tx.dataInflight)

theorem Blocked.congr (h : Blocked l) (htotals : totals l' = totals l) : Blocked l' := by
  simp only [totals, Prod.mk.injEq] at htotals
  obtain ⟨hflag, hctrl, hdata⟩ := htotals
  rw [Blocked, hflag, hctrl, hdata]
  exact h

/-- An established session keeps the flag as long as it lasts. -/
theorem totals_sess (o : SessOp) (i : o.Inp) (hup : l.sh.state = .up)
    (hup' : (o.exec cfg l i).2.sh.state = .up) : totals (o.exec cfg l i).2 = totals l := by
  cases o with
  | downBegin owner => simp [SessOp.exec, downBegin, hup] at hup'
  | maybeUp =>
    have hpublished : (l.sh.state == .init) = false := by simp [hup]
    simp only [SessOp.exec, maybeUpLocked, hpublished, Bool.false_and, Bool.false_eq_true, if_false]
    split <;> rfl
  | _ => first
    | rfl
    | (simp only [SessOp.exec, helloApply, notifyDownLocked, upcall, readyConfirm, probeFailed,
         revalidated]
       (repeat' split) <;> simp [totals])

/-- A TX section on an established link leaves the flag set, or takes it down for its thread unless
the frame is cancelled. -/
theorem blocked_tx {o : TxOp} {i : o.Inp} {r : o.Res} (h : Blocked l) (hup : l.sh.state = .up)
    (hremoving : l.sh.removing = false) (hrun : o.exec cfg t l i = some (r, l')) :
    Blocked l' ∨ HeldOp.Wakes (.tx o) r ∨ ∃ f, o = .complete f true := by
  obtain ⟨hflag, hcharged⟩ := h
  cases o with
  | alloc len isCtrl preUp =>
    left
    obtain rfl := link_of_run hrun
    simp only [allocFrameLocked]
    split
    · exact ⟨hflag, hcharged⟩
    split
    · exact ⟨rfl, hcharged⟩
    split
    · exact ⟨rfl, hcharged⟩
    · refine ⟨hflag, ?_⟩
      dsimp only
      cases isCtrl <;> simp only [Bool.false_eq_true, if_true, if_false] <;> omega
  | free f =>
    obtain rfl : (txReturn t f l).1 = r := congrArg Prod.fst (Option.some.inj hrun)
    exact .inr (.inl (by simp [HeldOp.Wakes, txReturn, hflag, hup, hremoving]))
  | complete f canceled =>
    cases canceled with
    | true => exact .inr (.inr ⟨f, rfl⟩)
    | false =>
      obtain rfl : (txCompleteLocked cfg t f false l).1 = r :=
        congrArg Prod.fst (Option.some.inj hrun)
      have hunpost : (txUnpost f false l.tx).txBlocked = true := by
        unfold txUnpost
        split <;> exact hflag
      right
      left
      simp [HeldOp.Wakes, txCompleteLocked, txReturn, hunpost, hup, hremoving]
  | _ =>
    left
    simp only [TxOp.exec, xmitLocked] at hrun
    (repeat' split at hrun) <;> cases hrun <;> exact ⟨hflag, hcharged⟩

/-- A section on an established link leaves the flag set, or takes it down for its thread unless the
frame is cancelled. -/
theorem blocked_run {o : Op} {i : o.Inp} {r : o.Res} (h : Blocked l) (hup : l.sh.state = .up)
    (hup' : l'.sh.state = .up) (hremoving : l.sh.removing = false)
    (hrun : o.run cfg t i l = some (r, l')) :
    Blocked l' ∨ linkWakes.takes o r () ∨ ∃ f, o = .held (.tx (.complete f true)) := by
  cases o with
  | held o =>
    cases o with
    | base o | net o | rx o => exact .inl (h.congr (view_run totals hrun rfl))
    | tx o =>
      obtain hblocked | hwakes | ⟨f, rfl⟩ := blocked_tx h hup hremoving hrun
      · exact .inl hblocked
      · exact .inr (.inl hwakes)
      · exact .inr (.inr ⟨f, rfl⟩)
    | sess o =>
      obtain rfl := link_of_run hrun
      exact .inl (h.congr (totals_sess o i hup hup'))
  | _ => exact .inl (h.congr (view_run totals hrun rfl))

end Steps

section Told

variable {cfg : LinkCfg} {t : Tid} {c c' : (linkMachine cfg).Config} {waiting : Bool}

def Roused (c : (linkMachine cfg).Config) (waiting : Bool) : Prop :=
  waiting = true → c.state.sh.state = .up → c.state.sh.removing = false →
    Blocked c.state ∨ WakeDue c

/-- A thread that has to queue the work does so before it returns. -/
theorem wakeDue_step {s : (linkMachine cfg).Label} (h : WakeDue c)
    (hstep : (linkMachine cfg).Step c s c') :
    WakeDue c' ∨ ∃ t i, s = .exec t (.held (.base (.ctl .queueTxReleased))) i := by
  obtain ⟨u, p, hp, hmeets⟩ := h
  have hother : ∀ {t : Tid} {l : Link} {q : Option (LinkProg Unit)}, u ≠ t →
      WakeDue (⟨l, Function.update c.thread t q⟩ : (linkMachine cfg).Config) := by
    intro t l q hut
    refine ⟨u, p, ?_, hmeets⟩
    simpa [hut] using hp
  cases hstep with
  | @start t e q l' hidle henter =>
    refine .inl (hother ?_)
    rintro rfl
    simp [hidle] at hp
  | @exec t o k i r l' hthread hrun =>
    by_cases hut : u = t
    · subst hut
      obtain rfl : Prog.op o k = p := Option.some.inj (hthread.symm.trans hp)
      obtain hqueues | hk := hmeets
      · right
        unfold linkWakes HeldOp.QueuesReleased BaseOp.halts at hqueues
        dsimp only at hqueues
        split at hqueues
        · split at hqueues
          · exact ⟨u, i, rfl⟩
          · split at hqueues
            · cases hrun
            · cases hqueues
          · cases hqueues
        · cases hqueues
      · exact .inl ⟨u, k r, by simp, hk r⟩
    · exact .inl (hother hut)
  | @finish t hthread =>
    refine .inl (hother ?_)
    rintro rfl
    obtain rfl := Option.some.inj (hthread.symm.trans hp)
    exact hmeets

theorem producerSee_queued {i : (Op.held (.base (.ctl .queueTxReleased))).Inp} :
    producerSee c (.exec t (.held (.base (.ctl .queueTxReleased))) i) waiting = false := by
  cases t <;> rfl

/-- A producer begins to wait by a refused allocation. -/
theorem producerSee_true {s : (linkMachine cfg).Label} (h : producerSee c s waiting = true) :
    waiting = true ∨ ∃ k len isCtrl i,
      s = .exec (.task k) (.held (.tx (.alloc len isCtrl false))) i ∧
      (allocFrameLocked (.task k) len isCtrl false c.state).1 = .error enospc := by
  unfold producerSee at h
  split at h
  · next k len isCtrl i =>
    split at h
    · next e he =>
      obtain hwaiting | hspace := Bool.or_eq_true_iff.1 h
      · exact .inl hwaiting
      · exact .inr ⟨k, len, isCtrl, i, rfl, he.trans (congrArg _ (beq_iff_eq.1 hspace))⟩
    · exact .inl h
  · cases h
  · exact .inl (Bool.and_eq_true_iff.1 h).1
  · exact .inl h

/-- A step leaves a producer that waits blocked or about to be told. -/
theorem roused_exec {o : Op} {i : o.Inp} {r : o.Res} {k : o.Res → LinkProg Unit} {l' : Link}
    (hring : 0 < cfg.tf.ringEntries.toNat) (hpooled : Pooled cfg c.state)
    (hwindow : c.state.sh.state = .up → 0 < c.state.sess.dataWindow)
    (hanswers : (Prog.op (S := linkSig) o k).Answers linkWakes) (h : Roused c waiting)
    (hnotified : Notified (c, waiting) (.exec t o i)) (hthread : c.thread t = some (.op o k))
    (hrun : o.run cfg t i c.state = some (r, l')) :
    Roused ⟨l', Function.update c.thread t (some (k r))⟩ (producerSee c (.exec t o i) waiting) := by
  have hstep : (linkMachine cfg).Step c (.exec t o i)
      ⟨l', Function.update c.thread t (some (k r))⟩ := .exec hthread hrun
  intro hwaiting hup' hremoving'
  have hup : c.state.sh.state = .up := by
    by_contra hdown
    obtain ⟨rfl, -⟩ := publishes_of_run hrun hdown hup'
    simp [producerSee, hdown] at hwaiting
  have hremoving : c.state.sh.removing = false := (ages_run hrun).not_removing hremoving'
  have hdue : WakeDue c → Blocked l' ∨
      WakeDue (⟨l', Function.update c.thread t (some (k r))⟩ : (linkMachine cfg).Config) := by
    intro hdue
    obtain hdue' | ⟨u, j, heq⟩ := wakeDue_step hdue hstep
    · exact .inr hdue'
    · cases heq
      rw [producerSee_queued] at hwaiting
      cases hwaiting
  obtain hold | ⟨n, len, isCtrl, j, heq, hrefused⟩ := producerSee_true hwaiting
  · obtain hblocked | hwake := h hold hup hremoving
    · obtain hblocked' | htakes | ⟨f, rfl⟩ := blocked_run hblocked hup hup' hremoving hrun
      · exact .inl hblocked'
      · exact .inr ⟨t, k r, by simp, (hanswers r).1 () htakes⟩
      · exact hdue (hnotified hold hup hremoving)
    · exact hdue hwake
  · cases heq
    obtain rfl := congrArg Prod.snd (Option.some.inj hrun)
    obtain ⟨heq, hcharged⟩ := refused_alloc hring hpooled (hwindow hup) hrefused
    refine .inl ⟨?_, ?_⟩
    · exact congrArg (·.tx.txBlocked) heq
    · have hctrl := congrArg (·.tx.ctrlInflight) heq
      have hdata := congrArg (·.tx.dataInflight) heq
      dsimp only at hctrl hdata ⊢
      rw [hctrl, hdata]
      exact hcharged

/-- In every notified run, a producer that waits on an UP link is blocked or about to be told. -/
theorem roused_reach (hring : 0 < cfg.tf.ringEntries.toNat) {p : (linkMachine cfg).Config × Bool}
    (hp : (producerRuns cfg).Reach Notified p) : Roused p.1 p.2 := by
  apply System.Reach.observe_invariant (I := fun c waiting ↦ Roused c waiting) hp
  · intro c _ hwaiting
    cases hwaiting
  · intro c waiting s c' hc h hnotified hstep
    cases hstep with
    | @start t e q l' hidle henter =>
      have hbegin := (enter_eq_some henter).2.1
      intro hwaiting hup hremoving
      obtain hblocked | hwake := h hwaiting ((view_begin (·.sh.state) hbegin rfl).symm.trans hup)
        ((ages_begin hbegin).not_removing hremoving)
      · exact .inl (hblocked.congr (view_begin totals hbegin rfl))
      · exact .inr ((wakeDue_step hwake (.start hidle henter)).resolve_right (by simp))
    | @exec t o k i r l' hthread hrun =>
      have hpooled := ((pool_verified cfg).sound (counted_reach hc)).1
      have hanswers := ((wakes_dutiful cfg).sound
        (System.Reach.mono hc fun _ _ _ ↦ trivial)).1 t _ hthread
      refine roused_exec hring hpooled (fun hup ↦ ?_) hanswers h hnotified hthread hrun
      have hsettled := settled_step hc (.exec hthread hrun)
      exact windowed_reach hc (hsettled.1.2.1.phased.up hup).1
    | @finish t hthread =>
      intro hwaiting hup hremoving
      obtain hblocked | hwake := h hwaiting hup hremoving
      · exact .inl hblocked
      · exact .inr ((wakeDue_step hwake (.finish hthread)).resolve_right (by simp))

/-- In every run in which no frame is cancelled on the established link while a producer waits, a
client that was refused a frame will be told: the flag is set and a frame is charged to a window, or
a thread has still to queue the work. -/
theorem refused_producer_woken {p : (linkMachine cfg).Config × Bool}
    (hring : 0 < cfg.tf.ringEntries.toNat) (hp : (producerRuns cfg).Reach Notified p)
    (hwaiting : p.2 = true) (hup : p.1.state.sh.state = .up)
    (hremoving : p.1.state.sh.removing = false) :
    (p.1.state.tx.txBlocked = true ∧ ∃ f, (p.1.state.tx.frames f).chargedCtrl = true ∨
      (p.1.state.tx.frames f).chargedData = true) ∨ WakeDue p.1 := by
  refine (roused_reach hring hp hwaiting hup hremoving).imp_left fun hblocked ↦ ⟨hblocked.1, ?_⟩
  have howned : TxOwned p.1.state := ((tx_verified cfg).sound hp.reachable).1
  by_contra hnone
  have hctrl : p.1.state.tx.ctrlInflight = 0 :=
    howned.ctrlInflight.eq_zero fun f ↦ by
      by_contra hf
      exact hnone ⟨f, .inl (by simpa using hf)⟩
  have hdata : p.1.state.tx.dataInflight = 0 :=
    howned.dataInflight.eq_zero fun f ↦ by
      by_contra hf
      exact hnone ⟨f, .inr (by simpa using hf)⟩
  have hcharged := hblocked.2
  omega

end Told

def takeSchedule : List (linkMachine budgetCfg).Act :=
  [.start (.task 0) (.allocFrame 8 false)] ++ linkSteps (.task 0) 3 {}

def refusalSchedule : List (linkMachine budgetCfg).Act :=
  [.start (.task 2) (.allocFrame 8 false)] ++ linkSteps (.task 2) 2 {}

/-- A control frame is in the ring and a data frame in the backlog.  The completion of the first one
moves the second one to the ring; before it calls `ring_tx`, a producer is refused.  The ring then
refuses the frame, which is cancelled. -/
def unheardSchedule : List (linkMachine budgetCfg).Act :=
  upSchedule ++ sendSchedule 0 5 ++ takeSchedule ++ [.start (.task 0) (.xmit 1)] ++
    linkSteps (.task 0) 4 {} ++ [.start (.task 1) (.txComplete 0 false)] ++
    linkSteps (.task 1) 3 {} ++ refusalSchedule ++ linkSteps (.task 1) 1 { ret := -5 } ++
    linkSteps (.task 1) 9 {}

set_option maxRecDepth 10000 in
/-- On an established link a producer that was refused waits, but no frame is charged, the flag is
down, the work is not queued, and no function is running. -/
theorem refused_producer_unheard : ∃ p, (producerRuns budgetCfg).Reachable p ∧ p.2 = true ∧
    p.1.state.sh.state = .up ∧ p.1.state.sh.removing = false ∧
    p.1.state.tx.txBlocked = false ∧ p.1.state.tx.ctrlInflight = 0 ∧
    p.1.state.tx.dataInflight = 0 ∧ p.1.state.ctl.queued .txReleased = false ∧
    ∀ t, p.1.thread t = none := by
  obtain ⟨p, hp, hgoal, hidle⟩ := Machine.idle_of_observed_play (M := linkMachine budgetCfg)
    false producerSee (fun _ _ ↦ true)
    (fun p ↦ p.2 && p.1.state.sh.state == .up && !p.1.state.sh.removing &&
      !p.1.state.tx.txBlocked && p.1.state.tx.ctrlInflight == 0 &&
      p.1.state.tx.dataInflight == 0 && !p.1.state.ctl.queued .txReleased)
    unheardSchedule ⟨50, 0, true, rfl⟩ (by decide +kernel)
  simp only [Bool.and_eq_true, beq_iff_eq, Bool.not_eq_true'] at hgoal
  obtain ⟨⟨⟨⟨⟨⟨hwaiting, hup⟩, hremoving⟩, hflag⟩, hctrl⟩, hdata⟩, hqueued⟩ := hgoal
  exact ⟨p, hp.mono fun _ _ _ ↦ trivial, hwaiting, hup, hremoving, hflag, hctrl, hdata, hqueued,
    hidle⟩

/-- A decidable part of `Notified`: no frame is cancelled. -/
def notified {cfg : LinkCfg} (s : (linkMachine cfg).Label) : Bool :=
  (completedBy s).all fun x ↦ !x.2

set_option maxRecDepth 10000 in
theorem refused_producer_woken_sample : ∃ p, (producerRuns budgetCfg).Reach Notified p ∧
    p.2 = true ∧ p.1.state.sh.state = .up ∧ p.1.state.sh.removing = false ∧
    ((p.1.state.tx.txBlocked = true ∧ ∃ f, (p.1.state.tx.frames f).chargedCtrl = true ∨
      (p.1.state.tx.frames f).chargedData = true) ∨ WakeDue p.1) := by
  obtain ⟨p, hp, hgoal⟩ := System.Exec.reach_of_play
    ((linkMachine budgetCfg).exec.observe : (producerRuns budgetCfg).Exec)
    (fun _ s ↦ notified s)
    (fun p ↦ p.2 && p.1.state.sh.state == .up && !p.1.state.sh.removing)
    (upSchedule ++ takeSchedule ++ refusalSchedule)
    (s := ((linkMachine budgetCfg).idle _, false))
    ⟨Machine.init_idle ⟨50, 0, true, rfl⟩, rfl⟩ (by decide +kernel)
  simp only [Bool.and_eq_true, beq_iff_eq, Bool.not_eq_true'] at hgoal
  obtain ⟨⟨hwaiting, hup⟩, hremoving⟩ := hgoal
  have hnotified : (producerRuns budgetCfg).Reach Notified p := by
    apply hp.mono
    intro p s hs
    unfold Notified
    split
    · simp [notified, completedBy] at hs
    · trivial
  exact ⟨p, hnotified, hwaiting, hup, hremoving,
    refused_producer_woken (by decide) hnotified hwaiting hup hremoving⟩

end ThunderboltStack.Tbframe
