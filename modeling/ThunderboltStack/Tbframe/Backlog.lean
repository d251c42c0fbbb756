import ThunderboltStack.Lib.Duty
import ThunderboltStack.Tbframe.LinkCode
import ThunderboltStack.Tbframe.LossModel

/-!
# Progress of the software backlog

With a TX ring budget, `__tbframe_xmit` queues the frames that find the budget posted, and only
completions move queued frames to the ring.  So while a link is UP and frames are queued, at least
one frame has to be posted: some completion will come.

This is an invariant of all states, from before UP on, with two exceptions.  Completions do not
refill before UP, so when the last posted frame of the data-path probe completes, the queued ones
are left alone.  And a frame that `__tbframe_xmit` counts as posted before it calls `ring_tx` can
make another one queue and then be refused by the ring.  In all other runs the backlog makes
progress.  A completion whose refill is refused cancels the backlog, but not in the same section, so
the statement is about configurations between the operations.
-/

namespace ThunderboltStack.Tbframe

open ThunderboltStack.Lib

/-! ## Frames on their way back -/

/-- The frames that a TX section hands to its thread, which has to complete them. -/
def TxOp.hands : (o : TxOp) → o.Res → ℕ → Prop
  | .complete _ _, r, f => f ∈ TxLocals.flush r
  | .refillErr g, _, f => f = g
  | .splice, flush, f => f ∈ flush
  | _, _, _ => False

/-- The TX section completes the frame `f`. -/
def TxOp.completes (f : ℕ) : TxOp → Prop
  | .complete g _ => g = f
  | _ => False

def BaseOp.halts : BaseOp → Prop
  | .ctl .halt => True
  | _ => False

/-- The duty of a thread to complete the frames it takes over. -/
def txDuties : Duties txSig ℕ where
  takes
    | .tx o, r, f => o.hands r f
    | .base _, _, _ => False
  meets f
    | .tx o => o.completes f
    | .base o => o.halts

@[inherit_doc txDuties]
def heldDuties : Duties heldSig ℕ where
  takes
    | .tx o, r, f => o.hands r f
    | _, _, _ => False
  meets f
    | .tx o => o.completes f
    | .base o => o.halts
    | _ => False

@[inherit_doc txDuties]
def linkDuties : Duties linkSig ℕ where
  takes
    | .held o, r, f => heldDuties.takes o r f
    | _, _, _ => False
  meets f
    | .held o => heldDuties.meets f o
    | _ => False

section Programs

variable {cfg : LinkCfg} {α : Type}

theorem meets_txStep {f : ℕ} (o : TxStep) (ho : txDuties.meets f o) :
    heldDuties.meets f (txHeld.op o) := by
  cases o <;> exact ho

theorem answers_onTx {p : TxProg α} (hp : p.Answers txDuties) :
    (p.lift txHeld).Answers heldDuties := by
  refine hp.lift (fun o r f hf ↦ ?_) fun f ↦ meets_txStep
  cases o <;> exact hf

theorem answers_onHeld {p : HeldProg α} (hp : p.Answers heldDuties) :
    (p.lift heldLink).Answers linkDuties :=
  hp.lift (fun _ _ _ ↦ id) fun _ _ ↦ id

theorem answers_txBase (p : BaseProg α) : (p.lift baseTx).Answers txDuties :=
  .of_all (.lift (.of_forall (fun _ _ _ ↦ id) p))

theorem meets_coreTxComplete (n f : ℕ) (canceled : Bool) :
    (coreTxComplete n f canceled).Meets (txDuties.meets f) := by
  cases n with
  | zero => exact .inl trivial
  | succ n => exact .of_bind _ fun _ ↦ .inl rfl

/-- `tbframe_core_tx_complete` completes the frames it takes from the backlog. -/
theorem answers_coreTxComplete (n f : ℕ) (canceled : Bool) :
    (coreTxComplete n f canceled).Answers txDuties := by
  induction n generalizing f canceled with
  | zero => exact answers_txBase _
  | succ n ih =>
    refine .bind (answers_txBase _) fun _ ↦ .call_bind fun r ↦ ⟨fun g hg ↦ ?_, ?_⟩
    · refine .of_bind _ fun _ ↦ .of_bind _ fun _ ↦ .bind ?_ _
      exact .forEach (f := fun g ↦ coreTxComplete n g true) (meets_coreTxComplete n g true) hg
    · refine .bind (.forEach (fun next ↦ ?_) _) fun _ ↦ ?_
      · refine .call_bind fun ret ↦ ⟨fun _ ↦ False.elim, .when (.call_bind fun _ ↦ ?_)⟩
        refine ⟨fun g hg ↦ ?_, ih next true⟩
        obtain rfl : g = next := hg
        exact meets_coreTxComplete n g true
      · exact .bind (answers_txBase _) fun _ ↦ .bind (.forEach (fun g ↦ ih g true) _) fun _ ↦
          .bind (.when (answers_txBase _)) fun _ _ ↦ ⟨fun _ ↦ False.elim, trivial⟩

theorem singles_heldDuties : HeldSingles fun _ p ↦ p.Answers heldDuties where
  toClosed := Prog.closed_answers heldDuties
  single o ho r := by
    refine ⟨fun f hf ↦ ?_, trivial⟩
    cases o with
    | tx o => cases o <;> first | exact hf.elim | exact ho.elim
    | _ => exact hf.elim
  free f := .of_all ((sendCode_all (fun _ _ _ ↦ id) fun o ho r f hf ↦ by
    cases o <;> first | exact hf.elim | cases ho).frameFree ⟨fun _ _ ↦ id, fun _ ↦ trivial⟩)
  complete n f canceled := answers_onTx (answers_coreTxComplete n f canceled)
  flush {α k} hk := by
    refine .lift_call_bind (e := txHeld) (o := .tx .splice) fun flush ↦ ⟨fun f hf ↦ ?_, ?_⟩
    · refine .of_bind _ fun n ↦ .bind (.forEach (x := f) ?_ hf) _
      exact .lift ((meets_coreTxComplete n f true).mono meets_txStep)
    · refine .bind ?_ fun n ↦ .bind (.forEach (fun f ↦ ?_) _) hk
      · exact .of_all (all_base (fun _ _ _ ↦ id) _)
      · exact answers_onTx (answers_coreTxComplete n f true)

theorem closed_linkDuties :
    LinkClosed cfg (fun _ p ↦ p.Answers heldDuties) fun _ p ↦ p.Answers linkDuties where
  toClosed := Prog.closed_answers linkDuties
  held := singles_heldDuties.closed
  onHeld := answers_onHeld
  call o ho r := by
    refine ⟨fun f hf ↦ ?_, trivial⟩
    cases o with
    | held o => exact absurd rfl (ho o)
    | _ => exact hf.elim

/-- The code of every event completes the frames that it takes over. -/
theorem answers_prog (e : Entry) : (e.prog cfg).Answers linkDuties :=
  closed_linkDuties.prog_of_singles singles_heldDuties e

end Programs

section Steps

variable {cfg : LinkCfg} {t u : Tid} {l l' : Link} {f : ℕ}

theorem loc_update {frames : ℕ → TxFrame} {fr : TxFrame} {g : ℕ} (hfr : fr.loc ≠ .done u)
    (h : (Function.update frames g fr f).loc = .done u) :
    f ≠ g ∧ (frames f).loc = .done u := by
  by_cases hf : f = g
  · subst hf
    exact absurd (by simpa using h) hfr
  · exact ⟨hf, by simpa [hf] using h⟩

theorem loc_txUnpost {tx : TxPool} {g : ℕ} {canceled : Bool} :
    ((txUnpost g canceled tx).frames f).loc = (tx.frames f).loc := by
  unfold txUnpost
  split
  · by_cases hf : f = g
    · subst hf
      simp
    · simp [hf]
  · rfl

/-- The frames on their way back after a completion: those of before, without the completed one,
and those it took from the backlog. -/
theorem done_complete {g : ℕ} {canceled : Bool}
    (h : ((txCompleteLocked cfg t g canceled l).2.tx.frames f).loc = .done u) :
    ((l.tx.frames f).loc = .done u ∧ f ≠ g) ∨
      u = t ∧ f ∈ (txCompleteLocked cfg t g canceled l).1.flush := by
  have hreturned : ∀ {l₁ : Link}, l₁ = (txReturn t g { l with tx := txUnpost g canceled l.tx }).2 →
      (l₁.tx.frames f).loc = .done u → (l.tx.frames f).loc = .done u ∧ f ≠ g := by
    rintro _ rfl hloc
    obtain ⟨hf, hloc⟩ := loc_update (by simp) hloc
    exact ⟨loc_txUnpost.symm.trans hloc, hf⟩
  obtain heq | ⟨n, tx, htake, -, heq⟩ | heq := txRefill_cases cfg t
    (txReturn t g { l with tx := txUnpost g canceled l.tx }).2 canceled
  all_goals simp only [txCompleteLocked, heq] at h ⊢
  · exact .inl (hreturned rfl h)
  · obtain ⟨-, hloc⟩ := loc_update (by simp) h
    rw [(takeQueued_eq htake).1] at hloc
    exact .inl (hreturned rfl hloc)
  · simp only [spliceQueues] at h ⊢
    split at h
    · next hmem =>
      cases h
      exact .inr ⟨rfl, hmem⟩
    · exact .inl (hreturned rfl h)

/-- A TX section puts a frame on its way back only for its own thread, which learns of it. -/
theorem done_tx {o : TxOp} {i : o.Inp} {r : o.Res} (hrun : o.exec cfg t l i = some (r, l'))
    (h : (l'.tx.frames f).loc = .done u) :
    ((l.tx.frames f).loc = .done u ∧ ¬ o.completes f) ∨ u = t ∧ o.hands r f := by
  cases o with
  | alloc len isCtrl preUp =>
    obtain rfl := link_of_run hrun
    refine .inl ⟨?_, id⟩
    simp only [allocFrameLocked] at h
    (repeat' split at h) <;> first
      | exact h
      | exact (loc_update (by simp) h).2
  | build g directional =>
    cases hrun
    refine .inl ⟨?_, id⟩
    by_cases hf : f = g
    · subst hf
      simpa [buildKeepalive] using h
    · simpa [buildKeepalive, hf] using h
  | xmit g preUp =>
    simp only [TxOp.exec, xmitLocked] at hrun
    (repeat' split at hrun) <;> cases hrun <;> refine .inl ⟨?_, id⟩ <;> first
      | exact h
      | exact (loc_update (by simp) h).2
  | ringTx g =>
    simp only [TxOp.exec] at hrun
    (repeat' split at hrun) <;> cases hrun <;> refine .inl ⟨?_, id⟩ <;> first
      | exact h
      | exact (loc_update (by simp) h).2
  | refillErr g =>
    cases hrun
    by_cases hf : f = g
    · subst hf
      refine .inr ⟨?_, rfl⟩
      simpa [refillErr, unpost, eq_comm] using h
    · exact .inl ⟨by simpa [refillErr, unpost, hf] using h, id⟩
  | splice =>
    cases hrun
    simp only [spliceQueues] at h
    split at h
    · next hmem =>
      cases h
      exact .inr ⟨rfl, hmem⟩
    · exact .inl ⟨h, id⟩
  | complete g canceled =>
    obtain ⟨rfl, rfl⟩ := Prod.mk.inj (Option.some.inj hrun)
    exact (done_complete h).imp_left fun hold ↦ ⟨hold.1, fun hg ↦ hold.2 hg.symm⟩
  | putLink =>
    cases hrun
    exact .inl ⟨h, id⟩
  | ringErr g | free g | toClient g =>
    cases hrun
    exact .inl ⟨(loc_update (by simp) h).2, id⟩

/-- The ring puts a frame on its way back when it calls for its completion. -/
theorem done_begin {e : Entry} (hbegin : e.begin t l = some l')
    (h : (l'.tx.frames f).loc = .done u) :
    (l.tx.frames f).loc = .done u ∨ u = t ∧ ∃ canceled, e = .txComplete f canceled := by
  have hclient : ∀ g, takeFromClient t g l = some l' → (l.tx.frames f).loc = .done u := by
    intro g htake
    unfold takeFromClient at htake
    split at htake <;> cases htake
    exact (loc_update (by simp) h).2
  cases e with
  | txComplete g canceled =>
    simp only [Entry.begin, takeFromTxRing] at hbegin
    split at hbegin <;> cases hbegin
    by_cases hf : f = g
    · subst hf
      exact .inr ⟨by simpa [eq_comm] using h, canceled, rfl⟩
    · exact .inl (by simpa [hf] using h)
  | xmit g | frameFree g => exact .inl (hclient g hbegin)
  | _ =>
    left
    have hframes : l'.tx.frames = l.tx.frames := congrArg (·.1) (txView_begin rfl hbegin)
    exact hframes ▸ h

end Steps

/-- In every run, a thread that has a frame on its way back still has to complete it. -/
theorem tx_dutiful (cfg : LinkCfg) : (linkMachine cfg).Dutiful (fun _ _ ↦ True) linkDuties
    fun l t f ↦ (l.tx.frames f).loc = .done t where
  init l t f h := by
    obtain ⟨random, requestSeq, autostart, rfl⟩ := h
    simp [linkCreate]
  enter t e l p l' _ henter := by
    obtain ⟨-, hbegin, rfl⟩ := enter_eq_some henter
    refine ⟨answers_prog e, fun u f hf ↦ (done_begin hbegin hf).imp_right ?_⟩
    rintro ⟨rfl, canceled, rfl⟩
    refine ⟨rfl, .of_bind _ fun n ↦ .bind (.lift (.lift ?_)) _⟩
    exact (meets_coreTxComplete n f canceled).mono meets_txStep
  exec t o i l r l' _ hrun := by
    intro u f hf
    have hkept : txView l' = txView l → (l.tx.frames f).loc = .done u := by
      intro hview
      rw [← show l'.tx.frames = l.tx.frames from congrArg (·.1) hview]
      exact hf
    have hview := txView_run hrun
    cases o with
    | held o =>
      cases o with
      | tx o => exact (done_tx hrun hf).imp_left fun hold ↦ ⟨hold.1, fun _ ↦ hold.2⟩
      | base o =>
        refine .inl ⟨hkept (view_base txView hrun rfl), fun _ hmeets ↦ ?_⟩
        -- a thread that has stopped does not go on
        have hhalts : o.halts := hmeets
        unfold BaseOp.halts at hhalts
        split at hhalts
        · cases hrun
        · exact hhalts
      | net o | rx o | sess o =>
        exact .inl ⟨hkept (hview.resolve_left (by simp)), fun _ ↦ id⟩
    | _ => exact .inl ⟨hkept (hview.resolve_left (by simp)), fun _ ↦ id⟩

/-! ## Progress -/

def TxPool.backlog (tx : TxPool) : List ℕ :=
  tx.txqData ++ tx.txqCtrl

/-- The runs considered: no completion of the last posted frame finds a backlog while the link is not
UP, and the failure section of `__tbframe_xmit` after `ring_tx` refused the last posted frame finds
none in any state. -/
def backlogCovered {cfg : LinkCfg} (l : Link) : (linkMachine cfg).Label → Bool
  | .exec _ (.held (.tx (.complete _ canceled))) _ =>
      l.sh.state == .up || canceled || l.tx.backlog.isEmpty || decide (1 < l.tx.ringPosted)
  | .exec _ (.held (.tx (.ringErr _))) _ => l.tx.backlog.isEmpty || decide (1 < l.tx.ringPosted)
  | _ => true

/-- While frames are queued, a frame is posted, or some function still has a frame to complete. -/
def Driven (cfg : LinkCfg) (l : Link) : Prop :=
  cfg.tf.txRingBudget ≠ 0 → l.tx.backlog ≠ [] →
    1 ≤ l.tx.ringPosted ∨ ∃ t f, (l.tx.frames f).loc = .done t

def BacklogGuard (cfg : LinkCfg) : (linkMachine cfg).Guard :=
  fun l s ↦ backlogCovered l s ∧ Settled cfg l s

section Driven

variable {cfg : LinkCfg} {t u : Tid} {l l' : Link} {f : ℕ}

/-- A frame on its way back stays so until it is completed. -/
theorem done_kept {o : TxOp} {i : o.Inp} {r : o.Res} (howned : TxOwned l)
    (hpre : TxPre t (.held (.tx o)) l) (hrun : o.exec cfg t l i = some (r, l'))
    (ho : ¬ o.completes f) (hf : (l.tx.frames f).loc = .done u) :
    (l'.tx.frames f).loc = .done u := by
  have htarget : o.target ≠ some f := by
    intro htarget
    cases o with
    | complete g canceled => exact ho (Option.some.inj htarget)
    | alloc | splice | putLink => cases htarget
    | _ =>
      cases htarget
      simp [TxPre, hf] at hpre
  rw [txFrame_kept (t := u) howned hpre (by simp [hf, TxLoc.of]) htarget hrun]
  exact hf

/-- A completion on a link that is UP leaves no backlog or a posted frame. -/
theorem driven_complete (hbudget : cfg.tf.txRingBudget ≠ 0) (hup : l.sh.state = .up)
    (hrings : l.sess.ringsUp = true) (canceled : Bool) :
    (txCompleteLocked cfg t f canceled l).2.tx.backlog = [] ∨
      1 ≤ (txCompleteLocked cfg t f canceled l).2.tx.ringPosted := by
  simp only [txCompleteLocked, txRefill, if_neg hbudget]
  cases canceled with
  | true => exact .inl rfl
  | false =>
    rw [if_pos (by simp [txReturn, hup, hrings])]
    split
    · next hempty =>
      left
      unfold takeQueued at hempty
      split at hempty
      · cases hempty
      · cases hempty
      · next hctrl hdata => exact List.append_eq_nil_iff.2 ⟨hdata, hctrl⟩
    · exact .inr (Nat.le_add_left 1 _)

/-- Before UP, a completion takes nothing from the backlog and unposts its frame. -/
theorem waiting_complete (cfg : LinkCfg) (t : Tid) (f : ℕ) (hdown : l.sh.state ≠ .up) :
    (txCompleteLocked cfg t f false l).2.tx.backlog = l.tx.backlog ∧
      l.tx.ringPosted ≤ (txCompleteLocked cfg t f false l).2.tx.ringPosted + 1 := by
  simp only [txCompleteLocked, txRefill, txReturn, txUnpost, TxPool.backlog]
  simp only [Bool.not_false, Bool.true_and, beq_eq_false_iff_ne.2 hdown, Bool.false_and,
    Bool.false_eq_true, if_false, ite_self]
  split
  · simp
    omega
  · simp

/-- Before UP, a completion that the guard allows leaves a posted frame to a backlog. -/
theorem driven_waiting {i : (TxOp.complete f false).Inp} (hdown : l.sh.state ≠ .up)
    (hcovered : backlogCovered l
      (.exec t (.held (.tx (.complete f false))) i : (linkMachine cfg).Label)) :
    (txCompleteLocked cfg t f false l).2.tx.backlog = [] ∨
      1 ≤ (txCompleteLocked cfg t f false l).2.tx.ringPosted := by
  obtain ⟨hbacklog, hposted⟩ := waiting_complete cfg t f hdown
  simp only [backlogCovered, Bool.or_eq_true, decide_eq_true_eq, List.isEmpty_iff, beq_iff_eq,
    Bool.false_eq_true, or_false] at hcovered
  obtain (hstate | hempty) | hmany := hcovered
  · exact absurd hstate hdown
  · exact .inl (hbacklog.trans hempty)
  · exact .inr (Nat.le_of_lt_succ (Nat.lt_of_lt_of_le hmany hposted))

/-- A TX section that the guard allows keeps the backlog driven. -/
theorem driven_tx {o : TxOp} {i : o.Inp} {r : o.Res} (h : Driven cfg l) (hphased : Phased l)
    (hG : BacklogGuard cfg l (.exec t (.held (.tx o)) i))
    (hrun : o.exec cfg t l i = some (r, l')) : Driven cfg l' := by
  intro hbudget hqueue
  have howned : TxOwned l := hG.2.2.1
  have hpre : TxPre t (.held (.tx o)) l := hG.2.2.2
  -- the sections that neither queue nor post a frame
  have hsame : l'.tx.backlog = l.tx.backlog → l'.tx.ringPosted = l.tx.ringPosted →
      (∀ f, ¬ o.completes f) → 1 ≤ l'.tx.ringPosted ∨ ∃ t f, (l'.tx.frames f).loc = .done t := by
    intro hbacklog hposted ho
    rw [hposted]
    obtain hpos | ⟨u, f, hf⟩ := h hbudget (hbacklog ▸ hqueue)
    · exact .inl hpos
    · exact .inr ⟨u, f, done_kept howned hpre hrun (ho f) hf⟩
  cases o with
  | complete g canceled =>
    obtain ⟨-, rfl⟩ := Prod.mk.inj (Option.some.inj hrun)
    left
    by_cases hup : l.sh.state = .up
    · exact (driven_complete hbudget hup (hphased.up hup).1 canceled).resolve_left hqueue
    cases canceled with
    | true =>
      simp only [txRefill, if_neg hbudget] at hqueue
      exact absurd rfl hqueue
    | false => exact (driven_waiting hup hG.1).resolve_left hqueue
  | splice =>
    cases hrun
    exact absurd rfl hqueue
  | refillErr g =>
    cases hrun
    exact .inr ⟨t, g, by simp [refillErr, unpost]⟩
  | ringErr g =>
    cases hrun
    left
    have hcovered := hG.1
    simp only [backlogCovered, Bool.or_eq_true, decide_eq_true_eq, List.isEmpty_iff] at hcovered
    have hposted : 1 < l.tx.ringPosted := hcovered.resolve_left (by
      simpa [TxPool.backlog, xmitRingErr, unpost] using hqueue)
    simp only [xmitRingErr, unpost]
    omega
  | xmit g preUp =>
    simp only [TxOp.exec, xmitLocked] at hrun
    split at hrun
    · cases hrun
      exact hsame rfl rfl fun _ ↦ id
    split at hrun
    · next hfull =>
      cases hrun
      exact .inl (Nat.le_trans (Nat.one_le_iff_ne_zero.2 hbudget) hfull.2)
    · cases hrun
      exact .inl (Nat.le_add_left 1 _)
  | alloc len isCtrl preUp =>
    simp only [TxOp.exec, allocFrameLocked] at hrun
    (repeat' split at hrun) <;> cases hrun <;> exact hsame rfl rfl fun _ ↦ id
  | ringTx g =>
    simp only [TxOp.exec] at hrun
    (repeat' split at hrun) <;> cases hrun <;> exact hsame rfl rfl fun _ ↦ id
  | build | free | toClient | putLink =>
    cases hrun
    exact hsame rfl rfl fun _ ↦ id

/-- Outside the TX sections nothing changes: in particular, a link comes UP with what it has. -/
theorem Driven.congr (h : Driven cfg l) (hview : txView l' = txView l) : Driven cfg l' := by
  simp only [txView, Prod.mk.injEq] at hview
  obtain ⟨hframes, ⟨-, hctrl, hdata, -⟩, hposted, -⟩ := hview
  have hbacklog : l'.tx.backlog = l.tx.backlog := by simp only [TxPool.backlog, hctrl, hdata]
  intro hbudget hqueue
  rw [hposted, hframes]
  exact h hbudget (hbacklog ▸ hqueue)

theorem driven_run {o : Op} {i : o.Inp} {r : o.Res} (h : Driven cfg l)
    (hG : BacklogGuard cfg l (.exec t o i)) (hrun : o.run cfg t i l = some (r, l')) :
    Driven cfg l' := by
  obtain ⟨o, rfl⟩ | hview := txView_run hrun
  · exact driven_tx h hG.2.1.2.1.phased hG hrun
  · exact h.congr hview

/-- The start of an event keeps the backlog driven. -/
theorem driven_begin {e : Entry} (h : Driven cfg l) (howned : TxOwned l)
    (hbegin : e.begin t l = some l') : Driven cfg l' := by
  have hmoved : ∀ (g : ℕ) (fr : TxFrame), l'.tx.frames = Function.update l.tx.frames g fr →
      (∀ u, (l.tx.frames g).loc ≠ .done u) → l'.tx.backlog = l.tx.backlog →
      l'.tx.ringPosted = l.tx.ringPosted → Driven cfg l' := by
    intro g fr hframes hg hbacklog hposted hbudget hqueue
    rw [hposted, hframes]
    obtain hpos | ⟨u, f, hf⟩ := h hbudget (hbacklog ▸ hqueue)
    · exact .inl hpos
    · have hne : f ≠ g := fun heq ↦ hg u (heq ▸ hf)
      exact .inr ⟨u, f, by simpa [hne] using hf⟩
  have hclient : ∀ g, takeFromClient t g l = some l' → Driven cfg l' := by
    intro g htake
    unfold takeFromClient at htake
    split at htake <;> cases htake
    next hloc => exact hmoved g _ rfl (by simp [hloc]) rfl rfl
  cases e with
  | txComplete g canceled =>
    simp only [Entry.begin, takeFromTxRing] at hbegin
    split at hbegin <;> cases hbegin
    next hring => exact hmoved g _ rfl (by simp [(howned.placed g).ring hring.1]) rfl rfl
  | xmit g | frameFree g => exact hclient g hbegin
  | _ => exact h.congr (txView_begin rfl hbegin)

end Driven

theorem driven_verified (cfg : LinkCfg) :
    (linkMachine cfg).Verified (BacklogGuard cfg) (Driven cfg) fun _ _ _ ↦ True where
  init l h := by
    obtain ⟨random, requestSeq, autostart, rfl⟩ := h
    intro _ hqueue
    exact absurd rfl hqueue
  enter t e l p l' hI hG henter := by
    obtain ⟨-, hbegin, rfl⟩ := enter_eq_some henter
    exact ⟨driven_begin hI hG.2.2 hbegin,
      Machine.Safe.of_all (.of_forall (fun _ _ ↦ trivial) _) l' trivial⟩
  exec t o i l r l' hI _ hG hrun := driven_run hI hG hrun

/-- In every run in which no completion before UP and no refusal of the ring takes the last posted frame
away from a backlog, whenever no function is running, a link that has a backlog, UP or on its way
there, has a posted frame. -/
theorem backlog_has_posted {cfg : LinkCfg} {c : (linkMachine cfg).Config}
    (hc : (linkMachine cfg).Reach (fun l s ↦ backlogCovered l s) c)
    (hbudget : 0 < cfg.tf.txRingBudget) (hidle : ∀ t, c.thread t = none)
    (hqueue : c.state.tx.txqCtrl ≠ [] ∨ c.state.tx.txqData ≠ []) :
    1 ≤ c.state.tx.ringPosted := by
  have hdriven : Driven cfg c.state := ((driven_verified cfg).sound (settled_reach hc)).1
  have hbacklog : c.state.tx.backlog ≠ [] := by
    intro hempty
    obtain ⟨hdata, hctrl⟩ := List.append_eq_nil_iff.1 hempty
    exact hqueue.elim (· hctrl) (· hdata)
  obtain hpos | ⟨t, f, hf⟩ := hdriven (Nat.pos_iff_ne_zero.1 hbudget) hbacklog
  · exact hpos
  · exact absurd hf ((tx_dutiful cfg).idle (hc.mono fun _ _ _ ↦ trivial) (hidle t) f)

def probeCfg : LinkCfg :=
  { sampleCfg .b with tf := { (sampleCfg .b).tf with txRingBudget := 1 } }

/-- The first keepalive of the data-path probe is posted and the second one is queued; then, after
`between`, the keepalive of the peer proves the data path, and the link comes UP. -/
def probeSchedule (between : List (linkMachine probeCfg).Act) : List (linkMachine probeCfg).Act :=
  [.start .session .sessionWork] ++ linkSteps .session 6 {} ++
    linkSteps .session 1 (peerAnswer .helloAck 1) ++ linkSteps .session 24 {} ++
    linkSteps .session 1 (peerAnswer .readyAck 2) ++ linkSteps .session 14 {} ++
  [.start .session .sessionWork] ++ linkSteps .session 15 {} ++ between ++
  [.start (.task 0) (.rxComplete 0 false 32 .keepalive false
    { sessionCookie := 70, sequence := 1, ackCookie := 50, ackSequence := 1 })] ++
    linkSteps (.task 0) 8 {} ++
  [.start .session .sessionWork] ++ linkSteps .session 10 {}

set_option maxRecDepth 10000 in
theorem backlog_has_posted_sample : ∃ c, (linkMachine probeCfg).Reach
    (fun l s ↦ backlogCovered l s) c ∧ (∀ t, c.thread t = none) ∧ c.state.sh.state = .up ∧
    c.state.tx.txqCtrl = [1] ∧ 1 ≤ c.state.tx.ringPosted := by
  obtain ⟨c, hc, hgoal, hidle⟩ := Machine.idle_of_play (M := linkMachine probeCfg)
    (fun c s ↦ backlogCovered c.state s)
    (fun c ↦ c.state.sh.state == .up && c.state.tx.txqCtrl == [1])
    (probeSchedule []) ⟨50, 0, true, rfl⟩ (by decide +kernel)
  simp only [Bool.and_eq_true, beq_iff_eq] at hgoal
  exact ⟨c, hc, hidle, hgoal.1, hgoal.2,
    backlog_has_posted hc (by decide) hidle (.inl (by simp [hgoal.2]))⟩

set_option maxRecDepth 10000 in
/-- The first keepalive is completed before UP, which leaves the second one queued: the link is UP
with nothing posted, and no function is running. -/
theorem backlog_without_posted : ∃ c, (linkMachine probeCfg).system.Reachable c ∧
    0 < probeCfg.tf.txRingBudget ∧ (∀ t, c.thread t = none) ∧ c.state.sh.state = .up ∧
    c.state.tx.txqCtrl = [1] ∧ c.state.tx.ringPosted = 0 := by
  obtain ⟨c, hc, hgoal, hidle⟩ := Machine.idle_of_play (M := linkMachine probeCfg)
    (fun _ _ ↦ true)
    (fun c ↦ c.state.sh.state == .up && c.state.tx.txqCtrl == [1] &&
      c.state.tx.ringPosted == 0)
    (probeSchedule ([.start (.task 1) (.txComplete 0 false)] ++ linkSteps (.task 1) 7 {}))
    ⟨50, 0, true, rfl⟩ (by decide +kernel)
  simp only [Bool.and_eq_true, beq_iff_eq] at hgoal
  exact ⟨c, hc.mono fun _ _ _ ↦ trivial, by decide, hidle, hgoal.1.1, hgoal.1.2, hgoal.2⟩

end ThunderboltStack.Tbframe
