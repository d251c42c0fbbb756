import ThunderboltStack.Lib.Monitor
import ThunderboltStack.Tbframe.LinkCode
import ThunderboltStack.Tbframe.LossModel

/-!
# The order of transmission

With a TX ring budget a data frame goes to the ring directly or through the software backlog, and
in both cases `ring_tx` is called after the section that decided so.

A monitor follows the threads from such a decision to the call.  The observer records, for the
session that is UP, the data frames that `tbframe_xmit` admitted and those that reached `ring_tx`.
If no two data frames are transmitted at the same time, no two completions run at the same time and
the ring refuses nothing, then the frames that were admitted are, in this order, those that reached
the ring, at most one that is about to, and the backlog.
-/

namespace ThunderboltStack.Tbframe

open ThunderboltStack.Lib

/-! ## What a thread is about to do -/

inductive TxPhase
  | idle
  | calling (f : ℕ)
  | control (f : ℕ)
  | posting (f : ℕ)
  | refilling (f : ℕ)
  | returning (f : ℕ)
  | downing
  deriving DecidableEq

/-- The phase of a thread after a section.  A thread that allocates a control frame may send it; one
that decided to post a frame has to call `ring_tx`; one that began a down has to flush the
backlog. -/
def TxPhase.next (q : TxPhase) : (o : Op) → o.Res → TxPhase
  | .held (.tx (.alloc _ isCtrl _)), r =>
      match r with
      | .ok f => if isCtrl then .control f else q
      | .error _ => q
  | .held (.tx (.xmit f _)), r => if r = .post then .posting f else .idle
  | .held (.tx (.complete _ _)), r =>
      match TxLocals.next r with
      | some n => .refilling n
      | none => .idle
  | .held (.tx (.ringTx _)), _ | .held (.tx (.toClient _)), _ | .held (.tx .splice), _ => .idle
  | .held (.base (.ctl .halt)), _ => .idle
  | .held (.sess (.downBegin _)), _ => .downing
  | _, _ => q

def TxPhase.Allows (q : TxPhase) : Op → Prop
  | .held (.tx (.xmit f preUp)) => q = .calling f ∧ preUp = false ∨ q = .control f
  | .held (.tx (.ringTx f)) => q = .posting f ∨ q = .refilling f
  | .held (.tx (.complete f canceled)) => q = .returning f ∨ q = .idle ∧ canceled = true
  | .held (.tx (.build f _)) => q = .control f
  | .held (.tx (.toClient f)) => q = .idle ∨ q = .control f
  | .held (.tx .splice) => q = .downing
  | .held (.tx (.alloc _ _ _)) | .held (.tx (.free _)) | .held (.tx (.ringErr _)) => q = .idle
  | .held (.tx (.refillErr _)) => q = .idle
  | .held (.sess (.downBegin _)) | .held (.sess .maybeUp) | .unlockSession => q = .idle
  | _ => True

def txMonitor : Monitor linkSig Entry TxPhase where
  idle := .idle
  enter
    | .xmit f => .calling f
    | .txComplete f _ => .returning f
    | _ => .idle
  next := TxPhase.next
  allows := TxPhase.Allows
  rests q := q = .idle

section Programs

variable {cfg : LinkCfg} {q : TxPhase} {f : ℕ} {preUp : Bool}

/-- The effect of the sections under `session_lock` on the phase. -/
def phaseEffect : Effect heldSig TxPhase
  | o, q, Q => q.Allows (.held o) ∧ ∀ r, Q r (q.next (.held o) r)

attribute [local simp] phaseEffect TxPhase.Allows TxPhase.next liftM monadLift

namespace TxPhase

theorem wlp_xmit {Q : ℤ → TxPhase → Prop} (hq : q = .calling f ∧ preUp = false ∨ q = .control f)
    (hQ : ∀ ret, Q ret .idle) : (xmit f preUp).wlp (phaseEffect.lift txHeld) Q q := by
  simp [xmit, hq]
  rintro (_ | _ | _) <;> simp [hQ]

theorem neutral_frameFree : (frameFree f).Neutral (phaseEffect.lift txHeld) .idle := by
  intro Q hQ
  simp [frameFree, hQ]

theorem neutral_sendKeepalive : (sendKeepalive preUp).Neutral (phaseEffect.lift txHeld) .idle := by
  intro Q hQ
  simp [sendKeepalive]
  rintro caps (_ | f) <;> simp [hQ]
  exact wlp_xmit (.inr rfl) fun ret ↦ by simp [hQ, neutral_frameFree _ fun _ ↦ hQ ret]

theorem neutral_clientAlloc (len : ℕ) (isCtrl : Bool) :
    (clientAlloc len isCtrl).Neutral (phaseEffect.lift txHeld) .idle := by
  intro Q hQ
  simp [clientAlloc, hQ]
  rintro _ _ (_ | f) <;> cases isCtrl <;> simp [hQ]

theorem wlp_clientXmit {Q : Unit → TxPhase → Prop} (hQ : Q () .idle) :
    (clientXmit f).wlp (phaseEffect.lift txHeld) Q (.calling f) := by
  simp [clientXmit]
  exact wlp_xmit (by simp) fun ret ↦ by simp [hQ]

/-- A completion takes one frame of the backlog to the ring, if any; the frames that it flushes are
completed in turn. -/
theorem wlp_coreTxComplete (n : ℕ) (f : ℕ) (canceled : Bool)
    (hq : q = .returning f ∨ q = .idle ∧ canceled = true) {Q : Unit → TxPhase → Prop}
    (hQ : ∀ u, Q u .idle) : (coreTxComplete n f canceled).wlp (phaseEffect.lift txHeld) Q q := by
  induction n generalizing q f canceled Q with
  | zero => simp [coreTxComplete, hQ]
  | succ n ih =>
    have hnested : ∀ g, (coreTxComplete n g true).Neutral (phaseEffect.lift txHeld) .idle :=
      fun g Q hQ ↦ ih g true (by simp) hQ
    simp [coreTxComplete, hq]
    rintro ⟨release, next, flush⟩
    have hflush := Prog.closed_neutral.forEach hnested flush
    cases next with
    | none =>
      simp [Prog.forEach]
      exact hflush _ (by simp [hQ])
    | some next =>
      simp [Prog.forEach]
      exact fun ret ↦ ⟨fun _ ↦ hnested next _ fun _ ↦ hflush _ (by simp [hQ]),
        fun _ ↦ hflush _ (by simp [hQ])⟩

/-- A down flushes the backlog before it does anything else with TX frames. -/
theorem wlp_downQuiesce {reason : DownReason} {d : DownLocals} {Q : DownReason → TxPhase → Prop}
    (hQ : ∀ r, Q r .idle) : (downQuiesce reason d).wlp phaseEffect Q .downing := by
  have hflush : ∀ flush n, (Prog.forEach flush fun qf ↦ (coreTxComplete n qf true).lift
      txHeld).Neutral phaseEffect .idle := fun flush n ↦
    Prog.closed_neutral.forEach (fun g ↦ .lift fun _ ↦ wlp_coreTxComplete n g true (by simp))
      flush
  simp [downQuiesce]
  exact ⟨fun flush n ↦ hflush flush n _ (by simp [hQ]),
    fun flush n ↦ hflush flush n _ (by simp [hQ])⟩

/-- While no TX frame is at hand, sections that touch none do not matter. -/
theorem neutral_aside : HeldAside fun _ p ↦ p.Neutral phaseEffect .idle where
  toClosed := Prog.closed_neutral
  aside o ho Q hQ := by
    cases o with
    | tx o => exact ho.elim
    | sess o => cases o <;> first | exact ⟨trivial, hQ⟩ | exact ⟨rfl, hQ⟩ | exact ho.elim
    | base o => cases o with
      | ctl o => cases o <;> exact ⟨trivial, hQ⟩
      | _ => exact ⟨trivial, hQ⟩
    | _ => exact ⟨trivial, hQ⟩

theorem closed_leads : LinkClosed cfg (fun _ p ↦ p.Neutral phaseEffect .idle)
    fun _ p ↦ p.Neutral txMonitor.effect .idle where
  toClosed := Prog.closed_neutral
  held :=
    { toHeldAside := neutral_aside
      keepalive _ := .lift neutral_sendKeepalive
      alloc len isCtrl := .lift (neutral_clientAlloc len isCtrl)
      free _ := .lift neutral_frameFree
      down reason owner := neutral_aside.downSession reason owner fun hk Q hQ ↦ by
        simp
        exact fun d ↦ wlp_downQuiesce fun r ↦ hk d r Q hQ }
  onHeld h := .lift (E := txMonitor.effect) h
  call o ho Q hQ := by
    cases o with
    | held o => exact absurd rfl (ho o)
    | unlockSession => exact ⟨rfl, hQ⟩
    | _ => exact ⟨trivial, hQ⟩

end TxPhase

/-- The code of every event keeps to the monitor. -/
theorem leads_prog (e : Entry) :
    (e.prog cfg).wlp txMonitor.effect (fun _ x ↦ txMonitor.rests x) (txMonitor.enter e) := by
  have hother : LinkClosed cfg _ _ := TxPhase.closed_leads
  cases e with
  | xmit f => exact (Prog.wlp_lift ..).mpr ((Prog.wlp_lift ..).mpr (TxPhase.wlp_clientXmit rfl))
  | txComplete f canceled =>
    refine (Prog.wlp_bind _ _ _).mpr ⟨trivial, fun n ↦ (Prog.wlp_bind _ _ _).mpr ?_⟩
    refine (Prog.wlp_lift ..).mpr ((Prog.wlp_lift ..).mpr ?_)
    exact TxPhase.wlp_coreTxComplete n f canceled (.inl rfl) fun _ ↦ ⟨trivial, fun _ ↦ rfl⟩
  | _ => exact hother.prog _ (by simp) (by simp) _ fun _ ↦ rfl

end Programs

/-! ## What a session transmitted -/

/-- The data frames of a session: those that `tbframe_xmit` admitted, those that a thread decided to
give to the ring, and those that reached `ring_tx`.  `base` is the number of frames that were posted
when the session came up. -/
structure TxRun where
  base : ℕ := 0
  issued : List ℕ := []
  posting : List (Tid × ℕ) := []
  reached : List ℕ := []

/-- The effect of a section, executed by `t` on the link `l`, on the record of the session. -/
def TxRun.exec (cfg : LinkCfg) (t : Tid) (l : Link) (s : TxRun) : HeldOp → TxRun
  | .sess .maybeUp => if l.sh.state = .up then s else { base := l.tx.ringPosted }
  | .tx (.xmit f preUp) =>
      if (l.tx.frames f).isCtrl then s
      else
        match (xmitLocked cfg t f preUp l).1 with
        | .refused => s
        | .queued => { s with issued := s.issued ++ [f] }
        | .post => { s with issued := s.issued ++ [f], posting := s.posting ++ [(t, f)] }
  | .tx (.complete f canceled) =>
      match (txCompleteLocked cfg t f canceled l).1.next with
      | none => s
      | some n => if n ∈ l.tx.txqData then { s with posting := s.posting ++ [(t, n)] } else s
  | .tx (.ringTx f) =>
      if (t, f) ∈ s.posting then
        { s with posting := s.posting.erase (t, f), reached := s.reached ++ [f] }
      else s
  | _ => s

/-- The phases of the threads, the threads that transmit a data frame for the client, those that
complete a frame, and the record of the session. -/
structure TxLog where
  phase : Tid → TxPhase := fun _ ↦ .idle
  producing : List Tid := []
  completing : List Tid := []
  session : TxRun := {}

def sendsData (l : Link) : Entry → Bool
  | .xmit f => !(l.tx.frames f).isCtrl
  | _ => false

def completesTx (_ : Link) : Entry → Bool
  | .txComplete _ _ => true
  | _ => false

def serving {cfg : LinkCfg} (kind : Link → Entry → Bool) (c : (linkMachine cfg).Config) :
    (linkMachine cfg).Label → List Tid → List Tid
  | .start t e, ts => if kind c.state e then t :: ts else ts
  | .exec _ _ _, ts => ts
  | .finish t, ts => ts.erase t

def txSee {cfg : LinkCfg} (c : (linkMachine cfg).Config) (s : (linkMachine cfg).Label)
    (log : TxLog) : TxLog where
  phase := Machine.phases txMonitor c s log.phase
  producing := serving sendsData c s log.producing
  completing := serving completesTx c s log.completing
  session :=
    match s with
    | .exec t (.held o) _ => log.session.exec cfg t c.state o
    | _ => log.session

def txRuns (cfg : LinkCfg) : System ((linkMachine cfg).Config × TxLog) (linkMachine cfg).Label :=
  (linkMachine cfg).system.observe {} txSee

/-- `ring_tx` accepts the frame; no thread handles a refusal. -/
def ringAccepts {cfg : LinkCfg} : (linkMachine cfg).Label → Bool
  | .exec _ (.held (.tx (.ringTx _))) ret => ret == (0 : ℤ)
  | .exec _ (.held (.tx (.ringErr _))) _ | .exec _ (.held (.tx (.refillErr _))) _ => false
  | _ => true

/-- While the link is UP the client transmits one data frame after the other, completions are
delivered one at a time and the ring refuses nothing. -/
def orderly {cfg : LinkCfg} (p : (linkMachine cfg).Config × TxLog) (s : (linkMachine cfg).Label) :
    Bool :=
  p.1.state.sh.state != .up ||
    (p.2.producing.length ≤ 1 && p.2.completing.length ≤ 1 && ringAccepts s)

/-- The phase of a thread fits the state: the frames it works on are in its hands, and a thread that
takes the session down holds the lock. -/
def TxPhase.Fits (l : Link) (t : Tid) (log : TxLog) : TxPhase → Prop
  | .calling f => (l.tx.frames f).loc = .held t ∧
      ((l.tx.frames f).isCtrl = false → t ∈ log.producing)
  | .control f => (l.tx.frames f).loc = .held t ∧ (l.tx.frames f).isCtrl = true
  | .returning f => (l.tx.frames f).loc = .done t ∧ (l.tx.frames f).hwPosted = true ∧
      t ∈ log.completing
  | .downing => l.ctl.sessionLock = some t ∧ l.sh.state ≠ .up
  | .idle | .posting _ | .refilling _ => True

/-- A thread is about to give a data frame to the ring: the client's, which found no backlog, or a
completion, which leaves the ring as full as it was. -/
def Posting (budget : ℕ) (l : Link) (log : TxLog) (x : Tid × ℕ) : Prop :=
  log.phase x.1 = .posting x.2 ∧ x.1 ∈ log.producing ∧ l.tx.txqData = [] ∨
    log.phase x.1 = .refilling x.2 ∧ x.1 ∈ log.completing ∧ budget ≤ l.tx.ringPosted

structure InOrder (budget : ℕ) (l : Link) (log : TxLog) : Prop where
  bound : l.tx.ringPosted ≤ max budget log.session.base
  order : log.session.issued =
    log.session.reached ++ log.session.posting.map Prod.snd ++ l.tx.txqData
  full : l.tx.txqData ≠ [] → budget ≤ l.tx.ringPosted
  one : log.session.posting.length ≤ 1
  owner : ∀ x ∈ log.session.posting, Posting budget l log x

/-- The invariant of the runs: in addition, data frames are queued on a link that is not established
only while a thread takes its session down. -/
structure TxOrdered (budget : ℕ) (l : Link) (log : TxLog) : Prop where
  fits : ∀ t, (log.phase t).Fits l t log
  drained : l.sh.state = .init → l.tx.txqData ≠ [] → ∃ t, log.phase t = .downing
  up : l.sh.state = .up → InOrder budget l log

section Steps

variable {cfg : LinkCfg} {budget : ℕ} {t u : Tid} {l l' : Link} {log log' : TxLog} {q : TxPhase}

/-- A phase fits as long as the frames in the hands of its thread are left alone. -/
theorem TxPhase.Fits.congr (h : q.Fits l u log)
    (hframe : ∀ f, (l.tx.frames f).loc.of u → l'.tx.frames f = l.tx.frames f)
    (hproducing : u ∈ log.producing → u ∈ log'.producing)
    (hcompleting : u ∈ log.completing → u ∈ log'.completing)
    (hdowning : q = .downing → l'.ctl.sessionLock = some u ∧ l'.sh.state ≠ .up) :
    q.Fits l' u log' := by
  cases q with
  | calling f =>
    have hf := hframe f (by simp [h.1, TxLoc.of])
    simp only [TxPhase.Fits, hf]
    exact ⟨h.1, fun hdata ↦ hproducing (h.2 hdata)⟩
  | control f =>
    have hf := hframe f (by simp [h.1, TxLoc.of])
    simp only [TxPhase.Fits, hf]
    exact h
  | returning f =>
    have hf := hframe f (by simp [h.1, TxLoc.of])
    simp only [TxPhase.Fits, hf]
    exact ⟨h.1, h.2.1, hcompleting h.2.2⟩
  | downing => exact hdowning rfl
  | idle | posting f | refilling f => trivial

/-- A section that works on no TX frame changes the phase only if it begins a down. -/
theorem next_aside {o : Op} {i : o.Inp} {r : o.Res} (hrun : o.run cfg t i l = some (r, l'))
    (htx : ∀ o', o ≠ .held (.tx o')) (hdown : ∀ owner, o ≠ .held (.sess (.downBegin owner))) :
    q.next o r = q := by
  cases o with
  | held o =>
    cases o with
    | tx o => exact absurd rfl (htx o)
    | sess o => cases o <;> first | rfl | exact absurd rfl (hdown _)
    | base o =>
      cases o with
      | ctl o => cases o <;> first | rfl | cases hrun
      | _ => rfl
    | _ => rfl
  | _ => rfl

/-- A thread that decided to give a frame to the ring does so before anything else. -/
theorem next_posts {o : Op} {i : o.Inp} {r : o.Res} {f : ℕ}
    (hrun : o.run cfg t i l = some (r, l')) (hallows : q.Allows o)
    (hq : q = .posting f ∨ q = .refilling f) (ho : ∀ g, o ≠ .held (.tx (.ringTx g))) :
    q.next o r = q := by
  by_cases htx : ∃ o', o = .held (.tx o')
  · obtain ⟨o, rfl⟩ := htx
    obtain rfl | rfl := hq <;> cases o <;> first
      | rfl
      | exact absurd rfl (ho _)
      | simp_all [TxPhase.Allows]
  by_cases hdown : ∃ owner, o = .held (.sess (.downBegin owner))
  · obtain ⟨owner, rfl⟩ := hdown
    obtain rfl | rfl := hq <;> cases hallows
  · exact next_aside hrun (fun o' ho' ↦ htx ⟨o', ho'⟩) fun owner ho' ↦ hdown ⟨owner, ho'⟩

/-- No other thread publishes or gives the lock away while a thread takes the session down. -/
theorem downing_kept {phase : Tid → TxPhase} {o : Op} {i : o.Inp} {r : o.Res}
    (hrun : o.run cfg t i l = some (r, l')) (hlock : LockPre t o l)
    (hallows : (phase t).Allows o) (hphase : phase u = .downing)
    (hu : l.ctl.sessionLock = some u) (hstate : l.sh.state ≠ .up) :
    l'.ctl.sessionLock = some u ∧ l'.sh.state ≠ .up := by
  have hidle : l.ctl.sessionLock = some t → phase t ≠ .idle := by
    intro ht hidle
    obtain rfl : u = t := Option.some.inj (hu.symm.trans ht)
    rw [hphase] at hidle
    cases hidle
  constructor
  · cases o with
    | held o => exact (held_run_lock hrun).trans hu
    | lockSession => simp [Op.run, hu] at hrun
    | unlockSession =>
      simp only [Op.run] at hrun
      split at hrun
      · next ht => exact absurd hallows (hidle ht)
      · cases hrun
    | _ =>
      simp only [Op.run] at hrun
      (repeat' split at hrun) <;> cases hrun <;> exact hu
  · intro hup
    obtain ⟨rfl, -⟩ := publishes_of_run hrun hstate hup
    exact hidle hlock hallows

/-- A TX section leaves its thread in a phase that fits. -/
theorem fits_tx {o : TxOp} {i : o.Inp} {r : o.Res} (hrun : o.exec cfg t l i = some (r, l'))
    (hallows : q.Allows (.held (.tx o)))
    (hfits : q.Fits l t log) (hproducing : log'.producing = log.producing)
    (hcompleting : log'.completing = log.completing)
    (hdowning : q = .downing → l'.ctl.sessionLock = some t ∧ l'.sh.state ≠ .up) :
    (q.next (.held (.tx o)) r).Fits l' t log' := by
  cases o with
  | alloc len isCtrl preUp =>
    obtain rfl : q = .idle := hallows
    cases r with
    | error e => trivial
    | ok f =>
      cases isCtrl with
      | false => trivial
      | true =>
        obtain ⟨hres, rfl⟩ := Prod.mk.inj (Option.some.inj hrun)
        have hnew := alloc_ok hres
        exact ⟨hnew.1, hnew.2.2⟩
  | build f dir =>
    obtain rfl : q = .control f := hallows
    cases hrun
    simp only [TxPhase.next, TxPhase.Fits, buildKeepalive, Function.update_self]
    exact hfits
  | xmit f preUp | complete f canceled =>
    simp only [TxPhase.next]
    split <;> trivial
  | putLink =>
    cases hrun
    exact hfits.congr (fun _ _ ↦ rfl) (hproducing ▸ id) (hcompleting ▸ id) hdowning
  | ringErr f | refillErr f | free f =>
    obtain rfl : q = .idle := hallows
    trivial
  | ringTx f | toClient f | splice => trivial

/-- What `__tbframe_xmit` does: it refuses the frame, queues it behind a full ring, or takes a place
in the ring. -/
theorem xmit_cases (cfg : LinkCfg) (t : Tid) (f : ℕ) (preUp : Bool) (l : Link)
    (hbudget : cfg.tf.txRingBudget ≠ 0) :
    let x := xmitLocked cfg t f preUp l
    (x.1 = .refused ∧ x.2.tx.ringPosted = l.tx.ringPosted ∧ x.2.tx.txqData = l.tx.txqData) ∨
    (x.1 = .queued ∧ xmitAdmitted preUp l = true ∧ cfg.tf.txRingBudget ≤ l.tx.ringPosted ∧
      x.2.tx.ringPosted = l.tx.ringPosted ∧ x.2.tx.txqData =
        if (l.tx.frames f).isCtrl then l.tx.txqData else l.tx.txqData ++ [f]) ∨
    (x.1 = .post ∧ xmitAdmitted preUp l = true ∧ l.tx.ringPosted < cfg.tf.txRingBudget ∧
      x.2.tx.ringPosted = l.tx.ringPosted + 1 ∧ x.2.tx.txqData = l.tx.txqData) := by
  simp only [xmitLocked]
  split
  · exact .inl ⟨rfl, rfl, rfl⟩
  next hadmitted =>
  have hadmitted : xmitAdmitted preUp l = true := by simpa using hadmitted
  split
  · next hfull => exact .inr (.inl ⟨rfl, hadmitted, hfull.2, rfl, rfl⟩)
  · next hfull => exact .inr (.inr ⟨rfl, hadmitted, by omega, rfl, rfl⟩)

/-- What the completion of a posted frame does on an established link: it finds no data frame in the
backlog, it takes a control frame from there, or it takes the first data frame. -/
theorem complete_cases {f : ℕ} (howned : TxOwned l) (hposted : (l.tx.frames f).hwPosted = true)
    (hup : l.sh.state = .up) (hrings : l.sess.ringsUp = true) (hbudget : cfg.tf.txRingBudget ≠ 0) :
    let x := txCompleteLocked cfg t f false l
    (x.1.next = none ∧ l.tx.txqData = [] ∧ x.2.tx.txqData = [] ∧
      x.2.tx.ringPosted ≤ l.tx.ringPosted) ∨
    (∃ n, x.1.next = some n ∧ n ∉ l.tx.txqData ∧ x.2.tx.txqData = l.tx.txqData ∧
      x.2.tx.ringPosted = l.tx.ringPosted) ∨
    (∃ n, x.1.next = some n ∧ l.tx.txqData = n :: x.2.tx.txqData ∧
      x.2.tx.ringPosted = l.tx.ringPosted) := by
  have hpos : 0 < l.tx.ringPosted := howned.ringPosted.pos hposted
  have hback : l.tx.ringPosted - 1 + 1 = l.tx.ringPosted := by omega
  have hnodup := howned.queueNodup
  simp only [txCompleteLocked, txReturn, txUnpost, hposted, if_true, txRefill, hbudget, if_false,
    hup, hrings, takeQueued, Bool.not_false, Bool.and_true, beq_self_eq_true]
  cases hctrl : l.tx.txqCtrl with
  | cons n rest =>
    refine .inr (.inl ⟨n, rfl, ?_, rfl, hback⟩)
    intro hmem
    have hmem' : n ∈ l.tx.txqCtrl := by simp [hctrl]
    exact (List.nodup_append.1 hnodup).2.2 n hmem n hmem' rfl
  | nil =>
    cases hdata : l.tx.txqData with
    | nil => exact .inl ⟨rfl, rfl, rfl, Nat.sub_le _ _⟩
    | cons n rest => exact .inr (.inr ⟨n, rfl, rfl, hback⟩)

/-- The record after a section under the lock. -/
def TxLog.after (cfg : LinkCfg) (t : Tid) (l : Link) (log : TxLog) (o : HeldOp) (r : o.Res) :
    TxLog where
  phase := Function.update log.phase t ((log.phase t).next (.held o) r)
  producing := log.producing
  completing := log.completing
  session := log.session.exec cfg t l o

/-- The order is kept if the backlog stays and the ring gets no emptier. -/
theorem InOrder.keep (h : InOrder budget l log) (hle : l.tx.ringPosted ≤ l'.tx.ringPosted)
    (hbound : l'.tx.ringPosted ≤ max budget log.session.base)
    (hqueue : l'.tx.txqData = l.tx.txqData) (hsession : log'.session = log.session)
    (hphase : ∀ x ∈ log.session.posting, log'.phase x.1 = log.phase x.1)
    (hproducing : ∀ x ∈ log.session.posting, x.1 ∈ log.producing → x.1 ∈ log'.producing)
    (hcompleting : ∀ x ∈ log.session.posting, x.1 ∈ log.completing → x.1 ∈ log'.completing) :
    InOrder budget l' log' where
  bound := hsession ▸ hbound
  order := by
    rw [hsession, hqueue]
    exact h.order
  full hne := (h.full (hqueue ▸ hne)).trans hle
  one := hsession ▸ h.one
  owner x hx := by
    rw [hsession] at hx
    rw [Posting, hphase x hx, hqueue]
    apply (h.owner x hx).imp
    · exact fun hpost ↦ ⟨hpost.1, hproducing x hx hpost.2.1, hpost.2.2⟩
    · exact fun hpost ↦ ⟨hpost.1, hcompleting x hx hpost.2.1, hpost.2.2.trans hle⟩

theorem InOrder.posts (h : InOrder budget l log) {x : Tid × ℕ} (hx : x ∈ log.session.posting) :
    log.phase x.1 = .posting x.2 ∨ log.phase x.1 = .refilling x.2 :=
  (h.owner x hx).imp And.left And.left

/-- A thread in another phase is not the one that is about to call `ring_tx`. -/
theorem InOrder.ne (h : InOrder budget l log) {x : Tid × ℕ} (hx : x ∈ log.session.posting)
    (hposting : ∀ f, log.phase t ≠ .posting f) (hrefilling : ∀ f, log.phase t ≠ .refilling f) :
    x.1 ≠ t := by
  rintro rfl
  exact (h.posts hx).elim (hposting x.2) (hrefilling x.2)

/-- While there is room in the ring, the only producer is the only one that may post. -/
theorem InOrder.none_of_producer (h : InOrder budget l log) (hone : log.producing.length ≤ 1)
    (ht : t ∈ log.producing) (hphase : ∀ f, log.phase t ≠ .posting f)
    (hroom : l.tx.ringPosted < budget) : log.session.posting = [] := by
  apply List.eq_nil_iff_forall_not_mem.2
  intro x hx
  obtain ⟨hpost, hmem, -⟩ | ⟨-, -, hfull⟩ := h.owner x hx
  · obtain rfl := eq_of_length_le_one hone hmem ht
    exact hphase _ hpost
  · omega

/-- While there is a backlog, the only completion is the only one that may post. -/
theorem InOrder.none_of_completion (h : InOrder budget l log) (hone : log.completing.length ≤ 1)
    (ht : t ∈ log.completing) (hphase : ∀ f, log.phase t ≠ .refilling f)
    (hqueue : l.tx.txqData ≠ []) : log.session.posting = [] := by
  apply List.eq_nil_iff_forall_not_mem.2
  intro x hx
  obtain ⟨-, -, hempty⟩ | ⟨hpost, hmem, -⟩ := h.owner x hx
  · exact hqueue hempty
  · obtain rfl := eq_of_length_le_one hone hmem ht
    exact hphase _ hpost

/-- A data frame of the only producer joins the backlog of a full ring. -/
theorem InOrder.queue {f : ℕ} (h : InOrder budget l log) (hfull : budget ≤ l.tx.ringPosted)
    (hone : log.producing.length ≤ 1) (ht : t ∈ log.producing)
    (hne : ∀ x ∈ log.session.posting, x.1 ≠ t) (hposted : l'.tx.ringPosted = l.tx.ringPosted)
    (hqueue : l'.tx.txqData = l.tx.txqData ++ [f])
    (hsession : log'.session = { log.session with issued := log.session.issued ++ [f] })
    (hphase : ∀ u ≠ t, log'.phase u = log.phase u)
    (hcompleting : log'.completing = log.completing) : InOrder budget l' log' where
  bound := by
    rw [hsession, hposted]
    exact h.bound
  order := by
    simp only [hsession, hqueue, h.order, List.append_assoc]
  full _ := hposted ▸ hfull
  one := hsession ▸ h.one
  owner x hx := by
    rw [hsession] at hx
    obtain ⟨-, hmem, -⟩ | ⟨hpost, hmem, -⟩ := h.owner x hx
    · exact absurd (eq_of_length_le_one hone hmem ht) (hne x hx)
    · exact .inr ⟨(hphase x.1 (hne x hx)).trans hpost, hcompleting ▸ hmem, hposted ▸ hfull⟩

/-- A data frame of the only producer finds room in the ring. -/
theorem InOrder.post {f : ℕ} (h : InOrder budget l log) (hroom : l.tx.ringPosted < budget)
    (hnone : log.session.posting = []) (ht : t ∈ log'.producing)
    (hposted : l'.tx.ringPosted = l.tx.ringPosted + 1) (hqueue : l'.tx.txqData = l.tx.txqData)
    (hsession : log'.session = { log.session with
      issued := log.session.issued ++ [f], posting := log.session.posting ++ [(t, f)] })
    (hphase : log'.phase t = .posting f) : InOrder budget l' log' := by
  have hempty : l.tx.txqData = [] := by
    by_contra hne
    exact absurd (h.full hne) (Nat.not_le.2 hroom)
  have horder := h.order
  rw [hnone, hempty] at horder
  constructor
  · rw [hsession, hposted]
    exact le_max_of_le_left hroom
  · simp [hsession, hqueue, hnone, hempty, horder]
  · exact fun hne ↦ absurd (hqueue.trans hempty) hne
  · simp [hsession, hnone]
  · intro x hx
    obtain rfl : x = (t, f) := by simpa [hsession, hnone] using hx
    exact .inl ⟨hphase, ht, hqueue.trans hempty⟩

/-- The only completion takes the first data frame of the backlog. -/
theorem InOrder.refill {f : ℕ} (h : InOrder budget l log) (hnone : log.session.posting = [])
    (ht : t ∈ log'.completing) (hposted : l'.tx.ringPosted = l.tx.ringPosted)
    (hqueue : l.tx.txqData = f :: l'.tx.txqData)
    (hsession : log'.session = { log.session with posting := log.session.posting ++ [(t, f)] })
    (hphase : log'.phase t = .refilling f) : InOrder budget l' log' := by
  have hfull : budget ≤ l'.tx.ringPosted := hposted ▸ h.full (by simp [hqueue])
  have horder := h.order
  rw [hnone, hqueue] at horder
  constructor
  · rw [hsession, hposted]
    exact h.bound
  · simp [hsession, hnone, horder]
  · exact fun _ ↦ hfull
  · simp [hsession, hnone]
  · intro x hx
    obtain rfl : x = (t, f) := by simpa [hsession, hnone] using hx
    exact .inr ⟨hphase, ht, hfull⟩

/-- The only completion finds no data frame to take. -/
theorem InOrder.release (h : InOrder budget l log) (hone : log.completing.length ≤ 1)
    (ht : t ∈ log.completing) (hne : ∀ x ∈ log.session.posting, x.1 ≠ t)
    (hposted : l'.tx.ringPosted ≤ l.tx.ringPosted) (hempty : l.tx.txqData = [])
    (hqueue : l'.tx.txqData = []) (hsession : log'.session = log.session)
    (hphase : ∀ u ≠ t, log'.phase u = log.phase u) (hproducing : log'.producing = log.producing) :
    InOrder budget l' log' where
  bound := hsession ▸ hposted.trans h.bound
  order := by
    rw [hsession, hqueue, ← hempty]
    exact h.order
  full hbacklog := absurd hqueue hbacklog
  one := hsession ▸ h.one
  owner x hx := by
    rw [hsession] at hx
    obtain ⟨hpost, hmem, -⟩ | ⟨-, hmem, -⟩ := h.owner x hx
    · exact .inl ⟨(hphase x.1 (hne x hx)).trans hpost, hproducing ▸ hmem, hqueue⟩
    · exact absurd (eq_of_length_le_one hone hmem ht) (hne x hx)

/-- The frame that was about to be given to the ring reaches it. -/
theorem InOrder.reach {f : ℕ} (h : InOrder budget l log) (hmem : (t, f) ∈ log.session.posting)
    (hposted : l'.tx.ringPosted = l.tx.ringPosted) (hqueue : l'.tx.txqData = l.tx.txqData)
    (hsession : log'.session = { log.session with
      posting := log.session.posting.erase (t, f), reached := log.session.reached ++ [f] }) :
    InOrder budget l' log' := by
  have hposting : log.session.posting = [(t, f)] := by
    have hone := h.one
    cases hlist : log.session.posting with
    | nil => simp [hlist] at hmem
    | cons x xs =>
      rw [hlist] at hone hmem
      obtain rfl : xs = [] := List.eq_nil_of_length_eq_zero (by simpa using hone)
      rw [List.mem_singleton.1 hmem]
  have horder := h.order
  rw [hposting] at horder
  constructor
  · rw [hsession, hposted]
    exact h.bound
  · simp [hsession, hposting, hqueue, horder]
  · intro hne
    rw [hposted]
    exact h.full (hqueue ▸ hne)
  · simp [hsession, hposting]
  · intro x hx
    simp [hsession, hposting] at hx

/-- Once the session is up, `__tbframe_xmit` gives a data frame to the ring only if all earlier ones
are there. -/
theorem inOrder_xmit {f : ℕ} {preUp : Bool} (hbudget : cfg.tf.txRingBudget ≠ 0)
    (h : InOrder cfg.tf.txRingBudget l log) (hone : log.producing.length ≤ 1)
    (hallows : (log.phase t).Allows (.held (.tx (.xmit f preUp))))
    (hfits : (log.phase t).Fits l t log) :
    InOrder cfg.tf.txRingBudget (xmitLocked cfg t f preUp l).2
      (log.after cfg t l (.tx (.xmit f preUp)) (xmitLocked cfg t f preUp l).1) := by
  have hcalls : log.phase t = .calling f ∨ log.phase t = .control f := hallows.imp And.left id
  have hposting : ∀ g, log.phase t ≠ .posting g := by
    intro g hg
    rw [hg] at hcalls
    simp at hcalls
  have hrefilling : ∀ g, log.phase t ≠ .refilling g := by
    intro g hg
    rw [hg] at hcalls
    simp at hcalls
  have hphase : ∀ x ∈ log.session.posting,
      (log.after cfg t l (.tx (.xmit f preUp)) (xmitLocked cfg t f preUp l).1).phase x.1 =
        log.phase x.1 :=
    fun x hx ↦ Function.update_of_ne (h.ne hx hposting hrefilling) _ _
  have hcases := xmit_cases cfg t f preUp l hbudget
  by_cases hctrl : (l.tx.frames f).isCtrl = true
  · -- a control frame may overtake the data frames
    have hsession : log.session.exec cfg t l (.tx (.xmit f preUp)) = log.session := by
      simp [TxRun.exec, hctrl]
    simp only [hctrl, if_true] at hcases
    have hqueue : (xmitLocked cfg t f preUp l).2.tx.txqData = l.tx.txqData := by grind
    have hposted : l.tx.ringPosted ≤ (xmitLocked cfg t f preUp l).2.tx.ringPosted ∧
        (xmitLocked cfg t f preUp l).2.tx.ringPosted ≤
          max cfg.tf.txRingBudget log.session.base := by
      have hbound := h.bound
      grind
    exact h.keep hposted.1 hposted.2 hqueue hsession hphase (fun _ _ ↦ id) fun _ _ ↦ id
  · have hproducing : t ∈ log.producing := by
      have hdata : (l.tx.frames f).isCtrl = false := by simpa using hctrl
      obtain hq | hq := hcalls
      · rw [hq] at hfits
        exact hfits.2 hdata
      · rw [hq] at hfits
        exact absurd hfits.2 hctrl
    simp only [hctrl] at hcases
    obtain ⟨hres, hposted, hqueue⟩ | ⟨hres, -, hfull, hposted, hqueue⟩ |
      ⟨hres, -, hroom, hposted, hqueue⟩ := hcases
    · have hsession : log.session.exec cfg t l (.tx (.xmit f preUp)) = log.session := by
        simp [TxRun.exec, hctrl, hres]
      exact h.keep hposted.ge (hposted ▸ h.bound) hqueue hsession hphase (fun _ _ ↦ id)
        fun _ _ ↦ id
    · have hsession : log.session.exec cfg t l (.tx (.xmit f preUp)) =
          { log.session with issued := log.session.issued ++ [f] } := by
        simp [TxRun.exec, hctrl, hres]
      exact h.queue hfull hone hproducing (fun x hx ↦ h.ne hx hposting hrefilling) hposted hqueue
        hsession (fun u hu ↦ Function.update_of_ne hu _ _) rfl
    · have hsession : log.session.exec cfg t l (.tx (.xmit f preUp)) = { log.session with
          issued := log.session.issued ++ [f], posting := log.session.posting ++ [(t, f)] } := by
        simp [TxRun.exec, hctrl, hres]
      have hnone := h.none_of_producer hone hproducing hposting hroom
      refine h.post hroom hnone hproducing hposted hqueue hsession ?_
      simp [TxLog.after, TxPhase.next, hres]

/-- Once the session is up, a completion takes the data frames from the backlog in turn. -/
theorem inOrder_complete {f : ℕ} (hbudget : cfg.tf.txRingBudget ≠ 0)
    (h : InOrder cfg.tf.txRingBudget l log) (hone : log.completing.length ≤ 1) (howned : TxOwned l)
    (hup : l.sh.state = .up) (hrings : l.sess.ringsUp = true) (hq : log.phase t = .returning f)
    (hfits : (log.phase t).Fits l t log) :
    InOrder cfg.tf.txRingBudget (txCompleteLocked cfg t f false l).2
      (log.after cfg t l (.tx (.complete f false)) (txCompleteLocked cfg t f false l).1) := by
  have hposting : ∀ g, log.phase t ≠ .posting g := by simp [hq]
  have hrefilling : ∀ g, log.phase t ≠ .refilling g := by simp [hq]
  have hphase : ∀ x ∈ log.session.posting,
      (log.after cfg t l (.tx (.complete f false)) (txCompleteLocked cfg t f false l).1).phase x.1 =
        log.phase x.1 :=
    fun x hx ↦ Function.update_of_ne (h.ne hx hposting hrefilling) _ _
  rw [hq] at hfits
  obtain ⟨hres, hempty, hqueue, hposted⟩ | ⟨n, hres, hmem, hqueue, hposted⟩ |
    ⟨n, hres, hqueue, hposted⟩ := complete_cases (t := t) howned hfits.2.1 hup hrings hbudget
  · have hsession : log.session.exec cfg t l (.tx (.complete f false)) = log.session := by
      simp [TxRun.exec, hres]
    exact h.release hone hfits.2.2 (fun x hx ↦ h.ne hx hposting hrefilling) hposted hempty hqueue
      hsession (fun u hu ↦ Function.update_of_ne hu _ _) rfl
  · have hsession : log.session.exec cfg t l (.tx (.complete f false)) = log.session := by
      simp [TxRun.exec, hres, hmem]
    exact h.keep hposted.ge (hposted ▸ h.bound) hqueue hsession hphase (fun _ _ ↦ id) fun _ _ ↦ id
  · have hsession : log.session.exec cfg t l (.tx (.complete f false)) =
        { log.session with posting := log.session.posting ++ [(t, n)] } := by
      simp [TxRun.exec, hres, hqueue]
    have hnone := h.none_of_completion hone hfits.2.2 hrefilling (by simp [hqueue])
    refine h.refill hnone hfits.2.2 hposted hqueue hsession ?_
    simp [TxLog.after, TxPhase.next, hres]

/-- `ring_tx` is called for the frame that its thread decided to give to the ring. -/
theorem inOrder_ringTx {f : ℕ} {ret : ℤ} {r : (TxOp.ringTx f).Res} (h : InOrder budget l log)
    (hrun : (TxOp.ringTx f).exec cfg t l ret = some (r, l'))
    (hallows : (log.phase t).Allows (.held (.tx (.ringTx f)))) :
    InOrder budget l' (log.after cfg t l (.tx (.ringTx f)) r) := by
  have hpool : l'.tx.ringPosted = l.tx.ringPosted ∧ l'.tx.txqData = l.tx.txqData := by
    simp only [TxOp.exec] at hrun
    (repeat' split at hrun) <;> cases hrun <;> exact ⟨rfl, rfl⟩
  by_cases hmem : (t, f) ∈ log.session.posting
  · exact h.reach hmem hpool.1 hpool.2 (if_pos hmem)
  · refine h.keep hpool.1.ge (hpool.1 ▸ h.bound) hpool.2 (if_neg hmem) (fun x hx ↦ ?_)
      (fun _ _ ↦ id) fun _ _ ↦ id
    apply Function.update_of_ne
    intro hx'
    have hposts := h.posts hx
    rw [hx'] at hposts
    have hf : x.2 = f := by
      obtain hq | hq := hallows <;> simp only [hq] at hposts <;> grind
    exact hmem (hx' ▸ hf ▸ hx)

/-- Once the session is up, every TX section keeps the order. -/
theorem inOrder_tx {o : TxOp} {i : o.Inp} {r : o.Res} (hbudget : cfg.tf.txRingBudget ≠ 0)
    (h : InOrder cfg.tf.txRingBudget l log) (hproducing : log.producing.length ≤ 1)
    (hcompleting : log.completing.length ≤ 1)
    (haccepts : ringAccepts (.exec t (.held (.tx o)) i : (linkMachine cfg).Label) = true)
    (hrun : o.exec cfg t l i = some (r, l')) (hup : l.sh.state = .up)
    (hrings : l.sess.ringsUp = true) (howned : TxOwned l)
    (hcancel : ∀ f, o ≠ .complete f true) (hallows : (log.phase t).Allows (.held (.tx o)))
    (hfits : (log.phase t).Fits l t log) :
    InOrder cfg.tf.txRingBudget l' (log.after cfg t l (.tx o) r) := by
  -- sections that move no frame to the ring or the backlog
  have hkeep : l'.tx.ringPosted = l.tx.ringPosted → l'.tx.txqData = l.tx.txqData →
      log.session.exec cfg t l (.tx o) = log.session → (∀ g, o ≠ .ringTx g) →
      InOrder cfg.tf.txRingBudget l' (log.after cfg t l (.tx o) r) := by
    intro hposted hqueue hsession ho
    refine h.keep hposted.ge (hposted ▸ h.bound) hqueue hsession (fun x hx ↦ ?_) (fun _ _ ↦ id)
      fun _ _ ↦ id
    by_cases hx' : x.1 = t
    · have hposts := h.posts hx
      rw [hx'] at hposts ⊢
      simp only [TxLog.after, Function.update_self]
      exact next_posts (o := .held (.tx o)) hrun hallows hposts (by simpa using ho)
    · exact Function.update_of_ne hx' _ _
  cases o with
  | xmit f preUp =>
    obtain ⟨rfl, rfl⟩ := Prod.mk.inj (Option.some.inj hrun)
    exact inOrder_xmit hbudget h hproducing hallows hfits
  | complete f canceled =>
    cases canceled with
    | true => exact absurd rfl (hcancel f)
    | false =>
      obtain ⟨rfl, rfl⟩ := Prod.mk.inj (Option.some.inj hrun)
      have hq : log.phase t = .returning f := by simpa [TxPhase.Allows] using hallows
      exact inOrder_complete hbudget h hcompleting howned hup hrings hq hfits
  | ringTx f => exact inOrder_ringTx h hrun hallows
  | splice =>
    rw [show log.phase t = .downing from hallows] at hfits
    exact absurd hup hfits.2
  | ringErr f | refillErr f => cases haccepts
  | alloc len isCtrl preUp =>
    simp only [TxOp.exec, allocFrameLocked] at hrun
    (repeat' split at hrun) <;> cases hrun <;> exact hkeep rfl rfl rfl (by simp)
  | build f dir | free f | toClient f | putLink => cases hrun; exact hkeep rfl rfl rfl (by simp)

/-- A TX section puts a data frame into an empty backlog only for `tbframe_xmit`, for a session that
is established. -/
theorem txqData_tx {o : TxOp} {i : o.Inp} {r : o.Res} (hrun : o.exec cfg t l i = some (r, l'))
    (hallows : q.Allows (.held (.tx o))) (hfits : q.Fits l t log) (hstate : l.sh.state ≠ .up)
    (hqueue : l'.tx.txqData ≠ []) : l.tx.txqData ≠ [] := by
  intro hempty
  apply hqueue
  cases o with
  | xmit f preUp =>
    obtain rfl := link_of_run hrun
    by_cases hadmitted : xmitAdmitted preUp l = true
    · have hcontrol : q = .control f := by
        apply hallows.resolve_left
        rintro ⟨-, rfl⟩
        simp [xmitAdmitted, hstate] at hadmitted
      rw [hcontrol] at hfits
      have hctrl : (l.tx.frames f).isCtrl = true := hfits.2
      simp only [xmitLocked, hadmitted, Bool.not_true, Bool.false_eq_true, if_false]
      split <;> simp [enqueueTx, postTx, hctrl, hempty]
    · simp [xmitLocked, hadmitted, hempty]
  | complete f canceled =>
    obtain ⟨-, rfl⟩ := Prod.mk.inj (Option.some.inj hrun)
    have hreturned :
        (txReturn t f { l with tx := txUnpost f canceled l.tx }).2.tx.txqData = [] := by
      simp only [txReturn, txUnpost]
      split <;> exact hempty
    obtain heq | ⟨n, tx, htake, hup, heq⟩ | heq := txRefill_cases cfg t
      (txReturn t f { l with tx := txUnpost f canceled l.tx }).2 canceled
    · simpa only [txCompleteLocked, heq] using hreturned
    · exact absurd hup hstate
    · simp [heq, spliceQueues]
  | alloc len isCtrl preUp =>
    simp only [TxOp.exec, allocFrameLocked] at hrun
    (repeat' split at hrun) <;> cases hrun <;> exact hempty
  | ringTx f =>
    simp only [TxOp.exec] at hrun
    (repeat' split at hrun) <;> cases hrun <;> exact hempty
  | splice =>
    cases hrun
    rfl
  | _ =>
    cases hrun
    exact hempty

theorem init_sess (o : SessOp) (i : o.Inp) (h : (o.exec cfg l i).2.sh.state = .init) :
    l.sh.state = .init ∨ ∃ owner, o = .downBegin owner := by
  cases o with
  | downBegin owner => exact .inr ⟨owner, rfl⟩
  | helloApply remote => exact .inl ((helloApply_state remote).symm.trans h)
  | markDead | quarantined => cases h
  | maybeUp =>
    simp only [SessOp.exec, maybeUpLocked] at h
    (repeat' split at h) <;> simp_all
  | _ =>
    refine .inl (Eq.trans (Eq.symm ?_) h)
    first | rfl | exact view_quiet (·.sh.state) i rfl rfl

theorem init_of_run {o : Op} {i : o.Inp} {r : o.Res} (hrun : o.run cfg t i l = some (r, l'))
    (hinit : l'.sh.state = .init) :
    l.sh.state = .init ∨ ∃ owner, o = .held (.sess (.downBegin owner)) := by
  by_cases hsess : ∃ s : SessOp, o = .held (.sess s)
  · obtain ⟨o, rfl⟩ := hsess
    obtain rfl := link_of_run hrun
    exact (init_sess o i hinit).imp_right fun ⟨owner, ho⟩ ↦ ⟨owner, by rw [ho]⟩
  · obtain h | h := state_run hrun fun s hs ↦ hsess ⟨s, hs⟩
    · exact .inl (h.symm.trans hinit)
    · simp [hinit] at h

structure TxExec (cfg : LinkCfg) (t : Tid) (l : Link) (log : TxLog) (o : Op) : Prop where
  owned : TxOwned l
  pre : TxPre t o l
  lock : LockPre t o l
  phased : Phased l
  uncancelled : l.sh.state = .up → ∀ f, o ≠ .held (.tx (.complete f true))
  allows : (log.phase t).Allows o

/-- A section leaves all threads in phases that fit. -/
theorem fits_run {o : Op} {i : o.Inp} {r : o.Res} (hx : TxExec cfg t l log o)
    (hrun : o.run cfg t i l = some (r, l')) (hfits : ∀ u, (log.phase u).Fits l u log)
    (hphase : log'.phase = Function.update log.phase t ((log.phase t).next o r))
    (hproducing : log'.producing = log.producing) (hcompleting : log'.completing = log.completing)
    (u : Tid) : (log'.phase u).Fits l' u log' := by
  have hdowning : log.phase u = .downing → l'.ctl.sessionLock = some u ∧ l'.sh.state ≠ .up := by
    intro hq
    have hu := hfits u
    rw [hq] at hu
    exact downing_kept hrun hx.lock hx.allows hq hu.1 hu.2
  by_cases hu : u = t
  · subst hu
    rw [hphase, Function.update_self]
    by_cases htx : ∃ o', o = .held (.tx o')
    · obtain ⟨o, rfl⟩ := htx
      exact fits_tx hrun hx.allows (hfits u) hproducing hcompleting hdowning
    have hview := (txView_run hrun).resolve_left htx
    by_cases hdown : ∃ owner, o = .held (.sess (.downBegin owner))
    · obtain ⟨owner, rfl⟩ := hdown
      have hlock : l.ctl.sessionLock = some u := hx.lock
      have hkept := held_run_lock (t := u) (o := .sess (.downBegin owner)) hrun
      refine ⟨hkept.trans hlock, fun hup ↦ ?_⟩
      cases hrun
      dsimp only at hup
      split at hup <;> cases hup
    · rw [next_aside hrun (fun o' ho ↦ htx ⟨o', ho⟩) fun owner ho ↦ hdown ⟨owner, ho⟩]
      exact (hfits u).congr (fun f _ ↦ congrFun (congrArg Prod.fst hview) f) (hproducing ▸ id)
        (hcompleting ▸ id) hdowning
  · rw [hphase, Function.update_of_ne hu]
    refine (hfits u).congr (fun f hf ↦ ?_) (hproducing ▸ id) (hcompleting ▸ id) hdowning
    exact txFrame_move txKnown (Ne.symm hu) hf (.exec hx.owned hx.pre trivial hrun)

/-- On a link that is not established, no section leaves a data frame behind in the backlog unless
its thread takes the session down. -/
theorem drained_run {o : Op} {i : o.Inp} {r : o.Res} (hx : TxExec cfg t l log o)
    (hrun : o.run cfg t i l = some (r, l')) (h : TxOrdered budget l log)
    (hphase : log'.phase = Function.update log.phase t ((log.phase t).next o r))
    (hinit : l'.sh.state = .init) (hqueue : l'.tx.txqData ≠ []) :
    ∃ u, log'.phase u = .downing := by
  obtain hinit₀ | ⟨owner, rfl⟩ := init_of_run hrun hinit
  · have hstate : l.sh.state ≠ .up := by simp [hinit₀]
    have hqueue₀ : l.tx.txqData ≠ [] := by
      obtain ⟨o, rfl⟩ | hview := txView_run hrun
      · exact txqData_tx hrun hx.allows (h.fits t) hstate hqueue
      · have hsame : l'.tx.txqData = l.tx.txqData := congrArg (·.2.1.2.2.1) hview
        rwa [← hsame]
    obtain ⟨u, hu⟩ := h.drained hinit₀ hqueue₀
    refine ⟨u, ?_⟩
    rw [hphase]
    by_cases hut : u = t
    · subst hut
      rw [Function.update_self]
      have hallows := hx.allows
      rw [hu] at hallows ⊢
      by_cases htx : ∃ o', o = .held (.tx o')
      · obtain ⟨o, rfl⟩ := htx
        cases o with
        | splice =>
          cases hrun
          exact absurd rfl hqueue
        | putLink => rfl
        | _ => simp [TxPhase.Allows] at hallows
      by_cases hdown : ∃ owner, o = .held (.sess (.downBegin owner))
      · obtain ⟨owner, rfl⟩ := hdown
        rfl
      · exact next_aside hrun (fun o' ho ↦ htx ⟨o', ho⟩) fun owner ho ↦ hdown ⟨owner, ho⟩
    · rw [Function.update_of_ne hut]
      exact hu
  · refine ⟨t, ?_⟩
    rw [hphase, Function.update_self]
    rfl

/-- A session comes up with an empty record. -/
theorem inOrder_publish (hpublish : log'.session = { base := l.tx.ringPosted })
    (hposted : l'.tx.ringPosted = l.tx.ringPosted) (hqueue : l'.tx.txqData = []) :
    InOrder budget l' log' := by
  constructor
  · rw [hpublish, hposted]
    exact le_max_right _ _
  · simp [hpublish, hqueue]
  · exact fun hne ↦ absurd hqueue hne
  · simp [hpublish]
  · simp [hpublish]

/-- The invariant is kept by the sections of an orderly run. -/
theorem txOrdered_exec {c : (linkMachine cfg).Config} {o : Op} {i : o.Inp} {r : o.Res}
    (hbudget : cfg.tf.txRingBudget ≠ 0) (hx : TxExec cfg t c.state log o)
    (hrun : o.run cfg t i c.state = some (r, l')) (h : TxOrdered cfg.tf.txRingBudget c.state log)
    (horderly : orderly (c, log) (.exec t o i) = true) :
    TxOrdered cfg.tf.txRingBudget l' (txSee c (.exec t o i) log) := by
  have hphase : (txSee c (.exec t o i) log).phase =
      Function.update log.phase t ((log.phase t).next o r) := Machine.phases_exec hrun log.phase
  refine ⟨fits_run hx hrun h.fits hphase rfl rfl, drained_run hx hrun h hphase, fun hup' ↦ ?_⟩
  by_cases hup : c.state.sh.state = .up
  · have hin := h.up hup
    obtain ⟨⟨hproducing, hcompleting⟩, haccepts⟩ : (log.producing.length ≤ 1 ∧
        log.completing.length ≤ 1) ∧
        ringAccepts (.exec t o i : (linkMachine cfg).Label) = true := by
      simpa [orderly, hup] using horderly
    by_cases htx : ∃ o', o = .held (.tx o')
    · obtain ⟨o, rfl⟩ := htx
      have hafter : txSee c (.exec t (.held (.tx o)) i) log = log.after cfg t c.state (.tx o) r :=
        congrArg (TxLog.mk · log.producing log.completing (log.session.exec cfg t c.state (.tx o)))
          hphase
      rw [hafter]
      exact inOrder_tx hbudget hin hproducing hcompleting haccepts hrun hup (hx.phased.up hup).1
        hx.owned (fun f ho ↦ hx.uncancelled hup f (by rw [ho])) hx.allows (h.fits t)
    · have hview := (txView_run hrun).resolve_left htx
      have hposted : l'.tx.ringPosted = c.state.tx.ringPosted := congrArg (·.2.2.1) hview
      have hqueue : l'.tx.txqData = c.state.tx.txqData := congrArg (·.2.1.2.2.1) hview
      have hsession : (txSee c (.exec t o i) log).session = log.session := by
        cases o with
        | held o =>
          cases o with
          | tx o => exact absurd ⟨o, rfl⟩ htx
          | sess o => cases o <;> simp [txSee, TxRun.exec, hup]
          | _ => rfl
        | _ => rfl
      refine hin.keep hposted.ge (hposted ▸ hin.bound) hqueue hsession (fun x hmem ↦ ?_)
        (fun _ _ ↦ id) fun _ _ ↦ id
      rw [hphase]
      by_cases hxt : x.1 = t
      · have hposts := hin.posts hmem
        rw [hxt] at hposts ⊢
        rw [Function.update_self]
        exact next_posts hrun hx.allows hposts fun g ho ↦ htx ⟨_, ho⟩
      · exact Function.update_of_ne hxt _ _
  · obtain ⟨rfl, rfl⟩ := publishes_of_run hrun hup hup'
    have hview : txView (maybeUpLocked cfg c.state).2 = txView c.state :=
      view_sess txView .maybeUp i rfl
    have hlock : c.state.ctl.sessionLock = some t := hx.lock
    refine inOrder_publish ?_ (congrArg (·.2.2.1) hview) ?_
    · simp [txSee, TxRun.exec, hup]
    · -- a thread that takes the session down would hold the lock
      refine (congrArg (·.2.1.2.2.1) hview).trans (Classical.byContradiction fun hqueue ↦ ?_)
      have hinit : c.state.sh.state = .init := by
        cases hstate : c.state.sh.state with
        | init => rfl
        | up => exact absurd hstate hup
        | dead => simp [maybeUpLocked, hstate] at hup'
      obtain ⟨u, hu⟩ := h.drained hinit hqueue
      have hfits := h.fits u
      rw [hu] at hfits
      obtain rfl : u = t := Option.some.inj (hfits.1.symm.trans hlock)
      have hidle : log.phase u = .idle := hx.allows
      simp [hu] at hidle

/-- The invariant is kept when a thread takes up an event. -/
theorem txOrdered_start {c : (linkMachine cfg).Config} {e : Entry} {p : LinkProg Unit}
    (howned : TxOwned c.state) (hidle : log.phase t = .idle)
    (henter : (linkMachine cfg).enter t e c.state = some (p, l'))
    (h : TxOrdered budget c.state log) :
    TxOrdered budget l' (txSee c (.start t e) log) := by
  have hbegin := (enter_eq_some henter).2.1
  have hstate := view_begin (·.sh.state) hbegin rfl
  have hpool : l'.tx.ringPosted = c.state.tx.ringPosted ∧
      l'.tx.txqData = c.state.tx.txqData := by
    cases e with
    | txComplete f canceled =>
      simp only [Entry.begin, takeFromTxRing] at hbegin
      split at hbegin <;> cases hbegin
      exact ⟨rfl, rfl⟩
    | xmit f | frameFree f =>
      simp only [Entry.begin, takeFromClient] at hbegin
      split at hbegin <;> cases hbegin
      exact ⟨rfl, rfl⟩
    | _ =>
      have hview := txView_begin rfl hbegin
      exact ⟨congrArg (·.2.2.1) hview, congrArg (·.2.1.2.2.1) hview⟩
  have hjoins : ∀ (kind : Link → Entry → Bool) (ts : List Tid) (u : Tid), u ∈ ts →
      u ∈ serving kind c (.start t e) ts := by
    intro kind ts u hu
    simp only [serving]
    split
    · exact List.mem_cons_of_mem t hu
    · exact hu
  have hother : ∀ u ≠ t, (txSee c (.start t e) log).phase u = log.phase u :=
    fun u hu ↦ Function.update_of_ne hu _ _
  constructor
  · intro u
    by_cases hu : u = t
    · subst hu
      rw [show (txSee c (.start u e) log).phase u = txMonitor.enter e from Function.update_self ..]
      cases e with
      | xmit f =>
        simp only [Entry.begin, takeFromClient] at hbegin
        split at hbegin <;> cases hbegin
        refine ⟨by simp, fun hdata ↦ ?_⟩
        have hkind : (c.state.tx.frames f).isCtrl = false := by simpa using hdata
        simp [txSee, serving, sendsData, hkind]
      | txComplete f canceled =>
        simp only [Entry.begin, takeFromTxRing] at hbegin
        split at hbegin <;> cases hbegin
        next htaken =>
        have hplaced := howned.placed f
        have hposted : (c.state.tx.frames f).hwPosted = true :=
          hplaced.posted (by rw [hplaced.ring htaken.1]; rfl)
        exact ⟨by simp, by simpa using hposted, by simp [txSee, serving, completesTx]⟩
      | _ => trivial
    · rw [hother u hu]
      refine (h.fits u).congr (fun f hf ↦ ?_) (hjoins _ _ u) (hjoins _ _ u) fun hq ↦ ?_
      · exact txFrame_move txKnown (Ne.symm hu) hf (.enter howned trivial henter)
      · have hfits := h.fits u
        rw [hq] at hfits
        have hlock : l'.ctl.sessionLock = c.state.ctl.sessionLock :=
          congrArg (·.2.1) (view_begin owned hbegin rfl)
        exact ⟨hlock.trans hfits.1, hstate ▸ hfits.2⟩
  · intro hinit hqueue
    obtain ⟨u, hu⟩ := h.drained (hstate ▸ hinit) (hpool.2 ▸ hqueue)
    have hut : u ≠ t := by
      rintro rfl
      simp [hidle] at hu
    exact ⟨u, (hother u hut).trans hu⟩
  · intro hup
    have hin := h.up (hstate ▸ hup)
    refine hin.keep hpool.1.ge (hpool.1 ▸ hin.bound) hpool.2 rfl (fun x hx ↦ ?_)
      (fun x _ ↦ hjoins _ _ x.1) fun x _ ↦ hjoins _ _ x.1
    exact hother x.1 (hin.ne hx (by simp [hidle]) (by simp [hidle]))

/-- The invariant is kept when a thread returns. -/
theorem txOrdered_finish {c : (linkMachine cfg).Config} (hidle : log.phase t = .idle)
    (h : TxOrdered budget c.state log) :
    TxOrdered budget c.state (txSee c (.finish t) log) := by
  have hphase : (txSee c (.finish t) log).phase = log.phase := by
    have hupdate : Function.update log.phase t .idle = log.phase := by
      rw [← hidle]
      exact Function.update_eq_self t log.phase
    exact hupdate
  have hstays : ∀ (ts : List Tid) (u : Tid), u ≠ t → u ∈ ts → u ∈ ts.erase t :=
    fun _ _ hu hmem ↦ (List.mem_erase_of_ne hu).2 hmem
  constructor
  · intro u
    rw [hphase]
    by_cases hu : u = t
    · subst hu
      rw [hidle]
      trivial
    · refine (h.fits u).congr (fun _ _ ↦ rfl) (hstays _ u hu) (hstays _ u hu) fun hq ↦ ?_
      have hfits := h.fits u
      rw [hq] at hfits
      exact hfits
  · rw [hphase]
    exact h.drained
  · intro hup
    have hin := h.up hup
    have hne : ∀ x ∈ log.session.posting, x.1 ≠ t :=
      fun x hx ↦ hin.ne hx (by simp [hidle]) (by simp [hidle])
    exact hin.keep le_rfl hin.bound rfl rfl (fun _ _ ↦ congrFun hphase _)
      (fun x hx ↦ hstays _ x.1 (hne x hx)) fun x hx ↦ hstays _ x.1 (hne x hx)

end Steps

/-! ## Whole runs -/

section Runs

variable {cfg : LinkCfg} {p : (linkMachine cfg).Config × TxLog}

theorem monitored_txRuns {allowed : (linkMachine cfg).Config × TxLog → _ → Prop}
    (hp : (txRuns cfg).Reach allowed p) : Machine.Monitored txMonitor p.1 p.2.phase := by
  apply Machine.monitored_reach (fun _ ↦ rfl) (fun _ _ _ ↦ rfl) _ hp
  intro t e l p l' henter
  rw [(enter_eq_some henter).2.2]
  exact leads_prog e

/-- No refill fails in an orderly run on a link that is UP. -/
theorem orderly_covered {s : (linkMachine cfg).Label} (h : orderly p s = true) :
    refillCovered p.1.state s = true := by
  unfold refillCovered
  split
  · simpa [orderly, ringAccepts] using h
  · rfl

/-- What is known about the sections of an orderly run. -/
theorem txExec_reach {c' : (linkMachine cfg).Config} {t : Tid} {o : Op} {i : o.Inp}
    (hp : (txRuns cfg).Reach (fun p s ↦ orderly p s = true) p)
    (horderly : orderly p (.exec t o i) = true)
    (hstep : (linkMachine cfg).Step p.1 (.exec t o i) c') : TxExec cfg t p.1.state p.2 o := by
  have hc : (linkMachine cfg).system.Reachable p.1 := hp.reachable
  have hsettled := settled_step hc hstep
  have hcovered : (linkMachine cfg).Reach (fun l s ↦ refillCovered l s) p.1 :=
    hp.unobserve fun _ _ h ↦ orderly_covered h
  have hreach : (linkMachine cfg).Reach (LossGuard cfg) p.1 := settled_reach hcovered
  refine ⟨hsettled.2.1, hsettled.2.2, (lock_verified cfg).pre hc trivial hstep,
    hsettled.1.2.1.phased, fun hup f ho ↦ ?_, (monitored_txRuns hp).allows_exec hstep⟩
  -- frames are cancelled only for rings that are spent
  subst ho
  have hspent : p.1.state.his.spent = true :=
    (loss_verified cfg).pre hreach ⟨orderly_covered horderly, hsettled⟩ hstep
  exact ((loss_verified cfg).sound hreach).1.spent hspent hup

/-- In every orderly run the data frames of a session are transmitted in order. -/
theorem txOrdered_reach (hbudget : cfg.tf.txRingBudget ≠ 0)
    (hp : (txRuns cfg).Reach (fun p s ↦ orderly p s = true) p) :
    TxOrdered cfg.tf.txRingBudget p.1.state p.2 := by
  induction hp with
  | @start p hinit =>
    obtain ⟨⟨⟨random, seq, autostart, hcreate⟩, -⟩, hlog⟩ := hinit
    rw [hcreate, hlog]
    exact ⟨fun _ ↦ trivial, fun _ hne ↦ absurd rfl hne, fun hup ↦ by cases hup⟩
  | @next p p' s hp horderly hstep ih =>
    obtain ⟨c', log'⟩ := p'
    obtain ⟨hstep, rfl⟩ := hstep
    have hmonitored := monitored_txRuns hp
    cases hstep with
    | @start t e prog l' hidle henter =>
      have howned : TxOwned p.1.state := ((tx_verified cfg).sound hp.reachable).1
      exact txOrdered_start howned (hmonitored.idle t hidle) henter ih
    | @exec t o k i r l' hthread hrun =>
      have hx := txExec_reach hp horderly (.exec hthread hrun)
      exact txOrdered_exec hbudget hx hrun ih horderly
    | @finish t hthread => exact txOrdered_finish (hmonitored.rests_finish (.finish hthread)) ih

/-- While a session is UP, if data frames are transmitted one after the other, completions are
delivered one at a time and the ring refuses nothing, the ring holds no more frames than the budget
or than it held when the session came up, and the data frames that `tbframe_xmit` admitted are those
that reached `ring_tx`, at most one that is about to, and the backlog, in this order. -/
theorem data_frames_in_order (hbudget : cfg.tf.txRingBudget ≠ 0)
    (hp : (txRuns cfg).Reach (fun p s ↦ orderly p s = true) p) (hup : p.1.state.sh.state = .up) :
    p.1.state.tx.ringPosted ≤ max cfg.tf.txRingBudget p.2.session.base ∧
      p.2.session.posting.length ≤ 1 ∧ p.2.session.issued =
        p.2.session.reached ++ p.2.session.posting.map Prod.snd ++ p.1.state.tx.txqData :=
  have h := (txOrdered_reach hbudget hp).up hup
  ⟨h.bound, h.one, h.order⟩

end Runs

/-- The client allocates a data frame and transmits it as frame `f`, in `n` steps. -/
def dataSchedule (f n : ℕ) : List (linkMachine budgetCfg).Act :=
  [.start (.task 0) (.allocFrame 8 false)] ++ linkSteps (.task 0) 3 {} ++
  [.start (.task 0) (.xmit f)] ++ linkSteps (.task 0) n {}

/-- A data frame goes to the ring and is completed.  After a control frame filled the ring, another
data frame goes to the backlog, and the completion of the control frame takes it from there. -/
def refillSchedule : List (linkMachine budgetCfg).Act :=
  upSchedule ++ dataSchedule 0 5 ++
    [.start (.task 1) (.txComplete 0 false)] ++ linkSteps (.task 1) 7 {} ++
  sendSchedule 1 5 ++ dataSchedule 0 4 ++
    [.start (.task 1) (.txComplete 1 false)] ++ linkSteps (.task 1) 3 {}

set_option maxRecDepth 10000 in
theorem data_frames_in_order_sample : ∃ p,
    (txRuns budgetCfg).Reach (fun p s ↦ orderly p s = true) p ∧ p.1.state.sh.state = .up ∧
    p.2.session.issued = [0, 0] ∧ p.2.session.reached = [0] ∧
    p.1.state.tx.ringPosted ≤ max budgetCfg.tf.txRingBudget p.2.session.base ∧
    p.2.session.posting.length ≤ 1 ∧ p.2.session.issued =
      p.2.session.reached ++ p.2.session.posting.map Prod.snd ++ p.1.state.tx.txqData := by
  obtain ⟨p, hp, hgoal⟩ := System.Exec.reach_of_play
    ((linkMachine budgetCfg).exec.observe : (txRuns budgetCfg).Exec) orderly
    (fun p ↦ p.1.state.sh.state == .up && p.2.session.issued == [0, 0] &&
      p.2.session.reached == [0])
    refillSchedule (s := ((linkMachine budgetCfg).idle _, {}))
    ⟨Machine.init_idle ⟨50, 0, true, rfl⟩, rfl⟩ (by decide +kernel)
  simp only [Bool.and_eq_true, beq_iff_eq] at hgoal
  obtain ⟨⟨hup, hissued⟩, hreached⟩ := hgoal
  exact ⟨p, hp, hup, hissued, hreached, data_frames_in_order (by decide) hp hup⟩

end ThunderboltStack.Tbframe
