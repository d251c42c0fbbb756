import ThunderboltStack.Tbframe.Cable
import ThunderboltStack.Tbframe.TxOwner

/-!
# What an echoed keepalive proves

A session that acknowledges keepalives echoes the cookie and the sequence number of a keepalive it
received.  The echo stands for the current generation of the other end only if no earlier generation
transmitted keepalives under the same cookie: `keepalive_tx_seq` restarts with every generation, and
a down that the peer owns keeps the cookie.
-/

namespace ThunderboltStack.Tbframe

open ThunderboltStack.Lib

def ackKeepalive (pdf : Pdf) (len : ℕ) (data : Keepalive) : Option Keepalive :=
  if pdf = .keepalive ∧ len = keepaliveLen true then some data else none

def TxFrame.keepalive (fr : TxFrame) : Option Keepalive :=
  ackKeepalive fr.pdf fr.len fr.data

/-- The acknowledging keepalive in a frame that `ring_tx` accepted. -/
def TxEvent.keepalive (p : TxEvent) : Option Keepalive :=
  ackKeepalive p.pdf p.len p.data

def RxEvent.keepalive (e : RxEvent) : Option Keepalive :=
  if e.bad then none else ackKeepalive e.pdf e.len e.data

theorem mem_ackKeepalive {pdf : Pdf} {len : ℕ} {data k : Keepalive} :
    k ∈ ackKeepalive pdf len data ↔ (pdf = .keepalive ∧ len = keepaliveLen true) ∧ data = k := by
  unfold ackKeepalive
  split <;> simp [*]

def Heard (l : Link) (cookie : UInt64) (sequence : ℕ) : Prop :=
  ∃ e ∈ l.his.received, ∃ k ∈ e.keepalive, k.sessionCookie = cookie ∧ k.sequence = sequence

def Echoes (l : Link) (k : Keepalive) : Prop :=
  k.ackSequence ≠ 0 → Heard l k.ackCookie k.ackSequence

/-- The link echoes what it received, and its keepalives under the current cookie belong to the
open generation.  `P` holds for the keepalives that reach the link. -/
structure Echoing (P : Keepalive → Prop) (l : Link) : Prop where
  fed : ∀ e ∈ l.his.received, ∀ k ∈ e.keepalive, P k
  closed : l.sess.ringsUp = false → l.prf.keepalivePeerSeq = 0
  heard : l.prf.keepalivePeerSeq ≠ 0 → Heard l l.sess.remote.cookie l.prf.keepalivePeerSeq
  frames : ∀ f, ∀ k ∈ (l.tx.frames f).keepalive, Echoes l k
  posted : ∀ p ∈ l.his.posted, ∀ k ∈ p.keepalive, Echoes l k
  fresh : l.his.genOpen → ∀ p ∈ l.his.posted, ∀ k ∈ p.keepalive,
    k.sessionCookie = l.sess.localCookie → p.generation = l.sess.dataGeneration

/-- The keepalive that a step feeds to the link has `P`. -/
def Fed (P : Keepalive → Prop) {cfg : LinkCfg} : (linkMachine cfg).Label → Prop
  | .start _ (.rxComplete _ false len pdf false data) => ∀ k ∈ ackKeepalive pdf len data, P k
  | _ => True

/-- A bring-up finds a cookie under which no keepalive was transmitted. -/
def freshCookie {cfg : LinkCfg} (l : Link) : (linkMachine cfg).Label → Bool
  | .exec _ (.held (.sess .bringUpBegin)) _ => l.his.posted.all fun p ↦
      p.keepalive.all fun k ↦ k.sessionCookie != l.sess.localCookie
  | _ => true

/-- The steps of a link that receives keepalives with `P` and brings sessions up under fresh
cookies. -/
def EchoGuard (P : Keepalive → Prop) (cfg : LinkCfg) : (linkMachine cfg).Guard :=
  fun l s ↦ (Fed P s ∧ freshCookie l s) ∧ Settled cfg l s

def EchoPre (P : Keepalive → Prop) (_ : Tid) : Op → Link → Prop
  | .held (.rx (.complete _ c data)), _ =>
      c.bad = false → ∀ k ∈ ackKeepalive c.pdf c.len data, P k
  | _, _ => True

section Steps

variable {cfg : LinkCfg} {t : Tid} {l l' : Link} {P : Keepalive → Prop}

def echoView (l : Link) :
    (UInt64 × Bool × UInt64 × ℕ × Bool) × ℕ × List RxEvent × List TxEvent :=
  ((l.sess.remote.cookie, l.sess.ringsUp, l.sess.localCookie, l.sess.dataGeneration,
    l.his.genOpen), l.prf.keepalivePeerSeq, l.his.received, l.his.posted)

theorem Heard.mono {cookie : UInt64} {sequence : ℕ} (h : Heard l cookie sequence)
    (hreceived : l.his.received ⊆ l'.his.received) : Heard l' cookie sequence := by
  obtain ⟨e, he, hk⟩ := h
  exact ⟨e, hreceived he, hk⟩

theorem Echoes.mono {k : Keepalive} (h : Echoes l k)
    (hreceived : l.his.received ⊆ l'.his.received) : Echoes l' k :=
  fun hack ↦ (h hack).mono hreceived

/-- A step that neither receives nor posts a frame nor changes the session keeps the echo if the
keepalives in the frames were there before. -/
theorem Echoing.congr (h : Echoing P l) (hview : echoView l' = echoView l)
    (hframes : ∀ f, ∀ k ∈ (l'.tx.frames f).keepalive, k ∈ (l.tx.frames f).keepalive) :
    Echoing P l' := by
  simp only [echoView, Prod.mk.injEq] at hview
  obtain ⟨⟨hremote, hrings, hcookie, hgen, hopen⟩, hseq, hreceived, hposted⟩ := hview
  have hsub : l.his.received ⊆ l'.his.received := hreceived ▸ List.Subset.refl _
  constructor
  · rw [hreceived]; exact h.fed
  · rw [hrings, hseq]; exact h.closed
  · rw [hremote, hseq]
    exact fun hne ↦ (h.heard hne).mono hsub
  · exact fun f k hk ↦ (h.frames f k (hframes f k hk)).mono hsub
  · rw [hposted]
    exact fun p hp k hk ↦ (h.posted p hp k hk).mono hsub
  · rw [hopen, hposted, hcookie, hgen]; exact h.fresh

/-- Replacing one frame by one with the same keepalive, or without one. -/
theorem keepalive_update {frames : ℕ → TxFrame} {f : ℕ} {fr : TxFrame}
    (hfr : ∀ k ∈ fr.keepalive, k ∈ (frames f).keepalive) (g : ℕ) (k : Keepalive)
    (hk : k ∈ (Function.update frames f fr g).keepalive) : k ∈ (frames g).keepalive := by
  by_cases hg : g = f
  · subst hg
    rw [Function.update_self] at hk
    exact hfr k hk
  · rwa [Function.update_of_ne hg] at hk

theorem keepalive_begin {e : Entry} (h : e.begin t l = some l') (f : ℕ) :
    ∀ k ∈ (l'.tx.frames f).keepalive, k ∈ (l.tx.frames f).keepalive := by
  cases e <;> simp only [Entry.begin, startWork, takeFromClient, takeFromTxRing, takeFromRxRing,
    verifyTimerFn] at h <;> (repeat' split at h) <;> cases h <;> intro k hk <;> first
    | exact hk
    | exact keepalive_update (by exact fun _ h ↦ h) f k hk

/-- TX sections other than the post of a frame leave all but the frames alone. -/
theorem echoView_tx {o : TxOp} {i : o.Inp} {r : o.Res} (h : o.exec cfg t l i = some (r, l'))
    (hring : ∀ f, o ≠ .ringTx f) : echoView l' = echoView l := by
  cases o with
  | ringTx f => exact absurd rfl (hring f)
  | _ =>
    simp only [TxOp.exec, allocFrameLocked, xmitLocked] at h
    (repeat' split at h) <;> cases h <;> rfl

/-- Of the TX sections only `tbframe_link_send_keepalive` writes keepalives. -/
theorem keepalive_tx {o : TxOp} {i : o.Inp} {r : o.Res} (h : o.exec cfg t l i = some (r, l'))
    (hbuild : ∀ f dir, o ≠ .build f dir) (f : ℕ) (k : Keepalive)
    (hk : k ∈ (l'.tx.frames f).keepalive) : k ∈ (l.tx.frames f).keepalive := by
  cases o with
  | build f dir => exact absurd rfl (hbuild f dir)
  | alloc len isCtrl preUp =>
    simp only [TxOp.exec, allocFrameLocked] at h
    (repeat' split at h) <;> cases h <;> first
      | exact hk
      | exact keepalive_update (by simp [TxFrame.keepalive, ackKeepalive]) f k hk
  | complete g canceled =>
    cases h
    have hreturn : ∀ k ∈ ((txReturn t g { l with tx := txUnpost g canceled l.tx }).2.tx.frames
        f).keepalive, k ∈ (l.tx.frames f).keepalive := by
      intro k hk
      have hunpost := keepalive_update (by exact fun _ h ↦ h) f k hk
      simp only [txUnpost] at hunpost
      split at hunpost
      · exact keepalive_update (by exact fun _ h ↦ h) f k hunpost
      · exact hunpost
    obtain heq | ⟨n, tx, htake, -, heq⟩ | heq := txRefill_cases cfg t
      (txReturn t g { l with tx := txUnpost g canceled l.tx }).2 canceled
    all_goals simp only [heq] at hk
    · exact hreturn k hk
    · have hpost := keepalive_update (by exact fun _ h ↦ h) f k hk
      rw [(takeQueued_eq htake).1] at hpost
      exact hreturn k hpost
    · simp only [spliceQueues] at hk
      split at hk <;> exact hreturn k hk
  | splice =>
    cases h
    simp only [spliceQueues] at hk
    split at hk <;> exact hk
  | xmit g preUp =>
    simp only [TxOp.exec, xmitLocked] at h
    (repeat' split at h) <;> cases h <;> first
      | exact hk
      | exact keepalive_update (by exact fun _ h ↦ h) f k hk
  | ringTx g =>
    simp only [TxOp.exec] at h
    (repeat' split at h) <;> cases h <;> first
      | exact hk
      | exact keepalive_update (by exact fun _ h ↦ h) f k hk
  | putLink =>
    cases h
    exact hk
  | _ =>
    cases h
    exact keepalive_update (by exact fun _ h ↦ h) f k hk

/-- A keepalive acknowledges the last sequence number that was received. -/
theorem echoing_build {f : ℕ} {dir : Bool} (h : Echoing P l)
    (hlen : (l.tx.frames f).len = keepaliveLen dir) : Echoing P (buildKeepalive f dir l) := by
  refine { h with frames := fun g k hk ↦ ?_ }
  by_cases hg : g = f
  · subst hg
    simp only [buildKeepalive, Function.update_self, TxFrame.keepalive, mem_ackKeepalive] at hk
    obtain ⟨⟨-, hdir⟩, rfl⟩ := hk
    have hdir : dir = true := by
      rw [hlen] at hdir
      cases dir with
      | true => rfl
      | false => cases hdir
    subst hdir
    intro hack
    have hseq : l.prf.keepalivePeerSeq ≠ 0 := hack
    have hheard : Heard (buildKeepalive g true l) l.sess.remote.cookie l.prf.keepalivePeerSeq :=
      h.heard hseq
    simpa [hseq] using hheard
  · simp only [buildKeepalive, Function.update_of_ne hg] at hk
    exact h.frames g k hk

/-- A frame that the ring accepts is one of the open generation. -/
theorem echoing_ringTx {f : ℕ} (h : Echoing P l) : Echoing P (ringTxAccept f l) := by
  refine { h with frames := ?_, posted := ?_, fresh := ?_ }
  · exact fun g k hk ↦ h.frames g k (keepalive_update (by exact fun _ h ↦ h) g k hk)
  · intro p hp k hk
    obtain rfl | hp := List.mem_cons.1 hp
    · exact h.frames f k hk
    · exact h.posted p hp k hk
  · intro hopen p hp k hk hcookie
    obtain rfl | hp := List.mem_cons.1 hp
    · rfl
    · exact h.fresh hopen p hp k hk hcookie

theorem echoing_tx {o : TxOp} {i : o.Inp} {r : o.Res} (h : Echoing P l)
    (hpre : TxPre t (.held (.tx o)) l) (hrun : o.exec cfg t l i = some (r, l')) : Echoing P l' := by
  cases o with
  | build f dir =>
    cases hrun
    exact echoing_build h hpre.2
  | ringTx f =>
    simp only [TxOp.exec] at hrun
    split at hrun
    · split at hrun <;> cases hrun
      exact echoing_ringTx h
    · cases hrun
      exact h
  | _ => exact h.congr (echoView_tx hrun (by simp)) (keepalive_tx hrun (by simp))

/-- The sequence number that is echoed after a completion was received. -/
theorem echoing_complete {f : ℕ} {c : RxLocals} {data : Keepalive} (h : Echoing P l)
    (hlocals : c = rxLocals c.directional c.len c.pdf c.bad data)
    (hpre : EchoPre P t (.held (.rx (.complete f c data))) l) :
    Echoing P (rxCompleteLocked f c data l).2 := by
  have hreceived : (rxCompleteLocked f c data l).2.his.received =
      rxEvent f c data l :: l.his.received := by simp [rxCompleteLocked]
  have hsub : l.his.received ⊆ (rxCompleteLocked f c data l).2.his.received := by
    rw [hreceived]
    exact List.subset_cons_self _ _
  have hheard : (rxCompleteLocked f c data l).2.prf.keepalivePeerSeq = l.prf.keepalivePeerSeq ∨
      l.sess.ringsUp ∧ Heard (rxCompleteLocked f c data l).2 l.sess.remote.cookie
        (rxCompleteLocked f c data l).2.prf.keepalivePeerSeq := by
    obtain hclaims | ⟨-, hproof, hcookie, hrings, hclaims⟩ := rxAccount_claims
      ((l.rx.frames f).rxGeneration == l.sess.dataGeneration) c
      { l with his := { l.his with received := rxEvent f c data l :: l.his.received } }
    · exact .inl (congrArg (·.2.2.2.2) hclaims)
    · rw [proofAccept_claims] at hclaims
      have hseq := congrArg (·.2.2.2.2) hclaims
      dsimp only at hseq
      split at hseq
      · next hnew =>
        simp only [Bool.and_eq_true, decide_eq_true_eq] at hnew
        rw [hlocals] at hproof
        obtain ⟨hbad, hpdf, hlen, hcookie', hdata⟩ := rxLocals_proof hproof
        rw [hnew.1] at hlen
        rw [← hlocals] at hcookie' hdata
        refine .inr ⟨hrings, rxEvent f c data l, by simp [hreceived], data, ?_,
          hcookie'.symm.trans hcookie, ?_⟩
        · simp [RxEvent.keepalive, rxEvent, hbad, hpdf, hlen, ackKeepalive]
        · exact (congrArg Keepalive.sequence (hdata hnew.1).1).symm.trans hseq.symm
      · exact .inl hseq
  have hsess : (rxCompleteLocked f c data l).2.sess = l.sess := by simp [rxCompleteLocked]
  have hposted : (rxCompleteLocked f c data l).2.his.posted = l.his.posted := by
    simp [rxCompleteLocked]
  constructor
  · rw [hreceived]
    intro e he k hk
    obtain rfl | he := List.mem_cons.1 he
    · cases hbad : c.bad with
      | true => simp [RxEvent.keepalive, rxEvent, hbad] at hk
      | false =>
        simp only [RxEvent.keepalive, rxEvent, hbad] at hk
        exact hpre hbad k hk
    · exact h.fed e he k hk
  · rw [hsess]
    intro hrings
    obtain hseq | ⟨hup, -⟩ := hheard
    · exact hseq.trans (h.closed hrings)
    · simp [hrings] at hup
  · rw [hsess]
    intro hne
    obtain hseq | ⟨-, hheard⟩ := hheard
    · rw [hseq] at hne ⊢
      exact (h.heard hne).mono hsub
    · exact hheard
  · have htx : (rxCompleteLocked f c data l).2.tx = l.tx := by simp [rxCompleteLocked]
    rw [htx]
    exact fun g k hk ↦ (h.frames g k hk).mono hsub
  · rw [hposted]
    exact fun p hp k hk ↦ (h.posted p hp k hk).mono hsub
  · have hopen : (rxCompleteLocked f c data l).2.his.genOpen = l.his.genOpen := by
      simp [rxCompleteLocked]
    rw [hopen, hposted, hsess]
    exact h.fresh

theorem echoing_rx {o : RxOp} {i : o.Inp} {r : o.Res} (h : Echoing P l)
    (hevidence : EvidencePre (.held (.rx o)) l) (hpre : EchoPre P t (.held (.rx o)) l)
    (hrun : o.exec t l i = some (r, l')) : Echoing P l' := by
  cases o with
  | complete f c data =>
    cases hrun
    exact echoing_complete h hevidence.1 hpre
  | _ =>
    have hframes : l'.tx.frames = l.tx.frames := congrArg Prod.fst (view_rx txView hrun rfl)
    refine h.congr ?_ fun f k hk ↦ hframes ▸ hk
    simp only [RxOp.exec, takeRxFree, clientPutRxRef] at hrun
    (repeat' split at hrun) <;> cases hrun <;> rfl

/-- Under fresh cookies, the session sections keep what is known of the echoes. -/
theorem echoing_sess (o : SessOp) (i : o.Inp) (h : Echoing P l) (hphased : Phased l)
    (hphase : PhasePre (.held (.sess o)) l)
    (hfresh : freshCookie l (.exec t (.held (.sess o)) i : (linkMachine cfg).Label)) :
    Echoing P (o.exec cfg l i).2 := by
  have hframes : (o.exec cfg l i).2.tx.frames = l.tx.frames :=
    congrArg Prod.fst (view_sess txView o i rfl)
  cases o with
  | helloApply remote =>
    -- no generation is open, so there is nothing to echo and no session to belong to
    have hclosed := hphased.closed hphase.1
    have hseq := h.closed (hphased.ringsDown hclosed)
    simp only [SessOp.exec, helloApply]
    split
    · exact h
    · exact { fed := h.fed
              closed := fun _ ↦ hseq
              heard := fun hne ↦ absurd hseq hne
              frames := h.frames
              posted := h.posted
              fresh := fun hopen ↦ absurd hopen (by simp [hclosed]) }
  | bringUpBegin =>
    refine { fed := h.fed, closed := fun _ ↦ rfl, heard := fun hne ↦ absurd rfl hne
             frames := h.frames, posted := h.posted, fresh := fun _ p hp k hk hcookie ↦ ?_ }
    simp only [freshCookie, List.all_eq_true, Option.all_eq_true, bne_iff_ne] at hfresh
    exact absurd hcookie (hfresh p hp k hk)
  | bringUpDone e2e => exact { h with closed := by simp [SessOp.exec, bringUpDone] }
  | quarantined => exact { h with closed := fun _ ↦ h.closed hphase }
  | downBegin owner =>
    exact { fed := h.fed, closed := fun _ ↦ rfl, heard := fun hne ↦ absurd rfl hne
            frames := h.frames, posted := h.posted
            fresh := fun hopen ↦ absurd hopen (by simp [SessOp.exec, downBegin]) }
  | _ =>
    refine h.congr ?_ fun f k hk ↦ hframes ▸ hk
    first
    | rfl
    | (simp only [SessOp.exec, notifyDownLocked, upcall, readyConfirm, maybeUpLocked, probeAttempt,
        probeFailed, revalidated]; (repeat' split) <;> simp [echoView])

/-- Every step keeps what is known of the echoes. -/
theorem echoing_run {o : Op} {i : o.Inp} {r : o.Res} (h : Echoing P l)
    (hG : EchoGuard P cfg l (.exec t o i)) (hpre : EchoPre P t o l)
    (hrun : o.run cfg t i l = some (r, l')) : Echoing P l' := by
  obtain ⟨⟨-, hfresh⟩, ⟨-, hsound, hstep⟩, -, htx⟩ := hG
  cases o with
  | held o =>
    cases o with
    | base o | net o =>
      have hframes : l'.tx.frames = l.tx.frames := view_run (·.tx.frames) hrun rfl
      exact h.congr (view_run echoView hrun rfl) fun f k hk ↦ hframes ▸ hk
    | tx o => exact echoing_tx h htx hrun
    | rx o => exact echoing_rx h hstep.evidence hpre hrun
    | sess o =>
      obtain rfl := link_of_run hrun
      exact echoing_sess o i h hsound.phased hstep.phase hfresh
  | _ =>
    have hframes : l'.tx.frames = l.tx.frames := view_run (·.tx.frames) hrun rfl
    exact h.congr (view_run echoView hrun rfl) fun f k hk ↦ hframes ▸ hk

theorem echoing_init (h : (linkMachine cfg).init l) : Echoing P l := by
  obtain ⟨random, requestSeq, autostart, rfl⟩ := h
  constructor <;> simp [linkCreate, TxFrame.keepalive, ackKeepalive]

end Steps

/-- In every run, a link that is fed keepalives with `P` and brings its sessions up under fresh
cookies echoes what it received. -/
theorem echo_verified (P : Keepalive → Prop) (cfg : LinkCfg) :
    (linkMachine cfg).Verified (EchoGuard P cfg) (Echoing P) (EchoPre P) where
  init _ h := echoing_init h
  enter t e l p l' hI hG henter := by
    obtain ⟨-, hbegin, rfl⟩ := enter_eq_some henter
    refine ⟨hI.congr (view_begin echoView hbegin rfl) (keepalive_begin hbegin), ?_⟩
    have hall : ∀ {α : Type} {p : HeldProg α}, p.All (HeldOp.Uses fun _ ↦ True) →
        (linkMachine cfg).Safe (EchoGuard P cfg) (Echoing P) (EchoPre P) t (p.lift heldLink) := by
      intro α p hp
      refine .of_all (.lift (hp.mono fun o ho l ↦ ?_))
      cases o with
      | rx o => cases o <;> first | exact ho.elim | trivial
      | _ => trivial
    have hbase := fun {α : Type} (p : BaseProg α) ↦ hall (all_base uses_base p)
    have hC : PartCode cfg fun _ p ↦ p.All (HeldOp.Uses fun _ ↦ True) :=
      partCode_all (fun o ho ↦ by
        cases o with
        | rx o => exact uses_handles (RxOp.Passes.handles ho)
        | _ => trivial) (all_tx uses_base (fun _ ↦ trivial) _)
    have hlock := fun {α : Type} {p : HeldProg α} (hp : p.All (HeldOp.Uses fun _ ↦ True)) ↦
      Safe.withSessionLock (fun _ ↦ trivial) (fun _ ↦ trivial) (hall hp)
    cases he : e.domain with
    | tx =>
      exact safe_onTx hbase (fun p ↦ hall (all_tx uses_base (fun _ ↦ trivial) p))
        (fun _ ↦ trivial) he l' trivial
    | rx =>
      cases e with
      | rxComplete f canceled len pdf bad data =>
        have hfed : canceled = false → bad = false → ∀ k ∈ ackKeepalive pdf len data, P k := by
          rintro rfl rfl
          exact hG.1.1
        refine Machine.Safe.bind (.of_all (.lift ?_))
          (fun _ ↦ safe_call (o := .callbackDone) fun _ ↦ trivial) l' trivial
        refine all_coreRxComplete (fun _ _ _ ↦ trivial) (fun o ho l ↦ ?_)
          (fun hfilled dir _ ↦ hfed hfilled) fun _ _ _ _ _ ↦ trivial
        cases o <;> first | exact ho.elim | trivial
      | putRx f =>
        exact hall (all_clientPutRx (fun _ _ ↦ uses_base _) (fun _ ho ↦ uses_handles ho.handles) f)
          l' trivial
      | _ => cases he
    | other =>
      exact safe_prog hbase (hlock hC.stepCode.sessionStepLocked)
        (fun reason ↦ hlock (hC.stepCode.down reason .local))
        ⟨fun _ ↦ trivial, fun _ ↦ trivial, fun _ ↦ trivial⟩ (fun _ ↦ trivial) he
        (fun m _ ↦ hall (all_net uses_base (fun _ ↦ trivial) _)) l' trivial
  exec t o i l r l' hI hpre hG hrun := echoing_run hI hG hpre hrun

/-! ## Both ends of a cable -/

theorem posted_run {cfg : LinkCfg} {t : Tid} {l l' : Link} {o : Op} {i : o.Inp} {r : o.Res}
    (h : o.run cfg t i l = some (r, l')) : l.his.posted ⊆ l'.his.posted := by
  have hkeep : l'.his.posted = l.his.posted → l.his.posted ⊆ l'.his.posted :=
    fun heq ↦ heq ▸ List.Subset.refl _
  cases o with
  | held o =>
    cases o with
    | tx o =>
      by_cases hring : ∃ f, o = .ringTx f
      · obtain ⟨f, rfl⟩ := hring
        simp only [Op.run, HeldOp.run, TxOp.exec] at h
        (repeat' split at h) <;> cases h
        · exact List.subset_cons_self _ _
        · exact List.Subset.refl _
      · have hother : ∀ f, o ≠ .ringTx f := fun f ho ↦ hring ⟨f, ho⟩
        exact hkeep (congrArg (·.2.2.2) (echoView_tx h hother))
    | _ => exact hkeep (view_run (·.his.posted) h rfl)
  | _ => exact hkeep (view_run (·.his.posted) h rfl)

theorem posted_step {cfg : LinkCfg} {c c' : (linkMachine cfg).Config} {s : (linkMachine cfg).Label}
    (h : (linkMachine cfg).Step c s c') : c.state.his.posted ⊆ c'.state.his.posted := by
  cases h with
  | @start t e p l' _ henter =>
    have hposted : l'.his.posted = c.state.his.posted :=
      congrArg (·.2.2.2) (view_begin echoView (enter_eq_some henter).2.1 rfl)
    exact hposted ▸ List.Subset.refl _
  | exec _ hrun => exact posted_run hrun
  | finish _ => exact List.Subset.refl _

section Ends

variable {cfg : Side → LinkCfg}

/-- An acknowledging keepalive that reaches one end was transmitted by the other end; frames may be
delayed, reordered, duplicated or lost. -/
def frameCarried (c : Ends cfg) : EndStep cfg → Bool
  | ⟨x, .start _ (.rxComplete _ false len pdf false data)⟩ =>
      (ackKeepalive pdf len data).all fun k ↦
        (c x.other).state.his.posted.any fun p ↦ p.keepalive == some k
  | _ => true

def PostedBy (l : Link) (k : Keepalive) : Prop :=
  ∃ p ∈ l.his.posted, k ∈ p.keepalive

/-- Each end runs as a link that is fed what the other end has transmitted by now. -/
theorem cable_fed {c : Ends cfg}
    (hc : (cable cfg).Reach (fun c l ↦ frameCarried c l ∧ freshCookie (c l.1).state l.2) c)
    (x : Side) : (linkMachine (cfg x)).Reach
      (fun l s ↦ Fed (PostedBy (c x.other).state) s ∧ freshCookie l s) (c x) := by
  induction hc with
  | start h => exact .start (h x)
  | @next c c' s _ hallowed hstep ih =>
    obtain ⟨d, hd, rfl⟩ := hstep
    obtain ⟨y, s⟩ := s
    by_cases hxy : x = y
    · subst hxy
      have hother : x.other ≠ x := by cases x <;> decide
      rw [Function.update_self, Function.update_of_ne hother]
      refine .next ih ⟨?_, hallowed.2⟩ hd
      cases s with
      | start t e =>
        cases e with
        | rxComplete f canceled len pdf bad data =>
          cases canceled with
          | true => trivial
          | false =>
            cases bad with
            | true => trivial
            | false =>
              intro k hk
              have hcarried := hallowed.1
              simp only [frameCarried, Option.all_eq_true, List.any_eq_true, beq_iff_eq] at hcarried
              obtain ⟨p, hp, hkeepalive⟩ := hcarried k hk
              exact ⟨p, hp, hkeepalive⟩
        | _ => trivial
      | _ => trivial
    · -- a step of the other end can only add to what it has transmitted
      have hyx : x.other = y := by
        cases x <;> cases y <;> first | rfl | exact absurd rfl hxy
      subst hyx
      rw [Function.update_of_ne hxy, Function.update_self]
      refine ih.mono fun l s hs ↦ ⟨?_, hs.2⟩
      have hposted : ∀ k, PostedBy (c x.other).state k → PostedBy d.state k := by
        rintro k ⟨p, hp, hk⟩
        exact ⟨p, posted_step hd hp, hk⟩
      have hfed := hs.1
      unfold Fed at hfed ⊢
      split
      · exact fun k hk ↦ hposted k (hfed k hk)
      · trivial

theorem cable_echoing {c : Ends cfg}
    (hc : (cable cfg).Reach (fun c l ↦ frameCarried c l ∧ freshCookie (c l.1).state l.2) c)
    (x : Side) : Echoing (PostedBy (c x.other).state) (c x).state :=
  ((echo_verified _ (cfg x)).sound (settled_reach (cable_fed hc x))).1

/-- Where every session is brought up under a cookie that was not used before, an end that has
`data_tx_proven` in an acknowledging session was heard by the other end in this generation: the
other end received a keepalive that only this generation transmitted. -/
theorem echo_from_current_generation {c : Ends cfg}
    (hc : (cable cfg).Reach (fun c l ↦ frameCarried c l ∧ freshCookie (c l.1).state l.2) c)
    (x : Side) (hproven : (c x).state.prf.dataTxProven) (hdir : directional (c x).state) :
    ∃ e ∈ (c x.other).state.his.received, ∃ k ∈ e.keepalive, PostedBy (c x).state k ∧
      ∀ p ∈ (c x).state.his.posted, k ∈ p.keepalive →
        p.generation = (c x).state.sess.dataGeneration := by
  have hreach := (cable_fed hc x).mono fun _ _ _ ↦ trivial
  have hsound := (step_verified (cfg x)).sound (disciplined_reach hreach)
  have hx := cable_echoing hc x
  have hother := cable_echoing hc x.other
  have hback : x.other.other = x := by cases x <;> rfl
  rw [hback] at hother
  -- the acknowledgement that was accepted here was transmitted by the other end
  obtain ⟨e, he, hkeepalive, hcookie, hpos, -⟩ := hsound.1.backed.tx hproven hdir
  have hcarried : e.data ∈ e.keepalive := by
    simp [RxEvent.keepalive, ackKeepalive, hkeepalive.good, hkeepalive.pdf, hkeepalive.len, hdir]
  obtain ⟨q, hq, hqk⟩ := hx.fed e he e.data hcarried
  -- so the other end received what it acknowledges, and this end transmitted it
  obtain ⟨r, hr, k, hk, hksess, -⟩ := hother.posted q hq e.data hqk (by omega)
  refine ⟨r, hr, k, hk, hother.fed r hr k hk, fun p hp hpk ↦ ?_⟩
  have hrings : (c x).state.sess.ringsUp := by
    cases hrings : (c x).state.sess.ringsUp with
    | true => rfl
    | false => simp [(hsound.1.backed.rings hrings).2] at hproven
  exact hx.fresh (hsound.1.phased.ringsOpen hrings) p hp k hpk (hksess.trans hcookie)

end Ends

def sampleControl (op : WireOp) (x : Side) (seq : UInt32) : WireMsg :=
  sampleMsg op seq (sampleHello x 6 (sampleRandom x))

/-- A control packet arrives and is handled in `n` steps. -/
def arrives (x : Side) (m : WireMsg) (n : ℕ) : List (CableAct sampleCfg) :=
  begin x (.task 0) (.packet m) ++ steps x (.task 0) n {}

def answered (x : Side) (m : WireMsg) : List (CableAct sampleCfg) :=
  steps x .session 1 { reply := .ok m }

def helloAndBringUp (x : Side) (seq : UInt32) : List (CableAct sampleCfg) :=
  begin x .session .sessionWork ++ steps x .session 6 {} ++
    arrives x.other (sampleControl .hello x seq) 6 ++
    answered x (sampleControl .helloAck x.other seq) ++ steps x .session 24 {}

def readyRound (x : Side) (seq : UInt32) : List (CableAct sampleCfg) :=
  arrives x.other (sampleControl .ready x seq) 9 ++ answered x (sampleControl .readyAck x.other seq)

/-- The first HELLO of one end stays under way.  Both ends are brought up, and the first keepalive of
the other end is received. -/
def firstKeepalive : List (CableAct sampleCfg) :=
  begin .a .session .sessionWork ++ steps .a .session 12 {} ++ helloAndBringUp .b 1 ++
  helloAndBringUp .a 2 ++ readyRound .a 3 ++ readyRound .b 2 ++ steps .b .session 14 {} ++
  begin .a (.task 0) (.rxComplete 0 false 32 .keepalive false
    { sessionCookie := 50, sequence := 1 }) ++ steps .a (.task 0) 8 {}

def cancelRxAt (x : Side) (f : ℕ) : List (CableAct sampleCfg) :=
  begin x (.task 0) (.rxComplete f true 0 .data false {}) ++ steps x (.task 0) 4 {}

/-- The late HELLO makes its receiver rebuild its session under the same cookie; the first keepalive
of the new generation is refused by the ring. -/
def rebuildUnderSameCookie : List (CableAct sampleCfg) :=
  begin .b (.task 0) (.txComplete 0 false) ++ steps .b (.task 0) 7 {} ++
  arrives .b (sampleMsg .hello 1 (sampleHello .a 7 70)) 4 ++
  begin .b .session .sessionWork ++ steps .b .session 12 {} ++ cancelRxAt .b 0 ++ cancelRxAt .b 1 ++
    steps .b .session 10 {} ++
  helloAndBringUp .b 3 ++ readyRound .b 4 ++ steps .b .session 7 {} ++
    steps .b .session 1 { ret := -5 } ++ steps .b .session 9 {}

def echoReceived : List (CableAct sampleCfg) :=
  steps .a .session 14 {} ++ begin .b (.task 0) (.rxComplete 0 false 32 .keepalive false
    { sessionCookie := 70, sequence := 1, ackCookie := 50, ackSequence := 1 }) ++
  steps .b (.task 0) 2 {}

set_option maxRecDepth 20000 in
/-- A link whose peer owned the last down takes the echo of its previous generation for its own: it
has `data_tx_proven` although it transmitted nothing in this generation. -/
theorem echo_of_earlier_generation : ∃ c : Ends sampleCfg,
    (cable sampleCfg).Reach (fun c l ↦ carried c l ∧ frameCarried c l) c ∧
      (c .b).state.prf.dataTxProven ∧ directional (c .b).state ∧
      ∀ p ∈ (c .b).state.his.posted, p.generation ≠ (c .b).state.sess.dataGeneration := by
  obtain ⟨c, hc, hgoal⟩ := System.Exec.reach_of_play (cableExec sampleCfg)
    (fun c l ↦ carried c l && frameCarried c l)
    (fun c ↦ (c .b).state.prf.dataTxProven && directional (c .b).state &&
      (c .b).state.his.posted.all fun p ↦ p.generation != (c .b).state.sess.dataGeneration)
    (firstKeepalive ++ rebuildUnderSameCookie ++ echoReceived) (created_init sampleRandom)
    (by decide +kernel)
  simp only [Bool.and_eq_true, List.all_eq_true, bne_iff_ne] at hgoal
  refine ⟨c, hc.mono fun _ _ h ↦ by simpa using h, hgoal.1.1, hgoal.1.2, hgoal.2⟩

set_option maxRecDepth 20000 in
theorem echo_from_current_generation_sample : ∃ c : Ends sampleCfg,
    (cable sampleCfg).Reach (fun c l ↦ frameCarried c l ∧ freshCookie (c l.1).state l.2) c ∧
      (c .b).state.prf.dataTxProven ∧ directional (c .b).state ∧
      ∃ e ∈ (c .a).state.his.received, ∃ k ∈ e.keepalive, PostedBy (c .b).state k ∧
        ∀ p ∈ (c .b).state.his.posted, k ∈ p.keepalive →
          p.generation = (c .b).state.sess.dataGeneration := by
  obtain ⟨c, hc, hgoal⟩ := System.Exec.reach_of_play (cableExec sampleCfg)
    (fun c l ↦ frameCarried c l && freshCookie (c l.1).state l.2)
    (fun c ↦ (c .b).state.prf.dataTxProven && directional (c .b).state)
    (firstKeepalive ++ echoReceived) (created_init sampleRandom) (by decide +kernel)
  simp only [Bool.and_eq_true] at hgoal
  have hreach := hc.mono fun _ _ h ↦ by simpa using h
  exact ⟨c, hreach, hgoal.1, hgoal.2, echo_from_current_generation hreach .b hgoal.1 hgoal.2⟩

end ThunderboltStack.Tbframe
