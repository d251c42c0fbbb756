import ThunderboltStack.Tbframe.RxPool
import ThunderboltStack.Tbframe.Session

/-!
# Evidence for the data path

What the flags of the data-path proof stand for: completions that `tbframe_core_rx_complete`
processed in the current generation.  The capability word that the completion samples without the
lock is the one of the session if the descriptor belongs to the open generation.
-/

namespace ThunderboltStack.Tbframe

open ThunderboltStack.Lib

def directional (l : Link) : Bool :=
  hasCap l.sess.remote.caps capKeepaliveAck

/-- A good keepalive of the current session, received on a descriptor of the current generation. -/
structure SessionKeepalive (l : Link) (e : RxEvent) : Prop where
  rxGeneration : e.rxGeneration = l.sess.dataGeneration
  generation : e.generation = l.sess.dataGeneration
  good : e.bad = false
  pdf : e.pdf = .keepalive
  len : e.len = keepaliveLen (directional l)
  cookie : e.data.sessionCookie = l.sess.remote.cookie

def RxEvidence (l : Link) : Prop :=
  ∃ e ∈ l.his.received, SessionKeepalive l e

/-- The transmit direction was proven: the peer echoed a keepalive of this session. -/
def TxEvidence (l : Link) : Prop :=
  ∃ e ∈ l.his.received, SessionKeepalive l e ∧ e.data.ackCookie = l.sess.localCookie ∧
    1 ≤ e.data.ackSequence ∧ e.data.ackSequence ≤ l.his.numbered

/-- Both directions were proven, the transmit direction if the session acknowledges keepalives. -/
def Evidence (l : Link) : Prop :=
  RxEvidence l ∧ (directional l → TxEvidence l)

structure Backed (l : Link) : Prop where
  rings : l.sess.ringsUp = false → l.prf.dataRxProven = false ∧ l.prf.dataTxProven = false
  rx : l.prf.dataRxProven → RxEvidence l
  tx : l.prf.dataTxProven → directional l → TxEvidence l
  proven : l.prf.dataProven → l.prf.dataRxProven ∧ l.prf.dataTxProven
  numbered : l.prf.keepaliveTxSeq ≤ l.his.numbered

theorem Backed.evidence {l : Link} (h : Backed l) (hproven : l.prf.dataProven) : Evidence l :=
  ⟨h.rx (h.proven hproven).1, h.tx (h.proven hproven).2⟩

/-- A completion is described as `tbframe_core_rx_complete` computes it, from the capabilities of
the generation its descriptor belongs to. -/
def EvidencePre : Op → Link → Prop
  | .held (.rx (.complete f c data)), l =>
      c = rxLocals c.directional c.len c.pdf c.bad data ∧
        ((l.rx.frames f).rxGeneration = l.sess.dataGeneration → l.his.genOpen →
          c.directional = directional l)
  | _, _ => True

section Steps

variable {cfg : LinkCfg} {t : Tid} {l l' : Link}

/-- Evidence is kept as long as the session is the same and nothing is forgotten. -/
theorem SessionKeepalive.congr {e : RxEvent} (h : SessionKeepalive l e)
    (hgen : l'.sess.dataGeneration = l.sess.dataGeneration)
    (hremote : l'.sess.remote = l.sess.remote) : SessionKeepalive l' e := by
  have hdir : directional l' = directional l := by simp only [directional, hremote]
  exact { rxGeneration := hgen ▸ h.rxGeneration, generation := hgen ▸ h.generation
          good := h.good, pdf := h.pdf, len := hdir ▸ h.len, cookie := hremote ▸ h.cookie }

structure Extends (l l' : Link) : Prop where
  generation : l'.sess.dataGeneration = l.sess.dataGeneration
  remote : l'.sess.remote = l.sess.remote
  cookie : l'.sess.localCookie = l.sess.localCookie
  received : l.his.received ⊆ l'.his.received
  numbered : l.his.numbered ≤ l'.his.numbered

theorem RxEvidence.extend (h : RxEvidence l) (hext : Extends l l') : RxEvidence l' := by
  obtain ⟨e, he, hkeepalive⟩ := h
  exact ⟨e, hext.received he, hkeepalive.congr hext.generation hext.remote⟩

theorem TxEvidence.extend (h : TxEvidence l) (hext : Extends l l') : TxEvidence l' := by
  obtain ⟨e, he, hkeepalive, hcookie, hlow, hhigh⟩ := h
  exact ⟨e, hext.received he, hkeepalive.congr hext.generation hext.remote,
    hcookie.trans hext.cookie.symm, hlow, Nat.le_trans hhigh hext.numbered⟩

theorem Extends.directional (hext : Extends l l') : directional l' = directional l := by
  simp only [Tbframe.directional, hext.remote]

theorem Evidence.extend (h : Evidence l) (hext : Extends l l') : Evidence l' :=
  ⟨h.1.extend hext, fun hdir ↦ (h.2 (hext.directional ▸ hdir)).extend hext⟩

/-- A step that extends the session and sets no flag keeps the flags backed. -/
theorem Backed.extend (h : Backed l) (hext : Extends l l')
    (hrings : l'.sess.ringsUp = false → l.sess.ringsUp = false)
    (hrx : l'.prf.dataRxProven → l.prf.dataRxProven)
    (htx : l'.prf.dataTxProven → l.prf.dataTxProven)
    (hproven : l'.prf.dataProven → l'.prf.dataRxProven ∧ l'.prf.dataTxProven)
    (hnumbered : l'.prf.keepaliveTxSeq ≤ l'.his.numbered) : Backed l' where
  rings h' := by
    have hflags := h.rings (hrings h')
    constructor
    · cases hflag : l'.prf.dataRxProven with
      | true => exact absurd (hrx hflag) (by simp [hflags.1])
      | false => rfl
    · cases hflag : l'.prf.dataTxProven with
      | true => exact absurd (htx hflag) (by simp [hflags.2])
      | false => rfl
  rx h' := (h.rx (hrx h')).extend hext
  tx h' hdir := (h.tx (htx h') (hext.directional ▸ hdir)).extend hext
  proven := hproven
  numbered := hnumbered

/-- What a proof state claims: the proven directions, and the last keepalives sent and received. -/
def DataProof.claims (p : DataProof) : Bool × Bool × Bool × ℕ × ℕ :=
  (p.dataRxProven, p.dataTxProven, p.dataProven, p.keepaliveTxSeq, p.keepalivePeerSeq)

/-- A step that extends the session and keeps the claims keeps them backed. -/
theorem Backed.of_claims (h : Backed l) (hext : Extends l l')
    (hrings : l'.sess.ringsUp = false → l.sess.ringsUp = false)
    (hclaims : l'.prf.claims = l.prf.claims) : Backed l' := by
  simp only [DataProof.claims, Prod.mk.injEq] at hclaims
  obtain ⟨hrx, htx, hproven, hseq, -⟩ := hclaims
  apply h.extend hext hrings
  · rw [hrx]; exact id
  · rw [htx]; exact id
  · rw [hproven, hrx, htx]; exact h.proven
  · rw [hseq]; exact Nat.le_trans h.numbered hext.numbered

/-- What the proof is about: the session, the claims of the proof state, and the history. -/
def proofView (l : Link) :
    (ℕ × Remote × UInt64 × Bool) × (Bool × Bool × Bool × ℕ × ℕ) × List RxEvent × ℕ :=
  ((l.sess.dataGeneration, l.sess.remote, l.sess.localCookie, l.sess.ringsUp), l.prf.claims,
    l.his.received, l.his.numbered)

def evidence (l : Link) : ℕ × Remote × UInt64 × List RxEvent × ℕ :=
  (l.sess.dataGeneration, l.sess.remote, l.sess.localCookie, l.his.received, l.his.numbered)

theorem Extends.of_eq (h : evidence l' = evidence l) : Extends l l' := by
  simp only [evidence, Prod.mk.injEq] at h
  obtain ⟨hgen, hremote, hcookie, hreceived, hnumbered⟩ := h
  exact ⟨hgen, hremote, hcookie, hreceived ▸ List.Subset.refl _, Nat.le_of_eq hnumbered.symm⟩

theorem extends_of_view (hview : proofView l' = proofView l) : Extends l l' :=
  .of_eq (congrArg (fun v ↦ (v.1.1, v.1.2.1, v.1.2.2.1, v.2.2)) hview)

theorem Backed.congr (h : Backed l) (hview : proofView l' = proofView l) : Backed l' := by
  have hrings : l'.sess.ringsUp = l.sess.ringsUp := congrArg (·.1.2.2.2) hview
  exact h.of_claims (extends_of_view hview) (hrings ▸ id) (congrArg (·.2.1) hview)

theorem BaseOp.silenceCheck_of_not {o : BaseOp} (h : ¬ o.Tickless) :
    ∃ dir, o = .disp (.silenceCheck dir) := by
  rcases o with _ | o | _ | _
  · exact absurd trivial h
  · cases o <;> first | exact ⟨_, rfl⟩ | exact absurd trivial h
  · exact absurd trivial h
  · exact absurd trivial h

/-- Of the steps without the control channel and the frame pools only the tick of the silence
detector writes the proof state. -/
theorem prf_base {o : BaseOp} {i : o.Inp} {r : o.Res}
    (h : o.run cfg i l = some (r, l')) (ho : o.Tickless) : l'.prf = l.prf := by
  cases o with
  | read o =>
    obtain ⟨-, rfl⟩ := Prod.mk.inj (Option.some.inj h)
    rfl
  | disp o =>
    obtain rfl := link_of_run h
    cases o <;> first
      | rfl
      | exact ho.elim
      | (simp only [DispOp.exec, flushReadyDone, zombieCheck, verifyRearm, keepaliveSupersede]
         (repeat' split) <;> simp)
  | hw o =>
    cases o <;> simp only [BaseOp.run, HwOp.exec] at h <;> (repeat' split at h) <;> cases h <;> rfl
  | ctl o =>
    cases o <;> simp only [BaseOp.run, CtlOp.exec, registerScan] at h <;> (repeat' split at h) <;>
      cases h <;> simp [setGates, markDead]

theorem proofView_base {o : BaseOp} {i : o.Inp} {r : o.Res}
    (h : o.run cfg i l = some (r, l')) (ho : o.Tickless) : proofView l' = proofView l := by
  simp only [proofView, prf_base h ho, view_base (·.sess) h rfl, view_base (·.his.received) h rfl,
    view_base (·.his.numbered) h rfl]

/-- The silence detector only takes claims back. -/
theorem backed_silenceCheck (dir : Bool) (h : Backed l) : Backed (silenceCheck dir l).2 := by
  have hsess : (silenceCheck dir l).2.sess = l.sess := view_disp (·.sess) (.silenceCheck dir) rfl
  have hhis : (silenceCheck dir l).2.his = l.his := view_disp (·.his) (.silenceCheck dir) rfl
  have hext : Extends l (silenceCheck dir l).2 :=
    .of_eq (view_disp evidence (.silenceCheck dir) rfl)
  apply h.extend hext
  · rw [hsess]; exact id
  · simp only [silenceCheck]
    split
    · simp only [kickLocked_prf, Bool.and_eq_true]; exact And.left
    · exact id
  · simp only [silenceCheck]
    split
    · simp only [kickLocked_prf, Bool.and_eq_true]; exact And.left
    · exact id
  · simp only [silenceCheck]
    split
    · simp
    · exact h.proven
  · rw [hhis]
    simp only [silenceCheck]
    split
    · simp only [kickLocked_prf]; exact h.numbered
    · exact h.numbered

/-- What an authenticated keepalive adds to the claims of the data-path proof. -/
theorem proofAccept_claims (c : RxLocals) (sess : Session) (p : DataProof) :
    (proofAccept c sess p).claims =
      (true, p.dataTxProven || !c.directional || c.acks sess.localCookie p.keepaliveTxSeq,
        p.dataProven || (p.dataTxProven || !c.directional ||
          c.acks sess.localCookie p.keepaliveTxSeq), p.keepaliveTxSeq,
        if c.directional && p.keepalivePeerSeq < c.keepalive.sequence then c.keepalive.sequence
        else p.keepalivePeerSeq) := by
  simp only [proofAccept]
  split
  · next hproven =>
    simp only [proofAck, proofArrival, Bool.and_eq_true] at hproven
    simp [DataProof.claims, proofAck, proofArrival, hproven.1.2]
  · next hproven =>
    simp only [proofAck, proofArrival, Bool.true_and, Bool.and_eq_true, Bool.not_eq_true',
      not_and, Bool.not_eq_false] at hproven
    simp only [DataProof.claims, proofAck, proofArrival, Prod.mk.injEq, true_and, and_true]
    cases htx : p.dataTxProven || !c.directional || c.acks sess.localCookie p.keepaliveTxSeq with
    | false => rw [Bool.or_false]
    | true => rw [hproven htx, Bool.true_or]

/-- The receive path keeps what it does not accept out of the claims. -/
theorem rxProof_claims (c : RxLocals) (l : Link) :
    (rxProof c l).prf.claims = l.prf.claims ∨
      c.proof ∧ c.cookie = l.sess.remote.cookie ∧ l.sess.ringsUp ∧
        (rxProof c l).prf.claims = (proofAccept c l.sess l.prf).claims := by
  unfold rxProof
  split
  · next h =>
    simp only [Bool.and_eq_true, beq_iff_eq] at h
    exact .inr ⟨h.1.1.1, h.1.1.2, h.1.2, by simp only [proofAccept_claims]⟩
  split
  · left
    simp only [proofReject]
    split
    · rw [kickLocked_prf]; rfl
    · rfl
  · exact .inl rfl

/-- A completion is accepted only if it is good and on a descriptor of the current generation. -/
theorem rxAccount_claims (current : Bool) (c : RxLocals) (l : Link) :
    (rxAccount current c l).prf.claims = l.prf.claims ∨
      current ∧ c.proof ∧ c.cookie = l.sess.remote.cookie ∧ l.sess.ringsUp ∧
        (rxAccount current c l).prf.claims = (proofAccept c l.sess l.prf).claims := by
  unfold rxAccount
  split
  · exact .inl rfl
  · next hcurrent =>
    split
    · obtain h | ⟨hproof, hcookie, hrings, h⟩ := rxProof_claims c l
      · exact .inl h
      · exact .inr ⟨by simpa using hcurrent, hproof, hcookie, hrings, h⟩
    · split <;> exact .inl rfl

/-- What an authenticated completion carries. -/
theorem rxLocals_proof {dir bad : Bool} {len : ℕ} {pdf : Pdf} {data : Keepalive}
    (h : (rxLocals dir len pdf bad data).proof) :
    bad = false ∧ pdf = .keepalive ∧ len = keepaliveLen dir ∧
      (rxLocals dir len pdf bad data).cookie = data.sessionCookie ∧
      (dir → (rxLocals dir len pdf bad data).keepalive = data ∧ data.sequence ≠ 0) := by
  simp only [rxLocals, Bool.and_eq_true, Bool.not_eq_true', beq_iff_eq, Bool.or_eq_true,
    bne_iff_ne] at h ⊢
  obtain ⟨⟨⟨rfl, rfl⟩, rfl⟩, hseq⟩ := h
  refine ⟨rfl, rfl, rfl, by simp, fun hdir ↦ ?_⟩
  subst hdir
  simpa using hseq

/-- Without claims there is nothing to back. -/
theorem Backed.of_unproven (hrx : l.prf.dataRxProven = false) (htx : l.prf.dataTxProven = false)
    (hproven : l.prf.dataProven = false) (hnumbered : l.prf.keepaliveTxSeq ≤ l.his.numbered) :
    Backed l :=
  ⟨fun _ ↦ ⟨hrx, htx⟩, by simp [hrx], by simp [htx], by simp [hproven], hnumbered⟩

/-- Before the rings are up nothing is proven. -/
theorem Backed.unproven (h : Backed l) (hrings : l.sess.ringsUp = false) :
    l.prf.dataRxProven = false ∧ l.prf.dataTxProven = false ∧ l.prf.dataProven = false := by
  obtain ⟨hrx, htx⟩ := h.rings hrings
  refine ⟨hrx, htx, ?_⟩
  cases hproven : l.prf.dataProven with
  | true => exact absurd (h.proven hproven).1 (by simp [hrx])
  | false => rfl

/-- TX sections only number keepalives. -/
theorem backed_tx {o : TxOp} {i : o.Inp} {r : o.Res} (h : Backed l)
    (hrun : o.exec cfg t l i = some (r, l')) : Backed l' := by
  cases o with
  | build f dir =>
    cases hrun
    have hext : Extends l (buildKeepalive f dir l) :=
      ⟨rfl, rfl, rfl, List.Subset.refl _, Nat.le_succ _⟩
    apply h.extend hext
    · exact id
    · exact id
    · exact id
    · exact h.proven
    · exact Nat.succ_le_succ h.numbered
  | _ =>
    apply h.congr
    simp only [TxOp.exec, allocFrameLocked, xmitLocked] at hrun
    (repeat' split at hrun) <;> cases hrun <;> rfl

/-- Accepting a completion is backed by that completion. -/
theorem backed_complete {f : ℕ} {c : RxLocals} {data : Keepalive} (h : Backed l) (hp : Phased l)
    (hpre : EvidencePre (.held (.rx (.complete f c data))) l) :
    Backed (rxCompleteLocked f c data l).2 := by
  have hsess : (rxCompleteLocked f c data l).2.sess = l.sess := by simp [rxCompleteLocked]
  have hreceived : (rxCompleteLocked f c data l).2.his.received =
      rxEvent f c data l :: l.his.received := by simp [rxCompleteLocked]
  have hnumbered : (rxCompleteLocked f c data l).2.his.numbered = l.his.numbered := by
    simp [rxCompleteLocked]
  have hext : Extends l (rxCompleteLocked f c data l).2 :=
    ⟨by rw [hsess], by rw [hsess], by rw [hsess],
      by rw [hreceived]; exact List.subset_cons_self _ _, Nat.le_of_eq hnumbered.symm⟩
  obtain hclaims | ⟨hcurrent, hproof, hcookie, hrings, hclaims⟩ := rxAccount_claims
    ((l.rx.frames f).rxGeneration == l.sess.dataGeneration) c
    { l with his := { l.his with received := rxEvent f c data l :: l.his.received } }
  · exact h.of_claims hext (by rw [hsess]; exact id) hclaims
  · have hcurrent : (l.rx.frames f).rxGeneration = l.sess.dataGeneration := by
      simpa using hcurrent
    have hdir := hpre.2 hcurrent (hp.ringsOpen hrings)
    rw [hpre.1] at hproof
    obtain ⟨hgood, hpdf, hlen, hdata, hkeepalive⟩ := rxLocals_proof hproof
    rw [← hpre.1] at hdata hkeepalive
    have hevent : SessionKeepalive (rxCompleteLocked f c data l).2 (rxEvent f c data l) :=
      { rxGeneration := by rw [hsess]; exact hcurrent
        generation := by rw [hsess]; rfl
        good := hgood
        pdf := hpdf
        len := by rw [hext.directional, ← hdir]; exact hlen
        cookie := by rw [hsess]; exact hdata.symm.trans hcookie }
    have hmem : rxEvent f c data l ∈ (rxCompleteLocked f c data l).2.his.received := by
      rw [hreceived]
      exact List.mem_cons_self
    rw [proofAccept_claims] at hclaims
    simp only [DataProof.claims, Prod.mk.injEq] at hclaims
    obtain ⟨hrx, htx, hproven, hseq, -⟩ := hclaims
    refine ⟨?_, fun _ ↦ ⟨_, hmem, hevent⟩, fun hset hdir' ↦ ?_, fun hset ↦ ?_, ?_⟩
    · intro hdown
      rw [hsess] at hdown
      exact absurd hrings (by simp [hdown])
    · -- the flag was set before, or by the acknowledgement in this keepalive
      have hdir' : c.directional = true := by rw [hdir, ← hext.directional]; exact hdir'
      have hset := htx.symm.trans hset
      simp only [Bool.or_eq_true, hdir', Bool.not_true, Bool.false_eq_true, or_false] at hset
      obtain hbefore | hacks := hset
      · exact (h.tx hbefore (hdir ▸ hdir')).extend hext
      · simp only [RxLocals.acks, Bool.and_eq_true, beq_iff_eq, bne_iff_ne, decide_eq_true_eq,
          (hkeepalive hdir').1] at hacks
        obtain ⟨⟨⟨-, hack⟩, hnonzero⟩, hle⟩ := hacks
        refine ⟨_, hmem, hevent, by rw [hsess]; exact hack, Nat.one_le_iff_ne_zero.2 hnonzero, ?_⟩
        rw [hnumbered]
        exact Nat.le_trans hle h.numbered
    · have hset := hproven.symm.trans hset
      refine ⟨hrx, htx.trans ?_⟩
      obtain hbefore | hnow := Bool.or_eq_true _ _ ▸ hset
      · simp [(h.proven hbefore).2]
      · exact hnow
    · rw [hnumbered]
      exact Nat.le_trans (Nat.le_of_eq hseq) h.numbered

theorem backed_rx {o : RxOp} {i : o.Inp} {r : o.Res} (h : Backed l) (hp : Phased l)
    (hpre : EvidencePre (.held (.rx o)) l) (hrun : o.exec t l i = some (r, l')) : Backed l' := by
  cases o with
  | complete f c data =>
    cases hrun
    exact backed_complete h hp hpre
  | _ =>
    apply h.congr
    simp only [RxOp.exec, takeRxFree, clientPutRxRef] at hrun
    (repeat' split at hrun) <;> cases hrun <;> rfl

/-- Session sections keep the flags backed: a new session starts with none set. -/
theorem backed_sess (o : SessOp) (i : o.Inp) (h : Backed l) (hp : Phased l)
    (hpre : PhasePre (.held (.sess o)) l) : Backed (o.exec cfg l i).2 := by
  cases o with
  | helloApply remote =>
    obtain ⟨hrx, htx, hproven⟩ := h.unproven (hp.ringsDown (hp.closed hpre.1))
    have hhello : (helloApply remote l).2.prf = l.prf ∧ (helloApply remote l).2.his = l.his := by
      simp only [helloApply]
      (repeat' split) <;> exact ⟨rfl, rfl⟩
    obtain ⟨hprf, hhis⟩ := hhello
    apply Backed.of_unproven
    · rw [SessOp.exec, hprf]; exact hrx
    · rw [SessOp.exec, hprf]; exact htx
    · rw [SessOp.exec, hprf]; exact hproven
    · rw [SessOp.exec, hprf, hhis]; exact h.numbered
  | bringUpBegin | downBegin owner => exact .of_unproven rfl rfl rfl (Nat.zero_le _)
  | quarantined =>
    obtain ⟨hrx, htx, hproven⟩ := h.unproven hpre
    exact .of_unproven hrx htx hproven h.numbered
  | bringUpDone e2e =>
    exact h.of_claims ⟨rfl, rfl, rfl, List.Subset.refl _, Nat.le_refl _⟩ (by simp [SessOp.exec,
      bringUpDone]) rfl
  | maybeUp =>
    apply h.congr
    simp only [SessOp.exec, maybeUpLocked]
    (repeat' split) <;> rfl
  | _ => first | exact h.congr rfl | exact h.congr (view_quiet proofView i rfl rfl)

theorem backed_held {o : HeldOp} {i : o.Inp} {r : o.Res} (h : Backed l) (hp : Phased l)
    (hphase : PhasePre (.held o) l) (hpre : EvidencePre (.held o) l)
    (hrun : o.run cfg t i l = some (r, l')) : Backed l' := by
  cases o with
  | base o =>
    by_cases ho : o.Tickless
    · exact h.congr (proofView_base hrun ho)
    · obtain ⟨dir, rfl⟩ := BaseOp.silenceCheck_of_not ho
      obtain rfl := link_of_run hrun
      exact backed_silenceCheck dir h
  | net o => exact h.congr (view_held proofView hrun rfl)
  | tx o => exact backed_tx h hrun
  | rx o => exact backed_rx h hp hpre hrun
  | sess o =>
    obtain rfl := link_of_run hrun
    exact backed_sess o i h hp hphase

theorem backed_run {o : Op} {i : o.Inp} {r : o.Res} (h : Backed l) (hp : Phased l)
    (hphase : PhasePre o l) (hpre : EvidencePre o l) (hrun : o.run cfg t i l = some (r, l')) :
    Backed l' := by
  cases o with
  | held o => exact backed_held h hp hphase hpre hrun
  | _ => exact h.congr (view_run proofView hrun rfl)

theorem backed_init (h : (linkMachine cfg).init l) : Backed l := by
  obtain ⟨random, requestSeq, autostart, rfl⟩ := h
  exact .of_unproven rfl rfl rfl (Nat.zero_le _)

theorem extends_tx {o : TxOp} {i : o.Inp} {r : o.Res} (h : o.exec cfg t l i = some (r, l')) :
    Extends l l' := by
  cases o with
  | build f dir =>
    cases h
    exact ⟨rfl, rfl, rfl, List.Subset.refl _, Nat.le_succ _⟩
  | _ =>
    apply extends_of_view
    simp only [TxOp.exec, allocFrameLocked, xmitLocked] at h
    (repeat' split at h) <;> cases h <;> rfl

theorem extends_rx {o : RxOp} {i : o.Inp} {r : o.Res} (h : o.exec t l i = some (r, l')) :
    Extends l l' := by
  cases o with
  | complete f c data =>
    cases h
    constructor <;> simp
  | _ =>
    apply extends_of_view
    simp only [RxOp.exec, takeRxFree, clientPutRxRef] at h
    (repeat' split at h) <;> cases h <;> rfl

/-- Outside the session sections nothing is forgotten. -/
theorem extends_held {o : HeldOp} {i : o.Inp} {r : o.Res} (h : o.run cfg t i l = some (r, l')) :
    (∃ s : SessOp, o = .sess s) ∨ Extends l l' := by
  cases o with
  | base o | net o => exact .inr (.of_eq (view_held evidence h rfl))
  | tx o => exact .inr (extends_tx h)
  | rx o => exact .inr (extends_rx h)
  | sess o => exact .inl ⟨o, rfl⟩

/-- While a thread holds the lock, nothing is forgotten of its session. -/
theorem extends_move {G : (linkMachine cfg).Guard} {I : Link → Prop}
    {Pre : Tid → Op → Link → Prop} (hk : LockKnown cfg G I Pre) {u : Tid} (hne : u ≠ t)
    (hlock : l.ctl.sessionLock = some t) (hmove : (linkMachine cfg).Move G I Pre u l l') :
    Extends l l' := by
  cases hmove with
  | enter _ _ henter => exact .of_eq (view_begin evidence (enter_eq_some henter).2.1 rfl)
  | @exec o i r hI hpre hG hrun =>
    have hrun : o.run cfg u i l = some (r, l') := hrun
    cases o with
    | held o =>
      obtain ⟨o, rfl⟩ | h := extends_held hrun
      · have hu : l.ctl.sessionLock = some u := hk l u _ i hI hpre hG
        exact absurd (Option.some.inj (hu.symm.trans hlock)) hne
      · exact h
    | _ => exact .of_eq (view_run evidence hrun rfl)

end Steps

end ThunderboltStack.Tbframe
