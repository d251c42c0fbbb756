import ThunderboltStack.Tbframe.Publication
import ThunderboltStack.Tbframe.TxOwner

/-!
# BYE and TX silence

A BYE_ACK certifies that the link transmits no more for the session that the peer ends.  A link that
found itself quiescent on a BYE stays quiescent until that session is down, except where the code
leaves an opening: the keepalive of the data-path proof is admitted although a down is pending, and
a BYE that arrives before the bring-up, during the HELLO exchange or after it, is acknowledged
without requesting a down.

A BYE names the session that it finds, negotiated or going down.  Where it finds none, it names the
session to come that has the peer of its record.  (The record alone does not tell: it is filled in
after the down of the peer drew the cookie of its next session.)
-/

namespace ThunderboltStack.Tbframe

open ThunderboltStack.Lib Machine

/-- The BYE names the session `s` that follows `downs` downs. -/
def Bye.names (b : Bye) (s : Session) (downs : ℕ) : Bool :=
  b.downs == downs && (b.found || remoteMatches { s with helloDone := true } b.peer)

/-- A BYE for the current session found the link quiescent. -/
def byeNamed (l : Link) : Bool :=
  l.his.byeSeen.any (·.names l.sess l.his.downs)

/-- The step avoids the openings in the BYE handling: the keepalive of the data-path proof meets a
link that found itself quiescent, a BYE arrives for a session that is negotiated but not yet brought
up, and a HELLO exchange completes with a peer whose BYE came first. -/
def byeCovered {cfg : LinkCfg} (l : Link) : (linkMachine cfg).Label → Bool
  | .exec _ (.held (.tx (.xmit _ true))) _ => !(l.sh.needsDown && byeNamed l)
  | .exec _ (.held (.net (.handleBye _))) _ => !(l.sess.helloDone && byeQuiesced l && !byeActive l)
  | .exec _ (.held (.sess (.helloApply remote))) _ => l.his.byeSeen.all fun b ↦
      b.found || !b.names { l.sess with remote := applyRemote l.sess.remote remote } l.his.downs
  | _ => true

def ByeGuard (cfg : LinkCfg) : (linkMachine cfg).Guard :=
  fun l s ↦ byeCovered l s ∧ Settled cfg l s

/-- A session whose BYE was found quiescent is on its way down or not negotiated yet, and nothing of
it is posted. -/
structure ByeQuiet (l : Link) : Prop where
  acked : ∀ b ∈ l.his.byeAcked, b ∈ l.his.byeSeen
  past : ∀ b ∈ l.his.byeSeen, b.downs ≤ l.his.downs
  doomed : ∀ b ∈ l.his.byeSeen, b.names l.sess l.his.downs →
    l.sh.needsDown ∨ l.his.downing ∨ b.found = false ∧ l.sess.helloDone = false
  down : byeNamed l → l.sh.state ≠ .up
  unposted : byeNamed l → l.tx.ringPosted = 0

def ByePre (_ : Tid) : Op → Link → Prop
  | .held (.net (.response _ bye)), l => ∀ b ∈ bye, b ∈ l.his.byeSeen
  | _, _ => True

section Steps

variable {cfg : LinkCfg} {t : Tid} {l l' : Link}

/-- The step neither hears nor acknowledges a BYE, and takes no pending down back. -/
def Unheard (l l' : Link) : Prop :=
  l'.his.byeSeen = l.his.byeSeen ∧ l'.his.byeAcked = l.his.byeAcked ∧
    (l.sh.needsDown → l'.sh.needsDown)

theorem unheard_disp (o : DispOp) : Unheard l (o.exec l).2 := by
  cases o <;> first
    | exact ⟨rfl, rfl, id⟩
    | (simp only [DispOp.exec, flushReadyDone, zombieCheck, silenceCheck, verifyRearm,
        keepaliveSupersede]; (repeat' split) <;> simp [Unheard])

theorem unheard_tx {o : TxOp} {i : o.Inp} {r : o.Res} (h : o.exec cfg t l i = some (r, l')) :
    Unheard l l' :=
  ⟨view_tx (·.his.byeSeen) h rfl, view_tx (·.his.byeAcked) h rfl,
    fun hneeds ↦ (view_tx (·.sh.needsDown) h rfl).trans hneeds⟩

theorem unheard_rx {o : RxOp} {i : o.Inp} {r : o.Res} (h : o.exec t l i = some (r, l')) :
    Unheard l l' := by
  cases o <;> simp only [RxOp.exec, takeRxFree, clientPutRxRef] at h <;> (repeat' split at h) <;>
    cases h <;> first
    | exact ⟨rfl, rfl, id⟩
    | simp [Unheard]

theorem unheard_base {o : BaseOp} {i : o.Inp} {r : o.Res} (h : o.run cfg i l = some (r, l')) :
    Unheard l l' := by
  cases o with
  | read o =>
    obtain ⟨-, rfl⟩ := Prod.mk.inj (Option.some.inj h)
    exact ⟨rfl, rfl, id⟩
  | disp o =>
    obtain rfl := link_of_run h
    exact unheard_disp o
  | hw o =>
    cases o <;> simp only [BaseOp.run, HwOp.exec] at h <;> (repeat' split at h) <;> cases h <;>
      exact ⟨rfl, rfl, id⟩
  | ctl o =>
    cases o <;> simp only [BaseOp.run, CtlOp.exec, registerScan] at h <;> (repeat' split at h) <;>
      cases h <;> simp [Unheard, setGates, markDead]

theorem unheard_begin {e : Entry} (h : e.begin t l = some l') : Unheard l l' :=
  ⟨view_begin (·.his.byeSeen) h rfl, view_begin (·.his.byeAcked) h rfl,
    fun hneeds ↦ (view_begin (·.sh.needsDown) h rfl).trans hneeds⟩

/-- Only the start of `tbframe_link_down_session` takes a pending down back. -/
theorem unheard_sess (o : SessOp) (i : o.Inp) (h : ∀ owner, o ≠ .downBegin owner) :
    Unheard l (o.exec cfg l i).2 := by
  cases o with
  | downBegin owner => exact absurd rfl (h owner)
  | _ =>
    first
    | exact ⟨rfl, rfl, id⟩
    | (simp only [SessOp.exec, helloApply, notifyDownLocked, upcall, readyConfirm, maybeUpLocked,
        probeFailed, revalidated]; (repeat' split) <;> simp [Unheard])

/-- What tells which BYEs name the current session, and whether it is on its way down. -/
def byeView (l : Link) : Bool × Remote × ℕ × Bool :=
  (l.sess.helloDone, l.sess.remote, l.his.downs, l.his.downing)

theorem Bye.names_congr {b : Bye} {s s' : Session} {n : ℕ} (h : s'.remote = s.remote) :
    b.names s' n = b.names s n := by
  simp only [Bye.names, remoteMatches, h]

theorem byeNamed_iff : byeNamed l ↔ ∃ b ∈ l.his.byeSeen, b.names l.sess l.his.downs :=
  List.any_eq_true

/-- A step that hears nothing of a BYE, does not publish and posts nothing keeps a link quiet. -/
theorem ByeQuiet.keep (h : ByeQuiet l) (hunheard : Unheard l l') (hview : byeView l' = byeView l)
    (hstate : l'.sh.state = .up → l.sh.state = .up)
    (hposted : byeNamed l → l'.tx.ringPosted = 0) : ByeQuiet l' := by
  obtain ⟨hseen, hacked, hpending⟩ := hunheard
  simp only [byeView, Prod.mk.injEq] at hview
  obtain ⟨hhello, hremote, hdowns, hdowning⟩ := hview
  have hnames : ∀ b : Bye, b.names l'.sess l'.his.downs = b.names l.sess l.his.downs :=
    fun b ↦ hdowns ▸ Bye.names_congr hremote
  have hnamed : byeNamed l' = byeNamed l := by simp only [byeNamed, hseen, hnames]
  constructor
  · rw [hseen, hacked]; exact h.acked
  · rw [hseen, hdowns]; exact h.past
  · intro b hb hb'
    rw [hdowning, hhello]
    exact (h.doomed b (hseen ▸ hb) ((hnames b).symm.trans hb')).imp_left hpending
  · rw [hnamed]
    exact fun hmem hup ↦ h.down hmem (hstate hup)
  · rw [hnamed]; exact hposted

/-- The link takes part in no session that a BYE named. -/
theorem ByeQuiet.closed (h : ByeQuiet l) (hphased : Phased l) (hnamed : byeNamed l) :
    l.sh.needsDown ∨ l.sess.helloDone = false := by
  obtain ⟨b, hb, hnames⟩ := byeNamed_iff.1 hnamed
  exact (h.doomed b hb hnames).imp_right fun hend ↦ hend.elim hphased.downing And.right

/-- While the session is not up, only the keepalive of the data-path proof gets a frame posted. -/
theorem ringPosted_tx {o : TxOp} {i : o.Inp} {r : o.Res} (h : o.exec cfg t l i = some (r, l'))
    (hdown : l.sh.state ≠ .up) (hprobe : ∀ f, o = .xmit f true → l.sess.ringsUp = false)
    (hposted : l.tx.ringPosted = 0) : l'.tx.ringPosted = 0 := by
  cases o with
  | xmit f preUp =>
    obtain rfl := link_of_run h
    have hrefused : xmitAdmitted preUp l = false := by
      cases preUp with
      | true => simp [xmitAdmitted, hprobe f rfl]
      | false => simp [xmitAdmitted, hdown]
    simpa [xmitLocked, hrefused] using hposted
  | complete f canceled =>
    cases h
    have hreturned : (txReturn t f { l with tx := txUnpost f canceled l.tx }).2.tx.ringPosted = 0 := by
      simp only [txReturn, txUnpost]
      split <;> simp [hposted]
    obtain heq | ⟨n, tx, -, hup, -⟩ | heq := txRefill_cases cfg t
      (txReturn t f { l with tx := txUnpost f canceled l.tx }).2 canceled
    · simpa only [txCompleteLocked, heq] using hreturned
    · exact absurd hup hdown
    · simpa only [txCompleteLocked, heq, spliceQueues] using hreturned
  | _ =>
    simp only [TxOp.exec, allocFrameLocked] at h
    (repeat' split at h) <;> cases h <;>
      simp [buildKeepalive, ringTxAccept, xmitRingErr, refillErr, unpost, spliceQueues, putReturned,
        hposted]

theorem byeQuiet_tx {o : TxOp} {i : o.Inp} {r : o.Res} (h : ByeQuiet l) (hphased : Phased l)
    (hcovered : byeCovered l (.exec t (.held (.tx o)) i : (linkMachine cfg).Label))
    (hrun : o.exec cfg t l i = some (r, l')) : ByeQuiet l' := by
  refine h.keep (unheard_tx hrun) (view_tx byeView hrun rfl)
    (fun hup ↦ (view_tx (·.sh.state) hrun rfl).symm.trans hup) fun hnamed ↦ ?_
  refine ringPosted_tx hrun (h.down hnamed) ?_ (h.unposted hnamed)
  rintro f rfl
  -- a pending down is excluded, and without a HELLO the rings are not up
  obtain hneeds | hhello := h.closed hphased hnamed
  · simp [byeCovered, hneeds, hnamed] at hcovered
  · exact hphased.ringsDown (hphased.closed hhello)

/-- A BYE that is handled outside the openings keeps the link quiet. -/
theorem byeQuiet_handleBye {peer : WireHello} (h : ByeQuiet l)
    (hcovered : l.sess.helloDone → byeQuiesced l → byeActive l) :
    ByeQuiet (handleBye peer l).2 := by
  let l₁ := if byeActive l then requestDown .logout l else l
  have hrequested : ByeQuiet l₁ := by
    simp only [l₁]
    split
    · refine h.keep (by simp [Unheard]) (by simp [byeView]) (by simp) fun hnamed ↦ ?_
      simpa using h.unposted hnamed
    · exact h
  have hkept : l₁.his = l.his ∧ l₁.sess = l.sess ∧ l₁.sh.state = l.sh.state ∧
      l₁.tx.ringPosted = l.tx.ringPosted := by
    simp only [l₁]
    split <;> simp
  obtain ⟨hhis, hsess, hstate, hposted⟩ := hkept
  change ByeQuiet (if byeQuiesced l then { l₁ with his := { l₁.his with byeSeen := _ } } else l₁)
  split
  · next hquiesced =>
    have hstill : l.sh.state ≠ .up ∧ l.tx.ringPosted = 0 := by
      simp only [byeQuiesced, Bool.and_eq_true, bne_iff_ne, beq_iff_eq] at hquiesced
      exact ⟨hquiesced.1.1, hquiesced.2⟩
    refine ⟨fun b hb ↦ List.mem_cons_of_mem _ (hrequested.acked b hb), fun b hb ↦ ?_,
      fun b hb hnames ↦ ?_, fun _ ↦ hstate ▸ hstill.1, fun _ ↦ hposted.trans hstill.2⟩
    · obtain rfl | hb := List.mem_cons.1 hb
      · exact Nat.le_of_eq (congrArg (·.downs) hhis).symm
      · exact hrequested.past b hb
    · obtain rfl | hb := List.mem_cons.1 hb
      · cases hhello : l.sess.helloDone with
        | true =>
          -- the BYE is for a session that is brought up
          exact .inl (by simp [l₁, hcovered hhello hquiesced])
        | false =>
          cases hdowning : l.his.downing with
          | true => exact .inr (.inl ((congrArg (·.downing) hhis).trans hdowning))
          | false =>
            exact .inr (.inr ⟨by simp [hasSession, hhello, hdowning], hsess ▸ hhello⟩)
      · exact hrequested.doomed b hb hnames
  · exact hrequested

theorem byeQuiet_net (o : NetOp) (i : o.Inp) (h : ByeQuiet l)
    (hcovered : byeCovered l (.exec t (.held (.net o)) i : (linkMachine cfg).Label))
    (hpre : ByePre t (.held (.net o)) l) : ByeQuiet (o.exec t l i).2 := by
  cases o with
  | handleBye peer =>
    refine byeQuiet_handleBye h fun hhello hquiesced ↦ ?_
    simpa [byeCovered, hhello, hquiesced] using hcovered
  | response msg bye =>
    refine { h with acked := fun b hb ↦ ?_ }
    obtain hb | hb := List.mem_append.1 hb
    · exact hpre b (Option.mem_toList.1 hb)
    · exact h.acked b hb
  | request msg | reply => exact { h with }
  | handleHello remote | handleReady remote info | flushReadyTake =>
    refine h.keep ?_ (view_net byeView _ i rfl)
      (fun hup ↦ (view_net (·.sh.state) _ i rfl).symm.trans hup)
      fun hnamed ↦ (view_net (·.tx.ringPosted) _ i rfl).trans (h.unposted hnamed)
    simp only [NetOp.exec, handleHello, handleReady, flushReadyTake]
    (repeat' split) <;> simp [Unheard]

/-- A HELLO exchange completes with a peer that did not end the session beforehand. -/
theorem byeQuiet_helloApply {remote : WireHello} (h : ByeQuiet l)
    (hcovered : ∀ b ∈ l.his.byeSeen, b.found = false →
      b.names { l.sess with remote := applyRemote l.sess.remote remote } l.his.downs = false) :
    ByeQuiet (helloApply remote l).2 := by
  simp only [helloApply]
  split
  · exact h
  have hfound : ∀ b ∈ l.his.byeSeen, ∀ s : Session,
      s.remote = applyRemote l.sess.remote remote → b.names s l.his.downs →
      b.found ∧ b.names l.sess l.his.downs := by
    intro b hb s hs hnames
    cases hfound : b.found with
    | false =>
      have hother := hcovered b hb hfound
      rw [← Bye.names_congr hs, hnames] at hother
      cases hother
    | true => exact ⟨rfl, by simpa [Bye.names, hfound] using hnames⟩
  have hnamed : ∀ s : Session, s.remote = applyRemote l.sess.remote remote →
      l.his.byeSeen.any (·.names s l.his.downs) → byeNamed l := by
    intro s hs hany
    obtain ⟨b, hb, hnames⟩ := List.any_eq_true.1 hany
    exact byeNamed_iff.2 ⟨b, hb, (hfound b hb s hs hnames).2⟩
  refine ⟨h.acked, h.past, fun b hb hnames ↦ ?_, fun hany ↦ ?_, fun hany ↦ ?_⟩
  · obtain ⟨hf, hold⟩ := hfound b hb _ rfl hnames
    obtain hneeds | hend := h.doomed b hb hold
    · left
      (repeat' split) <;> exact hneeds
    · exact .inr (hend.imp_right fun hunfound ↦ by simp [hf] at hunfound)
  · have hdown := h.down (hnamed _ rfl hany)
    (repeat' split) <;> exact hdown
  · exact h.unposted (hnamed _ rfl hany)

/-- The session after a completed down is named by no BYE yet. -/
theorem byeQuiet_downEnd (i : SessOp.downEnd.Inp) (h : ByeQuiet l) :
    ByeQuiet (SessOp.exec cfg l .downEnd i).2 := by
  have hfresh : ∀ b ∈ l.his.byeSeen, ∀ s, ¬ b.names s (l.his.downs + 1) := by
    intro b hb s hnames
    have hpast := h.past b hb
    simp only [Bye.names, Bool.and_eq_true, beq_iff_eq] at hnames
    omega
  have hunnamed : ¬ byeNamed (SessOp.exec cfg l .downEnd i).2 := by
    rw [byeNamed_iff]
    rintro ⟨b, hb, hnames⟩
    exact hfresh b hb _ hnames
  exact { acked := h.acked
          past := fun b hb ↦ Nat.le_succ_of_le (h.past b hb)
          doomed := fun b hb hnames ↦ absurd hnames (hfresh b hb _)
          down := fun hnamed ↦ absurd hnamed hunnamed
          unposted := fun hnamed ↦ absurd hnamed hunnamed }

/-- A session on its way down is not published. -/
theorem byeQuiet_maybeUp (i : SessOp.maybeUp.Inp) (h : ByeQuiet l) (hphased : Phased l) :
    ByeQuiet (SessOp.exec cfg l .maybeUp i).2 := by
  simp only [SessOp.exec, maybeUpLocked]
  split
  · next hgate =>
    simp only [Bool.and_eq_true, Bool.not_eq_true'] at hgate
    have hunnamed : ¬ byeNamed l := by
      intro hnamed
      obtain hneeds | hhello := h.closed hphased hnamed
      · simp [hneeds] at hgate
      · simp [hhello] at hgate
    exact { h with down := fun hnamed ↦ absurd hnamed hunnamed }
  · split
    · exact { h with }
    · exact h

/-- A session section that avoids the openings keeps the link quiet. -/
theorem byeQuiet_sess (o : SessOp) (i : o.Inp) (h : ByeQuiet l) (hphased : Phased l)
    (hcovered : byeCovered l (.exec t (.held (.sess o)) i : (linkMachine cfg).Label)) :
    ByeQuiet (o.exec cfg l i).2 := by
  have hposted : (o.exec cfg l i).2.tx.ringPosted = l.tx.ringPosted :=
    congrArg (·.2.2.1) (view_sess txView o i rfl)
  have hunposted := fun hnamed ↦ hposted.trans (h.unposted hnamed)
  cases o with
  | helloApply remote =>
    refine byeQuiet_helloApply h fun b hb hunfound ↦ ?_
    simpa [hunfound] using List.all_eq_true.1 hcovered b hb
  | downBegin owner =>
    refine { h with doomed := fun _ _ _ ↦ .inr (.inl rfl), down := fun _ ↦ ?_ }
    simp only [SessOp.exec, downBegin]
    split <;> simp
  | downEnd => exact byeQuiet_downEnd i h
  | maybeUp => exact byeQuiet_maybeUp i h hphased
  | _ =>
    refine h.keep (unheard_sess _ i (by simp)) ?_
      (fun hup ↦ (state_sess _ i hup).resolve_right (by simp)) hunposted
    first | rfl | exact view_quiet byeView i rfl rfl

/-- Every step that avoids the openings keeps a link quiet. -/
theorem byeQuiet_run {o : Op} {i : o.Inp} {r : o.Res} (h : ByeQuiet l) (hphased : Phased l)
    (hcovered : byeCovered l (.exec t o i : (linkMachine cfg).Label)) (hpre : ByePre t o l)
    (hrun : o.run cfg t i l = some (r, l')) : ByeQuiet l' := by
  cases o with
  | held o =>
    cases o with
    | base o =>
      refine h.keep (unheard_base hrun) (view_base byeView hrun rfl) (fun hup ↦ ?_) fun hnamed ↦
        (congrArg (·.2.2.1) (view_base txView hrun rfl)).trans (h.unposted hnamed)
      obtain hstate | hstate := state_base hrun
      · exact hstate.symm.trans hup
      · simp [hup] at hstate
    | net o =>
      obtain rfl := link_of_run hrun
      exact byeQuiet_net o i h hcovered hpre
    | tx o => exact byeQuiet_tx h hphased hcovered hrun
    | rx o =>
      exact h.keep (unheard_rx hrun) (view_rx byeView hrun rfl)
        (fun hup ↦ (view_rx (·.sh.state) hrun rfl).symm.trans hup)
        fun hnamed ↦ (congrArg (·.2.2.1) (view_rx txView hrun rfl)).trans (h.unposted hnamed)
    | sess o =>
      obtain rfl := link_of_run hrun
      exact byeQuiet_sess o i h hphased hcovered
  | _ =>
    simp only [Op.run] at hrun
    (repeat' split at hrun) <;> cases hrun <;>
      exact { h with }

theorem byeQuiet_begin {e : Entry} (h : ByeQuiet l) (hbegin : e.begin t l = some l') :
    ByeQuiet l' := by
  refine h.keep (unheard_begin hbegin) (view_begin byeView hbegin rfl)
    (fun hup ↦ (view_begin (·.sh.state) hbegin rfl).symm.trans hup) fun hnamed ↦ ?_
  exact (view_begin (·.tx.ringPosted) hbegin rfl).trans (h.unposted hnamed)

theorem byeQuiet_init (h : (linkMachine cfg).init l) : ByeQuiet l := by
  obtain ⟨random, requestSeq, autostart, rfl⟩ := h
  constructor <;> simp [linkCreate, byeNamed]

/-- A BYE that found the link quiescent stays recorded. -/
theorem byeSeen_run {o : Op} {i : o.Inp} {r : o.Res} (h : o.run cfg t i l = some (r, l')) {b : Bye}
    (hb : b ∈ l.his.byeSeen) : b ∈ l'.his.byeSeen := by
  have hkeep : Unheard l l' → b ∈ l'.his.byeSeen := fun hu ↦ hu.1 ▸ hb
  cases o with
  | held o =>
    cases o with
    | base o => exact hkeep (unheard_base h)
    | net o =>
      obtain rfl := link_of_run h
      cases o with
      | request msg | reply | response msg bye => exact hb
      | handleBye peer | handleHello remote | handleReady remote info | flushReadyTake =>
        simp only [NetOp.exec, handleBye, handleHello, handleReady, flushReadyTake]
        (repeat' split) <;> simp [hb]
    | tx o => exact hkeep (unheard_tx h)
    | rx o => exact hkeep (unheard_rx h)
    | sess o =>
      obtain rfl := link_of_run h
      by_cases hbegin : ∃ owner, o = .downBegin owner
      · obtain ⟨owner, rfl⟩ := hbegin
        exact hb
      · exact hkeep (unheard_sess o i fun owner ho ↦ hbegin ⟨owner, ho⟩)
  | _ => exact (view_run (·.his.byeSeen) h rfl).symm ▸ hb

end Steps

section Programs

variable {cfg : LinkCfg} {t : Tid} {α : Type} {G : (linkMachine cfg).Guard}

def byeEffect : Effect heldSig (Option Bye)
  | .net (.handleBye _), v, Q => ∀ r : Bool × Bye,
      (r.1 = true → Q r (some r.2)) ∧ (r.1 = false → Q r v)
  | .net (.response _ bye), v, Q => (bye = none ∨ bye = v) ∧ ∀ r, Q r v
  | _, v, Q => ∀ r, Q r v

theorem byeSeen_handleBye {peer : WireHello} {l : Link} (hquiesced : (handleBye peer l).1.1 = true) :
    ∀ b ∈ some (handleBye peer l).1.2, b ∈ (handleBye peer l).2.his.byeSeen := by
  rintro b hb
  obtain rfl := Option.mem_some_iff.1 hb
  have hquiesced : byeQuiesced l := hquiesced
  simp [handleBye, hquiesced]

/-- A handler acknowledges only a BYE that the link has seen. -/
theorem tracks_bye : (linkMachine cfg).Tracks G ByeQuiet ByePre t
    (fun v l ↦ ∀ b ∈ v, b ∈ l.his.byeSeen) (heldEffect byeEffect) where
  stable v := by
    rintro l l' h ⟨u, -, hmove⟩ b hb
    cases hmove with
    | enter _ _ henter =>
      rw [(unheard_begin (enter_eq_some henter).2.1).1]
      exact h b hb
    | exec _ _ _ hrun => exact byeSeen_run hrun (h b hb)
  exec o v Q h l i r l' _ hl _ hrun := by
    have hkept : ∀ b ∈ v, b ∈ l'.his.byeSeen := fun b hb ↦ byeSeen_run hrun (hl b hb)
    cases o with
    | held o =>
      cases o with
      | net o =>
        cases o with
        | handleBye peer =>
          obtain ⟨rfl, rfl⟩ := Prod.mk.inj (Option.some.inj hrun)
          cases hquiesced : (handleBye peer l).1.1 with
          | true => exact ⟨trivial, _, byeSeen_handleBye hquiesced, (h _).1 hquiesced⟩
          | false => exact ⟨trivial, v, hkept, (h _).2 hquiesced⟩
        | response msg bye =>
          refine ⟨?_, v, hkept, h.2 r⟩
          obtain rfl | rfl := h.1
          · exact nofun
          · exact hl
        | _ => exact ⟨trivial, v, hkept, h r⟩
      | _ => exact ⟨trivial, v, hkept, h r⟩
    | _ => exact h.elim

attribute [local simp] byeEffect liftM monadLift

theorem bye_flushReadyResponse :
    (flushReadyResponse cfg).Neutral (byeEffect.lift netHeld) none := by
  intro Q hQ
  simp [flushReadyResponse]
  rintro (_ | ⟨seq, xdomainSequence⟩) <;> simp [hQ]

theorem bye_partCode : PartCode cfg fun _ p ↦ p.Neutral byeEffect none where
  toHeldCode := heldCode_neutral fun _ _ hQ ↦ hQ
  sess _ _ hQ := hQ
  net p hp := .lift (Prog.neutral_of_all (hp.mono fun o ho Q hQ ↦ by
    cases o with
    | base o => exact hQ
    | net o => cases o <;> first | exact ho.elim | exact hQ))
  flush := bye_flushReadyResponse.lift
  post _ := Prog.neutral_of_all (all_rx (fun _ _ hQ ↦ hQ) (fun _ _ hQ ↦ hQ) _)
  probe := Prog.neutral_of_all (all_tx (fun _ _ hQ ↦ hQ) (fun _ _ hQ ↦ hQ) _)
  quiesce _ _ := Prog.neutral_of_all (all_downQuiesce (fun _ _ hQ ↦ hQ) (fun _ _ _ hQ ↦ hQ)
    (fun _ _ _ hQ ↦ hQ) _ _)

/-- The BYE case of `tbframe_link_handle_packet` acknowledges what it found quiescent. -/
theorem wlp_handlePacket (m : WireMsg) :
    (handlePacket cfg m).wlp (byeEffect.lift netHeld) (fun _ _ ↦ True) none := by
  simp [handlePacket]
  intro _
  split
  · simp [handleHelloPacket]
  · simp [handleReadyPacket]
    exact bye_flushReadyResponse _ fun _ ↦ trivial
  · simp [handleByePacket]
  all_goals trivial

end Programs

/-- In every run that avoids the openings, a session whose BYE was found quiescent stays quiet. -/
theorem bye_verified (cfg : LinkCfg) : (linkMachine cfg).Verified (ByeGuard cfg) ByeQuiet ByePre where
  init _ h := byeQuiet_init h
  enter t e l p l' hI _ henter := by
    obtain ⟨-, hbegin, rfl⟩ := enter_eq_some henter
    refine ⟨byeQuiet_begin hI hbegin, ?_⟩
    cases he : e.domain with
    | tx =>
      exact safe_onTx (safe_free fun _ _ ↦ trivial) (safe_free fun o _ ↦ by cases o <;> trivial)
        (fun _ ↦ trivial) he l' trivial
    | rx =>
      exact safe_onRx (safe_free fun o _ ↦ by cases o <;> trivial) (fun _ ↦ trivial) he l' trivial
    | other =>
      exact safe_parts tracks_bye bye_partCode (fun _ ↦ nofun) (fun o ho _ ↦ by
        cases o <;> first | exact absurd rfl (ho _) | trivial) he (fun m _ ↦ wlp_handlePacket m) l'
        trivial
  exec t o i l r l' hI hpre hG hrun := byeQuiet_run hI hG.2.1.2.1.phased hG.1 hpre hrun

/-- In every run that avoids the openings, a link that acknowledged a BYE posts no frame until the
session that the BYE names is down. -/
theorem bye_ack_silence {cfg : LinkCfg} {c c' : (linkMachine cfg).Config} {t : Tid} {f : ℕ} {i : ℤ}
    (hc : (linkMachine cfg).Reach (fun l s ↦ byeCovered l s) c)
    (hstep : (linkMachine cfg).Step c (.exec t (.held (.tx (.ringTx f))) i) c') :
    ∀ b ∈ c.state.his.byeAcked, ¬ b.names c.state.sess c.state.his.downs := by
  intro b hacked hnames
  have hsettled := settled_step (hc.mono fun _ _ _ ↦ trivial) hstep
  obtain ⟨hquiet, -⟩ := (bye_verified cfg).sound (settled_reach hc)
  have hposting : (c.state.tx.frames f).loc = .posting t := hsettled.2.2
  have hposted : (c.state.tx.frames f).hwPosted :=
    (hsettled.2.1.placed f).posted (by simp [hposting, TxLoc.posted])
  have hpos := hsettled.2.1.ringPosted.pos hposted
  have hzero := hquiet.unposted (byeNamed_iff.2 ⟨b, hquiet.acked b hacked, hnames⟩)
  omega

/-! ## A keepalive after the BYE_ACK -/

/-- A BYE of the peer, and `n` steps of its handling. -/
def byeSchedule (cookie : UInt64) (n : ℕ) : List (linkMachine (sampleCfg .b)).Act :=
  [.start (.task 0) (.packet (sampleMsg .bye 3 (sampleHello .a 6 cookie)))] ++
    linkSteps (.task 0) n {}

def byeRaceSchedule : List (linkMachine (sampleCfg .b)).Act :=
  connectSchedule 1 2 ++ byeSchedule 70 4 ++ linkSteps .session 1 {}

/-- The step calls `ring_tx`. -/
def callsRingTx {cfg : LinkCfg} : (linkMachine cfg).Label → Bool
  | .exec _ (.held (.tx (.ringTx _))) _ => true
  | _ => false

theorem callsRingTx_iff {cfg : LinkCfg} {s : (linkMachine cfg).Label} :
    callsRingTx s ↔ ∃ t f i, s = .exec t (.held (.tx (.ringTx f))) i := by
  constructor
  · intro h
    unfold callsRingTx at h
    split at h
    · next t f i => exact ⟨t, f, i, rfl⟩
    · cases h
  · rintro ⟨t, f, i, rfl⟩
    rfl

set_option maxRecDepth 10000 in
/-- The prover posts its keepalive although the link has just certified that it transmits no more. -/
theorem keepalive_after_bye_ack : ∃ c c' t f i, (linkMachine (sampleCfg .b)).system.Reachable c ∧
    (linkMachine (sampleCfg .b)).Step c (.exec t (.held (.tx (.ringTx f))) i) c' ∧
    ∃ b ∈ c.state.his.byeAcked, b.names c.state.sess c.state.his.downs := by
  obtain ⟨c, hc, hgoal⟩ := System.Exec.reach_of_play (linkMachine (sampleCfg .b)).exec
    (fun _ _ ↦ true)
    (fun c ↦ c.state.his.byeAcked.any (·.names c.state.sess c.state.his.downs) &&
      (Machine.act c sessionAct).any fun x ↦ callsRingTx x.1)
    byeRaceSchedule (Machine.init_idle ⟨50, 0, true, rfl⟩) (by decide +kernel)
  simp only [Bool.and_eq_true, List.any_eq_true, Option.any_eq_true] at hgoal
  obtain ⟨hacked, ⟨s, c'⟩, hact, hring⟩ := hgoal
  obtain ⟨t, f, i, rfl⟩ := callsRingTx_iff.1 hring
  exact ⟨c, c', t, f, i, hc.mono fun _ _ _ ↦ trivial, Machine.act_sound hact, hacked⟩

/-- A session whose BYE is refused while its keepalive is out and acknowledged during its down; a
BYE of an earlier lifetime of the peer, which finds no session; and the session after it. -/
def byeDownSchedule : List (linkMachine (sampleCfg .b)).Act :=
  connectSchedule 1 2 ++ linkSteps .session 8 {} ++
    [.start (.task 1) (.txComplete 0 false)] ++ linkSteps (.task 1) 7 {} ++ byeSchedule 70 4 ++
  [.start .session .sessionWork] ++ linkSteps .session 9 {} ++ byeSchedule 70 6 ++
    linkSteps .session 3 {} ++ cancelRx 0 ++ cancelRx 1 ++ linkSteps .session 10 {} ++
  byeSchedule 60 6 ++ connectSchedule 3 4 ++ linkSteps .session 1 {}

set_option maxRecDepth 10000 in
theorem bye_ack_silence_next_session : ∃ c c' t f i,
    (linkMachine (sampleCfg .b)).Reach (fun l s ↦ byeCovered l s) c ∧
    (linkMachine (sampleCfg .b)).Step c (.exec t (.held (.tx (.ringTx f))) i) c' ∧
    c.state.his.byeAcked =
      [⟨1, false, sampleHello .a 6 60⟩, ⟨0, true, sampleHello .a 6 70⟩] ∧
    ∀ b ∈ c.state.his.byeAcked, ¬ b.names c.state.sess c.state.his.downs := by
  obtain ⟨c, hc, hgoal⟩ := System.Exec.reach_of_play (linkMachine (sampleCfg .b)).exec
    (fun c s ↦ byeCovered c.state s)
    (fun c ↦ c.state.his.byeAcked ==
        [⟨1, false, sampleHello .a 6 60⟩, ⟨0, true, sampleHello .a 6 70⟩] &&
      (Machine.act c sessionAct).any fun x ↦ callsRingTx x.1)
    byeDownSchedule (Machine.init_idle ⟨50, 0, true, rfl⟩) (by decide +kernel)
  simp only [Bool.and_eq_true, beq_iff_eq, Option.any_eq_true] at hgoal
  obtain ⟨hacked, ⟨s, c'⟩, hact, hring⟩ := hgoal
  obtain ⟨t, f, i, rfl⟩ := callsRingTx_iff.1 hring
  have hstep := Machine.act_sound hact
  exact ⟨c, c', t, f, i, hc, hstep, hacked, bye_ack_silence hc hstep⟩

end ThunderboltStack.Tbframe
