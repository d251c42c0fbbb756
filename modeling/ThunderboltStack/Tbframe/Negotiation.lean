import ThunderboltStack.Tbframe.Footprint
import ThunderboltStack.Tbframe.Lock

/-!
# Capability negotiation

One end of the HELLO exchange.  A link that only receives honest messages (with the sender's HopID,
offers between the common capabilities and what the sender supports, and selections equal to the
common capabilities) only sends honest messages, and what it records of the peer when a HELLO
completes is the common capability word and the peer's HopID.
-/

namespace ThunderboltStack.Tbframe

open ThunderboltStack.Lib

/-! ## Honest messages -/

def agreedCaps (cfg peer : LinkCfg) : UInt32 :=
  supportedCaps cfg.tf &&& supportedCaps peer.tf

theorem agreedCaps_comm (cfg peer : LinkCfg) : agreedCaps cfg peer = agreedCaps peer cfg :=
  UInt32.and_comm _ _

/-- The word `caps` has every capability of `a`. -/
def Covers (a caps : UInt32) : Prop :=
  a &&& caps = a

/-- What a link configured as `cfg` says to one configured as `peer`. -/
structure Honest (cfg peer : LinkCfg) (m : WireMsg) : Prop where
  hopid : m.hello.transmitHopid = cfg.localHopid
  offer : m.info.op = .hello → Covers (agreedCaps cfg peer) m.hello.capabilities ∧
    Covers m.hello.capabilities (supportedCaps cfg.tf)
  selection : m.info.op = .helloAck → m.hello.capabilities = agreedCaps cfg peer

section Words

variable {cfg peer : LinkCfg} {mask : UInt32}

theorem Covers.all_ones (a : UInt32) : Covers a 0xffffffff :=
  UInt32.and_neg_one

/-- An offer made under a mask that has the common capabilities has them too. -/
theorem Covers.offer (h : Covers (agreedCaps cfg peer) mask) :
    Covers (agreedCaps cfg peer) (supportedCaps cfg.tf &&& mask) ∧
      Covers (supportedCaps cfg.tf &&& mask) (supportedCaps cfg.tf) := by
  unfold Covers at h ⊢
  have habsorb : agreedCaps cfg peer &&& supportedCaps cfg.tf = agreedCaps cfg peer := by
    rw [agreedCaps_comm, agreedCaps, UInt32.and_assoc, UInt32.and_self]
  constructor
  · rw [← UInt32.and_assoc, habsorb, h]
  · rw [UInt32.and_comm _ mask, UInt32.and_assoc, UInt32.and_self]

/-- What a link selects from an honest offer is the common capability word. -/
theorem Covers.select (hlow : Covers (agreedCaps peer cfg) mask)
    (hhigh : Covers mask (supportedCaps peer.tf)) :
    supportedCaps cfg.tf &&& mask = agreedCaps cfg peer := by
  unfold Covers at hlow hhigh
  calc supportedCaps cfg.tf &&& mask
      = supportedCaps cfg.tf &&& (mask &&& supportedCaps peer.tf) := by rw [hhigh]
    _ = agreedCaps peer cfg &&& mask := by
        rw [agreedCaps_comm, agreedCaps, UInt32.and_comm mask, UInt32.and_assoc]
    _ = agreedCaps cfg peer := by rw [hlow, agreedCaps_comm]

end Words

structure Negotiated (cfg peer : LinkCfg) (l : Link) : Prop where
  sent : ∀ m ∈ l.his.sent, Honest cfg peer m
  selection : l.sess.helloSelectionPending → Covers (agreedCaps cfg peer) l.sess.helloSelectionCaps
  seen : l.sh.helloResponder.seen →
    Covers (agreedCaps cfg peer) l.sh.helloResponder.peer.capabilities
  remote : l.sess.helloDone → l.sess.remote.caps = agreedCaps cfg peer ∧
    l.sess.remote.hopid = peer.localHopid

def FromPeer (cfg peer : LinkCfg) : (linkMachine cfg).Guard
  | _, .start _ (.packet m) => Honest peer cfg m
  | _, .exec _ (.held (.net .reply)) outcome => ∀ m, outcome = .ok m → Honest peer cfg m
  | _, _ => True

def NegotiationPre (cfg peer : LinkCfg) (_ : Tid) : Op → Link → Prop
  | .held (.net (.request m)), _ => Honest cfg peer m
  | .held (.net (.response m _)), _ => Honest cfg peer m
  | .held (.net (.handleHello remote)), _ =>
      Covers (agreedCaps cfg peer) remote.capabilities
  | .held (.sess (.helloSelect caps)), _ => Covers (agreedCaps cfg peer) caps
  | .held (.sess (.helloApply remote)), _ =>
      remote.capabilities = agreedCaps cfg peer ∧ remote.transmitHopid = peer.localHopid
  | _, _ => True

def negotiation (l : Link) : List WireMsg × HelloResponder × Bool × UInt32 × Bool × Remote :=
  (l.his.sent, l.sh.helloResponder, l.sess.helloSelectionPending, l.sess.helloSelectionCaps,
    l.sess.helloDone, l.sess.remote)

section Frame

variable {cfg peer : LinkCfg} {t : Tid} {l l' : Link}

theorem Negotiated.congr (h : Negotiated cfg peer l) (hn : negotiation l' = negotiation l) :
    Negotiated cfg peer l' := by
  simp only [negotiation, Prod.mk.injEq] at hn
  obtain ⟨hsent, hresponder, hpending, hcaps, hdone, hremote⟩ := hn
  refine ⟨?_, ?_, ?_, ?_⟩
  · rw [hsent]; exact h.sent
  · rw [hpending, hcaps]; exact h.selection
  · rw [hresponder]; exact h.seen
  · rw [hdone, hremote]; exact h.remote

end Frame

section Steps

variable {cfg peer : LinkCfg} {t : Tid} {l : Link}

theorem Negotiated.send {m : WireMsg} (h : Negotiated cfg peer l) (hm : Honest cfg peer m) :
    ∀ m' ∈ m :: l.his.sent, Honest cfg peer m' := by
  intro m' hm'
  obtain rfl | hm' := List.mem_cons.1 hm'
  · exact hm
  · exact h.sent m' hm'

theorem handleHello_negotiation (remote : WireHello) :
    negotiation (handleHello remote l).2 =
      negotiation { l with sh := { l.sh with
        helloResponder := { seen := true, peer := remote } } } := by
  simp only [handleHello]
  (repeat' split) <;> simp [negotiation]

/-- Messages and the sections that act on them keep the negotiation honest. -/
theorem negotiated_net (o : NetOp) (i : o.Inp) (h : Negotiated cfg peer l)
    (hpre : NegotiationPre cfg peer t (.held (.net o)) l) :
    Negotiated cfg peer (o.exec t l i).2 := by
  cases o with
  | request m => exact { h with sent := h.send hpre }
  | reply => exact h
  | response m named => exact { h with sent := h.send hpre }
  | handleHello remote =>
    refine Negotiated.congr ?_ (handleHello_negotiation remote)
    exact { h with seen := fun _ ↦ hpre }
  | handleReady remote info =>
    refine h.congr ?_
    simp only [NetOp.exec, handleReady]
    split <;> simp [negotiation]
  | flushReadyTake =>
    refine h.congr ?_
    simp only [NetOp.exec, flushReadyTake]
    split <;> rfl
  | handleBye _ =>
    refine h.congr ?_
    simp only [NetOp.exec, handleBye]
    (repeat' split) <;> simp [negotiation]

/-- The identity that `tbframe_link_hello_once` records is the one it was given. -/
theorem negotiated_helloApply {remote : WireHello} (h : Negotiated cfg peer l)
    (hcaps : remote.capabilities = agreedCaps cfg peer)
    (hhopid : remote.transmitHopid = peer.localHopid) :
    Negotiated cfg peer (helloApply remote l).2 := by
  simp only [helloApply]
  split
  · exact h
  · refine ⟨h.sent, by simp, ?_, fun _ ↦ ⟨hcaps, hhopid⟩⟩
    have hresponder : ∀ sh : Shared, sh.helloResponder = l.sh.helloResponder →
        sh.helloResponder.seen → Covers (agreedCaps cfg peer) sh.helloResponder.peer.capabilities :=
      fun sh hsh ↦ by rw [hsh]; exact h.seen
    refine hresponder _ ?_
    (repeat' split) <;> rfl

theorem negotiated_sess (o : SessOp) (i : o.Inp) (h : Negotiated cfg peer l)
    (hpre : NegotiationPre cfg peer t (.held (.sess o)) l) :
    Negotiated cfg peer (o.exec cfg l i).2 := by
  cases o with
  | helloSelect caps => exact { h with selection := fun _ ↦ hpre }
  | helloApply remote => exact negotiated_helloApply h hpre.1 hpre.2
  | downBegin owner =>
    exact ⟨h.sent, by simp [SessOp.exec, downBegin], by simp [SessOp.exec, downBegin],
      by simp [SessOp.exec, downBegin]⟩
  | _ =>
    refine h.congr ?_
    first
    | rfl
    | (simp only [SessOp.exec, notifyDownLocked, upcall, readyConfirm, maybeUpLocked, probeFailed,
        revalidated]; (repeat' split) <;> simp [negotiation])

theorem negotiated_held {o : HeldOp} {i : o.Inp} {r : o.Res} {l' : Link}
    (h : Negotiated cfg peer l) (hpre : NegotiationPre cfg peer t (.held o) l)
    (hrun : o.run cfg t i l = some (r, l')) : Negotiated cfg peer l' := by
  cases o with
  | base o => exact h.congr (view_base negotiation hrun rfl)
  | net o =>
    obtain rfl := link_of_run hrun
    exact negotiated_net o i h hpre
  | tx o => exact h.congr (view_tx negotiation hrun rfl)
  | rx o => exact h.congr (view_rx negotiation hrun rfl)
  | sess o =>
    obtain rfl := link_of_run hrun
    exact negotiated_sess o i h hpre

end Steps

section Programs

variable {cfg peer : LinkCfg} {t : Tid}

variable (cfg peer) in
/-- What the steps of the negotiation are given and what they return, as long as the messages that
the link receives are honest. -/
def speakEffect : Effect heldSig Unit
  | .net (.request m), v, Q => Honest cfg peer m ∧ ∀ r, Q r v
  | .net (.response m _), v, Q => Honest cfg peer m ∧ ∀ ret, Q ret v
  | .net .reply, v, Q => (∀ e, Q (.error e) v) ∧ ∀ m, Honest peer cfg m → Q (.ok m) v
  | .net (.handleHello remote), v, Q =>
      Covers (agreedCaps cfg peer) remote.capabilities ∧ ∀ ack, Q ack v
  | .sess (.helloSelect caps), v, Q => Covers (agreedCaps cfg peer) caps ∧ ∀ r, Q r v
  | .sess (.helloApply remote), v, Q => (remote.capabilities = agreedCaps cfg peer ∧
      remote.transmitHopid = peer.localHopid) ∧ ∀ ret, Q ret v
  | .base (.read .helloOfferMask), v, Q => ∀ mask, Covers (agreedCaps cfg peer) mask → Q mask v
  | .base (.read (.fillLocalHello caps)), v, Q => ∀ hello : WireHello,
      hello.transmitHopid = cfg.localHopid →
      hello.capabilities = supportedCaps cfg.tf &&& caps → Q hello v
  | _, v, Q => ∀ r, Q r v

/-- The mask of the next offer has the common capabilities. -/
theorem covers_helloOfferMask {l : Link} (h : Negotiated cfg peer l) :
    Covers (agreedCaps cfg peer) (ReadOp.get cfg l .helloOfferMask) := by
  simp only [ReadOp.get, helloOfferMask]
  split
  · next hpending => exact h.selection hpending
  · split
    · next hseen => exact h.seen hseen
    · exact Covers.all_ones _

/-- Every program says to the peer only what `speakEffect` lets it. -/
theorem tracks_speak : (linkMachine cfg).Tracks (FromPeer cfg peer) (Negotiated cfg peer)
    (NegotiationPre cfg peer) t (fun _ _ ↦ True) (heldEffect (speakEffect cfg peer)) where
  stable _ _ _ _ _ := trivial
  exec o v Q h l i r l' hI _ hG hrun := by
    cases o with
    | held o =>
      have hrun : o.run cfg t i l = some (r, l') := hrun
      cases o with
      | net o =>
        cases o with
        | request m | response m named | handleHello remote => exact ⟨h.1, v, trivial, h.2 r⟩
        | reply =>
          refine ⟨trivial, v, trivial, ?_⟩
          obtain ⟨rfl, -⟩ := Prod.mk.inj (Option.some.inj hrun)
          cases i with
          | error e => exact h.1 e
          | ok m => exact h.2 m (hG m rfl)
        | _ => exact ⟨trivial, v, trivial, h r⟩
      | sess o =>
        cases o with
        | helloSelect caps | helloApply remote => exact ⟨h.1, v, trivial, h.2 r⟩
        | _ => exact ⟨trivial, v, trivial, h r⟩
      | base o =>
        refine ⟨trivial, v, trivial, ?_⟩
        cases o with
        | read o =>
          obtain ⟨rfl, -⟩ := Prod.mk.inj (Option.some.inj hrun)
          cases o with
          | helloOfferMask => exact h _ (covers_helloOfferMask hI)
          | fillLocalHello caps => exact h _ rfl rfl
          | _ => exact h _
        | _ => exact h r
      | _ => exact ⟨trivial, v, trivial, h r⟩
    | _ => exact h.elim

/-- A message built from the local HELLO is honest unless it is an offer or a selection. -/
theorem honest_other {hello : WireHello} {info : WireInfo}
    (hhopid : hello.transmitHopid = cfg.localHopid) (hop : info.op ≠ .hello)
    (hop' : info.op ≠ .helloAck) : Honest cfg peer ⟨hello, info⟩ :=
  ⟨hhopid, fun h ↦ absurd h hop, fun h ↦ absurd h hop'⟩

attribute [local simp] speakEffect liftM monadLift

/-- The answer to a HELLO is the peer's selection. -/
theorem wlp_queryHello {v : Unit} {Q : Except ℤ WireHello × UInt32 → Unit → Prop}
    (herror : ∀ e caps, Q (.error e, caps) v)
    (hok : ∀ remote caps, remote.capabilities = agreedCaps cfg peer →
      remote.transmitHopid = peer.localHopid → Q (.ok remote, caps) v) :
    (queryHello cfg).wlp ((speakEffect cfg peer).lift netHeld) Q v := by
  simp [queryHello, herror]
  intro mask hmask hello hhopid hcaps seq
  refine ⟨⟨hhopid, fun _ ↦ hcaps ▸ hmask.offer, by simp⟩, fun m hm hmatch _ ↦ ?_⟩
  have hack : m.info.op = .helloAck := by
    simp only [replyMatches, Bool.and_eq_true, beq_iff_eq] at hmatch
    exact hmatch.1.1
  exact hok _ _ ((hm.selection hack).trans (agreedCaps_comm peer cfg)) hm.hopid

theorem speaks_flushReadyResponse :
    (flushReadyResponse cfg).Neutral ((speakEffect cfg peer).lift netHeld) () := by
  intro Q hQ
  simp [flushReadyResponse]
  rintro (_ | ⟨seq, xdomainSequence⟩)
  · exact hQ 0
  · simp [hQ]
    exact fun _ hello hhopid _ ↦ honest_other hhopid (by simp) (by simp)

theorem speaks_byeRounds {req : WireMsg} (hreq : Honest cfg peer req) (n : ℕ) :
    (byeRounds req n).Neutral ((speakEffect cfg peer).lift netHeld) () := by
  intro Q hQ
  induction n with
  | zero => exact hQ ()
  | succ n ih => simp [byeRounds, hreq, hQ, ih]

theorem speaks_bye : (bye cfg).Neutral ((speakEffect cfg peer).lift netHeld) () := by
  intro Q hQ
  simp [bye]
  exact fun _ hello hhopid _ seq ↦
    speaks_byeRounds (honest_other hhopid (by simp) (by simp)) byeRetries Q hQ

/-- An honest HELLO is answered by a selection of the common capabilities. -/
theorem speaks_handlePacket {m : WireMsg} (hm : Honest peer cfg m) :
    (handlePacket cfg m).Neutral ((speakEffect cfg peer).lift netHeld) () := by
  intro Q hQ
  simp [handlePacket, hQ]
  intro _
  split
  · next hop =>
    obtain ⟨hlow, hhigh⟩ := hm.offer hop
    rw [agreedCaps_comm] at hlow
    simp [handleHelloPacket, hQ, hlow]
    exact fun _ hello hhopid hcaps ↦
      ⟨hhopid, by simp, fun _ ↦ hcaps.trans (Covers.select (agreedCaps_comm peer cfg ▸ hlow) hhigh)⟩
  · simp [handleReadyPacket, hQ]
    exact speaks_flushReadyResponse _ fun _ ↦ trivial
  · simp [handleByePacket, hQ]
    exact fun _ hello hhopid _ ↦ honest_other hhopid (by simp) (by simp)
  all_goals exact hQ ()

/-- The rounds of a HELLO end with the peer's selection. -/
theorem wlp_helloRounds {v : Unit} {Q : Except ℤ WireHello → Unit → Prop}
    (herror : ∀ e, Q (.error e) v)
    (hok : ∀ remote, remote.capabilities = agreedCaps cfg peer →
      remote.transmitHopid = peer.localHopid → Q (.ok remote) v) (n : ℕ) :
    (helloRounds cfg n).wlp (speakEffect cfg peer) Q v := by
  induction n with
  | zero => exact herror _
  | succ n ih =>
    simp [helloRounds]
    refine wlp_queryHello (by simp [herror]) fun remote caps hcaps hhopid ↦ ?_
    simp [hcaps, hok remote hcaps hhopid, ih]
    exact fun _ ↦ (Covers.offer (UInt32.and_self ..)).1

theorem speaks_helloOnce : (helloOnce cfg).Neutral (speakEffect cfg peer) () := by
  intro Q hQ
  simp [helloOnce]
  refine wlp_helloRounds (by simp [hQ]) (fun remote hcaps hhopid ↦ ?_) 2
  simp [hQ, hcaps, hhopid]

theorem speaks_readyOnce : (readyOnce cfg).Neutral (speakEffect cfg peer) () := by
  intro Q hQ
  simp [readyOnce, hQ]
  exact fun _ hello hhopid _ seq ↦ honest_other hhopid (by simp) (by simp)

theorem speaks_base (o : BaseOp) : (speakEffect cfg peer).Keeps () (.base o) := by
  intro Q hQ
  cases o with
  | read o => cases o <;> first | exact hQ | exact fun _ _ ↦ hQ _ | exact fun _ _ _ ↦ hQ _
  | _ => exact hQ

theorem speaks_sess {o : SessOp} (h : o.ofStep) : (sess o).Neutral (speakEffect cfg peer) () := by
  cases o <;> first | exact fun _ hQ ↦ hQ | cases h

theorem speaks_stepCode : StepCode cfg fun _ p ↦ p.Neutral (speakEffect cfg peer) () := by
  have hC : HeldCode fun _ p ↦ p.Neutral (speakEffect cfg peer) () := heldCode_neutral speaks_base
  exact {
    toHeldCode := hC
    sess := fun _ ↦ speaks_sess
    hello := speaks_helloOnce
    query := fun _ hQ ↦ (Prog.wlp_lift ..).mpr
      (wlp_queryHello (fun _ _ ↦ hQ _) fun _ _ _ _ ↦ hQ _)
    ready := speaks_readyOnce
    flush := speaks_flushReadyResponse.lift
    post := fun _ ↦ Prog.neutral_of_all (all_rx speaks_base (fun _ _ hQ ↦ hQ) _)
    probe := Prog.neutral_of_all (all_tx speaks_base (fun _ _ hQ ↦ hQ) _)
    down := fun reason owner ↦ by
      have hsess : ∀ o : SessOp, o.ofDown → (sess o).Neutral (speakEffect cfg peer) () :=
        fun o ho ↦ speaks_sess (by cases o <;> first | rfl | cases ho)
      refine hC.downSession speaks_bye.lift hsess (fun _ hQ ↦ hQ) fun hk ↦ ?_
      refine hC.bind (p := sess (.downBegin owner)) (fun _ hQ ↦ hQ) fun d ↦ hC.bind ?_ (hk d)
      exact Prog.neutral_of_all (all_downQuiesce speaks_base (fun _ _ _ hQ ↦ hQ)
        (fun o ho ↦ hsess o (o.ofDown_of_ofQuiesce ho)) _ _) }

theorem speaks_safe {α : Type} {p : HeldProg α} (hp : p.Neutral (speakEffect cfg peer) ()) :
    (linkMachine cfg).Safe (FromPeer cfg peer) (Negotiated cfg peer) (NegotiationPre cfg peer) t
      (p.lift heldLink) :=
  safe_neutral tracks_speak (fun _ ↦ trivial) hp

end Programs

/-- One end of a cable: as long as the messages it receives are honest, the negotiation holds in
every state it reaches. -/
theorem negotiation_verified (cfg peer : LinkCfg) :
    (linkMachine cfg).Verified (FromPeer cfg peer) (Negotiated cfg peer)
      (NegotiationPre cfg peer) where
  init l h := by
    obtain ⟨random, requestSeq, autostart, rfl⟩ := h
    exact ⟨by simp [linkCreate], by simp [linkCreate], by simp [linkCreate], by simp [linkCreate]⟩
  enter t e l p l' hI hG henter := by
    obtain ⟨-, hbegin, rfl⟩ := enter_eq_some henter
    refine ⟨hI.congr (view_begin negotiation hbegin rfl), ?_⟩
    have hlock := fun {α : Type} {p : HeldProg α} (hp : p.Neutral (speakEffect cfg peer) ()) ↦
      Safe.withSessionLock (fun _ ↦ trivial) (fun _ ↦ trivial) (speaks_safe (t := t) hp)
    cases he : e.domain with
    | tx =>
      exact safe_onTx (safe_free fun _ _ ↦ trivial) (safe_free fun o _ ↦ by cases o <;> trivial)
        (fun _ ↦ trivial) he l' trivial
    | rx =>
      exact safe_onRx (safe_free fun o _ ↦ by cases o <;> trivial) (fun _ ↦ trivial) he l' trivial
    | other =>
      refine safe_prog (safe_free fun _ _ ↦ trivial) (hlock speaks_stepCode.sessionStepLocked)
        (fun reason ↦ hlock (speaks_stepCode.down reason .local))
        ⟨fun _ ↦ trivial, fun _ ↦ trivial, fun _ ↦ trivial⟩ (fun _ ↦ trivial) he (fun m hm ↦ ?_) l'
        trivial
      subst hm
      exact speaks_safe (speaks_handlePacket hG).lift
  exec t o i l r l' hI hpre _ hrun := by
    have hrun : o.run cfg t i l = some (r, l') := hrun
    cases o with
    | held o => exact negotiated_held hI hpre hrun
    | _ => exact hI.congr (view_run negotiation hrun rfl)

end ThunderboltStack.Tbframe
