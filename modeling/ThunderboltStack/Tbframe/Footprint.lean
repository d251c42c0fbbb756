import ThunderboltStack.Lib.Effect
import ThunderboltStack.Tbframe.Machine

/-!
# The sections a function may execute

Which session sections the bring-up and the tear-down of a session consist of.  A property of all
their sections follows from these lemmas without going through the functions again.
-/

namespace ThunderboltStack.Tbframe

open ThunderboltStack.Lib

/-- The session sections of `tbframe_link_bring_up` after a failure. -/
def SessOp.ofRollback : SessOp → Bool
  | .asset _ | .setPathsOwned _ | .markDead | .stopRings | .bringUpUndo | .quarantined => true
  | .notifyDown _ _ | .upcallDown _ => true
  | _ => false

/-- The session sections of `tbframe_link_bring_up`. -/
def SessOp.ofBringUp : SessOp → Bool
  | .bringUpBegin | .setRingsAllocated _ | .holdInHopid _ | .startRings | .bringUpDone _ => true
  | o => o.ofRollback

/-- The session sections of `tbframe_link_down_session` between its first and its last. -/
def SessOp.ofDown : SessOp → Bool
  | .asset _ | .markDead | .markQuiesced | .stopRings | .quarantined | .pathsGone => true
  | .setRingsAllocated _ => true
  | .notifyDown _ _ | .upcallDown _ => true
  | _ => false

/-- The session sections of `tbframe_link_down_session` up to the quiesce point. -/
def SessOp.ofQuiesce : SessOp → Bool
  | .markDead | .markQuiesced => true
  | _ => false

theorem SessOp.ofDown_of_ofQuiesce {o : SessOp} (h : o.ofQuiesce) : o.ofDown := by
  cases o <;> first | rfl | cases h

/-- The step uses the control channel only to send a request and to await its outcome. -/
def NetStep.Asks : NetStep → Prop
  | .base _ | .net (.request _) | .net .reply => True
  | _ => False

section Effect

variable {V α : Type} {E : Effect heldSig V} {v : V}

/-- An effect of the steps of a context that keeps `session_lock` as it is. -/
def heldEffect (E : Effect heldSig V) : Effect linkSig V
  | .held o, v, Q => E o v Q
  | _, _, _ => False

theorem wlp_held {p : HeldProg α} {Q : α → V → Prop} (h : p.wlp E Q v) :
    (p.lift heldLink).wlp (heldEffect E) Q v :=
  (Prog.wlp_lift (heldEffect E) heldLink p Q).mpr h

@[simp]
theorem lift_baseTx : (E.lift txHeld).lift baseTx = E.lift baseHeld := rfl

@[simp]
theorem lift_baseRx : (E.lift rxHeld).lift baseRx = E.lift baseHeld := rfl

@[simp]
theorem lift_baseNet : (E.lift netHeld).lift baseNet = E.lift baseHeld := rfl

@[simp]
theorem wlp_sess (o : SessOp) (Q : o.Res → V → Prop) :
    Prog.wlp (α := no_index o.Res) E (sess o) Q v ↔ E (.sess o) v Q :=
  Iff.rfl

@[simp]
theorem wlp_asset (o : AssetOp) (Q : o.Ans → V → Prop) :
    Prog.wlp (α := no_index o.Ans) E (asset o) Q v ↔ E (.sess (.asset o)) v Q :=
  Iff.rfl

@[simp]
theorem wlp_tx (o : TxOp) (Q : o.Res → V → Prop) :
    Prog.wlp (α := no_index o.Res) (E.lift txHeld) (tx o) Q v ↔ E (.tx o) v Q :=
  Iff.rfl

@[simp]
theorem wlp_rx (o : RxOp) (Q : o.Res → V → Prop) :
    Prog.wlp (α := no_index o.Res) (E.lift rxHeld) (rx o) Q v ↔ E (.rx o) v Q :=
  Iff.rfl

@[simp]
theorem wlp_net (o : NetOp) (Q : o.Res → V → Prop) :
    Prog.wlp (α := no_index o.Res) (E.lift netHeld) (net o) Q v ↔ E (.net o) v Q :=
  Iff.rfl

@[simp]
theorem wlp_hw (o : HwOp) (Q : o.Res → V → Prop) :
    Prog.wlp (α := no_index o.Res) (E.lift baseHeld) (hw o) Q v ↔ E (.base (.hw o)) v Q :=
  Iff.rfl

@[simp]
theorem wlp_ctl (o : CtlOp) (Q : o.Res → V → Prop) :
    Prog.wlp (α := no_index o.Res) (E.lift baseHeld) (ctl o) Q v ↔ E (.base (.ctl o)) v Q :=
  Iff.rfl

@[simp]
theorem wlp_disp (o : DispOp) (Q : o.Res → V → Prop) :
    Prog.wlp (α := no_index o.Res) (E.lift baseHeld) (disp o) Q v ↔ E (.base (.disp o)) v Q :=
  Iff.rfl

@[simp]
theorem wlp_read (o : ReadOp) (Q : o.Res → V → Prop) :
    Prog.wlp (α := no_index o.Res) (E.lift baseHeld) (read o) Q v ↔ E (.base (.read o)) v Q :=
  Iff.rfl

end Effect

section

variable {cfg : LinkCfg} {P : HeldOp → Prop} {α : Type}

theorem all_base (h : ∀ o, P (.base o)) (p : BaseProg α) : (p.lift baseHeld).All P :=
  .lift (.of_forall h p)

theorem all_net (h : ∀ o, P (.base o)) (hnet : ∀ o, P (.net o)) (p : NetProg α) :
    (p.lift netHeld).All P := by
  refine .lift (.of_forall (fun o ↦ ?_) p)
  cases o with
  | base o => exact h o
  | net o => exact hnet o

theorem all_tx (h : ∀ o, P (.base o)) (htx : ∀ o, P (.tx o)) (p : TxProg α) :
    (p.lift txHeld).All P := by
  refine .lift (.of_forall (fun o ↦ ?_) p)
  cases o with
  | base o => exact h o
  | tx o => exact htx o

theorem all_rx (h : ∀ o, P (.base o)) (hrx : ∀ o, P (.rx o)) (p : RxProg α) :
    (p.lift rxHeld).All P := by
  refine .lift (.of_forall (fun o ↦ ?_) p)
  cases o with
  | base o => exact h o
  | rx o => exact hrx o

theorem all_sess {o : SessOp} (h : P (.sess o)) : (sess o).All P :=
  ⟨h, fun _ ↦ trivial⟩

def RxOp.Handles : RxOp → Prop
  | .complete _ _ _ => False
  | _ => True

@[reducible]
def RxOp.Passes : RxOp → Prop
  | .complete _ _ _ | .upcallRx _ _ _ => False
  | _ => True

@[reducible]
def TxOp.Flushes : TxOp → Prop
  | .complete _ canceled => canceled = true
  | .xmit _ _ => False
  | _ => True

@[reducible]
def BaseOp.Tickless : BaseOp → Prop
  | .disp (.silenceCheck _) => False
  | _ => True

theorem RxOp.Passes.handles {o : RxOp} (h : o.Passes) : o.Handles := by
  cases o with
  | complete => exact h
  | _ => trivial

attribute [local simp] Effect.asserts RxOp.Passes TxOp.Flushes BaseOp.Tickless liftM monadLift

theorem all_putbackRx (hrx : ∀ o : RxOp, o.Passes → P (.rx o)) (f : ℕ) :
    ((putbackRx f).lift rxHeld).All P :=
  Prog.all_of_neutral fun Q hQ ↦ by simp [putbackRx, hrx, hQ]

theorem all_recycleRx (h : ∀ o : BaseOp, o.Tickless → P (.base o))
    (hrx : ∀ o : RxOp, o.Passes → P (.rx o)) (f : ℕ) : ((recycleRx f).lift rxHeld).All P :=
  Prog.all_of_neutral fun Q hQ ↦ by simp [recycleRx, putbackRx, h, hrx, hQ]

theorem all_clientPutRx (h : ∀ o : BaseOp, o.Tickless → P (.base o))
    (hrx : ∀ o : RxOp, o.Passes → P (.rx o)) (f : ℕ) : ((clientPutRx f).lift rxHeld).All P :=
  Prog.all_of_neutral fun Q hQ ↦ by simp [clientPutRx, recycleRx, putbackRx, h, hrx, hQ]

theorem all_postRxFrames (h : ∀ o, P (.base o)) (hrx : ∀ o : RxOp, o.Passes → P (.rx o)) (n : ℕ) :
    ((postRxFrames n).lift rxHeld).All P := by
  refine Prog.all_of_neutral (.lift ?_)
  induction n with
  | zero => exact fun Q hQ ↦ by simp [postRxFrames, h, hQ]
  | succ n ih =>
    intro Q hQ
    simp [postRxFrames, hrx]
    rintro (_ | f) <;> simp [putbackRx, hrx, hQ, ih Q hQ]

/-- `tbframe_core_tx_complete` processes the completion it is called for; the frames that it flushes
are completed in turn. -/
theorem all_coreTxComplete (h : ∀ o, P (.base o)) (htx : ∀ o : TxOp, o.Flushes → P (.tx o))
    (n f : ℕ) (canceled : Bool) (hcomplete : P (.tx (.complete f canceled))) :
    ((coreTxComplete n f canceled).lift txHeld).All P := by
  refine Prog.all_of_neutral (.lift ?_)
  induction n generalizing f canceled with
  | zero => exact fun Q hQ ↦ by simp [coreTxComplete, h, hQ]
  | succ n ih =>
    have hnested := fun g ↦ ih g true (htx _ rfl)
    intro Q hQ
    simp [coreTxComplete, h, htx, hcomplete]
    intro r
    have hflush := Prog.closed_neutral.forEach hnested r.flush
    refine Prog.closed_neutral.forEach (fun next Q hQ ↦ ?_) _ _ fun _ ↦ hflush _ fun _ ↦ by simp [hQ]
    simp [htx, hQ, hnested next Q hQ]

theorem all_downQuiesce (h : ∀ o, P (.base o)) (htx : ∀ o : TxOp, o.Flushes → P (.tx o))
    (hsess : ∀ o, o.ofQuiesce → P (.sess o)) (reason : DownReason) (d : DownLocals) :
    (downQuiesce reason d).All P := by
  refine .bind (all_base h _) fun _ ↦ .bind (all_base h _) fun timedOut ↦ ?_
  refine .bind (.when (all_sess (hsess _ rfl))) fun _ ↦
    .bind ⟨htx .splice trivial, fun _ ↦ trivial⟩ fun flush ↦ .bind (all_base h _) fun n ↦ ?_
  refine .bind (.forEach (fun f ↦ all_coreTxComplete h htx n f true (htx _ rfl)) _) fun _ ↦ ?_
  exact .bind (.when (all_base h _)) fun _ ↦ .bind (all_sess (hsess _ rfl)) fun _ ↦ trivial

/-- `tbframe_core_rx_complete` processes the completion it is called for. -/
theorem all_coreRxComplete {f len : ℕ} {canceled bad : Bool} {pdf : Pdf} {data : Keepalive}
    (h : ∀ o : BaseOp, o.Tickless → P (.base o)) (hrx : ∀ o : RxOp, o.Passes → P (.rx o))
    (hcomplete : canceled = false → ∀ dir,
      P (.rx (.complete f (rxLocals dir len pdf bad data) data)))
    (hupcall : canceled = false → bad = false → len ≤ maxFrame → pdf ≠ .keepalive →
      P (.rx (.upcallRx f len pdf))) :
    ((coreRxComplete f canceled len pdf bad data).lift rxHeld).All P :=
  Prog.all_of_neutral fun Q hQ ↦ by
    simp +contextual [coreRxComplete, recycleRx, putbackRx, h, hrx, hcomplete, hupcall, hQ]

theorem asks_queryHello : (queryHello cfg).All NetStep.Asks := by
  refine Prog.all_of_neutral fun Q hQ ↦ ?_
  simp [queryHello, read, disp, net, NetStep.Asks, Effect.lift]
  rintro mask hello seq (e | m) <;> simp [hQ]

theorem asks_bye : (bye cfg).All NetStep.Asks := by
  have hrounds : ∀ req n, (byeRounds req n).Neutral (.asserts NetStep.Asks) () := by
    intro req n Q hQ
    induction n with
    | zero => exact hQ ()
    | succ n ih =>
      simp [byeRounds, net, NetStep.Asks]
      rintro (e | m) <;> simp [hQ, ih]
  refine Prog.all_of_neutral fun Q hQ ↦ ?_
  simp [bye, read, disp, NetStep.Asks, Effect.lift]
  exact fun _ _ _ ↦ hrounds _ _ Q hQ

end

/-! ## Programs under the session lock

A property that sequential composition keeps is carried through the functions once. -/

/-- A property of code under `session_lock` that sequential composition keeps and that all code
without frames has. -/
structure HeldCode (C : ∀ α : Type, HeldProg α → Prop) : Prop extends Prog.Closed C where
  base : ∀ {α : Type} (p : BaseProg α), C α (p.lift baseHeld)

def SessOp.ofHello : SessOp → Bool
  | .helloSelect _ | .helloApply _ | .helloFailed => true
  | _ => false

/-- The session sections of `tbframe_link_prove_data_path`. -/
def SessOp.ofProve : SessOp → Bool
  | .proofUnavailable | .probeAttempt | .probeFailed | .revalidated _ => true
  | _ => false

theorem heldCode_all {P : HeldOp → Prop} (h : ∀ o, P (.base o)) :
    HeldCode fun _ p ↦ p.All P where
  ret _ := trivial
  bind := .bind
  base := all_base h

namespace HeldCode

variable {cfg : LinkCfg} {C : ∀ α : Type, HeldProg α → Prop} (hC : HeldCode C)

include hC

theorem stopRings (hstop : C _ (sess .stopRings)) : C _ stopRings :=
  hC.bind hstop fun _ ↦ hC.base _

theorem notifyDown (hnotify : ∀ w b, C _ (sess (.notifyDown w b)))
    (hupcall : ∀ r, C _ (sess (.upcallDown r))) (reason : DownReason) (wasUp terminal : Bool) :
    C _ (notifyDown reason wasUp terminal) :=
  hC.bind (hnotify _ _) fun _ ↦ hC.when (hupcall _)

theorem quarantinePaths (hasset : ∀ o, C _ (sess (.asset o))) (hq : C _ (sess .quarantined))
    (hopid : UInt16) : C _ (quarantinePaths cfg hopid) := by
  unfold Tbframe.quarantinePaths
  split
  · exact hC.ret _
  · refine hC.bind (hasset (.quarantinePaths hopid)) fun ret ↦ ?_
    split
    · exact hC.ret _
    · exact hC.bind hq fun _ ↦ hC.ret _

theorem bringUpFreeRings (hsess : ∀ o, o.ofRollback → C _ (sess o)) (hopid : UInt16) (ret : ℤ) :
    C _ (bringUpFreeRings hopid ret) :=
  hC.bind (hsess (.asset .freeRings) rfl) fun _ ↦ hC.bind (hsess .bringUpUndo rfl) fun _ ↦
    hC.bind (hC.when (hsess (.asset (.releaseInHopid hopid)) rfl)) fun _ ↦ hC.ret _

theorem bringUpUnclean (hsess : ∀ o, o.ofRollback → C _ (sess o)) (hopid : UInt16) (ret : ℤ) :
    C _ (bringUpUnclean cfg hopid ret) := by
  refine hC.bind (hsess (.setPathsOwned true) rfl) fun _ ↦ ?_
  refine hC.bind (hsess (.asset (.disablePaths hopid)) rfl) fun disconnectRet ↦ ?_
  refine hC.bind (hC.stopRings (hsess _ rfl)) fun _ ↦ ?_
  split
  · refine hC.bind (hC.quarantinePaths (fun _ ↦ hsess _ rfl) (hsess _ rfl) hopid) fun handedOff ↦ ?_
    refine hC.bind (hC.when (hsess .markDead rfl)) fun _ ↦ hC.bind ?_ fun _ ↦ hC.ret _
    exact hC.notifyDown (fun _ _ ↦ hsess _ rfl) (fun _ ↦ hsess _ rfl) _ _ _
  · exact hC.bind (hsess (.setPathsOwned false) rfl) fun _ ↦ hC.bringUpFreeRings hsess hopid ret

/-- A property of its parts is one of the whole bring-up, with its error ladder. -/
theorem bringUp (hpost : ∀ n, C _ ((postRxFrames n).lift rxHeld))
    (hsess : ∀ o, o.ofBringUp → C _ (sess o)) : C _ (bringUp cfg) := by
  have hrollback : ∀ o : SessOp, o.ofRollback → C _ (sess o) := by
    intro o ho
    apply hsess
    cases o <;> first | rfl | exact ho
  have hfree := hC.bringUpFreeRings hrollback
  refine hC.bind (hsess .bringUpBegin rfl) fun start ↦ ?_
  refine hC.bind (hsess (.asset (.allocRings _)) rfl) fun ret ↦ ?_
  split
  · exact hC.ret _
  refine hC.bind (hsess (.setRingsAllocated true) rfl) fun _ ↦ ?_
  refine hC.bind (hsess (.asset (.allocInHopid _)) rfl) fun ret ↦ ?_
  split
  · exact hfree _ _
  refine hC.bind (hsess (.holdInHopid _) rfl) fun _ ↦ hC.bind (hsess .startRings rfl) fun _ ↦ ?_
  refine hC.bind (hC.base _) fun n ↦ hC.bind (hpost n) fun ret ↦ ?_
  split
  · exact hC.bind (hC.stopRings (hsess _ rfl)) fun _ ↦ hfree _ _
  refine hC.bind (hsess (.asset (.enablePaths _)) rfl) fun ret ↦ ?_
  split
  · exact hC.bringUpUnclean hrollback _ _
  split
  · exact hC.bind (hC.stopRings (hsess _ rfl)) fun _ ↦ hfree _ _
  · exact hC.bind (hsess (.bringUpDone _) rfl) fun _ ↦ hC.ret _

theorem downDisconnect (hsess : ∀ o, o.ofDown → C _ (sess o)) (d : DownLocals) :
    C _ (downDisconnect cfg d) := by
  have hdisable : C _ (downDisable d) := by
    unfold downDisable
    split
    · exact hsess (.asset (.disablePaths _)) rfl
    · exact hC.ret _
  refine hC.bind hdisable fun ret ↦ hC.bind (hC.when (hC.stopRings (hsess _ rfl))) fun _ ↦ ?_
  split
  · exact hC.bind (hsess .markDead rfl) fun _ ↦
      hC.bind (hC.quarantinePaths (fun _ ↦ hsess _ rfl) (hsess _ rfl) _) fun _ ↦ hC.ret _
  · exact hC.bind (hsess .pathsGone rfl) fun _ ↦ hC.ret _

theorem downRelease (hasset : ∀ o, C _ (sess (.asset o)))
    (hset : C _ (sess (.setRingsAllocated false))) (d : DownLocals) (ret : ℤ) (terminal : Bool) :
    C _ (downRelease d ret terminal) :=
  hC.bind (hC.base _) fun _ ↦ hC.bind (hC.when (hasset .freeRings)) fun _ ↦
    hC.bind (hC.when (hasset (.releaseInHopid _))) fun _ ↦ hC.when hset

/-- Only the first part of `tbframe_link_down_session`, up to the quiesce point, works on TX
frames. -/
theorem downSession {reason : DownReason} {owner : SessionOwner}
    (hbye : C _ ((bye cfg).lift netHeld)) (hsess : ∀ o, o.ofDown → C _ (sess o))
    (hend : C _ (sess .downEnd))
    (hquiesce : ∀ {α : Type} {k : DownLocals → DownReason → HeldProg α}, (∀ d r, C α (k d r)) →
      C α (sess (.downBegin owner) >>= fun d ↦ downQuiesce reason d >>= k d)) :
    C _ (downSession cfg reason owner) := by
  apply hquiesce
  intro d reason
  refine hC.bind (hC.base _) fun shutdown ↦ hC.bind (hC.when hbye) fun _ ↦ ?_
  refine hC.bind (hC.downDisconnect hsess d) fun r ↦ ?_
  refine hC.bind (hC.downRelease (fun _ ↦ hsess _ rfl) (hsess _ rfl) _ _ _) fun _ ↦ ?_
  refine hC.bind (hC.notifyDown (fun _ _ ↦ hsess _ rfl) (fun _ ↦ hsess _ rfl) _ _ _) fun _ ↦ ?_
  exact hC.bind (hC.when (hC.base _)) fun _ ↦ hC.bind hend fun _ ↦ hC.ret _

theorem helloRounds (hquery : C _ ((queryHello cfg).lift netHeld))
    (hselect : ∀ caps, C _ (sess (.helloSelect caps))) (n : ℕ) : C _ (helloRounds cfg n) := by
  induction n with
  | zero => exact hC.ret _
  | succ n ih =>
    refine hC.bind hquery fun r ↦ ?_
    obtain ⟨reply, offered⟩ := r
    cases reply with
    | error e => exact hC.ret _
    | ok remote =>
      dsimp only
      split
      · exact hC.ret _
      · exact hC.bind (hselect _) fun _ ↦ ih

theorem helloOnce (hquery : C _ ((queryHello cfg).lift netHeld))
    (hsess : ∀ o, o.ofHello → C _ (sess o)) : C _ (helloOnce cfg) := by
  refine hC.bind (hC.helloRounds hquery (fun _ ↦ hsess _ rfl) 2) fun r ↦ ?_
  cases r with
  | error e => exact hC.ret _
  | ok remote => exact hC.bind (hsess (.helloApply remote) rfl) fun _ ↦ hC.ret _

theorem readyOnce (hnet : ∀ {α : Type} (p : NetProg α), p.All NetStep.Asks → C α (p.lift netHeld))
    (hconfirm : ∀ remote, C _ (sess (.readyConfirm remote))) : C _ (readyOnce cfg) := by
  refine hC.bind (hC.base _) fun caps ↦ hC.bind (hC.base _) fun hello ↦ ?_
  refine hC.bind (hC.base _) fun next ↦ hC.bind (hnet _ ⟨trivial, fun _ ↦ trivial⟩) fun _ ↦ ?_
  refine hC.bind (hnet (net .reply) ⟨trivial, fun _ ↦ trivial⟩) fun reply ↦ ?_
  cases reply with
  | error e => exact hC.ret _
  | ok m =>
    dsimp only
    split
    · exact hC.ret _
    · exact hC.bind (hconfirm _) fun _ ↦ hC.ret _

/-- What `__tbframe_link_session_step` does after a failed HELLO or READY. -/
theorem retry {c : Prop} [Decidable c] :
    C _ (do Prog.when c (hw .reannounce); disp .kick; return false : HeldProg Bool) :=
  hC.bind (hC.when (hC.base _)) fun _ ↦ hC.bind (hC.base _) fun _ ↦ hC.ret _

theorem stepHello (hhello : C _ (Tbframe.helloOnce cfg)) (hfailed : C _ (sess .helloFailed))
    (b : Bool) : C _ (stepHello cfg b) := by
  unfold Tbframe.stepHello
  split
  · exact hC.ret _
  refine hC.bind hhello fun r ↦ ?_
  cases r with
  | ok u => exact hC.ret _
  | error e => exact hC.bind hfailed fun _ ↦ hC.retry

theorem stepBringUp (hbringUp : C _ (Tbframe.bringUp cfg)) (b : Bool) :
    C _ (stepBringUp cfg b) := by
  unfold Tbframe.stepBringUp
  split
  · exact hC.ret _
  refine hC.bind (hC.base _) fun ringsUp ↦ ?_
  split
  · exact hC.ret _
  refine hC.bind hbringUp fun ret ↦ ?_
  split
  · exact hC.bind (hC.base _) fun _ ↦ hC.ret _
  · exact hC.ret _

theorem stepReady (hflush : C _ ((flushReadyResponse cfg).lift netHeld))
    (hready : C _ (Tbframe.readyOnce cfg)) (hfailed : C _ (sess .readyFailed)) (b : Bool) :
    C _ (stepReady cfg b) := by
  refine hC.bind hflush fun ret ↦ ?_
  split
  · exact hC.bind (hC.base _) fun _ ↦ hC.ret _
  refine hC.bind (hC.base _) fun readySent ↦ ?_
  split
  · exact hC.ret _
  refine hC.bind hready fun r ↦ ?_
  cases r with
  | ok u => exact hC.ret _
  | error e => exact hC.bind hfailed fun _ ↦ hC.retry

/-- A property of its parts is one of the data-path proof. -/
theorem proveDataPath (hquery : C _ ((queryHello cfg).lift netHeld))
    (hprobe : C _ ((sendKeepalive true).lift txHeld)) (hsess : ∀ o, o.ofProve → C _ (sess o)) :
    C _ (proveDataPath cfg) := by
  refine hC.bind (hC.base _) fun state ↦ ?_
  obtain ⟨proven, warned, caps⟩ := state
  dsimp only
  split
  · exact hC.ret _
  split
  · exact hC.bind (hsess .proofUnavailable rfl) fun _ ↦ hC.bind (hC.base _) fun _ ↦ hC.ret _
  refine hC.bind hprobe fun _ ↦ hC.bind (hsess .probeAttempt rfl) fun a ↦ ?_
  split
  · exact hC.ret _
  split
  · exact hC.bind (hC.bind hquery fun _ ↦ hsess (.revalidated _) rfl) fun _ ↦ hC.ret _
  split
  · exact hC.bind (hC.base _) fun _ ↦ hC.ret _
  · exact hC.bind (hsess .probeFailed rfl) fun _ ↦ hC.ret _

theorem maybeUp (hmaybe : C _ (sess .maybeUp)) (hupcall : ∀ info, C _ (sess (.upcallUp info)))
    (hdone : C _ (sess .upDone)) : C _ maybeUp := by
  refine hC.bind hmaybe fun r ↦ ?_
  cases r with
  | none => exact hC.ret _
  | some info => exact hC.bind (hupcall _) fun _ ↦ hdone

/-- A property of the keepalive is one of the verify step. -/
theorem verifyStep (hkeepalive : C _ ((sendKeepalive false).lift txHeld)) :
    C _ ((verifyStep cfg).lift txHeld) := by
  simp only [Tbframe.verifyStep, Prog.lift_bind]
  refine hC.bind (hC.base (read .verifyEntry)) fun r ↦ ?_
  obtain _ | ⟨hopid, caps⟩ := r
  · exact hC.ret _
  simp only [Prog.lift_bind]
  refine hC.bind (hC.base (hw (.pathsActive hopid))) fun ret ↦ ?_
  refine hC.bind (hC.base (disp (.zombieCheck ret))) fun zombie ↦ ?_
  simp only [Prog.lift_ite, Prog.lift_bind]
  split
  · exact hC.ret _
  split
  · refine hC.bind hkeepalive fun _ ↦ hC.bind (hC.base (disp (.silenceCheck _))) fun silent ↦ ?_
    split
    · exact hC.ret _
    · exact hC.base (disp .verifyRearm)
  · exact hC.base (disp .verifyRearm)

end HeldCode

theorem all_stepReady {cfg : LinkCfg} {P : HeldOp → Prop} (h : ∀ o, P (.base o))
    (hnet : ∀ o, P (.net o)) (hconfirm : ∀ remote, P (.sess (.readyConfirm remote)))
    (hfailed : P (.sess .readyFailed)) (b : Bool) : (stepReady cfg b).All P := by
  have hC := heldCode_all h
  refine hC.stepReady (all_net h hnet _) (hC.readyOnce (fun p _ ↦ all_net h hnet p) fun _ ↦ ?_)
    (all_sess hfailed) b
  exact all_sess (hconfirm _)

/-- The session sections of a session step, apart from the answers to a HELLO and the begin of a
down. -/
def SessOp.ofStep : SessOp → Bool
  | .helloSelect _ | .helloApply _ | .downBegin _ => false
  | _ => true

/-- A property of code under `session_lock` that the parts of a session step have. -/
structure StepCode (cfg : LinkCfg) (C : ∀ α : Type, HeldProg α → Prop) : Prop
    extends HeldCode C where
  sess : ∀ o : SessOp, o.ofStep → C _ (sess o)
  hello : C _ (helloOnce cfg)
  query : C _ ((queryHello cfg).lift netHeld)
  ready : C _ (readyOnce cfg)
  flush : C _ ((flushReadyResponse cfg).lift netHeld)
  post : ∀ n, C _ ((postRxFrames n).lift rxHeld)
  probe : C _ ((sendKeepalive true).lift txHeld)
  down : ∀ reason owner, C _ (downSession cfg reason owner)

/-- A property of the parts of a session step is one of the whole step. -/
theorem StepCode.sessionStepLocked {cfg : LinkCfg} {C : ∀ α : Type, HeldProg α → Prop}
    (hC : StepCode cfg C) : C _ (sessionStepLocked cfg) := by
  have hgo : ∀ {go : Bool} {p : HeldProg Unit}, C _ p → C _ (if go then p else return) := by
    intro go p hp
    split
    · exact hp
    · exact hC.ret _
  have hbringUp : C _ (bringUp cfg) := by
    refine hC.bringUp hC.post fun o ho ↦ hC.sess o ?_
    cases o <;> first | rfl | cases ho
  have hprove : C _ (proveDataPath cfg) := by
    refine hC.proveDataPath hC.query hC.probe fun o ho ↦ hC.sess o ?_
    cases o <;> first | rfl | cases ho
  refine hC.bind (hC.base _) fun entry ↦ ?_
  obtain _ | ⟨down, reason, helloDone, ringsUp, readySent⟩ := entry
  · exact hC.ret _
  dsimp only
  split
  · exact hC.bind (hC.down _ _) fun _ ↦ hC.ret _
  refine hC.bind (hC.stepHello hC.hello (hC.sess _ rfl) _) fun go ↦ hgo ?_
  refine hC.bind (hC.stepBringUp hbringUp _) fun go ↦ hgo ?_
  refine hC.bind (hC.stepReady hC.flush hC.ready (hC.sess _ rfl) _) fun go ↦ hgo ?_
  refine hC.bind hprove fun go ↦ hgo ?_
  exact hC.maybeUp (hC.sess _ rfl) (fun _ ↦ hC.sess _ rfl) (hC.sess _ rfl)

/-- A property of code under `session_lock` that its parts have, where every session section is
one. -/
structure PartCode (cfg : LinkCfg) (C : ∀ α : Type, HeldProg α → Prop) : Prop
    extends HeldCode C where
  sess : ∀ o, C _ (sess o)
  net : ∀ {α : Type} (p : NetProg α), p.All NetStep.Asks → C α (p.lift netHeld)
  flush : C _ ((flushReadyResponse cfg).lift netHeld)
  post : ∀ n, C _ ((postRxFrames n).lift rxHeld)
  probe : C _ ((sendKeepalive true).lift txHeld)
  quiesce : ∀ reason d, C _ (downQuiesce reason d)

theorem PartCode.stepCode {cfg : LinkCfg} {C : ∀ α : Type, HeldProg α → Prop}
    (hC : PartCode cfg C) : StepCode cfg C where
  toHeldCode := hC.toHeldCode
  sess o _ := hC.sess o
  hello := hC.helloOnce (hC.net _ asks_queryHello) fun o _ ↦ hC.sess o
  query := hC.net _ asks_queryHello
  ready := hC.readyOnce hC.net fun _ ↦ hC.sess _
  flush := hC.flush
  post := hC.post
  probe := hC.probe
  down reason _ := hC.downSession (hC.net _ asks_bye) (fun o _ ↦ hC.sess o) (hC.sess _) fun hk ↦
    hC.bind (hC.sess _) fun d ↦ hC.bind (hC.quiesce reason d) (hk d)

def HeldOp.Common : HeldOp → Prop
  | .rx o => o.Passes
  | .tx o => o.Flushes
  | _ => True

theorem partCode_all {cfg : LinkCfg} {P : HeldOp → Prop} (h : ∀ o : HeldOp, o.Common → P o)
    (hprobe : ((sendKeepalive true).lift txHeld).All P) : PartCode cfg fun _ p ↦ p.All P := by
  have hbase : ∀ o, P (.base o) := fun _ ↦ h _ trivial
  exact { heldCode_all hbase with
    sess := fun _ ↦ all_sess (h _ trivial)
    net := fun p _ ↦ all_net hbase (fun _ ↦ h _ trivial) p
    flush := all_net hbase (fun _ ↦ h _ trivial) _
    post := all_postRxFrames hbase fun o ho ↦ h (.rx o) ho
    probe := hprobe
    quiesce := all_downQuiesce hbase (fun o ho ↦ h (.tx o) ho) fun _ _ ↦ h _ trivial }

/-! ## Sending frames -/

/-- The TX sections of the functions that send a frame, or give it up before it is sent. -/
def TxOp.sends : TxOp → Bool
  | .complete _ _ | .refillErr _ | .splice => false
  | _ => true

def TxOp.carries : TxOp → Bool
  | .xmit _ _ | .free _ => false
  | o => o.sends

/-- A property of code under `session_lock` that the sections around the transmission of a frame
have. -/
structure SendCode (C : ∀ α : Type, HeldProg α → Prop) : Prop extends HeldCode C where
  tx : ∀ o : TxOp, o.carries → C _ ((tx o).lift txHeld)

namespace SendCode

variable {cfg : LinkCfg} {C : ∀ α : Type, HeldProg α → Prop} (hC : SendCode C)

include hC

theorem xmit {f : ℕ} {preUp : Bool} (hxmit : C _ ((Tbframe.tx (.xmit f preUp)).lift txHeld)) :
    C _ ((xmit f preUp).lift txHeld) := by
  simp only [Tbframe.xmit, Prog.lift_bind]
  refine hC.bind (hC.base (hw .enter)) fun _ ↦ hC.bind hxmit fun verdict ↦ ?_
  cases verdict with
  | queued | refused => exact hC.bind (hC.base (hw .leave)) fun _ ↦ hC.ret _
  | post =>
    simp only [Prog.lift_bind, Prog.lift_when]
    exact hC.bind (hC.tx (.ringTx f) rfl) fun _ ↦ hC.bind (hC.when (hC.tx (.ringErr f) rfl))
      fun _ ↦ hC.bind (hC.base (hw .leave)) fun _ ↦ hC.ret _

theorem frameFree {f : ℕ} (hfree : C _ ((Tbframe.tx (.free f)).lift txHeld)) :
    C _ ((frameFree f).lift txHeld) := by
  simp only [Tbframe.frameFree, Prog.lift_bind, Prog.lift_when]
  exact hC.bind hfree fun _ ↦ hC.bind (hC.when (hC.base (ctl .queueTxReleased))) fun _ ↦
    hC.tx .putLink rfl

theorem sendKeepalive {preUp : Bool}
    (hxmit : ∀ f, C _ ((Tbframe.tx (.xmit f preUp)).lift txHeld))
    (hfree : ∀ f, C _ ((Tbframe.frameFree f).lift txHeld)) :
    C _ ((sendKeepalive preUp).lift txHeld) := by
  simp only [Tbframe.sendKeepalive, Prog.lift_bind]
  refine hC.bind (hC.base (read .remoteCaps)) fun caps ↦ ?_
  refine hC.bind (hC.tx (.alloc _ true preUp) rfl) fun r ↦ ?_
  cases r with
  | error e => exact hC.ret _
  | ok f =>
    simp only [Prog.lift_bind, Prog.lift_when]
    exact hC.bind (hC.tx (.build f _) rfl) fun _ ↦ hC.bind (hC.xmit (hxmit f)) fun _ ↦
      hC.bind (hC.when (hfree f)) fun _ ↦ hC.ret _

theorem clientAlloc (len : ℕ) (isCtrl : Bool) : C _ ((clientAlloc len isCtrl).lift txHeld) := by
  simp only [Tbframe.clientAlloc, Prog.lift_ite]
  split
  · exact hC.ret _
  simp only [Prog.lift_bind]
  refine hC.bind (hC.tx (.alloc len isCtrl false) rfl) fun r ↦ ?_
  cases r with
  | error e => exact hC.ret _
  | ok f => exact hC.tx (.toClient f) rfl

theorem clientXmit {f : ℕ} (hxmit : C _ ((Tbframe.tx (.xmit f false)).lift txHeld)) :
    C _ ((clientXmit f).lift txHeld) := by
  simp only [Tbframe.clientXmit, Prog.lift_bind, Prog.lift_when]
  exact hC.bind (hC.xmit hxmit) fun _ ↦ hC.when (hC.tx (.toClient f) rfl)

end SendCode

theorem sendCode_all {P : HeldOp → Prop} (h : ∀ o, P (.base o))
    (htx : ∀ o : TxOp, o.carries → P (.tx o)) : SendCode fun _ p ↦ p.All P where
  toHeldCode := heldCode_all h
  tx o ho := ⟨htx o ho, fun _ ↦ trivial⟩

theorem heldCode_neutral {V : Type} {E : Effect heldSig V} {v : V}
    (h : ∀ o, E.Keeps v (.base o)) : HeldCode fun _ p ↦ p.Neutral E v where
  toClosed := Prog.closed_neutral
  base p := Prog.neutral_of_all (all_base h p)

end ThunderboltStack.Tbframe
