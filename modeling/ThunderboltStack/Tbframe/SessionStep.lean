import ThunderboltStack.Tbframe.Evidence

/-!
# The session step

`__tbframe_link_session_step` and `tbframe_link_down_session` take a session through its phases in
order, and a session is published only with evidence for its data path.
-/

namespace ThunderboltStack.Tbframe

open ThunderboltStack.Lib Machine

/-- With `data_proof`, a session is published only with evidence for its data path. -/
def PublishPre (cfg : LinkCfg) : Op → Link → Prop
  | .held (.sess .maybeUp), l => cfg.tf.dataProof → Evidence l
  | _, _ => True

structure StepPre (cfg : LinkCfg) (t : Tid) (o : Op) (l : Link) : Prop where
  phase : PhasePre o l
  evidence : EvidencePre o l
  publish : PublishPre cfg o l

/-- The flags of a link are in order and backed by its history. -/
structure Sound (l : Link) : Prop where
  phased : Phased l
  backed : Backed l

/-- The steps that keep to the lock discipline and to the ownership of RX descriptors. -/
def Disciplined (cfg : LinkCfg) : (linkMachine cfg).Guard :=
  (Machine.Guard.with (fun _ _ ↦ True) (fun _ ↦ True) LockPre).with RxOwned RxPre

section Stages

variable {cfg : LinkCfg} {t u : Tid} {l l' : Link} {α : Type}

theorem disciplined_reach {c : (linkMachine cfg).Config}
    (hc : (linkMachine cfg).Reach (fun _ _ ↦ True) c) :
    (linkMachine cfg).Reach (Disciplined cfg) c :=
  ((rx_verified cfg).guard fun _ _ _ ↦ trivial).strengthen ((lock_verified cfg).strengthen hc)

theorem disciplined_step {c c' : (linkMachine cfg).Config} {s : (linkMachine cfg).Label}
    (hc : (linkMachine cfg).Reach (fun _ _ ↦ True) c) (hstep : (linkMachine cfg).Step c s c') :
    Disciplined cfg c.state s := by
  have hlock := (lock_verified cfg).with_step hc trivial hstep
  exact ((rx_verified cfg).guard fun _ _ _ ↦ trivial).with_step ((lock_verified cfg).strengthen hc)
    hlock hstep

theorem lockKnown_disciplined {I : Link → Prop} {Pre : Tid → Op → Link → Prop} :
    LockKnown cfg (Disciplined cfg) I Pre :=
  fun _ _ _ _ _ _ hG ↦ hG.1.2.2

theorem rxKnown_disciplined {I : Link → Prop} {Pre : Tid → Op → Link → Prop} :
    RxKnown cfg (Disciplined cfg) I Pre :=
  ⟨fun _ _ _ _ _ _ hG ↦ hG.2, fun _ _ _ _ hG ↦ hG.2⟩

variable (cfg t) in
abbrev StepTriple (P : Link → Prop) (p : LinkProg α) (Q : α → Link → Prop) : Prop :=
  (linkMachine cfg).Triple (Disciplined cfg) Sound (StepPre cfg) t P p Q

/-- The flags that say how far the session has come. -/
structure Stage where
  helloDone : Bool
  ringsUp : Bool
  genOpen : Bool
  downing : Bool

def stage (l : Link) : Stage :=
  ⟨l.sess.helloDone, l.sess.ringsUp, l.his.genOpen, l.his.downing⟩

/-- What the holder of `session_lock` knows: the stage, and whether the data path is proven. -/
structure Standing extends Stage where
  proven : Bool

/-- `t` holds `session_lock` and knows `v`. -/
structure At (t : Tid) (v : Standing) (l : Link) : Prop where
  lock : l.ctl.sessionLock = some t
  flags : stage l = v.toStage
  proven : v.proven = true → Evidence l

/-- What a step of the holder of `session_lock` finds and does to the stage.  A proof that a step
finds may be kept in mind. -/
def stageEffect (cfg : LinkCfg) : Effect heldSig Standing
  | .sess (.helloApply _), v, Q => v.helloDone = false ∧ v.downing = false ∧ Q estale v ∧
      Q (0 : ℤ) { v with helloDone := true, proven := false }
  | .sess .bringUpBegin, v, Q => v.helloDone = true ∧ v.ringsUp = false ∧
      ∀ r, Q r { v with genOpen := true, proven := false }
  | .sess .startRings, v, Q => v.genOpen = true ∧ Q () v
  | .sess (.bringUpDone _), v, Q => v.genOpen = true ∧ Q () { v with ringsUp := true }
  | .sess .quarantined, v, Q | .sess .pathsGone, v, Q => v.ringsUp = false ∧ Q () v
  | .sess (.downBegin _), v, Q => ∀ d, Q d { v with
        helloDone := false, ringsUp := false, genOpen := false, downing := true
        proven := false }
  | .sess .downEnd, v, Q => Q () { v with downing := false }
  | .sess .probeAttempt, v, Q => ∀ a : ProbeLocals,
      Q a v ∨ a.proven = true ∧ Q a { v with proven := true }
  | .sess .maybeUp, v, Q => (cfg.tf.dataProof = true → v.proven = true) ∧ ∀ r, Q r v
  | .base (.read .proofState), v, Q => ∀ r : Bool × Bool × UInt32,
      Q r v ∨ r.1 = true ∧ Q r { v with proven := true }
  | .base (.read .ringsUp), v, Q => Q v.ringsUp v
  | .base (.read .stepEntry), v, Q => Q none v ∧
      ∀ x : Bool × DownReason × Bool × Bool × Bool, x.2.2.1 = v.helloDone → Q (some x) v
  | .rx (.complete _ _ _), _, _ => False
  | _, v, Q => ∀ r, Q r v

variable {v : Standing}

theorem At.congr (h : At t v l) (ho : owned l' = owned l) (hext : Extends l l') : At t v l' := by
  simp only [owned, Prod.mk.injEq] at ho
  obtain ⟨hsess, hlock, -, hdowning, hopen⟩ := ho
  refine ⟨hlock.trans h.lock, ?_, fun hp ↦ (h.proven hp).extend hext⟩
  simp only [stage, hsess, hdowning, hopen]
  exact h.flags

theorem stable_at :
    (linkMachine cfg).Stable (Disciplined cfg) Sound (StepPre cfg) t (At t v) := by
  rintro l l' h ⟨u, hne, hmove⟩
  exact h.congr (owned_move lockKnown_disciplined hne h.lock hmove)
    (extends_move lockKnown_disciplined hne h.lock hmove)

def SessOp.neutral : SessOp → Bool
  | .helloApply _ | .bringUpBegin | .bringUpDone _ | .quarantined | .maybeUp | .downBegin _ => false
  | .startRings | .pathsGone | .downEnd => false
  | _ => true

theorem neutral_sess {o : SessOp} (i : o.Inp) (h : o.neutral) :
    (stage (o.exec cfg l i).2, evidence (o.exec cfg l i).2) = (stage l, evidence l) := by
  cases o <;> first
    | rfl
    | exact absurd h Bool.false_ne_true
    | (simp only [SessOp.exec, notifyDownLocked, upcall, readyConfirm, probeFailed, revalidated]
       (repeat' split) <;> simp [stage, evidence])

/-- A session section finds the stage and leads to the one that its effect says. -/
theorem stageEffect_exec {o : SessOp} {Q : o.Res → Standing → Prop}
    (h : stageEffect cfg (.sess o) v Q) (hI : Sound l) (hl : At t v l) (i : o.Inp) :
    StepPre cfg t (.held (.sess o)) l ∧
      ∃ v', At t v' (o.exec cfg l i).2 ∧ Q (o.exec cfg l i).1 v' := by
  obtain ⟨s, proven⟩ := v
  obtain rfl : stage l = s := hl.flags
  have hstay : (stage (o.exec cfg l i).2, evidence (o.exec cfg l i).2) = (stage l, evidence l) →
      At t ⟨stage l, proven⟩ (o.exec cfg l i).2 := fun heq ↦
    ⟨(sess_exec_sessionLock cfg l o i).trans hl.lock, (Prod.mk.inj heq).1,
      fun hp ↦ (hl.proven hp).extend (.of_eq (Prod.mk.inj heq).2)⟩
  have hmoved : ∀ {s : Stage} {p : Bool}, stage (o.exec cfg l i).2 = s →
      (p = true → Evidence (o.exec cfg l i).2) → At t ⟨s, p⟩ (o.exec cfg l i).2 :=
    fun hs hp ↦ ⟨(sess_exec_sessionLock cfg l o i).trans hl.lock, hs, hp⟩
  cases o with
  | helloApply remote =>
    refine ⟨⟨⟨h.1, h.2.1⟩, trivial, trivial⟩, ?_⟩
    simp only [SessOp.exec, helloApply]
    split
    · exact ⟨_, hl, h.2.2.1⟩
    · refine ⟨_, ?_, h.2.2.2⟩
      exact ⟨hl.lock, rfl, by simp⟩
  | bringUpBegin =>
    refine ⟨⟨⟨h.1, h.2.1⟩, trivial, trivial⟩, _, ?_, h.2.2 _⟩
    exact hmoved rfl (by simp)
  | startRings => exact ⟨⟨h.1, trivial, trivial⟩, _, hstay rfl, h.2⟩
  | bringUpDone e2e =>
    refine ⟨⟨h.1, trivial, trivial⟩, _, ?_, h.2⟩
    exact hmoved rfl fun hp ↦ (hl.proven hp).extend (.of_eq rfl)
  | quarantined =>
    have hrings : l.sess.ringsUp = false := h.1
    refine ⟨⟨h.1, trivial, trivial⟩, _, hstay ?_, h.2⟩
    simp [SessOp.exec, quarantined, stage, evidence, hrings]
  | pathsGone => exact ⟨⟨h.1, trivial, trivial⟩, _, hstay rfl, h.2⟩
  | downBegin owner =>
    refine ⟨⟨trivial, trivial, trivial⟩, _, ?_, h _⟩
    exact hmoved rfl (by simp)
  | downEnd =>
    refine ⟨⟨trivial, trivial, trivial⟩, _, ?_, h⟩
    exact hmoved rfl fun hp ↦ (hl.proven hp).extend (.of_eq rfl)
  | probeAttempt =>
    refine ⟨⟨trivial, trivial, trivial⟩, ?_⟩
    obtain hQ | ⟨hp, hQ⟩ := h _
    · exact ⟨_, hstay rfl, hQ⟩
    · refine ⟨_, ?_, hQ⟩
      exact hmoved rfl fun _ ↦ (hI.backed.evidence hp).extend (.of_eq rfl)
  | maybeUp =>
    refine ⟨⟨trivial, trivial, fun hproof ↦ hl.proven (h.1 hproof)⟩, _, hstay ?_, h.2 _⟩
    simp only [SessOp.exec, maybeUpLocked]
    (repeat' split) <;> rfl
  | _ => exact ⟨⟨trivial, trivial, trivial⟩, _, hstay (neutral_sess i rfl), h _⟩

/-- The holder of the lock knows how far the session has come. -/
theorem tracks_stage : (linkMachine cfg).Tracks (Disciplined cfg) Sound (StepPre cfg) t (At t)
    (heldEffect (stageEffect cfg)) where
  stable _ := stable_at
  exec o v Q h l i r l' hI hl hG hrun := by
    cases o with
    | held o =>
      have hrun : o.run cfg t i l = some (r, l') := hrun
      have hl' : (∀ s, o ≠ .sess s) → At t v l' := fun ho ↦
        hl.congr ((owned_held hrun).resolve_left fun ⟨s, hs⟩ ↦ ho s hs)
          ((extends_held hrun).resolve_left fun ⟨s, hs⟩ ↦ ho s hs)
      cases o with
      | sess o =>
        obtain ⟨rfl, rfl⟩ := Prod.mk.inj (Option.some.inj hrun)
        exact stageEffect_exec h hI hl i
      | base o =>
        have hkept := hl' nofun
        refine ⟨⟨trivial, trivial, trivial⟩, ?_⟩
        cases o with
        | read o =>
          obtain ⟨rfl, rfl⟩ := Prod.mk.inj (Option.some.inj hrun)
          cases o with
          | proofState =>
            obtain hQ | ⟨hp, hQ⟩ := h _
            · exact ⟨v, hkept, hQ⟩
            · refine ⟨_, ?_, hQ⟩
              exact ⟨hl.lock, hl.flags, fun _ ↦ hI.backed.evidence hp⟩
          | ringsUp =>
            have hsame : l.sess.ringsUp = v.ringsUp := congrArg (·.ringsUp) hl.flags
            exact ⟨v, hkept, (congrArg (Q · v) hsame).mpr h⟩
          | stepEntry =>
            refine ⟨v, hkept, ?_⟩
            change Q (stepEntry l) v
            simp only [stepEntry]
            split
            · exact h.1
            · exact h.2 _ (congrArg (·.helloDone) hl.flags)
          | _ => exact ⟨v, hkept, h _⟩
        | _ => exact ⟨v, hkept, h r⟩
      | rx o =>
        cases o <;> first | exact h.elim | exact ⟨⟨trivial, trivial, trivial⟩, v, hl' nofun, h r⟩
      | _ => exact ⟨⟨trivial, trivial, trivial⟩, v, hl' nofun, h r⟩
    | _ => exact h.elim

attribute [local simp] stageEffect liftM monadLift

namespace Standing

theorem keeps_base (o : BaseOp) : (stageEffect cfg).Keeps v (.base o) := by
  intro Q h
  cases o with
  | read o =>
    cases o <;> first
      | exact h
      | exact h _
      | exact fun r ↦ .inl (h r)
      | exact ⟨h _, fun _ _ ↦ h _⟩
  | _ => exact h

/-- While the rings are down, every section of a down but the last stays where it is. -/
theorem keeps_ofDown {o : SessOp} (hrings : v.ringsUp = false) (ho : o.ofDown) :
    (stageEffect cfg).Keeps v (.sess o) := by
  intro Q h
  cases o <;> first | exact h | exact ⟨hrings, h _⟩ | cases ho

/-- `tbframe_link_down_session` takes a session at any stage apart. -/
theorem wlp_downSession {reason : DownReason} {owner : SessionOwner} {Q : ℤ → Standing → Prop}
    (hQ : ∀ ret (v' : Standing), v'.downing = false → Q ret v') :
    (downSession cfg reason owner).wlp (stageEffect cfg) Q v := by
  have hcode : ∀ {v}, HeldCode fun _ p ↦ p.All ((stageEffect cfg).Keeps v) :=
    heldCode_all keeps_base
  have hsess : ∀ {v : Standing} (o : SessOp), v.ringsUp = false → o.ofDown →
      (sess o).All ((stageEffect cfg).Keeps v) :=
    fun _ hrings ho ↦ all_sess (keeps_ofDown hrings ho)
  refine (Prog.wlp_bind ..).mpr fun d ↦ Prog.wlp_bind_of_all (all_downQuiesce keeps_base
    (fun _ _ _ h ↦ h) (fun _ ho ↦ keeps_ofDown rfl (SessOp.ofDown_of_ofQuiesce ho)) reason d)
    fun reason ↦ ?_
  refine Prog.wlp_bind_of_all (all_base keeps_base _) fun shutdown ↦
    Prog.wlp_bind_of_all (.when (all_net keeps_base (fun _ _ h ↦ h) _)) fun _ ↦
    Prog.wlp_bind_of_all (hcode.downDisconnect (fun o ↦ hsess o rfl) d) fun ⟨ret, failed⟩ ↦
    Prog.wlp_bind_of_all (hcode.downRelease (fun _ ↦ hsess _ rfl rfl) (hsess _ rfl rfl) _ _ _)
      fun _ ↦ Prog.wlp_bind_of_all (hcode.notifyDown (fun _ _ ↦ hsess _ rfl rfl)
        (fun _ ↦ hsess _ rfl rfl) _ _ _) fun _ ↦
    Prog.wlp_bind_of_all (.when (all_base keeps_base _)) fun _ ↦ hQ ret _ rfl

/-- `tbframe_link_bring_up` opens a generation and, if it succeeds, puts its rings up. -/
theorem wlp_bringUp {Q : ℤ → Standing → Prop} (hello : v.helloDone = true)
    (hrings : v.ringsUp = false) (hdown : v.downing = false)
    (hQ : ∀ ret (v' : Standing), v'.helloDone = true → v'.downing = false → Q ret v') :
    (bringUp cfg).wlp (stageEffect cfg) Q v := by
  simp [bringUp, bringUpStopRings, bringUpFreeRings, stopRings, hello, hrings, hdown, hQ]
  intro hopid _ _ n
  refine (Prog.wlp_lift ..).mp (Prog.wlp_of_all (all_postRxFrames keeps_base (fun o ho ↦ ?_) n)
    fun ret ↦ ?_)
  · cases o <;> first | exact fun _ h ↦ h | cases ho.handles
  · simp [bringUpUnclean, bringUpFreeRings, stopRings, quarantinePaths, notifyDown, hQ]

/-- `tbframe_link_hello_once` completes the HELLO of a session that has none. -/
theorem wlp_helloOnce {Q : Except ℤ Unit → Standing → Prop} (hello : v.helloDone = false)
    (hdown : v.downing = false) (herror : ∀ e, Q (.error e) v)
    (hok : Q (.ok ()) { v with helloDone := true, proven := false }) :
    (helloOnce cfg).wlp (stageEffect cfg) Q v := by
  refine Prog.wlp_bind_of_all ((heldCode_all keeps_base).helloRounds
    (all_net keeps_base (fun _ _ h ↦ h) _) (fun _ ↦ all_sess fun _ h ↦ h) 2) fun r ↦ ?_
  cases r with
  | error e => exact herror e
  | ok remote => simpa [hello, estale] using ⟨hdown, herror _, hok⟩

theorem wlp_stepHello {b : Bool} {Q : Bool → Standing → Prop} (hdown : v.downing = false)
    (hb : v.helloDone = b) (hQ : ∀ go (v' : Standing), v'.downing = false →
      (go = true → v'.helloDone = true) → Q go v') :
    (stepHello cfg b).wlp (stageEffect cfg) Q v := by
  cases b with
  | true => exact hQ _ v hdown fun _ ↦ hb
  | false =>
    simp [stepHello]
    refine wlp_helloOnce hb hdown (fun e ↦ ?_) (hQ _ _ hdown fun _ ↦ rfl)
    simp [hQ, hdown]

theorem wlp_stepBringUp {b : Bool} {Q : Bool → Standing → Prop} (hello : v.helloDone = true)
    (hdown : v.downing = false)
    (hQ : ∀ go (v' : Standing), v'.helloDone = true → v'.downing = false → Q go v') :
    (stepBringUp cfg b).wlp (stageEffect cfg) Q v := by
  simp [stepBringUp, hQ, hello, hdown]
  exact fun _ hrings ↦ wlp_bringUp hello hrings hdown (by simp +contextual [hQ])

/-- `tbframe_link_prove_data_path` lets a session go on only with evidence. -/
theorem wlp_proveDataPath {Q : Bool → Standing → Prop} (hfalse : Q false v)
    (htrue : ∀ v' : Standing, v'.toStage = v.toStage → (cfg.tf.dataProof = true → v'.proven = true) →
      Q true v') :
    (proveDataPath cfg).wlp (stageEffect cfg) Q v := by
  simp [proveDataPath]
  refine ⟨fun caps ↦ ⟨fun hno ↦ htrue v rfl (by simp [hno]), fun _ ↦ ⟨fun _ ↦ hfalse, fun _ _ ↦ ?_⟩⟩,
    .inr (htrue _ rfl fun _ ↦ rfl)⟩
  refine (Prog.wlp_lift ..).mp (Prog.wlp_of_all (all_tx keeps_base (fun _ _ h ↦ h) _) fun _ a ↦ ?_)
  cases a.proven with
  | true => exact .inr ⟨rfl, fun _ ↦ htrue _ rfl fun _ ↦ rfl, nofun⟩
  | false =>
    refine .inl ⟨nofun, fun _ ↦ ⟨fun _ ↦ ?_, fun _ ↦ ⟨fun _ ↦ hfalse, fun _ _ ↦ hfalse⟩⟩⟩
    exact Prog.wlp_bind_of_all (all_net keeps_base (fun _ _ h ↦ h) _) fun _ _ ↦ hfalse

/-- `tbframe_link_maybe_up` publishes a session with evidence. -/
theorem wlp_maybeUp {Q : Unit → Standing → Prop} (hp : cfg.tf.dataProof = true → v.proven = true)
    (hQ : Q () v) : maybeUp.wlp (stageEffect cfg) Q v := by
  simp [maybeUp]
  refine ⟨hp, fun r ↦ ?_⟩
  cases r with
  | none => exact hQ
  | some info => simpa using fun _ ↦ hQ

/-- `__tbframe_link_session_step`. -/
theorem wlp_sessionStep {Q : Unit → Standing → Prop} (hdown : v.downing = false)
    (hQ : ∀ v' : Standing, v'.downing = false → Q () v') :
    (sessionStepLocked cfg).wlp (stageEffect cfg) Q v := by
  simp [sessionStepLocked, stepForward, -Prod.forall]
  refine ⟨hQ v hdown, fun ⟨down, reason, helloDone, ringsUp, readySent⟩ hb ↦ ?_⟩
  simp
  refine ⟨fun _ ↦ wlp_downSession fun _ v' ↦ hQ v', fun _ ↦ wlp_stepHello hdown hb.symm
    fun go v' hdown hello ↦ ⟨fun hgo ↦ ?_, fun _ ↦ hQ v' hdown⟩⟩
  refine wlp_stepBringUp (hello hgo) hdown fun go v' hello hdown ↦ ⟨fun _ ↦ ?_, fun _ ↦ hQ v' hdown⟩
  refine Prog.wlp_of_all (all_stepReady keeps_base (fun _ _ h ↦ h) (fun _ _ h ↦ h) (fun _ h ↦ h) _)
    fun go ↦ ⟨fun _ ↦ ?_, fun _ ↦ hQ v' hdown⟩
  refine wlp_proveDataPath (by simpa using hQ v' hdown) fun w hw hp ↦ ⟨fun _ ↦ ?_, nofun⟩
  exact wlp_maybeUp hp (hQ w ((congrArg (·.downing) hw).trans hdown))

end Standing

/-- The session sections of a step satisfy `C`, and it does not process a completion. -/
def HeldOp.Uses (C : SessOp → Prop) : HeldOp → Prop
  | .base _ | .net _ | .tx _ => True
  | .rx (.complete _ _ _) => False
  | .rx _ => True
  | .sess o => C o

theorem uses_base {C : SessOp → Prop} (o : BaseOp) : HeldOp.Uses C (.base o) :=
  trivial

theorem uses_handles {C : SessOp → Prop} {o : RxOp} (h : o.Handles) : HeldOp.Uses C (.rx o) := by
  cases o <;> exact h

/-- Outside the session sections and the completions there is no precondition. -/
theorem stepPre_of_uses {o : HeldOp} (h : o.Uses fun _ ↦ False) :
    StepPre cfg t (.held o) l := by
  cases o with
  | rx o => cases o <;> first | exact h.elim | exact ⟨trivial, trivial, trivial⟩
  | sess o => exact h.elim
  | _ => exact ⟨trivial, trivial, trivial⟩

/-- `t` holds the descriptor `f`, and `caps` are the capabilities of the session if `f` belongs to
the open generation. -/
def Sampled (t : Tid) (f : ℕ) (caps : UInt32) (l : Link) : Prop :=
  (l.rx.frames f).loc = .held t ∧
    ((l.rx.frames f).rxGeneration = l.sess.dataGeneration → l.his.genOpen →
      caps = l.sess.remote.caps)

/-- Only a bring-up changes the generation, and nothing changes the peer of an open one. -/
theorem continues_move (hmove : (linkMachine cfg).Move (Disciplined cfg) Sound (StepPre cfg) u l l') :
    Continues l l' := by
  cases hmove with
  | enter _ _ henter => exact continues_of_owned (view_begin owned (enter_eq_some henter).2.1 rfl)
  | @exec o i r hI hpre _ hrun =>
    cases o with
    | held o =>
      obtain ⟨o, rfl⟩ | ho := owned_held hrun
      · obtain rfl := link_of_run hrun
        exact continues_sess o i hI.phased hpre.phase
      · exact continues_of_owned ho
    | _ =>
      simp only [Op.run] at hrun
      (repeat' split at hrun) <;> cases hrun <;>
        exact .inr ⟨rfl, fun hopen ↦ ⟨hopen, rfl, rfl⟩⟩

theorem stable_sampled {f : ℕ} {caps : UInt32} :
    (linkMachine cfg).Stable (Disciplined cfg) Sound (StepPre cfg) t (Sampled t f caps) := by
  rintro l l' ⟨hloc, hcaps⟩ ⟨u, hne, hmove⟩
  have hkept := kept_move rxKnown_disciplined hne hloc hmove
  refine ⟨hkept.loc.trans hloc, ?_⟩
  rw [hkept.generation]
  obtain hgen | ⟨hgen, hsame⟩ := continues_move hmove
  · -- a new generation leaves the descriptor behind
    have howned : RxOwned l := by
      cases hmove with
      | enter _ hG _ => exact hG.2
      | exec _ _ hG _ => exact hG.2.1
    intro hcurrent
    have hle := (howned.placed f).generation
    omega
  · intro hcurrent hopen
    obtain ⟨hopen, hremote, -⟩ := hsame hopen
    rw [hremote]
    exact hcaps (hcurrent.trans hgen) hopen

/-- Programs that do not process completions have no preconditions. -/
theorem safe_rx {p : RxProg α} (hp : (p.lift rxHeld).All (HeldOp.Uses fun _ ↦ False)) :
    (linkMachine cfg).Safe (Disciplined cfg) Sound (StepPre cfg) t (rxEntry p) :=
  .of_all (.lift (hp.mono fun _ ho _ ↦ stepPre_of_uses ho))

/-- `tbframe_core_rx_complete` describes a completion with the capabilities of the generation its
descriptor belongs to. -/
theorem stepTriple_coreRxComplete (f : ℕ) (canceled : Bool) (len : ℕ) (pdf : Pdf) (bad : Bool)
    (data : Keepalive) :
    StepTriple cfg t (HoldsRx t f) (rxEntry (coreRxComplete f canceled len pdf bad data))
      fun _ _ ↦ True := by
  simp only [coreRxComplete]
  split
  · exact (safe_rx (all_putbackRx (fun _ ho ↦ uses_handles ho.handles) f)).pre
  simp only [rxEntry, Prog.lift_bind]
  apply Triple.bind (Q := Sampled t f)
  · refine .call (M := linkMachine cfg) (o := Op.held (.base (.read .remoteCaps)))
      (stable_holdsRx rxKnown_disciplined) (fun _ ↦ stable_sampled) ?_
    intro l i caps l' _ hl _ hrun
    obtain ⟨rfl, rfl⟩ := Prod.mk.inj (Option.some.inj hrun)
    exact ⟨⟨trivial, trivial, trivial⟩, hl.1, fun _ _ ↦ rfl⟩
  intro caps
  apply Triple.bind (Q := fun _ _ ↦ True)
  · refine .call (M := linkMachine cfg)
      (o := Op.held (.rx (.complete f (rxLocals (hasCap caps capKeepaliveAck) len pdf bad data) data)))
      stable_sampled (fun _ ↦ stable_true) ?_
    intro l i r l' _ hl _ _
    exact ⟨⟨trivial, ⟨rfl, fun hcurrent hopen ↦ by rw [directional, ← hl.2 hcurrent hopen]; rfl⟩,
      trivial⟩, trivial⟩
  rintro ⟨current, up⟩
  apply safe_rx
  have hrecycle : ((recycleRx f).lift rxHeld).All (HeldOp.Uses fun _ ↦ False) :=
    all_recycleRx (fun _ _ ↦ uses_base _) (fun _ ho ↦ uses_handles ho.handles) f
  dsimp only
  split
  · exact hrecycle
  simp only [Prog.lift_ite, Prog.lift_bind, Prog.lift_when]
  split
  · exact .bind (.when ⟨trivial, fun _ ↦ trivial⟩) fun _ ↦ hrecycle
  · exact .bind ⟨trivial, fun _ ↦ trivial⟩ fun _ ↦ .bind ⟨trivial, fun _ ↦ trivial⟩ fun _ ↦
      .when hrecycle

/-- A function that ends every down it begins is safe under the lock. -/
theorem stepSafe_withSessionLock {p : HeldProg α} (hp : ∀ v : Standing, v.downing = false →
      p.wlp (stageEffect cfg) (fun _ v' ↦ v'.downing = false) v) :
    (linkMachine cfg).Safe (Disciplined cfg) Sound (StepPre cfg) t (withSessionLock p) := by
  refine safe_locked tracks_stage (fun _ ↦ ⟨trivial, trivial, trivial⟩) (fun v l _ hl hv ↦ ?_)
    (fun l hI hfree ↦ ⟨⟨stage l, false⟩, ⟨rfl, rfl, nofun⟩, ?_⟩) hp
  · have hdowning : l.his.downing = v.downing := congrArg (·.downing) hl.flags
    exact ⟨hdowning.trans hv, trivial, trivial⟩
  · -- a down is under way only while the lock is held
    exact Bool.eq_false_iff.mpr fun hdowning ↦ hI.phased.locked hdowning hfree

end Stages

/-- In every run the phases of the session are kept to, the flags of the data-path proof are backed
by completions, and a session is published only with evidence. -/
theorem step_verified (cfg : LinkCfg) :
    (linkMachine cfg).Verified (Disciplined cfg) Sound (StepPre cfg) where
  init l h := ⟨phased_init h, backed_init h⟩
  enter t e l p l' hI hG henter := by
    obtain ⟨-, hbegin, rfl⟩ := enter_eq_some henter
    refine ⟨⟨phased_begin hI.phased hbegin, hI.backed.congr (view_begin proofView hbegin rfl)⟩, ?_⟩
    have hcall : ∀ o : Op, (∀ o', o ≠ .held o') → o ≠ .unlockSession → ∀ l, StepPre cfg t o l := by
      intro o ho hunlock l
      cases o <;> first
        | exact absurd rfl (ho _) | exact absurd rfl hunlock | exact ⟨trivial, trivial, trivial⟩
    have hbase : ∀ (o : BaseOp) (l : Link), StepPre cfg t (.held (.base o)) l :=
      fun _ _ ↦ ⟨trivial, trivial, trivial⟩
    cases he : e.domain with
    | tx =>
      exact safe_onTx (safe_free hbase)
        (safe_free fun o _ ↦ by cases o <;> exact ⟨trivial, trivial, trivial⟩)
        (hcall _ nofun nofun) he l' trivial
    | rx =>
      cases e with
      | rxComplete f canceled len pdf bad data =>
        have hheld := (rxOwned_takeFromRxRing hG.2 hbegin).2
        exact Triple.bind (stepTriple_coreRxComplete f canceled len pdf bad data)
          (fun _ ↦ safe_call (hcall .callbackDone nofun nofun)) l' hheld
      | putRx f =>
        exact safe_rx (all_clientPutRx (fun _ _ ↦ uses_base _) (fun _ ho ↦ uses_handles ho.handles)
          f) l' trivial
      | _ => cases he
    | other =>
      refine safe_prog (safe_free hbase)
        (stepSafe_withSessionLock fun _ hv ↦ Standing.wlp_sessionStep hv fun _ ↦ id)
        (fun _ ↦ stepSafe_withSessionLock fun _ _ ↦ Standing.wlp_downSession fun _ _ ↦ id)
        ⟨hcall _ nofun nofun, hcall _ nofun nofun, hcall _ nofun nofun⟩ (hcall _ nofun nofun) he
        (fun m _ ↦ ?_) l' trivial
      exact safe_free (fun o _ ↦ by cases o <;> exact ⟨trivial, trivial, trivial⟩) _
  exec t o i l r l' hI hpre hG hrun :=
    ⟨phased_run hI.phased hG.1.2.2 hpre.phase hrun,
      backed_run hI.backed hI.phased hpre.phase hpre.evidence hrun⟩

def Stepped (cfg : LinkCfg) : (linkMachine cfg).Guard :=
  (Disciplined cfg).with Sound (StepPre cfg)

section Stepped

variable {cfg : LinkCfg} {c c' : (linkMachine cfg).Config}

theorem stepped_reach (hc : (linkMachine cfg).system.Reachable c) :
    (linkMachine cfg).Reach (Stepped cfg) c :=
  (step_verified cfg).strengthen (disciplined_reach hc)

theorem stepped_step {s : (linkMachine cfg).Label} (hc : (linkMachine cfg).system.Reachable c)
    (hstep : (linkMachine cfg).Step c s c') : Stepped cfg c.state s :=
  (step_verified cfg).with_step (disciplined_reach hc) (disciplined_step hc hstep) hstep

theorem lockKnown_stepped {I : Link → Prop} {Pre : Tid → Op → Link → Prop} :
    LockKnown cfg (Stepped cfg) I Pre :=
  fun _ _ _ _ _ _ hG ↦ hG.1.1.2.2

end Stepped

end ThunderboltStack.Tbframe
