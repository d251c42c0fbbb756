import ThunderboltStack.Tbframe.Footprint
import ThunderboltStack.Tbframe.Frame

/-!
# The session lock

The lock discipline that `lockdep_assert_held(&link->session_lock)` asserts: every session section
is executed by the holder of `session_lock`.  It gives the rule used everywhere else: what a holder
of the lock knows about the session fields survives the steps of the other threads.
-/

namespace ThunderboltStack.Tbframe

open ThunderboltStack.Lib Machine

/-- A session section is executed by the holder of `session_lock`. -/
def LockPre (t : Tid) : Op → Link → Prop
  | .held (.sess _), l => l.ctl.sessionLock = some t
  | _, _ => True

section Stability

variable {cfg : LinkCfg} {G : (linkMachine cfg).Guard} {I : Link → Prop}
  {Pre : Tid → Op → Link → Prop} {t : Tid}

def LockKnown (cfg : LinkCfg) (G : (linkMachine cfg).Guard) (I : Link → Prop)
    (Pre : Tid → Op → Link → Prop) : Prop :=
  ∀ l u o i, I l → Pre u o l → G l (.exec u o i) → LockPre u o l

/-- Other threads leave what the holder of the lock owns alone. -/
theorem owned_move (hk : LockKnown cfg G I Pre) {u : Tid} {l l' : Link} (hne : u ≠ t)
    (hlock : l.ctl.sessionLock = some t) (hmove : (linkMachine cfg).Move G I Pre u l l') :
    owned l' = owned l := by
  cases hmove with
  | enter _ _ henter => exact view_begin owned (enter_eq_some henter).2.1 rfl
  | @exec o i r hI hpre hG hrun =>
    cases o with
    | held o =>
      obtain ⟨o, rfl⟩ | h := owned_held hrun
      · have hu : l.ctl.sessionLock = some u := hk l u _ i hI hpre hG
        exact absurd (Option.some.inj (hu.symm.trans hlock)) hne
      · exact h
    | lockSession => simp [Op.run, hlock] at hrun
    | unlockSession =>
      simp only [Op.run, hlock] at hrun
      split at hrun
      · next h => exact absurd (Option.some.inj h).symm hne
      · cases hrun
    | _ =>
      simp only [Op.run] at hrun
      (repeat' split at hrun) <;> cases hrun <;> rfl

/-- An assertion about what the holder of the lock owns is stable. -/
theorem stable_owned (hk : LockKnown cfg G I Pre)
    (J : Session × Option Tid × ℕ × Bool × Bool → Prop) :
    (linkMachine cfg).Stable G I Pre t fun l ↦ l.ctl.sessionLock = some t ∧ J (owned l) := by
  rintro l l' ⟨hlock, hJ⟩ ⟨u, hne, hmove⟩
  have ho := owned_move hk hne hlock hmove
  exact ⟨(congrArg (·.2.1) ho).trans hlock, ho ▸ hJ⟩

theorem stable_lock (hk : LockKnown cfg G I Pre) :
    (linkMachine cfg).Stable G I Pre t fun l ↦ l.ctl.sessionLock = some t := by
  simpa using stable_owned hk (t := t) fun _ ↦ True

theorem held_run_lock {o : HeldOp} {i : o.Inp} {r : o.Res} {l l' : Link}
    (h : o.run cfg t i l = some (r, l')) : l'.ctl.sessionLock = l.ctl.sessionLock := by
  obtain ⟨o, rfl⟩ | ho := owned_held h
  · obtain rfl := link_of_run h
    exact sess_exec_sessionLock cfg l o i
  · exact congrArg (·.2.1) ho

/-- A link whose `session_lock` was just taken by `t`. -/
def lockedBy (t : Tid) (l : Link) : Link :=
  { l with ctl := { l.ctl with sessionLock := some t } }

/-- A link whose `session_lock` was just released. -/
def unlocked (l : Link) : Link :=
  { l with ctl := { l.ctl with sessionLock := none } }

/-- The rule for a function that runs under `session_lock`: it starts on a link whose lock was free
and was just taken, and ends on one on which the lock may be released. -/
theorem triple_withSessionLock {α : Type} {p : HeldProg α} {P₀ P : Link → Prop}
    {Q Q₀ : α → Link → Prop} (hP₀ : (linkMachine cfg).Stable G I Pre t P₀)
    (hQ : ∀ a, (linkMachine cfg).Stable G I Pre t (Q a))
    (hQ₀ : ∀ a, (linkMachine cfg).Stable G I Pre t (Q₀ a))
    (hlock : ∀ l, I l → P₀ l → l.ctl.sessionLock = none → Pre t .lockSession l ∧ P (lockedBy t l))
    (hp : (linkMachine cfg).Triple G I Pre t P (p.lift heldLink) Q)
    (hunlock : ∀ a l, I l → Q a l → Pre t .unlockSession l ∧ Q₀ a (unlocked l)) :
    (linkMachine cfg).Triple G I Pre t P₀ (withSessionLock p) Q₀ := by
  refine .op (R := fun _ ↦ P) hP₀ (fun l _ _ l' hI hl _ hrun ↦ ?_) fun _ ↦ ?_
  · simp only [Op.run] at hrun
    split at hrun
    · next hfree =>
      cases hrun
      exact hlock l hI hl hfree
    · cases hrun
  · change (linkMachine cfg).Triple G I Pre t P (p.lift heldLink >>= _) _
    refine Triple.bind hp fun a ↦ .op (R := fun _ ↦ Q₀ a) (hQ a) ?_ ?_
    · intro l _ _ l' hI hl _ hrun
      simp only [Op.run] at hrun
      split at hrun <;> cases hrun
      exact hunlock a l hI hl
    · exact fun _ ↦ .ret (hQ₀ a) fun _ _ hl ↦ hl

/-- A function that runs under `session_lock` is safe if it is safe whenever the lock was free and
its thread took it, and leaves a link on which the lock may be released. -/
theorem safe_withSessionLock {α : Type} {p : HeldProg α} {P Q : Link → Prop}
    (hlock : ∀ l, Pre t .lockSession l) (hunlock : ∀ l, I l → Q l → Pre t .unlockSession l)
    (hQ : (linkMachine cfg).Stable G I Pre t Q)
    (h : ∀ l, I l → l.ctl.sessionLock = none → P (lockedBy t l))
    (hp : (linkMachine cfg).Triple G I Pre t P (p.lift heldLink) fun _ ↦ Q) :
    (linkMachine cfg).Safe G I Pre t (withSessionLock p) :=
  triple_withSessionLock stable_true (fun _ ↦ hQ) (fun _ ↦ stable_true)
    (fun l hI _ hfree ↦ ⟨hlock l, h l hI hfree⟩) hp fun _ l hI hl ↦ ⟨hunlock l hI hl, trivial⟩

/-- A function that may execute its sections with the ghost state `v` is safe with it. -/
theorem triple_tracked {α V : Type} {own : V → Link → Prop} {E : Effect heldSig V}
    {p : HeldProg α} {v : V} (h : (linkMachine cfg).Tracks G I Pre t own (heldEffect E))
    (hp : p.wlp E (fun _ _ ↦ True) v) :
    (linkMachine cfg).Triple G I Pre t (own v) (p.lift heldLink) fun _ _ ↦ True :=
  (h.triple (wlp_held hp)).post fun _ _ _ _ ↦ trivial

/-- A function that leaves a ghost state alone which says nothing is safe. -/
theorem safe_neutral {α V : Type} {own : V → Link → Prop} {E : Effect heldSig V}
    {p : HeldProg α} {v : V} (h : (linkMachine cfg).Tracks G I Pre t own (heldEffect E))
    (hown : ∀ l, own v l) (hp : p.Neutral E v) :
    (linkMachine cfg).Safe G I Pre t (p.lift heldLink) :=
  (triple_tracked h (hp _ fun _ ↦ trivial)).pre fun l _ ↦ hown l

/-- A function is safe under `session_lock` if it takes what its thread knows when it got the lock,
`S`, to what it has to know to give the lock back. -/
theorem safe_locked {α V : Type} {own : V → Link → Prop} {E : Effect heldSig V} {S : V → Prop}
    {p : HeldProg α} (h : (linkMachine cfg).Tracks G I Pre t own (heldEffect E))
    (hlock : ∀ l, Pre t .lockSession l)
    (hunlock : ∀ v l, I l → own v l → S v → Pre t .unlockSession l)
    (htake : ∀ l, I l → l.ctl.sessionLock = none → ∃ v, own v (lockedBy t l) ∧ S v)
    (hp : ∀ v, S v → p.wlp E (fun _ ↦ S) v) :
    (linkMachine cfg).Safe G I Pre t (withSessionLock p) :=
  safe_withSessionLock (P := fun l ↦ ∃ v, own v l ∧ S v) (Q := fun l ↦ ∃ v, own v l ∧ S v) hlock
    (fun l hI ⟨v, hl, hv⟩ ↦ hunlock v l hI hl hv)
    (fun l l' ⟨v, hl, hv⟩ hmove ↦ ⟨v, h.stable v l l' hl hmove, hv⟩) htake
    fun l ⟨v, hl, hv⟩ ↦ h.triple (wlp_held (hp v hv)) l hl

/-- A function that is safe in any state is safe under `session_lock`. -/
theorem Safe.withSessionLock {α : Type} {p : HeldProg α} (hlock : ∀ l, Pre t .lockSession l)
    (hunlock : ∀ l, Pre t .unlockSession l)
    (hp : (linkMachine cfg).Safe G I Pre t (p.lift heldLink)) :
    (linkMachine cfg).Safe G I Pre t (withSessionLock p) :=
  safe_withSessionLock hlock (fun l _ _ ↦ hunlock l) stable_true (fun _ _ _ ↦ trivial) hp

/-- Under the lock, a function whose steps only need the lock is safe and keeps the lock. -/
theorem triple_held {α : Type} (hk : LockKnown cfg G I Pre) (p : HeldProg α)
    (hpre : ∀ o l, l.ctl.sessionLock = some t → Pre t (.held o) l) :
    (linkMachine cfg).Triple G I Pre t (fun l ↦ l.ctl.sessionLock = some t) (p.lift heldLink)
      fun _ l ↦ l.ctl.sessionLock = some t := by
  refine .all (C := fun o : Op ↦ ∃ h, o = .held h) (stable_lock hk)
    (.lift (.of_forall (fun o ↦ ⟨o, rfl⟩) p)) ?_
  rintro _ ⟨o, rfl⟩ l i r l' _ hl _ hrun
  exact ⟨hpre o l hl, (held_run_lock hrun).trans hl⟩

end Stability

section Entries

variable {cfg : LinkCfg} {G : (linkMachine cfg).Guard} {I : Link → Prop}
  {Pre : Tid → Op → Link → Prop} {t : Tid}

abbrev baseEntry {α : Type} (p : BaseProg α) : LinkProg α :=
  (p.lift baseHeld).lift heldLink

abbrev netEntry {α : Type} (p : NetProg α) : LinkProg α :=
  (p.lift netHeld).lift heldLink

abbrev txEntry {α : Type} (p : TxProg α) : LinkProg α :=
  (p.lift txHeld).lift heldLink

abbrev rxEntry {α : Type} (p : RxProg α) : LinkProg α :=
  (p.lift rxHeld).lift heldLink

/-- A program is safe if none of its sections has a condition. -/
theorem safe_free {α : Type} {S : Sig} {e : S.Emb heldSig}
    (h : ∀ o l, Pre t (.held (e.op o)) l) (p : Prog S α) :
    (linkMachine cfg).Safe G I Pre t ((p.lift e).lift heldLink) :=
  .of_all (.lift (.lift (.of_forall h p)))

/-- Safety is carried through the code under `session_lock`. -/
theorem heldCode_safe
    (hbase : ∀ {α : Type} (p : BaseProg α), (linkMachine cfg).Safe G I Pre t (baseEntry p)) :
    HeldCode fun _ p ↦ (linkMachine cfg).Safe G I Pre t (p.lift heldLink) where
  ret _ := .ret _
  bind {α β p f} hp hf := by
    rw [Prog.lift_bind]
    exact .bind hp hf
  base := hbase

/-- What the code of an event works on. -/
inductive Domain
  | tx
  | rx
  | other
  deriving DecidableEq

/-- The events whose code works on TX frames or on RX descriptors. -/
def Entry.domain : Entry → Domain
  | .verifyWork | .txComplete _ _ | .allocFrame _ _ | .xmit _ | .frameFree _ => .tx
  | .rxComplete _ _ _ _ _ _ | .putRx _ => .rx
  | _ => .other

structure EventCode (cfg : LinkCfg) (C : ∀ α : Type, LinkProg α → Prop) : Prop
    extends Prog.Closed C where
  base : ∀ {α : Type} (p : BaseProg α), C α (baseEntry p)
  down : ∀ reason, C _ (withSessionLock (downSession cfg reason .local))
  walk : ∀ {p : LinkProg Unit}, C _ p → C _ (walkPass p)

namespace EventCode

variable {C : ∀ α : Type, LinkProg α → Prop} (hC : EventCode cfg C)

include hC

theorem serviceRemove (hput : C _ (.call (S := linkSig) .putCreated))
    (hgone : C _ (.call (S := linkSig) .hwDestroy)) (isUnplugged : Bool) :
    C _ (serviceRemove cfg isUnplugged) := by
  have hdestroy : ∀ reason, C _ (linkDestroy cfg reason) := by
    intro reason
    refine hC.bind (hC.base _) fun _ ↦ hC.bind (hC.base _) fun _ ↦ hC.bind (hC.base _) fun _ ↦ ?_
    refine hC.bind (hC.base _) fun _ ↦ hC.bind (hC.down _) fun ret ↦ hC.bind (hC.base _) fun _ ↦ ?_
    split
    · exact hC.ret _
    refine hC.bind (hC.base _) fun _ ↦ hC.bind (hC.base _) fun handoff ↦ ?_
    refine hC.bind (hC.when (hC.base _)) fun _ ↦ hC.bind hput fun _ ↦ ?_
    refine hC.bind (hC.base _) fun zero ↦ ?_
    split
    · exact hC.ret _
    · exact hC.bind (hC.base _) fun _ ↦ hC.ret _
  exact hC.bind (hdestroy _) fun _ ↦ hC.when hgone

/-- The code of the events that work on no frame. -/
theorem other {e : Entry} (he : e.domain = .other)
    (hstep : e = .sessionWork → C _ (withSessionLock (sessionStepLocked cfg)))
    (hremove : ∀ b, e = .serviceRemove b → C _ (e.prog cfg))
    (hpacket : ∀ m, e = .packet m → C _ (e.prog cfg)) : C _ (e.prog cfg) := by
  have hparked : C _ (downParked cfg) := hC.bind (hC.down _) fun _ ↦ hC.ret ()
  cases e with
  | sessionWork => exact hC.bind (hstep rfl) fun _ ↦ hC.base _
  | txReleasedWork | registerClient => exact hC.base _
  | verifyTimer | setShutdownMode => exact hC.ret ()
  | packet m => exact hpacket m rfl
  | unregisterClient =>
    exact hC.bind (hC.base _) fun _ ↦ hC.bind (hC.walk (hC.base _)) fun _ ↦
      hC.bind (hC.walk hparked) fun _ ↦ hC.bind (hC.walk (hC.base _)) fun _ ↦ hC.base _
  | serviceRemove isUnplugged => exact hremove isUnplugged rfl
  | linkShutdown =>
    exact hC.bind (hC.base _) fun _ ↦ hC.bind (hC.base _) fun _ ↦ hC.bind (hC.base _) fun _ ↦
      hC.bind (hC.base _) fun _ ↦ hC.bind hparked fun _ ↦ hC.base _
  | prepareQuiesce removing => exact hC.bind (hC.base _) fun _ ↦ hC.walk (hC.base _)
  | _ => cases he

end EventCode

theorem safe_call {o : Op} (h : ∀ l, Pre t o l) :
    (linkMachine cfg).Safe G I Pre t (.call (S := linkSig) o) :=
  .of_all ⟨h, fun _ ↦ trivial⟩

/-- The code of the events that work on RX descriptors is safe if all programs on them are. -/
theorem safe_onRx
    (hrx : ∀ {α : Type} (p : RxProg α), (linkMachine cfg).Safe G I Pre t (rxEntry p))
    (hdone : ∀ l, Pre t .callbackDone l) {e : Entry} (he : e.domain = .rx) :
    (linkMachine cfg).Safe G I Pre t (e.prog cfg) := by
  cases e with
  | rxComplete f canceled len pdf bad data =>
    exact .bind (hrx _) fun _ ↦ safe_call hdone
  | putRx f => exact hrx _
  | _ => cases he

structure RefsFree (Pre : Tid → Op → Link → Prop) (t : Tid) : Prop where
  next : ∀ l, Pre t .dispatchNext l
  put : ∀ l, Pre t .putLink l
  created : ∀ l, Pre t .putCreated l

section Parts

variable
  (hbase : ∀ {α : Type} (p : BaseProg α), (linkMachine cfg).Safe G I Pre t (baseEntry p))
  (hstep : (linkMachine cfg).Safe G I Pre t (withSessionLock (sessionStepLocked cfg)))
  (hdown : ∀ reason,
    (linkMachine cfg).Safe G I Pre t (withSessionLock (downSession cfg reason .local)))
  (hrefs : RefsFree Pre t)

include hbase

/-- The code of the events that work on TX frames is safe if all programs on them are. -/
theorem safe_onTx
    (htx : ∀ {α : Type} (p : TxProg α), (linkMachine cfg).Safe G I Pre t (txEntry p))
    (hdone : ∀ l, Pre t .callbackDone l) {e : Entry} (he : e.domain = .tx) :
    (linkMachine cfg).Safe G I Pre t (e.prog cfg) := by
  cases e with
  | verifyWork => exact .bind (htx _) fun _ ↦ hbase _
  | txComplete f canceled =>
    exact .bind (hbase _) fun n ↦ .bind (htx _) fun _ ↦ safe_call hdone
  | allocFrame len isCtrl | xmit f | frameFree f => exact htx _
  | _ => cases he

include hdown hrefs

theorem eventCode_safe : EventCode cfg fun _ p ↦ (linkMachine cfg).Safe G I Pre t p where
  ret _ := .ret _
  bind := .bind
  base := hbase
  down := hdown
  walk hp := .bind (safe_call hrefs.next) fun _ ↦ .when (.bind hp fun _ ↦ safe_call hrefs.put)

include hstep

/-- The code of the other events is safe if all programs without frames are, and so are the control
packet handler, `tbframe_service_remove` and the functions that run under `session_lock`. -/
theorem safe_other
    (hremove : ∀ isUnplugged, (linkMachine cfg).Safe G I Pre t (serviceRemove cfg isUnplugged))
    {e : Entry} (he : e.domain = .other)
    (hpacket : ∀ m, e = .packet m →
      (linkMachine cfg).Safe G I Pre t (netEntry (handlePacket cfg m))) :
    (linkMachine cfg).Safe G I Pre t (e.prog cfg) :=
  (eventCode_safe hbase hdown hrefs).other he (fun _ ↦ hstep) (fun b hb ↦ hb ▸ hremove b)
    fun m hm ↦ hm ▸ .bind (hpacket m hm) fun _ ↦ safe_call hrefs.put

@[inherit_doc safe_other]
theorem safe_prog (hgone : ∀ l, Pre t .hwDestroy l) {e : Entry} (he : e.domain = .other)
    (hpacket : ∀ m, e = .packet m →
      (linkMachine cfg).Safe G I Pre t (netEntry (handlePacket cfg m))) :
    (linkMachine cfg).Safe G I Pre t (e.prog cfg) :=
  safe_other hbase hstep hdown hrefs ((eventCode_safe hbase hdown hrefs).serviceRemove
    (safe_call hrefs.created) (safe_call hgone)) he hpacket

end Parts

/-- The code of the other events is safe if the parts of the code under `session_lock` leave a ghost
state alone which says nothing. -/
theorem safe_parts {V : Type} {own : V → Link → Prop} {E : Effect heldSig V} {v : V}
    (h : (linkMachine cfg).Tracks G I Pre t own (heldEffect E))
    (hC : PartCode cfg fun _ p ↦ p.Neutral E v) (hown : ∀ l, own v l)
    (hfree : ∀ o, (∀ o', o ≠ .held o') → ∀ l, Pre t o l) {e : Entry} (he : e.domain = .other)
    (hpacket : ∀ m, e = .packet m → (handlePacket cfg m).wlp (E.lift netHeld) (fun _ _ ↦ True) v) :
    (linkMachine cfg).Safe G I Pre t (e.prog cfg) := by
  have hlock := fun {α : Type} {p : HeldProg α} (hp : p.Neutral E v) ↦
    Safe.withSessionLock (hfree _ nofun) (hfree _ nofun) (safe_neutral h hown hp)
  refine safe_prog (fun p ↦ safe_neutral h hown (hC.base p))
    (hlock hC.stepCode.sessionStepLocked) (fun reason ↦ hlock (hC.stepCode.down reason .local))
    ⟨hfree _ nofun, hfree _ nofun, hfree _ nofun⟩ (hfree _ nofun) he fun m hm ↦ ?_
  exact (triple_tracked h ((Prog.wlp_lift ..).mpr (hpacket m hm))).pre fun l _ ↦ hown l

end Entries

/-- In every run, session sections are executed by the holder of `session_lock`. -/
theorem lock_verified (cfg : LinkCfg) :
    (linkMachine cfg).Verified (fun _ _ ↦ True) (fun _ ↦ True) LockPre where
  init _ _ := trivial
  enter t e l p l' _ _ henter := by
    obtain ⟨-, -, rfl⟩ := enter_eq_some henter
    have hk : LockKnown cfg (fun _ _ ↦ True) (fun _ ↦ True) LockPre := fun _ _ _ _ _ h _ ↦ h
    have hheld : ∀ {α : Type} (p : HeldProg α), (linkMachine cfg).Safe (fun _ _ ↦ True)
        (fun _ ↦ True) LockPre t (withSessionLock p) := by
      intro α p
      refine safe_withSessionLock (fun _ ↦ trivial) (fun _ _ _ ↦ trivial) (stable_lock hk)
        (fun _ _ _ ↦ rfl) (triple_held hk p fun o l hl ↦ ?_)
      cases o with
      | sess o => exact hl
      | _ => trivial
    refine ⟨trivial, ?_⟩
    cases he : e.domain with
    | tx =>
      exact safe_onTx (safe_free fun _ _ ↦ trivial) (safe_free fun o _ ↦ by cases o <;> trivial)
        (fun _ ↦ trivial) he l' trivial
    | rx =>
      exact safe_onRx (safe_free fun o _ ↦ by cases o <;> trivial) (fun _ ↦ trivial) he l' trivial
    | other =>
      refine safe_prog (safe_free fun _ _ ↦ trivial) (hheld _) (fun _ ↦ hheld _)
        ⟨fun _ ↦ trivial, fun _ ↦ trivial, fun _ ↦ trivial⟩ (fun _ ↦ trivial) he (fun m _ ↦ ?_)
        l' trivial
      exact safe_free (fun o _ ↦ by cases o <;> trivial) _
  exec _ _ _ _ _ _ _ _ _ _ := trivial

end ThunderboltStack.Tbframe
