import ThunderboltStack.Tbframe.LossModel
import ThunderboltStack.Tbframe.Served

/-!
# The delivery gate

`tbframe_core_rx_complete` decides under the lock whether a completion belongs to an established
session, and calls the client after it dropped the lock.  In between the session may go down, but the
generation cannot change: a new one is opened only when no callback runs.  For the same reason
`link_down` is delivered only after the last `rx` call of its session.

The observer of this module records which event each thread serves, the generations that were
announced to the client as UP, and those for which `link_down` was delivered afterwards.
-/

namespace ThunderboltStack.Tbframe

open ThunderboltStack.Lib Machine

/-- The generation, whether it is open, and whether its rings are up. -/
def epoch (l : Link) : ℕ × Bool × Bool :=
  (l.sess.dataGeneration, l.his.genOpen, l.sess.ringsUp)

/-- The session sections that keep the generation, do not close it and keep its rings. -/
def SessOp.keepsEpoch : SessOp → Bool
  | .bringUpBegin | .bringUpDone _ | .quarantined | .downBegin _ => false
  | _ => true

section Epoch

variable {cfg : LinkCfg} {t u : Tid} {l l' : Link}

theorem epoch_sess {o : SessOp} (i : o.Inp) (h : o.keepsEpoch) :
    epoch (o.exec cfg l i).2 = epoch l := by
  cases o with
  | bringUpBegin | bringUpDone | quarantined | downBegin => cases h
  | helloApply | maybeUp =>
    simp only [SessOp.exec, helloApply, maybeUpLocked]
    (repeat' split) <;> rfl
  | _ => first | rfl | exact view_quiet epoch i rfl rfl

theorem epoch_run {o : Op} {i : o.Inp} {r : o.Res} (h : o.run cfg u i l = some (r, l'))
    (ho : ∀ s, o = .held (.sess s) → s.keepsEpoch) : epoch l' = epoch l := by
  cases o with
  | held o =>
    cases o with
    | sess s =>
      obtain rfl := link_of_run h
      exact epoch_sess i (ho s rfl)
    | _ => exact view_run epoch h rfl
  | _ => exact view_run epoch h rfl

/-- Only a bring-up changes the generation. -/
theorem generation_run {o : Op} {i : o.Inp} {r : o.Res} (h : o.run cfg u i l = some (r, l'))
    (ho : o ≠ .held (.sess .bringUpBegin)) :
    l'.sess.dataGeneration = l.sess.dataGeneration := by
  by_cases hkeeps : ∀ s, o = .held (.sess s) → s.keepsEpoch
  · exact congrArg Prod.fst (epoch_run h hkeeps)
  · simp only [not_forall] at hkeeps
    obtain ⟨s, rfl, hs⟩ := hkeeps
    obtain rfl := link_of_run h
    cases s with
    | bringUpBegin => exact absurd rfl ho
    | bringUpDone | quarantined | downBegin => rfl
    | _ => exact absurd rfl hs

end Epoch

section Current

variable {cfg : LinkCfg} {t u : Tid} {l l' : Link} {f : ℕ} {α : Type}

/-- `t` is in the callback of a completion on the descriptor `f` of the current generation. -/
def Current (t : Tid) (f : ℕ) (l : Link) : Prop :=
  HoldsRx t f l ∧ Calling t l ∧ (l.rx.frames f).rxGeneration = l.sess.dataGeneration

def DeliverPre (t : Tid) : Op → Link → Prop
  | .held (.rx (.upcallRx f _ _)), l => Current t f l
  | _, _ => True

theorem rxKnown_ringed : RxKnown cfg (Ringed cfg) (fun _ ↦ True) DeliverPre :=
  ⟨fun _ _ _ _ _ _ hG ↦ hG.1.1.1.2, fun _ _ _ _ hG ↦ hG.1.1.1.2⟩

/-- No generation is opened while a callback runs. -/
theorem generation_move
    (hmove : (linkMachine cfg).Move (Ringed cfg) (fun _ ↦ True) DeliverPre u l l')
    (hl : Calling t l) : l'.sess.dataGeneration = l.sess.dataGeneration := by
  cases hmove with
  | enter _ _ henter =>
    exact view_begin (·.sess.dataGeneration) (enter_eq_some henter).2.1 rfl
  | exec _ _ hG hrun =>
    apply generation_run hrun
    rintro rfl
    have hidle : RingsIdle l := hG.2.2 (by simp)
    exact hidle.not_calling hl

theorem stable_calls :
    (linkMachine cfg).Stable (Ringed cfg) (fun _ ↦ True) DeliverPre t
      (fun l ↦ HoldsRx t f l ∧ Calling t l) :=
  fun l l' hl hrely ↦ ⟨stable_holdsRx rxKnown_ringed l l' hl.1 hrely,
    calling_move hrely.choose_spec.1 hrely.choose_spec.2 hl.2⟩

theorem stable_current :
    (linkMachine cfg).Stable (Ringed cfg) (fun _ ↦ True) DeliverPre t (Current t f) := by
  rintro l l' ⟨hholds, hcalling, hcurrent⟩ hrely
  obtain ⟨hholds', hcalling'⟩ := stable_calls l l' ⟨hholds, hcalling⟩ hrely
  obtain ⟨u, hne, hmove⟩ := hrely
  have hkept := kept_move rxKnown_ringed hne hholds.1 hmove
  refine ⟨hholds', hcalling', ?_⟩
  calc (l'.rx.frames f).rxGeneration = (l.rx.frames f).rxGeneration := hkept.generation
    _ = l.sess.dataGeneration := hcurrent
    _ = l'.sess.dataGeneration := (generation_move hmove hcalling).symm

inductive Gate
  | nothing
  | called (f : ℕ)
  | current (f : ℕ)

def Gate.Knows (t : Tid) : Gate → Link → Prop
  | .nothing, _ => True
  | .called f, l => HoldsRx t f l ∧ Calling t l
  | .current f, l => Current t f l

/-- What the sections tell a callback: that of the completion decides whether it may deliver. -/
def gateEffect : Effect heldSig Gate
  | .base (.read _), v, Q => ∀ r, Q r v
  | .rx (.complete f _ _), v, Q => v = .called f ∧ ∀ r, Q r (if r.2 then .current f else .nothing)
  | .rx (.upcallRx f _ _), v, Q => v = .current f ∧ ∀ r, Q r .nothing
  | _, _, Q => ∀ r, Q r .nothing

/-- A receive callback knows its frame, and whether that is of the current generation. -/
theorem tracks_gate : (linkMachine cfg).Tracks (Ringed cfg) (fun _ ↦ True) DeliverPre t (Gate.Knows t)
    (heldEffect gateEffect) where
  stable
    | .nothing => stable_true
    | .called _ => stable_calls
    | .current _ => stable_current
  exec o v Q h l i r l' _ hl _ hrun := by
    cases o with
    | held o =>
      cases o with
      | base o =>
        cases o with
        | read o =>
          obtain ⟨-, rfl⟩ := Prod.mk.inj (Option.some.inj hrun)
          exact ⟨trivial, v, hl, h r⟩
        | _ => exact ⟨trivial, .nothing, trivial, h r⟩
      | rx o =>
        cases o with
        | complete f c data =>
          obtain ⟨rfl, hQ⟩ := h
          refine ⟨trivial, _, ?_, hQ r⟩
          split
          · next hup =>
            obtain ⟨rfl, rfl⟩ := Prod.mk.inj (Option.some.inj hrun)
            have hgen : (l.rx.frames f).rxGeneration = l.sess.dataGeneration := by
              simpa [rxCompleteLocked] using (Bool.and_eq_true_iff.1 hup).1
            exact ⟨holdsRx_congr (by simp) hl.1, by simpa [Calling] using hl.2, by simpa using hgen⟩
          · trivial
        | upcallRx f len pdf =>
          obtain ⟨rfl, hQ⟩ := h
          exact ⟨hl, .nothing, trivial, hQ r⟩
        | _ => exact ⟨trivial, .nothing, trivial, h r⟩
      | _ => exact ⟨trivial, .nothing, trivial, h r⟩
    | _ => exact h.elim

attribute [local simp] gateEffect liftM monadLift

/-- The decision made under the lock stays right until the frame is delivered. -/
theorem wlp_deliver (canceled : Bool) (len : ℕ) (pdf : Pdf) (bad : Bool) (data : Keepalive) :
    (coreRxComplete f canceled len pdf bad data).wlp (gateEffect.lift rxHeld) (fun _ _ ↦ True)
      (.called f) := by
  simp [coreRxComplete, recycleRx, putbackRx]

end Current

/-- In every run, the frames that are delivered are of the current generation. -/
theorem deliver_verified (cfg : LinkCfg) :
    (linkMachine cfg).Verified (Ringed cfg) (fun _ ↦ True) DeliverPre where
  init _ _ := trivial
  enter t e l p l' _ hG henter := by
    obtain ⟨-, hbegin, rfl⟩ := enter_eq_some henter
    refine ⟨trivial, ?_⟩
    by_cases hrx : ∃ f canceled len pdf bad data, e = .rxComplete f canceled len pdf bad data
    · obtain ⟨f, canceled, len, pdf, bad, data, rfl⟩ := hrx
      have hheld := (rxOwned_takeFromRxRing hG.1.1.1.2 hbegin).2
      have hcalling : Calling t l' := by
        simp only [Entry.begin, takeFromRxRing] at hbegin
        split at hbegin <;> cases hbegin
        exact List.mem_cons_self
      exact Triple.bind (triple_tracked tracks_gate ((Prog.wlp_lift ..).mpr
        (wlp_deliver (f := f) canceled len pdf bad data)))
        (fun _ ↦ safe_call (o := .callbackDone) fun _ ↦ trivial) l' ⟨hheld, hcalling⟩
    · refine Safe.of_all ((prog_uses e).mono fun o ho l ↦ ?_) l' trivial
      cases o with
      | held o =>
        cases o with
        | rx o =>
          cases o with
          | upcallRx f len pdf =>
            obtain ⟨⟨data, rfl⟩, -⟩ := ho
            exact absurd ⟨f, false, len, pdf, false, data, rfl⟩ hrx
          | _ => trivial
        | _ => trivial
      | _ => trivial
  exec _ _ _ _ _ _ _ _ _ _ := trivial

/-! ## Sessions as the client sees them -/

/-- What the observer records: the events that the threads serve, the generations that were
announced as UP, and those for which `link_down` was delivered since. -/
structure DeliveryLog where
  served : Tid → Option Entry := fun _ ↦ none
  announced : List ℕ := []
  ended : List ℕ := []

def DeliveryLog.see {cfg : LinkCfg} (c : (linkMachine cfg).Config) (s : (linkMachine cfg).Label)
    (o : DeliveryLog) : DeliveryLog where
  served := (linkMachine cfg).serve s o.served
  announced :=
    match s with
    | .exec _ (.held (.sess .maybeUp)) _ =>
        if (maybeUpLocked cfg c.state).1.isSome then c.state.sess.dataGeneration :: o.announced
        else o.announced
    | _ => o.announced
  ended :=
    match s with
    | .exec _ (.held (.sess (.upcallDown _))) _ => o.announced
    | _ => o.ended

def deliveries (cfg : LinkCfg) :
    System ((linkMachine cfg).Config × DeliveryLog) (linkMachine cfg).Label :=
  (linkMachine cfg).system.observe {} DeliveryLog.see

/-- While a generation that was announced is open its rings are up, and the rings of one that ended
are idle. -/
structure Sessions (l : Link) (o : DeliveryLog) : Prop where
  announced : ∀ g ∈ o.announced, g ≤ l.sess.dataGeneration ∧
    (g = l.sess.dataGeneration → l.his.genOpen = true → l.sess.ringsUp = true)
  ended : ∀ g ∈ o.ended, g ≤ l.sess.dataGeneration ∧
    (g = l.sess.dataGeneration → l.his.genOpen = false ∧ RingsIdle l)

section Sessions

variable {cfg : LinkCfg} {t : Tid} {l l' : Link} {o : DeliveryLog}

theorem Sessions.congr (h : Sessions l o) (hepoch : epoch l' = epoch l)
    (hidle : RingsIdle l → RingsIdle l') {o' : DeliveryLog}
    (hannounced : o'.announced = o.announced) (hended : o'.ended = o.ended) : Sessions l' o' := by
  simp only [epoch, Prod.mk.injEq] at hepoch
  obtain ⟨hgen, hopen, hrings⟩ := hepoch
  refine ⟨?_, ?_⟩
  · rw [hannounced, hgen, hopen, hrings]
    exact h.announced
  · rw [hended, hgen, hopen]
    exact fun g hg ↦ ⟨(h.ended g hg).1, fun heq ↦ ((h.ended g hg).2 heq).imp_right hidle⟩

theorem maybeUp_rings (h : Phased l) (hup : (maybeUpLocked cfg l).1.isSome) :
    l.sess.ringsUp = true := by
  simp only [maybeUpLocked] at hup
  split at hup
  · next hready =>
    simp only [Bool.and_eq_true] at hready
    exact hready.1.1.2
  split at hup
  · next hreplay => exact (h.up (by simpa using (Bool.and_eq_true_iff.1 hreplay).1)).1
  · cases hup

/-- The session sections keep the observer's view of the sessions. -/
theorem sessions_sess {s : SessOp} (i : s.Inp) (h : Sessions l o) (hphased : Phased l)
    (hphase : PhasePre (.held (.sess s)) l) (hring : RingPre (.held (.sess s)) l)
    {c : (linkMachine cfg).Config} (hc : c.state = l) :
    Sessions (s.exec cfg l i).2 (o.see c (.exec t (.held (.sess s)) i)) := by
  subst hc
  cases s with
  | bringUpBegin =>
    refine ⟨fun g hg ↦ ?_, fun g hg ↦ ?_⟩
    · have hle := (h.announced g hg).1
      refine ⟨Nat.le_succ_of_le hle, fun heq ↦ ?_⟩
      have hlt : g < c.state.sess.dataGeneration + 1 := Nat.lt_succ_of_le hle
      exact absurd heq hlt.ne
    · have hle := (h.ended g hg).1
      refine ⟨Nat.le_succ_of_le hle, fun heq ↦ ?_⟩
      have hlt : g < c.state.sess.dataGeneration + 1 := Nat.lt_succ_of_le hle
      exact absurd heq hlt.ne
  | bringUpDone e2e =>
    have hopen : c.state.his.genOpen = true := hphase
    refine ⟨fun g hg ↦ ⟨(h.announced g hg).1, fun _ _ ↦ rfl⟩, fun g hg ↦ ⟨(h.ended g hg).1, ?_⟩⟩
    intro heq
    have hclosed := ((h.ended g hg).2 heq).1
    rw [hopen] at hclosed
    cases hclosed
  | quarantined =>
    have hrings : c.state.sess.ringsUp = false := hphase
    refine ⟨fun g hg ↦ ⟨(h.announced g hg).1, fun heq hopen ↦ ?_⟩, h.ended⟩
    have hup := (h.announced g hg).2 heq hopen
    rw [hrings] at hup
    cases hup
  | downBegin owner =>
    refine ⟨fun g hg ↦ ⟨(h.announced g hg).1, fun _ hopen ↦ ?_⟩, fun g hg ↦ ⟨(h.ended g hg).1, ?_⟩⟩
    · cases hopen
    · exact fun heq ↦ ⟨rfl, ((h.ended g hg).2 heq).2⟩
  | startRings =>
    have hopen : c.state.his.genOpen = true := hphase
    refine ⟨h.announced, fun g hg ↦ ⟨(h.ended g hg).1, fun heq ↦ ?_⟩⟩
    have hclosed := ((h.ended g hg).2 heq).1
    rw [hopen] at hclosed
    cases hclosed
  | stopRings =>
    have hidle : RingsIdle c.state → RingsIdle (stopRunning c.state) := fun hidle ↦ ⟨rfl, hidle.2⟩
    have hepoch : epoch (stopRunning c.state) = epoch c.state := rfl
    exact h.congr hepoch hidle rfl rfl
  | maybeUp =>
    have hkeep : Sessions (SessOp.maybeUp.exec cfg c.state i).2 o := by
      refine h.congr (epoch_sess i rfl) (fun hidle ↦ ?_) rfl rfl
      simp only [SessOp.exec, maybeUpLocked]
      (repeat' split) <;> exact hidle
    refine ⟨fun g hg ↦ ?_, hkeep.ended⟩
    simp only [DeliveryLog.see] at hg
    split at hg
    · next hup =>
      obtain rfl | hg := List.mem_cons.1 hg
      · have hepoch : epoch (SessOp.maybeUp.exec cfg c.state i).2 = epoch c.state := epoch_sess i rfl
        simp only [epoch, Prod.mk.injEq] at hepoch
        refine ⟨Nat.le_of_eq hepoch.1.symm, fun _ _ ↦ ?_⟩
        rw [hepoch.2.2]
        exact maybeUp_rings hphased hup
      · exact hkeep.announced g hg
    · exact hkeep.announced g hg
  | upcallDown reason =>
    have hkeep : Sessions ((SessOp.upcallDown reason).exec cfg c.state i).2 o :=
      h.congr (epoch_sess i rfl) (drift_sess i rfl).idle rfl rfl
    obtain ⟨hrings, hidle⟩ : c.state.sess.ringsUp = false ∧ RingsIdle c.state := hring (by simp)
    refine ⟨hkeep.announced, fun g hg ↦ ⟨(hkeep.announced g hg).1, fun heq ↦ ⟨?_, ?_⟩⟩⟩
    · have hepoch : epoch ((SessOp.upcallDown reason).exec cfg c.state i).2 = epoch c.state :=
        epoch_sess i rfl
      simp only [epoch, Prod.mk.injEq] at hepoch
      rw [hepoch.1] at heq
      rw [hepoch.2.1]
      apply Bool.eq_false_iff.2
      intro hopen
      have hup := (h.announced g hg).2 heq hopen
      rw [hrings] at hup
      cases hup
    · exact (drift_sess i rfl).idle hidle
  | _ => exact h.congr (epoch_sess i rfl) (drift_sess i rfl).idle rfl rfl

/-- Every step keeps the observer's view of the sessions. -/
theorem sessions_step {c c' : (linkMachine cfg).Config} {s : (linkMachine cfg).Label}
    (h : Sessions c.state o) (hG : Ringed cfg c.state s) (hstep : (linkMachine cfg).Step c s c') :
    Sessions c'.state (o.see c s) := by
  cases hstep with
  | start _ henter =>
    have hbegin := (enter_eq_some henter).2.1
    exact h.congr (view_begin epoch hbegin rfl) (drift_begin hbegin).idle rfl rfl
  | @exec t op k i r l' _ hrun =>
    by_cases hsess : ∃ s, op = .held (.sess s)
    · obtain ⟨s, rfl⟩ := hsess
      obtain rfl := link_of_run hrun
      exact sessions_sess i h hG.1.1.2.1.phased hG.1.1.2.2.phase hG.2.2 rfl
    · have hdrift : Drift c.state l' := drift_run (fun s hs ↦ absurd ⟨s, hs⟩ hsess) hrun
      have hepoch : epoch l' = epoch c.state := epoch_run hrun fun s hs ↦ absurd ⟨s, hs⟩ hsess
      refine h.congr hepoch hdrift.idle ?_ ?_
      all_goals
        simp only [DeliveryLog.see]
        split
        · next heq => exact absurd ⟨_, (Machine.Label.exec.inj heq).2.1⟩ hsess
        · rfl
  | finish _ => exact h.congr rfl id rfl rfl

/-- The sessions that were announced or ended are as described in every run. -/
theorem sessions_reach {p : (linkMachine cfg).Config × DeliveryLog}
    (hp : (deliveries cfg).Reachable p) : Sessions p.1.state p.2 := by
  apply System.Reach.observe_invariant (I := fun c o ↦ Sessions c.state o) hp
  · intro c _
    constructor <;> simp
  · intro c o s c' hc h _ hstep
    exact sessions_step h (ringed_step hc hstep) hstep

end Sessions

section Gate

variable {cfg : LinkCfg} {t : Tid} {l l' : Link}

/-- The frame that `t` passes to the client is the good data frame of a completion on a descriptor
of the current generation, and `link_down` was not delivered for that generation. -/
def Admitted (p : (linkMachine cfg).Config × DeliveryLog) (t : Tid) (f len : ℕ) (pdf : Pdf) : Prop :=
  (∃ data, p.2.served t = some (.rxComplete f false len pdf false data)) ∧ pdf ≠ .keepalive ∧
    len ≤ maxFrame ∧ (p.1.state.rx.frames f).rxGeneration = p.1.state.sess.dataGeneration ∧
    p.1.state.sess.dataGeneration ∉ p.2.ended

/-- A step on a descriptor of another generation counts it as stale and leaves the data-path proof,
the silence detector and the stale drain alone. -/
def StaleCounted (f : ℕ) (l l' : Link) : Prop :=
  (l.rx.frames f).rxGeneration ≠ l.sess.dataGeneration →
    l'.prf = { l.prf with dataRxStale := l.prf.dataRxStale + 1 }

theorem prf_rx {o : RxOp} {i : o.Inp} {r : o.Res} (ho : ∀ f c data, o ≠ .complete f c data)
    (h : o.exec t l i = some (r, l')) : l'.prf = l.prf := by
  cases o with
  | complete f c data => exact absurd rfl (ho f c data)
  | _ =>
    simp only [RxOp.exec, takeRxFree, clientPutRxRef] at h
    (repeat' split at h) <;> cases h <;> rfl

theorem staleCounted_complete (f : ℕ) (c : RxLocals) (data : Keepalive) :
    StaleCounted f l (rxCompleteLocked f c data l).2 := by
  intro hstale
  simp [rxCompleteLocked, rxAccount, hstale]

/-- The steps of a completion callback leave the proof state alone, but for the one that processes
the completion. -/
theorem prf_completion {f len : ℕ} {canceled bad : Bool} {pdf : Pdf} {data : Keepalive} {o : Op}
    {i : o.Inp} {r : o.Res}
    (ho : Op.Under (Entry.Uses (.rxComplete f canceled len pdf bad data)) o)
    (h : o.run cfg t i l = some (r, l')) :
    l'.prf = l.prf ∨ (∃ c, o = .held (.rx (.complete f c data))) ∧ StaleCounted f l l' := by
  cases o with
  | held o =>
    cases o with
    | base o => exact .inl (prf_base h ho)
    | rx o =>
      by_cases hcomplete : ∃ g c data', o = .complete g c data'
      · obtain ⟨g, c, data', rfl⟩ := hcomplete
        obtain ⟨len', pdf', bad', directional, heq, -⟩ := ho
        cases heq
        cases h
        exact .inr ⟨⟨c, rfl⟩, staleCounted_complete f c data⟩
      · exact .inl (prf_rx (fun g c data' heq ↦ hcomplete ⟨g, c, data', heq⟩) h)
    | net o | sess o => exact ho.elim
    | tx o =>
      cases o with
      | complete g canceled' => cases canceled' <;> cases ho
      | xmit g preUp => simp [Op.Under, Entry.Uses] at ho
      | _ => exact ho.elim
  | _ => exact .inl (view_run (·.prf) h rfl)

/-- In every run, only good data frames of the current generation are delivered, none of them after
the `link_down` of its session, and a completion on a descriptor of an older generation changes
nothing but the count of such completions. -/
theorem rx_delivery_gated {p : (linkMachine cfg).Config × DeliveryLog}
    {s : (linkMachine cfg).Label} {c' : (linkMachine cfg).Config}
    (hp : (deliveries cfg).Reachable p) (hstep : (linkMachine cfg).Step p.1 s c') :
    (∀ t f len pdf i, s = .exec t (.held (.rx (.upcallRx f len pdf))) i → Admitted p t f len pdf) ∧
    ∀ t o i f canceled len pdf bad data, s = .exec t o i →
      p.2.served t = some (.rxComplete f canceled len pdf bad data) →
      c'.state.prf = p.1.state.prf ∨
        (∃ c, o = .held (.rx (.complete f c data))) ∧ StaleCounted f p.1.state c'.state := by
  have huses : ∀ {t : Tid} {o : Op} {i : o.Inp}, (linkMachine cfg).Step p.1 (.exec t o i) c' →
      ∃ e, p.2.served t = some e ∧ Op.Under e.Uses o := by
    intro t o i hexec
    have hsee : ∀ (c : (linkMachine cfg).Config) s o,
        (DeliveryLog.see c s o).served = (linkMachine cfg).serve s o.served := fun _ _ _ ↦ rfl
    exact uses_exec hsee hp hexec
  refine ⟨?_, ?_⟩
  · rintro t f len pdf i rfl
    obtain ⟨e, hserved, ⟨data, rfl⟩, hlen, hpdf⟩ := huses hstep
    have hc := hp.reachable
    have hcurrent : Current t f p.1.state :=
      (deliver_verified cfg).pre (ringed_reach hc) (ringed_step hc hstep) hstep
    refine ⟨⟨data, hserved⟩, hpdf, hlen, hcurrent.2.2, fun hended ↦ ?_⟩
    have hidle := (((sessions_reach hp).ended _ hended).2 rfl).2
    exact hidle.not_calling hcurrent.2.1
  · rintro t o i f canceled len pdf bad data rfl hserved
    obtain ⟨e, he, hexec⟩ := huses hstep
    obtain rfl : .rxComplete f canceled len pdf bad data = e :=
      Option.some.inj (hserved.symm.trans he)
    cases hstep with
    | exec _ hrun => exact prf_completion hexec hrun

end Gate

def receiveSchedule : List (linkMachine budgetCfg).Act :=
  upSchedule ++ [.start (.task 0) (.rxComplete 0 false 100 .data false {})] ++
    linkSteps (.task 0) 2 {}

def deliveredBy {cfg : LinkCfg} : (linkMachine cfg).Label → Option (Tid × ℕ × ℕ × Pdf)
  | .exec t (.held (.rx (.upcallRx f len pdf))) _ => some (t, f, len, pdf)
  | _ => none

theorem deliveredBy_eq {cfg : LinkCfg} {s : (linkMachine cfg).Label} {t : Tid} {f len : ℕ}
    {pdf : Pdf} (h : deliveredBy s = some (t, f, len, pdf)) :
    ∃ i, s = .exec t (.held (.rx (.upcallRx f len pdf))) i := by
  unfold deliveredBy at h
  split at h
  · cases h
    exact ⟨_, rfl⟩
  · cases h

set_option maxRecDepth 10000 in
theorem rx_delivery_gated_sample : ∃ p s c', (deliveries budgetCfg).Reachable p ∧
    (linkMachine budgetCfg).Step p.1 s c' ∧ deliveredBy s = some (.task 0, 0, 100, .data) ∧
    Admitted p (.task 0) 0 100 .data := by
  obtain ⟨p, hp, hgoal⟩ := System.Exec.reach_of_play
    ((linkMachine budgetCfg).exec.observe : (deliveries budgetCfg).Exec) (fun _ _ ↦ true)
    (fun p ↦ (Machine.act p.1 (.step (.task 0) ({} : Answers).inp)).any fun x ↦
      deliveredBy x.1 == some (.task 0, 0, 100, .data))
    receiveSchedule (s := ((linkMachine budgetCfg).idle _, {}))
    ⟨Machine.init_idle ⟨50, 0, true, rfl⟩, rfl⟩ (by decide +kernel)
  simp only [Option.any_eq_true, beq_iff_eq] at hgoal
  obtain ⟨⟨s, c'⟩, hact, hdelivered⟩ := hgoal
  have hp' := hp.mono (fun _ _ _ ↦ trivial : ∀ _ _, _ → True)
  have hstep := Machine.act_sound hact
  obtain ⟨i, rfl⟩ := deliveredBy_eq hdelivered
  exact ⟨p, _, c', hp', hstep, hdelivered,
    (rx_delivery_gated hp' hstep).1 _ _ _ _ i rfl⟩

end ThunderboltStack.Tbframe
