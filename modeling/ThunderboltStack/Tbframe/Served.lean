import ThunderboltStack.Lib.Observe
import ThunderboltStack.Tbframe.Lock

/-!
# What a thread executes for an event

Some sections are executed for one event only: a completion is processed, and its frame delivered,
by the callback of that completion; a frame is transmitted by the client call that hands it over or
by the works that send keepalives.  `Entry.Uses` lists these sections, and an observer that records
the events that the threads serve can tell from a section which event it belongs to.
-/

namespace ThunderboltStack.Tbframe

open ThunderboltStack.Lib

def Entry.Uses : Entry → HeldOp → Prop
  | e, .rx (.complete f c data) => ∃ len pdf bad directional,
      e = .rxComplete f false len pdf bad data ∧ c = rxLocals directional len pdf bad data
  | e, .rx (.upcallRx f len pdf) => (∃ data, e = .rxComplete f false len pdf false data) ∧
      len ≤ maxFrame ∧ pdf ≠ .keepalive
  | e, .tx (.complete f false) => e = .txComplete f false
  | e, .tx (.xmit f preUp) =>
      (e = .xmit f ∨ e = .verifyWork) ∧ preUp = false ∨ e = .sessionWork ∧ preUp = true
  | .rxComplete _ _ _ _ _ _, .base o => o.Tickless
  | .rxComplete _ _ _ _ _ _, .net _ | .rxComplete _ _ _ _ _ _, .tx _
  | .rxComplete _ _ _ _ _ _, .sess _ => False
  | _, _ => True

section Common

variable {cfg : LinkCfg} {P : HeldOp → Prop}

theorem all_downSession (h : ∀ o : HeldOp, o.Common → P o) (reason : DownReason)
    (owner : SessionOwner) : (downSession cfg reason owner).All P := by
  have hbase : ∀ o, P (.base o) := fun _ ↦ h _ trivial
  have hsess : ∀ o, (sess o).All P := fun _ ↦ all_sess (h _ trivial)
  have hquiesce := all_downQuiesce hbase (fun o ho ↦ h (.tx o) ho) (fun _ _ ↦ h _ trivial) reason
  exact (heldCode_all hbase).downSession (all_net hbase (fun _ ↦ h _ trivial) _)
    (fun o _ ↦ hsess o) (hsess _) fun hk ↦ .bind (hsess _) fun d ↦ .bind (hquiesce d) (hk d)

theorem all_sessionStep (h : ∀ o : HeldOp, o.Common → P o)
    (hprobe : ((sendKeepalive true).lift txHeld).All P) : (sessionStepLocked cfg).All P :=
  (partCode_all h hprobe).stepCode.sessionStepLocked

end Common

section Events

variable {cfg : LinkCfg} {α : Type}

/-- What is said about the sections that touch the link only after a lock was taken. -/
def Op.Under (P : HeldOp → Prop) : Op → Prop
  | .held o => P o
  | _ => True

theorem held_lift {P : HeldOp → Prop} {p : HeldProg α} (hp : p.All P) :
    (p.lift heldLink).All (Op.Under P) :=
  .lift hp

theorem held_base {P : HeldOp → Prop} (h : ∀ o, P (.base o)) (p : BaseProg α) :
    (baseEntry p).All (Op.Under P) :=
  held_lift (all_base h p)

theorem held_withSessionLock {P : HeldOp → Prop} {p : HeldProg α} (hp : p.All P) :
    (withSessionLock p).All (Op.Under P) :=
  .bind ⟨trivial, fun _ ↦ trivial⟩ fun _ ↦ .bind (held_lift hp) fun _ ↦
    .bind ⟨trivial, fun _ ↦ trivial⟩ fun _ ↦ trivial

theorem uses_common {e : Entry} (he : ∀ f canceled len pdf bad data,
    e ≠ .rxComplete f canceled len pdf bad data) {o : HeldOp} (ho : o.Common) : e.Uses o := by
  cases e with
  | rxComplete f canceled len pdf bad data => exact absurd rfl (he f canceled len pdf bad data)
  | _ =>
    cases o with
    | rx o => cases o <;> first | exact ho.elim | trivial
    | tx o =>
      cases o with
      | complete f canceled =>
        obtain rfl : canceled = true := ho
        trivial
      | xmit f preUp => exact ho.elim
      | _ => trivial
    | _ => trivial

theorem uses_sendCode {e : Entry} (he : ∀ f canceled len pdf bad data,
    e ≠ .rxComplete f canceled len pdf bad data) : SendCode fun _ p ↦ p.All e.Uses := by
  refine sendCode_all (fun _ ↦ uses_common he trivial) fun o ho ↦ uses_common he ?_
  cases o <;> trivial

/-- The code of an event executes the sections that may be executed for it. -/
theorem prog_uses (e : Entry) : (e.prog cfg).All (Op.Under e.Uses) := by
  by_cases hrx : ∃ f canceled len pdf bad data, e = .rxComplete f canceled len pdf bad data
  · obtain ⟨f, canceled, len, pdf, bad, data, rfl⟩ := hrx
    refine .bind (held_lift (all_coreRxComplete (fun o ho ↦ ho) (fun o ho ↦ ?_) ?_ ?_))
      fun _ ↦ ⟨trivial, fun _ ↦ trivial⟩
    · cases o <;> first | exact ho.elim | trivial
    · rintro rfl directional
      exact ⟨len, pdf, bad, directional, rfl, rfl⟩
    · rintro rfl rfl hlen hpdf
      exact ⟨⟨data, rfl⟩, hlen, hpdf⟩
  have he : ∀ f canceled len pdf bad data, e ≠ .rxComplete f canceled len pdf bad data :=
    fun f canceled len pdf bad data heq ↦ hrx ⟨f, canceled, len, pdf, bad, data, heq⟩
  have hcommon : ∀ o : HeldOp, o.Common → e.Uses o := fun o ho ↦ uses_common he ho
  have hS := uses_sendCode he
  have hfree : ∀ f, ((frameFree f).lift txHeld).All e.Uses :=
    fun f ↦ hS.frameFree ⟨hcommon _ trivial, fun _ ↦ trivial⟩
  have hbase : ∀ {α : Type} (p : BaseProg α), (baseEntry p).All (Op.Under e.Uses) :=
    fun p ↦ held_base (fun _ ↦ hcommon _ trivial) p
  have hE : EventCode cfg fun _ p ↦ p.All (Op.Under e.Uses) :=
    { ret := fun _ ↦ trivial
      bind := .bind
      base := hbase
      down := fun reason ↦ held_withSessionLock (all_downSession hcommon reason .local)
      walk := fun hp ↦ ⟨trivial, fun _ ↦ .when (.bind hp fun _ ↦ ⟨trivial, fun _ ↦ trivial⟩)⟩ }
  have hprobe : e = .sessionWork → ((sendKeepalive true).lift txHeld).All e.Uses := by
    rintro rfl
    exact hS.sendKeepalive (fun f ↦ ⟨.inr ⟨rfl, rfl⟩, fun _ ↦ trivial⟩) hfree
  have hpacket : ∀ m, e = .packet m → (e.prog cfg).All (Op.Under e.Uses) := by
    rintro m rfl
    exact .bind (held_lift (all_net (fun _ ↦ hcommon _ trivial) (fun _ ↦ hcommon _ trivial) _))
      fun _ ↦ ⟨trivial, fun _ ↦ trivial⟩
  cases e with
  | verifyWork =>
    refine .bind (held_lift (hS.verifyStep (hS.sendKeepalive (fun f ↦ ?_) hfree))) fun _ ↦ hbase _
    exact ⟨.inl ⟨.inr rfl, rfl⟩, fun _ ↦ trivial⟩
  | txComplete f canceled =>
    refine .bind (hbase _) fun n ↦ .bind (held_lift (all_coreTxComplete
      (fun _ ↦ hcommon _ trivial) (fun o ho ↦ hcommon (.tx o) ho) n f canceled ?_))
      fun _ ↦ ⟨trivial, fun _ ↦ trivial⟩
    cases canceled with
    | true => trivial
    | false => rfl
  | rxComplete f canceled len pdf bad data => exact absurd rfl (he f canceled len pdf bad data)
  | allocFrame len isCtrl => exact held_lift (hS.clientAlloc len isCtrl)
  | xmit f => exact held_lift (hS.clientXmit ⟨.inl ⟨.inl rfl, rfl⟩, fun _ ↦ trivial⟩)
  | frameFree f => exact held_lift (hfree f)
  | putRx f =>
    exact held_lift (all_clientPutRx (fun _ _ ↦ hcommon _ trivial)
      (fun o ho ↦ hcommon (.rx o) ho) f)
  | _ =>
    exact hE.other rfl (fun h ↦ held_withSessionLock (all_sessionStep hcommon (hprobe h)))
      (fun b hb ↦ hb ▸ hE.serviceRemove ⟨trivial, fun _ ↦ trivial⟩ ⟨trivial, fun _ ↦ trivial⟩ b)
      hpacket

/-- An observer that records the events served finds every section among those of the event that its
thread serves. -/
theorem uses_exec {Obs : Type} {start : Obs}
    {see : (linkMachine cfg).Config → (linkMachine cfg).Label → Obs → Obs}
    {served : Obs → Tid → Option Entry}
    (hsee : ∀ c s o, served (see c s o) = (linkMachine cfg).serve s (served o))
    {allowed : (linkMachine cfg).Config × Obs → (linkMachine cfg).Label → Prop}
    {p : (linkMachine cfg).Config × Obs}
    (hp : ((linkMachine cfg).system.observe start see).Reach allowed p) {t : Tid} {o : Op}
    {i : o.Inp} {c' : (linkMachine cfg).Config}
    (hstep : (linkMachine cfg).Step p.1 (.exec t o i) c') :
    ∃ e, served p.2 t = some e ∧ Op.Under e.Uses o := by
  apply Machine.serves_exec (C := fun _ e o ↦ Op.Under (Entry.Uses e) o) hsee _ hp hstep
  intro t e l q l' henter
  rw [(enter_eq_some henter).2.2]
  exact prog_uses e

end Events

end ThunderboltStack.Tbframe
