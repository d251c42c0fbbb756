import ThunderboltStack.Tbframe.Lock

/-!
# Properties of all link code

A property of programs that sequential composition keeps holds of the code of every event if it
holds of its parts.  Most sections are parts by themselves.  The exceptions are the functions that
work on TX frames, and `tbframe_link_down_session`, which completes the backlog.  `HeldClosed` takes
these functions as parts; `HeldSingles` takes them apart too, as far as frames are not put back.
-/

namespace ThunderboltStack.Tbframe

open ThunderboltStack.Lib

def HeldOp.Aside : HeldOp → Prop
  | .tx _ | .sess (.downBegin _) => False
  | _ => True

def HeldOp.Single : HeldOp → Prop
  | .tx (.complete _ _) | .tx (.refillErr _) | .tx .splice | .tx (.free _) => False
  | _ => True

/-- A property of code that sections have which work on no TX frame and begin no down. -/
structure HeldAside (C : ∀ α : Type, HeldProg α → Prop) : Prop extends Prog.Closed C where
  aside : ∀ o : HeldOp, o.Aside → C _ (.call o)

/-- A property of code under `session_lock` that its parts have. -/
structure HeldClosed (cfg : LinkCfg) (C : ∀ α : Type, HeldProg α → Prop) : Prop
    extends HeldAside C where
  keepalive : ∀ preUp, C _ ((sendKeepalive preUp).lift txHeld)
  alloc : ∀ len isCtrl, C _ ((clientAlloc len isCtrl).lift txHeld)
  free : ∀ f, C _ ((frameFree f).lift txHeld)
  down : ∀ reason owner, C _ (downSession cfg reason owner)

/-- A property of code under `session_lock` that its sections have and the functions that put TX
frames back. -/
structure HeldSingles (C : ∀ α : Type, HeldProg α → Prop) : Prop extends Prog.Closed C where
  single : ∀ o : HeldOp, o.Single → C _ (.call o)
  free : ∀ f, C _ ((frameFree f).lift txHeld)
  complete : ∀ n f canceled, C _ ((coreTxComplete n f canceled).lift txHeld)
  flush : ∀ {α : Type} {k : Unit → HeldProg α}, (∀ u, C _ (k u)) →
    C _ ((tx .splice).lift txHeld >>= fun flush ↦ (ctl .turns).lift baseHeld >>= fun n ↦
      Prog.forEach flush (fun f ↦ (coreTxComplete n f true).lift txHeld) >>= k)

/-- A property of link code that its parts have; `D` is the property for the code under
`session_lock`. -/
structure LinkClosed (cfg : LinkCfg) (D : ∀ α : Type, HeldProg α → Prop)
    (C : ∀ α : Type, LinkProg α → Prop) : Prop extends Prog.Closed C where
  held : HeldClosed cfg D
  onHeld : ∀ {α : Type} {p : HeldProg α}, D α p → C α (p.lift heldLink)
  call : ∀ o : Op, (∀ o', o ≠ .held o') → C _ (.call o)

section Aside

variable {cfg : LinkCfg} {α : Type} {D : ∀ α : Type, HeldProg α → Prop} (hD : HeldAside D)

include hD

theorem HeldAside.heldCode : HeldCode D where
  toClosed := hD.toClosed
  base p := hD.of_all (all_base (fun o ↦ hD.aside (.base o) trivial) p)

theorem HeldAside.base (p : BaseProg α) : D α (p.lift baseHeld) :=
  hD.heldCode.base p

theorem HeldAside.net (p : NetProg α) : D α (p.lift netHeld) :=
  hD.of_all (all_net (fun o ↦ hD.aside (.base o) trivial) (fun o ↦ hD.aside (.net o) trivial) p)

theorem HeldAside.rx (p : RxProg α) : D α (p.lift rxHeld) :=
  hD.of_all (all_rx (fun o ↦ hD.aside (.base o) trivial) (fun o ↦ hD.aside (.rx o) trivial) p)

theorem HeldAside.downSession (reason : DownReason) (owner : SessionOwner)
    (hquiesce : ∀ {α : Type} {k : DownLocals → DownReason → HeldProg α}, (∀ d r, D α (k d r)) →
      D α (sess (.downBegin owner) >>= fun d ↦ downQuiesce reason d >>= k d)) :
    D _ (downSession cfg reason owner) := by
  refine hD.heldCode.downSession (hD.net _) (fun o ho ↦ hD.aside (.sess o) ?_)
    (hD.aside (.sess .downEnd) trivial) hquiesce
  cases o <;> trivial

end Aside

theorem HeldClosed.stepCode {cfg : LinkCfg} {D : ∀ α : Type, HeldProg α → Prop}
    (hD : HeldClosed cfg D) : StepCode cfg D where
  toHeldCode := hD.heldCode
  sess o ho := by
    apply hD.aside (.sess o)
    cases o <;> trivial
  hello := by
    refine hD.heldCode.helloOnce (hD.net _) fun o ho ↦ hD.aside (.sess o) ?_
    cases o <;> trivial
  query := hD.net _
  ready := hD.heldCode.readyOnce (fun p _ ↦ hD.net p) fun remote ↦
    hD.aside (.sess (.readyConfirm remote)) trivial
  flush := hD.net _
  post _ := hD.rx _
  probe := hD.keepalive true
  down := hD.down

section Singles

variable {cfg : LinkCfg} {α : Type} {D : ∀ α : Type, HeldProg α → Prop} (hD : HeldSingles D)

include hD

theorem HeldSingles.toAside : HeldAside D where
  toClosed := hD.toClosed
  aside o ho := by
    apply hD.single
    cases o with
    | tx o => exact ho.elim
    | _ => trivial

theorem HeldSingles.base (p : BaseProg α) : D α (p.lift baseHeld) :=
  hD.toAside.base p

theorem HeldSingles.sendCode : SendCode D where
  toHeldCode := hD.toAside.heldCode
  tx o ho := by
    apply hD.single (.tx o)
    cases o <;> trivial

theorem HeldSingles.sendKeepalive (preUp : Bool) : D _ ((sendKeepalive preUp).lift txHeld) :=
  hD.sendCode.sendKeepalive (fun f ↦ hD.single (.tx (.xmit f preUp)) trivial) hD.free

theorem HeldSingles.downSession (reason : DownReason) (owner : SessionOwner) :
    D _ (downSession cfg reason owner) := by
  apply hD.toAside.downSession
  intro α k hk
  apply hD.bind (hD.single (.sess (.downBegin owner)) trivial)
  intro d
  refine hD.bind ?_ (hk d)
  apply hD.bind (hD.base _)
  intro _
  apply hD.bind (hD.base _)
  intro timedOut
  apply hD.bind (hD.when (hD.single (.sess .markDead) trivial))
  intro _
  apply hD.flush
  intro _
  apply hD.bind (hD.when (hD.base _))
  intro _
  exact hD.bind (hD.single (.sess .markQuiesced) trivial) fun _ ↦ hD.ret _

theorem HeldSingles.closed : HeldClosed cfg D where
  toHeldAside := hD.toAside
  keepalive := hD.sendKeepalive
  alloc := hD.sendCode.clientAlloc
  free := hD.free
  down := hD.downSession

end Singles

section Link

variable {cfg : LinkCfg} {α : Type} {D : ∀ α : Type, HeldProg α → Prop}
  {C : ∀ α : Type, LinkProg α → Prop} (hC : LinkClosed cfg D C)

include hC

theorem LinkClosed.withSessionLock {p : HeldProg α} (hp : D α p) : C _ (withSessionLock p) := by
  apply hC.bind (hC.call .lockSession (by simp))
  intro _
  apply hC.bind (hC.onHeld hp)
  intro a
  exact hC.bind (hC.call .unlockSession (by simp)) fun _ ↦ hC.ret a

theorem LinkClosed.eventCode : EventCode cfg C where
  toClosed := hC.toClosed
  base p := hC.onHeld (hC.held.base p)
  down reason := hC.withSessionLock (hC.held.down reason .local)
  walk hp := hC.bind (hC.call .dispatchNext (by simp)) fun _ ↦
    hC.when (hC.bind hp fun _ ↦ hC.call .putLink (by simp))

/-- The code of an event has the property, if it is no transmission or completion of a frame. -/
theorem LinkClosed.prog (e : Entry) (hxmit : ∀ f, e = .xmit f → C _ (e.prog cfg))
    (hcomplete : ∀ f canceled, e = .txComplete f canceled → C _ (e.prog cfg)) :
    C _ (e.prog cfg) := by
  have hE := hC.eventCode
  cases e with
  | verifyWork =>
    exact hC.bind (hC.onHeld (hC.held.heldCode.verifyStep (hC.held.keepalive false))) fun _ ↦
      hE.base _
  | txComplete f canceled => exact hcomplete f canceled rfl
  | rxComplete f canceled len pdf bad data =>
    exact hC.bind (hC.onHeld (hC.held.rx _)) fun _ ↦ hC.call .callbackDone (by simp)
  | allocFrame len isCtrl => exact hC.onHeld (hC.held.alloc len isCtrl)
  | xmit f => exact hxmit f rfl
  | frameFree f => exact hC.onHeld (hC.held.free f)
  | putRx f => exact hC.onHeld (hC.held.rx _)
  | _ =>
    exact hE.other rfl (fun _ ↦ hC.withSessionLock hC.held.stepCode.sessionStepLocked)
      (fun b hb ↦ hb ▸ hE.serviceRemove (hC.call .putCreated (by simp))
        (hC.call .hwDestroy (by simp)) b)
      fun m hm ↦ hm ▸ hC.bind (hC.onHeld (hC.held.net _)) fun _ ↦ hC.call .putLink (by simp)

/-- The code of every event has a property that the sections have and the functions that put TX
frames back. -/
theorem LinkClosed.prog_of_singles (hD : HeldSingles D) (e : Entry) : C _ (e.prog cfg) := by
  apply hC.prog
  · rintro f rfl
    exact hC.onHeld (hD.sendCode.clientXmit (hD.single (.tx (.xmit f false)) trivial))
  · rintro f canceled rfl
    apply hC.bind (hC.onHeld (hC.held.base _))
    intro n
    apply hC.bind (hC.onHeld (hD.complete n f canceled))
    exact fun _ ↦ hC.call .callbackDone (by simp)

end Link

end ThunderboltStack.Tbframe
