import ThunderboltStack.Tbframe.Program

/-!
# The tbframe link as a machine

The events that start link code, and the machine whose runs are all interleavings, at the
granularity of `link->lock`, of the code they start.
-/

namespace ThunderboltStack.Tbframe

open ThunderboltStack.Lib

/-- What may start link code: a work item or the verify timer becoming due, a control packet, a
ring completion, a client call, registration, and tear-down of the link or the module. -/
inductive Entry
  | sessionWork
  | verifyWork
  | txReleasedWork
  | verifyTimer
  | packet (m : WireMsg)
  | txComplete (f : ℕ) (canceled : Bool)
  | rxComplete (f : ℕ) (canceled : Bool) (len : ℕ) (pdf : Pdf) (bad : Bool) (data : Keepalive)
  | allocFrame (len : ℕ) (isCtrl : Bool)
  | xmit (f : ℕ)
  | frameFree (f : ℕ)
  | putRx (f : ℕ)
  | registerClient
  | unregisterClient
  | serviceRemove (isUnplugged : Bool)
  | linkShutdown
  | prepareQuiesce (removing : Bool)
  | setShutdownMode

def Entry.runsOn : Entry → Tid → Bool
  | .sessionWork, .session => true
  | .sessionWork, _ => false
  | .verifyWork, .verify => true
  | .verifyWork, _ => false
  | .txReleasedWork, .txReleased => true
  | .txReleasedWork, _ => false
  | _, .task _ => true
  | _, _ => false

def startWork (w : Work) (l : Link) : Option Link :=
  if l.ctl.queued w && !l.ctl.running w then
    some { l with ctl := { l.ctl with
      queued := Function.update l.ctl.queued w false
      running := Function.update l.ctl.running w true } }
  else none

/-- The client hands a TX frame it holds to `t`. -/
def takeFromClient (t : Tid) (f : ℕ) (l : Link) : Option Link :=
  if (l.tx.frames f).loc = .client then
    some { l with tx := { l.tx with
      frames := Function.update l.tx.frames f { l.tx.frames f with loc := .held t } } }
  else none

/-- The ring hands a TX frame back to `t`; a stopped ring cancels what it still holds. -/
def takeFromTxRing (t : Tid) (f : ℕ) (canceled : Bool) (l : Link) : Option Link :=
  if f ∈ l.hw.txRing ∧ canceled = !l.hw.running then
    some { l with
      hw := { l.hw with txRing := l.hw.txRing.erase f, callbacks := t :: l.hw.callbacks }
      tx := { l.tx with
        frames := Function.update l.tx.frames f { l.tx.frames f with loc := .done t } } }
  else none

/-- The ring hands an RX descriptor back to `t`, filled unless the ring was stopped. -/
def takeFromRxRing (t : Tid) (f : ℕ) (canceled : Bool) (data : Keepalive) (l : Link) :
    Option Link :=
  if f ∈ l.hw.rxRing ∧ canceled = !l.hw.running then
    some { l with
      hw := { l.hw with rxRing := l.hw.rxRing.erase f, callbacks := t :: l.hw.callbacks }
      rx := { l.rx with
        frames := Function.update l.rx.frames f { l.rx.frames f with
          loc := .held t
          data := if canceled then (l.rx.frames f).data else data } } }
  else none

variable (cfg : LinkCfg)

/-- `tbframe_alloc_frame` called by the client, which then holds the frame. -/
def clientAlloc (len : ℕ) (isCtrl : Bool) : TxProg Unit := do
  if len = 0 ∨ maxFrame < len then return
  else
    match ← tx (.alloc len isCtrl false) with
    | .error _ => return
    | .ok f => tx (.toClient f)

/-- `tbframe_xmit` called by the client, which keeps the frame on failure. -/
def clientXmit (f : ℕ) : TxProg Unit := do
  let ret ← xmit f false
  Prog.when (ret ≠ 0) (tx (.toClient f))

/-- `tbframe_frame_put_rx` called by the client. -/
def clientPutRx (f : ℕ) : RxProg Unit := do
  let last ← rx (.clientPut f)
  Prog.when last (recycleRx f)

def Entry.prog : Entry → LinkProg Unit
  | .sessionWork => do
    sessionStep cfg
    ctl (.workDone .session)
  | .verifyWork => do
    verifyStep cfg
    ctl (.workDone .verify)
  | .txReleasedWork => do ctl (.workDone .txReleased)
  | .verifyTimer => return
  | .packet m => do
    handlePacket cfg m
    .call (S := linkSig) .putLink
  | .txComplete f canceled => do
    let n ← ctl .turns
    coreTxComplete n f canceled
    .call (S := linkSig) .callbackDone
  | .rxComplete f canceled len pdf bad data => do
    coreRxComplete f canceled len pdf bad data
    .call (S := linkSig) .callbackDone
  | .allocFrame len isCtrl => do clientAlloc len isCtrl
  | .xmit f => do clientXmit f
  | .frameFree f => do Tbframe.frameFree f
  | .putRx f => do clientPutRx f
  | .registerClient => do Tbframe.registerClient
  | .unregisterClient => Tbframe.unregisterClient cfg
  | .serviceRemove isUnplugged => Tbframe.serviceRemove cfg isUnplugged
  | .linkShutdown => Tbframe.linkShutdown cfg
  | .prepareQuiesce removing => Tbframe.prepareQuiesce removing
  | .setShutdownMode => return

/-- The link an event on thread `t` starts from, if the event is possible. -/
def Entry.begin (t : Tid) (l : Link) : Entry → Option Link
  | .sessionWork => startWork .session l
  | .verifyWork => startWork .verify l
  | .txReleasedWork => startWork .txReleased l
  | .verifyTimer =>
      if l.ctl.verifyTimer then
        some (verifyTimerFn { l with ctl := { l.ctl with verifyTimer := false } })
      else none
  | .packet _ =>
      if l.ctl.listed then some (takeDispatch t l) else none
  | .txComplete f canceled => takeFromTxRing t f canceled l
  | .rxComplete f canceled _ _ _ data => takeFromRxRing t f canceled data l
  | .xmit f | .frameFree f => takeFromClient t f l
  | .unregisterClient => if l.ctl.client then some l else none
  | .setShutdownMode => some { l with ctl := { l.ctl with shutdownMode := true } }
  | .serviceRemove _ =>
      if l.ctl.remover = none then some { l with ctl := { l.ctl with remover := some t } } else none
  | .allocFrame _ _ | .putRx _ | .registerClient | .linkShutdown => some l
  | .prepareQuiesce _ => some l

@[reducible]
def linkMachine : Machine Tid Link where
  toSig := linkSig
  Inp := Op.Inp
  run := Op.run cfg
  init l := ∃ random requestSeq autostart, l = linkCreate cfg random requestSeq autostart
  Entry := Entry
  enter t e l := if e.runsOn t then (e.begin t l).map fun l' ↦ (e.prog cfg, l') else none

theorem enter_eq_some {cfg : LinkCfg} {t : Tid} {e : Entry} {l l' : Link} {p : LinkProg Unit}
    (h : (linkMachine cfg).enter t e l = some (p, l')) :
    e.runsOn t ∧ e.begin t l = some l' ∧ p = e.prog cfg := by
  simp only at h
  split at h
  · next hon =>
    obtain ⟨l₁, hbegin, heq⟩ := Option.map_eq_some_iff.1 h
    obtain ⟨rfl, rfl⟩ := Prod.mk.inj heq
    exact ⟨hon, hbegin, rfl⟩
  · cases h

/-- Answers of the environment for an executable schedule: the result of backend calls, the reply
to a request, the random cookie, the turns of a loop, whether a wait for publishers times out, and
whether a walk over the links comes to this link. -/
structure Answers where
  ret : ℤ := 0
  reply : Except ℤ WireMsg := .error einval
  random : UInt64 := 0
  turns : ℕ := 16
  timedOut : Bool := false
  found : Bool := true

def Answers.inp (a : Answers) : (o : Op) → o.Inp
  | .held (.sess o) => by
      cases o with
      | asset o => cases o <;> first | exact a.ret | exact ()
      | _ => first | exact a.random | exact ()
  | .held (.tx o) => by cases o <;> first | exact a.ret | exact ()
  | .held (.rx o) => by cases o <;> first | exact a.ret | exact (0 : ℕ) | exact ()
  | .held (.net o) => by cases o <;> first | exact a.ret | exact a.reply | exact ()
  | .held (.base (.hw o)) => by cases o <;> first | exact a.ret | exact a.timedOut | exact ()
  | .held (.base (.ctl o)) => by
      cases o <;> first | exact a.turns | exact a.found | exact ()
  | .held (.base (.read _)) | .held (.base (.disp _)) => ()
  | .dispatchNext => a.found
  | .lockSession | .unlockSession | .putLink | .putCreated | .callbackDone | .hwDestroy =>
      ()

/-- The link after a section that always succeeds. -/
theorem link_of_run {α : Type} {x : α × Link} {r : α} {l' : Link} (h : some x = some (r, l')) :
    x.2 = l' :=
  congrArg Prod.snd (Option.some.inj h)

end ThunderboltStack.Tbframe
