import ThunderboltStack.Lib.Clock
import ThunderboltStack.Lib.Observe

/-!
# Lane edges on stuck ports

`tb_reconcile_work` of `tb.c` looks at the lane state of each port of the host from time to time.
Where nothing is enumerated and the lanes are stuck, `tb_port_plug_retrain` disables and enables
them.  Such an edge must not disturb the firmware, so it is made only if nothing happened for a
while: the sampled state did not change, nothing was torn down, and there was no edge before.

With a peer below the port its lanes are only touched to detect it anew, when it is gone.

One port is modelled, with the hints of the firmware.  The reconciliation of the other ports and the
recovery of a second lane are seen only in what they do to this port.
-/

namespace ThunderboltStack.Cm

open ThunderboltStack.Lib

/-- `enum tb_port_state`. -/
inductive LaneState where
  | disabled
  | connecting
  | up
  | txCl0s
  | rxCl0s
  | cl1
  | cl2
  | unplugged
  | other (code : ℕ)
  deriving DecidableEq

def LaneState.present : LaneState → Bool
  | .up | .txCl0s | .rxCl0s | .cl1 | .cl2 => true
  | _ => false

/-- `TB_RECONCILE_*`: the edge that was synthesized. -/
inductive Synth where
  | none
  | unplug
  | plug
  deriving DecidableEq

/-- `TB_REPLUG_*`. -/
inductive ReplugPhase where
  | idle
  | teardown
  | held
  deriving DecidableEq

inductive Below where
  | nothing
  | router
  | xdomain (isUnplugged : Bool)
  deriving DecidableEq

/-- `HZ`. -/
structure Tick where
  hz : ℕ
  small : hz ≤ 10000

namespace Tick

variable (c : Tick)

/-- `msecs_to_jiffies`. -/
def msecs (ms : ℕ) : ℕ := (ms * c.hz + 999) / 1000

/-- `TB_PLUG_RETRAIN_QUIET_MS`. -/
def quiet : ℕ := c.msecs 10000

/-- `TB_PLUG_RETRAIN_HINT_MAX_MS`. -/
def hintMax : ℕ := c.msecs 60000

/-- `TB_PLUG_RETRAIN_IDLE_RESET_MS`. -/
def idleReset : ℕ := c.msecs 30000

/-- `TB_PLUG_RETRAIN_SELF_MS`. -/
def self : ℕ := c.msecs 5000

/-- `TB_CONNECTOR_REPLUG_HOLD_MS`. -/
def replugHold : ℕ := c.msecs 12000

end Tick

def retrainMaxAttempts : ℕ := 3

/-- `struct tb_port`, what the reconciliation keeps. -/
structure RetrainPort where
  below : Below := .nothing
  reconcileSynth : Synth := .none
  retrainLastState : LaneState := .disabled
  retrainStateSince : UInt64 := 0
  retrainTeardown : UInt64 := 0
  retrainLastAttempt : UInt64 := 0
  plugSynthAt : UInt64 := 0
  retrainAttempts : ℕ := 0
  replugPhase : ReplugPhase := .idle
  replugHoldSince : UInt64 := 0
  replugLastAttempt : UInt64 := 0

/-- A port, the hints of the firmware in `struct tb_cm`, and the time. -/
structure RetrainState where
  now : ℕ
  port : RetrainPort := {}
  icmHint : Bool := false
  icmHintAt : UInt64 := 0
  lastRetrainAt : UInt64 := 0

/-- What a pass finds: the state of the lane, unless the port is skipped or the state cannot be
read; whether there is a second lane, the peer answers, retraining is enabled and the lanes can be
disabled; and what the recovery of the second lane does. -/
structure Pass where
  state : Option LaneState
  lane1 : Bool := true
  reachable : Bool := false
  plugRetrain : Bool := true
  canDisable : Bool := true
  lane1Edge : Bool := false
  replug : Bool := false

/-- What a pass does to the port: an edge on its lanes, or the teardown of what is enumerated. -/
structure PassDone where
  edge : Bool := false
  teardown : Bool := false

namespace RetrainState

variable (c : Tick) (io : Pass) (state : LaneState) (s : RetrainState)

def jiffies : UInt64 := UInt64.ofNat s.now

def within (stamp : UInt64) (distance : ℕ) : Bool :=
  timeBefore s.jiffies (stamp + UInt64.ofNat distance)

def sample : RetrainState :=
  if state = s.port.retrainLastState then s
  else { s with port := { s.port with retrainLastState := state, retrainStateSince := s.jiffies } }

def setSynth (synth : Synth) : RetrainState :=
  { s with port := { s.port with reconcileSynth := synth } }

/-- The lane of an unplugged port is touched once for each notification of the firmware that is
neither fresh nor old. -/
def hinted : Bool :=
  s.icmHint && !s.within s.icmHintAt c.quiet &&
    !timeAfter s.jiffies (s.icmHintAt + UInt64.ofNat c.hintMax) &&
    !timeAfterEq s.port.retrainLastAttempt s.icmHintAt

def attemptLeft : Bool :=
  s.port.retrainAttempts < retrainMaxAttempts ||
    (state = .unplugged &&
      timeAfter s.jiffies (s.port.retrainStateSince + UInt64.ofNat c.idleReset))

/-- The checks of `tb_port_plug_retrain`. -/
def mayRetrain : Bool :=
  io.plugRetrain && (state = .connecting || state = .unplugged) &&
    !s.within s.port.retrainStateSince c.quiet && !s.within s.port.retrainTeardown c.quiet &&
    !s.within s.port.retrainLastAttempt c.quiet && (state ≠ .unplugged || s.hinted c) &&
    s.attemptLeft c state

def portPlugRetrain : RetrainState × PassDone :=
  if s.mayRetrain c io state then
    ({ s with
        port :=
          { s.port with
            retrainAttempts :=
              if s.port.retrainAttempts < retrainMaxAttempts then s.port.retrainAttempts + 1 else 1
            retrainLastAttempt := s.jiffies }
        lastRetrainAt := s.jiffies }, { edge := true })
  else (s, {})

def portConnectorReplugStep : RetrainState :=
  if !io.lane1 then { s with port := { s.port with replugPhase := .idle } }
  else
    match s.port.replugPhase with
    | .idle => s
    | .teardown =>
      if s.port.below ≠ .nothing then
        if timeAfter s.jiffies (s.port.replugLastAttempt + UInt64.ofNat c.quiet) then
          { s with port := { s.port with replugPhase := .idle } }
        else s
      else if !io.canDisable then { s with port := { s.port with replugPhase := .idle } }
      else
        { s with
          port := { s.port with replugHoldSince := s.jiffies, replugPhase := .held }
          lastRetrainAt := s.jiffies }
    | .held =>
      if s.within s.port.replugHoldSince c.replugHold then s
      else if s.icmHint && s.within s.icmHintAt c.quiet then s
      else
        { s with
          port :=
            { s.port with
              replugLastAttempt := s.jiffies
              retrainStateSince := s.jiffies
              replugPhase := .idle }
          lastRetrainAt := s.jiffies }

/-- `tb_port_lane1_recover`, what it does to the port. -/
def portLane1Recover : RetrainState :=
  if io.replug then
    { s with
      port :=
        { s.port with
          replugLastAttempt := s.jiffies, replugPhase := .teardown, reconcileSynth := .unplug }
      lastRetrainAt := s.jiffies }
  else if io.lane1Edge then { s with lastRetrainAt := s.jiffies }
  else s

def lostPlug : RetrainState :=
  let s := { s with port := { s.port with retrainAttempts := 0 } }
  if s.port.reconcileSynth = .plug ∧ s.within s.port.plugSynthAt c.quiet then s
  else { s with port := { s.port with reconcileSynth := .plug, plugSynthAt := s.jiffies } }

/-- Something is enumerated but the lane is unplugged, or the XDomain is condemned. -/
def lostUnplug (condemned : Bool) : RetrainState × PassDone :=
  if s.port.reconcileSynth = .unplug then (s, {})
  else if !condemned && io.reachable then (s.setSynth .none, {})
  else
    ({ s with
        port := { s.port with reconcileSynth := .unplug, retrainTeardown := s.jiffies } },
      { teardown := true })

/-- One port of `tb_reconcile_work`, with the state of its lane. -/
def reconcilePort : RetrainState × PassDone :=
  if s.port.replugPhase ≠ .idle then (s.portConnectorReplugStep c io, {})
  else
    match s.port.below with
    | .nothing =>
      if state.present then (s.lostPlug c, {})
      else if state = .connecting ∨ state = .unplugged then
        (s.setSynth .none).portPlugRetrain c io state
      else (s.setSynth .none, {})
    | .router =>
      if state = .unplugged then s.lostUnplug io false
      else if state.present then ((s.setSynth .none).portLane1Recover io, {})
      else (s.setSynth .none, {})
    | .xdomain isUnplugged =>
      if state = .unplugged ∨ isUnplugged then s.lostUnplug io isUnplugged
      else (s.setSynth .none, {})

/-- A pass of `tb_reconcile_work`. -/
def reconcile : RetrainState × PassDone :=
  match io.state with
  | none => (s, {})
  | some state => (s.sample state).reconcilePort c io state

end RetrainState

/-! ## Runs -/

def Below.removed : Below → Below → Bool
  | .nothing, _ | .router, .router | .xdomain _, .xdomain _ => false
  | _, _ => true

/-- What happens: time passes, a pass of the reconciliation, the handling of an unplug event, which
keeps a router whose tunnels cannot be torn down, and a notification of the firmware.  `enumerate`
is every other change of what is enumerated: a scan, in which a router may replace an XDomain,
`tb_free_unplugged_children` and `tb_free_unplugged_xdomains`. -/
inductive RetrainEvent where
  | tick (n : ℕ)
  | pass (io : Pass)
  | unplug (failed : Bool)
  | enumerate (below : Below)
  | icmEvent

def RetrainState.step (c : Tick) (s : RetrainState) : RetrainEvent → RetrainState × PassDone
  | .tick n => ({ s with now := s.now + n }, {})
  | .pass io => s.reconcile c io
  | .unplug failed =>
    ({ s with
        port :=
          { s.port with
            retrainTeardown := s.jiffies
            below := if failed ∧ s.port.below = .router then .router else .nothing } },
      { teardown := true })
  | .enumerate below =>
    -- nobody stamps `retrain_teardown` here
    ({ s with port := { s.port with below } }, { teardown := s.port.below.removed below })
  | .icmEvent =>
    if !s.within s.lastRetrainAt c.self || s.lastRetrainAt = 0 then
      ({ s with icmHint := true, icmHintAt := s.jiffies }, {})
    else (s, {})

/-- An edge, and what came before it: the last change of the sampled state, the last teardown, and
the edge before. -/
structure Edge where
  time : ℕ
  changed : ℕ
  torn : ℕ
  previous : ℕ

/-- The last change of the sampled state, the last teardown, the last edge, and the edges of the
run, the latest first. -/
structure EdgeLog where
  changed : ℕ
  torn : ℕ
  last : ℕ
  edges : List Edge := []

def RetrainState.changes (s : RetrainState) : RetrainEvent → Bool
  | .pass io => io.state.any fun state ↦ state ≠ s.port.retrainLastState
  | _ => false

def EdgeLog.record (o : EdgeLog) (now : ℕ) (done : PassDone) : EdgeLog :=
  let torn := if done.teardown then now else o.torn
  if done.edge then
    { o with torn, last := now, edges := ⟨now, o.changed, torn, o.last⟩ :: o.edges }
  else { o with torn }

def seeEdges (c : Tick) (s : RetrainState) (l : RetrainEvent) (o : EdgeLog) : EdgeLog :=
  EdgeLog.record { o with changed := if s.changes l then s.now else o.changed } s.now (s.step c l).2

/-- The runs of a port, from a time when the stamps of the port were taken as the log says. -/
def retrainSystem (c : Tick) (start : EdgeLog) : System RetrainState RetrainEvent where
  init s :=
    start.edges = [] ∧ Stamped s.port.retrainStateSince start.changed s.now ∧
      Stamped s.port.retrainTeardown start.torn s.now ∧
      Stamped s.port.retrainLastAttempt start.last s.now
  step s l s' := s' = (s.step c l).1

def retrainExec (c : Tick) (start : EdgeLog) : (retrainSystem c start).Exec where
  Act := RetrainEvent
  step s l := some (l, (s.step c l).1)
  sound {s l l' s'} h := by
    obtain ⟨rfl, rfl⟩ := Prod.mk.inj (Option.some.inj h)
    rfl

namespace RetrainState

variable {c : Tick} {io : Pass} {state : LaneState} {s : RetrainState} {r : RetrainState × PassDone}

structure PassSpec (c : Tick) (s : RetrainState) (r : RetrainState × PassDone) : Prop where
  now : r.1.now = s.now
  since : r.1.port.retrainStateSince = s.port.retrainStateSince ∨
    r.1.port.retrainStateSince = s.jiffies
  teardown : r.1.port.retrainTeardown = if r.2.teardown then s.jiffies else s.port.retrainTeardown
  attempt : r.1.port.retrainLastAttempt = if r.2.edge then s.jiffies else s.port.retrainLastAttempt
  quiet : r.2.edge = true → r.2.teardown = false ∧
    s.within s.port.retrainStateSince c.quiet = false ∧
    s.within s.port.retrainTeardown c.quiet = false ∧
    s.within s.port.retrainLastAttempt c.quiet = false

/-- A pass without an edge and without a teardown that does not move the stamps. -/
theorem PassSpec.of_same {s' : RetrainState} (hnow : s'.now = s.now)
    (hsince : s'.port.retrainStateSince = s.port.retrainStateSince ∨
      s'.port.retrainStateSince = s.jiffies)
    (hteardown : s'.port.retrainTeardown = s.port.retrainTeardown)
    (hattempt : s'.port.retrainLastAttempt = s.port.retrainLastAttempt) :
    PassSpec c s (s', {}) :=
  ⟨hnow, hsince, hteardown, hattempt, fun h ↦ absurd h Bool.false_ne_true⟩

theorem passSpec_setSynth {synth : Synth} : PassSpec c s (s.setSynth synth, {}) :=
  .of_same rfl (Or.inl rfl) rfl rfl

theorem passSpec_portPlugRetrain {synth : Synth} :
    PassSpec c s ((s.setSynth synth).portPlugRetrain c io state) := by
  unfold portPlugRetrain
  split
  next hmay =>
    refine ⟨rfl, Or.inl rfl, rfl, rfl, fun _ ↦ ⟨rfl, ?_⟩⟩
    simp only [mayRetrain, Bool.and_eq_true, Bool.not_eq_true'] at hmay
    exact ⟨hmay.1.1.1.1.2, hmay.1.1.1.2, hmay.1.1.2⟩
  next => exact passSpec_setSynth

theorem passSpec_portConnectorReplugStep :
    PassSpec c s (s.portConnectorReplugStep c io, {}) := by
  unfold portConnectorReplugStep
  split
  · exact .of_same rfl (Or.inl rfl) rfl rfl
  · split
    · exact .of_same rfl (Or.inl rfl) rfl rfl
    · split_ifs <;> exact .of_same rfl (Or.inl rfl) rfl rfl
    · split_ifs
      · exact .of_same rfl (Or.inl rfl) rfl rfl
      · exact .of_same rfl (Or.inl rfl) rfl rfl
      · exact .of_same rfl (Or.inr rfl) rfl rfl

theorem passSpec_portLane1Recover {synth : Synth} :
    PassSpec c s ((s.setSynth synth).portLane1Recover io, {}) := by
  unfold portLane1Recover
  split_ifs <;> exact .of_same rfl (Or.inl rfl) rfl rfl

theorem passSpec_lostPlug : PassSpec c s (s.lostPlug c, {}) := by
  unfold lostPlug
  dsimp only
  split_ifs <;> exact .of_same rfl (Or.inl rfl) rfl rfl

theorem passSpec_lostUnplug {condemned : Bool} : PassSpec c s (s.lostUnplug io condemned) := by
  unfold lostUnplug
  split_ifs
  · exact .of_same rfl (Or.inl rfl) rfl rfl
  · exact passSpec_setSynth
  · exact ⟨rfl, Or.inl rfl, rfl, rfl, fun h ↦ absurd h Bool.false_ne_true⟩

theorem passSpec_reconcilePort : PassSpec c s (s.reconcilePort c io state) := by
  unfold reconcilePort
  split
  · exact passSpec_portConnectorReplugStep
  · split
    · split_ifs
      · exact passSpec_lostPlug
      · exact passSpec_portPlugRetrain
      · exact passSpec_setSynth
    · split_ifs
      · exact passSpec_lostUnplug
      · exact passSpec_portLane1Recover
      · exact passSpec_setSynth
    · split_ifs
      · exact passSpec_lostUnplug
      · exact passSpec_setSynth

/-- What is enumerated is only removed by the handling of an unplug event. -/
def stampsRemoval (s : RetrainState) : RetrainEvent → Prop
  | .enumerate below => s.port.below.removed below = false
  | _ => True

/-- The stamps of the port were taken when the log says, and the edges of the log are quiet.
`stamped` is the case that all teardowns are stamped. -/
structure Logged (c : Tick) (stamped : Prop) (s : RetrainState) (o : EdgeLog) : Prop where
  changed : Stamped s.port.retrainStateSince o.changed s.now
  torn : stamped → Stamped s.port.retrainTeardown o.torn s.now
  last : Stamped s.port.retrainLastAttempt o.last s.now
  head : ∀ e ∈ o.edges.head?, e.time = o.last
  spaced : Spaced c.quiet (o.edges.map Edge.time)
  quiet : ∀ e ∈ o.edges, e.changed + c.quiet ≤ e.time ∧ e.previous + c.quiet ≤ e.time ∧
    (stamped → e.torn + c.quiet ≤ e.time)

theorem quiet_le (c : Tick) : c.quiet ≤ 2 ^ 63 := by
  have hsmall := c.small
  unfold Tick.quiet Tick.msecs
  omega

variable {o : EdgeLog} {l : RetrainEvent} {stamped : Prop}

def sampled (s : RetrainState) : RetrainEvent → RetrainState
  | .pass io => io.state.elim s s.sample
  | _ => s

/-- Every event other than time and enumeration is a pass over its sample. -/
theorem passSpec_step (htick : ∀ n, l ≠ .tick n) (hscan : ∀ below, l ≠ .enumerate below) :
    PassSpec c (s.sampled l) (s.step c l) := by
  cases l with
  | tick n => exact absurd rfl (htick n)
  | enumerate below => exact absurd rfl (hscan below)
  | pass io =>
    cases hstate : io.state with
    | none =>
      simp only [step, reconcile, sampled, hstate, Option.elim_none]
      exact .of_same rfl (Or.inl rfl) rfl rfl
    | some state =>
      simp only [step, reconcile, sampled, hstate, Option.elim_some]
      exact passSpec_reconcilePort
  | unplug failed => exact ⟨rfl, Or.inl rfl, rfl, rfl, fun h ↦ absurd h Bool.false_ne_true⟩
  | icmEvent =>
    simp only [step]
    split
    · exact .of_same rfl (Or.inl rfl) rfl rfl
    · exact .of_same rfl (Or.inl rfl) rfl rfl

/-- A sample that differs from the one before is stamped. -/
theorem logged_sample (h : Logged c stamped s o) :
    Logged c stamped (s.sampled l) { o with changed := if s.changes l then s.now else o.changed } ∧
      (s.sampled l).now = s.now := by
  have hsame : s.sampled l = s → s.changes l = false →
      Logged c stamped (s.sampled l) { o with changed := if s.changes l then s.now else o.changed } ∧
        (s.sampled l).now = s.now := by
    intro hs hchanges
    simp only [hs, hchanges, Bool.false_eq_true, if_false]
    exact ⟨h, trivial⟩
  cases l with
  | pass io =>
    cases hstate : io.state with
    | none => exact hsame (by simp [sampled, hstate]) (by simp [changes, hstate])
    | some state =>
      by_cases heq : state = s.port.retrainLastState
      · exact hsame (by simp [sampled, hstate, sample, heq]) (by simp [changes, hstate, heq])
      · simp only [sampled, hstate, Option.elim_some, sample, heq, if_false, changes,
          Option.any_some, ne_eq, not_false_eq_true, decide_true, if_true]
        exact ⟨⟨.now s.now, h.torn, h.last, h.head, h.spaced, h.quiet⟩, trivial⟩
  | _ => exact hsame rfl rfl

/-- The log stays true when the teardown and the edge of a pass are recorded. -/
theorem logged_record (h : Logged c stamped s o) (hr : PassSpec c s r) :
    Logged c stamped r.1 (o.record s.now r.2) := by
  have hchanged : Stamped r.1.port.retrainStateSince o.changed r.1.now := by
    rw [hr.now]
    rcases hr.since with hsince | hsince
    · rw [hsince]
      exact h.changed
    · obtain ⟨taken, htime, hnow, -⟩ := h.changed
      rw [hsince]
      exact ⟨s.now, htime.trans hnow, le_rfl, rfl⟩
  have htorn (hstamped : stamped) :
      Stamped r.1.port.retrainTeardown (if r.2.teardown then s.now else o.torn) r.1.now := by
    rw [hr.now, hr.teardown]
    split
    · exact .now s.now
    · exact h.torn hstamped
  have hlast : Stamped r.1.port.retrainLastAttempt (if r.2.edge then s.now else o.last)
      r.1.now := by
    rw [hr.now, hr.attempt]
    split
    · exact .now s.now
    · exact h.last
  unfold EdgeLog.record
  by_cases hedge : r.2.edge = true
  · obtain ⟨hteardown, hsince, htornQuiet, hlastQuiet⟩ := hr.quiet hedge
    have hlastLe : o.last + c.quiet ≤ s.now := h.last.le_of_not_before (quiet_le c) hlastQuiet
    simp only [hedge, if_true] at hlast ⊢
    refine ⟨hchanged, htorn, hlast, ?_, ?_, ?_⟩
    · intro e he
      rw [← Option.some.inj he]
    · apply h.spaced.cons
      intro time htime
      rw [List.head?_map] at htime
      obtain ⟨e, he, rfl⟩ := Option.map_eq_some_iff.1 htime
      rw [h.head e he]
      exact hlastLe
    · intro e he
      rcases List.mem_cons.1 he with rfl | he
      · simp only [hteardown, Bool.false_eq_true, if_false]
        exact ⟨h.changed.le_of_not_before (quiet_le c) hsince, hlastLe,
          fun hstamped ↦ (h.torn hstamped).le_of_not_before (quiet_le c) htornQuiet⟩
      · exact h.quiet e he
  · simp only [hedge] at hlast ⊢
    exact ⟨hchanged, htorn, hlast, h.head, h.spaced, h.quiet⟩

/-- Every event keeps the log true. -/
theorem logged_step (h : Logged c stamped s o) (hstamps : stamped → s.stampsRemoval l) :
    Logged c stamped (s.step c l).1 (seeEdges c s l o) := by
  have hpass (htick : ∀ n, l ≠ .tick n) (hscan : ∀ below, l ≠ .enumerate below) :
      Logged c stamped (s.step c l).1 (seeEdges c s l o) := by
    obtain ⟨hsampled, hnow⟩ := logged_sample (l := l) h
    have hspec : PassSpec c (s.sampled l) (s.step c l) := passSpec_step htick hscan
    unfold seeEdges
    rw [← hnow] at hsampled ⊢
    exact logged_record hsampled hspec
  cases l with
  | tick n =>
    have hle : s.now ≤ s.now + n := Nat.le_add_right _ _
    exact ⟨h.changed.later hle, fun hstamped ↦ (h.torn hstamped).later hle, h.last.later hle,
      h.head, h.spaced, h.quiet⟩
  | enumerate below =>
    -- a removal moves the log but not the stamp
    refine ⟨h.changed, fun hstamped ↦ ?_, h.last, h.head, h.spaced, h.quiet⟩
    have hkept : s.port.below.removed below = false := hstamps hstamped
    simp only [step, seeEdges, EdgeLog.record, hkept, Bool.false_eq_true, if_false]
    exact h.torn hstamped
  | _ => exact hpass (by simp) (by simp)

end RetrainState

theorem Tick.idleReset_eq (c : Tick) : c.idleReset = retrainMaxAttempts * c.quiet := by
  unfold Tick.idleReset Tick.quiet Tick.msecs retrainMaxAttempts
  omega

section Run

variable {c : Tick} {start : EdgeLog} {q : RetrainState × EdgeLog}
  {allowed : RetrainState × EdgeLog → RetrainEvent → Prop}

/-- In every window of the idle reset there are at most three edges, and every edge comes when the
quiet time has passed since the last change of the sampled state and the edge before.  It has also
passed since the last teardown, if only the handling of unplug events removes what is enumerated. -/
theorem retrain_edges_bounded
    (hreach : ((retrainSystem c start).observe start (seeEdges c)).Reach allowed q) :
    (∀ t, ((q.2.edges.map Edge.time).filter
        fun time ↦ t ≤ time ∧ time < t + c.idleReset).length ≤ retrainMaxAttempts) ∧
      ∀ e ∈ q.2.edges, e.changed + c.quiet ≤ e.time ∧ e.previous + c.quiet ≤ e.time ∧
        ((∀ q l, allowed q l → q.1.stampsRemoval l) → e.torn + c.quiet ≤ e.time) := by
  have hlogged : RetrainState.Logged c (∀ q l, allowed q l → q.1.stampsRemoval l) q.1 q.2 := by
    apply hreach.observe_invariant
      (I := RetrainState.Logged c (∀ q l, allowed q l → q.1.stampsRemoval l))
    · rintro s ⟨hedges, hchanged, htorn, hlast⟩
      refine ⟨hchanged, fun _ ↦ htorn, hlast, ?_, ?_, ?_⟩
      · simp [hedges]
      · simp [hedges, Spaced]
      · simp [hedges]
    · intro s o l s' _ hI hallowed hstep
      rw [hstep]
      exact RetrainState.logged_step hI fun hstamped ↦ hstamped _ _ hallowed
  refine ⟨fun t ↦ ?_, hlogged.quiet⟩
  rw [c.idleReset_eq]
  exact hlogged.spaced.length_window_le t retrainMaxAttempts

end Run

/-- The runs of a port from the time 0, with `HZ` 1000. -/
abbrev loggedRuns : System (RetrainState × EdgeLog) RetrainEvent :=
  (retrainSystem ⟨1000, by decide⟩ ⟨0, 0, 0, []⟩).observe ⟨0, 0, 0, []⟩ (seeEdges ⟨1000, by decide⟩)

/-- A port that is stuck gets two edges. -/
theorem retrain_edges_bounded_stuck :
    ∃ q, loggedRuns.Reachable q ∧ q.2.edges.map Edge.time = [40000, 30000] ∧
      ∀ e ∈ q.2.edges, e.torn + 10000 ≤ e.time := by
  obtain ⟨q, hreach, hgoal⟩ := System.Exec.reach_of_play
    ((retrainExec ⟨1000, by decide⟩ ⟨0, 0, 0, []⟩).observe : loggedRuns.Exec)
    (fun _ l ↦ l matches .tick _ | .pass _) (fun q ↦ q.2.edges.map Edge.time == [40000, 30000])
    [.tick 20000, .pass { state := some .connecting }, .tick 10000,
      .pass { state := some .connecting }, .tick 10000, .pass { state := some .connecting }]
    (s := ({ now := 0 }, ⟨0, 0, 0, []⟩)) ⟨⟨rfl, .now 0, .now 0, .now 0⟩, rfl⟩ (by decide +kernel)
  refine ⟨q, hreach.mono fun _ _ _ ↦ trivial, beq_iff_eq.1 hgoal, fun e he ↦ ?_⟩
  refine ((retrain_edges_bounded hreach).2 e he).2.2 fun q l hallowed ↦ ?_
  cases l <;> trivial

/-- A router whose unplug event could not tear down its tunnels is removed half a minute later, and
one second after that the port gets an edge. -/
theorem edge_after_removal : ∃ q, loggedRuns.Reachable q ∧
    ∃ e ∈ q.2.edges, e.time = 31000 ∧ e.torn = 30000 := by
  obtain ⟨q, hreach, hgoal⟩ := System.Exec.reach_of_play
    ((retrainExec ⟨1000, by decide⟩ ⟨0, 0, 0, []⟩).observe : loggedRuns.Exec) (fun _ _ ↦ true)
    (fun q ↦ q.2.edges.any fun e ↦ e.time == 31000 && e.torn == 30000)
    [.pass { state := some .connecting }, .unplug true, .tick 30000, .enumerate .nothing,
      .tick 1000, .pass { state := some .connecting }]
    (s := ({ now := 0, port := { below := .router } }, ⟨0, 0, 0, []⟩))
    ⟨⟨rfl, .now 0, .now 0, .now 0⟩, rfl⟩ (by decide +kernel)
  simp only [List.any_eq_true, Bool.and_eq_true, beq_iff_eq] at hgoal
  exact ⟨q, hreach.mono fun _ _ _ ↦ trivial, hgoal⟩

/-! ## Lanes that carry a peer -/

/-- `port_retrain` and `force_sw_cm`, and the state that `tb_port_kick_detection` reads. -/
structure Kick where
  portRetrain : Bool := true
  forceSwCm : Bool := false
  state : LaneState := .unplugged

/-- `tb_port_kick_detection` gets to the lanes. -/
def Kick.disables (k : Kick) : Bool :=
  k.portRetrain && !k.forceSwCm && k.state = .unplugged

namespace RetrainState

/-- A pass calls `tb_port_disable` for the primary lane: for a retrain, in the kick that follows a
synthesized unplug of an unplugged lane, or when a replug finds nothing enumerated any more. -/
def disablesPrimary (c : Tick) (io : Pass) (k : Kick) (s : RetrainState) : Bool :=
  io.state.any fun state ↦
    let s := s.sample state
    let done := (s.reconcilePort c io state).2
    done.edge || (done.teardown && state = .unplugged && k.disables) ||
      (s.port.replugPhase = .teardown && io.lane1 && s.port.below = .nothing)

theorem below_sample (s : RetrainState) (state : LaneState) :
    (s.sample state).port.below = s.port.below := by
  unfold sample
  split <;> rfl

/-- With something enumerated a pass makes no edge, and tears down only what does not answer or is
condemned. -/
theorem reconcilePort_peer (c : Tick) (io : Pass) (state : LaneState) {s : RetrainState}
    (hbelow : s.port.below ≠ .nothing) :
    (s.reconcilePort c io state).2.edge = false ∧
      ((s.reconcilePort c io state).2.teardown = true →
        io.reachable = false ∨ s.port.below = .xdomain true) := by
  have hlost (condemned : Bool) : (s.lostUnplug io condemned).2.edge = false ∧
      ((s.lostUnplug io condemned).2.teardown = true →
        io.reachable = false ∨ condemned = true) := by
    unfold lostUnplug
    cases condemned <;> cases io.reachable <;> split <;> simp
  unfold reconcilePort
  split
  · simp
  cases hport : s.port.below with
  | nothing => exact absurd hport hbelow
  | router =>
    dsimp only
    split_ifs
    · simpa using hlost false
    all_goals simp
  | xdomain isUnplugged =>
    dsimp only
    split_ifs
    · simpa using hlost isUnplugged
    · simp

end RetrainState

/-- The primary lane of a port with something enumerated is disabled only in a pass that sampled it
unplugged and whose probe of the peer failed, or for a condemned XDomain. -/
theorem peer_lane_disabled_only (c : Tick) (io : Pass) (k : Kick) (s : RetrainState)
    (hbelow : s.port.below ≠ .nothing) (h : s.disablesPrimary c io k = true) :
    io.state = some .unplugged ∧ (io.reachable = false ∨ s.port.below = .xdomain true) := by
  obtain ⟨state, hstate, h⟩ := (Option.any_eq_true _ _).mp h
  rw [← s.below_sample state] at hbelow
  obtain ⟨hedge, hteardown⟩ := RetrainState.reconcilePort_peer c io state hbelow
  simp only [hedge, hbelow, Bool.false_or, decide_false, Bool.and_false, Bool.or_false,
    Bool.and_eq_true, decide_eq_true_eq] at h
  rw [s.below_sample] at hteardown
  exact ⟨h.1.2 ▸ hstate, hteardown h.1.1⟩

theorem peer_lane_disabled_dead : RetrainState.disablesPrimary ⟨1000, by decide⟩
      { state := some .unplugged } {} { now := 0, port := { below := .router } } = true ∧
    (some LaneState.unplugged = some .unplugged ∧
      (false = false ∨ Below.router = .xdomain true)) :=
  ⟨by decide, peer_lane_disabled_only ⟨1000, by decide⟩ { state := some .unplugged } {}
    { now := 0, port := { below := .router } } (by decide) (by decide)⟩

/-- A condemned XDomain is not probed: a peer that answers does not keep the lane from being
disabled. -/
theorem condemned_lane_disabled : RetrainState.disablesPrimary ⟨1000, by decide⟩
    { state := some .unplugged, reachable := true } {}
    { now := 0, port := { below := .xdomain true } } = true := by
  decide

end ThunderboltStack.Cm
