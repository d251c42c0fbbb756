import ThunderboltStack.Lib.Transition
import ThunderboltStack.Tbnet.Poll

/-!
# Sessions of the network driver

`tbnet_connected_work` and `tbnet_tear_down` run under `connection_lock` from several works, with
login packets, carrier changes and polls in between.  The state has the flags of `struct tbnet` and,
next to them, what they are meant to tell: the input HopIDs taken and given back, the path tuples
that the core owns, and whether the rings run.
-/

namespace ThunderboltStack.Tbnet

open ThunderboltStack.Lib

def euclean : ℤ := -117

/-- The driver and what it owns. -/
structure Net where
  carrier : Bool := false
  requestSent : Bool := false
  peerSeen : Bool := false
  remoteTransmitPath : ℤ := 0
  activeRemoteTransmitPath : ℤ := 0
  sessionActive : Bool := false
  pathsOwned : Bool := false
  resourcesOwned : Bool := false
  rx : Rx
  /-- Input HopIDs that `tb_xdomain_alloc_in_hopid` returned, and those released. -/
  allocated : List ℤ := []
  released : List ℤ := []
  /-- The tuples that are enabled or unresolved, by their receive path. -/
  tuples : List ℤ := []
  ringsRunning : Bool := false
  /-- Rings were started while they ran. -/
  startedTwice : Bool := false
  /-- The number of sessions so far. -/
  sessions : ℕ := 0
  /-- The sessions of the frames in the skb. -/
  parts : List ℕ := []
  /-- For every packet that went to the stack the session, and those of its frames. -/
  delivered : List (ℕ × List ℕ) := []

/-- What the calls of `tbnet_connected_work` return; the buffer allocations succeed or not. -/
structure ConnectAnswers where
  alloc : ℤ
  rxBuffers : Bool := true
  txBuffers : Bool := true
  enable : ℤ := 0

/-- `tb_xdomain_alloc_in_hopid` returns a HopID or an error. -/
def takeHopid (ret : ℤ) (n : Net) : Net :=
  { n with allocated := if 0 ≤ ret then ret :: n.allocated else n.allocated }

def startRings (n : Net) : Net :=
  { n with
    activeRemoteTransmitPath := n.remoteTransmitPath
    startedTwice := n.startedTwice || n.ringsRunning
    ringsRunning := true
    resourcesOwned := true }

/-- The labels `err_*` of `tbnet_connected_work`. -/
def stopRings (n : Net) : Net :=
  { n with
    ringsRunning := false
    released := n.remoteTransmitPath :: n.released
    resourcesOwned := false
    activeRemoteTransmitPath := 0 }

def ownPaths (n : Net) : Net :=
  { n with pathsOwned := true, tuples := n.remoteTransmitPath :: n.tuples }

/-- `tbnet_connected_work`.  Only the work itself turns the carrier on, so it is still off when the
lock is taken. -/
def connectedWork (a : ConnectAnswers) (n : Net) : Net :=
  if n.carrier || !(n.requestSent && n.peerSeen) then n
  else
    let n := takeHopid a.alloc n
    if a.alloc ≠ n.remoteTransmitPath then n
    else
      let n := startRings n
      if !(a.rxBuffers && a.txBuffers) then stopRings n
      else if a.enable = euclean then { ownPaths n with ringsRunning := false }
      else if a.enable ≠ 0 then stopRings n
      else
        { ownPaths n with sessionActive := true, carrier := true, sessions := n.sessions + 1 }

/-- `tb_xdomain_handshake_reset`. -/
def resetLogin (n : Net) : Net :=
  { n with requestSent := false, peerSeen := false }

/-- `tbnet_tear_down` under the lock, where `tb_xdomain_disable_paths` returns `disable`. -/
def tearDown (disable : ℤ) (n : Net) : Net :=
  if n.sessionActive || n.pathsOwned || n.resourcesOwned then
    if n.pathsOwned && disable ≠ 0 then
      { n with ringsRunning := n.ringsRunning && !n.resourcesOwned }
    else
      resetLogin { n with
        tuples := if n.pathsOwned then n.tuples.erase n.activeRemoteTransmitPath else n.tuples
        ringsRunning := n.ringsRunning && !n.resourcesOwned
        released :=
          if n.resourcesOwned then n.activeRemoteTransmitPath :: n.released else n.released
        sessionActive := false
        pathsOwned := false
        resourcesOwned := false
        activeRemoteTransmitPath := 0
        remoteTransmitPath := 0 }
  else resetLogin n

/-- A login request of the peer in `tbnet_handle_packet`. -/
def peerLogin (transmitPath : ℤ) (n : Net) : Net :=
  if n.requestSent && n.peerSeen then resetLogin n
  else { n with peerSeen := true, remoteTransmitPath := transmitPath }

/-- A frame in `tbnet_poll`; a ring that is stopped has none. -/
def pollRing (rf : RxFrame) (n : Net) : Net :=
  if n.ringsRunning then
    let r := pollFrame n.rx rf
    { n with
      rx := r.1
      parts := if r.1.skb.isSome then n.parts ++ [n.sessions] else []
      delivered :=
        if r.2.isSome then (n.sessions, n.parts ++ [n.sessions]) :: n.delivered else n.delivered }
  else n

/-- What happens to the driver.  `tbnet_tear_down` turns the carrier off before it takes the
lock. -/
inductive Event where
  | connected (a : ConnectAnswers)
  | carrierOff
  | tearDown (disable : ℤ)
  | startLogin
  | loginReply
  | peerLogin (transmitPath : ℤ)
  | poll (rf : RxFrame)

def Net.step (n : Net) : Event → Net
  | .connected a => connectedWork a n
  | .carrierOff => { n with carrier := false }
  | .tearDown disable => Tbnet.tearDown disable n
  | .startLogin => resetLogin n
  | .loginReply => { n with requestSent := true }
  | .peerLogin transmitPath => Tbnet.peerLogin transmitPath n
  | .poll rf => pollRing rf n

def driver : System Net Event where
  init n := ∃ hdr, n = { rx := ⟨none, hdr⟩ }
  step n e n' := n' = n.step e

/-- The driver after some events, from a receiver with nothing in it. -/
def after (es : List Event) : Net :=
  es.foldl Net.step { rx := ⟨none, ⟨0, 0, 0, 0⟩⟩ }

def connect : List Event :=
  [.peerLogin 8, .loginReply, .connected { alloc := 8 }]

def Allowed (allowed : Net → Event → Prop) : Net → List Event → Prop
  | _, [] => True
  | n, e :: es => allowed n e ∧ Allowed allowed (n.step e) es

theorem reach_after {allowed : Net → Event → Prop} {es : List Event}
    (h : Allowed allowed (after []) es) : driver.Reach allowed (after es) := by
  have hrun : ∀ es n, driver.Reach allowed n → Allowed allowed n es →
      driver.Reach allowed (es.foldl Net.step n) := by
    intro es
    induction es with
    | nil => exact fun _ hn _ ↦ hn
    | cons e es ih => exact fun n hn hes ↦ ih _ (.next hn hes.1 rfl) hes.2
  exact hrun es _ (.start ⟨_, rfl⟩) h

/-! ## Ownership -/

/-- The flags tell the truth: a HopID is held exactly while `resources_owned`, and it is the active
one; the core owns a tuple exactly while `paths_owned`; the rings were not started twice. -/
structure Net.Truthful (n : Net) : Prop where
  hopids : ∀ h, n.allocated.count h = n.released.count h +
    if n.resourcesOwned ∧ n.activeRemoteTransmitPath = h then 1 else 0
  paths : n.pathsOwned = true ↔ n.tuples ≠ []
  rings : n.startedTwice = false

/-- The work runs while nothing is owned, and what it gets is the HopID that it asked for. -/
def Orderly (n : Net) : Event → Prop
  | .connected a => n.resourcesOwned = false ∧ (a.alloc = n.remoteTransmitPath ↔ 0 ≤ a.alloc)
  | _ => True

/-- What makes the flags truthful in every state. -/
structure Net.Owns (n : Net) : Prop extends n.Truthful where
  tuple : n.tuples = if n.pathsOwned then [n.activeRemoteTransmitPath] else []
  running : n.ringsRunning = true → n.resourcesOwned = true
  owned : n.pathsOwned = true → n.resourcesOwned = true

section Steps

variable {n : Net} {a : ConnectAnswers}

theorem Net.Owns.released (h : n.Owns) (hfree : n.resourcesOwned = false) :
    n.pathsOwned = false ∧ n.ringsRunning = false ∧ n.tuples = [] ∧
      ∀ x, n.allocated.count x = n.released.count x := by
  have hpaths : n.pathsOwned = false :=
    Bool.eq_false_iff.mpr fun hp ↦ Bool.false_ne_true (hfree.symm.trans (h.owned hp))
  have hstopped : n.ringsRunning = false :=
    Bool.eq_false_iff.mpr fun hr ↦ Bool.false_ne_true (hfree.symm.trans (h.running hr))
  exact ⟨hpaths, hstopped, by simpa [hpaths] using h.tuple, by simpa [hfree] using h.hopids⟩

theorem Net.Owns.startRings (h : n.Owns) (hfree : n.resourcesOwned = false)
    (hpath : 0 ≤ n.remoteTransmitPath) :
    (startRings (takeHopid n.remoteTransmitPath n)).Owns := by
  obtain ⟨hpaths, hstopped, htuples, hcount⟩ := h.released hfree
  refine ⟨⟨fun x ↦ ?_, h.paths, ?_⟩, ?_, fun _ ↦ rfl, fun _ ↦ rfl⟩
  · simp [Tbnet.startRings, takeHopid, hpath, List.count_cons, hcount]
  · simp [Tbnet.startRings, takeHopid, h.rings, hstopped]
  · simp [Tbnet.startRings, takeHopid, htuples, hpaths]

theorem Net.Owns.stopRings (h : n.Owns) (howned : n.resourcesOwned = true)
    (hactive : n.activeRemoteTransmitPath = n.remoteTransmitPath) (hpaths : n.pathsOwned = false) :
    (stopRings n).Owns := by
  have htuples : n.tuples = [] := by simpa [hpaths] using h.tuple
  refine ⟨⟨fun x ↦ ?_, h.paths, h.rings⟩, ?_, ?_, ?_⟩
  · simp [Tbnet.stopRings, List.count_cons, h.hopids x, howned, hactive]
  all_goals simp [Tbnet.stopRings, htuples, hpaths]

/-- The connected work keeps the HopID tuples and the flags in step. -/
theorem Net.Owns.connectedWork (h : n.Owns) (hfree : n.resourcesOwned = false)
    (halloc : a.alloc = n.remoteTransmitPath ↔ 0 ≤ a.alloc) : (connectedWork a n).Owns := by
  unfold Tbnet.connectedWork
  split
  · exact h
  dsimp only
  split
  · next hne =>
    have hneg : ¬ 0 ≤ a.alloc := mt halloc.mpr hne
    simpa only [takeHopid, hneg, if_false] using h
  · next heq =>
    have heq : a.alloc = n.remoteTransmitPath := not_not.mp heq
    obtain ⟨hpaths, -, htuples, -⟩ := h.released hfree
    rw [heq]
    have hstart := h.startRings hfree (heq ▸ halloc.mp heq)
    have htuple : (ownPaths (Tbnet.startRings (takeHopid n.remoteTransmitPath n))).tuples =
        [n.remoteTransmitPath] := congrArg (_ :: ·) htuples
    split
    · exact hstart.stopRings rfl rfl hpaths
    split
    · exact ⟨⟨hstart.hopids, by simp [ownPaths], hstart.rings⟩, htuple, by simp, fun _ ↦ rfl⟩
    split
    · exact hstart.stopRings rfl rfl hpaths
    · exact ⟨⟨hstart.hopids, by simp [ownPaths], hstart.rings⟩, htuple, fun _ ↦ rfl,
        fun _ ↦ rfl⟩

/-- A tear-down keeps the HopID tuples and the flags in step, whatever the disconnect returns. -/
theorem Net.Owns.tearDown (h : n.Owns) (disable : ℤ) : (tearDown disable n).Owns := by
  have hstopped : (n.ringsRunning && !n.resourcesOwned) = false := by
    cases hr : n.ringsRunning with
    | false => rfl
    | true => simp [h.running hr]
  have htuples : (if n.pathsOwned then n.tuples.erase n.activeRemoteTransmitPath else n.tuples) =
      [] := by
    rw [h.tuple]
    split <;> simp
  unfold Tbnet.tearDown
  split
  · split
    · exact ⟨⟨h.hopids, h.paths, h.rings⟩, h.tuple, by simp [hstopped], h.owned⟩
    · refine ⟨⟨fun x ↦ ?_, by simp [resetLogin, htuples], h.rings⟩, htuples, ?_,
        by simp [resetLogin]⟩
      · have hcount := h.hopids x
        cases howned : n.resourcesOwned with
        | false => simpa [resetLogin, howned] using hcount
        | true => simp [resetLogin, List.count_cons, hcount, howned]
      · simp [resetLogin, hstopped]
  · exact ⟨⟨h.hopids, h.paths, h.rings⟩, h.tuple, h.running, h.owned⟩

theorem Net.Owns.step (h : n.Owns) {e : Event} (he : Orderly n e) : (n.step e).Owns := by
  cases e with
  | connected a => exact h.connectedWork he.1 he.2
  | tearDown disable => exact h.tearDown disable
  | peerLogin transmitPath =>
    show (Tbnet.peerLogin transmitPath n).Owns
    unfold Tbnet.peerLogin
    split
    all_goals exact ⟨⟨h.hopids, h.paths, h.rings⟩, h.tuple, h.running, h.owned⟩
  | poll rf =>
    show (pollRing rf n).Owns
    unfold pollRing
    split
    all_goals exact ⟨⟨h.hopids, h.paths, h.rings⟩, h.tuple, h.running, h.owned⟩
  | carrierOff | startLogin | loginReply =>
    exact ⟨⟨h.hopids, h.paths, h.rings⟩, h.tuple, h.running, h.owned⟩

end Steps

/-- In every run in which the connected work finds nothing owned and gets the HopID that it asks for
or none, the flags tell the truth in every state. -/
theorem flags_truthful (n : Net) (h : driver.Reach Orderly n) : n.Truthful := by
  have howns : n.Owns := h.invariant (by
    rintro n ⟨hdr, rfl⟩
    exact ⟨⟨by simp, by simp, rfl⟩, rfl, by simp, by simp⟩)
    fun n e n' hn he hstep ↦ hstep ▸ hn.step he
  exact howns.toTruthful

theorem flags_truthful_connected : (after connect).Truthful :=
  flags_truthful _ (reach_after ⟨trivial, trivial, ⟨rfl, by decide⟩, trivial⟩)

/-- Another HopID than the one asked for is never released, and neither is that of a session whose
paths are unresolved when the work runs again for a login with another path. -/
theorem flags_untruthful :
    (∃ n, driver.Reachable n ∧ n.resourcesOwned = false ∧ n.allocated = [9] ∧ n.released = []) ∧
    ∃ n, driver.Reachable n ∧ n.resourcesOwned = true ∧ n.activeRemoteTransmitPath = 9 ∧
      n.allocated = [9, 8] ∧ n.released = [] :=
  ⟨⟨after [.peerLogin 8, .loginReply, .connected { alloc := 9 }], reach_after (by simp [Allowed]),
      by decide⟩,
    ⟨after [.peerLogin 8, .loginReply, .connected { alloc := 8, enable := euclean }, .tearDown (-5),
        .peerLogin 8, .peerLogin 9, .loginReply, .connected { alloc := 9 }],
      reach_after (by simp [Allowed]), by decide⟩⟩

/-- The work runs while nothing is owned, and no packet is partly assembled at a teardown. -/
def Drained (n : Net) : Event → Prop
  | .connected _ => n.resourcesOwned = false
  | .tearDown _ => n.rx.skb = none
  | _ => True

structure Net.Separate (n : Net) : Prop where
  running : n.ringsRunning = true → n.resourcesOwned = true
  fresh : n.ringsRunning = false → n.rx.skb = none
  empty : n.rx.skb = none → n.parts = []
  parts : ∀ p ∈ n.parts, p = n.sessions
  delivered : ∀ d ∈ n.delivered, ∀ p ∈ d.2, p = d.1

section Frames

variable {n : Net} {a : ConnectAnswers}

theorem Net.Separate.fresh_of_free (h : n.Separate) (hfree : n.resourcesOwned = false) :
    n.rx.skb = none :=
  h.fresh (Bool.eq_false_iff.mpr fun hr ↦ Bool.false_ne_true (hfree.symm.trans (h.running hr)))

/-- The connected work does not touch the receiver. -/
theorem connectedWork_rx (a : ConnectAnswers) (n : Net) :
    (connectedWork a n).rx = n.rx ∧ (connectedWork a n).parts = n.parts ∧
      (connectedWork a n).delivered = n.delivered ∧
      ((connectedWork a n).ringsRunning = true → n.ringsRunning = true ∨
        (connectedWork a n).resourcesOwned = true) := by
  unfold connectedWork
  split
  · exact ⟨rfl, rfl, rfl, .inl⟩
  dsimp only
  split
  · exact ⟨rfl, rfl, rfl, .inl⟩
  repeat' split
  all_goals exact ⟨rfl, rfl, rfl, by simp [stopRings, ownPaths, startRings]⟩

theorem Net.Separate.connectedWork (h : n.Separate) (hfree : n.resourcesOwned = false) :
    (connectedWork a n).Separate := by
  obtain ⟨hrx, hparts, hdelivered, hrunning⟩ := connectedWork_rx a n
  have hskb := h.fresh_of_free hfree
  have hnone := h.empty hskb
  refine ⟨fun hr ↦ (hrunning hr).resolve_left fun hn ↦ ?_, fun _ ↦ hrx ▸ hskb,
    fun _ ↦ hparts.trans hnone, ?_, hdelivered ▸ h.delivered⟩
  · exact Bool.false_ne_true (hfree.symm.trans (h.running hn))
  · rw [hparts, hnone]
    exact fun p hp ↦ absurd hp List.not_mem_nil

theorem Net.Separate.tearDown (h : n.Separate) (disable : ℤ) (hskb : n.rx.skb = none) :
    (tearDown disable n).Separate := by
  unfold Tbnet.tearDown
  split
  · split
    · refine ⟨fun hr ↦ h.running ?_, fun _ ↦ hskb, h.empty, h.parts, h.delivered⟩
      exact (Bool.and_eq_true _ _ ▸ hr).1
    · refine ⟨fun hr ↦ ?_, fun _ ↦ hskb, h.empty, h.parts, h.delivered⟩
      have hr : n.ringsRunning = true ∧ n.resourcesOwned = false := by simpa [resetLogin] using hr
      exact absurd (h.running hr.1) (by simp [hr.2])
  · exact ⟨h.running, fun _ ↦ hskb, h.empty, h.parts, h.delivered⟩

theorem Net.Separate.pollRing (h : n.Separate) (rf : RxFrame) : (pollRing rf n).Separate := by
  have hparts : ∀ p ∈ n.parts ++ [n.sessions], p = n.sessions := by
    simpa [or_imp, forall_and] using h.parts
  unfold Tbnet.pollRing
  split
  · next hrunning =>
    refine ⟨h.running, fun hr ↦ absurd (hrunning.symm.trans hr) (by decide), ?_, ?_, ?_⟩
    · simp +contextual
    · dsimp only
      split
      · exact hparts
      · exact fun p hp ↦ absurd hp List.not_mem_nil
    · dsimp only
      split
      · exact List.forall_mem_cons.mpr ⟨hparts, h.delivered⟩
      · exact h.delivered
  · exact h

theorem Net.Separate.step (h : n.Separate) {e : Event} (he : Drained n e) :
    (n.step e).Separate := by
  cases e with
  | connected a => exact h.connectedWork he
  | tearDown disable => exact h.tearDown disable he
  | poll rf => exact h.pollRing rf
  | peerLogin transmitPath =>
    show (Tbnet.peerLogin transmitPath n).Separate
    unfold Tbnet.peerLogin
    split
    all_goals exact ⟨h.running, h.fresh, h.empty, h.parts, h.delivered⟩
  | carrierOff | startLogin | loginReply =>
    exact ⟨h.running, h.fresh, h.empty, h.parts, h.delivered⟩

end Frames

/-- In every run in which the connected work finds nothing owned and no packet is partly assembled
at a teardown, a session starts with an empty receiver, and every packet that is delivered has only
frames of its session. -/
theorem sessions_separate (n : Net) (h : driver.Reach Drained n) :
    (∀ a, Drained n (.connected a) → (connectedWork a n).sessions ≠ n.sessions →
      (connectedWork a n).rx.skb = none) ∧
    ∀ d ∈ n.delivered, ∀ p ∈ d.2, p = d.1 := by
  have hseparate : n.Separate := h.invariant (by
    rintro n ⟨hdr, rfl⟩
    exact ⟨by simp, fun _ ↦ rfl, fun _ ↦ rfl, by simp, by simp⟩)
    fun n e n' hn he hstep ↦ hstep ▸ hn.step he
  refine ⟨fun a hfree _ ↦ ?_, hseparate.delivered⟩
  rw [(connectedWork_rx a n).1]
  exact hseparate.fresh_of_free hfree

def splitFrame (index : ℕ) : RxFrame :=
  { frame := { size := 13, hdr := ⟨1, index, 7, 2⟩, data := [0] } }

theorem sessions_separate_whole : driver.Reach Drained
      (after (connect ++ [.poll (splitFrame 0), .poll (splitFrame 1), .tearDown 0])) ∧
    ∀ d ∈ (after (connect ++ [.poll (splitFrame 0), .poll (splitFrame 1), .tearDown 0])).delivered,
      ∀ p ∈ d.2, p = d.1 := by
  have hrun : driver.Reach Drained
      (after (connect ++ [.poll (splitFrame 0), .poll (splitFrame 1), .tearDown 0])) :=
    reach_after ⟨trivial, trivial, rfl, trivial, trivial, rfl, trivial⟩
  exact ⟨hrun, (sessions_separate _ hrun).2⟩

/-- A session ends between the two frames of a packet.  The next one starts with the first frame in
the receiver and delivers it with a frame of its own. -/
theorem sessions_mixed :
    ∃ n, driver.Reachable n ∧ n.sessions = 2 ∧ n.rx.skb.isSome = true ∧
      (n.step (.poll (splitFrame 1))).delivered = [(2, [1, 2])] :=
  ⟨after (connect ++ [.poll (splitFrame 0), .carrierOff, .tearDown 0] ++ connect),
    reach_after (by simp [Allowed, connect]), by decide⟩

end ThunderboltStack.Tbnet
