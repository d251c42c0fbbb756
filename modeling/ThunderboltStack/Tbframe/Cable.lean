import ThunderboltStack.Tbframe.Negotiation

/-!
# Two links joined by a cable

The product of two link machines.  A control message that reaches one end was sent by the other end
at some time before; it may be delayed, duplicated, reordered or lost.
-/

namespace ThunderboltStack.Tbframe

open ThunderboltStack.Lib

inductive Side
  | a
  | b
  deriving DecidableEq

def Side.other : Side → Side
  | .a => .b
  | .b => .a

abbrev Ends (cfg : Side → LinkCfg) : Type :=
  ∀ x, (linkMachine (cfg x)).Config

abbrev EndStep (cfg : Side → LinkCfg) : Type :=
  Σ x, (linkMachine (cfg x)).Label

def cable (cfg : Side → LinkCfg) : System (Ends cfg) (EndStep cfg) :=
  .pi fun x ↦ (linkMachine (cfg x)).system

/-- The control message of a step, if there is one, was sent by the other end. -/
def carried {cfg : Side → LinkCfg} (c : Ends cfg) : EndStep cfg → Bool
  | ⟨x, .start _ (.packet m)⟩ => m ∈ (c x.other).state.his.sent
  | ⟨x, .exec _ (.held (.net .reply)) (.ok m)⟩ => m ∈ (c x.other).state.his.sent
  | _ => true

section Agreement

variable {cfg : Side → LinkCfg}

/-- Each end of a cable runs as a link that receives honest messages only. -/
theorem cable_honest {c : Ends cfg} (hc : (cable cfg).Reach (fun c l ↦ carried c l) c) (x : Side) :
    (linkMachine (cfg x)).Reach (FromPeer (cfg x) (cfg x.other)) (c x) := by
  apply hc.component fun x c l ↦ FromPeer (cfg x) (cfg x.other) c.state l
  intro c x l hends hcarried
  have hsent : ∀ m, m ∈ (c x.other).state.his.sent → Honest (cfg x.other) (cfg x) m := by
    have hother : x.other.other = x := by cases x <;> rfl
    have h := ((negotiation_verified (cfg x.other) (cfg x.other.other)).sound (hends x.other)).1
    rw [hother] at h
    exact h.sent
  cases l with
  | start t e =>
    cases e with
    | packet m => exact hsent m (of_decide_eq_true hcarried)
    | _ => trivial
  | exec t o i =>
    cases o with
    | held o =>
      cases o with
      | net o =>
        cases o with
        | reply =>
          intro m hm
          cases hm
          exact hsent m (of_decide_eq_true hcarried)
        | _ => trivial
      | _ => trivial
    | _ => trivial
  | finish t => trivial

/-- What an end records of its peer when its HELLO completes. -/
theorem cable_remote {c : Ends cfg} (hc : (cable cfg).Reach (fun c l ↦ carried c l) c) (x : Side)
    (hdone : (c x).state.sess.helloDone) :
    (c x).state.sess.remote.caps = agreedCaps (cfg x) (cfg x.other) ∧
      (c x).state.sess.remote.hopid = (cfg x.other).localHopid :=
  ((negotiation_verified _ _).sound (cable_honest hc x)).1.remote hdone

/-- Two links whose HELLOs have completed agree on the capabilities both support and know each
other's HopID.  This does not depend on which of their sessions the HELLOs belonged to. -/
theorem negotiation_agreement {c : Ends cfg} (hc : (cable cfg).Reach (fun c l ↦ carried c l) c)
    (ha : (c .a).state.sess.helloDone) (hb : (c .b).state.sess.helloDone) :
    (c .a).state.sess.remote.caps = supportedCaps (cfg .a).tf &&& supportedCaps (cfg .b).tf ∧
      (c .b).state.sess.remote.caps = supportedCaps (cfg .a).tf &&& supportedCaps (cfg .b).tf ∧
      (c .a).state.sess.remote.hopid = (cfg .b).localHopid ∧
      (c .b).state.sess.remote.hopid = (cfg .a).localHopid := by
  obtain ⟨hacaps, hahopid⟩ := cable_remote hc .a ha
  obtain ⟨hbcaps, hbhopid⟩ := cable_remote hc .b hb
  exact ⟨hacaps, hbcaps.trans (agreedCaps_comm _ _), hahopid, hbhopid⟩

end Agreement

section Schedules

variable {cfg : Side → LinkCfg}

abbrev CableAct (cfg : Side → LinkCfg) : Type :=
  Σ x, (linkMachine (cfg x)).Act

def begin (x : Side) (t : Tid) (e : Entry) : List (CableAct cfg) :=
  [⟨x, .start t e⟩]

/-- Let a thread of one end take `n` steps. -/
def steps (x : Side) (t : Tid) (n : ℕ) (a : Answers) : List (CableAct cfg) :=
  List.replicate n ⟨x, .step t a.inp⟩

def cableExec (cfg : Side → LinkCfg) : (cable cfg).Exec :=
  .pi fun x ↦ (linkMachine (cfg x)).exec

def created (cfg : Side → LinkCfg) (random : Side → UInt64) : Ends cfg :=
  fun x ↦ Machine.idle _ (linkCreate (cfg x) (random x) 0 true)

theorem created_init (random : Side → UInt64) : (cable cfg).init (created cfg random) :=
  fun x ↦ Machine.init_idle ⟨random x, 0, true, rfl⟩

end Schedules

/-- Two links with keepalives; one of them also supports end-to-end flow control. -/
def sampleCfg : Side → LinkCfg
  | .a => { tf := { ringEntries := 2, e2e := true, keepalive := true, dataProof := true,
                    txRingBudget := 0 }
            route := 1, localHopid := 8, localGidEui64 := 10, quarantine := false }
  | .b => { tf := { ringEntries := 2, e2e := false, keepalive := true, dataProof := true,
                    txRingBudget := 0 }
            route := 1, localHopid := 9, localGidEui64 := 11, quarantine := false }

def sampleRandom : Side → UInt64
  | .a => 70
  | .b => 50

def sampleHello (x : Side) (caps : UInt32) (cookie : UInt64) : WireHello :=
  { protoVersion := wireVersion
    transmitHopid := (sampleCfg x).localHopid
    rxRingEntries := (sampleCfg x).tf.ringEntries
    capabilities := caps
    gidEui64 := (sampleCfg x).localGidEui64
    sessionCookie := cookie }

def sampleMsg (op : WireOp) (seq : UInt32) (hello : WireHello) : WireMsg :=
  ⟨hello, ⟨op, seq, seq &&& 3, 1⟩⟩

/-- One end comes to its HELLO in `n` steps, the other end answers it, and the answer arrives. -/
def helloRound (cookie : Side → UInt64) (x : Side) (n : ℕ) (seq : UInt32) (offer : UInt32) :
    List (CableAct sampleCfg) :=
  steps x .session n {} ++
  begin x.other (.task 0) (.packet (sampleMsg .hello seq (sampleHello x offer (cookie x)))) ++
  steps x.other (.task 0) 6 {} ++
  steps x .session 1
    { reply := .ok (sampleMsg .helloAck seq (sampleHello x.other 6 (cookie x.other))) }

def sampleHellos (cookie : Side → UInt64) : List (CableAct sampleCfg) :=
  begin .a .session .sessionWork ++ helloRound cookie .a 6 1 7 ++ helloRound cookie .a 5 2 6 ++
  steps .a .session 1 {} ++
  begin .b .session .sessionWork ++ helloRound cookie .b 6 1 6 ++ steps .b .session 1 {}

set_option maxRecDepth 10000 in
theorem negotiation_agreement_sample :
    ∃ c : Ends sampleCfg, (cable sampleCfg).Reach (fun c l ↦ carried c l) c ∧
      (c .a).state.sess.remote.cookie = (c .b).state.sess.localCookie ∧
      (c .b).state.sess.remote.cookie = (c .a).state.sess.localCookie ∧
      (c .a).state.sess.remote.caps = capKeepalive ||| capKeepaliveAck ∧
      (c .b).state.sess.remote.caps = capKeepalive ||| capKeepaliveAck ∧
      (c .a).state.sess.remote.hopid = 9 ∧ (c .b).state.sess.remote.hopid = 8 := by
  obtain ⟨c, hc, hgoal⟩ := System.Exec.reach_of_play (cableExec sampleCfg) carried
    (fun c ↦ (c .a).state.sess.helloDone && (c .b).state.sess.helloDone &&
      (c .a).state.sess.remote.cookie == (c .b).state.sess.localCookie &&
      (c .b).state.sess.remote.cookie == (c .a).state.sess.localCookie)
    (sampleHellos sampleRandom) (created_init sampleRandom) (by decide +kernel)
  simp only [Bool.and_eq_true, beq_iff_eq] at hgoal
  obtain ⟨⟨⟨ha, hb⟩, hab⟩, hba⟩ := hgoal
  obtain ⟨hacaps, hbcaps, hahopid, hbhopid⟩ := negotiation_agreement hc ha hb
  exact ⟨c, hc, hab, hba, hacaps, hbcaps, hahopid, hbhopid⟩

end ThunderboltStack.Tbframe
