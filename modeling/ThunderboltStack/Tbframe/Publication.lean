import ThunderboltStack.Tbframe.Cable
import ThunderboltStack.Tbframe.SessionStep

/-!
# Publication of a session

Every transition of a link from INIT to UP is backed by completions of the current generation: a
keepalive of the peer's session and, where keepalives are acknowledged, one that acknowledges a
keepalive numbered in this generation.
-/

namespace ThunderboltStack.Tbframe

open ThunderboltStack.Lib

section Publication

variable {cfg : LinkCfg} {t : Tid} {l l' : Link}

/-- A session section other than the publication does not publish. -/
theorem state_sess (o : SessOp) (i : o.Inp) (h : (o.exec cfg l i).2.sh.state = .up) :
    l.sh.state = .up ∨ o = .maybeUp := by
  cases o with
  | maybeUp => exact .inr rfl
  | helloApply remote => exact .inl ((helloApply_state remote).symm.trans h)
  | markDead => cases h
  | quarantined => cases h
  | downBegin owner =>
    simp only [SessOp.exec, downBegin] at h
    split at h <;> cases h
  | _ =>
    refine .inl (Eq.trans (Eq.symm ?_) h)
    first | rfl | exact view_quiet (·.sh.state) i rfl rfl

/-- Only the publication section of `tbframe_link_maybe_up` takes a link to UP. -/
theorem publishes_of_run {o : Op} {i : o.Inp} {r : o.Res} (hrun : o.run cfg t i l = some (r, l'))
    (hdown : l.sh.state ≠ .up) (hup : l'.sh.state = .up) :
    o = .held (.sess .maybeUp) ∧ l' = (maybeUpLocked cfg l).2 := by
  by_cases hsess : ∃ s : SessOp, o = .held (.sess s)
  · obtain ⟨o, rfl⟩ := hsess
    obtain rfl := link_of_run hrun
    obtain h | rfl := state_sess o i hup
    · exact absurd h hdown
    · exact ⟨rfl, rfl⟩
  · obtain h | h := state_run hrun fun s hs ↦ hsess ⟨s, hs⟩
    · exact absurd (h.symm.trans hup) hdown
    · simp [hup] at h

/-- The publication section changes nothing that the evidence is about. -/
theorem extends_maybeUp : Extends l (maybeUpLocked cfg l).2 := by
  unfold maybeUpLocked
  (repeat' split) <;> exact extends_of_view rfl

/-- With `data_proof`, a link goes from INIT to UP only with evidence for both directions of the
data path in the generation it publishes. -/
theorem publication_has_evidence {c c' : (linkMachine cfg).Config}
    {s : (linkMachine cfg).Label} (hproof : cfg.tf.dataProof)
    (hc : (linkMachine cfg).system.Reachable c) (hstep : (linkMachine cfg).Step c s c')
    (hinit : c.state.sh.state = .init) (hup : c'.state.sh.state = .up) : Evidence c'.state := by
  have hdown : c.state.sh.state ≠ .up := by simp [hinit]
  have hguard := disciplined_step hc hstep
  cases hstep with
  | start _ henter =>
    obtain ⟨-, hbegin, -⟩ := enter_eq_some henter
    exact absurd ((view_begin (·.sh.state) hbegin rfl).symm.trans hup) hdown
  | @exec t o k i r l' hthread hrun =>
    obtain ⟨rfl, rfl⟩ := publishes_of_run hrun hdown hup
    have hpre := (step_verified cfg).pre (disciplined_reach hc) hguard (.exec hthread hrun)
    exact (hpre.publish hproof).extend extends_maybeUp
  | finish _ => exact absurd hup hdown

end Publication

/-- The keepalives that were accepted by `ring_tx` in the current generation. -/
def transmittedKeepalives (l : Link) : ℕ :=
  (l.his.posted.filter fun e ↦ e.generation == l.sess.dataGeneration && e.pdf == .keepalive).length

/-- Let a thread take `n` steps. -/
def linkSteps {cfg : LinkCfg} (t : Tid) (n : ℕ) (a : Answers) : List (linkMachine cfg).Act :=
  List.replicate n (.step t a.inp)

def cancelRx (f : ℕ) : List (linkMachine (sampleCfg .b)).Act :=
  [.start (.task 1) (.rxComplete f true 0 .data false {})] ++ linkSteps (.task 1) 4 {}

def peerAnswer (op : WireOp) (seq : UInt32) : Answers :=
  { reply := .ok (sampleMsg op seq (sampleHello .a 6 70)) }

/-- A session step that takes the link to the keepalive of the data-path proof, up to its admission;
`hello` and `ready` number the requests. -/
def connectSchedule (hello ready : UInt32) : List (linkMachine (sampleCfg .b)).Act :=
  [.start .session .sessionWork] ++ linkSteps .session 6 {} ++
    linkSteps .session 1 (peerAnswer .helloAck hello) ++ linkSteps .session 24 {} ++
    linkSteps .session 1 (peerAnswer .readyAck ready) ++ linkSteps .session 6 {}

/-- A session step whose keepalive is refused by the ring; a second one whose keepalive is
transmitted; the peer's keepalive that acknowledges it; and a third session step, up to the
publication. -/
def publishSchedule : List (linkMachine (sampleCfg .b)).Act :=
  connectSchedule 1 2 ++ linkSteps .session 1 {} ++ linkSteps .session 1 { ret := -5 } ++
    linkSteps .session 9 {} ++
  [.start .session .sessionWork] ++ linkSteps .session 16 {} ++
  [.start (.task 0) (.rxComplete 0 false 32 .keepalive false
    { sessionCookie := 70, sequence := 1, ackCookie := 50, ackSequence := 2 })] ++
    linkSteps (.task 0) 2 {} ++
  [.start .session .sessionWork] ++ linkSteps .session 4 {}

def sessionAct : (linkMachine (sampleCfg .b)).Act :=
  .step .session ({} : Answers).inp

set_option maxRecDepth 10000 in
theorem publishes_sample : ∃ c s c', (linkMachine (sampleCfg .b)).system.Reachable c ∧
    (linkMachine (sampleCfg .b)).Step c s c' ∧ c.state.sh.state = .init ∧
    c'.state.sh.state = .up ∧ directional c'.state ∧
    ∀ e ∈ c'.state.his.received, transmittedKeepalives c'.state < e.data.ackSequence := by
  obtain ⟨c, hc, hgoal⟩ := System.Exec.reach_of_play (linkMachine (sampleCfg .b)).exec
    (fun _ _ ↦ true)
    (fun c ↦ c.state.sh.state == .init && (Machine.act c sessionAct).any fun x ↦
      x.2.state.sh.state == .up && directional x.2.state &&
        x.2.state.his.received.all fun e ↦ transmittedKeepalives x.2.state < e.data.ackSequence)
    publishSchedule (Machine.init_idle ⟨50, 0, true, rfl⟩) (by decide +kernel)
  simp only [Bool.and_eq_true, beq_iff_eq, Option.any_eq_true, List.all_eq_true,
    decide_eq_true_eq] at hgoal
  obtain ⟨hinit, ⟨s, c'⟩, hact, ⟨hup, hdir⟩, hacks⟩ := hgoal
  exact ⟨c, s, c', hc.mono fun _ _ _ ↦ trivial, Machine.act_sound hact, hinit, hup, hdir, hacks⟩

/-- The acknowledged sequence number may exceed the number of keepalives that were transmitted: a
number is used up when the ring refuses its keepalive. -/
theorem publication_ack_beyond_transmitted : ∃ c s c',
    (linkMachine (sampleCfg .b)).system.Reachable c ∧
      (linkMachine (sampleCfg .b)).Step c s c' ∧ c.state.sh.state = .init ∧
      c'.state.sh.state = .up ∧ directional c'.state ∧
      ¬ ∃ e ∈ c'.state.his.received, SessionKeepalive c'.state e ∧
        e.data.ackCookie = c'.state.sess.localCookie ∧ 1 ≤ e.data.ackSequence ∧
        e.data.ackSequence ≤ transmittedKeepalives c'.state := by
  obtain ⟨c, s, c', hc, hstep, hinit, hup, hdir, hacks⟩ := publishes_sample
  refine ⟨c, s, c', hc, hstep, hinit, hup, hdir, ?_⟩
  rintro ⟨e, he, -, -, -, hle⟩
  exact absurd hle (Nat.not_le.2 (hacks e he))

theorem publication_has_evidence_sample : ∃ c s c',
    (linkMachine (sampleCfg .b)).system.Reachable c ∧
      (linkMachine (sampleCfg .b)).Step c s c' ∧ c.state.sh.state = .init ∧
      c'.state.sh.state = .up ∧ Evidence c'.state := by
  obtain ⟨c, s, c', hc, hstep, hinit, hup, -⟩ := publishes_sample
  exact ⟨c, s, c', hc, hstep, hinit, hup, publication_has_evidence rfl hc hstep hinit hup⟩

end ThunderboltStack.Tbframe
