import ThunderboltStack.Lib.Observe
import ThunderboltStack.Tbframe.Publication

/-!
# Rings that outlive a session

A session that goes down for a reason that is not terminal leaves its rings allocated, and the next
bring-up takes them over (`tbframe_hw_alloc_rings` in `hw.c`).  The rings were allocated with the
flow-control mode of the session that allocated them; a later session may have negotiated another
one.

In the model of the link the answer of `alloc_rings` is an input.  Here an observer carries the
rings of `struct tbframe_hw` along, and the runs considered are those in which the backend answers
what `tbframe_hw_alloc_rings` computes when memory is never short.
-/

namespace ThunderboltStack.Tbframe

open ThunderboltStack.Lib

def enomem : ℤ := -12

def ringFlagFrame : UInt32 := 2

def ringFlagE2e : UInt32 := 4

def ringFlags (e2e : Bool) : UInt32 :=
  ringFlagFrame ||| (if e2e then ringFlagE2e else 0)

/-- The fields of `struct tb_ring` that `tbframe_hw_alloc_rings` compares. -/
structure HwRing where
  size : UInt16
  flags : UInt32
  deriving DecidableEq

/-- The rings of `struct tbframe_hw`. -/
structure HwRings where
  txRing : Option HwRing := none
  rxRing : Option HwRing := none
  deriving DecidableEq

/-- `tbframe_hw_alloc_rings`; `txOk` and `rxOk` say whether the two rings can be allocated. -/
def hwAllocRings (txOk rxOk : Bool) (txEntries rxEntries : UInt16) (e2e : Bool) (hw : HwRings) :
    ℤ × HwRings :=
  let flags := ringFlags e2e
  match hw.txRing, hw.rxRing with
  | some tx, some rx =>
    if tx.size ≠ txEntries ∨ rx.size ≠ rxEntries ∨ tx.flags ≠ flags ∨ rx.flags ≠ flags then
      (einval, hw)
    else (0, hw)
  | none, none =>
    if !txOk || !rxOk then (enomem, {})
    else (0, { txRing := some ⟨txEntries, flags⟩, rxRing := some ⟨rxEntries, flags⟩ })
  | _, _ => (euclean, hw)

def hwFreeRings (_ : HwRings) : HwRings :=
  {}

/-- `tbframe_hw_quarantine_paths`, given the answer of the core: the rings are handed over. -/
def hwQuarantinePaths (ret : ℤ) (hw : HwRings) : HwRings :=
  if ret = 0 then {} else hw

/-! ## Runs with the rings of the backend -/

/-- The rings of the backend, and the modes of the sessions that used them. -/
structure RingLog where
  hw : HwRings := {}
  modes : List Bool := []
  deriving DecidableEq

/-- `alloc_rings` as `tbframe_link_bring_up` calls it, when memory is not short. -/
def RingLog.alloc (cfg : LinkCfg) (e2e : Bool) (o : RingLog) : ℤ × HwRings :=
  hwAllocRings true true cfg.tf.ringEntries cfg.tf.ringEntries e2e o.hw

def RingLog.see {cfg : LinkCfg} (_ : (linkMachine cfg).Config) :
    (linkMachine cfg).Label → RingLog → RingLog
  | .exec _ (.held (.sess (.asset (.allocRings e2e)))) _, o =>
      { hw := (o.alloc cfg e2e).2
        modes := if (o.alloc cfg e2e).1 = 0 then e2e :: o.modes else o.modes }
  | .exec _ (.held (.sess (.asset .freeRings))) _, o => { hw := hwFreeRings o.hw }
  | .exec _ (.held (.sess (.asset (.quarantinePaths _)))) ret, o =>
      { hw := hwQuarantinePaths ret o.hw, modes := if ret = 0 then [] else o.modes }
  | _, o => o

/-- The runs of a link with the rings of its backend. -/
def ringRuns (cfg : LinkCfg) :
    System ((linkMachine cfg).Config × RingLog) (linkMachine cfg).Label :=
  (linkMachine cfg).system.observe {} RingLog.see

/-- The backend answers `alloc_rings` as `tbframe_hw_alloc_rings` does. -/
def ringsAnswered {cfg : LinkCfg} (p : (linkMachine cfg).Config × RingLog) :
    (linkMachine cfg).Label → Bool
  | .exec _ (.held (.sess (.asset (.allocRings e2e)))) ret => ret == (p.2.alloc cfg e2e).1
  | _ => true

/-- The rings are there for both directions or for none, with the size of the configuration and the
mode of every session that used them. -/
def RingLog.Fits (cfg : LinkCfg) (o : RingLog) : Prop :=
  o.hw = {} ∧ o.modes = [] ∨
    ∃ mode, (o.modes ≠ [] ∧ ∀ m ∈ o.modes, m = mode) ∧
      o.hw = { txRing := some ⟨cfg.tf.ringEntries, ringFlags mode⟩
               rxRing := some ⟨cfg.tf.ringEntries, ringFlags mode⟩ }

section Fits

variable {cfg : LinkCfg} {o : RingLog}

theorem ringFlags_inj {a b : Bool} : ringFlags a = ringFlags b ↔ a = b := by
  cases a <;> cases b <;> decide

/-- An allocation succeeds exactly if all before it were for the same mode. -/
theorem RingLog.Fits.alloc_eq (h : o.Fits cfg) (e2e : Bool) :
    (o.alloc cfg e2e).1 = 0 ↔ ∀ m ∈ o.modes, m = e2e := by
  obtain ⟨hhw, hmodes⟩ | ⟨mode, ⟨hne, hmodes⟩, hhw⟩ := h
  · simp [RingLog.alloc, hwAllocRings, hhw, hmodes]
  · have hiff : (o.alloc cfg e2e).1 = 0 ↔ ringFlags mode = ringFlags e2e := by
      simp only [RingLog.alloc, hwAllocRings, hhw]
      split
      · next hother =>
        simp only [ne_eq, not_true_eq_false, false_or, or_self] at hother
        simp [hother, einval]
      · next hsame =>
        simp only [ne_eq, not_true_eq_false, false_or, or_self, not_not] at hsame
        simp [hsame]
    rw [hiff, ringFlags_inj]
    constructor
    · rintro rfl
      exact hmodes
    · intro h
      obtain ⟨m, hm⟩ := List.exists_mem_of_ne_nil _ hne
      exact (hmodes m hm).symm.trans (h m hm)

/-- An allocation, kept or refused, leaves rings of one mode. -/
theorem RingLog.Fits.alloc (h : o.Fits cfg) (e2e : Bool) :
    RingLog.Fits cfg { hw := (o.alloc cfg e2e).2
                       modes := if (o.alloc cfg e2e).1 = 0 then e2e :: o.modes else o.modes } := by
  have hiff := h.alloc_eq e2e
  obtain ⟨hhw, hmodes⟩ | ⟨mode, ⟨hne, hmodes⟩, hhw⟩ := h
  · right
    refine ⟨e2e, ⟨?_, ?_⟩, ?_⟩ <;> simp [RingLog.alloc, hwAllocRings, hhw, hmodes]
  · right
    have hkept : (o.alloc cfg e2e).2 = o.hw := by
      simp only [RingLog.alloc, hwAllocRings, hhw]
      split <;> rfl
    refine ⟨mode, ⟨?_, ?_⟩, hkept.trans hhw⟩
    · dsimp only
      split
      · exact List.cons_ne_nil _ _
      · exact hne
    · dsimp only
      split
      · next hzero =>
        obtain ⟨m, hm⟩ := List.exists_mem_of_ne_nil _ hne
        have hmode : e2e = mode := (hiff.1 hzero m hm).symm.trans (hmodes m hm)
        simpa [hmode] using hmodes
      · exact hmodes

theorem fits_see {c : (linkMachine cfg).Config} {s : (linkMachine cfg).Label} (h : o.Fits cfg) :
    (RingLog.see c s o).Fits cfg := by
  unfold RingLog.see
  split
  · exact h.alloc _
  · exact .inl ⟨rfl, rfl⟩
  · next ret =>
    simp only [hwQuarantinePaths]
    by_cases hret : ret = 0
    · simp only [hret, if_true]
      exact .inl ⟨rfl, rfl⟩
    · simp only [hret, if_false]
      exact h
  · exact h

end Fits

theorem fits_reach {cfg : LinkCfg} {p : (linkMachine cfg).Config × RingLog}
    (hp : (ringRuns cfg).Reach (fun p s ↦ ringsAnswered p s) p) : p.2.Fits cfg := by
  apply System.Reach.observe_invariant (I := fun _ o ↦ RingLog.Fits cfg o) hp
  · exact fun _ _ ↦ .inl ⟨rfl, rfl⟩
  · exact fun _ _ _ _ _ h _ _ ↦ fits_see h

/-- In every run of a link whose backend answers `alloc_rings` as `hw.c` does and is never short of
memory, a bring-up gets its rings if and only if all sessions that used the retained rings had
negotiated the same mode. -/
theorem retained_rings_fit_iff {cfg : LinkCfg} {p : (linkMachine cfg).Config × RingLog} {t : Tid}
    {e2e : Bool} {ret : ℤ} {c' : (linkMachine cfg).Config}
    (hp : (ringRuns cfg).Reach (fun p s ↦ ringsAnswered p s) p)
    (hanswered : ringsAnswered p (.exec t (.held (.sess (.asset (.allocRings e2e)))) ret))
    (_ : (linkMachine cfg).Step p.1 (.exec t (.held (.sess (.asset (.allocRings e2e)))) ret) c') :
    ret = 0 ↔ ∀ m ∈ p.2.modes, m = e2e := by
  have hret : ret = (p.2.alloc cfg e2e).1 := by simpa [ringsAnswered] using hanswered
  rw [hret]
  exact (fits_reach hp).alloc_eq e2e

def peerOffer (op : WireOp) (seq caps : UInt32) : Answers :=
  { reply := .ok (sampleMsg op seq (sampleHello .b caps 50)) }

/-- A session brings its rings up with end-to-end flow control, and waits for the READY of the peer.
-/
def e2eSchedule : List (linkMachine (sampleCfg .a)).Act :=
  [.start .session .sessionWork] ++ linkSteps .session 6 {} ++
    linkSteps .session 1 (peerOffer .helloAck 1 7) ++ linkSteps .session 30 {}

def partSchedule : List (linkMachine (sampleCfg .a)).Act :=
  [.start (.task 0) (.packet (sampleMsg .bye 1 (sampleHello .b 7 50)))] ++
    linkSteps (.task 0) 6 {} ++
  [.start .session .sessionWork] ++ linkSteps .session 12 {} ++
  [.start (.task 1) (.rxComplete 0 true 0 .data false {})] ++ linkSteps (.task 1) 4 {} ++
  [.start (.task 1) (.rxComplete 1 true 0 .data false {})] ++ linkSteps (.task 1) 4 {} ++
  linkSteps .session 10 {}

/-- The peer comes back without end-to-end flow control; the session work is up to `alloc_rings`. -/
def narrowSchedule : List (linkMachine (sampleCfg .a)).Act :=
  e2eSchedule ++ partSchedule ++ [.start .session .sessionWork] ++ linkSteps .session 6 {} ++
    linkSteps .session 1 (peerOffer .helloAck 3 6) ++ linkSteps .session 5 {} ++
    linkSteps .session 1 (peerOffer .helloAck 4 6) ++ linkSteps .session 3 {}

def ringsAsked {cfg : LinkCfg} : (linkMachine cfg).Label → Option (Tid × Bool × ℤ)
  | .exec t (.held (.sess (.asset (.allocRings e2e)))) ret => some (t, e2e, ret)
  | _ => none

theorem ringsAsked_eq {cfg : LinkCfg} {s : (linkMachine cfg).Label} {t : Tid} {e2e : Bool} {ret : ℤ}
    (h : ringsAsked s = some (t, e2e, ret)) :
    s = .exec t (.held (.sess (.asset (.allocRings e2e)))) ret := by
  unfold ringsAsked at h
  split at h
  · cases h
    rfl
  · cases h

set_option maxRecDepth 10000 in
/-- After a down that is not terminal, the peer negotiates another mode and the backend refuses. -/
theorem narrow_reach : ∃ p c', (ringRuns (sampleCfg .a)).Reach (fun p s ↦ ringsAnswered p s) p ∧
    ringsAnswered p (.exec .session (.held (.sess (.asset (.allocRings false)))) einval) ∧
    (linkMachine (sampleCfg .a)).Step p.1
      (.exec .session (.held (.sess (.asset (.allocRings false)))) einval) c' ∧
    p.2.modes = [true] ∧ p.1.state.his.downs = 1 ∧ p.1.state.sh.removing = false := by
  obtain ⟨p, hp, hgoal⟩ := System.Exec.reach_of_play
    ((linkMachine (sampleCfg .a)).exec.observe : (ringRuns (sampleCfg .a)).Exec) ringsAnswered
    (fun p ↦ ((Machine.act p.1 (.step .session ({ ret := einval } : Answers).inp)).any fun x ↦
        ringsAnswered p x.1 && ringsAsked x.1 == some (.session, false, einval)) &&
      p.2.modes == [true] && p.1.state.his.downs == 1 && !p.1.state.sh.removing)
    narrowSchedule (s := ((linkMachine (sampleCfg .a)).idle _, {}))
    ⟨Machine.init_idle ⟨70, 0, true, rfl⟩, rfl⟩ (by decide +kernel)
  simp only [Bool.and_eq_true, Option.any_eq_true, beq_iff_eq, Bool.not_eq_true'] at hgoal
  obtain ⟨⟨⟨⟨⟨s, c'⟩, hact, hanswered, hasked⟩, hmodes⟩, hdowns⟩, hremoving⟩ := hgoal
  obtain rfl := ringsAsked_eq hasked
  exact ⟨p, c', hp, hanswered, Machine.act_sound hact, hmodes, hdowns, hremoving⟩

/-- The rings that were allocated for end-to-end flow control are still there when the peer comes
back without it, and the bring-up fails. -/
theorem retained_rings_refused : ∃ p c',
    (ringRuns (sampleCfg .a)).Reach (fun p s ↦ ringsAnswered p s) p ∧
      ringsAnswered p (.exec .session (.held (.sess (.asset (.allocRings false)))) einval) ∧
      (linkMachine (sampleCfg .a)).Step p.1
        (.exec .session (.held (.sess (.asset (.allocRings false)))) einval) c' ∧
      p.2.hw.txRing = some ⟨2, ringFlags true⟩ ∧ p.1.state.his.downs = 1 ∧
      p.1.state.sh.removing = false := by
  obtain ⟨p, c', hp, hanswered, hstep, hmodes, hdowns, hremoving⟩ := narrow_reach
  refine ⟨p, c', hp, hanswered, hstep, ?_, hdowns, hremoving⟩
  obtain ⟨-, hnone⟩ | ⟨mode, ⟨-, hmode⟩, hhw⟩ := fits_reach hp
  · simp [hmodes] at hnone
  · obtain rfl : true = mode := hmode true (by simp [hmodes])
    rw [hhw]
    rfl

theorem retained_rings_fit_iff_sample : ∃ p c',
    (ringRuns (sampleCfg .a)).Reach (fun p s ↦ ringsAnswered p s) p ∧
      (linkMachine (sampleCfg .a)).Step p.1
        (.exec .session (.held (.sess (.asset (.allocRings false)))) einval) c' ∧
      (einval = 0 ↔ ∀ m ∈ p.2.modes, m = false) := by
  obtain ⟨p, c', hp, hanswered, hstep, -⟩ := narrow_reach
  exact ⟨p, c', hp, hstep, retained_rings_fit_iff hp hanswered hstep⟩

end ThunderboltStack.Tbframe
