import ThunderboltStack.Tbframe.Lock

/-!
# The phases of a session

The order in which the holder of `session_lock` takes a session through its phases: a HELLO
completes only before the rings are up, the rings come up only for a completed HELLO, and the
session that a down takes apart is not used again.  The generation, the identity of the peer and
the local cookie are fixed while a generation is open.
-/

namespace ThunderboltStack.Tbframe

open ThunderboltStack.Lib

structure Phased (l : Link) : Prop where
  ringsOpen : l.sess.ringsUp → l.his.genOpen
  openHello : l.his.genOpen → l.sess.helloDone
  downing : l.his.downing → l.sess.helloDone = false
  locked : l.his.downing → l.ctl.sessionLock ≠ none
  up : l.sh.state = .up → l.sess.ringsUp ∧ l.sess.pathsEnabled

def PhasePre : Op → Link → Prop
  | .unlockSession, l => l.his.downing = false
  | .held (.sess (.helloApply _)), l => l.sess.helloDone = false ∧ l.his.downing = false
  | .held (.sess .bringUpBegin), l => l.sess.helloDone = true ∧ l.sess.ringsUp = false
  | .held (.sess .startRings), l | .held (.sess (.bringUpDone _)), l => l.his.genOpen = true
  | .held (.sess .quarantined), l | .held (.sess .pathsGone), l => l.sess.ringsUp = false
  | _, _ => True

section Steps

variable {cfg : LinkCfg} {t : Tid} {l l' : Link}

def phase (l : Link) : Bool × Bool × Bool × Bool × Bool × Option Tid :=
  (l.sess.ringsUp, l.sess.helloDone, l.sess.pathsEnabled, l.his.genOpen, l.his.downing,
    l.ctl.sessionLock)

theorem Phased.congr (h : Phased l) (hphase : phase l' = phase l)
    (hstate : l'.sh.state = l.sh.state ∨ l'.sh.state = .dead) : Phased l' := by
  simp only [phase, Prod.mk.injEq] at hphase
  obtain ⟨hrings, hhello, hpaths, hopen, hdowning, hlock⟩ := hphase
  refine ⟨?_, ?_, ?_, ?_, ?_⟩
  · rw [hrings, hopen]; exact h.ringsOpen
  · rw [hhello, hopen]; exact h.openHello
  · rw [hhello, hdowning]; exact h.downing
  · rw [hlock, hdowning]; exact h.locked
  · obtain hstate | hstate := hstate <;> rw [hstate, hrings, hpaths]
    · exact h.up
    · simp

/-- Without a completed HELLO no generation is open. -/
theorem Phased.closed (h : Phased l) (hhello : l.sess.helloDone = false) :
    l.his.genOpen = false := by
  cases hopen : l.his.genOpen with
  | true => exact absurd (h.openHello hopen) (by simp [hhello])
  | false => rfl

/-- Without an open generation the rings are not up. -/
theorem Phased.ringsDown (h : Phased l) (hopen : l.his.genOpen = false) :
    l.sess.ringsUp = false := by
  cases hrings : l.sess.ringsUp with
  | true => exact absurd (h.ringsOpen hrings) (by simp [hopen])
  | false => rfl

theorem Phased.notUp (h : Phased l) (hrings : l.sess.ringsUp = false) : l.sh.state ≠ .up := by
  intro hup
  have hup := (h.up hup).1
  simp [hrings] at hup

/-- Outside the session sections, only `tbframe_link_destroy` changes the state, to DEAD. -/
theorem state_base {o : BaseOp} {i : o.Inp} {r : o.Res} (h : o.run cfg i l = some (r, l')) :
    l'.sh.state = l.sh.state ∨ l'.sh.state = .dead := by
  obtain hstate | rfl := view_calm (·.sh.state) h rfl
  · exact .inl hstate
  · exact .inr rfl

theorem state_run {o : Op} {i : o.Inp} {r : o.Res} (h : o.run cfg t i l = some (r, l'))
    (ho : ∀ s, o ≠ .held (.sess s)) : l'.sh.state = l.sh.state ∨ l'.sh.state = .dead := by
  cases o with
  | held o =>
    cases o with
    | base o => exact state_base h
    | sess o => exact absurd rfl (ho o)
    | _ => exact .inl (view_run (·.sh.state) h rfl)
  | _ => exact .inl (view_run (·.sh.state) h rfl)

theorem helloApply_state (remote : WireHello) :
    (helloApply remote l).2.sh.state = l.sh.state := by
  simp only [helloApply]
  (repeat' split) <;> rfl

theorem phased_helloApply (remote : WireHello) (h : Phased l) (hhello : l.sess.helloDone = false)
    (hdowning : l.his.downing = false) : Phased (helloApply remote l).2 := by
  have hclosed := h.closed hhello
  have hrings := h.ringsDown hclosed
  have hup : (helloApply remote l).2.sh.state ≠ .up := by
    rw [helloApply_state]
    exact h.notUp hrings
  refine ⟨?_, ?_, ?_, ?_, fun h ↦ absurd h hup⟩
  all_goals
    simp only [helloApply]
    split <;> simp [hrings, hclosed, hdowning]

theorem phased_maybeUp (h : Phased l) : Phased (maybeUpLocked cfg l).2 := by
  unfold maybeUpLocked
  split
  · next hgate =>
    simp only [Bool.and_eq_true] at hgate
    exact { h with up := fun _ ↦ ⟨hgate.1.1.2, hgate.1.2⟩ }
  · split
    · exact h.congr rfl (.inl rfl)
    · exact h

/-- The session sections keep the phases. -/
theorem phased_sess (o : SessOp) (i : o.Inp) (h : Phased l) (hlock : l.ctl.sessionLock = some t)
    (hpre : PhasePre (.held (.sess o)) l) : Phased (o.exec cfg l i).2 := by
  cases o with
  | helloApply remote => exact phased_helloApply remote h hpre.1 hpre.2
  | bringUpBegin => exact { h with ringsOpen := fun _ ↦ rfl, openHello := fun _ ↦ hpre.1 }
  | bringUpDone e2e => exact { h with ringsOpen := fun _ ↦ hpre, up := fun _ ↦ ⟨rfl, rfl⟩ }
  | quarantined =>
    exact { h with ringsOpen := by simp [SessOp.exec, quarantined]
                   up := by simp [SessOp.exec, quarantined] }
  | maybeUp => exact phased_maybeUp h
  | downBegin owner =>
    exact { ringsOpen := by simp [SessOp.exec, downBegin]
            openHello := by simp [SessOp.exec, downBegin]
            downing := fun _ ↦ rfl
            locked := by simp [SessOp.exec, downBegin, hlock]
            up := by
              simp only [SessOp.exec, downBegin]
              split <;> simp }
  | downEnd =>
    exact { h with downing := by simp [SessOp.exec, downEnd]
                   locked := by simp [SessOp.exec, downEnd] }
  | pathsGone => exact { h with up := fun hup ↦ absurd hup (h.notUp hpre) }
  | markDead => exact h.congr rfl (.inr rfl)
  | asset | setRingsAllocated | holdInHopid | setPathsOwned | startRings | stopRings | bringUpUndo =>
    exact h.congr rfl (.inl rfl)
  | _ => exact h.congr (view_quiet phase i rfl rfl) (.inl (view_quiet (·.sh.state) i rfl rfl))

/-- A step opens a new generation, or it keeps the generation; the identity of the peer and the local
cookie belong to the generation that is open. -/
def Continues (l l' : Link) : Prop :=
  l'.sess.dataGeneration = l.sess.dataGeneration + 1 ∨
    l'.sess.dataGeneration = l.sess.dataGeneration ∧ (l'.his.genOpen → l.his.genOpen ∧
      l'.sess.remote = l.sess.remote ∧ l'.sess.localCookie = l.sess.localCookie)

theorem continues_of_owned (ho : owned l' = owned l) : Continues l l' := by
  simp only [owned, Prod.mk.injEq] at ho
  obtain ⟨hsess, -, -, -, hopen⟩ := ho
  refine .inr ⟨by rw [hsess], fun hopen' ↦ ?_⟩
  rw [hsess]
  exact ⟨hopen ▸ hopen', rfl, rfl⟩

/-- A session section goes on with the generation or begins the next one. -/
theorem continues_sess (o : SessOp) (i : o.Inp) (h : Phased l)
    (hpre : PhasePre (.held (.sess o)) l) : Continues l (o.exec cfg l i).2 := by
  cases o with
  | helloApply remote =>
    have hclosed := h.closed hpre.1
    right
    simp only [SessOp.exec, helloApply]
    split <;> simp [hclosed]
  | bringUpBegin => exact .inl rfl
  | downBegin owner => exact .inr ⟨rfl, by simp [SessOp.exec, downBegin]⟩
  | maybeUp =>
    apply continues_of_owned
    simp only [SessOp.exec, maybeUpLocked]
    (repeat' split) <;> rfl
  | asset | setRingsAllocated | holdInHopid | setPathsOwned | markDead | startRings | stopRings
  | bringUpDone | bringUpUndo | quarantined | pathsGone | downEnd =>
    exact .inr ⟨rfl, fun hopen ↦ ⟨hopen, rfl, rfl⟩⟩
  | _ =>
    refine .inr ⟨view_quiet (·.sess.dataGeneration) i rfl rfl, fun hopen ↦ ⟨?_,
      view_quiet (·.sess.remote) i rfl rfl, view_quiet (·.sess.localCookie) i rfl rfl⟩⟩
    exact (view_quiet (·.his.genOpen) i rfl rfl).symm.trans hopen

theorem phased_held {o : HeldOp} {i : o.Inp} {r : o.Res} (h : Phased l)
    (hlock : LockPre t (.held o) l) (hpre : PhasePre (.held o) l)
    (hrun : o.run cfg t i l = some (r, l')) : Phased l' := by
  cases o with
  | base o => exact h.congr (view_held phase hrun rfl) (state_base hrun)
  | sess o =>
    obtain rfl := link_of_run hrun
    exact phased_sess o i h hlock hpre
  | _ => exact h.congr (view_held phase hrun rfl) (.inl (view_held (·.sh.state) hrun rfl))

theorem phased_run {o : Op} {i : o.Inp} {r : o.Res} (h : Phased l) (hlock : LockPre t o l)
    (hpre : PhasePre o l) (hrun : o.run cfg t i l = some (r, l')) : Phased l' := by
  cases o with
  | held o => exact phased_held h hlock hpre hrun
  | lockSession =>
    simp only [Op.run] at hrun
    split at hrun <;> cases hrun
    exact { h with locked := by simp }
  | unlockSession =>
    simp only [Op.run] at hrun
    split at hrun <;> cases hrun
    have hpre : l.his.downing = false := hpre
    exact { h with locked := by simp [hpre] }
  | _ => exact h.congr (view_run phase hrun rfl) (.inl (view_run (·.sh.state) hrun rfl))

theorem phased_begin {e : Entry} (h : Phased l) (hbegin : e.begin t l = some l') : Phased l' :=
  h.congr (view_begin phase hbegin rfl) (.inl (view_begin (·.sh.state) hbegin rfl))

theorem phased_init (h : (linkMachine cfg).init l) : Phased l := by
  obtain ⟨random, requestSeq, autostart, rfl⟩ := h
  constructor <;> simp [linkCreate]

end Steps

end ThunderboltStack.Tbframe
