import ThunderboltStack.Tbframe.Session

/-!
# What a link holds of the hardware

Rings, an in-HopID and a path tuple are acquired by `tbframe_link_bring_up` and given up by its
error ladder, by `tbframe_link_down_session` and by `tbframe_link_quarantine_paths`.  Each of these
calls may fail, and rings outlive the session while the HopID and the paths do not.

The stock of a link is what the backend holds for it together with the flags that say so.  Whenever
`session_lock` is free, the flags are right.
-/

namespace ThunderboltStack.Tbframe

open ThunderboltStack.Lib

/-- What the backend holds for a link and what the flags of the link say about it. -/
structure Stock where
  rings : Bool
  inHopids : List UInt16
  paths : Option UInt16
  ringsAllocated : Bool
  ringsUp : Bool
  inHopidHeld : Bool
  pathsOwned : Bool
  pathsEnabled : Bool
  activeRemoteHopid : UInt16
  helloDone : Bool
  remoteHopid : UInt16
  terminalHandoff : Bool
  downing : Bool
  vacated : Bool

def stock (l : Link) : Stock where
  rings := l.hw.rings
  inHopids := l.hw.inHopids
  paths := l.hw.paths
  ringsAllocated := l.sess.ringsAllocated
  ringsUp := l.sess.ringsUp
  inHopidHeld := l.sess.inHopidHeld
  pathsOwned := l.sess.pathsOwned
  pathsEnabled := l.sess.pathsEnabled
  activeRemoteHopid := l.sess.activeRemoteHopid
  helloDone := l.sess.helloDone
  remoteHopid := l.sess.remote.hopid
  terminalHandoff := l.sess.terminalHandoff
  downing := l.his.downing
  vacated := l.his.vacated

def Hardware.Vacant (h : Hardware) : Prop :=
  h.rings = false ∧ h.inHopids = [] ∧ h.paths = none

/-- Nothing is held for the link.  A quarantine keeps the out-HopID with what it took over. -/
def Link.Vacant (l : Link) : Prop :=
  l.hw.Vacant ∧ (l.sess.terminalHandoff = false → l.hw.outHopid = false)

/-- The call gives up exactly what is held, and acquires only what is not held yet.  (Rings that
are allocated already are kept by `alloc_rings`.) -/
def AssetOp.Paired (h : Hardware) : AssetOp → Prop
  | .allocRings _ => True
  | .allocInHopid _ => h.inHopids = []
  | .enablePaths _ => h.paths = none
  | .disablePaths hopid | .quarantinePaths hopid => h.paths = some hopid
  | .freeRings => h.rings = true
  | .releaseInHopid hopid => h.inHopids = [hopid]

namespace Stock

def Empty (s : Stock) : Prop :=
  s.ringsAllocated = false ∧ s.inHopidHeld = false ∧ s.pathsOwned = false

@[mk_iff]
structure Agrees (s : Stock) : Prop where
  rings : s.rings = s.ringsAllocated
  inHopids : s.inHopids = if s.inHopidHeld then [s.activeRemoteHopid] else []
  paths : s.paths = if s.pathsOwned then some s.activeRemoteHopid else none
  enabled : s.pathsEnabled = true → s.pathsOwned = true
  handoff : s.terminalHandoff = true → s.Empty

/-- A bring-up may follow: a HopID and paths are held only by a session whose rings are up. -/
def Live (s : Stock) : Prop :=
  (s.ringsUp = true ∨ s.inHopidHeld = false ∧ s.pathsOwned = false) ∧ s.terminalHandoff = false

end Stock

/-- The paths of the session are not in use: they are not enabled yet, or a down is under way. -/
def Stock.Idle (s : Stock) : Prop :=
  s.pathsEnabled = false ∨ s.downing = true

/-- At most one in-HopID is held; while nobody holds `session_lock` the flags agree with the
backend; enabled paths are held until a down, and they lead to the peer of the session; and a link
whose last down completed holds nothing any more. -/
structure Stocked (l : Link) : Prop where
  single : l.hw.inHopids.length ≤ 1
  free : l.ctl.sessionLock = none →
    (stock l).Agrees ∧ (l.sh.state = .dead ∨ (stock l).Live)
  enabled : (stock l).Idle ∨ l.hw.paths = some l.sess.activeRemoteHopid
  remote : l.sess.pathsEnabled → l.sess.helloDone → l.sess.activeRemoteHopid = l.sess.remote.hopid
  vacated : l.his.vacated = true → l.sh.removing = true ∧ (stock l).Empty ∧ l.hw.Vacant

def AssetOp.acquires : AssetOp → Bool
  | .allocRings _ | .allocInHopid _ | .enablePaths _ => true
  | _ => false

def AssetOp.movesPaths : AssetOp → Bool
  | .enablePaths _ | .disablePaths _ | .quarantinePaths _ => true
  | _ => false

/-- What a backend call finds: it is paired, a link whose last down completed acquires nothing, and
paths in use are left alone. -/
structure AssetPre (o : AssetOp) (l : Link) : Prop where
  paired : o.Paired l.hw
  present : o.acquires = true → l.his.vacated = false
  idle : o.movesPaths = true → (stock l).Idle

/-- What a step finds.  The lock is released with flags that agree with the backend. -/
def PairPre : Op → Link → Prop
  | .held (.sess (.asset o)), l => AssetPre o l
  | .held (.sess (.setRingsAllocated b)), l => b = true → l.his.vacated = false
  | .held (.sess (.setPathsOwned b)), l => b = true → l.his.vacated = false
  | .held (.sess (.helloApply _)), l => l.sess.pathsEnabled = false
  | .held (.sess (.holdInHopid _)), l => l.his.vacated = false ∧ l.sess.pathsEnabled = false
  | .held (.sess (.bringUpDone _)), l => l.his.vacated = false ∧
      l.hw.paths = some l.sess.activeRemoteHopid ∧ l.sess.activeRemoteHopid = l.sess.remote.hopid
  | .held (.sess .quarantined), l | .held (.sess .pathsGone), l => (stock l).Idle
  | .held (.sess .downEnd), l => (stock l).Agrees
  | .hwDestroy, l => l.Vacant
  | .unlockSession, l => (stock l).Agrees ∧ (l.sh.state = .dead ∨ (stock l).Live)
  | _, _ => True

section Frame

variable {cfg : LinkCfg} {t u : Tid} {l l' : Link}

theorem stock_held {o : HeldOp} {i : o.Inp} {r : o.Res} (h : o.run cfg u i l = some (r, l')) :
    (∃ s : SessOp, o = .sess s) ∨ stock l' = stock l := by
  cases o with
  | sess o => exact .inl ⟨o, rfl⟩
  | _ => exact .inr (view_held stock h rfl)

def Link.outGone (l : Link) : Bool :=
  l.sess.terminalHandoff || !l.hw.outHopid

/-- A dead link stays dead, a link that is removed stays so, a last down stays the last, and the
out-HopID is given up for good. -/
structure Ages (l l' : Link) : Prop where
  dead : l.sh.state = .dead → l'.sh.state = .dead
  removing : l.sh.removing = true → l'.sh.removing = true
  vacated : l.his.vacated = true → l'.his.vacated = true
  outGone : l.outGone = true → l'.outGone = true

def aging (l : Link) : LinkState × Bool × Bool × Bool :=
  (l.sh.state, l.sh.removing, l.his.vacated, l.outGone)

theorem Ages.of_eq (h : aging l' = aging l) : Ages l l' := by
  simp only [aging, Prod.mk.injEq] at h
  obtain ⟨hstate, hremoving, hvacated, hgone⟩ := h
  exact ⟨hstate.trans, hremoving.trans, hvacated.trans, hgone.trans⟩

/-- No session section takes back that the link is dead, being removed or vacated. -/
theorem ages_sess (o : SessOp) (i : o.Inp) : Ages l (o.exec cfg l i).2 := by
  cases o with
  | helloApply remote =>
    apply Ages.of_eq
    simp only [SessOp.exec, helloApply]
    (repeat' split) <;> rfl
  | maybeUp =>
    refine ⟨fun hdead ↦ ?_, ?_, ?_, ?_⟩ <;> simp only [SessOp.exec, maybeUpLocked] <;>
      (repeat' split) <;> simp_all [Link.outGone]
  | markDead => exact ⟨fun _ ↦ rfl, id, id, id⟩
  | quarantined => exact ⟨fun _ ↦ rfl, id, id, fun _ ↦ rfl⟩
  | downBegin owner => exact ⟨fun hdead ↦ if_pos hdead, id, id, id⟩
  | downEnd => exact ⟨id, id, fun hvacated ↦ by simp [SessOp.exec, downEnd, hvacated], id⟩
  | asset o =>
    apply Ages.of_eq
    simp only [SessOp.exec, aging, Link.outGone]
    cases o <;> simp only [AssetOp.apply]
    split <;> rfl
  | bringUpBegin | setRingsAllocated | holdInHopid | setPathsOwned | startRings | stopRings
  | bringUpDone | bringUpUndo | pathsGone => exact .of_eq rfl
  | _ => exact .of_eq (view_quiet aging i rfl rfl)

theorem removing_base {o : BaseOp} {i : o.Inp} {r : o.Res} (h : o.run cfg i l = some (r, l'))
    (hremoving : l.sh.removing = true) : l'.sh.removing = true := by
  cases o with
  | read o =>
    obtain ⟨-, rfl⟩ := Prod.mk.inj (Option.some.inj h)
    exact hremoving
  | disp o =>
    obtain rfl := link_of_run h
    exact (view_disp (·.sh.removing) o rfl).trans hremoving
  | hw o =>
    cases o <;> simp only [BaseOp.run, HwOp.exec] at h <;> (repeat' split at h) <;> cases h <;>
      exact hremoving
  | ctl o =>
    cases o <;> simp only [BaseOp.run, CtlOp.exec, registerScan] at h <;> (repeat' split at h) <;>
      cases h <;> simp [setGates, markDead, hremoving]

/-- No backend call takes an out-HopID that was given up back. -/
theorem outGone_base {o : BaseOp} {i : o.Inp} {r : o.Res} (h : o.run cfg i l = some (r, l'))
    (hgone : l.outGone = true) : l'.outGone = true := by
  have hsess : l'.sess = l.sess := view_base (·.sess) h rfl
  have hout : l'.hw.outHopid = l.hw.outHopid ∨ l'.hw.outHopid = false := by
    cases o with
    | read o =>
      obtain ⟨-, rfl⟩ := Prod.mk.inj (Option.some.inj h)
      exact .inl rfl
    | disp o =>
      obtain rfl := link_of_run h
      exact .inl (view_disp (·.hw.outHopid) o rfl)
    | hw o =>
      cases o <;> simp only [BaseOp.run, HwOp.exec] at h <;> (repeat' split at h) <;> cases h <;>
        first | exact .inl rfl | exact .inr rfl
    | ctl o =>
      cases o <;> simp only [BaseOp.run, CtlOp.exec, registerScan] at h <;>
        (repeat' split at h) <;> cases h <;> simp [setGates, markDead]
  simp only [Link.outGone, hsess] at hgone ⊢
  obtain hout | hout := hout
  · rw [hout]
    exact hgone
  · simp [hout]

theorem ages_held {o : HeldOp} {i : o.Inp} {r : o.Res} (h : o.run cfg u i l = some (r, l')) :
    Ages l l' := by
  cases o with
  | base o =>
    refine ⟨fun hdead ↦ ?_, removing_base h, (view_base (·.his.vacated) h rfl).trans,
      outGone_base h⟩
    obtain hstate | hstate := state_base h
    · exact hstate.trans hdead
    · exact hstate
  | sess o =>
    obtain rfl := link_of_run h
    exact ages_sess o i
  | _ => exact .of_eq (view_held aging h rfl)

theorem ages_begin {e : Entry} (h : e.begin u l = some l') : Ages l l' :=
  .of_eq (view_begin aging h rfl)

theorem ages_run {o : Op} {i : o.Inp} {r : o.Res} (h : o.run cfg u i l = some (r, l')) :
    Ages l l' := by
  cases o with
  | held o => exact ages_held h
  | _ => exact .of_eq (view_run aging h rfl)

end Frame

section Invariant

variable {cfg : LinkCfg} {t u : Tid} {l l' : Link}

theorem Stock.Agrees.vacant (h : (stock l).Agrees) (hempty : (stock l).Empty) : l.hw.Vacant := by
  obtain ⟨hrings, hhopid, hpaths⟩ := hempty
  exact ⟨h.rings.trans hrings, h.inHopids.trans (by simp [hhopid]), h.paths.trans (by simp [hpaths])⟩

def SessOp.keepsStock : SessOp → Bool
  | .asset _ | .helloApply _ | .setRingsAllocated _ | .holdInHopid _ => false
  | .setPathsOwned _ | .bringUpDone _ => false
  | .bringUpUndo | .quarantined | .downBegin _ | .pathsGone | .downEnd => false
  | _ => true

theorem stock_keeps {o : SessOp} (i : o.Inp) (h : o.keepsStock = true) :
    stock (o.exec cfg l i).2 = stock l := by
  cases o with
  | maybeUp =>
    simp only [SessOp.exec, maybeUpLocked]
    (repeat' split) <;> rfl
  | _ => first | exact absurd h Bool.false_ne_true | rfl | exact view_quiet stock i rfl rfl

/-- A step that leaves the stock alone keeps the invariant. -/
theorem Stocked.congr (h : Stocked l) (hstock : stock l' = stock l)
    (hlock : l'.ctl.sessionLock = none → l.ctl.sessionLock = none) (hages : Ages l l') :
    Stocked l' := by
  have hhw : ∀ {α : Type} (f : Stock → α), f (stock l') = f (stock l) := fun f ↦ congrArg f hstock
  refine ⟨?_, fun hfree ↦ ?_, ?_, ?_, fun hvacated ↦ ?_⟩
  · have hhopids : l'.hw.inHopids = l.hw.inHopids := hhw (·.inHopids)
    exact hhopids ▸ h.single
  · obtain ⟨hagrees, hlive⟩ := h.free (hlock hfree)
    exact ⟨hstock ▸ hagrees, hlive.imp hages.dead (hstock ▸ ·)⟩
  · have henabled : (stock l).Idle ∨ (stock l).paths = some (stock l).activeRemoteHopid := h.enabled
    rw [← hstock] at henabled
    exact henabled
  · have hremote : (stock l).pathsEnabled → (stock l).helloDone →
        (stock l).activeRemoteHopid = (stock l).remoteHopid := h.remote
    rw [← hstock] at hremote
    exact hremote
  · obtain ⟨hremoving, hempty, hrings, hhopids, hpaths⟩ :=
      h.vacated ((hhw (·.vacated)).symm.trans hvacated)
    exact ⟨hages.removing hremoving, hstock ▸ hempty, (hhw (·.rings)).trans hrings,
      (hhw (·.inHopids)).trans hhopids, (hhw (·.paths)).trans hpaths⟩

theorem single_asset {o : AssetOp} {h : Hardware} (ans : o.Ans) (hsingle : h.inHopids.length ≤ 1)
    (hpaired : o.Paired h) : (o.apply h ans).inHopids.length ≤ 1 := by
  cases o with
  | allocInHopid hopid =>
    have hnone : h.inHopids = [] := hpaired
    simp only [AssetOp.apply]
    split
    · simp [hnone]
    · exact hsingle
  | releaseInHopid hopid => exact Nat.le_trans (List.length_erase_le) hsingle
  | _ =>
    simp only [AssetOp.apply]
    (repeat' split) <;> first | exact hsingle | simp

/-- Calls that acquire nothing leave a vacant backend vacant. -/
theorem vacant_asset {o : AssetOp} {h : Hardware} (ans : o.Ans) (hvacant : h.Vacant)
    (ho : o.acquires = false) : (o.apply h ans).Vacant := by
  obtain ⟨hrings, hhopids, hpaths⟩ := hvacant
  cases o with
  | allocRings e2e | allocInHopid hopid | enablePaths hopid => cases ho
  | disablePaths hopid | quarantinePaths hopid =>
    simp only [AssetOp.apply]
    split
    · simp [Hardware.Vacant, hrings, hhopids]
    · exact ⟨hrings, hhopids, hpaths⟩
  | freeRings => exact ⟨rfl, hhopids, hpaths⟩
  | releaseInHopid hopid => exact ⟨hrings, by simp [AssetOp.apply, hhopids], hpaths⟩

theorem single_sess (o : SessOp) (i : o.Inp) (h : l.hw.inHopids.length ≤ 1)
    (hpre : PairPre (.held (.sess o)) l) : (o.exec cfg l i).2.hw.inHopids.length ≤ 1 := by
  cases hkeeps : o.keepsStock with
  | true =>
    have hstock : (o.exec cfg l i).2.hw.inHopids = l.hw.inHopids :=
      congrArg (·.inHopids) (stock_keeps i hkeeps)
    exact hstock ▸ h
  | false =>
    cases o with
    | asset o => exact single_asset i h hpre.paired
    | helloApply remote =>
      simp only [SessOp.exec, helloApply]
      split <;> exact h
    | _ => first | exact h | cases hkeeps

/-- Enabled paths are held until a down. -/
theorem enabled_sess (o : SessOp) (i : o.Inp)
    (h : (stock l).Idle ∨ l.hw.paths = some l.sess.activeRemoteHopid)
    (hpre : PairPre (.held (.sess o)) l) :
    (stock (o.exec cfg l i).2).Idle ∨
      (o.exec cfg l i).2.hw.paths = some (o.exec cfg l i).2.sess.activeRemoteHopid := by
  cases hkeeps : o.keepsStock with
  | true =>
    have h : (stock l).Idle ∨ (stock l).paths = some (stock l).activeRemoteHopid := h
    have hstock : stock (o.exec cfg l i).2 = stock l := stock_keeps i hkeeps
    rw [← hstock] at h
    exact h
  | false =>
    cases o with
    | asset o =>
      cases o with
      | enablePaths hopid | disablePaths hopid | quarantinePaths hopid => exact .inl (hpre.idle rfl)
      | _ => exact h
    | helloApply remote =>
      simp only [SessOp.exec, helloApply]
      split <;> exact .inl (.inl hpre)
    | holdInHopid hopid => exact .inl (.inl hpre.2)
    | bringUpDone e2e => exact .inr hpre.2.1
    | quarantined | pathsGone => exact .inl (.inl rfl)
    | downBegin owner => exact .inl (.inr rfl)
    | downEnd =>
      have hagrees : (stock l).Agrees := hpre
      cases henabled : l.sess.pathsEnabled with
      | false => exact .inl (.inl henabled)
      | true => exact .inr (hagrees.paths.trans (if_pos (hagrees.enabled henabled)))
    | _ => first | exact h | cases hkeeps

/-- The paths that are enabled lead to the peer of the session. -/
theorem remote_sess (o : SessOp) (i : o.Inp)
    (h : l.sess.pathsEnabled → l.sess.helloDone → l.sess.activeRemoteHopid = l.sess.remote.hopid)
    (hpre : PairPre (.held (.sess o)) l) :
    (o.exec cfg l i).2.sess.pathsEnabled → (o.exec cfg l i).2.sess.helloDone →
      (o.exec cfg l i).2.sess.activeRemoteHopid = (o.exec cfg l i).2.sess.remote.hopid := by
  cases hkeeps : o.keepsStock with
  | true =>
    have h : (stock l).pathsEnabled → (stock l).helloDone →
        (stock l).activeRemoteHopid = (stock l).remoteHopid := h
    have hstock : stock (o.exec cfg l i).2 = stock l := stock_keeps i hkeeps
    rw [← hstock] at h
    exact h
  | false =>
    cases o with
    | helloApply remote =>
      have hpaths : l.sess.pathsEnabled = false := hpre
      simp only [SessOp.exec, helloApply]
      split <;> simp [hpaths]
    | holdInHopid hopid =>
      have hpaths : l.sess.pathsEnabled = false := hpre.2
      simp [SessOp.exec, holdInHopid, hpaths]
    | bringUpDone e2e => exact fun _ _ ↦ hpre.2.2
    | quarantined => simp [SessOp.exec, quarantined]
    | downBegin owner => simp [SessOp.exec, downBegin]
    | pathsGone => simp [SessOp.exec, pathsGone]
    | _ => first | exact h | cases hkeeps

/-- A link whose last down completed holds nothing any more. -/
theorem vacated_sess (o : SessOp) (i : o.Inp) (h : Stocked l) (hpre : PairPre (.held (.sess o)) l)
    (hvacated : (o.exec cfg l i).2.his.vacated = true) : (o.exec cfg l i).2.sh.removing = true ∧
      (stock (o.exec cfg l i).2).Empty ∧ (o.exec cfg l i).2.hw.Vacant := by
  have habsurd : l.his.vacated = true → l.his.vacated = false → False := by simp_all
  cases o with
  | asset o =>
    obtain ⟨hremoving, hempty, hvacant⟩ := h.vacated hvacated
    have hkeep : o.acquires = false := by
      cases hacq : o.acquires with
      | true => exact (habsurd hvacated (hpre.present hacq)).elim
      | false => rfl
    exact ⟨hremoving, hempty, vacant_asset i hvacant hkeep⟩
  | helloApply remote =>
    simp only [SessOp.exec, helloApply] at hvacated ⊢
    (repeat' split) <;> simp_all <;> exact h.vacated hvacated
  | setRingsAllocated b =>
    obtain ⟨hremoving, hempty, hvacant⟩ := h.vacated hvacated
    cases b with
    | true => exact (habsurd hvacated (hpre rfl)).elim
    | false => exact ⟨hremoving, ⟨rfl, hempty.2⟩, hvacant⟩
  | setPathsOwned b =>
    obtain ⟨hremoving, hempty, hvacant⟩ := h.vacated hvacated
    cases b with
    | true => exact (habsurd hvacated (hpre rfl)).elim
    | false => exact ⟨hremoving, ⟨hempty.1, hempty.2.1, rfl⟩, hvacant⟩
  | holdInHopid hopid | bringUpDone e2e => exact (habsurd hvacated hpre.1).elim
  | bringUpUndo =>
    obtain ⟨hremoving, hempty, hvacant⟩ := h.vacated hvacated
    exact ⟨hremoving, ⟨rfl, rfl, hempty.2.2⟩, hvacant⟩
  | quarantined =>
    obtain ⟨hremoving, hempty, hvacant⟩ := h.vacated hvacated
    exact ⟨hremoving, ⟨rfl, rfl, rfl⟩, hvacant⟩
  | downBegin owner => exact h.vacated hvacated
  | pathsGone =>
    obtain ⟨hremoving, hempty, hvacant⟩ := h.vacated hvacated
    exact ⟨hremoving, ⟨hempty.1, rfl, rfl⟩, hvacant⟩
  | downEnd =>
    have hagrees : (stock l).Agrees := hpre
    simp only [SessOp.exec, downEnd, Bool.or_eq_true, Bool.and_eq_true, Session.holdsNothing,
      Bool.not_eq_true'] at hvacated
    obtain hvacated | ⟨hremoving, ⟨hrings, hhopid⟩, hpaths⟩ := hvacated
    · exact h.vacated hvacated
    · exact ⟨hremoving, ⟨hrings, hhopid, hpaths⟩, hagrees.vacant ⟨hrings, hhopid, hpaths⟩⟩
  | _ =>
    have hlock : _ = l.ctl.sessionLock := sess_exec_sessionLock cfg l _ i
    exact (h.congr (stock_keeps i rfl) hlock.symm.trans (ages_sess _ i)).vacated hvacated

/-- Every session section keeps the invariant. -/
theorem stocked_sess (o : SessOp) (i : o.Inp) (h : Stocked l) (hlock : l.ctl.sessionLock = some t)
    (hpre : PairPre (.held (.sess o)) l) : Stocked (o.exec cfg l i).2 where
  single := single_sess o i h.single hpre
  free hfree := by
    have hlock' := (sess_exec_sessionLock cfg l o i).trans hlock
    exact absurd (hlock'.symm.trans hfree) (by simp)
  enabled := enabled_sess o i h.enabled hpre
  remote := remote_sess o i h.remote hpre
  vacated := vacated_sess o i h hpre

/-- Every paired step keeps the invariant. -/
theorem stocked_run {o : Op} {i : o.Inp} {r : o.Res} (h : Stocked l) (hlock : LockPre t o l)
    (hpre : PairPre o l) (hrun : o.run cfg t i l = some (r, l')) : Stocked l' := by
  have hages := ages_run hrun
  cases o with
  | held o =>
    obtain ⟨o, rfl⟩ | hstock := stock_held hrun
    · obtain rfl := link_of_run hrun
      exact stocked_sess o i h hlock hpre
    · exact h.congr hstock (fun hfree ↦ (held_run_lock hrun).symm.trans hfree) hages
  | lockSession =>
    simp only [Op.run] at hrun
    split at hrun <;> cases hrun
    exact h.congr rfl (by simp) hages
  | unlockSession =>
    simp only [Op.run] at hrun
    split at hrun <;> cases hrun
    exact ⟨h.single, fun _ ↦ hpre, h.enabled, h.remote, h.vacated⟩
  | _ =>
    exact h.congr (view_run stock hrun rfl) (view_run (·.ctl.sessionLock) hrun rfl).symm.trans hages

theorem stocked_begin {e : Entry} (h : Stocked l) (hbegin : e.begin t l = some l') : Stocked l' :=
  h.congr (view_begin stock hbegin rfl) (view_begin (·.ctl.sessionLock) hbegin rfl).symm.trans
    (ages_begin hbegin)

theorem stocked_init (h : (linkMachine cfg).init l) : Stocked l := by
  obtain ⟨random, requestSeq, autostart, rfl⟩ := h
  refine ⟨by simp [linkCreate], fun _ ↦ ⟨?_, .inr ⟨.inr ⟨rfl, rfl⟩, rfl⟩⟩, .inl (.inl rfl),
    by simp [linkCreate], by simp [linkCreate]⟩
  exact ⟨rfl, rfl, rfl, by simp [stock, linkCreate], by simp [stock, linkCreate]⟩

end Invariant

end ThunderboltStack.Tbframe
