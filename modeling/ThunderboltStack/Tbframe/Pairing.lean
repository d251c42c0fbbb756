import ThunderboltStack.Tbframe.Publication
import ThunderboltStack.Tbframe.Stock

/-!
# Backend calls are paired

The holder of `session_lock` takes a link from one state in which its flags agree with the backend
to another.  So every call that gives something up is made for what is held at that moment, and a
link that was destroyed holds nothing.
-/

namespace ThunderboltStack.Tbframe

open ThunderboltStack.Lib Machine

section Walk

variable (cfg : LinkCfg) (t : Tid) in
abbrev PairTriple {α : Type} (P : Link → Prop) (p : LinkProg α) (Q : α → Link → Prop) : Prop :=
  (linkMachine cfg).Triple (Stepped cfg) Stocked (fun _ ↦ PairPre) t P p Q

/-- What the holder of `session_lock` knows: the stock, and whether the link is dead or removed. -/
structure Held extends Stock where
  dead : Bool
  removing : Bool

/-- `t` holds `session_lock` and knows `v`. -/
structure Holds (t : Tid) (v : Held) (l : Link) : Prop where
  lock : l.ctl.sessionLock = some t
  stock : stock l = v.toStock
  dead : v.dead = true → l.sh.state = .dead
  removing : v.removing = true → l.sh.removing = true

def assetEffect (v : Held) : (o : AssetOp) → (o.Ans → Held → Prop) → Prop
  | .allocRings _, Q => v.vacated = false ∧
      ∀ ret, Q ret { v with rings := if ret = 0 then true else v.rings }
  | .allocInHopid hopid, Q => v.inHopids = [] ∧ v.vacated = false ∧
      ∀ ret, Q ret { v with inHopids := if 0 ≤ ret then [hopid] else [] }
  | .enablePaths hopid, Q => v.paths = none ∧ v.vacated = false ∧ v.Idle ∧
      ∀ ret, Q ret { v with paths := if ret = 0 ∨ ret = euclean then some hopid else none }
  | .disablePaths hopid, Q => v.paths = some hopid ∧ v.Idle ∧
      ∀ ret, Q ret { v with paths := if ret = 0 then none else some hopid }
  | .quarantinePaths hopid, Q => v.paths = some hopid ∧ v.Idle ∧
      Q (0 : ℤ) { v with paths := none, rings := false, inHopids := [] } ∧
      ∀ ret : ℤ, ret ≠ 0 → Q ret v
  | .freeRings, Q => v.rings = true ∧ Q () { v with rings := false }
  | .releaseInHopid hopid, Q => v.inHopids = [hopid] ∧ Q () { v with inHopids := [] }

def sessEffect (v : Held) : (o : SessOp) → (o.Res → Held → Prop) → Prop
  | .asset o, Q => assetEffect v o Q
  | .helloApply _, Q => v.pathsEnabled = false ∧
      ∀ ret helloDone remoteHopid, Q ret { v with helloDone, remoteHopid }
  | .bringUpBegin, Q => ∀ e2e, Q (v.remoteHopid, e2e) v
  | .setRingsAllocated b, Q => (b = true → v.vacated = false) ∧ Q () { v with ringsAllocated := b }
  | .holdInHopid hopid, Q => v.vacated = false ∧ v.pathsEnabled = false ∧
      Q () { v with inHopidHeld := true, activeRemoteHopid := hopid }
  | .setPathsOwned b, Q => (b = true → v.vacated = false) ∧ Q () { v with pathsOwned := b }
  | .markDead, Q => Q () { v with dead := true }
  | .bringUpDone _, Q => v.vacated = false ∧ v.paths = some v.activeRemoteHopid ∧
      v.activeRemoteHopid = v.remoteHopid ∧
      Q () { v with ringsUp := true, pathsOwned := true, pathsEnabled := true }
  | .bringUpUndo, Q => Q v.inHopidHeld { v with ringsAllocated := false, inHopidHeld := false }
  | .quarantined, Q => v.Idle ∧ Q () { v with
      terminalHandoff := true, ringsAllocated := false, ringsUp := false, pathsEnabled := false
      pathsOwned := false, inHopidHeld := false, dead := true }
  | .downBegin _, Q => ∀ d : DownLocals, d.hadRings = v.ringsAllocated →
      d.hadPaths = v.pathsOwned → d.hadHopid = v.inHopidHeld → d.remoteHopid = v.activeRemoteHopid →
      Q d { v with ringsUp := false, helloDone := false, downing := true }
  | .pathsGone, Q => v.Idle ∧
      Q () { v with pathsEnabled := false, pathsOwned := false, inHopidHeld := false }
  | .downEnd, Q => v.Agrees ∧ ∀ vacated, (v.removing = true → v.Empty → vacated = true) →
      Q () { v with downing := false, vacated }
  | _, Q => ∀ r, Q r v

/-- What a step of the holder of `session_lock` finds in the stock and does to it. -/
def stockEffect : Effect heldSig Held
  | .sess o, v, Q => sessEffect v o Q
  | .base (.read .terminalHandoff), v, Q => Q v.terminalHandoff v
  | .base (.read .ringsUp), v, Q => Q v.ringsUp v
  | .base (.read .stepEntry), v, Q => Q none v ∧
      ∀ x : Bool × DownReason × Bool × Bool × Bool, v.dead = false → v.vacated = false →
        (x.2.2.1 = false → v.ringsUp = false) → Q (some x) v
  | _, v, Q => ∀ r, Q r v

variable {cfg : LinkCfg} {t : Tid} {l l' : Link} {v : Held}

theorem Holds.sess (h : Holds t v l) {o : SessOp} (i : o.Inp) {s : Stock}
    (hs : Tbframe.stock (o.exec cfg l i).2 = s) :
    Holds t { v with toStock := s } (o.exec cfg l i).2 :=
  have hages : Ages l (o.exec cfg l i).2 := ages_sess o i
  ⟨(sess_exec_sessionLock cfg l o i).trans h.lock, hs, fun hd ↦ hages.dead (h.dead hd),
    fun hr ↦ hages.removing (h.removing hr)⟩

/-- A backend call finds and does what its effect says. -/
theorem assetEffect_exec {o : AssetOp} {Q : o.Ans → Held → Prop} (h : assetEffect v o Q)
    (hl : Holds t v l) (ans : o.Ans) : AssetPre o l ∧
      ∃ v', Holds t v' { l with hw := o.apply l.hw ans } ∧ Q ans v' := by
  obtain ⟨s, dead, removing⟩ := v
  obtain rfl : stock l = s := hl.stock
  have hset : ∀ {s : Stock}, stock { l with hw := o.apply l.hw ans } = s →
      Q ans ⟨s, dead, removing⟩ → ∃ v', Holds t v' { l with hw := o.apply l.hw ans } ∧ Q ans v' :=
    fun {s} hs hQ ↦ ⟨⟨s, dead, removing⟩, ⟨hl.lock, hs, hl.dead, hl.removing⟩, hQ⟩
  cases o with
  | allocRings => exact ⟨⟨trivial, fun _ ↦ h.1, by rintro ⟨⟩⟩, hset rfl (h.2 ans)⟩
  | allocInHopid hopid =>
    have hnone : l.hw.inHopids = [] := h.1
    exact ⟨⟨hnone, fun _ ↦ h.2.1, by rintro ⟨⟩⟩,
      hset (by simp [stock, AssetOp.apply, hnone]) (h.2.2 ans)⟩
  | enablePaths hopid =>
    have hnone : l.hw.paths = none := h.1
    exact ⟨⟨hnone, fun _ ↦ h.2.1, fun _ ↦ h.2.2.1⟩,
      hset (by simp [stock, AssetOp.apply, hnone]) (h.2.2.2 ans)⟩
  | disablePaths hopid =>
    have hsome : l.hw.paths = some hopid := h.1
    exact ⟨⟨hsome, by rintro ⟨⟩, fun _ ↦ h.2.1⟩,
      hset (by simp [stock, AssetOp.apply, hsome]) (h.2.2 ans)⟩
  | quarantinePaths hopid =>
    refine ⟨⟨h.1, by rintro ⟨⟩, fun _ ↦ h.2.1⟩, ?_⟩
    by_cases hret : ans = 0
    · exact hset (by simp [stock, AssetOp.apply, hret]) (hret ▸ h.2.2.1)
    · exact hset (by simp [stock, AssetOp.apply, hret]) (h.2.2.2 ans hret)
  | freeRings => exact ⟨⟨h.1, by rintro ⟨⟩, by rintro ⟨⟩⟩, hset rfl h.2⟩
  | releaseInHopid hopid =>
    have hheld : l.hw.inHopids = [hopid] := h.1
    exact ⟨⟨hheld, by rintro ⟨⟩, by rintro ⟨⟩⟩, hset (by simp [stock, AssetOp.apply, hheld]) h.2⟩

/-- A session section finds and does what its effect says. -/
theorem sessEffect_exec {o : SessOp} {Q : o.Res → Held → Prop} (h : sessEffect v o Q)
    (hl : Holds t v l) (i : o.Inp) : PairPre (.held (.sess o)) l ∧
      ∃ v', Holds t v' (o.exec cfg l i).2 ∧ Q (o.exec cfg l i).1 v' := by
  obtain ⟨s, dead, removing⟩ := v
  obtain rfl : stock l = s := hl.stock
  cases o with
  | asset o => exact assetEffect_exec h hl i
  | helloApply remote =>
    refine ⟨h.1, _, hl.sess i rfl, ?_⟩
    simp only [SessOp.exec, helloApply]
    split
    · exact h.2 _ _ _
    · exact h.2 _ _ _
  | bringUpBegin => exact ⟨trivial, _, hl.sess i rfl, h _⟩
  | setRingsAllocated b | setPathsOwned b => exact ⟨h.1, _, hl.sess i rfl, h.2⟩
  | holdInHopid hopid => exact ⟨⟨h.1, h.2.1⟩, _, hl.sess i rfl, h.2.2⟩
  | markDead =>
    refine ⟨trivial, _, ?_, h⟩
    exact ⟨hl.lock, rfl, fun _ ↦ rfl, hl.removing⟩
  | bringUpDone e2e => exact ⟨⟨h.1, h.2.1, h.2.2.1⟩, _, hl.sess i rfl, h.2.2.2⟩
  | bringUpUndo => exact ⟨trivial, _, hl.sess i rfl, h⟩
  | quarantined =>
    refine ⟨h.1, _, ?_, h.2⟩
    exact ⟨hl.lock, rfl, fun _ ↦ rfl, hl.removing⟩
  | downBegin owner => exact ⟨trivial, _, hl.sess i rfl, h _ rfl rfl rfl rfl⟩
  | pathsGone => exact ⟨h.1, _, hl.sess i rfl, h.2⟩
  | downEnd =>
    refine ⟨h.1, _, hl.sess i rfl, h.2 _ fun hremoving hempty ↦ ?_⟩
    obtain ⟨hrings, hhopid, hpaths⟩ := hempty
    have hrings : l.sess.ringsAllocated = false := hrings
    have hhopid : l.sess.inHopidHeld = false := hhopid
    have hpaths : l.sess.pathsOwned = false := hpaths
    simp [SessOp.exec, downEnd, Session.holdsNothing, hl.removing hremoving, hrings, hhopid, hpaths]
  | _ => exact ⟨trivial, _, hl.sess i (stock_keeps i rfl), h _⟩

theorem Holds.congr (h : Holds t v l) (hlock : l'.ctl.sessionLock = l.ctl.sessionLock)
    (hstock : Tbframe.stock l' = Tbframe.stock l) (hages : Ages l l') : Holds t v l' where
  lock := hlock.trans h.lock
  stock := hstock.trans h.stock
  dead hd := hages.dead (h.dead hd)
  removing hr := hages.removing (h.removing hr)

/-- What the holder of the lock knows is not changed by other threads. -/
theorem stable_holds :
    (linkMachine cfg).Stable (Stepped cfg) Stocked (fun _ ↦ PairPre) t (Holds t v) := by
  rintro l l' h ⟨u, hne, hmove⟩
  have howned := owned_move lockKnown_stepped hne h.lock hmove
  cases hmove with
  | enter _ _ henter =>
    obtain ⟨-, hbegin, -⟩ := enter_eq_some henter
    exact h.congr (congrArg (·.2.1) howned) (view_begin stock hbegin rfl) (ages_begin hbegin)
  | @exec o i r hI hpre hG hrun =>
    refine h.congr (congrArg (·.2.1) howned) ?_ (ages_run hrun)
    have hrun : o.run cfg u i l = some (r, l') := hrun
    cases o with
    | held o =>
      obtain ⟨o, rfl⟩ | hstock := stock_held hrun
      · have hu : l.ctl.sessionLock = some u := hG.1.1.2.2
        exact absurd (Option.some.inj (hu.symm.trans h.lock)) hne
      · exact hstock
    | _ => exact view_run stock hrun rfl

/-- A step that goes forward starts on a live link, and without a completed HELLO no rings are up. -/
theorem stepEntry_eq_some {x : Bool × DownReason × Bool × Bool × Bool} (hI : Stocked l)
    (hphased : Phased l) (hl : Holds t v l) (hx : stepEntry l = some x) :
    v.dead = false ∧ v.vacated = false ∧ (x.2.2.1 = false → v.ringsUp = false) := by
  simp only [stepEntry] at hx
  split at hx
  · cases hx
  next hgo =>
  simp only [Bool.or_eq_true, beq_iff_eq, not_or] at hgo
  cases hx
  refine ⟨Bool.eq_false_iff.mpr fun hd ↦ hgo.2 (hl.dead hd), Bool.eq_false_iff.mpr fun hv ↦ ?_,
    fun hhello ↦ ?_⟩
  · rw [← hl.stock] at hv
    exact hgo.1.1 (hI.vacated hv).1
  · rw [← hl.stock]
    exact hphased.ringsDown (hphased.closed hhello)

/-- The holder of the lock knows the stock after each of its steps. -/
theorem tracks_stock : (linkMachine cfg).Tracks (Stepped cfg) Stocked (fun _ ↦ PairPre) t (Holds t)
    (heldEffect stockEffect) where
  stable _ := stable_holds
  exec o v Q h l i r l' hI hl hG hrun := by
    have hrun : o.run cfg t i l = some (r, l') := hrun
    cases o with
    | held o =>
      have hrun : o.run cfg t i l = some (r, l') := hrun
      have hlock := held_run_lock hrun
      have hages := ages_held hrun
      cases o with
      | sess o =>
        obtain ⟨rfl, rfl⟩ := Prod.mk.inj (Option.some.inj hrun)
        exact sessEffect_exec h hl i
      | base o =>
        refine ⟨trivial, v, hl.congr hlock (view_base stock hrun rfl) hages, ?_⟩
        cases o with
        | read o =>
          obtain ⟨rfl, rfl⟩ := Prod.mk.inj (Option.some.inj hrun)
          cases o with
          | terminalHandoff =>
            have hsame : l.sess.terminalHandoff = v.terminalHandoff :=
              congrArg (·.terminalHandoff) hl.stock
            exact (congrArg (Q · v) hsame).mpr h
          | ringsUp =>
            have hsame : l.sess.ringsUp = v.ringsUp := congrArg (·.ringsUp) hl.stock
            exact (congrArg (Q · v) hsame).mpr h
          | stepEntry =>
            change Q (stepEntry l) v
            cases hx : stepEntry l with
            | none => exact h.1
            | some x =>
              obtain ⟨hlive, hvacated, hrings⟩ := stepEntry_eq_some hI hG.2.1.phased hl hx
              exact h.2 x hlive hvacated hrings
          | _ => exact h _
        | _ => exact h r
      | _ => exact ⟨trivial, v, hl.congr hlock (view_held stock hrun rfl) hages, h r⟩
    | _ => exact h.elim

theorem keeps_base (o : BaseOp) : stockEffect.Keeps v (.base o) := by
  intro Q h
  cases o with
  | read o => cases o <;> first | exact h | exact h _ | exact ⟨h _, fun _ _ _ _ ↦ h _⟩
  | _ => exact h

theorem wlp_keeps_rx {α : Type} {Q : α → Held → Prop} (p : RxProg α) (h : ∀ a, Q a v) :
    p.wlp (stockEffect.lift rxHeld) Q v :=
  (Prog.wlp_lift ..).mp (Prog.wlp_of_all (all_rx keeps_base (fun _ _ h ↦ h) p) h)

theorem wlp_keeps_net {α : Type} {Q : α → Held → Prop} (p : NetProg α) (h : ∀ a, Q a v) :
    p.wlp (stockEffect.lift netHeld) Q v :=
  (Prog.wlp_lift ..).mp (Prog.wlp_of_all (all_net keeps_base (fun _ _ h ↦ h) p) h)

attribute [local simp] stockEffect sessEffect assetEffect liftM monadLift

def Held.Settled (v : Held) : Prop :=
  v.Agrees ∧ (v.dead = true ∨ v.Live)

variable {Q : ℤ → Held → Prop} {removing : Bool}

/-- The stock during a bring-up of `hopid`, whose in-HopID is held as the flag says. -/
def Held.Rising (hopid : UInt16) (v : Held) : Prop :=
  v.rings = true ∧ v.ringsAllocated = true ∧
    (v.inHopids = if v.inHopidHeld then [hopid] else []) ∧
    (v.inHopidHeld = true → v.activeRemoteHopid = hopid) ∧ v.pathsEnabled = false ∧
    v.terminalHandoff = false ∧ v.vacated = false

attribute [local simp] Held.Settled Stock.agrees_iff Stock.Empty Stock.Live Stock.Idle Held.Rising

theorem wlp_bringUpFreeRings {hopid : UInt16} {ret : ℤ} (h : v.Rising hopid)
    (hpaths : v.paths = none) (howned : v.pathsOwned = false)
    (hQ : ∀ v' : Held, v'.removing = v.removing → v'.Settled → Q ret v') :
    (bringUpFreeRings hopid ret).wlp stockEffect Q v := by
  simp [bringUpFreeRings]
  refine ⟨h.1, fun hheld ↦ ⟨by simp_all, hQ _ rfl ?_⟩, fun hheld ↦ hQ _ rfl ?_⟩ <;> simp_all

/-- A quarantine hands everything over and leaves a dead link, or changes nothing. -/
theorem wlp_quarantinePaths {hopid : UInt16} {Q : Bool → Held → Prop}
    (hpaths : v.paths = some hopid) (hidle : v.Idle) (hfailed : Q false v)
    (hover : ∀ v' : Held, v'.removing = v.removing → v'.Agrees → v'.Empty →
      v'.terminalHandoff = true → v'.dead = true → Q true v') :
    (quarantinePaths cfg hopid).wlp stockEffect Q v := by
  have hover := hover { v with
    paths := none, rings := false, inHopids := [], terminalHandoff := true, ringsAllocated := false
    ringsUp := false, pathsEnabled := false, pathsOwned := false, inHopidHeld := false, dead := true }
  simp_all +contextual [quarantinePaths]

/-- A tuple that the backend still owns after an unclean roll-back is disconnected once more, handed
over, or kept by a dead link. -/
theorem wlp_bringUpUnclean {hopid : UInt16} {ret : ℤ} (h : v.Rising hopid)
    (hheld : v.inHopidHeld = true) (hpaths : v.paths = some hopid)
    (hQ : ∀ ret (v' : Held), v'.removing = v.removing → v'.Settled → Q ret v') :
    (bringUpUnclean cfg hopid ret).wlp stockEffect Q v := by
  simp +contextual [bringUpUnclean, stopRings, notifyDown, hpaths]
  refine ⟨h.2.2.2.2.2.2, .inl h.2.2.2.2.1, fun disconnectRet ↦ ⟨fun hret ↦ ?_, fun hret ↦ ?_⟩⟩
  · exact wlp_bringUpFreeRings h rfl rfl (hQ ret)
  · refine wlp_quarantinePaths rfl (.inl h.2.2.2.2.1) ⟨fun _ ↦ hQ _ _ rfl ?_, by simp⟩
      fun v' hrem hagrees _ _ hdead ↦ ⟨by simp, fun _ ↦ hQ _ v' hrem ⟨hagrees, .inl hdead⟩⟩
    simp_all

/-- A session without rings holds neither a HopID nor paths. -/
theorem Stock.Agrees.nothing {s : Stock} (h : s.Agrees) (hlive : s.Live) (hdown : s.ringsUp = false) :
    s.inHopids = [] ∧ s.inHopidHeld = false ∧ s.paths = none ∧ s.pathsOwned = false ∧
      s.pathsEnabled = false ∧ s.terminalHandoff = false := by
  simp_all

/-- `tbframe_link_bring_up` acquires what a session needs, or gives back what it acquired. -/
theorem wlp_bringUp (hagrees : v.Agrees) (hlive : v.Live) (hvacated : v.vacated = false)
    (hdown : v.ringsUp = false)
    (hQ : ∀ ret (v' : Held), v'.removing = v.removing → v'.Settled → Q ret v') :
    (bringUp cfg).wlp stockEffect Q v := by
  have hfree : ∀ {hopid ret v'}, v'.removing = v.removing → v'.Rising hopid → v'.paths = none →
      v'.pathsOwned = false → (bringUpFreeRings hopid ret).wlp stockEffect Q v' :=
    fun hrem h hpaths howned ↦ wlp_bringUpFreeRings h hpaths howned fun v' hrem' ↦
      hQ _ v' (hrem'.trans hrem)
  have hnone := hagrees.nothing hlive hdown
  simp [bringUp, bringUpStopRings, stopRings, hvacated, hnone]
  intro ret
  constructor
  · intro hrings hopidRet
    constructor
    · intro hrefused
      exact hfree rfl (by simp [hrings, hrefused]) rfl rfl
    · intro hheld n
      refine wlp_keeps_rx _ fun posted ↦ ?_
      simp [hrings, hheld]
      constructor
      · intro hposted enabled
        constructor
        · intro hunclean
          exact wlp_bringUpUnclean (by simp) rfl (by simp [hunclean]) hQ
        · intro hclean
          constructor
          · intro hok
            exact ⟨.inl hok, hQ _ _ rfl (by simp [hok])⟩
          · intro hfailed
            exact hfree rfl (by simp) (by simp [hclean, hfailed]) rfl
      · intro hunposted
        exact hfree rfl (by simp) rfl rfl
  · intro hrefused
    exact hQ _ _ rfl (by simp [hrefused, hagrees.rings])

def DownLocals.Of (d : DownLocals) (v : Held) : Prop :=
  d.hadRings = v.ringsAllocated ∧ d.hadPaths = v.pathsOwned ∧ d.hadHopid = v.inHopidHeld ∧
    d.remoteHopid = v.activeRemoteHopid

/-- The disconnect of a down gives up the paths, or leaves a dead link with everything or, after a
quarantine, with nothing. -/
theorem wlp_downDisconnect {d : DownLocals} {Q : ℤ × Bool → Held → Prop} (hagrees : v.Agrees)
    (hd : d.Of v) (hdowning : v.downing = true)
    (hfailed : ∀ ret (v' : Held), v'.removing = v.removing → v'.Agrees → v'.dead = true →
      (ret = 0 → v'.Empty ∧ v'.terminalHandoff = true) → Q (ret, true) v')
    (hgone : Q (0, false)
      { v with paths := none, pathsEnabled := false, pathsOwned := false, inHopidHeld := false }) :
    (downDisconnect cfg d).wlp stockEffect Q v := by
  obtain ⟨hrings, hpaths, hhopid, hremote⟩ := hd
  have hheld := hagrees.paths
  cases howned : v.pathsOwned with
  | false => simp_all [downDisconnect, downDisable, stopRings]
  | true =>
    rw [howned, if_pos rfl, ← hremote] at hheld
    have hkept : { v with paths := some d.remoteHopid, dead := true }.Agrees :=
      { hagrees with paths := hheld.symm.trans hagrees.paths }
    have hquarantine : ∀ ret : ℤ, ret ≠ 0 → (quarantinePaths cfg d.remoteHopid).wlp stockEffect
        (fun handedOff v ↦ Q (if handedOff then 0 else ret, true) v)
        { v with paths := some d.remoteHopid, dead := true } := by
      intro ret hret
      refine wlp_quarantinePaths rfl (.inr hdowning) ?_ fun v' hrem hagrees hempty hover hdead ↦ ?_
      · exact hfailed ret _ rfl hkept rfl fun h ↦ absurd h hret
      · exact hfailed 0 v' hrem hagrees hdead fun _ ↦ ⟨hempty, hover⟩
    simp +contextual [downDisconnect, downDisable, stopRings, hpaths.trans howned]
    refine ⟨hheld, .inr hdowning, fun ret ↦ ?_⟩
    have hend : (ret = 0 → v.Idle ∧ Q (0, false) _) ∧ (¬ ret = 0 → _) :=
      ⟨fun _ ↦ ⟨.inr hdowning, hgone⟩, hquarantine ret⟩
    exact ⟨fun _ ↦ hend, fun _ ↦ hend⟩

theorem wlp_downRelease_failed {d : DownLocals} {ret : ℤ} {terminal : Bool}
    {Q : Unit → Held → Prop} (h : ret = 0 → v.Empty ∧ v.terminalHandoff = true) (hQ : Q () v) :
    (downRelease d ret terminal).wlp stockEffect Q v := by
  obtain ⟨⟨⟩, dead, removing⟩ := v
  by_cases hret : ret = 0 <;> simp_all [downRelease]

/-- After a successful disconnect the HopID is released, and the rings by a terminal down. -/
theorem wlp_downRelease_gone {d : DownLocals} {terminal : Bool} {Q : Unit → Held → Prop}
    (hagrees : v.Agrees) (hd : d.Of v)
    (hQ : ∀ v' : Held, v'.removing = v.removing → v'.dead = v.dead → v'.Agrees →
      (terminal = true → v'.Empty) → (v.terminalHandoff = false → v'.Live) → Q () v') :
    (downRelease d 0 terminal).wlp stockEffect Q
      { v with paths := none, pathsEnabled := false, pathsOwned := false, inHopidHeld := false } := by
  obtain ⟨hrings, -, hhopid, hremote⟩ := hd
  have hheld : v.inHopidHeld = true → v.inHopids = [v.activeRemoteHopid] :=
    fun h ↦ hagrees.inHopids.trans (if_pos h)
  have hnone : v.inHopidHeld = false → v.inHopids = [] :=
    fun h ↦ hagrees.inHopids.trans (by simp [h])
  -- all ends have the rings or not, and nothing else
  have hdone : ∀ b : Bool, (terminal = true → b = false) → (v.terminalHandoff = true → b = false) →
      Q () { v with
        rings := b, ringsAllocated := b, inHopids := [], paths := none, pathsEnabled := false
        pathsOwned := false, inHopidHeld := false } := by
    intro b hterminal hover
    exact hQ _ rfl rfl ⟨rfl, rfl, rfl, by simp, fun h ↦ ⟨hover h, rfl, rfl⟩⟩
      (fun h ↦ ⟨hterminal h, rfl, rfl⟩) fun h ↦ ⟨.inr ⟨rfl, rfl⟩, h⟩
  cases hhand : v.terminalHandoff with
  | true =>
    -- after a quarantine there is nothing to release
    obtain ⟨halloc, hhopid, -⟩ := hagrees.handoff hhand
    have hrings : v.rings = false := hagrees.rings.trans halloc
    have hempty := hdone false (fun _ ↦ rfl) fun _ ↦ rfl
    rw [hhand] at hempty
    simp [downRelease, halloc, hrings, hnone hhopid]
    exact ⟨fun _ ↦ hempty, fun _ ↦ hempty⟩
  | false =>
    cases terminal with
    | false =>
      have hkept := hdone v.ringsAllocated (by simp) (by simp [hhand])
      simp [downRelease, hhopid, hremote, hagrees.rings]
      constructor
      · intro h
        exact ⟨hheld h, by simpa [hhand] using hkept⟩
      · intro h
        simpa [hhand, hnone h] using hkept
    | true =>
      have hfreed := hdone false (fun _ ↦ rfl) fun _ ↦ rfl
      have hhopids : ∀ {rings : Bool}, rings = false → (v.inHopidHeld = true →
          v.inHopids = [v.activeRemoteHopid] ∧ Q () { v with
            rings, ringsAllocated := false, inHopids := [], paths := none, pathsEnabled := false
            pathsOwned := false, inHopidHeld := false, terminalHandoff := false }) ∧
          (v.inHopidHeld = false → Q () { v with
            rings, ringsAllocated := false, paths := none, pathsEnabled := false
            pathsOwned := false, inHopidHeld := false, terminalHandoff := false }) := by
        rintro _ rfl
        constructor
        · intro h
          exact ⟨hheld h, by simpa [hhand] using hfreed⟩
        · intro h
          simpa [hhand, hnone h] using hfreed
      simp [downRelease, hrings, hhopid, hremote]
      constructor
      · intro halloc
        exact ⟨hagrees.rings.trans halloc, hhopids rfl⟩
      · intro hunalloc
        exact hhopids (hagrees.rings.trans hunalloc)

/-- The quiesce part of a down leaves the stock alone, and a terminal reason stays terminal. -/
theorem wlp_downQuiesce {reason : DownReason} {d : DownLocals} {Q : DownReason → Held → Prop}
    (hQ : ∀ r dead, (reason.terminal = true → r.terminal = true) → (v.dead = true → dead = true) →
      Q r { v with dead }) :
    (downQuiesce reason d).wlp stockEffect Q v := by
  have hflush : ∀ (n : ℕ) (flush : List ℕ) {R : Unit → Held → Prop} {v : Held}, R () v →
      (Prog.forEach flush fun qf ↦ (coreTxComplete n qf true).lift txHeld).wlp stockEffect R v :=
    fun n flush _ _ h ↦ Prog.wlp_of_all
      (.forEach (fun qf ↦ all_tx keeps_base (fun _ _ h ↦ h) (coreTxComplete n qf true)) flush)
      fun _ ↦ h
  simp [downQuiesce]
  exact ⟨fun flush n ↦ hflush n flush ⟨fun _ ↦ hQ _ _ id id, fun _ ↦ hQ _ _ id id⟩, fun flush n ↦
    hflush n flush ⟨fun _ ↦ hQ _ _ (fun _ ↦ rfl) fun _ ↦ rfl,
      fun _ ↦ hQ _ _ (fun _ ↦ rfl) fun _ ↦ rfl⟩⟩

/-- What the disconnect and the release of a down leave agrees with the flags, and it is nothing if
the disconnect succeeded and the down is terminal. -/
theorem wlp_downDisconnect_release {d : DownLocals} {reason : DownReason}
    {Q : ℤ × Bool → Held → Prop} (hagrees : v.Agrees) (hd : d.Of v) (hdowning : v.downing = true)
    (hlive : v.dead = true ∨ v.terminalHandoff = false)
    (hQ : ∀ r (v' : Held), v'.removing = v.removing → v'.Settled →
      (r.1 = 0 → reason.terminal = true → v'.Empty) → Q r v') :
    (downDisconnect cfg d).wlp stockEffect (fun r v ↦
      (downRelease d r.1 (if r.2 then DownReason.deadHw else reason).terminal).wlp stockEffect
        (fun _ v ↦ Q r v) v) v := by
  refine wlp_downDisconnect hagrees hd hdowning (fun ret v' hrem hagrees hdead hempty ↦ ?_) ?_
  · exact wlp_downRelease_failed hempty
      (hQ _ v' hrem ⟨hagrees, .inl hdead⟩ fun hret _ ↦ (hempty hret).1)
  · refine wlp_downRelease_gone hagrees hd fun v' hrem hdead hagrees hempty hlive' ↦ ?_
    exact hQ _ v' hrem ⟨hagrees, hlive.imp hdead.trans hlive'⟩ fun _ hterm ↦ hempty hterm

/-- `tbframe_link_down_session` takes the stock from one that agrees with the flags to another; a
terminal down of a link that is being removed leaves nothing, unless it returns an error. -/
theorem wlp_downSession {reason : DownReason} {owner : SessionOwner} (hagrees : v.Agrees)
    (hlive : v.dead = true ∨ v.terminalHandoff = false)
    (hQ : ∀ ret (v' : Held), v'.removing = v.removing → v'.Settled →
      (v.removing = true → ret = 0 → reason.terminal = true → v'.vacated = true) → Q ret v') :
    (downSession cfg reason owner).wlp stockEffect Q v := by
  simp [downSession, notifyDown, -Stock.agrees_iff, -Stock.Empty, -Bool.forall_bool]
  intro d hrings hpaths hhopid hremote
  refine wlp_downQuiesce fun reason' dead hreason hdead shutdown ↦ ?_
  have hend : ∀ (r : ℤ × Bool) (v' : Held), v'.removing = v.removing → v'.Settled →
      (r.1 = 0 → reason'.terminal = true → v'.Empty) → v'.Agrees ∧
        ∀ vacated, (v'.removing = true → v'.Empty → vacated = true) →
          Q r.1 { v' with downing := false, vacated } :=
    fun r v' hrem hset hempty ↦ ⟨hset.1, fun vacated hvac ↦ hQ _ _ hrem ⟨{ hset.1 with }, hset.2⟩
      fun hremoving hret hterm ↦ hvac (hrem.trans hremoving) (hempty hret (hreason hterm))⟩
  refine ⟨fun _ _ _ ↦ wlp_keeps_net _ fun _ ↦ ?_, fun _ ↦ ?_⟩
  all_goals
    refine wlp_downDisconnect_release { hagrees with } ⟨hrings, hpaths, hhopid, hremote⟩ rfl
      (hlive.imp hdead id) fun r v' hrem hset hempty _ ↦ ?_
    have h := hend r v' hrem hset hempty
    exact ⟨fun _ ↦ ⟨fun _ ↦ h, fun _ ↦ h⟩, fun _ ↦ ⟨fun _ ↦ h, fun _ ↦ h⟩⟩

/-- A HELLO completes while no paths are enabled. -/
theorem wlp_helloOnce {Q : Except ℤ Unit → Held → Prop} (hpaths : v.pathsEnabled = false)
    (hQ : ∀ r helloDone remoteHopid, Q r { v with helloDone, remoteHopid }) :
    (helloOnce cfg).wlp stockEffect Q v := by
  simp [helloOnce]
  refine Prog.wlp_of_all ((heldCode_all keeps_base).helloRounds
    (all_net keeps_base (fun _ _ h ↦ h) _) (fun _ ↦ all_sess fun _ h ↦ h) 2) fun r ↦ ?_
  cases r with
  | error e => exact hQ _ _ _
  | ok remote => simpa [hpaths] using fun ret ↦ hQ _

def Held.Ready (v : Held) : Prop :=
  v.Agrees ∧ v.Live ∧ v.vacated = false

theorem wlp_stepHello {b : Bool} {Q : Bool → Held → Prop} (hready : v.Ready)
    (hb : b = false → v.ringsUp = false) (hQ : ∀ go (v' : Held), v'.Ready → Q go v') :
    (stepHello cfg b).wlp stockEffect Q v := by
  obtain ⟨hagrees, hlive, hvacated⟩ := hready
  cases b with
  | true => exact hQ true v ⟨hagrees, hlive, hvacated⟩
  | false =>
    simp [stepHello]
    refine wlp_helloOnce (by simp_all) fun r helloDone remoteHopid ↦ ?_
    have hready : ∀ go, Q go { v with helloDone, remoteHopid } :=
      fun go ↦ hQ go _ ⟨{ hagrees with }, hlive, hvacated⟩
    cases r with
    | ok _ => exact hready true
    | error e => simpa using fun _ ↦ ⟨fun _ ↦ hready _, fun _ ↦ hready _⟩

theorem wlp_stepBringUp {b : Bool} {Q : Bool → Held → Prop} (hready : v.Ready)
    (hQ : ∀ go (v' : Held), v'.Settled → Q go v') : (stepBringUp cfg b).wlp stockEffect Q v := by
  have hset := fun go ↦ hQ go v ⟨hready.1, .inr hready.2.1⟩
  simp [stepBringUp]
  refine ⟨fun _ ↦ hset _, fun _ ↦ ⟨fun _ ↦ hset _, fun hdown ↦ ?_⟩⟩
  exact wlp_bringUp hready.1 hready.2.1 hready.2.2 hdown fun ret v' _ hv ↦
    ⟨fun _ ↦ hQ _ v' hv, fun _ ↦ hQ _ v' hv⟩

/-- `__tbframe_link_session_step`. -/
theorem wlp_sessionStep {Q : Unit → Held → Prop} (hset : v.Settled)
    (hQ : ∀ v' : Held, v'.Settled → Q () v') : (sessionStepLocked cfg).wlp stockEffect Q v := by
  simp [sessionStepLocked, stepForward, -Prod.forall, -Bool.forall_bool]
  refine ⟨hQ v hset, fun x hdead hvacated hrings ↦ ?_⟩
  obtain ⟨down, reason, helloDone, ringsUp, readySent⟩ := x
  simp [-Bool.forall_bool]
  refine ⟨fun _ ↦ wlp_downSession hset.1 (hset.2.imp id And.right) fun _ v' _ hset _ ↦ hQ v' hset,
    fun _ ↦ ?_⟩
  have hready : v.Ready := ⟨hset.1, hset.2.resolve_left (by simp [hdead]), hvacated⟩
  refine wlp_stepHello hready hrings fun go v' hready ↦
    ⟨fun _ ↦ ?_, fun _ ↦ hQ v' ⟨hready.1, .inr hready.2.1⟩⟩
  refine wlp_stepBringUp hready fun go v' hset ↦ ⟨fun _ ↦ ?_, fun _ ↦ hQ v' hset⟩
  refine Prog.wlp_of_all (all_stepReady keeps_base (fun _ _ h ↦ h) (fun _ _ h ↦ h)
    (fun _ h ↦ h) _) fun go ↦ ⟨fun _ ↦ ?_, fun _ ↦ hQ v' hset⟩
  refine Prog.wlp_of_all ((heldCode_all keeps_base).proveDataPath
    (all_net keeps_base (fun _ _ h ↦ h) _)
    (all_tx keeps_base (fun _ _ h ↦ h) _) fun o ho ↦ all_sess ?_) fun go ↦
      ⟨fun _ ↦ ?_, fun _ ↦ hQ v' hset⟩
  · cases o <;> first | exact fun _ h ↦ h | cases ho
  · exact Prog.wlp_of_all ((heldCode_all keeps_base).maybeUp (all_sess fun _ h ↦ h)
      (fun _ ↦ all_sess fun _ h ↦ h) (all_sess fun _ h ↦ h)) fun _ ↦ hQ v' hset

def Lasting (P : Link → Prop) : Prop :=
  ∀ l l', Ages l l' → P l → P l'

theorem Lasting.stable {P : Link → Prop} (hP : Lasting P) :
    (linkMachine cfg).Stable (Stepped cfg) Stocked (fun _ ↦ PairPre) t P := by
  rintro l l' hl ⟨u, -, hmove⟩
  cases hmove with
  | enter _ _ henter => exact hP l l' (ages_begin (enter_eq_some henter).2.1) hl
  | exec _ _ _ hrun => exact hP l l' (ages_run hrun) hl

def Op.ofDestroy (o : Op) : Prop :=
  o = .putCreated ∨ ∃ b, o = .held (.base b)

theorem ofDestroy_base (p : BaseProg α) : (baseEntry p).All Op.ofDestroy :=
  .lift (.lift (.of_forall (fun o ↦ .inr ⟨o, rfl⟩) p))

theorem pairTriple_lasting {P : Link → Prop} (hP : Lasting P) {p : LinkProg α}
    (hp : p.All Op.ofDestroy) : PairTriple cfg t P p fun _ ↦ P := by
  refine .all hP.stable hp fun o ho l i r l' _ hl _ hrun ↦ ⟨?_, hP l l' (ages_run hrun) hl⟩
  obtain rfl | ⟨b, rfl⟩ := ho <;> trivial

theorem lasting_removing : Lasting fun l ↦ l.sh.removing = true :=
  fun _ _ hages ↦ hages.removing

theorem lasting_vacated : Lasting fun l ↦ l.his.vacated = true :=
  fun _ _ hages ↦ hages.vacated

theorem lasting_released : Lasting fun l ↦ l.his.vacated = true ∧ l.outGone = true :=
  fun _ _ hages ↦ And.imp hages.vacated hages.outGone

theorem Lasting.imp {P : Link → Prop} (hP : Lasting P) (p : Prop) : Lasting fun l ↦ p → P l :=
  fun l l' hages h hp ↦ hP l l' hages (h hp)

/-- Under the lock the flags agree with the backend, as they did when it was taken. -/
theorem holds_lockedBy (removing : Bool) (hI : Stocked l)
    (hremoving : removing = true → l.sh.removing = true) (hfree : l.ctl.sessionLock = none) :
    ∃ v : Held, Holds t v (lockedBy t l) ∧ v.Settled ∧ v.removing = removing := by
  obtain ⟨hagrees, hlive⟩ := hI.free hfree
  exact ⟨⟨stock l, decide (l.sh.state = .dead), removing⟩,
    ⟨rfl, rfl, of_decide_eq_true, hremoving⟩, ⟨hagrees, hlive.imp decide_eq_true id⟩, rfl⟩

/-- A function that keeps the flags in agreement with the backend may run under the lock, and its
last down stays the last. -/
theorem pairTriple_withSessionLock {p : HeldProg α} (removing : Bool) {P : α → Prop}
    (hp : ∀ v : Held, v.Settled → v.removing = removing →
      p.wlp stockEffect (fun a v' ↦ v'.Settled ∧ (P a → v'.vacated = true)) v) :
    PairTriple cfg t (fun l ↦ removing = true → l.sh.removing = true) (withSessionLock p)
      fun a l ↦ P a → l.his.vacated = true := by
  refine triple_withSessionLock (P := fun l ↦
      ∃ v : Held, Holds t v l ∧ v.Settled ∧ v.removing = removing)
    (Q := fun a l ↦ ∃ v' : Held, Holds t v' l ∧ v'.Settled ∧ (P a → v'.vacated = true))
    (lasting_removing.imp _).stable
    (fun a l l' ⟨v', hl, hv⟩ hmove ↦ ⟨v', stable_holds l l' hl hmove, hv⟩)
    (fun a ↦ (lasting_vacated.imp _).stable)
    (fun l hI hl hfree ↦ ⟨trivial, holds_lockedBy removing hI hl hfree⟩)
    (fun l ⟨v, hl, hset, hrem⟩ ↦ tracks_stock.triple (wlp_held (hp v hset hrem)) l hl) ?_
  rintro a l - ⟨v, hl, ⟨hagrees, hlive⟩, hvacated⟩
  rw [← hl.stock] at hagrees hlive hvacated
  exact ⟨⟨hagrees, hlive.imp hl.dead id⟩, hvacated⟩

theorem pairSafe_withSessionLock {p : HeldProg α}
    (hp : ∀ v : Held, v.Settled → p.wlp stockEffect (fun _ v' ↦ v'.Settled) v) :
    (linkMachine cfg).Safe (Stepped cfg) Stocked (fun _ ↦ PairPre) t (withSessionLock p) := by
  refine safe_locked tracks_stock (fun _ ↦ trivial) (fun v l _ hl hv ↦ ?_) (fun l hI hfree ↦ ?_) hp
  · rw [Held.Settled, ← hl.stock] at hv
    exact ⟨hv.1, hv.2.imp hl.dead id⟩
  · obtain ⟨v, hl, hv, -⟩ := holds_lockedBy false hI nofun hfree
    exact ⟨v, hl, hv⟩

theorem pairSafe_downSession (reason : DownReason) :
    (linkMachine cfg).Safe (Stepped cfg) Stocked (fun _ ↦ PairPre) t
      (withSessionLock (downSession cfg reason .local)) :=
  pairSafe_withSessionLock fun _ hset ↦
    wlp_downSession hset.1 (hset.2.imp id And.right) fun _ _ _ hset _ ↦ hset

/-- The end of `tbframe_link_destroy` releases the out-HopID unless a quarantine took it over. -/
theorem pairTriple_releaseOutHopid {p : LinkProg ℤ} (hp : p.All Op.ofDestroy) :
    PairTriple cfg t (fun l ↦ l.his.vacated = true)
      (do
        let handoff ← (read .terminalHandoff : BaseProg Bool)
        Prog.when (!handoff) (hw .releaseOutHopid)
        p) fun _ l ↦ l.his.vacated = true ∧ l.outGone = true := by
  have hread : ∀ handoff, Lasting fun l ↦
      l.his.vacated = true ∧ (handoff = true → l.outGone = true) :=
    fun _ _ _ hages ↦ And.imp hages.vacated fun h hhandoff ↦ hages.outGone (h hhandoff)
  refine .bind (.call (M := linkMachine cfg) (o := Op.held (.base (.read .terminalHandoff)))
    lasting_vacated.stable (fun handoff ↦ (hread handoff).stable) ?_) fun handoff ↦
      .bind (.when (hread handoff).stable (fun _ ↦ ?_) ?_) fun _ ↦
        pairTriple_lasting lasting_released hp
  · intro l i r l' _ hl _ hrun
    obtain ⟨rfl, rfl⟩ := Prod.mk.inj (Option.some.inj hrun)
    refine ⟨trivial, hl, fun hhandoff ↦ ?_⟩
    have hhandoff : l.sess.terminalHandoff = true := hhandoff
    simp [Link.outGone, hhandoff]
  · refine .call (M := linkMachine cfg) (o := Op.held (.base (.hw .releaseOutHopid)))
      (hread handoff).stable (fun _ ↦ lasting_released.stable) fun l i r l' _ hl _ hrun ↦ ?_
    cases hrun
    exact ⟨trivial, hl.1, by simp [Link.outGone]⟩
  · exact fun hskip l _ hl ↦ ⟨hl.1, hl.2 (by simpa using hskip)⟩

/-- `tbframe_link_destroy` returns 0 only after its down left nothing and the out-HopID was given
up. -/
theorem pairTriple_linkDestroy (reason : DownReason) (hreason : reason.terminal = true) :
    PairTriple cfg t (fun _ ↦ True) (linkDestroy cfg reason)
      fun ret l ↦ ret = 0 → l.his.vacated = true ∧ l.outGone = true := by
  unfold linkDestroy
  apply Triple.bind (Q := fun _ l ↦ l.sh.removing = true)
  · refine .call (M := linkMachine cfg) (o := Op.held (.base (.ctl (.setFlags false true))))
      stable_true (fun _ ↦ lasting_removing.stable) ?_
    intro l i r l' _ _ _ hrun
    cases hrun
    exact ⟨trivial, by simp [setGates]⟩
  have hkeep : ∀ {β : Type} (p : BaseProg β), PairTriple cfg t (fun l ↦ l.sh.removing = true)
      (baseEntry p) fun _ l ↦ l.sh.removing = true :=
    fun p ↦ pairTriple_lasting lasting_removing (ofDestroy_base p)
  refine fun _ ↦ .bind (hkeep _) fun _ ↦ .bind (hkeep _) fun _ ↦ .bind (hkeep _) fun _ ↦ ?_
  apply Triple.bind (Q := fun (ret : ℤ) l ↦ ret = 0 → l.his.vacated = true)
  · refine (pairTriple_withSessionLock true (P := (· = 0)) fun v hset hrem ↦ ?_).pre
      fun _ hl _ ↦ hl
    exact wlp_downSession hset.1 (hset.2.imp id And.right) fun ret v' _ hset hvac ↦
      ⟨hset, fun hret ↦ hvac hrem hret hreason⟩
  intro ret
  refine .bind (pairTriple_lasting (lasting_vacated.imp _) (ofDestroy_base _)) fun _ ↦ ?_
  split
  · next hret => exact .ret (lasting_vacated.imp _).stable fun _ _ _ h ↦ absurd h (by simpa using hret)
  · next hret =>
    have hret : ret = 0 := by simpa using hret
    refine .bind (Q := fun _ l ↦ l.his.vacated = true)
      ((pairTriple_lasting lasting_vacated (ofDestroy_base _)).pre fun _ hl ↦ hl hret) fun _ ↦ ?_
    refine (pairTriple_releaseOutHopid ?_).post fun _ _ _ hl _ ↦ hl
    refine .bind ⟨.inl rfl, fun _ ↦ trivial⟩ fun _ ↦ .bind (ofDestroy_base _) fun zero ↦ ?_
    split
    · trivial
    · exact .bind (ofDestroy_base _) fun _ ↦ trivial

theorem pairSafe_serviceRemove (isUnplugged : Bool) :
    (linkMachine cfg).Safe (Stepped cfg) Stocked (fun _ ↦ PairPre) t
      (serviceRemove cfg isUnplugged) := by
  refine Triple.bind (pairTriple_linkDestroy _ (by cases isUnplugged <;> rfl)) fun ret ↦ ?_
  refine .when (lasting_released.imp _).stable (fun hret ↦ ?_) fun _ _ _ _ ↦ trivial
  refine .call (M := linkMachine cfg) (o := Op.hwDestroy) (lasting_released.imp _).stable
    (fun _ ↦ stable_true) fun l i r l' hI hl _ _ ↦ ⟨?_, trivial⟩
  obtain ⟨hvacated, hgone⟩ := hl hret
  refine ⟨(hI.vacated hvacated).2.2, fun hhandoff ↦ ?_⟩
  simpa [Link.outGone, hhandoff] using hgone

end Walk

/-- In every run the flags agree with the backend whenever the lock is free, and every backend call
is paired. -/
theorem pair_verified (cfg : LinkCfg) :
    (linkMachine cfg).Verified (Stepped cfg) Stocked fun _ ↦ PairPre where
  init _ h := stocked_init h
  enter t e l p l' hI _ henter := by
    obtain ⟨-, hbegin, rfl⟩ := enter_eq_some henter
    refine ⟨stocked_begin hI hbegin, ?_⟩
    cases he : e.domain with
    | tx =>
      exact safe_onTx (safe_free fun _ _ ↦ trivial) (safe_free fun o _ ↦ by cases o <;> trivial)
        (fun _ ↦ trivial) he l' trivial
    | rx =>
      exact safe_onRx (safe_free fun o _ ↦ by cases o <;> trivial) (fun _ ↦ trivial) he l' trivial
    | other =>
      refine safe_other (safe_free fun _ _ ↦ trivial)
        (pairSafe_withSessionLock fun v hset ↦ wlp_sessionStep hset fun _ ↦ id) pairSafe_downSession
        ⟨fun _ ↦ trivial, fun _ ↦ trivial, fun _ ↦ trivial⟩ pairSafe_serviceRemove he (fun m _ ↦ ?_)
        l' trivial
      exact safe_free (fun o _ ↦ by cases o <;> trivial) _
  exec t o i l r l' hI hpre hG hrun := stocked_run hI hG.1.1.2.2 hpre hrun

/-- Every step of a run keeps to the lock discipline, the phases of the session and the pairing of
backend calls. -/
theorem paired_step {cfg : LinkCfg} {c c' : (linkMachine cfg).Config} {s : (linkMachine cfg).Label}
    (hc : (linkMachine cfg).system.Reachable c) (hstep : (linkMachine cfg).Step c s c') :
    (Stepped cfg).with Stocked (fun _ ↦ PairPre) c.state s :=
  (pair_verified cfg).with_step (stepped_reach hc) (stepped_step hc hstep) hstep

/-- In every state of every run at most one in-HopID is held; every call that a link makes to acquire
or give up rings, an in-HopID or paths is paired with what is held at that moment; and when
`tbframe_link_destroy` returned 0, so that the hardware context is freed, nothing is held, the
out-HopID of the link included unless a quarantine took it over. -/
theorem resources_paired {cfg : LinkCfg} {c : (linkMachine cfg).Config}
    (hc : (linkMachine cfg).system.Reachable c) :
    c.state.hw.inHopids.length ≤ 1 ∧
      (∀ t o i c', (linkMachine cfg).Step c (.exec t (.held (.sess (.asset o))) i) c' →
        o.Paired c.state.hw) ∧
      ∀ t i c', (linkMachine cfg).Step c (.exec t .hwDestroy i) c' → c.state.Vacant := by
  have hstocked := ((pair_verified cfg).sound (stepped_reach hc)).1
  refine ⟨hstocked.single, fun t o i c' hstep ↦ ?_, fun t i c' hstep ↦ ?_⟩
  · have hpre : AssetPre o c.state := (paired_step hc hstep).2.2
    exact hpre.paired
  · exact (paired_step hc hstep).2.2

/-- A session is brought up, its keepalive leaves, and the link is removed with the cable. -/
def removeSchedule : List (linkMachine (sampleCfg .b)).Act :=
  connectSchedule 1 2 ++ linkSteps .session 8 {} ++
    [.start (.task 1) (.txComplete 0 false)] ++ linkSteps (.task 1) 7 {} ++
  [.start (.task 0) (.serviceRemove true)] ++ linkSteps (.task 0) 15 {} ++
    cancelRx 0 ++ cancelRx 1 ++ linkSteps (.task 0) 15 {}

def freesHw {cfg : LinkCfg} : (linkMachine cfg).Label → Bool
  | .exec _ .hwDestroy _ => true
  | _ => false

theorem freesHw_iff {cfg : LinkCfg} {s : (linkMachine cfg).Label} :
    freesHw s ↔ ∃ t i, s = .exec t .hwDestroy i := by
  constructor
  · intro h
    unfold freesHw at h
    split at h
    · next t i => exact ⟨t, i, rfl⟩
    · cases h
  · rintro ⟨t, i, rfl⟩
    rfl

set_option maxRecDepth 10000 in
theorem resources_paired_removed : ∃ c c' t i,
    (linkMachine (sampleCfg .b)).system.Reachable c ∧
    (linkMachine (sampleCfg .b)).Step c (.exec t .hwDestroy i) c' ∧
    c.state.sess.terminalHandoff = false ∧ c.state.Vacant := by
  obtain ⟨c, hc, hgoal⟩ := System.Exec.reach_of_play (linkMachine (sampleCfg .b)).exec
    (fun _ _ ↦ true)
    (fun c ↦ !c.state.sess.terminalHandoff &&
      (Machine.act c (.step (.task 0) ({} : Answers).inp)).any fun x ↦ freesHw x.1)
    removeSchedule (Machine.init_idle ⟨50, 0, true, rfl⟩) (by decide +kernel)
  simp only [Bool.and_eq_true, Bool.not_eq_true', Option.any_eq_true] at hgoal
  obtain ⟨hhandoff, ⟨s, c'⟩, hact, hfrees⟩ := hgoal
  obtain ⟨t, i, rfl⟩ := freesHw_iff.1 hfrees
  have hreach : (linkMachine (sampleCfg .b)).system.Reachable c := hc.mono fun _ _ _ ↦ trivial
  have hstep := Machine.act_sound hact
  exact ⟨c, c', t, i, hreach, hstep, hhandoff, (resources_paired hreach).2.2 t i c' hstep⟩

end ThunderboltStack.Tbframe
