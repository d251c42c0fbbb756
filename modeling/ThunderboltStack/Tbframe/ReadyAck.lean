import ThunderboltStack.Tbframe.Pairing

/-!
# READY_ACK and the paths of a session

A READY_ACK certifies that the paths of the session named in the READY are enabled and that no down
of it is pending.  `tbframe_link_flush_ready_response` tests this under `link->lock` and hands the
READY_ACK over after it dropped the lock, which leaves two openings: a down that is requested or
begun in between, and a READY that arrives while a down is under way and the paths of the old
session are still enabled, which is marked to be acknowledged at once.

Away from these openings the decision stays right until the READY_ACK is handed over.
-/

namespace ThunderboltStack.Tbframe

open ThunderboltStack.Lib Machine

def goingDown (l : Link) : Bool :=
  l.sh.needsDown || l.his.downing

/-- The section requests a down: the paths are gone, the peer is silent, or it sends keepalives of
another lifetime. -/
def DispOp.startsDown (l : Link) : DispOp → Bool
  | .zombieCheck pathsActive => l.sh.hs.zombie (pathsActive != 0) && l.sh.state == .up
  | .silenceCheck directional => (rxSilent l.prf || txSilent directional l.prf) && l.sh.state == .up
  | .keepaliveSupersede cookie => cookie != l.sess.remote.cookie && l.sh.state == .up
  | _ => false

/-- The section requests a down: a HELLO names another lifetime of the peer, or a BYE finds an active
session. -/
def NetOp.startsDown (l : Link) : NetOp → Bool
  | .handleHello remote => (l.sess.helloDone || l.sh.state == .up) && !remoteMatches l.sess remote
  | .handleBye _ => byeActive l
  | _ => false

/-- The section begins a down, or it requests one because the data path could not be proved or the
peer did not confirm its identity. -/
def SessOp.startsDown (l : Link) : SessOp → Bool
  | .downBegin _ | .probeFailed => true
  | .revalidated reply => reply.all fun remote ↦ !remoteMatches l.sess remote
  | _ => false

def Op.startsDown (l : Link) : Op → Bool
  | .held (.base (.disp o)) => o.startsDown l
  | .held (.net o) => o.startsDown l
  | .held (.sess o) => o.startsDown l
  | _ => false

/-- The step avoids the openings in the READY handling: a READY arrives during a down whose paths are
still enabled, and a down is requested or begun while a READY_ACK is on its way to the control
channel. -/
def readyCovered {cfg : LinkCfg} (l : Link) : (linkMachine cfg).Label → Bool
  | .exec _ (.held (.net (.handleReady _ _))) _ => l.sess.helloDone || !l.sess.pathsEnabled
  | .exec _ o _ => l.his.acking.isEmpty || !o.startsDown l
  | _ => true

def ReadyGuard (cfg : LinkCfg) : (linkMachine cfg).Guard :=
  fun l s ↦ readyCovered l s ∧ (Stepped cfg).with Stocked (fun _ ↦ PairPre) l s

/-- A READY that is due was recorded for the session whose paths are enabled, and whoever decided to
acknowledge a READY did so for a session that stays. -/
structure Certified (l : Link) : Prop where
  due : l.sh.readyResponder.state = .pendingSend → l.sess.pathsEnabled
  hello : l.sh.readyResponder.state = .pendingSend ∨ l.sh.readyResponder.state = .pendingPaths →
    l.sess.pathsEnabled → l.sess.helloDone
  acking : ∀ a ∈ l.his.acking,
    remoteMatches l.sess a.2 ∧ l.sess.pathsEnabled ∧ goingDown l = false

def ReadyPre (t : Tid) : Op → Link → Prop
  | .held (.net (.response msg _)), l =>
      msg.info.op = .readyAck → ∃ peer, (t, peer) ∈ l.his.acking
  | _, _ => True

section Steps

variable {cfg : LinkCfg} {t u : Tid} {l l' : Link}

def readyView (l : Link) : ReadyResponder × List (Tid × WireHello) :=
  (l.sh.readyResponder, l.his.acking)

/-- Outside the READY handling only the outcome of the hand-over is recorded. -/
theorem readyView_disp (o : DispOp) :
    readyView (o.exec l).2 = readyView l ∨
      readyView (o.exec l).2 = ({ l.sh.readyResponder with state := .acked }, l.his.acking) := by
  cases o with
  | flushReadyDone ret seq xdomainSequence =>
    simp only [DispOp.exec, flushReadyDone]
    split
    · exact .inr rfl
    · exact .inl rfl
  | _ =>
    left
    simp only [DispOp.exec, zombieCheck, silenceCheck, verifyRearm, keepaliveSupersede]
    (repeat' split) <;> simp [readyView, nextRequestSeq]

theorem readyView_base {o : BaseOp} {i : o.Inp} {r : o.Res} (h : o.run cfg i l = some (r, l')) :
    readyView l' = readyView l ∨
      readyView l' = ({ l.sh.readyResponder with state := .acked }, l.his.acking) := by
  cases o with
  | read o =>
    obtain ⟨-, rfl⟩ := Prod.mk.inj (Option.some.inj h)
    exact .inl rfl
  | disp o =>
    obtain rfl := link_of_run h
    exact readyView_disp o
  | hw o =>
    cases o <;> simp only [BaseOp.run, HwOp.exec] at h <;> (repeat' split at h) <;> cases h <;>
      exact .inl rfl
  | ctl o =>
    cases o <;> simp only [BaseOp.run, CtlOp.exec, registerScan] at h <;> (repeat' split at h) <;>
      cases h <;> simp [readyView, setGates, markDead]

/-- Who is about to acknowledge a READY keeps its reason, unless a step requests a down. -/
theorem Certified.keep (h : Certified l) (hacking : l'.his.acking = l.his.acking)
    (hsess : l'.sess = l.sess) (hstays : l.his.acking ≠ [] → goingDown l' = false)
    (a : Tid × WireHello) (ha : a ∈ l'.his.acking) :
    remoteMatches l'.sess a.2 ∧ l'.sess.pathsEnabled ∧ goingDown l' = false := by
  rw [hacking] at ha
  obtain ⟨hmatches, hpaths, -⟩ := h.acking a ha
  rw [hsess]
  exact ⟨hmatches, hpaths, hstays (List.ne_nil_of_mem ha)⟩

/-- Steps that leave the READY handling and the session alone keep the certificates, unless they
request a down. -/
theorem Certified.congr (h : Certified l) (hready : readyView l' = readyView l)
    (hsess : l'.sess = l.sess) (hstays : l.his.acking ≠ [] → goingDown l' = false) :
    Certified l' := by
  obtain ⟨hresponder, hacking⟩ := Prod.mk.inj hready
  refine ⟨?_, ?_, h.keep hacking hsess hstays⟩
  · rw [hresponder, hsess]; exact h.due
  · rw [hresponder, hsess]; exact h.hello

/-- A READY that was acknowledged is not due any more. -/
theorem Certified.acked (h : Certified l)
    (hready : readyView l' = ({ l.sh.readyResponder with state := .acked }, l.his.acking))
    (hsess : l'.sess = l.sess) (hstays : l.his.acking ≠ [] → goingDown l' = false) :
    Certified l' := by
  obtain ⟨hresponder, hacking⟩ := Prod.mk.inj hready
  exact ⟨by simp [hresponder], by simp [hresponder], h.keep hacking hsess hstays⟩

theorem goingDown_base {o : BaseOp} {i : o.Inp} {r : o.Res} (h : goingDown l = false)
    (hrun : o.run cfg i l = some (r, l')) :
    goingDown l' = Op.startsDown l (.held (.base o)) := by
  have hdown : l.sh.needsDown = false ∧ l.his.downing = false := by
    simpa [goingDown] using h
  cases o with
  | read o =>
    obtain ⟨-, rfl⟩ := Prod.mk.inj (Option.some.inj hrun)
    exact h
  | disp o =>
    obtain rfl := link_of_run hrun
    cases o with
    | zombieCheck | silenceCheck | keepaliveSupersede =>
      simp only [DispOp.exec, Op.startsDown, DispOp.startsDown, zombieCheck, silenceCheck,
        keepaliveSupersede]
      split <;> simp_all [goingDown]
    | flushReadyDone =>
      simp only [DispOp.exec, flushReadyDone]
      split <;> exact h
    | verifyRearm =>
      simp only [DispOp.exec, verifyRearm]
      split <;> exact h
    | nextRequestSeq => exact h
    | kick => simpa [DispOp.exec, goingDown, Op.startsDown, DispOp.startsDown] using h
  | hw o =>
    cases o <;> simp only [BaseOp.run, HwOp.exec] at hrun <;> (repeat' split at hrun) <;>
      cases hrun <;> exact h
  | ctl o =>
    cases o <;> simp only [BaseOp.run, CtlOp.exec, registerScan] at hrun <;>
      (repeat' split at hrun) <;> cases hrun <;>
      simpa [goingDown, setGates, markDead, Op.startsDown] using h

theorem goingDown_net (o : NetOp) (i : o.Inp) (h : goingDown l = false) :
    goingDown (o.exec t l i).2 = o.startsDown l := by
  have hdown : l.sh.needsDown = false ∧ l.his.downing = false := by
    simpa [goingDown] using h
  cases o with
  | request | reply | response => exact h
  | handleHello remote =>
    simp only [NetOp.exec, NetOp.startsDown, handleHello]
    cases remoteMatches l.sess remote <;> (repeat' split) <;> simp_all [goingDown]
  | handleReady | flushReadyTake | handleBye =>
    simp only [NetOp.exec, NetOp.startsDown, handleReady, flushReadyTake, handleBye]
    (repeat' split) <;> simp_all [goingDown]

theorem goingDown_sess (o : SessOp) (i : o.Inp) (h : goingDown l = false) :
    goingDown (o.exec cfg l i).2 = o.startsDown l := by
  have hdown : l.sh.needsDown = false ∧ l.his.downing = false := by
    simpa [goingDown] using h
  cases o with
  | downBegin => simp [SessOp.exec, SessOp.startsDown, downBegin, goingDown]
  | downEnd => simp [SessOp.exec, SessOp.startsDown, downEnd, goingDown, hdown.1]
  | probeFailed => simp [SessOp.exec, SessOp.startsDown, probeFailed, goingDown]
  | revalidated reply =>
    simp only [SessOp.exec, SessOp.startsDown, revalidated]
    (repeat' split) <;> simp_all [goingDown]
  | helloApply | maybeUp | notifyDown | upcallDown | upcallUp | readyConfirm =>
    simp only [SessOp.exec, helloApply, maybeUpLocked, notifyDownLocked, upcall, readyConfirm]
    (repeat' split) <;> exact h
  | _ => exact h

/-- Only the sections named above request or begin a down. -/
theorem goingDown_run {o : Op} {i : o.Inp} {r : o.Res} (h : goingDown l = false)
    (hrun : o.run cfg t i l = some (r, l')) : goingDown l' = o.startsDown l := by
  cases o with
  | held o =>
    cases o with
    | base o => exact goingDown_base h hrun
    | net o =>
      obtain rfl := link_of_run hrun
      exact goingDown_net o i h
    | sess o =>
      obtain rfl := link_of_run hrun
      exact goingDown_sess o i h
    | tx o | rx o => exact (view_run goingDown hrun rfl).trans h
  | _ => exact (view_run goingDown hrun rfl).trans h

/-- A step that is covered starts no down while a READY_ACK is on its way. -/
theorem covered_run {o : Op} {i : o.Inp} {r : o.Res} (h : Certified l)
    (hcovered : readyCovered l (.exec t o i : (linkMachine cfg).Label))
    (hrun : o.run cfg t i l = some (r, l')) (hacking : l.his.acking ≠ []) :
    goingDown l' = false := by
  have hquiet : o.startsDown l = false := by
    unfold readyCovered at hcovered
    split at hcovered
    · next heq =>
      cases heq
      rfl
    · next heq =>
      cases heq
      simpa [hacking] using hcovered
    · next hlabel => exact absurd rfl (hlabel _ _ _)
  obtain ⟨a, ha⟩ := List.exists_mem_of_ne_nil _ hacking
  rw [goingDown_run (h.acking a ha).2.2 hrun, hquiet]

/-- The decision of `tbframe_link_flush_ready_response` is right when it is made. -/
theorem certified_flushReadyTake (h : Certified l) (hphased : Phased l) :
    Certified (flushReadyTake t l).2 := by
  have hpromoted : promoteReady l = l.sh.readyResponder ∨
      l.sh.readyResponder.state = .pendingPaths ∧ l.sess.pathsEnabled ∧
        promoteReady l = { l.sh.readyResponder with state := .pendingSend } := by
    simp only [promoteReady]
    split
    · next hdue => exact .inr ⟨hdue.1, hdue.2.1, rfl⟩
    · exact .inl rfl
  have hdue : (promoteReady l).state = .pendingSend → l.sess.pathsEnabled := by
    obtain heq | ⟨-, hpaths, -⟩ := hpromoted
    · rw [heq]; exact h.due
    · exact fun _ ↦ hpaths
  have hhello : (promoteReady l).state = .pendingSend ∨ (promoteReady l).state = .pendingPaths →
      l.sess.pathsEnabled → l.sess.helloDone := by
    obtain heq | ⟨hwaits, -, -⟩ := hpromoted
    · rw [heq]; exact h.hello
    · exact fun _ ↦ h.hello (.inr hwaits)
  unfold flushReadyTake
  dsimp only
  split
  · exact ⟨hdue, hhello, h.acking⟩
  · next hgate =>
    simp only [not_or, Decidable.not_not] at hgate
    obtain ⟨hsend, hneeds, -, -, hmatches⟩ := hgate
    refine ⟨hdue, hhello, fun a ha ↦ ?_⟩
    obtain rfl | ha := List.mem_cons.1 ha
    · refine ⟨hmatches, hdue hsend, ?_⟩
      have hdowning : l.his.downing = false := by
        cases hdowning : l.his.downing with
        | false => rfl
        | true => simp [remoteMatches, hphased.downing hdowning] at hmatches
      simp only [goingDown, hneeds, hdowning, Bool.or_self]
    · exact h.acking a ha

/-- A control section that avoids the openings keeps the certificates. -/
theorem certified_net (o : NetOp) (i : o.Inp) (h : Certified l) (hphased : Phased l)
    (hcovered : readyCovered l (.exec t (.held (.net o)) i : (linkMachine cfg).Label)) :
    Certified (o.exec t l i).2 := by
  have hstays := covered_run (r := (o.exec t l i).1) h hcovered rfl
  have hsess : (o.exec t l i).2.sess = l.sess := view_net (·.sess) o i rfl
  cases o with
  | request msg | reply => exact ⟨h.due, h.hello, h.acking⟩
  | response msg bye => exact ⟨h.due, h.hello, fun a ha ↦ h.acking a (List.mem_filter.1 ha).1⟩
  | handleHello remote =>
    have hview : readyView (handleHello remote l).2 = readyView l ∨
        readyView (handleHello remote l).2 = ({}, l.his.acking) := by
      simp only [handleHello]
      (repeat' split) <;> simp [readyView]
    obtain hview | hview := hview
    · exact h.congr hview hsess hstays
    · -- the READY of the session that the HELLO supersedes is forgotten
      obtain ⟨hresponder, hacking⟩ := Prod.mk.inj hview
      exact ⟨by simp [NetOp.exec, hresponder], by simp [NetOp.exec, hresponder],
        h.keep hacking hsess hstays⟩
  | handleReady remote info =>
    have hcovered : l.sess.helloDone = true ∨ l.sess.pathsEnabled = false := by
      simpa [readyCovered] using hcovered
    have hacking : (NetOp.exec t l (.handleReady remote info) i).2.his.acking = l.his.acking := by
      simp only [NetOp.exec, handleReady]
      split <;> simp
    refine ⟨?_, ?_, h.keep hacking hsess hstays⟩
    · rw [hsess]
      simp only [NetOp.exec, handleReady]
      split
      · exact h.due
      · simp only [kickLocked_sh]
        split <;> simp_all
    · rw [hsess]
      intro _ hpaths
      exact hcovered.resolve_right (by simp [hpaths])
  | flushReadyTake => exact certified_flushReadyTake h hphased
  | handleBye _ =>
    refine h.congr ?_ hsess hstays
    simp only [NetOp.exec, handleBye]
    (repeat' split) <;> simp [readyView]

/-- The session sections that leave the READY, `hello_done`, the peer and `paths_enabled` alone. -/
def SessOp.keepsReady : SessOp → Bool
  | .helloApply _ | .bringUpDone _ | .quarantined | .downBegin _ | .pathsGone => false
  | _ => true

theorem sess_keepsReady (cfg : LinkCfg) (l : Link) {o : SessOp} (i : o.Inp)
    (ho : o.keepsReady = true) :
    readyView (o.exec cfg l i).2 = readyView l ∧
      (o.exec cfg l i).2.sess.pathsEnabled = l.sess.pathsEnabled ∧
      (o.exec cfg l i).2.sess.helloDone = l.sess.helloDone ∧
      ∀ h, remoteMatches (o.exec cfg l i).2.sess h = remoteMatches l.sess h := by
  cases o with
  | maybeUp =>
    simp only [SessOp.exec, maybeUpLocked]
    (repeat' split) <;> exact ⟨rfl, rfl, rfl, fun _ ↦ rfl⟩
  | _ => first
    | exact ⟨rfl, rfl, rfl, fun _ ↦ rfl⟩
    | exact absurd ho Bool.false_ne_true
    | exact ⟨view_quiet readyView i rfl rfl, view_quiet (·.sess.pathsEnabled) i rfl rfl,
        view_quiet (·.sess.helloDone) i rfl rfl,
        fun h ↦ view_quiet (remoteMatches ·.sess h) i rfl rfl⟩

/-- Nobody is about to acknowledge a READY of a session that has no HELLO. -/
theorem Certified.idle (h : Certified l) (hhello : l.sess.helloDone = false) :
    l.his.acking = [] := by
  by_contra hacking
  obtain ⟨a, ha⟩ := List.exists_mem_of_ne_nil _ hacking
  have hmatches := (h.acking a ha).1
  simp [remoteMatches, hhello] at hmatches

/-- While a READY is due the paths stay enabled. -/
theorem Certified.notIdle (h : Certified l) (hphased : Phased l)
    (hstate : l.sh.readyResponder.state = .pendingSend) : ¬ (stock l).Idle := by
  have hpaths := h.due hstate
  have hhello := h.hello (.inl hstate) hpaths
  rintro (hdisabled | hdowning)
  · simp [stock, hpaths] at hdisabled
  · simp [hphased.downing hdowning] at hhello

/-- Paths that are given up belong to no session that a READY_ACK is on its way for. -/
theorem Certified.disable (h : Certified l) (hphased : Phased l) (hidle : (stock l).Idle)
    (hready : readyView l' = readyView l) (hpaths : l'.sess.pathsEnabled = false) :
    Certified l' := by
  obtain ⟨hresponder, hacking⟩ := Prod.mk.inj hready
  refine ⟨fun hstate ↦ ?_, by simp [hpaths], fun a ha ↦ ?_⟩
  · rw [hresponder] at hstate
    exact absurd hidle (h.notIdle hphased hstate)
  · rw [hacking] at ha
    obtain ⟨-, henabled, hstays⟩ := h.acking a ha
    simp only [goingDown, Bool.or_eq_false_iff] at hstays
    obtain hdisabled | hdowning := hidle
    · simp [stock, henabled] at hdisabled
    · simp [stock, hstays] at hdowning

/-- A session section that avoids the openings keeps the certificates. -/
theorem certified_sess (o : SessOp) (i : o.Inp) (h : Certified l) (hphased : Phased l)
    (hphase : PhasePre (.held (.sess o)) l) (hpair : PairPre (.held (.sess o)) l)
    (hcovered : readyCovered l (.exec t (.held (.sess o)) i : (linkMachine cfg).Label)) :
    Certified (o.exec cfg l i).2 := by
  have hstays := covered_run (r := (o.exec cfg l i).1) h hcovered rfl
  cases hkeeps : o.keepsReady with
  | true =>
    obtain ⟨hview, hpaths, hhello, hmatches⟩ := sess_keepsReady cfg l i hkeeps
    obtain ⟨hresponder, hacking⟩ := Prod.mk.inj hview
    refine ⟨?_, ?_, fun a ha ↦ ?_⟩
    · rw [hresponder, hpaths]; exact h.due
    · rw [hresponder, hpaths, hhello]; exact h.hello
    · rw [hacking] at ha
      obtain ⟨hmatch, henabled, -⟩ := h.acking a ha
      rw [hmatches, hpaths]
      exact ⟨hmatch, henabled, hstays (List.ne_nil_of_mem ha)⟩
  | false =>
    cases o with
    | helloApply remote =>
      have hidle := h.idle hphase.1
      have hpaths : l.sess.pathsEnabled = false := hpair
      have hdue : l.sh.readyResponder.state ≠ .pendingSend :=
        fun hstate ↦ h.notIdle hphased hstate (.inl hpaths)
      simp only [SessOp.exec, helloApply]
      (repeat' split) <;> exact ⟨by simp [hdue], by simp [hpaths], by simp [hidle]⟩
    | bringUpDone e2e =>
      have hhello := hphased.openHello hphase
      exact ⟨fun _ ↦ rfl, fun _ _ ↦ hhello,
        fun a ha ↦ ⟨(h.acking a ha).1, rfl, (h.acking a ha).2.2⟩⟩
    | quarantined | pathsGone => exact h.disable hphased hpair rfl rfl
    | downBegin owner =>
      refine ⟨by simp [SessOp.exec, downBegin], by simp [SessOp.exec, downBegin], fun a ha ↦ ?_⟩
      have hdown := hstays (List.ne_nil_of_mem ha)
      simp [downBegin, goingDown] at hdown
    | _ => cases hkeeps

/-- Every step that avoids the openings keeps the certificates. -/
theorem certified_run {o : Op} {i : o.Inp} {r : o.Res} (h : Certified l) (hphased : Phased l)
    (hphase : PhasePre o l) (hpair : PairPre o l)
    (hcovered : readyCovered l (.exec t o i : (linkMachine cfg).Label))
    (hrun : o.run cfg t i l = some (r, l')) : Certified l' := by
  have hstays := covered_run h hcovered hrun
  cases o with
  | held o =>
    cases o with
    | base o =>
      have hsess : l'.sess = l.sess := view_run (·.sess) hrun rfl
      obtain hview | hview := readyView_base hrun
      · exact h.congr hview hsess hstays
      · exact h.acked hview hsess hstays
    | net o =>
      obtain rfl := link_of_run hrun
      exact certified_net o i h hphased hcovered
    | tx o | rx o => exact h.congr (view_run readyView hrun rfl) (view_run (·.sess) hrun rfl) hstays
    | sess o =>
      obtain rfl := link_of_run hrun
      exact certified_sess o i h hphased hphase hpair hcovered
  | _ => exact h.congr (view_run readyView hrun rfl) (view_run (·.sess) hrun rfl) hstays

theorem certified_begin {e : Entry} (h : Certified l) (hbegin : e.begin t l = some l') :
    Certified l' := by
  refine h.congr (view_begin readyView hbegin rfl) (view_begin (·.sess) hbegin rfl) fun hacking ↦ ?_
  obtain ⟨a, ha⟩ := List.exists_mem_of_ne_nil _ hacking
  exact (view_begin goingDown hbegin rfl).trans (h.acking a ha).2.2

theorem certified_init (h : (linkMachine cfg).init l) : Certified l := by
  obtain ⟨random, requestSeq, autostart, rfl⟩ := h
  constructor <;> simp [linkCreate]

/-- Only the answer of `t` itself takes back that it decided to acknowledge a READY. -/
theorem acking_run {o : Op} {i : o.Inp} {r : o.Res} (h : o.run cfg u i l = some (r, l'))
    (hne : ∀ msg bye, o = .held (.net (.response msg bye)) → u ≠ t) {peer : WireHello}
    (hmem : (t, peer) ∈ l.his.acking) : (t, peer) ∈ l'.his.acking := by
  have hkeep : l'.his.acking = l.his.acking → (t, peer) ∈ l'.his.acking := fun heq ↦ heq ▸ hmem
  cases o with
  | held o =>
    cases o with
    | net o =>
      obtain rfl := link_of_run h
      cases o with
      | request msg | reply => exact hmem
      | response msg bye => exact List.mem_filter.2 ⟨hmem, by simpa using (hne msg bye rfl).symm⟩
      | flushReadyTake =>
        simp only [NetOp.exec, flushReadyTake]
        split
        · exact hmem
        · exact List.mem_cons_of_mem _ hmem
      | handleHello remote | handleReady remote info | handleBye _ =>
        apply hkeep
        simp only [NetOp.exec, handleHello, handleReady, handleBye]
        (repeat' split) <;> simp
    | _ => exact hkeep (view_run (·.his.acking) h rfl)
  | _ => exact hkeep (view_run (·.his.acking) h rfl)

end Steps

section Programs

variable {cfg : LinkCfg} {t : Tid} {α : Type} {G : (linkMachine cfg).Guard}

/-- `t` decided to acknowledge a READY. -/
def Acking (t : Tid) (l : Link) : Prop :=
  ∃ peer, (t, peer) ∈ l.his.acking

def ackEffect : Effect heldSig Bool
  | .net .flushReadyTake, v, Q => Q none v ∧ ∀ p, Q (some p) true
  | .net (.response msg _), v, Q => (msg.info.op = .readyAck → v = true) ∧ ∀ ret, Q ret false
  | _, v, Q => ∀ r, Q r v

theorem acking_flushReadyTake {l : Link} (h : (flushReadyTake t l).1 ≠ none) :
    Acking t (flushReadyTake t l).2 := by
  unfold flushReadyTake at h ⊢
  dsimp only at h ⊢
  split
  · next hgate => exact absurd (by simp only [if_pos hgate]) h
  · exact ⟨_, List.mem_cons_self⟩

/-- A thread hands a READY_ACK over after it decided to. -/
theorem tracks_ack : (linkMachine cfg).Tracks G Certified ReadyPre t
    (fun v l ↦ v = true → Acking t l) (heldEffect ackEffect) where
  stable v := by
    rintro l l' h ⟨u, hne, hmove⟩ hv
    obtain ⟨peer, hmem⟩ := h hv
    cases hmove with
    | enter _ _ henter =>
      exact ⟨peer, view_begin (·.his.acking) (enter_eq_some henter).2.1 rfl ▸ hmem⟩
    | exec _ _ _ hrun => exact ⟨peer, acking_run hrun (fun _ _ _ ↦ hne) hmem⟩
  exec o v Q h l i r l' _ hl _ hrun := by
    have hkept := fun ho hv ↦ (hl hv).imp fun peer hmem ↦ acking_run (o := o) hrun ho hmem
    cases o with
    | held o =>
      cases o with
      | net o =>
        cases o with
        | flushReadyTake =>
          have hrun : some (flushReadyTake t l) = some (r, l') := hrun
          obtain ⟨htaken, rfl⟩ := Prod.mk.inj (Option.some.inj hrun)
          cases r with
          | none => exact ⟨trivial, v, hkept nofun, h.1⟩
          | some p => exact ⟨trivial, true, fun _ ↦ acking_flushReadyTake (htaken ▸ nofun), h.2 p⟩
        | response msg bye => exact ⟨fun hack ↦ hl (h.1 hack), false, nofun, h.2 r⟩
        | _ => exact ⟨trivial, v, hkept nofun, h r⟩
      | _ => exact ⟨trivial, v, hkept nofun, h r⟩
    | _ => exact h.elim

attribute [local simp] ackEffect liftM monadLift

/-- `tbframe_link_flush_ready_response` hands a READY_ACK over only when it decided to. -/
theorem ack_flushReadyResponse :
    (flushReadyResponse cfg).Neutral (ackEffect.lift netHeld) false := by
  intro Q hQ
  simp [flushReadyResponse, hQ]

theorem ack_partCode : PartCode cfg fun _ p ↦ p.Neutral ackEffect false where
  toHeldCode := heldCode_neutral fun _ _ hQ ↦ hQ
  sess _ _ hQ := hQ
  net p hp := .lift (Prog.neutral_of_all (hp.mono fun o ho Q hQ ↦ by
    cases o with
    | base o => exact hQ
    | net o => cases o <;> first | exact ho.elim | exact hQ))
  flush := ack_flushReadyResponse.lift
  post _ := Prog.neutral_of_all (all_rx (fun _ _ hQ ↦ hQ) (fun _ _ hQ ↦ hQ) _)
  probe := Prog.neutral_of_all (all_tx (fun _ _ hQ ↦ hQ) (fun _ _ hQ ↦ hQ) _)
  quiesce _ _ := Prog.neutral_of_all (all_downQuiesce (fun _ _ hQ ↦ hQ) (fun _ _ _ hQ ↦ hQ)
    (fun _ _ _ hQ ↦ hQ) _ _)

theorem ack_handlePacket (m : WireMsg) :
    (handlePacket cfg m).wlp (ackEffect.lift netHeld) (fun _ _ ↦ True) false := by
  simp [handlePacket]
  intro _
  split
  · simp [handleHelloPacket]
  · simp [handleReadyPacket]
    exact ack_flushReadyResponse _ fun _ ↦ trivial
  · simp [handleByePacket]
  all_goals trivial

end Programs

/-- In every run that avoids the openings, a READY is acknowledged only for a session whose paths are
enabled and that no down was requested for. -/
theorem ready_verified (cfg : LinkCfg) :
    (linkMachine cfg).Verified (ReadyGuard cfg) Certified ReadyPre where
  init _ h := certified_init h
  enter t e l p l' hI _ henter := by
    obtain ⟨-, hbegin, rfl⟩ := enter_eq_some henter
    refine ⟨certified_begin hI hbegin, ?_⟩
    cases he : e.domain with
    | tx =>
      exact safe_onTx (safe_free fun _ _ ↦ trivial) (safe_free fun o _ ↦ by cases o <;> trivial)
        (fun _ ↦ trivial) he l' trivial
    | rx =>
      exact safe_onRx (safe_free fun o _ ↦ by cases o <;> trivial) (fun _ ↦ trivial) he l' trivial
    | other =>
      exact safe_parts tracks_ack ack_partCode (fun _ ↦ nofun) (fun o ho _ ↦ by
        cases o <;> first | exact absurd rfl (ho _) | trivial) he (fun m _ ↦ ack_handlePacket m) l'
        trivial
  exec t o i l r l' hI hpre hG hrun :=
    certified_run hI hG.2.1.2.1.phased hG.2.1.2.2.phase hG.2.2.2 hG.1 hrun

/-- In every run that avoids the openings, a READY_ACK is handed to the control channel for a session
that is still the one named in the READY, whose paths are enabled and lead to the HopID named there,
and that no down is pending or under way for. -/
theorem ready_ack_certifies {cfg : LinkCfg} {c c' : (linkMachine cfg).Config} {t : Tid}
    {msg : WireMsg} {bye : Option Bye} {ret : ℤ}
    (hc : (linkMachine cfg).Reach (fun l s ↦ readyCovered l s) c)
    (hstep : (linkMachine cfg).Step c (.exec t (.held (.net (.response msg bye))) ret) c')
    (hack : msg.info.op = .readyAck) :
    ∃ peer, (t, peer) ∈ c.state.his.acking ∧ remoteMatches c.state.sess peer ∧
      c.state.sess.pathsEnabled ∧ c.state.hw.paths = some peer.transmitHopid ∧
      c.state.sh.needsDown = false ∧ c.state.his.downing = false := by
  have hreach : (linkMachine cfg).Reach (ReadyGuard cfg) c :=
    hc.strengthen fun _ _ _ hr _ hstep ↦ paired_step (hr.mono fun _ _ _ ↦ trivial) hstep
  have hpaired := paired_step (hc.mono fun _ _ _ ↦ trivial) hstep
  obtain ⟨hcertified, -⟩ := (ready_verified cfg).sound hreach
  have hcovered : readyCovered c.state
      (.exec t (.held (.net (.response msg bye))) ret : (linkMachine cfg).Label) := by
    simp [readyCovered, Op.startsDown, NetOp.startsDown]
  obtain ⟨peer, hmem⟩ := (ready_verified cfg).pre hreach ⟨hcovered, hpaired⟩ hstep hack
  obtain ⟨hmatches, hpaths, hstays⟩ := hcertified.acking _ hmem
  simp only [goingDown, Bool.or_eq_false_iff] at hstays
  have hstocked : Stocked c.state := hpaired.2.1
  have hpeer : c.state.sess.helloDone = true ∧ peer.transmitHopid = c.state.sess.remote.hopid := by
    simp only [remoteMatches, Bool.and_eq_true, beq_iff_eq] at hmatches
    exact ⟨hmatches.1.1.1.1.1.1, hmatches.1.1.1.1.2⟩
  have hheld : c.state.hw.paths = some c.state.sess.activeRemoteHopid := by
    refine hstocked.enabled.resolve_left ?_
    rintro (hdisabled | hdowning)
    · simp [stock, hpaths] at hdisabled
    · simp [stock, hstays] at hdowning
  rw [hstocked.remote hpaths hpeer.1, ← hpeer.2] at hheld
  exact ⟨peer, hmem, hmatches, hpaths, hheld, hstays⟩

/-! ## A READY_ACK after a BYE -/

/-- The peer's READY arrives before the HELLO of the session completes; the session work negotiates,
enables the paths and decides to acknowledge the READY. -/
def readySchedule : List (linkMachine (sampleCfg .b)).Act :=
  [.start (.task 0) (.packet (sampleMsg .ready 5 (sampleHello .a 6 70)))] ++
    linkSteps (.task 0) 5 {} ++
  [.start .session .sessionWork] ++ linkSteps .session 6 {} ++
    linkSteps .session 1 (peerAnswer .helloAck 1) ++ linkSteps .session 19 {}

def readyRaceSchedule : List (linkMachine (sampleCfg .b)).Act :=
  readySchedule ++ [.start (.task 0) (.packet (sampleMsg .bye 3 (sampleHello .a 6 70)))] ++
    linkSteps (.task 0) 2 {} ++ linkSteps .session 2 {}

def handsReadyAck {cfg : LinkCfg} : (linkMachine cfg).Label → Bool
  | .exec _ (.held (.net (.response msg _))) _ => msg.info.op == .readyAck
  | _ => false

theorem handsReadyAck_iff {cfg : LinkCfg} {s : (linkMachine cfg).Label} :
    handsReadyAck s ↔ ∃ t msg bye ret,
      s = .exec t (.held (.net (.response msg bye))) ret ∧ msg.info.op = .readyAck := by
  constructor
  · intro h
    unfold handsReadyAck at h
    split at h
    · next t msg bye ret => exact ⟨t, msg, bye, ret, rfl, by simpa using h⟩
    · cases h
  · rintro ⟨t, msg, bye, ret, rfl, hack⟩
    simp [handsReadyAck, hack]

set_option maxRecDepth 10000 in
/-- The session work hands a READY_ACK over although a down of the session is pending. -/
theorem ready_ack_after_bye : ∃ c c' t msg bye ret,
    (linkMachine (sampleCfg .b)).system.Reachable c ∧
    (linkMachine (sampleCfg .b)).Step c (.exec t (.held (.net (.response msg bye))) ret) c' ∧
    msg.info.op = .readyAck ∧ c.state.sh.needsDown = true := by
  obtain ⟨c, hc, hgoal⟩ := System.Exec.reach_of_play (linkMachine (sampleCfg .b)).exec
    (fun _ _ ↦ true)
    (fun c ↦ c.state.sh.needsDown && (Machine.act c sessionAct).any fun x ↦ handsReadyAck x.1)
    readyRaceSchedule (Machine.init_idle ⟨50, 0, true, rfl⟩) (by decide +kernel)
  simp only [Bool.and_eq_true, Option.any_eq_true] at hgoal
  obtain ⟨hdown, ⟨s, c'⟩, hact, hhands⟩ := hgoal
  obtain ⟨t, msg, bye, ret, rfl, hack⟩ := handsReadyAck_iff.1 hhands
  exact ⟨c, c', t, msg, bye, ret, hc.mono fun _ _ _ ↦ trivial, Machine.act_sound hact, hack, hdown⟩

set_option maxRecDepth 10000 in
theorem ready_ack_certifies_sample : ∃ c c' t msg bye ret,
    (linkMachine (sampleCfg .b)).Reach (fun l s ↦ readyCovered l s) c ∧
    (linkMachine (sampleCfg .b)).Step c (.exec t (.held (.net (.response msg bye))) ret) c' ∧
    msg.info.op = .readyAck ∧ ∃ peer, (t, peer) ∈ c.state.his.acking ∧
      remoteMatches c.state.sess peer ∧ c.state.sess.pathsEnabled ∧
      c.state.hw.paths = some peer.transmitHopid ∧ c.state.sh.needsDown = false ∧
      c.state.his.downing = false := by
  obtain ⟨c, hc, hgoal⟩ := System.Exec.reach_of_play (linkMachine (sampleCfg .b)).exec
    (fun c s ↦ readyCovered c.state s)
    (fun c ↦ (Machine.act c sessionAct).any fun x ↦ handsReadyAck x.1)
    (readySchedule ++ linkSteps .session 2 {}) (Machine.init_idle ⟨50, 0, true, rfl⟩)
    (by decide +kernel)
  simp only [Option.any_eq_true] at hgoal
  obtain ⟨⟨s, c'⟩, hact, hhands⟩ := hgoal
  obtain ⟨t, msg, bye, ret, rfl, hack⟩ := handsReadyAck_iff.1 hhands
  have hstep := Machine.act_sound hact
  exact ⟨c, c', t, msg, bye, ret, hc, hstep, hack, ready_ack_certifies hc hstep hack⟩

end ThunderboltStack.Tbframe
