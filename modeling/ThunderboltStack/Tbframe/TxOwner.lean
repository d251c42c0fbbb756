import ThunderboltStack.Tbframe.SessionStep
import ThunderboltStack.Tbframe.TxPool

/-!
# The functions that work on TX frames

A frame in the hands of a function is left alone by the other threads, so each function of the TX
path finds the frames it works on where it put them.  `tbframe_core_tx_complete` may recurse into
the backlog; it never touches a frame that its caller still has to return.
-/

namespace ThunderboltStack.Tbframe

open ThunderboltStack.Lib Machine

section Stability

variable {cfg : LinkCfg} {G : (linkMachine cfg).Guard} {I : Link → Prop}
  {Pre : Tid → Op → Link → Prop} {t u : Tid} {l l' : Link} {f : ℕ}

def TxOp.target : TxOp → Option ℕ
  | .alloc _ _ _ | .splice | .putLink => none
  | .build f _ | .xmit f _ | .ringTx f | .ringErr f | .refillErr f => some f
  | .free f | .complete f _ | .toClient f => some f

theorem of_target {o : TxOp} (hpre : TxPre u (.held (.tx o)) l) (ho : o.target = some f) :
    (l.tx.frames f).loc.of u := by
  cases o with
  | build g dir =>
    cases ho
    have hloc : (l.tx.frames f).loc = .held u := hpre.1
    simp [hloc, TxLoc.of]
  | alloc len isCtrl preUp | splice | putLink => cases ho
  | _ =>
    cases ho
    simp only [TxPre] at hpre
    simp [hpre, TxLoc.of]

theorem spliceQueues_frame (h : (l.tx.frames f).loc ≠ .queued) (howned : TxOwned l) :
    (spliceQueues u l.tx).2.frames f = l.tx.frames f := by
  simp only [spliceQueues]
  split
  · next hmem => exact absurd ((howned.placed f).queued hmem) h
  · rfl

/-- Frames in the hands of a function are left alone by sections that work on other frames. -/
theorem txFrame_kept {o : TxOp} {i : o.Inp} {r : o.Res} (h : TxOwned l)
    (hpre : TxPre u (.held (.tx o)) l) (hf : (l.tx.frames f).loc.of t) (ho : o.target ≠ some f)
    (hrun : o.exec cfg u l i = some (r, l')) : l'.tx.frames f = l.tx.frames f := by
  have hqueued : (l.tx.frames f).loc ≠ .queued := fun hloc ↦ by simp [hloc, TxLoc.of] at hf
  cases o with
  | alloc len isCtrl preUp =>
    obtain rfl := link_of_run hrun
    simp only [allocFrameLocked]
    split
    · rfl
    split
    · rfl
    split
    · rfl
    · next g rest hlist =>
      apply Function.update_of_ne
      rintro rfl
      exact (h.not_mem hf).1 (by simp [hlist])
  | splice =>
    cases hrun
    exact spliceQueues_frame hqueued h
  | complete g canceled =>
    have hg : f ≠ g := fun heq ↦ ho (heq ▸ rfl)
    cases hrun
    obtain ⟨hreturn, hframes⟩ := txOwned_returned canceled h hpre
    have hsame := hframes f hg
    rw [← hsame] at hqueued
    obtain heq | ⟨n, tx, htake, -, heq⟩ | heq := txRefill_cases cfg u
      (txReturn u g { l with tx := txUnpost g canceled l.tx }).2 canceled
    all_goals simp only [heq]
    · exact hsame
    · have hn : f ≠ n := by
        rintro rfl
        exact hqueued (hreturn.refill (t := u) htake).1
      obtain ⟨hrest, -⟩ := takeQueued_eq htake
      rw [hrest]
      exact (Function.update_of_ne hn _ _).trans hsame
    · exact (spliceQueues_frame hqueued hreturn).trans hsame
  | xmit g preUp =>
    have hg : f ≠ g := fun heq ↦ ho (heq ▸ rfl)
    simp only [TxOp.exec, xmitLocked] at hrun
    (repeat' split at hrun) <;> cases hrun <;> first
      | rfl
      | exact Function.update_of_ne hg _ _
  | ringTx g =>
    have hg : f ≠ g := fun heq ↦ ho (heq ▸ rfl)
    simp only [TxOp.exec] at hrun
    (repeat' split at hrun) <;> cases hrun <;> first
      | rfl
      | exact Function.update_of_ne hg _ _
  | putLink =>
    cases hrun
    rfl
  | _ g =>
    have hg : f ≠ g := fun heq ↦ ho (heq ▸ rfl)
    cases hrun
    exact Function.update_of_ne hg _ _

structure TxKnown (cfg : LinkCfg) (G : (linkMachine cfg).Guard) (I : Link → Prop)
    (Pre : Tid → Op → Link → Prop) : Prop where
  exec : ∀ l u o i, I l → Pre u o l → G l (.exec u o i) → TxOwned l ∧ TxPre u o l
  start : ∀ l u e, I l → G l (.start u e) → TxOwned l

/-- Other threads leave a frame to the function that has it. -/
theorem txFrame_move (hk : TxKnown cfg G I Pre) (hne : u ≠ t) (hf : (l.tx.frames f).loc.of t)
    (hmove : (linkMachine cfg).Move G I Pre u l l') : l'.tx.frames f = l.tx.frames f := by
  have hview : txView l' = txView l → l'.tx.frames f = l.tx.frames f :=
    fun hview ↦ congrFun (congrArg Prod.fst hview) f
  cases hmove with
  | @enter e p hI hG henter =>
    have howned := hk.start l u e hI hG
    have hbegin := (enter_eq_some henter).2.1
    have hother : ∀ g, ((l.tx.frames g).loc = .client ∨ g ∈ l.hw.txRing) → f ≠ g := by
      rintro g hg rfl
      obtain hloc | hmem := hg
      · simp [hloc, TxLoc.of] at hf
      · exact (howned.not_mem hf).2.2 hmem
    cases e with
    | txComplete g canceled =>
      simp only [Entry.begin, takeFromTxRing] at hbegin
      split at hbegin <;> cases hbegin
      next hmem => exact Function.update_of_ne (hother g (.inr hmem.1)) _ _
    | xmit g | frameFree g =>
      simp only [Entry.begin, takeFromClient] at hbegin
      split at hbegin <;> cases hbegin
      next hloc => exact Function.update_of_ne (hother g (.inl hloc)) _ _
    | _ => exact hview (txView_begin rfl hbegin)
  | @exec o i r hI hpre hG hrun =>
    obtain ⟨howned, htx⟩ := hk.exec l u o i hI hpre hG
    obtain ⟨o, rfl⟩ | hsame := txView_run (o := o) hrun
    · refine txFrame_kept howned htx hf (fun ho ↦ ?_) hrun
      have hu := of_target htx ho
      cases hloc : (l.tx.frames f).loc <;> simp_all [TxLoc.of]
    · exact hview hsame

end Stability

section Programs

variable {cfg : LinkCfg} {t : Tid} {f : ℕ} {l l' : Link}

theorem txKnown : TxKnown cfg (fun _ _ ↦ True) TxOwned TxPre :=
  ⟨fun _ _ _ _ hI hpre _ ↦ ⟨hI, hpre⟩, fun _ _ _ hI _ ↦ hI⟩

/-- A frame that `__tbframe_alloc_frame` returns is held by its caller and has the length and the
kind that were asked for. -/
theorem alloc_ok {len : ℕ} {isCtrl preUp : Bool} {l : Link}
    (h : (allocFrameLocked t len isCtrl preUp l).1 = .ok f) :
    ((allocFrameLocked t len isCtrl preUp l).2.tx.frames f).loc = .held t ∧
      ((allocFrameLocked t len isCtrl preUp l).2.tx.frames f).len = len ∧
      ((allocFrameLocked t len isCtrl preUp l).2.tx.frames f).isCtrl = isCtrl := by
  simp only [allocFrameLocked] at h ⊢
  split at h
  · cases h
  split at h
  · cases h
  split at h
  · cases h
  · next hrefused hfull _ g rest hlist =>
    cases h
    simp [hrefused, hfull]

/-- The frames taken from the backlog are distinct, and they are on their way back. -/
theorem splice_done {l : Link} (h : TxOwned l) :
    (spliceQueues t l.tx).1.Nodup ∧ ∀ g ∈ (spliceQueues t l.tx).1,
      (l.tx.frames g).loc = .queued ∧ ((spliceQueues t l.tx).2.frames g).loc = .done t := by
  refine ⟨h.queueNodup, fun g hg ↦ ⟨(h.placed g).queued hg, ?_⟩⟩
  have hmem : g ∈ l.tx.txqData ++ l.tx.txqCtrl := hg
  simp only [spliceQueues, if_pos hmem]

/-- The frame that a function works on: one of some length, or one that it decided to post. -/
inductive Grip
  | none
  | held (f len : ℕ)
  | posting (f : ℕ)

/-- What a function has: the frame it works on, and the frames on their way back to the pool. -/
structure Hands where
  grip : Grip
  done : List ℕ

/-- The frame is where the function of `t` put it. -/
def Grip.Has (t : Tid) (l : Link) : Grip → Prop
  | .none => True
  | .held f len => (l.tx.frames f).loc = .held t ∧ (l.tx.frames f).len = len
  | .posting f => (l.tx.frames f).loc = .posting t

/-- `t` has the frames. -/
structure Hands.Has (t : Tid) (v : Hands) (l : Link) : Prop where
  grip : v.grip.Has t l
  nodup : v.done.Nodup
  done : ∀ g ∈ v.done, (l.tx.frames g).loc = .done t

def TxOp.effect (v : Hands) : (o : TxOp) → (o.Res → Hands → Prop) → Prop
  | .alloc len _ _, Q => (∀ e, Q (.error e) v) ∧ ∀ f, Q (.ok f) ⟨.held f len, v.done⟩
  | .build f dir, Q => v.grip = .held f (keepaliveLen dir) ∧ Q () v
  | .xmit f _, Q => (∃ len, v.grip = .held f len) ∧
      Q .queued ⟨.none, v.done⟩ ∧ Q .refused v ∧ Q .post ⟨.posting f, v.done⟩
  | .ringTx f, Q => v.grip = .posting f ∧ Q (0 : ℤ) ⟨.none, v.done⟩ ∧ ∀ ret : ℤ, ret ≠ 0 → Q ret v
  | .ringErr f, Q => v.grip = .posting f ∧ ∀ len, Q () ⟨.held f len, v.done⟩
  | .refillErr f, Q => v.grip = .posting f ∧ Q () ⟨.none, f :: v.done⟩
  | .free f, Q => (∃ len, v.grip = .held f len) ∧ ∀ r, Q r ⟨.none, v.done⟩
  | .toClient f, Q => (∃ len, v.grip = .held f len) ∧ Q () ⟨.none, v.done⟩
  | .complete f _, Q => v.grip = .none ∧ ∃ rest, v.done = f :: rest ∧
      ∀ r : TxLocals, Q r ⟨r.next.elim .none .posting, r.flush ++ rest⟩
  | .splice, Q => v = ⟨.none, []⟩ ∧ ∀ flush, Q flush ⟨.none, flush⟩
  | .putLink, Q => Q () v

def handsEffect : Effect heldSig Hands
  | .tx o, v, Q => o.effect v Q
  | .base o, v, Q => o ≠ .ctl .halt → ∀ r, Q r v
  | _, v, Q => ∀ r, Q r v

theorem Hands.Has.congr {v : Hands} (h : v.Has t l)
    (hframe : ∀ f, (l.tx.frames f).loc.of t → l'.tx.frames f = l.tx.frames f) : v.Has t l' := by
  obtain ⟨grip, done⟩ := v
  refine ⟨?_, h.nodup, fun g hg ↦ ?_⟩
  · have hgrip := h.grip
    cases grip with
    | none => trivial
    | held f len =>
      simp only [Grip.Has] at hgrip ⊢
      rwa [hframe f (by simp [hgrip.1, TxLoc.of])]
    | posting f =>
      simp only [Grip.Has] at hgrip ⊢
      rwa [hframe f (by simp [hgrip, TxLoc.of])]
  · rw [hframe g (by simp [h.done g hg, TxLoc.of])]
    exact h.done g hg

/-- A section leaves the frames on their way back alone, unless it works on one of them. -/
theorem Hands.Has.done_kept {v : Hands} (h : v.Has t l) (howned : TxOwned l) {o : TxOp}
    {i : o.Inp} {r : o.Res} (hpre : TxPre t (.held (.tx o)) l)
    (hrun : o.exec cfg t l i = some (r, l')) {g : ℕ} (hg : g ∈ v.done) (ho : o.target ≠ some g) :
    (l'.tx.frames g).loc = .done t := by
  rw [txFrame_kept howned hpre (t := t) (by simp [h.done g hg, TxLoc.of]) ho hrun]
  exact h.done g hg

/-- What `tbframe_core_tx_complete` has after its section, beside the frames `rest`. -/
theorem has_complete {canceled : Bool} {rest : List ℕ} (h : TxOwned l)
    (hl : Hands.Has t ⟨.none, f :: rest⟩ l) :
    Hands.Has t ⟨(txCompleteLocked cfg t f canceled l).1.next.elim .none .posting,
      (txCompleteLocked cfg t f canceled l).1.flush ++ rest⟩
      (txCompleteLocked cfg t f canceled l).2 := by
  obtain ⟨hfnot, hnodup⟩ := List.nodup_cons.1 hl.nodup
  have hf := hl.done f List.mem_cons_self
  obtain ⟨hreturn, hframes⟩ := txOwned_returned canceled h hf
  have hkept : ∀ g ∈ rest, ((txCompleteLocked cfg t f canceled l).2.tx.frames g).loc = .done t :=
    fun g hg ↦ hl.done_kept h (o := .complete f canceled) (i := ()) hf rfl
      (List.mem_cons_of_mem f hg) fun heq ↦ hfnot (Option.some.inj heq ▸ hg)
  obtain heq | ⟨n, tx, htake, -, heq⟩ | heq := txRefill_cases cfg t
    (txReturn t f { l with tx := txUnpost f canceled l.tx }).2 canceled
  all_goals simp only [txCompleteLocked, heq] at hkept ⊢
  · exact ⟨trivial, hnodup, hkept⟩
  · exact ⟨by simp [Grip.Has, postTx], hnodup, hkept⟩
  · obtain ⟨hflush, hdone⟩ := splice_done (t := t) hreturn
    refine ⟨trivial, hflush.append hnodup fun g hg hmem ↦ ?_, fun g hg ↦ ?_⟩
    · -- a frame of the backlog is not one on its way back
      have hqueued := (hdone g hg).1
      rw [hframes g fun heq ↦ hfnot (heq ▸ hmem), hl.done g (.tail f hmem)] at hqueued
      cases hqueued
    · exact (List.mem_append.1 hg).elim (fun hg ↦ (hdone g hg).2) (hkept g)

/-- A TX section finds its frame in the hands of its thread and moves it as its effect says. -/
theorem txEffect_exec {v : Hands} {o : TxOp} {Q : o.Res → Hands → Prop} (h : o.effect v Q)
    (hI : TxOwned l) (hl : v.Has t l) {i : o.Inp} {r : o.Res}
    (hrun : o.exec cfg t l i = some (r, l')) :
    TxPre t (.held (.tx o)) l ∧ ∃ v', Hands.Has t v' l' ∧ Q r v' := by
  obtain ⟨grip, done⟩ := v
  have hgrip := hl.grip
  have hdone : TxPre t (.held (.tx o)) l →
      (∀ g, o.target = some g → (l.tx.frames g).loc ≠ .done t) →
      ∀ g ∈ done, (l'.tx.frames g).loc = .done t := fun hpre ho g hg ↦
    hl.done_kept hI hpre hrun hg fun heq ↦ ho g heq (hl.done g hg)
  cases o with
  | putLink =>
    cases hrun
    exact ⟨trivial, _, hl.congr fun _ _ ↦ rfl, h⟩
  | splice =>
    obtain ⟨⟨⟩, hQ⟩ := h
    obtain ⟨rfl, rfl⟩ := Prod.mk.inj (Option.some.inj hrun)
    obtain ⟨hnodup, hsplice⟩ := splice_done (t := t) hI
    exact ⟨trivial, ⟨.none, _⟩, ⟨trivial, hnodup, fun g hg ↦ (hsplice g hg).2⟩, hQ _⟩
  | complete f canceled =>
    obtain ⟨⟨⟩, rest, ⟨⟩, hQ⟩ := h
    obtain ⟨rfl, rfl⟩ := Prod.mk.inj (Option.some.inj hrun)
    exact ⟨hl.done f List.mem_cons_self, _, has_complete hI hl, hQ _⟩
  | alloc len isCtrl preUp =>
    have hkept := hl.congr fun f hf ↦
      txFrame_kept (o := .alloc len isCtrl preUp) hI trivial hf (by simp [TxOp.target]) hrun
    obtain ⟨hr, rfl⟩ := Prod.mk.inj (Option.some.inj hrun)
    cases r with
    | error e => exact ⟨trivial, _, hkept, h.1 e⟩
    | ok f =>
      exact ⟨trivial, ⟨.held f len, done⟩,
        ⟨⟨(alloc_ok hr).1, (alloc_ok hr).2.1⟩, hl.nodup, hkept.done⟩, h.2 f⟩
  | xmit f preUp =>
    obtain ⟨⟨len, ⟨⟩⟩, hqueued, hrefused, hpost⟩ := h
    have hdone := hdone hgrip.1 (by simp [TxOp.target, hgrip.1])
    refine ⟨hgrip.1, ?_⟩
    simp only [TxOp.exec, xmitLocked] at hrun
    (repeat' split at hrun) <;> cases hrun <;> first
      | exact ⟨_, hl.congr fun _ _ ↦ rfl, hrefused⟩
      | exact ⟨⟨.none, done⟩, ⟨trivial, hl.nodup, hdone⟩, hqueued⟩
      | exact ⟨⟨.posting f, done⟩, ⟨by simp [Grip.Has, postTx], hl.nodup, hdone⟩, hpost⟩
  | build f dir =>
    obtain ⟨⟨⟩, hQ⟩ := h
    have hdone := hdone hgrip (by simp [TxOp.target, hgrip.1])
    cases hrun
    exact ⟨hgrip, _, ⟨by simpa [Grip.Has, buildKeepalive] using hgrip, hl.nodup, hdone⟩, hQ⟩
  | ringTx f =>
    obtain ⟨⟨⟩, hzero, hret⟩ := h
    have hloc : (l.tx.frames f).loc = .posting t := hgrip
    have hdone := hdone hgrip (by simp [TxOp.target, hloc])
    refine ⟨hgrip, ?_⟩
    simp only [TxOp.exec] at hrun
    split at hrun
    · split at hrun <;> cases hrun
      exact ⟨⟨.none, done⟩, ⟨trivial, hl.nodup, hdone⟩, hzero⟩
    · next hne =>
      cases hrun
      exact ⟨_, hl, hret _ hne⟩
  | ringErr f =>
    obtain ⟨⟨⟩, hQ⟩ := h
    have hloc : (l.tx.frames f).loc = .posting t := hgrip
    have hdone := hdone hgrip (by simp [TxOp.target, hloc])
    cases hrun
    exact ⟨hgrip, ⟨.held f _, done⟩, ⟨⟨by simp [xmitRingErr, unpost], rfl⟩, hl.nodup, hdone⟩, hQ _⟩
  | refillErr f =>
    obtain ⟨⟨⟩, hQ⟩ := h
    have hloc : (l.tx.frames f).loc = .posting t := hgrip
    have hdone := hdone hgrip (by simp [TxOp.target, hloc])
    cases hrun
    refine ⟨hgrip, ⟨.none, f :: done⟩, ⟨trivial, List.nodup_cons.2 ⟨fun hmem ↦ ?_, hl.nodup⟩,
      List.forall_mem_cons.2 ⟨by simp [refillErr, unpost], hdone⟩⟩, hQ⟩
    simp [hl.done f hmem] at hloc
  | free f =>
    obtain ⟨⟨len, ⟨⟩⟩, hQ⟩ := h
    have hdone := hdone hgrip.1 (by simp [TxOp.target, hgrip.1])
    exact ⟨hgrip.1, ⟨.none, done⟩, ⟨trivial, hl.nodup, hdone⟩, hQ r⟩
  | toClient f =>
    obtain ⟨⟨len, ⟨⟩⟩, hQ⟩ := h
    have hdone := hdone hgrip.1 (by simp [TxOp.target, hgrip.1])
    exact ⟨hgrip.1, ⟨.none, done⟩, ⟨trivial, hl.nodup, hdone⟩, hQ⟩

/-- A thread knows the TX frames in its hands. -/
theorem tracks_hands : (linkMachine cfg).Tracks (fun _ _ ↦ True) TxOwned TxPre t
    (fun v ↦ Hands.Has t v) (heldEffect handsEffect) where
  stable v := by
    rintro l l' hl ⟨u, hne, hmove⟩
    exact hl.congr fun f hf ↦ txFrame_move txKnown hne hf hmove
  exec o v Q h l i r l' hI hl _ hrun := by
    have hkept : (¬ ∃ p, o = .held (.tx p)) → v.Has t l' := fun ho ↦
      hl.congr fun f _ ↦ congrFun (congrArg Prod.fst ((txView_run hrun).resolve_left ho)) f
    cases o with
    | held o =>
      cases o with
      | tx o => exact txEffect_exec h hI hl hrun
      | base o =>
        refine ⟨trivial, v, hkept (by simp), h (fun ho ↦ ?_) r⟩
        subst ho
        cases hrun
      | net o | rx o | sess o => exact ⟨trivial, v, hkept (by simp), h r⟩
    | _ => exact h.elim

attribute [local simp] handsEffect TxOp.effect liftM monadLift

namespace Hands

variable {done : List ℕ}

theorem keeps_base {v : Hands} (o : BaseOp) : handsEffect.Keeps v (.base o) :=
  fun _ hQ _ ↦ hQ

theorem wlp_xmit {preUp : Bool} {len : ℕ} {Q : ℤ → Hands → Prop} (hsent : Q 0 ⟨.none, done⟩)
    (hret : ∀ ret len, ret ≠ 0 → Q ret ⟨.held f len, done⟩) :
    (xmit f preUp).wlp (handsEffect.lift txHeld) Q ⟨.held f len, done⟩ := by
  simp [xmit, hsent, hret, enetdown]
  exact fun ret hne ↦ ⟨fun _ len ↦ hret ret len hne, fun h ↦ absurd h hne⟩

theorem wlp_frameFree {len : ℕ} {Q : Unit → Hands → Prop} (hQ : Q () ⟨.none, done⟩) :
    (frameFree f).wlp (handsEffect.lift txHeld) Q ⟨.held f len, done⟩ := by
  simp [frameFree, hQ]

theorem wlp_sendKeepalive {preUp : Bool} {Q : ℤ → Hands → Prop} (hQ : ∀ ret, Q ret ⟨.none, done⟩) :
    (sendKeepalive preUp).wlp (handsEffect.lift txHeld) Q ⟨.none, done⟩ := by
  simp [sendKeepalive, hQ]
  intro caps f
  apply wlp_xmit
  · simp [hQ]
  · intro ret len hret
    simp [hret]
    exact wlp_frameFree (hQ _)

theorem wlp_clientAlloc {len : ℕ} {isCtrl : Bool} {Q : Unit → Hands → Prop}
    (hQ : Q () ⟨.none, done⟩) :
    (clientAlloc len isCtrl).wlp (handsEffect.lift txHeld) Q ⟨.none, done⟩ := by
  simp [clientAlloc, hQ]

theorem wlp_clientXmit {len : ℕ} {Q : Unit → Hands → Prop} (hQ : Q () ⟨.none, done⟩) :
    (clientXmit f).wlp (handsEffect.lift txHeld) Q ⟨.held f len, done⟩ := by
  simp [clientXmit]
  apply wlp_xmit
  · simp [hQ]
  · intro ret len hret
    simp [hret, hQ]

/-- A program that works on frames one after another leaves the others alone. -/
theorem wlp_flush {S : Sig} {E : Effect S Hands} {p : ℕ → Prog S Unit} {Q : Unit → Hands → Prop}
    (hp : ∀ g rest {Q : Unit → Hands → Prop}, Q () ⟨.none, rest⟩ →
      (p g).wlp E Q ⟨.none, g :: rest⟩) :
    ∀ flush, Q () ⟨.none, done⟩ → (Prog.forEach flush p).wlp E Q ⟨.none, flush ++ done⟩
  | [], hQ => hQ
  | g :: flush, hQ => (Prog.wlp_bind _ _ _).mpr (hp g _ (wlp_flush hp flush hQ))

/-- `tbframe_core_tx_complete` returns the frame it is given, and touches no other frame that its
caller has. -/
theorem wlp_coreTxComplete (n : ℕ) : ∀ (f : ℕ) (canceled : Bool) (rest : List ℕ)
    {Q : Unit → Hands → Prop}, Q () ⟨.none, rest⟩ →
      (coreTxComplete n f canceled).wlp (handsEffect.lift txHeld) Q ⟨.none, f :: rest⟩ := by
  induction n with
  | zero => exact fun _ _ _ _ _ h ↦ absurd rfl h
  | succ n ih =>
    intro f canceled rest Q hQ
    simp [coreTxComplete]
    rintro ⟨release, next, flush⟩
    have hflush : (Prog.forEach flush fun qf ↦ coreTxComplete n qf true).wlp
        (handsEffect.lift txHeld) (fun _ v ↦ (release = true → Q () v) ∧ (release = false → Q () v))
        ⟨.none, flush ++ rest⟩ := wlp_flush (ih · true) flush (by simp [hQ])
    cases next with
    | none => simpa [Prog.forEach] using hflush
    | some next =>
      simp [Prog.forEach, hflush]
      exact fun ret hret ↦ ⟨fun _ ↦ ih next true _ hflush, fun h ↦ absurd h hret⟩

/-- The flush of the backlog in `tbframe_link_down_session`. -/
theorem wlp_downQuiesce {reason : DownReason} {d : DownLocals} {Q : DownReason → Hands → Prop}
    (hQ : ∀ r, Q r ⟨.none, []⟩) : (downQuiesce reason d).wlp handsEffect Q ⟨.none, []⟩ := by
  have hflush : ∀ flush n {Q : Unit → Hands → Prop}, Q () ⟨.none, []⟩ →
      (Prog.forEach flush fun qf ↦ (coreTxComplete n qf true).lift txHeld).wlp handsEffect Q
        ⟨.none, flush⟩ := fun flush n Q hQ ↦ by
    simpa using wlp_flush (fun g rest _ hQ ↦ (Prog.wlp_lift ..).mpr
      (wlp_coreTxComplete n g true rest hQ)) flush hQ
  simp [downQuiesce]
  exact ⟨fun flush n ↦ hflush flush n (by simp [hQ]), fun flush n ↦ hflush flush n (by simp [hQ])⟩

end Hands

theorem has_nothing (l : Link) : Hands.Has t ⟨.none, []⟩ l :=
  ⟨trivial, .nil, nofun⟩

theorem hands_partCode : PartCode cfg fun _ p ↦ p.Neutral handsEffect ⟨.none, []⟩ where
  toHeldCode := heldCode_neutral Hands.keeps_base
  sess _ _ hQ := hQ
  net p _ := Prog.neutral_of_all (all_net Hands.keeps_base (fun _ _ hQ ↦ hQ) p)
  flush := Prog.neutral_of_all (all_net Hands.keeps_base (fun _ _ hQ ↦ hQ) _)
  post _ := Prog.neutral_of_all (all_rx Hands.keeps_base (fun _ _ hQ ↦ hQ) _)
  probe := Prog.Neutral.lift fun _ ↦ Hands.wlp_sendKeepalive
  quiesce _ _ _ := Hands.wlp_downQuiesce

end Programs

/-- In every run, TX frames are in their places, the counters are right, and functions work on the
frames they have. -/
theorem tx_verified (cfg : LinkCfg) :
    (linkMachine cfg).Verified (fun _ _ ↦ True) TxOwned TxPre where
  init l h := by
    obtain ⟨random, requestSeq, autostart, rfl⟩ := h
    refine ⟨List.nodup_range, List.nodup_nil, List.nodup_nil, fun f ↦ ?_, tally_zero fun _ ↦ rfl,
      tally_zero fun _ ↦ rfl, tally_zero fun _ ↦ rfl⟩
    exact { free := fun _ ↦ rfl, queued := by simp [linkCreate], ring := by simp [linkCreate]
            posted := by simp [linkCreate, TxLoc.posted], unposted := by simp [linkCreate]
            uncharged := fun _ ↦ ⟨rfl, rfl⟩ }
  enter t e l p l' hI _ henter := by
    obtain ⟨-, hbegin, rfl⟩ := enter_eq_some henter
    refine ⟨txOwned_begin hI hbegin, ?_⟩
    cases he : e.domain with
    | tx =>
      cases e with
      | verifyWork =>
        have hbase : ∀ {α : Type} (p : BaseProg α),
            (linkMachine cfg).Safe (fun _ _ ↦ True) TxOwned TxPre t (baseEntry p) :=
          safe_free fun _ _ ↦ trivial
        exact Safe.bind ((heldCode_safe hbase).verifyStep (safe_neutral tracks_hands has_nothing
          (.lift fun _ ↦ Hands.wlp_sendKeepalive))) (fun _ ↦ hbase _) l' trivial
      | txComplete f canceled =>
        have hhas : Hands.Has t ⟨.none, [f]⟩ l' := ⟨trivial, List.nodup_singleton f,
          List.forall_mem_singleton.2 (txOwned_takeFromTxRing hI hbegin).2⟩
        refine Triple.bind (triple_tracked tracks_hands (p := (ctl .turns).lift baseHeld >>= fun n ↦
          (coreTxComplete n f canceled).lift txHeld) fun _ n ↦ ?_)
          (fun _ ↦ safe_call (o := .callbackDone) fun _ ↦ trivial) l' hhas
        exact (Prog.wlp_lift ..).mpr (Hands.wlp_coreTxComplete n f canceled [] trivial)
      | allocFrame len isCtrl =>
        exact triple_tracked tracks_hands ((Prog.wlp_lift ..).mpr (Hands.wlp_clientAlloc trivial))
          l' (has_nothing l')
      | xmit f =>
        exact triple_tracked tracks_hands ((Prog.wlp_lift ..).mpr (Hands.wlp_clientXmit trivial)) l'
          ⟨⟨(txOwned_takeFromClient hI hbegin).2, rfl⟩, .nil, by simp⟩
      | frameFree f =>
        exact triple_tracked tracks_hands ((Prog.wlp_lift ..).mpr (Hands.wlp_frameFree trivial)) l'
          ⟨⟨(txOwned_takeFromClient hI hbegin).2, rfl⟩, .nil, by simp⟩
      | _ => cases he
    | rx =>
      exact safe_onRx (safe_free fun o _ ↦ by cases o <;> trivial) (fun _ ↦ trivial) he l' trivial
    | other =>
      exact safe_parts tracks_hands hands_partCode has_nothing (fun o ho _ ↦ by
        cases o <;> first | exact absurd rfl (ho _) | trivial) he (fun _ _ ↦ (Prog.wlp_lift ..).mp
          (Prog.wlp_of_all (all_net Hands.keeps_base (fun _ _ hQ ↦ hQ) _) fun _ ↦ trivial)) l'
        trivial
  exec t o i l r l' hI hpre _ hrun := txOwned_run hI hpre hrun

/-- The steps that keep to the lock discipline, the ownership of frames and descriptors, and the
phases of the session. -/
def Settled (cfg : LinkCfg) : (linkMachine cfg).Guard :=
  (Stepped cfg).with TxOwned TxPre

section Settled

variable {cfg : LinkCfg}

theorem settled_step {c c' : (linkMachine cfg).Config} {s : (linkMachine cfg).Label}
    (hc : (linkMachine cfg).system.Reachable c) (hstep : (linkMachine cfg).Step c s c') :
    Settled cfg c.state s :=
  ((tx_verified cfg).guard fun _ _ _ ↦ trivial).with_step (stepped_reach hc) (stepped_step hc hstep)
    hstep

theorem settled_reach {G : (linkMachine cfg).Guard} {c : (linkMachine cfg).Config}
    (hc : (linkMachine cfg).Reach G c) :
    (linkMachine cfg).Reach (fun l s ↦ G l s ∧ Settled cfg l s) c :=
  hc.strengthen fun _ _ _ hr _ hstep ↦ settled_step (hr.mono fun _ _ _ ↦ trivial) hstep

end Settled

end ThunderboltStack.Tbframe
