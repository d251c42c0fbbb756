import Mathlib.Data.List.Nodup
import ThunderboltStack.Tbframe.Lock

/-!
# Ownership of RX descriptors

Every RX descriptor is in one place: on the free list, in the ring, in the hands of one running
function, or with the client.  A function works only on descriptors it holds, so what it knows about
them survives the steps of the other threads.
-/

namespace ThunderboltStack.Tbframe

open ThunderboltStack.Lib Machine

/-- A descriptor is where its `loc` says, its references match that place, and it is not ahead of
the link's generation. -/
structure RxFrame.Placed (fr : RxFrame) (free ring : Prop) (generation : ℕ) : Prop where
  free : free → fr.loc = .free
  ring : ring → fr.loc = .posted
  generation : fr.rxGeneration ≤ generation
  resting : fr.loc = .free ∨ fr.loc = .posted → fr.clientRefs = 0
  held : ∀ t, fr.loc = .held t → fr.clientRefs = 0 ∨ fr.rxRefs = fr.clientRefs + 1
  client : fr.loc = .client → fr.rxRefs = fr.clientRefs

/-- The descriptors on the free list and in the ring are distinct, and each is in its place. -/
structure RxOwned (l : Link) : Prop where
  freeNodup : l.rx.rxFree.Nodup
  ringNodup : l.hw.rxRing.Nodup
  placed : ∀ f, (l.rx.frames f).Placed (f ∈ l.rx.rxFree) (f ∈ l.hw.rxRing) l.sess.dataGeneration

def RxPre (t : Tid) : Op → Link → Prop
  | .held (.rx (.putback f)), l | .held (.rx (.postRx f)), l =>
      (l.rx.frames f).loc = .held t ∧ (l.rx.frames f).clientRefs = 0
  | .held (.rx (.recycle f)), l | .held (.rx (.stamp f)), l => (l.rx.frames f).loc = .held t
  | .held (.rx (.complete f _ _)), l => (l.rx.frames f).loc = .held t
  | .held (.rx (.upcallRx f _ _)), l => (l.rx.frames f).loc = .held t
  | .held (.rx (.corePut f)), l =>
      (l.rx.frames f).loc = .held t ∧ (l.rx.frames f).rxRefs = (l.rx.frames f).clientRefs + 1
  | _, _ => True

section Steps

variable {cfg : LinkCfg} {t : Tid} {l l' : Link}

/-- Changing one descriptor keeps the rest of the pool in place. -/
theorem RxOwned.update (h : RxOwned l) {f : ℕ} {fr : RxFrame}
    (hframes : l'.rx.frames = Function.update l.rx.frames f fr)
    (hgen : l'.sess.dataGeneration = l.sess.dataGeneration)
    (hfreeNodup : l'.rx.rxFree.Nodup) (hringNodup : l'.hw.rxRing.Nodup)
    (hfree : ∀ g ≠ f, g ∈ l'.rx.rxFree → g ∈ l.rx.rxFree)
    (hring : ∀ g ≠ f, g ∈ l'.hw.rxRing → g ∈ l.hw.rxRing)
    (hfr : fr.Placed (f ∈ l'.rx.rxFree) (f ∈ l'.hw.rxRing) l'.sess.dataGeneration) :
    RxOwned l' := by
  refine ⟨hfreeNodup, hringNodup, fun g ↦ ?_⟩
  by_cases hg : g = f
  · subst hg
    rw [hframes, Function.update_self]
    exact hfr
  · rw [hframes, Function.update_of_ne hg]
    have hplaced := h.placed g
    exact { hplaced with
      free := fun hmem ↦ hplaced.free (hfree g hg hmem)
      ring := fun hmem ↦ hplaced.ring (hring g hg hmem)
      generation := hgen ▸ hplaced.generation }

/-- Steps that leave the pool and the ring alone keep the descriptors in place. -/
theorem RxOwned.congr (h : RxOwned l) (hrx : l'.rx = l.rx) (hring : l'.hw.rxRing = l.hw.rxRing)
    (hgen : l.sess.dataGeneration ≤ l'.sess.dataGeneration) : RxOwned l' := by
  refine ⟨hrx ▸ h.freeNodup, hring ▸ h.ringNodup, fun g ↦ ?_⟩
  rw [hrx, hring]
  exact { h.placed g with generation := Nat.le_trans (h.placed g).generation hgen }

/-- A held descriptor is neither free nor in the ring. -/
theorem RxOwned.not_mem (h : RxOwned l) {f : ℕ} (hf : (l.rx.frames f).loc = .held t) :
    f ∉ l.rx.rxFree ∧ f ∉ l.hw.rxRing := by
  constructor
  · intro hmem
    have hfree := (h.placed f).free hmem
    simp [hf] at hfree
  · intro hmem
    have hring := (h.placed f).ring hmem
    simp [hf] at hring

theorem RxOwned.not_mem_ring (h : RxOwned l) {f : ℕ} (hf : f ∈ l.rx.rxFree) :
    f ∉ l.hw.rxRing := by
  intro hmem
  have hring := (h.placed f).ring hmem
  rw [(h.placed f).free hf] at hring
  simp at hring

theorem rxOwned_putback {f : ℕ} (h : RxOwned l) (hheld : (l.rx.frames f).loc = .held t)
    (hrefs : (l.rx.frames f).clientRefs = 0) : RxOwned (putbackRxLocked t f l) := by
  have hnot := h.not_mem hheld
  refine h.update (f := f) rfl rfl ?_ ?_ ?_ ?_ ?_
  · exact h.freeNodup.append (List.nodup_singleton f) (by simpa using hnot.1)
  · exact h.ringNodup
  · intro g hg hmem
    simpa [putbackRxLocked, hg] using hmem
  · exact fun _ _ hmem ↦ hmem
  · exact { free := fun _ ↦ rfl, ring := fun hmem ↦ absurd hmem hnot.2
            generation := (h.placed f).generation, resting := fun _ ↦ hrefs
            held := by simp, client := by simp }

theorem rxOwned_takeFree (h : RxOwned l) : RxOwned (takeRxFree t l).2 := by
  unfold takeRxFree
  split
  · exact h
  · next f rest hlist =>
    have hmem : f ∈ l.rx.rxFree := by simp [hlist]
    have hnodup : (f :: rest).Nodup := hlist ▸ h.freeNodup
    have hplaced := h.placed f
    refine h.update (f := f) rfl rfl ?_ ?_ ?_ ?_ ?_
    · exact (List.nodup_cons.1 hnodup).2
    · exact h.ringNodup
    · intro g _ hg
      rw [hlist]
      exact List.mem_cons_of_mem f hg
    · exact fun _ _ hmem ↦ hmem
    · exact { free := fun hmem ↦ absurd hmem (List.nodup_cons.1 hnodup).1
              ring := fun hmem' ↦ absurd hmem' (h.not_mem_ring hmem)
              generation := hplaced.generation, resting := by simp
              held := fun _ _ ↦ .inl (hplaced.resting (.inl (hplaced.free hmem)))
              client := by simp }

theorem rxOwned_postRx {f : ℕ} (h : RxOwned l) (hheld : (l.rx.frames f).loc = .held t)
    (hrefs : (l.rx.frames f).clientRefs = 0) : RxOwned (postRxAccept f l) := by
  have hnot := h.not_mem hheld
  refine h.update (f := f) rfl rfl ?_ ?_ ?_ ?_ ?_
  · exact h.freeNodup
  · exact h.ringNodup.append (List.nodup_singleton f) (by simpa using hnot.2)
  · exact fun _ _ hmem ↦ hmem
  · intro g hg hmem
    simpa [postRxAccept, hg] using hmem
  · exact { free := fun hmem ↦ absurd hmem hnot.1, ring := fun _ ↦ rfl
            generation := (h.placed f).generation, resting := fun _ ↦ hrefs
            held := by simp, client := by simp }

/-- Changing a held descriptor without moving it to a list keeps the pool in place. -/
theorem RxOwned.updateHeld (h : RxOwned l) {f : ℕ} {fr : RxFrame}
    (hheld : (l.rx.frames f).loc = .held t)
    (hl' : l' = { l with rx := { l.rx with frames := Function.update l.rx.frames f fr } })
    (hgen : fr.rxGeneration ≤ l.sess.dataGeneration)
    (hloc : (∃ u, fr.loc = .held u ∧ (fr.clientRefs = 0 ∨ fr.rxRefs = fr.clientRefs + 1)) ∨
      fr.loc = .client ∧ fr.rxRefs = fr.clientRefs) : RxOwned l' := by
  subst hl'
  have hnot := h.not_mem hheld
  refine h.update (f := f) rfl rfl h.freeNodup h.ringNodup (fun _ _ hmem ↦ hmem)
    (fun _ _ hmem ↦ hmem) ?_
  obtain ⟨u, hu, hrefs⟩ | ⟨hc, hrefs⟩ := hloc
  · exact { free := fun hmem ↦ absurd hmem hnot.1, ring := fun hmem ↦ absurd hmem hnot.2
            generation := hgen, resting := by simp [hu], held := fun _ _ ↦ hrefs
            client := by simp [hu] }
  · exact { free := fun hmem ↦ absurd hmem hnot.1, ring := fun hmem ↦ absurd hmem hnot.2
            generation := hgen, resting := by simp [hc], held := by simp [hc]
            client := fun _ ↦ hrefs }

theorem rxOwned_corePut {f : ℕ} (h : RxOwned l) (hheld : (l.rx.frames f).loc = .held t)
    (hrefs : (l.rx.frames f).rxRefs = (l.rx.frames f).clientRefs + 1) :
    RxOwned (corePutRx t f l).2 := by
  refine h.updateHeld hheld rfl (h.placed f).generation ?_
  by_cases hlast : (l.rx.frames f).rxRefs = 1
  · have hzero : (l.rx.frames f).clientRefs = 0 := by omega
    exact .inl ⟨t, by simp [hlast], .inl hzero⟩
  · refine .inr ⟨by simp [hlast], ?_⟩
    simp only [hrefs]
    omega

theorem rxOwned_clientPut (f : ℕ) (h : RxOwned l) : RxOwned (clientPutRxRef t f l).2 := by
  unfold clientPutRxRef
  split
  · exact h
  · next hsome =>
    have hplaced := h.placed f
    -- the client has references, so the descriptor is with it or held by the core beside it
    cases hloc : (l.rx.frames f).loc with
    | free => exact absurd (hplaced.resting (.inl hloc)) hsome
    | posted => exact absurd (hplaced.resting (.inr hloc)) hsome
    | held u =>
      have hrefs := (hplaced.held u hloc).resolve_left hsome
      have hmore : (l.rx.frames f).rxRefs ≠ 1 := by omega
      refine h.updateHeld hloc rfl hplaced.generation (.inl ⟨u, by simp [hmore], .inr ?_⟩)
      simp only
      omega
    | client =>
      have hrefs := hplaced.client hloc
      have hfree : f ∉ l.rx.rxFree := fun hmem ↦ by simpa [hloc] using hplaced.free hmem
      have hring : f ∉ l.hw.rxRing := fun hmem ↦ by simpa [hloc] using hplaced.ring hmem
      refine h.update (f := f) rfl rfl h.freeNodup h.ringNodup (fun _ _ hmem ↦ hmem)
        (fun _ _ hmem ↦ hmem) ?_
      by_cases hlast : (l.rx.frames f).rxRefs = 1
      · have hzero : (l.rx.frames f).clientRefs - 1 = 0 := by omega
        exact { free := fun hmem ↦ absurd hmem hfree, ring := fun hmem ↦ absurd hmem hring
                generation := hplaced.generation, resting := fun _ ↦ hzero
                held := fun _ _ ↦ .inl hzero, client := by simp [hlast] }
      · exact { free := fun hmem ↦ absurd hmem hfree, ring := fun hmem ↦ absurd hmem hring
                generation := hplaced.generation, resting := by simp [hlast]
                held := by simp [hlast], client := fun _ ↦ by simp [hrefs] }

theorem rxOwned_stamp {f : ℕ} (h : RxOwned l) (hheld : (l.rx.frames f).loc = .held t) :
    RxOwned (stampRx f l) := by
  refine h.updateHeld hheld rfl (Nat.le_refl _) (.inl ⟨t, hheld, ?_⟩)
  exact (h.placed f).held t hheld

theorem recycleRxLocked_link (f : ℕ) (l : Link) :
    (recycleRxLocked f l).2 = if (recycleRxLocked f l).1 then stampRx f l else l := by
  simp only [recycleRxLocked, stampRx]
  split <;> rfl

/-- Every RX section moves a descriptor from one owner to the next. -/
theorem rxOwned_rx {o : RxOp} {i : o.Inp} {r : o.Res} (h : RxOwned l)
    (hpre : RxPre t (.held (.rx o)) l) (hrun : o.exec t l i = some (r, l')) : RxOwned l' := by
  cases o with
  | putback f =>
    cases hrun
    exact rxOwned_putback h hpre.1 hpre.2
  | recycle f =>
    obtain rfl := link_of_run hrun
    rw [recycleRxLocked_link]
    split
    · exact rxOwned_stamp h hpre
    · exact h
  | takeFree =>
    obtain rfl := link_of_run hrun
    exact rxOwned_takeFree h
  | stamp f =>
    cases hrun
    exact rxOwned_stamp h hpre
  | postRx f =>
    simp only [RxOp.exec] at hrun
    split at hrun
    · split at hrun <;> cases hrun
      exact rxOwned_postRx h hpre.1 hpre.2
    · cases hrun
      exact h
  | complete f c data =>
    cases hrun
    exact h.congr (by simp) (by simp) (by simp)
  | upcallRx f len pdf =>
    cases hrun
    refine h.updateHeld hpre rfl (h.placed f).generation (.inl ⟨t, hpre, .inr ?_⟩)
    simp only
    omega
  | corePut f =>
    cases hrun
    exact rxOwned_corePut h hpre.1 hpre.2
  | clientPut f =>
    obtain rfl := link_of_run hrun
    exact rxOwned_clientPut f h
  | putLink =>
    cases hrun
    exact h.congr rfl rfl (Nat.le_refl _)

def rxView (l : Link) : RxPool × List ℕ :=
  (l.rx, l.hw.rxRing)

theorem dataGeneration_sess (o : SessOp) (i : o.Inp) :
    l.sess.dataGeneration ≤ (o.exec cfg l i).2.sess.dataGeneration := by
  cases o <;> first
    | exact Nat.le_refl _
    | exact Nat.le_succ _
    | (simp only [SessOp.exec, helloApply, notifyDownLocked, upcall, readyConfirm, maybeUpLocked,
        probeFailed, revalidated]; (repeat' split) <;> simp)

theorem rxOwned_held {o : HeldOp} {i : o.Inp} {r : o.Res} (h : RxOwned l)
    (hpre : RxPre t (.held o) l) (hrun : o.run cfg t i l = some (r, l')) : RxOwned l' := by
  have hcongr : rxView l' = rxView l → l.sess.dataGeneration ≤ l'.sess.dataGeneration →
      RxOwned l' := fun hview ↦ h.congr (congrArg Prod.fst hview) (congrArg Prod.snd hview)
  have howned : owned l' = owned l → l.sess.dataGeneration ≤ l'.sess.dataGeneration :=
    fun ho ↦ Nat.le_of_eq (congrArg (·.1.dataGeneration) ho).symm
  cases o with
  | base o => exact hcongr (view_base rxView hrun rfl) (howned (view_base owned hrun rfl))
  | net o =>
    obtain rfl := link_of_run hrun
    exact hcongr (view_net rxView o i rfl) (howned (view_net owned o i rfl))
  | tx o => exact hcongr (view_tx rxView hrun rfl) (howned (view_tx owned hrun rfl))
  | rx o => exact rxOwned_rx h hpre hrun
  | sess o =>
    obtain rfl := link_of_run hrun
    exact hcongr (view_sess rxView o i rfl) (dataGeneration_sess o i)

/-- The ring hands back a descriptor it held. -/
theorem rxOwned_takeFromRxRing {f : ℕ} {canceled : Bool} {data : Keepalive} (h : RxOwned l)
    (hbegin : takeFromRxRing t f canceled data l = some l') :
    RxOwned l' ∧ (l'.rx.frames f).loc = .held t ∧ (l'.rx.frames f).clientRefs = 0 := by
  unfold takeFromRxRing at hbegin
  split at hbegin
  · next hmem =>
    have hplaced := h.placed f
    have hloc := hplaced.ring hmem.1
    have hrefs := hplaced.resting (.inr hloc)
    have hfree : f ∉ l.rx.rxFree := fun hfree ↦ by simpa [hloc] using hplaced.free hfree
    cases hbegin
    refine ⟨?_, by simp, by simpa using hrefs⟩
    refine h.update (f := f) rfl rfl h.freeNodup (h.ringNodup.erase f) (fun _ _ hg ↦ hg)
      (fun g _ hg ↦ List.mem_of_mem_erase hg) ?_
    exact { free := fun hmem' ↦ absurd hmem' hfree
            ring := fun hmem' ↦ absurd hmem' h.ringNodup.not_mem_erase
            generation := hplaced.generation, resting := by simp
            held := fun _ _ ↦ .inl hrefs, client := by simp }
  · cases hbegin

/-- No other event changes the descriptors. -/
theorem rxView_begin {e : Entry} (h : e.begin t l = some l') :
    (∃ f canceled len pdf bad data, e = .rxComplete f canceled len pdf bad data) ∨
      rxView l' = rxView l := by
  cases e with
  | rxComplete f canceled len pdf bad data => exact .inl ⟨f, canceled, len, pdf, bad, data, rfl⟩
  | _ =>
    right
    simp only [Entry.begin, startWork, takeFromClient, takeFromTxRing, verifyTimerFn] at h
    (repeat' split at h) <;> cases h <;> rfl

theorem rxOwned_begin {e : Entry} (h : RxOwned l) (hbegin : e.begin t l = some l') :
    RxOwned l' := by
  obtain ⟨f, canceled, len, pdf, bad, data, rfl⟩ | hview := rxView_begin hbegin
  · exact (rxOwned_takeFromRxRing h hbegin).1
  · apply h.congr (congrArg Prod.fst hview) (congrArg Prod.snd hview)
    exact Nat.le_of_eq (congrArg (·.1.dataGeneration) (view_begin owned hbegin rfl)).symm

end Steps

section Stability

variable {cfg : LinkCfg} {G : (linkMachine cfg).Guard} {I : Link → Prop}
  {Pre : Tid → Op → Link → Prop} {t u : Tid} {l l' : Link} {f : ℕ}

/-- What the holder of a descriptor can rely on while other threads run: only the client's
references may go. -/
structure RxFrame.Kept (fr fr' : RxFrame) : Prop where
  loc : fr'.loc = fr.loc
  generation : fr'.rxGeneration = fr.rxGeneration
  unshared : fr.clientRefs = 0 → fr'.clientRefs = 0
  shared : fr.rxRefs = fr.clientRefs + 1 → fr'.rxRefs = fr'.clientRefs + 1

theorem RxFrame.Kept.refl (fr : RxFrame) : fr.Kept fr :=
  ⟨rfl, rfl, id, id⟩

theorem RxFrame.Kept.update {g : ℕ} {fr : RxFrame} {frames : ℕ → RxFrame} (hne : f ≠ g) :
    (frames f).Kept (Function.update frames g fr f) := by
  rw [Function.update_of_ne hne]
  exact .refl _

/-- A descriptor held by one thread is different from one held by another. -/
theorem ne_of_held {g : ℕ} (hne : u ≠ t) (hf : (l.rx.frames f).loc = .held t)
    (hg : (l.rx.frames g).loc = .held u) : f ≠ g := by
  rintro rfl
  rw [hf] at hg
  exact hne (RxLoc.held.inj hg).symm

theorem kept_clientPut (h : RxOwned l) (hf : (l.rx.frames f).loc = .held t) (g : ℕ) :
    (l.rx.frames f).Kept ((clientPutRxRef u g l).2.rx.frames f) := by
  unfold clientPutRxRef
  split
  · exact .refl _
  · next hsome =>
    by_cases hg : f = g
    · subst hg
      have hrefs := ((h.placed f).held t hf).resolve_left hsome
      have hmore : (l.rx.frames f).rxRefs ≠ 1 := by omega
      refine ⟨by simp [hmore], by simp, fun h0 ↦ absurd h0 hsome, fun _ ↦ ?_⟩
      simp only [Function.update_self]
      omega
    · exact .update hg

/-- A descriptor in the hands of a thread is left alone by the others. -/
theorem kept_rx {o : RxOp} {i : o.Inp} {r : o.Res} (h : RxOwned l) (hne : u ≠ t)
    (hf : (l.rx.frames f).loc = .held t) (hpre : RxPre u (.held (.rx o)) l)
    (hrun : o.exec u l i = some (r, l')) : (l.rx.frames f).Kept (l'.rx.frames f) := by
  cases o with
  | putback g =>
    cases hrun
    exact .update (ne_of_held hne hf hpre.1)
  | recycle g =>
    obtain rfl := link_of_run hrun
    rw [recycleRxLocked_link]
    split
    · exact .update (ne_of_held hne hf hpre)
    · exact .refl _
  | takeFree =>
    obtain rfl := link_of_run hrun
    unfold takeRxFree
    split
    · exact .refl _
    · next g rest hlist =>
      apply RxFrame.Kept.update
      rintro rfl
      exact (h.not_mem hf).1 (by simp [hlist])
  | stamp g =>
    cases hrun
    exact .update (ne_of_held hne hf hpre)
  | postRx g =>
    simp only [RxOp.exec] at hrun
    split at hrun
    · split at hrun <;> cases hrun
      exact .update (ne_of_held hne hf hpre.1)
    · cases hrun
      exact .refl _
  | complete g c data =>
    cases hrun
    simp only [rxAccount_rx]
    exact .refl _
  | upcallRx g len pdf =>
    cases hrun
    exact .update (ne_of_held hne hf hpre)
  | corePut g =>
    cases hrun
    exact .update (ne_of_held hne hf hpre.1)
  | clientPut g =>
    obtain rfl := link_of_run hrun
    exact kept_clientPut h hf g
  | putLink =>
    cases hrun
    exact .refl _

structure RxKnown (cfg : LinkCfg) (G : (linkMachine cfg).Guard) (I : Link → Prop)
    (Pre : Tid → Op → Link → Prop) : Prop where
  exec : ∀ l u o i, I l → Pre u o l → G l (.exec u o i) → RxOwned l ∧ RxPre u o l
  start : ∀ l u e, I l → G l (.start u e) → RxOwned l

/-- Steps that do not touch the pool keep every descriptor. -/
theorem kept_of_rxView (hview : rxView l' = rxView l) :
    (l.rx.frames f).Kept (l'.rx.frames f) := by
  have hrx : l'.rx = l.rx := congrArg Prod.fst hview
  rw [hrx]
  exact .refl _

/-- Other threads leave a held descriptor to its holder. -/
theorem kept_move (hk : RxKnown cfg G I Pre) (hne : u ≠ t) (hf : (l.rx.frames f).loc = .held t)
    (hmove : (linkMachine cfg).Move G I Pre u l l') :
    (l.rx.frames f).Kept (l'.rx.frames f) := by
  cases hmove with
  | @enter e p hI hG henter =>
    have howned := hk.start l u e hI hG
    have hbegin := (enter_eq_some henter).2.1
    obtain ⟨g, canceled, len, pdf, bad, data, rfl⟩ | hview := rxView_begin hbegin
    · simp only [Entry.begin, takeFromRxRing] at hbegin
      split at hbegin <;> cases hbegin
      next hmem =>
        apply RxFrame.Kept.update
        rintro rfl
        exact (howned.not_mem hf).2 hmem.1
    · exact kept_of_rxView hview
  | @exec o i r hI hpre hG hrun =>
    obtain ⟨howned, hrx⟩ := hk.exec l u o i hI hpre hG
    have hrun : o.run cfg u i l = some (r, l') := hrun
    cases o with
    | held o =>
      cases o with
      | rx o => exact kept_rx howned hne hf hrx hrun
      | _ => exact kept_of_rxView (view_run rxView hrun rfl)
    | _ => exact kept_of_rxView (view_run rxView hrun rfl)

/-- `t` holds the descriptor `f` and the client has no reference to it. -/
def HoldsRx (t : Tid) (f : ℕ) (l : Link) : Prop :=
  (l.rx.frames f).loc = .held t ∧ (l.rx.frames f).clientRefs = 0

theorem stable_holdsRx (hk : RxKnown cfg G I Pre) :
    (linkMachine cfg).Stable G I Pre t (HoldsRx t f) := by
  rintro l l' ⟨hloc, hrefs⟩ ⟨u, hne, hmove⟩
  have hkept := kept_move hk hne hloc hmove
  exact ⟨hkept.loc.trans hloc, hkept.unshared hrefs⟩

end Stability

section Programs

variable {cfg : LinkCfg} {t : Tid} {f : ℕ} {l l' : Link}

theorem rxKnown : RxKnown cfg (fun _ _ ↦ True) RxOwned RxPre :=
  ⟨fun _ _ _ _ hI hpre _ ↦ ⟨hI, hpre⟩, fun _ _ _ hI _ ↦ hI⟩

theorem holdsRx_congr (hrx : l'.rx = l.rx) (h : HoldsRx t f l) : HoldsRx t f l' := by
  rw [HoldsRx, hrx]
  exact h

/-- The descriptor that a function works on: one to which the client has no reference, or one that
it holds beside the client. -/
inductive RxGrip
  | none
  | holds (f : ℕ)
  | shares (f : ℕ)

/-- `t` holds the descriptor. -/
def RxGrip.Has (t : Tid) (l : Link) : RxGrip → Prop
  | .none => True
  | .holds f => HoldsRx t f l
  | .shares f => (l.rx.frames f).loc = .held t ∧
      (l.rx.frames f).rxRefs = (l.rx.frames f).clientRefs + 1

def gripEffect : Effect heldSig RxGrip
  | .rx (.putback f), v, Q => v = .holds f ∧ Q () .none
  | .rx (.recycle f), v, Q => v = .holds f ∧ ∀ r, Q r v
  | .rx .takeFree, v, Q => Q none v ∧ ∀ f, Q (some f) (.holds f)
  | .rx (.stamp f), v, Q => v = .holds f ∧ Q () v
  | .rx (.postRx f), v, Q => v = .holds f ∧ Q (0 : ℤ) .none ∧ ∀ ret : ℤ, ret ≠ 0 → Q ret v
  | .rx (.complete f _ _), v, Q => v = .holds f ∧ ∀ r, Q r v
  | .rx (.upcallRx f _ _), v, Q => v = .holds f ∧ Q () (.shares f)
  | .rx (.corePut f), v, Q => v = .shares f ∧ Q false .none ∧ Q true (.holds f)
  | .rx (.clientPut f), _, Q => Q false .none ∧ Q true (.holds f)
  | _, v, Q => ∀ r, Q r v

theorem RxGrip.Has.kept {v : RxGrip} (h : v.Has t l)
    (hkept : ∀ f, (l.rx.frames f).loc = .held t → (l.rx.frames f).Kept (l'.rx.frames f)) :
    v.Has t l' := by
  cases v with
  | none => trivial
  | holds f => exact ⟨(hkept f h.1).loc.trans h.1, (hkept f h.1).unshared h.2⟩
  | shares f => exact ⟨(hkept f h.1).loc.trans h.1, (hkept f h.1).shared h.2⟩

/-- The last reference to a descriptor is the client's only if the core does not hold it. -/
theorem holdsRx_clientPut (h : RxOwned l) (hlast : (clientPutRxRef t f l).1 = true) :
    HoldsRx t f (clientPutRxRef t f l).2 := by
  unfold clientPutRxRef at hlast ⊢
  split at hlast
  · cases hlast
  · next hsome =>
    have hone : (l.rx.frames f).rxRefs = 1 := by simpa using hlast
    have hplaced := h.placed f
    have hrefs : (l.rx.frames f).clientRefs = 1 := by
      cases hloc : (l.rx.frames f).loc with
      | free => exact absurd (hplaced.resting (.inl hloc)) hsome
      | posted => exact absurd (hplaced.resting (.inr hloc)) hsome
      | held u =>
        have hheld := (hplaced.held u hloc).resolve_left hsome
        omega
      | client => rw [← hplaced.client hloc, hone]
    simp [HoldsRx, hone, hrefs]

/-- A thread knows the descriptor that it holds. -/
theorem tracks_grip : (linkMachine cfg).Tracks (fun _ _ ↦ True) RxOwned RxPre t
    (fun v l ↦ v.Has t l) (heldEffect gripEffect) where
  stable v := by
    rintro l l' hl ⟨u, hne, hmove⟩
    exact hl.kept fun f hf ↦ kept_move rxKnown hne hf hmove
  exec o v Q h l i r l' hI hl _ hrun := by
    cases o with
    | held o =>
      have hrun : o.run cfg t i l = some (r, l') := hrun
      cases o with
      | rx o =>
        cases o with
        | putback f =>
          obtain ⟨rfl, hQ⟩ := h
          exact ⟨hl, .none, trivial, hQ⟩
        | recycle f =>
          obtain ⟨rfl, hQ⟩ := h
          refine ⟨hl.1, .holds f, ?_, hQ r⟩
          obtain rfl := link_of_run hrun
          rw [recycleRxLocked_link]
          split
          · simpa [RxGrip.Has, HoldsRx, stampRx] using hl
          · exact hl
        | takeFree =>
          refine ⟨trivial, ?_⟩
          simp only [HeldOp.run, RxOp.exec, takeRxFree] at hrun
          split at hrun <;> cases hrun
          · exact ⟨v, hl, h.1⟩
          · next f rest hlist =>
            have hplaced := hI.placed f
            have hrefs := hplaced.resting (.inl (hplaced.free (by simp [hlist])))
            exact ⟨.holds f, by simpa [RxGrip.Has, HoldsRx] using hrefs, h.2 f⟩
        | stamp f =>
          obtain ⟨rfl, hQ⟩ := h
          cases hrun
          exact ⟨hl.1, .holds f, by simpa [RxGrip.Has, HoldsRx, stampRx] using hl, hQ⟩
        | postRx f =>
          obtain ⟨rfl, hzero, hret⟩ := h
          refine ⟨hl, ?_⟩
          simp only [HeldOp.run, RxOp.exec] at hrun
          split at hrun
          · split at hrun <;> cases hrun
            exact ⟨.none, trivial, hzero⟩
          · next hne =>
            cases hrun
            exact ⟨.holds f, hl, hret _ hne⟩
        | complete f c data =>
          obtain ⟨rfl, hQ⟩ := h
          cases hrun
          exact ⟨hl.1, .holds f, holdsRx_congr (by simp) hl, hQ _⟩
        | upcallRx f len pdf =>
          obtain ⟨rfl, hQ⟩ := h
          cases hrun
          refine ⟨hl.1, .shares f, ⟨by simpa [upcallRx] using hl.1, ?_⟩, hQ⟩
          simp only [upcallRx, Function.update_self]
          omega
        | corePut f =>
          obtain ⟨rfl, hshared, hlast⟩ := h
          obtain ⟨hr, rfl⟩ := Prod.mk.inj (Option.some.inj hrun)
          cases r with
          | false => exact ⟨hl, .none, trivial, hshared⟩
          | true =>
            have hone : (l.rx.frames f).rxRefs = 1 := by simpa [corePutRx] using hr
            have hzero : (l.rx.frames f).clientRefs = 0 := Nat.succ.inj (hl.2.symm.trans hone)
            exact ⟨hl, .holds f, by simpa [RxGrip.Has, HoldsRx, corePutRx, hone] using hzero, hlast⟩
        | clientPut f =>
          obtain ⟨hr, rfl⟩ := Prod.mk.inj (Option.some.inj hrun)
          cases r with
          | false => exact ⟨trivial, .none, trivial, h.1⟩
          | true => exact ⟨trivial, .holds f, holdsRx_clientPut hI hr, h.2⟩
        | putLink =>
          cases hrun
          exact ⟨trivial, v, hl.kept fun _ _ ↦ .refl _, h _⟩
      | _ =>
        exact ⟨trivial, v, hl.kept fun _ _ ↦ kept_of_rxView (view_held rxView hrun rfl), h r⟩
    | _ => exact h.elim

attribute [local simp] gripEffect liftM monadLift

namespace RxGrip

variable {Q : Unit → RxGrip → Prop}

/-- `tbframe_frame_recycle_rx` gives up the descriptor its caller holds. -/
theorem wlp_recycleRx (hQ : Q () .none) :
    (recycleRx f).wlp (gripEffect.lift rxHeld) Q (.holds f) := by
  simp +contextual [recycleRx, putbackRx, hQ]

/-- The loop of the bring-up posts descriptors it takes from the free list. -/
theorem wlp_postRxFrames {Q : ℤ → RxGrip → Prop} (hQ : ∀ ret, Q ret .none) (n : ℕ) :
    (postRxFrames n).wlp (gripEffect.lift rxHeld) Q .none := by
  induction n with
  | zero => simp [postRxFrames, hQ]
  | succ n ih => simp +contextual [postRxFrames, putbackRx, hQ, ih]

/-- `tbframe_core_rx_complete` gives up the descriptor the ring handed to it. -/
theorem wlp_coreRxComplete {canceled : Bool} {len : ℕ} {pdf : Pdf} {bad : Bool} {data : Keepalive}
    (hQ : Q () .none) : ((coreRxComplete f canceled len pdf bad data).lift rxHeld).wlp gripEffect Q
      (.holds f) := by
  simp [coreRxComplete, putbackRx, hQ, wlp_recycleRx hQ]

theorem wlp_clientPutRx (hQ : Q () .none) :
    ((clientPutRx f).lift rxHeld).wlp gripEffect Q .none := by
  simp [clientPutRx, hQ, wlp_recycleRx hQ]

end RxGrip

theorem grip_partCode : PartCode cfg fun _ p ↦ p.Neutral gripEffect .none where
  toHeldCode := heldCode_neutral fun _ _ hQ ↦ hQ
  sess _ _ hQ := hQ
  net p _ := Prog.neutral_of_all (all_net (fun _ _ hQ ↦ hQ) (fun _ _ hQ ↦ hQ) p)
  flush := Prog.neutral_of_all (all_net (fun _ _ hQ ↦ hQ) (fun _ _ hQ ↦ hQ) _)
  post n := .lift fun _ hQ ↦ RxGrip.wlp_postRxFrames hQ n
  probe := Prog.neutral_of_all (all_tx (fun _ _ hQ ↦ hQ) (fun _ _ hQ ↦ hQ) _)
  quiesce _ _ := Prog.neutral_of_all (all_downQuiesce (fun _ _ hQ ↦ hQ) (fun _ _ _ hQ ↦ hQ)
    (fun _ _ _ hQ ↦ hQ) _ _)

end Programs

/-- In every run, RX descriptors are in their place and functions work on those they hold. -/
theorem rx_verified (cfg : LinkCfg) :
    (linkMachine cfg).Verified (fun _ _ ↦ True) RxOwned RxPre where
  init l h := by
    obtain ⟨random, requestSeq, autostart, rfl⟩ := h
    refine ⟨List.nodup_range, List.nodup_nil, fun f ↦ ?_⟩
    exact { free := fun _ ↦ rfl, ring := by simp [linkCreate], generation := Nat.le_refl _
            resting := fun _ ↦ rfl, held := fun _ _ ↦ .inl rfl, client := fun _ ↦ rfl }
  enter t e l p l' hI _ henter := by
    obtain ⟨-, hbegin, rfl⟩ := enter_eq_some henter
    refine ⟨rxOwned_begin hI hbegin, ?_⟩
    cases he : e.domain with
    | tx =>
      exact safe_onTx (safe_free fun _ _ ↦ trivial) (safe_free fun o _ ↦ by cases o <;> trivial)
        (fun _ ↦ trivial) he l' trivial
    | rx =>
      cases e with
      | rxComplete f canceled len pdf bad data =>
        have hheld : RxGrip.Has t l' (.holds f) := (rxOwned_takeFromRxRing hI hbegin).2
        exact Triple.bind (triple_tracked tracks_grip (RxGrip.wlp_coreRxComplete trivial))
          (fun _ ↦ safe_call (o := .callbackDone) fun _ ↦ trivial) l' hheld
      | putRx f => exact triple_tracked tracks_grip (RxGrip.wlp_clientPutRx trivial) l' trivial
      | _ => cases he
    | other =>
      exact safe_parts tracks_grip grip_partCode (fun _ ↦ trivial) (fun o ho _ ↦ by
        cases o <;> first | exact absurd rfl (ho _) | trivial) he (fun _ _ ↦ (Prog.wlp_lift ..).mp
          (Prog.wlp_of_all (all_net (fun _ _ hQ ↦ hQ) (fun _ _ hQ ↦ hQ) _) fun _ ↦ trivial)) l'
        trivial
  exec t o i l r l' hI hpre _ hrun := by
    cases o with
    | held o => exact rxOwned_held hI hpre hrun
    | _ =>
      simp only [Op.run] at hrun
      (repeat' split at hrun) <;> cases hrun <;>
        exact hI.congr rfl rfl (Nat.le_refl _)

end ThunderboltStack.Tbframe
