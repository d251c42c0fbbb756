import ThunderboltStack.Tbframe.Publication
import ThunderboltStack.Tbframe.References
import ThunderboltStack.Tbframe.TxOwner

/-!
# Conservation of frames

No frame is lost and none is in two places.  A TX frame is on the free list, in a software queue, in
the hardware ring, or carried: with the client, or in the hands of one running function.  An RX
descriptor is on the free list, in the ring, or carried.  A carried frame is charged to one of the
two TX windows, every frame outside the free lists keeps one reference of the link, and the data
window leaves the control reserve alone.
-/

namespace ThunderboltStack.Tbframe

open ThunderboltStack.Lib

/-- The frame is with the client or in the hands of a running function. -/
def TxLoc.carried : TxLoc → Bool
  | .client | .held _ | .posting _ | .done _ => true
  | _ => false

@[inherit_doc TxLoc.carried]
def RxLoc.carried : RxLoc → Bool
  | .client | .held _ => true
  | _ => false

/-- The frame is of the pool if it is in use or on the free list, it is on the list that its `loc`
names, and in use it is charged to one window. -/
structure TxFrame.Covered (fr : TxFrame) (pool free queued ring : Prop) : Prop where
  inPool : free ∨ fr.loc ≠ .free → pool
  onFree : pool → fr.loc = .free → free
  onQueue : fr.loc = .queued → queued
  onRing : fr.loc = .ring → ring
  charged : fr.loc ≠ .free → fr.chargedData = !fr.chargedCtrl

/-- All of the `n` frames of a pool are accounted for; `ring` are the frames in the hardware ring. -/
structure TxPool.Covered (tx : TxPool) (n : ℕ) (ring : List ℕ) : Prop where
  frames : ∀ f, (tx.frames f).Covered (f < n) (f ∈ tx.txFree) (f ∈ tx.txqData ++ tx.txqCtrl)
    (f ∈ ring)
  balance : tx.txFree.length + tx.ctrlInflight + tx.dataInflight = n

/-! ## TX frames -/

section Tx

variable {tx tx' : TxPool} {n f : ℕ} {ring ring' : List ℕ} {t : Tid}

/-- Replacing one frame keeps the others accounted for. -/
theorem TxPool.Covered.update (h : tx.Covered n ring) {fr : TxFrame}
    (hframes : tx'.frames = Function.update tx.frames f fr)
    (hfree : ∀ g ≠ f, g ∈ tx'.txFree ↔ g ∈ tx.txFree)
    (hqueue : ∀ g ≠ f, g ∈ tx'.txqData ++ tx'.txqCtrl ↔ g ∈ tx.txqData ++ tx.txqCtrl)
    (hring : ∀ g ≠ f, g ∈ ring' ↔ g ∈ ring)
    (hfr : fr.Covered (f < n) (f ∈ tx'.txFree) (f ∈ tx'.txqData ++ tx'.txqCtrl) (f ∈ ring'))
    (hbalance : tx'.txFree.length + tx'.ctrlInflight + tx'.dataInflight = n) :
    tx'.Covered n ring' := by
  refine ⟨fun g ↦ ?_, hbalance⟩
  by_cases hg : g = f
  · subst hg
    rw [hframes, Function.update_self]
    exact hfr
  · rw [hframes, Function.update_of_ne hg, propext (hfree g hg), propext (hqueue g hg),
      propext (hring g hg)]
    exact h.frames g

/-- A frame in use that goes from one carrier to another stays accounted for. -/
theorem TxFrame.Covered.carry {fr fr' : TxFrame} {pool free queued ring free' queued' ring' : Prop}
    (h : fr.Covered pool free queued ring) (hused : fr.loc ≠ .free) (hloc : fr'.loc.carried)
    (hctrl : fr'.chargedCtrl = fr.chargedCtrl) (hdata : fr'.chargedData = fr.chargedData) :
    fr'.Covered pool free' queued' ring' where
  inPool _ := h.inPool (.inr hused)
  onFree _ hfree := by simp [hfree, TxLoc.carried] at hloc
  onQueue hqueued := by simp [hqueued, TxLoc.carried] at hloc
  onRing hring := by simp [hring, TxLoc.carried] at hloc
  charged _ := by rw [hctrl, hdata]; exact h.charged hused

/-- Replacing a frame in use by one that is carried, with the lists as they were. -/
theorem TxPool.Covered.carry (h : tx.Covered n ring) {fr : TxFrame}
    (hused : (tx.frames f).loc ≠ .free) (hframes : tx'.frames = Function.update tx.frames f fr)
    (hloc : fr.loc.carried) (hctrl : fr.chargedCtrl = (tx.frames f).chargedCtrl)
    (hdata : fr.chargedData = (tx.frames f).chargedData) (hfree : tx'.txFree = tx.txFree)
    (hqueue : tx'.txqData ++ tx'.txqCtrl = tx.txqData ++ tx.txqCtrl)
    (hctrlInflight : tx'.ctrlInflight = tx.ctrlInflight)
    (hdataInflight : tx'.dataInflight = tx.dataInflight) : tx'.Covered n ring := by
  apply h.update hframes (by simp [hfree]) (by simp [hqueue]) (fun _ _ ↦ Iff.rfl)
  · exact (h.frames f).carry hused hloc hctrl hdata
  · rw [hfree, hctrlInflight, hdataInflight]
    exact h.balance

theorem TxPool.Covered.enqueue (h : tx.Covered n ring) (hused : (tx.frames f).loc ≠ .free) :
    (enqueueTx f tx).Covered n ring := by
  have hmem : ∀ g, g ∈ (enqueueTx f tx).txqData ++ (enqueueTx f tx).txqCtrl ↔
      g = f ∨ g ∈ tx.txqData ++ tx.txqCtrl := by
    intro g
    unfold enqueueTx
    split <;> simp <;> tauto
  have hcovered := h.frames f
  refine h.update (f := f) rfl (fun _ _ ↦ Iff.rfl) ?_ (fun _ _ ↦ Iff.rfl) ?_ h.balance
  · intro g hg
    rw [hmem]
    exact or_iff_right hg
  · exact { inPool := fun _ ↦ hcovered.inPool (.inr hused), onFree := by simp
            onQueue := fun _ ↦ (hmem f).2 (.inl rfl), onRing := by simp
            charged := fun _ ↦ hcovered.charged hused }

theorem TxPool.Covered.splice (h : tx.Covered n ring) (howned : tx.Owned ring) :
    (spliceQueues t tx).2.Covered n ring := by
  refine ⟨fun g ↦ ?_, h.balance⟩
  have hcovered := h.frames g
  simp only [spliceQueues]
  split
  · next hmem =>
    have hloc := (howned.placed g).queued hmem
    exact hcovered.carry (by simp [hloc]) rfl rfl rfl
  · next hmem =>
    exact { hcovered with onQueue := fun hqueued ↦ absurd (hcovered.onQueue hqueued) hmem }

end Tx

section TxSteps

variable {cfg : LinkCfg} {t : Tid} {l l' : Link} {n f : ℕ}

def TxCovered (n : ℕ) (l : Link) : Prop :=
  l.tx.Covered n l.hw.txRing

theorem txCovered_alloc (len : ℕ) (isCtrl preUp : Bool) (howned : TxOwned l)
    (h : TxCovered n l) : TxCovered n (allocFrameLocked t len isCtrl preUp l).2 := by
  simp only [allocFrameLocked]
  split
  · exact h
  split
  · exact ⟨h.frames, h.balance⟩
  split
  · exact ⟨h.frames, h.balance⟩
  · next f rest hlist =>
    have hmem : f ∈ l.tx.txFree := by simp [hlist]
    obtain ⟨hctrl, hdata⟩ := (howned.placed f).uncharged ((howned.placed f).free hmem)
    have hbalance := h.balance
    rw [hlist, List.length_cons] at hbalance
    refine h.update (f := f) rfl ?_ (fun _ _ ↦ Iff.rfl) (fun _ _ ↦ Iff.rfl) ?_ ?_
    · exact fun g hg ↦ by simp [hlist, hg]
    · exact { inPool := fun _ ↦ (h.frames f).inPool (.inl hmem), onFree := by simp
              onQueue := by simp, onRing := by simp, charged := by simp [hctrl, hdata] }
    · cases isCtrl <;> simp only [Bool.false_eq_true, if_true, if_false] <;> omega

/-- A frame in use goes back to the free list, and one of the two counters goes down. -/
theorem txCovered_return (howned : TxOwned l) (h : TxCovered n l)
    (hused : (l.tx.frames f).loc ≠ .free) : TxCovered n (txReturn t f l).2 := by
  have hcharged := (h.frames f).charged hused
  have hbalance := h.balance
  refine h.update (f := f) rfl ?_ (fun _ _ ↦ Iff.rfl) (fun _ _ ↦ Iff.rfl) ?_ ?_
  · exact fun g hg ↦ by simp [txReturn, hg]
  · exact { inPool := fun _ ↦ (h.frames f).inPool (.inr hused), onFree := by simp [txReturn]
            onQueue := by simp, onRing := by simp, charged := by simp }
  · simp only [txReturn, List.length_append, List.length_singleton]
    cases hctrl : (l.tx.frames f).chargedCtrl with
    | true =>
      have hpos := howned.ctrlInflight.pos hctrl
      simp only [hcharged, hctrl, Bool.not_true, Bool.false_eq_true, if_true, if_false]
      omega
    | false =>
      have hpos := howned.dataInflight.pos (a := f) (by simp [hcharged, hctrl])
      simp only [hcharged, hctrl, Bool.not_false, Bool.false_eq_true, if_true, if_false]
      omega

theorem txCovered_ringTx (h : TxCovered n l) (hf : (l.tx.frames f).loc = .posting t) :
    TxCovered n (ringTxAccept f l) := by
  have hused : (l.tx.frames f).loc ≠ .free := by simp [hf]
  have hcovered := h.frames f
  refine h.update (f := f) rfl (fun _ _ ↦ Iff.rfl) (fun _ _ ↦ Iff.rfl) ?_ ?_ h.balance
  · exact fun g hg ↦ by simp [ringTxAccept, hg]
  · exact { inPool := fun _ ↦ hcovered.inPool (.inr hused), onFree := by simp
            onQueue := by simp, onRing := by simp [ringTxAccept]
            charged := fun _ ↦ hcovered.charged hused }

theorem TxPool.Covered.refill {tx tx' : TxPool} {ring : List ℕ} {m : ℕ} (h : tx.Covered n ring)
    (howned : tx.Owned ring) (htake : takeQueued tx = some (m, tx')) :
    (postTx t m tx').Covered n ring := by
  obtain ⟨heq, hperm⟩ := takeQueued_eq htake
  have hloc := (howned.refill (t := t) htake).1
  rw [heq]
  refine h.update (f := m) rfl (fun _ _ ↦ Iff.rfl) ?_ (fun _ _ ↦ Iff.rfl) ?_ h.balance
  · intro g hg
    rw [hperm.mem_iff, List.mem_cons]
    exact (or_iff_right hg).symm
  · exact (h.frames m).carry (by simp [hloc]) rfl rfl rfl

theorem txCovered_complete {canceled : Bool} (howned : TxOwned l) (h : TxCovered n l)
    (hf : (l.tx.frames f).loc = .done t) : TxCovered n (txCompleteLocked cfg t f canceled l).2 := by
  have hunpost : TxCovered n { l with tx := txUnpost f canceled l.tx } := by
    unfold txUnpost
    split
    · exact h.carry (f := f) (by simp [hf]) rfl (by simp [hf, TxLoc.carried]) rfl rfl rfl rfl rfl rfl
    · exact h
  obtain ⟨hownedUnpost, hloc, -⟩ := txOwned_unpost canceled howned hf
  obtain ⟨hownedReturn, -⟩ := txOwned_returned canceled howned hf
  have hreturn : TxCovered n (txReturn t f { l with tx := txUnpost f canceled l.tx }).2 :=
    txCovered_return hownedUnpost hunpost (by simp [hloc])
  obtain heq | ⟨m, tx, htake, -, heq⟩ | heq := txRefill_cases cfg t
    (txReturn t f { l with tx := txUnpost f canceled l.tx }).2 canceled
  all_goals simp only [txCompleteLocked, heq]
  · exact hreturn
  · exact hreturn.refill hownedReturn htake
  · exact hreturn.splice hownedReturn

/-- Every TX section keeps the frames of the pool accounted for. -/
theorem txCovered_tx {o : TxOp} {i : o.Inp} {r : o.Res} (howned : TxOwned l)
    (hpre : TxPre t (.held (.tx o)) l) (h : TxCovered n l)
    (hrun : o.exec cfg t l i = some (r, l')) : TxCovered n l' := by
  cases o with
  | alloc len isCtrl preUp =>
    obtain rfl := link_of_run hrun
    exact txCovered_alloc len isCtrl preUp howned h
  | build f dir =>
    cases hrun
    have hf : (l.tx.frames f).loc = .held t := hpre.1
    exact h.carry (f := f) (by simp [hf]) rfl (by simp [hf, TxLoc.carried]) rfl rfl rfl rfl rfl rfl
  | xmit f preUp =>
    obtain rfl := link_of_run hrun
    have hf : (l.tx.frames f).loc = .held t := hpre
    simp only [xmitLocked]
    split
    · exact ⟨h.frames, h.balance⟩
    split
    · exact h.enqueue (by simp [hf])
    · exact h.carry (f := f) (by simp [hf]) rfl rfl rfl rfl rfl rfl rfl rfl
  | ringTx f =>
    simp only [TxOp.exec] at hrun
    split at hrun
    · split at hrun <;> cases hrun
      exact txCovered_ringTx h hpre
    · cases hrun
      exact h
  | ringErr f | refillErr f =>
    cases hrun
    have hf : (l.tx.frames f).loc = .posting t := hpre
    exact h.carry (f := f) (by simp [hf]) rfl rfl rfl rfl rfl rfl rfl rfl
  | splice =>
    cases hrun
    exact h.splice howned
  | free f =>
    cases hrun
    have hf : (l.tx.frames f).loc = .held t := hpre
    exact txCovered_return howned h (by simp [hf])
  | complete f canceled =>
    cases hrun
    exact txCovered_complete howned h hpre
  | toClient f =>
    obtain rfl := congrArg Prod.snd (Option.some.inj hrun)
    have hf : (l.tx.frames f).loc = .held t := hpre
    exact h.carry (f := f) (by simp [hf]) rfl rfl rfl rfl rfl rfl rfl rfl
  | putLink =>
    cases hrun
    exact h

theorem TxCovered.congr (h : TxCovered n l) (hview : txView l' = txView l) : TxCovered n l' := by
  simp only [txView, Prod.mk.injEq] at hview
  obtain ⟨hframes, ⟨hfree, hctrl, hdata, hring⟩, -, hctrlInflight, hdataInflight⟩ := hview
  unfold TxCovered
  constructor
  · rw [hframes, hfree, hctrl, hdata, hring]
    exact h.frames
  · rw [hfree, hctrlInflight, hdataInflight]
    exact h.balance

theorem txCovered_begin {e : Entry} (howned : TxOwned l) (h : TxCovered n l)
    (hbegin : e.begin t l = some l') : TxCovered n l' := by
  have hclient : ∀ {f : ℕ}, takeFromClient t f l = some l' → TxCovered n l' := by
    intro f hbegin
    unfold takeFromClient at hbegin
    split at hbegin <;> cases hbegin
    next hloc => exact h.carry (f := f) (by simp [hloc]) rfl rfl rfl rfl rfl rfl rfl rfl
  cases e with
  | txComplete f canceled =>
    simp only [Entry.begin, takeFromTxRing] at hbegin
    split at hbegin <;> cases hbegin
    next hmem =>
      have hloc := (howned.placed f).ring hmem.1
      refine h.update (f := f) rfl (fun _ _ ↦ Iff.rfl) (fun _ _ ↦ Iff.rfl) ?_ ?_ h.balance
      · exact fun g hg ↦ List.mem_erase_of_ne hg
      · exact (h.frames f).carry (by simp [hloc]) rfl rfl rfl
  | xmit f | frameFree f => exact hclient hbegin
  | _ => exact h.congr (txView_begin rfl hbegin)

end TxSteps

/-- The descriptor is of the pool if it is in use or on the free list, and it is on the list that
its `loc` names. -/
structure RxFrame.Covered (fr : RxFrame) (pool free ring : Prop) : Prop where
  inPool : free ∨ fr.loc ≠ .free → pool
  onFree : pool → fr.loc = .free → free
  onRing : fr.loc = .posted → ring

/-- All of the `n` RX descriptors of a link are accounted for. -/
def RxCovered (n : ℕ) (l : Link) : Prop :=
  ∀ f, (l.rx.frames f).Covered (f < n) (f ∈ l.rx.rxFree) (f ∈ l.hw.rxRing)

section Rx

variable {cfg : LinkCfg} {t : Tid} {l l' : Link} {n f : ℕ}

@[inherit_doc TxPool.Covered.update]
theorem RxCovered.update (h : RxCovered n l) {fr : RxFrame}
    (hframes : l'.rx.frames = Function.update l.rx.frames f fr)
    (hfree : ∀ g ≠ f, g ∈ l'.rx.rxFree ↔ g ∈ l.rx.rxFree)
    (hring : ∀ g ≠ f, g ∈ l'.hw.rxRing ↔ g ∈ l.hw.rxRing)
    (hfr : fr.Covered (f < n) (f ∈ l'.rx.rxFree) (f ∈ l'.hw.rxRing)) : RxCovered n l' := by
  intro g
  by_cases hg : g = f
  · subst hg
    rw [hframes, Function.update_self]
    exact hfr
  · rw [hframes, Function.update_of_ne hg, propext (hfree g hg), propext (hring g hg)]
    exact h g

@[inherit_doc TxFrame.Covered.carry]
theorem RxFrame.Covered.carry {fr fr' : RxFrame} {pool free ring free' ring' : Prop}
    (h : fr.Covered pool free ring) (hused : fr.loc ≠ .free) (hloc : fr'.loc.carried) :
    fr'.Covered pool free' ring' where
  inPool _ := h.inPool (.inr hused)
  onFree _ hfree := by simp [hfree, RxLoc.carried] at hloc
  onRing hring := by simp [hring, RxLoc.carried] at hloc

@[inherit_doc TxPool.Covered.carry]
theorem RxCovered.carry (h : RxCovered n l) {fr : RxFrame} (hused : (l.rx.frames f).loc ≠ .free)
    (hframes : l'.rx.frames = Function.update l.rx.frames f fr) (hloc : fr.loc.carried)
    (hfree : l'.rx.rxFree = l.rx.rxFree) (hring : l'.hw.rxRing = l.hw.rxRing) :
    RxCovered n l' := by
  apply h.update hframes (by simp [hfree]) (by simp [hring])
  exact (h f).carry hused hloc

theorem RxCovered.congr (h : RxCovered n l) (hview : rxView l' = rxView l) : RxCovered n l' := by
  have hrx : l'.rx = l.rx := congrArg Prod.fst hview
  have hring : l'.hw.rxRing = l.hw.rxRing := congrArg Prod.snd hview
  unfold RxCovered
  rw [hrx, hring]
  exact h

theorem rxCovered_takeFree (h : RxCovered n l) : RxCovered n (takeRxFree t l).2 := by
  unfold takeRxFree
  split
  · exact h
  · next f rest hlist =>
    have hmem : f ∈ l.rx.rxFree := by simp [hlist]
    refine h.update (f := f) rfl ?_ (fun _ _ ↦ Iff.rfl) ?_
    · exact fun g hg ↦ by simp [hlist, hg]
    · exact { inPool := fun _ ↦ (h f).inPool (.inl hmem), onFree := by simp, onRing := by simp }

theorem rxCovered_clientPut (f : ℕ) (howned : RxOwned l) (h : RxCovered n l) :
    RxCovered n (clientPutRxRef t f l).2 := by
  unfold clientPutRxRef
  split
  · exact h
  · next hsome =>
    -- the client has references, so the descriptor is in use and not in the ring
    have hresting := fun hloc ↦ hsome ((howned.placed f).resting hloc)
    have hused : (l.rx.frames f).loc ≠ .free := fun hloc ↦ hresting (.inl hloc)
    refine h.carry (f := f) hused rfl ?_ rfl rfl
    cases hloc : (l.rx.frames f).loc with
    | free => exact absurd hloc hused
    | posted => exact absurd (.inr hloc) hresting
    | held u | client => by_cases hlast : (l.rx.frames f).rxRefs = 1 <;> simp [hlast, RxLoc.carried]

theorem rxCovered_stamp (h : RxCovered n l) (hf : (l.rx.frames f).loc = .held t) :
    RxCovered n (stampRx f l) :=
  h.carry (f := f) (by simp [hf]) rfl (by simp [hf, RxLoc.carried]) rfl rfl

/-- Every RX section keeps the descriptors of the pool accounted for. -/
theorem rxCovered_rx {o : RxOp} {i : o.Inp} {r : o.Res} (howned : RxOwned l)
    (hpre : RxPre t (.held (.rx o)) l) (h : RxCovered n l) (hrun : o.exec t l i = some (r, l')) :
    RxCovered n l' := by
  cases o with
  | putback f =>
    cases hrun
    have hused : (l.rx.frames f).loc ≠ .free := by simp [hpre.1]
    refine h.update (f := f) rfl ?_ (fun _ _ ↦ Iff.rfl) ?_
    · exact fun g hg ↦ by simp [putbackRxLocked, hg]
    · exact { inPool := fun _ ↦ (h f).inPool (.inr hused), onFree := by simp [putbackRxLocked]
              onRing := by simp }
  | recycle f =>
    obtain rfl := link_of_run hrun
    rw [recycleRxLocked_link]
    split
    · exact rxCovered_stamp h hpre
    · exact h
  | takeFree =>
    obtain rfl := link_of_run hrun
    exact rxCovered_takeFree h
  | stamp f =>
    cases hrun
    exact rxCovered_stamp h hpre
  | postRx f =>
    simp only [RxOp.exec] at hrun
    split at hrun
    · split at hrun <;> cases hrun
      have hused : (l.rx.frames f).loc ≠ .free := by simp [hpre.1]
      refine h.update (f := f) rfl (fun _ _ ↦ Iff.rfl) ?_ ?_
      · exact fun g hg ↦ by simp [postRxAccept, hg]
      · exact { inPool := fun _ ↦ (h f).inPool (.inr hused), onFree := by simp
                onRing := by simp [postRxAccept] }
    · cases hrun
      exact h
  | complete f c data =>
    cases hrun
    exact h.congr (by simp [rxView])
  | upcallRx f len pdf =>
    cases hrun
    have hf : (l.rx.frames f).loc = .held t := hpre
    exact h.carry (f := f) (by simp [hf]) rfl (by simp [hf, RxLoc.carried]) rfl rfl
  | corePut f =>
    cases hrun
    have hf : (l.rx.frames f).loc = .held t := hpre.1
    refine h.carry (f := f) (by simp [hf]) rfl ?_ rfl rfl
    by_cases hlast : (l.rx.frames f).rxRefs = 1 <;> simp [hlast, RxLoc.carried]
  | clientPut f =>
    obtain rfl := link_of_run hrun
    exact rxCovered_clientPut f howned h
  | putLink =>
    cases hrun
    exact h

theorem rxCovered_begin {e : Entry} (howned : RxOwned l) (h : RxCovered n l)
    (hbegin : e.begin t l = some l') : RxCovered n l' := by
  obtain ⟨f, canceled, len, pdf, bad, data, rfl⟩ | hview := rxView_begin hbegin
  · simp only [Entry.begin, takeFromRxRing] at hbegin
    split at hbegin <;> cases hbegin
    next hmem =>
      have hloc := (howned.placed f).ring hmem.1
      refine h.update (f := f) rfl (fun _ _ ↦ Iff.rfl) ?_ ?_
      · exact fun g hg ↦ List.mem_erase_of_ne hg
      · exact (h f).carry (by simp [hloc]) rfl
  · exact h.congr hview

end Rx

section References

variable {cfg : LinkCfg} {t : Tid} {l l' : Link} {n : ℕ}

/-- The reference count is what is kept by the creation, by the frames outside the free lists, by
dispatches and by frames on their way back. -/
def RefCounted (n : ℕ) (l : Link) : Prop :=
  l.ctl.refcnt + l.tx.txFree.length + l.rx.rxFree.length =
    l.his.created.toNat + 2 * n + l.his.dispatching.length + l.his.returning.length

def countView (l : Link) : ℕ × List ℕ × List ℕ × List Tid × List Tid × Option Tid × Bool :=
  (l.ctl.refcnt, l.tx.txFree, l.rx.rxFree, refView l)

theorem RefCounted.congr (h : RefCounted n l) (hview : countView l' = countView l) :
    RefCounted n l' := by
  simp only [countView, refView, Prod.mk.injEq] at hview
  obtain ⟨hrefcnt, htx, hrx, hreturning, hdispatching, -, hcreated⟩ := hview
  rw [RefCounted, hrefcnt, htx, hrx, hreturning, hdispatching, hcreated]
  exact h

theorem TxCovered.free_le (h : TxCovered n l) : l.tx.txFree.length ≤ n := by
  have hbalance := h.balance
  omega

theorem RxCovered.free_le (h : RxCovered n l) (howned : RxOwned l) : l.rx.rxFree.length ≤ n := by
  have hsub : l.rx.rxFree ⊆ List.range n :=
    fun f hf ↦ List.mem_range.2 ((h f).inPool (.inl hf))
  simpa using (howned.freeNodup.subperm hsub).length_le

/-- Dropping the reference of a frame that was put back. -/
theorem refCounted_putReturned (h : RefCounted n l) (htx : l.tx.txFree.length ≤ n)
    (hrx : l.rx.rxFree.length ≤ n) (hmem : t ∈ l.his.returning) : RefCounted n (putReturned t l) := by
  have hlen : (l.his.returning.erase t).length = l.his.returning.length - 1 :=
    List.length_erase_of_mem hmem
  have hpos : 0 < l.his.returning.length := List.length_pos_of_mem hmem
  simp only [RefCounted, putReturned] at h ⊢
  omega

theorem refCounted_putDispatch (h : RefCounted n l) (htx : l.tx.txFree.length ≤ n)
    (hrx : l.rx.rxFree.length ≤ n) (hmem : t ∈ l.his.dispatching) :
    RefCounted n (putDispatch t l) := by
  have hlen : (l.his.dispatching.erase t).length = l.his.dispatching.length - 1 :=
    List.length_erase_of_mem hmem
  have hpos : 0 < l.his.dispatching.length := List.length_pos_of_mem hmem
  simp only [RefCounted, putDispatch] at h ⊢
  omega

theorem refCounted_putCreated (h : RefCounted n l) (htx : l.tx.txFree.length ≤ n)
    (hrx : l.rx.rxFree.length ≤ n) (hcreated : l.his.created = true) :
    RefCounted n (putCreated l) := by
  simp only [RefCounted, putCreated, hcreated, Bool.toNat_true, Bool.toNat_false] at h ⊢
  omega

/-- The free list, the reference count and the references in transit after a completion. -/
theorem txComplete_counts (cfg : LinkCfg) (t : Tid) (l : Link) (f : ℕ) (canceled : Bool) :
    countView (txCompleteLocked cfg t f canceled l).2 =
      (l.ctl.refcnt, l.tx.txFree ++ [f], l.rx.rxFree, t :: l.his.returning, (refView l).2) := by
  have hunpost : (txUnpost f canceled l.tx).txFree = l.tx.txFree := by
    unfold txUnpost
    split <;> rfl
  have hfree : (txRefill cfg t canceled
      (txReturn t f { l with tx := txUnpost f canceled l.tx }).2).2.2.txFree =
        (txUnpost f canceled l.tx).txFree ++ [f] := by
    obtain heq | ⟨m, tx, htake, -, heq⟩ | heq := txRefill_cases cfg t
      (txReturn t f { l with tx := txUnpost f canceled l.tx }).2 canceled
    all_goals rw [heq]
    · rfl
    · rw [(takeQueued_eq htake).1]
      rfl
    · rfl
  simp only [countView, txCompleteLocked, hfree, hunpost]
  rfl

/-- Every TX section keeps the reference count. -/
theorem refCounted_tx {o : TxOp} {i : o.Inp} {r : o.Res} (h : RefCounted n l)
    (htx : l.tx.txFree.length ≤ n) (hrx : l.rx.rxFree.length ≤ n)
    (hpre : RefPre t (.held (.tx o)) l) (hrun : o.exec cfg t l i = some (r, l')) :
    RefCounted n l' := by
  cases o with
  | alloc len isCtrl preUp =>
    obtain rfl := link_of_run hrun
    simp only [allocFrameLocked]
    split
    · exact h
    split
    · exact h
    split
    · exact h
    · next f rest hlist =>
      simp only [RefCounted, hlist, List.length_cons] at h ⊢
      omega
  | free f =>
    cases hrun
    simp only [RefCounted, List.length_append, List.length_cons, List.length_nil] at h ⊢
    omega
  | complete f canceled =>
    obtain rfl := link_of_run hrun
    have hview := txComplete_counts cfg t l f canceled
    simp only [countView, refView, Prod.mk.injEq] at hview
    obtain ⟨hrefcnt, hfree, hrxFree, hreturning, hdispatching, -, hcreated⟩ := hview
    rw [RefCounted, hrefcnt, hfree, hrxFree, hreturning, hdispatching, hcreated]
    simp only [RefCounted, List.length_append, List.length_cons, List.length_nil] at h ⊢
    omega
  | putLink =>
    cases hrun
    exact refCounted_putReturned h htx hrx hpre
  | _ =>
    simp only [TxOp.exec, xmitLocked] at hrun
    (repeat' split at hrun) <;> cases hrun <;> exact h

/-- Every RX section keeps the reference count. -/
theorem refCounted_rx {o : RxOp} {i : o.Inp} {r : o.Res} (h : RefCounted n l)
    (htx : l.tx.txFree.length ≤ n) (hrx : l.rx.rxFree.length ≤ n)
    (hpre : RefPre t (.held (.rx o)) l) (hrun : o.exec t l i = some (r, l')) :
    RefCounted n l' := by
  cases o with
  | putback f =>
    cases hrun
    simp only [RefCounted, putbackRxLocked, List.length_append, List.length_cons,
      List.length_nil] at h ⊢
    omega
  | takeFree =>
    obtain rfl := link_of_run hrun
    unfold takeRxFree
    split
    · exact h
    · next f rest hlist =>
      simp only [RefCounted, hlist, List.length_cons] at h ⊢
      omega
  | complete f c data =>
    cases hrun
    exact h.congr (by simp [countView, refView])
  | recycle f =>
    obtain rfl := link_of_run hrun
    rw [recycleRxLocked_link]
    split <;> exact h
  | clientPut f =>
    obtain rfl := link_of_run hrun
    unfold clientPutRxRef
    split <;> exact h
  | putLink =>
    cases hrun
    exact refCounted_putReturned h htx hrx hpre
  | _ =>
    simp only [RxOp.exec] at hrun
    (repeat' split at hrun) <;> cases hrun <;> exact h

theorem refCounted_begin {e : Entry} (h : RefCounted n l) (hbegin : e.begin t l = some l') :
    RefCounted n l' := by
  cases e with
  | packet m =>
    simp only [Entry.begin] at hbegin
    split at hbegin <;> cases hbegin
    simp only [RefCounted, takeDispatch, List.length_cons] at h ⊢
    omega
  | _ =>
    simp only [Entry.begin, startWork, takeFromClient, takeFromTxRing, takeFromRxRing,
      verifyTimerFn] at hbegin
    (repeat' split at hbegin) <;> cases hbegin <;> exact h

end References

section Reserve

variable {cfg : LinkCfg} {t : Tid} {l l' : Link}

/-- A ring that is larger than the control reserve keeps the reserve from data frames. -/
def Reserved (cfg : LinkCfg) (l : Link) : Prop :=
  ctrlReserve < cfg.tf.ringEntries.toNat →
    l.sess.dataWindow ≤ cfg.tf.ringEntries.toNat - ctrlReserve ∧
    l.tx.dataInflight ≤ cfg.tf.ringEntries.toNat - ctrlReserve

theorem linkWindow_le (tf : Tf) (remoteRxEntries : UInt16)
    (h : ctrlReserve < tf.ringEntries.toNat) :
    linkWindow tf remoteRxEntries ≤ tf.ringEntries.toNat - ctrlReserve := by
  simp only [linkWindow]
  split <;> omega

theorem dataWindow_sess (o : SessOp) (i : o.Inp) :
    (o.exec cfg l i).2.sess.dataWindow = l.sess.dataWindow ∨
      (o.exec cfg l i).2.sess.dataWindow = linkWindow cfg.tf l.sess.remote.rxEntries := by
  cases o <;> first
    | exact .inl rfl
    | exact .inr rfl
    | simp only [SessOp.exec, helloApply, notifyDownLocked, upcall, readyConfirm, maybeUpLocked,
        probeFailed, revalidated]
      (repeat' split) <;> simp

/-- The charged data frames stay within every bound on the window. -/
theorem dataInflight_tx {o : TxOp} {i : o.Inp} {r : o.Res} {b : ℕ}
    (hwindow : l.sess.dataWindow ≤ b) (hdata : l.tx.dataInflight ≤ b)
    (hrun : o.exec cfg t l i = some (r, l')) : l'.tx.dataInflight ≤ b := by
  cases o with
  | alloc len isCtrl preUp =>
    obtain rfl := link_of_run hrun
    simp only [allocFrameLocked]
    split
    · exact hdata
    split
    · exact hdata
    · next hfull =>
      split
      · exact hdata
      · cases isCtrl with
        | true => exact hdata
        | false =>
          -- the window still had room
          simp only [allocFull, Bool.false_eq_true, if_false, decide_eq_true_eq] at hfull ⊢
          omega
  | free f =>
    cases hrun
    dsimp only
    split <;> omega
  | complete f canceled =>
    cases hrun
    have hunpost : (txUnpost f canceled l.tx).dataInflight = l.tx.dataInflight := by
      unfold txUnpost
      split <;> rfl
    have hreturned :
        (txReturn t f { l with tx := txUnpost f canceled l.tx }).2.tx.dataInflight ≤ b := by
      simp only [txReturn, hunpost]
      split <;> omega
    obtain heq | ⟨m, tx, htake, -, heq⟩ | heq := txRefill_cases cfg t
      (txReturn t f { l with tx := txUnpost f canceled l.tx }).2 canceled
    all_goals simp only [heq]
    · exact hreturned
    · rw [(takeQueued_eq htake).1]
      exact hreturned
    · exact hreturned
  | _ =>
    simp only [TxOp.exec, xmitLocked] at hrun
    (repeat' split at hrun) <;> cases hrun <;> exact hdata

end Reserve

structure Pooled (cfg : LinkCfg) (l : Link) : Prop where
  tx : TxCovered cfg.tf.ringEntries.toNat l
  rx : RxCovered cfg.tf.ringEntries.toNat l
  refs : RefCounted cfg.tf.ringEntries.toNat l
  reserve : Reserved cfg l

def Counted (cfg : LinkCfg) : (linkMachine cfg).Guard :=
  (Settled cfg).with Unremoved RefPre

section Pool

variable {cfg : LinkCfg} {t : Tid} {l l' : Link}

/-- A step that leaves the pools and the references alone and sets at most a window of this ring. -/
theorem Pooled.congr (h : Pooled cfg l) (htx : txView l' = txView l) (hrx : rxView l' = rxView l)
    (hrefs : refView l' = refView l) (hrefcnt : l'.ctl.refcnt = l.ctl.refcnt)
    (hwindow : l'.sess.dataWindow = l.sess.dataWindow ∨
      ∃ entries, l'.sess.dataWindow = linkWindow cfg.tf entries) : Pooled cfg l' where
  tx := h.tx.congr htx
  rx := h.rx.congr hrx
  refs := by
    have hfree : l'.tx.txFree = l.tx.txFree := congrArg (·.2.1.1) htx
    have hrxFree : l'.rx.rxFree = l.rx.rxFree := congrArg (·.1.rxFree) hrx
    apply h.refs.congr
    rw [countView, hrefcnt, hfree, hrxFree, hrefs]
    rfl
  reserve := by
    intro hring
    obtain ⟨hle, hdata⟩ := h.reserve hring
    have hinflight : l'.tx.dataInflight = l.tx.dataInflight := congrArg (·.2.2.2.2) htx
    rw [hinflight]
    obtain hsame | ⟨entries, hset⟩ := hwindow
    · exact ⟨hsame ▸ hle, hdata⟩
    · exact ⟨hset ▸ linkWindow_le cfg.tf entries hring, hdata⟩

theorem pooled_held {o : HeldOp} {i : o.Inp} {r : o.Res} (h : Pooled cfg l)
    (hG : Counted cfg l (.exec t (.held o) i)) (hrun : o.run cfg t i l = some (r, l')) :
    Pooled cfg l' := by
  have htxOwned : TxOwned l := hG.1.2.1
  have hrxOwned : RxOwned l := hG.1.1.1.2.1
  have hwindow : owned l' = owned l → l'.sess.dataWindow = l.sess.dataWindow :=
    fun ho ↦ congrArg (·.1.dataWindow) ho
  cases o with
  | base o | net o =>
    exact h.congr (view_held txView hrun rfl) (view_held rxView hrun rfl)
      (view_held refView hrun rfl) (view_held (·.ctl.refcnt) hrun rfl)
      (.inl (hwindow (view_held owned hrun rfl)))
  | sess o =>
    obtain rfl := link_of_run hrun
    exact h.congr (view_sess txView o i rfl) (view_sess rxView o i rfl)
      (view_sess refView o i rfl) (view_sess (·.ctl.refcnt) o i rfl)
      ((dataWindow_sess o i).imp_right fun hset ↦ ⟨_, hset⟩)
  | tx o =>
    have hpre : TxPre t (.held (.tx o)) l := hG.1.2.2
    refine ⟨txCovered_tx htxOwned hpre h.tx hrun, h.rx.congr (view_tx rxView hrun rfl),
      refCounted_tx h.refs h.tx.free_le (h.rx.free_le hrxOwned) hG.2.2 hrun, fun hring ↦ ?_⟩
    obtain ⟨hle, hdata⟩ := h.reserve hring
    exact ⟨(hwindow (view_tx owned hrun rfl)).symm ▸ hle, dataInflight_tx hle hdata hrun⟩
  | rx o =>
    have hpre : RxPre t (.held (.rx o)) l := hG.1.1.1.2.2
    refine ⟨h.tx.congr (view_rx txView hrun rfl), rxCovered_rx hrxOwned hpre h.rx hrun,
      refCounted_rx h.refs h.tx.free_le (h.rx.free_le hrxOwned) hG.2.2 hrun, fun hring ↦ ?_⟩
    obtain ⟨hle, hdata⟩ := h.reserve hring
    have hinflight := view_rx (·.tx.dataInflight) hrun rfl
    exact ⟨(hwindow (view_rx owned hrun rfl)).symm ▸ hle, hinflight.symm ▸ hdata⟩

/-- Every step keeps the pool, its references and its reserve. -/
theorem pooled_run {o : Op} {i : o.Inp} {r : o.Res} (h : Pooled cfg l)
    (hG : Counted cfg l (.exec t o i)) (hrun : o.run cfg t i l = some (r, l')) : Pooled cfg l' := by
  have hrxOwned : RxOwned l := hG.1.1.1.2.1
  cases o with
  | held o => exact pooled_held h hG hrun
  | dispatchNext =>
    simp only [Op.run] at hrun
    split at hrun <;> cases hrun
    · refine ⟨h.tx, h.rx, ?_, h.reserve⟩
      have hrefs := h.refs
      simp only [RefCounted, takeDispatch, List.length_cons] at hrefs ⊢
      omega
    · exact h
  | putLink =>
    cases hrun
    exact ⟨h.tx, h.rx, refCounted_putDispatch h.refs h.tx.free_le (h.rx.free_le hrxOwned) hG.2.2,
      h.reserve⟩
  | putCreated =>
    cases hrun
    have hpre : l.ctl.remover = some t ∧ l.his.created = true := hG.2.2
    exact ⟨h.tx, h.rx, refCounted_putCreated h.refs h.tx.free_le (h.rx.free_le hrxOwned) hpre.2,
      h.reserve⟩
  | _ =>
    simp only [Op.run] at hrun
    (repeat' split at hrun) <;> cases hrun
    all_goals exact ⟨h.tx, h.rx, h.refs, h.reserve⟩

theorem pooled_begin {e : Entry} (h : Pooled cfg l) (htxOwned : TxOwned l) (hrxOwned : RxOwned l)
    (hbegin : e.begin t l = some l') : Pooled cfg l' := by
  refine ⟨txCovered_begin htxOwned h.tx hbegin, rxCovered_begin hrxOwned h.rx hbegin,
    refCounted_begin h.refs hbegin, ?_⟩
  have hwindow : l'.sess.dataWindow = l.sess.dataWindow :=
    congrArg (·.1.dataWindow) (view_begin owned hbegin rfl)
  have hinflight : l'.tx.dataInflight = l.tx.dataInflight := by
    cases e <;> simp only [Entry.begin, startWork, takeFromClient, takeFromTxRing, takeFromRxRing,
      verifyTimerFn] at hbegin <;> (repeat' split at hbegin) <;> cases hbegin <;> rfl
  rw [Reserved, hwindow, hinflight]
  exact h.reserve

/-- In every run all frames and references are accounted for. -/
theorem pool_verified (cfg : LinkCfg) :
    (linkMachine cfg).Verified (Counted cfg) (Pooled cfg) fun _ _ _ ↦ True where
  init l h := by
    obtain ⟨random, requestSeq, autostart, rfl⟩ := h
    refine ⟨⟨fun f ↦ ?_, ?_⟩, fun f ↦ ?_, ?_, fun _ ↦ ?_⟩
    · exact { inPool := fun h ↦ by simpa [linkCreate] using h
              onFree := fun hlt _ ↦ List.mem_range.2 hlt
              onQueue := by simp [linkCreate], onRing := by simp [linkCreate]
              charged := by simp [linkCreate] }
    · simp [linkCreate]
    · exact { inPool := fun h ↦ by simpa [linkCreate] using h
              onFree := fun hlt _ ↦ List.mem_range.2 hlt, onRing := by simp [linkCreate] }
    · simp only [RefCounted, linkCreate, List.length_range, List.length_nil, Bool.toNat_true]
      omega
    · exact ⟨Nat.zero_le _, Nat.zero_le _⟩
  enter t e l p l' hI hG henter := by
    obtain ⟨-, hbegin, rfl⟩ := enter_eq_some henter
    exact ⟨pooled_begin hI hG.1.2 hG.1.1.1.2 hbegin,
      Machine.Safe.of_all (.of_forall (fun _ _ ↦ trivial) _) l' trivial⟩
  exec t o i l r l' hI _ hG hrun := pooled_run hI hG hrun

theorem counted_reach {c : (linkMachine cfg).Config} (hc : (linkMachine cfg).system.Reachable c) :
    (linkMachine cfg).Reach (Counted cfg) c :=
  ((ref_verified cfg).guard fun _ _ _ ↦ trivial).strengthen
    ((settled_reach (G := fun _ _ ↦ True) hc).mono fun _ _ h ↦ h.2)

end Pool

/-! ## The conservation law -/

/-- Where a TX frame can be.  A frame with a caller is with the client or in the hands of one running
function of the core. -/
inductive TxPlace
  | free
  | caller
  | ctrlQueue
  | dataQueue
  | ring
  deriving DecidableEq

/-- The frame `f` is at a place. -/
def TxPlace.holds (l : Link) (f : ℕ) : TxPlace → Prop
  | .free => f ∈ l.tx.txFree
  | .caller => (l.tx.frames f).loc.carried
  | .ctrlQueue => f ∈ l.tx.txqCtrl
  | .dataQueue => f ∈ l.tx.txqData
  | .ring => f ∈ l.hw.txRing

/-- Where an RX descriptor can be.  `core t` is the hands of a running function: between the ring
and the client or the free list, and in the loop of the bring-up. -/
inductive RxPlace
  | free
  | posted
  | client
  | core (t : Tid)
  deriving DecidableEq

/-- The descriptor `f` is at a place. -/
def RxPlace.holds (l : Link) (f : ℕ) : RxPlace → Prop
  | .free => f ∈ l.rx.rxFree
  | .posted => f ∈ l.hw.rxRing
  | .client => (l.rx.frames f).loc = .client
  | .core t => (l.rx.frames f).loc = .held t

/-- A `WARN_ON` of `tbframe_tx_return_locked` fires. -/
def warnsReturn (l : Link) (f : ℕ) : Bool :=
  (l.tx.frames f).chargedCtrl && l.tx.ctrlInflight == 0 ||
    (l.tx.frames f).chargedData && l.tx.dataInflight == 0

/-- A `WARN_ON` on a counter of the TX pool fires in the step. -/
def warns {cfg : LinkCfg} (l : Link) : (linkMachine cfg).Label → Bool
  | .exec _ (.held (.tx (.free f))) _ => warnsReturn l f
  | .exec _ (.held (.tx (.complete f _))) _ =>
      (l.tx.frames f).hwPosted && l.tx.ringPosted == 0 || warnsReturn l f
  | .exec _ (.held (.tx (.ringErr _))) _ => l.tx.ringPosted == 0
  | .exec _ (.held (.tx (.refillErr _))) _ => l.tx.ringPosted == 0
  | _ => false

section Law

variable {cfg : LinkCfg} {t : Tid} {l : Link} {n f : ℕ}

def txPlace (l : Link) (f : ℕ) : TxPlace :=
  match (l.tx.frames f).loc with
  | .free => .free
  | .queued => if f ∈ l.tx.txqCtrl then .ctrlQueue else .dataQueue
  | .ring => .ring
  | .client | .held _ | .posting _ | .done _ => .caller

/-- A TX frame is at exactly one place. -/
theorem txPlace_holds (howned : TxOwned l) (h : TxCovered n l) (hf : f < n) (p : TxPlace) :
    p.holds l f ↔ p = txPlace l f := by
  have hplaced := howned.placed f
  have hcovered := h.frames f
  have hfree : f ∈ l.tx.txFree ↔ (l.tx.frames f).loc = .free := ⟨hplaced.free, hcovered.onFree hf⟩
  have hring : f ∈ l.hw.txRing ↔ (l.tx.frames f).loc = .ring := ⟨hplaced.ring, hcovered.onRing⟩
  have hqueue : f ∈ l.tx.txqData ∨ f ∈ l.tx.txqCtrl ↔ (l.tx.frames f).loc = .queued :=
    List.mem_append.symm.trans ⟨hplaced.queued, hcovered.onQueue⟩
  have hdisjoint : f ∈ l.tx.txqData → f ∉ l.tx.txqCtrl :=
    fun hmem ↦ List.disjoint_of_nodup_append howned.queueNodup hmem
  unfold txPlace
  cases hloc : (l.tx.frames f).loc with
  | queued =>
    have hmem := hqueue.2 hloc
    by_cases hctrl : f ∈ l.tx.txqCtrl
    · have hdata : f ∉ l.tx.txqData := fun hdata ↦ hdisjoint hdata hctrl
      cases p <;> simp [TxPlace.holds, hfree, hring, hloc, hctrl, hdata, TxLoc.carried]
    · have hdata : f ∈ l.tx.txqData := hmem.resolve_right hctrl
      cases p <;> simp [TxPlace.holds, hfree, hring, hloc, hctrl, hdata, TxLoc.carried]
  | _ =>
    have hnot : f ∉ l.tx.txqData ∧ f ∉ l.tx.txqCtrl := by
      rw [← not_or, hqueue, hloc]
      simp
    cases p <;> simp [TxPlace.holds, hfree, hring, hloc, hnot, TxLoc.carried]

def rxPlace (l : Link) (f : ℕ) : RxPlace :=
  match (l.rx.frames f).loc with
  | .free => .free
  | .posted => .posted
  | .client => .client
  | .held t => .core t

theorem rxPlace_holds (howned : RxOwned l) (h : RxCovered n l) (hf : f < n) (p : RxPlace) :
    p.holds l f ↔ p = rxPlace l f := by
  have hplaced := howned.placed f
  have hcovered := h f
  have hfree : f ∈ l.rx.rxFree ↔ (l.rx.frames f).loc = .free := ⟨hplaced.free, hcovered.onFree hf⟩
  have hring : f ∈ l.hw.rxRing ↔ (l.rx.frames f).loc = .posted := ⟨hplaced.ring, hcovered.onRing⟩
  unfold rxPlace
  cases hloc : (l.rx.frames f).loc <;> cases p <;>
    simp [RxPlace.holds, hfree, hring, hloc, eq_comm]

/-- A control allocation finds no frame only when the reserve is used up: the free list is empty
only when the frames charged to the two windows are the whole pool. -/
theorem enospc_reserve {len : ℕ} {preUp : Bool} (h : Pooled cfg l)
    (hring : ctrlReserve < cfg.tf.ringEntries.toNat)
    (hfull : (allocFrameLocked t len true preUp l).1 = .error enospc) :
    ctrlReserve ≤ l.tx.ctrlInflight := by
  simp only [allocFrameLocked] at hfull
  split at hfull
  · cases hfull
  split at hfull
  · next hwindow => simpa [allocFull] using hwindow
  split at hfull
  · next hempty =>
    have hbalance := h.tx.balance
    rw [hempty, List.length_nil] at hbalance
    obtain ⟨-, hdata⟩ := h.reserve hring
    omega
  · cases hfull

/-- In a settled run no counter of the TX pool is decremented at zero. -/
theorem not_warns {s : (linkMachine cfg).Label} (hG : Settled cfg l s) : warns l s = false := by
  have hreturn : TxOwned l → ∀ f, warnsReturn l f = false := by
    intro howned f
    have hctrl := howned.ctrlInflight.pos (a := f)
    have hdata := howned.dataInflight.pos (a := f)
    cases hc : (l.tx.frames f).chargedCtrl <;> cases hd : (l.tx.frames f).chargedData <;>
      simp_all [warnsReturn] <;> omega
  have hposted : TxOwned l → ∀ f, (l.tx.frames f).hwPosted → (l.tx.ringPosted == 0) = false := by
    intro howned f hf
    have hpos := howned.ringPosted.pos hf
    simp only [beq_eq_false_iff_ne]
    omega
  unfold warns
  split
  · exact hreturn hG.2.1 _
  · next t f canceled i =>
    have howned : TxOwned l := hG.2.1
    cases hf : (l.tx.frames f).hwPosted with
    | true => simp [hposted howned f hf, hreturn howned f]
    | false => simp [hreturn howned f]
  · next t f i =>
    have hpre : (l.tx.frames f).loc = .posting t := hG.2.2
    have howned : TxOwned l := hG.2.1
    exact hposted howned f ((howned.placed f).posted (by simp [hpre, TxLoc.posted]))
  · next t f i =>
    have hpre : (l.tx.frames f).loc = .posting t := hG.2.2
    have howned : TxOwned l := hG.2.1
    exact hposted howned f ((howned.placed f).posted (by simp [hpre, TxLoc.posted]))
  · rfl

/-- The conservation law of the frame pools.  The reference count has one reference of the creation
until it is dropped, and one for each frame outside its free list, each dispatch and each frame that
was put back by a function which did not drop its reference yet. -/
structure Conserved (cfg : LinkCfg) (c : (linkMachine cfg).Config) : Prop where
  txPlace : ∀ f < cfg.tf.ringEntries.toNat, ∃! p : TxPlace, p.holds c.state f
  txNodup : c.state.tx.txFree.Nodup ∧ c.state.tx.txqCtrl.Nodup ∧ c.state.tx.txqData.Nodup ∧
    c.state.hw.txRing.Nodup
  rxPlace : ∀ f < cfg.tf.ringEntries.toNat, ∃! p : RxPlace, p.holds c.state f
  rxNodup : c.state.rx.rxFree.Nodup ∧ c.state.hw.rxRing.Nodup
  pool : ∀ f, f ∈ c.state.tx.txFree ∨ f ∈ c.state.rx.rxFree → f < cfg.tf.ringEntries.toNat
  dataInflight : Tally TxFrame.chargedData c.state.tx.frames c.state.tx.dataInflight
  ctrlInflight : Tally TxFrame.chargedCtrl c.state.tx.frames c.state.tx.ctrlInflight
  ringPosted : Tally TxFrame.hwPosted c.state.tx.frames c.state.tx.ringPosted
  refcnt : c.state.ctl.refcnt = c.state.his.created.toNat +
    (cfg.tf.ringEntries.toNat - c.state.tx.txFree.length) +
    (cfg.tf.ringEntries.toNat - c.state.rx.rxFree.length) +
    c.state.his.dispatching.length + c.state.his.returning.length
  unwarned : ∀ s c', (linkMachine cfg).Step c s c' → warns c.state s = false
  reserve : ctrlReserve < cfg.tf.ringEntries.toNat → ∀ t len preUp,
    (allocFrameLocked t len true preUp c.state).1 = .error enospc →
      ctrlReserve ≤ c.state.tx.ctrlInflight

/-- In every run, frames are conserved, counters and references are right, no counter underflows and
bulk data leaves the control reserve alone. -/
theorem frames_conserved {c : (linkMachine cfg).Config}
    (hc : (linkMachine cfg).system.Reachable c) : Conserved cfg c := by
  have hpooled := ((pool_verified cfg).sound (counted_reach hc)).1
  have htx : TxOwned c.state := ((tx_verified cfg).sound hc).1
  have hrx : RxOwned c.state := ((rx_verified cfg).sound hc).1
  obtain ⟨hdata, hctrl, -⟩ := List.nodup_append.1 htx.queueNodup
  constructor
  · exact fun f hf ↦ ⟨txPlace c.state f, (txPlace_holds htx hpooled.tx hf _).2 rfl,
      fun p hp ↦ (txPlace_holds htx hpooled.tx hf p).1 hp⟩
  · exact ⟨htx.freeNodup, hctrl, hdata, htx.ringNodup⟩
  · exact fun f hf ↦ ⟨rxPlace c.state f, (rxPlace_holds hrx hpooled.rx hf _).2 rfl,
      fun p hp ↦ (rxPlace_holds hrx hpooled.rx hf p).1 hp⟩
  · exact ⟨hrx.freeNodup, hrx.ringNodup⟩
  · rintro f (hf | hf)
    · exact (hpooled.tx.frames f).inPool (.inl hf)
    · exact (hpooled.rx f).inPool (.inl hf)
  · exact htx.dataInflight
  · exact htx.ctrlInflight
  · exact htx.ringPosted
  · have hrefs := hpooled.refs
    have htxFree := hpooled.tx.free_le
    have hrxFree := hpooled.rx.free_le hrx
    unfold RefCounted at hrefs
    omega
  · exact fun s c' hstep ↦ not_warns (settled_step hc hstep)
  · exact fun hring t len preUp ↦ enospc_reserve hpooled hring

end Law

def probedSchedule : List (linkMachine (sampleCfg .b)).Act :=
  connectSchedule 1 2 ++ linkSteps .session 8 {}

set_option maxRecDepth 10000 in
theorem frames_conserved_sample : ∃ c, (linkMachine (sampleCfg .b)).system.Reachable c ∧
    c.state.hw.txRing = [0] ∧ c.state.hw.rxRing = [0, 1] ∧ c.state.ctl.refcnt = 4 ∧
    Conserved (sampleCfg .b) c := by
  obtain ⟨c, hc, hgoal⟩ := System.Exec.reach_of_play (linkMachine (sampleCfg .b)).exec
    (fun _ _ ↦ true)
    (fun c ↦ c.state.hw.txRing == [0] && c.state.hw.rxRing == [0, 1] && c.state.ctl.refcnt == 4)
    probedSchedule (Machine.init_idle ⟨50, 0, true, rfl⟩) (by decide +kernel)
  simp only [Bool.and_eq_true, beq_iff_eq] at hgoal
  have hreach : (linkMachine (sampleCfg .b)).system.Reachable c := hc.mono fun _ _ _ ↦ trivial
  exact ⟨c, hreach, hgoal.1.1, hgoal.1.2, hgoal.2, frames_conserved hreach⟩

def bringUpSchedule : List (linkMachine (sampleCfg .b)).Act :=
  [.start .session .sessionWork] ++ linkSteps .session 6 {} ++
    linkSteps .session 1 (peerAnswer .helloAck 1) ++ linkSteps .session 10 {}

/-- The keepalive was put back on the free list and its reference was not dropped yet. -/
def returningSchedule : List (linkMachine (sampleCfg .b)).Act :=
  probedSchedule ++ [.start (.task 1) (.txComplete 0 false)] ++ linkSteps (.task 1) 3 {}

set_option maxRecDepth 10000 in
/-- In passing, a descriptor is with a function of the core, and a reference outlasts the frame it
was taken for. -/
theorem frames_in_transit : ∃ c c', (linkMachine (sampleCfg .b)).system.Reachable c ∧
    (linkMachine (sampleCfg .b)).system.Reachable c' ∧
    (0 ∉ c.state.rx.rxFree ∧ 0 ∉ c.state.hw.rxRing ∧ (c.state.rx.frames 0).loc ≠ .client) ∧
    c'.state.his.created = true ∧ c'.state.ctl.refcnt ≠
      1 + ((sampleCfg .b).tf.ringEntries.toNat - c'.state.tx.txFree.length) +
        ((sampleCfg .b).tf.ringEntries.toNat - c'.state.rx.rxFree.length) +
        c'.state.his.dispatching.length := by
  obtain ⟨c, hc, hgoal⟩ := System.Exec.reach_of_play (linkMachine (sampleCfg .b)).exec
    (fun _ _ ↦ true)
    (fun c ↦ decide (0 ∉ c.state.rx.rxFree ∧ 0 ∉ c.state.hw.rxRing ∧
      (c.state.rx.frames 0).loc ≠ .client))
    bringUpSchedule (Machine.init_idle ⟨50, 0, true, rfl⟩) (by decide +kernel)
  obtain ⟨c', hc', hgoal'⟩ := System.Exec.reach_of_play (linkMachine (sampleCfg .b)).exec
    (fun _ _ ↦ true)
    (fun c ↦ decide (c.state.his.created = true ∧ c.state.ctl.refcnt ≠
      1 + ((sampleCfg .b).tf.ringEntries.toNat - c.state.tx.txFree.length) +
        ((sampleCfg .b).tf.ringEntries.toNat - c.state.rx.rxFree.length) +
        c.state.his.dispatching.length))
    returningSchedule (Machine.init_idle ⟨50, 0, true, rfl⟩) (by decide +kernel)
  exact ⟨c, c', hc.mono fun _ _ _ ↦ trivial, hc'.mono fun _ _ _ ↦ trivial,
    of_decide_eq_true hgoal, of_decide_eq_true hgoal'⟩

end ThunderboltStack.Tbframe
