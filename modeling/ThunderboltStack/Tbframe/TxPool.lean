import Mathlib.Data.List.Nodup
import ThunderboltStack.Lib.Tally
import ThunderboltStack.Tbframe.Lock

/-!
# Ownership of TX frames

Every TX frame is in one place: on the free list, in the software backlog, in the ring, with the
client, or in the hands of one running function.  A frame counts as posted from the decision to post
it until its completion is processed, and the counters of a link are the numbers of posted and of
charged frames.
-/

namespace ThunderboltStack.Tbframe

open ThunderboltStack.Lib

/-- The frame was given to the ring, or is about to be. -/
def TxLoc.posted : TxLoc → Bool
  | .posting _ | .ring => true
  | _ => false

/-- The frame comes back from the ring or from the backlog. -/
def TxLoc.returning : TxLoc → Bool
  | .done _ => true
  | _ => false

/-- A running function of `t` has the frame. -/
def TxLoc.of (t : Tid) : TxLoc → Bool
  | .held u | .posting u | .done u => u == t
  | _ => false

/-- A frame is where its `loc` says, counts as posted there, and is charged unless it is free. -/
structure TxFrame.Placed (fr : TxFrame) (free queued ring : Prop) : Prop where
  free : free → fr.loc = .free
  queued : queued → fr.loc = .queued
  ring : ring → fr.loc = .ring
  posted : fr.loc.posted → fr.hwPosted
  unposted : fr.hwPosted → fr.loc.posted ∨ fr.loc.returning
  uncharged : fr.loc = .free → fr.chargedCtrl = false ∧ fr.chargedData = false

/-- The frames of a pool are in their places and its counters are right; `ring` are the frames in
the hardware ring. -/
structure TxPool.Owned (tx : TxPool) (ring : List ℕ) : Prop where
  freeNodup : tx.txFree.Nodup
  queueNodup : (tx.txqData ++ tx.txqCtrl).Nodup
  ringNodup : ring.Nodup
  placed : ∀ f, (tx.frames f).Placed (f ∈ tx.txFree) (f ∈ tx.txqData ++ tx.txqCtrl) (f ∈ ring)
  ringPosted : Tally TxFrame.hwPosted tx.frames tx.ringPosted
  ctrlInflight : Tally TxFrame.chargedCtrl tx.frames tx.ctrlInflight
  dataInflight : Tally TxFrame.chargedData tx.frames tx.dataInflight

def TxOwned (l : Link) : Prop :=
  l.tx.Owned l.hw.txRing

def TxPre (t : Tid) : Op → Link → Prop
  | .held (.tx (.build f dir)), l =>
      (l.tx.frames f).loc = .held t ∧ (l.tx.frames f).len = keepaliveLen dir
  | .held (.tx (.xmit f _)), l | .held (.tx (.free f)), l => (l.tx.frames f).loc = .held t
  | .held (.tx (.toClient f)), l => (l.tx.frames f).loc = .held t
  | .held (.tx (.ringTx f)), l | .held (.tx (.ringErr f)), l => (l.tx.frames f).loc = .posting t
  | .held (.tx (.refillErr f)), l => (l.tx.frames f).loc = .posting t
  | .held (.tx (.complete f _)), l => (l.tx.frames f).loc = .done t
  | _, _ => True

section Pools

variable {tx tx' : TxPool} {ring ring' : List ℕ} {t : Tid} {f : ℕ}

/-- A frame in the hands of a function is on no list. -/
theorem TxPool.Owned.not_mem (h : tx.Owned ring) (hf : (tx.frames f).loc.of t) :
    f ∉ tx.txFree ∧ f ∉ tx.txqData ++ tx.txqCtrl ∧ f ∉ ring := by
  have hplaced := h.placed f
  refine ⟨fun hmem ↦ ?_, fun hmem ↦ ?_, fun hmem ↦ ?_⟩
  · rw [hplaced.free hmem] at hf
    cases hf
  · rw [hplaced.queued hmem] at hf
    cases hf
  · rw [hplaced.ring hmem] at hf
    cases hf

/-- Replacing one frame keeps the other frames in their places. -/
theorem TxPool.Owned.update (h : tx.Owned ring) {fr : TxFrame}
    (hframes : tx'.frames = Function.update tx.frames f fr)
    (hfree : tx'.txFree.Nodup ∧ ∀ g ≠ f, g ∈ tx'.txFree → g ∈ tx.txFree)
    (hqueue : (tx'.txqData ++ tx'.txqCtrl).Nodup ∧
      ∀ g ≠ f, g ∈ tx'.txqData ++ tx'.txqCtrl → g ∈ tx.txqData ++ tx.txqCtrl)
    (hring : ring'.Nodup ∧ ∀ g ≠ f, g ∈ ring' → g ∈ ring)
    (hfr : fr.Placed (f ∈ tx'.txFree) (f ∈ tx'.txqData ++ tx'.txqCtrl) (f ∈ ring'))
    (hposted : Tally TxFrame.hwPosted (Function.update tx.frames f fr) tx'.ringPosted)
    (hctrl : Tally TxFrame.chargedCtrl (Function.update tx.frames f fr) tx'.ctrlInflight)
    (hdata : Tally TxFrame.chargedData (Function.update tx.frames f fr) tx'.dataInflight) :
    tx'.Owned ring' := by
  refine ⟨hfree.1, hqueue.1, hring.1, fun g ↦ ?_, hframes ▸ hposted, hframes ▸ hctrl,
    hframes ▸ hdata⟩
  by_cases hg : g = f
  · subst hg
    rw [hframes, Function.update_self]
    exact hfr
  · rw [hframes, Function.update_of_ne hg]
    have hplaced := h.placed g
    exact { hplaced with
      free := fun hmem ↦ hplaced.free (hfree.2 g hg hmem)
      queued := fun hmem ↦ hplaced.queued (hqueue.2 g hg hmem)
      ring := fun hmem ↦ hplaced.ring (hring.2 g hg hmem) }

/-- Replacing a frame in the hands of a function by one that is on no list either. -/
theorem TxPool.Owned.replace (h : tx.Owned ring) {fr : TxFrame} (hf : (tx.frames f).loc.of t)
    (hframes : tx'.frames = Function.update tx.frames f fr) (hfree : tx'.txFree = tx.txFree)
    (hqueue : tx'.txqData ++ tx'.txqCtrl = tx.txqData ++ tx.txqCtrl)
    (hloc : fr.loc ≠ .free) (hposted : fr.loc.posted → fr.hwPosted)
    (hunposted : fr.hwPosted → fr.loc.posted ∨ fr.loc.returning)
    (hringPosted : Tally TxFrame.hwPosted (Function.update tx.frames f fr) tx'.ringPosted)
    (hctrl : Tally TxFrame.chargedCtrl (Function.update tx.frames f fr) tx'.ctrlInflight)
    (hdata : Tally TxFrame.chargedData (Function.update tx.frames f fr) tx'.dataInflight) :
    tx'.Owned ring := by
  obtain ⟨hnotFree, hnotQueued, hnotRing⟩ := h.not_mem hf
  apply h.update hframes _ _ ⟨h.ringNodup, fun _ _ hmem ↦ hmem⟩ _ hringPosted hctrl hdata
  · rw [hfree]; exact ⟨h.freeNodup, fun _ _ hmem ↦ hmem⟩
  · rw [hqueue]; exact ⟨h.queueNodup, fun _ _ hmem ↦ hmem⟩
  · rw [hfree, hqueue]
    exact { free := fun hmem ↦ absurd hmem hnotFree
            queued := fun hmem ↦ absurd hmem hnotQueued
            ring := fun hmem ↦ absurd hmem hnotRing
            posted := hposted, unposted := hunposted
            uncharged := fun hfree ↦ absurd hfree hloc }

/-- A frame that is not on a list may be put at its end. -/
theorem nodup_snoc {xs : List ℕ} (h : xs.Nodup) (hf : f ∉ xs) : (xs ++ [f]).Nodup :=
  h.append (List.nodup_singleton f) (by simpa using hf)

/-- A frame that is in no ring and not on its way back does not count as posted. -/
theorem TxFrame.Placed.not_posted {fr : TxFrame} {p q r : Prop} (h : fr.Placed p q r)
    (hposted : fr.loc.posted = false) (hreturning : fr.loc.returning = false) :
    fr.hwPosted = false := by
  cases hp : fr.hwPosted with
  | true => simpa [hposted, hreturning] using h.unposted hp
  | false => rfl

/-- `ring_tx` rejected a frame: it is posted no more. -/
theorem TxPool.Owned.unpost (h : tx.Owned ring) (hf : (tx.frames f).loc = .posting t) {loc : TxLoc}
    (hloc : loc = .held t ∨ loc = .done t)
    (hframes : tx'.frames =
      Function.update tx.frames f { tx.frames f with hwPosted := false, loc := loc })
    (hfree : tx'.txFree = tx.txFree)
    (hqueue : tx'.txqData ++ tx'.txqCtrl = tx.txqData ++ tx.txqCtrl)
    (hposted : tx'.ringPosted = tx.ringPosted - 1) (hctrl : tx'.ctrlInflight = tx.ctrlInflight)
    (hdata : tx'.dataInflight = tx.dataInflight) : tx'.Owned ring := by
  have hof : (tx.frames f).loc.of t := by simp [hf, TxLoc.of]
  have hwas : (tx.frames f).hwPosted := (h.placed f).posted (by simp [hf, TxLoc.posted])
  apply h.replace hof hframes hfree hqueue
  · obtain rfl | rfl := hloc <;> simp
  · obtain rfl | rfl := hloc <;> simp [TxLoc.posted]
  · simp
  · rw [hposted]; exact h.ringPosted.clear hwas rfl
  · rw [hctrl]; exact h.ctrlInflight.keep rfl
  · rw [hdata]; exact h.dataInflight.keep rfl

/-- Deciding to post a frame that is neither posted nor free. -/
theorem TxPool.Owned.post (h : tx.Owned ring) (hf : (tx.frames f).loc.of t)
    (hunposted : (tx.frames f).hwPosted = false) : (postTx t f tx).Owned ring := by
  refine h.replace hf rfl rfl rfl ?_ ?_ ?_ ?_ ?_ ?_
  · simp
  · simp
  · simp [TxLoc.posted]
  · exact h.ringPosted.set hunposted rfl
  · exact h.ctrlInflight.keep rfl
  · exact h.dataInflight.keep rfl

/-- The frame of a function goes to the backlog. -/
theorem TxPool.Owned.enqueue (h : tx.Owned ring) (hf : (tx.frames f).loc.of t)
    (hunposted : (tx.frames f).hwPosted = false) : (enqueueTx f tx).Owned ring := by
  obtain ⟨hfree, hqueued, hring⟩ := h.not_mem hf
  have hperm : ((enqueueTx f tx).txqData ++ (enqueueTx f tx).txqCtrl).Perm
      (f :: (tx.txqData ++ tx.txqCtrl)) := by
    unfold enqueueTx
    split
    · rw [← List.append_assoc]
      exact List.perm_append_singleton f _
    · rw [List.append_assoc]
      exact List.perm_middle
  refine h.update (f := f) rfl ⟨h.freeNodup, fun _ _ hg ↦ hg⟩ ⟨?_, fun g hg hmem ↦ ?_⟩
    ⟨h.ringNodup, fun _ _ hg ↦ hg⟩ ?_ ?_ ?_ ?_
  · exact hperm.nodup_iff.2 (List.nodup_cons.2 ⟨hqueued, h.queueNodup⟩)
  · exact (List.mem_cons.1 (hperm.mem_iff.1 hmem)).resolve_left hg
  · exact { free := fun hmem ↦ absurd hmem hfree
            queued := fun _ ↦ rfl
            ring := fun hmem ↦ absurd hmem hring
            posted := by simp [TxLoc.posted]
            unposted := by simp [hunposted]
            uncharged := by simp }
  · exact h.ringPosted.keep rfl
  · exact h.ctrlInflight.keep rfl
  · exact h.dataInflight.keep rfl

/-- The backlog goes to one function. -/
theorem TxPool.Owned.splice (h : tx.Owned ring) : (spliceQueues t tx).2.Owned ring := by
  have hkeep : ∀ {flag : TxFrame → Bool} {n : ℕ},
      (∀ fr : TxFrame, flag { fr with loc := .done t } = flag fr) → Tally flag tx.frames n →
      Tally flag (spliceQueues t tx).2.frames n := by
    intro flag n hflag htally
    apply htally.congr
    intro g
    simp only [spliceQueues]
    split
    · exact hflag _
    · rfl
  refine ⟨h.freeNodup, List.nodup_nil, h.ringNodup, fun g ↦ ?_, hkeep (fun _ ↦ rfl) h.ringPosted,
    hkeep (fun _ ↦ rfl) h.ctrlInflight, hkeep (fun _ ↦ rfl) h.dataInflight⟩
  have hplaced := h.placed g
  simp only [spliceQueues]
  split
  · next hmem =>
    have hloc := hplaced.queued hmem
    exact { free := fun hfree ↦ by simpa [hloc] using hplaced.free hfree
            queued := by simp
            ring := fun hring ↦ by simpa [hloc] using hplaced.ring hring
            posted := by simp [TxLoc.posted]
            unposted := by simp [TxLoc.returning]
            uncharged := by simp }
  · exact { hplaced with queued := by simp }

end Pools

section Steps

variable {cfg : LinkCfg} {t : Tid} {l l' : Link} {f : ℕ}

theorem txOwned_alloc (len : ℕ) (isCtrl preUp : Bool) (h : TxOwned l) :
    TxOwned (allocFrameLocked t len isCtrl preUp l).2 := by
  have hblocked : TxOwned { l with tx := { l.tx with txBlocked := true } } := by
    exact ⟨h.freeNodup, h.queueNodup, h.ringNodup, h.placed, h.ringPosted, h.ctrlInflight,
      h.dataInflight⟩
  simp only [allocFrameLocked]
  split
  · exact h
  split
  · exact hblocked
  split
  · exact hblocked
  · next f rest hlist =>
    have hmem : f ∈ l.tx.txFree := by simp [hlist]
    have hnodup : (f :: rest).Nodup := hlist ▸ h.freeNodup
    have hplaced := h.placed f
    have hloc := hplaced.free hmem
    obtain ⟨hctrl, hdata⟩ := hplaced.uncharged hloc
    have hunposted : (l.tx.frames f).hwPosted = false :=
      hplaced.not_posted (by simp [hloc, TxLoc.posted]) (by simp [hloc, TxLoc.returning])
    apply h.update (f := f) rfl
    · exact ⟨(List.nodup_cons.1 hnodup).2, fun g _ hg ↦ hlist ▸ List.mem_cons_of_mem f hg⟩
    · exact ⟨h.queueNodup, fun _ _ hg ↦ hg⟩
    · exact ⟨h.ringNodup, fun _ _ hg ↦ hg⟩
    · exact { free := fun hg ↦ absurd hg (List.nodup_cons.1 hnodup).1
              queued := fun hg ↦ by simpa [hloc] using hplaced.queued hg
              ring := fun hg ↦ by simpa [hloc] using hplaced.ring hg
              posted := by simp [TxLoc.posted]
              unposted := by simp [hunposted]
              uncharged := by simp }
    · exact h.ringPosted.keep rfl
    · cases isCtrl with
      | true => exact h.ctrlInflight.set hctrl (by simp)
      | false => exact h.ctrlInflight.keep (by simp)
    · cases isCtrl with
      | true => exact h.dataInflight.keep (by simp)
      | false => exact h.dataInflight.set hdata (by simp)

theorem txOwned_xmit (preUp : Bool) (h : TxOwned l) (hf : (l.tx.frames f).loc = .held t) :
    TxOwned (xmitLocked cfg t f preUp l).2 := by
  have hof : (l.tx.frames f).loc.of t := by simp [hf, TxLoc.of]
  have hunposted : (l.tx.frames f).hwPosted = false :=
    (h.placed f).not_posted (by simp [hf, TxLoc.posted]) (by simp [hf, TxLoc.returning])
  simp only [xmitLocked]
  split
  · exact ⟨h.freeNodup, h.queueNodup, h.ringNodup, h.placed, h.ringPosted, h.ctrlInflight,
      h.dataInflight⟩
  split
  · exact h.enqueue hof hunposted
  · exact h.post hof hunposted

theorem txOwned_ringTx (h : TxOwned l) (hf : (l.tx.frames f).loc = .posting t) :
    TxOwned (ringTxAccept f l) := by
  obtain ⟨hfree, hqueued, hring⟩ := h.not_mem (f := f) (t := t) (by simp [hf, TxLoc.of])
  refine h.update (f := f) rfl ⟨h.freeNodup, fun _ _ hg ↦ hg⟩ ⟨h.queueNodup, fun _ _ hg ↦ hg⟩
    ⟨nodup_snoc h.ringNodup hring, fun g hg hmem ↦ ?_⟩ ?_ ?_ ?_ ?_
  · simpa [ringTxAccept, hg] using hmem
  · exact { free := fun hmem ↦ absurd hmem hfree
            queued := fun hmem ↦ absurd hmem hqueued
            ring := fun _ ↦ rfl
            posted := fun _ ↦ (h.placed f).posted (by simp [hf, TxLoc.posted])
            unposted := by simp [TxLoc.posted]
            uncharged := by simp }
  · exact h.ringPosted.keep rfl
  · exact h.ctrlInflight.keep rfl
  · exact h.dataInflight.keep rfl

/-- A frame that is posted no more goes back to the free list. -/
theorem txOwned_return (h : TxOwned l) (hf : (l.tx.frames f).loc.of t)
    (hunposted : (l.tx.frames f).hwPosted = false) : TxOwned (txReturn t f l).2 := by
  obtain ⟨hfree, hqueued, hring⟩ := h.not_mem hf
  refine h.update (f := f) rfl ⟨nodup_snoc h.freeNodup hfree, fun g hg hmem ↦ ?_⟩
    ⟨h.queueNodup, fun _ _ hg ↦ hg⟩ ⟨h.ringNodup, fun _ _ hg ↦ hg⟩ ?_ ?_ ?_ ?_
  · simpa [txReturn, hg] using hmem
  · exact { free := fun _ ↦ rfl
            queued := fun hmem ↦ absurd hmem hqueued
            ring := fun hmem ↦ absurd hmem hring
            posted := by simp [TxLoc.posted]
            unposted := by simp [hunposted]
            uncharged := fun _ ↦ ⟨rfl, rfl⟩ }
  · exact h.ringPosted.keep rfl
  · simp only [txReturn]
    split
    · next hcharged => exact h.ctrlInflight.clear hcharged rfl
    · next hcharged => exact h.ctrlInflight.keep (by simpa using hcharged)
  · simp only [txReturn]
    split
    · next hcharged => exact h.dataInflight.clear hcharged rfl
    · next hcharged => exact h.dataInflight.keep (by simpa using hcharged)

/-- Processing the completion of a frame takes it out of the count of posted frames. -/
theorem txOwned_unpost (canceled : Bool) (h : TxOwned l) (hf : (l.tx.frames f).loc = .done t) :
    TxOwned { l with tx := txUnpost f canceled l.tx } ∧
      ((txUnpost f canceled l.tx).frames f).loc = .done t ∧
      ((txUnpost f canceled l.tx).frames f).hwPosted = false := by
  unfold txUnpost
  split
  · next hposted =>
    refine ⟨?_, by simpa using hf, by simp⟩
    refine h.replace (t := t) (f := f) (by simp [hf, TxLoc.of]) rfl rfl rfl ?_ ?_ ?_ ?_ ?_ ?_
    · simp [hf]
    · simp [hf, TxLoc.posted]
    · simp
    · exact h.ringPosted.clear hposted rfl
    · exact h.ctrlInflight.keep rfl
    · exact h.dataInflight.keep rfl
  · next hposted => exact ⟨h, hf, by simpa using hposted⟩

/-- Taking from the backlog only shortens its queues. -/
theorem takeQueued_eq {tx tx' : TxPool} {n : ℕ} (h : takeQueued tx = some (n, tx')) :
    tx' = { tx with txqCtrl := tx'.txqCtrl, txqData := tx'.txqData } ∧
      (tx.txqData ++ tx.txqCtrl).Perm (n :: (tx'.txqData ++ tx'.txqCtrl)) := by
  unfold takeQueued at h
  split at h
  · next f rest hctrl =>
    cases h
    exact ⟨rfl, hctrl ▸ List.perm_middle⟩
  · next f rest hctrl hdata =>
    cases h
    exact ⟨rfl, by rw [hctrl, hdata]; rfl⟩
  · cases h

/-- A refill takes a queued frame, and posting it keeps every frame owned. -/
theorem TxPool.Owned.refill {tx tx' : TxPool} {ring : List ℕ} {n : ℕ} (h : tx.Owned ring)
    (htake : takeQueued tx = some (n, tx')) :
    (tx.frames n).loc = .queued ∧ (postTx t n tx').Owned ring := by
  obtain ⟨heq, hperm⟩ := takeQueued_eq htake
  have hnodup := List.nodup_cons.1 (hperm.nodup_iff.1 h.queueNodup)
  have hplaced := h.placed n
  have hloc := hplaced.queued (hperm.mem_iff.2 List.mem_cons_self)
  have hunposted : (tx.frames n).hwPosted = false :=
    hplaced.not_posted (by simp [hloc, TxLoc.posted]) (by simp [hloc, TxLoc.returning])
  refine ⟨hloc, ?_⟩
  rw [heq]
  refine h.update (f := n) rfl ⟨h.freeNodup, fun _ _ hg ↦ hg⟩
    ⟨hnodup.2, fun g _ hmem ↦ hperm.mem_iff.2 (List.mem_cons_of_mem n hmem)⟩
    ⟨h.ringNodup, fun _ _ hg ↦ hg⟩ ?_ ?_ ?_ ?_
  · exact { free := fun hmem ↦ by simpa [hloc] using hplaced.free hmem
            queued := fun hmem ↦ absurd hmem hnodup.1
            ring := fun hmem ↦ by simpa [hloc] using hplaced.ring hmem
            posted := fun _ ↦ rfl
            unposted := by simp [TxLoc.posted]
            uncharged := by simp }
  · exact h.ringPosted.set hunposted rfl
  · exact h.ctrlInflight.keep rfl
  · exact h.dataInflight.keep rfl

/-- The link between the return of a completed frame and the refill from the backlog. -/
theorem txOwned_returned (canceled : Bool) (h : TxOwned l) (hf : (l.tx.frames f).loc = .done t) :
    TxOwned (txReturn t f { l with tx := txUnpost f canceled l.tx }).2 ∧ ∀ g ≠ f,
      (txReturn t f { l with tx := txUnpost f canceled l.tx }).2.tx.frames g = l.tx.frames g := by
  obtain ⟨hunpost, hloc, hposted⟩ := txOwned_unpost canceled h hf
  refine ⟨txOwned_return (t := t) hunpost (by simp [hloc, TxLoc.of]) hposted, fun g hg ↦ ?_⟩
  simp only [txReturn, Function.update_of_ne hg, txUnpost]
  split
  · exact Function.update_of_ne hg _ _
  · rfl

/-- What `tbframe_core_tx_complete` does with the backlog: nothing, post its head while the session
is up, or take all of it. -/
theorem txRefill_cases (cfg : LinkCfg) (t : Tid) (l : Link) (canceled : Bool) :
    txRefill cfg t canceled l = (none, [], l.tx) ∨
      (∃ n tx, takeQueued l.tx = some (n, tx) ∧ l.sh.state = .up ∧
        txRefill cfg t canceled l = (some n, [], postTx t n tx)) ∨
      txRefill cfg t canceled l = (none, spliceQueues t l.tx) := by
  unfold txRefill
  split
  · exact .inl rfl
  split
  · next hup =>
    simp only [Bool.and_eq_true, beq_iff_eq] at hup
    split
    · exact .inl rfl
    · next n tx htake => exact .inr (.inl ⟨n, tx, htake, hup.1.2, rfl⟩)
  split
  · exact .inr (.inr rfl)
  · exact .inl rfl

theorem txOwned_complete {canceled : Bool} (h : TxOwned l)
    (hf : (l.tx.frames f).loc = .done t) : TxOwned (txCompleteLocked cfg t f canceled l).2 := by
  obtain ⟨hreturn, -⟩ := txOwned_returned canceled h hf
  obtain heq | ⟨n, tx, htake, -, heq⟩ | heq := txRefill_cases cfg t
    (txReturn t f { l with tx := txUnpost f canceled l.tx }).2 canceled
  all_goals simp only [txCompleteLocked, heq]
  · exact hreturn
  · exact (hreturn.refill htake).2
  · exact hreturn.splice

/-- Every TX section moves frames from one owner to the next. -/
theorem txOwned_tx {o : TxOp} {i : o.Inp} {r : o.Res} (h : TxOwned l)
    (hpre : TxPre t (.held (.tx o)) l) (hrun : o.exec cfg t l i = some (r, l')) : TxOwned l' := by
  cases o with
  | alloc len isCtrl preUp =>
    obtain rfl := link_of_run hrun
    exact txOwned_alloc len isCtrl preUp h
  | build f dir =>
    cases hrun
    have hf : (l.tx.frames f).loc = .held t := hpre.1
    refine h.replace (t := t) (f := f) (by simp [hf, TxLoc.of]) rfl rfl rfl ?_ ?_ ?_ ?_ ?_ ?_
    · simp [hf]
    · simp [hf, TxLoc.posted]
    · exact (h.placed f).unposted
    · exact h.ringPosted.keep rfl
    · exact h.ctrlInflight.keep rfl
    · exact h.dataInflight.keep rfl
  | xmit f preUp =>
    obtain rfl := link_of_run hrun
    exact txOwned_xmit preUp h hpre
  | ringTx f =>
    simp only [TxOp.exec] at hrun
    split at hrun
    · split at hrun <;> cases hrun
      exact txOwned_ringTx h hpre
    · cases hrun
      exact h
  | ringErr f =>
    cases hrun
    exact h.unpost hpre (.inl rfl) rfl rfl rfl rfl rfl rfl
  | refillErr f =>
    cases hrun
    exact h.unpost hpre (.inr rfl) rfl rfl rfl rfl rfl rfl
  | splice =>
    cases hrun
    exact h.splice
  | free f =>
    cases hrun
    have hf : (l.tx.frames f).loc = .held t := hpre
    exact txOwned_return (t := t) h (by simp [hf, TxLoc.of])
      ((h.placed f).not_posted (by simp [hf, TxLoc.posted]) (by simp [hf, TxLoc.returning]))
  | complete f canceled =>
    cases hrun
    exact txOwned_complete h hpre
  | toClient f =>
    obtain rfl := congrArg Prod.snd (Option.some.inj hrun)
    have hf : (l.tx.frames f).loc = .held t := hpre
    refine h.replace (t := t) (f := f) (by simp [hf, TxLoc.of]) rfl rfl rfl ?_ ?_ ?_ ?_ ?_ ?_
    · simp
    · simp [TxLoc.posted]
    · intro hposted
      simpa [hf, TxLoc.posted, TxLoc.returning] using (h.placed f).unposted hposted
    · exact h.ringPosted.keep rfl
    · exact h.ctrlInflight.keep rfl
    · exact h.dataInflight.keep rfl
  | putLink =>
    cases hrun
    exact h

def txView (l : Link) :
    (ℕ → TxFrame) × (List ℕ × List ℕ × List ℕ × List ℕ) × ℕ × ℕ × ℕ :=
  (l.tx.frames, (l.tx.txFree, l.tx.txqCtrl, l.tx.txqData, l.hw.txRing), l.tx.ringPosted,
    l.tx.ctrlInflight, l.tx.dataInflight)

theorem TxOwned.congr (h : TxOwned l) (hview : txView l' = txView l) : TxOwned l' := by
  simp only [txView, Prod.mk.injEq] at hview
  obtain ⟨hframes, ⟨hfree, hctrl, hdata, hring⟩, hposted, hctrlInflight, hdataInflight⟩ := hview
  unfold TxOwned
  constructor
  · rw [hfree]; exact h.freeNodup
  · rw [hctrl, hdata]; exact h.queueNodup
  · rw [hring]; exact h.ringNodup
  · rw [hframes, hfree, hctrl, hdata, hring]; exact h.placed
  · rw [hframes, hposted]; exact h.ringPosted
  · rw [hframes, hctrlInflight]; exact h.ctrlInflight
  · rw [hframes, hdataInflight]; exact h.dataInflight

theorem txView_run {o : Op} {i : o.Inp} {r : o.Res} (h : o.run cfg t i l = some (r, l')) :
    (∃ p : TxOp, o = .held (.tx p)) ∨ txView l' = txView l := by
  cases o with
  | held o =>
    cases o with
    | tx o => exact .inl ⟨o, rfl⟩
    | _ => exact .inr (view_run txView h rfl)
  | _ => exact .inr (view_run txView h rfl)

theorem txOwned_run {o : Op} {i : o.Inp} {r : o.Res} (h : TxOwned l) (hpre : TxPre t o l)
    (hrun : o.run cfg t i l = some (r, l')) : TxOwned l' := by
  obtain ⟨o, rfl⟩ | hview := txView_run hrun
  · exact txOwned_tx h hpre hrun
  · exact h.congr hview

/-- The client hands back a frame it was given. -/
theorem txOwned_takeFromClient (h : TxOwned l) (hbegin : takeFromClient t f l = some l') :
    TxOwned l' ∧ (l'.tx.frames f).loc = .held t := by
  unfold takeFromClient at hbegin
  split at hbegin
  · next hloc =>
    have hplaced := h.placed f
    have hunposted : (l.tx.frames f).hwPosted = false :=
      hplaced.not_posted (by simp [hloc, TxLoc.posted]) (by simp [hloc, TxLoc.returning])
    cases hbegin
    refine ⟨?_, by simp⟩
    refine h.update (f := f) rfl ⟨h.freeNodup, fun _ _ hg ↦ hg⟩ ⟨h.queueNodup, fun _ _ hg ↦ hg⟩
      ⟨h.ringNodup, fun _ _ hg ↦ hg⟩ ?_ ?_ ?_ ?_
    · exact { free := fun hmem ↦ by simpa [hloc] using hplaced.free hmem
              queued := fun hmem ↦ by simpa [hloc] using hplaced.queued hmem
              ring := fun hmem ↦ by simpa [hloc] using hplaced.ring hmem
              posted := by simp [TxLoc.posted]
              unposted := by simp [hunposted]
              uncharged := by simp }
    · exact h.ringPosted.keep rfl
    · exact h.ctrlInflight.keep rfl
    · exact h.dataInflight.keep rfl
  · cases hbegin

/-- The ring hands back a frame it held. -/
theorem txOwned_takeFromTxRing {canceled : Bool} (h : TxOwned l)
    (hbegin : takeFromTxRing t f canceled l = some l') :
    TxOwned l' ∧ (l'.tx.frames f).loc = .done t := by
  unfold takeFromTxRing at hbegin
  split at hbegin
  · next hmem =>
    have hplaced := h.placed f
    have hloc := hplaced.ring hmem.1
    cases hbegin
    refine ⟨?_, by simp⟩
    refine h.update (f := f) rfl ⟨h.freeNodup, fun _ _ hg ↦ hg⟩ ⟨h.queueNodup, fun _ _ hg ↦ hg⟩
      ⟨h.ringNodup.erase f, fun _ _ hg ↦ List.mem_of_mem_erase hg⟩ ?_ ?_ ?_ ?_
    · exact { free := fun hmem ↦ by simpa [hloc] using hplaced.free hmem
              queued := fun hmem ↦ by simpa [hloc] using hplaced.queued hmem
              ring := fun hmem ↦ absurd hmem h.ringNodup.not_mem_erase
              posted := by simp [TxLoc.posted]
              unposted := by simp [TxLoc.returning]
              uncharged := by simp }
    · exact h.ringPosted.keep rfl
    · exact h.ctrlInflight.keep rfl
    · exact h.dataInflight.keep rfl
  · cases hbegin

def Entry.txFrame : Entry → Option ℕ
  | .txComplete f _ | .xmit f | .frameFree f => some f
  | _ => none

theorem txView_begin {e : Entry} (he : e.txFrame = none) (h : e.begin t l = some l') :
    txView l' = txView l := by
  cases e with
  | txComplete f canceled | xmit f | frameFree f => cases he
  | _ =>
    simp only [Entry.begin, startWork, takeFromRxRing, verifyTimerFn] at h
    (repeat' split at h) <;> cases h <;> rfl

theorem txOwned_begin {e : Entry} (h : TxOwned l) (hbegin : e.begin t l = some l') :
    TxOwned l' := by
  cases e with
  | txComplete f canceled => exact (txOwned_takeFromTxRing h hbegin).1
  | xmit f | frameFree f => exact (txOwned_takeFromClient h hbegin).1
  | _ => exact h.congr (txView_begin rfl hbegin)

end Steps

end ThunderboltStack.Tbframe
