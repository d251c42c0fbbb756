import ThunderboltStack.Tbframe.Delivery
import ThunderboltStack.Tbframe.FramePool
import ThunderboltStack.Tbframe.Pairing

/-!
# The life of a link

What the disciplines of the link core say together, in every interleaving of its threads: who may
change a session, what an established session rests on, how one generation follows another, when a
link may be released, and that a destroyed link never takes up anything again.
-/

namespace ThunderboltStack.Tbframe

open ThunderboltStack.Lib Machine

variable {cfg : LinkCfg} {c c' : (linkMachine cfg).Config} {s : (linkMachine cfg).Label}

/-- Data-race freedom of the session: a step that changes a session field is a session section, and
the thread that executes it holds `session_lock` before and after it. -/
theorem session_changes_locked (hc : (linkMachine cfg).system.Reachable c)
    (hstep : (linkMachine cfg).Step c s c') (hchange : c'.state.sess ≠ c.state.sess) :
    ∃ t o i, s = .exec t (.held (.sess o)) i ∧ c.state.ctl.sessionLock = some t ∧
      c'.state.ctl.sessionLock = some t := by
  have hlock := (lock_verified cfg).with_step (hc.mono fun _ _ _ ↦ trivial) trivial hstep
  cases hstep with
  | start _ henter =>
    exact absurd (view_begin (·.sess) (enter_eq_some henter).2.1 rfl) hchange
  | finish => exact absurd rfl hchange
  | @exec t o k i r l' _ hrun =>
    have hrun : o.run cfg t i c.state = some (r, l') := hrun
    cases o with
    | held o =>
      have hrun : o.run cfg t i c.state = some (r, l') := hrun
      obtain ⟨o, rfl⟩ | howned := owned_held hrun
      · exact ⟨t, o, i, rfl, hlock.2.2, (held_run_lock hrun).trans hlock.2.2⟩
      · exact absurd (congrArg Prod.fst howned) hchange
    | _ => exact absurd (view_run (·.sess) hrun rfl) hchange

set_option maxRecDepth 10000 in
/-- A session step opens the first generation. -/
theorem opens_sample : ∃ c s c', (linkMachine (sampleCfg .b)).system.Reachable c ∧
    (linkMachine (sampleCfg .b)).Step c s c' ∧
    c'.state.sess.dataGeneration = c.state.sess.dataGeneration + 1 := by
  obtain ⟨c, hc, hgoal⟩ := System.Exec.reach_of_play (linkMachine (sampleCfg .b)).exec
    (fun _ _ ↦ true)
    (fun c ↦ (Machine.act c sessionAct).any fun x ↦
      x.2.state.sess.dataGeneration == c.state.sess.dataGeneration + 1)
    ((connectSchedule 1 2).take 10) (Machine.init_idle ⟨50, 0, true, rfl⟩) (by decide +kernel)
  simp only [beq_iff_eq, Option.any_eq_true] at hgoal
  obtain ⟨⟨s, c'⟩, hact, hgen⟩ := hgoal
  exact ⟨c, s, c', hc.mono fun _ _ _ ↦ trivial, Machine.act_sound hact, hgen⟩

theorem session_changes_locked_sample : ∃ c s c' t,
    (linkMachine (sampleCfg .b)).system.Reachable c ∧
    (linkMachine (sampleCfg .b)).Step c s c' ∧ c'.state.sess ≠ c.state.sess ∧
    c.state.ctl.sessionLock = some t := by
  obtain ⟨c, s, c', hc, hstep, hgen⟩ := opens_sample
  have hchange : c'.state.sess ≠ c.state.sess := fun h ↦ by simp [h] at hgen
  obtain ⟨t, -, -, -, hlock, -⟩ := session_changes_locked hc hstep hchange
  exact ⟨c, s, c', t, hc, hstep, hchange, hlock⟩

/-- What a link that is UP rests on: the HELLO exchange is done, a data generation is open with its
rings started and running, no down is under way, and the backend's paths lead to the HopID that
the peer announced. -/
theorem up_established (hc : (linkMachine cfg).system.Reachable c) (hup : c.state.sh.state = .up) :
    c.state.sess.helloDone ∧ c.state.his.genOpen ∧ c.state.sess.ringsUp ∧ c.state.hw.running ∧
      c.state.his.downing = false ∧ c.state.hw.paths = some c.state.sess.remote.hopid := by
  have hphased := ((step_verified cfg).sound (disciplined_reach hc)).1.phased
  have hstocked := ((pair_verified cfg).sound (stepped_reach hc)).1
  have hlossless : Lossless c.state := ((ring_verified cfg).sound
    ((settled_reach (G := fun _ _ ↦ True) hc).mono fun _ _ h ↦ h.2)).1
  obtain ⟨hrings, henabled⟩ := hphased.up hup
  have hopen := hphased.ringsOpen hrings
  have hhello := hphased.openHello hopen
  have hdowning : c.state.his.downing = false :=
    Bool.eq_false_iff.2 fun h ↦ by simp [hphased.downing h] at hhello
  refine ⟨hhello, hopen, hrings, ?_, hdowning, ?_⟩
  · exact Bool.of_not_eq_false fun hstopped ↦ hlossless.spent (hlossless.stopped hstopped) hup
  · rw [← hstocked.remote henabled hhello]
    refine hstocked.enabled.resolve_left ?_
    rintro (hidle | hidle)
    · exact Bool.false_ne_true (hidle.symm.trans henabled)
    · exact Bool.false_ne_true (hdowning.symm.trans hidle)

theorem up_established_sample : ∃ c, (linkMachine (sampleCfg .b)).system.Reachable c ∧
    c.state.sh.state = .up ∧ c.state.hw.paths = some c.state.sess.remote.hopid := by
  obtain ⟨c, s, c', hc, hstep, -, hup, -⟩ := publishes_sample
  have hc' : (linkMachine (sampleCfg .b)).system.Reachable c' := .next hc trivial hstep
  obtain ⟨-, -, -, -, -, hpaths⟩ := up_established hc' hup
  exact ⟨c', hc', hup, hpaths⟩

/-- How one data generation follows another.  A step either opens the next generation, which only
the holder of `session_lock` does, over rings that are stopped and empty and have no callback
running; or it keeps the generation, and as long as the generation stays open, the peer's identity
and the cookie that the link announced stay as they are. -/
theorem generation_succession (hc : (linkMachine cfg).system.Reachable c)
    (hstep : (linkMachine cfg).Step c s c') :
    (∃ t i, s = .exec t (.held (.sess .bringUpBegin)) i ∧ c.state.ctl.sessionLock = some t ∧
      RingsIdle c.state ∧ c'.state.sess.dataGeneration = c.state.sess.dataGeneration + 1) ∨
    c'.state.sess.dataGeneration = c.state.sess.dataGeneration ∧
      (c'.state.his.genOpen → c.state.his.genOpen ∧
        c'.state.sess.remote = c.state.sess.remote ∧
        c'.state.sess.localCookie = c.state.sess.localCookie) := by
  cases hstep with
  | start _ henter =>
    have howned : owned _ = owned c.state := view_begin owned (enter_eq_some henter).2.1 rfl
    refine .inr ((continues_of_owned howned).resolve_left fun hnext ↦ ?_)
    have hsame := congrArg (·.1.dataGeneration) howned
    exact Nat.succ_ne_self _ (hnext.symm.trans hsame)
  | finish => exact .inr ⟨rfl, fun hopen ↦ ⟨hopen, rfl, rfl⟩⟩
  | @exec t o k i r l' hthread hrun =>
    have hringed := ringed_step hc (.exec hthread hrun)
    by_cases ho : o = .held (.sess .bringUpBegin)
    · subst ho
      have hidle : RingPre (.held (.sess .bringUpBegin)) c.state := hringed.2.2
      have hlock : LockPre t (.held (.sess .bringUpBegin)) c.state := hringed.1.1.1.1.2.2
      obtain rfl := link_of_run hrun
      exact .inl ⟨t, i, rfl, hlock, hidle nofun, rfl⟩
    · obtain ⟨hG, hI, hpre⟩ := stepped_step hc (.exec hthread hrun)
      have hgen : l'.sess.dataGeneration = c.state.sess.dataGeneration := generation_run hrun ho
      obtain hnext | hsame := continues_move (.exec hI hpre hG hrun)
      · omega
      · exact .inr hsame

theorem generation_succession_sample : ∃ c s c',
    (linkMachine (sampleCfg .b)).system.Reachable c ∧
    (linkMachine (sampleCfg .b)).Step c s c' ∧ RingsIdle c.state ∧
    c'.state.sess.dataGeneration = c.state.sess.dataGeneration + 1 := by
  obtain ⟨c, s, c', hc, hstep, hgen⟩ := opens_sample
  obtain ⟨-, -, -, -, hidle, -⟩ | ⟨hsame, -⟩ := generation_succession hc hstep
  · exact ⟨c, s, c', hc, hstep, hidle, hgen⟩
  · omega

/-- A link is released at the right moment: a reference is dropped only while one is counted, and
once the count is zero, which is what `tbframe_link_destroy` waits for, the creator's reference is
gone, every frame is back in its pool and no dispatch or frame return is under way. -/
theorem references_balanced (hc : (linkMachine cfg).system.Reachable c) :
    (∀ t o i c', (linkMachine cfg).Step c (.exec t o i) c' →
      o = .held (.tx .putLink) ∨ o = .held (.rx .putLink) ∨ o = .putLink ∨ o = .putCreated →
        c'.state.ctl.refcnt + 1 = c.state.ctl.refcnt) ∧
    (c.state.ctl.refcnt = 0 → c.state.his.created = false ∧
      c.state.tx.txFree.length = cfg.tf.ringEntries.toNat ∧
      c.state.rx.rxFree.length = cfg.tf.ringEntries.toNat ∧
      c.state.his.dispatching = [] ∧ c.state.his.returning = []) := by
  have hcounted := counted_reach hc
  have hpooled := ((pool_verified cfg).sound hcounted).1
  have htxFree := hpooled.tx.free_le
  have hrxFree := hpooled.rx.free_le ((rx_verified cfg).sound hc).1
  have hrefs := hpooled.refs
  unfold RefCounted at hrefs
  refine ⟨fun t o i c' hstep hput ↦ ?_, fun hzero ↦ ?_⟩
  · have hpre : RefPre t o c.state := (ref_verified cfg).pre hc trivial hstep
    have hpos : 0 < c.state.ctl.refcnt := by
      obtain rfl | rfl | rfl | rfl := hput
      · have := List.length_pos_of_mem (show t ∈ c.state.his.returning from hpre)
        omega
      · have := List.length_pos_of_mem (show t ∈ c.state.his.returning from hpre)
        omega
      · have := List.length_pos_of_mem (show t ∈ c.state.his.dispatching from hpre)
        omega
      · rw [hpre.2] at hrefs
        simp only [Bool.toNat_true] at hrefs
        omega
    obtain _ | ⟨-, hrun⟩ := hstep
    obtain rfl | rfl | rfl | rfl := hput <;> cases hrun <;> exact Nat.sub_add_cancel hpos
  · rw [hzero] at hrefs
    refine ⟨Bool.toNat_eq_zero.1 (by omega), by omega, by omega, ?_, ?_⟩
    · exact List.eq_nil_of_length_eq_zero (by omega)
    · exact List.eq_nil_of_length_eq_zero (by omega)

set_option maxRecDepth 10000 in
/-- The cable is pulled and the link removed, up to the end of the wait for its references. -/
theorem removed_sample : ∃ c, (linkMachine (sampleCfg .b)).system.Reachable c ∧
    c.state.his.vacated = true ∧ c.state.ctl.refcnt = 0 := by
  obtain ⟨c, hc, hgoal⟩ := System.Exec.reach_of_play (linkMachine (sampleCfg .b)).exec
    (fun _ _ ↦ true) (fun c ↦ c.state.his.vacated && c.state.ctl.refcnt == 0)
    removeSchedule (Machine.init_idle ⟨50, 0, true, rfl⟩) (by decide +kernel)
  simp only [Bool.and_eq_true, beq_iff_eq] at hgoal
  exact ⟨c, hc.mono fun _ _ _ ↦ trivial, hgoal⟩

theorem references_balanced_removed : ∃ c, (linkMachine (sampleCfg .b)).system.Reachable c ∧
    c.state.ctl.refcnt = 0 ∧ c.state.his.created = false ∧ c.state.his.returning = [] := by
  obtain ⟨c, hc, -, hzero⟩ := removed_sample
  obtain ⟨hcreated, -, -, -, hreturning⟩ := (references_balanced hc).2 hzero
  exact ⟨c, hc, hzero, hcreated, hreturning⟩

/-- Once a down under removal left nothing behind, so it stays in every continuation of the run:
the link holds no rings, in-HopID or paths, and no thread asks for or gives up any of them. -/
theorem vacated_silent {c₁ : (linkMachine cfg).Config}
    (hc : (linkMachine cfg).system.Reachable c) (hvacated : c.state.his.vacated = true)
    (hrun : Relation.ReflTransGen (fun a b ↦ ∃ s, (linkMachine cfg).Step a s b) c c₁) :
    c₁.state.hw.Vacant ∧
      ∀ t o i c', ¬ (linkMachine cfg).Step c₁ (.exec t (.held (.sess (.asset o))) i) c' := by
  have hsystem : (linkMachine cfg).system.Reachable c₁ ∧ c₁.state.his.vacated = true := by
    induction hrun with
    | refl => exact ⟨hc, hvacated⟩
    | tail _ hstep ih =>
      obtain ⟨s, hstep⟩ := hstep
      refine ⟨.next ih.1 trivial hstep, ?_⟩
      cases hstep with
      | start _ henter => exact (ages_begin (enter_eq_some henter).2.1).vacated ih.2
      | exec _ hexec => exact (ages_run hexec).vacated ih.2
      | finish => exact ih.2
  obtain ⟨hreach, hlast⟩ := hsystem
  obtain ⟨-, -, hrings, hhopids, hpaths⟩ :=
    ((pair_verified cfg).sound (stepped_reach hreach)).1.vacated hlast
  refine ⟨⟨hrings, hhopids, hpaths⟩, fun t o i c' hstep ↦ ?_⟩
  have hpre : AssetPre o c₁.state := (paired_step hreach hstep).2.2
  have hpaired := hpre.paired
  cases o with
  | allocRings | allocInHopid | enablePaths =>
    exact Bool.false_ne_true ((hpre.present rfl).symm.trans hlast)
  | disablePaths | quarantinePaths => simp [AssetOp.Paired, hpaths] at hpaired
  | freeRings => simp [AssetOp.Paired, hrings] at hpaired
  | releaseInHopid => simp [AssetOp.Paired, hhopids] at hpaired

theorem vacated_silent_removed : ∃ c, (linkMachine (sampleCfg .b)).system.Reachable c ∧
    c.state.his.vacated = true ∧ c.state.hw.Vacant := by
  obtain ⟨c, hc, hvacated, -⟩ := removed_sample
  exact ⟨c, hc, hvacated, (vacated_silent hc hvacated .refl).1⟩

end ThunderboltStack.Tbframe
