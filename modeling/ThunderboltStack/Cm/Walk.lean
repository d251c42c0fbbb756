import ThunderboltStack.Cm.Routers
import ThunderboltStack.Lib.Orbit

/-!
# The walk between two ports

`tb_next_port_on_path` is repeated from a port until it returns `NULL`.  In a tree of routers this
goes up to a router above the end and then down to it: inside a router to the port of the next link,
and over the link on the lane of that port.  The walk needs each lane it goes up on to be linked.
-/

namespace ThunderboltStack.Cm

open ThunderboltStack.Lib

/-- If the upstream port of a router has a second lane adapter, that is linked as well. -/
def LanesLinked (t : Topology) (routers : Set ℕ) (addr : ℕ → List ℕ) : Prop :=
  ∀ sw ∈ routers, addr sw ≠ [] → ∀ q, t.dualLinkPort (t.upstream sw) = some q →
    (t.remote q).isSome

namespace RouterTree

variable {t : Topology} {routers : Set ℕ} {addr : ℕ → List ℕ} (h : RouterTree t routers addr)
variable {src dst p q o l e : Port}

include h

omit h in
theorem nextDown_adjacent (hnext : t.nextDown dst p = some q) :
    p.sw = q.sw ∨ t.remote p = some q := by
  unfold Topology.nextDown at hnext
  split at hnext
  · cases hnext
  next n hport =>
    split at hnext
    · exact Or.inr hnext
    · left
      simp only [Topology.portAt] at hport
      split_ifs at hport
      rw [← Option.some.inj hnext, ← Option.some.inj hport]

theorem nextUp_adjacent (hnext : t.nextUp p = some q) : p.sw = q.sw ∨ t.remote p = some q := by
  unfold Topology.nextUp at hnext
  split at hnext
  · exact Or.inr hnext
  · left
    dsimp only at hnext
    split at hnext
    · rw [← Option.some.inj hnext, Topology.upstream_sw]
    next dual hdual =>
      split at hnext
      · rw [← Option.some.inj hnext, (h.dual_symm _ _ hdual).2.1, Topology.upstream_sw]
      · rw [← Option.some.inj hnext, Topology.upstream_sw]

/-- A step stays on the router or goes over a link. -/
theorem nextPortOnPath_adjacent (hnext : t.nextPortOnPath src dst (some p) = some q) :
    p.sw = q.sw ∨ t.remote p = some q := by
  rw [Topology.nextPortOnPath] at hnext
  split at hnext
  next hsw =>
    split at hnext
    · cases hnext
    · left
      rw [hsw, Option.some.inj hnext]
  next =>
    dsimp only at hnext
    split at hnext
    · split at hnext
      · cases hnext
      · exact nextDown_adjacent hnext
    · split at hnext
      · cases hnext
      · exact h.nextUp_adjacent hnext

omit h in
theorem nextPortOnPath_of_down (hsw : p.sw ≠ dst.sw) (hreach : t.isReachable p.sw dst.sw = true)
    (hnext : t.nextDown dst p = some q) (hne : q ≠ p) :
    t.nextPortOnPath src dst (some p) = some q := by
  rw [Topology.nextPortOnPath, if_neg hsw]
  simp only [hreach, if_true, hnext, Option.some.injEq, hne, if_false]

omit h in
theorem nextPortOnPath_of_up (hsw : p.sw ≠ dst.sw) (hreach : ¬t.isReachable p.sw dst.sw = true)
    (hnext : t.nextUp p = some q) (hne : q ≠ p) :
    t.nextPortOnPath src dst (some p) = some q := by
  rw [Topology.nextPortOnPath, if_neg hsw]
  simp only [hreach, if_false, hnext, Option.some.injEq, hne, Bool.false_eq_true]

/-- From a lane of the next link the walk goes to its other side. -/
theorem nextPortOnPath_cross (src : Port) (hdst : dst.sw ∈ routers)
    (hl : Onward t routers addr dst.sw l e) (hs : SameLink t o l) (hremote : t.remote o = some q) :
    t.nextPortOnPath src dst (some o) = some q ∧ q.sw = e.sw := by
  have hsw : o.sw = l.sw := h.sameLink_sw hs
  have hend : o.sw ≠ dst.sw := hsw ▸ hl.sw_ne_dst
  have hq : q.sw = e.sw :=
    h.sameLink_sw (h.sameLink_remote hs (h.onward_remote hl) hremote)
  have hne : q ≠ o := by
    intro heq
    apply hl.sw_ne
    rw [← hsw, ← hq, heq]
  refine ⟨?_, hq⟩
  cases hl with
  | down hl hway =>
    obtain ⟨hreach, hport⟩ := h.link_route hdst hl hway
    rw [← hsw] at hreach hport
    have hcross : (t.remote o).isSome ∧ (l = o ∨ t.dualLinkPort l = some o) := by
      rw [hremote]
      exact ⟨rfl, hs.imp Eq.symm id⟩
    have hnext : t.nextDown dst o = some q := by
      rw [Topology.nextDown, hport]
      exact (if_pos hcross).trans hremote
    exact nextPortOnPath_of_down hend hreach hnext hne
  | @up _ c hl hway =>
    have hc : o.sw = c := hsw
    have hreach : ¬t.isReachable o.sw dst.sw = true := by
      rw [hc, h.isReachable_iff hl.child hdst]
      exact hway
    have hup : t.isUpstream o = true := by
      rw [isUpstream_iff, hc]
      exact h.sameLink_symm hs
    have hnext : t.nextUp o = some q := by
      simp only [Topology.nextUp, hup, if_true, hremote]
    exact nextPortOnPath_of_up hend hreach hnext hne

/-- Elsewhere on the router the walk goes to a lane of the next link. -/
theorem nextPortOnPath_inside (src : Port) (hlanes : LanesLinked t routers addr)
    (hdst : dst.sw ∈ routers) (hl : Onward t routers addr dst.sw l e) (hsw : p.sw = l.sw)
    (hstay : SameLink t p l → t.remote p = none) :
    ∃ o, SameLink t o l ∧ (t.remote o).isSome ∧ t.nextPortOnPath src dst (some p) = some o := by
  have hend : p.sw ≠ dst.sw := hsw ▸ hl.sw_ne_dst
  have hlink : t.remote l = some e := h.onward_remote hl
  have hpl : p ≠ l := by
    intro heq
    rw [← heq, hstay (Or.inl heq)] at hlink
    cases hlink
  cases hl with
  | down hl hway =>
    obtain ⟨hreach, hport⟩ := h.link_route hdst hl hway
    rw [← hsw] at hreach hport
    have hnot : ¬((t.remote p).isSome ∧ (l = p ∨ t.dualLinkPort l = some p)) := by
      rintro ⟨hsome, hlane⟩
      rw [hstay (hlane.imp Eq.symm id)] at hsome
      cases hsome
    have hnext : t.nextDown dst p = some l := by
      simp only [Topology.nextDown, hport, hnot, if_false]
    refine ⟨l, Or.inl rfl, ?_, nextPortOnPath_of_down hend hreach hnext hpl.symm⟩
    rw [hlink]
    rfl
  | @up _ c hl hway =>
    have hc : p.sw = c := hsw
    have hreach : ¬t.isReachable p.sw dst.sw = true := by
      rw [hc, h.isReachable_iff hl.child hdst]
      exact hway
    have hbelow : addr c ≠ [] := by
      rw [hl.addr_eq]
      simp
    have hlinked : ∀ o, SameLink t o (t.upstream c) → (t.remote o).isSome := by
      rintro o (rfl | hdual)
      · rw [hlink]
        rfl
      · exact hlanes c hl.child hbelow o hdual
    have hother : ¬SameLink t p (t.upstream c) := by
      intro hs
      have hsome := hlinked p hs
      rw [hstay hs] at hsome
      cases hsome
    have hup : ¬t.isUpstream p = true := by
      rw [isUpstream_iff, hc]
      exact fun hs ↦ hother (h.sameLink_symm hs)
    have hnext : ∃ o, t.nextUp p = some o ∧ SameLink t o (t.upstream c) := by
      simp only [Topology.nextUp, hup, hc]
      cases hdual : t.dualLinkPort (t.upstream c) with
      | none => exact ⟨t.upstream c, rfl, Or.inl rfl⟩
      | some dual =>
        by_cases hlane : t.linkNr (t.upstream c) ≠ t.linkNr p
        · exact ⟨dual, if_pos hlane, Or.inr hdual⟩
        · exact ⟨t.upstream c, if_neg hlane, Or.inl rfl⟩
    obtain ⟨o, ho, hs⟩ := hnext
    have hne : o ≠ p := by
      rintro rfl
      exact hother hs
    exact ⟨o, hs, hlinked o hs, nextPortOnPath_of_up hend hreach ho hne⟩

/-! ## The whole walk -/

omit h in
theorem nextPortOnPath_last (hsw : p.sw = dst.sw) (hne : p ≠ dst) :
    t.nextPortOnPath src dst (some p) = some dst := by
  simp [Topology.nextPortOnPath, hsw, hne]

omit h in
theorem nextPortOnPath_end : t.nextPortOnPath src dst (some dst) = none := by
  simp [Topology.nextPortOnPath]

/-- The walk gets to the end from every port. -/
theorem exists_orbit (src : Port) (hlanes : LanesLinked t routers addr) (hdst : dst.sw ∈ routers)
    (hp : p.sw ∈ routers) :
    ∃ ports, Orbit (fun p ↦ t.nextPortOnPath src dst (some p)) p ports ∧
      ports.getLast? = some dst := by
  have hall : ∀ r ∈ routers, ∀ p : Port, p.sw = r →
      ∃ ports, Orbit (fun p ↦ t.nextPortOnPath src dst (some p)) p ports ∧
        ports.getLast? = some dst := by
    refine h.onward_induction hdst ?_ ?_
    · intro p hsw
      by_cases hne : p = dst
      · rw [hne]
        exact ⟨[dst], .stop nextPortOnPath_end, rfl⟩
      · exact ⟨[p, dst], .next (nextPortOnPath_last hsw hne) (.stop nextPortOnPath_end), rfl⟩
    · intro l e hl ih p hsw
      -- from a lane of the link the walk crosses it, and then the induction goes on
      have hcross : ∀ o, SameLink t o l → (t.remote o).isSome →
          ∃ ports, Orbit (fun p ↦ t.nextPortOnPath src dst (some p)) o ports ∧
            ports.getLast? = some dst := by
        intro o hs hsome
        obtain ⟨q, hremote⟩ := Option.isSome_iff_exists.1 hsome
        obtain ⟨hnext, hq⟩ := h.nextPortOnPath_cross src hdst hl hs hremote
        obtain ⟨ports, horbit, hlast⟩ := ih q hq
        refine ⟨o :: ports, .next hnext horbit, ?_⟩
        rw [List.getLast?_cons, hlast, Option.getD_some]
      by_cases hstay : SameLink t p l ∧ (t.remote p).isSome
      · exact hcross p hstay.1 hstay.2
      · have hnone : SameLink t p l → t.remote p = none := by
          intro hs
          by_contra hsome
          exact hstay ⟨hs, Option.isSome_iff_ne_none.2 hsome⟩
        obtain ⟨o, hs, hsome, hnext⟩ :=
          h.nextPortOnPath_inside src hlanes hdst hl hsw hnone
        obtain ⟨ports, horbit, hlast⟩ := hcross o hs hsome
        refine ⟨p :: ports, .next hnext horbit, ?_⟩
        rw [List.getLast?_cons, hlast, Option.getD_some]
  exact hall p.sw hp p rfl

omit h in
/-- The loop over the ports returns the orbit. -/
theorem portsOnPath_of_orbit {ports : List Port} {fuel : ℕ}
    (horbit : Orbit (fun p ↦ t.nextPortOnPath src dst (some p)) p ports)
    (hfuel : ports.length ≤ fuel) : t.portsOnPath src dst fuel (some p) = some ports.tail := by
  induction horbit generalizing fuel with
  | stop hnone =>
    obtain ⟨n, rfl⟩ := Nat.exists_eq_succ_of_ne_zero (Nat.ne_of_gt hfuel)
    simp only [Topology.portsOnPath, hnone, List.tail_cons]
  | @next p q ports hsome hrest ih =>
    rw [List.length_cons] at hfuel
    obtain ⟨n, rfl⟩ := Nat.exists_eq_succ_of_ne_zero (Nat.ne_of_gt (Nat.zero_lt_of_lt hfuel))
    simp only [Topology.portsOnPath, hsome, ih (Nat.le_of_succ_le_succ hfuel), Option.map_some,
      List.tail_cons]
    rw [← List.cons_head?_tail hrest.head?]
    rfl

omit h in
theorem portsOnPath_src {ports : List Port} {fuel : ℕ}
    (horbit : Orbit (fun p ↦ t.nextPortOnPath src dst (some p)) src ports)
    (hfuel : ports.length < fuel) : t.portsOnPath src dst fuel none = some ports := by
  obtain ⟨n, rfl⟩ := Nat.exists_eq_succ_of_ne_zero (Nat.ne_of_gt (Nat.zero_lt_of_lt hfuel))
  have hnone : t.nextPortOnPath src dst none = some src := rfl
  rw [Topology.portsOnPath, hnone]
  simp only [portsOnPath_of_orbit horbit (Nat.le_of_lt_succ hfuel), Option.map_some]
  rw [List.cons_head?_tail horbit.head?]

omit h in
theorem sameLink_eq (hsingle : ∀ p, t.dualLinkPort p = none) (hs : SameLink t p q) : p = q := by
  rcases hs with heq | hdual
  · exact heq
  · rw [hsingle] at hdual
    cases hdual

omit h in
theorem lanesLinked_of_single (hsingle : ∀ p, t.dualLinkPort p = none) :
    LanesLinked t routers addr := by
  intro sw _ _ q hdual
  rw [hsingle] at hdual
  cases hdual

/-- A walk to `dst` that is on a router goes to `q` next: where it ends, or to the link onward. -/
theorem nextPortOnPath_exit (src : Port) (hsingle : ∀ p, t.dualLinkPort p = none)
    (hdst : dst.sw ∈ routers) (hq : q = dst ∨ ∃ e, Onward t routers addr dst.sw q e)
    (hsw : p.sw = q.sw) (hne : p ≠ q) :
    t.nextPortOnPath src dst (some p) = some q := by
  rcases hq with rfl | ⟨e, hl⟩
  · exact nextPortOnPath_last hsw hne
  · have hstay : SameLink t p q → t.remote p = none :=
      fun hs ↦ absurd (sameLink_eq hsingle hs) hne
    obtain ⟨o, hs, -, hnext⟩ :=
      h.nextPortOnPath_inside src (lanesLinked_of_single hsingle) hdst hl hsw hstay
    rw [hnext, sameLink_eq hsingle hs]

/-- Without second lanes the walk the other way leads back from each port to the one before. -/
theorem orbit_back (hsingle : ∀ p, t.dualLinkPort p = none) (hsrc : src.sw ∈ routers)
    (hdst : dst.sw ∈ routers) :
    ∀ r ∈ routers, ∀ (p : Port) (ports : List Port), p.sw = r →
      Between addr src.sw dst.sw r → (p = src ∨ ∃ x, Onward t routers addr src.sw p x) →
      Orbit (fun p ↦ t.nextPortOnPath src dst (some p)) p ports →
      ports.IsChain (fun x y ↦ t.nextPortOnPath dst src (some y) = some x) := by
  refine h.onward_induction hdst ?_ ?_
  · intro p ports hsw _ hback horbit
    by_cases heq : p = dst
    · subst heq
      rw [horbit.unique (.stop nextPortOnPath_end)]
      exact .singleton _
    · rw [horbit.unique (.next (nextPortOnPath_last hsw heq) (.stop nextPortOnPath_end))]
      exact .cons_cons (h.nextPortOnPath_exit dst hsingle hsrc hback hsw.symm (Ne.symm heq))
        (.singleton _)
  · intro l e hl ih p ports hsw hbetween hback horbit
    have hover := (h.nextPortOnPath_cross src hdst hl (Or.inl rfl)
      (h.onward_remote hl)).1
    have hreturn := hl.back hbetween
    -- behind the link the walk back crosses it, before the link it goes to where the walk was
    have hcross : ∀ rest, Orbit (fun p ↦ t.nextPortOnPath src dst (some p)) l rest →
        rest.IsChain (fun x y ↦ t.nextPortOnPath dst src (some y) = some x) := by
      intro rest hrest
      have hafter := (h.nextPortOnPath_cross dst hsrc hreturn (Or.inl rfl)
        (h.onward_remote hreturn)).1
      exact hrest.isChain_of_next hover hafter fun rest' hrest' ↦
        ih e rest' rfl (hl.between hbetween) (Or.inr ⟨l, hreturn⟩) hrest'
    by_cases heq : p = l
    · subst heq
      exact hcross ports horbit
    · have hin := h.nextPortOnPath_exit src hsingle hdst (Or.inr ⟨e, hl⟩) hsw heq
      have hout := h.nextPortOnPath_exit dst hsingle hsrc hback hsw.symm (Ne.symm heq)
      exact horbit.isChain_of_next hin hout hcross

end RouterTree

section Walk

variable {t : Topology} {routers : Set ℕ} {addr : ℕ → List ℕ} {src dst : Port}

/-- In a tree of routers whose upstream lanes are all linked, the walk from a port to another one
starts and ends there, goes from port to port of a router or over a link, and comes to no port
twice.  Without second lanes the walk the other way is the reverse. -/
theorem port_walk (h : RouterTree t routers addr) (hlanes : LanesLinked t routers addr)
    (hsrc : src.sw ∈ routers) (hdst : dst.sw ∈ routers) :
    ∃ ports : List Port,
      (∀ fuel, ports.length < fuel → t.portsOnPath src dst fuel none = some ports) ∧
      ports.head? = some src ∧ ports.getLast? = some dst ∧
      ports.IsChain (fun p q ↦ p.sw = q.sw ∨ t.remote p = some q) ∧ ports.Nodup ∧
      ((∀ p, t.dualLinkPort p = none) →
        ∀ fuel, ports.length < fuel → t.portsOnPath dst src fuel none = some ports.reverse) := by
  obtain ⟨ports, horbit, hlast⟩ := h.exists_orbit src hlanes hdst hsrc
  refine ⟨ports, fun fuel hfuel ↦ RouterTree.portsOnPath_src horbit hfuel, horbit.head?, hlast,
    ?_, horbit.nodup, ?_⟩
  · exact horbit.isChain.imp fun _ _ hnext ↦ h.nextPortOnPath_adjacent hnext
  · intro hsingle fuel hfuel
    have hchain := h.orbit_back hsingle hsrc hdst src.sw hsrc src ports rfl Between.left
      (Or.inl rfl) horbit
    have hreverse := horbit.reverse hlast hchain RouterTree.nextPortOnPath_end
    exact RouterTree.portsOnPath_src hreverse (by rwa [List.length_reverse])

end Walk

/-- A device at port 1 of the host.  Its upstream port may have a second lane adapter, which has no
counterpart on the host. -/
def hostAndDevice (secondLane : Bool) : Topology where
  route sw := sw
  depth sw := sw
  upstreamPort sw := sw
  maxPort _ := 4
  remote p := if p = ⟨0, 1⟩ then some ⟨1, 1⟩ else if p = ⟨1, 1⟩ then some ⟨0, 1⟩ else none
  dualLinkPort p :=
    if secondLane ∧ p = ⟨1, 1⟩ then some ⟨1, 2⟩
    else if secondLane ∧ p = ⟨1, 2⟩ then some ⟨1, 1⟩ else none
  linkNr p := if p.num = 2 then 1 else 0
  bonded _ := false
  isNhi p := p = ⟨0, 0⟩
  maxInHopId _ := 15
  maxOutHopId _ := 15

theorem hostAndDevice_tree (secondLane : Bool) :
    RouterTree (hostAndDevice secondLane) {0, 1} (fun sw ↦ List.replicate sw 1) where
  route := by rintro sw (rfl | rfl) <;> rfl
  depth := by rintro sw (rfl | rfl) <;> rfl
  digit := by rintro sw (rfl | rfl) <;> decide
  short := by rintro sw (rfl | rfl) <;> decide
  inj := by
    intro sw _ sw' _ heq
    simpa using congrArg List.length heq
  parent := by
    rintro sw (rfl | rfl) hne
    · exact absurd rfl hne
    · exact ⟨⟨0, 1⟩, by simp, by simp, rfl, by decide +revert, rfl, by cases secondLane <;> decide⟩
  remote_symm := by
    intro p q hremote
    simp only [hostAndDevice] at hremote ⊢
    split_ifs at hremote with hp hp'
    · simp [← Option.some.inj hremote, hp]
    · simp [← Option.some.inj hremote, hp']
  dual_symm := by
    intro p q hdual
    simp only [hostAndDevice] at hdual ⊢
    split_ifs at hdual with hp hp'
    · simp [← Option.some.inj hdual, hp]
    · simp [← Option.some.inj hdual, hp']
  dual_lane := by
    intro p q p' q' hremote hdual hremote'
    simp only [hostAndDevice] at hremote hdual hremote'
    split_ifs at hdual with hp hp'
    · simp [← Option.some.inj hdual] at hremote'
    · simp [hp'] at hremote

theorem port_walk_device :
    ∃ ports : List Port,
      (∀ fuel, ports.length < fuel →
        (hostAndDevice false).portsOnPath ⟨1, 3⟩ ⟨0, 3⟩ fuel none = some ports) ∧
      ports.head? = some ⟨1, 3⟩ ∧ ports.getLast? = some ⟨0, 3⟩ ∧
      ports.IsChain (fun p q ↦ p.sw = q.sw ∨ (hostAndDevice false).remote p = some q) ∧
      ports.Nodup ∧
      ((∀ p, (hostAndDevice false).dualLinkPort p = none) →
        ∀ fuel, ports.length < fuel →
          (hostAndDevice false).portsOnPath ⟨0, 3⟩ ⟨1, 3⟩ fuel none = some ports.reverse) :=
  port_walk (hostAndDevice_tree false)
    (RouterTree.lanesLinked_of_single fun p ↦ by simp [hostAndDevice]) (by simp) (by simp)

/-- From a second lane adapter that leads nowhere the walk up ends where it starts. -/
theorem port_walk_unlinked_lane :
    ∃ (t : Topology) (routers : Set ℕ) (addr : ℕ → List ℕ) (src dst : Port),
      RouterTree t routers addr ∧ src.sw ∈ routers ∧ dst.sw ∈ routers ∧
      (∀ fuel, 1 < fuel → t.portsOnPath src dst fuel none = some [src]) ∧ src ≠ dst := by
  refine ⟨hostAndDevice true, {0, 1}, _, ⟨1, 2⟩, ⟨0, 3⟩, hostAndDevice_tree true, by simp,
    by simp, ?_, by decide⟩
  intro fuel hfuel
  have hstop : (hostAndDevice true).nextPortOnPath ⟨1, 2⟩ ⟨0, 3⟩ (some ⟨1, 2⟩) = none := by
    decide +kernel
  exact RouterTree.portsOnPath_src (.stop hstop) hfuel

end ThunderboltStack.Cm
