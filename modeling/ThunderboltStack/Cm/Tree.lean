import ThunderboltStack.Cm.Walk

/-!
# Walks in a tree of routers

The routers of a domain form a tree: a router is reached from the host by the downstream ports on
the way, and these are the bytes of its route.  Links may have two lanes, each with its own pair of
ports.  `tb_next_port_on_path` walks from a port to another one, and `tb_path_alloc` follows it with
the lanes it prefers; both go through the same routers.
-/

namespace ThunderboltStack.Cm

open ThunderboltStack.Lib

/-- A topology that `tb_scan_port` and `tb_configure_link` build, with the routers `routers`.  `addr`
is the list of the downstream ports from the host to a router. -/
structure IsTree (t : Topology) (routers : Set ℕ) (addr : ℕ → List ℕ) : Prop where
  route : ∀ sw ∈ routers, t.route sw = Nat.ofDigits 256 (addr sw)
  depth : ∀ sw ∈ routers, t.depth sw = (addr sw).length
  digit : ∀ sw ∈ routers, ∀ n ∈ addr sw, 0 < n ∧ n < 2 ^ 6
  /-- `TB_SWITCH_MAX_DEPTH`. -/
  short : ∀ sw ∈ routers, (addr sw).length ≤ 6
  inj : ∀ sw ∈ routers, ∀ sw' ∈ routers, addr sw = addr sw' → sw = sw'
  /-- A router below the host is linked to a downstream port, and only the primary lane of a link is
  scanned. -/
  parent : ∀ sw ∈ routers, addr sw ≠ [] → ∃ p : Port, p.sw ∈ routers ∧
    addr sw = addr p.sw ++ [p.num] ∧ p.num ≤ t.maxPort p.sw ∧
    t.remote p = some (t.upstream sw) ∧ t.isUpstream p = false ∧ t.linkNr p = 0
  remote_symm : ∀ p q, t.remote p = some q → t.remote q = some p
  /-- The two sides of a lane agree. -/
  lane : ∀ p q, t.remote p = some q → t.bonded q = t.bonded p ∧ t.linkNr q = t.linkNr p
  dual_symm : ∀ p q, t.dualLinkPort p = some q →
    t.dualLinkPort q = some p ∧ q.sw = p.sw ∧ t.bonded q = t.bonded p
  dual_linkNr : ∀ p q, t.dualLinkPort p = some q → t.linkNr p + t.linkNr q = 1
  /-- The second lanes of a link are linked if both sides have one, and only then. -/
  dual_lane : ∀ p q p' q', t.remote p = some q → t.dualLinkPort p = some p' →
    (t.dualLinkPort q = some q' ↔ t.remote p' = some q')
  /-- Port numbers have six bits. -/
  upstream_num : ∀ sw ∈ routers, t.upstreamPort sw < 2 ^ 6
  dual_num : ∀ p q, t.dualLinkPort p = some q → q.num < 2 ^ 6
  /-- HopIDs have eleven bits. -/
  hopid : ∀ p, t.maxOutHopId p < 2 ^ 11

/-- If one side of a link has a second lane, so has the other. -/
def Topology.Paired (t : Topology) : Prop :=
  ∀ p q p', t.remote p = some q → t.dualLinkPort p = some p' → (t.dualLinkPort q).isSome

structure PairedTree (t : Topology) (routers : Set ℕ) (addr : ℕ → List ℕ) : Prop
    extends IsTree t routers addr where
  paired : t.Paired

/-- A port at the end of a path: it and the other lane of its link lead to no router. -/
structure IsEnd (t : Topology) (routers : Set ℕ) (p : Port) : Prop where
  sw : p.sw ∈ routers
  num : p.num < 2 ^ 6
  remote : t.remote p = none
  dual : ∀ q, t.dualLinkPort p = some q → t.remote q = none

namespace PairedTree

variable {t : Topology} {routers : Set ℕ} {addr : ℕ → List ℕ} (h : PairedTree t routers addr)

include h

theorem dual_remote {p q p' : Port} (hremote : t.remote p = some q)
    (hdual : t.dualLinkPort p = some p') :
    ∃ q', t.dualLinkPort q = some q' ∧ t.remote p' = some q' := by
  obtain ⟨q', hq'⟩ := Option.isSome_iff_exists.1 (h.paired p q p' hremote hdual)
  exact ⟨q', hq', (h.dual_lane p q p' q' hremote hdual).1 hq'⟩

theorem routerTree : RouterTree t routers addr where
  route := h.route
  depth := h.depth
  digit := by
    intro sw hsw n hn
    have hdigit := h.digit sw hsw n hn
    omega
  short := h.short
  inj := h.inj
  parent := by
    intro sw hsw hne
    obtain ⟨p, hmem, haddr, hnum, hremote, hdown, -⟩ := h.parent sw hsw hne
    exact ⟨p, hmem, hsw, haddr, hnum, hremote, hdown⟩
  remote_symm := h.remote_symm
  dual_symm := by
    intro p q hdual
    refine ⟨(h.dual_symm p q hdual).1, (h.dual_symm p q hdual).2.1, ?_⟩
    rintro rfl
    have hlanes := h.dual_linkNr _ _ hdual
    omega
  dual_lane := by
    intro p q p' q' hremote hdual hremote'
    exact (h.dual_lane p q p' q' hremote hdual).2 hremote'

theorem lanesLinked : LanesLinked t routers addr := by
  intro sw hsw hne q hdual
  obtain ⟨p, -, -, -, hremote, -⟩ := h.parent sw hsw hne
  obtain ⟨q', -, hq⟩ := h.dual_remote (h.remote_symm _ _ hremote) hdual
  rw [hq]
  rfl

theorem sameLink_of_common {p q r : Port} (hq : SameLink t p q) (hr : SameLink t p r) :
    SameLink t q r := by
  rcases h.routerTree.sameLink_symm hq with heq | hdual
  · exact heq ▸ hr
  · exact h.routerTree.sameLink_dual hr hdual

/-- The other lane of a link leads to the other lane of the other side. -/
theorem sameLink_remote {p q q' : Port} (hs : SameLink t p q) (hq : t.remote q = some q') :
    ∃ p', t.remote p = some p' ∧ SameLink t p' q' := by
  rcases hs with rfl | hdual
  · exact ⟨q', hq, Or.inl rfl⟩
  · obtain ⟨p', hp', hremote⟩ := h.dual_remote hq hdual
    exact ⟨p', hremote, Or.inr hp'⟩

omit h in
theorem isEnd_of_sameLink {p q : Port} (hend : IsEnd t routers q) (hs : SameLink t p q) :
    t.remote p = none := by
  rcases hs with rfl | hdual
  · exact hend.remote
  · exact hend.dual _ hdual

end PairedTree

/-! ## Steps between routers -/

/-- The downstream port `p` is linked to router `c`. -/
structure Linked (t : Topology) (routers : Set ℕ) (addr : ℕ → List ℕ) (p : Port) (c : ℕ) :
    Prop where
  parent : p.sw ∈ routers
  child : c ∈ routers
  addr_eq : addr c = addr p.sw ++ [p.num]
  num_le : p.num ≤ t.maxPort p.sw
  remote : t.remote p = some (t.upstream c)
  downstream : t.isUpstream p = false
  primary : t.linkNr p = 0

theorem Linked.link {t : Topology} {routers : Set ℕ} {addr : ℕ → List ℕ} {p : Port} {c : ℕ}
    (hl : Linked t routers addr p c) : Link t routers addr p c :=
  ⟨hl.parent, hl.child, hl.addr_eq, hl.num_le, hl.remote, hl.downstream⟩

/-- The port of the next link on the way to router `dst`, and its other side. -/
inductive Toward (t : Topology) (routers : Set ℕ) (addr : ℕ → List ℕ) (dst : ℕ) : Port → Port → Prop
  | down {p : Port} {c : ℕ} :
      Linked t routers addr p c → addr c <+: addr dst → Toward t routers addr dst p (t.upstream c)
  | up {p : Port} {c : ℕ} :
      Linked t routers addr p c → ¬addr c <+: addr dst → Toward t routers addr dst (t.upstream c) p

theorem Toward.onward {t : Topology} {routers : Set ℕ} {addr : ℕ → List ℕ} {dst : ℕ} {l e : Port}
    (hl : Toward t routers addr dst l e) : Onward t routers addr dst l e := by
  cases hl with
  | down hl hway => exact .down hl.link hway
  | up hl hway => exact .up hl.link hway

/-- A port by which a path to router `dst` enters a router: where it starts, or where a link on the
way ends. -/
inductive Arrives (t : Topology) (routers : Set ℕ) (addr : ℕ → List ℕ) (dst : ℕ) : Port → Prop
  | start {p : Port} : t.remote p = none → Arrives t routers addr dst p
  | link {p l e : Port} :
      Toward t routers addr dst l e → SameLink t p e → Arrives t routers addr dst p

/-- Router `dst` is so many links away. -/
inductive Route (t : Topology) (routers : Set ℕ) (addr : ℕ → List ℕ) (dst : ℕ) : ℕ → ℕ → Prop
  | here : Route t routers addr dst dst 0
  | next {l e : Port} {n : ℕ} : Toward t routers addr dst l e → Route t routers addr dst e.sw n →
      Route t routers addr dst l.sw (n + 1)

namespace PairedTree

variable {t : Topology} {routers : Set ℕ} {addr : ℕ → List ℕ} (h : PairedTree t routers addr)
variable {src dst p o l e : Port} {c : ℕ}

include h

theorem linked_parent {sw : ℕ} (hsw : sw ∈ routers) (hne : addr sw ≠ []) :
    ∃ p, Linked t routers addr p sw := by
  obtain ⟨p, hmem, haddr, hnum, hremote, hdown, hprimary⟩ := h.parent sw hsw hne
  exact ⟨p, hmem, hsw, haddr, hnum, hremote, hdown, hprimary⟩

/-- A path does not go back over the link by which it arrived. -/
theorem arrives_ne (harr : Arrives t routers addr dst.sw p)
    (hl : Toward t routers addr dst.sw l e) :
    ¬SameLink t p l := by
  intro hs
  obtain ⟨p', hremote, -⟩ := h.sameLink_remote hs (h.routerTree.onward_remote hl.onward)
  cases harr with
  | start hnone =>
    rw [hnone] at hremote
    cases hremote
  | @link l' e' hl' hs' =>
    have hsame := h.sameLink_of_common hs' hs
    cases hl' with
    | @down _ c' hl' hdst' =>
      cases hl with
      | down hl hdst =>
        have hup : SameLink t (t.upstream l.sw) l := by
          rw [← h.routerTree.sameLink_sw hsame]
          exact hsame
        have hdown := hl.downstream
        rw [isUpstream_iff.2 hup] at hdown
        cases hdown
      | @up _ c hl hdst =>
        have heq : c' = c := h.routerTree.sameLink_sw hsame
        exact hdst (heq ▸ hdst')
    | @up p' c' hl' hdst' =>
      cases hl with
      | down hl hdst =>
        rcases hsame with rfl | hdual
        · exact hdst' (hl'.addr_eq.trans hl.addr_eq.symm ▸ hdst)
        · have hlanes := h.dual_linkNr _ _ hdual
          rw [hl.primary, hl'.primary] at hlanes
          cases hlanes
      | @up _ c hl hdst =>
        have hup : SameLink t (t.upstream e'.sw) e' := by
          have hsw : e'.sw = c := h.routerTree.sameLink_sw hsame
          rw [hsw]
          exact h.routerTree.sameLink_symm hsame
        have hdown := hl'.downstream
        rw [isUpstream_iff.2 hup] at hdown
        cases hdown

/-- Inside a router the walk goes from the port it entered by to the next link. -/
theorem nextPortOnPath_in (src : Port) (hdst : dst.sw ∈ routers)
    (harr : Arrives t routers addr dst.sw p) (hl : Toward t routers addr dst.sw l e)
    (hsw : p.sw = l.sw) :
    ∃ o, t.nextPortOnPath src dst (some p) = some o ∧ SameLink t o l := by
  have hstay : SameLink t p l → t.remote p = none := fun hs ↦ absurd hs (h.arrives_ne harr hl)
  obtain ⟨o, hs, -, hnext⟩ :=
    h.routerTree.nextPortOnPath_inside src h.lanesLinked hdst hl.onward hsw hstay
  exact ⟨o, hnext, hs⟩

/-- From the next link the walk goes to its other side, on the lane it is on. -/
theorem nextPortOnPath_out (src : Port) (hdst : dst.sw ∈ routers)
    (hl : Toward t routers addr dst.sw l e) (hs : SameLink t o l) :
    ∃ p, t.remote o = some p ∧ t.nextPortOnPath src dst (some o) = some p ∧ SameLink t p e := by
  obtain ⟨p, hremote, hp⟩ := h.sameLink_remote hs (h.routerTree.onward_remote hl.onward)
  have hnext := h.routerTree.nextPortOnPath_cross src hdst hl.onward hs hremote
  exact ⟨p, hremote, hnext.1, hp⟩

/-- Below a router that is above the destination there is another one. -/
theorem exists_below {r sw : ℕ} (hr : r ∈ routers) (hsw : sw ∈ routers) (hne : r ≠ sw)
    (hway : addr r <+: addr sw) :
    ∃ l c, Linked t routers addr l c ∧ l.sw = r ∧ addr c <+: addr sw := by
  obtain ⟨rest, hrest⟩ := hway
  cases rest with
  | nil =>
    rw [List.append_nil] at hrest
    exact absurd (h.inj r hr sw hsw hrest) hne
  | cons n rest =>
    have hfront : addr r ++ [n] <+: addr sw := ⟨rest, by rw [← hrest]; simp⟩
    obtain ⟨c, hc, haddr⟩ := h.routerTree.exists_above hsw hfront
    obtain ⟨p, hp⟩ := h.linked_parent hc (by simp [haddr])
    have hsame : addr p.sw = addr r ∧ [p.num] = [n] :=
      List.append_inj' (hp.addr_eq.symm.trans haddr) rfl
    exact ⟨p, c, hp, h.inj _ hp.parent r hr hsame.1, haddr ▸ hfront⟩

/-- The way down. -/
theorem exists_route_down {r sw : ℕ} (hr : r ∈ routers) (hsw : sw ∈ routers)
    (hway : addr r <+: addr sw) :
    ∃ n, Route t routers addr sw r n ∧ n + (addr r).length = (addr sw).length := by
  induction hgap : (addr sw).length - (addr r).length generalizing r with
  | zero =>
    have heq : addr r = addr sw := by
      apply hway.eq_of_length
      have hle := hway.length_le
      omega
    rw [h.inj r hr sw hsw heq]
    exact ⟨0, .here, by simp⟩
  | succ k ih =>
    have hne : r ≠ sw := by
      rintro rfl
      simp at hgap
    obtain ⟨l, c, hl, rfl, hc⟩ := h.exists_below hr hsw hne hway
    have hlen := congrArg List.length hl.addr_eq
    rw [List.length_append, List.length_singleton] at hlen
    obtain ⟨n, hroute, hn⟩ := ih hl.child hc (by omega)
    exact ⟨n + 1, .next (.down hl hc) hroute, by omega⟩

/-- There is a way from every router to every other one, and it has at most thirteen routers. -/
theorem exists_route {r sw : ℕ} (hr : r ∈ routers) (hsw : sw ∈ routers) :
    ∃ n, Route t routers addr sw r n ∧ n ≤ 12 := by
  have hway : ∃ n, Route t routers addr sw r n ∧ n ≤ (addr r).length + (addr sw).length := by
    induction hlen : (addr r).length generalizing r with
    | zero =>
      have hnil := List.eq_nil_of_length_eq_zero hlen
      obtain ⟨n, hroute, hn⟩ := h.exists_route_down hr hsw (hnil ▸ List.nil_prefix)
      exact ⟨n, hroute, by omega⟩
    | succ k ih =>
      by_cases hway : addr r <+: addr sw
      · obtain ⟨n, hroute, hn⟩ := h.exists_route_down hr hsw hway
        exact ⟨n, hroute, by omega⟩
      · have hne : addr r ≠ [] := fun hnil ↦ hway (hnil ▸ List.nil_prefix)
        obtain ⟨p, hp⟩ := h.linked_parent hr hne
        have hadd := congrArg List.length hp.addr_eq
        rw [List.length_append, List.length_singleton] at hadd
        obtain ⟨n, hroute, hn⟩ := ih hp.parent (by omega)
        exact ⟨n + 1, .next (.up hp hway) hroute, by omega⟩
  obtain ⟨n, hroute, hn⟩ := hway
  have hr6 := h.short r hr
  have hsw6 := h.short sw hsw
  exact ⟨n, hroute, by omega⟩

omit h in
theorem portsOnPath_of_next {fuel : ℕ} {prev : Option Port} {ports : List Port}
    (hnext : t.nextPortOnPath src dst prev = some p)
    (hports : t.portsOnPath src dst fuel prev = some ports) :
    ∃ fuel' rest, t.portsOnPath src dst fuel' (some p) = some rest ∧ ports = p :: rest := by
  cases fuel with
  | zero => cases hports
  | succ fuel =>
    simp only [Topology.portsOnPath, hnext] at hports
    obtain ⟨rest, hrest, heq⟩ := Option.map_eq_some_iff.1 hports
    exact ⟨fuel, rest, hrest, heq.symm⟩

omit h in
theorem portsOnPath_of_end {fuel : ℕ} {ports : List Port}
    (hports : t.portsOnPath src dst fuel (some dst) = some ports) : ports = [] := by
  cases fuel with
  | zero => cases hports
  | succ fuel => simpa [Topology.portsOnPath, Topology.nextPortOnPath, eq_comm] using hports

/-- A walk goes through two ports of every router on the way. -/
theorem length_portsOnPath {n fuel : ℕ} {ports : List Port} (hdst : IsEnd t routers dst)
    (hroute : Route t routers addr dst.sw p.sw n) (harr : Arrives t routers addr dst.sw p)
    (hne : p ≠ dst) (hports : t.portsOnPath src dst fuel (some p) = some ports) :
    ports.length = 2 * n + 1 := by
  generalize hr : p.sw = r at hroute
  induction hroute generalizing p fuel ports with
  | here =>
    have hlast : t.nextPortOnPath src dst (some p) = some dst := by
      simp [Topology.nextPortOnPath, hr, hne]
    obtain ⟨fuel', rest, hrest, rfl⟩ := portsOnPath_of_next hlast hports
    rw [portsOnPath_of_end hrest]
    rfl
  | @next l e n hl _ ih =>
    obtain ⟨o, ho, hs⟩ := h.nextPortOnPath_in src hdst.sw harr hl hr
    obtain ⟨q, hremote, hq, hqe⟩ := h.nextPortOnPath_out src hdst.sw hl hs
    obtain ⟨fuel', rest, hrest, rfl⟩ := portsOnPath_of_next ho hports
    obtain ⟨fuel'', rest', hrest', rfl⟩ := portsOnPath_of_next hq hrest
    have hqdst : q ≠ dst := by
      intro heq
      have hback := h.remote_symm _ _ hremote
      rw [heq, hdst.remote] at hback
      cases hback
    have hlen := ih (.link hl hqe) hqdst hrest' (h.routerTree.sameLink_sw hqe)
    simp only [List.length_cons, hlen]
    omega

/-- The number of hops of a path between two ends is the number of routers on the way. -/
theorem numHops_eq {a : PathArgs} {n fuel numHops : ℕ} {ports : List Port}
    (ht : a.t = t) (hsrc : IsEnd t routers a.src) (hdst : IsEnd t routers a.dst)
    (hroute : Route t routers addr a.dst.sw a.src.sw n) (hne : a.src ≠ a.dst)
    (hports : a.t.portsOnPath a.src a.dst fuel none = some ports)
    (hnum : numHopsOf a ports = some numHops) : numHops = n + 1 := by
  subst ht
  obtain ⟨fuel', rest, hrest, rfl⟩ := portsOnPath_of_next (p := a.src) rfl hports
  have hlen := h.length_portsOnPath hdst hroute (.start hsrc.remote) hne hrest
  unfold numHopsOf at hnum
  split at hnum
  · have heq := Option.some.inj hnum
    rw [List.length_cons, hlen] at heq
    omega
  · cases hnum

end PairedTree

/-! ## The hops of an allocation -/

inductive Leads (t : Topology) : List Hop → Prop
  | last {hop : Hop} : hop.outPort.sw = hop.inPort.sw → t.remote hop.outPort = none → Leads t [hop]
  | cons {hop next : Hop} {rest : List Hop} : hop.outPort.sw = hop.inPort.sw →
      t.remote hop.outPort = some next.inPort → hop.nextHopIndex = next.inHopIndex →
      Leads t (next :: rest) → Leads t (hop :: next :: rest)

/-- The HopIDs and the port number of a hop are ones that its ports and its entry have. -/
structure InRange (t : Topology) (hop : Hop) : Prop where
  num : hop.outPort.num < 2 ^ 6
  inLow : t.isNhi hop.inPort = true ∨ 8 ≤ hop.inHopIndex
  inHigh : hop.inHopIndex ≤ t.maxInHopId hop.inPort
  outLow : t.isNhi hop.outPort = true ∨ 8 ≤ hop.nextHopIndex
  outHigh : hop.nextHopIndex ≤ t.maxOutHopId hop.outPort

section Alloc

variable {t : Topology} {ids : Hopids} {port p o q : Port} {isIn mem : Bool} {lo hi inHopid : ℤ}
variable {h n i numHops inId outId : ℕ} {a : PathArgs} {outPort : Option Port} {hops : List Hop}

/-- A HopID that is given is in the range asked for and in that of the port. -/
theorem portAllocHopid_range (halloc : t.portAllocHopid ids port isIn lo hi mem = some h) :
    (t.isNhi port = true ∨ 8 ≤ h) ∧ lo ≤ h ∧ (0 ≤ hi → h ≤ hi) ∧
      h ≤ if isIn then t.maxInHopId port else t.maxOutHopId port := by
  unfold Topology.portAllocHopid at halloc
  cases mem with
  | false => simp at halloc
  | true =>
    simp only [if_true] at halloc
    obtain ⟨hge, hle⟩ := Idas.allocRange_range halloc
    have hlow : t.isNhi port = true ∨ 8 ≤ h := by
      cases hnhi : t.isNhi port
      · simp only [hnhi, Bool.not_false, true_and] at hge
        split_ifs at hge <;> omega
      · exact Or.inl rfl
    have hlo : lo ≤ h := by split_ifs at hge <;> omega
    have hhi : 0 ≤ hi → (h : ℤ) ≤ hi := by split_ifs at hle <;> omega
    have hmax : (h : ℤ) ≤ if isIn then (t.maxInHopId port : ℤ) else t.maxOutHopId port := by
      split_ifs at hle ⊢ <;> omega
    refine ⟨hlow, hlo, hhi, ?_⟩
    split_ifs at hmax ⊢ <;> omega

/-- The only HopID of a range is allocated again where it is free. -/
theorem portAllocHopid_self (hfree : ids (isIn, port) h = false)
    (hlow : t.isNhi port = true ∨ 8 ≤ h)
    (hhigh : h ≤ if isIn then t.maxInHopId port else t.maxOutHopId port) :
    t.portAllocHopid ids port isIn h h true = some h := by
  have hlo : (if !t.isNhi port ∧ (h : ℤ) < 8 then 8 else (h : ℤ)) = h := by
    apply if_neg
    rintro ⟨hnhi, hlt⟩
    rcases hlow with hlow | hlow
    · simp [hlow] at hnhi
    · omega
  have hhi : (if (h : ℤ) < 0 ∨
      (if isIn then (t.maxInHopId port : ℤ) else t.maxOutHopId port) < h then
        (if isIn then (t.maxInHopId port : ℤ) else t.maxOutHopId port) else (h : ℤ)) = h := by
    apply if_neg
    cases isIn <;> simp at hhigh ⊢ <;> omega
  unfold Topology.portAllocHopid
  simp only [if_true, hlo, hhi]
  exact Idas.allocRange_self hfree

/-- The loop puts the hops it fills in behind those it is given. -/
theorem allocHops_append (a : PathArgs) (numHops n i : ℕ) (ids : Hopids) (inHopid : ℤ)
    (outPort : Option Port) (hops : List Hop) :
    (allocHops a numHops n i ids inHopid outPort hops).hops =
        hops ++ (allocHops a numHops n i ids inHopid outPort []).hops ∧
      (allocHops a numHops n i ids inHopid outPort hops).done =
        (allocHops a numHops n i ids inHopid outPort []).done := by
  induction n generalizing i ids inHopid outPort hops with
  | zero => simp [allocHops]
  | succ n ih =>
    rw [allocHops, allocHops]
    cases hin : hopIn a ids i inHopid outPort with
    | none => simp
    | some inHop =>
      cases hout : hopOut a (ids.mark (true, inHop.1) inHop.2 true) numHops i inHop.1 with
      | none => simp [hout]
      | some outHop =>
        simp only [hout, List.nil_append]
        rw [(ih _ _ _ _ (hops ++ _)).1, (ih _ _ _ _ (hops ++ _)).2, (ih _ _ _ _ [_]).1,
          (ih _ _ _ _ [_]).2, List.append_assoc]
        exact ⟨rfl, rfl⟩

/-- A loop that gets to its end fills in a first hop and goes on behind it. -/
theorem allocHops_succ
    (hdone : (allocHops a numHops (n + 1) i ids inHopid outPort []).done = true) :
    ∃ inPort inId o outId, hopIn a ids i inHopid outPort = some (inPort, inId) ∧
      hopOut a (ids.mark (true, inPort) inId true) numHops i inPort = some (o, outId) ∧
      let ids' := (ids.mark (true, inPort) inId true).mark (false, o) outId true
      (allocHops a numHops n (i + 1) ids' outId (some o) []).done = true ∧
        (allocHops a numHops (n + 1) i ids inHopid outPort []).hops =
          ⟨inPort, inId, o, outId⟩ ::
            (allocHops a numHops n (i + 1) ids' outId (some o) []).hops := by
  obtain ⟨inHop, outHop, hin, hout, heq⟩ := allocHops_done_succ hdone
  rw [heq, List.nil_append] at hdone ⊢
  rw [(allocHops_append ..).2] at hdone
  refine ⟨inHop.1, inHop.2, outHop.1, outHop.2, hin, hout, hdone, ?_⟩
  rw [(allocHops_append ..).1]
  rfl

/-- The HopIDs of an allocation are distinct and were free. -/
theorem allocHops_nodup
    (hdone : (allocHops a numHops n i ids inHopid outPort []).done = true) :
    ((allocHops a numHops n i ids inHopid outPort []).hops.flatMap Hop.hopids).Nodup ∧
      ∀ k m, (k, m) ∈ (allocHops a numHops n i ids inHopid outPort []).hops.flatMap Hop.hopids →
        ids k m = false := by
  induction n generalizing i ids inHopid outPort with
  | zero => simp [allocHops]
  | succ n ih =>
    obtain ⟨p, inId, o, outId, hin, hout, hrest, heq⟩ := allocHops_succ hdone
    obtain ⟨hnodup, hfree⟩ := ih hrest
    have hmark : ∀ (ids : Hopids) k m k' m', (ids.mark k m true) k' m' = false →
        ids k' m' = false ∧ (k', m') ≠ (k, m) := by
      intro ids k m k' m' hm
      unfold Idas.mark at hm
      split at hm
      next => cases hm
      next hne => exact ⟨hm, fun heq ↦ hne (Prod.mk.inj heq)⟩
    have hrestFree := fun k m hmem ↦ hmark _ _ _ _ _ (hfree k m hmem)
    have hbothFree := fun k m hmem ↦ hmark _ _ _ _ _ (hrestFree k m hmem).1
    have houtFree := hmark _ _ _ _ _ (hopOut_free hout)
    rw [heq, List.flatMap_cons]
    constructor
    · rw [Hop.hopids, List.cons_append, List.cons_append, List.nil_append, List.nodup_cons,
        List.nodup_cons]
      refine ⟨?_, ?_, hnodup⟩
      · intro hmem
        rcases List.mem_cons.1 hmem with heq | hmem
        · cases (Prod.mk.inj (Prod.mk.inj heq).1).1
        · exact (hbothFree _ _ hmem).2 rfl
      · intro hmem
        exact (hrestFree _ _ hmem).2 rfl
    · intro k m hmem
      rcases List.mem_append.1 hmem with hhere | hmem
      · simp only [Hop.hopids, List.mem_cons, List.not_mem_nil, or_false] at hhere
        rcases hhere with heq | heq
        · obtain ⟨rfl, rfl⟩ := Prod.mk.inj heq
          exact hopIn_free hin
        · obtain ⟨rfl, rfl⟩ := Prod.mk.inj heq
          exact houtFree.1
      · exact (hbothFree k m hmem).1

theorem hopIn_inv (hin : hopIn a ids i inHopid outPort = some (p, inId)) :
    ∃ q, a.t.nextPortOnPath a.src a.dst outPort = some q ∧ p = a.t.inPortOf a.linkNr q ∧
      (a.t.isNhi p = true ∨ 8 ≤ inId) ∧ inId ≤ a.t.maxInHopId p ∧
      (0 ≤ inHopid → (inId : ℤ) = inHopid) := by
  unfold hopIn at hin
  split at hin
  · cases hin
  next q hq =>
    obtain ⟨h', halloc, heq⟩ := Option.map_eq_some_iff.1 hin
    obtain ⟨rfl, rfl⟩ := Prod.mk.inj heq
    obtain ⟨hlow, hge, hle, hmax⟩ := portAllocHopid_range halloc
    refine ⟨q, hq, rfl, hlow, hmax, ?_⟩
    intro hpos
    have hle := hle hpos
    omega

theorem hopOut_inv (hout : hopOut a ids numHops i p = some (o, outId)) :
    ∃ q, a.t.nextPortOnPath a.src a.dst (some p) = some q ∧ o = a.t.outPortOf a.linkNr p q ∧
      (a.t.isNhi o = true ∨ 8 ≤ outId) ∧ outId ≤ a.t.maxOutHopId o := by
  unfold hopOut at hout
  split at hout
  · cases hout
  next q hq =>
    obtain ⟨h', halloc, heq⟩ := Option.map_eq_some_iff.1 hout
    obtain ⟨rfl, rfl⟩ := Prod.mk.inj heq
    obtain ⟨hlow, -, -, hmax⟩ := portAllocHopid_range halloc
    exact ⟨q, hq, rfl, hlow, hmax⟩

end Alloc

namespace PairedTree

variable {t : Topology} {routers : Set ℕ} {addr : ℕ → List ℕ} (h : PairedTree t routers addr)
variable {p q o r : Port} {linkNr : ℕ}

include h

omit h in
/-- The output port is a lane of the link the walk takes. -/
theorem outPortOf_sameLink : SameLink t (t.outPortOf linkNr p q) q := by
  unfold Topology.outPortOf
  split
  · exact Or.inl rfl
  next dual hdual =>
    split
    · exact Or.inr hdual
    · split
      · exact Or.inr hdual
      · exact Or.inl rfl

/-- Of two lanes the output port is bonded or the preferred one. -/
theorem outPortOf_lane {dual : Port} (hlink : linkNr < 2) (hdual : t.dualLinkPort q = some dual) :
    t.bonded (t.outPortOf linkNr p q) = true ∨ t.linkNr (t.outPortOf linkNr p q) = linkNr := by
  have hlanes := h.dual_linkNr _ _ hdual
  simp only [Topology.outPortOf, hdual]
  split
  next hboth =>
    left
    rw [(h.dual_symm _ _ hdual).2.2]
    exact hboth.2.1
  next =>
    split
    next hother =>
      right
      have hne := hother.2
      omega
    next hstay =>
      rw [not_and_or, not_not] at hstay
      exact hstay.imp (fun hb ↦ by simpa using hb) id

/-- The input port of the next hop stays on the lane of the output port. -/
theorem inPortOf_remote (hlink : linkNr < 2)
    (hremote : t.remote (t.outPortOf linkNr p q) = some r) : t.inPortOf linkNr r = r := by
  have hlane := h.lane _ _ hremote
  unfold Topology.inPortOf
  split
  · rfl
  next dual hdual =>
    apply if_neg
    rintro ⟨hbonded, hnr⟩
    obtain ⟨d, hd, -⟩ := h.dual_remote (h.remote_symm _ _ hremote) hdual
    cases hq : t.dualLinkPort q with
    | none =>
      simp only [Topology.outPortOf, hq] at hd
      cases hd
    | some dq =>
      rcases h.outPortOf_lane (p := p) hlink hq with hb | hl
      · rw [hlane.1, hb] at hbonded
        cases hbonded
      · exact hnr (hlane.2.trans hl)

omit h in
theorem inPortOf_sameLink : SameLink t (t.inPortOf linkNr q) q := by
  unfold Topology.inPortOf
  split
  · exact Or.inl rfl
  next dual hdual =>
    split
    · exact Or.inr hdual
    · exact Or.inl rfl

/-- Ports of the next link have numbers of six bits. -/
theorem toward_num {dst : ℕ} {l e : Port} (hl : Toward t routers addr dst l e)
    (hs : SameLink t o l) : o.num < 2 ^ 6 := by
  rcases hs with rfl | hdual
  · cases hl with
    | @down _ c hl _ =>
      have hmem : o.num ∈ addr c := by
        rw [hl.addr_eq]
        simp
      exact (h.digit c hl.child _ hmem).2
    | up hl _ => exact h.upstream_num _ hl.child
  · exact h.dual_num _ _ hdual

theorem end_num {dst : Port} (hdst : IsEnd t routers dst) (hs : SameLink t o dst) :
    o.num < 2 ^ 6 := by
  rcases hs with rfl | hdual
  · exact hdst.num
  · exact h.dual_num _ _ hdual

/-- The hops of an allocation lead from the port it enters by to the destination. -/
theorem allocHops_leads {a : PathArgs} {n i numHops : ℕ} {ids : Hopids} {inHopid : ℤ}
    {outPort : Option Port} (ht : a.t = t) (hlink : a.linkNr < 2) (hdst : IsEnd t routers a.dst)
    (hroute : Route t routers addr a.dst.sw p.sw n) (harr : Arrives t routers addr a.dst.sw p)
    (henter : ∀ q, a.t.nextPortOnPath a.src a.dst outPort = some q → a.t.inPortOf a.linkNr q = p)
    (hdone : (allocHops a numHops (n + 1) i ids inHopid outPort []).done = true) :
    Leads t (allocHops a numHops (n + 1) i ids inHopid outPort []).hops ∧
      (∀ hop ∈ (allocHops a numHops (n + 1) i ids inHopid outPort []).hops, InRange t hop) ∧
      ∃ hop, (allocHops a numHops (n + 1) i ids inHopid outPort []).hops.head? = some hop ∧
        hop.inPort = p ∧ (0 ≤ inHopid → (hop.inHopIndex : ℤ) = inHopid) := by
  subst ht
  generalize hr : p.sw = r at hroute
  induction hroute generalizing p i ids inHopid outPort with
  | here =>
    obtain ⟨p', inId, o, outId, hin, hout, -, heq⟩ := allocHops_succ hdone
    obtain ⟨q, hq, hp, hinLow, hinHigh, hinId⟩ := hopIn_inv hin
    obtain rfl : p' = p := hp.trans (henter q hq)
    obtain ⟨q', hq', ho, houtLow, houtHigh⟩ := hopOut_inv hout
    have hlast : q' = a.dst := by
      simp only [Topology.nextPortOnPath, hr, if_true] at hq'
      split at hq'
      · cases hq'
      · exact (Option.some.inj hq').symm
    have hs : SameLink a.t o a.dst := by
      rw [ho, hlast]
      exact outPortOf_sameLink
    have hend : (allocHops a numHops 0 (i + 1)
        ((ids.mark (true, p') inId true).mark (false, o) outId true) outId (some o) []).hops = [] :=
      rfl
    rw [heq, hend]
    refine ⟨.last ((h.routerTree.sameLink_sw hs).trans hr.symm) (isEnd_of_sameLink hdst hs), ?_, _,
      rfl, rfl, hinId⟩
    intro hop hmem
    rw [List.mem_singleton.1 hmem]
    exact ⟨h.end_num hdst hs, hinLow, hinHigh, houtLow, houtHigh⟩
  | @next l e n hl hrest ih =>
    obtain ⟨p', inId, o, outId, hin, hout, hdone', heq⟩ := allocHops_succ hdone
    obtain ⟨q, hq, hp, hinLow, hinHigh, hinId⟩ := hopIn_inv hin
    obtain rfl : p' = p := hp.trans (henter q hq)
    obtain ⟨q', hq', ho, houtLow, houtHigh⟩ := hopOut_inv hout
    obtain ⟨q'', hq'', hs'⟩ := h.nextPortOnPath_in a.src hdst.sw harr hl hr
    obtain rfl : q' = q'' := Option.some.inj (hq'.symm.trans hq'')
    have hs : SameLink a.t o l := by
      have hlane : SameLink a.t o q' := ho ▸ outPortOf_sameLink
      rcases hlane with hsame | hdual
      · exact hsame ▸ hs'
      · exact h.routerTree.sameLink_dual hs' hdual
    obtain ⟨next, hremote, hnext, hne⟩ := h.nextPortOnPath_out a.src hdst.sw hl hs
    have hstay : a.t.inPortOf a.linkNr next = next := by
      apply h.inPortOf_remote hlink
      rw [← ho]
      exact hremote
    have henter' : ∀ q, a.t.nextPortOnPath a.src a.dst (some o) = some q →
        a.t.inPortOf a.linkNr q = next := by
      intro q hq
      rw [← Option.some.inj (hnext.symm.trans hq), hstay]
    obtain ⟨hleads, hrange, hop, hhead, hport, hid⟩ :=
      ih henter' hdone' (.link hl hne) (h.routerTree.sameLink_sw hne)
    have hsw : o.sw = p'.sw := (h.routerTree.sameLink_sw hs).trans hr.symm
    rw [heq]
    obtain ⟨rest, hhops⟩ : ∃ rest, (allocHops a numHops (n + 1) (i + 1)
        ((ids.mark (true, p') inId true).mark (false, o) outId true) outId (some o) []).hops =
          hop :: rest := by
      cases hlist : (allocHops a numHops (n + 1) (i + 1)
        ((ids.mark (true, p') inId true).mark (false, o) outId true) outId (some o) []).hops with
      | nil =>
        rw [hlist] at hhead
        cases hhead
      | cons first rest =>
        rw [hlist] at hhead
        exact ⟨rest, by rw [Option.some.inj hhead]⟩
    rw [hhops] at hleads hrange ⊢
    refine ⟨.cons hsw (hport ▸ hremote) ?_ hleads, ?_, _, rfl, rfl, hinId⟩
    · have hnat := hid (by omega)
      exact (Int.natCast_inj.1 hnat).symm
    · intro hop' hmem
      rcases List.mem_cons.1 hmem with rfl | hmem
      · exact ⟨h.toward_num hl hs, hinLow, hinHigh, houtLow, houtHigh⟩
      · exact hrange hop' hmem

end PairedTree

end ThunderboltStack.Cm
