import ThunderboltStack.Cm.Path
import Mathlib.Data.Nat.Digits.Defs

/-!
# Trees of routers

The routers of a domain form a tree: a router is reached from the host by the downstream ports on
the way, and these are the bytes of its route.  The ports of a router are linked in pairs, and a
link may have two lanes, each with an adapter of its own on either side.
-/

namespace ThunderboltStack.Cm

open ThunderboltStack.Lib

/-- The downstream port `p` leads to router `c`. -/
structure Link (t : Topology) (routers : Set ℕ) (addr : ℕ → List ℕ) (p : Port) (c : ℕ) :
    Prop where
  parent : p.sw ∈ routers
  child : c ∈ routers
  addr_eq : addr c = addr p.sw ++ [p.num]
  num_le : p.num ≤ t.maxPort p.sw
  remote : t.remote p = some (t.upstream c)
  downstream : t.isUpstream p = false

/-- A tree with the routers `routers`.  `addr` is the list of the downstream ports from the host to
a router. -/
structure RouterTree (t : Topology) (routers : Set ℕ) (addr : ℕ → List ℕ) : Prop where
  route : ∀ sw ∈ routers, t.route sw = Nat.ofDigits 256 (addr sw)
  depth : ∀ sw ∈ routers, t.depth sw = (addr sw).length
  digit : ∀ sw ∈ routers, ∀ n ∈ addr sw, 0 < n ∧ n < 256
  /-- `TB_SWITCH_MAX_DEPTH`. -/
  short : ∀ sw ∈ routers, (addr sw).length ≤ 6
  inj : ∀ sw ∈ routers, ∀ sw' ∈ routers, addr sw = addr sw' → sw = sw'
  parent : ∀ sw ∈ routers, addr sw ≠ [] → ∃ p, Link t routers addr p sw
  remote_symm : ∀ p q, t.remote p = some q → t.remote q = some p
  dual_symm : ∀ p q, t.dualLinkPort p = some q → t.dualLinkPort q = some p ∧ q.sw = p.sw ∧ q ≠ p
  /-- The lanes of a link lead to the lanes of its other side. -/
  dual_lane : ∀ p q p' q', t.remote p = some q → t.dualLinkPort p = some p' →
    t.remote p' = some q' → t.dualLinkPort q = some q'

/-- A port is another one, or the other lane of its link. -/
def SameLink (t : Topology) (p q : Port) : Prop := p = q ∨ t.dualLinkPort q = some p

@[simp] theorem Topology.upstream_sw (t : Topology) (sw : ℕ) : (t.upstream sw).sw = sw := rfl

theorem isUpstream_iff {t : Topology} {p : Port} :
    t.isUpstream p = true ↔ SameLink t (t.upstream p.sw) p := by
  rw [Topology.isUpstream, Bool.or_eq_true, beq_iff_eq, beq_iff_eq, SameLink, eq_comm]

theorem ofDigits_inj {l l' : List ℕ} (hl : ∀ n ∈ l, 0 < n ∧ n < 256)
    (hl' : ∀ n ∈ l', 0 < n ∧ n < 256) (heq : Nat.ofDigits 256 l = Nat.ofDigits 256 l') :
    l = l' := by
  have hback : ∀ k : List ℕ, (∀ n ∈ k, 0 < n ∧ n < 256) →
      Nat.digits 256 (Nat.ofDigits 256 k) = k := by
    intro k hk
    apply Nat.digits_ofDigits 256 (by decide) k fun n hn ↦ (hk n hn).2
    intro hne
    exact (hk _ (List.getLast_mem hne)).1.ne'
  rw [← hback l hl, ← hback l' hl', heq]

namespace RouterTree

variable {t : Topology} {routers : Set ℕ} {addr : ℕ → List ℕ} (h : RouterTree t routers addr)

include h

theorem sameLink_symm {p q : Port} (hs : SameLink t p q) : SameLink t q p := by
  rcases hs with rfl | hdual
  · exact Or.inl rfl
  · exact Or.inr (h.dual_symm _ _ hdual).1

theorem sameLink_sw {p q : Port} (hs : SameLink t p q) : p.sw = q.sw := by
  rcases hs with rfl | hdual
  · rfl
  · exact (h.dual_symm _ _ hdual).2.1

theorem sameLink_dual {p q p' : Port} (hs : SameLink t p q) (hdual : t.dualLinkPort p = some p') :
    SameLink t p' q := by
  rcases hs with rfl | hq
  · exact Or.inr hdual
  · have hback := (h.dual_symm _ _ hq).1
    rw [hdual] at hback
    exact Or.inl (Option.some.inj hback)

/-- The other lane of a link, if it is linked, leads to a lane of the other side. -/
theorem sameLink_remote {p q p' q' : Port} (hs : SameLink t p q) (hq : t.remote q = some q')
    (hp : t.remote p = some p') : SameLink t p' q' := by
  rcases hs with rfl | hdual
  · exact Or.inl (Option.some.inj (hp.symm.trans hq))
  · exact Or.inr (h.dual_lane _ _ _ _ hq hdual hp)

/-- A router can reach those below it. -/
theorem isReachable_iff {r sw : ℕ} (hr : r ∈ routers) (hsw : sw ∈ routers) :
    t.isReachable r sw = true ↔ addr r <+: addr sw := by
  have hpow : 2 ^ (8 * (addr r).length) = 256 ^ (addr r).length := by rw [Nat.pow_mul]
  have htake : ∀ s ∈ routers, t.route s % 2 ^ (8 * t.depth r) =
      Nat.ofDigits 256 ((addr s).take (addr r).length) := by
    intro s hs
    rw [h.route s hs, h.depth r hr, hpow]
    exact Nat.ofDigits_mod_pow_eq_ofDigits_take _ (by decide) _ (fun n hn ↦ (h.digit s hs n hn).2)
  rw [Topology.isReachable, beq_iff_eq, htake r hr, htake sw hsw, List.take_length]
  constructor
  · intro heq
    have hlist := ofDigits_inj (h.digit r hr)
      (fun n hn ↦ h.digit sw hsw n (List.mem_of_mem_take hn)) heq
    exact hlist ▸ List.take_prefix _ _
  · rintro ⟨rest, hrest⟩
    rw [← hrest]
    simp

/-- The byte of a route at the depth of a router is the port towards the destination. -/
theorem portAt_eq {r sw n : ℕ} {rest : List ℕ} (hr : r ∈ routers) (hsw : sw ∈ routers)
    (haddr : addr sw = addr r ++ n :: rest) (hmax : n ≤ t.maxPort r) :
    t.portAt (t.route sw) r = some ⟨r, n⟩ := by
  have hpow : 2 ^ (8 * (addr r).length) = 256 ^ (addr r).length := by rw [Nat.pow_mul]
  have hdrop : t.route sw / 2 ^ (8 * t.depth r) = n + 256 * Nat.ofDigits 256 rest := by
    rw [h.route sw hsw, h.depth r hr, hpow, Nat.ofDigits_div_pow_eq_ofDigits_drop _ (by decide) _
      (fun n hn ↦ (h.digit sw hsw n hn).2), haddr, List.drop_left, Nat.ofDigits_cons]
  have hn : n < 256 := by
    have hmem : n ∈ addr sw := by rw [haddr]; simp
    exact (h.digit sw hsw n hmem).2
  have hnum : t.route sw / 2 ^ (8 * t.depth r) % 2 ^ 8 = n := by
    rw [hdrop]
    omega
  rw [Topology.portAt]
  simp only [hnum]
  rw [if_neg (by omega)]

/-- A router above the destination reaches it by the port that its route says. -/
theorem link_route {l : Port} {c dst : ℕ} (hdst : dst ∈ routers) (hl : Link t routers addr l c)
    (hway : addr c <+: addr dst) :
    t.isReachable l.sw dst = true ∧ t.portAt (t.route dst) l.sw = some l := by
  have habove : addr l.sw <+: addr c := hl.addr_eq ▸ List.prefix_append _ _
  obtain ⟨rest, hrest⟩ := hway
  have haddr : addr dst = addr l.sw ++ l.num :: rest := by
    rw [← hrest, hl.addr_eq, List.append_assoc, List.singleton_append]
  exact ⟨(h.isReachable_iff hl.parent hdst).2 (habove.trans ⟨rest, hrest⟩),
    h.portAt_eq hl.parent hdst haddr hl.num_le⟩

/-- Every router above a router is there. -/
theorem exists_above {sw : ℕ} (hsw : sw ∈ routers) {front : List ℕ} (hfront : front <+: addr sw) :
    ∃ r ∈ routers, addr r = front := by
  induction hlen : (addr sw).length generalizing sw with
  | zero =>
    have hnil := List.eq_nil_of_length_eq_zero hlen
    rw [hnil] at hfront
    exact ⟨sw, hsw, by rw [hnil, List.prefix_nil.1 hfront]⟩
  | succ n ih =>
    have hne : addr sw ≠ [] := by
      intro hnil
      simp [hnil] at hlen
    obtain ⟨p, hp⟩ := h.parent sw hsw hne
    rw [hp.addr_eq] at hfront
    rcases List.prefix_concat_iff.1 hfront with heq | hshort
    · exact ⟨sw, hsw, by rw [hp.addr_eq, heq]⟩
    · apply ih hp.parent hshort
      have hadd := congrArg List.length hp.addr_eq
      rw [hlen, List.length_append, List.length_singleton] at hadd
      omega

/-- Below a router that is above the destination there is another one. -/
theorem exists_below {r sw : ℕ} (hr : r ∈ routers) (hsw : sw ∈ routers) (hne : r ≠ sw)
    (hway : addr r <+: addr sw) :
    ∃ l c, Link t routers addr l c ∧ l.sw = r ∧ addr c <+: addr sw := by
  obtain ⟨rest, hrest⟩ := hway
  cases rest with
  | nil =>
    rw [List.append_nil] at hrest
    exact absurd (h.inj r hr sw hsw hrest) hne
  | cons n rest =>
    have hfront : addr r ++ [n] <+: addr sw := ⟨rest, by rw [← hrest]; simp⟩
    obtain ⟨c, hc, haddr⟩ := h.exists_above hsw hfront
    obtain ⟨p, hp⟩ := h.parent c hc (by simp [haddr])
    have hsame : addr p.sw = addr r ∧ [p.num] = [n] :=
      List.append_inj' (hp.addr_eq.symm.trans haddr) rfl
    exact ⟨p, c, hp, h.inj _ hp.parent r hr hsame.1, haddr ▸ hfront⟩

end RouterTree

/-! ## The next link -/

/-- The port of the next link on the way to router `dst`, and its other side. -/
inductive Onward (t : Topology) (routers : Set ℕ) (addr : ℕ → List ℕ) (dst : ℕ) :
    Port → Port → Prop
  | down {p : Port} {c : ℕ} :
      Link t routers addr p c → addr c <+: addr dst → Onward t routers addr dst p (t.upstream c)
  | up {p : Port} {c : ℕ} :
      Link t routers addr p c → ¬addr c <+: addr dst → Onward t routers addr dst (t.upstream c) p

/-- Router `r` lies on the way between two routers: every router above `r` is above one of them, and
every router above both is above `r`. -/
structure Between (addr : ℕ → List ℕ) (src dst r : ℕ) : Prop where
  above : ∀ front, front <+: addr r → front <+: addr src ∨ front <+: addr dst
  below : ∀ front, front <+: addr src → front <+: addr dst → front <+: addr r

theorem Between.left {addr : ℕ → List ℕ} {src dst : ℕ} : Between addr src dst src :=
  ⟨fun _ hfront ↦ Or.inl hfront, fun _ hfront _ ↦ hfront⟩

theorem Link.length_eq {t : Topology} {routers : Set ℕ} {addr : ℕ → List ℕ} {p : Port} {c : ℕ}
    (hl : Link t routers addr p c) : (addr c).length = (addr p.sw).length + 1 := by
  rw [hl.addr_eq, List.length_append, List.length_singleton]

namespace Onward

variable {t : Topology} {routers : Set ℕ} {addr : ℕ → List ℕ} {src dst : ℕ} {l e : Port}

theorem mem (hl : Onward t routers addr dst l e) : l.sw ∈ routers ∧ e.sw ∈ routers := by
  cases hl with
  | down hl _ => exact ⟨hl.parent, hl.child⟩
  | up hl _ => exact ⟨hl.child, hl.parent⟩

theorem sw_ne (hl : Onward t routers addr dst l e) : l.sw ≠ e.sw := by
  intro heq
  have hlen : (addr l.sw).length = (addr e.sw).length := by rw [heq]
  cases hl with
  | down hl _ =>
    have hnext := hl.length_eq
    rw [Topology.upstream_sw] at hlen
    omega
  | up hl _ =>
    have hnext := hl.length_eq
    rw [Topology.upstream_sw] at hlen
    omega

/-- The next link does not start at the destination. -/
theorem sw_ne_dst (hl : Onward t routers addr dst l e) : l.sw ≠ dst := by
  intro heq
  cases hl with
  | down hl hway =>
    have hlen := hway.length_le
    rw [hl.length_eq, heq] at hlen
    omega
  | up hl hway =>
    apply hway
    rw [← heq]
    exact List.prefix_rfl

/-- A link that leads on to one end leads back to the other. -/
theorem back (hl : Onward t routers addr dst l e) (hbetween : Between addr src dst l.sw) :
    Onward t routers addr src e l := by
  cases hl with
  | @down _ c hl hway =>
    apply Onward.up hl
    intro hsrc
    have hlen := (hbetween.below _ hsrc hway).length_le
    rw [hl.length_eq] at hlen
    omega
  | @up _ c hl hway =>
    exact Onward.down hl ((hbetween.above _ List.prefix_rfl).resolve_right hway)

/-- A step on the way to the destination stays between the two ends. -/
theorem between (hl : Onward t routers addr dst l e) (hbetween : Between addr src dst l.sw) :
    Between addr src dst e.sw := by
  cases hl with
  | @down _ c hl hway =>
    have habove : addr l.sw <+: addr c := hl.addr_eq ▸ List.prefix_append _ _
    exact ⟨fun front hfront ↦ Or.inr (hfront.trans hway),
      fun front hsrc hdst ↦ (hbetween.below front hsrc hdst).trans habove⟩
  | @up _ c hl hway =>
    have habove : addr e.sw <+: addr c := hl.addr_eq ▸ List.prefix_append _ _
    constructor
    · exact fun front hfront ↦ hbetween.above front (hfront.trans habove)
    · intro front hsrc hdst
      have hfront : front <+: addr c := hbetween.below front hsrc hdst
      rw [hl.addr_eq, List.prefix_concat_iff] at hfront
      refine hfront.resolve_left fun heq ↦ hway ?_
      rw [hl.addr_eq, ← heq]
      exact hdst

end Onward

/-- How far the destination is at most: the way goes up to a router above it, and then down. -/
def gap (addr : ℕ → List ℕ) (dst r : ℕ) : ℕ :=
  if addr r <+: addr dst then (addr dst).length - (addr r).length
  else (addr dst).length + (addr r).length + 1

theorem Onward.gap_lt {t : Topology} {routers : Set ℕ} {addr : ℕ → List ℕ} {dst : ℕ} {l e : Port}
    (hl : Onward t routers addr dst l e) : gap addr dst e.sw < gap addr dst l.sw := by
  cases hl with
  | @down _ c hl hway =>
    have habove : addr l.sw <+: addr c := hl.addr_eq ▸ List.prefix_append _ _
    have hlen := hway.length_le
    have hnext := hl.length_eq
    rw [Topology.upstream_sw, gap, gap, if_pos hway, if_pos (habove.trans hway)]
    omega
  | @up _ c hl hway =>
    have hnext := hl.length_eq
    rw [Topology.upstream_sw, gap, gap, if_neg hway]
    split <;> omega

namespace RouterTree

variable {t : Topology} {routers : Set ℕ} {addr : ℕ → List ℕ} (h : RouterTree t routers addr)

include h

theorem onward_remote {dst : ℕ} {l e : Port} (hl : Onward t routers addr dst l e) :
    t.remote l = some e := by
  cases hl with
  | down hl _ => exact hl.remote
  | up hl _ => exact h.remote_symm _ _ hl.remote

theorem exists_onward {r dst : ℕ} (hr : r ∈ routers) (hdst : dst ∈ routers) (hne : r ≠ dst) :
    ∃ l e, Onward t routers addr dst l e ∧ l.sw = r := by
  by_cases hway : addr r <+: addr dst
  · obtain ⟨l, c, hl, hsw, hc⟩ := h.exists_below hr hdst hne hway
    exact ⟨l, _, .down hl hc, hsw⟩
  · have hhost : addr r ≠ [] := fun hnil ↦ hway (hnil ▸ List.nil_prefix)
    obtain ⟨p, hp⟩ := h.parent r hr hhost
    exact ⟨_, p, .up hp hway, rfl⟩

/-- What holds at the destination, and at a router if it holds behind the next link, holds at all
routers. -/
theorem onward_induction {dst : ℕ} {motive : ℕ → Prop} (hdst : dst ∈ routers)
    (here : motive dst)
    (next : ∀ l e, Onward t routers addr dst l e → motive e.sw → motive l.sw) :
    ∀ r ∈ routers, motive r := by
  intro r hr
  induction hgap : gap addr dst r using Nat.strong_induction_on generalizing r with
  | _ n ih =>
    by_cases heq : r = dst
    · rw [heq]
      exact here
    · obtain ⟨l, e, hl, rfl⟩ := h.exists_onward hr hdst heq
      exact next l e hl (ih _ (hgap ▸ hl.gap_lt) e.sw hl.mem.2 rfl)

end RouterTree

end ThunderboltStack.Cm
