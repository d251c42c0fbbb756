import ThunderboltStack.Cm.Activate
import ThunderboltStack.Cm.Tree
import Mathlib.Data.List.Nodup

/-!
# Discovery of paths

`tb_path_discover` of `path.c` follows the entries of the path configuration spaces and the links
between the routers, first to count the hops and then to fill them in.  What `tb_path_alloc` laid
out and `tb_path_activate` wrote is found again that way.
-/

namespace ThunderboltStack.Cm

open ThunderboltStack.Lib

def pathMaxHops : ℕ := 14

section Discover

variable (t : Topology) (hw : Hardware) (bus : Bus)

/-- The loop of `tb_path_find_dst_port`: the last output port and HopID, if all entries on the way
are enabled. -/
def followEnabled : ℕ → Option Port → ℕ → Option Port → Domain →
    Option (Option Port × ℕ) × Domain
  | 0, _, hopid, out, d => (some (out, hopid), d)
  | _ + 1, none, hopid, out, d => (some (out, hopid), d)
  | n + 1, some port, hopid, _, d =>
    match hopRead hw bus port hopid d with
    | (.error _, d) => (none, d)
    | (.ok hop, d) =>
      if !hop.enable then (none, d)
      else
        let out : Port := ⟨port.sw, hop.outPort⟩
        followEnabled n (t.remote out) hop.nextHop (some out) d

def findDstPort (src : Port) (srcHopid : ℕ) (dstHopid : ℤ) (d : Domain) : Option Port × Domain :=
  match followEnabled t hw bus pathMaxHops (some src) srcHopid none d with
  | (none, d) => (none, d)
  | (some (out, hopid), d) => (if (hopid : ℤ) = dstHopid then out else none, d)

/-- The loop of `tb_path_find_src_hopid`, over so many HopIDs from `i` on. -/
def scanSrcHopid (src dst : Port) (dstHopid : ℤ) : ℕ → ℕ → Domain → ℕ × Domain
  | 0, _, d => (0, d)
  | n + 1, i, d =>
    let r := findDstPort t hw bus src i dstHopid d
    if r.1 = some dst then (i, r.2) else scanSrcHopid src dst dstHopid n (i + 1) r.2

def findSrcHopid (src dst : Port) (dstHopid : ℤ) (d : Domain) : ℕ × Domain :=
  scanSrcHopid t hw bus src dst dstHopid (t.maxInHopId src + 1 - 8) 8 d

/-- What the first loop of `tb_path_discover` finds: `num_hops` and `*last`; `ok` says that all
reads succeeded. -/
structure Counted where
  ok : Bool
  numHops : ℕ
  last : Option Port
  domain : Domain

/-- The first loop of `tb_path_discover`. -/
def countHops : ℕ → Option Port → ℕ → ℕ → Option Port → Domain → Counted
  | 0, _, _, num, last, d => ⟨true, num, last, d⟩
  | _ + 1, none, _, num, last, d => ⟨true, num, last, d⟩
  | n + 1, some p, h, num, last, d =>
    match hopRead hw bus p h d with
    | (.error _, d) => ⟨false, num, last, d⟩
    | (.ok hop, d) =>
      -- If the hop is not enabled the path is incomplete.
      if !hop.enable then ⟨true, num, last, d⟩
      else
        let out : Port := ⟨p.sw, hop.outPort⟩
        countHops n (t.remote out) hop.nextHop (num + 1) (some out) d

/-- Takes the HopIDs of hop `i`, if they are to be taken. -/
def takeHopids (allocHopid : Bool) (mem : PathMem) (i : ℕ) (hop : Hop) (ids : Hopids) :
    Option Hopids :=
  if !allocHopid then some ids
  else
    match t.portAllocHopid ids hop.inPort true hop.inHopIndex hop.inHopIndex (mem.inHopid i) with
    | none => none
    | some inId =>
      let taken := ids.mark (true, hop.inPort) inId true
      match t.portAllocHopid taken hop.outPort false hop.nextHopIndex hop.nextHopIndex
          (mem.outHopid i) with
      -- The input HopID is released again.
      | none => none
      | some outId => some (taken.mark (false, hop.outPort) outId true)

/-- The second loop of `tb_path_discover`, with `n` hops to go. -/
def fillHops (allocHopid : Bool) (mem : PathMem) :
    ℕ → ℕ → Option Port → ℕ → Hopids → List Hop → Domain → Walked × Domain
  | 0, _, _, _, ids, hops, d => (⟨ids, hops, true⟩, d)
  | _ + 1, _, none, _, ids, hops, d => (⟨ids, hops, false⟩, d)
  | n + 1, i, some p, h, ids, hops, d =>
    match hopRead hw bus p h d with
    | (.error _, d) => (⟨ids, hops, false⟩, d)
    | (.ok regs, d) =>
      let hop : Hop := ⟨p, h, ⟨p.sw, regs.outPort⟩, regs.nextHop⟩
      match takeHopids t allocHopid mem i hop ids with
      | none => (⟨ids, hops, false⟩, d)
      | some ids =>
        fillHops allocHopid mem n (i + 1) (t.remote hop.outPort) regs.nextHop ids (hops ++ [hop]) d

/-- What `tb_path_discover` leaves: the path, if it returns one, `*last`, and the allocators. -/
structure Discovered where
  path : Option Path
  last : Option Port
  ids : Hopids

/-- The part of `tb_path_discover` from the first HopID on. -/
def discoverFrom (src : Port) (srcHopid : ℕ) (allocHopid : Bool) (mem : PathMem) (ids : Hopids)
    (d : Domain) : Discovered :=
  let counted := countHops t hw bus pathMaxHops (some src) srcHopid 0 none d
  if !counted.ok ∨ counted.numHops = 0 ∨ !mem.path ∨ !mem.hops then ⟨none, counted.last, ids⟩
  else
    let r := (fillHops t hw bus allocHopid mem counted.numHops 0 (some src) srcHopid ids []
      counted.domain).1
    let path : Path := { allocHopid, hops := r.hops, pathLength := counted.numHops }
    if r.done then ⟨some path, counted.last, r.ids⟩
    else ⟨none, counted.last, pathFree r.ids path⟩

/-- `tb_path_discover`.  A negative HopID asks for a search, which needs a destination. -/
def pathDiscover (src : Port) (srcHopid : ℤ) (dst : Option Port) (dstHopid : ℤ)
    (allocHopid : Bool) (mem : PathMem) (ids : Hopids) (d : Domain) : Discovered :=
  match srcHopid, dst with
  | .negSucc _, some dst =>
    let r := findSrcHopid t hw bus src dst dstHopid d
    if r.1 = 0 then ⟨none, none, ids⟩ else discoverFrom t hw bus src r.1 allocHopid mem ids r.2
  | srcHopid, _ => discoverFrom t hw bus src srcHopid.toNat allocHopid mem ids d

end Discover

structure Domain.Routed (d : Domain) (hop : Hop) : Prop where
  enable : (d.regs hop.inPort hop.inHopIndex).enable = true
  nextHop : (d.regs hop.inPort hop.inHopIndex).nextHop = hop.nextHopIndex
  outPort : (d.regs hop.inPort hop.inHopIndex).outPort = hop.outPort.num

section Activated

variable {hw : Hardware} {bus : Bus} {path : PathConfig} {before after : List HopConfig}
variable {d : Domain}

/-- Hops whose entries are different do not disturb each other, so that all of them are routed in
the end. -/
theorem routed_activateHops
    (hnodup : ((before.reverse ++ after).map HopConfig.entry).Nodup)
    (hbits : ∀ hop ∈ before, hop.nextHopIndex < 2 ^ 11 ∧ hop.outPort.num < 2 ^ 6)
    (hafter : ∀ hop ∈ after, d.Routed hop.toHop)
    (hret : (activateHops hw bus path before after d).1 = 0) :
    ∀ hop ∈ before.reverse ++ after,
      (activateHops hw bus path before after d).2.2.Routed hop.toHop := by
  induction before generalizing after d with
  | nil => simpa [activateHops] using hafter
  | cons hop rest ih =>
    have hassoc : (hop :: rest).reverse ++ after = rest.reverse ++ (hop :: after) := by simp
    rw [hassoc] at hnodup ⊢
    simp only [activateHops] at hret ⊢
    split at hret
    next hne => exact absurd hret hne
    next hzero =>
      simp only [hzero, if_false]
      apply ih hnodup (fun h hmem ↦ hbits h (List.mem_cons_of_mem _ hmem)) _ hret
      intro other hmem
      have hprog := programHop_ok (not_not.1 hzero)
      rcases List.mem_cons.1 hmem with rfl | hmem
      · have hfit := hbits other List.mem_cons_self
        exact ⟨hprog.1, hprog.2.1.trans (Nat.mod_eq_of_lt hfit.1),
          hprog.2.2.trans (Nat.mod_eq_of_lt hfit.2)⟩
      · have hne : other.entry ≠ hop.entry := by
          rw [List.map_append, List.map_cons, List.nodup_append] at hnodup
          have hcons := (List.nodup_cons.1 hnodup.2.1).1
          intro heq
          exact hcons (heq ▸ List.mem_map_of_mem hmem)
        have hkept : (programHop hw bus path hop rest.isEmpty after.isEmpty d).2.regs
            other.inPort other.inHopIndex = d.regs other.inPort other.inHopIndex :=
          touches_programHop.regs _ _ fun hin ↦ hne (List.mem_singleton.1 hin)
        have hold := hafter other hmem
        exact ⟨by rw [hkept]; exact hold.enable, by rw [hkept]; exact hold.nextHop,
          by rw [hkept]; exact hold.outPort⟩

/-- After an activation that succeeds every hop is routed. -/
theorem routed_pathActivate {state : PathState}
    (hnodup : (path.hops.map HopConfig.entry).Nodup)
    (hbits : ∀ hop ∈ path.hops, hop.nextHopIndex < 2 ^ 11 ∧ hop.outPort.num < 2 ^ 6)
    (hret : (pathActivate hw bus path state d).1 = 0) :
    ∀ hop ∈ path.hops, (pathActivate hw bus path state d).2.2.Routed hop.toHop := by
  simp only [pathActivate] at hret ⊢
  split at hret
  · cases hret
  next hne =>
    split at hret
    · cases hret
    next hstate =>
      split at hret
      next hc => exact absurd hret hc
      next hc =>
        split at hret
        next ha => exact absurd hret ha
        next ha =>
          simp only [hne, hstate, hc, ha, if_false]
          have hall := routed_activateHops (by simpa using hnodup)
            (fun hop hmem ↦ hbits hop (List.mem_reverse.1 hmem)) (by simp) hret
          simpa using hall

end Activated

/-! ## Following the entries -/

def Bus.Quiet (bus : Bus) : Prop :=
  ∀ n, (bus.access n).err = none ∧ (bus.access n).lost = false

section Follow

variable {t : Topology} {hw : Hardware} {bus : Bus} {d : Domain} {hop : Hop} {hops : List Hop}

/-- A read on a quiet bus returns the route of a hop, and disturbs no hop. -/
theorem hopRead_routed (hplug : ∀ sw, hw.isUnplugged sw = false) (hquiet : bus.Quiet)
    (hrouted : d.Routed hop) :
    ∃ regs d', hopRead hw bus hop.inPort hop.inHopIndex d = (.ok regs, d') ∧ regs.enable = true ∧
      regs.nextHop = hop.nextHopIndex ∧ regs.outPort = hop.outPort.num ∧
      ∀ other, d.Routed other → d'.Routed other := by
  let regs : HopRegs :=
    { d.regs hop.inPort hop.inHopIndex with pending := (bus.access d.tick).pending }
  have hread : hopRead hw bus hop.inPort hop.inHopIndex d =
      (.ok regs, (d.setRegs hop.inPort hop.inHopIndex regs).next) := by
    simp [hopRead, hplug, hquiet d.tick, regs]
  refine ⟨regs, _, hread, hrouted.enable, hrouted.nextHop, hrouted.outPort, ?_⟩
  intro other hother
  by_cases hentry : (other.inPort, other.inHopIndex) = (hop.inPort, hop.inHopIndex)
  · obtain ⟨hport, hid⟩ := Prod.mk.inj hentry
    obtain ⟨hen, hnext, hout⟩ := hother
    rw [hport, hid] at hen hnext hout
    constructor
    all_goals
      rw [hport, hid]
      simp only [Domain.next, setRegs_self]
      assumption
  · obtain ⟨hen, hnext, hout⟩ := hother
    constructor
    all_goals
      simp only [Domain.next]
      rw [setRegs_of_ne hentry]
      assumption

/-- The output port of a hop, as the entry names it. -/
theorem outPort_eq (hsw : hop.outPort.sw = hop.inPort.sw) :
    (⟨hop.inPort.sw, hop.outPort.num⟩ : Port) = hop.outPort := by
  rw [← hsw]

/-- The first loop counts the hops, up to the port where they end. -/
theorem countHops_leads (hplug : ∀ sw, hw.isUnplugged sw = false) (hquiet : bus.Quiet)
    {first : Hop} (hleads : Leads t (first :: hops))
    (hrouted : ∀ hop ∈ first :: hops, d.Routed hop) (n num : ℕ) (last : Option Port)
    (hlen : (first :: hops).length ≤ n) :
    ∃ d', countHops t hw bus n (some first.inPort) first.inHopIndex num last d =
        ⟨true, num + (first :: hops).length, (first :: hops).getLast?.map Hop.outPort, d'⟩ ∧
      ∀ hop, d.Routed hop → d'.Routed hop := by
  induction hops generalizing first d n num last with
  | nil =>
    obtain ⟨regs, d', hread, hen, hnext, hout, hkept⟩ :=
      hopRead_routed hplug hquiet (hrouted first List.mem_cons_self)
    cases hleads with
    | last hsw hremote =>
      cases n with
      | zero => simp at hlen
      | succ n =>
        refine ⟨d', ?_, hkept⟩
        cases n <;>
          simp [countHops, hread, hen, hout, outPort_eq hsw, hremote]
  | cons next rest ih =>
    obtain ⟨regs, d', hread, hen, hnext, hout, hkept⟩ :=
      hopRead_routed hplug hquiet (hrouted first List.mem_cons_self)
    cases hleads with
    | cons hsw hremote hid hrest =>
      cases n with
      | zero => simp at hlen
      | succ n =>
        have hrouted' : ∀ hop ∈ next :: rest, d'.Routed hop :=
          fun hop hmem ↦ hkept hop (hrouted hop (List.mem_cons_of_mem _ hmem))
        obtain ⟨d'', hcount, hkept'⟩ := ih hrest hrouted' n (num + 1) (some first.outPort)
          (by simpa using hlen)
        refine ⟨d'', ?_, fun hop h ↦ hkept' hop (hkept hop h)⟩
        simp only [countHops, hread, hen, hout, outPort_eq hsw, hremote, hnext, hid, Bool.not_true,
          Bool.false_eq_true, if_false, hcount, List.getLast?_cons_cons, List.length_cons]
        congr 1
        omega

/-- The HopIDs of a hop are taken where they are free. -/
theorem takeHopids_free {ids : Hopids} {allocHopid : Bool} {i : ℕ} (hrange : InRange t hop)
    (hfree : allocHopid = true → ∀ k m, (k, m) ∈ hop.hopids → ids k m = false) :
    ∃ ids', takeHopids t allocHopid {} i hop ids = some ids' ∧
      ∀ k m, (k, m) ∉ hop.hopids → ids' k m = ids k m := by
  cases allocHopid with
  | false => exact ⟨ids, rfl, fun _ _ _ ↦ rfl⟩
  | true =>
    have hin : t.portAllocHopid ids hop.inPort true hop.inHopIndex hop.inHopIndex true =
        some hop.inHopIndex :=
      portAllocHopid_self (hfree rfl _ _ (by simp [Hop.hopids])) hrange.inLow hrange.inHigh
    have hmarked : (ids.mark (true, hop.inPort) hop.inHopIndex true) (false, hop.outPort)
        hop.nextHopIndex = false := by
      simp [Idas.mark, hfree rfl _ _ (show ((false, hop.outPort), hop.nextHopIndex) ∈ hop.hopids by
        simp [Hop.hopids])]
    have hout : t.portAllocHopid (ids.mark (true, hop.inPort) hop.inHopIndex true) hop.outPort
        false hop.nextHopIndex hop.nextHopIndex true = some hop.nextHopIndex :=
      portAllocHopid_self hmarked hrange.outLow hrange.outHigh
    refine ⟨(ids.mark (true, hop.inPort) hop.inHopIndex true).mark (false, hop.outPort)
      hop.nextHopIndex true, by simp [takeHopids, hin, hout], ?_⟩
    intro k m hmem
    simp only [Hop.hopids, List.mem_cons, List.not_mem_nil, or_false, not_or, Prod.mk.injEq]
      at hmem
    simp only [Idas.mark, hmem.1, hmem.2, if_false]

/-- The second loop fills in the hops that the first one counted. -/
theorem fillHops_leads (hplug : ∀ sw, hw.isUnplugged sw = false) (hquiet : bus.Quiet)
    {first : Hop} (hleads : Leads t (first :: hops))
    (hrouted : ∀ hop ∈ first :: hops, d.Routed hop)
    (hrange : ∀ hop ∈ first :: hops, InRange t hop) (allocHopid : Bool) (i : ℕ) (ids : Hopids)
    (front : List Hop)
    (hnodup : ((first :: hops).flatMap Hop.hopids).Nodup)
    (hfree : allocHopid = true →
      ∀ k m, (k, m) ∈ (first :: hops).flatMap Hop.hopids → ids k m = false) :
    (fillHops t hw bus allocHopid {} (first :: hops).length i (some first.inPort)
        first.inHopIndex ids front d).1.done = true ∧
      (fillHops t hw bus allocHopid {} (first :: hops).length i (some first.inPort)
        first.inHopIndex ids front d).1.hops = front ++ first :: hops := by
  induction hops generalizing first d i ids front with
  | nil =>
    obtain ⟨regs, d', hread, hen, hnext, hout, hkept⟩ :=
      hopRead_routed hplug hquiet (hrouted first List.mem_cons_self)
    obtain ⟨ids', htake, -⟩ := takeHopids_free (i := i) (hrange first List.mem_cons_self)
      (fun halloc k m hmem ↦ hfree halloc k m (by simpa using hmem))
    cases hleads with
    | last hsw hremote => simp [fillHops, hread, hout, hnext, outPort_eq hsw, htake]
  | cons next rest ih =>
    obtain ⟨regs, d', hread, hen, hnext, hout, hkept⟩ :=
      hopRead_routed hplug hquiet (hrouted first List.mem_cons_self)
    rw [List.flatMap_cons, List.nodup_append] at hnodup
    obtain ⟨ids', htake, hother⟩ := takeHopids_free (i := i) (hrange first List.mem_cons_self)
      (fun halloc k m hmem ↦ hfree halloc k m (by
        rw [List.flatMap_cons]
        exact List.mem_append_left _ hmem))
    cases hleads with
    | cons hsw hremote hid hrest =>
      have hfree' : allocHopid = true →
          ∀ k m, (k, m) ∈ (next :: rest).flatMap Hop.hopids → ids' k m = false := by
        intro halloc k m hmem
        rw [hother k m fun hin ↦ hnodup.2.2 _ hin _ hmem rfl]
        apply hfree halloc
        rw [List.flatMap_cons]
        exact List.mem_append_right _ hmem
      have hfill := ih hrest (fun hop hmem ↦ hkept hop (hrouted hop (List.mem_cons_of_mem _ hmem)))
        (fun hop hmem ↦ hrange hop (List.mem_cons_of_mem _ hmem)) (i + 1) ids' (front ++ [first])
        hnodup.2.1 hfree'
      have hhop : (⟨first.inPort, first.inHopIndex, ⟨first.inPort.sw, regs.outPort⟩,
          regs.nextHop⟩ : Hop) = first := by rw [hout, hnext, outPort_eq hsw]
      simp only [List.length_cons] at hfill ⊢
      rw [fillHops]
      simp only [hread, hhop, htake]
      simp only [hout, outPort_eq hsw, hremote, hnext, hid]
      simpa using hfill

end Follow

/-- A discovery that starts at the first hop of a path finds all of it. -/
theorem discoverFrom_leads {t : Topology} {hw : Hardware} {bus : Bus} {d : Domain} {first : Hop}
    {hops : List Hop} (hplug : ∀ sw, hw.isUnplugged sw = false) (hquiet : bus.Quiet)
    (hleads : Leads t (first :: hops)) (hrouted : ∀ hop ∈ first :: hops, d.Routed hop)
    (hrange : ∀ hop ∈ first :: hops, InRange t hop)
    (hlen : (first :: hops).length ≤ pathMaxHops) (allocHopid : Bool) (ids : Hopids)
    (hnodup : ((first :: hops).flatMap Hop.hopids).Nodup)
    (hfree : allocHopid = true →
      ∀ k m, (k, m) ∈ (first :: hops).flatMap Hop.hopids → ids k m = false) :
    let r := discoverFrom t hw bus first.inPort first.inHopIndex allocHopid {} ids d
    r.path = some { allocHopid, hops := first :: hops, pathLength := (first :: hops).length } ∧
      r.last = (first :: hops).getLast?.map Hop.outPort := by
  obtain ⟨d', hcount, hkept⟩ := countHops_leads hplug hquiet hleads hrouted pathMaxHops 0 none hlen
  have hfill := fillHops_leads hplug hquiet hleads (fun hop hmem ↦ hkept hop (hrouted hop hmem))
    hrange allocHopid 0 ids [] hnodup hfree
  rw [List.length_cons] at hcount hfill
  simp [discoverFrom, hcount, hfill]

/-- The path of an allocation that succeeds. -/
theorem pathAlloc_some {a : PathArgs} {fuel : ℕ} {ids : Hopids} {r : Allocated} {path : Path}
    (halloc : pathAlloc a fuel ids = some r) (hpath : r.path = some path) :
    ∃ numHops ports, a.t.portsOnPath a.src a.dst fuel none = some ports ∧
      numHopsOf a ports = some numHops ∧
      (allocHops a numHops numHops 0 ids a.srcHopid none []).done = true ∧
      path = { allocHopid := true, pathLength := numHops,
               hops := (allocHops a numHops numHops 0 ids a.srcHopid none []).hops } := by
  cases htake : hopsToTake a fuel with
  | none =>
    rw [pathAlloc_of_hopsToTake_none halloc htake] at hpath
    cases hpath
  | some numHops =>
    rw [pathAlloc_of_hopsToTake_some halloc htake] at hpath
    unfold hopsToTake at htake
    split at htake
    · obtain ⟨ports, hports, hnum⟩ := Option.bind_eq_some_iff.1 htake
      split at hpath
      next hdone => exact ⟨numHops, ports, hports, hnum, hdone, (Option.some.inj hpath).symm⟩
      next => cases hpath
    · cases htake

/-- A path that is not empty leads from one end to the other, has at most thirteen hops, and its
HopIDs are different from each other. -/
theorem pathAlloc_leads {t : Topology} {routers : Set ℕ} {addr : ℕ → List ℕ}
    (htree : PairedTree t routers addr) {a : PathArgs} (ht : a.t = t)
    (hsrc : IsEnd t routers a.src) (hdst : IsEnd t routers a.dst) (hlink : a.linkNr < 2)
    {fuel : ℕ} {ids : Hopids} {r : Allocated} {path : Path}
    (halloc : pathAlloc a fuel ids = some r) (hpath : r.path = some path) (hne : path.hops ≠ []) :
    Leads t path.hops ∧ (∀ hop ∈ path.hops, InRange t hop) ∧ path.hops.length ≤ pathMaxHops ∧
      path.pathLength = path.hops.length ∧ (path.hops.flatMap Hop.hopids).Nodup := by
  obtain ⟨numHops, ports, hports, hnum, hdone, rfl⟩ := pathAlloc_some halloc hpath
  have hlen := allocHops_length hdone
  have hnodup := (allocHops_nodup hdone).1
  simp only [List.length_nil, Nat.zero_add] at hlen
  have hends : a.src ≠ a.dst := by
    intro heq
    -- The walk has the one port only, which makes no hop.
    obtain ⟨fuel', rest, hrest, rfl⟩ := PairedTree.portsOnPath_of_next (p := a.src) rfl hports
    rw [heq] at hrest
    rw [PairedTree.portsOnPath_of_end hrest] at hnum
    unfold numHopsOf at hnum
    split at hnum
    · have hzero : numHops = 0 := by simpa using (Option.some.inj hnum).symm
      subst hzero
      exact hne rfl
    · cases hnum
  obtain ⟨n, hroute, hn⟩ := htree.exists_route hsrc.sw hdst.sw
  obtain rfl : numHops = n + 1 := htree.numHops_eq ht hsrc hdst hroute hends hports hnum
  subst ht
  have hlane : SameLink a.t (a.t.inPortOf a.linkNr a.src) a.src := PairedTree.inPortOf_sameLink
  have henter : ∀ q, a.t.nextPortOnPath a.src a.dst none = some q →
      a.t.inPortOf a.linkNr q = a.t.inPortOf a.linkNr a.src := by
    intro q hq
    rw [← Option.some.inj hq]
  obtain ⟨hleads, hrange, -⟩ := htree.allocHops_leads rfl hlink hdst
    ((htree.routerTree.sameLink_sw hlane).symm ▸ hroute)
    (.start (PairedTree.isEnd_of_sameLink hsrc hlane)) henter hdone
  refine ⟨hleads, hrange, ?_, hlen.symm, hnodup⟩
  rw [hlen, pathMaxHops]
  omega

/-- Hops with different HopIDs have different entries. -/
theorem nodup_entries {hops : List Hop} (h : (hops.flatMap Hop.hopids).Nodup) :
    (hops.map fun hop ↦ (hop.inPort, hop.inHopIndex)).Nodup := by
  rw [List.nodup_flatMap] at h
  rw [List.Nodup, List.pairwise_map]
  apply h.2.imp
  intro hop other hdisjoint heq
  obtain ⟨hport, hid⟩ := Prod.mk.inj heq
  have hmem : ((true, hop.inPort), hop.inHopIndex) ∈ hop.hopids := List.mem_cons_self
  have hmem' : ((true, hop.inPort), hop.inHopIndex) ∈ other.hopids := by
    rw [hport, hid]
    exact List.mem_cons_self
  exact hdisjoint hmem hmem'

/-- Where a path was laid out in a tree of routers and activated, with links that have second lanes
on both sides or on none, a discovery from its first port and HopID returns a path with the same hops in the same order, up to the same port, whatever other
paths do in entries of their own.  If the discovery is to take the HopIDs, they have to be free in
the allocators it uses. -/
theorem discover_inverts_activation {t : Topology} {routers : Set ℕ} {addr : ℕ → List ℕ}
    (htree : IsTree t routers addr) (hpaired : t.Paired) (a : PathArgs) (ht : a.t = t)
    (hsrc : IsEnd t routers a.src) (hdst : IsEnd t routers a.dst) (hlink : a.linkNr < 2)
    (fuel : ℕ) (ids : Hopids) (r : Allocated) (path : Path)
    (halloc : pathAlloc a fuel ids = some r) (hpath : r.path = some path)
    (hw : Hardware) (hplug : ∀ sw, hw.isUnplugged sw = false) (bus : Bus) (config : PathConfig)
    (hconfig : config.hops.map HopConfig.toHop = path.hops) (state : PathState) (d : Domain)
    (hactivate : (pathActivate hw bus config state d).1 = 0) (d' : Domain)
    (hothers : ∀ hop ∈ path.hops, d'.regs hop.inPort hop.inHopIndex =
      (pathActivate hw bus config state d).2.2.regs hop.inPort hop.inHopIndex)
    (bus' : Bus) (hquiet : bus'.Quiet) (dst : Option Port) (dstHopid : ℤ) (allocHopid : Bool)
    (ids' : Hopids)
    (hfree : allocHopid = true →
      ∀ k m, (k, m) ∈ path.hops.flatMap Hop.hopids → ids' k m = false) :
    ∃ first, path.hops.head? = some first ∧
      let found := pathDiscover t hw bus' first.inPort first.inHopIndex dst dstHopid allocHopid {}
        ids' d'
      found.path = some { path with allocHopid } ∧
        found.last = path.hops.getLast?.map Hop.outPort := by
  have hhops : ∀ hop ∈ path.hops, ∃ h ∈ config.hops, h.toHop = hop := by
    intro hop hmem
    rw [← hconfig] at hmem
    exact List.mem_map.1 hmem
  have hne : path.hops ≠ [] := by
    intro hnil
    rw [hnil] at hconfig
    simp [pathActivate, List.map_eq_nil_iff.1 hconfig, einval] at hactivate
  obtain ⟨hleads, hrange, hlen, hlength, hnodup⟩ :=
    pathAlloc_leads ⟨htree, hpaired⟩ ht hsrc hdst hlink halloc hpath hne
  have hentries : (config.hops.map HopConfig.entry).Nodup := by
    have hmap : config.hops.map HopConfig.entry =
        path.hops.map fun hop ↦ (hop.inPort, hop.inHopIndex) := by
      rw [← hconfig, List.map_map]
      rfl
    rw [hmap]
    exact nodup_entries hnodup
  have hbits : ∀ hop ∈ config.hops, hop.nextHopIndex < 2 ^ 11 ∧ hop.outPort.num < 2 ^ 6 := by
    intro hop hmem
    have hin : hop.toHop ∈ path.hops := hconfig ▸ List.mem_map_of_mem hmem
    exact ⟨(hrange _ hin).outHigh.trans_lt (htree.hopid _), (hrange _ hin).num⟩
  have hrouted : ∀ hop ∈ path.hops, d'.Routed hop := by
    intro hop hmem
    obtain ⟨h, hh, rfl⟩ := hhops hop hmem
    have hactive := routed_pathActivate hentries hbits hactivate h hh
    have hsame := hothers h.toHop hmem
    exact ⟨by rw [hsame]; exact hactive.enable, by rw [hsame]; exact hactive.nextHop,
      by rw [hsame]; exact hactive.outPort⟩
  obtain ⟨first, rest, hlist⟩ := List.exists_cons_of_ne_nil hne
  rw [hlist] at hleads hrange hlen hnodup hfree hrouted
  obtain ⟨hfound, hlast⟩ := discoverFrom_leads hplug hquiet hleads hrouted hrange hlen allocHopid
    ids' hnodup hfree
  refine ⟨first, by rw [hlist]; rfl, ?_, ?_⟩
  · have hsame : ({ path with allocHopid } : Path) =
        { allocHopid, hops := first :: rest, pathLength := (first :: rest).length } := by
      rw [hlength, hlist]
    rw [hsame]
    exact hfound
  · rw [hlist]
    exact hlast

/-- The host and one router, linked by their ports 1.  The host has a second lane at port 2, and the
router if `both` holds; the second lanes are then linked, too. -/
def laneTopology (both : Bool) : Topology where
  route sw := sw
  depth sw := sw
  upstreamPort sw := if sw = 0 then 4 else 1
  maxPort _ := 4
  remote p :=
    if p.num = 1 ∨ p.num = 2 ∧ both then
      if p.sw = 0 then some ⟨1, p.num⟩ else if p.sw = 1 then some ⟨0, p.num⟩ else none
    else none
  dualLinkPort p :=
    if p.sw = 0 ∨ p.sw = 1 ∧ both then
      if p.num = 1 then some ⟨p.sw, 2⟩ else if p.num = 2 then some ⟨p.sw, 1⟩ else none
    else none
  linkNr p := if p.num = 2 then 1 else 0
  bonded _ := false
  isNhi _ := false
  maxInHopId _ := 15
  maxOutHopId _ := 15

theorem laneTopology_remote {both : Bool} {p q : Port}
    (h : (laneTopology both).remote p = some q) :
    (p.num = 1 ∨ p.num = 2 ∧ both) ∧ q.num = p.num ∧
      (p.sw = 0 ∧ q.sw = 1 ∨ p.sw = 1 ∧ q.sw = 0) := by
  simp only [laneTopology] at h
  split_ifs at h with hnum h₀ h₁ <;> cases h
  · exact ⟨hnum, rfl, .inl ⟨h₀, rfl⟩⟩
  · exact ⟨hnum, rfl, .inr ⟨h₁, rfl⟩⟩

theorem laneTopology_dual {both : Bool} {p q : Port}
    (h : (laneTopology both).dualLinkPort p = some q) :
    (p.sw = 0 ∨ p.sw = 1 ∧ both) ∧ q.sw = p.sw ∧
      (p.num = 1 ∧ q.num = 2 ∨ p.num = 2 ∧ q.num = 1) := by
  simp only [laneTopology] at h
  split_ifs at h with hsw h₁ h₂ <;> cases h
  · exact ⟨hsw, rfl, .inl ⟨h₁, rfl⟩⟩
  · exact ⟨hsw, rfl, .inr ⟨h₂, rfl⟩⟩

theorem laneTopology_isTree (both : Bool) :
    IsTree (laneTopology both) {0, 1} fun sw ↦ if sw = 0 then [] else [1] where
  route := by rintro sw (rfl | rfl) <;> rfl
  depth := by rintro sw (rfl | rfl) <;> rfl
  digit := by rintro sw (rfl | rfl) <;> decide
  short := by rintro sw (rfl | rfl) <;> decide
  inj := by rintro sw (rfl | rfl) sw' (rfl | rfl) <;> decide
  parent := by
    rintro sw (rfl | rfl) hne
    · exact absurd rfl hne
    · exact ⟨⟨0, 1⟩, .inl rfl, rfl, by simp [laneTopology], rfl, rfl, rfl⟩
  remote_symm p q hremote := by
    obtain ⟨sw, num⟩ := p
    obtain ⟨sw', num'⟩ := q
    obtain ⟨hnum, rfl, ⟨rfl, rfl⟩ | ⟨rfl, rfl⟩⟩ := laneTopology_remote hremote <;>
      simp_all [laneTopology]
  lane p q hremote := by
    obtain ⟨-, hnum, -⟩ := laneTopology_remote hremote
    exact ⟨rfl, by simp [laneTopology, hnum]⟩
  dual_symm p q hdual := by
    obtain ⟨sw, num⟩ := p
    obtain ⟨sw', num'⟩ := q
    obtain ⟨hsw, rfl, ⟨rfl, rfl⟩ | ⟨rfl, rfl⟩⟩ := laneTopology_dual hdual <;>
      simp_all [laneTopology]
  dual_linkNr p q hdual := by
    obtain ⟨-, -, ⟨hp, hq⟩ | ⟨hp, hq⟩⟩ := laneTopology_dual hdual <;> simp [laneTopology, hp, hq]
  dual_lane p q p' q' hremote hdual := by
    obtain ⟨-, hnum, hsw⟩ := laneTopology_remote hremote
    obtain ⟨-, hsame, hlane⟩ := laneTopology_dual hdual
    obtain ⟨hp, hq⟩ | ⟨hp, hq⟩ := hsw <;> obtain ⟨hp', hq'⟩ | ⟨hp', hq'⟩ := hlane <;>
      cases both <;> simp_all [laneTopology]
  upstream_num := by rintro sw (rfl | rfl) <;> simp [laneTopology]
  dual_num p q hdual := by
    obtain ⟨-, -, ⟨-, hq⟩ | ⟨-, hq⟩⟩ := laneTopology_dual hdual <;> omega
  hopid p := by
    show 15 < 2 ^ 11
    decide

def lanePath (both : Bool) (linkNr : ℕ) : PathArgs where
  t := laneTopology both
  src := ⟨0, 3⟩
  srcHopid := 9
  dst := ⟨1, 3⟩
  dstHopid := 9
  linkNr := linkNr

def plainConfig (hops : List Hop) : PathConfig where
  hops := hops.map fun hop ↦ { toHop := hop }
  weight := 1

def plainHardware : Hardware where
  isUnplugged _ := false
  isUsb4 _ := false
  isNull _ := false

def idleDomain : Domain where
  config _ := 0
  regs _ _ := {}

def laneHops : List Hop := [⟨⟨0, 3⟩, 9, ⟨0, 2⟩, 8⟩, ⟨⟨1, 2⟩, 8, ⟨1, 3⟩, 9⟩]

def laneDomain (hops : List Hop) : Domain :=
  (pathActivate plainHardware {} (plainConfig hops) .inactive idleDomain).2.2

theorem discover_inverts_activation_host :
    (pathDiscover (laneTopology true) plainHardware {} ⟨0, 3⟩ 9 none (-1) false {} (fun _ _ ↦ true)
      (laneDomain laneHops)).path.map Path.hops = some laneHops := by
  have hpaired : (laneTopology true).Paired := by
    intro p q p' hremote hdual
    obtain ⟨hnum, hsame, hsw⟩ := laneTopology_remote hremote
    obtain ⟨hp, hq⟩ | ⟨hp, hq⟩ := hsw <;> obtain h | h := hnum <;> simp_all [laneTopology]
  have hsrc : IsEnd (laneTopology true) {0, 1} ⟨0, 3⟩ :=
    ⟨Or.inl rfl, by decide, rfl, fun _ h ↦ by cases h⟩
  have hdst : IsEnd (laneTopology true) {0, 1} ⟨1, 3⟩ :=
    ⟨Or.inr rfl, by decide, rfl, fun _ h ↦ by cases h⟩
  obtain ⟨first, hfirst, hfound, -⟩ := discover_inverts_activation (laneTopology_isTree true)
    hpaired (lanePath true 1) rfl hsrc hdst (by decide) 8 (fun _ _ ↦ false) _ _ rfl rfl
    plainHardware (fun _ ↦ rfl) {} (plainConfig laneHops) rfl .inactive idleDomain
    (by decide +kernel) (laneDomain laneHops) (fun _ _ ↦ rfl) {} (fun _ ↦ ⟨rfl, rfl⟩) none (-1)
    false (fun _ _ ↦ true) (fun h ↦ by cases h)
  obtain rfl : (⟨⟨0, 3⟩, 9, ⟨0, 2⟩, 8⟩ : Hop) = first := Option.some.inj hfirst
  exact congrArg (Option.map Path.hops) hfound

def rediscovered (a : PathArgs) (allocHopid : Bool) : Option (List Hop × ℤ × Option (List Hop)) :=
  (pathAlloc a 8 fun _ _ ↦ false).bind fun r ↦ r.path.map fun path ↦
    (path.hops,
      (pathActivate plainHardware {} (plainConfig path.hops) .inactive idleDomain).1,
      (pathDiscover a.t plainHardware {} ⟨0, 3⟩ 9 none (-1) allocHopid {} r.ids
        (laneDomain path.hops)).path.map Path.hops)

/-- While the path holds its HopIDs, a discovery that is to take them returns nothing.  In a tree
with a link whose second lane is on one side only, the preference for second lanes makes a path that
does not leave the host; and a preference for neither lane makes one that changes the lane on the
link. -/
theorem discovery_differs :
    IsTree (laneTopology false) {0, 1} (fun sw ↦ if sw = 0 then [] else [1]) ∧
    rediscovered (lanePath true 1) true = some (laneHops, 0, none) ∧
    rediscovered (lanePath false 1) false =
      some ([⟨⟨0, 3⟩, 9, ⟨0, 2⟩, 8⟩, ⟨⟨0, 2⟩, 8, ⟨0, 2⟩, 9⟩], 0, some [⟨⟨0, 3⟩, 9, ⟨0, 2⟩, 8⟩]) ∧
    rediscovered (lanePath true 2) false =
      some ([⟨⟨0, 3⟩, 9, ⟨0, 2⟩, 8⟩, ⟨⟨1, 1⟩, 8, ⟨1, 3⟩, 9⟩], 0, some [⟨⟨0, 3⟩, 9, ⟨0, 2⟩, 8⟩]) :=
  ⟨laneTopology_isTree false, by decide +kernel⟩

end ThunderboltStack.Cm
