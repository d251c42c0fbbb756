import ThunderboltStack.Lib.Ida
import Mathlib.Algebra.Order.Ring.Nat

/-!
# HopIDs of paths

`tb_path_alloc` and `tb_path_free` of `path.c`, with the walk over the ports and the allocation of
HopIDs of `switch.c`.  A HopID is a number in one of the two allocators of a port, for its input and
for its output direction.
-/

namespace ThunderboltStack.Cm

open ThunderboltStack.Lib

/-- `struct tb_port`, by its router and its number there. -/
structure Port where
  sw : ℕ
  num : ℕ
  deriving DecidableEq

/-- What the walk and the allocation read of the routers and ports. -/
structure Topology where
  route : ℕ → ℕ
  depth : ℕ → ℕ
  upstreamPort : ℕ → ℕ
  maxPort : ℕ → ℕ
  remote : Port → Option Port
  dualLinkPort : Port → Option Port
  linkNr : Port → ℕ
  bonded : Port → Bool
  isNhi : Port → Bool
  maxInHopId : Port → ℕ
  maxOutHopId : Port → ℕ

/-- The allocators of all ports; `true` is the input direction. -/
abbrev Hopids : Type := Idas (Bool × Port)

/-- `struct tb_path_hop`, the parts that tell its HopIDs. -/
structure Hop where
  inPort : Port
  inHopIndex : ℕ
  outPort : Port
  nextHopIndex : ℕ
  deriving DecidableEq

/-- `struct tb_path`: the hops filled in so far and `path_length`. -/
structure Path where
  allocHopid : Bool := false
  hops : List Hop := []
  pathLength : ℕ := 0

/-- Which allocations of memory succeed: the path, its hops, and the identifiers of hop `i`. -/
structure PathMem where
  path : Bool := true
  hops : Bool := true
  inHopid : ℕ → Bool := fun _ ↦ true
  outHopid : ℕ → Bool := fun _ ↦ true

namespace Topology

variable (t : Topology)

def portAt (route sw : ℕ) : Option Port :=
  let num := route / 2 ^ (8 * t.depth sw) % 2 ^ 8
  if t.maxPort sw < num then none else some ⟨sw, num⟩

/-- `tb_upstream_port`. -/
def upstream (sw : ℕ) : Port := ⟨sw, t.upstreamPort sw⟩

/-- `tb_is_upstream_port`. -/
def isUpstream (p : Port) : Bool :=
  p == t.upstream p.sw || t.dualLinkPort p == some (t.upstream p.sw)

def isReachable (parent sw : ℕ) : Bool :=
  t.route parent % 2 ^ (8 * t.depth parent) == t.route sw % 2 ^ (8 * t.depth parent)

/-- The port towards the end below `prev`, or its other side. -/
def nextDown (dst prev : Port) : Option Port :=
  match t.portAt (t.route dst.sw) prev.sw with
  | none => none
  | some next =>
    if (t.remote prev).isSome ∧ (next = prev ∨ t.dualLinkPort next = some prev) then t.remote prev
    else some next

/-- The port towards the end above `prev`; the same link is kept. -/
def nextUp (prev : Port) : Option Port :=
  if t.isUpstream prev then t.remote prev
  else
    let next := t.upstream prev.sw
    match t.dualLinkPort next with
    | none => some next
    | some dual => if t.linkNr next ≠ t.linkNr prev then some dual else some next

def nextPortOnPath (src dst : Port) : Option Port → Option Port
  | none => some src
  | some prev =>
    if prev.sw = dst.sw then
      if prev = dst then none else some dst
    else
      let next := if t.isReachable prev.sw dst.sw then t.nextDown dst prev else t.nextUp prev
      if next = some prev then none else next

/-- The ports of `tb_for_each_port_on_path` after `prev`; the walk may have no end. -/
def portsOnPath (src dst : Port) : ℕ → Option Port → Option (List Port)
  | 0, _ => none
  | fuel + 1, prev =>
    match t.nextPortOnPath src dst prev with
    | none => some []
    | some p => (portsOnPath src dst fuel (some p)).map (p :: ·)

/-- `tb_port_alloc_hopid`; `mem` says whether there is memory. -/
def portAllocHopid (ids : Hopids) (port : Port) (isIn : Bool) (lo hi : ℤ) (mem : Bool) :
    Option ℕ :=
  let portMax : ℤ := if isIn then t.maxInHopId port else t.maxOutHopId port
  let lo := if !t.isNhi port ∧ lo < 8 then 8 else lo
  let hi := if hi < 0 ∨ portMax < hi then portMax else hi
  if mem then Idas.allocRange (ids (isIn, port)) lo hi else none

def inPortOf (linkNr : ℕ) (p : Port) : Port :=
  match t.dualLinkPort p with
  | none => p
  | some dual => if !t.bonded p ∧ t.linkNr p ≠ linkNr then dual else p

def outPortOf (linkNr : ℕ) (inPort p : Port) : Port :=
  match t.dualLinkPort p with
  | none => p
  | some dual =>
    if !t.bonded inPort ∧ t.bonded p ∧ t.linkNr p ≠ 0 then dual
    else if !t.bonded p ∧ t.linkNr p ≠ linkNr then dual
    else p

end Topology

/-- The arguments of `tb_path_alloc`, in a topology. -/
structure PathArgs where
  t : Topology
  src : Port
  srcHopid : ℤ
  dst : Port
  dstHopid : ℤ
  linkNr : ℕ
  mem : PathMem := {}

section Alloc

variable (a : PathArgs)

/-- The input side of hop `i`: the port and its HopID, which is the output HopID before it. -/
def hopIn (ids : Hopids) (i : ℕ) (inHopid : ℤ) (outPort : Option Port) : Option (Port × ℕ) :=
  match a.t.nextPortOnPath a.src a.dst outPort with
  | none => none
  | some p =>
    let inPort := a.t.inPortOf a.linkNr p
    (a.t.portAllocHopid ids inPort true inHopid inHopid (a.mem.inHopid i)).map (inPort, ·)

/-- The output side of hop `i` of `numHops`: any HopID, but for the last hop. -/
def hopOut (ids : Hopids) (numHops i : ℕ) (inPort : Port) : Option (Port × ℕ) :=
  match a.t.nextPortOnPath a.src a.dst (some inPort) with
  | none => none
  | some p =>
    let outPort := a.t.outPortOf a.linkNr inPort p
    let hopid := if i = numHops - 1 then a.dstHopid else -1
    (a.t.portAllocHopid ids outPort false hopid hopid (a.mem.outHopid i)).map (outPort, ·)

/-- What the loop over the hops leaves: the allocators, the hops filled in, and whether it got to
its end. -/
structure Walked where
  ids : Hopids
  hops : List Hop
  done : Bool

/-- The loop over the hops of `tb_path_alloc`, with `n` hops to go. -/
def allocHops (numHops : ℕ) : ℕ → ℕ → Hopids → ℤ → Option Port → List Hop → Walked
  | 0, _, ids, _, _, hops => ⟨ids, hops, true⟩
  | n + 1, i, ids, inHopid, outPort, hops =>
    match hopIn a ids i inHopid outPort with
    | none => ⟨ids, hops, false⟩
    | some (inPort, inId) =>
      let ids := ids.mark (true, inPort) inId true
      match hopOut a ids numHops i inPort with
      | none => ⟨ids, hops, false⟩
      | some (outPort, outId) =>
        allocHops numHops n (i + 1) (ids.mark (false, outPort) outId true) outId (some outPort)
          (hops ++ [⟨inPort, inId, outPort, outId⟩])

def Hop.hopids (hop : Hop) : List ((Bool × Port) × ℕ) :=
  [((true, hop.inPort), hop.inHopIndex), ((false, hop.outPort), hop.nextHopIndex)]

/-- `tb_path_free`: the HopIDs of the first `path_length` hops are given back. -/
def pathFree (ids : Hopids) (path : Path) : Hopids :=
  if path.allocHopid then ids.release ((path.hops.take path.pathLength).flatMap Hop.hopids) else ids

/-- What `tb_path_alloc` leaves: the allocators and the path, if it returns one. -/
structure Allocated where
  ids : Hopids
  path : Option Path

def numHopsOf (ports : List Port) : Option ℕ :=
  if ports.head? = some a.src ∧ ports.getLast? = some a.dst then some (ports.length / 2) else none

/-- `tb_path_alloc`, if its walk over the ports takes at most `fuel` steps.  The length of the path
is filled in at the end, so a path freed before has none. -/
def pathAlloc (fuel : ℕ) (ids : Hopids) : Option Allocated :=
  if !a.mem.path then some ⟨ids, none⟩
  else (a.t.portsOnPath a.src a.dst fuel none).map fun ports ↦
    match numHopsOf a ports with
    | none => ⟨ids, none⟩
    | some numHops =>
      if !a.mem.hops then ⟨ids, none⟩
      else
        let walked := allocHops a numHops numHops 0 ids a.srcHopid none []
        if walked.done then
          ⟨walked.ids, some { allocHopid := true, hops := walked.hops, pathLength := numHops }⟩
        else
          ⟨pathFree walked.ids { allocHopid := true, hops := walked.hops, pathLength := 0 }, none⟩

end Alloc

/-! ## What the loop takes -/

section Taken

variable {a : PathArgs} {numHops n i h : ℕ} {ids ids₀ : Hopids} {inHopid : ℤ}
variable {outPort : Option Port} {hops : List Hop} {p p' : Port}

theorem portAllocHopid_free {t : Topology} {isIn mem : Bool} {lo hi : ℤ}
    (halloc : t.portAllocHopid ids p isIn lo hi mem = some h) : ids (isIn, p) h = false := by
  cases mem with
  | false => simp [Topology.portAllocHopid] at halloc
  | true =>
    simp only [Topology.portAllocHopid, if_true] at halloc
    exact Idas.allocRange_free halloc

theorem hopIn_free (hin : hopIn a ids i inHopid outPort = some (p, h)) :
    ids (true, p) h = false := by
  unfold hopIn at hin
  split at hin
  · cases hin
  · obtain ⟨h', halloc, heq⟩ := Option.map_eq_some_iff.mp hin
    cases heq
    exact portAllocHopid_free halloc

theorem hopOut_free (hout : hopOut a ids numHops i p = some (p', h)) :
    ids (false, p') h = false := by
  unfold hopOut at hout
  split at hout
  · cases hout
  · obtain ⟨h', halloc, heq⟩ := Option.map_eq_some_iff.mp hout
    cases heq
    exact portAllocHopid_free halloc

/-- The loop takes the HopIDs of the hops it fills in, and at most one more: the input HopID of the
hop it fails in. -/
theorem allocHops_taken (htaken : Idas.Taken ids₀ ids (hops.flatMap Hop.hopids)) :
    ∃ rest, Idas.Taken ids₀ (allocHops a numHops n i ids inHopid outPort hops).ids
        ((allocHops a numHops n i ids inHopid outPort hops).hops.flatMap Hop.hopids ++ rest) ∧
      ((allocHops a numHops n i ids inHopid outPort hops).done = true → rest = []) := by
  -- the invariant of the loop is that the hops so far tell all that is taken
  induction n generalizing i ids inHopid outPort hops with
  | zero => exact ⟨[], by simpa [allocHops] using htaken, fun _ ↦ rfl⟩
  | succ n ih =>
    rw [allocHops]
    cases hin : hopIn a ids i inHopid outPort with
    | none => exact ⟨[], by simpa using htaken, fun _ ↦ rfl⟩
    | some inHop =>
      have hmarked := htaken.take (hopIn_free hin)
      cases hout : hopOut a (ids.mark (true, inHop.1) inHop.2 true) numHops i inHop.1 with
      | none => exact ⟨[((true, inHop.1), inHop.2)], by simpa [hout] using hmarked, by simp [hout]⟩
      | some outHop =>
        have hboth := hmarked.take (hopOut_free hout)
        simp only [hout]
        apply ih
        simpa [Hop.hopids] using hboth

theorem allocHops_prefix : hops <+: (allocHops a numHops n i ids inHopid outPort hops).hops := by
  induction n generalizing i ids inHopid outPort hops with
  | zero => exact List.prefix_rfl
  | succ n ih =>
    rw [allocHops]
    cases hin : hopIn a ids i inHopid outPort with
    | none => exact List.prefix_rfl
    | some inHop =>
      cases hout : hopOut a (ids.mark (true, inHop.1) inHop.2 true) numHops i inHop.1 with
      | none => simp [hout]
      | some outHop =>
        simp only [hout]
        exact (List.prefix_append hops _).trans ih

/-- A loop that gets to its end finds both sides of its next hop and goes on behind it. -/
theorem allocHops_done_succ
    (hdone : (allocHops a numHops (n + 1) i ids inHopid outPort hops).done = true) :
    ∃ inHop outHop, hopIn a ids i inHopid outPort = some inHop ∧
      hopOut a (ids.mark (true, inHop.1) inHop.2 true) numHops i inHop.1 = some outHop ∧
      allocHops a numHops (n + 1) i ids inHopid outPort hops =
        allocHops a numHops n (i + 1)
          ((ids.mark (true, inHop.1) inHop.2 true).mark (false, outHop.1) outHop.2 true) outHop.2
          (some outHop.1) (hops ++ [⟨inHop.1, inHop.2, outHop.1, outHop.2⟩]) := by
  rw [allocHops] at hdone ⊢
  cases hin : hopIn a ids i inHopid outPort with
  | none => simp [hin] at hdone
  | some inHop =>
    cases hout : hopOut a (ids.mark (true, inHop.1) inHop.2 true) numHops i inHop.1 with
    | none => simp [hin, hout] at hdone
    | some outHop => exact ⟨inHop, outHop, rfl, hout, by simp only [hout]⟩

/-- A loop that gets to its end has filled in every hop. -/
theorem allocHops_length
    (hdone : (allocHops a numHops n i ids inHopid outPort hops).done = true) :
    (allocHops a numHops n i ids inHopid outPort hops).hops.length = hops.length + n := by
  induction n generalizing i ids inHopid outPort hops with
  | zero => rfl
  | succ n ih =>
    obtain ⟨inHop, outHop, -, -, heq⟩ := allocHops_done_succ hdone
    rw [heq] at hdone ⊢
    have hlen := ih hdone
    simp only [List.length_append, List.length_singleton] at hlen
    omega

end Taken

/-- There is room for `n` hops from hop `i` on, after `outPort`: each has a port and a free HopID on
either side once those before it are taken. -/
inductive Room (a : PathArgs) (numHops : ℕ) : ℕ → ℕ → Hopids → ℤ → Option Port → Prop
  | nil {i ids inHopid outPort} : Room a numHops 0 i ids inHopid outPort
  | cons {n i ids inHopid outPort inPort inId outPort' outId}
      (hin : hopIn a ids i inHopid outPort = some (inPort, inId))
      (hout : hopOut a (ids.mark (true, inPort) inId true) numHops i inPort =
        some (outPort', outId))
      (hrest : Room a numHops n (i + 1)
        ((ids.mark (true, inPort) inId true).mark (false, outPort') outId true) outId
        (some outPort')) :
      Room a numHops (n + 1) i ids inHopid outPort

section Room

variable {a : PathArgs} {numHops n i : ℕ} {ids : Hopids} {inHopid : ℤ} {outPort : Option Port}
variable {hops : List Hop}

theorem allocHops_done_iff :
    (allocHops a numHops n i ids inHopid outPort hops).done = true ↔
      Room a numHops n i ids inHopid outPort := by
  induction n generalizing i ids inHopid outPort hops with
  | zero => exact ⟨fun _ ↦ .nil, fun _ ↦ rfl⟩
  | succ n ih =>
    constructor
    · intro hdone
      obtain ⟨inHop, outHop, hin, hout, heq⟩ := allocHops_done_succ hdone
      exact .cons hin hout (ih.mp (heq ▸ hdone))
    · intro hroom
      cases hroom with
      | cons hin hout hrest =>
        simp only [allocHops, hin, hout]
        exact ih.mpr hrest

/-- A loop that fails after the input HopID of its first hop has taken something. -/
theorem allocHops_changes {inHop : Port × ℕ} (hin : hopIn a ids i inHopid outPort = some inHop) :
    (allocHops a numHops (n + 1) i ids inHopid outPort []).ids ≠ ids := by
  have hmarked := (Idas.Taken.refl ids).take (hopIn_free hin)
  cases hout : hopOut a (ids.mark (true, inHop.1) inHop.2 true) numHops i inHop.1 with
  | none =>
    rw [allocHops]
    simp only [hin, hout]
    exact hmarked.ne (by simp)
  | some outHop =>
    have hboth := hmarked.take (hopOut_free hout)
    let hop : Hop := ⟨inHop.1, inHop.2, outHop.1, outHop.2⟩
    rw [allocHops]
    simp only [hin, hout, List.nil_append]
    have hstart : Idas.Taken ids ((ids.mark (true, inHop.1) inHop.2 true).mark (false, outHop.1)
        outHop.2 true) ([hop].flatMap Hop.hopids) := by
      simpa [hop, Hop.hopids] using hboth
    obtain ⟨rest, htaken, -⟩ := allocHops_taken hstart
    apply htaken.ne
    -- the first hop stays filled in, whatever becomes of the others
    obtain ⟨more, hmore⟩ := allocHops_prefix
    rw [← hmore]
    simp [hop, Hop.hopids]

end Room

/-! ## Conservation -/

/-- The allocators are as they were once a failed allocation has returned, or once the path it
returned has been freed. -/
def Allocated.Conserves (r : Allocated) (ids : Hopids) : Prop :=
  (r.path = none → r.ids = ids) ∧ ∀ path, r.path = some path → pathFree r.ids path = ids

/-- The number of hops the loop is started with, if the allocation gets to it. -/
def hopsToTake (a : PathArgs) (fuel : ℕ) : Option ℕ :=
  if a.mem.path ∧ a.mem.hops then (a.t.portsOnPath a.src a.dst fuel none).bind (numHopsOf a)
  else none

section Conserve

variable {a : PathArgs} {fuel numHops : ℕ} {ids : Hopids} {r : Allocated} {ports : List Port}

theorem Allocated.conserves_none : (Allocated.mk ids none).Conserves ids :=
  ⟨fun _ ↦ rfl, by simp⟩

/-- Freeing the path of a finished loop restores the allocators. -/
theorem pathFree_allocHops
    (hdone : (allocHops a numHops numHops 0 ids a.srcHopid none []).done = true) :
    pathFree (allocHops a numHops numHops 0 ids a.srcHopid none []).ids
      { allocHopid := true, hops := (allocHops a numHops numHops 0 ids a.srcHopid none []).hops,
        pathLength := numHops } = ids := by
  have hlen := allocHops_length hdone
  rw [List.length_nil, Nat.zero_add] at hlen
  have hstart : Idas.Taken ids ids (([] : List Hop).flatMap Hop.hopids) := Idas.Taken.refl ids
  obtain ⟨rest, htaken, hrest⟩ := allocHops_taken hstart
  rw [hrest hdone, List.append_nil] at htaken
  simp only [pathFree, if_true, List.take_of_length_le hlen.le]
  exact htaken.release

/-- A loop that stops on the way leaves the allocators as they were only if it took nothing. -/
theorem allocHops_unchanged_iff
    (hdone : (allocHops a numHops numHops 0 ids a.srcHopid none []).done = false) :
    (allocHops a numHops numHops 0 ids a.srcHopid none []).ids = ids ↔
      hopIn a ids 0 a.srcHopid none = none := by
  cases numHops with
  | zero => simp [allocHops] at hdone
  | succ n =>
    constructor
    · intro hsame
      cases hin : hopIn a ids 0 a.srcHopid none with
      | none => rfl
      | some inHop => exact absurd hsame (allocHops_changes hin)
    · intro hin
      simp [allocHops, hin]

/-- An allocation that does not get to its loop leaves the allocators alone. -/
theorem pathAlloc_of_hopsToTake_none (hr : pathAlloc a fuel ids = some r)
    (hnone : hopsToTake a fuel = none) : r = ⟨ids, none⟩ := by
  unfold pathAlloc at hr
  unfold hopsToTake at hnone
  cases hpath : a.mem.path with
  | false => simpa [hpath] using hr.symm
  | true =>
    simp only [hpath, Bool.not_true, Bool.false_eq_true, if_false] at hr
    obtain ⟨ports, hports, hlast⟩ := Option.map_eq_some_iff.mp hr
    rw [← hlast]
    cases hnum : numHopsOf a ports with
    | none => rfl
    | some numHops =>
      have hhops : a.mem.hops = false := by simpa [hpath, hports, hnum] using hnone
      simp [hhops]

/-- An allocation that gets to its loop returns a path if the loop gets to its end, and otherwise
what the loop has taken stays taken. -/
theorem pathAlloc_of_hopsToTake_some (hr : pathAlloc a fuel ids = some r)
    (hsome : hopsToTake a fuel = some numHops) :
    r = if (allocHops a numHops numHops 0 ids a.srcHopid none []).done then
        ⟨(allocHops a numHops numHops 0 ids a.srcHopid none []).ids,
          some { allocHopid := true, pathLength := numHops,
                 hops := (allocHops a numHops numHops 0 ids a.srcHopid none []).hops }⟩
      else ⟨(allocHops a numHops numHops 0 ids a.srcHopid none []).ids, none⟩ := by
  unfold hopsToTake at hsome
  split at hsome
  · rename_i hmem
    obtain ⟨ports, hports, hnum⟩ := Option.bind_eq_some_iff.mp hsome
    simpa [pathAlloc, hmem.1, hmem.2, hports, hnum, pathFree, Idas.release] using hr.symm
  · cases hsome

end Conserve

/-- The HopIDs are conserved by an allocation exactly if it fails before it takes the first one or
finds room for all its hops.  A failure after the first HopID gives nothing back. -/
theorem path_hopids_conserved_iff (a : PathArgs) (fuel : ℕ) (ids : Hopids) (r : Allocated)
    (hr : pathAlloc a fuel ids = some r) :
    r.Conserves ids ↔ ∀ numHops, hopsToTake a fuel = some numHops →
      hopIn a ids 0 a.srcHopid none = none ∨ Room a numHops numHops 0 ids a.srcHopid none := by
  cases htake : hopsToTake a fuel with
  | none =>
    rw [pathAlloc_of_hopsToTake_none hr htake]
    simp [Allocated.conserves_none]
  | some numHops =>
    rw [pathAlloc_of_hopsToTake_some hr htake]
    cases hdone : (allocHops a numHops numHops 0 ids a.srcHopid none []).done with
    | true =>
      have hfree := pathFree_allocHops hdone
      have hroom := allocHops_done_iff.mp hdone
      simp [Allocated.Conserves, hroom, hfree]
    | false =>
      have hsame := allocHops_unchanged_iff hdone
      have hno : ¬ Room a numHops numHops 0 ids a.srcHopid none := by
        intro hroom
        rw [allocHops_done_iff.mpr hroom] at hdone
        cases hdone
      simp [Allocated.Conserves, hno, hsame]

def KeepsHopids (a : PathArgs) (fuel : ℕ) (ids : Hopids) : Prop :=
  ∀ numHops, hopsToTake a fuel = some numHops →
    hopIn a ids 0 a.srcHopid none = none ∨ Room a numHops numHops 0 ids a.srcHopid none

section Returned

variable {a : PathArgs} {fuel numHops : ℕ} {ids : Hopids} {r : Allocated} {path : Path}

/-- The first hop starts at the source, or at the other lane of its link. -/
theorem hopIn_port {i : ℕ} {inHopid : ℤ} {inHop : Port × ℕ}
    (hin : hopIn a ids i inHopid none = some inHop) :
    inHop.1 = a.t.inPortOf a.linkNr a.src := by
  simp only [hopIn, Topology.nextPortOnPath] at hin
  obtain ⟨h, -, heq⟩ := Option.map_eq_some_iff.mp hin
  rw [← heq]

/-- A HopID that is asked for is the one that is given. -/
theorem portAllocHopid_exact {t : Topology} {isIn mem : Bool} {p : Port} {hopid : ℤ} {h : ℕ}
    (hnonneg : 0 ≤ hopid) (halloc : t.portAllocHopid ids p isIn hopid hopid mem = some h) :
    (h : ℤ) = hopid := by
  cases mem with
  | false => simp [Topology.portAllocHopid] at halloc
  | true =>
    simp only [Topology.portAllocHopid, if_true] at halloc
    have hrange := Idas.allocRange_range halloc
    split at hrange <;> split at hrange <;> omega

theorem hopIn_exact {i : ℕ} {hopid : ℤ} {outPort : Option Port} {inHop : Port × ℕ}
    (hnonneg : 0 ≤ hopid) (hin : hopIn a ids i hopid outPort = some inHop) :
    (inHop.2 : ℤ) = hopid := by
  unfold hopIn at hin
  split at hin
  · cases hin
  · obtain ⟨h, halloc, heq⟩ := Option.map_eq_some_iff.mp hin
    rw [← heq]
    exact portAllocHopid_exact hnonneg halloc

theorem hopOut_last {inPort : Port} {outHop : Port × ℕ} (hnonneg : 0 ≤ a.dstHopid)
    (hout : hopOut a ids numHops (numHops - 1) inPort = some outHop) :
    (outHop.2 : ℤ) = a.dstHopid := by
  unfold hopOut at hout
  split at hout
  · cases hout
  · obtain ⟨h, halloc, heq⟩ := Option.map_eq_some_iff.mp hout
    rw [← heq]
    simp only [if_true] at halloc
    exact portAllocHopid_exact hnonneg halloc

/-- The first hop of a path is the one the loop starts with. -/
theorem allocHops_head {hop : Hop}
    (hhead : (allocHops a numHops numHops 0 ids a.srcHopid none []).hops.head? = some hop) :
    hopIn a ids 0 a.srcHopid none = some (hop.inPort, hop.inHopIndex) := by
  cases numHops with
  | zero => simp [allocHops] at hhead
  | succ n =>
    rw [allocHops] at hhead
    cases hin : hopIn a ids 0 a.srcHopid none with
    | none => simp [hin] at hhead
    | some inHop =>
      cases hout : hopOut a (ids.mark (true, inHop.1) inHop.2 true) (n + 1) 0 inHop.1 with
      | none => simp [hin, hout] at hhead
      | some outHop =>
        simp only [hin, hout, List.nil_append] at hhead
        let first : Hop := ⟨inHop.1, inHop.2, outHop.1, outHop.2⟩
        obtain ⟨more, hmore⟩ : [first] <+: (allocHops a (n + 1) n (0 + 1) _ _ _ [first]).hops :=
          allocHops_prefix
        rw [← hmore] at hhead
        rw [← Option.some.inj hhead]

/-- The last hop of a path is given the HopID of the destination. -/
theorem allocHops_getLast {n i : ℕ} {inHopid : ℤ} {outPort : Option Port} {hops : List Hop}
    {hop : Hop} (hcount : i + (n + 1) = numHops)
    (hdone : (allocHops a numHops (n + 1) i ids inHopid outPort hops).done = true)
    (hlast : (allocHops a numHops (n + 1) i ids inHopid outPort hops).hops.getLast? = some hop) :
    ∃ ids', hopOut a ids' numHops (numHops - 1) hop.inPort =
      some (hop.outPort, hop.nextHopIndex) := by
  induction n generalizing i ids inHopid outPort hops with
  | zero =>
    obtain ⟨inHop, outHop, -, hout, heq⟩ := allocHops_done_succ hdone
    rw [heq] at hlast
    simp only [allocHops, List.getLast?_append, List.getLast?_singleton, Option.some_or] at hlast
    rw [← Option.some.inj hlast]
    obtain rfl : numHops = i + 1 := hcount.symm
    exact ⟨_, hout⟩
  | succ n ih =>
    obtain ⟨inHop, outHop, -, -, heq⟩ := allocHops_done_succ hdone
    rw [heq] at hdone hlast
    exact ih (by omega) hdone hlast

/-- A path is returned if the allocation gets to its loop and there is room for all hops, and it has
the hops that the loop filled in. -/
theorem pathAlloc_path_iff (hr : pathAlloc a fuel ids = some r) :
    r.path = some path ↔ ∃ numHops, hopsToTake a fuel = some numHops ∧
      Room a numHops numHops 0 ids a.srcHopid none ∧
      path = { allocHopid := true, pathLength := numHops,
               hops := (allocHops a numHops numHops 0 ids a.srcHopid none []).hops } := by
  cases htake : hopsToTake a fuel with
  | none =>
    rw [pathAlloc_of_hopsToTake_none hr htake]
    simp
  | some numHops =>
    have hiff : (allocHops a numHops numHops 0 ids a.srcHopid none []).done = true ↔ _ :=
      allocHops_done_iff
    rw [pathAlloc_of_hopsToTake_some hr htake]
    simp only [Option.some.injEq, exists_eq_left', ← hiff]
    split
    · next hdone => simp [hdone, eq_comm]
    · next hdone => simp [hdone]

/-- What an allocation has taken: the HopIDs of its path, or some that are lost unless all or none
could be taken. -/
theorem pathAlloc_taken (hr : pathAlloc a fuel ids = some r) :
    (∃ path, r.path = some path ∧ Idas.Taken ids r.ids (path.hops.flatMap Hop.hopids) ∧
      KeepsHopids a fuel ids) ∨
    r.path = none ∧ ∃ lost, Idas.Taken ids r.ids lost ∧ (lost = [] ↔ KeepsHopids a fuel ids) := by
  have hstart : Idas.Taken ids ids (([] : List Hop).flatMap Hop.hopids) := Idas.Taken.refl ids
  cases htake : hopsToTake a fuel with
  | none =>
    right
    rw [pathAlloc_of_hopsToTake_none hr htake]
    exact ⟨rfl, [], Idas.Taken.refl ids, by simp [KeepsHopids, htake]⟩
  | some numHops =>
    have hkeeps : KeepsHopids a fuel ids ↔ hopIn a ids 0 a.srcHopid none = none ∨
        Room a numHops numHops 0 ids a.srcHopid none := by
      simp [KeepsHopids, htake]
    obtain ⟨rest, htaken, hrest⟩ := allocHops_taken hstart
    rw [pathAlloc_of_hopsToTake_some hr htake, hkeeps]
    cases hdone : (allocHops a numHops numHops 0 ids a.srcHopid none []).done with
    | true =>
      left
      rw [hrest hdone, List.append_nil] at htaken
      exact ⟨_, rfl, htaken, .inr (allocHops_done_iff.1 hdone)⟩
    | false =>
      right
      refine ⟨rfl, _, htaken, ?_⟩
      have hno : ¬ Room a numHops numHops 0 ids a.srcHopid none := by
        intro hroom
        rw [allocHops_done_iff.2 hroom] at hdone
        cases hdone
      rw [← allocHops_unchanged_iff hdone, or_iff_left hno]
      constructor
      · intro hnone
        rw [hnone] at htaken
        funext k n
        simp [htaken.used]
      · intro hsame
        by_contra hne
        exact htaken.ne hne hsame

/-- Only a path from a port to itself has no hops. -/
theorem hopsToTake_eq_zero_iff (htake : hopsToTake a fuel = some numHops) :
    numHops = 0 ↔ a.src = a.dst := by
  unfold hopsToTake at htake
  split at htake
  · obtain ⟨ports, hports, hnum⟩ := Option.bind_eq_some_iff.1 htake
    unfold numHopsOf at hnum
    split at hnum
    · next hends =>
      obtain rfl := Option.some.inj hnum
      constructor
      · intro hzero
        cases ports with
        | nil => cases hends.1
        | cons p rest =>
          have hrest : rest = [] := by
            rw [List.length_cons] at hzero
            exact List.length_eq_zero_iff.1 (by omega)
          subst hrest
          exact (Option.some.inj hends.1).symm.trans (Option.some.inj hends.2)
      · intro hsame
        rcases fuel with _ | _ | fuel
        · cases hports
        · simp [Topology.portsOnPath, Topology.nextPortOnPath] at hports
        · simp only [Topology.portsOnPath, Topology.nextPortOnPath, hsame, if_true, Option.map_some,
            Option.some.injEq] at hports
          simp [← hports]
    · cases hnum
  · cases htake

end Returned

def pairTopology : Topology where
  route sw := sw
  depth sw := sw
  upstreamPort _ := 1
  maxPort _ := 2
  remote p := if p = ⟨0, 1⟩ then some ⟨1, 1⟩ else if p = ⟨1, 1⟩ then some ⟨0, 1⟩ else none
  dualLinkPort _ := none
  linkNr _ := 0
  bonded _ := false
  isNhi _ := false
  maxInHopId _ := 8
  maxOutHopId _ := 8

def pairPath : PathArgs where
  t := pairTopology
  src := ⟨0, 2⟩
  srcHopid := 8
  dst := ⟨1, 2⟩
  dstHopid := 8
  linkNr := 0

def pairUsed : Hopids := Idas.mark (fun _ _ ↦ false) (true, ⟨1, 1⟩) 8 true

theorem path_hopids_conserved_pair :
    ∃ r, pathAlloc pairPath 8 (fun _ _ ↦ false) = some r ∧ r.path.isSome = true ∧
      r.Conserves fun _ _ ↦ false := by
  refine ⟨_, rfl, rfl, (path_hopids_conserved_iff pairPath 8 _ _ rfl).mpr ?_⟩
  intro numHops htake
  have htwo : hopsToTake pairPath 8 = some 2 := rfl
  obtain rfl : numHops = 2 := Option.some.inj (htake.symm.trans htwo)
  have hdone : (allocHops pairPath 2 2 0 (fun _ _ ↦ false) pairPath.srcHopid none []).done = true :=
    rfl
  exact .inr (allocHops_done_iff.mp hdone)

/-- The second hop fails: the HopIDs of the first hop stay in use, with no path to tell them. -/
theorem path_hopids_leak :
    ∃ r, pathAlloc pairPath 8 pairUsed = some r ∧ r.path = none ∧
      pairUsed (true, ⟨0, 2⟩) 8 = false ∧ r.ids (true, ⟨0, 2⟩) 8 = true ∧
      pairUsed (false, ⟨0, 1⟩) 8 = false ∧ r.ids (false, ⟨0, 1⟩) 8 = true :=
  ⟨_, rfl, rfl, rfl, rfl, rfl, rfl⟩

end ThunderboltStack.Cm
