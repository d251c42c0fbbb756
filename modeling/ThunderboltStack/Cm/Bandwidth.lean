import ThunderboltStack.Cm.Path
import Mathlib.Algebra.BigOperators.Intervals
import Mathlib.Algebra.Order.Ring.Int
import Mathlib.Order.Interval.Finset.Nat

/-!
# Reservations of bandwidth groups

`tb_consumed_dp_bandwidth` of `tb.c`: what the DP tunnels over one link consume, together with what
their bandwidth groups have reserved.  A reservation is for all tunnels of a group, so it has to be
counted once; the function remembers the groups it has met in an array on its stack.
-/

namespace ThunderboltStack.Cm

/-- `MAX_GROUPS`, the number of bandwidth groups and the size of `group_reserved`. -/
def maxGroups : ℕ := 7

/-- `struct tb_tunnel`, with what `tb_tunnel_consumed_bandwidth` reads for it: upstream and
downstream bandwidth, or an error. -/
structure Tunnel where
  isDp : Bool
  srcPort : Port
  dstPort : Port
  paths : List (Option Path)
  consumed : Except ℤ (ℤ × ℤ)

def Path.isInvalid (isUnplugged : ℕ → Bool) (path : Path) : Bool :=
  (path.hops.take path.pathLength).any fun hop ↦
    isUnplugged hop.inPort.sw || isUnplugged hop.outPort.sw

def Path.portOnPath (path : Path) (port : Port) : Bool :=
  (path.hops.take path.pathLength).any fun hop ↦ hop.inPort == port || hop.outPort == port

def Tunnel.isInvalid (isUnplugged : ℕ → Bool) (tunnel : Tunnel) : Bool :=
  isUnplugged tunnel.srcPort.sw || isUnplugged tunnel.dstPort.sw ||
    tunnel.paths.any fun path ↦ path.any (·.isInvalid isUnplugged)

def Tunnel.portOnPath (tunnel : Tunnel) (port : Port) : Bool :=
  tunnel.paths.any fun path ↦ path.any (·.portOnPath port)

/-- The arguments of `tb_consumed_dp_bandwidth`, and what it reads of routers, ports and groups. -/
structure DpQuery where
  srcPort : Port
  dstPort : Port
  port : Port
  isUnplugged : ℕ → Bool
  depth : ℕ → ℕ
  /-- The index of `port->group`. -/
  group : Port → Option ℕ
  /-- `reserved` of the group with an index. -/
  reserved : ℕ → ℤ

/-- The locals of `tb_consumed_dp_bandwidth`: the stack from `group_reserved` upwards, the indices
that were used into it, and the two sums. -/
structure DpScan where
  groupReserved : ℕ → ℤ
  used : List ℕ := []
  consumedUp : ℤ := 0
  consumedDown : ℤ := 0

namespace DpQuery

variable (q : DpQuery)

def crosses (tunnel : Tunnel) : Bool :=
  !tunnel.isInvalid q.isUnplugged && tunnel.isDp && tunnel.portOnPath q.port

def isOwn (tunnel : Tunnel) : Bool :=
  tunnel.srcPort == q.srcPort && tunnel.dstPort == q.dstPort

def noteGroup (tunnel : Tunnel) (acc : DpScan) : DpScan :=
  match q.group tunnel.srcPort with
  | none => acc
  | some index =>
    if q.reserved index = 0 then acc
    else
      { acc with
        groupReserved :=
          if acc.groupReserved index = 0 then
            Function.update acc.groupReserved index (q.reserved index)
          else acc.groupReserved
        used := index :: acc.used }

/-- The loop over `tunnel_list`, with the error it stops with. -/
def scan : List Tunnel → DpScan → DpScan × Option ℤ
  | [], acc => (acc, none)
  | tunnel :: rest, acc =>
    if q.crosses tunnel then
      let acc := q.noteGroup tunnel acc
      if q.isOwn tunnel then scan rest acc
      else
        match tunnel.consumed with
        | .error ret => (acc, some ret)
        | .ok (up, down) =>
          scan rest { acc with
            consumedUp := acc.consumedUp + up
            consumedDown := acc.consumedDown + down }
    else scan rest acc

def downstream : Bool := q.depth q.srcPort.sw < q.depth q.dstPort.sw

/-- The stack of a call: the array is cleared, and `stack` lies behind it. -/
def start (stack : ℕ → ℤ) : DpScan where
  groupReserved i := if i < maxGroups then 0 else stack i

/-- `tb_consumed_dp_bandwidth`: the upstream and downstream bandwidth, or an error. -/
def consumedDpBandwidth (stack : ℕ → ℤ) (tunnels : List Tunnel) : Except ℤ (ℤ × ℤ) :=
  match q.scan tunnels (start stack) with
  | (_, some ret) => .error ret
  | (acc, none) =>
    let reserved := ((List.range maxGroups).map acc.groupReserved).sum
    if q.downstream then .ok (acc.consumedUp, acc.consumedDown + reserved)
    else .ok (acc.consumedUp + reserved, acc.consumedDown)

/-- The indices into `group_reserved` that a call uses. -/
def usedIndices (stack : ℕ → ℤ) (tunnels : List Tunnel) : List ℕ :=
  (q.scan tunnels (start stack)).1.used

/-! ## What is to be counted -/

def bandwidth (tunnel : Tunnel) : ℤ × ℤ :=
  match tunnel.consumed with
  | .error _ => 0
  | .ok b => b

/-- The tunnels whose bandwidth counts: valid DP tunnels over the port, except for the own one. -/
def counted (tunnels : List Tunnel) : List Tunnel :=
  tunnels.filter fun tunnel ↦ q.crosses tunnel && !q.isOwn tunnel

def GroupCrosses (tunnels : List Tunnel) (index : ℕ) : Prop :=
  ∃ tunnel ∈ tunnels, q.crosses tunnel = true ∧ q.group tunnel.srcPort = some index

instance (tunnels : List Tunnel) (index : ℕ) : Decidable (q.GroupCrosses tunnels index) :=
  inferInstanceAs (Decidable (∃ tunnel ∈ tunnels, _))

def groupsReserved (tunnels : List Tunnel) : ℤ :=
  ∑ index ∈ Finset.Icc 1 maxGroups with q.GroupCrosses tunnels index, q.reserved index

/-- The DP bandwidth over the port, upstream and downstream. -/
def dpBandwidth (tunnels : List Tunnel) : ℤ × ℤ :=
  ((q.counted tunnels).map bandwidth).sum +
    if q.downstream then (0, q.groupsReserved tunnels) else (q.groupsReserved tunnels, 0)

/-- The tunnels that the loop comes to: up to the first one that cannot be read. -/
def visited : List Tunnel → List Tunnel
  | [] => []
  | tunnel :: rest =>
    let failed := q.crosses tunnel && !q.isOwn tunnel && !tunnel.consumed.isOk
    tunnel :: if failed then [] else visited rest

variable {q}

theorem groupCrosses_cons {tunnel : Tunnel} {rest : List Tunnel} {index : ℕ} :
    q.GroupCrosses (tunnel :: rest) index ↔
      q.crosses tunnel = true ∧ q.group tunnel.srcPort = some index ∨
        q.GroupCrosses rest index := by
  simp [GroupCrosses]

theorem groupCrosses_append {front rest : List Tunnel} {index : ℕ} :
    q.GroupCrosses (front ++ rest) index ↔
      q.GroupCrosses front index ∨ q.GroupCrosses rest index := by
  simp [GroupCrosses, or_and_right, exists_or]

/-- How the loop and the tunnels it comes to go on, by what the first tunnel is. -/
theorem scan_cases (q : DpQuery) (tunnel : Tunnel) (rest : List Tunnel) (acc : DpScan) :
    q.crosses tunnel = false ∧ q.scan (tunnel :: rest) acc = q.scan rest acc ∧
        q.visited (tunnel :: rest) = tunnel :: q.visited rest ∨
      (q.crosses tunnel = true ∧ q.isOwn tunnel = true) ∧
        q.scan (tunnel :: rest) acc = q.scan rest (q.noteGroup tunnel acc) ∧
        q.visited (tunnel :: rest) = tunnel :: q.visited rest ∨
      (q.crosses tunnel = true ∧ q.isOwn tunnel = false) ∧
        (∃ ret, q.scan (tunnel :: rest) acc = (q.noteGroup tunnel acc, some ret)) ∧
        q.visited (tunnel :: rest) = [tunnel] ∨
      (q.crosses tunnel = true ∧ q.isOwn tunnel = false) ∧
        q.scan (tunnel :: rest) acc =
          q.scan rest { q.noteGroup tunnel acc with
            consumedUp := (q.noteGroup tunnel acc).consumedUp + (bandwidth tunnel).1
            consumedDown := (q.noteGroup tunnel acc).consumedDown + (bandwidth tunnel).2 } ∧
        q.visited (tunnel :: rest) = tunnel :: q.visited rest := by
  cases hc : q.crosses tunnel
  · simp [scan, visited, hc]
  · cases ho : q.isOwn tunnel
    · cases hb : tunnel.consumed with
      | error ret => simp [scan, visited, hc, ho, hb, Except.isOk, Except.toBool]
      | ok b => simp [scan, visited, hc, ho, hb, bandwidth, Except.isOk, Except.toBool]
    · simp [scan, visited, hc, ho]

/-- The groups noted are those from before and that of the tunnel, if it has a reservation. -/
theorem mem_used_noteGroup {tunnel : Tunnel} {acc : DpScan} {index : ℕ} :
    index ∈ (q.noteGroup tunnel acc).used ↔
      q.group tunnel.srcPort = some index ∧ q.reserved index ≠ 0 ∨ index ∈ acc.used := by
  unfold noteGroup
  split
  next hg => simp [hg]
  next other hg =>
    have hcase : ∀ n, q.group tunnel.srcPort = some n ↔ n = other := by
      intro n
      rw [hg, Option.some_inj, eq_comm]
    split
    next h0 =>
      constructor
      · exact Or.inr
      · intro h
        apply h.resolve_left
        intro hnew
        exact hnew.2 ((hcase index).1 hnew.1 ▸ h0)
    next h0 =>
      rw [hcase, List.mem_cons]
      apply or_congr_left
      constructor
      · intro h
        exact ⟨h, h ▸ h0⟩
      · exact And.left

@[simp] theorem noteGroup_consumedUp (tunnel : Tunnel) (acc : DpScan) :
    (q.noteGroup tunnel acc).consumedUp = acc.consumedUp := by
  unfold noteGroup
  split <;> try split
  all_goals rfl

@[simp] theorem noteGroup_consumedDown (tunnel : Tunnel) (acc : DpScan) :
    (q.noteGroup tunnel acc).consumedDown = acc.consumedDown := by
  unfold noteGroup
  split <;> try split
  all_goals rfl

/-- The indices that are used are those of the groups with a reservation that the loop meets. -/
theorem mem_used_scan {tunnels : List Tunnel} {acc : DpScan} {index : ℕ} :
    index ∈ (q.scan tunnels acc).1.used ↔
      q.GroupCrosses (q.visited tunnels) index ∧ q.reserved index ≠ 0 ∨ index ∈ acc.used := by
  induction tunnels generalizing acc with
  | nil => simp [scan, visited, GroupCrosses]
  | cons tunnel rest ih =>
    rcases q.scan_cases tunnel rest acc with
      ⟨hc, hs, hv⟩ | ⟨⟨hc, -⟩, hs, hv⟩ | ⟨⟨hc, -⟩, ⟨ret, hs⟩, hv⟩ | ⟨⟨hc, -⟩, hs, hv⟩
    · simp [hs, hv, ih, groupCrosses_cons, hc]
    · rw [hs, hv, ih, mem_used_noteGroup, groupCrosses_cons]
      tauto
    · rw [hs, hv, mem_used_noteGroup, groupCrosses_cons]
      simp [hc, GroupCrosses]
    · rw [hs, hv, ih, mem_used_noteGroup, groupCrosses_cons]
      tauto

/-- What the locals hold once the tunnels `met` are behind: each slot of the array has the
reservation of its group if one of them is in it, and the sums are those of the counted ones. -/
structure Scanned (q : DpQuery) (met : List Tunnel) (acc : DpScan) : Prop where
  slot : ∀ index < maxGroups,
    acc.groupReserved index = if q.GroupCrosses met index then q.reserved index else 0
  sums : (acc.consumedUp, acc.consumedDown) = ((q.counted met).map bandwidth).sum

theorem Scanned.start (stack : ℕ → ℤ) : q.Scanned [] (start stack) where
  slot index hlt := by simp [DpQuery.start, hlt, GroupCrosses]
  sums := rfl

theorem counted_append (front rest : List Tunnel) :
    q.counted (front ++ rest) = q.counted front ++ q.counted rest :=
  List.filter_append ..

/-- A slot is written at the first tunnel of its group, and kept at the others. -/
theorem Scanned.noteGroup_slot {met : List Tunnel} {acc : DpScan} {tunnel : Tunnel}
    (h : q.Scanned met acc) (hc : q.crosses tunnel = true) {index : ℕ} (hlt : index < maxGroups) :
    (q.noteGroup tunnel acc).groupReserved index =
      if q.GroupCrosses (met ++ [tunnel]) index then q.reserved index else 0 := by
  have hslot := h.slot index hlt
  have hmet : q.GroupCrosses (met ++ [tunnel]) index ↔
      q.GroupCrosses met index ∨ q.group tunnel.srcPort = some index := by
    rw [groupCrosses_append, groupCrosses_cons]
    simp [hc, GroupCrosses]
  simp only [hmet]
  unfold noteGroup
  split
  next hg => simpa [hg] using hslot
  next other hg =>
    simp only [hg, Option.some_inj]
    by_cases heq : other = index
    · subst heq
      -- A slot that is zero is one whose group was not met, since the reservation is not zero.
      by_cases hm : q.GroupCrosses met other
      · simp only [hm, if_true] at hslot
        by_cases h0 : q.reserved other = 0
        · simp [h0, hslot]
        · simp [h0, hslot]
      · simp only [hm, if_false] at hslot
        by_cases h0 : q.reserved other = 0
        · simp [h0, hslot]
        · simp [h0, hslot]
    · have hne : index ≠ other := fun h ↦ heq h.symm
      by_cases h0 : q.reserved other = 0
      · simpa [h0, heq] using hslot
      · by_cases hz : acc.groupReserved other = 0
        · simpa [h0, heq, hz, Function.update_of_ne hne] using hslot
        · simpa [h0, heq, hz] using hslot

theorem Scanned.skip {met : List Tunnel} {acc : DpScan} {tunnel : Tunnel}
    (h : q.Scanned met acc) (hc : q.crosses tunnel = false) : q.Scanned (met ++ [tunnel]) acc where
  slot index hlt := by
    have hmet : q.GroupCrosses (met ++ [tunnel]) index ↔ q.GroupCrosses met index := by
      rw [groupCrosses_append, groupCrosses_cons]
      simp [hc, GroupCrosses]
    simp only [hmet, h.slot index hlt]
  sums := by
    rw [h.sums, counted_append]
    simp [counted, hc]

theorem Scanned.own {met : List Tunnel} {acc : DpScan} {tunnel : Tunnel}
    (h : q.Scanned met acc) (hc : q.crosses tunnel = true) (ho : q.isOwn tunnel = true) :
    q.Scanned (met ++ [tunnel]) (q.noteGroup tunnel acc) where
  slot _ hlt := h.noteGroup_slot hc hlt
  sums := by
    rw [noteGroup_consumedUp, noteGroup_consumedDown, h.sums, counted_append]
    simp [counted, ho]

theorem Scanned.other {met : List Tunnel} {acc : DpScan} {tunnel : Tunnel}
    (h : q.Scanned met acc) (hc : q.crosses tunnel = true) (ho : q.isOwn tunnel = false) :
    q.Scanned (met ++ [tunnel]) { q.noteGroup tunnel acc with
      consumedUp := (q.noteGroup tunnel acc).consumedUp + (bandwidth tunnel).1
      consumedDown := (q.noteGroup tunnel acc).consumedDown + (bandwidth tunnel).2 } where
  slot _ hlt := h.noteGroup_slot hc hlt
  sums := by
    have hlast : q.counted [tunnel] = [tunnel] := by simp [counted, hc, ho]
    calc ((q.noteGroup tunnel acc).consumedUp + (bandwidth tunnel).1,
          (q.noteGroup tunnel acc).consumedDown + (bandwidth tunnel).2)
        = (acc.consumedUp, acc.consumedDown) + bandwidth tunnel := by simp [Prod.ext_iff]
      _ = ((q.counted (met ++ [tunnel])).map bandwidth).sum := by
        rw [h.sums, counted_append, hlast]
        simp

/-- A loop that meets no error goes through all tunnels. -/
theorem Scanned.scan {tunnels met : List Tunnel} {acc acc' : DpScan} (h : q.Scanned met acc)
    (hscan : q.scan tunnels acc = (acc', none)) :
    q.Scanned (met ++ tunnels) acc' ∧ q.visited tunnels = tunnels := by
  induction tunnels generalizing met acc with
  | nil =>
    have hacc : acc = acc' := congrArg Prod.fst hscan
    rw [List.append_nil, ← hacc]
    exact ⟨h, rfl⟩
  | cons tunnel rest ih =>
    have hassoc : met ++ tunnel :: rest = (met ++ [tunnel]) ++ rest := by simp
    rw [hassoc]
    rcases q.scan_cases tunnel rest acc with
      ⟨hc, hs, hv⟩ | ⟨⟨hc, ho⟩, hs, hv⟩ | ⟨-, ⟨ret, hs⟩, -⟩ | ⟨⟨hc, ho⟩, hs, hv⟩
    · have hrest := ih (h.skip hc) (hs ▸ hscan)
      exact ⟨hrest.1, by rw [hv, hrest.2]⟩
    · have hrest := ih (h.own hc ho) (hs ▸ hscan)
      exact ⟨hrest.1, by rw [hv, hrest.2]⟩
    · rw [hs] at hscan
      cases congrArg Prod.snd hscan
    · have hrest := ih (h.other hc ho) (hs ▸ hscan)
      exact ⟨hrest.1, by rw [hv, hrest.2]⟩

/-- The sum over the array has every reservation except for the one of the last group, whose index
is the size of the array. -/
theorem Scanned.sum_slots {met : List Tunnel} {acc : DpScan} (h : q.Scanned met acc)
    (hfirst : ¬q.GroupCrosses met 0)
    (hlast : q.GroupCrosses met maxGroups → q.reserved maxGroups = 0) :
    ((List.range maxGroups).map acc.groupReserved).sum = q.groupsReserved met := by
  let count (index : ℕ) : ℤ := if q.GroupCrosses met index then q.reserved index else 0
  have hzero : count 0 = 0 := if_neg hfirst
  have hend : count maxGroups = 0 := by
    by_cases hm : q.GroupCrosses met maxGroups
    · simp [count, hm, hlast hm]
    · simp [count, hm]
  calc ((List.range maxGroups).map acc.groupReserved).sum
      = ∑ index ∈ Finset.range maxGroups, acc.groupReserved index := rfl
    _ = ∑ index ∈ Finset.range maxGroups, count index := by
      apply Finset.sum_congr rfl
      intro index hmem
      exact h.slot index (Finset.mem_range.1 hmem)
    _ = ∑ index ∈ Finset.range (maxGroups + 1), count index := by
      rw [Finset.sum_range_succ, hend, add_zero]
    _ = ∑ index ∈ Finset.range maxGroups, count (index + 1) := by
      rw [Finset.sum_range_succ', hzero, add_zero]
    _ = ∑ index ∈ Finset.Icc 1 maxGroups, count index := by
      rw [Finset.range_eq_Ico, Finset.sum_Ico_add' count 0 maxGroups 1]
      rfl
    _ = q.groupsReserved met := by rw [groupsReserved, Finset.sum_filter]

/-- What the code returns counts each group once, where no group falls off the table. -/
theorem consumedDpBandwidth_eq {stack : ℕ → ℤ} {tunnels : List Tunnel} {b : ℤ × ℤ}
    (hb : q.consumedDpBandwidth stack tunnels = .ok b)
    (hfirst : ¬q.GroupCrosses tunnels 0)
    (hlast : q.GroupCrosses (q.visited tunnels) maxGroups → q.reserved maxGroups = 0) :
    b = q.dpBandwidth tunnels := by
  unfold consumedDpBandwidth at hb
  split at hb
  next => cases hb
  next acc hscan =>
    have hdone := (Scanned.start stack).scan hscan
    rw [List.nil_append] at hdone
    have hsum := hdone.1.sum_slots hfirst (hdone.2 ▸ hlast)
    rw [dpBandwidth, ← hdone.1.sums, ← hsum]
    split at hb
    all_goals
      rw [← Except.ok.inj hb]
      simp_all

end DpQuery

open DpQuery in
/-- The reported DP bandwidth is that of the other tunnels over the port, with the reservation of
each group once, and no index leaves the array, exactly when the loop meets no tunnel of the last
group while that one has a reservation: groups are numbered from one, the array from zero. -/
theorem dp_reservation_counted_once (q : DpQuery) (stack : ℕ → ℤ) (tunnels : List Tunnel)
    (hindex : ∀ port index, q.group port = some index → 1 ≤ index ∧ index ≤ maxGroups) :
    ((∀ b, q.consumedDpBandwidth stack tunnels = .ok b → b = q.dpBandwidth tunnels) ∧
        ∀ index ∈ q.usedIndices stack tunnels, index < maxGroups) ↔
      ∀ tunnel ∈ q.visited tunnels, q.crosses tunnel = true →
        q.group tunnel.srcPort = some maxGroups → q.reserved maxGroups = 0 := by
  have hused : ∀ index, index ∈ q.usedIndices stack tunnels ↔
      q.GroupCrosses (q.visited tunnels) index ∧ q.reserved index ≠ 0 := by
    intro index
    rw [usedIndices, mem_used_scan]
    simp [start]
  constructor
  · intro h tunnel hmem hc hg
    by_contra h0
    have hin := (hused maxGroups).2 ⟨⟨tunnel, hmem, hc, hg⟩, h0⟩
    exact lt_irrefl _ (h.2 maxGroups hin)
  · intro h
    have hlast : q.GroupCrosses (q.visited tunnels) maxGroups → q.reserved maxGroups = 0 := by
      rintro ⟨tunnel, hmem, hc, hg⟩
      exact h tunnel hmem hc hg
    have hfirst : ¬q.GroupCrosses tunnels 0 := by
      rintro ⟨tunnel, -, -, hg⟩
      have hpos := (hindex _ _ hg).1
      omega
    constructor
    · intro b hb
      exact consumedDpBandwidth_eq hb hfirst hlast
    · intro index hin
      have hmet := (hused index).1 hin
      have hle : index ≤ maxGroups := by
        obtain ⟨tunnel, -, -, hg⟩ := hmet.1
        exact (hindex _ _ hg).2
      have hne : index ≠ maxGroups := by
        intro heq
        exact hmet.2 (heq ▸ hlast (heq ▸ hmet.1))
      omega

/-- A DP tunnel with one hop, from router 0 to router 1, that consumes 100 Mb/s downstream. -/
def sampleTunnel (num : ℕ) : Tunnel where
  isDp := true
  srcPort := ⟨0, num⟩
  dstPort := ⟨1, num⟩
  paths := [some { hops := [⟨⟨0, num⟩, 8, ⟨0, 1⟩, 8⟩], pathLength := 1 }]
  consumed := .ok (0, 100)

/-- A new tunnel next to `sampleTunnel`, whose group has reserved 500 Mb/s. -/
def sampleQuery (index : ℕ) : DpQuery where
  srcPort := ⟨0, 6⟩
  dstPort := ⟨1, 6⟩
  port := ⟨0, 1⟩
  isUnplugged _ := false
  depth sw := sw
  group _ := some index
  reserved _ := 500

theorem dp_reservation_counted_once_fourth :
    (sampleQuery 4).consumedDpBandwidth (fun _ ↦ 0) [sampleTunnel 5, sampleTunnel 7] =
        .ok (0, 700) ∧
      (sampleQuery 4).dpBandwidth [sampleTunnel 5, sampleTunnel 7] = (0, 700) := by
  have hreport : (sampleQuery 4).consumedDpBandwidth (fun _ ↦ 0) [sampleTunnel 5, sampleTunnel 7] =
      .ok (0, 700) := by decide +kernel
  have hindex : ∀ port index, (sampleQuery 4).group port = some index →
      1 ≤ index ∧ index ≤ maxGroups := by
    intro port index h
    have heq : 4 = index := Option.some.inj h
    subst heq
    decide
  have hcount := (dp_reservation_counted_once (sampleQuery 4) (fun _ ↦ 0)
    [sampleTunnel 5, sampleTunnel 7] hindex).2 (by decide +kernel)
  exact ⟨hreport, (hcount.1 _ hreport).symm⟩

/-- The reservation of the seventh group is written behind the array and left out of the sum. -/
theorem dp_reservation_behind_array :
    (sampleQuery 7).consumedDpBandwidth (fun _ ↦ 0) [sampleTunnel 5] = .ok (0, 100) ∧
      (sampleQuery 7).dpBandwidth [sampleTunnel 5] = (0, 600) ∧
      (sampleQuery 7).usedIndices (fun _ ↦ 0) [sampleTunnel 5] = [maxGroups] := by
  decide +kernel

end ThunderboltStack.Cm
