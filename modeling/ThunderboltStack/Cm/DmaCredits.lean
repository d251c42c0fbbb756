import ThunderboltStack.Cm.Activate
import ThunderboltStack.Cm.Available
import ThunderboltStack.Lib.Transition
import Mathlib.Data.List.Perm.Basic

/-!
# Credits of DMA tunnels

`tb_tunnel_alloc_dma()` of `tunnel.c` and the release of the tunnels it returns.  A lane adapter
with credit allocation counts in `dma_credits` what the DMA paths over it have been given.  A path
stores what it was given in its hops, and its release reads it back from there.
-/

namespace ThunderboltStack.Cm

open ThunderboltStack.Lib

/-! ## Tunnels -/

inductive TunnelState where
  | inactive
  | activating
  | active
  | teardownFailed
  deriving DecidableEq

/-- `struct tb_path` in a tunnel. -/
structure TunnelPath extends PathConfig where
  state : PathState := .inactive

/-- `struct tb_tunnel`, of the type `TB_TUNNEL_DMA`. -/
structure DmaTunnel where
  srcPort : Port
  dstPort : Port
  paths : List TunnelPath
  state : TunnelState := .inactive

def TunnelPath.toPath (p : TunnelPath) : Path where
  allocHopid := true
  hops := p.hops.map HopConfig.toHop
  pathLength := p.hops.length

def DmaTunnel.hops (tunnel : DmaTunnel) : List HopConfig :=
  tunnel.paths.flatMap fun path ↦ path.hops

/-- The routers and ports of a domain, with their credits. -/
structure DmaConfig where
  t : Topology
  acpi : AcpiPermits
  credits : Port → CreditParams
  isNull : Port → Bool
  creditAllocation : ℕ → Bool

/-- The arguments of `tb_tunnel_alloc_dma()`, and which allocations of memory succeed. -/
structure DmaCall where
  nhi : Port
  dst : Port
  transmitPath : ℤ
  transmitRing : ℤ
  receivePath : ℤ
  receiveRing : ℤ
  tunnelMem : Bool := true
  rxMem : PathMem := {}
  txMem : PathMem := {}

/-- The call gets to the paths: ring 0 is reserved, and there has to be a ring. -/
def DmaCall.starts (c : DmaCall) : Bool :=
  c.receiveRing ≠ 0 ∧ c.transmitRing ≠ 0 ∧ (0 < c.receiveRing ∨ 0 < c.transmitRing) ∧ c.tunnelMem

/-- The HopIDs in use and the `dma_credits` of the ports. -/
structure DmaBooks where
  ids : Hopids
  dma : Port → UInt32

namespace DmaConfig

variable (cfg : DmaConfig)

def useCreditAllocation (port : Port) : Bool :=
  cfg.isNull port && cfg.creditAllocation port.sw

def dmaAvailableCredits (dma : Port → UInt32) (port : Port) : UInt32 :=
  let credits := toInt32 ((cfg.credits port).availableCredits cfg.acpi).1
  let credits := if cfg.acpi.pcie then toInt32 (credits - (cfg.credits port).maxPcieCredits.toNat)
    else credits
  let credits := toInt32 (credits - (dma port).toNat)
  UInt32.ofNat (max credits 0).toNat

def addCredits (dma : Port → UInt32) (port : Port) (credits : UInt32) : Port → UInt32 :=
  Function.update dma port (dma port + credits)

/-- `tb_dma_reserve_credits()`: the credits of the hop, unless there are none. -/
def dmaReserveCredits (port : Port) (credits : UInt32) (dma : Port → UInt32) :
    Option (UInt32 × (Port → UInt32)) :=
  if cfg.useCreditAllocation port then
    let available := cfg.dmaAvailableCredits dma port
    if available.toNat < minDmaCredits then none
    else
      let credits := min credits available
      some (credits, addCredits dma port credits)
  else if cfg.isNull port then some (if cfg.t.bonded port then 14 else 6, dma)
  else some (min (cfg.credits port).totalCredits credits, dma)

/-- What the loop over the hops leaves: the hops, the credits of the ports, and whether it got to
its end. -/
structure Reserved where
  hops : List HopConfig
  dma : Port → UInt32
  done : Bool

def reserveHops (credits : UInt32) : List HopConfig → (Port → UInt32) → Reserved
  | [], dma => ⟨[], dma, true⟩
  | hop :: rest, dma =>
    match cfg.dmaReserveCredits hop.inPort credits dma with
    | none => ⟨hop :: rest, dma, false⟩
    | some (given, dma) =>
      let r := reserveHops credits rest dma
      ⟨{ hop with initialCredits := given.toNat } :: r.hops, r.dma, r.done⟩

def firstCredits (credits : UInt32) (port : Port) : UInt32 :=
  min (cfg.credits port).usableCredits credits

/-- The loop of `tb_dma_init_rx_path()`.  The first hop gets all the credits it can use, and they
are counted on any port; a path between two ports has a first hop. -/
def reserveRx (credits : UInt32) : List HopConfig → (Port → UInt32) → Reserved
  | [], dma => ⟨[], dma, true⟩
  | hop :: rest, dma =>
    let given := cfg.firstCredits credits hop.inPort
    let r := cfg.reserveHops credits rest (addCredits dma hop.inPort given)
    ⟨{ hop with initialCredits := given.toNat } :: r.hops, r.dma, r.done⟩

def dmaReleaseCredits (dma : Port → UInt32) (hop : HopConfig) : Port → UInt32 :=
  if cfg.useCreditAllocation hop.inPort then
    Function.update dma hop.inPort (dma hop.inPort - UInt32.ofNat hop.initialCredits)
  else dma

/-- `tb_dma_destroy()`, for the hops of all paths of the tunnel. -/
def dmaDestroy (hops : List HopConfig) (dma : Port → UInt32) : Port → UInt32 :=
  hops.foldl cfg.dmaReleaseCredits dma

def Underflows (dma : Port → UInt32) (hop : HopConfig) : Prop :=
  cfg.useCreditAllocation hop.inPort = true ∧ dma hop.inPort < UInt32.ofNat hop.initialCredits

/-- `tb_tunnel_destroy()`: the credits and then the HopIDs of the paths are given back. -/
def tunnelDestroy (paths : List TunnelPath) (b : DmaBooks) : DmaBooks where
  dma := cfg.dmaDestroy (paths.flatMap fun path ↦ path.hops) b.dma
  ids := paths.foldl (fun ids path ↦ pathFree ids path.toPath) b.ids

/-! ## The allocation -/

def dmaCredits (nhi : Port) : UInt32 :=
  minNotZero (cfg.credits nhi).dmaCreditsParam (cfg.credits nhi).maxDmaCredits

def rxArgs (c : DmaCall) : PathArgs where
  t := cfg.t
  src := c.dst
  srcHopid := c.receivePath
  dst := c.nhi
  dstHopid := c.receiveRing
  linkNr := 0
  mem := c.rxMem

def txArgs (c : DmaCall) : PathArgs where
  t := cfg.t
  src := c.nhi
  srcHopid := c.transmitRing
  dst := c.dst
  dstHopid := c.transmitPath
  linkNr := 0
  mem := c.txMem

/-- The path of a tunnel: the parts both directions have in common, `TB_PATH_ALL`,
`TB_DMA_PRIORITY` and `TB_DMA_WEIGHT`. -/
def dmaPath (egressFcEnable : ℕ) (hops : List HopConfig) : TunnelPath where
  hops := hops
  egressFcEnable := egressFcEnable
  ingressFcEnable := 7
  priority := 5
  weight := 1
  clearFc := true

/-- What one direction leaves: its path, if there is one, and whether it has its credits. -/
structure Leg where
  paths : List TunnelPath
  books : DmaBooks
  done : Bool

/-- A path is allocated and its credits are reserved; a path without credits stays in the tunnel. -/
def allocLeg (a : PathArgs) (fuel egressFcEnable : ℕ)
    (reserve : List HopConfig → (Port → UInt32) → Reserved) (b : DmaBooks) : Option Leg :=
  (pathAlloc a fuel b.ids).map fun r ↦
    match r.path with
    | none => ⟨[], { b with ids := r.ids }, false⟩
    | some path =>
      let reserved := reserve (path.hops.map fun hop ↦ { toHop := hop }) b.dma
      ⟨[dmaPath egressFcEnable reserved.hops], ⟨r.ids, reserved.dma⟩, reserved.done⟩

/-- The direction towards the host controller, with `TB_PATH_SOURCE | TB_PATH_INTERNAL`. -/
def rxLeg (c : DmaCall) (fuel : ℕ) (b : DmaBooks) : Option Leg :=
  if 0 < c.receiveRing then
    allocLeg (cfg.rxArgs c) fuel 3 (cfg.reserveRx (cfg.dmaCredits c.nhi)) b
  else some ⟨[], b, true⟩

/-- The direction towards the other host, with `TB_PATH_ALL`. -/
def txLeg (c : DmaCall) (fuel : ℕ) (b : DmaBooks) : Option Leg :=
  if 0 < c.transmitRing then
    allocLeg (cfg.txArgs c) fuel 7 (cfg.reserveHops (cfg.dmaCredits c.nhi)) b
  else some ⟨[], b, true⟩

/-- Both directions, one after the other, until one of them fails. -/
def buildPaths (c : DmaCall) (fuel : ℕ) (b : DmaBooks) : Option Leg :=
  (cfg.rxLeg c fuel b).bind fun rx ↦
    if !rx.done then some rx
    else (cfg.txLeg c fuel rx.books).map fun tx ↦ ⟨rx.paths ++ tx.paths, tx.books, tx.done⟩

/-- `tb_tunnel_alloc_dma()`, if the walks over the ports take at most `fuel` steps. -/
def tunnelAllocDma (c : DmaCall) (fuel : ℕ) (b : DmaBooks) : Option (Option DmaTunnel × DmaBooks) :=
  if c.starts then
    (cfg.buildPaths c fuel b).map fun leg ↦
      if leg.done then (some ⟨c.nhi, c.dst, leg.paths, .inactive⟩, leg.books)
      else (none, cfg.tunnelDestroy leg.paths leg.books)
  else some (none, b)

end DmaConfig

/-- The books and the tunnels that are alive. -/
structure DmaState extends DmaBooks where
  tunnels : List DmaTunnel

/-- A call of `tb_tunnel_alloc_dma()`, or the release of a tunnel. -/
inductive DmaLabel where
  | alloc (c : DmaCall) (fuel : ℕ)
  | release (i : ℕ)

def DmaConfig.dmaStep (cfg : DmaConfig) (s : DmaState) : DmaLabel → Option DmaState
  | .alloc c fuel => (cfg.tunnelAllocDma c fuel s.toDmaBooks).map fun r ↦
      ⟨r.2, s.tunnels ++ r.1.toList⟩
  | .release i => s.tunnels[i]?.map fun tunnel ↦
      ⟨cfg.tunnelDestroy tunnel.paths s.toDmaBooks, s.tunnels.eraseIdx i⟩

/-- Allocations and releases, in any order. -/
def dmaSystem (cfg : DmaConfig) : System DmaState DmaLabel where
  init s := (∀ port, s.dma port = 0) ∧ s.tunnels = []
  step s l s' := cfg.dmaStep s l = some s'

def held (port : Port) (hops : List HopConfig) : ℕ :=
  (hops.map fun hop ↦ if hop.inPort = port then hop.initialCredits else 0).sum

def DmaState.alive (s : DmaState) (port : Port) : ℕ :=
  held port (s.tunnels.flatMap DmaTunnel.hops)

section Held

variable {port : Port} {hop : HopConfig} {hops more : List HopConfig}

@[simp] theorem held_nil : held port [] = 0 := rfl

@[simp] theorem held_cons :
    held port (hop :: hops) =
      (if hop.inPort = port then hop.initialCredits else 0) + held port hops :=
  List.sum_cons

@[simp] theorem held_append : held port (hops ++ more) = held port hops + held port more := by
  simp [held]

theorem held_perm (h : hops.Perm more) : held port hops = held port more :=
  (h.map _).sum_nat

theorem held_fresh (path : List Hop) :
    held port (path.map fun hop ↦ ({ toHop := hop } : HopConfig)) = 0 := by
  induction path with
  | nil => rfl
  | cons hop rest ih => simp [ih]

end Held

namespace DmaConfig

variable {cfg : DmaConfig} {credits : UInt32} {dma dma' : Port → UInt32} {port : Port}
variable {hop : HopConfig} {hops : List HopConfig}

theorem addCredits_apply {other : Port} :
    addCredits dma other credits port = dma port + if other = port then credits else 0 := by
  by_cases hsame : other = port
  · simp [addCredits, hsame]
  · simp [addCredits, hsame, Function.update_of_ne (Ne.symm hsame)]

/-- A release takes what the hops have from the ports with credit allocation. -/
theorem dmaDestroy_apply : cfg.dmaDestroy hops dma port =
    if cfg.useCreditAllocation port then dma port - UInt32.ofNat (held port hops)
    else dma port := by
  induction hops generalizing dma with
  | nil => simp [dmaDestroy]
  | cons hop rest ih =>
    have hstep : cfg.dmaDestroy (hop :: rest) dma =
        cfg.dmaDestroy rest (cfg.dmaReleaseCredits dma hop) := rfl
    rw [hstep, ih, held_cons, UInt32.ofNat_add]
    by_cases hsame : hop.inPort = port
    · subst hsame
      split
      · next huse =>
        simp only [dmaReleaseCredits, huse, if_true, Function.update_self]
        grind
      · next huse => simp [dmaReleaseCredits, huse]
    · have hother : cfg.dmaReleaseCredits dma hop port = dma port := by
        unfold dmaReleaseCredits
        split
        · exact Function.update_of_ne (Ne.symm hsame) _ _
        · rfl
      simp [hother, hsame]

/-- A reservation is counted on a port with credit allocation, and on no other. -/
theorem dmaReserveCredits_apply {other : Port} {given : UInt32}
    (h : cfg.dmaReserveCredits other credits dma = some (given, dma')) :
    dma' port = dma port +
      if cfg.useCreditAllocation port = true ∧ other = port then given else 0 := by
  unfold dmaReserveCredits at h
  split at h
  · next huse =>
    dsimp only at h
    split at h
    · cases h
    · cases h
      rw [addCredits_apply]
      by_cases hsame : other = port
      · subst hsame
        simp [huse]
      · simp [hsame]
  · next huse =>
    have hnot : ¬(cfg.useCreditAllocation port = true ∧ other = port) := by
      rintro ⟨hport, rfl⟩
      exact huse hport
    rw [if_neg hnot]
    split at h <;> cases h <;> simp

/-- The loop counts what it gives to hops that had nothing. -/
theorem reserveHops_apply (hfresh : held port hops = 0) :
    (cfg.reserveHops credits hops dma).dma port = dma port +
      if cfg.useCreditAllocation port then
        UInt32.ofNat (held port (cfg.reserveHops credits hops dma).hops)
      else 0 := by
  induction hops generalizing dma with
  | nil => simp [reserveHops]
  | cons hop rest ih =>
    rw [held_cons] at hfresh
    rw [reserveHops]
    split
    · have hzero : held port (hop :: rest) = 0 := by
        rw [held_cons]
        exact hfresh
      simp [-held_cons, hzero]
    · next given dma' hgiven =>
      have hrest : (cfg.reserveHops credits rest dma').dma port = _ := ih (by omega)
      have hhop : dma' port = _ := dmaReserveCredits_apply hgiven
      dsimp only
      rw [hrest, hhop, held_cons, UInt32.ofNat_add]
      by_cases huse : cfg.useCreditAllocation port
      · by_cases hsame : hop.inPort = port
        · simp [huse, hsame, UInt32.add_assoc]
        · simp [huse, hsame]
      · simp [huse]

/-- The first hop is counted on any port. -/
theorem reserveRx_apply (hfresh : held port hops = 0) :
    (cfg.reserveRx credits hops dma).dma port = dma port +
      if cfg.useCreditAllocation port then
        UInt32.ofNat (held port (cfg.reserveRx credits hops dma).hops)
      else if (hops.head?.map fun hop ↦ hop.inPort) = some port then cfg.firstCredits credits port
      else 0 := by
  cases hops with
  | nil => simp [reserveRx]
  | cons hop rest =>
    rw [held_cons] at hfresh
    have hrest : (cfg.reserveHops credits rest
        (addCredits dma hop.inPort (cfg.firstCredits credits hop.inPort))).dma port = _ :=
      reserveHops_apply (by omega)
    simp only [reserveRx, held_cons, List.head?_cons, Option.map_some, Option.some.injEq]
    rw [hrest, addCredits_apply, UInt32.ofNat_add]
    by_cases hsame : hop.inPort = port
    · subst hsame
      by_cases huse : cfg.useCreditAllocation hop.inPort
      · simp [huse, UInt32.add_assoc]
      · simp [huse]
    · simp [hsame]

structure Leg.Counts (cfg : DmaConfig) (b : DmaBooks) (leg : Leg) : Prop where
  counts : ∀ port, cfg.useCreditAllocation port = true → leg.books.dma port =
    b.dma port + UInt32.ofNat (held port (leg.paths.flatMap fun path ↦ path.hops))

section Legs

variable {a : PathArgs} {c : DmaCall} {fuel egressFcEnable : ℕ} {b : DmaBooks} {leg : Leg}
variable {reserve : List HopConfig → (Port → UInt32) → Reserved}

/-- A leg has no path, or reserves credits for the hops of the one it was given. -/
theorem allocLeg_inv (hleg : allocLeg a fuel egressFcEnable reserve b = some leg) :
    ∃ r, pathAlloc a fuel b.ids = some r ∧ leg.books.ids = r.ids ∧
      (r.path = none ∧ leg.paths = [] ∧ leg.books.dma = b.dma ∧ leg.done = false ∨
        ∃ path, r.path = some path ∧
          leg = ⟨[dmaPath egressFcEnable
              (reserve (path.hops.map fun hop ↦ { toHop := hop }) b.dma).hops],
            ⟨r.ids, (reserve (path.hops.map fun hop ↦ { toHop := hop }) b.dma).dma⟩,
            (reserve (path.hops.map fun hop ↦ { toHop := hop }) b.dma).done⟩) := by
  obtain ⟨r, hr, rfl⟩ := Option.map_eq_some_iff.1 hleg
  refine ⟨r, hr, ?_⟩
  cases hpath : r.path with
  | none => simp
  | some path => simp

theorem allocLeg_counts (hleg : allocLeg a fuel egressFcEnable reserve b = some leg)
    (hreserve : ∀ port hops, cfg.useCreditAllocation port = true → held port hops = 0 →
      (reserve hops b.dma).dma port =
        b.dma port + UInt32.ofNat (held port (reserve hops b.dma).hops)) :
    leg.Counts cfg b := by
  constructor
  intro port huse
  obtain ⟨r, -, -, ⟨-, hpaths, hdma, -⟩ | ⟨path, -, rfl⟩⟩ := allocLeg_inv hleg
  · simp [hpaths, hdma]
  · simpa [dmaPath] using hreserve port _ huse (held_fresh path.hops)

theorem rxLeg_counts (hleg : cfg.rxLeg c fuel b = some leg) : leg.Counts cfg b := by
  unfold rxLeg at hleg
  split at hleg
  · apply allocLeg_counts hleg
    intro port hops huse hfresh
    rw [reserveRx_apply hfresh, if_pos huse]
  · cases hleg
    exact ⟨fun _ _ ↦ by simp⟩

theorem txLeg_counts (hleg : cfg.txLeg c fuel b = some leg) : leg.Counts cfg b := by
  unfold txLeg at hleg
  split at hleg
  · apply allocLeg_counts hleg
    intro port hops huse hfresh
    rw [reserveHops_apply hfresh, if_pos huse]
  · cases hleg
    exact ⟨fun _ _ ↦ by simp⟩

/-- The paths that were built are counted, whether or not both directions are there. -/
theorem buildPaths_counts (hleg : cfg.buildPaths c fuel b = some leg) : leg.Counts cfg b := by
  obtain ⟨rx, hrx, hrest⟩ := Option.bind_eq_some_iff.1 hleg
  have hcounts := rxLeg_counts hrx
  split at hrest
  · cases hrest
    exact hcounts
  · obtain ⟨tx, htx, rfl⟩ := Option.map_eq_some_iff.1 hrest
    constructor
    intro port huse
    simp only [List.flatMap_append, held_append]
    rw [(txLeg_counts htx).counts port huse, hcounts.counts port huse, UInt32.ofNat_add,
      UInt32.add_assoc]

def RxTaken (cfg : DmaConfig) (c : DmaCall) (fuel : ℕ) (b : DmaBooks) : Prop :=
  0 < c.receiveRing ∧ ∃ n, hopsToTake (cfg.rxArgs c) fuel = some (n + 1) ∧
    Room (cfg.rxArgs c) (n + 1) (n + 1) 0 b.ids c.receivePath none

/-- The call counts credits for its first hop on a port that does not use credit allocation. -/
def Spills (cfg : DmaConfig) (c : DmaCall) (fuel : ℕ) (b : DmaBooks) : Prop :=
  c.starts = true ∧ cfg.RxTaken c fuel b ∧
    cfg.useCreditAllocation (cfg.t.inPortOf 0 c.dst) = false ∧
    cfg.firstCredits (cfg.dmaCredits c.nhi) (cfg.t.inPortOf 0 c.dst) ≠ 0

/-- The first hop of the path towards the host controller is on the lane adapter of the call. -/
theorem rxPath_head {r : Allocated} {path : Path}
    (hr : pathAlloc (cfg.rxArgs c) fuel b.ids = some r) (hpath : r.path = some path)
    (hring : 0 < c.receiveRing) :
    cfg.RxTaken c fuel b ∧ (path.hops.head?.map fun hop ↦ hop.inPort) =
        some (cfg.t.inPortOf 0 c.dst) ∨
      ¬ cfg.RxTaken c fuel b ∧ path.hops = [] := by
  obtain ⟨numHops, htake, hroom, rfl⟩ := (pathAlloc_path_iff hr).1 hpath
  have hlen : (allocHops (cfg.rxArgs c) numHops numHops 0 b.ids c.receivePath none []).hops.length =
      _ := allocHops_length (allocHops_done_iff.2 hroom)
  cases numHops with
  | zero =>
    right
    refine ⟨?_, rfl⟩
    rintro ⟨-, n, hsucc, -⟩
    rw [htake] at hsucc
    cases hsucc
  | succ n =>
    left
    refine ⟨⟨hring, n, htake, hroom⟩, ?_⟩
    cases hhead :
      (allocHops (cfg.rxArgs c) (n + 1) (n + 1) 0 b.ids c.receivePath none []).hops.head? with
    | none =>
      rw [List.head?_eq_none_iff.1 hhead] at hlen
      cases hlen
    | some hop =>
      have hport := hopIn_port (allocHops_head hhead)
      exact (congrArg (Option.map _) hhead).trans (congrArg some hport)

/-- The first hop of the path towards the host controller, and nothing else, is counted. -/
def CountsFirst (cfg : DmaConfig) (c : DmaCall) (fuel : ℕ) (b : DmaBooks) (dma : Port → UInt32)
    (port : Port) : Prop :=
  cfg.RxTaken c fuel b ∧ dma port = b.dma port + (if cfg.t.inPortOf 0 c.dst = port then
      cfg.firstCredits (cfg.dmaCredits c.nhi) port else 0) ∨
    ¬ cfg.RxTaken c fuel b ∧ dma port = b.dma port

/-- On a port without credit allocation, only the first hop is counted. -/
theorem rxLeg_plain (hleg : cfg.rxLeg c fuel b = some leg)
    (hplain : cfg.useCreditAllocation port = false) :
    cfg.CountsFirst c fuel b leg.books.dma port := by
  unfold rxLeg at hleg
  split at hleg
  · next hring =>
    obtain ⟨r, hr, -, ⟨hpath, -, hdma, -⟩ | ⟨path, hpath, rfl⟩⟩ := allocLeg_inv hleg
    · right
      refine ⟨?_, congrFun hdma port⟩
      rintro ⟨-, n, htake, hroom⟩
      have hsome := (pathAlloc_path_iff hr).2 ⟨n + 1, htake, hroom, rfl⟩
      rw [hpath] at hsome
      cases hsome
    · have hreserve : (cfg.reserveRx (cfg.dmaCredits c.nhi)
          (path.hops.map fun hop ↦ { toHop := hop }) b.dma).dma port = _ :=
        reserveRx_apply (held_fresh path.hops)
      simp only [CountsFirst]
      rw [hreserve, if_neg (by simp [hplain]), List.head?_map, Option.map_map]
      rcases rxPath_head hr hpath hring with ⟨htaken, hhead⟩ | ⟨htaken, hhops⟩
      · left
        refine ⟨htaken, ?_⟩
        have hfirst : (path.hops.head?.map
            ((fun hop : HopConfig ↦ hop.inPort) ∘ fun hop ↦ { toHop := hop })) = _ := hhead
        simp [hfirst]
      · right
        exact ⟨htaken, by simp [hhops]⟩
  · next hring =>
    cases hleg
    right
    exact ⟨fun htaken ↦ hring htaken.1, rfl⟩

theorem txLeg_plain (hleg : cfg.txLeg c fuel b = some leg)
    (hplain : cfg.useCreditAllocation port = false) : leg.books.dma port = b.dma port := by
  unfold txLeg at hleg
  split at hleg
  · obtain ⟨r, -, -, ⟨-, -, hdma, -⟩ | ⟨path, -, rfl⟩⟩ := allocLeg_inv hleg
    · exact congrFun hdma port
    · dsimp only
      rw [reserveHops_apply (held_fresh path.hops), if_neg (by simp [hplain]), UInt32.add_zero]
  · cases hleg
    rfl

theorem buildPaths_plain (hleg : cfg.buildPaths c fuel b = some leg)
    (hplain : cfg.useCreditAllocation port = false) :
    cfg.CountsFirst c fuel b leg.books.dma port := by
  obtain ⟨rx, hrx, hrest⟩ := Option.bind_eq_some_iff.1 hleg
  have hspill := rxLeg_plain hrx hplain
  split at hrest
  · cases hrest
    exact hspill
  · obtain ⟨tx, htx, rfl⟩ := Option.map_eq_some_iff.1 hrest
    unfold CountsFirst
    rw [txLeg_plain htx hplain]
    exact hspill

/-- The release of what was built leaves the credits of every port as they were exactly if nothing
is spilled. -/
theorem tunnelDestroy_dma_iff (hstarts : c.starts = true)
    (hleg : cfg.buildPaths c fuel b = some leg) :
    (cfg.tunnelDestroy leg.paths leg.books).dma = b.dma ↔ ¬ cfg.Spills c fuel b := by
  have hcounts := buildPaths_counts hleg
  constructor
  · rintro hsame ⟨-, htaken, hplain, hfirst⟩
    have hport := congrFun hsame (cfg.t.inPortOf 0 c.dst)
    rcases buildPaths_plain hleg hplain with ⟨-, hspill⟩ | ⟨hnot, -⟩
    · simp only [tunnelDestroy, dmaDestroy_apply, hplain, hspill] at hport
      simp [hfirst] at hport
    · exact hnot htaken
  · intro hnot
    funext port
    simp only [tunnelDestroy, dmaDestroy_apply]
    split
    · next huse => rw [hcounts.counts port huse, UInt32.add_sub_cancel]
    · next huse =>
      rcases buildPaths_plain hleg (by simpa using huse) with ⟨htaken, hspill⟩ | ⟨-, hsame⟩
      · rw [hspill]
        split
        · next hport =>
          subst hport
          by_contra hne
          exact hnot ⟨hstarts, htaken, by simpa using huse, fun hzero ↦ hne (by simp [hzero])⟩
        · rw [UInt32.add_zero]
      · exact hsame

/-- A call that fails leaves the credits of every port as they were exactly if it does not spill. -/
theorem tunnelAllocDma_unchanged_iff {b' : DmaBooks}
    (hfail : cfg.tunnelAllocDma c fuel b = some (none, b')) :
    b'.dma = b.dma ↔ ¬ cfg.Spills c fuel b := by
  unfold tunnelAllocDma at hfail
  split at hfail
  · next hstarts =>
    obtain ⟨leg, hleg, heq⟩ := Option.map_eq_some_iff.1 hfail
    split at heq
    · cases heq
    · obtain rfl : cfg.tunnelDestroy leg.paths leg.books = b' := congrArg Prod.snd heq
      exact tunnelDestroy_dma_iff hstarts hleg
  · next hstarts =>
    cases hfail
    simp [Spills, hstarts]

end Legs

/-- The books are right: a port with credit allocation counts what is alive there, up to
wrapping. -/
def Ledger (cfg : DmaConfig) (s : DmaState) : Prop :=
  ∀ port, cfg.useCreditAllocation port = true → s.dma port = UInt32.ofNat (s.alive port)

variable {s s' : DmaState}

theorem alive_eraseIdx {i : ℕ} {tunnel : DmaTunnel} (h : s.tunnels[i]? = some tunnel) :
    s.alive port = held port tunnel.hops +
      held port ((s.tunnels.eraseIdx i).flatMap DmaTunnel.hops) := by
  obtain ⟨hi, rfl⟩ := List.getElem?_eq_some_iff.1 h
  have hperm := (List.getElem_cons_eraseIdx_perm hi).flatMap_right DmaTunnel.hops
  rw [DmaState.alive, ← held_perm hperm, List.flatMap_cons, held_append]

/-- An allocation keeps the credits of each port those of its live tunnels. -/
theorem ledger_alloc {c : DmaCall} {fuel : ℕ} {tunnel : Option DmaTunnel} {books : DmaBooks}
    (hs : cfg.Ledger s) (hcall : cfg.tunnelAllocDma c fuel s.toDmaBooks = some (tunnel, books)) :
    cfg.Ledger ⟨books, s.tunnels ++ tunnel.toList⟩ := by
  intro port huse
  have hport := hs port huse
  unfold tunnelAllocDma at hcall
  split at hcall
  · obtain ⟨leg, hleg, heq⟩ := Option.map_eq_some_iff.1 hcall
    have hcounts := (buildPaths_counts hleg).counts port huse
    split at heq
    · obtain ⟨rfl, rfl⟩ := Prod.mk.inj heq
      change leg.books.dma port = _
      rw [hcounts, hport, ← UInt32.ofNat_add]
      simp [DmaState.alive, DmaTunnel.hops]
    · obtain ⟨rfl, rfl⟩ := Prod.mk.inj heq
      simp only [tunnelDestroy, dmaDestroy_apply, huse, if_true, hcounts]
      rw [UInt32.add_sub_cancel, hport]
      simp [DmaState.alive]
  · cases hcall
    rw [hport]
    simp [DmaState.alive]

theorem ledger_release {i : ℕ} {tunnel : DmaTunnel} (hs : cfg.Ledger s)
    (htunnel : s.tunnels[i]? = some tunnel) :
    cfg.Ledger ⟨cfg.tunnelDestroy tunnel.paths s.toDmaBooks, s.tunnels.eraseIdx i⟩ := by
  intro port huse
  have hport := hs port huse
  rw [alive_eraseIdx htunnel, UInt32.ofNat_add] at hport
  simp only [tunnelDestroy, dmaDestroy_apply, huse, if_true, hport]
  rw [UInt32.add_comm]
  exact UInt32.add_sub_cancel _ _

theorem ledger_reach (hs : (dmaSystem cfg).Reachable s) : cfg.Ledger s := by
  apply hs.invariant
  · rintro s ⟨hzero, hnone⟩ port -
    simp [hzero port, DmaState.alive, hnone]
  · intro s l s' hledger _ hstep
    cases l with
    | alloc c fuel =>
      obtain ⟨r, hcall, rfl⟩ := Option.map_eq_some_iff.1 hstep
      exact ledger_alloc hledger hcall
    | release i =>
      obtain ⟨tunnel, htunnel, rfl⟩ := Option.map_eq_some_iff.1 hstep
      exact ledger_release hledger htunnel

/-- Hops that are counted are released one after the other without going below zero. -/
theorem not_underflows {before after : List HopConfig} {others : ℕ}
    (hcount : dma hop.inPort =
      UInt32.ofNat (others + held hop.inPort (before ++ hop :: after)))
    (hfits : others + held hop.inPort (before ++ hop :: after) < 2 ^ 32) :
    ¬ cfg.Underflows (cfg.dmaDestroy before dma) hop := by
  rintro ⟨huse, hlt⟩
  rw [held_append, held_cons, if_pos rfl] at hcount hfits
  rw [dmaDestroy_apply, if_pos huse, hcount, UInt32.lt_iff_toNat_lt, UInt32.toNat_sub,
    UInt32.toNat_ofNat', UInt32.toNat_ofNat', UInt32.toNat_ofNat'] at hlt
  omega

end DmaConfig

/-- On a port with credit allocation `dma_credits` is what is alive there exactly if that fits.  In
this case no release goes below zero.  A failing call leaves all ports as they were exactly if it
does not count its first hop on a port without credit allocation. -/
theorem dma_credits_follow_hops (cfg : DmaConfig) (s : DmaState)
    (hs : (dmaSystem cfg).Reachable s) :
    (∀ port, cfg.useCreditAllocation port = true →
      ((s.dma port).toNat = s.alive port ↔ s.alive port < 2 ^ 32)) ∧
    (∀ tunnel ∈ s.tunnels, ∀ before hop after, tunnel.hops = before ++ hop :: after →
      s.alive hop.inPort < 2 ^ 32 →
      ¬ cfg.Underflows (cfg.dmaDestroy before s.dma) hop) ∧
    ∀ c fuel,
      (∀ leg, cfg.buildPaths c fuel s.toDmaBooks = some leg → ∀ before hop after,
        (leg.paths.flatMap fun path ↦ path.hops) = before ++ hop :: after →
        s.alive hop.inPort + held hop.inPort (before ++ hop :: after) < 2 ^ 32 →
        ¬ cfg.Underflows (cfg.dmaDestroy before leg.books.dma) hop) ∧
      ∀ books, cfg.tunnelAllocDma c fuel s.toDmaBooks = some (none, books) →
        (books.dma = s.dma ↔ ¬ cfg.Spills c fuel s.toDmaBooks) := by
  have hledger := DmaConfig.ledger_reach hs
  refine ⟨?_, ?_, ?_⟩
  · intro port huse
    rw [hledger port huse, UInt32.toNat_ofNat']
    omega
  · intro tunnel hmem before hop after hhops hfits hunder
    obtain ⟨i, hi⟩ := List.getElem?_of_mem hmem
    have halive : s.alive hop.inPort = _ := DmaConfig.alive_eraseIdx hi
    have hcount := hledger hop.inPort hunder.1
    rw [halive, hhops, Nat.add_comm] at hcount hfits
    exact DmaConfig.not_underflows hcount hfits hunder
  · intro c fuel
    refine ⟨?_, fun books hfail ↦ DmaConfig.tunnelAllocDma_unchanged_iff hfail⟩
    intro leg hleg before hop after hhops hfits hunder
    have hcount := (DmaConfig.buildPaths_counts hleg).counts hop.inPort hunder.1
    rw [hledger hop.inPort hunder.1, hhops, ← UInt32.ofNat_add] at hcount
    exact DmaConfig.not_underflows hcount hfits hunder

def dmaHostTopology : Topology where
  route _ := 0
  depth _ := 0
  upstreamPort _ := 7
  maxPort _ := 7
  remote _ := none
  dualLinkPort _ := none
  linkNr _ := 0
  bonded _ := false
  isNhi p := p.num == 2
  maxInHopId _ := 19
  maxOutHopId _ := 19

/-- The lane adapter has `total` credits, and a DMA path is given `dma` at most. -/
def dmaHostConfig (total dma : UInt32) (creditAllocation : Bool) : DmaConfig where
  t := dmaHostTopology
  acpi := allPermits
  credits _ := { sampleCredits total with maxDmaCredits := dma, dmaCreditsParam := dma }
  isNull p := p.num == 1
  creditAllocation _ := creditAllocation

def dmaHostStart : DmaState where
  ids _ _ := false
  dma _ := 0
  tunnels := []

def dmaHostReceive (path ring : ℤ) : DmaCall where
  nhi := ⟨0, 2⟩
  dst := ⟨0, 1⟩
  transmitPath := -1
  transmitRing := -1
  receivePath := path
  receiveRing := ring

def dmaHostNoMem : DmaCall where
  nhi := ⟨0, 2⟩
  dst := ⟨0, 1⟩
  transmitPath := 8
  transmitRing := 1
  receivePath := 8
  receiveRing := 1
  txMem := { path := false }

def dmaExec (cfg : DmaConfig) : (dmaSystem cfg).Exec where
  Act := DmaLabel
  step s l := (cfg.dmaStep s l).map (l, ·)
  sound h := by
    obtain ⟨s', hs', heq⟩ := Option.map_eq_some_iff.1 h
    obtain ⟨rfl, rfl⟩ := Prod.mk.inj heq
    exact hs'

theorem dma_credits_follow_hops_host : ∃ s, (dmaSystem (dmaHostConfig 120 14 true)).Reachable s ∧
    s.alive ⟨0, 1⟩ = 14 ∧ (s.dma ⟨0, 1⟩).toNat = s.alive ⟨0, 1⟩ := by
  obtain ⟨s, hs, hgoal⟩ := System.Exec.reach_of_play (dmaExec (dmaHostConfig 120 14 true))
    (fun _ _ ↦ true) (fun s ↦ s.alive ⟨0, 1⟩ == 14) [.alloc (dmaHostReceive 8 1) 4]
    (s := dmaHostStart) ⟨fun _ ↦ rfl, rfl⟩ (by decide +kernel)
  have hreach := hs.mono fun _ _ _ ↦ trivial
  have halive : s.alive ⟨0, 1⟩ = 14 := by simpa using hgoal
  refine ⟨s, hreach, halive, ?_⟩
  apply ((dma_credits_follow_hops _ s hreach).1 ⟨0, 1⟩ rfl).2
  rw [halive]
  decide

/-- Two paths with `2 ^ 31` credits each make the count wrap to zero, and a call that fails leaves
14 credits on a port without credit allocation. -/
theorem dma_credits_drift :
    (∃ s, (dmaSystem (dmaHostConfig 0x80000002 0x80000000 true)).Reachable s ∧
      s.dma ⟨0, 1⟩ = 0 ∧ s.alive ⟨0, 1⟩ = 2 ^ 32) ∧
    ∃ books, (dmaHostConfig 120 14 false).tunnelAllocDma dmaHostNoMem 4 dmaHostStart.toDmaBooks =
      some (none, books) ∧ dmaHostStart.dma ⟨0, 1⟩ = 0 ∧ books.dma ⟨0, 1⟩ = 14 := by
  constructor
  · obtain ⟨s, hs, hgoal⟩ := System.Exec.reach_of_play
      (dmaExec (dmaHostConfig 0x80000002 0x80000000 true)) (fun _ _ ↦ true)
      (fun s ↦ s.dma ⟨0, 1⟩ == 0 && s.alive ⟨0, 1⟩ == 2 ^ 32)
      [.alloc (dmaHostReceive 8 1) 4, .alloc (dmaHostReceive 9 2) 4]
      (s := dmaHostStart) ⟨fun _ ↦ rfl, rfl⟩ (by decide +kernel)
    exact ⟨s, hs.mono fun _ _ _ ↦ trivial, by simpa using hgoal⟩
  · exact ⟨_, rfl, rfl, by decide +kernel⟩

end ThunderboltStack.Cm
