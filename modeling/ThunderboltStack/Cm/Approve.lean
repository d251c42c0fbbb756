import ThunderboltStack.Cm.DmaCredits

/-!
# Approval of XDomain paths

`tb_approve_xdomain_paths()` of `tb.c`, with `tb_tunnel_activate()`, `tb_tunnel_deactivate()` and
`tb_tunnel_put()` of `tunnel.c`.  A DMA tunnel for a tuple of HopIDs and rings is allocated,
activated and put into the list of tunnels.  If its activation cannot be undone it goes into the
list as well, as the owner of what is left in the routers.
-/

namespace ThunderboltStack.Cm

open ThunderboltStack.Lib

def enomem : ℤ := -12

def euclean : ℤ := -117

/-! ## The tunnel -/

structure PathsRun where
  ret : ℤ
  paths : List TunnelPath
  domain : Domain

section Tunnel

variable (hw : Hardware) (bus : Bus)

/-- `tb_path_deactivate()` of a path of a tunnel. -/
def TunnelPath.deactivate (path : TunnelPath) (d : Domain) : ℤ × TunnelPath × Domain :=
  let r := pathDeactivate hw bus path.toPathConfig path.state d
  (r.1, { path with state := r.2.1 }, r.2.2)

/-- `tb_path_activate()` of a path of a tunnel. -/
def TunnelPath.activate (path : TunnelPath) (d : Domain) : ℤ × TunnelPath × Domain :=
  let r := pathActivate hw bus path.toPathConfig path.state d
  (r.1, { path with state := r.2.1 }, r.2.2)

def disablePaths : List TunnelPath → Domain → PathsRun
  | [], d => ⟨0, [], d⟩
  | path :: rest, d =>
    if path.state ≠ .inactive then
      let r := path.deactivate hw bus d
      if r.1 ≠ 0 then ⟨r.1, r.2.1 :: rest, r.2.2⟩
      else
        let run := disablePaths rest r.2.2
        { run with paths := r.2.1 :: run.paths }
    else
      let run := disablePaths rest d
      { run with paths := path :: run.paths }

def enablePaths : List TunnelPath → Domain → PathsRun
  | [], d => ⟨0, [], d⟩
  | path :: rest, d =>
    let r := path.activate hw bus d
    if r.1 ≠ 0 then ⟨r.1, r.2.1 :: rest, r.2.2⟩
    else
      let run := enablePaths rest r.2.2
      { run with paths := r.2.1 :: run.paths }

/-- Deactivates all paths; `ret` is the first error. -/
def deactivatePaths : List TunnelPath → ℤ → Domain → PathsRun
  | [], ret, d => ⟨ret, [], d⟩
  | path :: rest, ret, d =>
    if path.state ≠ .inactive then
      let r := path.deactivate hw bus d
      let run := deactivatePaths rest (if r.1 ≠ 0 ∧ ret = 0 then r.1 else ret) r.2.2
      { run with paths := r.2.1 :: run.paths }
    else
      let run := deactivatePaths rest ret d
      { run with paths := path :: run.paths }

/-- `tb_tunnel_deactivate()` of a DMA tunnel. -/
def tunnelDeactivate (tunnel : DmaTunnel) (d : Domain) : ℤ × DmaTunnel × Domain :=
  let run := deactivatePaths hw bus tunnel.paths 0 d
  if run.ret ≠ 0 then
    (run.ret, { tunnel with paths := run.paths, state := .teardownFailed }, run.domain)
  else (0, { tunnel with paths := run.paths, state := .inactive }, run.domain)

/-- `tb_tunnel_activate()` of a DMA tunnel. -/
def tunnelActivate (tunnel : DmaTunnel) (d : Domain) : ℤ × DmaTunnel × Domain :=
  let disabled := disablePaths hw bus tunnel.paths d
  if disabled.ret ≠ 0 then
    (disabled.ret, { tunnel with paths := disabled.paths, state := .teardownFailed },
      disabled.domain)
  else
    let run := enablePaths hw bus disabled.paths disabled.domain
    if run.ret ≠ 0 then
      let cleanup := tunnelDeactivate hw bus
        { tunnel with paths := run.paths, state := .activating } run.domain
      (if cleanup.1 ≠ 0 then euclean else run.ret, cleanup.2)
    else (0, { tunnel with paths := run.paths, state := .active }, run.domain)

end Tunnel

def DmaTunnel.releaseSafe (tunnel : DmaTunnel) : Bool :=
  tunnel.state ≠ .teardownFailed ∧ ∀ path ∈ tunnel.paths, path.state = .inactive

/-- `tb_tunnel_put()` of the only reference; the tunnel keeps what it has if it is not safe. -/
def DmaConfig.tunnelPut (cfg : DmaConfig) (tunnel : DmaTunnel) (b : DmaBooks) : DmaBooks :=
  if tunnel.releaseSafe then cfg.tunnelDestroy tunnel.paths b else b

/-- A tunnel in the list.  Only discovered tunnels, which are of other types, are there for their
cleanup. -/
inductive ListedTunnel where
  | dma (tunnel : DmaTunnel)
  | other (state : TunnelState) (cleanupOnly : Bool)

def ListedTunnel.quarantined : ListedTunnel → Bool
  | .dma tunnel => tunnel.state = .teardownFailed
  | .other state cleanupOnly => cleanupOnly || state = .teardownFailed

structure ApproveState where
  books : DmaBooks
  domain : Domain
  tunnels : List ListedTunnel

def ApproveState.quarantined (s : ApproveState) : Bool :=
  s.tunnels.any ListedTunnel.quarantined

/-- `tb_approve_xdomain_paths()`, if the walks over the ports take at most `fuel` steps. -/
def approveXdomainPaths (hw : Hardware) (bus : Bus) (cfg : DmaConfig) (c : DmaCall) (fuel : ℕ)
    (s : ApproveState) : Option (ℤ × ApproveState) :=
  if s.quarantined then some (euclean, s)
  else (cfg.tunnelAllocDma c fuel s.books).map fun (allocated, books) ↦
    match allocated with
    | none => (enomem, { s with books := books })
    | some tunnel =>
      let r := tunnelActivate hw bus tunnel s.domain
      if r.1 ≠ 0 then
        if r.2.1.state = .teardownFailed then
          (euclean, ⟨books, r.2.2, s.tunnels ++ [.dma r.2.1]⟩)
        else (r.1, ⟨cfg.tunnelPut r.2.1 books, r.2.2, s.tunnels⟩)
      else (0, ⟨books, r.2.2, s.tunnels ++ [.dma r.2.1]⟩)

/-! ## What the result says -/

/-- The HopIDs at the ends of a path, where they are given. -/
def TunnelPath.Ends (path : TunnelPath) (first last : ℤ) : Prop :=
  (∃ hop ∈ path.hops.head?, 0 ≤ first → (hop.inHopIndex : ℤ) = first) ∧
    ∃ hop ∈ path.hops.getLast?, 0 ≤ last → (hop.nextHopIndex : ℤ) = last

def LegFor (ring first last : ℤ) (paths : List TunnelPath) : Prop :=
  if 0 < ring then ∃ path, paths = [path] ∧ path.Ends first last else paths = []

def DmaTunnel.For (tunnel : DmaTunnel) (c : DmaCall) : Prop :=
  tunnel.srcPort = c.nhi ∧ tunnel.dstPort = c.dst ∧ ∃ rx tx, tunnel.paths = rx ++ tx ∧
    LegFor c.receiveRing c.receivePath c.receiveRing rx ∧
    LegFor c.transmitRing c.transmitRing c.transmitPath tx

/-- A tunnel for the tuple is owned although it could not be torn down. -/
def ApproveState.Owns (s : ApproveState) (c : DmaCall) : Prop :=
  ∃ tunnel, .dma tunnel ∈ s.tunnels ∧ tunnel.For c ∧ tunnel.state = .teardownFailed

/-- The result of the call in `s`, which leaves `s'`, tells what became of the tunnel. -/
structure ApproveExact (c : DmaCall) (s : ApproveState) (ret : ℤ) (s' : ApproveState) : Prop where
  success : ret = 0 → ∃ tunnel, .dma tunnel ∈ s'.tunnels ∧ tunnel.For c ∧
    ∀ path ∈ tunnel.paths, path.state = .active
  unclean : ret = euclean → s'.Owns c
  other : ret ≠ 0 → ret ≠ euclean → s'.tunnels = s.tunnels ∧ s'.books = s.books

section Run

variable {hw : Hardware} {bus : Bus} {path : TunnelPath} {paths : List TunnelPath} {d : Domain}

theorem pathDeactivate_inactive {config : PathConfig} {state : PathState}
    (h : (pathDeactivate hw bus config state d).1 = 0) :
    (pathDeactivate hw bus config state d).2.1 = .inactive := by
  unfold pathDeactivate at h ⊢
  split at h
  · cases h
  · split at h
    · cases h
    · dsimp only at h ⊢
      split at h
      · next hne => exact absurd h hne
      · next hhops hstate hzero => simp [hhops, hstate, hzero]

theorem activateHops_active {config : PathConfig} {before after : List HopConfig}
    (h : (activateHops hw bus config before after d).1 = 0) :
    (activateHops hw bus config before after d).2.1 = .active := by
  induction before generalizing after d with
  | nil => rfl
  | cons hop rest ih =>
    rw [activateHops] at h ⊢
    split at h
    · next hne => exact absurd h hne
    · next hzero =>
      rw [if_neg hzero]
      exact ih h

theorem pathActivate_active {config : PathConfig} {state : PathState}
    (h : (pathActivate hw bus config state d).1 = 0) :
    (pathActivate hw bus config state d).2.1 = .active := by
  unfold pathActivate at h ⊢
  split at h
  · cases h
  · split at h
    · cases h
    · dsimp only at h ⊢
      split at h
      · next hne => exact absurd h hne
      · split at h
        · next hne => exact absurd h hne
        · next hhops hstate hclear hadd =>
          rw [if_neg hhops, if_neg hstate, if_neg hclear, if_neg hadd]
          exact activateHops_active h

theorem disablePaths_inactive (h : ∀ path ∈ paths, path.state = .inactive) :
    disablePaths hw bus paths d = ⟨0, paths, d⟩ := by
  induction paths with
  | nil => rfl
  | cons path rest ih =>
    rw [disablePaths, if_neg (by simp [h]), ih fun p hp ↦ h p (List.mem_cons_of_mem _ hp)]

theorem enablePaths_active (h : (enablePaths hw bus paths d).ret = 0) :
    ∀ path ∈ (enablePaths hw bus paths d).paths, path.state = .active := by
  induction paths generalizing d with
  | nil => simp [enablePaths]
  | cons path rest ih =>
    rw [enablePaths] at h ⊢
    dsimp only at h ⊢
    split at h
    · next hne => exact absurd h hne
    · next hzero =>
      rw [if_neg hzero]
      intro p hp
      rcases List.mem_cons.1 hp with rfl | hrest
      · exact pathActivate_active (not_not.1 hzero)
      · exact ih h p hrest

theorem deactivatePaths_ne_zero {ret : ℤ} (h : ret ≠ 0) :
    (deactivatePaths hw bus paths ret d).ret ≠ 0 := by
  induction paths generalizing d with
  | nil => exact h
  | cons path rest ih =>
    rw [deactivatePaths]
    split
    · simpa [h] using ih
    · exact ih

/-- A loop of deactivations that returns zero leaves every path inactive. -/
theorem deactivatePaths_inactive (h : (deactivatePaths hw bus paths 0 d).ret = 0) :
    ∀ path ∈ (deactivatePaths hw bus paths 0 d).paths, path.state = .inactive := by
  induction paths generalizing d with
  | nil => simp [deactivatePaths]
  | cons path rest ih =>
    rw [deactivatePaths] at h ⊢
    split at h
    · next hstate =>
      have hzero : (path.deactivate hw bus d).1 = 0 := by
        by_contra hne
        dsimp only at h
        rw [if_pos ⟨hne, rfl⟩] at h
        exact deactivatePaths_ne_zero hne h
      rw [if_pos hstate]
      simp only [hzero, ne_eq, not_true_eq_false, false_and, if_false] at h ⊢
      intro p hp
      rcases List.mem_cons.1 hp with rfl | hrest
      · exact pathDeactivate_inactive hzero
      · exact ih h p hrest
    · next hstate =>
      rw [if_neg hstate]
      intro p hp
      rcases List.mem_cons.1 hp with rfl | hrest
      · exact not_not.1 hstate
      · exact ih h p hrest

/-- Activation and deactivation change the states of the paths only. -/
theorem enablePaths_config :
    (enablePaths hw bus paths d).paths.map TunnelPath.toPathConfig =
      paths.map TunnelPath.toPathConfig := by
  induction paths generalizing d with
  | nil => rfl
  | cons path rest ih =>
    rw [enablePaths]
    dsimp only
    split
    · rfl
    · simp only [List.map_cons, ih]
      rfl

theorem deactivatePaths_config {ret : ℤ} :
    (deactivatePaths hw bus paths ret d).paths.map TunnelPath.toPathConfig =
      paths.map TunnelPath.toPathConfig := by
  induction paths generalizing d ret with
  | nil => rfl
  | cons path rest ih =>
    rw [deactivatePaths]
    split
    · simp only [List.map_cons, ih]
      rfl
    · simp only [List.map_cons, ih]

end Run

/-- No configuration access returns `-EUCLEAN`; the control channel does not. -/
def Bus.NeverUnclean (bus : Bus) : Prop :=
  ∀ n e, (bus.access n).err = some e → e.code ≠ euclean

section Codes

variable {hw : Hardware} {bus : Bus} {port : Port} {d : Domain} (hbus : bus.NeverUnclean)

include hbus

theorem avoids_euclean (sw : ℕ) : Avoids hw bus sw euclean :=
  ⟨hbus, fun _ ↦ by decide, by decide, by decide⟩

theorem portWrite_ne_euclean : (portWrite hw bus port d).1 ≠ euclean := by
  unfold portWrite
  split
  · exact (show enodev ≠ euclean by decide)
  · split
    next err herr => exact hbus _ _ herr
    next => exact (show (0 : ℤ) ≠ euclean by decide)

theorem addNfcCredits_ne_euclean {credits : ℤ} :
    (addNfcCredits hw bus port credits d).1 ≠ euclean := by
  unfold addNfcCredits
  split
  · exact (show (0 : ℤ) ≠ euclean by decide)
  · split
    · exact (show (0 : ℤ) ≠ euclean by decide)
    · exact portWrite_ne_euclean hbus

theorem clearCounters_ne_euclean {hops : List HopConfig} :
    (clearCounters hw bus hops d).1 ≠ euclean := by
  induction hops generalizing d with
  | nil => exact (show (0 : ℤ) ≠ euclean by decide)
  | cons hop rest ih =>
    rw [clearCounters]
    split
    · exact ih
    · dsimp only
      split
      · exact portWrite_ne_euclean hbus
      · exact ih

theorem addCredits_ne_euclean {hops after : List HopConfig} :
    (addCredits hw bus hops after d).1 ≠ euclean := by
  induction hops generalizing after d with
  | nil => exact (show (0 : ℤ) ≠ euclean by decide)
  | cons hop rest ih =>
    rw [addCredits]
    split
    · exact addNfcCredits_ne_euclean hbus
    · exact ih

theorem programHop_ne_euclean {config : PathConfig} {hop : HopConfig} {isFirst isLast : Bool} :
    (programHop hw bus config hop isFirst isLast d).1 ≠ euclean := by
  unfold programHop
  dsimp only
  split
  · exact deactivateHop_avoids (avoids_euclean hbus _)
  · split
    · exact hopWrite_avoids (avoids_euclean hbus _)
    · split
      next hread => exact hopRead_avoids (avoids_euclean hbus _) hread
      next =>
        split
        · exact (show eio ≠ euclean by decide)
        · exact (show (0 : ℤ) ≠ euclean by decide)

theorem activateHops_ne_euclean {config : PathConfig} {before after : List HopConfig} :
    (activateHops hw bus config before after d).1 ≠ euclean := by
  induction before generalizing after d with
  | nil => exact (show (0 : ℤ) ≠ euclean by decide)
  | cons hop rest ih =>
    rw [activateHops]
    split
    · exact programHop_ne_euclean hbus
    · exact ih

theorem pathActivate_ne_euclean {config : PathConfig} {state : PathState} :
    (pathActivate hw bus config state d).1 ≠ euclean := by
  unfold pathActivate
  split
  · exact (show einval ≠ euclean by decide)
  · split
    · exact (show einval ≠ euclean by decide)
    · dsimp only
      split
      · exact clearCounters_ne_euclean hbus
      · split
        · exact addCredits_ne_euclean hbus
        · exact activateHops_ne_euclean hbus

theorem enablePaths_ne_euclean {paths : List TunnelPath} :
    (enablePaths hw bus paths d).ret ≠ euclean := by
  induction paths generalizing d with
  | nil => exact (show (0 : ℤ) ≠ euclean by decide)
  | cons path rest ih =>
    rw [enablePaths]
    dsimp only
    split
    · exact pathActivate_ne_euclean hbus
    · exact ih

end Codes

/-- What the activation of a new tunnel leaves: all paths active, a tunnel that could not be torn
down, or a clean failure. -/
structure Activated (tunnel : DmaTunnel) (ret : ℤ) (tunnel' : DmaTunnel) : Prop where
  src : tunnel'.srcPort = tunnel.srcPort
  dst : tunnel'.dstPort = tunnel.dstPort
  config : tunnel'.paths.map TunnelPath.toPathConfig = tunnel.paths.map TunnelPath.toPathConfig
  outcome : ret = 0 ∧ (∀ path ∈ tunnel'.paths, path.state = .active) ∨
    ret ≠ 0 ∧ tunnel'.state = .teardownFailed ∨
    ret ≠ 0 ∧ ret ≠ euclean ∧ tunnel'.state = .inactive ∧
      ∀ path ∈ tunnel'.paths, path.state = .inactive

section Activated

variable {hw : Hardware} {bus : Bus} {tunnel : DmaTunnel} {d : Domain}

/-- A clean roll-back leaves all paths inactive. -/
theorem tunnelDeactivate_outcome :
    (tunnelDeactivate hw bus tunnel d).1 ≠ 0 ∧
        (tunnelDeactivate hw bus tunnel d).2.1.state = .teardownFailed ∨
      (tunnelDeactivate hw bus tunnel d).1 = 0 ∧
        (tunnelDeactivate hw bus tunnel d).2.1.state = .inactive ∧
        ∀ path ∈ (tunnelDeactivate hw bus tunnel d).2.1.paths, path.state = .inactive := by
  unfold tunnelDeactivate
  dsimp only
  split
  · next hne => exact .inl ⟨hne, rfl⟩
  · next hzero => exact .inr ⟨rfl, rfl, deactivatePaths_inactive (not_not.1 hzero)⟩

theorem tunnelDeactivate_config :
    (tunnelDeactivate hw bus tunnel d).2.1.paths.map TunnelPath.toPathConfig =
      tunnel.paths.map TunnelPath.toPathConfig := by
  unfold tunnelDeactivate
  dsimp only
  split <;> exact deactivatePaths_config

theorem tunnelDeactivate_ports :
    (tunnelDeactivate hw bus tunnel d).2.1.srcPort = tunnel.srcPort ∧
      (tunnelDeactivate hw bus tunnel d).2.1.dstPort = tunnel.dstPort := by
  unfold tunnelDeactivate
  dsimp only
  split <;> exact ⟨rfl, rfl⟩

/-- The activation of new paths ends with all active, all inactive or a failed teardown. -/
theorem tunnelActivate_new (hbus : bus.NeverUnclean)
    (hnew : ∀ path ∈ tunnel.paths, path.state = .inactive) :
    Activated tunnel (tunnelActivate hw bus tunnel d).1 (tunnelActivate hw bus tunnel d).2.1 := by
  have hconfig : (enablePaths hw bus tunnel.paths d).paths.map TunnelPath.toPathConfig = _ :=
    enablePaths_config
  unfold tunnelActivate
  rw [disablePaths_inactive hnew]
  simp only [ne_eq, not_true_eq_false, if_false]
  by_cases hret : (enablePaths hw bus tunnel.paths d).ret = 0
  · simp only [hret, not_true_eq_false, if_false]
    exact ⟨rfl, rfl, hconfig, .inl ⟨rfl, enablePaths_active hret⟩⟩
  · simp only [hret, not_false_eq_true, if_true]
    refine ⟨tunnelDeactivate_ports.1, tunnelDeactivate_ports.2,
      tunnelDeactivate_config.trans hconfig, ?_⟩
    rcases tunnelDeactivate_outcome with ⟨hne, hstate⟩ | ⟨hzero, hstate, hall⟩
    · exact .inr (.inl ⟨by rw [if_pos hne]; decide, hstate⟩)
    · refine .inr (.inr ⟨?_, ?_, hstate, hall⟩)
      · simpa [hzero] using hret
      · simpa [hzero] using enablePaths_ne_euclean hbus

end Activated

def hopidsOf (paths : List TunnelPath) : List ((Bool × Port) × ℕ) :=
  paths.flatMap fun path ↦ (path.hops.map HopConfig.toHop).flatMap Hop.hopids

namespace DmaConfig

variable {cfg : DmaConfig} {credits : UInt32} {dma : Port → UInt32} {hops : List HopConfig}
variable {paths : List TunnelPath} {b : DmaBooks}

theorem tunnelDestroy_ids : (cfg.tunnelDestroy paths b).ids = b.ids.release (hopidsOf paths) := by
  simp only [tunnelDestroy]
  generalize b.ids = ids
  induction paths generalizing ids with
  | nil => rfl
  | cons path rest ih =>
    have hpath : pathFree ids path.toPath =
        ids.release ((path.hops.map HopConfig.toHop).flatMap Hop.hopids) := by
      simp [pathFree, TunnelPath.toPath, List.take_of_length_le]
    rw [List.foldl_cons, ih, hpath, ← Idas.release_append]
    rfl

/-- The release of paths depends on their hops only. -/
theorem tunnelDestroy_congr {paths' : List TunnelPath}
    (h : paths'.map TunnelPath.toPathConfig = paths.map TunnelPath.toPathConfig) :
    cfg.tunnelDestroy paths' b = cfg.tunnelDestroy paths b := by
  have hhops : paths'.map (fun path ↦ path.hops) = paths.map fun path ↦ path.hops := by
    have hmap := congrArg (List.map PathConfig.hops) h
    rw [List.map_map, List.map_map] at hmap
    exact hmap
  have hflat : paths'.flatMap (fun path ↦ path.hops) = paths.flatMap fun path ↦ path.hops := by
    rw [List.flatMap_def, List.flatMap_def, hhops]
  have hids : hopidsOf paths' = hopidsOf paths := by
    have hmap := congrArg
      (List.map fun hops : List HopConfig ↦ (hops.map HopConfig.toHop).flatMap Hop.hopids) hhops
    simp only [List.map_map] at hmap
    rw [hopidsOf, hopidsOf, List.flatMap_def, List.flatMap_def]
    exact congrArg List.flatten hmap
  have hbooks : ∀ x y : DmaBooks, x.ids = y.ids → x.dma = y.dma → x = y := by
    rintro ⟨_, _⟩ ⟨_, _⟩ rfl rfl
    rfl
  apply hbooks
  · rw [tunnelDestroy_ids, tunnelDestroy_ids, hids]
  · simp only [tunnelDestroy, hflat]

/-- A reservation does not change the HopIDs of the hops. -/
theorem reserveHops_toHop :
    (cfg.reserveHops credits hops dma).hops.map HopConfig.toHop = hops.map HopConfig.toHop := by
  induction hops generalizing dma with
  | nil => rfl
  | cons hop rest ih =>
    rw [reserveHops]
    split
    · rfl
    · simp only [List.map_cons, ih]

theorem reserveRx_toHop :
    (cfg.reserveRx credits hops dma).hops.map HopConfig.toHop = hops.map HopConfig.toHop := by
  cases hops with
  | nil => rfl
  | cons hop rest => simp only [reserveRx, List.map_cons, reserveHops_toHop]

/-- All or none of the HopIDs of each direction can be taken. -/
def CallKeepsHopids (cfg : DmaConfig) (c : DmaCall) (fuel : ℕ) (b : DmaBooks) : Prop :=
  (0 < c.receiveRing → KeepsHopids (cfg.rxArgs c) fuel b.ids) ∧
    ∀ rx, cfg.rxLeg c fuel b = some rx → rx.done = true → 0 < c.transmitRing →
      KeepsHopids (cfg.txArgs c) fuel rx.books.ids

section Legs

variable {a : PathArgs} {c : DmaCall} {fuel egressFcEnable : ℕ} {leg : Leg}
variable {reserve : List HopConfig → (Port → UInt32) → Reserved}

def Leg.Takes (leg : Leg) (ids : Hopids) (keeps : Prop) : Prop :=
  ∃ mid lost, Idas.Taken ids mid (hopidsOf leg.paths) ∧ Idas.Taken mid leg.books.ids lost ∧
    (lost = [] ↔ keeps) ∧ (leg.done = true → keeps)

/-- A leg takes the HopIDs of its path, and no other is lost exactly if `KeepsHopids`. -/
theorem allocLeg_takes (hleg : allocLeg a fuel egressFcEnable reserve b = some leg)
    (hreserve : ∀ hops, (reserve hops b.dma).hops.map HopConfig.toHop =
      hops.map HopConfig.toHop) : leg.Takes b.ids (KeepsHopids a fuel b.ids) := by
  obtain ⟨r, hr, hids, ⟨hnone, hpaths, -, hdone⟩ | ⟨path, hsome, rfl⟩⟩ := allocLeg_inv hleg
  · rcases pathAlloc_taken hr with ⟨path, hsome, -⟩ | ⟨-, lost, htaken, hlost⟩
    · rw [hnone] at hsome
      cases hsome
    · refine ⟨b.ids, lost, ?_, hids ▸ htaken, hlost, by simp [hdone]⟩
      rw [hpaths]
      exact Idas.Taken.refl _
  · rcases pathAlloc_taken hr with ⟨path', hsome', htaken, hkeeps⟩ | ⟨hnone, -⟩
    · obtain rfl : path = path' := Option.some.inj (hsome.symm.trans hsome')
      refine ⟨r.ids, [], ?_, Idas.Taken.refl _, by simp [hkeeps], fun _ ↦ hkeeps⟩
      have hhops : hopidsOf [dmaPath egressFcEnable
          (reserve (path.hops.map fun hop ↦ { toHop := hop }) b.dma).hops] =
          path.hops.flatMap Hop.hopids := by
        simp [hopidsOf, dmaPath, hreserve, Function.comp_def]
      rw [hhops]
      exact htaken
    · rw [hsome] at hnone
      cases hnone

theorem rxLeg_takes (hleg : cfg.rxLeg c fuel b = some leg) :
    leg.Takes b.ids (0 < c.receiveRing → KeepsHopids (cfg.rxArgs c) fuel b.ids) := by
  unfold rxLeg at hleg
  split at hleg
  · next hring =>
    simp only [hring, true_imp_iff]
    exact allocLeg_takes hleg fun _ ↦ reserveRx_toHop
  · next hring =>
    cases hleg
    exact ⟨b.ids, [], Idas.Taken.refl _, Idas.Taken.refl _, by simp [hring], by simp [hring]⟩

theorem txLeg_takes (hleg : cfg.txLeg c fuel b = some leg) :
    leg.Takes b.ids (0 < c.transmitRing → KeepsHopids (cfg.txArgs c) fuel b.ids) := by
  unfold txLeg at hleg
  split at hleg
  · next hring =>
    simp only [hring, true_imp_iff]
    exact allocLeg_takes hleg fun _ ↦ reserveHops_toHop
  · next hring =>
    cases hleg
    exact ⟨b.ids, [], Idas.Taken.refl _, Idas.Taken.refl _, by simp [hring], by simp [hring]⟩

/-- The paths of a call take their HopIDs, and no other is lost exactly if `CallKeepsHopids`. -/
theorem buildPaths_takes (hleg : cfg.buildPaths c fuel b = some leg) :
    leg.Takes b.ids (cfg.CallKeepsHopids c fuel b) := by
  obtain ⟨rx, hrx, hrest⟩ := Option.bind_eq_some_iff.1 hleg
  obtain ⟨mid, lost, htaken, hlost, hnone, hdone⟩ := rxLeg_takes hrx
  split at hrest
  · next hfail =>
    cases hrest
    have hfailed : leg.done = false := by simpa using hfail
    refine ⟨mid, lost, htaken, hlost, ?_, by simp [hfailed]⟩
    simp [hnone, CallKeepsHopids, hrx, hfailed]
  · next hok =>
    obtain ⟨tx, htx, rfl⟩ := Option.map_eq_some_iff.1 hrest
    have hrxdone : rx.done = true := by simpa using hok
    obtain ⟨mid', lost', htaken', hlost', hnone', hdone'⟩ := txLeg_takes htx
    have hkeeps : cfg.CallKeepsHopids c fuel b ↔
        (0 < c.transmitRing → KeepsHopids (cfg.txArgs c) fuel rx.books.ids) := by
      constructor
      · exact fun h ↦ h.2 rx hrx hrxdone
      · intro h
        refine ⟨hdone hrxdone, fun rx' hrx' _ ↦ ?_⟩
        rw [← Option.some.inj (hrx.symm.trans hrx')]
        exact h
    -- the first direction has lost nothing, so the second starts where its path ends
    obtain rfl := hnone.2 (hdone hrxdone)
    rw [hkeeps]
    refine ⟨mid', lost', ?_, hlost', hnone', hdone'⟩
    have hboth := (htaken.trans hlost).trans htaken'
    simpa [hopidsOf] using hboth

end Legs

end DmaConfig

namespace DmaConfig

variable {cfg : DmaConfig} {c : DmaCall} {fuel egressFcEnable : ℕ} {a : PathArgs} {b : DmaBooks}
variable {leg : Leg} {reserve : List HopConfig → (Port → UInt32) → Reserved}

/-- A path is allocated with the HopIDs that were asked for at its ends. -/
theorem pathAlloc_ends {r : Allocated} {path : Path} (hne : a.src ≠ a.dst)
    (hr : pathAlloc a fuel b.ids = some r) (hpath : r.path = some path) :
    (∃ hop ∈ path.hops.head?, 0 ≤ a.srcHopid → (hop.inHopIndex : ℤ) = a.srcHopid) ∧
      ∃ hop ∈ path.hops.getLast?, 0 ≤ a.dstHopid → (hop.nextHopIndex : ℤ) = a.dstHopid := by
  obtain ⟨numHops, htake, hroom, rfl⟩ := (pathAlloc_path_iff hr).1 hpath
  have hdone : (allocHops a numHops numHops 0 b.ids a.srcHopid none []).done = true :=
    allocHops_done_iff.2 hroom
  have hlen := allocHops_length hdone
  cases numHops with
  | zero => exact absurd ((hopsToTake_eq_zero_iff htake).1 rfl) hne
  | succ n =>
    have hnil : (allocHops a (n + 1) (n + 1) 0 b.ids a.srcHopid none []).hops ≠ [] := by
      intro hnil
      rw [hnil] at hlen
      cases hlen
    have hhead := List.head?_eq_some_head hnil
    have hlast := List.getLast?_eq_some_getLast hnil
    obtain ⟨ids', hout⟩ := allocHops_getLast (Nat.zero_add _) hdone hlast
    exact ⟨⟨_, hhead, fun hnonneg ↦ hopIn_exact hnonneg (allocHops_head hhead)⟩,
      ⟨_, hlast, fun hnonneg ↦ hopOut_last hnonneg hout⟩⟩

/-- A complete leg is one inactive path between the HopIDs asked for. -/
theorem allocLeg_for (hleg : allocLeg a fuel egressFcEnable reserve b = some leg)
    (hdone : leg.done = true) (hne : a.src ≠ a.dst)
    (hreserve : ∀ hops, (reserve hops b.dma).hops.map HopConfig.toHop =
      hops.map HopConfig.toHop) :
    ∃ path, leg.paths = [path] ∧ path.Ends a.srcHopid a.dstHopid ∧ path.state = .inactive := by
  obtain ⟨r, hr, -, ⟨-, -, -, hfailed⟩ | ⟨path, hsome, rfl⟩⟩ := allocLeg_inv hleg
  · rw [hdone] at hfailed
    cases hfailed
  · refine ⟨_, rfl, ?_, rfl⟩
    have hhops : (reserve (path.hops.map fun hop ↦ { toHop := hop }) b.dma).hops.map
        HopConfig.toHop = path.hops := by
      simp [hreserve, Function.comp_def]
    obtain ⟨⟨first, hfirst, hin⟩, last, hlast, hout⟩ := pathAlloc_ends hne hr hsome
    rw [← hhops] at hfirst hlast
    rw [List.head?_map, Option.mem_map] at hfirst
    rw [List.getLast?_map, Option.mem_map] at hlast
    obtain ⟨first, hfirst, rfl⟩ := hfirst
    obtain ⟨last, hlast, rfl⟩ := hlast
    exact ⟨⟨first, hfirst, hin⟩, last, hlast, hout⟩

/-- The tunnel that is allocated is new and for the tuple of the call. -/
theorem buildPaths_for (hleg : cfg.buildPaths c fuel b = some leg) (hdone : leg.done = true)
    (hne : c.dst ≠ c.nhi) :
    (∀ path ∈ leg.paths, path.state = .inactive) ∧ ∃ rx tx, leg.paths = rx ++ tx ∧
      LegFor c.receiveRing c.receivePath c.receiveRing rx ∧
      LegFor c.transmitRing c.transmitRing c.transmitPath tx := by
  obtain ⟨rx, hrx, hrest⟩ := Option.bind_eq_some_iff.1 hleg
  split at hrest
  · next hfail =>
    cases hrest
    simp [hdone] at hfail
  · next hok =>
    obtain ⟨tx, htx, rfl⟩ := Option.map_eq_some_iff.1 hrest
    have hrxdone : rx.done = true := by simpa using hok
    have hrxfor : (∀ path ∈ rx.paths, path.state = .inactive) ∧
        LegFor c.receiveRing c.receivePath c.receiveRing rx.paths := by
      unfold rxLeg at hrx
      unfold LegFor
      split at hrx
      · next hring =>
        obtain ⟨path, hpaths, hends, hstate⟩ :=
          allocLeg_for hrx hrxdone hne fun _ ↦ reserveRx_toHop
        rw [if_pos hring, hpaths]
        exact ⟨by simp [hstate], path, rfl, hends⟩
      · next hring =>
        cases hrx
        simp [hring]
    have htxfor : (∀ path ∈ tx.paths, path.state = .inactive) ∧
        LegFor c.transmitRing c.transmitRing c.transmitPath tx.paths := by
      unfold txLeg at htx
      unfold LegFor
      split at htx
      · next hring =>
        obtain ⟨path, hpaths, hends, hstate⟩ :=
          allocLeg_for htx hdone hne.symm fun _ ↦ reserveHops_toHop
        rw [if_pos hring, hpaths]
        exact ⟨by simp [hstate], path, rfl, hends⟩
      · next hring =>
        cases htx
        simp [hring]
    refine ⟨?_, rx.paths, tx.paths, rfl, hrxfor.2, htxfor.2⟩
    intro path hmem
    rcases List.mem_append.1 hmem with hin | hin
    · exact hrxfor.1 path hin
    · exact htxfor.1 path hin

end DmaConfig

section Same

variable {paths paths' : List TunnelPath} {ring first last : ℤ}

/-- The ends of a path are told by its hops. -/
theorem LegFor.congr (h : LegFor ring first last paths)
    (hsame : paths'.map TunnelPath.toPathConfig = paths.map TunnelPath.toPathConfig) :
    LegFor ring first last paths' := by
  unfold LegFor at h ⊢
  split at h
  · next hring =>
    obtain ⟨path, rfl, hends⟩ := h
    rw [List.map_singleton, List.map_eq_singleton_iff] at hsame
    obtain ⟨path', rfl, hpath⟩ := hsame
    rw [if_pos hring]
    refine ⟨path', rfl, ?_⟩
    unfold TunnelPath.Ends
    rw [hpath]
    exact hends
  · next hring =>
    subst h
    rw [if_neg hring]
    exact List.map_eq_nil_iff.1 hsame

theorem DmaTunnel.For.congr {tunnel tunnel' : DmaTunnel} {c : DmaCall} {ret : ℤ}
    (h : tunnel.For c) (hrun : Activated tunnel ret tunnel') : tunnel'.For c := by
  obtain ⟨hsrc, hdst, rx, tx, hpaths, hrx, htx⟩ := h
  refine ⟨hrun.src.trans hsrc, hrun.dst.trans hdst, ?_⟩
  have hconfig := hrun.config
  rw [hpaths, List.map_append] at hconfig
  obtain ⟨rx', tx', hpaths', hrx', htx'⟩ := List.map_eq_append_iff.1 hconfig
  exact ⟨rx', tx', hpaths', hrx.congr hrx', htx.congr htx'⟩

end Same

namespace DmaConfig

variable {cfg : DmaConfig} {c : DmaCall} {fuel : ℕ} {b : DmaBooks} {leg : Leg}

/-- The release of what was built restores the books exactly if no HopID is lost and nothing is
spilled. -/
theorem tunnelDestroy_eq_iff (hstarts : c.starts = true)
    (hleg : cfg.buildPaths c fuel b = some leg) :
    cfg.tunnelDestroy leg.paths leg.books = b ↔
      cfg.CallKeepsHopids c fuel b ∧ ¬ cfg.Spills c fuel b := by
  obtain ⟨mid, lost, htaken, hlost, hnone, -⟩ := buildPaths_takes hleg
  rw [← hnone, ← htaken.release_eq_iff hlost, ← tunnelDestroy_ids,
    ← tunnelDestroy_dma_iff hstarts hleg]
  constructor
  · intro hsame
    rw [hsame]
    exact ⟨rfl, rfl⟩
  · rintro ⟨hids, hdma⟩
    calc cfg.tunnelDestroy leg.paths leg.books
        = ⟨(cfg.tunnelDestroy leg.paths leg.books).ids,
            (cfg.tunnelDestroy leg.paths leg.books).dma⟩ := rfl
      _ = ⟨b.ids, b.dma⟩ := by rw [hids, hdma]

end DmaConfig

section Approve

variable {hw : Hardware} {bus : Bus} {cfg : DmaConfig} {c : DmaCall} {fuel : ℕ}
variable {s s' : ApproveState} {ret : ℤ}

/-- The results of a call that is not refused: it fails to allocate, or it activates the tunnel it
has built. -/
theorem approve_inv (hcall : approveXdomainPaths hw bus cfg c fuel s = some (ret, s'))
    (hopen : s.quarantined = false) :
    c.starts = false ∧ ret = enomem ∧ s' = s ∨
    c.starts = true ∧ ∃ leg, cfg.buildPaths c fuel s.books = some leg ∧
      (leg.done = false ∧ ret = enomem ∧
        s' = { s with books := cfg.tunnelDestroy leg.paths leg.books } ∨
      leg.done = true ∧ ∃ r,
        tunnelActivate hw bus ⟨c.nhi, c.dst, leg.paths, .inactive⟩ s.domain = r ∧
        (r.1 = 0 ∧ ret = 0 ∧ s' = ⟨leg.books, r.2.2, s.tunnels ++ [.dma r.2.1]⟩ ∨
        r.1 ≠ 0 ∧ r.2.1.state = .teardownFailed ∧ ret = euclean ∧
          s' = ⟨leg.books, r.2.2, s.tunnels ++ [.dma r.2.1]⟩ ∨
        r.1 ≠ 0 ∧ r.2.1.state ≠ .teardownFailed ∧ ret = r.1 ∧
          s' = ⟨cfg.tunnelPut r.2.1 leg.books, r.2.2, s.tunnels⟩)) := by
  unfold approveXdomainPaths at hcall
  rw [if_neg (by simp [hopen])] at hcall
  obtain ⟨⟨allocated, books⟩, halloc, heq⟩ := Option.map_eq_some_iff.1 hcall
  have hret := congrArg Prod.fst heq.symm
  have hstate := congrArg Prod.snd heq.symm
  clear hcall heq
  unfold DmaConfig.tunnelAllocDma at halloc
  split at halloc
  · next hstarts =>
    right
    obtain ⟨leg, hleg, hbuilt⟩ := Option.map_eq_some_iff.1 halloc
    refine ⟨hstarts, leg, hleg, ?_⟩
    cases hdone : leg.done with
    | false =>
      left
      rw [hdone] at hbuilt
      cases hbuilt
      exact ⟨rfl, hret, hstate⟩
    | true =>
      right
      rw [hdone] at hbuilt
      cases hbuilt
      refine ⟨rfl, _, rfl, ?_⟩
      dsimp only at hret hstate
      split at hret
      · next hne =>
        rw [if_pos hne] at hstate
        split at hret
        · next hfailed =>
          rw [if_pos hfailed] at hstate
          exact .inr (.inl ⟨hne, hfailed, hret, hstate⟩)
        · next hclean =>
          rw [if_neg hclean] at hstate
          exact .inr (.inr ⟨hne, hclean, hret, hstate⟩)
      · next hzero =>
        rw [if_neg hzero] at hstate
        exact .inl ⟨not_not.1 hzero, hret, hstate⟩
  · next hstarts =>
    left
    cases halloc
    exact ⟨by simpa using hstarts, hret, hstate⟩

/-- A failure that leaves no tunnel is exact if the books are as they were. -/
theorem ApproveExact.failure_iff {books : DmaBooks} {domain : Domain} (hne : ret ≠ 0)
    (hclean : ret ≠ euclean) :
    ApproveExact c s ret ⟨books, domain, s.tunnels⟩ ↔ books = s.books :=
  ⟨fun h ↦ (h.other hne hclean).2,
    fun hbooks ↦ ⟨fun hzero ↦ absurd hzero hne, fun heuclean ↦ absurd heuclean hclean,
      fun _ _ ↦ ⟨rfl, hbooks⟩⟩⟩

/-- A call that is refused is exact only if the tuple is the one in quarantine. -/
theorem approve_refused_iff (hcall : approveXdomainPaths hw bus cfg c fuel s = some (ret, s'))
    (hquarantined : s.quarantined = true) : ApproveExact c s ret s' ↔ s.Owns c := by
  rw [approveXdomainPaths, if_pos hquarantined] at hcall
  cases hcall
  constructor
  · exact fun h ↦ h.unclean rfl
  · exact fun howns ↦ ⟨fun hzero ↦ absurd hzero (by decide), fun _ ↦ howns,
      fun _ hclean ↦ absurd rfl hclean⟩

/-- A call that is not refused is exact if it leaves something behind: a tunnel that is active or
could not be torn down.  If it leaves no tunnel, it is exact if it loses no HopID and no credits. -/
theorem approve_open_iff (hcall : approveXdomainPaths hw bus cfg c fuel s = some (ret, s'))
    (hopen : s.quarantined = false) (hbus : bus.NeverUnclean) (hne : c.dst ≠ c.nhi) :
    ApproveExact c s ret s' ↔ (ret ≠ 0 → ret ≠ euclean → c.starts = true →
      cfg.CallKeepsHopids c fuel s.books ∧ ¬ cfg.Spills c fuel s.books) := by
  have henomem : enomem ≠ 0 ∧ enomem ≠ euclean := by decide
  rcases approve_inv hcall hopen with ⟨hstarts, rfl, hsame⟩ | ⟨hstarts, leg, hleg, hrest⟩
  · have hexact : ApproveExact c s enomem ⟨s.books, s.domain, s.tunnels⟩ :=
      (ApproveExact.failure_iff henomem.1 henomem.2).2 rfl
    simpa [hstarts, hsame] using hexact
  · have hrestore := DmaConfig.tunnelDestroy_eq_iff hstarts hleg
    simp only [hstarts, true_imp_iff]
    rcases hrest with ⟨hfailed, rfl, rfl⟩ | ⟨hdone, r, hr, hresult⟩
    · simp only [henomem, ne_eq, not_false_eq_true, true_imp_iff]
      exact (ApproveExact.failure_iff henomem.1 henomem.2).trans hrestore
    · obtain ⟨hnew, hpaths⟩ := DmaConfig.buildPaths_for hleg hdone hne
      have hfor : DmaTunnel.For ⟨c.nhi, c.dst, leg.paths, .inactive⟩ c := ⟨rfl, rfl, hpaths⟩
      have hrun : Activated ⟨c.nhi, c.dst, leg.paths, .inactive⟩ r.1 r.2.1 :=
        hr ▸ tunnelActivate_new hbus hnew
      have hfor' := hfor.congr hrun
      rcases hresult with ⟨hzero, rfl, rfl⟩ | ⟨hfail, hstate, rfl, rfl⟩ | ⟨hfail, hstate, rfl, rfl⟩
      · refine iff_of_true ?_ fun h ↦ absurd rfl h
        rcases hrun.outcome with ⟨-, hactive⟩ | ⟨hne, -⟩ | ⟨hne, -⟩
        · exact ⟨fun _ ↦ ⟨r.2.1, by simp, hfor', hactive⟩, fun h ↦ absurd h (by decide),
            fun h ↦ absurd rfl h⟩
        · exact absurd hzero hne
        · exact absurd hzero hne
      · exact iff_of_true ⟨fun h ↦ absurd h (by decide), fun _ ↦ ⟨r.2.1, by simp, hfor', hstate⟩,
          fun _ h ↦ absurd rfl h⟩ fun _ h ↦ absurd rfl h
      · rcases hrun.outcome with ⟨hzero, -⟩ | ⟨-, hteardown⟩ | ⟨-, hclean, -, hinactive⟩
        · exact absurd hzero hfail
        · exact absurd hteardown hstate
        · simp only [hfail, hclean, ne_eq, not_false_eq_true, true_imp_iff]
          rw [ApproveExact.failure_iff hfail hclean]
          have hsafe : r.2.1.releaseSafe = true := by
            simpa [DmaTunnel.releaseSafe, hstate] using hinactive
          simp only [DmaConfig.tunnelPut, hsafe, if_true]
          rw [DmaConfig.tunnelDestroy_congr hrun.config]
          exact hrestore

end Approve

/-- The result of `tb_approve_xdomain_paths()` tells what became of the tunnel exactly if no other
tunnel is in quarantine and, for a call that fails without owning a tunnel, no HopID is lost and no
credits are spilled. -/
theorem approve_result_exact_iff (hw : Hardware) (bus : Bus) (cfg : DmaConfig) (c : DmaCall)
    (fuel : ℕ) (s s' : ApproveState) (ret : ℤ)
    (hcall : approveXdomainPaths hw bus cfg c fuel s = some (ret, s'))
    (hbus : bus.NeverUnclean) (hne : c.dst ≠ c.nhi) :
    ApproveExact c s ret s' ↔
      (s.quarantined = true → s.Owns c) ∧
      (ret ≠ 0 → ret ≠ euclean → c.starts = true →
        cfg.CallKeepsHopids c fuel s.books ∧ ¬ cfg.Spills c fuel s.books) := by
  cases hquarantined : s.quarantined with
  | true =>
    have hret : ret = euclean := by
      rw [approveXdomainPaths, if_pos hquarantined] at hcall
      exact (congrArg Prod.fst (Option.some.inj hcall)).symm
    rw [approve_refused_iff hcall hquarantined]
    simp [hret]
  | false => simp [approve_open_iff hcall hquarantined hbus hne]

def dmaHostHardware : Hardware where
  isUnplugged _ := false
  isUsb4 _ := true
  isNull p := p.num == 1

def dmaHostDomain : Domain where
  config _ := 0
  regs _ _ := {}

def dmaHostApprove (books : DmaBooks) (tunnels : List ListedTunnel) : ApproveState where
  books := books
  domain := dmaHostDomain
  tunnels := tunnels

theorem approve_result_exact_host :
    ∃ s', approveXdomainPaths dmaHostHardware {} (dmaHostConfig 120 14 true) (dmaHostReceive 8 1) 4
        (dmaHostApprove dmaHostStart.toDmaBooks []) = some (0, s') ∧
      ApproveExact (dmaHostReceive 8 1) (dmaHostApprove dmaHostStart.toDmaBooks []) 0 s' := by
  refine ⟨_, rfl, ?_⟩
  refine (approve_result_exact_iff dmaHostHardware {} (dmaHostConfig 120 14 true)
    (dmaHostReceive 8 1) 4 _ _ 0 rfl ?_ (by decide)).2 ⟨?_, ?_⟩
  · intro n e herr
    cases herr
  · intro hquarantined
    cases hquarantined
  · exact fun hfail ↦ absurd rfl hfail

def dmaHostBoth : DmaCall where
  nhi := ⟨0, 2⟩
  dst := ⟨0, 1⟩
  transmitPath := 8
  transmitRing := 1
  receivePath := 8
  receiveRing := 1

def dmaHostUsed : DmaBooks where
  ids := Idas.mark (fun _ _ ↦ false) (false, ⟨0, 1⟩) 8 true
  dma _ := 0

/-- Because of a tunnel of another type in quarantine the call returns `-EUCLEAN` and owns nothing,
and a call without room for its second path returns `-ENOMEM` and keeps a HopID of the host
controller. -/
theorem approve_result_misleads :
    (approveXdomainPaths dmaHostHardware {} (dmaHostConfig 120 14 true) dmaHostBoth 4
        (dmaHostApprove dmaHostStart.toDmaBooks [.other .teardownFailed false]) =
      some (euclean, dmaHostApprove dmaHostStart.toDmaBooks [.other .teardownFailed false]) ∧
      ¬ (dmaHostApprove dmaHostStart.toDmaBooks [.other .teardownFailed false]).Owns dmaHostBoth) ∧
    ∃ s', approveXdomainPaths dmaHostHardware {} (dmaHostConfig 120 14 true) dmaHostBoth 4
        (dmaHostApprove dmaHostUsed []) = some (enomem, s') ∧
      dmaHostUsed.ids (true, ⟨0, 2⟩) 1 = false ∧ s'.books.ids (true, ⟨0, 2⟩) 1 = true := by
  refine ⟨⟨rfl, ?_⟩, _, rfl, by decide +kernel, by decide +kernel⟩
  rintro ⟨tunnel, hmem, -⟩
  simp [dmaHostApprove] at hmem

end ThunderboltStack.Cm
