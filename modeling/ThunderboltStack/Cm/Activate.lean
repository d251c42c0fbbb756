import ThunderboltStack.Cm.Path

/-!
# Activation and deactivation of paths

`tb_path_activate` and `tb_path_deactivate` of `path.c`, with `tb_port_add_nfc_credits` of
`switch.c`.  A path is programmed into one entry of the path configuration space of the input port
of each of its hops, and takes credits from the register of that port, of which the driver keeps a
copy.

Each access to a configuration space has an outcome from the surroundings.  An access may fail, and
a write that failed may have reached the router all the same.  A router may also lose an entry, as
the driver expects when it reads back what it wrote.
-/

namespace ThunderboltStack.Cm

def einval : ℤ := -22

def enodev : ℤ := -19

def eio : ℤ := -5

def etimedout : ℤ := -110

/-! ## Configuration spaces -/

/-- `struct tb_regs_hop`. -/
structure HopRegs where
  nextHop : ℕ := 0
  outPort : ℕ := 0
  initialCredits : ℕ := 0
  pmps : Bool := false
  enable : Bool := false
  weight : ℕ := 0
  priority : ℕ := 0
  dropPackages : Bool := false
  counter : ℕ := 0
  counterEnable : Bool := false
  ingressFc : Bool := false
  egressFc : Bool := false
  ingressSharedBuffer : Bool := false
  egressSharedBuffer : Bool := false
  pending : Bool := false

/-- An error of a configuration access to a router that is there.  For the path configuration space
`-ENODEV` only says that the router is gone. -/
structure CfgError where
  code : ℤ
  ne_zero : code ≠ 0
  ne_enodev : code ≠ enodev

/-- The outcome of one access: its error, whether a failed write reached the router, whether the
router lost the entry that is read, and whether packets are pending there. -/
structure Access where
  err : Option CfgError := none
  lands : Bool := false
  lost : Bool := false
  pending : Bool := false

/-- What the accesses of one operation meet.  `polls` is how often the loop that waits for an entry
to drain gets to read it again. -/
structure Bus where
  access : ℕ → Access := fun _ ↦ {}
  polls : ℕ → ℕ := fun _ ↦ 0

/-- What does not change about routers and ports. -/
structure Hardware where
  isUnplugged : ℕ → Bool
  isUsb4 : ℕ → Bool
  isNull : Port → Bool

/-- The path configuration spaces, and the copies of `ADP_CS_4`.  `tick` counts the accesses of an
operation, and `written` records the entries that were written. -/
structure Domain where
  config : Port → ℕ
  regs : Port → ℕ → HopRegs
  tick : ℕ := 0
  written : List (Port × ℕ) := []

namespace Domain

def setRegs (d : Domain) (port : Port) (hopid : ℕ) (hop : HopRegs) : Domain :=
  { d with regs := fun p h ↦ if p = port ∧ h = hopid then hop else d.regs p h }

def next (d : Domain) : Domain := { d with tick := d.tick + 1 }

def nextWrite (d : Domain) (port : Port) (hopid : ℕ) : Domain :=
  { d with tick := d.tick + 1, written := (port, hopid) :: d.written }

end Domain

inductive PathState where
  | inactive
  | active
  | teardownFailed
  deriving DecidableEq

/-- `struct tb_path_hop`. -/
structure HopConfig extends Hop where
  inCounterIndex : ℤ := -1
  initialCredits : ℕ := 0
  nfcCredits : ℕ := 0
  pmSupport : Bool := false

/-- `struct tb_path`, as it is filled in for the activation.  The masks are of
`enum tb_path_port`. -/
structure PathConfig where
  hops : List HopConfig
  ingressSharedBuffer : ℕ := 0
  egressSharedBuffer : ℕ := 0
  ingressFcEnable : ℕ := 0
  egressFcEnable : ℕ := 0
  priority : ℕ := 0
  weight : ℤ := 0
  dropPackages : Bool := false
  clearFc : Bool := false

section Operations

variable (hw : Hardware) (bus : Bus)

/-- `tb_path_port_read` of an entry. -/
def hopRead (port : Port) (hopid : ℕ) (d : Domain) : Except ℤ HopRegs × Domain :=
  if hw.isUnplugged port.sw then (.error enodev, d)
  else
    match (bus.access d.tick).err with
    | some err => (.error err.code, d.next)
    | none =>
      let kept := d.regs port hopid
      let found := if (bus.access d.tick).lost then { kept with enable := false, weight := 0 }
        else kept
      let hop := { found with pending := (bus.access d.tick).pending }
      (.ok hop, (d.setRegs port hopid hop).next)

/-- `tb_path_port_write` of an entry. -/
def hopWrite (port : Port) (hopid : ℕ) (hop : HopRegs) (d : Domain) : ℤ × Domain :=
  if hw.isUnplugged port.sw then (enodev, d)
  else
    match (bus.access d.tick).err with
    | some err =>
      let d' := if (bus.access d.tick).lands then d.setRegs port hopid hop else d
      (err.code, d'.nextWrite port hopid)
    | none => (0, (d.setRegs port hopid hop).nextWrite port hopid)

/-- `tb_port_write` of another register, of which only the error matters. -/
def portWrite (port : Port) (d : Domain) : ℤ × Domain :=
  if hw.isUnplugged port.sw then (enodev, d)
  else
    match (bus.access d.tick).err with
    | some err => (err.code, d.next)
    | none => (0, d.next)

/-- The ports whose credits are programmed: USB4 has them for lane adapters only. -/
def Hardware.programs (port : Port) : Bool := !(hw.isUsb4 port.sw && !hw.isNull port)

/-- `ADP_CS_4_NFC_BUFFERS_MASK`, as the number of values. -/
def nfcBuffers : ℕ := 2 ^ 10

/-- `tb_port_add_nfc_credits`.  The copy is changed whether or not the write succeeds. -/
def addNfcCredits (port : Port) (credits : ℤ) (d : Domain) : ℤ × Domain :=
  if credits = 0 ∨ hw.isUnplugged port.sw = true then (0, d)
  else if hw.programs port = false then (0, d)
  else
    let nfcCredits := d.config port % nfcBuffers
    let credits := if credits < 0 then max (-(nfcCredits : ℤ)) credits else credits
    let sum := ((nfcCredits + credits) % 2 ^ 32).toNat
    let config := d.config port / nfcBuffers * nfcBuffers ||| sum
    portWrite hw bus port { d with config := Function.update d.config port config }

/-- `__tb_path_deallocate_nfc`, for the hops from `first_hop` on. -/
def deallocateNfc : List HopConfig → Domain → Domain
  | [], d => d
  | hop :: rest, d => deallocateNfc rest (addNfcCredits hw bus hop.inPort (-hop.nfcCredits) d).2

def withoutFc (port : Port) (hop : HopRegs) : HopRegs :=
  { hop with
    ingressFc := hw.isUsb4 port.sw && hop.ingressFc
    ingressSharedBuffer := hw.isUsb4 port.sw && hop.ingressSharedBuffer
    egressFc := false
    egressSharedBuffer := false }

def drain (port : Port) (hopid : ℕ) (clearFc : Bool) : ℕ → Domain → ℤ × Domain
  | 0, d => (etimedout, d)
  | n + 1, d =>
    match hopRead hw bus port hopid d with
    | (.error ret, d) => (ret, d)
    | (.ok hop, d) =>
      if !hop.pending then
        if clearFc then hopWrite hw bus port hopid (withoutFc hw port hop) d else (0, d)
      else drain port hopid clearFc n d

def deactivateHop (port : Port) (hopid : ℕ) (clearFc : Bool) (d : Domain) : ℤ × Domain :=
  match hopRead hw bus port hopid d with
  | (.error ret, d) => (ret, d)
  | (.ok hop, d) =>
    if !hop.enable && !hop.pending then (0, d)
    else
      let disabled := if hop.enable then hopWrite hw bus port hopid { hop with enable := false } d
        else (0, d)
      if disabled.1 ≠ 0 then disabled
      else drain hw bus port hopid clearFc (bus.polls disabled.2.tick + 1) disabled.2

/-- `__tb_path_deactivate_hops`, for the hops from `first_hop` on; `ret` is the first error. -/
def deactivateHops (clearFc : Bool) : List HopConfig → ℤ → Domain → ℤ × Domain
  | [], ret, d => (ret, d)
  | hop :: rest, ret, d =>
    let r := deactivateHop hw bus hop.inPort hop.inHopIndex clearFc d
    let ret := if r.1 ≠ 0 ∧ r.1 ≠ enodev ∧ ret = 0 then r.1 else ret
    deactivateHops clearFc rest ret r.2

def pathDeactivate (path : PathConfig) (state : PathState) (d : Domain) :
    ℤ × PathState × Domain :=
  if path.hops = [] then (einval, state, d)
  else if state = .inactive then (einval, state, d)
  else
    let r := deactivateHops hw bus path.clearFc path.hops 0 d
    if r.1 ≠ 0 then (r.1, .teardownFailed, r.2)
    else (0, .inactive, deallocateNfc hw bus path.hops r.2)

/-! ## Activation -/

def clearCounters : List HopConfig → Domain → ℤ × Domain
  | [], d => (0, d)
  | hop :: before, d =>
    if hop.inCounterIndex = -1 then clearCounters before d
    else
      let r := portWrite hw bus hop.inPort d
      if r.1 ≠ 0 then r else clearCounters before r.2

/-- Adds the credits, from the last hop on; `after` are the hops that have theirs. -/
def addCredits : List HopConfig → List HopConfig → Domain → ℤ × Domain
  | [], _, d => (0, d)
  | hop :: before, after, d =>
    let r := addNfcCredits hw bus hop.inPort hop.nfcCredits d
    if r.1 ≠ 0 then (r.1, deallocateNfc hw bus (hop :: after) r.2)
    else addCredits before (hop :: after) r.2

/-- A mask and one of `TB_PATH_SOURCE`, `TB_PATH_INTERNAL` and `TB_PATH_DESTINATION`. -/
def masked (mask bit : ℕ) : Bool := mask &&& bit != 0

def hopRegs (path : PathConfig) (hop : HopConfig) (isFirst isLast : Bool) : HopRegs :=
  let outMask := if isLast then 4 else 2
  let inMask := if isFirst then 1 else 2
  { nextHop := hop.nextHopIndex % 2 ^ 11
    outPort := hop.outPort.num % 2 ^ 6
    initialCredits := hop.initialCredits % 2 ^ 7
    pmps := hop.pmSupport
    enable := true
    weight := (path.weight % 2 ^ 4).toNat
    priority := path.priority % 2 ^ 3
    dropPackages := path.dropPackages
    counter := (hop.inCounterIndex % 2 ^ 11).toNat
    counterEnable := hop.inCounterIndex != -1
    ingressFc := masked path.ingressFcEnable inMask
    egressFc := masked path.egressFcEnable outMask
    ingressSharedBuffer := masked path.ingressSharedBuffer inMask
    egressSharedBuffer := masked path.egressSharedBuffer outMask }

def programHop (path : PathConfig) (hop : HopConfig) (isFirst isLast : Bool) (d : Domain) :
    ℤ × Domain :=
  let r := deactivateHop hw bus hop.inPort hop.inHopIndex path.clearFc d
  if r.1 ≠ 0 then r
  else
    let w := hopWrite hw bus hop.inPort hop.inHopIndex (hopRegs path hop isFirst isLast) r.2
    if w.1 ≠ 0 then w
    else
      match hopRead hw bus hop.inPort hop.inHopIndex w.2 with
      | (.error ret, d) => (ret, d)
      | (.ok check, d) => if !check.enable ∨ check.weight ≠ path.weight then (eio, d) else (0, d)

/-- `__tb_path_activation_rollback`, for the hops from `first_hop` on. -/
def activationRollback (path : PathConfig) (hops : List HopConfig) (d : Domain) :
    PathState × Domain :=
  let r := deactivateHops hw bus path.clearFc hops 0 d
  if r.1 ≠ 0 then (.teardownFailed, r.2) else (.inactive, deallocateNfc hw bus path.hops r.2)

/-- Activates the hops, from the last one on; `after` are the hops that were activated. -/
def activateHops (path : PathConfig) : List HopConfig → List HopConfig → Domain →
    ℤ × PathState × Domain
  | [], _, d => (0, .active, d)
  | hop :: before, after, d =>
    let r := programHop hw bus path hop before.isEmpty after.isEmpty d
    if r.1 ≠ 0 then (r.1, activationRollback hw bus path (hop :: after) r.2)
    else activateHops path before (hop :: after) r.2

def pathActivate (path : PathConfig) (state : PathState) (d : Domain) : ℤ × PathState × Domain :=
  if path.hops = [] then (einval, state, d)
  else if state ≠ .inactive then (einval, state, d)
  else
    let c := clearCounters hw bus path.hops.reverse d
    if c.1 ≠ 0 then (c.1, .inactive, c.2)
    else
      let a := addCredits hw bus path.hops.reverse [] c.2
      if a.1 ≠ 0 then (a.1, .inactive, a.2)
      else activateHops hw bus path path.hops.reverse [] a.2

end Operations

/-! ## What accesses change -/

def Domain.Disabled (d : Domain) (entry : Port × ℕ) : Prop :=
  (d.regs entry.1 entry.2).enable = false

/-- From `d` to `d'` only entries of `entries` were written or changed, and the copies of the
credits are the same. -/
structure Touches (entries : List (Port × ℕ)) (d d' : Domain) : Prop where
  config : d'.config = d.config
  regs : ∀ p h, (p, h) ∉ entries → d'.regs p h = d.regs p h
  written : ∃ new, d'.written = new ++ d.written ∧ ∀ entry ∈ new, entry ∈ entries

namespace Touches

variable {entries more : List (Port × ℕ)} {d d' d'' : Domain}

theorem refl (d : Domain) : Touches entries d d :=
  ⟨rfl, fun _ _ _ ↦ rfl, [], rfl, by simp⟩

theorem trans (h : Touches entries d d') (h' : Touches entries d' d'') :
    Touches entries d d'' where
  config := h'.config.trans h.config
  regs p q hmem := (h'.regs p q hmem).trans (h.regs p q hmem)
  written := by
    obtain ⟨new, hnew, hin⟩ := h.written
    obtain ⟨new', hnew', hin'⟩ := h'.written
    refine ⟨new' ++ new, by rw [hnew', hnew, List.append_assoc], ?_⟩
    intro entry hmem
    rcases List.mem_append.1 hmem with hlater | hearlier
    · exact hin' entry hlater
    · exact hin entry hearlier

theorem mono (h : Touches entries d d') (hsub : ∀ entry ∈ entries, entry ∈ more) :
    Touches more d d' where
  config := h.config
  regs p q hmem := h.regs p q fun hin ↦ hmem (hsub _ hin)
  written := by
    obtain ⟨new, hnew, hin⟩ := h.written
    exact ⟨new, hnew, fun entry hmem ↦ hsub entry (hin entry hmem)⟩

theorem disabled {entry : Port × ℕ} (h : Touches entries d d') (hmem : entry ∉ entries)
    (hdis : d.Disabled entry) : d'.Disabled entry := by
  rw [Domain.Disabled, h.regs _ _ hmem]
  exact hdis

end Touches

section Access

variable {hw : Hardware} {bus : Bus} {port : Port} {hopid : ℕ} {hop : HopRegs} {d : Domain}

@[simp] theorem setRegs_self : (d.setRegs port hopid hop).regs port hopid = hop :=
  if_pos ⟨rfl, rfl⟩

theorem setRegs_of_ne {p : Port} {h : ℕ} (hne : (p, h) ≠ (port, hopid)) :
    (d.setRegs port hopid hop).regs p h = d.regs p h := by
  apply if_neg
  rintro ⟨rfl, rfl⟩
  exact hne rfl

theorem touches_setRegs : Touches [(port, hopid)] d (d.setRegs port hopid hop) where
  config := rfl
  regs _ _ hmem := setRegs_of_ne (List.ne_of_not_mem_cons hmem)
  written := ⟨[], rfl, by simp⟩

theorem touches_next {entries : List (Port × ℕ)} : Touches entries d d.next :=
  ⟨rfl, fun _ _ _ ↦ rfl, [], rfl, by simp⟩

theorem touches_nextWrite : Touches [(port, hopid)] d (d.nextWrite port hopid) :=
  ⟨rfl, fun _ _ _ ↦ rfl, [(port, hopid)], rfl, by simp⟩

/-- What a read may return for an entry: the route is as it is kept, and an enabled entry is one
that is kept enabled. -/
structure Reads (kept hop : HopRegs) : Prop where
  nextHop : hop.nextHop = kept.nextHop
  outPort : hop.outPort = kept.outPort
  enable : hop.enable = true → kept.enable = true

/-- A read fails, or returns an entry and leaves it as it was returned. -/
theorem hopRead_inv {r : Except ℤ HopRegs} {d' : Domain}
    (h : hopRead hw bus port hopid d = (r, d')) :
    (∃ ret, r = .error ret ∧ ret ≠ 0 ∧ (d' = d ∨ d' = d.next)) ∨
      ∃ hop, r = .ok hop ∧ d' = (d.setRegs port hopid hop).next ∧
        Reads (d.regs port hopid) hop := by
  unfold hopRead at h
  split at h
  · have hpair := Prod.mk.inj h
    exact Or.inl ⟨enodev, hpair.1.symm, by decide, Or.inl hpair.2.symm⟩
  · split at h
    next err _ =>
      have hpair := Prod.mk.inj h
      exact Or.inl ⟨err.code, hpair.1.symm, err.ne_zero, Or.inr hpair.2.symm⟩
    next =>
      have hpair := Prod.mk.inj h
      refine Or.inr ⟨_, hpair.1.symm, hpair.2.symm, ?_⟩
      cases (bus.access d.tick).lost
      · exact ⟨rfl, rfl, fun h ↦ h⟩
      · exact ⟨rfl, rfl, fun h ↦ by cases h⟩

theorem touches_hopRead {r : Except ℤ HopRegs} {d' : Domain}
    (h : hopRead hw bus port hopid d = (r, d')) : Touches [(port, hopid)] d d' := by
  rcases hopRead_inv h with ⟨ret, -, -, rfl | rfl⟩ | ⟨hop, -, rfl, -⟩
  · exact .refl d'
  · exact touches_next
  · exact touches_setRegs.trans touches_next

/-- A read returns the entry as it is then. -/
theorem hopRead_ok {d' : Domain} (h : hopRead hw bus port hopid d = (.ok hop, d')) :
    d'.regs port hopid = hop ∧ Reads (d.regs port hopid) hop := by
  rcases hopRead_inv h with ⟨ret, hret, -⟩ | ⟨hop', heq, rfl, hreads⟩
  · cases hret
  · have hhop := Except.ok.inj heq
    subst hhop
    exact ⟨setRegs_self, hreads⟩

/-- A read of an entry that is not enabled leaves it so. -/
theorem disabled_hopRead {r : Except ℤ HopRegs} {d' : Domain}
    (h : hopRead hw bus port hopid d = (r, d')) (hdis : d.Disabled (port, hopid)) :
    d'.Disabled (port, hopid) := by
  rcases hopRead_inv h with ⟨ret, -, -, rfl | rfl⟩ | ⟨hop, -, rfl, hreads⟩
  · exact hdis
  · exact hdis
  · show ((d.setRegs port hopid hop).regs port hopid).enable = false
    rw [setRegs_self]
    by_contra hen
    have hkept := hreads.enable (Bool.eq_true_of_not_eq_false hen)
    rw [Domain.Disabled, hkept] at hdis
    cases hdis

theorem touches_hopWrite : Touches [(port, hopid)] d (hopWrite hw bus port hopid hop d).2 := by
  unfold hopWrite
  split
  · exact .refl d
  · split
    · cases (bus.access d.tick).lands
      · exact touches_nextWrite
      · exact touches_setRegs.trans touches_nextWrite
    · exact touches_setRegs.trans touches_nextWrite

/-- A write that succeeds replaces the entry. -/
theorem hopWrite_ok (h : (hopWrite hw bus port hopid hop d).1 = 0) :
    (hopWrite hw bus port hopid hop d).2.regs port hopid = hop := by
  unfold hopWrite at h ⊢
  split at h
  next => cases h
  next hplug =>
    split at h
    next err herr => exact absurd h err.ne_zero
    next herr =>
      simp only [hplug]
      exact setRegs_self

/-- A write of an entry that is not enabled leaves it so, whatever its outcome. -/
theorem disabled_hopWrite (hhop : hop.enable = false) (h : d.Disabled (port, hopid)) :
    (hopWrite hw bus port hopid hop d).2.Disabled (port, hopid) := by
  have hset : (d.setRegs port hopid hop).Disabled (port, hopid) := by
    rw [Domain.Disabled, setRegs_self]
    exact hhop
  unfold hopWrite
  split
  · exact h
  · split
    · cases (bus.access d.tick).lands
      · exact h
      · exact hset
    · exact hset

end Access

def HopConfig.entry (hop : HopConfig) : Port × ℕ := (hop.inPort, hop.inHopIndex)

section Deactivate

variable {hw : Hardware} {bus : Bus} {port : Port} {hopid : ℕ} {clearFc : Bool} {d : Domain}
variable {hops : List HopConfig} {ret : ℤ}

theorem touches_drain {n : ℕ} :
    Touches [(port, hopid)] d (drain hw bus port hopid clearFc n d).2 := by
  induction n generalizing d with
  | zero => exact .refl d
  | succ n ih =>
    unfold drain
    split
    next heq => exact touches_hopRead heq
    next hop d' heq =>
      have hread := touches_hopRead heq
      split
      · split
        · exact hread.trans touches_hopWrite
        · exact hread
      · exact hread.trans ih

/-- An entry that is not enabled stays so while it is drained. -/
theorem disabled_drain {n : ℕ} (hdis : d.Disabled (port, hopid)) :
    (drain hw bus port hopid clearFc n d).2.Disabled (port, hopid) := by
  induction n generalizing d with
  | zero => exact hdis
  | succ n ih =>
    unfold drain
    split
    next heq => exact disabled_hopRead heq hdis
    next hop d' heq =>
      have hkept := disabled_hopRead heq hdis
      split
      · split
        · apply disabled_hopWrite _ hkept
          have hhop : hop.enable = false := by
            rw [← (hopRead_ok heq).1]
            exact hkept
          exact hhop
        · exact hkept
      · exact ih hkept

theorem touches_deactivateHop :
    Touches [(port, hopid)] d (deactivateHop hw bus port hopid clearFc d).2 := by
  unfold deactivateHop
  split
  next heq => exact touches_hopRead heq
  next hop d' heq =>
    have hread := touches_hopRead heq
    split
    · exact hread
    · cases hop.enable
      · exact hread.trans touches_drain
      · simp only [if_true]
        split
        · exact hread.trans touches_hopWrite
        · exact (hread.trans touches_hopWrite).trans touches_drain

/-- A deactivation that succeeds leaves the entry disabled. -/
theorem disabled_deactivateHop (h : (deactivateHop hw bus port hopid clearFc d).1 = 0) :
    (deactivateHop hw bus port hopid clearFc d).2.Disabled (port, hopid) := by
  unfold deactivateHop at h ⊢
  split at h
  next ret d' heq =>
    rcases hopRead_inv heq with ⟨ret', hret, hne, -⟩ | ⟨hop, hok, -⟩
    · exact absurd h (Except.error.inj hret ▸ hne)
    · cases hok
  next hop d' heq =>
    simp only
    have hregs := (hopRead_ok heq).1
    split at h
    next hidle =>
      simp only [hidle, if_true]
      rw [Domain.Disabled, hregs]
      simpa using (Bool.and_eq_true_iff.1 hidle).1
    next hbusy =>
      simp only [hbusy, if_false, Bool.false_eq_true]
      cases hen : hop.enable with
      | false =>
        have hdis : d'.Disabled (port, hopid) := by rw [Domain.Disabled, hregs, hen]
        simpa using disabled_drain hdis
      | true =>
        simp only [hen, if_true] at h ⊢
        split at h
        next hne => exact absurd h hne
        next hzero =>
          simp only [hzero, if_false]
          apply disabled_drain
          rw [Domain.Disabled, hopWrite_ok (not_not.1 hzero)]

/-- A deactivation enables no entry. -/
theorem disabled_deactivateHop_kept {entry : Port × ℕ} (hdis : d.Disabled entry) :
    (deactivateHop hw bus port hopid clearFc d).2.Disabled entry := by
  by_cases hentry : entry = (port, hopid)
  · subst hentry
    unfold deactivateHop
    split
    next heq => exact disabled_hopRead heq hdis
    next hop d' heq =>
      have hkept := disabled_hopRead heq hdis
      have hen : hop.enable = false := (hopRead_ok heq).1 ▸ hkept
      split
      · exact hkept
      · simpa [hen] using disabled_drain hkept
  · exact touches_deactivateHop.disabled (by simpa using hentry) hdis

/-- No access to the router returns the code `bad`. -/
structure Avoids (hw : Hardware) (bus : Bus) (sw : ℕ) (bad : ℤ) : Prop where
  err : ∀ n e, (bus.access n).err = some e → e.code ≠ bad
  gone : hw.isUnplugged sw = true → enodev ≠ bad
  zero : 0 ≠ bad
  timeout : etimedout ≠ bad

section Avoids

variable {bad : ℤ} (havoid : Avoids hw bus port.sw bad)

include havoid

theorem hopRead_avoids {d' : Domain}
    (h : hopRead hw bus port hopid d = (.error ret, d')) : ret ≠ bad := by
  unfold hopRead at h
  split at h
  next hgone => exact Except.error.inj (Prod.mk.inj h).1 ▸ havoid.gone hgone
  next =>
    split at h
    next err herr => exact Except.error.inj (Prod.mk.inj h).1 ▸ havoid.err _ _ herr
    next => cases (Prod.mk.inj h).1

theorem hopWrite_avoids {hop : HopRegs} : (hopWrite hw bus port hopid hop d).1 ≠ bad := by
  unfold hopWrite
  split
  next hgone => exact havoid.gone hgone
  next =>
    split
    next err herr => exact havoid.err _ _ herr
    next => exact havoid.zero

theorem drain_avoids {n : ℕ} : (drain hw bus port hopid clearFc n d).1 ≠ bad := by
  induction n generalizing d with
  | zero => exact havoid.timeout
  | succ n ih =>
    unfold drain
    split
    next heq => exact hopRead_avoids havoid heq
    next =>
      split
      · split
        · exact hopWrite_avoids havoid
        · exact havoid.zero
      · exact ih

theorem deactivateHop_avoids : (deactivateHop hw bus port hopid clearFc d).1 ≠ bad := by
  unfold deactivateHop
  split
  next heq => exact hopRead_avoids havoid heq
  next hop d' heq =>
    split
    · exact havoid.zero
    · cases hop.enable
      · simpa using drain_avoids havoid
      · simp only [if_true]
        split
        · exact hopWrite_avoids havoid
        · exact drain_avoids havoid

end Avoids

/-- A router that is there is not taken for one that is gone. -/
theorem deactivateHop_ne_enodev (hplug : hw.isUnplugged port.sw = false) :
    (deactivateHop hw bus port hopid clearFc d).1 ≠ enodev := by
  apply deactivateHop_avoids
  refine ⟨fun n e _ ↦ e.ne_enodev, fun hgone ↦ ?_, by decide, by decide⟩
  rw [hplug] at hgone
  cases hgone

theorem touches_deactivateHops :
    Touches (hops.map HopConfig.entry) d (deactivateHops hw bus clearFc hops ret d).2 := by
  induction hops generalizing d ret with
  | nil => exact .refl d
  | cons hop rest ih =>
    have hfirst : Touches ((hop :: rest).map HopConfig.entry) d
        (deactivateHop hw bus hop.inPort hop.inHopIndex clearFc d).2 :=
      touches_deactivateHop.mono (by simp [HopConfig.entry])
    apply hfirst.trans
    exact ih.mono fun entry hmem ↦ List.mem_cons_of_mem _ hmem

theorem disabled_deactivateHops_kept {entry : Port × ℕ} (hdis : d.Disabled entry) :
    (deactivateHops hw bus clearFc hops ret d).2.Disabled entry := by
  induction hops generalizing d ret with
  | nil => exact hdis
  | cons hop rest ih => exact ih (disabled_deactivateHop_kept hdis)

theorem deactivateHops_of_ne_zero (h : ret ≠ 0) :
    (deactivateHops hw bus clearFc hops ret d).1 ≠ 0 := by
  induction hops generalizing d with
  | nil => exact h
  | cons hop rest ih => simpa [deactivateHops, h] using ih

/-- If all hops could be deactivated, their entries are disabled. -/
theorem disabled_deactivateHops (hplug : ∀ sw, hw.isUnplugged sw = false)
    (h : (deactivateHops hw bus clearFc hops 0 d).1 = 0) :
    ∀ hop ∈ hops, (deactivateHops hw bus clearFc hops 0 d).2.Disabled hop.entry := by
  induction hops generalizing d with
  | nil => simp
  | cons hop rest ih =>
    have hzero : (deactivateHop hw bus hop.inPort hop.inHopIndex clearFc d).1 = 0 := by
      by_contra hne
      have henodev : (deactivateHop hw bus hop.inPort hop.inHopIndex clearFc d).1 ≠ enodev :=
        deactivateHop_ne_enodev (hplug _)
      apply deactivateHops_of_ne_zero hne
      simpa [deactivateHops, hne, henodev] using h
    simp only [deactivateHops, hzero, ne_eq, not_true_eq_false, false_and, if_false] at h ⊢
    intro other hmem
    rcases List.mem_cons.1 hmem with rfl | hin
    · exact disabled_deactivateHops_kept (disabled_deactivateHop hzero)
    · exact ih h other hin

end Deactivate

section Program

variable {hw : Hardware} {bus : Bus} {path : PathConfig} {hop : HopConfig}
variable {isFirst isLast : Bool} {d : Domain}

/-- The programming of a hop changes no entry but its own. -/
theorem touches_programHop :
    Touches [hop.entry] d (programHop hw bus path hop isFirst isLast d).2 := by
  have hclear : Touches [hop.entry] d
      (deactivateHop hw bus hop.inPort hop.inHopIndex path.clearFc d).2 := touches_deactivateHop
  unfold programHop
  simp only
  split
  · exact hclear
  · have hwritten : Touches [hop.entry] d
        (hopWrite hw bus hop.inPort hop.inHopIndex (hopRegs path hop isFirst isLast)
          (deactivateHop hw bus hop.inPort hop.inHopIndex path.clearFc d).2).2 :=
      hclear.trans touches_hopWrite
    split
    · exact hwritten
    · split
      next heq => exact hwritten.trans (touches_hopRead heq)
      next heq =>
        split
        · exact hwritten.trans (touches_hopRead heq)
        · exact hwritten.trans (touches_hopRead heq)

/-- A hop that was programmed is routed by its entry. -/
theorem programHop_ok (h : (programHop hw bus path hop isFirst isLast d).1 = 0) :
    let regs := (programHop hw bus path hop isFirst isLast d).2.regs hop.inPort hop.inHopIndex
    regs.enable = true ∧ regs.nextHop = hop.nextHopIndex % 2 ^ 11 ∧
      regs.outPort = hop.outPort.num % 2 ^ 6 := by
  unfold programHop at h ⊢
  simp only at h ⊢
  split at h
  next hne => exact absurd h hne
  next hclear =>
    split at h
    next hne => exact absurd h hne
    next hzero =>
      have hkept := hopWrite_ok (not_not.1 hzero)
      simp only [hclear, hzero, if_false]
      split at h
      next ret d' heq =>
        rcases hopRead_inv heq with ⟨ret', hret, hne, -⟩ | ⟨hop', hok, -⟩
        · exact absurd h (Except.error.inj hret ▸ hne)
        · cases hok
      next check d' heq =>
        have hread := hopRead_ok heq
        rw [hkept] at hread
        split at h
        next => cases h
        next hcheck =>
          simp only [hcheck, if_false]
          rw [hread.1]
          have hen : check.enable = true := by
            by_contra hen
            simp [hen] at hcheck
          exact ⟨hen, hread.2.nextHop, hread.2.outPort⟩

end Program

end ThunderboltStack.Cm
