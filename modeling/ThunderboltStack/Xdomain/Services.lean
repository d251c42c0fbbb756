import ThunderboltStack.PropertyBlock.Parse
import ThunderboltStack.Xdomain.Packet
import Mathlib.Data.List.Basic

/-!
# The services of a peer

`enumerate_services` of `xdomain.c` registers a device for every directory of the peer's property
block, and `tb_xdomain_get_properties` runs it for every block it accepts.  The enumeration goes on
from the services that are there: those whose key is gone are unregistered, those whose key stays
are left as they are, and new keys get a service.

The channel and the parser of blocks are modelled elsewhere; a read that gets no block is an error
number here.  Memory and device registration are taken to succeed.
-/

namespace ThunderboltStack.Xdomain

open PropertyBlock (Block Dir Key Leaf Property Props PropertyType Text)

def propertyList : Props → List Property
  | .nil => []
  | .leaf key value rest => .leaf key value :: propertyList rest
  | .dir key uuid properties rest => .dir key ⟨uuid, properties⟩ :: propertyList rest

def ascii (s : String) : List UInt8 := s.toList.map fun c ↦ .ofNat c.toNat

def valueWith (key : List UInt8) : Property → Option UInt32
  | .leaf k (.immediate value) => if k.chars = key then some value else none
  | _ => none

def textWith (key : List UInt8) : Property → Option Text
  | .leaf k (.text text) => if k.chars = key then some text else none
  | _ => none

def directoryWith (key : Key) : Property → Option Dir
  | .dir k dir => if k = key then some dir else none
  | .leaf _ _ => none

/-- `tb_property_find` of a value. -/
def findValue (dir : Dir) (key : List UInt8) : Option UInt32 :=
  (propertyList dir.properties).findSome? (valueWith key)

/-- `tb_property_find` of a text. -/
def findText (dir : Dir) (key : List UInt8) : Option Text :=
  (propertyList dir.properties).findSome? (textWith key)

/-- `tb_property_find` of a directory. -/
def findDirectory (dir : Dir) (key : Key) : Option Dir :=
  (propertyList dir.properties).findSome? (directoryWith key)

structure Service where
  key : Key
  prtcid : UInt32
  prtcvers : UInt32
  prtcrevs : UInt32
  prtcstns : UInt32
  deriving DecidableEq

/-- `populate_service`, on a service that was cleared. -/
def populateService (key : Key) (dir : Dir) : Service where
  key := key
  prtcid := (findValue dir (ascii "prtcid")).getD 0
  prtcvers := (findValue dir (ascii "prtcvers")).getD 0
  prtcrevs := (findValue dir (ascii "prtcrevs")).getD 0
  prtcstns := (findValue dir (ascii "prtcstns")).getD 0

/-- `remove_missing_service`, for all services. -/
def removeMissing (dir : Dir) (services : List Service) : List Service :=
  services.filter fun svc ↦ (findDirectory dir svc.key).isSome

def addServices : List Property → List Service → List Service
  | [], services => services
  | .leaf _ _ :: rest, services => addServices rest services
  | .dir key dir :: rest, services =>
    -- If the service exists already it is kept.
    if services.any (·.key = key) then addServices rest services
    else addServices rest (services ++ [populateService key dir])

def enumerateServices (dir : Dir) (services : List Service) : List Service :=
  addServices (propertyList dir.properties) (removeMissing dir services)

/-! ## Accepting blocks -/

/-- `struct tb_xdomain`, what the exchange of properties keeps.  `accepted` records the directories
of the blocks that were accepted since the services were last dropped by a rescan. -/
structure PeerState where
  uuidVerified : Bool := false
  needsUuid : Bool := true
  stateRetries : ℤ := 0
  device : UInt16 := 0
  vendor : UInt16 := 0
  remoteMaxHopid : UInt32 := 0
  deviceName : Option Text := none
  vendorName : Option Text := none
  remoteProperties : Option Dir := none
  remotePropertyBlockGen : UInt32 := 0
  services : List Service := []
  accepted : List Dir := []

def generationStale (haveRemote : Bool) (remoteGen cachedGen : UInt32) : Bool :=
  haveRemote && remoteGen == cachedGen

def populateProperties (dir : Dir) (xd : PeerState) : PeerState × ℤ :=
  match findValue dir (ascii "deviceid") with
  | none => (xd, einval)
  | some device =>
    match findValue dir (ascii "vendorid") with
    | none => ({ xd with device := device.toUInt16 }, einval)
    | some vendor =>
      ({ xd with
          device := device.toUInt16
          vendor := vendor.toUInt16
          remoteMaxHopid := (findValue dir (ascii "maxhopid")).getD 15
          deviceName := findText dir (ascii "deviceid")
          vendorName := findText dir (ascii "vendorid") }, 0)

def acceptProperties (dir : Dir) (gen : UInt32) (xd : PeerState) : PeerState :=
  { xd with
    remoteProperties := some dir
    remotePropertyBlockGen := gen
    services := enumerateServices dir xd.services
    accepted := xd.accepted ++ [dir] }

/-- `tb_xdomain_get_properties`, with what was read from the peer; `depth` bounds the parser. -/
def getProperties (depth : ℕ) (reply : Except ℤ (Block × UInt32)) (xd : PeerState) :
    PeerState × ℤ :=
  match reply with
  | .error ret =>
    ({ xd with stateRetries := xd.stateRetries - 1 }, if 0 < xd.stateRetries then eagain else ret)
  | .ok (block, gen) =>
    let xd := { xd with uuidVerified := true, needsUuid := false }
    if generationStale xd.remoteProperties.isSome gen xd.remotePropertyBlockGen then (xd, 0)
    else
      match (block.parseDir depth).outcome with
      | .ok dir =>
        let populated := populateProperties dir xd
        if populated.2 ≠ 0 then populated
        else (acceptProperties dir gen populated.1, 0)
      | .null | .deep => (xd, enomem)

/-- The services are unregistered, so that the next enumeration creates them anew. -/
def PeerState.dropServices (xd : PeerState) : PeerState := { xd with services := [], accepted := [] }

/-- What happens to an XDomain: a read of its properties, and a request to read them again.  One
that user space makes with `rescan_store` also drops the services, after the lock was released. -/
inductive PeerEvent where
  | read (reply : Except ℤ (Block × UInt32))
  | rescan (stateRetries : ℤ)
  | drop

def PeerState.step (depth : ℕ) (xd : PeerState) : PeerEvent → PeerState
  | .read reply => (getProperties depth reply xd).1
  | .rescan stateRetries => { xd with remotePropertyBlockGen := 0, stateRetries }
  | .drop => xd.dropServices

def PeerState.run (depth : ℕ) (events : List PeerEvent) : PeerState :=
  events.foldl (PeerState.step depth) {}

def Registered (services : List Service) (key : Key) : Prop := key ∈ services.map Service.key

def HasDirectory (dir : Dir) (key : Key) : Prop := (findDirectory dir key).isSome = true

theorem any_key_iff {services : List Service} {key : Key} :
    services.any (·.key = key) = true ↔ Registered services key := by
  simp [Registered, List.any_eq_true]

theorem registered_append {services : List Service} {k key : Key} {dir : Dir} :
    Registered (services ++ [populateService k dir]) key ↔ Registered services key ∨ key = k := by
  simp only [Registered, List.map_append, List.mem_append, List.map_cons, List.map_nil,
    List.mem_singleton]
  rfl

section Loop

variable {rest ps : List Property} {services : List Service} {k key : Key} {dir : Dir}

theorem addServices_old (h : Registered services k) :
    addServices (.dir k dir :: rest) services = addServices rest services :=
  if_pos (any_key_iff.2 h)

theorem addServices_new (h : ¬Registered services k) :
    addServices (.dir k dir :: rest) services =
      addServices rest (services ++ [populateService k dir]) :=
  if_neg fun hany ↦ h (any_key_iff.1 hany)

theorem findSome_here :
    (Property.dir k dir :: rest).findSome? (directoryWith k) = some dir := by
  simp [directoryWith]

theorem findSome_other (h : k ≠ key) :
    (Property.dir k dir :: rest).findSome? (directoryWith key) =
      rest.findSome? (directoryWith key) := by
  simp [directoryWith, h]

/-- The keys of the services after the loop: those from before, and those of the directories. -/
theorem registered_addServices :
    Registered (addServices ps services) key ↔
      Registered services key ∨ (ps.findSome? (directoryWith key)).isSome = true := by
  induction ps generalizing services with
  | nil => simp [addServices]
  | cons p rest ih =>
    cases p with
    | leaf k value => exact ih
    | dir k dir =>
      by_cases hreg : Registered services k
      · rw [addServices_old hreg, ih]
        by_cases hk : k = key
        · subst hk
          simp [hreg]
        · rw [findSome_other hk]
      · rw [addServices_new hreg, ih, registered_append]
        by_cases hk : k = key
        · subst hk
          simp [findSome_here]
        · have hne : key ≠ k := fun h ↦ hk h.symm
          simp only [findSome_other hk, hne, or_false]

theorem nodup_addServices (h : (services.map Service.key).Nodup) :
    ((addServices ps services).map Service.key).Nodup := by
  induction ps generalizing services with
  | nil => exact h
  | cons p rest ih =>
    cases p with
    | leaf k value => exact ih h
    | dir k dir =>
      by_cases hreg : Registered services k
      · rw [addServices_old hreg]
        exact ih h
      · rw [addServices_new hreg]
        apply ih
        rw [List.map_append]
        apply h.append (List.nodup_singleton _)
        simpa [populateService, Registered] using hreg

/-- A service after the loop is one from before, or a new one from the first directory of its key.
-/
theorem mem_addServices {svc : Service} (h : svc ∈ addServices ps services) :
    svc ∈ services ∨
      ¬Registered services svc.key ∧
        ∃ dir, ps.findSome? (directoryWith svc.key) = some dir ∧
          svc = populateService svc.key dir := by
  induction ps generalizing services with
  | nil => exact Or.inl h
  | cons p rest ih =>
    cases p with
    | leaf k value => exact ih h
    | dir k dir =>
      by_cases hreg : Registered services k
      · rw [addServices_old hreg] at h
        rcases ih h with hold | ⟨hnew, hdir⟩
        · exact Or.inl hold
        · have hne : k ≠ svc.key := fun hk ↦ hnew (hk ▸ hreg)
          rw [findSome_other hne]
          exact Or.inr ⟨hnew, hdir⟩
      · rw [addServices_new hreg] at h
        rcases ih h with hold | ⟨hnew, hdir⟩
        · rcases List.mem_append.1 hold with hbefore | hlast
          · exact Or.inl hbefore
          · have hsvc : svc = populateService k dir := List.mem_singleton.1 hlast
            subst hsvc
            exact Or.inr ⟨hreg, dir, findSome_here, rfl⟩
        · rw [registered_append, not_or] at hnew
          rw [findSome_other (Ne.symm hnew.2)]
          exact Or.inr ⟨hnew.1, hdir⟩

end Loop

theorem mem_removeMissing {dir : Dir} {services : List Service} {svc : Service} :
    svc ∈ removeMissing dir services ↔ svc ∈ services ∧ HasDirectory dir svc.key := by
  simp [removeMissing, HasDirectory]

/-- The services after an enumeration have exactly the keys of the directories of the block. -/
theorem registered_enumerateServices {dir : Dir} {services : List Service} {key : Key} :
    Registered (enumerateServices dir services) key ↔ HasDirectory dir key := by
  rw [enumerateServices, registered_addServices]
  constructor
  · rintro (hold | hdir)
    · obtain ⟨svc, hmem, rfl⟩ := List.mem_map.1 hold
      exact (mem_removeMissing.1 hmem).2
    · exact hdir
  · exact Or.inr

theorem nodup_enumerateServices {dir : Dir} {services : List Service}
    (h : (services.map Service.key).Nodup) :
    ((enumerateServices dir services).map Service.key).Nodup := by
  apply nodup_addServices
  exact h.sublist (List.filter_sublist.map _)

/-- A service that is new after an enumeration has the contents of its directory; the others are
kept. -/
theorem mem_enumerateServices {dir : Dir} {services : List Service} {svc : Service}
    (h : svc ∈ enumerateServices dir services) :
    svc ∈ services ∨
      ¬Registered services svc.key ∧
        ∃ sub, findDirectory dir svc.key = some sub ∧ svc = populateService svc.key sub := by
  rcases mem_addServices h with hold | ⟨hnew, sub, hsub, hsvc⟩
  · exact Or.inl (mem_removeMissing.1 hold).1
  · refine Or.inr ⟨?_, sub, hsub, hsvc⟩
    intro hreg
    obtain ⟨other, hmem, hkey⟩ := List.mem_map.1 hreg
    have hhas : HasDirectory dir other.key := by
      rw [hkey, HasDirectory, findDirectory, hsub]
      rfl
    apply hnew
    rw [← hkey]
    exact List.mem_map_of_mem (mem_removeMissing.2 ⟨hmem, hhas⟩)

/-! ## All accepted blocks -/

/-- The service stems from the first block of the last stretch of blocks that have its key. -/
def Introduced (accepted : List Dir) (svc : Service) : Prop :=
  ∃ before first after, accepted = before ++ first :: after ∧
    (∀ last, before.getLast? = some last → ¬HasDirectory last svc.key) ∧
    (∀ dir ∈ first :: after, HasDirectory dir svc.key) ∧
    ∃ sub, findDirectory first svc.key = some sub ∧ svc = populateService svc.key sub

structure Follows (xd : PeerState) : Prop where
  nodup : (xd.services.map Service.key).Nodup
  registered : ∀ key, Registered xd.services key ↔
    ∃ dir, xd.accepted.getLast? = some dir ∧ HasDirectory dir key
  introduced : ∀ svc ∈ xd.services, Introduced xd.accepted svc

theorem Follows.congr {xd xd' : PeerState} (h : Follows xd)
    (hservices : xd'.services = xd.services) (haccepted : xd'.accepted = xd.accepted) :
    Follows xd' where
  nodup := by rw [hservices]; exact h.nodup
  registered := by rw [hservices, haccepted]; exact h.registered
  introduced := by rw [hservices, haccepted]; exact h.introduced

theorem Introduced.append {accepted : List Dir} {svc : Service} (h : Introduced accepted svc)
    {dir : Dir} (hdir : HasDirectory dir svc.key) : Introduced (accepted ++ [dir]) svc := by
  obtain ⟨before, first, after, hsplit, hbefore, hall, hsub⟩ := h
  refine ⟨before, first, after ++ [dir], by simp [hsplit], hbefore, ?_, hsub⟩
  intro other hmem
  rcases List.mem_append.1 (List.cons_append ▸ hmem : other ∈ (first :: after) ++ [dir]) with
    hold | hlast
  · exact hall other hold
  · exact List.mem_singleton.1 hlast ▸ hdir

theorem Follows.accept {xd : PeerState} (h : Follows xd) (dir : Dir) (gen : UInt32) :
    Follows (acceptProperties dir gen xd) where
  nodup := nodup_enumerateServices h.nodup
  registered key := by simp [acceptProperties, registered_enumerateServices]
  introduced svc hmem := by
    have hhas : HasDirectory dir svc.key :=
      registered_enumerateServices.1 (List.mem_map_of_mem hmem)
    rcases mem_enumerateServices hmem with hold | ⟨hnew, hsub⟩
    · exact (h.introduced svc hold).append hhas
    · refine ⟨xd.accepted, dir, [], rfl, ?_, by simpa using hhas, hsub⟩
      intro last hlast hlastHas
      exact hnew ((h.registered svc.key).2 ⟨last, hlast, hlastHas⟩)

theorem populateProperties_kept (dir : Dir) (xd : PeerState) :
    (populateProperties dir xd).1.services = xd.services ∧
      (populateProperties dir xd).1.accepted = xd.accepted := by
  unfold populateProperties
  split
  · exact ⟨rfl, rfl⟩
  · split <;> exact ⟨rfl, rfl⟩

/-- A read of properties, failed or not, keeps the services in step with the accepted blocks. -/
theorem Follows.getProperties {xd : PeerState} (h : Follows xd) (depth : ℕ)
    (reply : Except ℤ (Block × UInt32)) : Follows (getProperties depth reply xd).1 := by
  unfold Xdomain.getProperties
  split
  · exact h.congr rfl rfl
  next block gen =>
    simp only
    split
    · exact h.congr rfl rfl
    · split
      next dir hparse =>
        have hkept := populateProperties_kept dir
          { xd with uuidVerified := true, needsUuid := false }
        have hpop := h.congr hkept.1 hkept.2
        split
        · exact hpop
        · exact hpop.accept dir gen
      all_goals exact h.congr rfl rfl

theorem follows_nothing {xd : PeerState} (hservices : xd.services = [])
    (haccepted : xd.accepted = []) : Follows xd where
  nodup := by simp [hservices]
  registered key := by simp [Registered, hservices, haccepted]
  introduced := by simp [hservices]

theorem Follows.step {xd : PeerState} (h : Follows xd) (depth : ℕ) (event : PeerEvent) :
    Follows (xd.step depth event) := by
  cases event with
  | read reply => exact h.getProperties depth reply
  | rescan stateRetries => exact h.congr rfl rfl
  | drop => exact follows_nothing rfl rfl

theorem follows_run (depth : ℕ) (events : List PeerEvent) : Follows (.run depth events) := by
  have hall : ∀ xd, Follows xd → Follows (events.foldl (PeerState.step depth) xd) := by
    induction events with
    | nil => exact fun xd h ↦ h
    | cons event rest ih => exact fun xd h ↦ ih _ (h.step depth event)
  exact hall _ (follows_nothing rfl rfl)

/-- Once a block has been accepted, and until a rescan drops the services, there is one service for
each key of a directory in the latest block, and no other.  Its contents are those of the directory
in the first of the blocks since the last rescan that have had this key without a break: a service
that exists is kept as it is. -/
theorem services_follow_directory (depth : ℕ) (events : List PeerEvent) (latest : Dir)
    (hlatest : (PeerState.run depth events).accepted.getLast? = some latest) :
    ((PeerState.run depth events).services.map Service.key).Nodup ∧
      (∀ key, key ∈ (PeerState.run depth events).services.map Service.key ↔
        (findDirectory latest key).isSome = true) ∧
      ∀ svc ∈ (PeerState.run depth events).services,
        Introduced (PeerState.run depth events).accepted svc := by
  have h := follows_run depth events
  refine ⟨h.nodup, ?_, h.introduced⟩
  intro key
  have hreg := h.registered key
  simp only [hlatest, Option.some.injEq, exists_eq_left'] at hreg
  exact hreg

/-- A block with a directory `network` whose `prtcid` is given. -/
def networkBlock (prtcid : UInt32) : Block where
  dwords i :=
    [0x55584401, 12,
      0x64657669, 0x63656964, 0x76000001, 1,
      0x76656e64, 0x6f726964, 0x76000001, 2,
      0x6e657477, 0x6f726b00, 0x44000008, 14,
      0, 0, 0, 0,
      0x70727463, 0x69640000, 0x76000001, prtcid].getD i 0
  len := 22

/-- The peer replaces its block by one in which only `prtcid` is another. -/
def changedBlock : List PeerEvent :=
  [.read (.ok (networkBlock 1, 7)), .read (.ok (networkBlock 2, 8))]

theorem services_follow_directory_changed :
    (PeerState.run 3 changedBlock).services.length = 1 ∧
      ((PeerState.run 3 changedBlock).services.map Service.key).Nodup := by
  have hsome : (PeerState.run 3 changedBlock).accepted.getLast?.isSome = true := by decide +kernel
  obtain ⟨latest, hlatest⟩ := Option.isSome_iff_exists.1 hsome
  exact ⟨by decide +kernel, (services_follow_directory 3 changedBlock latest hlatest).1⟩

/-- The directory of the latest block says 2, the service still 1. -/
theorem service_contents_kept :
    (PeerState.run 3 changedBlock).services.map Service.prtcid = [1] ∧
      (PeerState.run 3 changedBlock).accepted.getLast?.map (fun latest ↦
        (PeerState.run 3 changedBlock).services.map fun svc ↦
          (findDirectory latest svc.key).bind fun dir ↦ findValue dir (ascii "prtcid")) =
        some [some 2] := by
  decide +kernel

def PeerState.visible (xd : PeerState) : PeerState :=
  { xd with uuidVerified := false, needsUuid := true, stateRetries := 0, accepted := [] }

section Rejected

variable (depth : ℕ) (block : Block) (gen : UInt32) (xd : PeerState)

/-- A block that was read is rejected: its generation is stale, it cannot be parsed, or a required
property is missing. -/
def Rejects : Prop :=
  generationStale xd.remoteProperties.isSome gen xd.remotePropertyBlockGen = true ∨
    (∀ dir, (block.parseDir depth).outcome ≠ .ok dir) ∨
    ∃ dir, (block.parseDir depth).outcome = .ok dir ∧
      (findValue dir (ascii "deviceid") = none ∨ findValue dir (ascii "vendorid") = none)

/-- The block has a device identifier, another one than the peer, but no vendor identifier. -/
def HalfIdentified : Prop :=
  generationStale xd.remoteProperties.isSome gen xd.remotePropertyBlockGen = false ∧
    ∃ dir device, (block.parseDir depth).outcome = .ok dir ∧
      findValue dir (ascii "deviceid") = some device ∧
      findValue dir (ascii "vendorid") = none ∧ device.toUInt16 ≠ xd.device

variable {depth block gen xd}

/-- Properties that are not complete leave what is seen of the peer unless they bring another device
identifier. -/
theorem visible_populateProperties {dir : Dir}
    (hmissing : findValue dir (ascii "deviceid") = none ∨
      findValue dir (ascii "vendorid") = none) :
    (populateProperties dir xd).2 = einval ∧
      ((populateProperties dir xd).1.visible = xd.visible ↔
        ∀ device, findValue dir (ascii "deviceid") = some device →
          device.toUInt16 = xd.device) := by
  cases hdevice : findValue dir (ascii "deviceid") with
  | none => simp [populateProperties, hdevice]
  | some device =>
    have hvendor : findValue dir (ascii "vendorid") = none :=
      hmissing.resolve_left (by simp [hdevice])
    simp only [populateProperties, hdevice, hvendor, PeerState.visible, Option.some.injEq,
      forall_eq', true_and]
    constructor
    · exact fun hsame ↦ congrArg PeerState.device hsame
    · intro hsame
      rw [hsame]

/-- A rejected block leaves what is seen of the peer as it was exactly if it is not one that has
another device identifier and no vendor identifier. -/
theorem rejected_block_invisible_iff (depth : ℕ) (block : Block) (gen : UInt32) (xd : PeerState)
    (hrejects : Rejects depth block gen xd) :
    (getProperties depth (.ok (block, gen)) xd).1.visible = xd.visible ↔
      ¬ HalfIdentified depth block gen xd := by
  have hseen : PeerState.visible { xd with uuidVerified := true, needsUuid := false } =
      xd.visible := rfl
  unfold HalfIdentified
  simp only [getProperties]
  cases hstale : generationStale xd.remoteProperties.isSome gen xd.remotePropertyBlockGen with
  | true => simp [hseen]
  | false =>
    cases hparse : (block.parseDir depth).outcome with
    | null | deep => simp [hseen]
    | ok dir =>
      have hmissing : findValue dir (ascii "deviceid") = none ∨
          findValue dir (ascii "vendorid") = none := by
        rcases hrejects with hold | hfails | ⟨dir', hdir', hmissing⟩
        · rw [hstale] at hold
          cases hold
        · exact absurd hparse (hfails dir)
        · rw [hparse] at hdir'
          cases hdir'
          exact hmissing
      obtain ⟨hret, hvisible⟩ : (populateProperties dir
          { xd with uuidVerified := true, needsUuid := false }).2 = einval ∧ _ :=
        visible_populateProperties hmissing
      have hne : (populateProperties dir
          { xd with uuidVerified := true, needsUuid := false }).2 ≠ 0 := by
        rw [hret]
        decide
      simp only [Bool.false_eq_true, if_false, if_pos hne]
      rw [← hseen, hvisible]
      constructor
      · rintro hsame ⟨-, dir', device, hdir', hdevice, -, hother⟩
        cases hdir'
        exact hother (hsame device hdevice)
      · intro hnot device hdevice
        by_contra hother
        have hvendor : findValue dir (ascii "vendorid") = none :=
          hmissing.resolve_left (by simp [hdevice])
        exact hnot ⟨trivial, dir, device, rfl, hdevice, hvendor, hother⟩

end Rejected

def deviceBlock : Block where
  dwords i := [0x55584401, 4, 0x64657669, 0x63656964, 0x76000001, 5].getD i 0
  len := 6

theorem rejected_block_invisible_same :
    Rejects 3 deviceBlock 8 { device := 5 } ∧
      (getProperties 3 (.ok (deviceBlock, 8)) { device := 5 }).1.visible =
        PeerState.visible { device := 5 } := by
  obtain ⟨dir, hdir⟩ : ∃ dir, (deviceBlock.parseDir 3).outcome = .ok dir := ⟨_, rfl⟩
  have hvendor : findValue dir (ascii "vendorid") = none := by
    cases hdir
    decide +kernel
  have hdevice : findValue dir (ascii "deviceid") = some 5 := by
    cases hdir
    decide +kernel
  have hrejects : Rejects 3 deviceBlock 8 { device := 5 } :=
    .inr (.inr ⟨dir, hdir, .inr hvendor⟩)
  refine ⟨hrejects, (rejected_block_invisible_iff 3 deviceBlock 8 _ hrejects).2 ?_⟩
  rintro ⟨-, dir', device, hdir', hdevice', -, hother⟩
  rw [hdir] at hdir'
  cases hdir'
  rw [hdevice] at hdevice'
  cases hdevice'
  exact hother rfl

/-- The peer was device 4; after the rejected block it is device 5. -/
theorem rejected_block_renames :
    (getProperties 3 (.ok (deviceBlock, 8)) { device := 4 }).2 = einval ∧
      (getProperties 3 (.ok (deviceBlock, 8)) { device := 4 }).1.device = 5 := by
  decide +kernel

end ThunderboltStack.Xdomain
