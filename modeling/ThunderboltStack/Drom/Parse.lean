import Mathlib.Algebra.Order.Ring.Int
import Mathlib.Logic.Function.Basic
import Mathlib.Tactic.Common
import ThunderboltStack.Lib.Loop

/-!
# Parsing of the DROM

`tb_drom_parse_entries` walks over the entries of an image that came from a device.  The model keeps
what each entry makes the parsers touch: bytes of the image, strings that end with a zero byte, and
elements of `sw->ports`.
-/

namespace ThunderboltStack.Drom

open ThunderboltStack.Lib

/-- The memory from `sw->drom` on; the image is as much of it as the header declares. -/
abbrev Mem := ℕ → UInt8

def u16At (drom : Mem) (o : ℕ) : ℕ :=
  (drom o).toNat + 256 * (drom (o + 1)).toNat

/-- `header->data_len + TB_DROM_DATA_START`, the size that `tb_drom_parse` checks. -/
def dromSize (drom : Mem) : ℕ :=
  u16At drom 14 % 2 ^ 12 + 13

/-- The fields of a `tb_port` that the parser sets. -/
structure Port where
  disabled : Bool
  linkNr : ℕ
  dualLinkPort : Option ℕ

/-- The fields of a `tb_switch` that the parser reads and sets, without the names. -/
structure Router where
  vendor : ℕ
  device : ℕ
  ports : ℕ → Port

/-- What the environment answers for an entry: whether `kstrndup` has memory, and the result of
`tb_port_read` with the dword it read. -/
structure Answer where
  allocated : Bool
  res : ℤ
  type : ℕ

/-- What a parser touches; `kstrndup` reads a string up to its zero byte. -/
inductive Access where
  | bytes (start count : ℕ)
  | string (start max : ℕ)
  | port (nr : ℕ)
  deriving DecidableEq

/-- The access stays inside an image of `size` bytes and ports up to `maxPort`. -/
def Access.Inside (drom : Mem) (size maxPort : ℕ) : Access → Prop
  | .bytes start count => start + count ≤ size
  | .string start max =>
    ∀ o < start + max, start ≤ o → (∀ i < o, start ≤ i → drom i ≠ 0) → o < size
  | .port nr => nr ≤ maxPort

def enomem : ℤ := -12

def eio : ℤ := -5

def typePort : ℕ := 1

section Entry

variable (drom : Mem) (pos : ℕ)

def entryLen : ℕ :=
  (drom pos).toNat

def entryIndex : ℕ :=
  (drom (pos + 1)).toNat % 2 ^ 6

def portDisabled : Bool :=
  (drom (pos + 1)).toNat.testBit 6

def isPortEntry : Bool :=
  (drom (pos + 1)).toNat.testBit 7

def hasDualLinkPort : Bool :=
  (drom (pos + 2)).toNat.testBit 7

def dualLinkPortNr : ℕ :=
  (drom (pos + 3)).toNat % 2 ^ 6

/-- `tb_drom_parse_entry_generic`.  The length that `kstrndup` gets is a `size_t`. -/
def dromParseEntryGeneric (x : Answer) (sw : Router) : ℤ × Router × List Access :=
  match entryIndex drom pos with
  | 1 | 2 =>
    (if x.allocated then 0 else enomem, sw,
      [.string (pos + 2) ((entryLen drom pos + 2 ^ 64 - 2) % 2 ^ 64)])
  | 9 =>
    if sw.vendor = 0 ∧ sw.device = 0 then
      (0, { sw with vendor := u16At drom (pos + 4), device := u16At drom (pos + 6) },
        [.bytes (pos + 4) 4])
    else (0, sw, [])
  | _ => (0, sw, [])

def dromParseEntryPort (maxPort : ℕ) (x : Answer) (sw : Router) : ℤ × Router × List Access :=
  let index := entryIndex drom pos
  let set (port : Port) : Router := { sw with ports := Function.update sw.ports index port }
  if maxPort < index then (0, sw, [])
  else
    let port := { sw.ports index with disabled := portDisabled drom pos }
    if port.disabled then (0, set port, [.port index])
    else if x.res ≠ 0 then (x.res, set port, [.port index])
    else if x.type % 2 ^ 24 = typePort then
      if entryLen drom pos ≠ 8 then (eio, set port, [.port index])
      else
        let port := { port with linkNr := (drom (pos + 2)).toNat / 2 ^ 4 % 2 }
        if hasDualLinkPort drom pos then
          (0, set { port with dualLinkPort := some (dualLinkPortNr drom pos) },
            [.port index, .bytes (pos + 2) 2, .port (dualLinkPortNr drom pos)])
        else (0, set port, [.port index, .bytes (pos + 2) 1])
    else (0, set port, [.port index])

def parseEntry (maxPort : ℕ) (x : Answer) (sw : Router) : ℤ × Router × List Access :=
  if isPortEntry drom pos then dromParseEntryPort drom pos maxPort x sw
  else dromParseEntryGeneric drom pos x sw

/-- The checks of the loop accept what is at the position as an entry. -/
def IsEntry : Prop :=
  pos + 1 < dromSize drom ∧ pos + entryLen drom pos ≤ dromSize drom ∧ entryLen drom pos ≠ 0

end Entry

/-- The variables of `tb_drom_parse_entries`. -/
structure State where
  pos : ℕ
  sw : Router

/-- A pass of the loop of `tb_drom_parse_entries`, with what it touches. -/
def parsePass (drom : Mem) (maxPort : ℕ) (env : ℕ → Answer) (s : State) :
    Pass State ℤ × List Access :=
  if s.pos < dromSize drom then
    if s.pos + 1 = dromSize drom then (.done eio, [])
    else if dromSize drom < s.pos + entryLen drom s.pos ∨ entryLen drom s.pos = 0 then
      (.done eio, [.bytes s.pos 1])
    else
      let r := parseEntry drom s.pos maxPort (env s.pos) s.sw
      (if r.1 ≠ 0 then .done r.1 else .again ⟨s.pos + entryLen drom s.pos, r.2.1⟩,
        .bytes s.pos 2 :: r.2.2)
  else (.done 0, [])

/-- What `tb_drom_parse_entries` returns within `n` passes. -/
def dromParseEntries (drom : Mem) (headerSize maxPort : ℕ) (sw : Router) (env : ℕ → Answer)
    (n : ℕ) : Option ℤ :=
  loop (fun s ↦ (parsePass drom maxPort env s).1) n ⟨headerSize, sw⟩

/-- `tb_drom_parse_entries` touches `a`: the length in the header, or something in a pass. -/
def Touches (drom : Mem) (headerSize maxPort : ℕ) (sw : Router) (env : ℕ → Answer) (a : Access) :
    Prop :=
  a = .bytes 14 2 ∨ ∃ s, Visits (fun s ↦ (parsePass drom maxPort env s).1) ⟨headerSize, sw⟩ s ∧
    a ∈ (parsePass drom maxPort env s).2

/-- The positions of the entries, by their lengths, with the vendor and device known there. -/
inductive Chain (drom : Mem) (headerSize : ℕ) (ids : ℕ × ℕ) : ℕ → ℕ × ℕ → Prop
  | first : Chain drom headerSize ids headerSize ids
  | next {pos : ℕ} {known : ℕ × ℕ} (h : Chain drom headerSize ids pos known)
      (hentry : IsEntry drom pos) :
      Chain drom headerSize ids (pos + entryLen drom pos)
        (if isPortEntry drom pos = false ∧ entryIndex drom pos = 9 ∧ known = (0, 0) then
          (u16At drom (pos + 4), u16At drom (pos + 6)) else known)

/-- An entry that can be parsed: a name has a length or ends in the image, a product descriptor that
is needed is in the image, and the partner of a port exists. -/
structure Sound (drom : Mem) (maxPort pos : ℕ) (known : ℕ × ℕ) : Prop where
  name : isPortEntry drom pos = false → entryIndex drom pos = 1 ∨ entryIndex drom pos = 2 →
    entryLen drom pos = 1 → ∃ i, pos + 2 ≤ i ∧ i < dromSize drom ∧ drom i = 0
  desc : isPortEntry drom pos = false → entryIndex drom pos = 9 → known = (0, 0) →
    pos + 8 ≤ dromSize drom
  partner : isPortEntry drom pos = true → entryIndex drom pos ≤ maxPort →
    portDisabled drom pos = false → entryLen drom pos = 8 → hasDualLinkPort drom pos = true →
    dualLinkPortNr drom pos ≤ maxPort

section Proofs

variable {drom : Mem} {pos maxPort headerSize : ℕ} {sw : Router} {env : ℕ → Answer} {s s' : State}

theorem dromSize_lt (drom : Mem) : dromSize drom < 2 ^ 13 := by
  unfold dromSize
  omega

theorem entryLen_lt (drom : Mem) (pos : ℕ) : entryLen drom pos < 2 ^ 8 :=
  (drom pos).toNat_lt

/-- The string of a name entry is inside unless its length is less than that of the header. -/
theorem inside_name_iff (hentry : IsEntry drom pos) :
    (Access.string (pos + 2) ((entryLen drom pos + 2 ^ 64 - 2) % 2 ^ 64)).Inside drom
        (dromSize drom) maxPort ↔
      (entryLen drom pos = 1 → ∃ i, pos + 2 ≤ i ∧ i < dromSize drom ∧ drom i = 0) := by
  obtain ⟨hpos, hend, hlen⟩ := hentry
  have hlt := entryLen_lt drom pos
  have hsize := dromSize_lt drom
  constructor
  · intro h hone
    by_contra hnone
    -- no byte of the image ends the string, so the one behind the image is read
    refine absurd (h (max (pos + 2) (dromSize drom)) (by omega) (by omega)
      fun i hi hstart hzero ↦ ?_) (by omega)
    exact hnone ⟨i, hstart, by omega, hzero⟩
  · intro h o ho hstart hnonzero
    by_cases hone : entryLen drom pos = 1
    · obtain ⟨i, hi, hin, hzero⟩ := h hone
      by_contra hout
      exact hnonzero i (by omega) hi hzero
    · omega

/-- The parser of a port entry stays inside the DROM and the ports of the router. -/
theorem inside_port (hentry : IsEntry drom pos) (htype : isPortEntry drom pos = true)
    {known : ℕ × ℕ} (h : Sound drom maxPort pos known) (x : Answer) (sw : Router) {a : Access}
    (ha : a ∈ (dromParseEntryPort drom pos maxPort x sw).2.2) :
    a.Inside drom (dromSize drom) maxPort := by
  have hend := hentry.2.1
  unfold dromParseEntryPort at ha
  by_cases hindex : maxPort < entryIndex drom pos
  · simp [hindex] at ha
  simp only [hindex, if_false] at ha
  split at ha
  · simp_all [Access.Inside]
  split at ha
  · simp_all [Access.Inside]
  split at ha
  · split at ha
    · simp_all [Access.Inside]
    · next hon _ _ hlen =>
      have hlen : entryLen drom pos = 8 := not_not.mp hlen
      split at ha
      · next hdual =>
        have hpartner := h.partner htype (Nat.le_of_not_lt hindex) (Bool.not_eq_true _ ▸ hon)
          hlen hdual
        simp only [List.mem_cons, List.not_mem_nil, or_false] at ha
        obtain rfl | rfl | rfl := ha
        · exact Nat.le_of_not_lt hindex
        · show pos + 2 + 2 ≤ _
          omega
        · exact hpartner
      · simp only [List.mem_cons, List.not_mem_nil, or_false] at ha
        obtain rfl | rfl := ha
        · exact Nat.le_of_not_lt hindex
        · show pos + 2 + 1 ≤ _
          omega
  · simp_all [Access.Inside]

/-- An entry is sound if whatever its parser may touch is inside. -/
theorem sound_iff (hentry : IsEntry drom pos) (maxPort : ℕ) (sw : Router) :
    (∀ x, ∀ a ∈ (parseEntry drom pos maxPort x sw).2.2, a.Inside drom (dromSize drom) maxPort) ↔
      Sound drom maxPort pos (sw.vendor, sw.device) := by
  cases htype : isPortEntry drom pos with
  | true =>
    simp only [parseEntry, htype, if_true]
    refine ⟨fun h ↦ ⟨?_, ?_, fun _ hindex hon hlen hdual ↦ ?_⟩,
      fun h x a ha ↦ inside_port hentry htype h x sw ha⟩
    · exact fun hf ↦ absurd (htype.symm.trans hf) (by decide)
    · exact fun hf ↦ absurd (htype.symm.trans hf) (by decide)
    · refine h ⟨true, 0, typePort⟩ (.port (dualLinkPortNr drom pos)) ?_
      simp [dromParseEntryPort, Nat.not_lt.2 hindex, hon, hlen, hdual, typePort]
  | false =>
    have hpartner (hf : isPortEntry drom pos = true) : False :=
      absurd (htype.symm.trans hf) (by decide)
    simp only [parseEntry, htype, Bool.false_eq_true, if_false]
    by_cases hname : entryIndex drom pos = 1 ∨ entryIndex drom pos = 2
    · have hparse (x : Answer) : (dromParseEntryGeneric drom pos x sw).2.2 =
          [.string (pos + 2) ((entryLen drom pos + 2 ^ 64 - 2) % 2 ^ 64)] := by
        obtain hname | hname := hname <;> simp only [dromParseEntryGeneric, hname]
      simp only [hparse, List.mem_singleton, forall_eq, inside_name_iff hentry]
      exact ⟨fun h ↦ ⟨fun _ _ ↦ h ⟨true, 0, 0⟩, by omega, fun hf ↦ (hpartner hf).elim⟩,
        fun h _ ↦ h.name htype hname⟩
    by_cases hdesc : entryIndex drom pos = 9 ∧ sw.vendor = 0 ∧ sw.device = 0
    · have hparse (x : Answer) : (dromParseEntryGeneric drom pos x sw).2.2 =
          [.bytes (pos + 4) 4] := by
        simp [dromParseEntryGeneric, hdesc]
      simp only [hparse, List.mem_singleton, forall_eq]
      exact ⟨fun h ↦ ⟨fun _ hn ↦ absurd hn hname, fun _ _ _ ↦ h ⟨true, 0, 0⟩,
        fun hf ↦ (hpartner hf).elim⟩,
        fun h _ ↦ h.desc htype hdesc.1 (by rw [hdesc.2.1, hdesc.2.2])⟩
    · have hparse (x : Answer) : (dromParseEntryGeneric drom pos x sw).2.2 = [] := by
        unfold dromParseEntryGeneric
        split
        · next hindex => exact absurd (.inl hindex) hname
        · next hindex => exact absurd (.inr hindex) hname
        · next hindex => rw [if_neg fun h ↦ hdesc ⟨hindex, h⟩]
        · rfl
      simp only [hparse, List.not_mem_nil, false_imp_iff, implies_true, true_iff]
      refine ⟨fun _ hn ↦ absurd hn hname, fun _ hindex hknown ↦ ?_, fun hf ↦ (hpartner hf).elim⟩
      exact absurd ⟨hindex, Prod.mk.inj hknown⟩ hdesc

/-- Only a product descriptor changes the vendor and the device. -/
theorem known_parseEntry (x : Answer) (sw : Router) :
    ((parseEntry drom pos maxPort x sw).2.1.vendor, (parseEntry drom pos maxPort x sw).2.1.device) =
      if isPortEntry drom pos = false ∧ entryIndex drom pos = 9 ∧
          (sw.vendor, sw.device) = (0, 0) then
        (u16At drom (pos + 4), u16At drom (pos + 6)) else (sw.vendor, sw.device) := by
  unfold parseEntry
  split
  · next htype =>
    rw [if_neg (by simp [htype])]
    simp only [dromParseEntryPort]
    repeat' split
    all_goals rfl
  · next htype =>
    unfold dromParseEntryGeneric
    split
    · next hindex => simp [hindex]
    · next hindex => simp [hindex]
    · next hindex => split <;> simp_all
    · next hindex => simp_all

theorem parseEntry_passing (sw : Router) :
    (parseEntry drom pos maxPort ⟨true, 0, 0⟩ sw).1 = 0 := by
  unfold parseEntry
  split
  · simp only [dromParseEntryPort]
    repeat' split
    all_goals simp_all [typePort]
  · unfold dromParseEntryGeneric
    split <;> try rfl
    split <;> rfl

theorem parsePass_entry (h : IsEntry drom s.pos) : parsePass drom maxPort env s =
    (if (parseEntry drom s.pos maxPort (env s.pos) s.sw).1 ≠ 0 then
        .done (parseEntry drom s.pos maxPort (env s.pos) s.sw).1
      else .again ⟨s.pos + entryLen drom s.pos,
        (parseEntry drom s.pos maxPort (env s.pos) s.sw).2.1⟩,
      .bytes s.pos 2 :: (parseEntry drom s.pos maxPort (env s.pos) s.sw).2.2) := by
  obtain ⟨hpos, hend, hlen⟩ := h
  rw [parsePass, if_pos (by omega), if_neg (by omega), if_neg (by omega)]

theorem parsePass_not_entry (maxPort : ℕ) (env : ℕ → Answer) (h : ¬ IsEntry drom s.pos) :
    (∃ r, (parsePass drom maxPort env s).1 = .done r) ∧
      ∀ a ∈ (parsePass drom maxPort env s).2, a.Inside drom (dromSize drom) maxPort := by
  unfold IsEntry at h
  unfold parsePass
  split
  · split
    · exact ⟨⟨_, rfl⟩, by simp⟩
    · split
      · refine ⟨⟨_, rfl⟩, fun a ha ↦ ?_⟩
        obtain rfl := List.mem_singleton.mp ha
        show s.pos + 1 ≤ _
        omega
      · omega
  · exact ⟨⟨_, rfl⟩, by simp⟩

/-- A pass that goes on has parsed an entry and goes behind it. -/
theorem parsePass_again (h : (parsePass drom maxPort env s).1 = .again s') :
    IsEntry drom s.pos ∧ s'.pos = s.pos + entryLen drom s.pos ∧
      s'.sw = (parseEntry drom s.pos maxPort (env s.pos) s.sw).2.1 := by
  by_cases hentry : IsEntry drom s.pos
  · rw [parsePass_entry hentry] at h
    dsimp only at h
    split at h
    · cases h
    · cases h
      exact ⟨hentry, rfl, rfl⟩
  · obtain ⟨⟨r, hr⟩, -⟩ := parsePass_not_entry maxPort env hentry
    rw [hr] at h
    cases h

theorem chain_visits (h : Visits (fun s ↦ (parsePass drom maxPort env s).1) ⟨headerSize, sw⟩ s) :
    Chain drom headerSize (sw.vendor, sw.device) s.pos (s.sw.vendor, s.sw.device) := by
  induction h with
  | start => exact .first
  | again h hbody ih =>
    obtain ⟨hentry, hpos, hsw⟩ := parsePass_again hbody
    rw [hpos, hsw, known_parseEntry]
    exact .next ih hentry

/-- The parser gets to every position of the chain if all entries before it pass. -/
theorem visits_chain (maxPort : ℕ) {known : ℕ × ℕ}
    (h : Chain drom headerSize (sw.vendor, sw.device) pos known) :
    ∃ s, s.pos = pos ∧ (s.sw.vendor, s.sw.device) = known ∧
      ∀ env, (∀ q < pos, env q = ⟨true, 0, 0⟩) →
        Visits (fun s ↦ (parsePass drom maxPort env s).1) ⟨headerSize, sw⟩ s := by
  induction h with
  | first => exact ⟨_, rfl, rfl, fun _ _ ↦ .start⟩
  | next h hentry ih =>
    obtain ⟨s, rfl, rfl, hs⟩ := ih
    have hlen := hentry.2.2
    refine ⟨⟨_, (parseEntry drom s.pos maxPort ⟨true, 0, 0⟩ s.sw).2.1⟩, rfl,
      known_parseEntry _ s.sw, fun env henv ↦ .again (hs env fun q hq ↦ henv q (by omega)) ?_⟩
    rw [parsePass_entry hentry, henv s.pos (by omega), parseEntry_passing]
    rfl

end Proofs

/-- The position grows, so the parser returns.  It stays inside the image and the ports, whatever
the environment answers, exactly if the header is in the image and every entry is sound. -/
theorem dromParseEntries_bounded_iff (drom : Mem) (headerSize maxPort : ℕ) (sw : Router) :
    (∀ env s s', (parsePass drom maxPort env s).1 = .again s' →
      s.pos < s'.pos ∧ s'.pos ≤ dromSize drom) ∧
    (∀ env, ∃ n ret, dromParseEntries drom headerSize maxPort sw env n = some ret) ∧
    ((∀ env a, Touches drom headerSize maxPort sw env a →
      a.Inside drom (dromSize drom) maxPort) ↔
      16 ≤ dromSize drom ∧ ∀ pos known,
        Chain drom headerSize (sw.vendor, sw.device) pos known → IsEntry drom pos →
          Sound drom maxPort pos known) := by
  have hgrows : ∀ env s s', (parsePass drom maxPort env s).1 = .again s' →
      s.pos < s'.pos ∧ s'.pos ≤ dromSize drom := by
    intro env s s' h
    obtain ⟨⟨-, hend, hlen⟩, hpos, -⟩ := parsePass_again h
    omega
  refine ⟨hgrows, fun env ↦ ?_, fun h ↦ ⟨?_, fun pos known hchain hentry ↦ ?_⟩, ?_⟩
  · refine (loop_returns (I := fun _ ↦ True) (Q := fun _ ↦ True) (fun s ↦ dromSize drom - s.pos)
      (fun s _ ↦ ?_) trivial).imp fun n ⟨ret, hn, _⟩ ↦ ⟨ret, hn⟩
    cases hpass : (parsePass drom maxPort env s).1 with
    | done r => trivial
    | again s' =>
      have hgrow := hgrows env s s' hpass
      exact ⟨trivial, by omega⟩
  · exact h (fun _ ↦ ⟨true, 0, 0⟩) _ (.inl rfl)
  · obtain ⟨s, rfl, rfl, hs⟩ := visits_chain maxPort hchain
    refine (sound_iff hentry maxPort s.sw).mp fun x a ha ↦ ?_
    -- every entry before this one passes, and this one gets `x`
    let env (q : ℕ) : Answer := if q = s.pos then x else ⟨true, 0, 0⟩
    refine h env a (.inr ⟨s, hs env fun q hq ↦ if_neg (Nat.ne_of_lt hq), ?_⟩)
    rw [parsePass_entry hentry, show env s.pos = x from if_pos rfl]
    exact List.mem_cons_of_mem _ ha
  · rintro ⟨hheader, hsound⟩ env a (rfl | ⟨s, hs, ha⟩)
    · exact hheader
    by_cases hentry : IsEntry drom s.pos
    · rw [parsePass_entry hentry] at ha
      obtain rfl | ha := List.mem_cons.mp ha
      · show s.pos + 2 ≤ _
        exact hentry.1
      · exact (sound_iff hentry maxPort s.sw).mpr (hsound _ _ (chain_visits hs) hentry) _ a ha
    · exact (parsePass_not_entry maxPort env hentry).2 a ha

def imageOf (dataLen : UInt8) (entries : List UInt8) : Mem :=
  fun i ↦ if i = 14 then dataLen else if i < 22 then 0 else entries.getD (i - 22) 0

/-- For a router with 13 ports something outside of the image or of the ports is touched. -/
def Overruns (drom : Mem) : Prop :=
  ∃ a, Touches drom 22 13 ⟨0, 0, fun _ ↦ ⟨false, 0, none⟩⟩ (fun _ ↦ ⟨true, 0, typePort⟩) a ∧
    ¬ a.Inside drom (dromSize drom) 13

/-- A port entry names partner 63 of a router with 13 ports; a name entry of length 1 and a product
descriptor of length 2 end their images, and bytes behind them are read. -/
theorem dromParseEntries_overrun : Overruns (imageOf 17 [8, 0x81, 0x80, 63]) ∧
    Overruns (imageOf 11 [1, 1]) ∧ Overruns (imageOf 11 [2, 9]) := by
  have hpartner : ¬ 63 ≤ 13 := by decide
  have hdesc : ¬ 26 + 4 ≤ dromSize (imageOf 11 [2, 9]) := by decide
  have hname : ¬ 24 < dromSize (imageOf 11 [1, 1]) := by decide
  refine ⟨⟨.port 63, .inr ⟨_, .start, by decide⟩, hpartner⟩,
    ⟨.string 24 (2 ^ 64 - 1), .inr ⟨_, .start, by decide⟩, fun h ↦ hname (h 24 ?_ ?_ ?_)⟩,
    ⟨.bytes 26 4, .inr ⟨_, .start, by decide⟩, hdesc⟩⟩
  · decide
  · decide
  · omega

end ThunderboltStack.Drom
