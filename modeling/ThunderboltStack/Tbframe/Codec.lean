import ThunderboltStack.Lib.Bytes
import ThunderboltStack.Tbframe.Sections

/-!
# The codec of control messages and keepalives

The builders and parsers of `tbframe_wire.h` on byte buffers.  The session code of the other modules
works on parsed messages; here it is shown that parsing undoes building, and how far building undoes
parsing.  A control message names its operation twice, in the 32-bit packet type of the XDomain
header and in the 16-bit field of its own header; the parser keeps the low half of the first.
-/

namespace ThunderboltStack.Tbframe

open ThunderboltStack.Lib

def putLe16 (p : ℕ) (value : UInt16) (buf : Buffer) : Buffer :=
  copyTo p [(value &&& 0xff).toUInt8, (value >>> 8).toUInt8] buf

def putLe32 (p : ℕ) (value : UInt32) (buf : Buffer) : Buffer :=
  copyTo p [(value &&& 0xff).toUInt8, ((value >>> 8) &&& 0xff).toUInt8,
    ((value >>> 16) &&& 0xff).toUInt8, (value >>> 24).toUInt8] buf

def putLe64 (p : ℕ) (value : UInt64) (buf : Buffer) : Buffer :=
  putLe32 (p + 4) (value >>> 32).toUInt32 (putLe32 p (value &&& 0xffffffff).toUInt32 buf)

def getLe16 (p : ℕ) (buf : Buffer) : UInt16 :=
  (buf p).toUInt16 ||| ((buf (p + 1)).toUInt16 <<< 8)

def getLe32 (p : ℕ) (buf : Buffer) : UInt32 :=
  (buf p).toUInt32 ||| ((buf (p + 1)).toUInt32 <<< 8) ||| ((buf (p + 2)).toUInt32 <<< 16) |||
    ((buf (p + 3)).toUInt32 <<< 24)

def getLe64 (p : ℕ) (buf : Buffer) : UInt64 :=
  (getLe32 p buf).toUInt64 ||| ((getLe32 (p + 4) buf).toUInt64 <<< 32)

/-! ## Control messages -/

def WireOp.code : WireOp → UInt16
  | .hello => 1
  | .helloAck => 2
  | .ready => 3
  | .readyAck => 4
  | .bye => 5
  | .byeAck => 6

def WireOp.ofCode (code : UInt16) : Option WireOp :=
  if code = 1 then some .hello
  else if code = 2 then some .helloAck
  else if code = 3 then some .ready
  else if code = 4 then some .readyAck
  else if code = 5 then some .bye
  else if code = 6 then some .byeAck
  else none

def wireMagic : UInt32 := 0x31464254

def helloMsgSize : ℕ := 76

def wireUuid : List UInt8 :=
  [0x9a, 0x52, 0xc3, 0xb4, 0x1f, 0x6e, 0x4d, 0x07, 0x8b, 0x2a, 0x46, 0xc8, 0x1d, 0x90, 0xe5, 0xf3]

/-- `(TBFRAME_WIRE_HELLO_MSG_SIZE - 12u) / 4u`, the length in the XDomain header. -/
def helloMsgWords : UInt32 := 16

def lengthSn (xdomainSequence : UInt32) : UInt32 :=
  helloMsgWords ||| ((xdomainSequence &&& 0x3) <<< 27)

/-- `tbframe_wire_build_hello`: the result and the buffer. -/
def wireBuildHello (buf : Buffer) (size : ℕ) (hello : WireHello) (op : UInt16) (seq : UInt32)
    (route : UInt64) (xdomainSequence : UInt32) : ℤ × Buffer :=
  if op < 1 ∨ 6 < op then (einval, buf)
  else if size < helloMsgSize then (enospc, buf)
  else
    let buf := copyTo 0 (List.replicate helloMsgSize 0) buf
    let buf := putLe32 0 (route >>> 32).toUInt32 buf
    let buf := putLe32 4 (route &&& 0xffffffff).toUInt32 buf
    let buf := putLe32 8 (lengthSn xdomainSequence) buf
    let buf := copyTo 12 wireUuid buf
    let buf := putLe32 28 op.toUInt32 buf
    let buf := putLe32 32 wireMagic buf
    let buf := putLe16 36 wireVersion buf
    let buf := putLe16 38 op buf
    let buf := putLe16 40 helloMsgSize.toUInt16 buf
    let buf := putLe16 42 0 buf
    let buf := putLe32 44 seq buf
    let buf := putLe16 48 hello.protoVersion buf
    let buf := putLe16 50 hello.transmitHopid buf
    let buf := putLe16 52 hello.rxRingEntries buf
    let buf := putLe16 54 0 buf
    let buf := putLe32 56 hello.capabilities buf
    let buf := putLe64 60 hello.gidEui64 buf
    let buf := putLe64 68 hello.sessionCookie buf
    (helloMsgSize, buf)

def wireParseHello (buf : Buffer) (size : ℕ) : Except ℤ WireMsg :=
  if size < helloMsgSize then .error einval
  else if getLe32 8 buf &&& 0x3f ≠ helloMsgWords then .error einval
  else if copyFrom 12 16 buf ≠ wireUuid then .error einval
  else
    match WireOp.ofCode (getLe32 28 buf).toUInt16 with
    | none => .error einval
    | some op =>
      if getLe32 32 buf ≠ wireMagic then .error einval
      else if getLe16 36 buf ≠ wireVersion then .error einval
      else if getLe16 38 buf ≠ op.code then .error einval
      else if getLe16 40 buf ≠ helloMsgSize.toUInt16 then .error einval
      else .ok {
        info := {
          op := op
          seq := getLe32 44 buf
          xdomainSequence := (getLe32 8 buf >>> 27) &&& 0x3
          route := (((getLe32 0 buf).toUInt64 <<< 32) ||| (getLe32 4 buf).toUInt64) &&&
            0x7fffffffffffffff }
        hello := {
          protoVersion := getLe16 48 buf
          transmitHopid := getLe16 50 buf
          rxRingEntries := getLe16 52 buf
          capabilities := getLe32 56 buf
          gidEui64 := getLe64 60 buf
          sessionCookie := getLe64 68 buf } }

/-- `struct tbframe_wire_keepalive` as it is on the wire. -/
structure WireKeepalive where
  sessionCookie : UInt64
  sequence : UInt64
  ackCookie : UInt64
  ackSequence : UInt64
  deriving DecidableEq

def wireBuildKeepalive (buf : Buffer) (k : WireKeepalive) : Buffer :=
  let buf := putLe64 0 k.sessionCookie buf
  let buf := putLe64 8 k.sequence buf
  let buf := putLe64 16 k.ackCookie buf
  putLe64 24 k.ackSequence buf

def wireParseKeepalive (buf : Buffer) : WireKeepalive where
  sessionCookie := getLe64 0 buf
  sequence := getLe64 8 buf
  ackCookie := getLe64 16 buf
  ackSequence := getLe64 24 buf

section Numbers

variable {p : ℕ} {buf : Buffer}

theorem and_255 (n : ℕ) : n &&& 255 = n % 256 :=
  Nat.and_two_pow_sub_one_eq_mod n 8

theorem putLe16_eq (p : ℕ) (v : UInt16) (buf : Buffer) :
    putLe16 p v buf = copyTo p (leBytes 2 v.toNat) buf := by
  have hv := v.toNat_lt
  unfold putLe16
  congr 1
  simp only [leBytes, List.cons.injEq, and_true]
  refine ⟨?_, ?_⟩ <;> apply UInt8.toNat_inj.1 <;> simp [and_255, Nat.shiftRight_eq_div_pow]

theorem putLe32_eq (p : ℕ) (v : UInt32) (buf : Buffer) :
    putLe32 p v buf = copyTo p (leBytes 4 v.toNat) buf := by
  have hv := v.toNat_lt
  unfold putLe32
  congr 1
  simp only [leBytes, List.cons.injEq, and_true]
  refine ⟨?_, ?_, ?_, ?_⟩ <;> apply UInt8.toNat_inj.1 <;>
    simp [and_255, Nat.shiftRight_eq_div_pow, Nat.div_div_eq_div_mul]

theorem toNat_getLe16 (p : ℕ) (buf : Buffer) :
    (getLe16 p buf).toNat = ofLeBytes (copyFrom p 2 buf) := by
  have h0 := (buf p).toNat_lt
  have h1 := (buf (p + 1)).toNat_lt
  have hshift : ((buf (p + 1)).toUInt16 <<< 8).toNat = (buf (p + 1)).toNat * 2 ^ 8 := by
    simp [Nat.shiftLeft_eq]
    omega
  have hor : (getLe16 p buf).toNat = (buf p).toNat + (buf (p + 1)).toNat * 2 ^ 8 := by
    rw [getLe16, UInt16.toNat_or, hshift]
    exact or_mul_two_pow h0 _
  simp only [hor, copyFrom, List.range_succ, List.range_zero, List.nil_append,
    List.singleton_append, List.map_cons, List.map_nil, ofLeBytes, Nat.add_zero]
  omega

/-- A little-endian dword is the number of its four bytes. -/
theorem toNat_getLe32 (p : ℕ) (buf : Buffer) :
    (getLe32 p buf).toNat = ofLeBytes (copyFrom p 4 buf) := by
  have h0 := (buf p).toNat_lt
  have h1 := (buf (p + 1)).toNat_lt
  have h2 := (buf (p + 2)).toNat_lt
  have h3 := (buf (p + 3)).toNat_lt
  have hor : (getLe32 p buf).toNat = (buf p).toNat + (buf (p + 1)).toNat * 2 ^ 8 +
      (buf (p + 2)).toNat * 2 ^ 16 + (buf (p + 3)).toNat * 2 ^ 24 := by
    have hshift1 : ((buf (p + 1)).toUInt32 <<< 8).toNat = (buf (p + 1)).toNat * 2 ^ 8 := by
      simp [Nat.shiftLeft_eq]
      omega
    have hshift2 : ((buf (p + 2)).toUInt32 <<< 16).toNat = (buf (p + 2)).toNat * 2 ^ 16 := by
      simp [Nat.shiftLeft_eq]
      omega
    have hshift3 : ((buf (p + 3)).toUInt32 <<< 24).toNat = (buf (p + 3)).toNat * 2 ^ 24 := by
      simp [Nat.shiftLeft_eq]
      omega
    rw [getLe32, UInt32.toNat_or, UInt32.toNat_or, UInt32.toNat_or, hshift1, hshift2, hshift3,
      UInt8.toNat_toUInt32]
    have hor1 := or_mul_two_pow h0 (buf (p + 1)).toNat
    rw [hor1, or_mul_two_pow (k := 16) (by omega), or_mul_two_pow (k := 24) (by omega)]
  simp only [hor, copyFrom, List.range_succ, List.range_zero, List.nil_append,
    List.cons_append, List.map_cons, List.map_nil, ofLeBytes, Nat.add_zero]
  omega

theorem toNat_getLe64 (p : ℕ) (buf : Buffer) :
    (getLe64 p buf).toNat = ofLeBytes (copyFrom p 8 buf) := by
  have hlow := (getLe32 p buf).toNat_lt
  have hhigh := (getLe32 (p + 4) buf).toNat_lt
  have hshift : ((getLe32 (p + 4) buf).toUInt64 <<< 32).toNat =
      (getLe32 (p + 4) buf).toNat * 2 ^ 32 := by
    simp [Nat.shiftLeft_eq]
    omega
  have hor : (getLe64 p buf).toNat =
      (getLe32 p buf).toNat + (getLe32 (p + 4) buf).toNat * 2 ^ 32 := by
    rw [getLe64, UInt64.toNat_or, hshift, UInt32.toNat_toUInt64, or_mul_two_pow hlow]
  calc (getLe64 p buf).toNat
      = ofLeBytes (copyFrom p 4 buf) + ofLeBytes (copyFrom (p + 4) 4 buf) * 2 ^ 32 := by
        rw [hor, toNat_getLe32, toNat_getLe32]
    _ = ofLeBytes (copyFrom p 8 buf) := by
        rw [copyFrom_add p 4 4, ofLeBytes_append, length_copyFrom]
        omega

theorem putLe64_eq (p : ℕ) (v : UInt64) (buf : Buffer) :
    putLe64 p v buf = copyTo p (leBytes 8 v.toNat) buf := by
  have hv := v.toNat_lt
  have hand : ∀ n : ℕ, n &&& 0xffffffff = n % 2 ^ 32 :=
    fun n ↦ Nat.and_two_pow_sub_one_eq_mod n 32
  have hlow : (v &&& 0xffffffff).toUInt32.toNat = v.toNat % 256 ^ 4 := by
    simp [hand]
  have hhigh : (v >>> 32).toUInt32.toNat = v.toNat / 256 ^ 4 := by
    simp [Nat.shiftRight_eq_div_pow]
    omega
  rw [putLe64, putLe32_eq, putLe32_eq, hlow, hhigh, leBytes_mod 4, leBytes_add 4 4, copyTo_append,
    length_leBytes]

theorem toNat_byte (p : ℕ) (buf : Buffer) {k : ℕ} (hk : k < 4) :
    (buf (p + k)).toNat = (getLe32 p buf).toNat / 256 ^ k % 256 := by
  have h0 := (buf p).toNat_lt
  have h1 := (buf (p + 1)).toNat_lt
  have h2 := (buf (p + 2)).toNat_lt
  have h3 := (buf (p + 3)).toNat_lt
  rw [toNat_getLe32]
  simp only [copyFrom, List.range_succ, List.range_zero, List.nil_append, List.cons_append,
    List.map_cons, List.map_nil, ofLeBytes, Nat.add_zero]
  obtain rfl | rfl | rfl | rfl : k = 0 ∨ k = 1 ∨ k = 2 ∨ k = 3 := by omega
  · rw [Nat.add_zero]
    omega
  all_goals omega

theorem copyFrom_eq_of_getLe16 {buf buf' : Buffer} (h : getLe16 p buf = getLe16 p buf') :
    copyFrom p 2 buf = copyFrom p 2 buf' := by
  rw [← leBytes_ofLeBytes (length_copyFrom p 2 buf), ← toNat_getLe16, h, toNat_getLe16,
    leBytes_ofLeBytes (length_copyFrom p 2 buf')]

theorem copyFrom_eq_of_getLe32 {buf buf' : Buffer} (h : getLe32 p buf = getLe32 p buf') :
    copyFrom p 4 buf = copyFrom p 4 buf' := by
  rw [← leBytes_ofLeBytes (length_copyFrom p 4 buf), ← toNat_getLe32, h, toNat_getLe32,
    leBytes_ofLeBytes (length_copyFrom p 4 buf')]

theorem copyFrom_eq_of_getLe64 {buf buf' : Buffer} (h : getLe64 p buf = getLe64 p buf') :
    copyFrom p 8 buf = copyFrom p 8 buf' := by
  rw [← leBytes_ofLeBytes (length_copyFrom p 8 buf), ← toNat_getLe64, h, toNat_getLe64,
    leBytes_ofLeBytes (length_copyFrom p 8 buf')]

end Numbers

/-! ## Building and parsing -/

section Fields

variable {p : ℕ} {buf : Buffer} {fields : List Field}

theorem getLe16_writeFields {v : UInt16} (h : fields.Pairwise Field.Apart)
    (hf : ⟨p, leBytes 2 v.toNat⟩ ∈ fields) : getLe16 p (writeFields fields buf) = v := by
  have hread : copyFrom p (leBytes 2 v.toNat).length (writeFields fields buf) = leBytes 2 v.toNat :=
    copyFrom_writeFields h hf
  rw [length_leBytes] at hread
  apply UInt16.toNat_inj.1
  rw [toNat_getLe16, hread, ofLeBytes_leBytes]
  exact Nat.mod_eq_of_lt v.toNat_lt

theorem getLe32_writeFields {v : UInt32} (h : fields.Pairwise Field.Apart)
    (hf : ⟨p, leBytes 4 v.toNat⟩ ∈ fields) : getLe32 p (writeFields fields buf) = v := by
  have hread : copyFrom p (leBytes 4 v.toNat).length (writeFields fields buf) = leBytes 4 v.toNat :=
    copyFrom_writeFields h hf
  rw [length_leBytes] at hread
  apply UInt32.toNat_inj.1
  rw [toNat_getLe32, hread, ofLeBytes_leBytes]
  exact Nat.mod_eq_of_lt v.toNat_lt

theorem getLe64_writeFields {v : UInt64} (h : fields.Pairwise Field.Apart)
    (hf : ⟨p, leBytes 8 v.toNat⟩ ∈ fields) : getLe64 p (writeFields fields buf) = v := by
  have hread : copyFrom p (leBytes 8 v.toNat).length (writeFields fields buf) = leBytes 8 v.toNat :=
    copyFrom_writeFields h hf
  rw [length_leBytes] at hread
  apply UInt64.toNat_inj.1
  rw [toNat_getLe64, hread, ofLeBytes_leBytes]
  exact Nat.mod_eq_of_lt v.toNat_lt

end Fields

def helloFields (m : WireMsg) : List Field :=
  [⟨0, leBytes 4 (m.info.route >>> 32).toUInt32.toNat⟩,
   ⟨4, leBytes 4 (m.info.route &&& 0xffffffff).toUInt32.toNat⟩,
   ⟨8, leBytes 4 (lengthSn m.info.xdomainSequence).toNat⟩,
   ⟨12, wireUuid⟩,
   ⟨28, leBytes 4 m.info.op.code.toUInt32.toNat⟩,
   ⟨32, leBytes 4 wireMagic.toNat⟩,
   ⟨36, leBytes 2 wireVersion.toNat⟩,
   ⟨38, leBytes 2 m.info.op.code.toNat⟩,
   ⟨40, leBytes 2 helloMsgSize.toUInt16.toNat⟩,
   ⟨42, leBytes 2 (0 : UInt16).toNat⟩,
   ⟨44, leBytes 4 m.info.seq.toNat⟩,
   ⟨48, leBytes 2 m.hello.protoVersion.toNat⟩,
   ⟨50, leBytes 2 m.hello.transmitHopid.toNat⟩,
   ⟨52, leBytes 2 m.hello.rxRingEntries.toNat⟩,
   ⟨54, leBytes 2 (0 : UInt16).toNat⟩,
   ⟨56, leBytes 4 m.hello.capabilities.toNat⟩,
   ⟨60, leBytes 8 m.hello.gidEui64.toNat⟩,
   ⟨68, leBytes 8 m.hello.sessionCookie.toNat⟩]

/-- The bits of a control message that its format defines: all but bit 63 of the route, the unused
bits of the length and sequence word, and the reserved fields. -/
def definedBits (i : ℕ) : UInt8 :=
  if i = 3 then 0x7f
  else if i = 8 then 0x3f
  else if i = 11 then 0x18
  else if i = 9 ∨ i = 10 ∨ i = 42 ∨ i = 43 ∨ i = 54 ∨ i = 55 then 0
  else 0xff

/-- The buffer that `tbframe_wire_build_hello` leaves for a message. -/
def helloBuffer (buf : Buffer) (size : ℕ) (m : WireMsg) : Buffer :=
  (wireBuildHello buf size m.hello m.info.op.code m.info.seq m.info.route
    m.info.xdomainSequence).2

section Hello

variable {buf : Buffer} {size : ℕ} {m : WireMsg}

theorem helloFields_apart (m : WireMsg) : (helloFields m).Pairwise Field.Apart := by
  apply Laid.apart (p := 0)
  simp [helloFields, Laid, wireUuid]

/-- The operations of a message are in the range that the builder accepts. -/
theorem code_range (op : WireOp) : ¬ (op.code < 1 ∨ 6 < op.code) := by
  cases op <;> decide

theorem helloBuffer_eq (hsize : helloMsgSize ≤ size) :
    helloBuffer buf size m =
      writeFields (helloFields m) (copyTo 0 (List.replicate helloMsgSize 0) buf) := by
  simp only [helloBuffer, wireBuildHello, if_neg (code_range m.info.op),
    if_neg (Nat.not_lt.2 hsize), putLe16_eq, putLe32_eq, putLe64_eq]
  rfl

theorem ofCode_code (op : WireOp) : WireOp.ofCode op.code = some op := by
  cases op <;> rfl

theorem code_ofCode {code : UInt16} {op : WireOp} (h : WireOp.ofCode code = some op) :
    op.code = code := by
  unfold WireOp.ofCode at h
  (repeat' split at h) <;> cases h <;> simp_all [WireOp.code]

theorem lengthSn_spec {x : UInt32} (hx : x < 4) :
    lengthSn x &&& 0x3f = helloMsgWords ∧ (lengthSn x >>> 27) &&& 0x3 = x := by
  have hlt : x.toNat < 4 := hx
  have hcases : x = 0 ∨ x = 1 ∨ x = 2 ∨ x = 3 := by
    simp only [← UInt32.toNat_inj]
    change x.toNat = 0 ∨ x.toNat = 1 ∨ x.toNat = 2 ∨ x.toNat = 3
    omega
  rcases hcases with rfl | rfl | rfl | rfl <;> decide

/-- A route below `2 ^ 63` is put together from its halves. -/
theorem route_halves {route : UInt64} (hroute : route < 0x8000000000000000) :
    (((route >>> 32).toUInt32.toUInt64 <<< 32) ||| (route &&& 0xffffffff).toUInt32.toUInt64) &&&
      0x7fffffffffffffff = route := by
  have hlt : route.toNat < 2 ^ 63 := hroute
  have hand : ∀ n : ℕ, n &&& 0xffffffff = n % 2 ^ 32 :=
    fun n ↦ Nat.and_two_pow_sub_one_eq_mod n 32
  have hand' : ∀ n : ℕ, n &&& 0x7fffffffffffffff = n % 2 ^ 63 :=
    fun n ↦ Nat.and_two_pow_sub_one_eq_mod n 63
  have hhigh : ((route >>> 32).toUInt32.toUInt64 <<< 32).toNat = route.toNat / 2 ^ 32 * 2 ^ 32 := by
    simp [Nat.shiftLeft_eq, Nat.shiftRight_eq_div_pow]
    omega
  have hlow : (route &&& 0xffffffff).toUInt32.toUInt64.toNat = route.toNat % 2 ^ 32 := by
    simp [hand]
  apply UInt64.toNat_inj.1
  rw [UInt64.toNat_and, UInt64.toNat_or, hhigh, hlow, Nat.or_comm,
    or_mul_two_pow (Nat.mod_lt _ (by decide))]
  calc (route.toNat % 2 ^ 32 + route.toNat / 2 ^ 32 * 2 ^ 32) &&& 0x7fffffffffffffff
      = route.toNat &&& 0x7fffffffffffffff := by rw [Nat.mod_add_div']
    _ = route.toNat % 2 ^ 63 := hand' _
    _ = route.toNat := Nat.mod_eq_of_lt hlt

structure Written (buf : Buffer) (m : WireMsg) : Prop where
  routeHigh : getLe32 0 buf = (m.info.route >>> 32).toUInt32
  routeLow : getLe32 4 buf = (m.info.route &&& 0xffffffff).toUInt32
  words : getLe32 8 buf = lengthSn m.info.xdomainSequence
  uuid : copyFrom 12 16 buf = wireUuid
  type : getLe32 28 buf = m.info.op.code.toUInt32
  magic : getLe32 32 buf = wireMagic
  version : getLe16 36 buf = wireVersion
  op : getLe16 38 buf = m.info.op.code
  size : getLe16 40 buf = helloMsgSize.toUInt16
  seq : getLe32 44 buf = m.info.seq
  protoVersion : getLe16 48 buf = m.hello.protoVersion
  transmitHopid : getLe16 50 buf = m.hello.transmitHopid
  rxRingEntries : getLe16 52 buf = m.hello.rxRingEntries
  capabilities : getLe32 56 buf = m.hello.capabilities
  gidEui64 : getLe64 60 buf = m.hello.gidEui64
  sessionCookie : getLe64 68 buf = m.hello.sessionCookie

/-- The builder puts the fields of the message at their places. -/
theorem written_helloBuffer (hsize : helloMsgSize ≤ size) :
    Written (helloBuffer buf size m) m := by
  have hapart := helloFields_apart m
  rw [helloBuffer_eq hsize]
  generalize copyTo 0 (List.replicate helloMsgSize 0) buf = zeroed
  have get16 : ∀ {p : ℕ} {v : UInt16} (i : ℕ), (helloFields m)[i]? = some ⟨p, leBytes 2 v.toNat⟩ →
      getLe16 p (writeFields (helloFields m) zeroed) = v :=
    fun i hi ↦ getLe16_writeFields hapart (List.mem_of_getElem? hi)
  have get32 : ∀ {p : ℕ} {v : UInt32} (i : ℕ), (helloFields m)[i]? = some ⟨p, leBytes 4 v.toNat⟩ →
      getLe32 p (writeFields (helloFields m) zeroed) = v :=
    fun i hi ↦ getLe32_writeFields hapart (List.mem_of_getElem? hi)
  have get64 : ∀ {p : ℕ} {v : UInt64} (i : ℕ), (helloFields m)[i]? = some ⟨p, leBytes 8 v.toNat⟩ →
      getLe64 p (writeFields (helloFields m) zeroed) = v :=
    fun i hi ↦ getLe64_writeFields hapart (List.mem_of_getElem? hi)
  have huuid : copyFrom 12 16 (writeFields (helloFields m) zeroed) = wireUuid :=
    copyFrom_writeFields (f := ⟨12, wireUuid⟩) hapart (List.mem_of_getElem? (i := 3) rfl)
  exact ⟨get32 0 rfl, get32 1 rfl, get32 2 rfl, huuid, get32 4 rfl, get32 5 rfl, get16 6 rfl,
    get16 7 rfl, get16 8 rfl, get32 10 rfl, get16 11 rfl, get16 12 rfl, get16 13 rfl, get32 15 rfl,
    get64 16 rfl, get64 17 rfl⟩

/-- Parsing gives back the message that was written. -/
theorem parse_of_written (h : Written buf m) (hsize : helloMsgSize ≤ size)
    (hroute : m.info.route < 0x8000000000000000) (hx : m.info.xdomainSequence < 4) :
    wireParseHello buf size = .ok m := by
  obtain ⟨hwords, hsequence⟩ := lengthSn_spec hx
  have hop : m.info.op.code.toUInt32.toUInt16 = m.info.op.code := UInt16.toUInt16_toUInt32 _
  simp only [wireParseHello, if_neg (Nat.not_lt.2 hsize), h.routeHigh, h.routeLow, h.words, h.uuid,
    h.type, h.magic, h.version, h.op, h.size, h.seq, h.protoVersion, h.transmitHopid,
    h.rxRingEntries, h.capabilities, h.gidEui64, h.sessionCookie, hop, ofCode_code, hwords,
    hsequence, route_halves hroute, ne_eq, not_true_eq_false, if_false]

structure Parsed (buf : Buffer) (m : WireMsg) : Prop where
  words : getLe32 8 buf &&& 0x3f = helloMsgWords
  uuid : copyFrom 12 16 buf = wireUuid
  type : (getLe32 28 buf).toUInt16 = m.info.op.code
  magic : getLe32 32 buf = wireMagic
  version : getLe16 36 buf = wireVersion
  op : getLe16 38 buf = m.info.op.code
  size : getLe16 40 buf = helloMsgSize.toUInt16
  seq : getLe32 44 buf = m.info.seq
  sequence : (getLe32 8 buf >>> 27) &&& 0x3 = m.info.xdomainSequence
  route : (((getLe32 0 buf).toUInt64 <<< 32) ||| (getLe32 4 buf).toUInt64) &&& 0x7fffffffffffffff =
    m.info.route
  protoVersion : getLe16 48 buf = m.hello.protoVersion
  transmitHopid : getLe16 50 buf = m.hello.transmitHopid
  rxRingEntries : getLe16 52 buf = m.hello.rxRingEntries
  capabilities : getLe32 56 buf = m.hello.capabilities
  gidEui64 : getLe64 60 buf = m.hello.gidEui64
  sessionCookie : getLe64 68 buf = m.hello.sessionCookie

/-- What the parser accepts has the fields of the message at their places. -/
theorem parsed_of_ok (h : wireParseHello buf size = .ok m) : Parsed buf m := by
  unfold wireParseHello at h
  split at h
  · cases h
  split at h
  · cases h
  next hwords =>
  split at h
  · cases h
  next huuid =>
  split at h
  · cases h
  next op hop =>
  split at h
  · cases h
  next hmagic =>
  split at h
  · cases h
  next hversion =>
  split at h
  · cases h
  next hop16 =>
  split at h
  · cases h
  next hsize =>
  cases h
  exact ⟨not_not.1 hwords, not_not.1 huuid, (code_ofCode hop).symm, not_not.1 hmagic,
    not_not.1 hversion, not_not.1 hop16, not_not.1 hsize, rfl, rfl, rfl, rfl, rfl, rfl, rfl, rfl,
    rfl⟩

/-- Words that agree but for their highest bit agree in all bits of their bytes but that one. -/
theorem byte_of_masked_word {buf buf' : Buffer} (p : ℕ)
    (h : (getLe32 p buf').toNat = (getLe32 p buf).toNat % 2 ^ 31) :
    (∀ k < 3, buf (p + k) = buf' (p + k)) ∧ buf (p + 3) &&& 0x7f = buf' (p + 3) &&& 0x7f := by
  have hlt := (getLe32 p buf).toNat_lt
  have hand : ∀ n : ℕ, n &&& 127 = n % 128 := fun n ↦ Nat.and_two_pow_sub_one_eq_mod n 7
  constructor
  · intro k hk
    apply UInt8.toNat_inj.1
    rw [toNat_byte p buf (by omega), toNat_byte p buf' (by omega), h]
    obtain rfl | rfl | rfl : k = 0 ∨ k = 1 ∨ k = 2 := by omega
    all_goals omega
  · apply UInt8.toNat_inj.1
    rw [UInt8.toNat_and, UInt8.toNat_and, toNat_byte p buf (by omega),
      toNat_byte p buf' (by omega), h]
    simp only [UInt8.reduceToNat, hand]
    omega

/-- The halves of a parsed route: the parser clears its highest bit. -/
theorem route_words (high low : UInt32) :
    let route := ((high.toUInt64 <<< 32) ||| low.toUInt64) &&& 0x7fffffffffffffff
    (route >>> 32).toUInt32.toNat = high.toNat % 2 ^ 31 ∧
      (route &&& 0xffffffff).toUInt32 = low := by
  intro route
  have hhigh := high.toNat_lt
  have hlow := low.toNat_lt
  have hand : ∀ n : ℕ, n &&& 0xffffffff = n % 2 ^ 32 :=
    fun n ↦ Nat.and_two_pow_sub_one_eq_mod n 32
  have hand' : ∀ n : ℕ, n &&& 0x7fffffffffffffff = n % 2 ^ 63 :=
    fun n ↦ Nat.and_two_pow_sub_one_eq_mod n 63
  have hshift : (high.toUInt64 <<< 32).toNat = high.toNat * 2 ^ 32 := by
    simp [Nat.shiftLeft_eq]
    omega
  have hroute : route.toNat = (low.toNat + high.toNat * 2 ^ 32) % 2 ^ 63 := by
    rw [UInt64.toNat_and, UInt64.toNat_or, hshift, UInt32.toNat_toUInt64, Nat.or_comm,
      or_mul_two_pow hlow]
    exact hand' _
  constructor
  · simp only [UInt64.toNat_toUInt32, UInt64.toNat_shiftRight, hroute]
    simp [Nat.shiftRight_eq_div_pow]
    omega
  · apply UInt32.toNat_inj.1
    simp only [UInt64.toNat_toUInt32, UInt64.toNat_and, hroute]
    simp [hand]

theorem toNat_lengthSn (x : UInt32) : (lengthSn x).toNat = 16 + x.toNat % 4 * 2 ^ 27 := by
  have hand : ∀ n : ℕ, n &&& 3 = n % 4 := fun n ↦ Nat.and_two_pow_sub_one_eq_mod n 2
  have hshift : ((x &&& 3) <<< 27).toNat = x.toNat % 4 * 2 ^ 27 := by
    simp [hand, Nat.shiftLeft_eq]
    omega
  rw [lengthSn, UInt32.toNat_or, hshift]
  exact or_mul_two_pow (by decide) _

/-- The bytes of the length and sequence word agree where the format defines them. -/
theorem byte_of_lengthSn {buf buf' : Buffer} (hwords : getLe32 8 buf &&& 0x3f = helloMsgWords)
    (hbuilt : getLe32 8 buf' = lengthSn ((getLe32 8 buf >>> 27) &&& 0x3)) :
    buf 8 &&& 0x3f = buf' 8 &&& 0x3f ∧ buf 11 &&& 0x18 = buf' 11 &&& 0x18 := by
  have hand6 : ∀ n : ℕ, n &&& 63 = n % 64 := fun n ↦ Nat.and_two_pow_sub_one_eq_mod n 6
  have hand24 : ∀ n < 256, n &&& 24 = n / 8 % 4 * 8 := by decide +kernel
  have hlength : (getLe32 8 buf).toNat % 64 = 16 := by
    have h := congrArg UInt32.toNat hwords
    rwa [UInt32.toNat_and, show (0x3f : UInt32).toNat = 63 from rfl, hand6] at h
  have hsn : ((getLe32 8 buf >>> 27) &&& 0x3).toNat = (getLe32 8 buf).toNat / 2 ^ 27 % 4 := by
    have hand : ∀ n : ℕ, n &&& 3 = n % 4 := fun n ↦ Nat.and_two_pow_sub_one_eq_mod n 2
    simp [hand, Nat.shiftRight_eq_div_pow]
  have hword : (getLe32 8 buf').toNat = 16 + (getLe32 8 buf).toNat / 2 ^ 27 % 4 * 2 ^ 27 := by
    rw [hbuilt, toNat_lengthSn, hsn, Nat.mod_mod]
  have hlow : (buf 8).toNat = _ := toNat_byte 8 buf (k := 0) (by omega)
  have hlow' : (buf' 8).toNat = _ := toNat_byte 8 buf' (k := 0) (by omega)
  have hhigh : (buf 11).toNat = _ := toNat_byte 8 buf (k := 3) (by omega)
  have hhigh' : (buf' 11).toNat = _ := toNat_byte 8 buf' (k := 3) (by omega)
  rw [hword] at hlow' hhigh'
  constructor
  · apply UInt8.toNat_inj.1
    rw [UInt8.toNat_and, UInt8.toNat_and, show (0x3f : UInt8).toNat = 63 from rfl, hand6, hand6]
    omega
  · apply UInt8.toNat_inj.1
    rw [UInt8.toNat_and, UInt8.toNat_and, show (0x18 : UInt8).toNat = 24 from rfl,
      hand24 _ (buf 11).toNat_lt, hand24 _ (buf' 11).toNat_lt]
    omega

/-- The parser reads the low half of the packet type only. -/
theorem byte_of_type {buf buf' : Buffer} {code : UInt16} (hlt : code < 256)
    (htype : (getLe32 28 buf).toUInt16 = code) (hbuilt : getLe32 28 buf' = code.toUInt32) :
    buf 28 = buf' 28 ∧ buf 29 = buf' 29 ∧ buf' 30 = 0 ∧ buf' 31 = 0 := by
  have hlt' : code.toNat < 256 := hlt
  have hlow : (getLe32 28 buf).toNat % 2 ^ 16 = code.toNat := by
    rw [← htype]
    exact UInt32.toNat_toUInt16 _
  have hword : (getLe32 28 buf').toNat = code.toNat := by
    rw [hbuilt]
    exact UInt16.toNat_toUInt32 _
  have hbyte : ∀ k < 4, (buf (28 + k)).toNat = (getLe32 28 buf).toNat / 256 ^ k % 256 :=
    fun k hk ↦ toNat_byte 28 buf hk
  have hbyte' : ∀ k < 4, (buf' (28 + k)).toNat = code.toNat / 256 ^ k % 256 := by
    intro k hk
    rw [toNat_byte 28 buf' hk, hword]
  have h0 := hbyte 0 (by omega)
  have h1 := hbyte 1 (by omega)
  have h0' := hbyte' 0 (by omega)
  have h1' := hbyte' 1 (by omega)
  have h2' := hbyte' 2 (by omega)
  have h3' := hbyte' 3 (by omega)
  refine ⟨?_, ?_, ?_, ?_⟩
  all_goals
    apply UInt8.toNat_inj.1
    simp only [Nat.reduceAdd, Nat.reducePow, UInt8.reduceToNat] at *
    omega

theorem code_lt (op : WireOp) : op.code < 256 := by
  cases op <;> decide

theorem and_ff (b : UInt8) : b &&& 0xff = b := by
  apply UInt8.toNat_inj.1
  rw [UInt8.toNat_and]
  calc b.toNat &&& 255 = b.toNat % 256 := and_255 _
    _ = b.toNat := Nat.mod_eq_of_lt b.toNat_lt

/-- Two buffers agree on the bits of a byte that the format defines. -/
def Agree (buf buf' : Buffer) (i : ℕ) : Prop :=
  buf i &&& definedBits i = buf' i &&& definedBits i

theorem Agree.of_eq {buf' : Buffer} {i : ℕ} (h : buf i = buf' i) : Agree buf buf' i := by
  rw [Agree, h]

theorem Agree.of_copyFrom {buf' : Buffer} {i : ℕ} (p n : ℕ)
    (h : copyFrom p n buf = copyFrom p n buf') (hlo : p ≤ i) (hhi : i < p + n) : Agree buf buf' i :=
  .of_eq (eq_of_copyFrom_eq h hlo hhi)

theorem Agree.of_reserved {buf' : Buffer} {i : ℕ} (h : definedBits i = 0) : Agree buf buf' i := by
  have hzero : ∀ b : UInt8, b &&& 0 = 0 := fun b ↦ UInt8.and_zero
  rw [Agree, h, hzero, hzero]

/-- The XDomain header up to the packet type. -/
theorem agree_xdomain {buf' : Buffer} (h : Parsed buf m) (h' : Written buf' m) {i : ℕ}
    (hi : i < 28) : Agree buf buf' i := by
  have hroute := route_words (getLe32 0 buf) (getLe32 4 buf)
  simp only [h.route] at hroute
  have hhigh : (getLe32 0 buf').toNat = (getLe32 0 buf).toNat % 2 ^ 31 :=
    (congrArg UInt32.toNat h'.routeHigh).trans hroute.1
  have hlow : getLe32 4 buf = getLe32 4 buf' := (h'.routeLow.trans hroute.2).symm
  obtain ⟨hbytes, hbyte3⟩ := byte_of_masked_word 0 hhigh
  obtain ⟨hbyte8, hbyte11⟩ := byte_of_lengthSn h.words (h'.words.trans (by rw [h.sequence]))
  obtain hi | rfl | ⟨hlo, hi⟩ | rfl | rfl | rfl | rfl | hlo :
      i < 3 ∨ i = 3 ∨ (4 ≤ i ∧ i < 8) ∨ i = 8 ∨ i = 9 ∨ i = 10 ∨ i = 11 ∨ 12 ≤ i := by omega
  · exact .of_eq (by simpa using hbytes i hi)
  · exact hbyte3
  · exact .of_copyFrom 4 4 (copyFrom_eq_of_getLe32 hlow) hlo hi
  · exact hbyte8
  · exact .of_reserved rfl
  · exact .of_reserved rfl
  · exact hbyte11
  · exact .of_copyFrom 12 16 (h.uuid.trans h'.uuid.symm) hlo hi

theorem agree_header {buf' : Buffer} (h : Parsed buf m) (h' : Written buf' m) {i : ℕ}
    (hlo : 32 ≤ i) (hi : i < 48) : Agree buf buf' i := by
  obtain hi | ⟨hlo, hi⟩ | ⟨hlo, hi⟩ | ⟨hlo, hi⟩ | rfl | rfl | hlo :
      i < 36 ∨ (36 ≤ i ∧ i < 38) ∨ (38 ≤ i ∧ i < 40) ∨ (40 ≤ i ∧ i < 42) ∨ i = 42 ∨ i = 43 ∨
        44 ≤ i := by omega
  · exact .of_copyFrom 32 4 (copyFrom_eq_of_getLe32 (h.magic.trans h'.magic.symm)) hlo hi
  · exact .of_copyFrom 36 2 (copyFrom_eq_of_getLe16 (h.version.trans h'.version.symm)) hlo hi
  · exact .of_copyFrom 38 2 (copyFrom_eq_of_getLe16 (h.op.trans h'.op.symm)) hlo hi
  · exact .of_copyFrom 40 2 (copyFrom_eq_of_getLe16 (h.size.trans h'.size.symm)) hlo hi
  · exact .of_reserved rfl
  · exact .of_reserved rfl
  · exact .of_copyFrom 44 4 (copyFrom_eq_of_getLe32 (h.seq.trans h'.seq.symm)) hlo hi

/-- The record of the message is the same in both buffers. -/
theorem agree_record {buf' : Buffer} (h : Parsed buf m) (h' : Written buf' m) {i : ℕ}
    (hlo : 48 ≤ i) (hi : i < 76) : Agree buf buf' i := by
  obtain hi | ⟨hlo, hi⟩ | ⟨hlo, hi⟩ | rfl | rfl | ⟨hlo, hi⟩ | ⟨hlo, hi⟩ | hlo :
      i < 50 ∨ (50 ≤ i ∧ i < 52) ∨ (52 ≤ i ∧ i < 54) ∨ i = 54 ∨ i = 55 ∨ (56 ≤ i ∧ i < 60) ∨
        (60 ≤ i ∧ i < 68) ∨ 68 ≤ i := by omega
  · exact .of_copyFrom 48 2 (copyFrom_eq_of_getLe16 (h.protoVersion.trans h'.protoVersion.symm))
      hlo hi
  · exact .of_copyFrom 50 2 (copyFrom_eq_of_getLe16 (h.transmitHopid.trans h'.transmitHopid.symm))
      hlo hi
  · exact .of_copyFrom 52 2 (copyFrom_eq_of_getLe16 (h.rxRingEntries.trans h'.rxRingEntries.symm))
      hlo hi
  · exact .of_reserved rfl
  · exact .of_reserved rfl
  · exact .of_copyFrom 56 4 (copyFrom_eq_of_getLe32 (h.capabilities.trans h'.capabilities.symm))
      hlo hi
  · exact .of_copyFrom 60 8 (copyFrom_eq_of_getLe64 (h.gidEui64.trans h'.gidEui64.symm)) hlo hi
  · exact .of_copyFrom 68 8 (copyFrom_eq_of_getLe64 (h.sessionCookie.trans h'.sessionCookie.symm))
      hlo hi

/-- A buffer that is accepted agrees with what is built from the parsed message on all bits that the
format defines, if and only if the high half of its packet type is zero. -/
theorem agree_iff {buf' : Buffer} (h : Parsed buf m) (h' : Written buf' m) :
    (∀ i < helloMsgSize, Agree buf buf' i) ↔ buf 30 = 0 ∧ buf 31 = 0 := by
  obtain ⟨hbyte28, hbyte29, hbyte30, hbyte31⟩ :=
    byte_of_type (code_lt m.info.op) h.type h'.type
  have hexact : ∀ i, 28 ≤ i → i < 32 → (Agree buf buf' i ↔ buf i = buf' i) := by
    intro i hlo hhi
    have hbits : definedBits i = 0xff := by
      simp [definedBits, show i ≠ 3 ∧ i ≠ 8 ∧ i ≠ 11 ∧ i ≠ 9 ∧ i ≠ 10 ∧ i ≠ 42 ∧ i ≠ 43 ∧
        i ≠ 54 ∧ i ≠ 55 by omega]
    rw [Agree, hbits, and_ff, and_ff]
  constructor
  · intro hagree
    have h30 := (hexact 30 (by decide) (by decide)).1 (hagree 30 (by decide))
    have h31 := (hexact 31 (by decide) (by decide)).1 (hagree 31 (by decide))
    exact ⟨h30.trans hbyte30, h31.trans hbyte31⟩
  · rintro ⟨h30, h31⟩ i hi
    unfold helloMsgSize at hi
    obtain hi | rfl | rfl | rfl | rfl | ⟨hlo, hi⟩ | hlo :
        i < 28 ∨ i = 28 ∨ i = 29 ∨ i = 30 ∨ i = 31 ∨ (32 ≤ i ∧ i < 48) ∨ 48 ≤ i := by omega
    · exact agree_xdomain h h' hi
    · exact .of_eq hbyte28
    · exact .of_eq hbyte29
    · exact .of_eq (h30.trans hbyte30.symm)
    · exact .of_eq (h31.trans hbyte31.symm)
    · exact agree_header h h' hlo hi
    · exact agree_record h h' hlo hi

end Hello

section Keepalives

variable {buf buf' : Buffer}

def keepaliveFields (k : WireKeepalive) : List Field :=
  [⟨0, leBytes 8 k.sessionCookie.toNat⟩, ⟨8, leBytes 8 k.sequence.toNat⟩,
   ⟨16, leBytes 8 k.ackCookie.toNat⟩, ⟨24, leBytes 8 k.ackSequence.toNat⟩]

theorem keepaliveFields_apart (k : WireKeepalive) :
    (keepaliveFields k).Pairwise Field.Apart := by
  apply Laid.apart (p := 0)
  simp [keepaliveFields, Laid]

theorem buildKeepalive_eq (buf : Buffer) (k : WireKeepalive) :
    wireBuildKeepalive buf k = writeFields (keepaliveFields k) buf := by
  simp only [wireBuildKeepalive, putLe64_eq]
  rfl

theorem parse_buildKeepalive (buf : Buffer) (k : WireKeepalive) :
    wireParseKeepalive (wireBuildKeepalive buf k) = k := by
  have hapart := keepaliveFields_apart k
  have get64 : ∀ {p : ℕ} {v : UInt64} (i : ℕ),
      (keepaliveFields k)[i]? = some ⟨p, leBytes 8 v.toNat⟩ →
      getLe64 p (writeFields (keepaliveFields k) buf) = v :=
    fun i hi ↦ getLe64_writeFields hapart (List.mem_of_getElem? hi)
  rw [buildKeepalive_eq, wireParseKeepalive, get64 0 rfl, get64 1 rfl, get64 2 rfl, get64 3 rfl]

/-- Building what was parsed gives the bytes that were parsed. -/
theorem build_parseKeepalive (buf buf' : Buffer) {i : ℕ} (hi : i < 32) :
    wireBuildKeepalive buf' (wireParseKeepalive buf) i = buf i := by
  have hparse : wireParseKeepalive (wireBuildKeepalive buf' (wireParseKeepalive buf)) =
      wireParseKeepalive buf := parse_buildKeepalive _ _
  simp only [wireParseKeepalive, WireKeepalive.mk.injEq] at hparse
  obtain ⟨h0, h8, h16, h24⟩ := hparse
  obtain hi | ⟨hlo, hi⟩ | ⟨hlo, hi⟩ | hlo :
      i < 8 ∨ (8 ≤ i ∧ i < 16) ∨ (16 ≤ i ∧ i < 24) ∨ 24 ≤ i := by omega
  · exact eq_of_copyFrom_eq (copyFrom_eq_of_getLe64 h0) (Nat.zero_le i) (by omega)
  · exact eq_of_copyFrom_eq (copyFrom_eq_of_getLe64 h8) hlo hi
  · exact eq_of_copyFrom_eq (copyFrom_eq_of_getLe64 h16) hlo hi
  · exact eq_of_copyFrom_eq (copyFrom_eq_of_getLe64 h24) hlo hi

/-- The record of a keepalive, and the message that the session code works with. -/
def Keepalive.wire (k : Keepalive) : WireKeepalive :=
  ⟨k.sessionCookie, UInt64.ofNat k.sequence, k.ackCookie, UInt64.ofNat k.ackSequence⟩

def WireKeepalive.message (k : WireKeepalive) : Keepalive :=
  ⟨k.sessionCookie, k.sequence.toNat, k.ackCookie, k.ackSequence.toNat⟩

/-- A keepalive arrives as it was sent, as long as its counters fit. -/
theorem keepalive_arrives (buf : Buffer) {k : Keepalive} (hseq : k.sequence < 2 ^ 64)
    (hack : k.ackSequence < 2 ^ 64) :
    (wireParseKeepalive (wireBuildKeepalive buf k.wire)).message = k := by
  rw [parse_buildKeepalive, WireKeepalive.message, Keepalive.wire,
    UInt64.toNat_ofNat_of_lt' hseq, UInt64.toNat_ofNat_of_lt' hack]

end Keepalives

/-! ## The codec as a whole -/

/-- Parsing undoes building, for control messages with a route below `2 ^ 63` and for keepalives.
Building undoes parsing for keepalives; for a control message that is accepted it does so on all
bits that the format defines if and only if the high half of the packet type is zero. -/
theorem codec_inverse_iff (buf buf' : Buffer) (size : ℕ) (m : WireMsg) (k : WireKeepalive)
    (hsize : helloMsgSize ≤ size) :
    (m.info.route < 0x8000000000000000 → m.info.xdomainSequence < 4 →
      wireParseHello (helloBuffer buf size m) size = .ok m) ∧
    (wireParseHello buf size = .ok m →
      ((∀ i < helloMsgSize, Agree buf (helloBuffer buf' size m) i) ↔ buf 30 = 0 ∧ buf 31 = 0)) ∧
    wireParseKeepalive (wireBuildKeepalive buf k) = k ∧
    ∀ i < 32, wireBuildKeepalive buf' (wireParseKeepalive buf) i = buf i := by
  refine ⟨?_, ?_, parse_buildKeepalive buf k, fun i hi ↦ build_parseKeepalive buf buf' hi⟩
  · exact fun hroute hx ↦ parse_of_written (written_helloBuffer hsize) hsize hroute hx
  · exact fun hparse ↦ agree_iff (parsed_of_ok hparse) (written_helloBuffer hsize)

def oddHello : Buffer :=
  copyTo 31 [0x80] (helloBuffer (fun _ ↦ 0) 76 ⟨{}, ⟨.hello, 1, 0, 1⟩⟩)

/-- The message is accepted although its packet type is not that of a HELLO. -/
theorem odd_hello_accepted : wireParseHello oddHello 76 = .ok ⟨{}, ⟨.hello, 1, 0, 1⟩⟩ ∧
    getLe32 28 oddHello = 0x80000001 ∧ ¬ ∀ i < helloMsgSize,
      Agree oddHello (helloBuffer (fun _ ↦ 0) 76 ⟨{}, ⟨.hello, 1, 0, 1⟩⟩) i := by
  refine ⟨by decide +kernel, by decide +kernel, fun h ↦ ?_⟩
  exact absurd (h 31 (by decide)) (by unfold Agree; decide +kernel)

def fullHello : WireMsg := ⟨⟨2, 9, 256, 5, 0x1122334455667788, 77⟩, ⟨.hello, 7, 3, 5⟩⟩

theorem codec_inverse_iff_sample :
    wireParseHello (helloBuffer (fun _ ↦ 0) 76 fullHello) 76 = .ok fullHello ∧
    (∀ i < helloMsgSize, Agree (helloBuffer (fun _ ↦ 0) 76 fullHello)
      (helloBuffer (fun _ ↦ 1) 76 fullHello) i) ∧
    ¬ ∀ i < helloMsgSize, Agree (copyTo 31 [0x80] (helloBuffer (fun _ ↦ 0) 76 fullHello))
      (helloBuffer (fun _ ↦ 1) 76 fullHello) i := by
  have hiff (buf : Buffer) :=
    codec_inverse_iff buf (fun _ ↦ 1) 76 fullHello ⟨0, 0, 0, 0⟩ (by decide)
  have hparse := (codec_inverse_iff (fun _ ↦ 0) (fun _ ↦ 0) 76 fullHello ⟨0, 0, 0, 0⟩ (by decide)).1
    (by decide) (by decide)
  refine ⟨hparse, ((hiff _).2.1 hparse).2 (by decide +kernel), fun hagree ↦ ?_⟩
  have hodd : wireParseHello (copyTo 31 [0x80] (helloBuffer (fun _ ↦ 0) 76 fullHello)) 76 =
    .ok fullHello := by decide +kernel
  exact absurd (((hiff _).2.1 hodd).1 hagree).2 (by decide +kernel)

end ThunderboltStack.Tbframe
