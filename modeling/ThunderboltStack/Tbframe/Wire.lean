import Mathlib.Data.Nat.Notation

/-!
# tbframe control and keepalive messages

The fields of `struct tbframe_wire_hello`, `struct tbframe_wire_info` and
`struct tbframe_wire_keepalive` as the session code reads them after parsing, and the pure
comparisons the session code makes on them.  Sequence counters of 64 bits are natural numbers.
-/

namespace ThunderboltStack.Tbframe

def wireVersion : UInt16 := 3

def capE2e : UInt32 := 1

def capKeepalive : UInt32 := 2

def capKeepaliveAck : UInt32 := 4

/-- A capability word has a bit of `cap`. -/
def hasCap (caps cap : UInt32) : Bool :=
  caps &&& cap != 0

/-- `TBFRAME_WIRE_KEEPALIVE_SIZE` when acknowledgements were negotiated, and otherwise
`TBFRAME_WIRE_KEEPALIVE_LEGACY_SIZE`. -/
def keepaliveLen (directional : Bool) : ℕ :=
  if directional then 32 else 8

def maxFrame : ℕ := 4096

inductive WireOp
  | hello
  | helloAck
  | ready
  | readyAck
  | bye
  | byeAck
  deriving DecidableEq

structure WireHello where
  protoVersion : UInt16 := 0
  transmitHopid : UInt16 := 0
  rxRingEntries : UInt16 := 0
  capabilities : UInt32 := 0
  gidEui64 : UInt64 := 0
  sessionCookie : UInt64 := 0
  deriving DecidableEq

structure WireInfo where
  op : WireOp
  seq : UInt32
  xdomainSequence : UInt32
  route : UInt64
  deriving DecidableEq

structure WireMsg where
  hello : WireHello
  info : WireInfo
  deriving DecidableEq

/-- `struct tbframe_wire_keepalive`, the first 32 bytes of a keepalive frame. -/
structure Keepalive where
  sessionCookie : UInt64 := 0
  sequence : ℕ := 0
  ackCookie : UInt64 := 0
  ackSequence : ℕ := 0
  deriving DecidableEq

/-- The frame types of the data path (`TBFRAME_PDF_DATA`, `TBFRAME_PDF_KEEPALIVE`); any other
nibble a descriptor may report is `other`. -/
inductive Pdf
  | data
  | keepalive
  | other
  deriving DecidableEq

/-- `clamp_t(u16, entries, 1, 4096)`. -/
def clampEntries (entries : UInt16) : UInt16 :=
  if entries < 1 then 1 else if 4096 < entries then 4096 else entries

def helloMatches (a b : WireHello) : Bool :=
  a.protoVersion == b.protoVersion && a.transmitHopid == b.transmitHopid &&
    clampEntries a.rxRingEntries == clampEntries b.rxRingEntries &&
    a.capabilities == b.capabilities && a.gidEui64 == b.gidEui64 &&
    a.sessionCookie == b.sessionCookie

/-- `tbframe_new_session_cookie`, with the value drawn from `get_random_u64` as an argument. -/
def newSessionCookie (previous random : UInt64) : UInt64 :=
  let cookie := if random = 0 ∨ random = previous then previous ^^^ 0x9e3779b97f4a7c15 else random
  if cookie = 0 then 1 else cookie

end ThunderboltStack.Tbframe
