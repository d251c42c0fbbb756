import ThunderboltStack.Lib.Transition
import Mathlib.Algebra.Order.Ring.Nat

/-!
# DMA rings of the NHI

One ring of `nhi.c`: `ring_write_descriptors`, `ring_work`, `__tb_ring_enqueue`, `tb_ring_poll`,
`tb_ring_start` and `tb_ring_stop`, together with the device that completes descriptors.  The two
loops run one round at a time under `ring->lock`, so the device may complete a descriptor between
any two rounds.  The log follows the frames; the code neither has nor reads it.
-/

namespace ThunderboltStack.Nhi

open ThunderboltStack.Lib

/-! ## Descriptors -/

/-- `RING_DESC_COMPLETED`, `RING_DESC_POSTED` and `RING_DESC_INTERRUPT`. -/
def descCompleted : ℕ := 0x2

@[inherit_doc descCompleted]
def descPosted : ℕ := 0x4

@[inherit_doc descCompleted]
def descInterrupt : ℕ := 0x8

def ringDescriptorWord (length eof sof flags : ℕ) : ℕ :=
  length % 2 ^ 12 + eof % 2 ^ 4 * 2 ^ 12 + sof % 2 ^ 4 * 2 ^ 16 + flags % 2 ^ 12 * 2 ^ 20

def ringDescriptorLength (word : ℕ) : ℕ := word % 2 ^ 12

def ringDescriptorEof (word : ℕ) : ℕ := word / 2 ^ 12 % 2 ^ 4

def ringDescriptorSof (word : ℕ) : ℕ := word / 2 ^ 16 % 2 ^ 4

def ringDescriptorFlags (word : ℕ) : ℕ := word / 2 ^ 20 % 2 ^ 12

/-- The test of the completed flag in `ring_work` and `tb_ring_poll`. -/
def isCompleted (word : ℕ) : Bool := ringDescriptorFlags word &&& descCompleted != 0

/-- A descriptor is posted without the completed flag. -/
theorem isCompleted_posted (length eof sof : ℕ) :
    isCompleted (ringDescriptorWord length eof sof (descPosted ||| descInterrupt)) = false := by
  have hflags :
      ringDescriptorFlags (ringDescriptorWord length eof sof (descPosted ||| descInterrupt)) =
        (descPosted ||| descInterrupt) % 2 ^ 12 := by
    unfold ringDescriptorFlags ringDescriptorWord
    omega
  rw [isCompleted, hflags]
  decide

structure Desc where
  phys : ℕ := 0
  attributes : ℕ := 0
  time : ℕ := 0
  deriving DecidableEq

structure Frame where
  bufferPhy : ℕ
  size : ℕ := 0
  flags : ℕ := 0
  eof : ℕ := 0
  sof : ℕ := 0
  deriving DecidableEq

/-- What the receive side stores in a frame from the word of its descriptor. -/
def Frame.receive (f : Frame) (word : ℕ) : Frame :=
  { f with
    size := ringDescriptorLength word
    eof := ringDescriptorEof word
    sof := ringDescriptorSof word
    flags := ringDescriptorFlags word }

/-- A frame on one of the lists of the ring.  Beside the frame: how many stops there had been when
it was accepted, the descriptor written for it, and the word the device completed this one with. -/
structure Entry where
  frame : Frame
  epoch : ℕ
  slot : Option ℕ := none
  report : Option ℕ := none
  deriving DecidableEq

/-- A frame that left the lists: as the owner gets it back, and the number of stops so far. -/
structure Handed where
  entry : Entry
  frame : Frame
  canceled : Bool
  stops : ℕ
  deriving DecidableEq

/-- Where the holder of `ring->lock` is. -/
inductive Holder
  | free
  /-- In the loop of `ring_work`, with its list of done frames. -/
  | collect (done : List Handed)
  /-- In `ring_write_descriptors`, of an enqueue or of `ring_work` with its done frames. -/
  | write (done : Option (List Handed))
  deriving DecidableEq

/-- The frames an execution of `ring_work` inside the lock has taken. -/
def Holder.done : Holder → List Handed
  | .free => []
  | .collect done => done
  | .write done => done.getD []

structure Log where
  /-- Frames whose enqueue returned 0. -/
  accepted : List Frame := []
  /-- Frames in the order in which they left the lists. -/
  left : List Handed := []
  /-- Frames in the order in which the owners got them back. -/
  back : List Handed := []
  /-- Slots written while a frame in flight owned them. -/
  overwritten : List ℕ := []
  /-- The first entry of an empty list was taken. -/
  wild : Bool := false
  /-- Stops of a running ring. -/
  stops : ℕ := 0
  deriving DecidableEq

/-- `struct tb_ring` and the device behind it. -/
structure State where
  head : ℕ := 0
  tail : ℕ := 0
  running : Bool := false
  quarantined : Bool := false
  queue : List Entry := []
  inFlight : List Entry := []
  descriptors : ℕ → Desc := fun _ ↦ {}
  lock : Holder := .free
  /-- The callbacks an execution of `ring_work` still has to invoke. -/
  worker : Option (List Handed) := none
  /-- Calls of `tb_ring_stop` whose work has not run yet, and those whose work is running. -/
  waiting : ℕ := 0
  flushing : ℕ := 0
  /-- `nhi->going_away`. -/
  goingAway : Bool := false
  /-- The device: whether it runs the ring, the next descriptor it completes, and the index in the
  doorbell register. -/
  enabled : Bool := false
  hw : ℕ := 0
  doorbell : ℕ := 0
  log : Log := {}

/-- The frames that left the lists and are not back yet. -/
def State.pending (s : State) : List Handed :=
  s.lock.done ++ s.worker.getD []

/-- The steps of the ring, its users and the device. -/
inductive Op
  | enqueue (frame : Frame)
  | write
  | work
  | collect
  | callback
  | poll
  | stop
  | start (index readback : ℕ)
  | quarantine
  | goAway
  | complete (word : ℕ)
  deriving DecidableEq

section Steps

variable (isTx : Bool) (size : ℕ)

namespace State

variable (s : State)

def ringFull : Bool := (s.head + 1) % size == s.tail

def ringEmpty : Bool := s.head == s.tail

/-- One round of `ring_write_descriptors`: the first frame of the queue gets the descriptor at the
head, a `u16`, and the device sees the next head. -/
def writeDescriptor (e : Entry) (rest : List Entry) : State :=
  let slot := s.head % 2 ^ 16
  let head := (s.head + 1) % size
  let posted := ringDescriptorWord (if isTx then e.frame.size else 0)
    (if isTx then e.frame.eof else 0) (if isTx then e.frame.sof else 0)
    (descPosted ||| descInterrupt)
  { s with
    queue := rest
    inFlight := s.inFlight ++ [{ e with slot := some slot, report := none }]
    descriptors := fun i ↦ if i = slot then ⟨e.frame.bufferPhy, posted, 0⟩ else s.descriptors i
    head
    doorbell := head % 2 ^ 16
    log := { s.log with
      overwritten := if some slot ∈ s.inFlight.map Entry.slot then slot :: s.log.overwritten
        else s.log.overwritten } }

/-- A frame as it leaves after its descriptor was completed: a received one gets the metadata. -/
def completedFrame (e : Entry) : Handed :=
  { entry := e
    frame := if isTx then e.frame else e.frame.receive (s.descriptors s.tail).attributes
    canceled := false
    stops := s.log.stops }

def advanceTail (e : Entry) (rest : List Entry) : State :=
  { s with
    inFlight := rest
    tail := (s.tail + 1) % size
    log := { s.log with left := s.log.left ++ [s.completedFrame isTx e] } }

/-- The first frame in flight leaves, if the descriptor at the tail is completed: a round of the
loop of `ring_work`, and `tb_ring_poll` past its checks. -/
def takeCompleted : Option Handed × State :=
  if s.ringEmpty || !isCompleted (s.descriptors s.tail).attributes then (none, s)
  else
    match s.inFlight with
    | [] => (none, { s with log := { s.log with wild := true } })
    | e :: rest => (some (s.completedFrame isTx e), s.advanceTail isTx size e rest)

/-- `ring_work` of a ring that does not run: all frames leave, in flight ones first. -/
def cancelAll : List Handed × State :=
  let done := (s.inFlight ++ s.queue).map fun e ↦ ⟨e, e.frame, true, s.log.stops⟩
  (done, { s with
    inFlight := []
    queue := []
    log := { s.log with left := s.log.left ++ done } })

/-- `ring_prepare_start`: the index the device retained, a `u16`. -/
def anchor (index : ℕ) : ℕ := if isTx then index % 2 ^ 16 else index / 2 ^ 16 % 2 ^ 16

/-- `ring_program_start`, with the two words read from the index register: whether the ring may
run.  The indices stay set if the register does not follow. -/
def programStart (index readback : ℕ) : Bool × State :=
  let anchor := anchor isTx index
  if size ≤ anchor then (false, s)
  else
    let s := { s with head := anchor, tail := anchor }
    if readback / 2 ^ 16 % 2 ^ 16 ≠ anchor ∨ readback % 2 ^ 16 ≠ anchor then (false, s)
    else (true, { s with enabled := true, hw := anchor, doorbell := anchor })

/-- The section of `tb_ring_start`. -/
def ringStart (index readback : ℕ) : State :=
  if s.quarantined || s.goingAway || s.running then s
  else
    match s.programStart isTx size index readback with
    | (true, s) => { s with running := true }
    | (false, s) => { s with enabled := false, doorbell := 0 }

/-- The section of `tb_ring_stop`.  The call then waits for an execution of `ring_work`. -/
def ringStop : State :=
  let s := { s with waiting := s.waiting + 1 }
  if !s.running then s
  else
    { s with
      enabled := s.goingAway && s.enabled
      doorbell := if s.goingAway then s.doorbell else 0
      head := 0
      tail := 0
      running := false
      log := { s.log with stops := s.log.stops + 1 } }

def hwComplete (word : ℕ) : State :=
  { s with
    descriptors := fun i ↦
      if i = s.hw then { s.descriptors i with attributes := word } else s.descriptors i
    inFlight := s.inFlight.map fun e ↦
      if e.slot = some s.hw then { e with report := some word } else e
    hw := (s.hw + 1) % size }

/-- The section of `__tb_ring_enqueue` up to `ring_write_descriptors`, or `-ESHUTDOWN`. -/
def ringEnqueue (frame : Frame) : State :=
  if s.running && !s.quarantined then
    { s with
      queue := s.queue ++ [{ frame, epoch := s.log.stops }]
      lock := .write none
      log := { s.log with accepted := s.log.accepted ++ [frame] } }
  else s

/-- A round of `ring_write_descriptors`, or its end and with it that of the section. -/
def writeRound (done : Option (List Handed)) : State :=
  match s.queue with
  | e :: rest =>
    if s.ringFull size then { s with lock := .free, worker := done.or s.worker }
    else s.writeDescriptor isTx size e rest
  | [] => { s with lock := .free, worker := done.or s.worker }

/-- `ring_work` takes the lock; the calls of `tb_ring_stop` that wait for it now wait for its end.
-/
def workBegin : State :=
  let s := { s with waiting := 0, flushing := s.flushing + s.waiting }
  if s.running then { s with lock := .collect [] }
  else
    let (done, s) := s.cancelAll
    { s with worker := some done }

/-- A round of the loop of `ring_work`, or its end. -/
def collectRound (done : List Handed) : State :=
  match s.takeCompleted isTx size with
  | (some handed, s) => { s with lock := .collect (done ++ [handed]) }
  | (none, s) => { s with lock := .write (some done) }

/-- The next callback of `ring_work`, or its end. -/
def invokeCallback : List Handed → State
  | handed :: rest =>
    { s with worker := some rest, log := { s.log with back := s.log.back ++ [handed] } }
  | [] => { s with worker := none, flushing := 0 }

def ringPoll : State :=
  if !s.running || (!s.ringEmpty && s.goingAway) then s
  else
    match s.takeCompleted isTx size with
    | (some handed, s) => { s with log := { s.log with back := s.log.back ++ [handed] } }
    | (none, s) => s

/-- One step.  `ring_work` is a work item, so a second execution waits for the end of the first;
starts and stops do not overlap. -/
def step : Op → Option State
  | .enqueue frame => if s.lock = .free then some (s.ringEnqueue frame) else none
  | .write =>
    match s.lock with
    | .write done => some (s.writeRound isTx size done)
    | _ => none
  | .work => if s.lock = .free ∧ s.worker = none then some s.workBegin else none
  | .collect =>
    match s.lock with
    | .collect done => some (s.collectRound isTx size done)
    | _ => none
  | .callback => s.worker.map s.invokeCallback
  | .poll => if s.lock = .free then some (s.ringPoll isTx size) else none
  | .stop => if s.lock = .free then some s.ringStop else none
  | .start index readback =>
    if s.lock = .free ∧ s.waiting = 0 ∧ s.flushing = 0 then
      some (s.ringStart isTx size index readback)
    else none
  | .quarantine => if s.lock = .free then some { s with quarantined := true } else none
  | .goAway => some { s with goingAway := true }
  | .complete word =>
    if s.enabled ∧ s.hw ≠ s.doorbell ∧ isCompleted word then some (s.hwComplete size word) else none

end State

/-- A ring and its users, from its allocation on. -/
def ringSystem : System State Op where
  init s := s = {}
  step s op s' := s.step isTx size op = some s'

def run (ops : List Op) : Option State :=
  ops.foldlM (fun s op ↦ s.step isTx size op) {}

end Steps

end ThunderboltStack.Nhi
