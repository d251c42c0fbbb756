import ThunderboltStack.Lib.Circular
import ThunderboltStack.Nhi.Ring

/-!
# The books of a ring

The frames in flight are a window of the descriptors, in the order of the list.  Beside this, the
frames that left the lists, those in flight and those in the queue are the accepted ones in order,
and a stopped ring holds frames only until the work of the stop has run.
-/

namespace ThunderboltStack.Nhi

open ThunderboltStack.Lib

variable {isTx : Bool} {size : ℕ} {s s' : State} {e : Entry} {rest : List Entry}

/-! ## Frames in flight -/

/-- The descriptor of a frame holds its buffer, and is completed with the word of the report. -/
def Entry.Posted (descriptors : ℕ → Desc) (e : Entry) : Prop :=
  ∃ slot, e.slot = some slot ∧ (descriptors slot).phys = e.frame.bufferPhy ∧
    e.report = if isCompleted (descriptors slot).attributes then
      some (descriptors slot).attributes else none

theorem Entry.Posted.congr {d d' : ℕ → Desc} (h : e.Posted d)
    (heq : ∀ slot, e.slot = some slot → d' slot = d slot) : e.Posted d' := by
  obtain ⟨slot, hslot, hphys, hreport⟩ := h
  refine ⟨slot, hslot, ?_, ?_⟩
  · rw [heq slot hslot, hphys]
  · rw [heq slot hslot, hreport]

/-- The frames in flight of a running ring are the window from the tail to the head. -/
structure Placed (size : ℕ) (s : State) : Prop where
  tail_lt : s.tail < size
  head_eq : s.running → s.head = (s.tail + s.inFlight.length) % size
  room : s.running → s.inFlight.length < size
  slots : s.running → s.inFlight.map Entry.slot = (window size s.tail s.inFlight.length).map some
  posted : s.running → ∀ e ∈ s.inFlight, e.Posted s.descriptors
  clean : s.log.overwritten = []
  tame : s.log.wild = false

/-- What `Placed` reads of a state. -/
def State.core (s : State) : ℕ × ℕ × Bool × List Entry × (ℕ → Desc) × List ℕ × Bool :=
  (s.head, s.tail, s.running, s.inFlight, s.descriptors, s.log.overwritten, s.log.wild)

namespace Placed

theorem congr (h : Placed size s) (hcore : s'.core = s.core) : Placed size s' := by
  simp only [State.core, Prod.mk.injEq] at hcore
  obtain ⟨hhead, htail, hrun, hin, hdesc, hover, hwild⟩ := hcore
  refine ⟨?_, ?_, ?_, ?_, ?_, ?_, ?_⟩
  · exact htail ▸ h.tail_lt
  · rw [hrun, hhead, htail, hin]
    exact h.head_eq
  · rw [hrun, hin]
    exact h.room
  · rw [hrun, hin, htail]
    exact h.slots
  · rw [hrun, hin, hdesc]
    exact h.posted
  · exact hover ▸ h.clean
  · exact hwild ▸ h.tame

/-- A ring that does not run has nothing to place. -/
theorem of_stopped (htail : s.tail < size) (hrun : s.running = false)
    (hclean : s.log.overwritten = []) (htame : s.log.wild = false) : Placed size s := by
  constructor
  case clean => exact hclean
  case tame => exact htame
  case tail_lt => exact htail
  all_goals
    intro hrun'
    rw [hrun] at hrun'
    contradiction

theorem ringEmpty_iff (h : Placed size s) (hrun : s.running) :
    s.ringEmpty = true ↔ s.inFlight = [] := by
  rw [State.ringEmpty, beq_iff_eq, h.head_eq hrun, end_eq_start_iff h.tail_lt (h.room hrun),
    List.length_eq_zero_iff]

theorem ringFull_iff (h : Placed size s) (hrun : s.running) :
    s.ringFull size = true ↔ s.inFlight.length + 1 = size := by
  rw [State.ringFull, beq_iff_eq, h.head_eq hrun, next_end_eq_start_iff h.tail_lt (h.room hrun)]

/-- The descriptor at the head is not that of a frame in flight. -/
theorem head_free (h : Placed size s) (hrun : s.running) :
    some s.head ∉ s.inFlight.map Entry.slot := by
  rw [h.slots hrun, h.head_eq hrun]
  intro hmem
  obtain ⟨slot, hslot, heq⟩ := List.mem_map.1 hmem
  exact slot_notMem_window (h.room hrun) (Option.some.inj heq ▸ hslot)

/-- The descriptor at the tail is that of the first frame in flight. -/
theorem first_slot (h : Placed size s) (hrun : s.running) (hin : s.inFlight = e :: rest) :
    e.slot = some s.tail ∧
      rest.map Entry.slot = (window size ((s.tail + 1) % size) rest.length).map some := by
  have hslots := h.slots hrun
  rw [hin, List.length_cons, window_succ' h.tail_lt, List.map_cons, List.map_cons] at hslots
  exact List.cons.inj hslots

/-- Either the first frame in flight is not done, or it leaves with the word of its report. -/
theorem takeCompleted_cases (h : Placed size s) (hrun : s.running) (isTx : Bool) :
    s.takeCompleted isTx size = (none, s) ∨
      ∃ e rest, s.inFlight = e :: rest ∧
        s.takeCompleted isTx size =
          (some (s.completedFrame isTx e), s.advanceTail isTx size e rest) ∧
        isCompleted (s.descriptors s.tail).attributes ∧
        e.report = some (s.descriptors s.tail).attributes := by
  unfold State.takeCompleted
  by_cases hcond : (s.ringEmpty || !isCompleted (s.descriptors s.tail).attributes) = true
  · rw [if_pos hcond]
    exact Or.inl rfl
  · rw [if_neg hcond]
    simp only [Bool.or_eq_true, Bool.not_eq_true', not_or, Bool.not_eq_false] at hcond
    cases hin : s.inFlight with
    | nil => exact absurd ((h.ringEmpty_iff hrun).2 hin) hcond.1
    | cons e rest =>
      right
      refine ⟨e, rest, rfl, rfl, hcond.2, ?_⟩
      obtain ⟨slot, hslot, -, hreport⟩ := h.posted hrun e (by simp [hin])
      have htail : slot = s.tail := by
        rw [(h.first_slot hrun hin).1] at hslot
        exact (Option.some.inj hslot).symm
      rw [hreport, htail, if_pos hcond.2]

theorem advanceTail (h : Placed size s) (hrun : s.running) (hin : s.inFlight = e :: rest)
    (isTx : Bool) : Placed size (s.advanceTail isTx size e rest) where
  tail_lt := Nat.mod_lt _ (Nat.zero_lt_of_lt h.tail_lt)
  head_eq _ := by
    simp only [State.advanceTail, h.head_eq hrun, hin, List.length_cons, Nat.mod_add_mod]
    congr 1
    omega
  room _ := by
    have hroom := h.room hrun
    rw [hin, List.length_cons] at hroom
    exact Nat.lt_of_succ_lt hroom
  slots _ := (h.first_slot hrun hin).2
  posted _ e' he' := h.posted hrun e' (by simp [hin, show e' ∈ rest from he'])
  clean := h.clean
  tame := h.tame

/-- A write to a running ring with room keeps the frames in their slots. -/
theorem writeDescriptor (h : Placed size s) (hsize : size ≤ 2 ^ 16) (hrun : s.running)
    (hfull : s.ringFull size = false) : Placed size (s.writeDescriptor isTx size e rest) := by
  have hpos : 0 < size := Nat.zero_lt_of_lt h.tail_lt
  have hhead : s.head % 2 ^ 16 = s.head := by
    have hlt : s.head < size := h.head_eq hrun ▸ Nat.mod_lt _ hpos
    exact Nat.mod_eq_of_lt (by omega)
  have hroom : s.inFlight.length + 1 < size := by
    have hne : ¬ s.inFlight.length + 1 = size := by
      rw [← h.ringFull_iff hrun, hfull]
      decide
    have hlt := h.room hrun
    omega
  constructor
  case tail_lt => exact h.tail_lt
  case head_eq =>
    intro _
    simp only [State.writeDescriptor, List.length_append, List.length_singleton]
    rw [h.head_eq hrun, Nat.mod_add_mod, Nat.add_assoc]
  case room =>
    intro _
    simpa [State.writeDescriptor] using hroom
  case slots =>
    intro _
    simp only [State.writeDescriptor, List.map_append, List.map_cons, List.map_nil,
      List.length_append, List.length_singleton, window_succ, h.slots hrun, hhead]
    rw [← h.head_eq hrun]
  case posted =>
    intro _ e' he'
    simp only [State.writeDescriptor, hhead] at he' ⊢
    rcases List.mem_append.1 he' with hold | hnew
    · -- the slots of the older frames are not the one at the head
      apply (h.posted hrun e' hold).congr
      intro slot hslot
      apply if_neg
      rintro rfl
      exact h.head_free hrun (hslot ▸ List.mem_map_of_mem hold)
    · obtain rfl := List.mem_singleton.1 hnew
      exact ⟨s.head, rfl, by simp, by simp [isCompleted_posted]⟩
  case clean =>
    simp only [State.writeDescriptor, hhead]
    rw [if_neg (h.head_free hrun), h.clean]
  case tame => exact h.tame

/-- The device writes the report of the frame whose descriptor it completes. -/
theorem hwComplete (h : Placed size s) {word : ℕ} (hword : isCompleted word) :
    Placed size (s.hwComplete size word) := by
  have hslot (e : Entry) :
      (if e.slot = some s.hw then { e with report := some word } else e).slot = e.slot := by
    split <;> rfl
  constructor
  case tail_lt => exact h.tail_lt
  case head_eq => simpa [State.hwComplete] using h.head_eq
  case room => simpa [State.hwComplete] using h.room
  case slots =>
    intro hrun
    have hmap : (s.hwComplete size word).inFlight.map Entry.slot = s.inFlight.map Entry.slot := by
      simp only [State.hwComplete, List.map_map]
      exact List.map_congr_left fun e _ ↦ hslot e
    rw [hmap, h.slots hrun]
    simp [State.hwComplete]
  case posted =>
    intro hrun e' he'
    obtain ⟨e, he, rfl⟩ := List.mem_map.1 he'
    obtain ⟨slot, hs, hphys, hreport⟩ := h.posted hrun e he
    by_cases hhw : slot = s.hw
    · refine ⟨slot, (hslot e).trans hs, ?_, ?_⟩
      · simp [State.hwComplete, hs, hhw, ← hphys]
      · simp [State.hwComplete, hs, hhw, hword]
    · have hne : e.slot ≠ some s.hw := by
        rw [hs]
        simpa using hhw
      rw [if_neg hne]
      apply (h.posted hrun e he).congr
      intro slot' hslot'
      rw [hs] at hslot'
      simp [State.hwComplete, ← Option.some.inj hslot', hhw]
  case clean => exact h.clean
  case tame => exact h.tame

end Placed

/-- `ring_work` holds the lock. -/
def Holder.isWork : Holder → Bool
  | .free => false
  | .collect _ => true
  | .write done => done.isSome

/-- Only a running ring is worked on, and a stopped one holds frames no longer than its stop. -/
structure Fenced (s : State) : Prop where
  held : s.lock ≠ .free → s.running
  alone : s.lock.isWork → s.worker = none
  drained : s.running = false → s.waiting = 0 → s.inFlight = [] ∧ s.queue = []
  settled : s.running = false → s.waiting = 0 → s.flushing = 0 → s.worker.getD [] = []

/-- A running ring may hold frames. -/
theorem Fenced.of_running (hrun : s.running = true) (halone : s.lock.isWork → s.worker = none) :
    Fenced s := by
  constructor
  case held => exact fun _ ↦ hrun
  case alone => exact halone
  all_goals
    intro hstop
    rw [hrun] at hstop
    contradiction

/-- A canceled frame comes back as it was, after a stop since it was accepted.  Any other comes back
before one, and a received one with the metadata the device put into its descriptor. -/
def Handed.Genuine (isTx : Bool) (h : Handed) : Prop :=
  if h.canceled then h.frame = h.entry.frame ∧ h.entry.epoch < h.stops
  else h.entry.epoch = h.stops ∧ ∃ word, h.entry.report = some word ∧ isCompleted word ∧
    h.frame = if isTx then h.entry.frame else h.entry.frame.receive word

structure Booked (isTx : Bool) (s : State) : Prop where
  order : s.log.left.map (·.entry.frame) ++ (s.inFlight ++ s.queue).map (·.frame) = s.log.accepted
  handed : (s.log.back ++ s.pending).Perm s.log.left
  genuine : ∀ h ∈ s.log.left, h.Genuine isTx
  epochs : ∀ e ∈ s.inFlight ++ s.queue,
    if s.running then e.epoch = s.log.stops else e.epoch < s.log.stops

namespace Booked

theorem advanceTail (h : Booked isTx s) (hrun : s.running) (hin : s.inFlight = e :: rest)
    (hdone : isCompleted (s.descriptors s.tail).attributes)
    (hreport : e.report = some (s.descriptors s.tail).attributes) (size : ℕ) :
    let s' := s.advanceTail isTx size e rest
    s'.log.left.map (·.entry.frame) ++ (s'.inFlight ++ s'.queue).map (·.frame) = s'.log.accepted ∧
      (∀ h ∈ s'.log.left, h.Genuine isTx) ∧
      ∀ e ∈ s'.inFlight ++ s'.queue,
        if s'.running then e.epoch = s'.log.stops else e.epoch < s'.log.stops := by
  refine ⟨?_, ?_, ?_⟩
  · have horder := h.order
    simp only [hin, List.cons_append, List.map_cons] at horder
    simpa [State.advanceTail, State.completedFrame] using horder
  · intro handed hmem
    rcases List.mem_append.1 hmem with hold | hnew
    · exact h.genuine handed hold
    · obtain rfl := List.mem_singleton.1 hnew
      have hepoch := h.epochs e (by simp [hin])
      rw [if_pos hrun] at hepoch
      exact ⟨hepoch, _, hreport, hdone, rfl⟩
  · intro e' he'
    exact h.epochs e' (by simpa [hin, State.advanceTail] using Or.inr (List.mem_append.1 he'))

end Booked

structure Kept (isTx : Bool) (size : ℕ) (s : State) : Prop where
  placed : Placed size s
  fenced : Fenced s
  booked : Booked isTx s

namespace Kept

theorem init (hsize : 0 < size) : Kept isTx size {} where
  placed := .of_stopped hsize rfl rfl rfl
  fenced := ⟨fun h ↦ absurd rfl h, fun _ ↦ rfl, fun _ _ ↦ ⟨rfl, rfl⟩, fun _ _ _ ↦ rfl⟩
  booked := ⟨rfl, .refl _, by simp, by simp⟩

theorem ringEnqueue (h : Kept isTx size s) (hlock : s.lock = .free) (frame : Frame) :
    Kept isTx size (s.ringEnqueue frame) := by
  unfold State.ringEnqueue
  split
  · next hcond =>
    have hrun : s.running = true := by simp_all
    refine ⟨h.placed.congr rfl, .of_running hrun ?_, ⟨?_, ?_, h.booked.genuine, ?_⟩⟩
    · simp [Holder.isWork]
    · rw [← List.append_assoc, List.map_append, ← List.append_assoc, h.booked.order]
      rfl
    · simpa [State.pending, hlock, Holder.done] using h.booked.handed
    · intro e he
      rw [← List.append_assoc] at he
      rcases List.mem_append.1 he with hold | hnew
      · exact h.booked.epochs e hold
      · obtain rfl := List.mem_singleton.1 hnew
        simp [hrun]
  · exact h

/-- The end of a section that ran `ring_write_descriptors`. -/
theorem unlock (h : Kept isTx size s) {done : Option (List Handed)} (hlock : s.lock = .write done) :
    Kept isTx size { s with lock := .free, worker := done.or s.worker } := by
  have hrun : s.running = true := h.fenced.held (by simp [hlock])
  refine ⟨h.placed.congr rfl, .of_running hrun ?_,
    ⟨h.booked.order, ?_, h.booked.genuine, h.booked.epochs⟩⟩
  · simp [Holder.isWork]
  · have hhanded := h.booked.handed
    cases done with
    | none => simpa [State.pending, hlock, Holder.done] using hhanded
    | some done =>
      have hworker : s.worker = none := h.fenced.alone (by simp [hlock, Holder.isWork])
      simpa [State.pending, hlock, Holder.done, hworker] using hhanded

theorem writeRound (h : Kept isTx size s) (hsize : size ≤ 2 ^ 16) {done : Option (List Handed)}
    (hlock : s.lock = .write done) : Kept isTx size (s.writeRound isTx size done) := by
  have hrun : s.running = true := h.fenced.held (by simp [hlock])
  unfold State.writeRound
  split
  · next e rest hqueue =>
    split
    · exact h.unlock hlock
    · next hfull =>
      refine ⟨h.placed.writeDescriptor hsize hrun (by simpa using hfull),
        .of_running hrun h.fenced.alone, ⟨?_, h.booked.handed, h.booked.genuine, ?_⟩⟩
      · simpa [State.writeDescriptor, hqueue] using h.booked.order
      · intro e' he'
        simp only [State.writeDescriptor, List.append_assoc, List.singleton_append] at he'
        rcases List.mem_append.1 he' with hin | hq
        · exact h.booked.epochs e' (List.mem_append_left _ hin)
        · rcases List.mem_cons.1 hq with rfl | hrest
          · exact h.booked.epochs e (by simp [hqueue])
          · exact h.booked.epochs e' (by simp [hqueue, hrest])
  · exact h.unlock hlock

/-- `ring_work` starts; on a stopped ring it takes all frames off the lists. -/
theorem workBegin (h : Kept isTx size s) (hlock : s.lock = .free) (hworker : s.worker = none) :
    Kept isTx size s.workBegin := by
  have hhanded := h.booked.handed
  simp only [State.pending, hlock, hworker, Holder.done, Option.getD_none, List.append_nil]
    at hhanded
  unfold State.workBegin
  dsimp only
  split
  · next hrun =>
    refine ⟨h.placed.congr rfl, .of_running hrun fun _ ↦ hworker,
      ⟨h.booked.order, ?_, h.booked.genuine, h.booked.epochs⟩⟩
    simpa [State.pending, Holder.done, hworker] using hhanded
  · next hrun =>
    have hstop : s.running = false := by simpa using hrun
    refine ⟨.of_stopped h.placed.tail_lt hstop h.placed.clean h.placed.tame,
      ⟨?_, ?_, fun _ _ ↦ ⟨rfl, rfl⟩, ?_⟩, ⟨?_, ?_, ?_, ?_⟩⟩
    · exact fun hne ↦ absurd hlock hne
    · simp [State.cancelAll, hlock, Holder.isWork]
    · -- if no stop waits, the lists were empty before
      intro _ _ hflushing
      have hwaiting : s.waiting = 0 := (Nat.add_eq_zero_iff.1 hflushing).2
      simp [State.cancelAll, h.fenced.drained hstop hwaiting]
    · simpa [State.cancelAll, Function.comp_def] using h.booked.order
    · simp only [State.pending, State.cancelAll, hlock, Holder.done, Option.getD_some,
        List.nil_append]
      exact hhanded.append_right _
    · intro handed hmem
      rcases List.mem_append.1 hmem with hold | hnew
      · exact h.booked.genuine handed hold
      · obtain ⟨e, he, rfl⟩ := List.mem_map.1 hnew
        have hepoch := h.booked.epochs e he
        rw [if_neg hrun] at hepoch
        exact ⟨rfl, hepoch⟩
    · simp [State.cancelAll]

theorem collectRound (h : Kept isTx size s) {done : List Handed} (hlock : s.lock = .collect done) :
    Kept isTx size (s.collectRound isTx size done) := by
  have hrun : s.running = true := h.fenced.held (by simp [hlock])
  have hworker : s.worker = none := h.fenced.alone (by simp [hlock, Holder.isWork])
  have hhanded := h.booked.handed
  unfold State.collectRound
  obtain heq | ⟨e, rest, hin, heq, hdone, hreport⟩ := h.placed.takeCompleted_cases hrun isTx
  · rw [heq]
    refine ⟨h.placed.congr rfl, .of_running hrun fun _ ↦ hworker,
      ⟨h.booked.order, ?_, h.booked.genuine, h.booked.epochs⟩⟩
    simpa [State.pending, hlock, Holder.done] using hhanded
  · rw [heq]
    obtain ⟨horder, hgenuine, hepochs⟩ := h.booked.advanceTail hrun hin hdone hreport size
    refine ⟨(h.placed.advanceTail hrun hin isTx).congr rfl, .of_running hrun fun _ ↦ hworker,
      ⟨horder, ?_, hgenuine, hepochs⟩⟩
    simp only [State.pending, hlock, Holder.done, hworker, Option.getD_none, List.append_nil]
      at hhanded
    simpa [State.pending, Holder.done, State.advanceTail, hworker] using
      hhanded.append_right [s.completedFrame isTx e]

/-- A poll keeps the books. -/
theorem ringPoll (h : Kept isTx size s) : Kept isTx size (s.ringPoll isTx size) := by
  unfold State.ringPoll
  split
  · exact h
  · next hcond =>
    have hrun : s.running = true := by
      by_contra hne
      simp [hne] at hcond
    have hhanded := h.booked.handed
    obtain heq | ⟨e, rest, hin, heq, hdone, hreport⟩ :=
      h.placed.takeCompleted_cases hrun isTx
    · rw [heq]
      exact h
    · rw [heq]
      obtain ⟨horder, hgenuine, hepochs⟩ := h.booked.advanceTail hrun hin hdone hreport size
      refine ⟨(h.placed.advanceTail hrun hin isTx).congr rfl, .of_running hrun h.fenced.alone,
        ⟨horder, ?_, hgenuine, hepochs⟩⟩
      -- the polled frame overtakes those whose callbacks are still to come
      have hswap : (s.log.back ++ [s.completedFrame isTx e] ++ s.pending).Perm
          (s.log.back ++ s.pending ++ [s.completedFrame isTx e]) := by
        rw [List.append_assoc, List.append_assoc]
        exact List.perm_append_comm.append_left _
      exact hswap.trans (hhanded.append_right _)

/-- A callback keeps the books. -/
theorem invokeCallback (h : Kept isTx size s) {done : List Handed}
    (hworker : s.worker = some done) : Kept isTx size (s.invokeCallback done) := by
  have hhanded := h.booked.handed
  have hlock : s.lock.isWork = false := by
    by_contra hne
    rw [h.fenced.alone (by simpa using hne)] at hworker
    contradiction
  cases done with
  | nil =>
    refine ⟨h.placed.congr rfl, ⟨h.fenced.held, fun _ ↦ rfl, h.fenced.drained, fun _ _ _ ↦ rfl⟩,
      ⟨h.booked.order, ?_, h.booked.genuine, h.booked.epochs⟩⟩
    simpa [State.pending, State.invokeCallback, hworker] using hhanded
  | cons handed rest =>
    refine ⟨h.placed.congr rfl, ⟨h.fenced.held, ?_, h.fenced.drained, ?_⟩,
      ⟨h.booked.order, ?_, h.booked.genuine, h.booked.epochs⟩⟩
    · intro hwork
      exact absurd (hlock.symm.trans hwork) (by decide)
    · intro hstop hwaiting hflushing
      have hsettled := h.fenced.settled hstop hwaiting hflushing
      simp [hworker] at hsettled
    · have hmove : (s.log.back ++ [handed] ++ (s.lock.done ++ rest)).Perm
          (s.log.back ++ (s.lock.done ++ handed :: rest)) := by
        rw [List.append_assoc]
        apply List.Perm.append_left
        rw [List.singleton_append]
        exact List.perm_middle.symm
      have hall := hhanded
      simp only [State.pending, hworker, Option.getD_some] at hall
      exact hmove.trans hall

/-- A stop that finds the lock free keeps the books. -/
theorem ringStop (h : Kept isTx size s) (hlock : s.lock = .free) : Kept isTx size s.ringStop := by
  unfold State.ringStop
  dsimp only
  split
  · next hrun =>
    refine ⟨h.placed.congr rfl, ⟨h.fenced.held, h.fenced.alone, ?_, ?_⟩,
      ⟨h.booked.order, h.booked.handed, h.booked.genuine, h.booked.epochs⟩⟩
    · simp
    · simp
  · next hrun =>
    refine ⟨.of_stopped (Nat.zero_lt_of_lt h.placed.tail_lt) rfl h.placed.clean h.placed.tame,
      ⟨fun hne ↦ absurd hlock hne, h.fenced.alone, ?_, ?_⟩,
      ⟨h.booked.order, h.booked.handed, h.booked.genuine, ?_⟩⟩
    · simp
    · simp
    · intro e he
      have hepoch := h.booked.epochs e he
      rw [if_pos (by simpa using hrun)] at hepoch
      simp [hepoch]

/-- A stopped ring gets new indices. -/
theorem indices (h : Kept isTx size s) (hrun : s.running = false) {head tail : ℕ}
    (htail : tail < size) (enabled : Bool) (hw doorbell : ℕ) :
    Kept isTx size { s with head, tail, enabled, hw, doorbell } where
  placed := .of_stopped htail hrun h.placed.clean h.placed.tame
  fenced := ⟨h.fenced.held, h.fenced.alone, h.fenced.drained, h.fenced.settled⟩
  booked := ⟨h.booked.order, h.booked.handed, h.booked.genuine, h.booked.epochs⟩

/-- A ring without frames starts with both indices at one place. -/
theorem running (h : Kept isTx size s) (hin : s.inFlight = []) (hqueue : s.queue = [])
    (hhead : s.head = s.tail) : Kept isTx size { s with running := true } where
  placed := by
    refine ⟨h.placed.tail_lt, fun _ ↦ ?_, fun _ ↦ ?_, fun _ ↦ ?_, fun _ ↦ ?_, h.placed.clean,
      h.placed.tame⟩
    · simpa [hin, Nat.mod_eq_of_lt h.placed.tail_lt] using hhead
    · simpa [hin] using Nat.zero_lt_of_lt h.placed.tail_lt
    · simp [hin]
    · simp [hin]
  fenced := .of_running rfl h.fenced.alone
  booked := ⟨h.booked.order, h.booked.handed, h.booked.genuine, by simp [hin, hqueue]⟩

/-- A start that finds no frame waiting keeps the books. -/
theorem ringStart (h : Kept isTx size s) (hwaiting : s.waiting = 0) (index readback : ℕ) :
    Kept isTx size (s.ringStart isTx size index readback) := by
  unfold State.ringStart State.programStart
  split
  · exact h
  · next hcond =>
    have hstop : s.running = false := by simp_all
    obtain ⟨hin, hqueue⟩ := h.fenced.drained hstop hwaiting
    dsimp only
    by_cases hanchor : size ≤ State.anchor isTx index
    · rw [if_pos hanchor]
      exact h.indices hstop h.placed.tail_lt _ _ _
    · rw [if_neg hanchor]
      have hlt : State.anchor isTx index < size := Nat.lt_of_not_le hanchor
      split
      · next heq =>
        split at heq
        · cases heq
        · obtain ⟨-, rfl⟩ := Prod.mk.inj heq
          exact (h.indices hstop hlt true _ _).running hin hqueue rfl
      · next heq =>
        split at heq
        · obtain ⟨-, rfl⟩ := Prod.mk.inj heq
          exact h.indices hstop hlt _ _ _
        · cases heq

/-- A completion by the hardware keeps the books. -/
theorem hwComplete (h : Kept isTx size s) {word : ℕ} (hword : isCompleted word) :
    Kept isTx size (s.hwComplete size word) := by
  have hframe (e : Entry) :
      (if e.slot = some s.hw then { e with report := some word } else e).frame = e.frame := by
    split <;> rfl
  have hepoch (e : Entry) :
      (if e.slot = some s.hw then { e with report := some word } else e).epoch = e.epoch := by
    split <;> rfl
  refine ⟨h.placed.hwComplete hword, ⟨h.fenced.held, h.fenced.alone, ?_, h.fenced.settled⟩,
    ⟨?_, h.booked.handed, h.booked.genuine, ?_⟩⟩
  · intro hstop hwaiting
    simpa [State.hwComplete] using h.fenced.drained hstop hwaiting
  · simpa [State.hwComplete, Function.comp_def, hframe] using h.booked.order
  · intro e' he'
    rcases List.mem_append.1 he' with hin | hq
    · obtain ⟨e, he, rfl⟩ := List.mem_map.1 hin
      rw [hepoch]
      exact h.booked.epochs e (List.mem_append_left _ he)
    · exact h.booked.epochs e' (List.mem_append_right _ hq)

/-- Every operation keeps the books of a ring with at most `2 ^ 16` slots. -/
theorem step (h : Kept isTx size s) (hsize : size ≤ 2 ^ 16) {op : Op}
    (hstep : s.step isTx size op = some s') : Kept isTx size s' := by
  cases op with
  | enqueue frame =>
    obtain ⟨hlock, rfl⟩ := Option.ite_some_none_eq_some.1 hstep
    exact h.ringEnqueue hlock frame
  | write =>
    simp only [State.step] at hstep
    split at hstep
    · next done hlock => exact Option.some.inj hstep ▸ h.writeRound hsize hlock
    · cases hstep
  | work =>
    obtain ⟨hlock, rfl⟩ := Option.ite_some_none_eq_some.1 hstep
    exact h.workBegin hlock.1 hlock.2
  | collect =>
    simp only [State.step] at hstep
    split at hstep
    · next done hlock => exact Option.some.inj hstep ▸ h.collectRound hlock
    · cases hstep
  | callback =>
    obtain ⟨done, hworker, rfl⟩ := Option.map_eq_some_iff.1 hstep
    exact h.invokeCallback hworker
  | poll =>
    obtain ⟨-, rfl⟩ := Option.ite_some_none_eq_some.1 hstep
    exact h.ringPoll
  | stop =>
    obtain ⟨hlock, rfl⟩ := Option.ite_some_none_eq_some.1 hstep
    exact h.ringStop hlock
  | start index readback =>
    obtain ⟨hlock, rfl⟩ := Option.ite_some_none_eq_some.1 hstep
    exact h.ringStart hlock.2.1 index readback
  | quarantine =>
    obtain ⟨-, rfl⟩ := Option.ite_some_none_eq_some.1 hstep
    exact ⟨h.placed.congr rfl, ⟨h.fenced.1, h.fenced.2, h.fenced.3, h.fenced.4⟩,
      ⟨h.booked.1, h.booked.2, h.booked.3, h.booked.4⟩⟩
  | goAway =>
    obtain rfl := Option.some.inj hstep
    exact ⟨h.placed.congr rfl, ⟨h.fenced.1, h.fenced.2, h.fenced.3, h.fenced.4⟩,
      ⟨h.booked.1, h.booked.2, h.booked.3, h.booked.4⟩⟩
  | complete word =>
    obtain ⟨hword, rfl⟩ := Option.ite_some_none_eq_some.1 hstep
    exact h.hwComplete hword.2.2

/-- Every state of a ring whose indices fit the device is kept. -/
theorem of_reachable (hpos : 0 < size) (hsize : size ≤ 2 ^ 16)
    (hs : (ringSystem isTx size).Reachable s) : Kept isTx size s := by
  apply hs.invariant
  · rintro s rfl
    exact .init hpos
  · intro s op s' hkept _ hstep
    exact hkept.step hsize hstep

end Kept

/-- The slot and the descriptor of the `i`-th frame in flight. -/
theorem Placed.slot_eq (h : Placed size s) (hrun : s.running) {i : ℕ} (hi : i < s.inFlight.length) :
    s.inFlight[i].slot = some ((s.tail + i) % size) ∧
      (s.descriptors ((s.tail + i) % size)).phys = s.inFlight[i].frame.bufferPhy := by
  have hslot : s.inFlight[i].slot = some ((s.tail + i) % size) := by
    have hget : (s.inFlight.map Entry.slot)[i]? =
        ((window size s.tail s.inFlight.length).map some)[i]? := by
      rw [h.slots hrun]
    simpa [hi, window] using hget
  obtain ⟨slot, hslot', hphys, -⟩ := h.posted hrun _ (List.getElem_mem hi)
  rw [hslot] at hslot'
  exact ⟨hslot, Option.some.inj hslot' ▸ hphys⟩

/-- While the ring runs, the frames in flight lie in the descriptors from the tail to the head in
order. No descriptor of a frame in flight is written. The accepted frames leave the lists in order,
each is handed back once, and all of them are once a stop is over. A received frame has the metadata
of its own descriptor, and a frame is canceled only by a stop after its enqueue. -/
theorem ring_bookkeeping (isTx : Bool) {size : ℕ} (hmin : 2 ≤ size) (hmax : size ≤ 2 ^ 16)
    {s : State} (hs : (ringSystem isTx size).Reachable s) :
    (s.lock = .free → s.running →
      (s.inFlight.length : ℤ) = ((s.head : ℤ) - s.tail) % size ∧
      ∀ (i : ℕ) (hi : i < s.inFlight.length), s.inFlight[i].slot = some ((s.tail + i) % size) ∧
        (s.descriptors ((s.tail + i) % size)).phys = s.inFlight[i].frame.bufferPhy) ∧
    s.log.overwritten = [] ∧
    s.log.left.map (·.entry.frame) ++ (s.inFlight ++ s.queue).map (·.frame) = s.log.accepted ∧
    (s.log.back ++ s.pending).Perm s.log.left ∧
    (s.running = false → s.waiting = 0 → s.flushing = 0 →
      s.log.back.Perm s.log.left ∧ s.log.left.map (·.entry.frame) = s.log.accepted) ∧
    ∀ h ∈ s.log.left,
      (h.canceled = true → h.frame = h.entry.frame ∧ h.entry.epoch < h.stops) ∧
      (h.canceled = false → h.entry.epoch = h.stops ∧
        ∃ word, h.entry.report = some word ∧ isCompleted word ∧
          h.frame = if isTx then h.entry.frame else h.entry.frame.receive word) := by
  have hkept : Kept isTx size s := .of_reachable (by omega) hmax hs
  refine ⟨?_, hkept.placed.clean, hkept.booked.order, hkept.booked.handed, ?_, ?_⟩
  · intro _ hrun
    refine ⟨?_, fun i hi ↦ hkept.placed.slot_eq hrun hi⟩
    rw [hkept.placed.head_eq hrun, end_sub_start (hkept.placed.room hrun)]
  · intro hstop hwaiting hflushing
    have hlock : s.lock = .free := by
      by_contra hne
      rw [hkept.fenced.held hne] at hstop
      contradiction
    have hpending : s.pending = [] := by
      rw [State.pending, hlock, hkept.fenced.settled hstop hwaiting hflushing]
      rfl
    obtain ⟨hin, hqueue⟩ := hkept.fenced.drained hstop hwaiting
    constructor
    · simpa [hpending] using hkept.booked.handed
    · simpa [hin, hqueue] using hkept.booked.order
  · intro handed hmem
    have hgenuine := hkept.booked.genuine handed hmem
    unfold Handed.Genuine at hgenuine
    constructor
    · intro hcanceled
      rwa [if_pos hcanceled] at hgenuine
    · intro hcanceled
      rwa [if_neg (by simp [hcanceled])] at hgenuine

theorem run_reachable {ops : List Op} (h : run isTx size ops = some s) :
    (ringSystem isTx size).Reachable s := by
  have hfrom (s₀ : State) (hs₀ : (ringSystem isTx size).Reachable s₀)
      (hrun : ops.foldlM (fun s op ↦ s.step isTx size op) s₀ = some s) :
      (ringSystem isTx size).Reachable s := by
    clear h
    induction ops generalizing s₀ with
    | nil =>
      obtain rfl := Option.some.inj hrun
      exact hs₀
    | cons op ops ih =>
      obtain ⟨s₁, hstep, hrest⟩ := Option.bind_eq_some_iff.1 hrun
      exact ih s₁ (.next hs₀ trivial hstep) hrest
  exact hfrom {} (.start rfl) h

/-- A run that ends in a state with a decidable property shows that such a state is reached. -/
theorem reachable_of_run {ops : List Op} {goal : State → Bool}
    (h : (run isTx size ops).any goal = true) :
    ∃ s, (ringSystem isTx size).Reachable s ∧ goal s = true := by
  obtain ⟨s, hrun, hgoal⟩ := (Option.any_eq_true _ _).1 h
  exact ⟨s, run_reachable hrun, hgoal⟩

/-- A receive ring of two descriptors that starts at index 1: one of two frames is received, the
other one is canceled by a stop. -/
def received : List Op :=
  [.start 0x10001 0x10001, .enqueue { bufferPhy := 7 }, .write, .write, .enqueue { bufferPhy := 8 },
    .write, .complete (ringDescriptorWord 100 3 2 descCompleted), .work, .collect, .collect, .write,
    .write, .callback, .callback, .stop, .work, .callback, .callback]

theorem ring_bookkeeping_received : ∃ s, (ringSystem false 2).Reachable s ∧
    s.log.back.map (fun h ↦ (h.frame.bufferPhy, h.frame.size, h.canceled)) =
      [(7, 100, false), (8, 0, true)] ∧
    s.log.left.map (·.entry.frame) = s.log.accepted := by
  have hrun : (run false 2 received).any (fun s ↦ s.running == false && s.waiting == 0 &&
      s.flushing == 0 && s.log.back.map (fun h ↦ (h.frame.bufferPhy, h.frame.size, h.canceled)) ==
        [(7, 100, false), (8, 0, true)]) = true := by decide
  obtain ⟨s, hs, hgoal⟩ := reachable_of_run hrun
  simp only [Bool.and_eq_true, beq_iff_eq] at hgoal
  obtain ⟨⟨⟨hstop, hwaiting⟩, hflushing⟩, hback⟩ := hgoal
  have hkept := ring_bookkeeping false (le_refl 2) (by decide) hs
  exact ⟨s, hs, hback, (hkept.2.2.2.2.1 hstop hwaiting hflushing).2⟩

/-- A transmit ring starts at the last index a `u16` holds and gets two frames. -/
def wrapped : List Op :=
  [.start 0xffffffff 0xffffffff, .enqueue { bufferPhy := 7 }, .write, .write,
    .enqueue { bufferPhy := 8 }, .write, .write]

def transmitted : List Op :=
  [.start 0 0, .enqueue { bufferPhy := 7, size := 100 }, .write, .write,
    .complete (ringDescriptorWord 100 0 0 (descCompleted ||| descPosted)), .work, .collect]

/-- With more than `2 ^ 16` descriptors the slot of a frame is cut to sixteen bits; and a
transmitted frame does not get the flags of its descriptor. -/
theorem ring_slot_truncated :
    (∃ s, (ringSystem true 65537).Reachable s ∧ s.lock = .free ∧ s.running = true ∧
      ∃ hi : 1 < s.inFlight.length, s.inFlight[1].slot ≠ some ((s.tail + 1) % 65537)) ∧
    ∃ s, (ringSystem true 2).Reachable s ∧ ∃ h ∈ s.log.left, h.canceled = false ∧
      ∃ word, h.entry.report = some word ∧ h.frame.flags ≠ ringDescriptorFlags word := by
  constructor
  · have hrun : (run true 65537 wrapped).any (fun s ↦ s.lock == .free && s.running &&
        s.inFlight[1]?.any (fun e ↦ e.slot != some ((s.tail + 1) % 65537))) = true := by
      decide +kernel
    obtain ⟨s, hs, hgoal⟩ := reachable_of_run hrun
    simp only [Bool.and_eq_true, beq_iff_eq, Option.any_eq_true, bne_iff_ne] at hgoal
    obtain ⟨⟨hlock, hrunning⟩, e, he, hslot⟩ := hgoal
    obtain ⟨hi, rfl⟩ := List.getElem?_eq_some_iff.1 he
    exact ⟨s, hs, hlock, hrunning, hi, hslot⟩
  · have hrun : (run true 2 transmitted).any (fun s ↦ s.log.left.any fun h ↦ h.canceled == false &&
        h.entry.report.any fun word ↦ h.frame.flags != ringDescriptorFlags word) = true := by
      decide
    obtain ⟨s, hs, hgoal⟩ := reachable_of_run hrun
    simp only [List.any_eq_true, Bool.and_eq_true, beq_iff_eq, Option.any_eq_true, bne_iff_ne]
      at hgoal
    obtain ⟨h, hmem, hcanceled, word, hreport, hflags⟩ := hgoal
    exact ⟨s, hs, h, hmem, hcanceled, word, hreport, hflags⟩

end ThunderboltStack.Nhi
