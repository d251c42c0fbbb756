import ThunderboltStack.Xdomain.Handshake

/-!
# The width the peer asks for

The side with the higher UUID waits in `XDOMAIN_STATE_BONDING_UUID_HIGH` for a link state change
request and writes the width that it asks for to the lane adapters.  The width is kept in
`target_link_width`, which nothing clears.  An attempt to bond the lanes starts with the exchange of
the link status, or with a late request to an XDomain that is enumerated.
-/

namespace ThunderboltStack.Xdomain

open ThunderboltStack.Lib
open ThunderboltStack.PropertyBlock (Block)

/-- The width that the state work that has started writes to the lane adapters. -/
def Handshake.writes (xd : Handshake) : Option ℕ :=
  xd.running.bind fun r ↦
    if r.state = .bondingUuidHigh then bondWidth r.targetLinkWidth else none

/-- An attempt to bond the lanes: the requested width that was there when it began, and the requests
since then. -/
structure Attempt where
  kept : UInt8 := 0
  asked : List UInt8 := []

/-- Record the attempts and the requests. -/
def seeAttempt (xd : Handshake) (l : HandshakeAct) (o : Attempt) : Attempt :=
  match l with
  | .begin => if xd.state = .linkStatus then ⟨xd.targetLinkWidth, []⟩ else o
  | .handle i =>
    match xd.handlers[i]? with
    | some (.linkStateChange tlw) =>
      if xd.removing then o
      else if xd.state = .enumerated then ⟨xd.targetLinkWidth, [tlw]⟩
      else { o with asked := o.asked ++ [tlw] }
    | _ => o
  | _ => o

namespace Handshake

variable {xd xd' : Handshake} {localUuid : Uuid} {depth : ℕ} {l : HandshakeAct} {o : Attempt}

/-- The requested width is that of the last request of the attempt, or the one from before. -/
def Latched (xd : Handshake) (o : Attempt) : Prop :=
  xd.targetLinkWidth = o.asked.getLast?.getD o.kept

theorem stateWork_width {r : StateRun} {a : Replies} :
    (xd.stateWork localUuid depth r a).targetLinkWidth = xd.targetLinkWidth := by
  by_cases hend : r.state = .error
  · simp only [stateWork, hend]
  · exact (proceeds_stateWork fun h ↦ absurd h hend).width

theorem latched_handle {request : Inbound} {i : ℕ} (h : Latched xd o)
    (hrequest : xd.handlers[i]? = some request) :
    Latched (handle { xd with handlers := xd.handlers.eraseIdx i } request)
      (seeAttempt xd (.handle i) o) := by
  cases request with
  | uuidRequest =>
    simp only [seeAttempt, hrequest, handle]
    split
    · exact h
    · exact h
  | linkStateChange tlw =>
    simp only [seeAttempt, hrequest, handle]
    split_ifs
    · exact h
    · simp [Latched, queueState]
    · simp [Latched, queueWork]

/-- Every action keeps the target width the one last asked for. -/
theorem latched_step (h : Latched xd o) (hstep : xd.step localUuid depth l = some xd') :
    Latched xd' (seeAttempt xd l o) := by
  cases l with
  | begin =>
    simp only [step] at hstep
    split_ifs at hstep
    obtain rfl := Option.some.inj hstep
    simp only [seeAttempt]
    split
    · rfl
    · exact h
  | finish a =>
    obtain ⟨r, -, rfl⟩ := Option.map_eq_some_iff.1 hstep
    exact stateWork_width.trans h
  | check request =>
    simp only [step] at hstep
    split_ifs at hstep
    exact Option.some.inj hstep ▸ h
  | handle i =>
    obtain ⟨request, hrequest, rfl⟩ := Option.map_eq_some_iff.1 hstep
    exact latched_handle h hrequest
  | rescan sysfs =>
    obtain rfl := Option.some.inj hstep
    unfold rescan
    split_ifs <;> exact h
  | reprobe =>
    obtain rfl := Option.some.inj hstep
    unfold reprobe
    dsimp only
    split <;> exact h
  | unplug | bond bonded => exact Option.some.inj hstep ▸ h
  | stop remove =>
    simp only [step] at hstep
    split_ifs at hstep
    exact Option.some.inj hstep ▸ h
  | start => exact Option.some.inj hstep ▸ h

end Handshake

section Run

variable {localUuid : Uuid} {depth : ℕ} {q : Handshake × Attempt} {xd' : Handshake}

theorem latched
    (hreach : ((handshakeSystem localUuid depth).observe {} seeAttempt).Reachable q) :
    Handshake.Latched q.1 q.2 := by
  apply hreach.observe_invariant (I := Handshake.Latched)
  · rintro xd ⟨remoteUuid, bondingPossible, bonded, rfl⟩
    rfl
  · intro xd o l xd' _ hI _ hstep
    exact Handshake.latched_step hI hstep

/-- The state work writes a width that the peer asked for during the attempt exactly if the peer
asked for one, or nothing was left from before. -/
theorem lane_width_requested_iff
    (hreach : ((handshakeSystem localUuid depth).observe {} seeAttempt).Reachable q)
    (hstep : q.1.step localUuid depth .begin = some xd') :
    (∀ width, xd'.writes = some width →
        ∃ tlw ∈ q.2.asked, Handshake.bondWidth tlw = some width) ↔
      (q.1.state = .bondingUuidHigh →
        q.2.asked ≠ [] ∨ Handshake.bondWidth q.2.kept = none) := by
  have hlatched := latched hreach
  simp only [Handshake.step] at hstep
  split_ifs at hstep
  obtain rfl := Option.some.inj hstep
  by_cases hhigh : q.1.state = .bondingUuidHigh
  · simp only [Handshake.writes, Option.bind_some, hhigh, if_true, true_implies]
    cases hasked : q.2.asked.getLast? with
    | none =>
      have hnil := List.getLast?_eq_none_iff.1 hasked
      rw [hlatched, hasked, hnil]
      simp [Option.eq_none_iff_forall_ne_some]
    | some tlw =>
      rw [hlatched, hasked]
      have hmem := List.mem_of_getLast? hasked
      have hne : q.2.asked ≠ [] := List.ne_nil_of_mem hmem
      simp only [Option.getD_some, hne, ne_eq, not_false_eq_true, true_or, iff_true]
      exact fun width hwidth ↦ ⟨tlw, hmem, hwidth⟩
  · simp [Handshake.writes, hhigh]

end Run

def hostBlock : Block where
  dwords i :=
    [0x55584401, 8, 0x64657669, 0x63656964, 0x76000001, 5, 0x76656e64, 0x6f726964, 0x76000001,
      6].getD i 0
  len := 10

/-- The first attempt: the peer asks for both lanes, and the link does not become wide. -/
def firstAttempt : List HandshakeAct :=
  [.begin, .finish {}, .begin, .finish { linkStatus := .ok 2 }, .check (.linkStateChange 3),
    .handle 0]

def nextAttempt : List HandshakeAct :=
  [.begin, .finish {}, .begin, .finish { properties := .ok (hostBlock, 1) }, .begin, .finish {},
    .begin, .finish { linkStatus := .ok 2 }]

def attempts : System (Handshake × Attempt) HandshakeAct :=
  (handshakeSystem ⟨2, 2, 2, 2⟩ 4).observe {} seeAttempt

theorem exists_attempt (acts : List HandshakeAct) (goal : Handshake × Attempt → Bool)
    (h : (((handshakeExec ⟨2, 2, 2, 2⟩ 4).observe : attempts.Exec).play (fun _ _ ↦ true) acts
      (Handshake.started (some ⟨1, 1, 1, 1⟩) true false, {})).any goal = true) :
    ∃ q, attempts.Reachable q ∧ goal q = true := by
  obtain ⟨q, hreach, hgoal⟩ := System.Exec.reach_of_play
    ((handshakeExec ⟨2, 2, 2, 2⟩ 4).observe : attempts.Exec) (fun _ _ ↦ true) goal acts
    (s := (Handshake.started (some ⟨1, 1, 1, 1⟩) true false, {}))
    ⟨⟨some ⟨1, 1, 1, 1⟩, true, false, rfl⟩, rfl⟩ h
  exact ⟨q, hreach.mono fun _ _ _ ↦ trivial, hgoal⟩

/-- In the first attempt both lanes are asked for and written. -/
theorem lane_width_requested_first :
    ∃ (q : Handshake × Attempt) (xd' : Handshake),
      q.1.step ⟨2, 2, 2, 2⟩ 4 .begin = some xd' ∧ xd'.writes = some 2 ∧
        ∃ tlw ∈ q.2.asked, Handshake.bondWidth tlw = some 2 := by
  obtain ⟨q, hreach, hgoal⟩ := exists_attempt firstAttempt
    (fun q ↦ q.2.asked == [3] &&
      (q.1.step ⟨2, 2, 2, 2⟩ 4 .begin).any fun xd' ↦ xd'.writes == some 2) (by decide +kernel)
  obtain ⟨hasked, hany⟩ := Bool.and_eq_true_iff.1 hgoal
  obtain ⟨xd', hstep, hwrites⟩ := (Option.any_eq_true _ _).1 hany
  have hne : q.2.asked ≠ [] := by simp [beq_iff_eq.1 hasked]
  exact ⟨q, xd', hstep, beq_iff_eq.1 hwrites,
    (lane_width_requested_iff hreach hstep).2 (fun _ ↦ Or.inl hne) 2 (beq_iff_eq.1 hwrites)⟩

/-- In the next attempt both lanes are written although nothing was asked for. -/
theorem lane_width_left_over :
    ∃ (q : Handshake × Attempt) (xd' : Handshake),
      attempts.Reachable q ∧ q.1.step ⟨2, 2, 2, 2⟩ 4 .begin = some xd' ∧
        xd'.writes = some 2 ∧ q.2.asked = [] := by
  obtain ⟨q, hreach, hgoal⟩ := exists_attempt (firstAttempt ++ nextAttempt)
    (fun q ↦ q.2.asked == [] &&
      (q.1.step ⟨2, 2, 2, 2⟩ 4 .begin).any fun xd' ↦ xd'.writes == some 2) (by decide +kernel)
  obtain ⟨hasked, hany⟩ := Bool.and_eq_true_iff.1 hgoal
  obtain ⟨xd', hstep, hwrites⟩ := (Option.any_eq_true _ _).1 hany
  exact ⟨q, xd', hreach, hstep, beq_iff_eq.1 hwrites, beq_iff_eq.1 hasked⟩

end ThunderboltStack.Xdomain
