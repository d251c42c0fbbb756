import ThunderboltStack.Lib.Program

/-!
# Observed runs

What a run did so far is recorded by an observer: it is told every step, together with the state
before the step, and cannot refuse one.  Properties of the order in which things happen are
invariants of the observed system.  `Reach.unobserve` turns what is known of the runs of the system
into knowledge about its observed runs, and `Reach.observed` says that no run is lost.

One observer of a machine is of general use.  `Machine.serve` records which event each thread
serves; what all sections of the program of an event have in common then holds of every section that
a thread executes while it serves the event (`Machine.serves_exec`).
-/

namespace ThunderboltStack.Lib

namespace System

variable {State Label Obs : Type}

def observe (sys : System State Label) (start : Obs) (see : State → Label → Obs → Obs) :
    System (State × Obs) Label where
  init p := sys.init p.1 ∧ p.2 = start
  step p l p' := sys.step p.1 l p'.1 ∧ p'.2 = see p.1 l p.2

variable {sys : System State Label} {start : Obs} {see : State → Label → Obs → Obs}

theorem Reach.unobserve {allowed : State × Obs → Label → Prop} {allowed' : State → Label → Prop}
    {p : State × Obs} (hreach : (sys.observe start see).Reach allowed p)
    (h : ∀ p l, allowed p l → allowed' p.1 l) : sys.Reach allowed' p.1 := by
  induction hreach with
  | start h₀ => exact .start h₀.1
  | next _ hallowed hs ih => exact .next ih (h _ _ hallowed) hs.1

/-- An observed run is a run of the system without restrictions. -/
theorem Reach.reachable {allowed : State × Obs → Label → Prop} {p : State × Obs}
    (hreach : (sys.observe start see).Reach allowed p) : sys.Reachable p.1 :=
  hreach.unobserve fun _ _ _ ↦ trivial

/-- The rule for invariants of observed runs: each step may use what is known about the run. -/
theorem Reach.observe_invariant {allowed : State × Obs → Label → Prop} {I : State → Obs → Prop}
    {p : State × Obs} (hreach : (sys.observe start see).Reach allowed p)
    (hinit : ∀ s, sys.init s → I s start)
    (hstep : ∀ s o l s', sys.Reachable s → I s o → allowed (s, o) l → sys.step s l s' →
      I s' (see s l o)) : I p.1 p.2 := by
  induction hreach with
  | @start p h₀ => exact h₀.2 ▸ hinit p.1 h₀.1
  | @next p p' l hr hallowed hs ih => exact hs.2 ▸ hstep _ _ _ _ hr.reachable ih hallowed hs.1

namespace Exec

def observe (ex : sys.Exec) : (sys.observe start see).Exec where
  Act := ex.Act
  step p a := (ex.step p.1 a).map fun r ↦ (r.1, r.2, see p.1 r.1 p.2)
  sound {p a l p'} h := by
    obtain ⟨r, hr, heq⟩ := Option.map_eq_some_iff.1 h
    obtain ⟨rfl, rfl⟩ := Prod.mk.inj heq
    exact ⟨ex.sound hr, rfl⟩

theorem play_unobserve {ex : sys.Exec} {ok : State × Obs → Label → Bool} {as : List ex.Act}
    {p p' : State × Obs}
    (h : (ex.observe : (sys.observe start see).Exec).play ok as p = some p') :
    ex.play (fun _ _ ↦ true) as p.1 = some p'.1 := by
  induction as generalizing p with
  | nil => exact congrArg (Option.map Prod.fst) h
  | cons a as ih =>
    simp only [play, observe] at h ⊢
    cases hstep : ex.step p.1 a with
    | none => simp [hstep] at h
    | some r =>
      simp only [hstep, Option.map_some] at h
      split at h
      · exact ih h
      · cases h

end Exec

end System

namespace Machine

variable {Tid σ Obs : Type} [DecidableEq Tid] {M : Machine Tid σ}

/-- A schedule at whose end its threads are idle again leaves every thread idle, in an observed run
too. -/
theorem idle_of_observed_play (start : Obs) (see : M.Config → M.Label → Obs → Obs)
    (ok : M.Config × Obs → M.Label → Bool) (goal : M.Config × Obs → Bool) (as : List M.Act)
    {s : σ} (hs : M.init s)
    (h : ((M.exec.observe : (M.system.observe start see).Exec).play ok as (M.idle s, start)).any
      (fun p ↦ goal p && as.all fun a ↦ (p.1.thread a.tid).isNone) = true) :
    ∃ p, (M.system.observe start see).Reach (fun p l ↦ ok p l) p ∧ goal p ∧
      ∀ t, p.1.thread t = none := by
  obtain ⟨p, hplay, hgoal⟩ := (Option.any_eq_true _ _).1 h
  obtain ⟨hgoal, hidle⟩ := Bool.and_eq_true_iff.1 hgoal
  refine ⟨p, System.Exec.play_reach (fun _ _ h ↦ h) (.start ⟨init_idle hs, rfl⟩) hplay, hgoal, ?_⟩
  intro t
  by_cases ht : ∃ a ∈ as, t = a.tid
  · obtain ⟨a, ha, rfl⟩ := ht
    simpa using List.all_eq_true.1 hidle a ha
  · exact play_thread (System.Exec.play_unobserve hplay) fun a ha heq ↦ ht ⟨a, ha, heq⟩

def serve (M : Machine Tid σ) : M.Label → (Tid → Option M.Entry) → Tid → Option M.Entry
  | .start t e, served => Function.update served t (some e)
  | .exec _ _ _, served => served
  | .finish t, served => Function.update served t none

variable {start : Obs} {see : M.Config → M.Label → Obs → Obs}
  {served : Obs → Tid → Option M.Entry} {C : Tid → M.Entry → M.Op → Prop}
  (hsee : ∀ c l o, served (see c l o) = M.serve l (served o))
  (hprog : ∀ t e s p s', M.enter t e s = some (p, s') → p.All (C t e))
  {allowed : M.Config × Obs → M.Label → Prop} {q : M.Config × Obs}
  (hreach : (M.system.observe start see).Reach allowed q)

include hsee hprog hreach

/-- What holds of all sections of the program of an event holds of what is left of the program of a
thread that serves it. -/
theorem serves_all (t : Tid) (p : Prog M.toSig Unit) (hp : q.1.thread t = some p) :
    ∃ e, served q.2 t = some e ∧ p.All (C t e) := by
  revert t p
  apply hreach.observe_invariant (I := fun c o ↦ ∀ t p, c.thread t = some p →
    ∃ e, served o t = some e ∧ p.All (C t e))
  · intro c hinit t p hp
    simp [hinit.2 t] at hp
  · intro c o l c' _ hI _ hstep u p hp
    rw [hsee]
    have hother : ∀ (t : Tid) (p' : Option (Prog M.toSig Unit)) (e : Option M.Entry), u ≠ t →
        Function.update c.thread t p' u = some p →
        ∃ e', Function.update (served o) t e u = some e' ∧ p.All (C u e') := by
      intro t p' e hu hp
      rw [Function.update_of_ne hu] at hp ⊢
      exact hI u p hp
    cases hstep with
    | @start t e q s' _ henter =>
      by_cases hu : u = t
      · subst hu
        obtain rfl : q = p := by simpa using hp
        exact ⟨e, by simp [serve], hprog u e _ q s' henter⟩
      · exact hother t _ _ hu hp
    | @exec t op k i r s' hthread hrun =>
      by_cases hu : u = t
      · subst hu
        obtain rfl : k r = p := by simpa using hp
        obtain ⟨e, he, hall⟩ := hI u _ hthread
        exact ⟨e, he, hall.2 r⟩
      · exact hI u p (by simpa [hu] using hp)
    | @finish t hthread =>
      by_cases hu : u = t
      · subst hu
        simp at hp
      · exact hother t _ _ hu hp

/-- A section that a thread executes is one of the program of the event it serves. -/
theorem serves_exec {t : Tid} {op : M.Op} {i : M.Inp op} {c' : M.Config}
    (hstep : M.Step q.1 (.exec t op i) c') : ∃ e, served q.2 t = some e ∧ C t e op := by
  cases hstep with
  | exec hthread _ =>
    obtain ⟨e, he, hall⟩ := serves_all hsee hprog hreach t _ hthread
    exact ⟨e, he, hall.1⟩

end Machine

/-- A log with at most one entry has no two. -/
theorem eq_of_length_le_one {α : Type} {xs : List α} {a b : α} (h : xs.length ≤ 1) (ha : a ∈ xs)
    (hb : b ∈ xs) : a = b := by
  obtain ⟨i, hi, rfl⟩ := List.getElem_of_mem ha
  obtain ⟨j, hj, rfl⟩ := List.getElem_of_mem hb
  obtain rfl : i = j := by omega
  rfl

end ThunderboltStack.Lib
