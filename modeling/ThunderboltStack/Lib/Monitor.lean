import ThunderboltStack.Lib.Effect
import ThunderboltStack.Lib.Observe

/-!
# Monitors of threads

A monitor assigns a phase to each thread: the event that the thread serves gives the first one, and
each section that it executes, with what the section returned, the next one.  It says which sections
may be executed in a phase and in which phases a thread may return.

A monitor is an effect on phases (`Monitor.effect`), so `Prog.wlp` says whether a program keeps to
it.  If all programs of a machine keep to the monitor, so do the threads in every observed run
(`Machine.Monitored.allows_exec`, `Machine.Monitored.rests_finish`).  An
invariant of an observed run can then speak about the phases, that is, about what each thread has
just done and about what it is going to do.
-/

namespace ThunderboltStack.Lib

structure Monitor (S : Sig) (Event Phase : Type) where
  idle : Phase
  enter : Event → Phase
  next : Phase → (o : S.Op) → S.Res o → Phase
  allows : Phase → S.Op → Prop
  rests : Phase → Prop

def Monitor.effect {S : Sig} {Event Phase : Type} (m : Monitor S Event Phase) : Effect S Phase :=
  fun o q Q ↦ m.allows q o ∧ ∀ r, Q r (m.next q o r)

namespace Machine

variable {Tid σ Obs Phase : Type} [DecidableEq Tid] {M : Machine Tid σ}

def phases (m : Monitor M.toSig M.Entry Phase) (c : M.Config) :
    M.Label → (Tid → Phase) → Tid → Phase
  | .start t e, q => Function.update q t (m.enter e)
  | .exec t o i, q =>
    match M.run t o i c.state with
    | some (r, _) => Function.update q t (m.next (q t) o r)
    | none => q
  | .finish t, q => Function.update q t m.idle

structure Monitored (m : Monitor M.toSig M.Entry Phase) (c : M.Config) (q : Tid → Phase) :
    Prop where
  active : ∀ t p, c.thread t = some p → p.wlp m.effect (fun _ q ↦ m.rests q) (q t)
  idle : ∀ t, c.thread t = none → q t = m.idle

variable {m : Monitor M.toSig M.Entry Phase}

/-- A step of one thread leaves the others where they are. -/
theorem Monitored.update {c : M.Config} {q : Tid → Phase} (h : Monitored m c q) {t : Tid} {s : σ}
    {p : Option (Prog M.toSig Unit)} {ph : Phase}
    (hactive : ∀ p', p = some p' → p'.wlp m.effect (fun _ q ↦ m.rests q) ph)
    (hidle : p = none → ph = m.idle) :
    Monitored m ⟨s, Function.update c.thread t p⟩ (Function.update q t ph) := by
  constructor
  · intro u p' hp
    by_cases hu : u = t
    · subst hu
      simp only [Function.update_self] at hp ⊢
      exact hactive p' hp
    · simp only [ne_eq, hu, not_false_eq_true, Function.update_of_ne] at hp ⊢
      exact h.active u p' hp
  · intro u hp
    by_cases hu : u = t
    · subst hu
      simp only [Function.update_self] at hp ⊢
      exact hidle hp
    · simp only [ne_eq, hu, not_false_eq_true, Function.update_of_ne] at hp ⊢
      exact h.idle u hp

theorem phases_exec {c : M.Config} {t : Tid} {o : M.Op} {i : M.Inp o} {r : M.Res o} {s : σ}
    (h : M.run t o i c.state = some (r, s)) (q : Tid → Phase) :
    phases m c (.exec t o i) q = Function.update q t (m.next (q t) o r) := by
  simp only [phases, h]

/-- If the programs keep to the monitor, so do the threads in every observed run. -/
theorem monitored_reach {start : Obs} {see : M.Config → M.Label → Obs → Obs}
    {phase : Obs → Tid → Phase} (hstart : ∀ t, phase start t = m.idle)
    (hsee : ∀ c l o, phase (see c l o) = phases m c l (phase o))
    (hprog : ∀ t e s p s', M.enter t e s = some (p, s') →
      p.wlp m.effect (fun _ q ↦ m.rests q) (m.enter e))
    {allowed : M.Config × Obs → M.Label → Prop} {x : M.Config × Obs}
    (hreach : (M.system.observe start see).Reach allowed x) : Monitored m x.1 (phase x.2) := by
  apply hreach.observe_invariant (I := fun c o ↦ Monitored m c (phase o))
  · intro c hinit
    exact ⟨fun t p hp ↦ by simp [hinit.2 t] at hp, fun t _ ↦ hstart t⟩
  · intro c o l c' _ h _ hstep
    rw [hsee]
    cases hstep with
    | @start t e p s' _ henter =>
      refine h.update (fun p' hp ↦ ?_) (fun hp ↦ by cases hp)
      cases hp
      exact hprog t e _ p s' henter
    | @exec t op k i r s' hthread hrun =>
      rw [phases_exec hrun]
      refine h.update (fun p' hp ↦ ?_) (fun hp ↦ by cases hp)
      cases hp
      exact (h.active t _ hthread).2 r
    | @finish t hthread => exact h.update (fun _ hp ↦ by cases hp) fun _ ↦ rfl

variable {c c' : M.Config} {q : Tid → Phase} {t : Tid}

/-- A section that is executed is one that the monitor allows. -/
theorem Monitored.allows_exec (h : Monitored m c q) {o : M.Op} {i : M.Inp o}
    (hstep : M.Step c (.exec t o i) c') : m.allows (q t) o := by
  cases hstep with
  | exec hthread _ => exact (h.active t _ hthread).1

/-- A thread returns in a phase in which it may. -/
theorem Monitored.rests_finish (h : Monitored m c q) (hstep : M.Step c (.finish t) c') :
    m.rests (q t) := by
  cases hstep with
  | finish hthread => exact h.active t _ hthread

end Machine

end ThunderboltStack.Lib
