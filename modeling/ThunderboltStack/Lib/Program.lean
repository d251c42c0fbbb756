import Mathlib.Data.Nat.Notation
import Mathlib.Logic.Function.Basic
import Mathlib.Logic.Relation
import ThunderboltStack.Lib.Transition

/-!
# Programs of atomic sections and their interleavings

A concurrent C function is modelled as a program: a tree whose nodes are atomic sections (the body
of a critical section, one call into the environment) and whose branches are the results the
section may hand back to the caller.  Signatures say which sections a program may use; a program
over a smaller signature runs wherever a larger one is available, so a rule such as "this section
is only executed under that lock" is a matter of types.

A machine runs a pool of such programs, one section of one thread at a time.  Proofs about a machine
use one invariant of the shared state and one precondition per section.  `Machine.wp` says that a
thread meets the precondition of every section it comes to, whatever the other threads do in
between; `Machine.Verified.sound` is the resulting rule for whole runs.
-/

namespace ThunderboltStack.Lib

/-- A signature of atomic sections and of what they return to the thread that executes them. -/
structure Sig where
  Op : Type
  Res : Op → Type

inductive Prog (S : Sig) (α : Type) : Type
  | ret (a : α) : Prog S α
  | op (o : S.Op) (k : S.Res o → Prog S α) : Prog S α

/-- The sections of `S` are sections of `T`. -/
structure Sig.Emb (S T : Sig) where
  op : S.Op → T.Op
  res : ∀ o, T.Res (op o) → S.Res o

namespace Prog

variable {S T U : Sig} {α β : Type}

def bind : Prog S α → (α → Prog S β) → Prog S β
  | .ret a, f => f a
  | .op o k, f => .op o fun r ↦ (k r).bind f

instance : Monad (Prog S) where
  pure := .ret
  bind := .bind

def call (o : S.Op) : Prog S (S.Res o) :=
  .op o .ret

def lift (e : S.Emb T) : Prog S α → Prog T α
  | .ret a => .ret a
  | .op o k => .op (e.op o) fun r ↦ (k (e.res o r)).lift e

def when (c : Prop) [Decidable c] (p : Prog S Unit) : Prog S Unit :=
  if c then p else .ret ()

def forEach {γ : Type} : List γ → (γ → Prog S Unit) → Prog S Unit
  | [], _ => .ret ()
  | x :: xs, f => do
    f x
    forEach xs f

@[simp]
theorem pure_eq (a : α) : (pure a : Prog S α) = .ret a := rfl

@[simp]
theorem op_bind (o : S.Op) (k : S.Res o → Prog S α) (f : α → Prog S β) :
    (Prog.op o k >>= f) = .op o fun r ↦ k r >>= f := rfl

@[simp]
theorem lift_op (e : S.Emb T) (o : S.Op) (k : S.Res o → Prog S α) :
    (Prog.op o k).lift e = .op (e.op o) fun r ↦ (k (e.res o r)).lift e := rfl

@[simp]
theorem lift_bind (e : S.Emb T) (p : Prog S α) (f : α → Prog S β) :
    (p >>= f).lift e = p.lift e >>= fun a ↦ (f a).lift e := by
  induction p with
  | ret a => rfl
  | op o k ih =>
    simp only [op_bind, lift_op]
    exact congrArg _ (funext fun r ↦ ih (e.res o r))

@[simp]
theorem lift_when (e : S.Emb T) (c : Prop) [Decidable c] (p : Prog S Unit) :
    (when c p).lift e = when c (p.lift e) := by
  unfold when
  split <;> rfl

@[simp]
theorem lift_ite (e : S.Emb T) (c : Prop) [Decidable c] (p q : Prog S α) :
    (if c then p else q).lift e = if c then p.lift e else q.lift e := by
  split <;> rfl

@[simp]
theorem lift_forEach {γ : Type} (e : S.Emb T) (xs : List γ) (f : γ → Prog S Unit) :
    (forEach xs f).lift e = forEach xs fun x ↦ (f x).lift e := by
  induction xs with
  | nil => rfl
  | cons x xs ih => simp only [forEach, lift_bind, ih]

/-- Every section of the program satisfies `P`. -/
def All (P : S.Op → Prop) : Prog S α → Prop
  | .ret _ => True
  | .op o k => P o ∧ ∀ r, (k r).All P

theorem All.of_forall {P : S.Op → Prop} (h : ∀ o, P o) (p : Prog S α) : p.All P := by
  induction p with
  | ret a => trivial
  | op o k ih => exact ⟨h o, ih⟩

theorem All.mono {P Q : S.Op → Prop} {p : Prog S α} (hp : p.All P) (h : ∀ o, P o → Q o) :
    p.All Q := by
  induction p with
  | ret a => trivial
  | op o k ih => exact ⟨h o hp.1, fun r ↦ ih r (hp.2 r)⟩

theorem All.bind {P : S.Op → Prop} {p : Prog S α} {f : α → Prog S β} (hp : p.All P)
    (hf : ∀ a, (f a).All P) : (p >>= f).All P := by
  induction p with
  | ret a => exact hf a
  | op o k ih => exact ⟨hp.1, fun r ↦ ih r (hp.2 r)⟩

theorem All.when {P : S.Op → Prop} {c : Prop} [Decidable c] {p : Prog S Unit} (hp : p.All P) :
    (when c p).All P := by
  unfold Prog.when
  split
  · exact hp
  · trivial

theorem All.forEach {P : S.Op → Prop} {γ : Type} {f : γ → Prog S Unit} (hf : ∀ x, (f x).All P)
    (xs : List γ) : (forEach xs f).All P := by
  induction xs with
  | nil => trivial
  | cons x xs ih => exact .bind (hf x) fun _ ↦ ih

theorem All.lift {P : T.Op → Prop} {e : S.Emb T} {p : Prog S α} (hp : p.All fun o ↦ P (e.op o)) :
    (p.lift e).All P := by
  induction p with
  | ret a => trivial
  | op o k ih => exact ⟨hp.1, fun r ↦ ih _ (hp.2 _)⟩

/-- A property of programs that one without sections has and that sequential composition keeps. -/
structure Closed (C : ∀ α : Type, Prog S α → Prop) : Prop where
  ret : ∀ {α : Type} (a : α), C α (.ret a)
  bind : ∀ {α β : Type} {p : Prog S α} {f : α → Prog S β}, C α p → (∀ a, C β (f a)) →
    C β (p >>= f)

variable {C : ∀ α : Type, Prog S α → Prop}

theorem Closed.all {ι : Type} {C : ι → ∀ α : Type, Prog S α → Prop} (h : ∀ i, Closed (C i)) :
    Closed fun α p ↦ ∀ i, C i α p where
  ret a i := (h i).ret a
  bind hp hf i := (h i).bind (hp i) fun a ↦ hf a i

theorem Closed.of_all {p : Prog S α} (hC : Closed C) (hp : p.All fun o ↦ C _ (call o)) :
    C α p := by
  induction p with
  | ret a => exact hC.ret a
  | op o k ih => exact hC.bind (p := call o) hp.1 fun r ↦ ih r (hp.2 r)

theorem Closed.when {c : Prop} [Decidable c] {p : Prog S Unit} (hC : Closed C) (hp : C Unit p) :
    C Unit (when c p) := by
  unfold Prog.when
  split
  · exact hp
  · exact hC.ret ()

theorem Closed.forEach {γ : Type} {f : γ → Prog S Unit} (hC : Closed C) (hf : ∀ x, C Unit (f x))
    (xs : List γ) : C Unit (forEach xs f) := by
  induction xs with
  | nil => exact hC.ret ()
  | cons x xs ih => exact hC.bind (hf x) fun _ ↦ ih

end Prog

variable {Tid σ : Type}

/-- A pool of threads over shared sections.  `Inp` is what the environment supplies to a section;
`run` gives the effect of a section executed by a thread, or `none` when it is blocked.  `enter t e
s` is the program that the idle thread `t` starts on the event `e`, with the state it starts
from. -/
structure Machine (Tid σ : Type) extends Sig where
  Inp : Op → Type
  run : Tid → (o : Op) → Inp o → σ → Option (Res o × σ)
  init : σ → Prop
  Entry : Type
  enter : Tid → Entry → σ → Option (Prog toSig Unit × σ)

namespace Machine

/-- The shared state together with what each thread still has to execute. -/
structure Config (M : Machine Tid σ) where
  state : σ
  thread : Tid → Option (Prog M.toSig Unit)

inductive Label (M : Machine Tid σ)
  | start (t : Tid) (e : M.Entry)
  | exec (t : Tid) (o : M.Op) (i : M.Inp o)
  | finish (t : Tid)

abbrev Guard (M : Machine Tid σ) : Type :=
  σ → M.Label → Prop

section Proof

variable (M : Machine Tid σ) (G : M.Guard) (I : σ → Prop) (Pre : Tid → M.Op → σ → Prop)

/-- What a thread may do to the shared state: start a program, or execute a section whose
precondition holds. -/
inductive Move (u : Tid) : σ → σ → Prop
  | enter {s s' : σ} {e : M.Entry} {p : Prog M.toSig Unit} :
      I s → G s (.start u e) → M.enter u e s = some (p, s') → Move u s s'
  | exec {s s' : σ} {o : M.Op} {i : M.Inp o} {r : M.Res o} :
      I s → Pre u o s → G s (.exec u o i) → M.run u o i s = some (r, s') → Move u s s'

/-- The moves of the threads other than `t`. -/
def Rely (t : Tid) (s s' : σ) : Prop :=
  ∃ u, u ≠ t ∧ Move M G I Pre u s s'

/-- Started in `s`, the program `p` run by `t` meets the precondition of every section it comes to
and ends with `Q`, whatever the other threads do before each of its sections. -/
def wp {α : Type} (t : Tid) : Prog M.toSig α → (α → σ → Prop) → σ → Prop
  | .ret a, Q, s => ∀ s₁, Relation.ReflTransGen (Rely M G I Pre t) s s₁ → I s₁ → Q a s₁
  | .op o k, Q, s => ∀ s₁, Relation.ReflTransGen (Rely M G I Pre t) s s₁ → I s₁ →
      ∀ (i : M.Inp o) (r : M.Res o) (s₂ : σ), G s₁ (.exec t o i) →
        M.run t o i s₁ = some (r, s₂) → Pre t o s₁ ∧ wp t (k r) Q s₂

/-- `J` survives what the threads other than `t` do. -/
def Stable (t : Tid) (J : σ → Prop) : Prop :=
  ∀ s s', J s → Rely M G I Pre t s s' → J s'

variable {M G I Pre} {α β : Type} {t : Tid}

theorem Stable.reach {J : σ → Prop} (h : M.Stable G I Pre t J) {s s' : σ} (hs : J s)
    (hr : Relation.ReflTransGen (Rely M G I Pre t) s s') : J s' := by
  induction hr with
  | refl => exact hs
  | tail _ hstep ih => exact h _ _ ih hstep

theorem wp_rely {p : Prog M.toSig α} {Q : α → σ → Prop} {s s' : σ}
    (h : M.wp G I Pre t p Q s) (hr : Relation.ReflTransGen (Rely M G I Pre t) s s') :
    M.wp G I Pre t p Q s' := by
  cases p with
  | ret a => exact fun s₁ h₁ hI ↦ h s₁ (hr.trans h₁) hI
  | op o k => exact fun s₁ h₁ hI ↦ h s₁ (hr.trans h₁) hI

theorem wp_of_rely {p : Prog M.toSig α} {Q : α → σ → Prop} {s : σ}
    (h : ∀ s₁, Relation.ReflTransGen (Rely M G I Pre t) s s₁ → I s₁ → M.wp G I Pre t p Q s₁) :
    M.wp G I Pre t p Q s := by
  cases p with
  | ret a => exact fun s₁ h₁ hI ↦ h s₁ h₁ hI s₁ .refl hI
  | op o k => exact fun s₁ h₁ hI ↦ h s₁ h₁ hI s₁ .refl hI

theorem wp_bind {p : Prog M.toSig α} {f : α → Prog M.toSig β} {Q : β → σ → Prop} {s : σ}
    (h : M.wp G I Pre t p (fun a s' ↦ M.wp G I Pre t (f a) Q s') s) :
    M.wp G I Pre t (p >>= f) Q s := by
  induction p generalizing s with
  | ret a => exact wp_of_rely h
  | op o k ih =>
    intro s₁ h₁ hI i r s₂ hG hrun
    obtain ⟨hpre, hwp⟩ := h s₁ h₁ hI i r s₂ hG hrun
    exact ⟨hpre, ih r hwp⟩

theorem wp_mono {p : Prog M.toSig α} {Q Q' : α → σ → Prop} {s : σ}
    (h : M.wp G I Pre t p Q s) (hQ : ∀ a s, I s → Q a s → Q' a s) : M.wp G I Pre t p Q' s := by
  induction p generalizing s with
  | ret a => exact fun s₁ h₁ hI ↦ hQ a s₁ hI (h s₁ h₁ hI)
  | op o k ih =>
    intro s₁ h₁ hI i r s₂ hG hrun
    obtain ⟨hpre, hwp⟩ := h s₁ h₁ hI i r s₂ hG hrun
    exact ⟨hpre, ih r hwp⟩

variable (M G I Pre t) in
/-- Started in a state with `P`, the program meets the precondition of every section it comes to
and ends with `Q`. -/
def Triple (P : σ → Prop) (p : Prog M.toSig α) (Q : α → σ → Prop) : Prop :=
  ∀ s, P s → M.wp G I Pre t p Q s

section Triple

variable {P P' : σ → Prop} {Q Q' : α → σ → Prop} {R : β → σ → Prop}

theorem Triple.ret {a : α} (hP : M.Stable G I Pre t P) (h : ∀ s, I s → P s → Q a s) :
    M.Triple G I Pre t P (.ret a) Q :=
  fun _ hs s₁ h₁ hI ↦ h s₁ hI (hP.reach hs h₁)

theorem Triple.op {o : M.Op} {k : M.Res o → Prog M.toSig α} {R : M.Res o → σ → Prop}
    (hP : M.Stable G I Pre t P)
    (h : ∀ (s : σ) (i : M.Inp o) (r : M.Res o) (s' : σ), I s → P s → G s (.exec t o i) →
      M.run t o i s = some (r, s') → Pre t o s ∧ R r s')
    (hk : ∀ r, M.Triple G I Pre t (R r) (k r) Q) : M.Triple G I Pre t P (.op o k) Q := by
  intro s hs s₁ h₁ hI i r s₂ hG hrun
  obtain ⟨hpre, hR⟩ := h s₁ i r s₂ hI (hP.reach hs h₁) hG hrun
  exact ⟨hpre, hk r s₂ hR⟩

/-- The rule for a single section whose result is described by stable assertions. -/
theorem Triple.call {o : M.Op} {R : M.Res o → σ → Prop} (hP : M.Stable G I Pre t P)
    (hR : ∀ r, M.Stable G I Pre t (R r))
    (h : ∀ (s : σ) (i : M.Inp o) (r : M.Res o) (s' : σ), I s → P s → G s (.exec t o i) →
      M.run t o i s = some (r, s') → Pre t o s ∧ R r s') :
    M.Triple G I Pre t P (.call o) R :=
  .op hP h fun r ↦ .ret (hR r) fun _ _ hs ↦ hs

theorem Triple.bind {p : Prog M.toSig α} {f : α → Prog M.toSig β}
    (hp : M.Triple G I Pre t P p Q) (hf : ∀ a, M.Triple G I Pre t (Q a) (f a) R) :
    M.Triple G I Pre t P (p >>= f) R :=
  fun s hs ↦ wp_bind (wp_mono (hp s hs) fun a s' _ ha ↦ hf a s' ha)

theorem Triple.pre {p : Prog M.toSig α} (hp : M.Triple G I Pre t P' p Q) (h : ∀ s, P s → P' s) :
    M.Triple G I Pre t P p Q :=
  fun s hs ↦ hp s (h s hs)

theorem Triple.post {p : Prog M.toSig α} (hp : M.Triple G I Pre t P p Q)
    (h : ∀ a s, I s → Q a s → Q' a s) : M.Triple G I Pre t P p Q' :=
  fun s hs ↦ wp_mono (hp s hs) h

/-- A stable assertion that every section of a program keeps, and that gives the precondition of
each of them, holds at the end of the program. -/
theorem Triple.all {p : Prog M.toSig α} {C : M.Op → Prop} (hP : M.Stable G I Pre t P)
    (hp : p.All C)
    (h : ∀ o, C o → ∀ (s : σ) (i : M.Inp o) (r : M.Res o) (s' : σ), I s → P s →
      G s (.exec t o i) → M.run t o i s = some (r, s') → Pre t o s ∧ P s') :
    M.Triple G I Pre t P p fun _ ↦ P := by
  induction p with
  | ret a => exact .ret hP fun _ _ hs ↦ hs
  | op o k ih => exact .op hP (h o hp.1) fun r ↦ ih r (hp.2 r)

theorem Triple.when {c : Prop} [Decidable c] {p : Prog M.toSig Unit} {Q : σ → Prop}
    (hP : M.Stable G I Pre t P) (hp : c → M.Triple G I Pre t P p fun _ ↦ Q)
    (hskip : ¬ c → ∀ s, I s → P s → Q s) : M.Triple G I Pre t P (.when c p) fun _ ↦ Q := by
  unfold Prog.when
  split
  · next h => exact hp h
  · next h => exact .ret hP (hskip h)

end Triple

theorem stable_true : M.Stable G I Pre t fun _ ↦ True :=
  fun _ _ _ _ ↦ trivial

variable (M G I Pre t) in
/-- Whatever the state it is started in, the program meets the precondition of every section. -/
def Safe (p : Prog M.toSig α) : Prop :=
  M.Triple G I Pre t (fun _ ↦ True) p fun _ _ ↦ True

theorem Safe.ret (a : α) : M.Safe G I Pre t (.ret a) :=
  Triple.ret stable_true fun _ _ _ ↦ trivial

theorem Safe.bind {p : Prog M.toSig α} {f : α → Prog M.toSig β}
    (hp : M.Safe G I Pre t p) (hf : ∀ a, M.Safe G I Pre t (f a)) :
    M.Safe G I Pre t (p >>= f) :=
  Triple.bind hp hf

theorem Safe.pre {p : Prog M.toSig α} {P : σ → Prop} (hp : M.Safe G I Pre t p) :
    M.Triple G I Pre t P p fun _ _ ↦ True :=
  Triple.pre hp fun _ _ ↦ trivial

theorem Safe.when {c : Prop} [Decidable c] {p : Prog M.toSig Unit} (hp : M.Safe G I Pre t p) :
    M.Safe G I Pre t (.when c p) :=
  Triple.when stable_true (fun _ ↦ hp) fun _ _ _ _ ↦ trivial

/-- A program is safe if the precondition of each of its sections always holds. -/
theorem Safe.of_all {p : Prog M.toSig α} (h : p.All fun o ↦ ∀ s, Pre t o s) :
    M.Safe G I Pre t p :=
  Triple.all stable_true h fun _ ho s _ _ _ _ _ _ _ ↦ ⟨ho s, trivial⟩

/-- The obligations of a proof about a machine: the invariant holds initially and is kept by every
section under its precondition, and every program that is started meets its preconditions. -/
structure Verified (M : Machine Tid σ) (G : M.Guard) (I : σ → Prop)
    (Pre : Tid → M.Op → σ → Prop) : Prop where
  init : ∀ s, M.init s → I s
  enter : ∀ t e s p s', I s → G s (.start t e) → M.enter t e s = some (p, s') →
    I s' ∧ M.wp G I Pre t p (fun _ _ ↦ True) s'
  exec : ∀ t o i s r s', I s → Pre t o s → G s (.exec t o i) → M.run t o i s = some (r, s') → I s'

section Guard

variable {G' : M.Guard}

theorem Move.guard (h : ∀ s l, G' s l → G s l) {s s' : σ} (hm : M.Move G' I Pre t s s') :
    M.Move G I Pre t s s' := by
  cases hm with
  | enter hI hG henter => exact .enter hI (h _ _ hG) henter
  | exec hI hpre hG hrun => exact .exec hI hpre (h _ _ hG) hrun

/-- A proof about the runs allowed by a guard is one about the runs allowed by a stronger guard. -/
theorem wp_guard (h : ∀ s l, G' s l → G s l) {p : Prog M.toSig α} {Q : α → σ → Prop} {s : σ}
    (hp : M.wp G I Pre t p Q s) : M.wp G' I Pre t p Q s := by
  have hrely : ∀ s s', Relation.ReflTransGen (Rely M G' I Pre t) s s' →
      Relation.ReflTransGen (Rely M G I Pre t) s s' := by
    intro s s' hr
    induction hr with
    | refl => exact .refl
    | tail _ hstep ih =>
      obtain ⟨u, hu, hm⟩ := hstep
      exact ih.tail ⟨u, hu, hm.guard h⟩
  induction p generalizing s with
  | ret a => exact fun s₁ h₁ hI ↦ hp s₁ (hrely _ _ h₁) hI
  | op o k ih =>
    intro s₁ h₁ hI i r s₂ hG hrun
    obtain ⟨hpre, hwp⟩ := hp s₁ (hrely _ _ h₁) hI i r s₂ (h _ _ hG) hrun
    exact ⟨hpre, ih r hwp⟩

theorem Verified.guard (hM : M.Verified G I Pre) (h : ∀ s l, G' s l → G s l) :
    M.Verified G' I Pre where
  init := hM.init
  enter t e s p s' hI hG henter := by
    obtain ⟨hI', hp⟩ := hM.enter t e s p s' hI (h _ _ hG) henter
    exact ⟨hI', wp_guard h hp⟩
  exec t o i s r s' hI hpre hG hrun := hM.exec t o i s r s' hI hpre (h _ _ hG) hrun

end Guard

end Proof

variable [DecidableEq Tid]

inductive Step (M : Machine Tid σ) : M.Config → M.Label → M.Config → Prop
  | start {c : M.Config} {t : Tid} {e : M.Entry} {p : Prog M.toSig Unit} {s' : σ} :
      c.thread t = none → M.enter t e c.state = some (p, s') →
      Step M c (.start t e) ⟨s', Function.update c.thread t (some p)⟩
  | exec {c : M.Config} {t : Tid} {o : M.Op} {k : M.Res o → Prog M.toSig Unit}
      {i : M.Inp o} {r : M.Res o} {s' : σ} :
      c.thread t = some (.op o k) → M.run t o i c.state = some (r, s') →
      Step M c (.exec t o i) ⟨s', Function.update c.thread t (some (k r))⟩
  | finish {c : M.Config} {t : Tid} :
      c.thread t = some (.ret ()) →
      Step M c (.finish t) ⟨c.state, Function.update c.thread t none⟩

/-- The transition system of the pool: every thread is idle at the start. -/
def system (M : Machine Tid σ) : System M.Config M.Label where
  init c := M.init c.state ∧ ∀ t, c.thread t = none
  step := M.Step

/-- Configurations reached by runs whose steps all satisfy the guard. -/
abbrev Reach (M : Machine Tid σ) (G : M.Guard) : M.Config → Prop :=
  M.system.Reach fun c l ↦ G c.state l

section Soundness

variable {M : Machine Tid σ} {G : M.Guard} {I : σ → Prop} {Pre : Tid → M.Op → σ → Prop} {t : Tid}

/-- Threads stay safe when one of them is replaced by a safe program and the others tolerate the
change of the state. -/
theorem safe_update {thread : Tid → Option (Prog M.toSig Unit)}
    {p : Option (Prog M.toSig Unit)} {s : σ}
    (hother : ∀ u q, u ≠ t → thread u = some q → M.wp G I Pre u q (fun _ _ ↦ True) s)
    (hp : ∀ q, p = some q → M.wp G I Pre t q (fun _ _ ↦ True) s) (u : Tid)
    (q : Prog M.toSig Unit) (hq : Function.update thread t p u = some q) :
    M.wp G I Pre u q (fun _ _ ↦ True) s := by
  by_cases hu : u = t
  · subst hu
    rw [Function.update_self] at hq
    exact hp q hq
  · rw [Function.update_of_ne hu] at hq
    exact hother u q hu hq

/-- In every configuration of a restricted run the invariant holds and every thread is safe. -/
theorem Verified.sound (hM : M.Verified G I Pre) {c : M.Config} (hc : M.Reach G c) :
    I c.state ∧ ∀ t p, c.thread t = some p → M.wp G I Pre t p (fun _ _ ↦ True) c.state := by
  refine System.Reach.invariant
    (I := fun c ↦ I c.state ∧ ∀ t p, c.thread t = some p →
      M.wp G I Pre t p (fun _ _ ↦ True) c.state) hc ?_ ?_
  · rintro c ⟨hinit, hidle⟩
    exact ⟨hM.init _ hinit, fun t p hp ↦ by simp [hidle t] at hp⟩
  · rintro c l c' ⟨hI, hthreads⟩ hG hstep
    cases hstep with
    | @start t e p s' _ henter =>
      obtain ⟨hI', hp⟩ := hM.enter t e _ p s' hI hG henter
      refine ⟨hI', safe_update (fun u q hu hq ↦ ?_) fun q hq ↦ ?_⟩
      · exact wp_rely (hthreads u q hq) (.single ⟨t, Ne.symm hu, .enter hI hG henter⟩)
      · exact Option.some.inj hq ▸ hp
    | @exec t o k i r s' hthread hrun =>
      obtain ⟨hpre, hnext⟩ := hthreads t _ hthread _ .refl hI i r s' hG hrun
      refine ⟨hM.exec t o i _ r s' hI hpre hG hrun,
        safe_update (fun u q hu hq ↦ ?_) fun q hq ↦ ?_⟩
      · exact wp_rely (hthreads u q hq) (.single ⟨t, Ne.symm hu, .exec hI hpre hG hrun⟩)
      · exact Option.some.inj hq ▸ hnext
    | @finish t hthread =>
      exact ⟨hI, safe_update (fun u q _ hq ↦ hthreads u q hq) fun q hq ↦ by simp at hq⟩

/-- The precondition of a section that is executed in a reached configuration holds. -/
theorem Verified.pre (hM : M.Verified G I Pre) {c c' : M.Config} (hc : M.Reach G c) {o : M.Op}
    {i : M.Inp o} (hG : G c.state (.exec t o i)) (hstep : M.Step c (.exec t o i) c') :
    Pre t o c.state := by
  obtain ⟨hI, hthreads⟩ := hM.sound hc
  cases hstep with
  | exec hthread hrun => exact (hthreads t _ hthread _ .refl hI _ _ _ hG hrun).1

/-- The guard that adds a verified invariant and the verified preconditions to `G`. -/
def Guard.with (G : M.Guard) (I : σ → Prop) (Pre : Tid → M.Op → σ → Prop) : M.Guard
  | s, .exec t o i => G s (.exec t o i) ∧ I s ∧ Pre t o s
  | s, l => G s l ∧ I s

theorem Verified.with_step (hM : M.Verified G I Pre) {c c' : M.Config} {l : M.Label}
    (hc : M.Reach G c) (hG : G c.state l) (hstep : M.Step c l c') : G.with I Pre c.state l := by
  obtain ⟨hI, -⟩ := hM.sound hc
  cases hstep with
  | start _ _ => exact ⟨hG, hI⟩
  | exec hthread hrun => exact ⟨hG, hI, hM.pre hc hG (.exec hthread hrun)⟩
  | finish _ => exact ⟨hG, hI⟩

/-- A verified fact may be assumed at every step of a later proof. -/
theorem Verified.strengthen (hM : M.Verified G I Pre) {c : M.Config} (hc : M.Reach G c) :
    M.Reach (G.with I Pre) c := by
  induction hc with
  | start h => exact .start h
  | next hr hG hstep ih => exact .next ih (hM.with_step hr hG hstep) hstep

end Soundness

section Schedule

variable {M : Machine Tid σ}

/-- One item of a schedule: start a program, or let a thread take a step with the given
environment inputs. -/
inductive Act (M : Machine Tid σ)
  | start (t : Tid) (e : M.Entry)
  | step (t : Tid) (inp : (o : M.Op) → M.Inp o)

def act (c : M.Config) : M.Act → Option (M.Label × M.Config)
  | .start t e =>
    match c.thread t, M.enter t e c.state with
    | none, some (p, s') => some (.start t e, ⟨s', Function.update c.thread t (some p)⟩)
    | _, _ => none
  | .step t inp =>
    match c.thread t with
    | none => none
    | some (.ret ()) => some (.finish t, ⟨c.state, Function.update c.thread t none⟩)
    | some (.op o k) =>
      match M.run t o (inp o) c.state with
      | none => none
      | some (r, s') => some (.exec t o (inp o), ⟨s', Function.update c.thread t (some (k r))⟩)

/-- An action that can be evaluated is a step. -/
theorem act_sound {c c' : M.Config} {a : M.Act} {l : M.Label} (h : act c a = some (l, c')) :
    M.Step c l c' := by
  cases a with
  | start t e =>
    simp only [act] at h
    split at h
    · next hthread henter =>
      cases h
      exact .start hthread henter
    · cases h
  | step t inp =>
    simp only [act] at h
    split at h
    · cases h
    · next hthread =>
      cases h
      exact .finish hthread
    · next o k hthread =>
      split at h
      · cases h
      · next r s' hrun =>
        cases h
        exact .exec hthread hrun

def exec (M : Machine Tid σ) : M.system.Exec where
  Act := M.Act
  step := act
  sound := act_sound

def idle (M : Machine Tid σ) (s : σ) : M.Config :=
  ⟨s, fun _ ↦ none⟩

theorem init_idle {s : σ} (h : M.init s) : M.system.init (M.idle s) :=
  ⟨h, fun _ ↦ rfl⟩

def Act.tid : M.Act → Tid
  | .start t _ | .step t _ => t

theorem act_thread {c c' : M.Config} {a : M.Act} {l : M.Label} (h : act c a = some (l, c'))
    {u : Tid} (hu : u ≠ a.tid) : c'.thread u = c.thread u := by
  cases a with
  | start t e =>
    simp only [act] at h
    split at h <;> cases h
    exact Function.update_of_ne hu _ _
  | step t inp =>
    simp only [act] at h
    (repeat' split at h) <;> cases h <;>
      exact Function.update_of_ne hu _ _

theorem play_thread {ok : M.Config → M.Label → Bool} {as : List M.Act} {c c' : M.Config}
    (h : M.exec.play ok as c = some c') {u : Tid} (hu : ∀ a ∈ as, u ≠ a.tid) :
    c'.thread u = c.thread u := by
  induction as generalizing c with
  | nil => exact congrArg (·.thread u) (Option.some.inj h).symm
  | cons a as ih =>
    simp only [System.Exec.play] at h
    split at h
    · cases h
    · next l c₁ hstep =>
      split at h
      · exact (ih h fun b hb ↦ hu b (List.mem_cons_of_mem a hb)).trans
          (act_thread hstep (hu a List.mem_cons_self))
      · cases h

/-- A schedule at whose end its threads are idle again leaves every thread idle. -/
theorem idle_of_play (ok : M.Config → M.Label → Bool) (goal : M.Config → Bool) (as : List M.Act)
    {s : σ} (hs : M.init s)
    (h : (M.exec.play ok as (M.idle s)).any (fun c ↦ goal c && as.all fun a ↦
      (c.thread a.tid).isNone) = true) :
    ∃ c, M.system.Reach (fun c l ↦ ok c l) c ∧ goal c ∧ ∀ t, c.thread t = none := by
  obtain ⟨c, hplay, hgoal⟩ := (Option.any_eq_true _ _).1 h
  obtain ⟨hgoal, hidle⟩ := Bool.and_eq_true_iff.1 hgoal
  refine ⟨c, System.Exec.play_reach (fun _ _ h ↦ h) (.start (init_idle hs)) hplay, hgoal, ?_⟩
  intro t
  by_cases ht : ∃ a ∈ as, t = a.tid
  · obtain ⟨a, ha, rfl⟩ := ht
    simpa using List.all_eq_true.1 hidle a ha
  · exact play_thread hplay fun a ha heq ↦ ht ⟨a, ha, heq⟩

end Schedule

end Machine

end ThunderboltStack.Lib
