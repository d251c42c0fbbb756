import Mathlib.Logic.Function.Basic
import Mathlib.Logic.Relation

/-!
# Labelled transition systems and restricted runs

A system is a set of initial states and a labelled step relation.  `Reach` collects the states of
the runs all of whose steps satisfy a restriction on the state before the step and the label.  An
invariant is proved once, by one induction over runs.  `Reach.strengthen` turns a fact that holds
at every step of the restricted runs into a part of the restriction, so results can be stacked.
-/

namespace ThunderboltStack.Lib

structure System (State Label : Type) where
  /-- States a run may start from. -/
  init : State → Prop
  /-- The step relation. -/
  step : State → Label → State → Prop

namespace System

variable {State Label : Type}

/-- The states reached by runs whose steps all satisfy `allowed`. -/
inductive Reach (sys : System State Label) (allowed : State → Label → Prop) : State → Prop
  | start {s : State} : sys.init s → Reach sys allowed s
  | next {s s' : State} {l : Label} :
      Reach sys allowed s → allowed s l → sys.step s l s' → Reach sys allowed s'

abbrev Reachable (sys : System State Label) : State → Prop :=
  sys.Reach fun _ _ ↦ True

variable {sys : System State Label} {allowed : State → Label → Prop}

/-- A predicate that holds initially and is kept by every allowed step holds in every state. -/
theorem Reach.invariant {I : State → Prop} {s : State} (hreach : sys.Reach allowed s)
    (hinit : ∀ s, sys.init s → I s)
    (hstep : ∀ s l s', I s → allowed s l → sys.step s l s' → I s') : I s := by
  induction hreach with
  | start h => exact hinit _ h
  | next _ hallowed hs ih => exact hstep _ _ _ ih hallowed hs

theorem Reach.mono {allowed' : State → Label → Prop} {s : State}
    (hreach : sys.Reach allowed s) (h : ∀ s l, allowed s l → allowed' s l) :
    sys.Reach allowed' s := by
  induction hreach with
  | start h₀ => exact .start h₀
  | next _ hallowed hs ih => exact .next ih (h _ _ hallowed) hs

/-- What holds at each step of the restricted runs may be added to the restriction. -/
theorem Reach.strengthen {extra : State → Label → Prop} {s : State}
    (hreach : sys.Reach allowed s)
    (h : ∀ s l s', sys.Reach allowed s → allowed s l → sys.step s l s' → extra s l) :
    sys.Reach (fun s l ↦ allowed s l ∧ extra s l) s := by
  induction hreach with
  | start h₀ => exact .start h₀
  | next hr hallowed hs ih => exact .next ih ⟨hallowed, h _ _ _ hr hallowed hs⟩ hs

/-- If every allowed step leaves a part of the state alone or is an allowed step of a system of its
own on that part, then the part runs within its restriction. -/
theorem Reach.project {State' Label' : Type} {sys' : System State' Label'}
    {allowed' : State' → Label' → Prop} (part : State → State') {s : State}
    (hreach : sys.Reach allowed s) (hinit : ∀ s, sys.init s → sys'.init (part s))
    (hstep : ∀ s l s', allowed s l → sys.step s l s' → part s' = part s ∨
      ∃ l', allowed' (part s) l' ∧ sys'.step (part s) l' (part s')) :
    sys'.Reach allowed' (part s) := by
  induction hreach with
  | start h => exact .start (hinit _ h)
  | next _ hallowed hs ih =>
    rcases hstep _ _ _ hallowed hs with hsame | ⟨l', hallowed', hs'⟩
    · rw [hsame]
      exact ih
    · exact .next ih hallowed' hs'

/-! ## Products -/

section Product

variable {X : Type} [DecidableEq X] {S L : X → Type}

def pi (sys : ∀ x, System (S x) (L x)) : System (∀ x, S x) (Σ x, L x) where
  init s := ∀ x, (sys x).init (s x)
  step s l s' := ∃ s₁, (sys l.1).step (s l.1) l.2 s₁ ∧ s' = Function.update s l.1 s₁

/-- If, given that the components so far ran within their restrictions, an allowed step of the
product is allowed in its component, then the components run within their restrictions. -/
theorem Reach.component {sys : ∀ x, System (S x) (L x)}
    {allowed : (∀ x, S x) → (Σ x, L x) → Prop} (allowed' : ∀ x, S x → L x → Prop)
    (h : ∀ s x l, (∀ y, (sys y).Reach (allowed' y) (s y)) → allowed s ⟨x, l⟩ → allowed' x (s x) l)
    {s : ∀ x, S x} (hs : (pi sys).Reach allowed s) : ∀ x, (sys x).Reach (allowed' x) (s x) := by
  induction hs with
  | start h₀ => exact fun x ↦ .start (h₀ x)
  | @next s s' l _ hallowed hstep ih =>
    obtain ⟨s₁, hs₁, rfl⟩ := hstep
    intro y
    by_cases hy : y = l.1
    · subst hy
      rw [Function.update_self]
      exact .next (ih _) (h s _ _ ih hallowed) hs₁
    · rw [Function.update_of_ne hy]
      exact ih y

end Product

/-! ## Executable runs -/

/-- An executable way to take steps: an action determines the label and the next state. -/
structure Exec (sys : System State Label) where
  Act : Type
  step : State → Act → Option (Label × State)
  sound : ∀ {s a l s'}, step s a = some (l, s') → sys.step s l s'

namespace Exec

variable (ex : sys.Exec) (ok : State → Label → Bool)

/-- Take the steps of a list of actions, each of which has to satisfy `ok`. -/
def play : List ex.Act → State → Option State
  | [], s => some s
  | a :: as, s =>
    match ex.step s a with
    | none => none
    | some (l, s') => if ok s l then play as s' else none

variable {ex ok}

theorem play_reach {as : List ex.Act} {s s' : State} (hok : ∀ s l, ok s l → allowed s l)
    (hs : sys.Reach allowed s) (h : ex.play ok as s = some s') : sys.Reach allowed s' := by
  induction as generalizing s with
  | nil => exact Option.some.inj h ▸ hs
  | cons a as ih =>
    simp only [play] at h
    split at h
    · cases h
    · next l s₁ hstep =>
      split at h
      · next hl => exact ih (.next hs (hok _ _ hl) (ex.sound hstep)) h
      · cases h

/-- A run that ends in a state with a decidable property shows that such a state is reached. -/
theorem reach_of_play (ex : sys.Exec) (ok : State → Label → Bool) (goal : State → Bool)
    (as : List ex.Act) {s : State} (hs : sys.init s) (h : (ex.play ok as s).any goal = true) :
    ∃ s', sys.Reach (fun s l ↦ ok s l) s' ∧ goal s' := by
  cases hplay : ex.play ok as s with
  | none => simp [hplay] at h
  | some s' => exact ⟨s', play_reach (fun _ _ h ↦ h) (.start hs) hplay, by simpa [hplay] using h⟩

def pi {X : Type} [DecidableEq X] {S L : X → Type} {sys : ∀ x, System (S x) (L x)}
    (ex : ∀ x, (sys x).Exec) : (System.pi sys).Exec where
  Act := Σ x, (ex x).Act
  step s a := ((ex a.1).step (s a.1) a.2).map fun r ↦ (⟨a.1, r.1⟩, Function.update s a.1 r.2)
  sound {s a l s'} h := by
    obtain ⟨r, hr, heq⟩ := Option.map_eq_some_iff.1 h
    obtain ⟨rfl, rfl⟩ := Prod.mk.inj heq
    exact ⟨r.2, (ex a.1).sound hr, rfl⟩

end Exec

end System

end ThunderboltStack.Lib
