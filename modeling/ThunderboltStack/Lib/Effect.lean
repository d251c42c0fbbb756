import ThunderboltStack.Lib.Program

/-!
# Effects of sections on what a thread knows

What a thread knows about the shared state is a ghost state.  An effect says for each section with
which ghost states it may be executed and what is known after it, and `Prog.wlp` folds that over a
program.  `Machine.Tracks` connects an effect with the sections of a machine; a program then meets
the preconditions of its sections whatever the other threads do (`Tracks.triple`).
-/

namespace ThunderboltStack.Lib

/-- What sections do to a ghost state: with `v`, the section may be executed, and `Q` holds of what
it returns and of the ghost state after it. -/
abbrev Effect (S : Sig) (V : Type) : Type :=
  (o : S.Op) → V → (S.Res o → V → Prop) → Prop

namespace Effect

variable {S T : Sig} {V : Type}

def lift (E : Effect T V) (e : S.Emb T) : Effect S V :=
  fun o v Q ↦ E (e.op o) v fun r ↦ Q (e.res o r)

/-- Sections that leave the ghost state `v` alone. -/
def Keeps (E : Effect S V) (v : V) (o : S.Op) : Prop :=
  ∀ Q : S.Res o → V → Prop, (∀ r, Q r v) → E o v Q

def asserts (P : S.Op → Prop) : Effect S Unit
  | o, _, Q => P o ∧ ∀ r, Q r ()

end Effect

namespace Prog

variable {S T : Sig} {V α β : Type} {E : Effect S V} {v : V}

/-- With `v`, every section of the program may be executed, and `Q` holds of what it returns and of
the ghost state at its end. -/
def wlp (E : Effect S V) : Prog S α → (α → V → Prop) → V → Prop
  | .ret a, Q, v => Q a v
  | .op o k, Q, v => E o v fun r v' ↦ (k r).wlp E Q v'

@[simp]
theorem wlp_ret (a : α) (Q : α → V → Prop) : (Prog.ret a).wlp E Q v ↔ Q a v :=
  Iff.rfl

@[simp]
theorem wlp_call (o : S.Op) (Q : S.Res o → V → Prop) :
    Prog.wlp (α := no_index (S.Res o)) E (call o) Q v ↔ E o v Q :=
  Iff.rfl

@[simp]
theorem wlp_bind (p : Prog S α) (f : α → Prog S β) (Q : β → V → Prop) :
    (p >>= f).wlp E Q v ↔ p.wlp E (fun a v' ↦ (f a).wlp E Q v') v := by
  induction p generalizing v with
  | ret a => exact Iff.rfl
  | op o k ih => exact iff_of_eq (congrArg (E o v) (funext fun r ↦ funext fun v' ↦ propext (ih r)))

@[simp]
theorem wlp_lift (E : Effect T V) (e : S.Emb T) (p : Prog S α) (Q : α → V → Prop) :
    (p.lift e).wlp E Q v ↔ p.wlp (E.lift e) Q v := by
  induction p generalizing v with
  | ret a => exact Iff.rfl
  | op o k ih => exact iff_of_eq (congrArg (E _ v) (funext fun r ↦ funext fun v' ↦ propext (ih _)))

@[simp]
theorem wlp_ite (c : Prop) [Decidable c] (p q : Prog S α) (Q : α → V → Prop) :
    (if c then p else q).wlp E Q v ↔ (c → p.wlp E Q v) ∧ (¬ c → q.wlp E Q v) := by
  split <;> simp_all

@[simp]
theorem wlp_when (c : Prop) [Decidable c] (p : Prog S Unit) (Q : Unit → V → Prop) :
    (when c p).wlp E Q v ↔ (c → p.wlp E Q v) ∧ (¬ c → Q () v) :=
  wlp_ite c p _ Q

/-- A program whose sections leave the ghost state alone does so, too. -/
theorem wlp_of_all {p : Prog S α} {Q : α → V → Prop} (hp : p.All (E.Keeps v)) (hQ : ∀ a, Q a v) :
    p.wlp E Q v := by
  induction p with
  | ret a => exact hQ a
  | op o k ih => exact hp.1 _ fun r ↦ ih r (hp.2 r)

theorem wlp_bind_of_all {p : Prog S α} {f : α → Prog S β} {Q : β → V → Prop}
    (hp : p.All (E.Keeps v)) (hf : ∀ a, (f a).wlp E Q v) : (p >>= f).wlp E Q v :=
  (wlp_bind _ _ _).mpr (wlp_of_all hp hf)

variable (E v) in
/-- The program leaves the ghost state `v` as it found it. -/
def Neutral (p : Prog S α) : Prop :=
  ∀ Q : α → V → Prop, (∀ a, Q a v) → p.wlp E Q v

theorem closed_neutral : Closed (S := S) fun _ p ↦ p.Neutral E v where
  ret a _ hQ := hQ a
  bind hp hf _ hQ := (wlp_bind _ _ _).mpr (hp _ fun a ↦ hf a _ hQ)

theorem Neutral.lift {E : Effect T V} {e : S.Emb T} {p : Prog S α} (h : p.Neutral (E.lift e) v) :
    (p.lift e).Neutral E v :=
  fun Q hQ ↦ (wlp_lift E e p Q).mpr (h Q hQ)

/-- To show that all sections of a program have a property, one may go through the program. -/
theorem all_of_neutral {P : S.Op → Prop} {p : Prog S α} (hp : p.Neutral (.asserts P) ()) :
    p.All P := by
  have h := hp (fun _ _ ↦ True) fun _ ↦ trivial
  clear hp
  induction p with
  | ret a => trivial
  | op o k ih => exact ⟨h.1, fun r ↦ ih r (h.2 r)⟩

theorem neutral_of_all {p : Prog S α} (hp : p.All (E.Keeps v)) : p.Neutral E v :=
  fun _ ↦ wlp_of_all hp

end Prog

namespace Machine

variable {Tid σ V α : Type} {M : Machine Tid σ} {G : M.Guard} {I : σ → Prop}
  {Pre : Tid → M.Op → σ → Prop} {t : Tid}

variable (M G I Pre t) in
/-- The sections of `t` act on its ghost state as the effect says.  `own v` is what the ghost state
`v` says about the shared state. -/
structure Tracks (own : V → σ → Prop) (E : Effect M.toSig V) : Prop where
  stable : ∀ v, M.Stable G I Pre t (own v)
  exec : ∀ o v (Q : M.Res o → V → Prop), E o v Q → ∀ (s : σ) (i : M.Inp o) (r : M.Res o) (s' : σ),
    I s → own v s → G s (.exec t o i) → M.run t o i s = some (r, s') →
      Pre t o s ∧ ∃ v', own v' s' ∧ Q r v'

theorem Tracks.triple {own : V → σ → Prop} {E : Effect M.toSig V} (h : M.Tracks G I Pre t own E)
    {p : Prog M.toSig α} {Q : α → V → Prop} {v : V} (hp : p.wlp E Q v) :
    M.Triple G I Pre t (own v) p fun a s ↦ ∃ v', own v' s ∧ Q a v' := by
  induction p generalizing v with
  | ret a => exact .ret (h.stable v) fun s _ hs ↦ ⟨v, hs, hp⟩
  | op o k ih =>
    exact .op (R := fun r s ↦ ∃ v', own v' s ∧ (k r).wlp E Q v') (h.stable v)
      (fun s i r s' hI hs hG hrun ↦ h.exec o v _ hp s i r s' hI hs hG hrun)
      fun r s ⟨v', hs, hk⟩ ↦ ih r hk s hs

end Machine

end ThunderboltStack.Lib
