import ThunderboltStack.Lib.Program

/-!
# Duties of threads

A thread that takes something over (a buffer, a notification, a reference) owes a later section that
passes it on.  `Prog.Answers` says of a program that whatever one of its sections takes over, every
way on from there comes to a section that meets this duty.  It is a property of the text of the
program.  If all programs of a machine have it and the state says who owes what, an idle thread owes
nothing in any configuration that is reached (`Machine.Dutiful.idle`).
-/

namespace ThunderboltStack.Lib

/-- The duties of a signature: which of them a section takes over, given what it returns, and which
sections meet a duty. -/
structure Duties (S : Sig) (ι : Type) where
  takes : (o : S.Op) → S.Res o → ι → Prop
  meets : ι → S.Op → Prop

namespace Prog

variable {S T : Sig} {α β ι : Type}

/-- Every way through the program comes to a section that satisfies `P`. -/
def Meets (P : S.Op → Prop) : Prog S α → Prop
  | .ret _ => False
  | .op o k => P o ∨ ∀ r, (k r).Meets P

theorem Meets.mono {P Q : S.Op → Prop} {p : Prog S α} (hp : p.Meets P) (h : ∀ o, P o → Q o) :
    p.Meets Q := by
  induction p with
  | ret a => exact hp
  | op o k ih => exact hp.imp (h o) fun hk r ↦ ih r (hk r)

theorem Meets.bind {P : S.Op → Prop} {p : Prog S α} (hp : p.Meets P) (f : α → Prog S β) :
    (p >>= f).Meets P := by
  induction p with
  | ret a => exact hp.elim
  | op o k ih => exact hp.imp_right fun hk r ↦ ih r (hk r)

theorem Meets.of_bind {P : S.Op → Prop} (p : Prog S α) {f : α → Prog S β}
    (hf : ∀ a, (f a).Meets P) : (p >>= f).Meets P := by
  induction p with
  | ret a => exact hf a
  | op o k ih => exact .inr ih

theorem Meets.lift {P : T.Op → Prop} {e : S.Emb T} {p : Prog S α}
    (hp : p.Meets fun o ↦ P (e.op o)) : (p.lift e).Meets P := by
  induction p with
  | ret a => exact hp.elim
  | op o k ih => exact hp.imp_right fun hk r ↦ ih _ (hk _)

theorem Meets.forEach {P : S.Op → Prop} {γ : Type} {f : γ → Prog S Unit} {x : γ}
    (hf : (f x).Meets P) {xs : List γ} (hx : x ∈ xs) : (forEach xs f).Meets P := by
  induction xs with
  | nil => cases hx
  | cons y ys ih =>
    cases hx with
    | head => exact hf.bind _
    | tail _ hx => exact .of_bind _ fun _ ↦ ih hx

/-- Whatever a section of the program takes over, the program meets it afterwards. -/
def Answers (D : Duties S ι) : Prog S α → Prop
  | .ret _ => True
  | .op o k => ∀ r, (∀ x, D.takes o r x → (k r).Meets (D.meets x)) ∧ (k r).Answers D

variable {D : Duties S ι}

theorem Answers.bind {p : Prog S α} {f : α → Prog S β} (hp : p.Answers D)
    (hf : ∀ a, (f a).Answers D) : (p >>= f).Answers D := by
  induction p with
  | ret a => exact hf a
  | op o k ih => exact fun r ↦ ⟨fun x hx ↦ ((hp r).1 x hx).bind f, ih r (hp r).2⟩

theorem closed_answers (D : Duties S ι) : Closed fun α (p : Prog S α) ↦ p.Answers D :=
  ⟨fun _ ↦ trivial, Answers.bind⟩

theorem Answers.call_bind {o : S.Op} {k : S.Res o → Prog S β}
    (h : ∀ r, (∀ x, D.takes o r x → (k r).Meets (D.meets x)) ∧ (k r).Answers D) :
    (call o >>= k).Answers D :=
  h

theorem Answers.lift_call_bind {D' : Duties T ι} {e : S.Emb T} {o : S.Op}
    {k : S.Res o → Prog T β}
    (h : ∀ r, (∀ x, D'.takes (e.op o) r x → (k (e.res o r)).Meets (D'.meets x)) ∧
      (k (e.res o r)).Answers D') : ((call o).lift e >>= k).Answers D' :=
  h

/-- A program whose sections take nothing over has nothing to answer for. -/
theorem Answers.of_all {p : Prog S α} (hp : p.All fun o ↦ ∀ r x, ¬ D.takes o r x) :
    p.Answers D := by
  induction p with
  | ret a => trivial
  | op o k ih => exact fun r ↦ ⟨fun x hx ↦ absurd hx (hp.1 r x), ih r (hp.2 r)⟩

theorem Answers.when {c : Prop} [Decidable c] {p : Prog S Unit} (hp : p.Answers D) :
    (when c p).Answers D := by
  unfold Prog.when
  split
  · exact hp
  · trivial

theorem Answers.forEach {γ : Type} {f : γ → Prog S Unit} (hf : ∀ x, (f x).Answers D)
    (xs : List γ) : (forEach xs f).Answers D := by
  induction xs with
  | nil => trivial
  | cons x xs ih => exact .bind (hf x) fun _ ↦ ih

theorem Answers.lift {D' : Duties T ι} {e : S.Emb T} {p : Prog S α} (hp : p.Answers D)
    (htakes : ∀ o r x, D'.takes (e.op o) r x → D.takes o (e.res o r) x)
    (hmeets : ∀ x o, D.meets x o → D'.meets x (e.op o)) : (p.lift e).Answers D' := by
  induction p with
  | ret a => trivial
  | op o k ih =>
    refine fun r ↦ ⟨fun x hx ↦ .lift ?_, ih _ (hp _).2⟩
    exact ((hp _).1 x (htakes o r x hx)).mono (hmeets x)

end Prog

namespace Machine

variable {Tid σ ι : Type} [DecidableEq Tid]

/-- What a machine needs for its threads to do their duties.  `owes s t x` is the state's account of
the duties: a thread gets one when it is started or by taking it over, and is rid of it when it
executes a section that meets it. -/
structure Dutiful (M : Machine Tid σ) (G : M.Guard) (D : Duties M.toSig ι)
    (owes : σ → Tid → ι → Prop) : Prop where
  init : ∀ s t x, M.init s → ¬ owes s t x
  enter : ∀ t e s p s', G s (.start t e) → M.enter t e s = some (p, s') →
    p.Answers D ∧ ∀ u x, owes s' u x → owes s u x ∨ u = t ∧ p.Meets (D.meets x)
  exec : ∀ t o i s r s', G s (.exec t o i) → M.run t o i s = some (r, s') →
    ∀ u x, owes s' u x → (owes s u x ∧ (u = t → ¬ D.meets x o)) ∨ u = t ∧ D.takes o r x

variable {M : Machine Tid σ} {G : M.Guard} {D : Duties M.toSig ι} {owes : σ → Tid → ι → Prop}

/-- Every thread answers for what it takes over, and what it owes is met by what it still has to
execute. -/
theorem Dutiful.sound (hM : M.Dutiful G D owes) {c : M.Config} (hc : M.Reach G c) :
    (∀ t p, c.thread t = some p → p.Answers D) ∧
      ∀ t x, owes c.state t x → ∃ p, c.thread t = some p ∧ p.Meets (D.meets x) := by
  apply System.Reach.invariant (I := fun c : M.Config ↦
    (∀ t p, c.thread t = some p → p.Answers D) ∧
      ∀ t x, owes c.state t x → ∃ p, c.thread t = some p ∧ p.Meets (D.meets x)) hc
  · intro c hinit
    exact ⟨fun t p hp ↦ by simp [hinit.2 t] at hp, fun t x hx ↦ absurd hx (hM.init _ t x hinit.1)⟩
  · intro c l c' hI hG hstep
    obtain ⟨hanswers, howes⟩ := hI
    have hothers : ∀ (t : Tid) (q : Option (Prog M.toSig Unit)),
        (∀ p, q = some p → p.Answers D) →
        ∀ u p, Function.update c.thread t q u = some p → p.Answers D := by
      intro t q hq u p hp
      by_cases hu : u = t
      · subst hu
        exact hq p (by simpa using hp)
      · exact hanswers u p (by simpa [hu] using hp)
    cases hstep with
    | @start t e p s' hidle henter =>
      obtain ⟨hp, hnew⟩ := hM.enter t e _ p s' hG henter
      refine ⟨hothers t _ fun q hq ↦ Option.some.inj hq ▸ hp, fun u x hx ↦ ?_⟩
      obtain hold | ⟨rfl, hmeets⟩ := hnew u x hx
      · obtain ⟨q, hq, hmeets⟩ := howes u x hold
        have hu : u ≠ t := by
          rintro rfl
          simp [hidle] at hq
        exact ⟨q, by simpa [hu] using hq, hmeets⟩
      · exact ⟨p, by simp, hmeets⟩
    | @exec t o k i r s' hthread hrun =>
      have hk := hanswers t _ hthread r
      refine ⟨hothers t _ fun q hq ↦ Option.some.inj hq ▸ hk.2, fun u x hx ↦ ?_⟩
      obtain ⟨hold, hunmet⟩ | ⟨rfl, htakes⟩ := hM.exec t o i _ r s' hG hrun u x hx
      · obtain ⟨q, hq, hmeets⟩ := howes u x hold
        by_cases hu : u = t
        · subst hu
          obtain rfl := Option.some.inj (hthread.symm.trans hq)
          exact ⟨k r, by simp, hmeets.resolve_left (hunmet rfl) r⟩
        · exact ⟨q, by simpa [hu] using hq, hmeets⟩
      · exact ⟨k r, by simp, hk.1 x htakes⟩
    | @finish t hthread =>
      refine ⟨hothers t none (by simp), fun u x hx ↦ ?_⟩
      obtain ⟨q, hq, hmeets⟩ := howes u x hx
      have hu : u ≠ t := by
        rintro rfl
        obtain rfl := Option.some.inj (hthread.symm.trans hq)
        exact hmeets
      exact ⟨q, by simpa [hu] using hq, hmeets⟩

/-- An idle thread owes nothing. -/
theorem Dutiful.idle (hM : M.Dutiful G D owes) {c : M.Config} (hc : M.Reach G c) {t : Tid}
    (hidle : c.thread t = none) (x : ι) : ¬ owes c.state t x := by
  intro hx
  obtain ⟨p, hp, -⟩ := (hM.sound hc).2 t x hx
  simp [hidle] at hp

end Machine

end ThunderboltStack.Lib
