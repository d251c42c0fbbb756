import Mathlib.Data.List.Chain

/-!
# Orbits of a partial function

A walk repeats a partial function until it has no value.  The values it goes through are the orbit
of where it starts.  An orbit that ends has no value twice, and if a second function leads back
from each of its values to the one before, the reversed orbit is the one of the second function.
-/

namespace ThunderboltStack.Lib

variable {α : Type*} {f g : α → Option α} {a b z : α} {l l' : List α}

/-- The values from `a` on, up to one that has no next value. -/
inductive Orbit (f : α → Option α) : α → List α → Prop
  | stop {a : α} : f a = none → Orbit f a [a]
  | next {a b : α} {l : List α} : f a = some b → Orbit f b l → Orbit f a (a :: l)

namespace Orbit

theorem unique (hl : Orbit f a l) (hl' : Orbit f a l') : l = l' := by
  induction hl generalizing l' with
  | stop hnone =>
    cases hl' with
    | stop => rfl
    | next hsome => simp [hnone] at hsome
  | next hsome _ ih =>
    cases hl' with
    | stop hnone => simp [hnone] at hsome
    | next hsome' hrest =>
      obtain rfl := Option.some.inj (hsome.symm.trans hsome')
      rw [ih hrest]

theorem head? (hl : Orbit f a l) : l.head? = some a := by
  cases hl <;> rfl

theorem exists_suffix (hl : Orbit f a l) (hb : b ∈ l) : ∃ l', l' <:+ l ∧ Orbit f b l' := by
  induction hl with
  | stop hnone =>
    obtain rfl := List.mem_singleton.1 hb
    exact ⟨[b], List.suffix_rfl, .stop hnone⟩
  | @next a _ l hsome hrest ih =>
    rcases List.mem_cons.1 hb with rfl | hb
    · exact ⟨b :: l, List.suffix_rfl, .next hsome hrest⟩
    · obtain ⟨l', hsuffix, horbit⟩ := ih hb
      exact ⟨l', hsuffix.trans (List.suffix_cons a l), horbit⟩

/-- A value that came again would come for ever. -/
theorem nodup (hl : Orbit f a l) : l.Nodup := by
  induction hl with
  | stop => simp
  | @next a _ l hsome hrest ih =>
    refine List.nodup_cons.2 ⟨?_, ih⟩
    intro hmem
    obtain ⟨l', hsuffix, hagain⟩ := hrest.exists_suffix hmem
    have heq : l' = a :: l := hagain.unique (.next hsome hrest)
    have hlen := hsuffix.length_le
    rw [heq, List.length_cons] at hlen
    omega

theorem isChain (hl : Orbit f a l) : l.IsChain (fun x y ↦ f x = some y) := by
  induction hl with
  | stop => exact .singleton _
  | next hsome hrest ih =>
    cases hrest with
    | stop | next => exact .cons_cons hsome ih

/-- A relation that holds in front of the rest of an orbit and along it. -/
theorem isChain_of_next {R : α → α → Prop} (hl : Orbit f a l) (hsome : f a = some b) (hab : R a b)
    (hrest : ∀ l', Orbit f b l' → l'.IsChain R) : l.IsChain R := by
  cases hl with
  | stop hnone => simp [hsome] at hnone
  | @next _ b' l' hsome' hl' =>
    obtain rfl : b = b' := Option.some.inj (hsome.symm.trans hsome')
    apply (hrest l' hl').cons
    intro y hy
    rw [hl'.head?] at hy
    exact Option.some.inj hy ▸ hab

theorem of_isChain (hhead : l.head? = some a) (hchain : l.IsChain (fun x y ↦ f x = some y))
    (hlast : l.getLast? = some z) (hstop : f z = none) : Orbit f a l := by
  induction l generalizing a with
  | nil => cases hhead
  | cons x l ih =>
    obtain rfl := Option.some.inj hhead
    cases l with
    | nil =>
      obtain rfl := Option.some.inj hlast
      exact .stop hstop
    | cons y l =>
      rw [List.isChain_cons_cons] at hchain
      rw [List.getLast?_cons_cons] at hlast
      exact .next hchain.1 (ih rfl hchain.2 hlast)

/-- The orbit back. -/
theorem reverse (hl : Orbit f a l) (hlast : l.getLast? = some z)
    (hback : l.IsChain (fun x y ↦ g y = some x)) (hstop : g a = none) : Orbit g z l.reverse := by
  apply of_isChain (z := a)
  · rw [List.head?_reverse, hlast]
  · exact List.isChain_reverse.2 hback
  · rw [List.getLast?_reverse, hl.head?]
  · exact hstop

end Orbit

end ThunderboltStack.Lib
